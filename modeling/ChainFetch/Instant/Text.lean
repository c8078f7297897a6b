import ChainFetch.Instant.Calendar
import ChainFetch.Text.Blank
import ChainFetch.Text.Digits
/-!
Instants as RFC 3339 text. Writing gives UTC with the fewest of 0, 3, 6 or 9 fraction digits that
are exact. Reading takes any offset, numbers of fewer digits, and blanks between the parts.
-/

namespace ChainFetch.Instant

def fractionText (nanos : Nat) : String :=
  if nanos = 0 then ""
  else if nanos % 1000000 = 0 then "." ++ Text.padded 3 (nanos / 1000000)
  else if nanos % 1000 = 0 then "." ++ Text.padded 6 (nanos / 1000)
  else "." ++ Text.padded 9 nanos

/-- Years from 0 to 9999 have four digits, all others a sign and at least four. -/
def yearText (year : Int) : String :=
  if 0 ≤ year ∧ year ≤ 9999 then Text.padded 4 year.toNat
  else (if year < 0 then "-" else "+") ++ Text.padded 4 year.natAbs

/-- The instant in UTC; a leap second is second 60. -/
def text (t : Instant) : String :=
  let (year, month, day) := Calendar.ofDays (t.secs / 86400)
  let second := (t.secs % 86400).toNat
  let leap := t.nanos / 1000000000
  yearText year ++ "-" ++ Text.padded 2 month ++ "-" ++ Text.padded 2 day ++ "T" ++
    Text.padded 2 (second / 3600) ++ ":" ++ Text.padded 2 (second / 60 % 60) ++ ":" ++
    Text.padded 2 (second % 60 + leap) ++ fractionText (t.nanos % 1000000000) ++ "Z"

def number? (width : Nat) (cs : List Char) : Option (Nat × List Char) :=
  let cs := Text.trimLeft cs
  let ds := (cs.take width).takeWhile Char.isDigit
  if ds = [] then none else some (Text.ofDigits ds, cs.drop ds.length)

def year? (cs : List Char) : Option (Int × List Char) :=
  let cs := Text.trimLeft cs
  let signed (rest : List Char) : Option (Nat × List Char) :=
    let (ds, rest) := Text.splitDigits rest
    if ds = [] then none else some (Text.ofDigits ds, rest)
  match cs with
  | '-' :: rest => (signed rest).map fun (n, rest) => (-(n : Int), rest)
  | '+' :: rest => (signed rest).map fun (n, rest) => ((n : Int), rest)
  | _ => (number? 4 cs).map fun (n, rest) => ((n : Int), rest)

def mark? (c : Char) (cs : List Char) : Option (List Char) :=
  match Text.trimLeft cs with
  | d :: rest => if d = c then some rest else none
  | [] => none

/-- Nanoseconds of a fraction: nine digits count, further ones are dropped. -/
def fraction? (cs : List Char) : Option (Nat × List Char) :=
  match cs with
  | '.' :: rest =>
    let (ds, rest) := Text.splitDigits rest
    if ds = [] then none
    else
      let ds := ds.take 9
      some (Text.ofDigits ds * Nat.pow 10 (9 - ds.length), rest)
  | _ => some (0, cs)

def twoDigits? : List Char → Option (Nat × List Char)
  | a :: b :: rest =>
    if a.isDigit ∧ b.isDigit then some (Text.ofDigits [a, b], rest) else none
  | _ => none

/-- Seconds east of UTC: a sign, hours, colons or blanks if any, and minutes. -/
def signedOffset? (cs : List Char) : Option (Int × List Char) := do
  let (west, rest) ← match cs with
    | '+' :: rest => some (false, rest)
    | '-' :: rest => some (true, rest)
    | '−' :: rest => some (true, rest)
    | _ => none
  let (hours, rest) ← twoDigits? rest
  let (minutes, rest) ← twoDigits? (rest.dropWhile fun c => c = ':' || Text.isBlank c)
  let secs : Int := (hours * 3600 + minutes * 60 : Nat)
  if 59 < minutes then none else some (if west then -secs else secs, rest)

def offset? (cs : List Char) : Option (Int × List Char) :=
  match Text.trimLeft cs with
  | 'Z' :: rest => some (0, rest)
  | 'z' :: rest => some (0, rest)
  | cs =>
    if (cs.take 3).map Char.toLower = ['u', 't', 'c'] then some (0, cs.drop 3)
    else signedOffset? cs

def read? (text : String) : Option Instant := do
  let (year, rest) ← year? text.toList
  let (month, rest) ← mark? '-' rest >>= number? 2
  let (day, rest) ← mark? '-' rest >>= number? 2
  let rest ← match rest with
    | c :: rest => if c = 'T' ∨ c = 't' ∨ c = ' ' then some rest else none
    | [] => none
  let (hour, rest) ← number? 2 rest
  let (minute, rest) ← mark? ':' rest >>= number? 2
  let (second, rest) ← mark? ':' rest >>= number? 2
  let (nanos, rest) ← fraction? rest
  let (offset, rest) ← offset? rest
  if Text.trimLeft rest ≠ [] then none
  else if hour ≤ 23 ∧ minute ≤ 59 ∧ second ≤ 60 ∧ offset.natAbs < 86400 ∧
      Calendar.isDate year month day then
    let leap := second / 60
    let wall := Calendar.toDays year month day * 86400 +
      (hour * 3600 + minute * 60 + (second - leap) : Nat)
    if firstSecond ≤ wall ∧ wall ≤ lastSecond then
      mk? (wall - offset) (nanos + leap * 1000000000)
    else none
  else none

instance : Json.Codec Instant where
  encode t := .text t.text
  decode?
    | .text s => read? s
    | _ => none

end ChainFetch.Instant
