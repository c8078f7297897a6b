import ChainFetch.Json
import ChainFetch.Text.Digits
/-!
Reading JSON text. A number is an integer while it has neither fraction nor exponent and fits 64
bits; any other is a real, computed from the digits that fit 64 bits and a power of ten.
-/

namespace ChainFetch.Json

def isGap (c : Char) : Bool := c = ' ' || c = '\n' || c = '\t' || c = '\r'

def skipGap (cs : List Char) : List Char := cs.dropWhile isGap

/-- Adds digits to a significand while the result stays below `2 ^ 64`; the rest is handed back. -/
def takeDigits (significand : Nat) : List Char → Nat × List Char
  | [] => (significand, [])
  | d :: ds =>
    let next := 10 * significand + Text.digitValue d
    if next < UInt64.size then takeDigits next ds else (significand, d :: ds)

/-- Divides a significand below `2 ^ 64` by `10 ^ n`, at most 308 places in one division; past two
divisions nothing is left. -/
def scaleDown (f : Float) (n : Nat) : Float :=
  if n ≤ 308 then f / (Binary64.tenTo n).toFloat
  else if n ≤ 616 then f / (Binary64.tenTo 308).toFloat / (Binary64.tenTo (n - 308)).toFloat
  else 0

/-- The real `significand · 10 ^ power`, by one product or by quotients in floating point. A value
too large for a real is refused. -/
def real? (below : Bool) (significand : Nat) (power : Int) : Option Json :=
  let f := (UInt64.ofNat significand).toFloat
  let scaled :=
    if 0 ≤ power then
      if significand = 0 then some f
      else if 308 < power then none
      else
        let g := f * (Binary64.tenTo power.toNat).toFloat
        if g.isInf then none else some g
    else some (scaleDown f (-power).toNat)
  scaled.map fun g => real (Binary64.ofFloat (if below then -g else g))

/-- The power that an exponent's digits give. From `2 ^ 31` on only the sign counts: the value is
then zero, or refused when the exponent is positive and the significand is not zero. -/
def exponent? (below : Bool) (significand : Nat) (shift : Int) (minus : Bool) (ds : List Char) :
    Option Json :=
  let power : Int := Text.ofDigits ds
  if power < 2147483648 then
    real? below significand (if minus then shift - power else shift + power)
  else if significand ≠ 0 ∧ ¬ minus then none
  else real? below 0 0

def readNumber? (below : Bool) (cs : List Char) : Option (Json × List Char) :=
  let (whole, rest) := Text.splitDigits cs
  let (significand, dropped) := takeDigits 0 whole
  if whole = [] ∨ (1 < whole.length ∧ whole.head? = some '0') then none
  else
    let withExponent (significand : Nat) (shift : Int) (rest : List Char) :
        Option (Json × List Char) :=
      let (minus, rest) := match rest with
        | '-' :: rest => (true, rest)
        | '+' :: rest => (false, rest)
        | _ => (false, rest)
      let (ds, rest) := Text.splitDigits rest
      if ds = [] then none else (exponent? below significand shift minus ds).map (·, rest)
    let afterDigits (significand : Nat) (shift : Int) (rest : List Char) :
        Option (Json × List Char) :=
      match rest with
      | 'e' :: rest => withExponent significand shift rest
      | 'E' :: rest => withExponent significand shift rest
      | _ => (real? below significand shift).map (·, rest)
    match rest with
    | '.' :: rest =>
      let (part, rest) := Text.splitDigits rest
      let (longer, unused) := takeDigits significand part
      let used : Int := part.length - unused.length
      if part = [] then none else afterDigits longer (dropped.length - used) rest
    | c :: _ =>
      if c = 'e' ∨ c = 'E' ∨ dropped ≠ [] then afterDigits significand dropped.length rest
      else integer significand rest
    | [] =>
      if dropped ≠ [] then afterDigits significand dropped.length [] else integer significand []
where
  /-- Minus zero and what lies below `-2 ^ 63` are reals. -/
  integer (significand : Nat) (rest : List Char) : Option (Json × List Char) :=
    if below then
      if significand = 0 ∨ 9223372036854775808 < significand then
        (real? true significand 0).map (·, rest)
      else some (int (-significand), rest)
    else some (int significand, rest)

def hexValue? (c : Char) : Option Nat :=
  if c.isDigit then some (c.toNat - 48)
  else if 'a' ≤ c ∧ c ≤ 'f' then some (c.toNat - 87)
  else if 'A' ≤ c ∧ c ≤ 'F' then some (c.toNat - 55)
  else none

def unit? (a b c d : Char) : Option Nat := do
  let a ← hexValue? a
  let b ← hexValue? b
  let c ← hexValue? c
  let d ← hexValue? d
  pure (((a * 16 + b) * 16 + c) * 16 + d)

def escaped? (c : Char) : Option Char :=
  match c with
  | '"' => some '"'
  | '\\' => some '\\'
  | '/' => some '/'
  | 'b' => some '\x08'
  | 'f' => some '\x0c'
  | 'n' => some '\n'
  | 'r' => some '\r'
  | 't' => some '\t'
  | _ => none

def readText? (seen : List Char) : List Char → Option (String × List Char)
  | [] => none
  | '"' :: rest => some (String.ofList seen.reverse, rest)
  | '\\' :: 'u' :: a :: b :: c :: d :: '\\' :: 'u' :: e :: f :: g :: h :: rest => do
    let high ← unit? a b c d
    if 0xD800 ≤ high ∧ high < 0xDC00 then
      let low ← unit? e f g h
      if 0xDC00 ≤ low ∧ low < 0xE000 then
        readText? (Char.ofNat (0x10000 + (high - 0xD800) * 0x400 + (low - 0xDC00)) :: seen) rest
      else none
    else if 0xDC00 ≤ high ∧ high < 0xE000 then none
    else readText? (Char.ofNat high :: seen) ('\\' :: 'u' :: e :: f :: g :: h :: rest)
  | '\\' :: 'u' :: a :: b :: c :: d :: rest => do
    let n ← unit? a b c d
    if 0xD800 ≤ n ∧ n < 0xE000 then none else readText? (Char.ofNat n :: seen) rest
  | '\\' :: c :: rest => do
    let e ← escaped? c
    readText? (e :: seen) rest
  | c :: rest => if c.toNat < 32 then none else readText? (c :: seen) rest
termination_by cs => cs.length

mutual

def readValue? : (fuel : Nat) → List Char → Option (Json × List Char)
  | 0, _ => none
  | fuel + 1, cs =>
    match skipGap cs with
    | 'n' :: 'u' :: 'l' :: 'l' :: rest => some (null, rest)
    | 't' :: 'r' :: 'u' :: 'e' :: rest => some (bool true, rest)
    | 'f' :: 'a' :: 'l' :: 's' :: 'e' :: rest => some (bool false, rest)
    | '"' :: rest => (readText? [] rest).map fun (s, rest) => (text s, rest)
    | '[' :: rest =>
      match skipGap rest with
      | ']' :: rest => some (list [], rest)
      | rest => (readItems? fuel rest).map fun (items, rest) => (list items, rest)
    | '{' :: rest =>
      match skipGap rest with
      | '}' :: rest => some (object [], rest)
      | rest => (readFields? fuel rest).map fun (fields, rest) => (ofFields fields, rest)
    | '-' :: rest => readNumber? true rest
    | rest => readNumber? false rest

def readItems? : (fuel : Nat) → List Char → Option (List Json × List Char)
  | 0, _ => none
  | fuel + 1, cs =>
    match readValue? fuel cs with
    | none => none
    | some (item, rest) =>
      match skipGap rest with
      | ']' :: rest => some ([item], rest)
      | ',' :: rest => (readItems? fuel rest).map fun (items, rest) => (item :: items, rest)
      | _ => none

def readFields? : (fuel : Nat) → List Char → Option (List (String × Json) × List Char)
  | 0, _ => none
  | fuel + 1, cs =>
    match skipGap cs with
    | '"' :: rest =>
      match readText? [] rest with
      | none => none
      | some (name, rest) =>
        match skipGap rest with
        | ':' :: rest =>
          match readValue? fuel rest with
          | none => none
          | some (value, rest) =>
            match skipGap rest with
            | '}' :: rest => some ([(name, value)], rest)
            | ',' :: rest =>
              (readFields? fuel rest).map fun (fields, rest) => ((name, value) :: fields, rest)
            | _ => none
        | _ => none
    | _ => none

end

def read? (text : String) : Option Json :=
  let cs := text.toList
  match readValue? (2 * cs.length + 2) cs with
  | some (j, rest) => if skipGap rest = [] then some j else none
  | none => none

end ChainFetch.Json
