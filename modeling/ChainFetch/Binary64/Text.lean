import ChainFetch.Binary64
import ChainFetch.Text.Digits
/-!
Binary64 numbers as text: reading a decimal to the nearest number, and writing the shortest decimal
that reads back.
-/

namespace ChainFetch.Binary64

/-- A decimal without sign: digits with at most one point and at least one digit, then perhaps an
exponent. The answer is the significand and the power of ten. -/
def readDecimal? (cs : List Char) : Option (Nat × Int) :=
  let (whole, rest) := Text.splitDigits cs
  let (part, rest) := match rest with
    | '.' :: rest => Text.splitDigits rest
    | _ => ([], rest)
  let significand := Text.ofDigits (whole ++ part)
  if whole ++ part = [] then none
  else match rest with
    | [] => some (significand, -(part.length : Int))
    | e :: rest =>
      if e ≠ 'e' ∧ e ≠ 'E' then none
      else
        let (below, ds) := match rest with
          | '-' :: ds => (true, ds)
          | '+' :: ds => (false, ds)
          | _ => (false, rest)
        if ds = [] ∨ ¬ ds.all Char.isDigit then none
        else
          let power : Int := Text.ofDigits ds
          some (significand, (if below then -power else power) - part.length)

def read? (text : String) : Option Binary64 :=
  let (below, cs) := match text.toList with
    | '-' :: cs => (true, cs)
    | '+' :: cs => (false, cs)
    | cs => (false, cs)
  let name := String.ofList (cs.map Char.toLower)
  let size :=
    if name = "inf" ∨ name = "infinity" then some infinity
    else if name = "nan" then some nan
    else (readDecimal? cs).map fun (m, e) => ofDecimal m e
  if below then size.map negate else size

def decimalWidth : (fuel n : Nat) → Nat
  | 0, _ => 0
  | fuel + 1, n => if n = 0 then 0 else decimalWidth fuel (n / 10) + 1

def leadingPower (num den : Nat) : Int :=
  (decimalWidth 802 (num * Nat.pow 10 400 / den) : Int) - 401

/-- The nearest point of the grid `10 ^ k` to `value = num / den` that lies between the two bounds,
given over the same denominator; a tie goes to the even point. -/
def nearestOnGrid? (k : Int) (num low high den : Nat) (closed : Bool) : Option Nat :=
  let scale := if 0 ≤ k then 1 else Nat.pow 10 (-k).toNat
  let step := if 0 ≤ k then den * Nat.pow 10 k.toNat else den
  let inside (d : Nat) : Bool :=
    if closed then low * scale ≤ d * step && d * step ≤ high * scale
    else low * scale < d * step && d * step < high * scale
  let below := num * scale / step
  let nearer := roundHalfEven (num * scale) step
  let other := if nearer = below then below + 1 else below
  if inside nearer then some nearer else if inside other then some other else none

/-- The fewest digits that read back, with their power of ten, for a finite number above zero. -/
def shortest (m : Nat) (q : Int) : Nat × Int :=
  let (up, den) : Nat × Nat :=
    if 0 ≤ q then (Nat.pow 2 q.toNat, 4) else (1, 4 * Nat.pow 2 (-q).toNat)
  let num := 4 * m * up
  let high := (4 * m + 2) * up
  let low := (if m = Nat.pow 2 52 ∧ -1074 < q then 4 * m - 1 else 4 * m - 2) * up
  let top := leadingPower num den
  let hit := (List.range 17).findSome? fun (n : Nat) =>
    let k := top - n
    (nearestOnGrid? k num low high den (m % 2 == 0)).map fun d => (d, k)
  hit.getD (m, q)

def dropZeros (fuel d : Nat) (k : Int) : Nat × Int :=
  match fuel with
  | 0 => (d, k)
  | fuel + 1 => if d ≠ 0 ∧ d % 10 = 0 then dropZeros fuel (d / 10) (k + 1) else (d, k)

/-- How a decimal is laid out: positional while the point lies from five places left of the first
digit to sixteen right of it, and always with a point there; otherwise with an exponent. -/
def layout (d : Nat) (k : Int) : String :=
  let ds := toString d
  let point : Int := ds.length + k
  let zeros (n : Int) := String.ofList (List.replicate n.toNat '0')
  let take (n : Int) := String.ofList (ds.toList.take n.toNat)
  let drop (n : Int) := String.ofList (ds.toList.drop n.toNat)
  if 0 ≤ k ∧ point ≤ 16 then ds ++ zeros k ++ ".0"
  else if 0 < point ∧ point ≤ 16 then take point ++ "." ++ drop point
  else if -5 < point ∧ point ≤ 0 then "0." ++ zeros (-point) ++ ds
  else if ds.length = 1 then ds ++ "e" ++ toString (point - 1)
  else take 1 ++ "." ++ drop 1 ++ "e" ++ toString (point - 1)

/-- The shortest decimal that reads back; infinities and NaN have none and are written null. -/
def write (x : Binary64) : String :=
  let sign := if x.isNegative then "-" else ""
  match x.magnitude? with
  | none => "null"
  | some (0, _) => sign ++ "0.0"
  | some (m, q) =>
    let (d, k) := shortest m q
    let (d, k) := dropZeros 20 d k
    sign ++ layout d k

example : (read? "5").map bits = some 0x4014000000000000 := by decide +kernel
example : read? "-INF" = some (negate infinity) ∧ read? "." = none ∧ read? "1e" = none := by
  decide +kernel
example : shortest 1 (-1074) = (5, -324) := by decide +kernel
example : shortest (Nat.pow 2 52) 12 = (18446744073709552, 3) := by decide +kernel
example : layout 15 (-1) = "1.5" ∧ layout 1 2 = "100.0" ∧ layout 18 18 = "1.8e19" := by
  decide +kernel
example : layout 1 (-5) = "0.00001" ∧ layout 1 (-6) = "1e-6" := by decide +kernel

end ChainFetch.Binary64
