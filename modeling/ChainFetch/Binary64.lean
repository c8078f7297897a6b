/-!
Binary64 numbers by bit pattern. Main statement: `ofRatio` rounds an exact quotient to the nearest
pattern, a half going to the even one, and `magnitude?` reads a pattern back as `m · 2 ^ q`.
-/

namespace ChainFetch

/-- The quotient `num / den` rounded to the nearest natural number, a half to the even one. -/
def roundHalfEven (num den : Nat) : Nat :=
  let q := num / den
  let twice := 2 * (num % den)
  if den < twice ∨ (twice = den ∧ q % 2 = 1) then q + 1 else q

example : [roundHalfEven 5 2, roundHalfEven 7 2, roundHalfEven 9 4] = [2, 4, 2] := by decide

structure Binary64 where
  bits : UInt64
  deriving DecidableEq, Inhabited

namespace Binary64

def toFloat (x : Binary64) : Float := Float.ofBits x.bits

def ofFloat (f : Float) : Binary64 := ⟨f.toBits⟩

def exponent (x : Binary64) : Nat := (x.bits.toNat / Nat.pow 2 52) % 2048

def fraction (x : Binary64) : Nat := x.bits.toNat % Nat.pow 2 52

def isNegative (x : Binary64) : Bool := Nat.pow 2 63 ≤ x.bits.toNat

def isNaN (x : Binary64) : Bool := x.exponent = 2047 ∧ x.fraction ≠ 0

def isFinite (x : Binary64) : Bool := x.exponent < 2047

def isZero (x : Binary64) : Bool := x.exponent = 0 ∧ x.fraction = 0

def isPositive (x : Binary64) : Bool := !x.isNegative && !x.isNaN && !x.isZero

def infinity : Binary64 := ⟨0x7FF0000000000000⟩
def nan : Binary64 := ⟨0x7FF8000000000000⟩
def largest : Binary64 := ⟨0x7FEFFFFFFFFFFFFF⟩
def leastNormal : Binary64 := ⟨0x0010000000000000⟩

def negate (x : Binary64) : Binary64 := ⟨x.bits ^^^ 0x8000000000000000⟩

/-- The magnitude of a finite number as `m` and `q`, standing for `m · 2 ^ q`. -/
def magnitude? (x : Binary64) : Option (Nat × Int) :=
  if x.exponent = 2047 then none
  else if x.exponent = 0 then some (x.fraction, -1074)
  else some (x.fraction + Nat.pow 2 52, (x.exponent : Int) - 1075)

/-- The nearest number to `num / den`, a half to the even significand; too large a quotient is
infinity. -/
def ofRatio (num den : Nat) : Binary64 :=
  if num = 0 ∨ den = 0 then ⟨0⟩
  else
    let guess : Int := (Nat.log2 num : Int) - Nat.log2 den
    let reached :=
      if 0 ≤ guess then den * Nat.pow 2 guess.toNat ≤ num
      else den ≤ num * Nat.pow 2 (-guess).toNat
    let top := if reached then guess else guess - 1
    let q := max (top - 52) (-1074)
    let m :=
      if 0 ≤ q then roundHalfEven num (den * Nat.pow 2 q.toNat)
      else roundHalfEven (num * Nat.pow 2 (-q).toNat) den
    let bits := (q + 1074).toNat * Nat.pow 2 52 + m
    if bits < infinity.bits.toNat then ⟨UInt64.ofNat bits⟩ else infinity

def ofDecimal (digits : Nat) (scale : Int) : Binary64 :=
  let size := (Nat.log2 digits : Int) / 4 + scale
  if digits = 0 then ⟨0⟩
  else if 400 < size then infinity
  else if (Nat.log2 digits : Int) / 3 + 1 + scale < -400 then ⟨0⟩
  else if 0 ≤ scale then ofRatio (digits * Nat.pow 10 scale.toNat) 1
  else ofRatio digits (Nat.pow 10 (-scale).toNat)

def tenTo (n : Nat) : Binary64 := ofDecimal 1 n

example : (ofRatio 5 1).bits = 0x4014000000000000 := by decide
example : (ofRatio 1 3).bits = 0x3FD5555555555555 := by decide
example : (ofDecimal 5 (-324)).bits = 1 ∧ (ofDecimal 2 (-324)).bits = 0 := by decide +kernel
example : ofDecimal 2 308 = infinity ∧ ofDecimal 17976931348623157 292 = largest := by
  decide +kernel

end Binary64
end ChainFetch
