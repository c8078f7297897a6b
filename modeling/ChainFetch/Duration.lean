import ChainFetch.Json
/-!
Lengths of time in whole nanoseconds. As JSON a duration is its whole milliseconds modulo `2 ^ 64`;
main statement: `decode?_encode`.
-/

namespace ChainFetch

structure Duration where
  nanos : Nat
  deriving DecidableEq, Inhabited

namespace Duration

@[ext]
theorem ext {d e : Duration} (h : d.nanos = e.nanos) : d = e := by
  cases d; cases e; simp_all

instance : LE Duration := ⟨fun d e => d.nanos ≤ e.nanos⟩
instance : LT Duration := ⟨fun d e => d.nanos < e.nanos⟩
instance (d e : Duration) : Decidable (d ≤ e) := inferInstanceAs (Decidable (d.nanos ≤ e.nanos))
instance (d e : Duration) : Decidable (d < e) := inferInstanceAs (Decidable (d.nanos < e.nanos))
instance : Min Duration := ⟨fun d e => ⟨min d.nanos e.nanos⟩⟩
instance : Max Duration := ⟨fun d e => ⟨max d.nanos e.nanos⟩⟩
instance : Add Duration := ⟨fun d e => ⟨d.nanos + e.nanos⟩⟩

/-- What is left of `d` after `e`, nothing if `e` is longer. -/
instance : Sub Duration := ⟨fun d e => ⟨d.nanos - e.nanos⟩⟩

theorem le_def {d e : Duration} : d ≤ e ↔ d.nanos ≤ e.nanos := Iff.rfl
theorem lt_def {d e : Duration} : d < e ↔ d.nanos < e.nanos := Iff.rfl

@[simp] theorem nanos_min (d e : Duration) : (min d e).nanos = min d.nanos e.nanos := rfl
@[simp] theorem nanos_sub (d e : Duration) : (d - e).nanos = d.nanos - e.nanos := rfl

theorem le_total (d e : Duration) : d ≤ e ∨ e ≤ d := Nat.le_total _ _
theorem le_max_right (d e : Duration) : e ≤ max d e := Nat.le_max_right _ _
theorem min_eq_left {d e : Duration} (h : d ≤ e) : min d e = d := ext (Nat.min_eq_left h)
theorem min_eq_right {d e : Duration} (h : e ≤ d) : min d e = e := ext (Nat.min_eq_right h)

def zero : Duration := ⟨0⟩
def ofMillis (n : Nat) : Duration := ⟨n * 1000000⟩
def ofSecs (n : Nat) : Duration := ⟨n * 1000000000⟩
def ofParts (secs nanos : Nat) : Duration := ⟨secs * 1000000000 + nanos⟩

def longest : Duration := ofParts 18446744073709551615 999999999

def isZero (d : Duration) : Bool := d.nanos = 0
def secs (d : Duration) : Nat := d.nanos / 1000000000
def subNanos (d : Duration) : Nat := d.nanos % 1000000000

def millis (d : Duration) : Nat := d.nanos / 1000000

def ceilMillis (d : Duration) : Nat := (d.nanos + 999999) / 1000000

@[simp] theorem millis_ofMillis (n : Nat) : (ofMillis n).millis = n := by
  simp [ofMillis, millis]

@[simp] theorem ceilMillis_ofMillis (n : Nat) : (ofMillis n).ceilMillis = n := by
  simp only [ofMillis, ceilMillis]; omega

def word (d : Duration) : UInt64 := UInt64.ofNat d.millis

/-- The duration cut to its whole milliseconds modulo `2 ^ 64`. -/
def toWord (d : Duration) : Duration := ofMillis d.word.toNat

instance : Json.Codec Duration where
  encode d := Json.encode d.word
  decode? j := (Json.decode? j : Option UInt64).map fun n => ofMillis n.toNat

theorem decode?_encode (d : Duration) : Json.decode? (Json.encode d) = some d.toWord := by
  change (Json.decode? (Json.encode d.word)).map _ = _
  rw [Json.decode?_encode_uint64]
  rfl

theorem toWord_eq (d : Duration) : d.toWord = ofMillis (d.millis % UInt64.size) := by
  rw [toWord, word, UInt64.toNat_ofNat']

@[simp] theorem word_toWord (d : Duration) : d.toWord.word = d.word := by
  rw [word, toWord, millis_ofMillis, UInt64.ofNat_toNat]

theorem millis_lt_iff {d : Duration} {n : Nat} : d.millis < n ↔ d < ofMillis n := by
  change d.nanos / 1000000 < n ↔ d.nanos < n * 1000000
  omega

theorem toWord_of_lt {d : Duration} (h : d < ofMillis UInt64.size) :
    d.toWord = ofMillis d.millis := by
  rw [toWord_eq, Nat.mod_eq_of_lt (millis_lt_iff.mpr h)]

theorem toWord_eq_self_iff {d : Duration} : d.toWord = d ↔ ∃ n : UInt64, d = .ofMillis n.toNat := by
  constructor
  · intro whole
    exact ⟨d.word, whole.symm⟩
  · rintro ⟨n, rfl⟩
    rw [toWord, word, millis_ofMillis, UInt64.ofNat_toNat]

theorem encode_toWord (d : Duration) : Json.encode d.toWord = Json.encode d := by
  change Json.encode d.toWord.word = Json.encode d.word
  rw [word_toWord]

def toReal (d : Duration) : Float :=
  (UInt64.ofNat d.secs).toFloat + (UInt64.ofNat d.subNanos).toFloat / 1e9

/-- The duration of a real number of seconds, to the nearest nanosecond, a half to the even one. A
negative number, NaN, and seconds beyond 64 bits have none; minus zero is zero. -/
def ofReal? (x : Binary64) : Option Duration :=
  match x.magnitude? with
  | none => none
  | some (m, q) =>
    let nanos :=
      if 0 ≤ q then m * Nat.pow 2 q.toNat * 1000000000
      else roundHalfEven (m * 1000000000) (Nat.pow 2 (-q).toNat)
    if x.isNegative ∧ m ≠ 0 then none
    else if nanos < 18446744073709551616 * 1000000000 then some ⟨nanos⟩
    else none

example : (ofReal? (Binary64.ofRatio 3 2)).map nanos = some 1500000000 := by decide +kernel
example : ofReal? Binary64.nan = none ∧ ofReal? Binary64.infinity = none := by decide
example : (ofReal? (Binary64.negate ⟨0⟩)).map nanos = some 0 := by decide +kernel

end Duration
end ChainFetch
