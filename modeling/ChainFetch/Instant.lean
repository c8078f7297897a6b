import ChainFetch.Duration
/-!
Instants of the years -262143 to 262142, to the nanosecond and with leap seconds, and the sum of an
instant and a duration where it stays in that range.
-/

namespace ChainFetch

/-- The first second of the year -262143, from the start of 1970. -/
def firstSecond : Int := -8334601228800

/-- The last second of the year 262142, from the start of 1970. -/
def lastSecond : Int := 8210266876799

/-- An instant: seconds from the start of 1970 and nanoseconds. Nanoseconds from `10 ^ 9` on lie in
the leap second that follows `secs`. -/
structure Instant where
  secs : Int
  nanos : Nat
  secs_ge : firstSecond ≤ secs
  secs_le : secs ≤ lastSecond
  nanos_lt : nanos < 2000000000
  deriving DecidableEq

namespace Instant

@[ext]
theorem ext {t u : Instant} (hs : t.secs = u.secs) (hn : t.nanos = u.nanos) : t = u := by
  cases t; cases u; simp_all

def mk? (secs : Int) (nanos : Nat) : Option Instant :=
  if h : firstSecond ≤ secs ∧ secs ≤ lastSecond ∧ nanos < 2000000000 then
    some ⟨secs, nanos, h.1, h.2.1, h.2.2⟩
  else none

def epoch : Instant := ⟨0, 0, by decide, by decide, by decide⟩

instance : Inhabited Instant := ⟨epoch⟩

instance : LT Instant := ⟨fun t u => t.secs < u.secs ∨ (t.secs = u.secs ∧ t.nanos < u.nanos)⟩
instance : LE Instant := ⟨fun t u => t.secs < u.secs ∨ (t.secs = u.secs ∧ t.nanos ≤ u.nanos)⟩
instance (t u : Instant) : Decidable (t < u) :=
  inferInstanceAs (Decidable (t.secs < u.secs ∨ (t.secs = u.secs ∧ t.nanos < u.nanos)))
instance (t u : Instant) : Decidable (t ≤ u) :=
  inferInstanceAs (Decidable (t.secs < u.secs ∨ (t.secs = u.secs ∧ t.nanos ≤ u.nanos)))

theorem lt_def {t u : Instant} :
    t < u ↔ t.secs < u.secs ∨ (t.secs = u.secs ∧ t.nanos < u.nanos) := Iff.rfl

theorem le_def {t u : Instant} :
    t ≤ u ↔ t.secs < u.secs ∨ (t.secs = u.secs ∧ t.nanos ≤ u.nanos) := Iff.rfl

theorem not_lt {t u : Instant} : ¬ t < u ↔ u ≤ t := by
  rw [lt_def, le_def]; omega

theorem lt_irrefl (t : Instant) : ¬ t < t := by rw [lt_def]; omega

theorem lt_trans {t u v : Instant} (h : t < u) (k : u < v) : t < v := by
  rw [lt_def] at *; omega

theorem lt_or_eq_or_gt (t u : Instant) : t < u ∨ t = u ∨ u < t := by
  by_cases h : t = u
  · exact Or.inr (Or.inl h)
  · have : ¬ (t.secs = u.secs ∧ t.nanos = u.nanos) := fun e => h (ext e.1 e.2)
    rw [lt_def, lt_def]; omega

/-- The longest duration that a sum accepts: `2 ^ 63 - 1` milliseconds. -/
def longestStep : Duration := Duration.ofMillis 9223372036854775807

/-- The instant `d` after `t`, if it exists and `d` is not longer than `longestStep`. A sum that
leaves a leap second counts that second as the one before it. -/
def add? (t : Instant) (d : Duration) : Option Instant :=
  if longestStep < d then none
  else if 1000000000 ≤ t.nanos ∧ t.nanos + d.nanos < 2000000000 then mk? t.secs (t.nanos + d.nanos)
  else
    let nanos := t.nanos % 1000000000 + d.nanos
    mk? (t.secs + nanos / 1000000000) (nanos % 1000000000)

theorem parts_of_mk? {secs : Int} {nanos : Nat} {t : Instant} (h : mk? secs nanos = some t) :
    t.secs = secs ∧ t.nanos = nanos := by
  unfold mk? at h
  split at h
  · cases h
    exact ⟨rfl, rfl⟩
  · cases h

theorem mk?_parts (t : Instant) : mk? t.secs t.nanos = some t :=
  dif_pos ⟨t.secs_ge, t.secs_le, t.nanos_lt⟩

theorem add?_cases {t u : Instant} {d : Duration} (h : t.add? d = some u) :
    (1000000000 ≤ t.nanos ∧ t.nanos + d.nanos < 2000000000 ∧
      u.secs = t.secs ∧ u.nanos = t.nanos + d.nanos) ∨
    (¬ (1000000000 ≤ t.nanos ∧ t.nanos + d.nanos < 2000000000) ∧
      u.secs = t.secs + ((t.nanos % 1000000000 + d.nanos) / 1000000000 : Nat) ∧
      u.nanos = (t.nanos % 1000000000 + d.nanos) % 1000000000) := by
  unfold add? at h
  split at h
  · cases h
  · split at h
    · rename_i within
      exact Or.inl ⟨within.1, within.2, parts_of_mk? h⟩
    · rename_i beyond
      exact Or.inr ⟨beyond, parts_of_mk? h⟩

theorem lt_of_add? {t u v : Instant} {d e : Duration} (shorter : d < e) (sum : t.add? d = some u)
    (sum' : t.add? e = some v) : u < v := by
  rw [Duration.lt_def] at shorter
  have bound := t.nanos_lt
  rw [lt_def]
  rcases add?_cases sum with ⟨_, _, _, _⟩ | ⟨_, _, _⟩ <;>
    rcases add?_cases sum' with ⟨_, _, _, _⟩ | ⟨_, _, _⟩ <;> omega

theorem le_iff_of_add? {t u v : Instant} {d e : Duration} (sum : t.add? d = some u)
    (sum' : t.add? e = some v) : u ≤ v ↔ d ≤ e := by
  rw [← not_lt, Duration.le_def]
  rcases Nat.lt_trichotomy d.nanos e.nanos with shorter | same | longer
  · exact iff_of_true (fun k => lt_irrefl u (lt_trans (lt_of_add? shorter sum sum') k))
      (Nat.le_of_lt shorter)
  · cases Duration.ext same
    cases sum.symm.trans sum'
    exact iff_of_true (lt_irrefl u) (Nat.le_refl _)
  · exact iff_of_false (not_not_intro (lt_of_add? longer sum' sum)) (Nat.not_le_of_gt longer)

end Instant
end ChainFetch
