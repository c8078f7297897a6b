import Mathlib.Data.List.ReduceOption
import Mathlib.Data.Nat.Dist
import ChainFetch.Cursor
/-!
Many merges one after another. Main statement: `mergeAll_telescopes`, they end as far in their
direction as any cursor given, in whatever order these come, and what the steps count adds up to the
way between the ends.
-/

namespace ChainFetch

variable {γ : Type} [Cursor γ]

def place (c : γ) : Nat := (Cursor.position c).toNat

namespace Direction

variable {d : Direction} {held reached : Option γ} {prev last : γ} {bounds : List (Option γ)}

def mergeAll (d : Direction) (held : Option γ) (bounds : List (Option γ)) : Option γ :=
  bounds.foldl (fun held reached => (d.merge held reached).cursor) held

/-- The merges that lead there, each beside the cursor that it found. -/
def mergeSteps (d : Direction) (held : Option γ) : List (Option γ) → List (Option γ × Merge γ)
  | [] => []
  | reached :: bounds =>
    (held, d.merge held reached) :: d.mergeSteps (d.merge held reached).cursor bounds

def counted (steps : List (Option γ × Merge γ)) : Nat :=
  (steps.map fun step => step.2.newItems.toNat).sum

/-- The position that lies furthest in the direction. -/
def furthest (d : Direction) (places : List Nat) : Option Nat :=
  match d with
  | forward => places.max?
  | backward => places.min?

/-- The way from one position to another, negative against the direction. -/
def way (d : Direction) (p q : Nat) : Int :=
  match d with
  | forward => q - p
  | backward => p - q

def gap : Option γ → Option γ → Nat
  | some prev, some last => Nat.dist (place prev) (place last)
  | _, _ => 0

/-! ## One merge -/

theorem advances_iff : d.advances prev last = true ↔ 0 < d.way (place prev) (place last) := by
  cases d <;> simp [advances, way, place, UInt64.lt_iff_toNat_lt]

theorem toNat_distance (h : d.advances prev last = true) :
    ((d.distance prev last).toNat : Int) = d.way (place prev) (place last) := by
  have ahead := advances_iff.mp h
  cases d with
  | forward =>
    simp only [advances, decide_eq_true_eq] at h
    simp only [distance, way, place, UInt64.toNat_sub_of_le _ _ (UInt64.le_of_lt h)] at ahead ⊢
    omega
  | backward =>
    simp only [advances, decide_eq_true_eq] at h
    simp only [distance, way, place, UInt64.toNat_sub_of_le _ _ (UInt64.le_of_lt h)] at ahead ⊢
    omega

theorem merge_some (d : Direction) (prev : γ) (reached : Option γ) :
    ∃ next, (d.merge (some prev) reached).cursor = some next ∧
      ((d.merge (some prev) reached).newItems.toNat : Int) =
        d.way (place prev) (place next) := by
  cases reached with
  | none => exact ⟨prev, rfl, by cases d <;> simp [merge, way]⟩
  | some last =>
    cases h : d.advances prev last with
    | true => exact ⟨last, by simp [merge, h], by simpa [merge, h] using toNat_distance h⟩
    | false => exact ⟨prev, by simp [merge, h], by cases d <;> simp [merge, h, way]⟩

theorem furthest_cons_cons (d : Direction) (p q : Nat) (places : List Nat) :
    d.furthest (p :: q :: places) =
      d.furthest ((if 0 < d.way p q then q else p) :: places) := by
  cases d with
  | forward =>
    have larger : max p q = if 0 < way .forward p q then q else p := by grind [way]
    rw [← larger]
    rfl
  | backward =>
    have smaller : min p q = if 0 < way .backward p q then q else p := by grind [way]
    rw [← smaller]
    rfl

theorem furthest_merge (d : Direction) (prev last : γ) (places : List Nat) :
    d.furthest (((d.merge (some prev) (some last)).cursor.map place).toList ++ places) =
      d.furthest (place prev :: place last :: places) := by
  rw [furthest_cons_cons, merge]
  cases h : d.advances prev last with
  | true =>
    rw [if_pos (advances_iff.mp h)]
    rfl
  | false =>
    rw [if_neg (mt advances_iff.mpr (by simp [h]))]
    rfl

/-! ## All of them -/

theorem furthest_perm {ps qs : List Nat} (h : ps.Perm qs) : d.furthest ps = d.furthest qs := by
  apply Option.ext
  intro p
  cases d <;> simp [furthest, List.max?_eq_some_iff, List.min?_eq_some_iff, h.mem_iff]

theorem map_place_mergeAll (d : Direction) (held : Option γ) (bounds : List (Option γ)) :
    (d.mergeAll held bounds).map place =
      d.furthest ((held :: bounds).reduceOption.map place) := by
  induction bounds generalizing held with
  | nil => cases held <;> cases d <;> rfl
  | cons reached bounds ih =>
    have next : d.mergeAll held (reached :: bounds) =
      d.mergeAll (d.merge held reached).cursor bounds := rfl
    rw [next, ih]
    match held, reached with
    | none, none => rfl
    | none, some last => rfl
    | some prev, none => rfl
    | some prev, some last =>
      have rest := furthest_merge d prev last (bounds.reduceOption.map place)
      obtain ⟨next, cursor, -⟩ := merge_some d prev (some last)
      rw [cursor] at rest ⊢
      exact rest

theorem counted_of_some (d : Direction) (prev : γ) (bounds : List (Option γ)) :
    ∃ last, d.mergeAll (some prev) bounds = some last ∧
      (counted (d.mergeSteps (some prev) bounds) : Int) = d.way (place prev) (place last) := by
  induction bounds generalizing prev with
  | nil => exact ⟨prev, rfl, by cases d <;> simp [counted, mergeSteps, way]⟩
  | cons reached bounds ih =>
    obtain ⟨next, cursor, items⟩ := merge_some d prev reached
    obtain ⟨last, ends, rest⟩ := ih next
    refine ⟨last, ?_, ?_⟩
    · rw [← ends, ← cursor]
      rfl
    · have split : counted (d.mergeSteps (some prev) (reached :: bounds)) =
          (d.merge (some prev) reached).newItems.toNat +
            counted (d.mergeSteps (some next) bounds) := by
        rw [← cursor]
        rfl
      rw [split, Int.natCast_add, items, rest]
      cases d <;> simp only [way] <;> omega

theorem dist_of_way {n p q : Nat} (h : (n : Int) = d.way p q) : n = Nat.dist p q := by
  cases d <;> simp only [way, Nat.dist] at h ⊢ <;> omega

theorem counted_mergeSteps (d : Direction) (held : Option γ) (bounds : List (Option γ)) :
    counted (d.mergeSteps held bounds) =
      gap (held :: bounds).reduceOption.head? (d.mergeAll held bounds) +
        (if held.isNone && bounds.any Option.isSome then 1 else 0) := by
  have fromSome : ∀ (prev : γ) (bounds : List (Option γ)),
      counted (d.mergeSteps (some prev) bounds) =
        gap (some prev) (d.mergeAll (some prev) bounds) := by
    intro prev bounds
    obtain ⟨last, ends, items⟩ := counted_of_some d prev bounds
    rw [ends]
    exact dist_of_way items
  cases held with
  | some prev => simpa using fromSome prev bounds
  | none =>
    -- Up to the first boundary nothing is counted; that one counts one, and is held from there on.
    induction bounds with
    | nil => rfl
    | cons reached bounds ih =>
      cases reached with
      | none =>
        have skip : counted (d.mergeSteps none (none :: bounds)) =
            counted (d.mergeSteps none bounds) := Nat.zero_add _
        rw [skip, ih]
        rfl
      | some first =>
        have one : counted (d.mergeSteps none (some first :: bounds)) =
            1 + counted (d.mergeSteps (some first) bounds) := rfl
        rw [one, fromSome, Nat.add_comm]
        rfl

/-- Merging boundaries in turn ends at a cursor with the furthest of all positions, in whatever
order they come, and at none where there is none. What the steps count adds up to the distance
between the first cursor held and the last, with one item more for a first cursor that was not held
at the start. The guard lets every step through. -/
theorem mergeAll_telescopes (d : Direction) (held : Option γ) (bounds : List (Option γ)) :
    (d.mergeAll held bounds).map place = d.furthest ((held :: bounds).reduceOption.map place) ∧
    (∀ other, other.Perm bounds →
      (d.mergeAll held other).map place = (d.mergeAll held bounds).map place) ∧
    counted (d.mergeSteps held bounds) =
      gap (held :: bounds).reduceOption.head? (d.mergeAll held bounds) +
        (if held.isNone && bounds.any Option.isSome then 1 else 0) ∧
    ∀ step ∈ d.mergeSteps held bounds, d.guard step.1 step.2.cursor = step.2.cursor := by
  refine ⟨map_place_mergeAll d held bounds, ?_, counted_mergeSteps d held bounds, ?_⟩
  · intro other perm
    rw [map_place_mergeAll, map_place_mergeAll]
    apply furthest_perm
    exact ((perm.cons held).filterMap id).map place
  · intro step member
    induction bounds generalizing held with
    | nil => cases member
    | cons reached bounds ih =>
      rcases List.mem_cons.mp member with rfl | later
      · exact guard_merge d held reached
      · exact ih _ later

end Direction
end ChainFetch
