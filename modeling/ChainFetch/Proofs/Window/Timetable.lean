import Mathlib.Data.List.Forall2
import Mathlib.Data.List.Induction
import ChainFetch.Rehearsal.Window
/-!
The timetable of a driver: when each operation comes and when it ends, worked out from the
operations before it. An operation is asked for once the one before has come and, where the window
is full, once so many of those before have ended that it has room. Main statements:
`nthLeast_le_iff`, a time is among the `k` first of a list by a count, and `timetable_mono`, a wider
window makes nothing later.
-/

namespace ChainFetch.Rehearsal

/-! ## Times in their order -/

/-- The `k`-th of some times in their order, counted from zero. -/
def nthLeast (times : List Nat) (k : Nat) : Nat := times.mergeSort[k]?.getD 0

def latest (times : List Nat) : Nat := times.max?.getD 0

variable {times times' : List Nat} {k k' t : Nat}

theorem getElem?_le_iff_of_sorted (sorted : times.Pairwise (· ≤ ·)) (below : k < times.length) :
    times[k]?.getD 0 ≤ t ↔ k < times.countP (· ≤ t) := by
  induction times generalizing k with
  | nil => simp at below
  | cons a times ih =>
    obtain ⟨least, sorted⟩ := List.pairwise_cons.mp sorted
    by_cases within : a ≤ t
    · rw [List.countP_cons_of_pos (by simpa using within)]
      cases k with
      | zero => simpa using within
      | succ k =>
        rw [List.getElem?_cons_succ, ih sorted (by simpa using below)]
        omega
    · -- What stands behind `a` is no earlier than `a`.
      have none : (a :: times).countP (· ≤ t) = 0 := by
        rw [List.countP_eq_zero]
        intro b member
        rcases List.mem_cons.mp member with rfl | member
        · simpa using within
        · have := least b member
          simp only [decide_eq_true_eq]
          omega
      rw [none, List.getElem?_eq_getElem below, Option.getD_some]
      refine ⟨fun early => ?_, fun absurd => by omega⟩
      rcases List.mem_cons.mp (List.getElem_mem below) with same | member
      · omega
      · have := least _ member
        omega

theorem nthLeast_le_iff (below : k < times.length) :
    nthLeast times k ≤ t ↔ k < times.countP (· ≤ t) := by
  have perm := List.mergeSort_perm times fun a b => decide (a ≤ b)
  have sorted : times.mergeSort.Pairwise (· ≤ ·) :=
    (@List.pairwise_mergeSort _ (fun a b => decide (a ≤ b))
      (by simpa using fun a b c => Nat.le_trans) (by simp; omega) times).imp (by simp)
  rw [nthLeast, getElem?_le_iff_of_sorted sorted (by rwa [perm.length_eq]), perm.countP_eq]

theorem le_nthLeast_iff (below : k < times.length) :
    t ≤ nthLeast times k ↔ times.countP (· < t) ≤ k := by
  cases t with
  | zero => simp
  | succ t =>
    have same : times.countP (· < t + 1) = times.countP (· ≤ t) := by
      simp only [Nat.lt_succ_iff]
    rw [same, Nat.succ_le_iff, ← Nat.not_le, nthLeast_le_iff below, Nat.not_lt]

theorem countP_mono (early : List.Forall₂ (· ≤ ·) times' times) (t : Nat) :
    times.countP (· ≤ t) ≤ times'.countP (· ≤ t) := by
  induction early with
  | nil => exact Nat.le_refl _
  | @cons a b times' times first rest ih =>
    by_cases within : b ≤ t
    · rw [List.countP_cons_of_pos (by simpa using within),
        List.countP_cons_of_pos (by simpa using Nat.le_trans first within)]
      exact Nat.succ_le_succ ih
    · rw [List.countP_cons_of_neg (by simpa using within), List.countP_cons]
      exact Nat.le_add_right_of_le ih

theorem nthLeast_mono (early : List.Forall₂ (· ≤ ·) times' times) (place : k' ≤ k)
    (below : k < times.length) : nthLeast times' k' ≤ nthLeast times k := by
  have before : k' < times'.length := by
    rw [early.length_eq]
    omega
  have counted := (nthLeast_le_iff below).mp (Nat.le_refl (nthLeast times k))
  rw [nthLeast_le_iff before]
  have more := countP_mono early (nthLeast times k)
  omega

theorem latest_le_iff : latest times ≤ t ↔ ∀ a ∈ times, a ≤ t := by
  unfold latest
  cases largest : times.max? with
  | none => simp [List.max?_eq_none_iff.mp largest]
  | some m =>
    obtain ⟨member, above⟩ := List.max?_eq_some_iff.mp largest
    exact ⟨fun le a ha => Nat.le_trans (above a ha) le, fun all => all m member⟩

theorem le_latest {a : Nat} (member : a ∈ times) : a ≤ latest times :=
  latest_le_iff.mp (Nat.le_refl _) a member

theorem latest_mono (early : List.Forall₂ (· ≤ ·) times' times) : latest times' ≤ latest times := by
  rw [latest_le_iff]
  intro a member
  obtain ⟨i, found, rfl⟩ := List.mem_iff_getElem.mp member
  have bound : i < times.length := by
    rw [← early.length_eq]
    exact found
  exact Nat.le_trans (early.get found bound) (le_latest (List.getElem_mem bound))

/-! ## The recurrence -/

def Errand.span (e : Errand) (asked : Nat) : Span where
  yielded := asked + e.gap.ceilMillis
  finished := asked + e.gap.ceilMillis + e.delay.ceilMillis

def lastYielded (done : List Span) : Nat := (done.getLast?.map Span.yielded).getD 0

/-- When a driver that keeps `limit` in flight asks for the operation after those of `done`. It has
room for it once all of them but `limit - 1` have ended. -/
def askedAt (limit : Nat) (done : List Span) : Nat :=
  max (lastYielded done)
    (if limit ≤ done.length then nthLeast (done.map Span.finished) (done.length - limit) else 0)

/-- When the operations come and when they end, in the order of the source; a limit of zero counts
as one. -/
def timetable (limit : Nat) (errands : List Errand) : List Span :=
  errands.foldl (fun done e => done ++ [e.span (askedAt (max limit 1) done)]) []

def lastFinished (done : List Span) : Nat := latest (done.map Span.finished)

variable {limit limit' : Nat} {errands : List Errand} {done done' : List Span} {e : Errand}

theorem timetable_concat : timetable limit (errands ++ [e]) =
    timetable limit errands ++ [e.span (askedAt (max limit 1) (timetable limit errands))] := by
  rw [timetable, List.foldl_append]
  rfl

theorem length_timetable : (timetable limit errands).length = errands.length := by
  induction errands using List.reverseRecOn with
  | nil => rfl
  | append_singleton errands e ih => simp [timetable_concat, ih]

theorem timetable_take (n : Nat) :
    (timetable limit errands).take n = timetable limit (errands.take n) := by
  induction errands using List.reverseRecOn with
  | nil => simp [timetable]
  | append_singleton errands e ih =>
    rw [timetable_concat, List.take_append, List.take_append, ih, length_timetable]
    by_cases within : n ≤ errands.length
    · rw [Nat.sub_eq_zero_of_le within, List.take_zero, List.take_zero, List.append_nil,
        List.append_nil]
    · obtain ⟨m, more⟩ := Nat.exists_eq_add_of_lt (Nat.lt_of_not_le within)
      have one : n - errands.length = m + 1 := by omega
      rw [one, List.take_of_length_le (by omega), List.take_succ_cons, List.take_succ_cons,
        List.take_nil, List.take_nil, timetable_concat]

theorem getElem?_timetable {i : Nat} (found : errands[i]? = some e) :
    (timetable limit errands)[i]? =
      some (e.span (askedAt (max limit 1) ((timetable limit errands).take i))) := by
  obtain ⟨bound, rfl⟩ := List.getElem?_eq_some_iff.mp found
  have upTo : (timetable limit errands).take (i + 1) = timetable limit (errands.take (i + 1)) :=
    timetable_take (i + 1)
  rw [List.take_succ_eq_append_getElem bound, timetable_concat, ← timetable_take] at upTo
  have last := congrArg (·[i]?) upTo
  simpa [length_timetable, Nat.min_eq_left (Nat.le_of_lt bound)] using last

/-! ## Wider windows -/

def Span.NoLater (a b : Span) : Prop := a.yielded ≤ b.yielded ∧ a.finished ≤ b.finished

theorem lastYielded_mono (early : List.Forall₂ Span.NoLater done' done) :
    lastYielded done' ≤ lastYielded done := by
  have reversed := List.rel_reverse early
  unfold lastYielded
  rw [← List.head?_reverse, ← List.head?_reverse]
  generalize done'.reverse = r', done.reverse = r at reversed
  cases reversed with
  | nil => exact Nat.le_refl _
  | cons last rest => exact last.1

theorem askedAt_mono (early : List.Forall₂ Span.NoLater done' done) (wider : limit ≤ limit')
    (positive : 1 ≤ limit) : askedAt limit' done' ≤ askedAt limit done := by
  have finishes : List.Forall₂ (· ≤ ·) (done'.map Span.finished) (done.map Span.finished) := by
    rw [List.forall₂_map_left_iff, List.forall₂_map_right_iff]
    exact early.imp fun a b h => h.2
  have room : (if limit' ≤ done'.length then
        nthLeast (done'.map Span.finished) (done'.length - limit') else 0) ≤
      (if limit ≤ done.length then
        nthLeast (done.map Span.finished) (done.length - limit) else 0) := by
    rw [early.length_eq]
    split
    · rename_i full
      rw [if_pos (Nat.le_trans wider full)]
      exact nthLeast_mono finishes (by omega) (by rw [List.length_map]; omega)
    · exact Nat.zero_le _
  have come := lastYielded_mono early
  unfold askedAt
  omega

/-- A wider window makes nothing later. -/
theorem timetable_mono (wider : limit ≤ limit') (errands : List Errand) :
    List.Forall₂ Span.NoLater (timetable limit' errands) (timetable limit errands) := by
  -- The last errand waits for those before it, so the induction is from the end.
  induction errands using List.reverseRecOn with
  | nil => exact .nil
  | append_singleton errands e ih =>
    have asked : askedAt (max limit' 1) (timetable limit' errands) ≤
        askedAt (max limit 1) (timetable limit errands) :=
      askedAt_mono ih (by omega) (by omega)
    rw [timetable_concat, timetable_concat]
    refine List.rel_append ih (.cons ⟨?_, ?_⟩ .nil)
    · exact Nat.add_le_add_right asked _
    · exact Nat.add_le_add_right (Nat.add_le_add_right asked _) _

theorem lastFinished_mono (early : List.Forall₂ Span.NoLater done' done) :
    lastFinished done' ≤ lastFinished done := by
  apply latest_mono
  rw [List.forall₂_map_left_iff, List.forall₂_map_right_iff]
  exact early.imp fun a b h => h.2

end ChainFetch.Rehearsal
