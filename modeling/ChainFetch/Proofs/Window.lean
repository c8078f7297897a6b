import Mathlib.Data.List.Nodup
import ChainFetch.Window
/-!
A window's operations in flight carry different numbers, so that an operation can be followed from
its pull to its output. Main statement: `mem_running_set`.
-/

namespace ChainFetch.Window

variable {τ ω : Type} {w w' : Window τ ω} {k n : Nat} {op op' : τ} {out : ω} {r : Nat × τ}

/-- The operations in flight have different numbers, all given out. -/
structure Numbered (w : Window τ ω) : Prop where
  distinct : (w.running.map (·.1)).Nodup
  pulled : ∀ r ∈ w.running, r.1 < w.pulled

theorem numbered_new (limit : Nat) : (new limit : Window τ ω).Numbered :=
  ⟨List.nodup_nil, by simp [new]⟩

theorem Numbered.eq_of_mem (h : w.Numbered) (a : (k, op) ∈ w.running) (b : (k, op') ∈ w.running) :
    op = op' := by
  have same := List.inj_on_of_nodup_map h.distinct a b rfl
  cases same
  rfl

theorem Numbered.get?_eq_some_iff (h : w.Numbered) :
    w.get? k = some op ↔ (k, op) ∈ w.running := by
  unfold get?
  rw [Option.map_eq_some_iff]
  constructor
  · rintro ⟨r, found, rfl⟩
    have number := List.find?_some found
    simp only [decide_eq_true_eq] at number
    rw [← number]
    exact List.mem_of_find?_eq_some found
  · intro member
    cases found : w.running.find? (·.1 = k) with
    | none =>
      have absent := List.find?_eq_none.mp found (k, op) member
      simp at absent
    | some r =>
      have number := List.find?_some found
      simp only [decide_eq_true_eq] at number
      refine ⟨r, rfl, ?_⟩
      apply h.eq_of_mem (k := k) _ member
      rw [← number]
      exact List.mem_of_find?_eq_some found

/-! ## Pulling and closing -/

theorem pull?_cases (h : w.pull? op = some w') :
    w.isOpen = true ∧
      w' = { w with pulled := w.pulled + 1, running := w.running ++ [(w.pulled, op)] } := by
  unfold pull? at h
  split at h
  · rename_i opened
    cases h
    exact ⟨opened, rfl⟩
  · cases h

theorem close?_cases (h : w.close? = some w') :
    w.isOpen = true ∧ w' = { w with exhausted := true } := by
  unfold close? at h
  split at h
  · rename_i opened
    cases h
    exact ⟨opened, rfl⟩
  · cases h

theorem complete?_cases (h : w.complete? k out = some w') :
    w' = { w with
      running := w.running.filter (·.1 ≠ k), outputs := w.outputs ++ [(k, out)] } := by
  unfold complete? at h
  split at h
  · cases h
    rfl
  · cases h

theorem Numbered.pull? (h : w.Numbered) (k : w.pull? op = some w') : w'.Numbered := by
  obtain ⟨-, rfl⟩ := pull?_cases k
  refine ⟨?_, ?_⟩
  · rw [List.map_append, List.nodup_append]
    refine ⟨h.distinct, by simp, ?_⟩
    intro a ha b hb
    obtain ⟨r, hr, rfl⟩ := List.mem_map.mp ha
    have below := h.pulled r hr
    simp only [List.map_cons, List.map_nil, List.mem_singleton] at hb
    omega
  · intro r hr
    rcases List.mem_append.mp hr with hr | hr
    · exact Nat.lt_succ_of_lt (h.pulled r hr)
    · rw [List.mem_singleton.mp hr]
      exact Nat.lt_succ_self _

theorem Numbered.close? (h : w.Numbered) (k : w.close? = some w') : w'.Numbered := by
  obtain ⟨-, rfl⟩ := close?_cases k
  exact ⟨h.distinct, h.pulled⟩

/-! ## Moving on and completing -/

theorem Numbered.mem_running_set (h : w.Numbered) (found : w.get? k = some op) :
    r ∈ (w.set k op').running ↔ r = (k, op') ∨ (r.1 ≠ k ∧ r ∈ w.running) := by
  have member := h.get?_eq_some_iff.mp found
  unfold set
  rw [List.mem_map]
  constructor
  · rintro ⟨s, hs, rfl⟩
    by_cases number : s.1 = k
    · rw [if_pos number]
      exact Or.inl rfl
    · rw [if_neg number]
      exact Or.inr ⟨number, hs⟩
  · rintro (rfl | ⟨number, hr⟩)
    · exact ⟨(k, op), member, if_pos rfl⟩
    · exact ⟨r, hr, if_neg number⟩

theorem Numbered.running_split (h : w.Numbered) (found : w.get? k = some op) :
    ∃ before later, w.running = before ++ (k, op) :: later ∧
      (∀ op', (w.set k op').running = before ++ (k, op') :: later) ∧
      w.running.filter (·.1 ≠ k) = before ++ later := by
  obtain ⟨before, later, whole⟩ := List.append_of_mem (h.get?_eq_some_iff.mp found)
  have distinct := h.distinct
  rw [whole, List.map_append, List.map_cons, List.nodup_middle, List.nodup_cons,
    List.mem_append, not_or] at distinct
  have others : ∀ l : List (Nat × τ), k ∉ l.map (·.1) → ∀ r ∈ l, r.1 ≠ k :=
    fun l absent r mem same => absent (same ▸ List.mem_map_of_mem mem)
  have front := others before distinct.1.1
  have back := others later distinct.1.2
  refine ⟨before, later, whole, fun op' => ?_, ?_⟩
  · have keeps : ∀ l : List (Nat × τ), (∀ r ∈ l, r.1 ≠ k) →
        l.map (fun r => if r.1 = k then (k, op') else r) = l := fun l apart =>
      (List.map_congr_left fun r mem => if_neg (apart r mem)).trans (List.map_id _)
    rw [Window.set, whole, List.map_append, List.map_cons, keeps before front, keeps later back,
      if_pos rfl]
  · have stays : ∀ l : List (Nat × τ), (∀ r ∈ l, r.1 ≠ k) → l.filter (·.1 ≠ k) = l :=
      fun l apart => List.filter_eq_self.mpr fun r mem => by simpa using apart r mem
    rw [whole, List.filter_append, List.filter_cons, stays before front, stays later back]
    simp

theorem Numbered.set (h : w.Numbered) (k : Nat) (op : τ) : (w.set k op).Numbered := by
  have same : (w.set k op).running.map (·.1) = w.running.map (·.1) := by
    unfold Window.set
    rw [List.map_map]
    apply List.map_congr_left
    intro r _
    by_cases number : r.1 = k <;> simp [number]
  refine ⟨?_, ?_⟩
  · rw [same]
    exact h.distinct
  · intro r hr
    have number : r.1 ∈ (w.set k op).running.map (·.1) := List.mem_map_of_mem hr
    rw [same] at number
    obtain ⟨s, hs, e⟩ := List.mem_map.mp number
    rw [← e]
    exact h.pulled s hs

theorem isOpen_set (w : Window τ ω) (k : Nat) (op : τ) : (w.set k op).isOpen = w.isOpen := by
  simp [isOpen, Window.set]

theorem Numbered.get?_set_self (h : w.Numbered) (found : w.get? k = some op) :
    (w.set k op').get? k = some op' := by
  rw [(h.set k op').get?_eq_some_iff, h.mem_running_set found]
  exact Or.inl rfl

theorem Numbered.get?_set_other (h : w.Numbered) (found : w.get? k = some op) (other : n ≠ k) :
    (w.set k op').get? n = w.get? n := by
  refine Option.ext fun x => ?_
  rw [(h.set k op').get?_eq_some_iff, h.get?_eq_some_iff, h.mem_running_set found]
  constructor
  · rintro (moved | ⟨-, same⟩)
    · exact absurd (congrArg Prod.fst moved) other
    · exact same
  · exact fun same => Or.inr ⟨other, same⟩

theorem Numbered.complete? (h : w.Numbered) (k : w.complete? n out = some w') : w'.Numbered := by
  rw [complete?_cases k]
  refine ⟨h.distinct.sublist (List.filter_sublist.map _), ?_⟩
  intro r hr
  exact h.pulled r (List.mem_filter.mp hr).1

end ChainFetch.Window
