import Mathlib.Data.List.Basic
import Mathlib.Data.List.Induction
import ChainFetch.Rehearsal.Clock
/-!
Runs of a machine. A trace lists events with the times at which they are taken, and every
interleaving of the parties is one. Main statement: `after_invariant`, what one step keeps a whole
run keeps.
-/

namespace ChainFetch

variable {σ ε : Type}

/-- The state that a trace leads to, or nothing where one of its events cannot happen. -/
def after (step : Nat → σ → ε → Option σ) (s : σ) : List (Nat × ε) → Option σ
  | [] => some s
  | (now, e) :: t => (step now s e).bind fun s => after step s t

variable {step : Nat → σ → ε → Option σ} {s s' s'' : σ} {now : Nat} {e : ε} {t u : List (Nat × ε)}

theorem after_cons_eq_some :
    after step s ((now, e) :: t) = some s' ↔
      ∃ m, step now s e = some m ∧ after step m t = some s' := by
  rw [after]
  exact Option.bind_eq_some_iff

theorem after_append_eq_some :
    after step s (t ++ u) = some s'' ↔
      ∃ m, after step s t = some m ∧ after step m u = some s'' := by
  induction t generalizing s with
  | nil => simp [after]
  | cons x t ih =>
    obtain ⟨now, e⟩ := x
    rw [List.cons_append, after_cons_eq_some]
    constructor
    · rintro ⟨m, first, rest⟩
      obtain ⟨m', here, later⟩ := ih.mp rest
      exact ⟨m', after_cons_eq_some.mpr ⟨m, first, here⟩, later⟩
    · rintro ⟨m', here, later⟩
      obtain ⟨m, first, rest⟩ := after_cons_eq_some.mp here
      exact ⟨m, first, ih.mpr ⟨m', rest, later⟩⟩

def labels {ι : Type} (step : Nat → σ → ε → Option σ) (label : σ → ε → ι) (s : σ) :
    List (Nat × ε) → List ι
  | [] => []
  | (now, e) :: t =>
    label s e :: match step now s e with
      | some s => labels step label s t
      | none => []

theorem labels_cons {ι : Type} {label : σ → ε → ι} (h : step now s e = some s') :
    labels step label s ((now, e) :: t) = label s e :: labels step label s' t := by
  rw [labels, h]

theorem labels_append {ι : Type} {label : σ → ε → ι} (h : after step s t = some s') :
    labels step label s (t ++ u) = labels step label s t ++ labels step label s' u := by
  induction t generalizing s with
  | nil =>
    cases h
    rfl
  | cons x t ih =>
    obtain ⟨now, e⟩ := x
    obtain ⟨m, first, rest⟩ := after_cons_eq_some.mp h
    rw [List.cons_append, labels_cons first, labels_cons first, ih rest, List.cons_append]

theorem labels_concat {ι : Type} {label : σ → ε → ι} (h : after step s t = some s') (now : Nat)
    (e : ε) : labels step label s (t ++ [(now, e)]) = labels step label s t ++ [label s' e] := by
  rw [labels_append h, labels]
  cases step now s' e <;> rfl

/-! ## Steps that may be left without a label -/

theorem filterMap_cons_toList {α β : Type} (f : α → Option β) (a : α) (l : List α) :
    (a :: l).filterMap f = (f a).toList ++ l.filterMap f := by
  simp only [List.filterMap_eq_flatMap_toList, List.flatMap_cons]

theorem filterMap_concat {α β : Type} (f : α → Option β) (l : List α) (a : α) :
    (l ++ [a]).filterMap f = l.filterMap f ++ (f a).toList := by
  simp only [List.filterMap_eq_flatMap_toList, List.flatMap_append, List.flatMap_singleton]

theorem filterMap_labels_cons {ι : Type} {label? : σ → ε → Option ι}
    (h : step now s e = some s') :
    (labels step label? s ((now, e) :: t)).filterMap id =
      (label? s e).toList ++ (labels step label? s' t).filterMap id := by
  rw [labels_cons h, filterMap_cons_toList, id]

theorem filterMap_labels_concat {ι : Type} {label? : σ → ε → Option ι}
    (h : after step s t = some s') (now : Nat) (e : ε) :
    (labels step label? s (t ++ [(now, e)])).filterMap id =
      (labels step label? s t).filterMap id ++ (label? s' e).toList := by
  rw [labels_concat h, filterMap_concat, id]

/-! ## Invariants of a run -/

/-- What one step keeps, a whole run keeps. -/
theorem after_invariant {P : σ → Prop}
    (keeps : ∀ {now s e s'}, P s → step now s e = some s' → P s')
    (start : P s) (ran : after step s t = some s') : P s' := by
  induction t generalizing s with
  | nil =>
    cases ran
    exact start
  | cons x t ih =>
    obtain ⟨m, first, rest⟩ := after_cons_eq_some.mp ran
    exact ih (keeps start first) rest

/-- What one step keeps of the trace so far and the state that it leads to, a whole run keeps. -/
theorem after_history {P : List (Nat × ε) → σ → Prop}
    (keeps : ∀ {t now e m m'}, after step s t = some m → P t m → step now m e = some m' →
      P (t ++ [(now, e)]) m')
    (start : P [] s) (ran : after step s t = some s') : P t s' := by
  induction t using List.reverseRecOn generalizing s' with
  | nil =>
    cases ran
    exact start
  | append_singleton t x ih =>
    obtain ⟨now, e⟩ := x
    obtain ⟨m, before, last⟩ := after_append_eq_some.mp ran
    obtain ⟨m', stepped, rest⟩ := after_cons_eq_some.mp last
    cases rest
    exact keeps before (ih before) stepped

/-- What each step of a rehearsal keeps, and what the clock does not change, all of it keeps. -/
theorem Rehearsal.World.run_invariant {w : World σ} {P : σ → Prop}
    (program : ∀ {s s'}, P s → w.program s = some s' → P s')
    (script : ∀ {s s'}, P s → w.script s = some s' → P s')
    (setNow : ∀ {s} now, P s → P (w.setNow now s)) (fuel : Nat) (scriptTurn : Bool)
    (start : P s) : P (w.run fuel scriptTurn s) := by
  induction fuel generalizing scriptTurn s with
  | zero => exact start
  | succ fuel ih =>
    rw [run]
    split
    · rename_i acted
      obtain ⟨-, acted⟩ := Option.ite_none_right_eq_some.mp acted
      exact ih _ (script start acted)
    · split
      · rename_i ran
        exact ih _ (program start ran)
      · split
        · rename_i acted
          exact ih _ (script start acted)
        · split
          · exact ih _ (setNow _ start)
          · exact start

/-! ## Numbered calls -/

theorem getElem?_set_cases {α : Type} {calls : List α} {k n : Nat} {c c' : α}
    (h : (calls.set k c)[n]? = some c') :
    (n = k ∧ c' = c) ∨ (n ≠ k ∧ calls[n]? = some c') := by
  rw [List.getElem?_set] at h
  by_cases same : k = n
  · rw [if_pos same] at h
    split at h
    · cases h
      exact Or.inl ⟨same.symm, rfl⟩
    · cases h
  · rw [if_neg same] at h
    exact Or.inr ⟨fun e => same e.symm, h⟩

theorem getElem?_concat_cases {α : Type} {calls : List α} {n : Nat} {c c' : α}
    (h : (calls ++ [c])[n]? = some c') :
    calls[n]? = some c' ∨ (n = calls.length ∧ c' = c) := by
  rw [List.getElem?_append] at h
  split at h
  · exact Or.inl h
  · rename_i beyond
    rw [List.getElem?_singleton] at h
    split at h
    · cases h
      exact Or.inr ⟨by omega, rfl⟩
    · cases h

end ChainFetch
