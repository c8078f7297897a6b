import ChainFetch.Proofs.Fetch.History
import ChainFetch.Proofs.Fetch.Shifts
/-!
What a call of run does to the ones after it. One call at most goes past its entry, whether or not
it then gets as far as setting off the tasks; where it fails to load the state it takes the place of
a start, and nothing is ever scheduled. Main statement: `starts_once`.
-/

namespace ChainFetch.Fetch

open Schedule (Loop)

variable {γ : Type}

namespace System

variable {s s' m : System γ} {now k n : Nat} {e : Event γ} {c c' : Call γ} {r r' : Run γ}
  {fault : Option StoreFailure} {error : Failure} {ks : List Nat} {t u : List (Nat × Event γ)}

def setCall (s : System γ) (k : Nat) (c : Call γ) : System γ :=
  s.setFetcher { s.fetcher with calls := s.fetcher.calls.set k c }

def goesIn? (s : System γ) : Event γ → Option Nat
  | .advance k _ =>
    match s.fetcher.calls[k]? with
    | some (.run .entering) => if s.fetcher.stopAsked || s.fetcher.started then none else some k
    | _ => none
  | _ => none

def entries [Cursor γ] (s : System γ) (t : List (Nat × Event γ)) : List Nat :=
  (labels step goesIn? s t).filterMap id

theorem entries_concat [Cursor γ] (ran : s.run t = some m) (now : Nat) (e : Event γ) :
    s.entries (t ++ [(now, e)]) = s.entries t ++ (m.goesIn? e).toList :=
  filterMap_labels_concat ran now e

theorem goesIn?_of_inside (found : s.fetcher.calls[k]? = some (.run r)) (other : r ≠ .entering) :
    s.goesIn? (.advance k fault) = none := by
  cases r with
  | entering => exact absurd rfl other
  | _ => simp [goesIn?, found]

/-! ## One step -/

theorem stepRun_entering (h : s.stepRun fault .entering = some (m, r)) :
    ((s.fetcher.stopAsked = true ∨ s.fetcher.started = true) ∧ m = s ∧ r = .done none) ∨
    (s.fetcher.stopAsked = false ∧ s.fetcher.started = false ∧
      ((s.fetcher.initialised = true ∧ r = .published ∧
          m = s.setFetcher
            (({ s.fetcher with started := true } : Fetcher γ).publish s.fetcher.memory)) ∨
        (s.fetcher.initialised = false ∧ r = .loading .locking ∧
          m = s.setFetcher { s.fetcher with started := true }))) := by
  simp only [stepRun] at h
  split at h
  · rename_i away
    cases h
    exact Or.inl ⟨by simpa using away, rfl, rfl⟩
  · rename_i new
    simp only [Bool.or_eq_true, not_or, Bool.not_eq_true] at new
    split at h
    · rename_i loaded
      cases h
      exact Or.inr ⟨new.1, new.2, Or.inl ⟨loaded, rfl, rfl⟩⟩
    · rename_i unloaded
      cases h
      exact Or.inr ⟨new.1, new.2, Or.inr ⟨by simpa using unloaded, rfl, rfl⟩⟩

theorem stepRun_done (h : s.stepRun fault r = some (m, .done none)) : m = s ∧
    ((r = .entering ∧ (s.fetcher.stopAsked = true ∨ s.fetcher.started = true)) ∨
      (r = .published ∧ s.fetcher.stopAsked = true) ∨
      (r = .running ∧ ∀ d, (s.fetcher.tasks.get d).isOver = true)) := by
  cases r with
  | entering =>
    rcases stepRun_entering h with ⟨away, rfl, -⟩ | ⟨-, -, ⟨-, ⟨⟩, -⟩ | ⟨-, ⟨⟩, -⟩⟩
    exact ⟨rfl, Or.inl ⟨rfl, away⟩⟩
  | loading init =>
    obtain ⟨⟨m', init'⟩, -, h⟩ := Option.map_eq_some_iff.mp h
    dsimp only at h
    split at h <;> cases h
  | published =>
    simp only [stepRun] at h
    split at h
    · rename_i asked
      cases h
      exact ⟨rfl, Or.inr (Or.inl ⟨rfl, asked⟩)⟩
    · cases h
  | running =>
    obtain ⟨ended, h⟩ := Option.ite_none_right_eq_some.mp h
    cases h
    rw [Bool.and_eq_true] at ended
    refine ⟨rfl, Or.inr (Or.inr ⟨rfl, fun d => ?_⟩)⟩
    cases d with
    | forward => exact ended.1
    | backward => exact ended.2
  | done error => cases h

section Steps

variable [Cursor γ]

theorem advance_run_cases (found : s.fetcher.calls[k]? = some (.run r))
    (h : s.step now (.advance k fault) = some s') :
    ∃ m r', s.stepRun fault r = some (m, r') ∧ s' = m.setCall k (.run r') := by
  obtain ⟨c, m, c', found', called, rfl⟩ := advance_cases h
  cases found.symm.trans found'
  obtain ⟨⟨m', r'⟩, stepped, same⟩ := Option.map_eq_some_iff.mp called
  cases same
  exact ⟨m, r', stepped, rfl⟩

theorem step_advance_run (found : s.fetcher.calls[k]? = some (.run r))
    (stepped : s.stepRun fault r = some (m, r')) :
    s.step now (.advance k fault) = some (m.setCall k (.run r')) := by
  simp [step, stepCall, found, stepped, setCall]

omit [Cursor γ] in
theorem not_bare_of_tick {d : Direction} {tick : Tick γ} (regular : s.fetcher.Regular)
    (found : s.fetcher.ticks.get d = some tick) : ¬ s.fetcher.Bare := by
  obtain ⟨l, since, present, -⟩ := regular.ticking d (by simp [found])
  exact Fetcher.not_bare_of_loop present

omit [Cursor γ] in
theorem frame_of_loop {f : Fetcher γ} {d : Direction} {clock : Instant} {x : Schedule.Event}
    (stepped : (f.stepLoop now clock d x).map s.setFetcher = some s') :
    s'.fetcher.calls = f.calls ∧ s'.fetcher.started = f.started ∧
      ∃ l, f.loops.get d = some l := by
  obtain ⟨f', went, rfl⟩ := Option.map_eq_some_iff.mp stepped
  obtain ⟨l, l', effects, found, -, rfl⟩ := Fetcher.stepLoop_cases went
  have frame (g : Fetcher γ) : (effects.foldl (Fetcher.follow clock d) g).calls = g.calls ∧
      (effects.foldl (Fetcher.follow clock d) g).started = g.started :=
    Fetcher.frame_foldl_follow.2
  exact ⟨(frame _).1, (frame _).2, l, found⟩

omit [Cursor γ] in
theorem frame_of_answer {d : Direction} {next : Lane → Tick γ → Option (Tick γ)}
    (regular : s.fetcher.Regular) (answered : s.answer d next = some s') :
    s'.fetcher.calls = s.fetcher.calls ∧ s'.fetcher.started = s.fetcher.started ∧
      ¬ s.fetcher.Bare := by
  obtain ⟨l, tick, tick', -, found, -, rfl⟩ := answer_cases answered
  exact ⟨rfl, rfl, not_bare_of_tick regular found⟩

/-- Only the steps of calls touch calls; the others take place where something is scheduled. -/
theorem frame_of_step (regular : s.fetcher.Regular) (stepped : s.step now e = some s')
    (made : ∀ kind, e ≠ .call kind) (taken : ∀ k fault, e ≠ .advance k fault) :
    s'.fetcher.calls = s.fetcher.calls ∧ s'.fetcher.started = s.fetcher.started ∧
      ¬ s.fetcher.Bare := by
  cases e with
  | call kind => exact absurd rfl (made kind)
  | advance k fault => exact absurd rfl (taken k fault)
  | enter d jitter =>
    obtain ⟨-, stepped⟩ := Option.ite_none_right_eq_some.mp stepped
    obtain ⟨calls, started, l, found⟩ := frame_of_loop stepped
    exact ⟨calls, started, Fetcher.not_bare_of_loop found⟩
  | turn d clock | timeout d | interrupt d =>
    obtain ⟨calls, started, l, found⟩ := frame_of_loop stepped
    exact ⟨calls, started, Fetcher.not_bare_of_loop found⟩
  | release =>
    obtain ⟨held, -, rfl⟩ := release_cases stepped
    have task : s.fetcher.tasks.get .backward ≠ .absent := by
      rw [Both.get, held]
      simp
    exact ⟨rfl, rfl, Fetcher.not_bare_of_task task⟩
  | fetched d a | merged d a | judged d a => exact frame_of_answer regular stepped
  | lock d =>
    obtain ⟨-, l, work, resume, -, found, rfl⟩ := lock_cases stepped
    exact ⟨rfl, rfl, not_bare_of_tick regular found⟩
  | saved d fault =>
    obtain ⟨l, next, resume, -, found, ⟨e, -, rfl⟩ | ⟨-, rfl⟩⟩ := saved_cases stepped
    · exact ⟨rfl, rfl, not_bare_of_tick regular found⟩
    · exact ⟨rfl, rfl, not_bare_of_tick regular found⟩
  | tickDone d =>
    obtain ⟨result, f, found, went, rfl⟩ := tickDone_cases stepped
    obtain ⟨calls, started, -⟩ := frame_of_loop (s := s) (congrArg (Option.map s.setFetcher) went)
    exact ⟨calls, started, not_bare_of_tick regular found⟩

theorem failed_of_step {e' : Failure} (regular : s.fetcher.Regular)
    (found : s.fetcher.calls[k]? = some (.run (.done (some e'))))
    (stepped : s.step now e = some s') :
    s'.fetcher.calls[k]? = some (.run (.done (some e'))) := by
  have bound : k < s.fetcher.calls.length := (List.getElem?_eq_some_iff.mp found).1
  cases e with
  | call kind =>
    cases stepped
    exact (List.getElem?_append_left bound).trans found
  | advance n fault =>
    by_cases same : n = k
    · subst same
      obtain ⟨m, r', went, -⟩ := advance_run_cases found stepped
      cases went
    · obtain ⟨c, m, c', -, called, rfl⟩ := advance_cases stepped
      have calls : m.fetcher.calls = s.fetcher.calls := (call_moves_of_step called).frame.2.2
      refine (List.getElem?_set_ne same).trans ?_
      rw [calls]
      exact found
  | _ =>
    rw [(frame_of_step regular stepped (by simp) (by simp)).1]
    exact found

/-- A call of run that failed has come back for good. -/
theorem failed_of_run {e' : Failure} (regular : s.fetcher.Regular)
    (found : s.fetcher.calls[k]? = some (.run (.done (some e')))) (ran : s.run u = some s') :
    s'.fetcher.Regular ∧ s'.fetcher.calls[k]? = some (.run (.done (some e'))) := by
  refine after_invariant (P := fun m => m.fetcher.Regular ∧
    m.fetcher.calls[k]? = some (.run (.done (some e')))) ?_ ⟨regular, found⟩ ran
  intro now m e m' ⟨regular, found⟩ stepped
  exact ⟨(moves_of_step stepped).regular regular, failed_of_step regular found stepped⟩

end Steps

end System

/-! ## Who goes in -/

namespace Fetcher

variable {f f' : Fetcher γ} {k n : Nat} {ks : List Nat} {c' : Call γ}

/-- How a fetcher stands once the calls of `ks` went past their entry. -/
structure Entered (ks : List Nat) (f : Fetcher γ) : Prop where
  started : f.started = true ↔ ks ≠ []
  once : ks.length ≤ 1
  outside : ∀ (n : Nat) (r : Run γ), f.calls[n]? = some (.run r) → n ∉ ks →
    r = .entering ∨ r = .done none
  failed : ∀ (n : Nat) (e : Failure), f.calls[n]? = some (.run (.done (some e))) → f.Bare

theorem Entered.eq_of_failed (h : f.Entered ks) {e : Failure}
    (found : f.calls[k]? = some (.run (.done (some e)))) : ks = [k] := by
  have inside : k ∈ ks := by
    apply Classical.byContradiction
    intro out
    rcases h.outside k _ found out with same | same <;> cases same
  have once := h.once
  match ks, inside with
  | [x], inside => rw [List.mem_singleton.mp inside]
  | x :: y :: ks, _ => simp at once

theorem Entered.stayOut (h : f.Entered ks) (calls : f'.calls = f.calls.set k c')
    (started : f'.started = f.started) (bare : f.Bare → f'.Bare)
    (out : ∀ r, c' = .run r → r = .entering ∨ r = .done none) : f'.Entered ks := by
  refine ⟨by rw [started]; exact h.started, h.once, ?_, ?_⟩
  · intro n r set other
    rw [calls] at set
    rcases getElem?_set_cases set with ⟨-, same⟩ | ⟨-, found⟩
    · exact out r same.symm
    · exact h.outside n r found other
  · intro n e set
    rw [calls] at set
    rcases getElem?_set_cases set with ⟨-, same⟩ | ⟨-, found⟩
    · rcases out _ same.symm with same | same <;> cases same
    · exact bare (h.failed n e found)

theorem Entered.goOn (h : f.Entered ks) (inside : k ∈ ks) (calls : f'.calls = f.calls.set k c')
    (started : f'.started = f.started)
    (failed : ∀ e, c' = .run (.done (some e)) → f'.Bare) : f'.Entered ks := by
  refine ⟨by rw [started]; exact h.started, h.once, ?_, ?_⟩
  · intro n r set other
    rw [calls] at set
    rcases getElem?_set_cases set with ⟨rfl, -⟩ | ⟨-, found⟩
    · exact absurd inside other
    · exact h.outside n r found other
  · intro n e set
    rw [calls] at set
    rcases getElem?_set_cases set with ⟨-, same⟩ | ⟨other, found⟩
    · exact failed e same.symm
    · -- A second call that had failed would be inside too.
      rw [h.eq_of_failed found] at inside
      exact absurd (List.mem_singleton.mp inside).symm other

theorem Entered.goIn (h : f.Entered []) (calls : f'.calls = f.calls.set k c')
    (started : f'.started = true) (going : ∀ e, c' ≠ .run (.done (some e))) :
    f'.Entered [k] := by
  refine ⟨by simp [started], Nat.le_refl _, ?_, ?_⟩
  · intro n r set other
    rw [calls] at set
    rcases getElem?_set_cases set with ⟨rfl, -⟩ | ⟨-, found⟩
    · simp at other
    · exact h.outside n r found List.not_mem_nil
  · intro n e set
    rw [calls] at set
    rcases getElem?_set_cases set with ⟨-, same⟩ | ⟨-, found⟩
    · exact absurd same.symm (going e)
    · cases h.eq_of_failed found

theorem entered_of_new {c : Config} (made : Fetcher.new c = .ok f) : f.Entered [] := by
  unfold Fetcher.new at made
  split at made
  · cases made
  · cases made
    exact ⟨by simp, Nat.zero_le _, by simp, by simp⟩

end Fetcher

namespace System

variable {s s' m : System γ} {now k n : Nat} {e : Event γ} {a : Act γ} {c c' : Call γ}
  {r r' : Run γ} {fault : Option StoreFailure} {ks : List Nat} {t u : List (Nat × Event γ)}

theorem entered_of_entering (h : s.fetcher.Entered ks)
    (found : s.fetcher.calls[k]? = some (.run .entering))
    (stepped : s.stepRun fault .entering = some (m, r')) :
    (m.setCall k (.run r')).fetcher.Entered (ks ++ (s.goesIn? (.advance k fault)).toList) := by
  rcases stepRun_entering stepped with ⟨away, rfl, rfl⟩ | ⟨go, fresh, goes⟩
  · have out : m.goesIn? (.advance k fault) = none := by
      simpa [goesIn?, found, Classical.or_iff_not_imp_left] using away
    rw [out, Option.toList_none, List.append_nil]
    exact h.stayOut rfl rfl (fun bare => bare) (by rintro r ⟨⟩; exact Or.inr rfl)
  · have goesIn : s.goesIn? (.advance k fault) = some k := by simp [goesIn?, found, go, fresh]
    have empty : ks = [] := by
      apply Classical.byContradiction
      intro some
      rw [h.started.mpr some] at fresh
      cases fresh
    subst empty
    rw [goesIn]
    rcases goes with ⟨-, rfl, rfl⟩ | ⟨-, rfl, rfl⟩
    · exact h.goIn rfl rfl (by simp)
    · exact h.goIn rfl rfl (by simp)

theorem entered_of_inside (h : s.fetcher.Entered ks) (regular : s.fetcher.Regular)
    (found : s.fetcher.calls[k]? = some (.run r)) (other : r ≠ .entering)
    (stepped : s.stepRun fault r = some (m, r')) :
    (m.setCall k (.run r')).fetcher.Entered ks := by
  have inside : k ∈ ks := by
    apply Classical.byContradiction
    intro out
    rcases h.outside k r found out with same | rfl
    · exact other same
    · cases stepped
  have moves : (Call.run r).Moves 0 s _ m (.run r') := run_moves_of_step stepped
  have calls : (m.setCall k (.run r')).fetcher.calls = s.fetcher.calls.set k (.run r') := by
    rw [← moves.frame.2.2]
    rfl
  cases moves with
  | reject => exact absurd rfl other
  | publish fresh go loaded => exact absurd rfl other
  | load fresh go => exact absurd rfl other
  | loading m i i' a moves =>
    obtain ⟨_, _, _, same⟩ := moves.frame
    exact h.goOn inside calls (by rw [setCall, setFetcher, same]) (by simp)
  | loaded m i state a moves =>
    obtain ⟨_, _, _, same⟩ := moves.frame
    exact h.goOn inside calls (by simp only [setCall, setFetcher, Fetcher.publish, same]) (by simp)
  | unloaded m i e a moves =>
    obtain ⟨_, _, _, same⟩ := moves.frame
    refine h.goOn inside calls (by rw [setCall, setFetcher, same]) ?_
    intro e' _
    rw [setCall, setFetcher, same]
    exact regular.loading k i found
  | withdraw => exact h.goOn inside calls rfl (by simp)
  | launch go => exact h.goOn inside calls rfl (by simp)
  | ended => exact h.goOn inside calls rfl (by simp)

theorem entered_of_call (h : s.fetcher.Entered ks) (other : ∀ r, c ≠ .run r)
    (moves : c.Moves now s a m c') : (m.setCall k c').fetcher.Entered ks := by
  have calls : (m.setCall k c').fetcher.calls = s.fetcher.calls.set k c' := by
    rw [← moves.frame.2.2]
    rfl
  cases moves with
  | init m i i' a moves =>
    obtain ⟨_, _, _, same⟩ := moves.frame
    refine h.stayOut calls (by rw [setCall, setFetcher, same]) ?_ (by simp)
    rw [setCall, setFetcher, same]
    exact fun bare => bare
  | mark => exact h.stayOut calls rfl (fun bare => bare) (by simp)
  | collect => exact h.stayOut calls rfl (fun bare => bare) (by simp)
  | ask d rest l found =>
    exact h.stayOut calls rfl (fun bare => absurd bare (Fetcher.not_bare_of_loop found)) (by simp)
  | settle d rest l l' found settled =>
    exact h.stayOut calls rfl (fun bare => absurd bare (Fetcher.not_bare_of_loop found)) (by simp)
  | join d rest l found finished => exact h.stayOut calls rfl (fun bare => bare) (by simp)
  | _ => exact absurd rfl (other _)

theorem entered_of_step [Cursor γ] (h : s.fetcher.Entered ks) (regular : s.fetcher.Regular)
    (stepped : s.step now e = some s') :
    s'.fetcher.Entered (ks ++ (s.goesIn? e).toList) := by
  -- Only a new call and a step of one change the calls.
  have elsewhere (made : ∀ kind, e ≠ .call kind) (taken : ∀ k fault, e ≠ .advance k fault)
      (none : s.goesIn? e = none) : s'.fetcher.Entered (ks ++ (s.goesIn? e).toList) := by
    obtain ⟨calls, started, busy⟩ := frame_of_step regular stepped made taken
    rw [none, Option.toList_none, List.append_nil]
    refine ⟨by rw [started]; exact h.started, h.once, by rw [calls]; exact h.outside, ?_⟩
    intro n e failed
    rw [calls] at failed
    exact absurd (h.failed n e failed) busy
  cases e with
  | call kind =>
    cases stepped
    have out : s.goesIn? (.call kind) = none := rfl
    rw [out, Option.toList_none, List.append_nil]
    refine ⟨h.started, h.once, ?_, ?_⟩
    · intro n r set other
      rcases getElem?_concat_cases set with found | ⟨-, new⟩
      · exact h.outside n r found other
      · cases kind <;> cases new
        exact Or.inl rfl
    · intro n e set
      rcases getElem?_concat_cases set with found | ⟨-, new⟩
      · exact h.failed n e found
      · cases kind <;> cases new
  | advance k fault =>
    obtain ⟨c, m, c', found, called, taken⟩ := advance_cases stepped
    cases c with
    | run r =>
      obtain ⟨m, r', went, rfl⟩ := advance_run_cases found stepped
      by_cases entering : r = .entering
      · subst entering
        exact entered_of_entering h found went
      · rw [goesIn?_of_inside found entering, Option.toList_none, List.append_nil]
        exact entered_of_inside h regular found entering went
    | _ =>
      cases taken
      have out : s.goesIn? (.advance k fault) = none := by simp [goesIn?, found]
      rw [out, Option.toList_none, List.append_nil]
      exact entered_of_call h (by simp) (call_moves_of_step called)
  | _ => exact elsewhere (by simp) (by simp) rfl

theorem entered_of_runs [Cursor γ] {c : Config} {f : Fetcher γ} {store : Table (State γ)}
    (made : Fetcher.new c = .ok f) (ran : (⟨store, f⟩ : System γ).run t = some s) :
    s.fetcher.Entered (entries ⟨store, f⟩ t) := by
  refine (after_history (P := fun t m => m.fetcher.Regular ∧
    m.fetcher.Entered (entries ⟨store, f⟩ t)) ?_ ?_ ran).2
  · intro t now e m m' before ⟨regular, entered⟩ stepped
    rw [entries_concat before]
    exact ⟨(moves_of_step stepped).regular regular, entered_of_step entered regular stepped⟩
  · exact ⟨(regular_of_new made).1, Fetcher.entered_of_new made⟩

/-! ## A start that fails -/

def inside (s : System γ) (k : Nat) (locked : Bool) (r : Run γ) : System γ :=
  (s.setFetcher { s.fetcher with started := true, locked := locked }).setCall k (.run r)

/-- What the steps of call `k` alone can make of a fetcher at whose entry it is. -/
inductive Underway (s : System γ) (k : Nat) : System γ → Prop
  | entering : Underway s k s
  | loading (locked : Bool) (init : Init γ) : Underway s k (s.inside k locked (.loading init))
  | failed (e : Failure) : Underway s k (s.inside k false (.done (some e)))
  | loaded {m : System γ} {r : Run γ} (found : m.fetcher.calls[k]? = some (.run r))
    (past : r = .published ∨ r = .running ∨ r = .done none) : Underway s k m

theorem setCall_setCall (s : System γ) (k : Nat) (c c' : Call γ) :
    (s.setCall k c).setCall k c' = s.setCall k c' := by
  simp [setCall, setFetcher]

theorem getElem?_setCall (c' : Call γ) (found : s.fetcher.calls[k]? = some c) :
    (s.setCall k c').fetcher.calls[k]? = some c' :=
  List.getElem?_set_self (List.getElem?_eq_some_iff.mp found).1

theorem getElem?_inside (locked : Bool) (r : Run γ) (found : s.fetcher.calls[k]? = some c) :
    (s.inside k locked r).fetcher.calls[k]? = some (.run r) :=
  getElem?_setCall (s := s.setFetcher _) _ found

theorem underway_of_loading {locked : Bool} {init : Init γ}
    (found : s.fetcher.calls[k]? = some c)
    (stepped : (s.inside k locked (.loading init)).stepRun fault (.loading init) = some (m, r)) :
    Underway s k (m.setCall k (.run r)) := by
  have here := getElem?_inside locked (.loading init) found
  obtain ⟨⟨m', init'⟩, loads, same⟩ := Option.map_eq_some_iff.mp stepped
  cases init with
  | locking =>
    obtain ⟨-, loads⟩ := Option.ite_none_left_eq_some.mp loads
    cases loads
    cases same
    have next := Underway.loading (s := s) (k := k) true .reading
    rwa [inside, ← setCall_setCall _ k (.run (.loading .locking))] at next
  | reading =>
    cases fault with
    | some e =>
      cases loads
      cases same
      have next := Underway.failed (s := s) (k := k) (.store e)
      rwa [inside, ← setCall_setCall _ k (.run (.loading .reading))] at next
    | none =>
      simp only [stepInit] at loads
      split at loads
      · cases loads
        cases same
        exact .loaded (getElem?_setCall _ here) (Or.inl rfl)
      · cases loads
        cases same
        have next := Underway.loading (s := s) (k := k) locked .creating
        rwa [inside, ← setCall_setCall _ k (.run (.loading .reading))] at next
  | creating =>
    cases fault with
    | some e =>
      cases loads
      cases same
      have next := Underway.failed (s := s) (k := k) (.store e)
      rwa [inside, ← setCall_setCall _ k (.run (.loading .creating))] at next
    | none =>
      cases loads
      cases same
      exact .loaded (getElem?_setCall _ here) (Or.inl rfl)
  | done result => cases loads

theorem Underway.step [Cursor γ] (h : Underway s k m)
    (found : s.fetcher.calls[k]? = some (.run .entering))
    (stepped : m.step now (.advance k fault) = some s') : Underway s k s' := by
  cases h with
  | entering =>
    obtain ⟨m, r, went, rfl⟩ := advance_run_cases found stepped
    rcases stepRun_entering went with ⟨-, rfl, rfl⟩ | ⟨-, -, ⟨-, rfl, rfl⟩ | ⟨-, rfl, rfl⟩⟩
    · exact .loaded (getElem?_setCall _ found) (Or.inr (Or.inr rfl))
    · exact .loaded (getElem?_setCall (s := s.setFetcher _) _ found) (Or.inl rfl)
    · exact .loading s.fetcher.locked .locking
  | loading locked init =>
    obtain ⟨m, r, went, rfl⟩ := advance_run_cases (getElem?_inside _ _ found) stepped
    exact underway_of_loading found went
  | failed e =>
    obtain ⟨m, r, went, rfl⟩ := advance_run_cases (getElem?_inside _ _ found) stepped
    cases went
  | loaded found past =>
    obtain ⟨m', r', went, rfl⟩ := advance_run_cases found stepped
    rcases past with rfl | rfl | rfl
    · simp only [stepRun] at went
      split at went
      · cases went
        exact .loaded (getElem?_setCall _ found) (Or.inr (Or.inr rfl))
      · cases went
        exact .loaded (getElem?_setCall (s := m.setFetcher _) _ found) (Or.inr (Or.inl rfl))
    · obtain ⟨-, went⟩ := Option.ite_none_right_eq_some.mp went
      cases went
      exact .loaded (getElem?_setCall _ found) (Or.inr (Or.inr rfl))
    · cases went

theorem Underway.run [Cursor γ] (h : Underway s k m)
    (found : s.fetcher.calls[k]? = some (.run .entering))
    (own : ∀ x ∈ u, ∃ fault, x.2 = .advance k fault) (ran : m.run u = some s') :
    Underway s k s' := by
  induction u generalizing m with
  | nil =>
    cases ran
    exact h
  | cons x u ih =>
    obtain ⟨now, e⟩ := x
    obtain ⟨m', first, rest⟩ := after_cons_eq_some.mp ran
    obtain ⟨fault, rfl⟩ := own _ List.mem_cons_self
    exact ih (h.step found first) (fun x member => own x (List.mem_cons_of_mem _ member)) rest

/-- A call that fails leaves the fetcher as it was, but for the mark that it has started. -/
theorem eq_inside_of_failed [Cursor γ] {e : Failure}
    (found : s.fetcher.calls[k]? = some (.run .entering))
    (own : ∀ x ∈ u, ∃ fault, x.2 = .advance k fault) (ran : s.run u = some s')
    (failed : s'.fetcher.calls[k]? = some (.run (.done (some e)))) :
    s' = s.inside k false (.done (some e)) := by
  cases Underway.entering.run found own ran with
  | entering =>
    rw [found] at failed
    cases failed
  | loading locked init =>
    rw [getElem?_inside _ _ found] at failed
    cases failed
  | failed e' =>
    rw [getElem?_inside _ _ found] at failed
    cases failed
    rfl
  | loaded found' past =>
    rw [found'] at failed
    rcases past with rfl | rfl | rfl <;> cases failed

/-! ## A start that gets through -/

structure Runs (s : System γ) (k : Nat) (state : State γ) : Prop where
  running : s.fetcher.calls[k]? = some (.run .running)
  memory : s.fetcher.memory = state
  loops : ∀ d, s.fetcher.loops.get d = s.fetcher.config.loop? state d
  tasks : ∀ d, s.fetcher.tasks.get d = .absent ↔ s.fetcher.loops.get d = none

/-- Call `k` runs the directions that `state` leaves to do after `n` steps of its own at most,
whenever they are taken, unless the store fails. -/
def GetsTo [Cursor γ] (s : System γ) (n k : Nat) (state : State γ) : Prop :=
  ∀ now, ∃ u s', u.length ≤ n ∧ (∀ x ∈ u, x = (now, .advance k none)) ∧ s.run u = some s' ∧
    s'.Runs k state

def toRun (s : System γ) : State γ :=
  if s.fetcher.initialised then s.fetcher.memory
  else s.stored?.getD s.fetcher.config.freshState

section GetsTo

variable [Cursor γ] {state : State γ}

theorem GetsTo.cons (h : (m.setCall k (.run r')).GetsTo n k state)
    (found : s.fetcher.calls[k]? = some (.run r))
    (stepped : s.stepRun none r = some (m, r')) : s.GetsTo (n + 1) k state := by
  intro now
  obtain ⟨u, s', short, own, ran, runs⟩ := h now
  refine ⟨(now, .advance k none) :: u, s', Nat.succ_le_succ short, ?_, ?_, runs⟩
  · intro x member
    rcases List.mem_cons.mp member with rfl | member
    · rfl
    · exact own x member
  · exact after_cons_eq_some.mpr ⟨_, step_advance_run found stepped, ran⟩

theorem GetsTo.mono {n' : Nat} (h : s.GetsTo n k state) (le : n ≤ n') : s.GetsTo n' k state := by
  intro now
  obtain ⟨u, s', short, rest⟩ := h now
  exact ⟨u, s', Nat.le_trans short le, rest⟩

theorem getsTo_of_running (runs : s.Runs k state) : s.GetsTo 0 k state :=
  fun _ => ⟨[], s, Nat.le_refl 0, by simp, rfl, runs⟩

theorem getsTo_of_published (found : s.fetcher.calls[k]? = some (.run .published))
    (go : s.fetcher.stopAsked = false) (memory : s.fetcher.memory = state)
    (loops : ∀ d, s.fetcher.loops.get d = s.fetcher.config.loop? state d) :
    s.GetsTo 1 k state := by
  refine (getsTo_of_running ?_).cons found
    (show s.stepRun none .published = some (s.setFetcher s.fetcher.launch, .running) by
      simp [stepRun, go])
  refine ⟨getElem?_setCall (s := s.setFetcher _) _ found, memory, loops, fun d => ?_⟩
  cases d with
  | forward => cases here : s.fetcher.loops.forward <;> simp [setCall, setFetcher, here,
      Fetcher.launch, Both.get]
  | backward =>
    cases here : s.fetcher.loops.backward <;> simp [setCall, setFetcher, here, Fetcher.launch,
      Both.get]
    split <;> simp

theorem getsTo_of_loaded {init : Init γ} (found : s.fetcher.calls[k]? = some (.run (.loading init)))
    (go : s.fetcher.stopAsked = false) (store : Table (State γ))
    (loads : s.stepInit none init =
      some (⟨store, { s.fetcher.hold state with initialised := true }⟩, .done (.ok state))) :
    s.GetsTo 2 k state := by
  have stepped : s.stepRun none (.loading init) =
      some (⟨store, ({ s.fetcher.hold state with initialised := true } : Fetcher γ).publish state⟩,
        .published) := by
    simp [stepRun, loads, setFetcher]
  refine GetsTo.cons ?_ found stepped
  refine getsTo_of_published ?_ go rfl fun d => ?_
  · exact List.getElem?_set_self (List.getElem?_eq_some_iff.mp found).1
  · exact Fetcher.loops_publish _ _ _

theorem getsTo_of_reading (found : s.fetcher.calls[k]? = some (.run (.loading .reading)))
    (go : s.fetcher.stopAsked = false) :
    s.GetsTo 3 k (s.stored?.getD s.fetcher.config.freshState) := by
  cases stored : s.stored? with
  | some state =>
    have stored : s.store.get? s.fetcher.config.id = some state := stored
    exact (getsTo_of_loaded found go s.store
      (by simp [stepInit, stored, setFetcher])).mono (by omega)
  | none =>
    have missing : s.store.get? s.fetcher.config.id = none := stored
    have stepped : s.stepRun none (.loading .reading) = some (s, .loading .creating) := by
      simp [stepRun, stepInit, missing]
    refine GetsTo.cons ?_ found stepped
    exact getsTo_of_loaded (getElem?_setCall _ found) go _ rfl

theorem getsTo_of_entering (found : s.fetcher.calls[k]? = some (.run .entering))
    (go : s.fetcher.stopAsked = false) (fresh : s.fetcher.started = false)
    (free : s.fetcher.locked = false) : s.GetsTo 5 k s.toRun := by
  cases loaded : s.fetcher.initialised with
  | true =>
    have stepped : s.stepRun none .entering = some
        (s.setFetcher (({ s.fetcher with started := true } : Fetcher γ).publish s.fetcher.memory),
          .published) := by
      simp [stepRun, go, fresh, loaded]
    rw [toRun, loaded, if_pos rfl]
    refine (GetsTo.cons (n := 1) ?_ found stepped).mono (by omega)
    refine getsTo_of_published (getElem?_setCall (s := s.setFetcher _) _ found) go rfl fun d => ?_
    exact Fetcher.loops_publish _ _ _
  | false =>
    have stepped : s.stepRun none .entering =
        some (s.setFetcher { s.fetcher with started := true }, .loading .locking) := by
      simp [stepRun, go, fresh, loaded]
    have here := getElem?_inside s.fetcher.locked (.loading .locking) found
    have locks : (s.inside k s.fetcher.locked (.loading .locking)).stepRun none
        (.loading .locking) = some ((s.inside k s.fetcher.locked (.loading .locking)).setFetcher
          { (s.inside k s.fetcher.locked (.loading .locking)).fetcher with locked := true },
          .loading .reading) := by
      simp [stepRun, stepInit, inside, setCall, setFetcher, free]
    rw [toRun, loaded, if_neg Bool.false_ne_true]
    refine (GetsTo.cons ?_ here locks).cons found stepped
    exact getsTo_of_reading (getElem?_setCall (s := System.setFetcher _ _) _ here) go

end GetsTo

/-- A fetcher is started by one call of run, the first that finds no stop asked for, and it counts
even if it fails. As long as none went in, a call that the store serves comes to run what the state
leaves to do; one that it fails changes nothing but that the fetcher counts as started. From then on
every call of run comes back at once without an error, and nothing is ever scheduled. Otherwise a
call comes back without an error only where a stop was asked for or all that it ran is over. -/
theorem starts_once [Cursor γ] {c : Config} {f : Fetcher γ} {store : Table (State γ)}
    (made : Fetcher.new c = .ok f) (ran : (⟨store, f⟩ : System γ).run t = some s) (k : Nat) :
    (entries ⟨store, f⟩ t).length ≤ 1 ∧
    (s.fetcher.calls[k]? = some (.run .entering) →
      (s.fetcher.stopAsked = true ∨ entries ⟨store, f⟩ t ≠ [] → ∀ now fault,
        s.step now (.advance k fault) = some (s.setCall k (.run (.done none)))) ∧
      (s.fetcher.stopAsked = false → entries ⟨store, f⟩ t = [] → s.fetcher.locked = false →
        s.GetsTo 5 k s.toRun) ∧
      ∀ u s' e, (∀ x ∈ u, ∃ fault, x.2 = .advance k fault) → s.run u = some s' →
        s'.fetcher.calls[k]? = some (.run (.done (some e))) →
          s' = (s.setFetcher { s.fetcher with started := true, locked := false }).setCall k
            (.run (.done (some e)))) ∧
    (∀ e, s.fetcher.calls[k]? = some (.run (.done (some e))) → entries ⟨store, f⟩ t = [k] ∧
      ∀ u s', s.run u = some s' → (∀ d, s'.fetcher.loops.get d = none ∧
          s'.fetcher.tasks.get d = .absent ∧ s'.fetcher.ticks.get d = none) ∧
        ∀ n r, n ≠ k → s'.fetcher.calls[n]? = some (.run r) → r = .entering ∨ r = .done none) ∧
    ∀ r now fault s', s.fetcher.calls[k]? = some (.run r) →
      s.step now (.advance k fault) = some s' →
      s'.fetcher.calls[k]? = some (.run (.done none)) → s' = s.setCall k (.run (.done none)) ∧
        ((r = .entering ∧ (s.fetcher.stopAsked = true ∨ entries ⟨store, f⟩ t ≠ [])) ∨
          (r = .published ∧ s.fetcher.stopAsked = true) ∨
          (r = .running ∧ ∀ d, (s.fetcher.tasks.get d).isOver = true)) := by
  have entered := entered_of_runs made ran
  refine ⟨entered.once, fun found => ⟨?_, ?_, ?_⟩, ?_, ?_⟩
  · intro away now fault
    rw [← entered.started] at away
    exact step_advance_run found (by rcases away with away | away <;> simp [stepRun, away])
  · intro go none free
    have fresh : s.fetcher.started = false := by
      rw [← Bool.not_eq_true, entered.started, none]
      simp
    exact getsTo_of_entering found go fresh free
  · intro u s' e own ran failed
    exact eq_inside_of_failed found own ran failed
  · intro e found
    refine ⟨entered.eq_of_failed found, fun u s' further => ?_⟩
    have regular := (regular_of_run (regular_of_new made).1 ran).1
    obtain ⟨regular', stays⟩ := failed_of_run regular found further
    have whole := entered_of_runs made (after_append_eq_some.mpr ⟨s, ran, further⟩)
    have bare := whole.failed k e stays
    refine ⟨fun d => ⟨(bare d).1, (bare d).2, regular'.ticks_eq_none (bare d).1⟩, ?_⟩
    intro n r other called
    refine whole.outside n r called ?_
    rw [whole.eq_of_failed stays]
    simpa using other
  · intro r now fault s' found stepped back
    obtain ⟨m, r', went, rfl⟩ := advance_run_cases found stepped
    have moves : (Call.run r).Moves now s _ m (.run r') := run_moves_of_step went
    have calls : m.fetcher.calls = s.fetcher.calls := moves.frame.2.2
    rw [getElem?_setCall _ (by rw [calls]; exact found)] at back
    cases back
    obtain ⟨rfl, cases⟩ := stepRun_done went
    rw [entered.started] at cases
    exact ⟨rfl, cases⟩

def unloaded (kind : CallKind) : List (Nat × Event HeightCursor) :=
  [(0, .call kind)] ++ (if kind = .run then [(0, .advance 0 none)] else []) ++
    [(0, .advance 0 none), (0, .advance 0 (some (.database "down")))]

theorem starts_once_unloaded : ∃ s : System HeightCursor,
    Fetcher.new bothWays = .ok newBothWays ∧
      (⟨{}, newBothWays⟩ : System HeightCursor).run (unloaded .run ++ [(1, .call .run)]) = some s ∧
      entries ⟨{}, newBothWays⟩ (unloaded .run ++ [(1, .call .run)]) = [0] ∧
      (∀ u s', s.run u = some s' → ∀ d, s'.fetcher.ticks.get d = none) ∧
      ∀ now, s.step now (.advance 1 none) = some (s.setCall 1 (.run (.done none))) := by
  have made : Fetcher.new bothWays = .ok newBothWays := rfl
  have ends : ((⟨{}, newBothWays⟩ : System HeightCursor).run
      (unloaded .run ++ [(1, .call .run)])).map (·.fetcher.calls) =
        some [.run (.done (some (.store (.database "down")))), .run .entering] := rfl
  obtain ⟨s, ran, calls⟩ := Option.map_eq_some_iff.mp ends
  have failed : s.fetcher.calls[0]? = some (.run (.done (some (.store (.database "down"))))) := by
    rw [calls]
    rfl
  have entering : s.fetcher.calls[1]? = some (.run .entering) := by
    rw [calls]
    rfl
  obtain ⟨alone, quiet⟩ := (starts_once made ran 0).2.2.1 _ failed
  refine ⟨s, made, ran, alone, fun u s' further d => ((quiet u s' further).1 d).2.2, ?_⟩
  intro now
  have some : entries ⟨{}, newBothWays⟩ (unloaded .run ++ [(1, .call .run)]) ≠ [] := by
    rw [alone]
    simp
  exact ((starts_once made ran 1).2.1 entering).1 (Or.inr some) now none

/-- After a call of run that failed, with no stop asked for and the store in order, the next one
comes back without an error and runs neither direction. After a call of init that failed it runs
both. -/
theorem failed_start_counts :
    (∃ s : System HeightCursor, (⟨{}, newBothWays⟩ : System HeightCursor).run
        (unloaded .run ++ [(1, .call .run), (1, .advance 1 none)]) = some s ∧
      s.fetcher.calls[0]? = some (.run (.done (some (.store (.database "down"))))) ∧
      s.fetcher.calls[1]? = some (.run (.done none)) ∧ s.fetcher.stopAsked = false ∧
      s.fetcher.isComplete none = false ∧ s.fetcher.loops.forward.isNone ∧
      s.fetcher.loops.backward.isNone) ∧
    ∃ s : System HeightCursor, (⟨{}, newBothWays⟩ : System HeightCursor).run
        (unloaded .init ++ [(1, .call .run), (1, .advance 1 none), (1, .advance 1 none),
          (1, .advance 1 none), (1, .advance 1 none), (1, .advance 1 none)]) = some s ∧
      s.fetcher.calls[0]? = some (.init (.done (.error (.store (.database "down"))))) ∧
      s.fetcher.calls[1]? = some (.run .running) ∧ s.fetcher.loops.forward.isSome ∧
      s.fetcher.loops.backward.isSome := by
  refine ⟨?_, ?_⟩
  · have ends : ((⟨{}, newBothWays⟩ : System HeightCursor).run
        (unloaded .run ++ [(1, .call .run), (1, .advance 1 none)])).map (fun s =>
          (s.fetcher.calls, s.fetcher.stopAsked, s.fetcher.isComplete none,
            s.fetcher.loops.forward.isNone, s.fetcher.loops.backward.isNone)) =
        some ([.run (.done (some (.store (.database "down")))), .run (.done none)], false, false,
          true, true) := rfl
    obtain ⟨s, ran, seen⟩ := Option.map_eq_some_iff.mp ends
    simp only [Prod.mk.injEq] at seen
    obtain ⟨calls, go, todo, forward, backward⟩ := seen
    exact ⟨s, ran, by rw [calls]; rfl, by rw [calls]; rfl, go, todo, forward, backward⟩
  · have ends : ((⟨{}, newBothWays⟩ : System HeightCursor).run
        (unloaded .init ++ [(1, .call .run), (1, .advance 1 none), (1, .advance 1 none),
          (1, .advance 1 none), (1, .advance 1 none), (1, .advance 1 none)])).map (fun s =>
          (s.fetcher.calls, s.fetcher.loops.forward.isSome, s.fetcher.loops.backward.isSome)) =
        some ([.init (.done (.error (.store (.database "down")))), .run .running], true, true) :=
      rfl
    obtain ⟨s, ran, seen⟩ := Option.map_eq_some_iff.mp ends
    simp only [Prod.mk.injEq] at seen
    obtain ⟨calls, forward, backward⟩ := seen
    exact ⟨s, ran, by rw [calls]; rfl, by rw [calls]; rfl, forward, backward⟩

end System
end ChainFetch.Fetch
