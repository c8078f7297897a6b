import Mathlib.Data.List.Induction
import Mathlib.Data.List.Perm.Subperm
import ChainFetch.Proofs.Trace
import ChainFetch.Proofs.Window
import ChainFetch.Rehearsal.Window
import ChainFetch.Window.Driver
/-!
What the driver of a window has done, told from its polls alone. Main statements:
`conserves_within_limit`, it keeps to its limit, loses nothing and comes back exactly when the
source has ended and all that it pulled is done, and `run_of_driveWindow`, a rehearsed window is
driven so.
-/

namespace ChainFetch

variable {τ ω : Type}

namespace Poll

def operation? : Poll τ ω → Option τ
  | .source (some (some op)) => some op
  | _ => none

def output? : Poll τ ω → Option (Nat × ω)
  | .flight (some out) => some out
  | _ => none

def pulled (t : List (Poll τ ω)) : List τ := t.filterMap operation?

def completed (t : List (Poll τ ω)) : List (Nat × ω) := t.filterMap output?

def Ended (t : List (Poll τ ω)) : Prop := .source (some none) ∈ t

variable {t : List (Poll τ ω)} {p : Poll τ ω}

theorem pulled_concat : pulled (t ++ [p]) = pulled t ++ p.operation?.toList :=
  filterMap_concat operation? t p

theorem completed_concat : completed (t ++ [p]) = completed t ++ p.output?.toList :=
  filterMap_concat output? t p

theorem ended_concat : Ended (t ++ [p]) ↔ Ended t ∨ p = .source (some none) := by
  simp [Ended, eq_comm]

end Poll

open Poll

namespace Window

variable {w w' : Window τ ω} {k limit : Nat} {out : ω} {op : τ} {t : List (Poll τ ω)} {p : Poll τ ω}

theorem isDone_iff_idle : w.isDone = true ↔ w.isOpen = false ∧ w.running = [] := by
  simp [isDone]

theorem complete?_isSome_iff : (w.complete? k out).isSome ↔ ∃ op, (k, op) ∈ w.running := by
  unfold complete?
  split
  · rename_i held
    obtain ⟨r, member, same⟩ := List.any_eq_true.mp held
    have same : r.1 = k := by simpa using same
    subst same
    exact ⟨fun _ => ⟨r.2, member⟩, fun _ => rfl⟩
  · rename_i absent
    refine ⟨fun h => (by cases h), ?_⟩
    rintro ⟨op, member⟩
    exact absurd (List.any_eq_true.mpr ⟨(k, op), member, by simp⟩) absent

theorem Numbered.length_filter (h : w.Numbered) (member : (k, op) ∈ w.running) :
    (w.running.filter (·.1 ≠ k)).length + 1 = w.running.length := by
  have number : k ∈ w.running.map (·.1) := List.mem_map_of_mem member
  have keys : (w.running.filter (·.1 ≠ k)).map (·.1) = (w.running.map (·.1)).erase k := by
    rw [h.distinct.erase_eq_filter, List.filter_map]
    congr 1
    apply List.filter_congr
    intro r _
    by_cases same : r.1 = k <;> simp [same]
  have less := congrArg List.length keys
  rw [List.length_map, List.length_erase_of_mem number, List.length_map] at less
  have positive := List.length_pos_of_mem member
  omega

inductive Takes (w : Window τ ω) : Poll τ ω → Window τ ω → Prop
  | sourceWaits (opened : w.isOpen = true) : Takes w (.source none) w
  | flightWaits (busy : w.running ≠ []) : Takes w (.flight none) w
  | closes {w' : Window τ ω} (done : w.close? = some w') : Takes w (.source (some none)) w'
  | pulls {w' : Window τ ω} {op : τ} (done : w.pull? op = some w') :
    Takes w (.source (some (some op))) w'
  | completes {w' : Window τ ω} {k : Nat} {out : ω} (done : w.complete? k out = some w') :
    Takes w (.flight (some (k, out))) w'

/-- In flight is what was pulled and brought no output: `ops` are the operations pulled, `outs` the
outputs. -/
structure Follows (limit : Nat) (ops : List τ) (outs : List (Nat × ω)) (ended : Prop)
    (w : Window τ ω) : Prop where
  numbered : w.Numbered
  limit_eq : w.limit = max limit 1
  pulled_eq : w.pulled = ops.length
  outputs_eq : w.outputs = outs
  exhausted_iff : w.exhausted = true ↔ ended
  mem_running_iff : ∀ k op, (k, op) ∈ w.running ↔ ops[k]? = some op ∧ k ∉ outs.map (·.1)
  nodup : (outs.map (·.1)).Nodup
  known : ∀ k ∈ outs.map (·.1), k < ops.length
  conserved : w.running.length + outs.length = ops.length
  within : w.running.length ≤ w.limit

variable {ops : List τ} {outs : List (Nat × ω)} {ended : Prop}

theorem follows_new (limit : Nat) : (new limit : Window τ ω).Follows limit [] [] False where
  numbered := numbered_new limit
  limit_eq := rfl
  pulled_eq := rfl
  outputs_eq := rfl
  exhausted_iff := by simp [new]
  mem_running_iff := by simp [new]
  nodup := List.nodup_nil
  known := by simp
  conserved := rfl
  within := Nat.zero_le _

theorem Follows.pull? (h : w.Follows limit ops outs ended) (done : w.pull? op = some w') :
    w'.Follows limit (ops ++ [op]) outs ended := by
  have numbered := h.numbered.pull? done
  obtain ⟨opened, rfl⟩ := pull?_cases done
  have room : w.running.length < w.limit := by
    simp only [isOpen, Bool.and_eq_true, decide_eq_true_eq] at opened
    exact opened.2
  have conserved := h.conserved
  have fresh : ops.length ∉ outs.map (·.1) := fun known => Nat.lt_irrefl _ (h.known _ known)
  refine
    { numbered
      limit_eq := h.limit_eq
      pulled_eq := by simp [h.pulled_eq]
      outputs_eq := h.outputs_eq
      exhausted_iff := h.exhausted_iff
      mem_running_iff := ?_
      nodup := h.nodup
      known := ?_
      conserved := by simp; omega
      within := by simpa using Nat.succ_le_of_lt room }
  · intro k op'
    rw [List.mem_append, h.mem_running_iff, List.mem_singleton, h.pulled_eq]
    rcases Nat.lt_trichotomy k ops.length with below | rfl | above
    · simp [List.getElem?_append_left below, Nat.ne_of_lt below]
    · simp [fresh, eq_comm]
    · have past : (ops ++ [op])[k]? = none := by simp; omega
      simp [past, List.getElem?_eq_none (Nat.le_of_lt above), Nat.ne_of_gt above]
  · intro k member
    have below := h.known k member
    rw [List.length_append]
    omega

theorem Follows.close? (h : w.Follows limit ops outs ended) (done : w.close? = some w') :
    w'.Follows limit ops outs True := by
  obtain ⟨-, rfl⟩ := close?_cases done
  exact { h with
    numbered := ⟨h.numbered.distinct, h.numbered.pulled⟩
    exhausted_iff := by simp }

theorem Follows.complete? (h : w.Follows limit ops outs ended)
    (done : w.complete? k out = some w') : w'.Follows limit ops (outs ++ [(k, out)]) ended := by
  have numbered := h.numbered.complete? done
  obtain ⟨op, member⟩ := complete?_isSome_iff.mp (Option.isSome_of_eq_some done)
  obtain ⟨known, fresh⟩ := (h.mem_running_iff k op).mp member
  have below : k < ops.length := (List.getElem?_eq_some_iff.mp known).1
  have less := h.numbered.length_filter member
  have conserved := h.conserved
  have within := h.within
  obtain rfl := complete?_cases done
  refine
    { numbered
      limit_eq := h.limit_eq
      pulled_eq := h.pulled_eq
      outputs_eq := by simp [h.outputs_eq]
      exhausted_iff := h.exhausted_iff
      mem_running_iff := ?_
      nodup := ?_
      known := ?_
      conserved := ?_
      within := ?_ }
  · intro n op'
    rw [List.mem_filter, h.mem_running_iff, List.map_append, List.mem_append, not_or, and_assoc]
    simp
  · rw [List.map_append]
    exact List.nodup_append.mpr ⟨h.nodup, by simp, by simp; grind⟩
  · intro n member
    rw [List.map_append, List.mem_append] at member
    rcases member with old | new
    · exact h.known n old
    · simp at new
      omega
  · simp only [List.length_append, List.length_singleton]
    omega
  · change (w.running.filter (·.1 ≠ k)).length ≤ w.limit
    omega

theorem Follows.isOpen_iff (h : w.Follows limit ops outs ended) :
    w.isOpen = true ↔ ¬ ended ∧ ops.length < outs.length + max limit 1 := by
  have conserved := h.conserved
  unfold isOpen
  rw [Bool.and_eq_true, Bool.not_eq_true', ← Bool.not_eq_true, h.exhausted_iff,
    decide_eq_true_iff, h.limit_eq]
  apply and_congr_right
  intro _
  omega

theorem Follows.isDone_iff (h : w.Follows limit ops outs ended) :
    w.isDone = true ↔ ended ∧ outs.length = ops.length := by
  have conserved := h.conserved
  rw [Window.isDone_iff (by rw [h.limit_eq]; omega), h.exhausted_iff, ← List.length_eq_zero_iff]
  apply and_congr_right
  intro _
  omega

theorem Follows.takes (h : w.Follows limit (Poll.pulled t) (completed t) (Ended t))
    (m : w.Takes p w') :
    w'.Follows limit (Poll.pulled (t ++ [p])) (completed (t ++ [p])) (Ended (t ++ [p])) := by
  rw [pulled_concat, completed_concat, propext ended_concat]
  cases m with
  | sourceWaits => simpa [operation?, output?] using h
  | flightWaits => simpa [operation?, output?] using h
  | closes done => simpa [operation?, output?] using h.close? done
  | pulls done => simpa [operation?, output?] using h.pull? done
  | completes done => simpa [operation?, output?] using h.complete? done

end Window

namespace Driver

open Window (Takes Follows)

variable {w w' : Window τ ω} {d d' : Driver τ ω} {p : Poll τ ω} {t u : List (Poll τ ω)}
  {k limit : Nat} {out : ω}

theorem run_append_eq_some :
    d.run (t ++ u) = some d' ↔ ∃ m, d.run t = some m ∧ m.run u = some d' := by
  unfold run
  rw [List.foldlM_append]
  exact Option.bind_eq_some_iff

theorem run_concat_eq_some :
    d.run (t ++ [p]) = some d' ↔ ∃ m, d.run t = some m ∧ m.step p = some d' := by
  rw [run_append_eq_some]
  simp [run]

theorem turn_of_not_done (busy : w.isDone = false) : turn w = .turning w.isOpen w := by
  simp [turn, busy]

/-- From the top of the loop there is something to poll, and a poll leads to the top again. -/
theorem takes_of_step (h : (turn w).step p = some d) : ∃ w', w.Takes p w' ∧ d = turn w' := by
  by_cases done : w.isDone = true
  · simp [turn, done, step] at h
  · have busy : w.isDone = false := by simpa using done
    rw [turn_of_not_done busy] at h
    cases p with
    | source answer =>
      obtain ⟨opened, answered⟩ := Option.ite_none_right_eq_some.mp h
      match answer, answered with
      | none, answered =>
        cases answered
        exact ⟨w, .sourceWaits opened, by rw [turn_of_not_done busy, opened]⟩
      | some none, answered =>
        obtain ⟨w', closed, rfl⟩ := Option.map_eq_some_iff.mp answered
        exact ⟨w', .closes closed, rfl⟩
      | some (some op), answered =>
        obtain ⟨w', pulled, rfl⟩ := Option.map_eq_some_iff.mp answered
        exact ⟨w', .pulls pulled, rfl⟩
    | flight answer =>
      obtain ⟨running, answered⟩ := Option.ite_none_left_eq_some.mp h
      match answer, answered with
      | none, answered =>
        cases answered
        exact ⟨w, .flightWaits (by simpa using running), (turn_of_not_done busy).symm⟩
      | some (k, out), answered =>
        obtain ⟨w', completed, rfl⟩ := Option.map_eq_some_iff.mp answered
        exact ⟨w', .completes completed, rfl⟩
    | neither =>
      -- A window that is neither open nor busy is done.
      obtain ⟨idle, -⟩ := Option.ite_none_left_eq_some.mp h
      simp [Window.isDone] at busy idle
      exact absurd idle.2 (busy idle.1)

theorem step_of_takes (m : w.Takes p w') : (turn w).step p = some (turn w') := by
  have busy : w.isDone = false := by
    rw [← Bool.not_eq_true, Window.isDone_iff_idle]
    rintro ⟨closed, idle⟩
    cases m <;> simp_all [Window.close?, Window.pull?, Window.complete?]
  rw [turn_of_not_done busy]
  cases m with
  | sourceWaits opened => simp [step, opened, turn_of_not_done busy]
  | flightWaits running => simp [step, running, turn_of_not_done busy]
  | closes done => simp [step, (Window.close?_cases done).1, done]
  | pulls done => simp [step, (Window.pull?_cases done).1, done]
  | completes done =>
    obtain ⟨op, member⟩ := Window.complete?_isSome_iff.mp (Option.isSome_of_eq_some done)
    simp [step, done, List.ne_nil_of_mem member]

theorem step_source_isSome_iff {a : Option (Option τ)} :
    ((turn w).step (.source a)).isSome ↔ w.isOpen = true := by
  rw [Option.isSome_iff_exists]
  constructor
  · rintro ⟨d, h⟩
    obtain ⟨w', m, -⟩ := takes_of_step h
    cases m with
    | sourceWaits opened => exact opened
    | closes done => exact (Window.close?_cases done).1
    | pulls done => exact (Window.pull?_cases done).1
  · intro opened
    match a with
    | none => exact ⟨_, step_of_takes (.sourceWaits opened)⟩
    | some none => exact ⟨_, step_of_takes (.closes (if_pos opened))⟩
    | some (some op) => exact ⟨_, step_of_takes (.pulls (if_pos opened))⟩

theorem step_flight_isSome_iff :
    ((turn w).step (.flight (some (k, out)))).isSome ↔ ∃ op, (k, op) ∈ w.running := by
  rw [Option.isSome_iff_exists]
  constructor
  · rintro ⟨d, h⟩
    obtain ⟨w', m, -⟩ := takes_of_step h
    cases m with
    | completes done => exact Window.complete?_isSome_iff.mp (Option.isSome_of_eq_some done)
  · intro held
    have completes : (w.complete? k out).isSome := Window.complete?_isSome_iff.mpr held
    obtain ⟨w', done⟩ := Option.isSome_iff_exists.mp completes
    exact ⟨_, step_of_takes (.completes done)⟩

theorem inFlight_turn : (turn w).inFlight = w.running := by
  unfold turn
  split
  · rename_i done
    rw [(Window.isDone_iff_idle.mp done).2]
    rfl
  · rfl

theorem follows_of_run (ran : (new limit : Driver τ ω).run t = some d) :
    ∃ w, d = turn w ∧ w.Follows limit (pulled t) (completed t) (Ended t) := by
  induction t using List.reverseRecOn generalizing d with
  | nil =>
    cases ran
    have start : (.new limit : Window τ ω).Follows limit [] [] (Ended ([] : List (Poll τ ω))) := by
      simpa [Ended] using Window.follows_new limit
    exact ⟨.new limit, rfl, start⟩
  | append_singleton t p ih =>
    obtain ⟨m, earlier, last⟩ := run_concat_eq_some.mp ran
    obtain ⟨w, rfl, follows⟩ := ih earlier
    obtain ⟨w', takes, rfl⟩ := takes_of_step last
    exact ⟨w', rfl, follows.takes takes⟩

theorem turn_eq_returned_iff {outs : List (Nat × ω)} :
    turn w = .returned outs ↔ w.isDone = true ∧ outs = w.outputs := by
  unfold turn
  split
  · rename_i done
    rw [done]
    simp [eq_comm]
  · rename_i busy
    simp [busy]

/-- Whatever its source and its operations do, and in whatever order: at most `limit` operations, or
one, are pulled and not completed. The source is polled exactly until it has ended, and while fewer
are. In flight are the operations pulled and not completed, and they alone can be completed, so none
is lost or completed twice. The driver comes back exactly when the source has ended and all that it
pulled is completed, with one output for each operation in the order of their completion. -/
theorem conserves_within_limit (ran : (new limit : Driver τ ω).run t = some d) :
    (d.inFlight.length + (completed t).length = (pulled t).length ∧
      d.inFlight.length ≤ max limit 1) ∧
    (∀ answer, (d.step (.source answer)).isSome ↔
      ¬ Ended t ∧ (pulled t).length < (completed t).length + max limit 1) ∧
    ((∀ k op, (k, op) ∈ d.inFlight ↔
        (pulled t)[k]? = some op ∧ k ∉ (completed t).map (·.1)) ∧
      (∀ k out, (d.step (.flight (some (k, out)))).isSome ↔ ∃ op, (k, op) ∈ d.inFlight) ∧
      ((completed t).map (·.1)).Nodup ∧ ∀ k ∈ (completed t).map (·.1), k < (pulled t).length) ∧
    d.step .neither = none ∧
    (∀ outs, d = .returned outs ↔
      Ended t ∧ (completed t).length = (pulled t).length ∧ outs = completed t) ∧
    ((completed t).length = (pulled t).length →
      ((completed t).map (·.1)).Perm (List.range (pulled t).length)) := by
  obtain ⟨w, rfl, h⟩ := follows_of_run ran
  have within := h.within
  rw [h.limit_eq] at within
  simp only [inFlight_turn]
  refine ⟨⟨h.conserved, within⟩, ?_, ⟨h.mem_running_iff, ?_, h.nodup, h.known⟩, ?_, ?_, ?_⟩
  · intro answer
    rw [step_source_isSome_iff]
    exact h.isOpen_iff
  · intro k out
    exact step_flight_isSome_iff
  · cases stepped : (turn w).step .neither with
    | none => rfl
    | some d =>
      obtain ⟨w', takes, -⟩ := takes_of_step stepped
      cases takes
  · intro outs
    rw [turn_eq_returned_iff, h.isDone_iff, h.outputs_eq, and_assoc]
  · intro all
    have below : (completed t).map (·.1) ⊆ List.range (pulled t).length := by
      intro k member
      exact List.mem_range.mpr (h.known k member)
    apply (List.subperm_of_subset h.nodup below).perm_of_length_le
    exact Nat.le_of_eq (by rw [List.length_range, List.length_map, all])

/-- Two operations are pulled, after a wait the second completes, the source ends, and the first
completes. -/
def overtaking : List (Poll Char Nat) := [
  .source none, .source (some (some 'a')), .source (some (some 'b')), .flight none,
  .flight (some (1, 8)), .source (some none), .flight (some (0, 7))]

theorem conserves_within_limit_overtaking :
    (new 2 : Driver Char Nat).run (overtaking.take 4) = some (.turning false
      { limit := 2, pulled := 2, running := [(0, 'a'), (1, 'b')] }) ∧
    (new 2 : Driver Char Nat).run overtaking = some (.returned [(1, 8), (0, 7)]) ∧
    ¬ (pulled (overtaking.take 4)).length < (completed (overtaking.take 4)).length + max 2 1 ∧
    [1, 0].Perm (List.range 2) := by
  have full : (new 2 : Driver Char Nat).run (overtaking.take 4) = some (.turning false
      { limit := 2, pulled := 2, running := [(0, 'a'), (1, 'b')] }) := rfl
  have back : (new 2 : Driver Char Nat).run overtaking = some (.returned [(1, 8), (0, 7)]) := rfl
  refine ⟨full, back, ?_, (conserves_within_limit back).2.2.2.2.2 rfl⟩
  intro room
  have asked : (none : Option (Driver Char Nat)).isSome :=
    ((conserves_within_limit full).2.1 none).mpr ⟨by simp [overtaking, Ended], room⟩
  cases asked

/-! ## A rehearsed window -/

open Rehearsal

theorem takes_of_program {p p' : WindowPlay} (h : p.program = some p') :
    p'.window = p.window ∨ ∃ poll, p.window.Takes poll p'.window := by
  unfold WindowPlay.program at h
  split at h
  · obtain ⟨w', done, rfl⟩ := Option.map_eq_some_iff.mp h
    exact Or.inr ⟨_, .completes done⟩
  · obtain ⟨opened, h⟩ := Option.ite_none_right_eq_some.mp h
    split at h
    · obtain ⟨w', done, rfl⟩ := Option.map_eq_some_iff.mp h
      exact Or.inr ⟨_, .closes done⟩
    · cases h
      exact Or.inl rfl
    · obtain ⟨-, h⟩ := Option.ite_none_right_eq_some.mp h
      obtain ⟨w', done, rfl⟩ := Option.map_eq_some_iff.mp h
      exact Or.inr ⟨_, .pulls done⟩

/-- A window in a rehearsal takes steps of the driver alone. -/
theorem run_of_driveWindow (limit : Nat) (errands : List Errand) :
    ∃ t : List (Poll Span Span), ∃ w, (new limit).run t = some (turn w) ∧
      (driveWindow limit errands).1 = w.outputs := by
  have start : ∃ t, (new limit).run t =
      some (turn ({ source := errands, window := .new limit } : WindowPlay).window) := ⟨[], rfl⟩
  obtain ⟨t, ran⟩ := World.run_invariant (w := WindowPlay.world)
    (P := fun p => ∃ t, (new limit).run t = some (turn p.window))
    (fun before stepped => by
      obtain ⟨t, before⟩ := before
      rcases takes_of_program stepped with same | ⟨poll, takes⟩
      · exact ⟨t, by rw [same]; exact before⟩
      · exact ⟨_, run_concat_eq_some.mpr ⟨_, before, step_of_takes takes⟩⟩)
    (fun _ acted => by cases acted) (fun _ before => before) (windowFuel errands) false start
  exact ⟨t, _, ran, rfl⟩

end Driver
end ChainFetch
