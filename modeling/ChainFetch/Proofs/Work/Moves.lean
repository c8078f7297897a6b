import ChainFetch.Proofs.Schedule.Stages
import ChainFetch.Proofs.Trace
import ChainFetch.Proofs.Window
import ChainFetch.Proofs.Work.Order
import ChainFetch.Work.Pool
/-!
What one step of a pool can do, said once: a batch takes one of five answers (`Batch.Moves`), and
the pool makes one of the moves of `Pool.Moves`, each with its `Act` upon the queue. Main
statements: `moves_of_step`, and `run_invariant`, by which what every move keeps holds in every run.
-/

namespace ChainFetch.Work

open Schedule (Loop Effect Signal)

variable {α : Type}

namespace Batch

/-- An answer takes a batch on. It shows which item was given to the handler's first check, and a
removal takes positions out of the queue. -/
inductive Moves : Batch α → (shown : List (Item α)) → (taken : List Position) → Batch α → Prop
  | prechecked (i : Item α) (unchecked : List (Item α)) (satisfied : List Position)
      (remaining : List (Item α)) (a : Except Failure Bool) :
      Moves (.checking (i :: unchecked) satisfied remaining) [i] []
        (.prechecked i unchecked satisfied remaining a)
  | cleared (satisfied : List Position) (remaining : List (Item α)) :
      Moves (.clearing satisfied remaining) [] satisfied (.handle remaining)
  | handled (items : List (Item α)) (a : Except Failure (Option Duration)) :
      Moves (.handling items) [] [] (.handled items a)
  | verified (i : Item α) (unverified : List (Item α)) (completed : List Position)
      (report : Report) (a : Except Failure Bool) :
      Moves (.verifying (i :: unverified) completed report) [] []
        (.verified i unverified completed report a)
  | removed (completed : List Position) (report : Report) :
      Moves (.removing completed report) [] completed (.done (.ok report))
  | failed (b : Batch α) (e : Failure) : Moves b [] [] (.done (.error e))

end Batch

namespace Drain

def put (d : Drain α) (k : Nat) (b : Batch α) : Drain α := { d with window := d.window.set k b }

variable {d d' : Drain α} {k : Nat} {queue : Queue α} {chunk : Nat} {fault : Option StoreFailure}

theorem advance_cases {next : Batch α → Option (Batch α)} (h : d.advance k next = some d') :
    ∃ b b', d.window.get? k = some b ∧ next b = some b' ∧ d' = d.put k b' := by
  unfold advance at h
  obtain ⟨b, found, h⟩ := Option.bind_eq_some_iff.mp h
  obtain ⟨b', moved, h⟩ := Option.bind_eq_some_iff.mp h
  cases h
  exact ⟨b, b', found, moved, rfl⟩

theorem collect_cases (h : d.collect k = some d') :
    ∃ result w, d.window.get? k = some (.done result) ∧
      d.window.complete? k result = some w ∧ d' = { d with window := w } := by
  unfold collect at h
  split at h
  · rename_i result found
    obtain ⟨w, completed, rfl⟩ := Option.map_eq_some_iff.mp h
    exact ⟨result, w, found, completed, rfl⟩
  · cases h

theorem read_cases (h : d.read queue chunk fault = some d') :
    (∃ w, d.window.close? = some w ∧ d' = { d with window := w } ∧
      (d.readFailed = true ∨ fault = none ∧ queue.readAfter d.position chunk = [])) ∨
    (∃ w e, d.window.pull? (.done (.error (.store e))) = some w ∧
      d' = { d with readFailed := true, window := w } ∧ fault = some e ∧ d.readFailed = false) ∨
    (∃ w last, (queue.readAfter d.position chunk).getLast? = some last ∧
      d.window.pull? (.start (queue.readAfter d.position chunk)) = some w ∧
      d.readFailed = false ∧ d' = { d with position := some last.position, window := w } ∧
      fault = none) := by
  unfold read at h
  split at h
  · rename_i failed
    obtain ⟨w, closed, rfl⟩ := Option.map_eq_some_iff.mp h
    exact Or.inl ⟨w, closed, rfl, Or.inl failed⟩
  · rename_i going
    have going : d.readFailed = false := by simpa using going
    split at h
    · rename_i e
      obtain ⟨w, pulled, rfl⟩ := Option.map_eq_some_iff.mp h
      exact Or.inr (Or.inl ⟨w, e, pulled, rfl, rfl, going⟩)
    · dsimp only at h
      split at h
      · rename_i none
        obtain ⟨w, closed, rfl⟩ := Option.map_eq_some_iff.mp h
        exact Or.inl ⟨w, closed, rfl, Or.inr ⟨rfl, List.getLast?_eq_none_iff.mp none⟩⟩
      · rename_i last ends
        obtain ⟨w, pulled, rfl⟩ := Option.map_eq_some_iff.mp h
        exact Or.inr (Or.inr ⟨w, last, ends, pulled, going, rfl, rfl⟩)

end Drain

namespace Pool

variable {p p' : Pool α} {now k : Nat} {d : Drain α} {fault : Option StoreFailure}

theorem drain?_eq_some_iff : p.drain? = some d ↔ p.pass = some (.draining d) := by
  unfold drain?
  split
  · rename_i e found
    rw [found]
    simp
  · rename_i absent
    constructor
    · rintro ⟨⟩
    · intro found
      exact absurd found (absent d)

def batch? (p : Pool α) (k : Nat) : Option (Batch α) := p.drain?.bind (·.window.get? k)

theorem batch?_eq (draining : p.pass = some (.draining d)) : p.batch? k = d.window.get? k := by
  rw [batch?, drain?_eq_some_iff.mpr draining, Option.bind_some]

/-! ## Answers to a batch -/

theorem answer_cases {next : Batch α → Option (Batch α)} (h : p.answer k next = some p') :
    ∃ d b b', p.pass = some (.draining d) ∧ d.window.get? k = some b ∧ next b = some b' ∧
      p' = p.setDrain (d.put k b') := by
  unfold answer at h
  obtain ⟨d, draining, h⟩ := Option.bind_eq_some_iff.mp h
  obtain ⟨d', moved, h⟩ := Option.bind_eq_some_iff.mp h
  obtain ⟨b, b', found, next, rfl⟩ := Drain.advance_cases moved
  cases h
  exact ⟨d, b, b', drain?_eq_some_iff.mp draining, found, next, rfl⟩

theorem answerRemoval_cases {removal : Batch α → Option (List Position × Batch α)}
    (h : p.answerRemoval k fault removal = some p') :
    ∃ d b ps b', p.pass = some (.draining d) ∧ d.window.get? k = some b ∧
      removal b = some (ps, b') ∧
      ((fault = none ∧
          p' = { p with queue := p.queue.removeDispatched ps }.setDrain (d.put k b')) ∨
        (∃ e, fault = some e ∧ p' = p.setDrain (d.put k (.done (.error (.store e)))))) := by
  unfold answerRemoval at h
  obtain ⟨d, draining, h⟩ := Option.bind_eq_some_iff.mp h
  obtain ⟨b, found, h⟩ := Option.bind_eq_some_iff.mp h
  obtain ⟨⟨ps, b'⟩, removes, h⟩ := Option.bind_eq_some_iff.mp h
  refine ⟨d, b, ps, b', drain?_eq_some_iff.mp draining, found, removes, ?_⟩
  cases fault with
  | none =>
    cases h
    exact Or.inl ⟨rfl, rfl⟩
  | some e =>
    cases h
    exact Or.inr ⟨e, rfl, rfl⟩

/-! ## What each event does -/

theorem prechecked_cases {a : Except Failure Bool}
    (h : p.step now (.prechecked k a) = some p') :
    ∃ d i unchecked satisfied remaining, p.pass = some (.draining d) ∧
      d.window.get? k = some (.checking (i :: unchecked) satisfied remaining) ∧
      p' = p.setDrain (d.put k (.prechecked i unchecked satisfied remaining a)) := by
  obtain ⟨d, b, b', draining, found, moved, rfl⟩ := answer_cases h
  split at moved
  · cases moved
    exact ⟨d, _, _, _, _, draining, found, rfl⟩
  · cases moved

theorem handled_cases {a : Except Failure (Option Duration)}
    (h : p.step now (.handled k a) = some p') :
    ∃ d items, p.pass = some (.draining d) ∧ d.window.get? k = some (.handling items) ∧
      p' = p.setDrain (d.put k (.handled items a)) := by
  obtain ⟨d, b, b', draining, found, moved, rfl⟩ := answer_cases h
  split at moved
  · cases moved
    exact ⟨d, _, draining, found, rfl⟩
  · cases moved

theorem verified_cases {a : Except Failure Bool} (h : p.step now (.verified k a) = some p') :
    ∃ d i unverified completed report, p.pass = some (.draining d) ∧
      d.window.get? k = some (.verifying (i :: unverified) completed report) ∧
      p' = p.setDrain (d.put k (.verified i unverified completed report a)) := by
  obtain ⟨d, b, b', draining, found, moved, rfl⟩ := answer_cases h
  split at moved
  · cases moved
    exact ⟨d, _, _, _, _, draining, found, rfl⟩
  · cases moved

theorem cleared_cases (h : p.step now (.cleared k fault) = some p') :
    ∃ d satisfied remaining, p.pass = some (.draining d) ∧
      d.window.get? k = some (.clearing satisfied remaining) ∧
      ((fault = none ∧ p' = { p with queue := p.queue.removeDispatched satisfied }.setDrain
          (d.put k (.handle remaining))) ∨
        (∃ e, fault = some e ∧ p' = p.setDrain (d.put k (.done (.error (.store e)))))) := by
  obtain ⟨d, b, taken, b', draining, found, removes, after⟩ := answerRemoval_cases h
  split at removes
  · cases removes
    exact ⟨d, _, _, draining, found, after⟩
  · cases removes

theorem removed_cases (h : p.step now (.removed k fault) = some p') :
    ∃ d completed report, p.pass = some (.draining d) ∧
      d.window.get? k = some (.removing completed report) ∧
      ((fault = none ∧ p' = { p with queue := p.queue.removeDispatched completed }.setDrain
          (d.put k (.done (.ok report)))) ∨
        (∃ e, fault = some e ∧ p' = p.setDrain (d.put k (.done (.error (.store e)))))) := by
  obtain ⟨d, b, taken, b', draining, found, removes, after⟩ := answerRemoval_cases h
  split at removes
  · cases removes
    exact ⟨d, _, _, draining, found, after⟩
  · cases removes

theorem note_cases (h : p.step now .note = some p') :
    p.saved ≠ 0 ∧ p' = { p with
      newWork := true
      saved := p.saved - 1
      noted := if p.config.debounced then p.noted + 1 else p.noted } := by
  simp only [step] at h
  split at h
  · cases h
  · rename_i saved
    cases h
    exact ⟨saved, rfl⟩

theorem wake_cases (h : p.step now .wake = some p') :
    p.noted ≠ 0 ∧ p' = { p with noted := p.noted - 1, loop := p.loop.wake } := by
  simp only [step] at h
  split at h
  · cases h
  · rename_i noted
    cases h
    exact ⟨noted, rfl⟩

theorem openPass_cases (h : p.step now .openPass = some p') :
    p.pass = some .opening ∧ p' = { p with
      newWork := false, pass := some (.draining (.new p.config.concurrency.toNat)) } := by
  simp only [step] at h
  split at h
  · rename_i opening
    cases h
    exact ⟨opening, rfl⟩
  · cases h

theorem read_cases (h : p.step now (.read fault) = some p') :
    ∃ d d', p.pass = some (.draining d) ∧
      d.read p.queue p.config.chunkSize.toNat fault = some d' ∧ p' = p.setDrain d' := by
  obtain ⟨d, draining, h⟩ := Option.bind_eq_some_iff.mp h
  obtain ⟨d', reads, h⟩ := Option.bind_eq_some_iff.mp h
  cases h
  exact ⟨d, d', drain?_eq_some_iff.mp draining, reads, rfl⟩

theorem collect_cases (h : p.step now (.collect k) = some p') :
    ∃ d d', p.pass = some (.draining d) ∧ d.collect k = some d' ∧ p' = p.setDrain d' := by
  obtain ⟨d, draining, h⟩ := Option.bind_eq_some_iff.mp h
  obtain ⟨d', collects, h⟩ := Option.bind_eq_some_iff.mp h
  cases h
  exact ⟨d, d', drain?_eq_some_iff.mp draining, collects, rfl⟩

theorem closePass_cases (h : p.step now .closePass = some p') :
    ∃ d, p.pass = some (.draining d) ∧ d.window.isDone = true ∧
      ((∃ e, Report.total (d.window.outputs.map (·.2)) = .error e ∧
          p' = { p with pass := some (.closed (.error e)) }) ∨
        (∃ total, Report.total (d.window.outputs.map (·.2)) = .ok total ∧ p' = { p with
          newWork := false
          pass := some (.closed (.ok (p.config.signal p.newWork total))) })) := by
  obtain ⟨d, draining, h⟩ := Option.bind_eq_some_iff.mp h
  refine ⟨d, drain?_eq_some_iff.mp draining, ?_⟩
  split at h
  · rename_i closed
    refine ⟨closed, ?_⟩
    split at h
    · rename_i e totals
      cases h
      exact Or.inl ⟨e, totals, rfl⟩
    · rename_i total totals
      cases h
      exact Or.inr ⟨total, totals, rfl⟩
  · cases h

theorem foldl_follow_of_quiet {effects : List Effect} (quiet : ∀ c, .tick c ∉ effects) :
    effects.foldl follow p = p := by
  induction effects with
  | nil => rfl
  | cons effect effects ih =>
    have same : p.follow effect = p := by
      cases effect with
      | tick c => exact absurd List.mem_cons_self (quiet c)
      | firstSuccess | sleep _ | returned => rfl
    rw [List.foldl_cons, same]
    exact ih fun c h => quiet c (List.mem_cons_of_mem _ h)

theorem stepLoop_cases {e : Schedule.Event} (h : p.stepLoop now e = some p') :
    ∃ l effects, p.loop.step now e = some (l, effects) ∧
      p' = effects.foldl follow { p with loop := l } := by
  unfold stepLoop at h
  obtain ⟨⟨l, effects⟩, moved, rfl⟩ := Option.map_eq_some_iff.mp h
  exact ⟨l, effects, moved, rfl⟩

theorem passDone_cases (h : p.step now .passDone = some p') :
    ∃ result l effects, p.pass = some (.closed result) ∧
      p.loop.step now (.tickDone result) = some (l, effects) ∧
      p' = { p with pass := none, loop := l } := by
  simp only [step] at h
  split at h
  · rename_i result closed
    obtain ⟨l, effects, moved, rfl⟩ := stepLoop_cases h
    obtain ⟨-, -, quiet, -⟩ := Loop.tickDone_cases moved
    rw [foldl_follow_of_quiet quiet]
    exact ⟨result, l, effects, closed, moved, rfl⟩
  · cases h

/-! ## Moves of the pool -/

inductive Act (α : Type)
  | idle
  | save (items : List (Item α))
  | remove (ids : List String)
  | batch (shown : List (Item α)) (taken : List Position)

def act (p : Pool α) : Event α → Act α
  | .save [] _ => .idle
  | .save _ (some _) => .idle
  | .save items none => .save items
  | .remove ids none => .remove ids
  | .prechecked k _ =>
    match p.batch? k with
    | some (.checking (i :: _) _ _) => .batch [i] []
    | _ => .idle
  | .cleared k none =>
    match p.batch? k with
    | some (.clearing satisfied _) => .batch [] satisfied
    | _ => .idle
  | .removed k none =>
    match p.batch? k with
    | some (.removing completed _) => .batch [] completed
    | _ => .idle
  | .cleared _ (some _) => .batch [] []
  | .removed _ (some _) => .batch [] []
  | .handled _ _ => .batch [] []
  | .verified _ _ => .batch [] []
  | _ => .idle

/-- What one step makes of a pool. Callers of add and remove act on the queue and the flags; the
loop moves by itself; a pass opens, reads, takes answers for its batches, collects them and
closes. -/
inductive Moves (now : Nat) : Pool α → Act α → Pool α → Prop
  | stay (p : Pool α) : Moves now p .idle p
  | save (p : Pool α) (items : List (Item α)) :
      Moves now p (.save items) { p with queue := p.queue.save items, saved := p.saved + 1 }
  | note (p : Pool α) (saved : p.saved ≠ 0) :
      Moves now p .idle { p with
        newWork := true
        saved := p.saved - 1
        noted := if p.config.debounced then p.noted + 1 else p.noted }
  | wake (p : Pool α) (noted : p.noted ≠ 0) :
      Moves now p .idle { p with noted := p.noted - 1, loop := p.loop.wake }
  | remove (p : Pool α) (ids : List String) :
      Moves now p (.remove ids) { p with queue := p.queue.remove ids }
  | loop (p : Pool α) (e : Schedule.Event) (l : Loop) (effects : List Effect)
      (own : ∀ result, e ≠ .tickDone result) (moved : p.loop.step now e = some (l, effects))
      (quiet : ∀ c, .tick c ∉ effects) : Moves now p .idle { p with loop := l }
  | begin (p : Pool α) (ready : p.loop.stage = .ready) (go : p.loop.stopAsked = false) :
      Moves now p .idle { p with
        loop := { p.loop with stage := .ticking now }, pass := some .opening }
  | openPass (p : Pool α) (opening : p.pass = some .opening) :
      Moves now p .idle { p with
        newWork := false, pass := some (.draining (.new p.config.concurrency.toNat)) }
  | read (p : Pool α) (d d' : Drain α) (fault : Option StoreFailure)
      (draining : p.pass = some (.draining d))
      (reads : d.read p.queue p.config.chunkSize.toNat fault = some d') :
      Moves now p .idle (p.setDrain d')
  | batch (p : Pool α) (d : Drain α) (k : Nat) (b b' : Batch α) (shown : List (Item α))
      (taken : List Position) (draining : p.pass = some (.draining d))
      (found : d.window.get? k = some b) (moves : b.Moves shown taken b') :
      Moves now p (.batch shown taken)
        ({ p with queue := p.queue.removeDispatched taken }.setDrain (d.put k b'))
  | collect (p : Pool α) (d d' : Drain α) (k : Nat) (draining : p.pass = some (.draining d))
      (collects : d.collect k = some d') : Moves now p .idle (p.setDrain d')
  | closeFailed (p : Pool α) (d : Drain α) (e : Failure) (draining : p.pass = some (.draining d))
      (closed : d.window.isDone = true) :
      Moves now p .idle { p with pass := some (.closed (.error e)) }
  | close (p : Pool α) (d : Drain α) (total : Report) (draining : p.pass = some (.draining d))
      (closed : d.window.isDone = true)
      (totals : Report.total (d.window.outputs.map (·.2)) = .ok total) :
      Moves now p .idle { p with
        newWork := false
        pass := some (.closed (.ok (p.config.signal p.newWork total))) }
  | passDone (p : Pool α) (result : Except Failure Signal) (l : Loop) (effects : List Effect)
      (closed : p.pass = some (.closed result))
      (moved : p.loop.step now (.tickDone result) = some (l, effects)) :
      Moves now p .idle { p with pass := none, loop := l }

theorem moves_of_stepLoop {e : Schedule.Event} (own : ∀ result, e ≠ .tickDone result)
    (h : p.stepLoop now e = some p') : Moves now p .idle p' := by
  obtain ⟨l, effects, moved, rfl⟩ := stepLoop_cases h
  rcases Loop.quiet_or_begins own moved with quiet | ⟨ready, go, rfl, rfl⟩
  · rw [foldl_follow_of_quiet quiet]
    exact .loop p e l effects own moved quiet
  · exact .begin p ready go

theorem moves_of_save {items : List (Item α)} (h : p.step now (.save items fault) = some p') :
    Moves now p (p.act (.save items fault)) p' := by
  cases items with
  | nil =>
    cases h
    exact .stay p
  | cons i items =>
    cases fault with
    | none =>
      cases h
      exact .save p _
    | some e =>
      cases h
      exact .stay p

theorem moves_of_remove {ids : List String} (h : p.step now (.remove ids fault) = some p') :
    Moves now p (p.act (.remove ids fault)) p' := by
  cases fault with
  | none =>
    cases h
    exact .remove p ids
  | some e =>
    cases h
    exact .stay p

theorem moves_of_prechecked {a : Except Failure Bool} (h : p.step now (.prechecked k a) = some p') :
    Moves now p (p.act (.prechecked k a)) p' := by
  obtain ⟨d, i, unchecked, satisfied, remaining, draining, found, rfl⟩ := prechecked_cases h
  rw [act, batch?_eq draining, found]
  exact .batch p d k _ _ [i] [] draining found (.prechecked i unchecked satisfied remaining a)

theorem moves_of_cleared (h : p.step now (.cleared k fault) = some p') :
    Moves now p (p.act (.cleared k fault)) p' := by
  obtain ⟨d, satisfied, remaining, draining, found, ⟨rfl, rfl⟩ | ⟨e, rfl, rfl⟩⟩ := cleared_cases h
  · rw [act, batch?_eq draining, found]
    exact .batch p d k _ _ [] satisfied draining found (.cleared satisfied remaining)
  · exact .batch p d k _ _ [] [] draining found (.failed _ _)

theorem moves_of_removed (h : p.step now (.removed k fault) = some p') :
    Moves now p (p.act (.removed k fault)) p' := by
  obtain ⟨d, completed, report, draining, found, ⟨rfl, rfl⟩ | ⟨e, rfl, rfl⟩⟩ := removed_cases h
  · rw [act, batch?_eq draining, found]
    exact .batch p d k _ _ [] completed draining found (.removed completed report)
  · exact .batch p d k _ _ [] [] draining found (.failed _ _)

/-- Whatever a pool does in a step is one of its moves. -/
theorem moves_of_step {e : Event α} (h : p.step now e = some p') : Moves now p (p.act e) p' := by
  cases e with
  | save items fault => exact moves_of_save h
  | note =>
    obtain ⟨saved, rfl⟩ := note_cases h
    exact .note p saved
  | wake =>
    obtain ⟨noted, rfl⟩ := wake_cases h
    exact .wake p noted
  | remove ids fault => exact moves_of_remove h
  | start | turn | timeout | rouse | interrupt | askStop | settleStop | join =>
    exact moves_of_stepLoop (by simp) h
  | openPass =>
    obtain ⟨opening, rfl⟩ := openPass_cases h
    exact .openPass p opening
  | read fault =>
    obtain ⟨d, d', draining, reads, rfl⟩ := read_cases h
    exact .read p d d' fault draining reads
  | prechecked k a => exact moves_of_prechecked h
  | cleared k fault => exact moves_of_cleared h
  | handled k a =>
    obtain ⟨d, items, draining, found, rfl⟩ := handled_cases h
    exact .batch p d k _ _ [] [] draining found (.handled items a)
  | verified k a =>
    obtain ⟨d, i, unverified, completed, report, draining, found, rfl⟩ := verified_cases h
    exact .batch p d k _ _ [] [] draining found (.verified i unverified completed report a)
  | removed k fault => exact moves_of_removed h
  | collect k =>
    obtain ⟨d, d', draining, collects, rfl⟩ := collect_cases h
    exact .collect p d d' k draining collects
  | closePass =>
    obtain ⟨d, draining, closed, ⟨e, -, rfl⟩ | ⟨total, totals, rfl⟩⟩ := closePass_cases h
    · exact .closeFailed p d e draining closed
    · exact .close p d total draining closed totals
  | passDone =>
    obtain ⟨result, l, effects, closed, moved, rfl⟩ := passDone_cases h
    exact .passDone p result l effects closed moved

/-! ## The shape of a pool -/

def run (p : Pool α) (t : List (Nat × Event α)) : Option (Pool α) := after step p t

/-- The queue, the loop and the window of a pool are sound, and it is at a pass exactly while its
loop ticks. -/
structure Sound (p : Pool α) : Prop where
  chunk : 0 < p.config.chunkSize.toNat
  queue : p.queue.Sound
  loop : p.loop.Sound
  ticking : p.pass ≠ none → ∃ since, p.loop.stage = .ticking since
  numbered : ∀ d, p.pass = some (.draining d) → d.window.Numbered

theorem Moves.config_eq {a : Act α} (h : Moves now p a p') : p'.config = p.config := by
  cases h <;> rfl

theorem Sound.setDrain (h : p.Sound) (draining : p.pass ≠ none) {q : Queue α} (sound : q.Sound)
    (numbered : d.window.Numbered) : ({ p with queue := q }.setDrain d).Sound := by
  refine ⟨h.chunk, sound, h.loop, fun _ => h.ticking draining, ?_⟩
  intro d' same
  cases same
  exact numbered

theorem Moves.sound {a : Act α} (m : Moves now p a p') (h : p.Sound) : p'.Sound := by
  cases m with
  | stay => exact h
  | save items => exact ⟨h.chunk, Queue.sound_save h.queue items, h.loop, h.ticking, h.numbered⟩
  | note => exact ⟨h.chunk, h.queue, h.loop, h.ticking, h.numbered⟩
  | wake =>
    refine ⟨h.chunk, h.queue, Loop.sound_wake h.loop, ?_, h.numbered⟩
    intro going
    obtain ⟨since, ticking⟩ := h.ticking going
    exact ⟨since, by simp [Loop.wake, ticking]⟩
  | remove ids => exact ⟨h.chunk, Queue.sound_remove h.queue ids, h.loop, h.ticking, h.numbered⟩
  | loop e l effects own moved =>
    refine ⟨h.chunk, h.queue, Loop.sound_step h.loop moved, ?_, h.numbered⟩
    intro going
    obtain ⟨since, ticking⟩ := h.ticking going
    exact ⟨since, Loop.stage_of_ticking h.loop ticking own moved⟩
  | begin ready go =>
    have moved := Loop.step_turn_of_ready now ready go
    exact ⟨h.chunk, h.queue, Loop.sound_step h.loop moved, fun _ => ⟨now, rfl⟩, by simp⟩
  | openPass opening =>
    refine ⟨h.chunk, h.queue, h.loop, fun _ => h.ticking (by simp [opening]), ?_⟩
    intro d same
    cases same
    exact Window.numbered_new _
  | read d d' fault draining reads =>
    refine h.setDrain (by simp [draining]) h.queue ?_
    have numbered := h.numbered d draining
    rcases Drain.read_cases reads with ⟨w, closed, rfl, -⟩ | ⟨w, e, pulled, rfl, -⟩ |
      ⟨w, last, -, pulled, -, rfl, -⟩
    · exact numbered.close? closed
    · exact numbered.pull? pulled
    · exact numbered.pull? pulled
  | batch d k b b' shown taken draining found moves =>
    exact h.setDrain (by simp [draining]) (Queue.sound_removeDispatched h.queue taken)
      ((h.numbered d draining).set k b')
  | collect d d' k draining collects =>
    refine h.setDrain (by simp [draining]) h.queue ?_
    obtain ⟨result, w, -, completed, rfl⟩ := Drain.collect_cases collects
    exact (h.numbered d draining).complete? completed
  | closeFailed d e draining =>
    exact ⟨h.chunk, h.queue, h.loop, fun _ => h.ticking (by simp [draining]), by simp⟩
  | close d total draining =>
    exact ⟨h.chunk, h.queue, h.loop, fun _ => h.ticking (by simp [draining]), by simp⟩
  | passDone result l effects closed moved =>
    exact ⟨h.chunk, h.queue, Loop.sound_step h.loop moved, by simp, by simp⟩

theorem sound_of_new {c : Config} (made : new c = .ok p) : p.Sound ∧ p.config = c := by
  unfold new at made
  split at made
  · cases made
  · rename_i valid
    cases made
    refine ⟨⟨?_, Queue.sound_empty, Loop.sound_new _ _, by simp, by simp⟩, rfl⟩
    have chunk : c.chunkSize ≠ 0 := by
      intro zero
      simp [Config.fault?, zero] at valid
    rw [Nat.pos_iff_ne_zero]
    intro zero
    exact chunk (UInt64.toNat_inj.mp zero)

theorem config_of_run {t : List (Nat × Event α)} (ran : p.run t = some p') :
    p'.config = p.config :=
  after_invariant (P := fun s => s.config = p.config)
    (fun same stepped => (moves_of_step stepped).config_eq.trans same) rfl ran

/-- What holds of a new pool and is kept by every move of a sound one holds in every run. -/
theorem run_invariant {c : Config} {t : List (Nat × Event α)} {P : Pool α → Prop}
    (keeps : ∀ {now p a p'}, p.Sound → p.config = c → P p → Moves now p a p' → P p')
    (made : new c = .ok p) (start : P p) (ran : p.run t = some p') :
    p'.Sound ∧ p'.config = c ∧ P p' := by
  have sound := sound_of_new made
  refine after_invariant (P := fun p => p.Sound ∧ p.config = c ∧ P p) ?_
    ⟨sound.1, sound.2, start⟩ ran
  intro now p e p' ⟨sound, config, holds⟩ stepped
  have moved := moves_of_step stepped
  exact ⟨moved.sound sound, moved.config_eq.trans config, keeps sound config holds moved⟩

end Pool
end ChainFetch.Work
