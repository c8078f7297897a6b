import ChainFetch.Proofs.Work.Versions
/-!
The journal of a pass: the batches that it reads, what the handler answers about them, and what
calls of add save meanwhile. Main statements: `drain_moves_of_step`, what one step makes of a pass
that is under way, with the entry that it leaves, and `pass_invariant`, by which what every such
move keeps holds through the pass.
-/

namespace ChainFetch.Work

variable {α : Type}

/-- What a step leaves in the journal. Batches are numbered in the order in which a pass reads
them. -/
inductive Entry (α : Type)
  | saved (items : List (Item α))
  | read (k : Nat) (items : List (Item α))
  | readFailed
  | prechecked (k : Nat) (i : Item α) (answer : Except Failure Bool)
  | handled (k : Nat) (items : List (Item α)) (answer : Except Failure (Option Duration))
  | verified (k : Nat) (i : Item α) (answer : Except Failure Bool)

namespace Event

def ofPass : Event α → Bool
  | .read _ => true
  | .prechecked _ _ => true
  | .cleared _ _ => true
  | .handled _ _ => true
  | .verified _ _ => true
  | .removed _ _ => true
  | .collect _ => true
  | .closePass => true
  | _ => false

end Event

namespace Batch

inductive Answers (k : Nat) : Batch α → Option (Entry α) → Batch α → Prop
  | prechecked (i : Item α) (unchecked : List (Item α)) (satisfied : List Position)
      (remaining : List (Item α)) (a : Except Failure Bool) :
      Answers k (.checking (i :: unchecked) satisfied remaining) (some (.prechecked k i a))
        (.prechecked i unchecked satisfied remaining a)
  | cleared (satisfied : List Position) (remaining : List (Item α)) :
      Answers k (.clearing satisfied remaining) none (.handle remaining)
  | handled (items : List (Item α)) (a : Except Failure (Option Duration)) :
      Answers k (.handling items) (some (.handled k items a)) (.handled items a)
  | verified (i : Item α) (unverified : List (Item α)) (completed : List Position)
      (report : Report) (a : Except Failure Bool) :
      Answers k (.verifying (i :: unverified) completed report) (some (.verified k i a))
        (.verified i unverified completed report a)
  | removed (completed : List Position) (report : Report) :
      Answers k (.removing completed report) none (.done (.ok report))
  | failed (b : Batch α) (e : Failure) : Answers k b none (.done (.error e))

end Batch

namespace Drain

def recordRead? (d : Drain α) (q : Queue α) (chunk : Nat) (fault : Option StoreFailure) :
    Option (Entry α) :=
  if d.readFailed then none
  else match fault, q.readAfter d.position chunk with
    | some _, _ => some .readFailed
    | none, [] => none
    | none, items => some (.read d.window.pulled items)

variable {q : Queue α} {chunk : Nat} {d d' : Drain α} {x : Option (Entry α)}
  {fault : Option StoreFailure}

/-- A read with the entry that it leaves: it ends the reads, or fails, or gives a batch. -/
theorem entry_of_read (h : d.read q chunk fault = some d') :
    (d.recordRead? q chunk fault = none ∧
      (d.readFailed = true ∨ fault = none ∧ q.readAfter d.position chunk = []) ∧
      ∃ w, d.window.close? = some w ∧ d' = { d with window := w }) ∨
    (∃ f w, d.recordRead? q chunk fault = some .readFailed ∧ fault = some f ∧
      d.window.pull? (.done (.error (.store f))) = some w ∧
      d' = { d with readFailed := true, window := w }) ∨
    (∃ last w, d.recordRead? q chunk fault =
        some (.read d.window.pulled (q.readAfter d.position chunk)) ∧
      fault = none ∧ d.readFailed = false ∧
      (q.readAfter d.position chunk).getLast? = some last ∧
      d.window.pull? (.start (q.readAfter d.position chunk)) = some w ∧
      d' = { d with position := some last.position, window := w }) := by
  rcases read_cases h with ⟨w, closed, rfl, ended⟩ | ⟨w, f, pulled, rfl, rfl, going⟩ |
    ⟨w, last, ends, pulled, going, rfl, rfl⟩
  · refine Or.inl ⟨?_, ended, w, closed, rfl⟩
    rcases ended with failed | ⟨rfl, empty⟩
    · simp [recordRead?, failed]
    · simp [recordRead?, empty]
  · exact Or.inr (Or.inl ⟨f, w, by simp [recordRead?, going], rfl, pulled, rfl⟩)
  · refine Or.inr (Or.inr ⟨last, w, ?_, rfl, going, ends, pulled, rfl⟩)
    obtain ⟨i, items, some⟩ := List.exists_cons_of_ne_nil
      (List.ne_nil_of_mem (List.mem_of_getLast? ends))
    simp [recordRead?, going, some]

/-- What one step makes of a pass that is under way and goes on. -/
inductive Moves (q : Queue α) (chunk : Nat) : Drain α → Option (Entry α) → Drain α → Prop
  | stay (d : Drain α) : Moves q chunk d none d
  | saved (d : Drain α) (items : List (Item α)) : Moves q chunk d (some (.saved items)) d
  | close (d : Drain α) (w : Window (Batch α) (Except Failure Report))
      (closed : d.window.close? = some w)
      (ended : d.readFailed = true ∨ q.readAfter d.position chunk = []) :
      Moves q chunk d none { d with window := w }
  | readFailed (d : Drain α) (w : Window (Batch α) (Except Failure Report)) (e : Failure)
      (pulled : d.window.pull? (.done (.error e)) = some w) :
      Moves q chunk d (some .readFailed) { d with readFailed := true, window := w }
  | read (d : Drain α) (w : Window (Batch α) (Except Failure Report)) (last : Item α)
      (ends : (q.readAfter d.position chunk).getLast? = some last)
      (pulled : d.window.pull? (.start (q.readAfter d.position chunk)) = some w) :
      Moves q chunk d (some (.read d.window.pulled (q.readAfter d.position chunk)))
        { d with position := some last.position, window := w }
  | answer (d : Drain α) (k : Nat) (b b' : Batch α) (x : Option (Entry α))
      (found : d.window.get? k = some b) (answers : b.Answers k x b') :
      Moves q chunk d x (d.put k b')
  | collect (d d' : Drain α) (k : Nat) (collects : d.collect k = some d') :
      Moves q chunk d none d'

theorem moves_of_read (h : d.read q chunk fault = some d') :
    d.Moves q chunk (d.recordRead? q chunk fault) d' := by
  rcases entry_of_read h with ⟨entry, ended, w, closed, rfl⟩ | ⟨f, w, entry, -, pulled, rfl⟩ |
    ⟨last, w, entry, -, -, ends, pulled, rfl⟩
  · rw [entry]
    exact .close d w closed (ended.imp_right And.right)
  · rw [entry]
    exact .readFailed d w _ pulled
  · rw [entry]
    exact .read d w last ends pulled

theorem Moves.numbered (m : Moves q chunk d x d') (h : d.window.Numbered) :
    d'.window.Numbered := by
  cases m with
  | stay => exact h
  | saved => exact h
  | close w closed => exact h.close? closed
  | readFailed w e pulled => exact h.pull? pulled
  | read w last ends pulled => exact h.pull? pulled
  | answer k b b' x found answers => exact h.set k b'
  | collect d' k collects =>
    obtain ⟨result, w, -, completed, rfl⟩ := collect_cases collects
    exact h.complete? completed

end Drain

namespace Pool

variable {p p' m : Pool α} {now : Nat} {e : Event α} {d d' : Drain α} {t u : List (Nat × Event α)}
  {seen : List (Entry α)}

def record? (p : Pool α) : Event α → Option (Entry α)
  | .save (i :: items) none => some (.saved (i :: items))
  | .read fault => p.drain?.bind (·.recordRead? p.queue p.config.chunkSize.toNat fault)
  | .prechecked k a =>
    match p.batch? k with
    | some (.checking (i :: _) _ _) => some (.prechecked k i a)
    | _ => none
  | .handled k a =>
    match p.batch? k with
    | some (.handling items) => some (.handled k items a)
    | _ => none
  | .verified k a =>
    match p.batch? k with
    | some (.verifying (i :: _) _ _) => some (.verified k i a)
    | _ => none
  | _ => none

theorem record?_cases {x : Entry α} (h : p.record? e = some x) :
    (∃ i items, e = .save (i :: items) none ∧ x = .saved (i :: items)) ∨
    (∃ fault d, e = .read fault ∧ p.drain? = some d ∧
      d.recordRead? p.queue p.config.chunkSize.toNat fault = some x) ∨
    (∃ k i a, e = .prechecked k a ∧ x = .prechecked k i a) ∨
    (∃ k items a, e = .handled k a ∧ x = .handled k items a) ∨
    ∃ k i a, e = .verified k a ∧ x = .verified k i a := by
  unfold record? at h
  split at h
  · cases h
    exact Or.inl ⟨_, _, rfl, rfl⟩
  · obtain ⟨d, under, record⟩ := Option.bind_eq_some_iff.mp h
    exact Or.inr (Or.inl ⟨_, d, rfl, under, record⟩)
  · split at h
    · cases h
      exact Or.inr (Or.inr (Or.inl ⟨_, _, _, rfl, rfl⟩))
    · cases h
  · split at h
    · cases h
      exact Or.inr (Or.inr (Or.inr (Or.inl ⟨_, _, _, rfl, rfl⟩)))
    · cases h
  · split at h
    · cases h
      exact Or.inr (Or.inr (Or.inr (Or.inr ⟨_, _, _, rfl, rfl⟩)))
    · cases h
  · cases h

def journal (p : Pool α) (t : List (Nat × Event α)) : List (Entry α) :=
  (labels step record? p t).filterMap id

theorem journal_cons (h : p.step now e = some m) :
    p.journal ((now, e) :: t) = (p.record? e).toList ++ m.journal t :=
  filterMap_labels_cons h

/-- What every step keeps, with the entry that it leaves, a run keeps with its journal. -/
theorem journal_invariant {P : List (Entry α) → Pool α → Prop}
    (keeps : ∀ {j now s e s'}, (now, e) ∈ t → s.Sound → P j s → s.step now e = some s' →
      P (j ++ (s.record? e).toList) s')
    (sound : p.Sound) (start : P seen p) (ran : p.run t = some p') :
    P (seen ++ p.journal t) p' := by
  induction t generalizing p seen with
  | nil =>
    cases ran
    simpa [journal, labels] using start
  | cons x t ih =>
    obtain ⟨now, e⟩ := x
    obtain ⟨n, first, rest⟩ := after_cons_eq_some.mp ran
    rw [journal_cons first, ← List.append_assoc]
    exact ih (fun mem => keeps (List.mem_cons_of_mem _ mem)) ((moves_of_step first).sound sound)
      (keeps List.mem_cons_self sound start first) rest

theorem mem_journal_iff {x : Entry α} (ran : p.run t = some p') :
    x ∈ p.journal t ↔ ∃ v now e w s s', t = v ++ (now, e) :: w ∧ p.run v = some s ∧
      s.step now e = some s' ∧ s.record? e = some x := by
  induction t generalizing p with
  | nil => simp [journal, labels]
  | cons y t ih =>
    obtain ⟨at', a⟩ := y
    obtain ⟨n, first, rest⟩ := after_cons_eq_some.mp ran
    rw [journal_cons first, List.mem_append, Option.mem_toList, ih rest]
    constructor
    · rintro (here | ⟨v, now, e, w, s, s', rfl, reached, stepped, record⟩)
      · exact ⟨[], at', a, t, p, n, rfl, rfl, first, here⟩
      · exact ⟨(at', a) :: v, now, e, w, s, s', rfl,
          after_cons_eq_some.mpr ⟨n, first, reached⟩, stepped, record⟩
    · rintro ⟨v, now, e, w, s, s', split, reached, stepped, record⟩
      cases v with
      | nil =>
        cases split
        cases reached
        exact Or.inl record
      | cons y v =>
        cases split
        obtain ⟨n', first', reached⟩ := after_cons_eq_some.mp reached
        cases first.symm.trans first'
        exact Or.inr ⟨v, now, e, w, s, s', rfl, reached, stepped, record⟩

/-! ## A pass under way -/

theorem pass_of_stepLoop {c : Schedule.Event} (sound : p.Sound) (going : p.pass ≠ none)
    (own : ∀ result, c ≠ .tickDone result) (h : p.stepLoop now c = some p') :
    p'.pass = p.pass := by
  obtain ⟨l, effects, moved, rfl⟩ := stepLoop_cases h
  rcases Schedule.Loop.quiet_or_begins own moved with quiet | ⟨ready, -⟩
  · rw [foldl_follow_of_quiet quiet]
  · obtain ⟨since, ticking⟩ := sound.ticking going
    rw [ticking] at ready
    cases ready

theorem pass_of_foreign (sound : p.Sound) (draining : p.pass = some (.draining d))
    (foreign : e.ofPass = false) (h : p.step now e = some p') : p'.pass = p.pass := by
  cases e with
  | save items fault => cases items <;> cases fault <;> cases h <;> rfl
  | note =>
    obtain ⟨-, rfl⟩ := note_cases h
    rfl
  | wake =>
    obtain ⟨-, rfl⟩ := wake_cases h
    rfl
  | remove ids fault => cases fault <;> cases h <;> rfl
  | start | turn | timeout | rouse | interrupt | askStop | settleStop | join =>
    exact pass_of_stepLoop sound (by simp [draining]) (by simp) h
  | openPass =>
    obtain ⟨opening, -⟩ := openPass_cases h
    cases draining.symm.trans opening
  | passDone =>
    obtain ⟨result, l, effects, closed, -⟩ := passDone_cases h
    cases draining.symm.trans closed
  | _ => cases foreign

theorem record?_of_foreign (foreign : e.ofPass = false) :
    p.record? e = none ∨ ∃ items, p.record? e = some (.saved items) := by
  cases record : p.record? e with
  | none => exact Or.inl rfl
  | some x =>
    rcases record?_cases record with ⟨i, items, -, rfl⟩ | ⟨_, _, rfl, -⟩ | ⟨_, _, _, rfl, -⟩ |
      ⟨_, _, _, rfl, -⟩ | ⟨_, _, _, rfl, -⟩
    · exact Or.inr ⟨_, rfl⟩
    all_goals cases foreign

theorem draining_of_ofPass (own : e.ofPass = true) (h : p.step now e = some p') :
    ∃ d, p.pass = some (.draining d) := by
  cases e with
  | read =>
    obtain ⟨d, -, draining, -⟩ := read_cases h
    exact ⟨d, draining⟩
  | prechecked | handled | verified =>
    obtain ⟨d, -, -, draining, -⟩ := answer_cases h
    exact ⟨d, draining⟩
  | cleared | removed =>
    obtain ⟨d, -, -, -, draining, -⟩ := answerRemoval_cases h
    exact ⟨d, draining⟩
  | collect =>
    obtain ⟨d, -, draining, -⟩ := collect_cases h
    exact ⟨d, draining⟩
  | closePass =>
    obtain ⟨d, draining, -⟩ := closePass_cases h
    exact ⟨d, draining⟩
  | _ => cases own

/-- The pass goes on after the event, with the entry that the event leaves. -/
def Onward (p : Pool α) (d : Drain α) (e : Event α) (p' : Pool α) : Prop :=
  ∃ d', p'.pass = some (.draining d') ∧ d.Moves p.queue p.config.chunkSize.toNat (p.record? e) d'

section Answers

variable {k : Nat} {fault : Option StoreFailure} (draining : p.pass = some (.draining d))

include draining

theorem onward_of_read (h : p.step now (.read fault) = some p') : p.Onward d (.read fault) p' := by
  obtain ⟨d₀, d', same, reads, rfl⟩ := read_cases h
  cases draining.symm.trans same
  refine ⟨d', rfl, ?_⟩
  rw [record?, drain?_eq_some_iff.mpr draining, Option.bind_some]
  exact Drain.moves_of_read reads

theorem onward_of_prechecked {a : Except Failure Bool}
    (h : p.step now (.prechecked k a) = some p') : p.Onward d (.prechecked k a) p' := by
  obtain ⟨d₀, i, unchecked, satisfied, remaining, same, found, rfl⟩ := prechecked_cases h
  cases draining.symm.trans same
  refine ⟨_, rfl, ?_⟩
  rw [record?, batch?_eq draining, found]
  exact .answer d k _ _ _ found (.prechecked i unchecked satisfied remaining a)

theorem onward_of_cleared (h : p.step now (.cleared k fault) = some p') :
    p.Onward d (.cleared k fault) p' := by
  obtain ⟨d₀, satisfied, remaining, same, found, ⟨-, rfl⟩ | ⟨e, -, rfl⟩⟩ := cleared_cases h
  all_goals cases draining.symm.trans same
  · exact ⟨_, rfl, .answer d k _ _ _ found (.cleared satisfied remaining)⟩
  · exact ⟨_, rfl, .answer d k _ _ _ found (.failed _ _)⟩

theorem onward_of_handled {a : Except Failure (Option Duration)}
    (h : p.step now (.handled k a) = some p') : p.Onward d (.handled k a) p' := by
  obtain ⟨d₀, items, same, found, rfl⟩ := handled_cases h
  cases draining.symm.trans same
  refine ⟨_, rfl, ?_⟩
  rw [record?, batch?_eq draining, found]
  exact .answer d k _ _ _ found (.handled items a)

theorem onward_of_verified {a : Except Failure Bool} (h : p.step now (.verified k a) = some p') :
    p.Onward d (.verified k a) p' := by
  obtain ⟨d₀, i, unverified, completed, report, same, found, rfl⟩ := verified_cases h
  cases draining.symm.trans same
  refine ⟨_, rfl, ?_⟩
  rw [record?, batch?_eq draining, found]
  exact .answer d k _ _ _ found (.verified i unverified completed report a)

theorem onward_of_removed (h : p.step now (.removed k fault) = some p') :
    p.Onward d (.removed k fault) p' := by
  obtain ⟨d₀, completed, report, same, found, ⟨-, rfl⟩ | ⟨e, -, rfl⟩⟩ := removed_cases h
  all_goals cases draining.symm.trans same
  · exact ⟨_, rfl, .answer d k _ _ _ found (.removed completed report)⟩
  · exact ⟨_, rfl, .answer d k _ _ _ found (.failed _ _)⟩

theorem onward_of_foreign (sound : p.Sound) (foreign : e.ofPass = false)
    (h : p.step now e = some p') : p.Onward d e p' := by
  refine ⟨d, (pass_of_foreign sound draining foreign h).trans draining, ?_⟩
  rcases record?_of_foreign (p := p) foreign with none | ⟨items, saved⟩
  · rw [none]
    exact .stay d
  · rw [saved]
    exact .saved d items

end Answers

/-- What one step makes of a pass that is under way: it goes on, or it closes and leaves no
entry. -/
theorem drain_moves_of_step (sound : p.Sound) (draining : p.pass = some (.draining d))
    (h : p.step now e = some p') :
    (∃ d', p'.pass = some (.draining d') ∧
      d.Moves p.queue p.config.chunkSize.toNat (p.record? e) d') ∨
    (p'.drain? = none ∧ p.record? e = none ∧ d.window.isDone = true) := by
  cases e with
  | read fault => exact Or.inl (onward_of_read draining h)
  | prechecked k a => exact Or.inl (onward_of_prechecked draining h)
  | cleared k fault => exact Or.inl (onward_of_cleared draining h)
  | handled k a => exact Or.inl (onward_of_handled draining h)
  | verified k a => exact Or.inl (onward_of_verified draining h)
  | removed k fault => exact Or.inl (onward_of_removed draining h)
  | collect k =>
    obtain ⟨d₀, d', same, collects, rfl⟩ := collect_cases h
    cases draining.symm.trans same
    exact Or.inl ⟨d', rfl, .collect d d' k collects⟩
  | closePass =>
    obtain ⟨d₀, same, done, ⟨e, -, rfl⟩ | ⟨total, -, rfl⟩⟩ := closePass_cases h
    all_goals cases draining.symm.trans same
    · exact Or.inr ⟨rfl, rfl, done⟩
    · exact Or.inr ⟨rfl, rfl, done⟩
  | _ => exact Or.inl (onward_of_foreign draining sound rfl h)

theorem drain?_foldl_follow {effects : List Schedule.Effect} (idle : p.drain? = none) :
    (effects.foldl follow p).drain? = none := by
  induction effects generalizing p with
  | nil => exact idle
  | cons effect effects ih =>
    apply ih
    cases effect with
    | tick c => rfl
    | firstSuccess | sleep _ | returned => exact idle

theorem drain?_of_stepLoop {c : Schedule.Event} (idle : p.drain? = none)
    (h : p.stepLoop now c = some p') : p'.drain? = none := by
  obtain ⟨l, effects, -, rfl⟩ := stepLoop_cases h
  exact drain?_foldl_follow idle

theorem drain?_of_foreign (idle : p.drain? = none) (other : e ≠ .openPass)
    (foreign : e.ofPass = false) (h : p.step now e = some p') : p'.drain? = none := by
  cases e with
  | save items fault => cases items <;> cases fault <;> cases h <;> exact idle
  | note =>
    obtain ⟨-, rfl⟩ := note_cases h
    exact idle
  | wake =>
    obtain ⟨-, rfl⟩ := wake_cases h
    exact idle
  | remove ids fault => cases fault <;> cases h <;> exact idle
  | start | turn | timeout | rouse | interrupt | askStop | settleStop | join =>
    exact drain?_of_stepLoop idle h
  | openPass => exact absurd rfl other
  | passDone =>
    obtain ⟨result, l, effects, -, -, rfl⟩ := passDone_cases h
    rfl
  | _ => cases foreign

theorem idle_of_step (idle : p.drain? = none) (other : e ≠ .openPass)
    (h : p.step now e = some p') :
    p'.drain? = none ∧ (p.record? e = none ∨ ∃ items, p.record? e = some (.saved items)) := by
  cases own : e.ofPass with
  | true =>
    obtain ⟨d, draining⟩ := draining_of_ofPass own h
    rw [drain?_eq_some_iff.mpr draining] at idle
    cases idle
  | false => exact ⟨drain?_of_foreign idle other own h, record?_of_foreign own⟩

theorem batch?_of_read {k : Nat} {items : List (Item α)} (sound : p.Sound)
    (reads : p.record? e = some (.read k items)) (h : p.step now e = some m) :
    m.queue = p.queue ∧ m.batch? k = some (.start items) ∧
      ∃ d, p.drain? = some d ∧
        items = p.queue.readAfter d.position p.config.chunkSize.toNat := by
  rcases record?_cases reads with ⟨_, _, -, ⟨⟩⟩ | ⟨fault, d, rfl, under, entry⟩ |
    ⟨_, _, _, -, ⟨⟩⟩ | ⟨_, _, _, -, ⟨⟩⟩ | ⟨_, _, _, -, ⟨⟩⟩
  obtain ⟨d₀, d', draining, moved, rfl⟩ := read_cases h
  cases under.symm.trans (drain?_eq_some_iff.mpr draining)
  have moves := Drain.moves_of_read moved
  have numbered := moves.numbered (sound.numbered d draining)
  rw [entry] at moves
  cases moves with
  | read w last ends pulled =>
    refine ⟨rfl, ?_, d, under, rfl⟩
    rw [batch?_eq (p := p.setDrain _) rfl, numbered.get?_eq_some_iff]
    obtain ⟨-, rfl⟩ := Window.pull?_cases pulled
    exact List.mem_append_right _ List.mem_cons_self
  | answer k b b' x found answers => cases answers

theorem pass_of_openPass (h : p.step now .openPass = some m) :
    m.pass = some (.draining (.new p.config.concurrency.toNat)) := by
  obtain ⟨-, rfl⟩ := openPass_cases h
  rfl

/-! ## A whole pass -/

/-- The latest pass of a run: opened in the state `m`, from which `u` is the rest of the run. -/
def LatestPass (p : Pool α) (t : List (Nat × Event α)) (m : Pool α) (u : List (Nat × Event α)) :
    Prop :=
  ∃ before now n, t = before ++ (now, .openPass) :: u ∧ p.run before = some n ∧
    n.step now .openPass = some m ∧ ∀ x ∈ u, x.2 ≠ .openPass

theorem LatestPass.opened (h : p.LatestPass t m u) (sound : p.Sound) :
    m.Sound ∧ m.config = p.config ∧ m.pass = some (.draining (.new m.config.concurrency.toNat)) ∧
      ∀ x ∈ u, x.2 ≠ .openPass := by
  obtain ⟨before, now, n, rfl, reached, opened, one⟩ := h
  have moved := moves_of_step opened
  have same := moved.config_eq.trans (config_of_run reached)
  refine ⟨moved.sound (sound_run sound reached), same, ?_, one⟩
  rw [moved.config_eq]
  exact pass_of_openPass opened

theorem LatestPass.run (h : p.LatestPass t m u) (ran : p.run t = some p') : m.run u = some p' := by
  obtain ⟨before, now, n, rfl, reached, opened, -⟩ := h
  obtain ⟨n', reached', rest⟩ := after_append_eq_some.mp ran
  cases reached.symm.trans reached'
  obtain ⟨m', opened', rest⟩ := after_cons_eq_some.mp rest
  cases opened.symm.trans opened'
  exact rest

theorem latestPass_or_not_opened (ran : p.run t = some p') :
    (∃ m u, p.LatestPass t m u) ∨ ∀ x ∈ t, x.2 ≠ .openPass := by
  induction t generalizing p with
  | nil => exact Or.inr (by simp)
  | cons x t ih =>
    obtain ⟨now, e⟩ := x
    obtain ⟨n, first, rest⟩ := after_cons_eq_some.mp ran
    rcases ih rest with ⟨m, u, before, at', n', rfl, reached, opened, one⟩ | unopened
    · exact Or.inl ⟨m, u, (now, e) :: before, at', n', rfl,
        after_cons_eq_some.mpr ⟨n, first, reached⟩, opened, one⟩
    · by_cases opens : e = .openPass
      · subst opens
        exact Or.inl ⟨n, t, [], now, p, rfl, rfl, first, unopened⟩
      · refine Or.inr ?_
        intro x hx
        rcases List.mem_cons.mp hx with rfl | hx
        · exact opens
        · exact unopened x hx

theorem idle_of_run (idle : p.drain? = none) (ran : p.run t = some p')
    (unopened : ∀ x ∈ t, x.2 ≠ .openPass) : p'.drain? = none := by
  induction t generalizing p with
  | nil =>
    cases ran
    exact idle
  | cons x t ih =>
    obtain ⟨now, e⟩ := x
    obtain ⟨n, first, rest⟩ := after_cons_eq_some.mp ran
    have still := (idle_of_step idle (unopened _ List.mem_cons_self) first).1
    exact ih still rest fun x hx => unopened x (List.mem_cons_of_mem _ hx)

theorem drain?_of_new {c : Config} (made : new c = .ok p) : p.drain? = none := by
  unfold new at made
  split at made
  · cases made
  · cases made
    rfl

theorem exists_latestPass (idle : p.drain? = none) (ran : p.run t = some p')
    (draining : p'.pass = some (.draining d)) : ∃ m u, p.LatestPass t m u := by
  rcases latestPass_or_not_opened ran with opened | unopened
  · exact opened
  · have still := idle_of_run idle ran unopened
    rw [drain?_eq_some_iff.mpr draining] at still
    cases still

/-- What holds when a pass is opened, and is kept by every move of it and by calls of add after its
close, holds throughout. `P` is about the journal and the pass, `Q` about the journal alone. -/
theorem pass_invariant {chunk : Nat} {P : List (Entry α) → Drain α → Prop}
    {Q : List (Entry α) → Prop} (alone : ∀ {j d}, P j d → Q j)
    (adds : ∀ {j items}, Q j → Q (j ++ [.saved items]))
    (keeps : ∀ {q : Queue α} {j d x d'}, q.Sound → d.window.Numbered → P j d →
      d.Moves q chunk x d' → P (j ++ x.toList) d')
    (sound : m.Sound) (room : m.config.chunkSize.toNat = chunk)
    (start : Q seen ∧ ∀ d, m.pass = some (.draining d) → P seen d) (ran : m.run u = some p')
    (one : ∀ x ∈ u, x.2 ≠ .openPass) :
    Q (seen ++ m.journal u) ∧ ∀ d, p'.pass = some (.draining d) → P (seen ++ m.journal u) d := by
  refine (journal_invariant (P := fun j s => s.config = m.config ∧ Q j ∧
    ∀ d, s.pass = some (.draining d) → P j d) ?_ sound ⟨rfl, start⟩ ran).2
  rintro j now s e s' mem sound ⟨config, start⟩ stepped
  refine ⟨(moves_of_step stepped).config_eq.trans config, ?_⟩
  cases under : s.drain? with
  | none =>
    -- The pass has closed: all that still enters the journal is what is added.
    obtain ⟨still, quiet | ⟨items, added⟩⟩ := idle_of_step under (one _ mem) stepped
    · rw [quiet, Option.toList_none, List.append_nil]
      refine ⟨start.1, fun d draining => ?_⟩
      rw [drain?_eq_some_iff.mpr draining] at still
      cases still
    · rw [added]
      refine ⟨adds start.1, fun d draining => ?_⟩
      rw [drain?_eq_some_iff.mpr draining] at still
      cases still
  | some d =>
    have draining := drain?_eq_some_iff.mp under
    rcases drain_moves_of_step sound draining stepped with ⟨d', going, moves⟩ | ⟨closed, quiet, -⟩
    · rw [config, room] at moves
      have kept := keeps sound.queue (sound.numbered d draining) (start.2 d draining) moves
      refine ⟨alone kept, fun d'' draining' => ?_⟩
      cases going.symm.trans draining'
      exact kept
    · rw [quiet, Option.toList_none, List.append_nil]
      refine ⟨start.1, fun d draining => ?_⟩
      rw [drain?_eq_some_iff.mpr draining] at closed
      cases closed

end Pool
end ChainFetch.Work
