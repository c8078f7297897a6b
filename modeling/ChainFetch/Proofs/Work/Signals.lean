import ChainFetch.Proofs.Work.Reports
/-!
What a pass asks of its loop. It can be read off the journal of the pass and off the calls of add
that came meanwhile, whatever the order in which its batches were answered and collected. Main
statement: `signal_of_pass`.
-/

namespace ChainFetch.Work

open Schedule (Signal)

open Entry (settled hints)

variable {α : Type}

/-! ## What a pass asks for -/

/-- By the journal item `i` of batch `n` needs no more work: its check beforehand has found it
satisfied, or the handler has worked on it without an error and its check after the work has found
it complete. -/
def Over (j : List (Entry α)) (n : Nat) (i : Item α) : Prop :=
  .prechecked n i (.ok true) ∈ j ∨
    ∃ given hint, .handled n given (.ok hint) ∈ j ∧ i ∈ given ∧ .verified n i (.ok true) ∈ j

def Spent (j : List (Entry α)) : Prop := ∀ n items, .read n items ∈ j → ∀ i ∈ items, Over j n i

/-- What a pass asks of its loop: another one at once if work came meanwhile, or one after the
shortest hint; and without any, that a debounced loop idles if nothing is left to do, or else one
after the interval. -/
inductive Asks (c : Config) (noted : Prop) (j : List (Entry α)) : Signal → Prop
  | atOnce (came : noted) : Asks c noted j (.interval .zero)
  | hinted (quiet : ¬ noted) (d : Duration) (given : d ∈ hints j)
      (shortest : ∀ e ∈ hints j, d ≤ e) : Asks c noted j (.interval d)
  | idle (quiet : ¬ noted) (unhinted : hints j = []) (debounced : c.debounced = true)
      (spent : Spent j) : Asks c noted j .keep
  | later (quiet : ¬ noted) (unhinted : hints j = [])
      (left : ¬ (c.debounced = true ∧ Spent j)) : Asks c noted j (.interval c.schedule.interval)

/-- Journals with the same entries about batches, in whatever order. -/
def SameEntries (j j' : List (Entry α)) : Prop := ∀ y, y.number? ≠ none → (y ∈ j ↔ y ∈ j')

section Order

variable {c : Config} {noted noted' : Prop} {j j' : List (Entry α)} {signal signal' : Signal}
  {d : Duration} {n : Nat} {i : Item α}

theorem SameEntries.symm (h : SameEntries j j') : SameEntries j' j := fun y number =>
  (h y number).symm

theorem SameEntries.mem_hints (h : SameEntries j j') : d ∈ hints j ↔ d ∈ hints j' := by
  simp only [Entry.mem_hints]
  exact exists_congr fun n => exists_congr fun given => h _ (by simp [Entry.number?])

theorem SameEntries.over_of_over (h : SameEntries j j') (k : Over j n i) : Over j' n i := by
  rcases k with satisfied | ⟨given, hint, handled, worked, complete⟩
  · exact Or.inl ((h _ (by simp [Entry.number?])).mp satisfied)
  · exact Or.inr ⟨given, hint, (h _ (by simp [Entry.number?])).mp handled, worked,
      (h _ (by simp [Entry.number?])).mp complete⟩

theorem SameEntries.spent (h : SameEntries j j') (spent : Spent j) : Spent j' :=
  fun n items read i mem =>
    h.over_of_over (spent n items ((h _ (by simp [Entry.number?])).mpr read) i mem)

theorem SameEntries.hints_eq_nil (h : SameEntries j j') (none : hints j = []) : hints j' = [] :=
  List.eq_nil_iff_forall_not_mem.mpr fun d mem => by
    rw [← h.mem_hints, none] at mem
    cases mem

/-- A pass asks for one thing, and the order in its journal does not matter. -/
theorem Asks.unique (h : Asks c noted j signal) (h' : Asks c noted' j' signal')
    (came : noted ↔ noted') (same : SameEntries j j') : signal = signal' := by
  have unhinted : ∀ d, hints j = [] → d ∉ hints j' := fun d none mem => by
    rw [same.hints_eq_nil none] at mem
    cases mem
  cases h with
  | atOnce now =>
    cases h' with
    | atOnce => rfl
    | hinted quiet => exact absurd (came.mp now) quiet
    | idle quiet => exact absurd (came.mp now) quiet
    | later quiet => exact absurd (came.mp now) quiet
  | hinted quiet d given shortest =>
    have mem := same.mem_hints.mp given
    cases h' with
    | atOnce now => exact absurd (came.mpr now) quiet
    | hinted quiet' e given' shortest' =>
      have less := shortest e (same.mem_hints.mpr given')
      have more := shortest' d mem
      exact congrArg Signal.interval (Duration.ext (Nat.le_antisymm less more))
    | idle quiet' none =>
      rw [none] at mem
      cases mem
    | later quiet' none =>
      rw [none] at mem
      cases mem
  | idle quiet none debounced spent =>
    cases h' with
    | atOnce now => exact absurd (came.mpr now) quiet
    | hinted quiet' e given' => exact absurd given' (unhinted e none)
    | idle => rfl
    | later quiet' none' left => exact absurd ⟨debounced, same.spent spent⟩ left
  | later quiet none left =>
    cases h' with
    | atOnce now => exact absurd (came.mpr now) quiet
    | hinted quiet' e given' => exact absurd given' (unhinted e none)
    | idle quiet' none' debounced spent => exact absurd ⟨debounced, same.symm.spent spent⟩ left
    | later => rfl

end Order

namespace Drain

variable {d : Drain α} {j : List (Entry α)} {total : Report}

theorem Accounted.kept_eq_zero (h : d.Accounted j) (grounded : Grounded j)
    (idle : d.window.running = [])
    (totals : Report.total (d.window.outputs.map (·.2)) = .ok total) :
    total.kept = 0 ↔ Spent j := by
  rw [Report.kept_total totals]
  constructor
  · intro none n items read i mem
    obtain ⟨r, output, ⟨kept, whole, count⟩, -⟩ :=
      h.output_of_read idle (Report.fine_of_total totals) read
    obtain rfl : kept = [] := List.length_eq_zero_iff.mp (count.trans (none r output))
    have settled : i ∈ settled n j := by simpa [Batch.undecided] using whole.mem_iff.mp mem
    rcases Entry.mem_settled.mp settled with satisfied | complete
    · exact Or.inl satisfied
    · obtain ⟨_, given, hint, -, worked, evidence⟩ := grounded.verified n i _ complete
      exact Or.inr ⟨given, hint, evidence.subset (by simp), worked, complete⟩
  · intro spent r output
    obtain ⟨n, items, read, ⟨kept, whole, count⟩, -⟩ := h.weighs_of_output output
    rw [← show kept.length = r.kept from count, List.length_eq_zero_iff,
      List.eq_nil_iff_forall_not_mem]
    intro i left
    have mem : i ∈ items := whole.mem_iff.mpr (by simp [left])
    have settled : i ∈ settled n j := by
      rcases spent n items read i mem with satisfied | ⟨_, _, -, -, complete⟩
      · exact Entry.mem_settled.mpr (Or.inl satisfied)
      · exact Entry.mem_settled.mpr (Or.inr complete)
    -- An item that is over and kept would be in its batch twice.
    have distinct := whole.nodup_iff.mp (h.distinct n items read)
    exact (List.nodup_append.mp distinct).2.2 i settled i (by simp [left]) rfl

theorem Accounted.hint_cases (h : d.Accounted j) (idle : d.window.running = [])
    (totals : Report.total (d.window.outputs.map (·.2)) = .ok total) :
    (hints j = [] ∧ total.hint = none) ∨
      ∃ least, total.hint = some least ∧ least ∈ hints j ∧ ∀ e ∈ hints j, least ≤ e := by
  have hinted := h.mem_hints idle (Report.fine_of_total totals)
  rcases Report.hint_total totals with ⟨none, nothing⟩ | ⟨least, hint, ⟨r, mem, given⟩, shortest⟩
  · refine Or.inl ⟨List.eq_nil_iff_forall_not_mem.mpr fun e mem => ?_, nothing⟩
    obtain ⟨r, output, hint⟩ := (hinted e).mp mem
    rw [none r output] at hint
    cases hint
  · refine Or.inr ⟨least, hint, (hinted least).mpr ⟨r, mem, given⟩, fun e mem => ?_⟩
    obtain ⟨r', output, hint'⟩ := (hinted e).mp mem
    exact shortest r' e output hint'

theorem Accounted.asks (h : d.Accounted j) (grounded : Grounded j) (idle : d.window.running = [])
    (totals : Report.total (d.window.outputs.map (·.2)) = .ok total) (c : Config)
    (newWork : Bool) : Asks c (newWork = true) j (c.signal newWork total) := by
  have kept := h.kept_eq_zero grounded idle totals
  unfold Config.signal
  by_cases came : newWork = true
  · rw [if_pos came]
    exact .atOnce came
  · rw [if_neg came]
    rcases h.hint_cases idle totals with ⟨unhinted, none⟩ | ⟨least, hint, given, shortest⟩
    · rw [none]
      dsimp only
      split
      · rename_i all
        exact .idle came unhinted all.1 (kept.mp all.2)
      · rename_i left
        exact .later came unhinted fun all => left ⟨all.1, kept.mpr all.2⟩
    · rw [hint]
      exact .hinted came least given shortest

end Drain

namespace Pool

variable {p p' m s s' : Pool α} {now : Nat} {e : Event α} {d d' : Drain α} {c : Config}
  {t v : List (Nat × Event α)}

def Noted (v : List (Nat × Event α)) : Prop := ∃ now, (now, .note) ∈ v

theorem noted_concat : Noted (v ++ [(now, e)]) ↔ Noted v ∨ e = .note := by
  constructor
  · rintro ⟨at_, mem⟩
    rcases List.mem_append.mp mem with mem | new
    · exact Or.inl ⟨at_, mem⟩
    · exact Or.inr (congrArg Prod.snd (List.mem_singleton.mp new)).symm
  · rintro (⟨at_, mem⟩ | rfl)
    · exact ⟨at_, List.mem_append_left _ mem⟩
    · exact ⟨now, List.mem_append_right _ List.mem_cons_self⟩

theorem newWork_foldl_follow (p : Pool α) (effects : List Schedule.Effect) :
    (effects.foldl follow p).newWork = p.newWork := by
  induction effects generalizing p with
  | nil => rfl
  | cons effect effects ih =>
    rw [List.foldl_cons, ih]
    cases effect <;> rfl

theorem newWork_of_stepLoop {l : Schedule.Event} (h : p.stepLoop now l = some p') :
    p'.newWork = p.newWork := by
  obtain ⟨loop, effects, -, rfl⟩ := stepLoop_cases h
  exact newWork_foldl_follow _ effects

theorem newWork_of_step (other : e ≠ .openPass) (after : p'.pass = some (.draining d))
    (h : p.step now e = some p') : p'.newWork = true ↔ p.newWork = true ∨ e = .note := by
  have unnoted : e ≠ .note → p'.newWork = p.newWork →
      (p'.newWork = true ↔ p.newWork = true ∨ e = .note) := by
    intro calm same
    rw [same, or_iff_left calm]
  have answers : ∀ k, e.batch? = some k → p'.newWork = p.newWork := by
    intro k own
    cases e with
    | prechecked | handled | verified =>
      obtain ⟨_, _, _, -, -, -, rfl⟩ := answer_cases h
      rfl
    | cleared | removed =>
      obtain ⟨_, _, _, _, -, -, -, ⟨-, rfl⟩ | ⟨_, -, rfl⟩⟩ := answerRemoval_cases h <;> rfl
    | _ => cases own
  cases e with
  | note =>
    obtain ⟨-, rfl⟩ := note_cases h
    simp
  | save items fault =>
    refine unnoted (by simp) ?_
    cases items <;> cases fault <;> cases h <;> rfl
  | wake =>
    obtain ⟨-, rfl⟩ := wake_cases h
    exact unnoted (by simp) rfl
  | remove ids fault =>
    refine unnoted (by simp) ?_
    cases fault <;> cases h <;> rfl
  | start | turn | timeout | rouse | interrupt | askStop | settleStop | join =>
    exact unnoted (by simp) (newWork_of_stepLoop h)
  | openPass => exact absurd rfl other
  | read fault =>
    obtain ⟨_, _, -, -, rfl⟩ := read_cases h
    exact unnoted (by simp) rfl
  | collect k =>
    obtain ⟨_, _, -, -, rfl⟩ := collect_cases h
    exact unnoted (by simp) rfl
  | prechecked k | cleared k | handled k | verified k | removed k =>
    exact unnoted (by simp) (answers k rfl)
  | closePass =>
    obtain ⟨_, -, -, ⟨_, -, rfl⟩ | ⟨_, -, rfl⟩⟩ := closePass_cases h <;> cases after
  | passDone =>
    obtain ⟨_, _, _, -, -, rfl⟩ := passDone_cases h
    cases after

/-- In a pass the flag says whether a call of add has noted new work since its opening. -/
theorem newWork_of_pass (pass : p.LatestPass t m v) (sound : p.Sound) (ran : p.run t = some s)
    (draining : s.pass = some (.draining d)) : s.newWork = true ↔ Noted v := by
  obtain ⟨-, -, -, one⟩ := pass.opened sound
  have start : m.newWork = false := by
    obtain ⟨_, _, n, -, -, opened, -⟩ := pass
    obtain ⟨-, rfl⟩ := openPass_cases opened
    rfl
  refine pass_history (m := m)
    (P := fun v s => ∀ d, s.pass = some (.draining d) → (s.newWork = true ↔ Noted v)) ?_ ?_
    (pass.run ran) one d draining
  · intro v now e s s' _ holds other stepped d after
    obtain ⟨d', before⟩ := draining_of_step other stepped after
    rw [newWork_of_step other after stepped, holds d' before, noted_concat]
  · intro d _
    rw [start]
    simp [Noted]

theorem accounted_of_pass (pass : p.LatestPass t m v) (sound : p.Sound) (ran : p.run t = some s)
    (draining : s.pass = some (.draining d)) : d.Accounted (m.journal v) := by
  obtain ⟨soundly, -, opened, one⟩ := pass.opened sound
  have start : True ∧ ∀ d, m.pass = some (.draining d) → d.Accounted [] := by
    refine ⟨trivial, fun d draining => ?_⟩
    cases opened.symm.trans draining
    exact Drain.accounted_new _
  exact (pass_invariant (P := fun j d => d.Accounted j) (Q := fun _ => True) (fun _ => trivial)
    (fun _ => trivial) (fun sound numbered h moves => moves.accounted sound numbered h) soundly rfl
    start (pass.run ran) one).2 d draining

/-- A pass under `c`, opened in `m`, has come by `v` to `s`, where nothing is in flight and nothing
more is read, and no call of the store has failed in it. -/
structure Finished (c : Config) (m : Pool α) (v : List (Nat × Event α)) (s : Pool α) : Prop where
  opened : ∃ p t, new c = .ok p ∧ p.run t = some s ∧ p.LatestPass t m v
  done : ∃ d, s.pass = some (.draining d) ∧ d.window.isDone = true
  fine : ∀ x ∈ v, x.2.fault? = none

theorem Finished.closes (h : Finished c m v s) : ∃ signal, Asks c (Noted v) (m.journal v) signal ∧
    ∀ now, ∃ s', s.step now .closePass = some s' ∧ s'.pass = some (.closed (.ok signal)) := by
  obtain ⟨⟨p, t, made, ran, pass⟩, ⟨d, draining, done⟩, fine⟩ := h
  obtain ⟨sound, config⟩ := sound_of_new made
  have settled := settled_of_pass pass sound ran
  obtain ⟨-, idle⟩ := (Window.isDone_iff (settled.lively d draining).room).mp done
  obtain ⟨total, totals⟩ : ∃ total, Report.total (d.window.outputs.map (·.2)) = .ok total := by
    rcases Report.total_cases (d.window.outputs.map (·.2)) with ⟨f, -, mem⟩ | ⟨total, totals, -⟩
    · obtain ⟨⟨n, result⟩, output, rfl⟩ := List.mem_map.mp mem
      obtain ⟨x, mem, g, met, -⟩ := (settled.faulted d draining).caused n f (Or.inr output)
      rw [fine x mem] at met
      cases met
    · exact ⟨total, totals⟩
  have same := (config_of_run ran).trans config
  have asks := (accounted_of_pass pass sound ran draining).asks
    (journaled_of_latestPass sound ran pass draining).grounded idle totals c s.newWork
  refine ⟨c.signal s.newWork total, ?_, fun now => ?_⟩
  · rw [← propext (newWork_of_pass pass sound ran draining)]
    exact asks
  · refine ⟨{ s with newWork := false, pass := _ }, ?_, rfl⟩
    simp only [step, drain?_eq_some_iff.mpr draining, Option.bind_eq_bind, Option.bind_some,
      if_pos done, totals, same]

/-- A pass whose calls of the store succeed returns, and what it asks of its loop is said by its
journal and by the calls of add meanwhile: another pass at once if one has noted new work; else one
after the shortest hint, if a handler has given any; else, if the pool is debounced and all that was
dispatched is over, that the loop idles; else one after the interval. A pass with the same entries
about its batches, in whatever order they came and the batches were collected, asks the same. -/
theorem signal_of_pass (h : Finished c m v s) : ∃ signal,
    Asks c (Noted v) (m.journal v) signal ∧
    (∀ now, ∃ s', s.step now .closePass = some s' ∧ s'.pass = some (.closed (.ok signal))) ∧
    ∀ m' v' s', Finished c m' v' s' → (Noted v ↔ Noted v') →
      SameEntries (m.journal v) (m'.journal v') →
      ∀ now, ∃ s'', s'.step now .closePass = some s'' ∧ s''.pass = some (.closed (.ok signal)) := by
  obtain ⟨signal, asks, closes⟩ := h.closes
  refine ⟨signal, asks, closes, fun m' v' s' h' came same => ?_⟩
  obtain ⟨signal', asks', closes'⟩ := h'.closes
  rw [asks.unique asks' came same]
  exact closes'

def inOrder : List (Nat × Event Nat) := [
  (0, .read none), (0, .read none), (1, .prechecked 0 (.ok false)), (1, .prechecked 0 (.ok true)),
  (1, .prechecked 1 (.ok false)), (2, .cleared 0 none), (3, .handled 0 (.ok (some (.ofSecs 5)))),
  (3, .handled 1 (.ok (some (.ofSecs 3)))), (4, .verified 0 (.ok true)),
  (4, .verified 1 (.ok false)), (5, .removed 0 none), (5, .collect 0), (5, .collect 1),
  (5, .read none)]

/-- The second batch is at its end before the first is handled. -/
def secondFirst : List (Nat × Event Nat) := [
  (0, .read none), (0, .read none), (1, .prechecked 1 (.ok false)),
  (1, .handled 1 (.ok (some (.ofSecs 3)))), (1, .verified 1 (.ok false)), (1, .collect 1),
  (1, .read none), (2, .prechecked 0 (.ok false)), (2, .prechecked 0 (.ok true)),
  (3, .cleared 0 none), (4, .handled 0 (.ok (some (.ofSecs 5)))), (5, .verified 0 (.ok true)),
  (6, .removed 0 none), (6, .collect 0)]

theorem signal_of_pass_secondFirst : ∃ m s m' s' : Pool Nat,
    Finished { chunkSize := 2, concurrency := 2 } m inOrder s ∧
      Finished { chunkSize := 2, concurrency := 2 } m' secondFirst s' ∧
      SameEntries (m.journal inOrder) (m'.journal secondFirst) ∧
      Asks { chunkSize := 2, concurrency := 2 } (Noted inOrder) (m.journal inOrder)
        (.interval (.ofSecs 3)) ∧
      ∃ s'', s'.step 7 .closePass = some s'' ∧
        s''.pass = some (.closed (.ok (.interval (.ofSecs 3)))) := by
  obtain ⟨m, s, first, listed, told⟩ : ∃ m s : Pool Nat,
      Finished { chunkSize := 2, concurrency := 2 } m inOrder s ∧
        m.journal inOrder = [.read 0 [⟨"a", .epoch, 1⟩, ⟨"b", .epoch, 1⟩],
          .read 1 [⟨"c", .epoch, 1⟩], .prechecked 0 ⟨"a", .epoch, 1⟩ (.ok false),
          .prechecked 0 ⟨"b", .epoch, 1⟩ (.ok true), .prechecked 1 ⟨"c", .epoch, 1⟩ (.ok false),
          .handled 0 [⟨"a", .epoch, 1⟩] (.ok (some (.ofSecs 5))),
          .handled 1 [⟨"c", .epoch, 1⟩] (.ok (some (.ofSecs 3))),
          .verified 0 ⟨"a", .epoch, 1⟩ (.ok true), .verified 1 ⟨"c", .epoch, 1⟩ (.ok false)] ∧
        (s.step 7 .closePass).bind (·.pass) =
          some (.closed (.ok (.interval (.ofSecs 3)))) :=
    ⟨_, _, ⟨⟨_, threeQueued ++ (0, .openPass) :: inOrder, rfl, rfl, threeQueued, 0, _, rfl, rfl,
      rfl, by simp [inOrder]⟩, ⟨_, rfl, rfl⟩, by simp [inOrder, Event.fault?]⟩, rfl, rfl⟩
  obtain ⟨m', s', second, listed'⟩ : ∃ m' s' : Pool Nat,
      Finished { chunkSize := 2, concurrency := 2 } m' secondFirst s' ∧
        m'.journal secondFirst = [.read 0 [⟨"a", .epoch, 1⟩, ⟨"b", .epoch, 1⟩],
          .read 1 [⟨"c", .epoch, 1⟩], .prechecked 1 ⟨"c", .epoch, 1⟩ (.ok false),
          .handled 1 [⟨"c", .epoch, 1⟩] (.ok (some (.ofSecs 3))),
          .verified 1 ⟨"c", .epoch, 1⟩ (.ok false), .prechecked 0 ⟨"a", .epoch, 1⟩ (.ok false),
          .prechecked 0 ⟨"b", .epoch, 1⟩ (.ok true),
          .handled 0 [⟨"a", .epoch, 1⟩] (.ok (some (.ofSecs 5))),
          .verified 0 ⟨"a", .epoch, 1⟩ (.ok true)] :=
    ⟨_, _, ⟨⟨_, threeQueued ++ (0, .openPass) :: secondFirst, rfl, rfl, threeQueued, 0, _, rfl, rfl,
      rfl, by simp [secondFirst]⟩, ⟨_, rfl, rfl⟩, by simp [secondFirst, Event.fault?]⟩, rfl⟩
  have same : SameEntries (m.journal inOrder) (m'.journal secondFirst) := by
    intro y _
    rw [listed, listed']
    simp only [List.mem_cons]
    grind
  obtain ⟨signal, asks, closes, others⟩ := signal_of_pass first
  obtain ⟨s₁, stepped, closed⟩ := closes 7
  rw [stepped, Option.bind_some, closed] at told
  cases told
  exact ⟨m, s, m', s', first, second, same, asks,
    others m' secondFirst s' second (by simp [Noted, inOrder, secondFirst]) same 7⟩

end Pool
end ChainFetch.Work
