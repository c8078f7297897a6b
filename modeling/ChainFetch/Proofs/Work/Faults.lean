import ChainFetch.Proofs.Work.Slots
import ChainFetch.Proofs.Work.Solo
/-!
Failures of the store inside a pass. A removal that fails ends its own batch and leaves all the rest
as it is, a read that fails ends the reads, and no batch is cut short by either. What was not taken
out is there for a later pass. Main statements: `beside_of_fault` and `bears_of_pass`.
-/

namespace ChainFetch.Work

variable {α : Type}

open Entry (dispatched)

namespace Report

theorem total_cases (outputs : List (Except Failure Report)) :
    (∃ f, total outputs = .error f ∧ .error f ∈ outputs) ∨
      (∃ report, total outputs = .ok report ∧ ∀ f, .error f ∉ outputs) := by
  induction outputs with
  | nil => exact Or.inr ⟨{}, rfl, by simp⟩
  | cons output outputs ih =>
    cases output with
    | error f => exact Or.inl ⟨f, rfl, List.mem_cons_self⟩
    | ok r =>
      rcases ih with ⟨f, failed, mem⟩ | ⟨report, fine, none⟩
      · exact Or.inl ⟨f, by rw [total, failed]; rfl, List.mem_cons_of_mem _ mem⟩
      · refine Or.inr ⟨r.add report, by rw [total, fine]; rfl, fun f mem => ?_⟩
        exact none f ((List.mem_cons.mp mem).resolve_left (by simp))

end Report

namespace Batch

variable {b b' : Batch α} {e : Event α} {k : Nat}

inductive Awaits (k : Nat) : Batch α → Event α → Prop
  | prechecked (i : Item α) (unchecked : List (Item α)) (satisfied : List Position)
      (remaining : List (Item α)) (a : Except Failure Bool) :
      Awaits k (.checking (i :: unchecked) satisfied remaining) (.prechecked k a)
  | cleared (satisfied : List Position) (remaining : List (Item α)) (fault : Option StoreFailure) :
      Awaits k (.clearing satisfied remaining) (.cleared k fault)
  | handled (items : List (Item α)) (a : Except Failure (Option Duration)) :
      Awaits k (.handling items) (.handled k a)
  | verified (i : Item α) (unverified : List (Item α)) (completed : List Position)
      (report : Report) (a : Except Failure Bool) :
      Awaits k (.verifying (i :: unverified) completed report) (.verified k a)
  | removed (completed : List Position) (report : Report) (fault : Option StoreFailure) :
      Awaits k (.removing completed report) (.removed k fault)
  | collect (result : Except Failure Report) : Awaits k (.done result) (.collect k)

theorem Waiting.awaits (h : b.Waiting) (k : Nat) : ∃ e, b.Awaits k e := by
  cases b with
  | checking unchecked satisfied remaining =>
    obtain ⟨i, unchecked, rfl⟩ := List.exists_cons_of_ne_nil h
    exact ⟨_, .prechecked i unchecked satisfied remaining (.ok true)⟩
  | clearing satisfied remaining => exact ⟨_, .cleared satisfied remaining none⟩
  | handling items => exact ⟨_, .handled items (.ok none)⟩
  | verifying unverified completed report =>
    obtain ⟨i, unverified, rfl⟩ := List.exists_cons_of_ne_nil h
    exact ⟨_, .verified i unverified completed report (.ok true)⟩
  | removing completed report => exact ⟨_, .removed completed report none⟩
  | done result => exact ⟨_, .collect result⟩

def rank : Batch α → Nat
  | .checking unchecked _ remaining => 2 * unchecked.length + remaining.length + 3
  | .clearing _ remaining => remaining.length + 3
  | .handling items => items.length + 2
  | .verifying unverified _ _ => unverified.length + 1
  | .removing _ _ => 1
  | .done _ => 0

theorem rank_handle_le (items : List (Item α)) : (handle items).rank ≤ items.length + 2 := by
  cases items with
  | nil => exact Nat.zero_le _
  | cons i items => exact Nat.le_refl _

theorem rank_check_le (unchecked : List (Item α)) (satisfied : List Position)
    (remaining : List (Item α)) :
    (check unchecked satisfied remaining).rank ≤
      2 * unchecked.length + remaining.length + 3 := by
  cases unchecked with
  | cons i unchecked => exact Nat.le_refl _
  | nil =>
    cases satisfied with
    | nil =>
      have := rank_handle_le remaining
      simp only [check, List.length_nil]
      omega
    | cons p satisfied => simp only [check, rank, List.length_nil]; omega

theorem rank_verify_le (unverified : List (Item α)) (completed : List Position)
    (report : Report) : (verify unverified completed report).rank ≤ unverified.length + 1 := by
  cases unverified with
  | cons i unverified => exact Nat.le_refl _
  | nil =>
    cases completed with
    | nil => exact Nat.zero_le _
    | cons p completed => exact Nat.le_refl _

theorem rank_lt_of_take? (taken : b.take? e = some b') : b'.rank < b.rank := by
  unfold take? at taken
  split at taken
  · rename_i i unchecked satisfied remaining _ a
    cases taken
    have postponed : (check unchecked satisfied (remaining ++ [i])).rank <
        (Batch.checking (i :: unchecked) satisfied remaining).rank := by
      refine Nat.lt_of_le_of_lt (rank_check_le _ _ _) ?_
      simp only [rank, List.length_cons, List.length_append, List.length_nil]
      omega
    rcases a with e | satisfies
    · exact postponed
    · cases satisfies
      · exact postponed
      · refine Nat.lt_of_le_of_lt (rank_check_le _ _ _) ?_
        simp only [rank, List.length_cons]
        omega
  · cases taken
    exact Nat.succ_pos _
  · cases taken
    exact Nat.lt_succ_of_le (rank_handle_le _)
  · rename_i items _ a
    cases taken
    rcases a with e | hint
    · exact Nat.succ_pos _
    · exact Nat.lt_succ_of_le (rank_verify_le _ _ _)
  · cases taken
    rename_i i unverified completed report _ a
    rcases a with e | complete
    · exact Nat.lt_succ_of_le (rank_verify_le _ _ _)
    · cases complete
      · exact Nat.lt_succ_of_le (rank_verify_le _ _ _)
      · exact Nat.lt_succ_of_le (rank_verify_le _ _ _)
  · cases taken
    exact Nat.zero_lt_one
  · cases taken
    exact Nat.zero_lt_one
  · cases taken

theorem length_le_of_play {es : List (Event α)} (played : b.play es = some b') :
    es.length + b'.rank ≤ b.rank := by
  induction es generalizing b with
  | nil =>
    cases played
    simp
  | cons e es ih =>
    obtain ⟨m, first, rest⟩ := Option.bind_eq_some_iff.mp played
    have nearer := rank_lt_of_take? first
    have later := ih rest
    rw [List.length_cons]
    omega

end Batch

namespace Pool

variable {p p' m n s s' a b : Pool α} {now k : Nat} {e : Event α} {d : Drain α}
  {t u v w : List (Nat × Event α)} {i : Item α} {r : Position} {f : StoreFailure}

/-! ## Going on -/

theorem isSome_step_read (draining : p.pass = some (.draining d)) (fault : Option StoreFailure) :
    (p.step now (.read fault)).isSome = d.window.isOpen := by
  rw [← d.isSome_read p.queue p.config.chunkSize.toNat fault]
  have under := drain?_eq_some_iff.mpr draining
  cases reads : d.read p.queue p.config.chunkSize.toNat fault <;> simp [step, under, reads]

theorem isSome_step_collect (k : Nat) : (p.step now (.collect k)).isSome ↔
    ∃ result, p.batch? k = some (.done result) := by
  constructor
  · intro accepted
    obtain ⟨p', stepped⟩ := Option.isSome_iff_exists.mp accepted
    obtain ⟨d, under, stepped⟩ := Option.bind_eq_some_iff.mp stepped
    obtain ⟨d', collects, -⟩ := Option.bind_eq_some_iff.mp stepped
    obtain ⟨result, -, found, -⟩ := Drain.collect_cases collects
    exact ⟨result, (batch?_eq (drain?_eq_some_iff.mp under)).trans found⟩
  · rintro ⟨result, found⟩
    obtain ⟨d, under, found⟩ := Option.bind_eq_some_iff.mp found
    have held : d.window.running.any (·.1 = k) := by
      obtain ⟨x, found, -⟩ := Option.map_eq_some_iff.mp found
      have number := List.find?_some found
      rw [List.any_eq_true]
      exact ⟨x, List.mem_of_find?_eq_some found, number⟩
    simp [step, under, Drain.collect, found, Window.complete?, held]

theorem isSome_step_of_awaits {c : Batch α} (found : p.batch? k = some c) (h : c.Awaits k e) :
    (p.step now e).isSome := by
  cases h with
  | collect result => exact (isSome_step_collect k).mpr ⟨result, found⟩
  | cleared satisfied remaining fault =>
    refine (isSome_step_answer rfl).mpr ⟨_, found, ?_⟩
    cases fault <;> rfl
  | removed completed report fault =>
    refine (isSome_step_answer rfl).mpr ⟨_, found, ?_⟩
    cases fault <;> rfl
  | _ => exact (isSome_step_answer rfl).mpr ⟨_, found, rfl⟩

/-- A pass is not stuck: each batch in flight waits for something, and whatever of it comes is
taken; with none in flight the pass reads on or can close. -/
structure GoesOn (p : Pool α) (d : Drain α) : Prop where
  awaits : ∀ n c, (n, c) ∈ d.window.running →
    (∃ e, c.Awaits n e) ∧ ∀ e, c.Awaits n e → ∀ now, (p.step now e).isSome
  idle : d.window.running = [] →
    (∀ now fault, (p.step now (.read fault)).isSome) ∨ ∀ now, (p.step now .closePass).isSome

theorem goesOn (sound : p.Sound) (draining : p.pass = some (.draining d)) (lively : d.Lively) :
    p.GoesOn d := by
  refine ⟨fun n c running => ⟨(lively.waiting n c running).awaits n, fun e awaits now => ?_⟩,
    fun idle => ?_⟩
  · refine isSome_step_of_awaits ?_ awaits
    rw [batch?_eq draining]
    exact (sound.numbered d draining).get?_eq_some_iff.mpr running
  · cases opened : d.window.isOpen with
    | true => exact Or.inl fun now fault => (isSome_step_read draining fault).trans opened
    | false =>
      have done : d.window.isDone = true := by simp [Window.isDone, opened, idle]
      refine Or.inr fun now => ?_
      simp only [step, drain?_eq_some_iff.mpr draining, Option.bind_eq_bind, Option.bind_some,
        if_pos done]
      split <;> rfl

/-! ## Beside a batch that fails -/

/-- Apart from batch `k` all is the same: the queue, the other batches and what is accepted for
them, and what a read gives. -/
structure Beside (k : Nat) (a b : Pool α) : Prop where
  queue : b.queue = a.queue
  batches : ∀ n, n ≠ k → b.batch? n = a.batch? n
  answers : ∀ now n e, n ≠ k → (e.batch? = some n ∨ e = .collect n) →
    (b.step now e).isSome = (a.step now e).isSome
  reads : ∀ now fault, (b.step now (.read fault)).isSome = (a.step now (.read fault)).isSome
  gives : ∀ fault, b.record? (.read fault) = a.record? (.read fault)

theorem step_fault (own : e.batch? = some k) (failed : e.fault? = some f)
    (stepped : p.step now e = some p') :
    ∃ d c, p.pass = some (.draining d) ∧ d.window.get? k = some c ∧
      p'.pass = some (.draining (d.put k (.done (.error (.store f))))) ∧ p'.queue = p.queue := by
  obtain ⟨d, c, c', draining, found, taken, after, queue⟩ := step_answer own stepped
  refine ⟨d, c, draining, found, ?_, queue (by simp [failed])⟩
  rcases Batch.take?_cases taken with ⟨quiet, -⟩ | ⟨g, met, rfl, -⟩
  · rw [failed] at quiet
    cases quiet
  · cases failed.symm.trans met
    exact after

theorem beside_of_fault (sound : p.Sound) (own : e.batch? = some k) (failed : e.fault? = some f)
    (stepped : p.step now e = some p') :
    p'.batch? k = some (.done (.error (.store f))) ∧ p.Beside k p' := by
  obtain ⟨d, c, draining, found, after, queue⟩ := step_fault own failed stepped
  have numbered := sound.numbered d draining
  have config := (moves_of_step stepped).config_eq
  have others : ∀ n, n ≠ k → p'.batch? n = p.batch? n := by
    intro n other
    rw [batch?_eq after, batch?_eq draining]
    exact numbered.get?_set_other found other
  refine ⟨?_, queue, others, fun now n x other own => ?_, fun now fault => ?_, fun fault => ?_⟩
  · rw [batch?_eq after]
    exact numbered.get?_set_self found
  · rw [Bool.eq_iff_iff]
    rcases own with own | rfl
    · rw [isSome_step_answer own, isSome_step_answer own, others n other]
    · rw [isSome_step_collect, isSome_step_collect, others n other]
  · rw [isSome_step_read after, isSome_step_read draining]
    exact Window.isOpen_set d.window k _
  · rw [record?, record?, drain?_eq_some_iff.mpr after, drain?_eq_some_iff.mpr draining,
      Option.bind_some, Option.bind_some, queue, config]
    rfl

theorem not_mem_taken_of_fault {gone : List Position} {c : Batch α} (slotted : p.Slotted gone)
    (sound : p.Sound) (own : e.batch? = some k) (failed : e.fault? = some f)
    (stepped : p.step now e = some p') (found : p.batch? k = some c) (held : r ∈ c.held)
    (ran : p'.run w = some s) (one : ∀ x ∈ w, x.2 ≠ .openPass) : r ∉ gone ∧ r ∉ p'.taken w := by
  obtain ⟨d, c', draining, found', after, -⟩ := step_fault own failed stepped
  rw [batch?_eq draining] at found
  cases found'.symm.trans found
  have numbered := sound.numbered d draining
  have lets : (c.held ++ (Batch.done (.error (.store f)) : Batch α).held).Subperm c.held := by
    rw [Batch.held, List.append_nil]
  obtain ⟨apart, fresh⟩ := (slotted d draining).put numbered found lets
  have slotted' : p'.Slotted (gone ++ c.held) := by
    intro d' draining'
    cases after.symm.trans draining'
    exact apart
  refine ⟨fresh r held, fun taken => ?_⟩
  have never := (slotted'.run ((moves_of_step stepped).sound sound) ran one).2 r taken
  exact never (List.mem_append_right _ held)

/-! ## After a read that fails -/

def Exhausted (p : Pool α) : Prop := ∀ d, p.pass = some (.draining d) → d.readFailed = true

theorem exhausted_of_read (stepped : p.step now (.read (some f)) = some p') :
    p'.Exhausted := by
  obtain ⟨d, d', -, reads, rfl⟩ := read_cases stepped
  rintro _ ⟨⟩
  rcases Drain.read_cases reads with ⟨w, -, rfl, failed | ⟨⟨⟩, -⟩⟩ | ⟨w, g, -, rfl, -⟩ |
    ⟨w, last, -, -, -, -, ⟨⟩⟩
  · exact failed
  · rfl

theorem Exhausted.step (h : p.Exhausted) (sound : p.Sound) (other : e ≠ .openPass)
    (stepped : p.step now e = some p') :
    p'.Exhausted ∧ p.record? e ≠ some .readFailed ∧
      ∀ k items, p.record? e ≠ some (.read k items) := by
  cases under : p.drain? with
  | none =>
    obtain ⟨still, quiet⟩ := idle_of_step under other stepped
    refine ⟨fun d draining => ?_, ?_, ?_⟩
    · rw [drain?_eq_some_iff.mpr draining] at still
      cases still
    · rcases quiet with quiet | ⟨items, quiet⟩ <;> simp [quiet]
    · rcases quiet with quiet | ⟨items, quiet⟩ <;> simp [quiet]
  | some d =>
    have draining := drain?_eq_some_iff.mp under
    have failed := h d draining
    have asks : ∀ fault, p.record? (.read fault) = none := by
      intro fault
      rw [record?, under, Option.bind_some, Drain.recordRead?.eq_def, if_pos failed]
    refine ⟨?_, ?_, fun k items record => ?_⟩
    · rcases drain_moves_of_step sound draining stepped with ⟨d', after, moves⟩ | ⟨closed, -⟩
      · intro d'' draining'
        cases after.symm.trans draining'
        generalize p.record? e = x at moves
        cases moves with
        | readFailed => rfl
        | collect d'' k collects =>
          obtain ⟨_, _, -, -, rfl⟩ := Drain.collect_cases collects
          exact failed
        | _ => exact failed
      · intro d'' draining'
        rw [drain?_eq_some_iff.mpr draining'] at closed
        cases closed
    · intro record
      by_cases reads : ∃ g, e = .read (some g)
      · obtain ⟨g, rfl⟩ := reads
        rw [asks] at record
        cases record
      · exact ne_readFailed_of_step (fun g same => reads ⟨g, same⟩) record
    · obtain rfl := read_of_record record
      rw [asks] at record
      cases record

theorem Exhausted.run (h : p.Exhausted) (sound : p.Sound) (ran : p.run u = some s)
    (one : ∀ x ∈ u, x.2 ≠ .openPass) :
    .readFailed ∉ p.journal u ∧ ∀ k items, .read k items ∉ p.journal u := by
  have start : p.Exhausted ∧ .readFailed ∉ ([] : List (Entry α)) ∧
      ∀ k items, .read k items ∉ ([] : List (Entry α)) := ⟨h, by simp, by simp⟩
  refine (journal_invariant (P := fun j s => s.Exhausted ∧ .readFailed ∉ j ∧
    ∀ k items, .read k items ∉ j) ?_ sound start ran).2
  rintro j now s e s' mem sound ⟨exhausted, never, nothing⟩ stepped
  obtain ⟨after, unfailed, unread⟩ := exhausted.step sound (one _ mem) stepped
  refine ⟨after, fun mem => ?_, fun k items mem => ?_⟩
  · rcases List.mem_append.mp mem with before | here
    · exact never before
    · exact unfailed (Option.mem_toList.mp here)
  · rcases List.mem_append.mp mem with before | here
    · exact nothing k items before
    · exact unread k items (Option.mem_toList.mp here)

/-! ## The close of a pass -/

theorem result_of_closePass (stepped : p.step now .closePass = some p') :
    ∃ d, p.pass = some (.draining d) ∧ d.window.isDone = true ∧
      ((∃ n f, p'.pass = some (.closed (.error f)) ∧ (n, .error f) ∈ d.window.outputs) ∨
        (∃ signal, p'.pass = some (.closed (.ok signal)) ∧
          ∀ n f, (n, .error f) ∉ d.window.outputs)) := by
  obtain ⟨d, draining, done, closed⟩ := closePass_cases stepped
  refine ⟨d, draining, done, ?_⟩
  rcases Report.total_cases (d.window.outputs.map (·.2)) with
    ⟨f, totals, mem⟩ | ⟨report, totals, none⟩
  · obtain ⟨e, failed, rfl⟩ | ⟨total, fine, -⟩ := closed
    · cases failed.symm.trans totals
      obtain ⟨⟨n, output⟩, mem, rfl⟩ := List.mem_map.mp mem
      exact Or.inl ⟨n, _, rfl, mem⟩
    · cases fine.symm.trans totals
  · obtain ⟨e, failed, -⟩ | ⟨total, -, rfl⟩ := closed
    · cases failed.symm.trans totals
    · exact Or.inr ⟨_, rfl, fun n f mem => none f (List.mem_map.mpr ⟨_, mem, rfl⟩)⟩

/-! ## What stays -/

theorem unread_of_read {items : List (Item α)} (sound : p.Sound)
    (record : p.record? e = some (.read k items)) (stepped : p.step now e = some p')
    (mem : i ∈ items) : p.Unread i.position ∧ p.get? i.id = some i := by
  obtain ⟨-, -, d, under, rfl⟩ := batch?_of_read sound record stepped
  obtain rfl := read_of_record record
  have draining := drain?_eq_some_iff.mp under
  have opened : d.window.isOpen = true := by
    have reads : (p.step now (.read none)).isSome = d.window.isOpen :=
      isSome_step_read draining none
    rw [← reads, stepped]
    rfl
  have above : i.position ∈ p.queue.above d.position := by
    refine List.mem_of_mem_take (i := p.config.chunkSize.toNat) ?_
    rw [← sound.queue.map_position_readAfter]
    exact List.mem_map_of_mem mem
  refine ⟨⟨d, draining, ?_, (Queue.mem_above.mp above).2⟩, sound.queue.get?_of_mem_readAfter mem⟩
  simp only [Window.isOpen, Bool.and_eq_true, Bool.not_eq_true'] at opened
  exact opened.1

/-- Whatever comes after, the next pass whose reads do not fail dispatches the item, in one batch,
once its reads have come past it; unless the item is changed from outside by then, or a pass before
takes it out. -/
def Redispatches (p : Pool α) (i : Item α) : Prop :=
  ∀ before now n m u s, p.run before = some n → n.step now .openPass = some m →
    m.run u = some s → (∀ x ∈ u, x.2 ≠ .openPass) → (∀ x ∈ u, ∀ f, x.2 ≠ .read (some f)) →
    (∀ x ∈ before ++ u, ¬ x.2.Names i.id) → i.position ∉ p.taken before →
    ¬ s.Unread i.position →
      (∃ b ∈ m.batches u, i ∈ b) ∧
        (m.batches u).countP (fun b => i.position ∈ b.map Item.position) = 1

theorem slotted_of_openPass (stepped : p.step now .openPass = some m) : m.Slotted [] := by
  intro d draining
  cases (pass_of_openPass stepped).symm.trans draining
  exact Drain.slotted_new _

theorem Slotted.not_mem_taken_of_unread (slotted : m.Slotted []) (sound : m.Sound)
    (ran : m.run u = some s) (one : ∀ x ∈ u, x.2 ≠ .openPass) (unread : s.Unread r) :
    r ∉ m.taken u := by
  obtain ⟨d, draining, -, above⟩ := unread
  intro taken
  have passed := ((slotted.run sound ran one).1 d draining).passed r
    (List.mem_append_right _ taken)
  exact passed above

theorem redispatches_of_queued (sound : p.Sound) (queued : p.get? i.id = some i) :
    p.Redispatches i := by
  intro before now n m u s reached opens ran one reads unnamed untaken passed
  have soundly := sound_run sound reached
  have moved := moves_of_step opens
  have soundly' := moved.sound soundly
  have slotted := slotted_of_openPass opens
  have opened := pass_of_openPass opens
  rw [← moved.config_eq] at opened
  have there : n.get? i.id = some i := by
    rw [get?_run sound reached fun x mem => unnamed x (List.mem_append_left _ mem), queued]
    exact Option.filter_eq_some_iff.mpr ⟨rfl, by simpa using untaken⟩
  have first : m.get? i.id = some i := by
    rw [moved.get? soundly.queue (by simp [act, Act.Names]), there]
    exact Option.filter_eq_some_iff.mpr ⟨rfl, by simp [act, Act.taken]⟩
  -- Until the reads come past it no pass takes the item out.
  have stays : ∀ v w a, u = v ++ w → m.run v = some a → a.Unread i.position →
      a.get? i.id = some i := by
    rintro v w a rfl part unread
    have untaken := slotted.not_mem_taken_of_unread soundly' part
      (fun x mem => one x (List.mem_append_left _ mem)) unread
    rw [get?_run soundly' part fun x mem =>
      unnamed x (List.mem_append_right _ (List.mem_append_left _ mem)), first]
    exact Option.filter_eq_some_iff.mpr ⟨rfl, by simpa using untaken⟩
  have read : i.position ∈ dispatched (m.journal u) := by
    have start : m.Unread i.position ∨ i.position ∈ dispatched ([] : List (Entry α)) :=
      Or.inl ⟨_, opened, rfl, trivial⟩
    exact (unread_or_dispatched soundly' (reading_of_opened opened) ran one reads
      (fun v w a split part unread => ⟨i, stays v w a split part unread, rfl⟩)
      start).resolve_left passed
  refine ⟨?_, countP_batches_eq_one (ordered_of_run soundly' ran one) read⟩
  obtain ⟨x, mem, place⟩ := List.mem_map.mp read
  obtain ⟨b, dispatch, inside⟩ := List.mem_flatten.mp mem
  refine ⟨b, dispatch, ?_⟩
  -- What was read at the position is what was queued there.
  obtain ⟨entry, tells, batch⟩ := List.mem_filterMap.mp dispatch
  cases entry with
  | read k items =>
    cases batch
    obtain ⟨v, at', e, w, a, a', rfl, part, stepped, record⟩ := (mem_journal_iff ran).mp tells
    obtain ⟨unread, queued⟩ := unread_of_read (sound_run soundly' part) record stepped inside
    rw [place] at unread
    have same : x.id = i.id := congrArg Position.id place
    rw [same, stays v _ a rfl part unread] at queued
    cases queued
    exact inside
  | _ => cases batch

/-! ## A pass under failures -/

/-- How a pass bears failures of the store, once it has come to `s` by `v`. -/
structure Bears (m : Pool α) (v : List (Nat × Event α)) (s : Pool α) : Prop where
  goes : ∀ d, s.pass = some (.draining d) → s.GoesOn d
  batches : ∀ d, s.pass = some (.draining d) → ∀ n items, .read n items ∈ m.journal v →
    ∃ c, (Batch.start items).play (answersTo n v) = some c ∧
      (answersTo n v).length ≤ 2 * items.length + 3 ∧
      ((n, c) ∈ d.window.running ∨ ∃ result, c = .done result ∧ (n, result) ∈ d.window.outputs)
  removal : ∀ now k e f s', e.batch? = some k → e.fault? = some f → s.step now e = some s' →
    s'.batch? k = some (.done (.error (.store f))) ∧ s.Beside k s' ∧
      ∀ c, s.batch? k = some c → ∀ r ∈ c.held, ∀ w s'', s'.run w = some s'' →
        (∀ x ∈ w, x.2 ≠ .openPass) → r ∉ m.taken (v ++ (now, e) :: w)
  read : ∀ now f s', s.step now (.read (some f)) = some s' → ∀ w s'', s'.run w = some s'' →
    (∀ x ∈ w, x.2 ≠ .openPass) → .readFailed ∉ s'.journal w ∧ s'.batches w = []
  close : ∀ now s', s.step now .closePass = some s' →
    (∀ n items, .read n items ∈ m.journal v →
      ∃ result, (Batch.start items).play (answersTo n v) = some (.done result)) ∧
    ((∃ x ∈ v, ∃ g, x.2.fault? = some g ∧ s'.pass = some (.closed (.error (.store g)))) ∨
      ((∀ x ∈ v, x.2.fault? = none) ∧ ∃ signal, s'.pass = some (.closed (.ok signal))))
  stays : ∀ v₁ at' v₂ a k items, v = v₁ ++ (at', .read none) :: v₂ → m.run v₁ = some a →
    a.record? (.read none) = some (.read k items) → ∀ i ∈ items, (∀ x ∈ v₂, ¬ x.2.Names i.id) →
    i.position ∉ m.taken v → s.get? i.id = some i ∧ s.Redispatches i

theorem taken_of_fault (failed : e.fault? = some f) : (p.act e).taken = [] := by
  refine taken_eq_nil ?_ ?_
  · rintro k rfl
    cases failed
  · rintro k rfl
    cases failed

theorem Settled.play (h : m.Settled v s) (draining : s.pass = some (.draining d)) {k : Nat}
    {items : List (Item α)} (read : .read k items ∈ m.journal v) :
    ∃ c, (Batch.start items).play (answersTo k v) = some c ∧
      (answersTo k v).length ≤ 2 * items.length + 3 ∧
      ((k, c) ∈ d.window.running ∨
        ∃ result, c = .done result ∧ (k, result) ∈ d.window.outputs) := by
  have bounded : ∀ c, (Batch.start items).play (answersTo k v) = some c →
      (answersTo k v).length ≤ 2 * items.length + 3 := by
    intro c played
    have few := Batch.length_le_of_play played
    have whole := Batch.rank_check_le items [] []
    rw [Batch.start] at few
    simp only [List.length_nil] at whole
    omega
  rcases (h.solo d draining).kept k items read with ⟨c, running⟩ | ⟨result, output, played⟩
  · have played := (h.solo d draining).running k c items running read
    exact ⟨c, played, bounded c played, Or.inl running⟩
  · exact ⟨.done result, played, bounded _ played, Or.inr ⟨result, rfl, output⟩⟩

theorem Settled.finished (h : m.Settled v s) (stepped : s.step now .closePass = some s') {k : Nat}
    {items : List (Item α)} (read : .read k items ∈ m.journal v) :
    ∃ result, (Batch.start items).play (answersTo k v) = some (.done result) := by
  obtain ⟨d, draining, done, -⟩ := result_of_closePass stepped
  obtain ⟨-, idle⟩ := (Window.isDone_iff (h.lively d draining).room).mp done
  obtain ⟨c, played, -, running | ⟨result, rfl, -⟩⟩ := h.play draining read
  · rw [idle] at running
    cases running
  · exact ⟨result, played⟩

theorem Settled.closes (h : m.Settled v s) (stepped : s.step now .closePass = some s') :
    (∃ x ∈ v, ∃ g, x.2.fault? = some g ∧ s'.pass = some (.closed (.error (.store g)))) ∨
      ((∀ x ∈ v, x.2.fault? = none) ∧ ∃ signal, s'.pass = some (.closed (.ok signal))) := by
  obtain ⟨d, draining, done, result⟩ := result_of_closePass stepped
  obtain ⟨-, idle⟩ := (Window.isDone_iff (h.lively d draining).room).mp done
  have faulted := h.faulted d draining
  rcases result with ⟨n, f, closed, output⟩ | ⟨signal, closed, fine⟩
  · obtain ⟨x, mem, g, met, rfl⟩ := faulted.caused n f (Or.inr output)
    exact Or.inl ⟨x, mem, g, met, closed⟩
  · refine Or.inr ⟨fun x mem => ?_, signal, closed⟩
    rw [Option.eq_none_iff_forall_ne_some]
    intro g met
    obtain ⟨n, f, running | output⟩ := faulted.noted (Or.inr ⟨x, mem, by simp [met]⟩)
    · rw [idle] at running
      cases running
    · exact fine n f output

/-- However its reads and removals fail, a pass bears it. -/
theorem bears_of_pass {c : Config} (made : new c = .ok p) (ran : p.run t = some s)
    (pass : p.LatestPass t m v) : m.Bears v s := by
  obtain ⟨sound, -⟩ := sound_of_new made
  have settled := settled_of_pass pass sound ran
  obtain ⟨soundly, -, -, one⟩ := pass.opened sound
  have reached := pass.run ran
  have slotted : m.Slotted [] := by
    obtain ⟨before, now, n, -, -, opens, -⟩ := pass
    exact slotted_of_openPass opens
  refine ⟨fun d draining => goesOn settled.sound draining (settled.lively d draining),
    fun d draining n items read => settled.play draining read, ?_, ?_, ?_, ?_⟩
  · intro now k e f s' own failed stepped
    obtain ⟨ended, beside⟩ := beside_of_fault settled.sound own failed stepped
    refine ⟨ended, beside, fun c found r held w s'' rest alone => ?_⟩
    have here := (slotted.run soundly reached one).1
    obtain ⟨before, after⟩ :=
      not_mem_taken_of_fault here settled.sound own failed stepped found held rest alone
    rw [taken_append reached, taken_cons stepped, taken_of_fault failed, List.nil_append]
    intro mem
    rcases List.mem_append.mp mem with mem | mem
    · exact before (List.mem_append_right _ mem)
    · exact after mem
  · intro now f s' stepped w s'' rest alone
    obtain ⟨unasked, unread⟩ := (exhausted_of_read stepped).run
      ((moves_of_step stepped).sound settled.sound) rest alone
    refine ⟨unasked, ?_⟩
    rw [batches, Entry.batches, List.filterMap_eq_nil_iff]
    intro x mem
    cases x with
    | read k items => exact absurd mem (unread k items)
    | _ => rfl
  · intro now s' stepped
    refine ⟨fun n items read => settled.finished stepped read, ?_⟩
    rcases settled.closes stepped with ⟨x, mem, g, met, closed⟩ | ⟨fine, signal, closed⟩
    · exact Or.inl ⟨x, mem, g, met, closed⟩
    · exact Or.inr ⟨fine, signal, closed⟩
  · rintro v₁ at' v₂ a k items rfl part record i mem unnamed untaken
    obtain ⟨a', rest, later⟩ := after_append_eq_some.mp reached
    cases part.symm.trans rest
    obtain ⟨b, stepped, -⟩ := after_cons_eq_some.mp later
    have before := sound_run soundly part
    have queued := (unread_of_read before record stepped mem).2
    have still : s.get? i.id = some i := by
      rw [taken_append part] at untaken
      rw [get?_run before later fun x mem => ?_, queued]
      · refine Option.filter_eq_some_iff.mpr ⟨rfl, ?_⟩
        simpa using fun taken => untaken (List.mem_append_right _ taken)
      · rcases List.mem_cons.mp mem with rfl | mem
        · exact id
        · exact unnamed x mem
    exact ⟨still, redispatches_of_queued settled.sound still⟩

/-- Batches of one item, two at a time: the removal of the first fails, then a read does, and the
second runs to its end. -/
def failing : List (Nat × Event Nat) := [
  (0, .read none), (0, .read none), (1, .prechecked 0 (.ok true)), (1, .prechecked 1 (.ok false)),
  (2, .cleared 0 (some (.database "full"))), (2, .collect 0),
  (3, .read (some (.database "down"))), (4, .handled 1 (.ok none)), (5, .verified 1 (.ok true)),
  (6, .removed 1 none), (6, .collect 1), (6, .collect 2), (7, .read none)]

def resumed : List (Nat × Event Nat) :=
  [(8, .closePass), (8, .passDone), (60000, .timeout), (60000, .turn)]

def reread : List (Nat × Event Nat) := [
  (60000, .read none), (60000, .read none), (60000, .prechecked 0 (.ok true)),
  (60000, .cleared 0 none), (60000, .collect 0), (60000, .read none)]

theorem bears_of_pass_failing : ∃ p m s s' n m' s'' : Pool Nat,
    new { chunkSize := 1, concurrency := 2 } = .ok p ∧
      p.LatestPass (threeQueued ++ (0, .openPass) :: failing) m failing ∧
      m.run failing = some s ∧ m.Bears failing s ∧
      s.get? "a" = some ⟨"a", .epoch, 1⟩ ∧ s.get? "b" = none ∧
      s.step 8 .closePass = some s' ∧
      s'.pass = some (.closed (.error (.store (.database "full")))) ∧
      s.run resumed = some n ∧ n.step 60000 .openPass = some m' ∧ m'.run reread = some s'' ∧
      (∃ b ∈ m'.batches reread, ⟨"a", .epoch, 1⟩ ∈ b) := by
  have bears := bears_of_pass (c := { chunkSize := 1, concurrency := 2 })
    (t := threeQueued ++ (0, .openPass) :: failing) rfl rfl
    ⟨threeQueued, 0, _, rfl, rfl, rfl, by simp [failing]⟩
  refine ⟨_, _, _, _, _, _, _, rfl, ⟨threeQueued, 0, _, rfl, rfl, rfl, by simp [failing]⟩, rfl,
    bears, rfl, rfl, rfl, rfl, rfl, rfl, rfl, ?_⟩
  have stays := (bears.stays [] 0 _ _ 0 [⟨"a", .epoch, 1⟩] rfl rfl rfl _ List.mem_cons_self
    (by simp [Event.Names]) (by decide)).2
  refine (stays resumed 60000 _ _ reread _ rfl rfl rfl (by simp [reread]) (by simp [reread])
    (by simp [resumed, reread, Event.Names]) (by decide) ?_).1
  rintro ⟨d, ⟨⟩, exhausted, -⟩
  cases exhausted

end Pool
end ChainFetch.Work
