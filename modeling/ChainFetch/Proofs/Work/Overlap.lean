import ChainFetch.Proofs.Work.Dispatch
import ChainFetch.Proofs.Work.Earned
/-!
Calls of the handler that are in flight together. The items of one call have different ids. Two
calls carry one id only if the pass keeps more than one batch in flight and a later version was
added after the batch of the earlier one was read; the pass then reads that version too, whether or
not the earlier call has come back. Main statements: `Drain.Moves.drawn` and `calls_in_flight`.
-/

namespace ChainFetch.Work

variable {α : Type}

/-! ## Lists -/

theorem sublist_of_numbers {β : Type} {f : β → Option Nat} {j : List β} {x y : β} {k n : Nat}
    (ascending : (j.filterMap f).Pairwise (· < ·)) (hx : x ∈ j) (hy : y ∈ j) (first : f x = some k)
    (second : f y = some n) (less : k < n) : [x, y].Sublist j := by
  induction j with
  | nil => cases hx
  | cons z j ih =>
    rcases List.mem_cons.mp hx with rfl | later
    · refine List.Sublist.cons_cons _ (List.singleton_sublist.mpr ?_)
      rcases List.mem_cons.mp hy with rfl | behind
      · rw [first, Option.some.injEq] at second
        omega
      · exact behind
    · rcases List.mem_cons.mp hy with rfl | behind
      · rw [List.filterMap_cons_some second, List.pairwise_cons] at ascending
        have above := ascending.1 k (List.mem_filterMap.mpr ⟨x, later, first⟩)
        omega
      · have rest : (j.filterMap f).Pairwise (· < ·) :=
          ascending.sublist ((List.sublist_cons_self z j).filterMap f)
        exact (ih rest later behind).cons z

theorem pair_sublist_concat {β : Type} {j : List β} {x y z : β} (h : [x, y].Sublist (j ++ [z])) :
    [x, y].Sublist j ∨ (x ∈ j ∧ y = z) := by
  obtain ⟨l₁, l₂, split, front, back⟩ := List.sublist_append_iff.mp h
  rcases List.sublist_singleton.mp back with rfl | rfl
  · rw [List.append_nil] at split
    exact Or.inl (split ▸ front)
  · have split : [x] ++ [y] = l₁ ++ [z] := split
    obtain ⟨rfl, same⟩ := List.append_inj' split rfl
    exact Or.inr ⟨List.singleton_sublist.mp front, (List.cons.inj same).1⟩

theorem Queue.Sound.nodup_ids_readAfter {q : Queue α} (h : q.Sound) (after : Option Position)
    (limit : Nat) : ((q.readAfter after limit).map Item.id).Nodup := by
  have positions : ((q.readAfter after limit).map Item.position).Nodup := by
    rw [h.map_position_readAfter]
    exact Position.nodup_of_pairwise ((h.above_ascending after).sublist (List.take_sublist _ _))
  refine List.Nodup.map_on ?_ (List.Nodup.of_map _ positions)
  intro i hi j hj same
  have queued := h.get?_of_mem_readAfter hi
  rw [same, h.get?_of_mem_readAfter hj] at queued
  exact (Option.some.inj queued).symm

namespace Entry

def reads? : Entry α → Option Nat
  | .read k _ => some k
  | _ => none

end Entry

namespace Batch

variable {k : Nat} {b b' : Batch α} {x : Option (Entry α)}

/-- The items of a batch that the handler is or may yet be given. -/
def pending : Batch α → List (Item α)
  | checking unchecked _ remaining => remaining ++ unchecked
  | clearing _ remaining => remaining
  | handling items => items
  | _ => []

theorem pending_handle (items : List (Item α)) : (handle items).pending = items := by
  cases items <;> rfl

theorem pending_check (unchecked : List (Item α)) (satisfied : List Position)
    (remaining : List (Item α)) :
    (check unchecked satisfied remaining).pending = remaining ++ unchecked := by
  cases unchecked with
  | cons i unchecked => rfl
  | nil =>
    rw [List.append_nil]
    cases satisfied with
    | nil => exact pending_handle remaining
    | cons p satisfied => rfl

theorem pending_verify (unverified : List (Item α)) (completed : List Position) (report : Report) :
    (verify unverified completed report).pending = [] := by
  cases unverified with
  | cons i unverified => rfl
  | nil => cases completed <;> rfl

theorem Answers.pending_sublist (a : b.Answers k x b') : b'.pending.Sublist b.pending := by
  cases a with
  | prechecked i unchecked satisfied remaining a =>
    rcases a with e | satisfies
    · rw [Batch.prechecked, pending_check, List.append_assoc]
      exact List.Sublist.refl _
    · cases satisfies
      · rw [Batch.prechecked, pending_check, List.append_assoc]
        exact List.Sublist.refl _
      · rw [Batch.prechecked, pending_check]
        exact List.Sublist.append (List.Sublist.refl _) (List.sublist_cons_self _ _)
  | cleared satisfied remaining =>
    rw [pending_handle]
    exact List.Sublist.refl _
  | handled items a =>
    rcases a with e | hint
    · exact List.nil_sublist _
    · rw [Batch.handled, pending_verify]
      exact List.nil_sublist _
  | verified i unverified completed report a =>
    rcases a with e | complete
    · rw [Batch.verified, pending_verify]
      exact List.nil_sublist _
    · cases complete <;> rw [Batch.verified, pending_verify] <;> exact List.nil_sublist _
  | removed completed report => exact List.nil_sublist _
  | failed b e => exact List.nil_sublist _

def Drawn (n : Nat) (j : List (Entry α)) (b : Batch α) : Prop :=
  b.pending = [] ∨ ∃ items, .read n items ∈ j ∧ b.pending.Sublist items

theorem Drawn.append {n : Nat} {j : List (Entry α)} (h : b.Drawn n j) (l : List (Entry α)) :
    b.Drawn n (j ++ l) := by
  rcases h with none | ⟨items, read, drawn⟩
  · exact Or.inl none
  · exact Or.inr ⟨items, List.mem_append_left _ read, drawn⟩

theorem drawn_start (n : Nat) (j : List (Entry α)) (items : List (Item α)) :
    (start items).Drawn n (j ++ [.read n items]) := by
  refine Or.inr ⟨items, List.mem_append_right _ List.mem_cons_self, ?_⟩
  rw [start, pending_check, List.nil_append]

end Batch

namespace Drain

variable {q : Queue α} {chunk : Nat} {d d' : Drain α} {x : Option (Entry α)} {j : List (Entry α)}

/-- The batches of a pass are numbered in the order of its reads, draw on what was read for them,
and are no more at a time than the window takes. -/
structure Drawn (j : List (Entry α)) (d : Drain α) : Prop where
  ascending : (j.filterMap Entry.reads?).Pairwise (· < ·)
  given : ∀ n ∈ j.filterMap Entry.reads?, n < d.window.pulled
  batches : ∀ n b, (n, b) ∈ d.window.running → b.Drawn n j
  bounded : d.window.running.length ≤ d.window.limit

theorem Drawn.append (h : d.Drawn j) (other : x.bind Entry.reads? = none)
    (given : d.window.pulled ≤ d'.window.pulled)
    (batches : ∀ n b, (n, b) ∈ d'.window.running → b.Drawn n (j ++ x.toList))
    (bounded : d'.window.running.length ≤ d'.window.limit) : d'.Drawn (j ++ x.toList) := by
  have same : (j ++ x.toList).filterMap Entry.reads? = j.filterMap Entry.reads? := by
    cases x with
    | none => rw [Option.toList_none, List.append_nil]
    | some x =>
      rw [Option.bind_some] at other
      simp [other]
  refine ⟨?_, ?_, batches, bounded⟩
  · rw [same]
    exact h.ascending
  · rw [same]
    exact fun n member => Nat.lt_of_lt_of_le (h.given n member) given

theorem drawn_new (concurrency : Nat) : (new concurrency : Drain α).Drawn [] where
  ascending := .nil
  given _ member := absurd member List.not_mem_nil
  batches _ _ running := absurd running List.not_mem_nil
  bounded := Nat.zero_le _

theorem length_lt_of_isOpen {w : Window (Batch α) (Except Failure Report)}
    (opened : w.isOpen = true) : w.running.length < w.limit := by
  simp only [Window.isOpen, Bool.and_eq_true, decide_eq_true_eq] at opened
  exact opened.2

theorem Moves.drawn (m : d.Moves q chunk x d') (numbered : d.window.Numbered) (h : d.Drawn j) :
    d'.Drawn (j ++ x.toList) := by
  cases m with
  | stay => exact h.append rfl (Nat.le_refl _) (fun n b k => (h.batches n b k).append _) h.bounded
  | saved items =>
    exact h.append rfl (Nat.le_refl _) (fun n b k => (h.batches n b k).append _) h.bounded
  | close w closed =>
    obtain ⟨-, rfl⟩ := Window.close?_cases closed
    exact h.append rfl (Nat.le_refl _) (fun n b k => (h.batches n b k).append _) h.bounded
  | readFailed w e pulled =>
    obtain ⟨opened, rfl⟩ := Window.pull?_cases pulled
    refine h.append rfl (Nat.le_succ _) ?_ ?_
    · intro n b running
      rcases List.mem_append.mp running with running | new
      · exact (h.batches n b running).append _
      · cases List.mem_singleton.mp new
        exact Or.inl rfl
    · rw [List.length_append]
      exact length_lt_of_isOpen opened
  | read w last ends pulled =>
    obtain ⟨opened, rfl⟩ := Window.pull?_cases pulled
    have numbers : (j ++ [Entry.read d.window.pulled (q.readAfter d.position chunk)]).filterMap
        Entry.reads? = j.filterMap Entry.reads? ++ [d.window.pulled] := by
      simp [Entry.reads?]
    refine ⟨?_, ?_, ?_, ?_⟩
    · rw [Option.toList_some, numbers, List.pairwise_append]
      refine ⟨h.ascending, List.pairwise_singleton _ _, ?_⟩
      intro n member k same
      rw [List.mem_singleton.mp same]
      exact h.given n member
    · rw [Option.toList_some, numbers]
      intro n member
      rcases List.mem_append.mp member with member | new
      · exact Nat.lt_succ_of_lt (h.given n member)
      · rw [List.mem_singleton.mp new]
        exact Nat.lt_succ_self _
    · intro n b running
      rcases List.mem_append.mp running with running | new
      · exact (h.batches n b running).append _
      · cases List.mem_singleton.mp new
        exact Batch.drawn_start _ _ _
    · rw [List.length_append]
      exact length_lt_of_isOpen opened
  | answer k b b' x found answers =>
    refine h.append ?_ (Nat.le_refl _) ?_ ?_
    · cases answers <;> rfl
    · intro n c running
      rcases (numbered.mem_running_set found).mp running with moved | ⟨-, same⟩
      · cases moved
        rcases h.batches k b (numbered.get?_eq_some_iff.mp found) with none | ⟨items, read, drawn⟩
        · have sub := answers.pending_sublist
          rw [none] at sub
          exact Or.inl (List.sublist_nil.mp sub)
        · exact Or.inr ⟨items, List.mem_append_left _ read, answers.pending_sublist.trans drawn⟩
      · exact (h.batches n c same).append _
    · rw [put, Window.set, List.length_map]
      exact h.bounded
  | collect d' k collects =>
    obtain ⟨_, _, -, completed, rfl⟩ := collect_cases collects
    rw [Window.complete?_cases completed]
    refine h.append rfl (Nat.le_refl _) ?_ ?_
    · intro n b running
      exact (h.batches n b (List.mem_filter.mp running).1).append _
    · exact Nat.le_trans (List.length_filter_le _ _) h.bounded

end Drain

/-! ## Versions of one id -/

namespace Pool

variable {p p' m n : Pool α} {now : Nat} {e : Event α} {d : Drain α} {t u : List (Nat × Event α)}
  {i : Item α} {j : List (Entry α)} {id : String}

/-- A journal tells of the versions of each id: the items of one batch have different ids, and what
is queued or read under an id after a batch was read is its version in that batch, or was saved
since. -/
structure Traced (j : List (Entry α)) (p : Pool α) : Prop where
  distinct : ∀ k items, .read k items ∈ j → (items.map Item.id).Nodup
  queued : ∀ k items old i, .read k items ∈ j → old ∈ items → p.get? old.id = some i →
    i = old ∨ ∃ again, [.read k items, .saved again].Sublist j ∧ i ∈ again
  reread : ∀ k n items later old i, [.read k items, .read n later].Sublist j → old ∈ items →
    i ∈ later → i.id = old.id →
    i = old ∨ ∃ again, [.read k items, .saved again, .read n later].Sublist j ∧ i ∈ again

theorem traced_nil (p : Pool α) : Traced [] p := by
  constructor <;> simp

theorem Traced.step (h : Traced j p) (sound : p.Sound) (stepped : p.step now e = some m) :
    Traced (j ++ (p.record? e).toList) m := by
  -- A read finds each of its items as it is queued, and leaves the queue alone.
  have reads : ∀ {k items}, p.record? e = some (.read k items) →
      m.queue = p.queue ∧ ∀ i ∈ items, p.get? i.id = some i := by
    intro k items record
    obtain ⟨same, -, d, -, rfl⟩ := batch?_of_read sound record stepped
    exact ⟨same, fun i mem => sound.queue.get?_of_mem_readAfter mem⟩
  refine ⟨?_, ?_, ?_⟩
  · intro k items read
    rcases List.mem_append.mp read with read | read
    · exact h.distinct k items read
    · obtain ⟨-, -, d, -, rfl⟩ := batch?_of_read sound (Option.mem_toList.mp read) stepped
      exact sound.queue.nodup_ids_readAfter _ _
  · intro k items old i read mem found
    rcases List.mem_append.mp read with read | read
    · rcases get?_of_step sound.queue stepped found with before | ⟨again, record, saved, -⟩
      · rcases h.queued k items old i read mem before with same | ⟨again, evidence, saved⟩
        · exact Or.inl same
        · exact Or.inr ⟨again, evidence.trans (List.sublist_append_left _ _), saved⟩
      · refine Or.inr ⟨again, ?_, saved⟩
        rw [record]
        exact sublist_concat_of_mem (List.singleton_sublist.mpr read)
    · obtain ⟨same, queued⟩ := reads (Option.mem_toList.mp read)
      have found : p.get? old.id = some i := by
        rw [get?, ← same]
        exact found
      rw [queued old mem] at found
      exact Or.inl (Option.some.inj found).symm
  · intro k n items later old i both mem mem' named
    cases record : p.record? e with
    | none =>
      rw [record, Option.toList_none, List.append_nil] at both
      rcases h.reread k n items later old i both mem mem' named with same | ⟨again, evidence, saved⟩
      · exact Or.inl same
      · exact Or.inr ⟨again, evidence.trans (List.sublist_append_left _ _), saved⟩
    | some x =>
      rw [record, Option.toList_some] at both
      rcases pair_sublist_concat both with both | ⟨read, rfl⟩
      · rcases h.reread k n items later old i both mem mem' named with
          same | ⟨again, evidence, saved⟩
        · exact Or.inl same
        · exact Or.inr ⟨again, evidence.trans (List.sublist_append_left _ _), saved⟩
      · -- What is read now was queued until now.
        have before := (reads record).2 i mem'
        rw [named] at before
        rcases h.queued k items old i read mem before with same | ⟨again, evidence, saved⟩
        · exact Or.inl same
        · exact Or.inr ⟨again, sublist_concat_of_mem evidence, saved⟩

theorem lt_of_reads {chunk k l : Nat} {items later : List (Item α)} {old : Item α}
    (ordered : Ordered chunk j) (both : [.read k items, .read l later].Sublist j)
    (mem : old ∈ items) (mem' : i ∈ later) : old.position < i.position := by
  have batches : [items, later].Sublist (Entry.batches j) := both.filterMap Entry.batch?
  have ascending := ordered.ascending
  rw [Entry.dispatched, List.pairwise_map, List.pairwise_flatten] at ascending
  exact (List.pairwise_pair.mp (ascending.2.sublist batches)) old mem i mem'

theorem two_le_length_of_get? {w : Window (Batch α) (Except Failure Report)} {k l : Nat}
    {a b : Batch α} (numbered : w.Numbered) (first : w.get? k = some a) (second : w.get? l = some b)
    (apart : k ≠ l) : 2 ≤ w.running.length := by
  have hk := numbered.get?_eq_some_iff.mp first
  have hl := numbered.get?_eq_some_iff.mp second
  match running : w.running with
  | [] => simp [running] at hk
  | [r] =>
    rw [running, List.mem_singleton] at hk hl
    rw [← hk, Prod.mk.injEq] at hl
    exact absurd hl.1.symm apart
  | _ :: _ :: _ => simp

theorem drawn_of_latestPass (sound : p.Sound) (ran : p.run t = some p')
    (pass : p.LatestPass t m u) (draining : p'.pass = some (.draining d)) :
    Ordered p.config.chunkSize.toNat (m.journal u) ∧ d.Drawn (m.journal u) ∧
      d.window.limit = max p.config.concurrency.toNat 1 := by
  obtain ⟨sound', same, opened, one⟩ := pass.opened sound
  have start : True ∧ ∀ d, m.pass = some (.draining d) → d.Ascends p.config.chunkSize.toNat [] ∧
      d.Drawn [] ∧ d.window.limit = max p.config.concurrency.toNat 1 := by
    refine ⟨trivial, fun d draining => ?_⟩
    cases opened.symm.trans draining
    refine ⟨⟨⟨by simp [Entry.batches], .nil⟩, by simp [Entry.dispatched, Entry.batches]⟩,
      Drain.drawn_new _, ?_⟩
    rw [same]
    rfl
  have kept := (pass_invariant (P := fun j d => d.Ascends p.config.chunkSize.toNat j ∧ d.Drawn j ∧
    d.window.limit = max p.config.concurrency.toNat 1) (Q := fun _ => True) (fun _ => trivial)
    (fun _ => trivial) (fun sound numbered h moves => ⟨moves.ascends sound h.1,
      moves.drawn numbered h.2.1, moves.limit_eq.trans h.2.2⟩)
    sound' (by rw [same]) start (pass.run ran) one).2 d draining
  exact ⟨kept.1.1, kept.2⟩

/-- The items of a call of the handler have different ids. Two calls in flight carry one id only in
a pass that keeps more than one batch in flight, and only where the later call has a version with a
later time that was added after the batch of the earlier call had been read. -/
theorem calls_in_flight {c : Config} {k : Nat} {items : List (Item α)} (made : new c = .ok p)
    (ran : p.run t = some p') (call : p'.batch? k = some (.handling items)) :
    (items.map Item.id).Nodup ∧
    ∀ l later old i, k < l → p'.batch? l = some (.handling later) → old ∈ items → i ∈ later →
      i.id = old.id →
      1 < c.concurrency.toNat ∧ old.time < i.time ∧
        ∃ m u before again after, p.LatestPass t m u ∧
          [.read k before, .saved again, .read l after].Sublist (m.journal u) ∧
          old ∈ before ∧ i ∈ again ∧ i ∈ after := by
  obtain ⟨sound, config⟩ := sound_of_new made
  have soundly := sound_run sound ran
  obtain ⟨d, under, found⟩ := Option.bind_eq_some_iff.mp call
  have draining := drain?_eq_some_iff.mp under
  have numbered := soundly.numbered d draining
  obtain ⟨m, u, pass⟩ := exists_latestPass (drain?_of_new made) ran draining
  obtain ⟨ordered, drawn, limit⟩ := drawn_of_latestPass sound ran pass draining
  rw [config] at limit
  have traced := journal_invariant (P := Traced)
    (fun _ sound traced stepped => traced.step sound stepped) (pass.opened sound).1 (traced_nil m)
    (pass.run ran)
  rw [List.nil_append] at traced
  refine ⟨?_, ?_⟩
  · rcases drawn.batches k _ (numbered.get?_eq_some_iff.mp found) with none | ⟨before, read, sub⟩
    · have none : items = [] := none
      rw [none]
      exact List.nodup_nil
    · exact (traced.distinct k before read).sublist (sub.map Item.id)
  · intro l later old i less call' mem mem' named
    have found' := (batch?_eq draining).symm.trans call'
    have room : 2 ≤ max c.concurrency.toNat 1 := by
      rw [← limit]
      exact Nat.le_trans (two_le_length_of_get? numbered found found' (Nat.ne_of_lt less))
        drawn.bounded
    have first := drawn.batches k _ (numbered.get?_eq_some_iff.mp found)
    have second := drawn.batches l _ (numbered.get?_eq_some_iff.mp found')
    obtain ⟨before, read, sub⟩ := first.resolve_left (List.ne_nil_of_mem mem)
    obtain ⟨after, reread, sub'⟩ := second.resolve_left (List.ne_nil_of_mem mem')
    have both := sublist_of_numbers drawn.ascending read reread rfl rfl less
    have earlier := lt_of_reads ordered both (sub.subset mem) (sub'.subset mem')
    refine ⟨by omega, ?_, ?_⟩
    · rcases Position.lt_def.mp earlier with time | ⟨-, ids⟩
      · exact time
      · have ids : old.id < i.id := ids
        rw [named] at ids
        exact absurd ids (String.lt_irrefl _)
    · have origin := traced.reread k l before after old i both (sub.subset mem) (sub'.subset mem')
      rcases origin named with rfl | ⟨again, evidence, saved⟩
      · exact absurd earlier (Position.lt_irrefl _)
      · exact ⟨m, u, before, again, after, pass, evidence, sub.subset mem, saved, sub'.subset mem'⟩

/-- One item a batch, two batches at a time: the call for the first version of an item is in flight
while a later version is added, and read as soon as the other call has come back. -/
def overtaken : List (Nat × Event Nat) := [
  (0, .save [⟨"a", .epoch, 1⟩, ⟨"b", .epoch, 1⟩] none), (0, .note),
  (0, .start .zero), (0, .turn), (0, .openPass),
  (0, .read none), (0, .prechecked 0 (.ok false)), (0, .read none), (0, .prechecked 1 (.ok false)),
  (1, .save [⟨"a", later, 2⟩] none), (1, .note),
  (5, .handled 1 (.ok none)), (5, .verified 1 (.ok true)), (5, .removed 1 none), (5, .collect 1),
  (5, .read none), (5, .prechecked 2 (.ok false))]

/-- Two calls in flight carry the same id. -/
theorem one_id_twice_in_flight : ∃ p p' : Pool Nat,
    new { chunkSize := 1, concurrency := 2 } = .ok p ∧ p.run overtaken = some p' ∧
      p'.batch? 0 = some (.handling [⟨"a", .epoch, 1⟩]) ∧
      p'.batch? 2 = some (.handling [⟨"a", later, 2⟩]) :=
  ⟨_, _, rfl, rfl, rfl, rfl⟩

theorem calls_in_flight_overtaken : ∃ p p' : Pool Nat,
    new { chunkSize := 1, concurrency := 2 } = .ok p ∧ p.run overtaken = some p' ∧
      Instant.epoch < later ∧ ∃ m u before again after, p.LatestPass overtaken m u ∧
        [.read 0 before, .saved again, .read 2 after].Sublist (m.journal u) ∧
        ⟨"a", later, 2⟩ ∈ again := by
  refine ⟨_, _, rfl, rfl, ?_⟩
  have result := calls_in_flight (c := { chunkSize := 1, concurrency := 2 }) (t := overtaken)
    rfl rfl (show batch? _ 0 = some (.handling [⟨"a", .epoch, 1⟩]) from rfl)
  obtain ⟨-, time, m, u, before, again, after, pass, evidence, -, saved, -⟩ :=
    result.2 2 [⟨"a", later, 2⟩] ⟨"a", .epoch, 1⟩ ⟨"a", later, 2⟩ (by decide) rfl
      List.mem_cons_self List.mem_cons_self rfl
  exact ⟨time, m, u, before, again, after, pass, evidence, saved⟩

end Pool
end ChainFetch.Work
