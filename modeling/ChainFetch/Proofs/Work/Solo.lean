import ChainFetch.Proofs.Work.Journal
/-!
Each batch of a pass runs by itself. Its stage comes from its items and from the answers that were
its own, whatever happens to the batches beside it and to the reads. Main statements:
`draining_cases`, what an event makes of a pass that is under way, and `solo_step`, by which a batch
is at every time where its own answers have brought it.
-/

namespace ChainFetch.Work

variable {α : Type}

namespace Event

def batch? : Event α → Option Nat
  | .prechecked k _ => some k
  | .cleared k _ => some k
  | .handled k _ => some k
  | .verified k _ => some k
  | .removed k _ => some k
  | _ => none

def fault? : Event α → Option StoreFailure
  | .read fault => fault
  | .cleared _ fault => fault
  | .removed _ fault => fault
  | _ => none

end Event

def answersTo (k : Nat) (t : List (Nat × Event α)) : List (Event α) :=
  (t.map Prod.snd).filter (·.batch? = some k)

theorem answersTo_concat_self {k : Nat} {t : List (Nat × Event α)} {now : Nat} {e : Event α}
    (own : e.batch? = some k) : answersTo k (t ++ [(now, e)]) = answersTo k t ++ [e] := by
  simp [answersTo, List.filter_append, own]

theorem answersTo_concat_other {k : Nat} {t : List (Nat × Event α)} {now : Nat} {e : Event α}
    (other : e.batch? ≠ some k) : answersTo k (t ++ [(now, e)]) = answersTo k t := by
  simp [answersTo, List.filter_append, other]

namespace Batch

variable {b b' : Batch α} {e : Event α} {f : StoreFailure}

def take? : Batch α → Event α → Option (Batch α)
  | .checking (i :: unchecked) satisfied remaining, .prechecked _ a =>
    some (.prechecked i unchecked satisfied remaining a)
  | .clearing _ _, .cleared _ (some f) => some (.done (.error (.store f)))
  | .clearing _ remaining, .cleared _ none => some (.handle remaining)
  | .handling items, .handled _ a => some (.handled items a)
  | .verifying (i :: unverified) completed report, .verified _ a =>
    some (.verified i unverified completed report a)
  | .removing _ _, .removed _ (some f) => some (.done (.error (.store f)))
  | .removing _ report, .removed _ none => some (.done (.ok report))
  | _, _ => none

def play (b : Batch α) (es : List (Event α)) : Option (Batch α) := es.foldlM take? b

theorem play_concat {es : List (Event α)} (played : b.play es = some b') :
    b.play (es ++ [e]) = b'.take? e := by
  rw [play, List.foldlM_append, ← play, played]
  simp

def Failed (b : Batch α) : Prop := ∃ f, b = .done (.error f)

theorem not_failed_handle (items : List (Item α)) : ¬ (handle items).Failed := by
  cases items <;> rintro ⟨f, ⟨⟩⟩

theorem not_failed_check (unchecked : List (Item α)) (satisfied : List Position)
    (remaining : List (Item α)) : ¬ (check unchecked satisfied remaining).Failed := by
  cases unchecked with
  | cons i unchecked => rintro ⟨f, ⟨⟩⟩
  | nil =>
    cases satisfied with
    | nil => exact not_failed_handle remaining
    | cons p satisfied => rintro ⟨f, ⟨⟩⟩

theorem not_failed_verify (unverified : List (Item α)) (completed : List Position)
    (report : Report) : ¬ (verify unverified completed report).Failed := by
  cases unverified with
  | cons i unverified => rintro ⟨f, ⟨⟩⟩
  | nil => cases completed <;> rintro ⟨f, ⟨⟩⟩

theorem take?_cases (taken : b.take? e = some b') :
    (e.fault? = none ∧ ¬ b'.Failed ∧ ¬ b.Failed) ∨
      (∃ f, e.fault? = some f ∧ b' = .done (.error (.store f)) ∧ ¬ b.Failed) := by
  unfold take? at taken
  split at taken
  · rename_i a
    cases taken
    refine Or.inl ⟨rfl, ?_, by rintro ⟨f, ⟨⟩⟩⟩
    rcases a with e | satisfies
    · exact not_failed_check _ _ _
    · cases satisfies
      · exact not_failed_check _ _ _
      · exact not_failed_check _ _ _
  · cases taken
    exact Or.inr ⟨_, rfl, rfl, by rintro ⟨f, ⟨⟩⟩⟩
  · cases taken
    exact Or.inl ⟨rfl, not_failed_handle _, by rintro ⟨f, ⟨⟩⟩⟩
  · rename_i a
    cases taken
    refine Or.inl ⟨rfl, ?_, by rintro ⟨f, ⟨⟩⟩⟩
    rcases a with e | hint
    · rintro ⟨f, ⟨⟩⟩
    · exact not_failed_verify _ _ _
  · rename_i a
    cases taken
    refine Or.inl ⟨rfl, ?_, by rintro ⟨f, ⟨⟩⟩⟩
    rcases a with e | complete
    · exact not_failed_verify _ _ _
    · cases complete
      · exact not_failed_verify _ _ _
      · exact not_failed_verify _ _ _
  · cases taken
    exact Or.inr ⟨_, rfl, rfl, by rintro ⟨f, ⟨⟩⟩⟩
  · cases taken
    refine Or.inl ⟨rfl, ?_, by rintro ⟨f, ⟨⟩⟩⟩
    rintro ⟨f, ⟨⟩⟩
  · cases taken

def Waiting : Batch α → Prop
  | .checking unchecked _ _ => unchecked ≠ []
  | .verifying unverified _ _ => unverified ≠ []
  | _ => True

theorem waiting_handle (items : List (Item α)) : (handle items).Waiting := by
  cases items <;> trivial

theorem waiting_check (unchecked : List (Item α)) (satisfied : List Position)
    (remaining : List (Item α)) : (check unchecked satisfied remaining).Waiting := by
  cases unchecked with
  | cons i unchecked => exact List.cons_ne_nil i unchecked
  | nil =>
    cases satisfied with
    | nil => exact waiting_handle remaining
    | cons p satisfied => trivial

theorem waiting_verify (unverified : List (Item α)) (completed : List Position)
    (report : Report) : (verify unverified completed report).Waiting := by
  cases unverified with
  | cons i unverified => exact List.cons_ne_nil i unverified
  | nil => cases completed <;> trivial

theorem waiting_of_take? (taken : b.take? e = some b') : b'.Waiting := by
  unfold take? at taken
  split at taken
  · rename_i a
    cases taken
    rcases a with e | satisfies
    · exact waiting_check _ _ _
    · cases satisfies
      · exact waiting_check _ _ _
      · exact waiting_check _ _ _
  · cases taken
    trivial
  · cases taken
    exact waiting_handle _
  · rename_i a
    cases taken
    rcases a with e | hint
    · trivial
    · exact waiting_verify _ _ _
  · rename_i a
    cases taken
    rcases a with e | complete
    · exact waiting_verify _ _ _
    · cases complete
      · exact waiting_verify _ _ _
      · exact waiting_verify _ _ _
  · cases taken
    trivial
  · cases taken
    trivial
  · cases taken

end Batch

namespace Drain

variable {d d' : Drain α} {q : Queue α} {chunk : Nat} {fault : Option StoreFailure}

theorem isSome_read (d : Drain α) (q : Queue α) (chunk : Nat) (fault : Option StoreFailure) :
    (d.read q chunk fault).isSome = d.window.isOpen := by
  have pulls : ∀ op, (d.window.pull? op).isSome = d.window.isOpen := by
    intro op
    unfold Window.pull?
    split <;> simp_all
  have closes : d.window.close?.isSome = d.window.isOpen := by
    unfold Window.close?
    split <;> simp_all
  unfold read
  split
  · rw [Option.isSome_map, closes]
  · split
    · rw [Option.isSome_map, pulls]
    · dsimp only
      split
      · rw [Option.isSome_map, closes]
      · rw [Option.isSome_map, pulls]

end Drain

namespace Pool

variable {p p' m s s' : Pool α} {now k : Nat} {e : Event α} {d : Drain α}
  {t u v : List (Nat × Event α)}

/-! ## One event of a pass -/

/-- An answer takes the batch on that it is for, as it would take it on by itself. A removal that
fails leaves the queue as it is. -/
theorem step_answer (own : e.batch? = some k) (h : p.step now e = some p') :
    ∃ d b b', p.pass = some (.draining d) ∧ d.window.get? k = some b ∧ b.take? e = some b' ∧
      p'.pass = some (.draining (d.put k b')) ∧ (e.fault?.isSome → p'.queue = p.queue) := by
  cases e with
  | prechecked =>
    cases own
    obtain ⟨d, i, unchecked, satisfied, remaining, draining, found, rfl⟩ := prechecked_cases h
    exact ⟨d, _, _, draining, found, rfl, rfl, by simp [Event.fault?]⟩
  | cleared =>
    cases own
    obtain ⟨d, satisfied, remaining, draining, found, ⟨rfl, rfl⟩ | ⟨f, rfl, rfl⟩⟩ :=
      cleared_cases h
    · exact ⟨d, _, _, draining, found, rfl, rfl, by simp [Event.fault?]⟩
    · exact ⟨d, _, _, draining, found, rfl, rfl, fun _ => rfl⟩
  | handled =>
    cases own
    obtain ⟨d, items, draining, found, rfl⟩ := handled_cases h
    exact ⟨d, _, _, draining, found, rfl, rfl, by simp [Event.fault?]⟩
  | verified =>
    cases own
    obtain ⟨d, i, unverified, completed, report, draining, found, rfl⟩ := verified_cases h
    exact ⟨d, _, _, draining, found, rfl, rfl, by simp [Event.fault?]⟩
  | removed =>
    cases own
    obtain ⟨d, completed, report, draining, found, ⟨rfl, rfl⟩ | ⟨f, rfl, rfl⟩⟩ := removed_cases h
    · exact ⟨d, _, _, draining, found, rfl, rfl, by simp [Event.fault?]⟩
    · exact ⟨d, _, _, draining, found, rfl, rfl, fun _ => rfl⟩
  | _ => cases own

theorem isSome_step_answer (own : e.batch? = some k) :
    (p.step now e).isSome ↔ ∃ b, p.batch? k = some b ∧ (b.take? e).isSome := by
  constructor
  · intro accepted
    obtain ⟨p', stepped⟩ := Option.isSome_iff_exists.mp accepted
    obtain ⟨d, b, b', draining, found, taken, -⟩ := step_answer own stepped
    exact ⟨b, (batch?_eq draining).trans found, by simp [taken]⟩
  · rintro ⟨b, found, taken⟩
    obtain ⟨d, under, found⟩ := Option.bind_eq_some_iff.mp found
    obtain ⟨b', taken⟩ := Option.isSome_iff_exists.mp taken
    unfold Batch.take? at taken
    split at taken
    · cases own
      simp [step, answer, Drain.advance, under, found]
    · cases own
      simp [step, answerRemoval, under, found]
    · cases own
      simp [step, answerRemoval, under, found]
    · cases own
      simp [step, answer, Drain.advance, under, found]
    · cases own
      simp [step, answer, Drain.advance, under, found]
    · cases own
      simp [step, answerRemoval, under, found]
    · cases own
      simp [step, answerRemoval, under, found]
    · cases taken

/-- What an event makes of a pass that is under way: an answer takes its batch on, a read ends the
reads, or fails, or gives a batch, a batch at its end is collected, the pass closes, or the event is
not of the pass. -/
inductive Draining (p : Pool α) (d : Drain α) : Event α → Pool α → Prop
  | answer (e : Event α) (k : Nat) (b b' : Batch α) (p' : Pool α) (own : e.batch? = some k)
      (found : d.window.get? k = some b) (taken : b.take? e = some b')
      (draining : p'.pass = some (.draining (d.put k b'))) : Draining p d e p'
  | shut (fault : Option StoreFailure) (entry : p.record? (.read fault) = none)
      (failed : fault.isSome → d.readFailed = true) :
      Draining p d (.read fault)
        (p.setDrain { d with window := { d.window with exhausted := true } })
  | unread (f : StoreFailure) (entry : p.record? (.read (some f)) = some .readFailed) :
      Draining p d (.read (some f)) (p.setDrain { d with
        readFailed := true
        window := { d.window with
          pulled := d.window.pulled + 1
          running := d.window.running ++ [(d.window.pulled, .done (.error (.store f)))] } })
  | batch (items : List (Item α)) (position : Option Position)
      (entry : p.record? (.read none) = some (.read d.window.pulled items)) :
      Draining p d (.read none) (p.setDrain { d with
        position := position
        window := { d.window with
          pulled := d.window.pulled + 1
          running := d.window.running ++ [(d.window.pulled, .start items)] } })
  | collect (k : Nat) (result : Except Failure Report)
      (found : d.window.get? k = some (.done result)) :
      Draining p d (.collect k) (p.setDrain { d with
        window := { d.window with
          running := d.window.running.filter (·.1 ≠ k)
          outputs := d.window.outputs ++ [(k, result)] } })
  | close (p' : Pool α) (done : d.window.isDone = true) (closed : p'.drain? = none) :
      Draining p d .closePass p'
  | other (e : Event α) (p' : Pool α) (foreign : e.batch? = none) (quiet : e.fault? = none)
      (reads : ∀ fault, e ≠ .read fault) (same : p'.pass = p.pass) : Draining p d e p'

theorem draining_of_answer (draining : p.pass = some (.draining d)) (own : e.batch? = some k)
    (h : p.step now e = some p') : Draining p d e p' := by
  obtain ⟨d₀, b, b', same, found, taken, after, -⟩ := step_answer own h
  cases draining.symm.trans same
  exact .answer e k b b' p' own found taken after

theorem draining_of_read {fault : Option StoreFailure} (draining : p.pass = some (.draining d))
    (h : p.step now (.read fault) = some p') : Draining p d (.read fault) p' := by
  obtain ⟨d₀, d', same, reads, rfl⟩ := read_cases h
  cases draining.symm.trans same
  have record : p.record? (.read fault) =
      d.recordRead? p.queue p.config.chunkSize.toNat fault := by
    rw [record?, drain?_eq_some_iff.mpr draining, Option.bind_some]
  rcases Drain.entry_of_read reads with ⟨entry, ended, w, closed, rfl⟩ |
    ⟨f, w, entry, rfl, pulled, rfl⟩ | ⟨last, w, entry, rfl, -, -, pulled, rfl⟩
  · obtain ⟨-, rfl⟩ := Window.close?_cases closed
    refine .shut fault (record.trans entry) fun fails => ?_
    rcases ended with failed | ⟨rfl, -⟩
    · exact failed
    · cases fails
  · obtain ⟨-, rfl⟩ := Window.pull?_cases pulled
    exact .unread f (record.trans entry)
  · obtain ⟨-, rfl⟩ := Window.pull?_cases pulled
    exact .batch _ _ (record.trans entry)

theorem draining_of_collect (draining : p.pass = some (.draining d))
    (h : p.step now (.collect k) = some p') : Draining p d (.collect k) p' := by
  obtain ⟨d₀, d', same, collects, rfl⟩ := collect_cases h
  cases draining.symm.trans same
  obtain ⟨result, w, found, completed, rfl⟩ := Drain.collect_cases collects
  rw [Window.complete?_cases completed]
  exact .collect k result found

theorem draining_cases (sound : p.Sound) (draining : p.pass = some (.draining d))
    (h : p.step now e = some p') : Draining p d e p' := by
  cases e with
  | read fault => exact draining_of_read draining h
  | prechecked | cleared | handled | verified | removed => exact draining_of_answer draining rfl h
  | collect k => exact draining_of_collect draining h
  | closePass =>
    obtain ⟨d₀, same, done, ⟨_, -, rfl⟩ | ⟨_, -, rfl⟩⟩ := closePass_cases h
    all_goals cases draining.symm.trans same
    · exact .close _ done rfl
    · exact .close _ done rfl
  | _ => exact .other _ p' rfl rfl (by simp) (pass_of_foreign sound draining rfl h)

theorem draining_of_step (other : e ≠ .openPass) (h : p.step now e = some p')
    (after : p'.pass = some (.draining d)) : ∃ d', p.pass = some (.draining d') := by
  cases under : p.drain? with
  | some d' => exact ⟨d', drain?_eq_some_iff.mp under⟩
  | none =>
    have still := (idle_of_step under other h).1
    rw [drain?_eq_some_iff.mpr after] at still
    cases still

theorem read_of_record {n : Nat} {items : List (Item α)}
    (record : p.record? e = some (.read n items)) : e = .read none := by
  rcases record?_cases record with ⟨_, _, -, ⟨⟩⟩ | ⟨fault, d, rfl, -, entry⟩ |
    ⟨_, _, _, -, ⟨⟩⟩ | ⟨_, _, _, -, ⟨⟩⟩ | ⟨_, _, _, -, ⟨⟩⟩
  cases fault with
  | none => rfl
  | some f =>
    unfold Drain.recordRead? at entry
    split at entry <;> cases entry

theorem journal_concat (ran : p.run t = some s) (now : Nat) (e : Event α) :
    p.journal (t ++ [(now, e)]) = p.journal t ++ (s.record? e).toList :=
  filterMap_labels_concat ran now e

/-- What one step of a pass keeps, of the events since its opening and the pool that they lead to,
holds throughout the pass. -/
theorem pass_history {P : List (Nat × Event α) → Pool α → Prop}
    (keeps : ∀ {v now e s s'}, m.run v = some s → P v s → e ≠ .openPass →
      s.step now e = some s' → P (v ++ [(now, e)]) s')
    (start : P [] m) (ran : m.run v = some s) (one : ∀ x ∈ v, x.2 ≠ .openPass) : P v s := by
  refine after_history (P := fun v s => (∀ x ∈ v, x.2 ≠ .openPass) → P v s) ?_ (fun _ => start)
    ran one
  intro v now e s s' ran holds stepped one
  have before : ∀ x ∈ v, x.2 ≠ .openPass := fun x mem => one x (List.mem_append_left _ mem)
  have here : e ≠ .openPass := one (now, e) (List.mem_append_right _ List.mem_cons_self)
  exact keeps ran (holds before) here stepped

/-! ## A batch by itself -/

end Pool

namespace Drain

variable {d d' : Drain α} {j : List (Entry α)} {v : List (Nat × Event α)}

/-- Every batch of a pass is where its own answers have brought it: those in flight at their stage,
the others at their end, which is among the outputs. -/
structure Solo (j : List (Entry α)) (v : List (Nat × Event α)) (d : Drain α) : Prop where
  running : ∀ n b items, (n, b) ∈ d.window.running → .read n items ∈ j →
    (Batch.start items).play (answersTo n v) = some b
  kept : ∀ n items, .read n items ∈ j → (∃ b, (n, b) ∈ d.window.running) ∨
    ∃ result, (n, result) ∈ d.window.outputs ∧
      (Batch.start items).play (answersTo n v) = some (.done result)
  fresh : ∀ n, d.window.pulled ≤ n → answersTo n v = [] ∧ ∀ items, .read n items ∉ j

theorem solo_new (concurrency : Nat) : (new concurrency : Drain α).Solo [] [] where
  running n b items running := by cases running
  kept n items read := by cases read
  fresh n _ := ⟨rfl, fun items read => by cases read⟩

variable {j' : List (Entry α)} {v' : List (Nat × Event α)} {now k : Nat} {e : Event α}
  {b b' : Batch α} {result : Except Failure Report}

theorem Solo.keep (h : d.Solo j v) (running : d'.window.running = d.window.running)
    (outputs : d'.window.outputs = d.window.outputs) (pulled : d'.window.pulled = d.window.pulled)
    (same : ∀ n, answersTo n v' = answersTo n v)
    (reads : ∀ n items, .read n items ∈ j' → .read n items ∈ j) : d'.Solo j' v' := by
  refine ⟨fun n b items mem read => ?_, fun n items read => ?_, fun n unpulled => ?_⟩
  · rw [same n]
    exact h.running n b items (running ▸ mem) (reads n items read)
  · rw [same n, running, outputs]
    exact h.kept n items (reads n items read)
  · rw [same n]
    have fresh := h.fresh n (pulled ▸ unpulled)
    exact ⟨fresh.1, fun items read => fresh.2 items (reads n items read)⟩

theorem Solo.put (h : d.Solo j v) (numbered : d.window.Numbered) (own : e.batch? = some k)
    (found : d.window.get? k = some b) (taken : b.take? e = some b')
    (reads : ∀ n items, .read n items ∈ j' → .read n items ∈ j) :
    (d.put k b').Solo j' (v ++ [(now, e)]) := by
  have flies := numbered.get?_eq_some_iff.mp found
  have others : ∀ n, n ≠ k → answersTo n (v ++ [(now, e)]) = answersTo n v := fun n other =>
    answersTo_concat_other (by rw [own]; exact fun same => other (Option.some.inj same).symm)
  refine ⟨fun n c items running read => ?_, fun n items read => ?_, fun n unpulled => ?_⟩
  · rcases (numbered.mem_running_set found).mp running with moved | ⟨other, same⟩
    · cases moved
      rw [answersTo_concat_self own]
      exact (Batch.play_concat (h.running k b items flies (reads k items read))).trans taken
    · rw [others n other]
      exact h.running n c items same (reads n items read)
  · by_cases same : n = k
    · subst same
      exact Or.inl ⟨b', (numbered.mem_running_set found).mpr (Or.inl rfl)⟩
    · rw [others n same]
      rcases h.kept n items (reads n items read) with ⟨c, running⟩ | output
      · exact Or.inl ⟨c, (numbered.mem_running_set found).mpr (Or.inr ⟨same, running⟩)⟩
      · exact Or.inr output
  · have given := numbered.pulled _ flies
    have unpulled : d.window.pulled ≤ n := unpulled
    have other : n ≠ k := fun same => by subst same; omega
    rw [others n other]
    exact ⟨(h.fresh n unpulled).1, fun items read =>
      (h.fresh n unpulled).2 items (reads n items read)⟩

theorem Solo.pull (h : d.Solo j v) (numbered : d.window.Numbered)
    (window : d'.window = { d.window with
      pulled := d.window.pulled + 1, running := d.window.running ++ [(d.window.pulled, b)] })
    (same : ∀ n, answersTo n v' = answersTo n v)
    (reads : ∀ n items, .read n items ∈ j' →
      .read n items ∈ j ∨ n = d.window.pulled ∧ b = .start items) : d'.Solo j' v' := by
  have first := h.fresh d.window.pulled (Nat.le_refl _)
  refine ⟨fun n c items running read => ?_, fun n items read => ?_, fun n unpulled => ?_⟩
  · rw [same n]
    rw [window] at running
    rcases List.mem_append.mp running with before | new
    · rcases reads n items read with read | ⟨rfl, -⟩
      · exact h.running n c items before read
      · exact absurd (numbered.pulled _ before) (Nat.lt_irrefl _)
    · cases List.mem_singleton.mp new
      rcases reads _ items read with read | ⟨-, rfl⟩
      · exact absurd read (first.2 items)
      · rw [first.1]
        rfl
  · rw [same n, window]
    rcases reads n items read with read | ⟨rfl, -⟩
    · rcases h.kept n items read with ⟨c, running⟩ | output
      · exact Or.inl ⟨c, List.mem_append_left _ running⟩
      · exact Or.inr output
    · exact Or.inl ⟨b, List.mem_append_right _ List.mem_cons_self⟩
  · rw [same n]
    rw [window] at unpulled
    have fresh := h.fresh n (Nat.le_of_succ_le unpulled)
    refine ⟨fresh.1, fun items read => ?_⟩
    rcases reads n items read with read | ⟨rfl, -⟩
    · exact fresh.2 items read
    · exact absurd unpulled (Nat.not_succ_le_self _)

theorem Solo.collect (h : d.Solo j v) (numbered : d.window.Numbered)
    (found : d.window.get? k = some (.done result))
    (window : d'.window = { d.window with
      running := d.window.running.filter (·.1 ≠ k), outputs := d.window.outputs ++ [(k, result)] })
    (same : ∀ n, answersTo n v' = answersTo n v)
    (reads : ∀ n items, .read n items ∈ j' → .read n items ∈ j) : d'.Solo j' v' := by
  have flies := numbered.get?_eq_some_iff.mp found
  refine ⟨fun n c items running read => ?_, fun n items read => ?_, fun n unpulled => ?_⟩
  · rw [same n]
    rw [window] at running
    exact h.running n c items (List.mem_filter.mp running).1 (reads n items read)
  · rw [same n, window]
    rcases h.kept n items (reads n items read) with ⟨c, running⟩ | ⟨result', output, played⟩
    · by_cases here : n = k
      · subst here
        refine Or.inr ⟨result, List.mem_append_right _ List.mem_cons_self, ?_⟩
        exact h.running n _ items flies (reads n items read)
      · exact Or.inl ⟨c, List.mem_filter.mpr ⟨running, by simpa using here⟩⟩
    · exact Or.inr ⟨result', List.mem_append_left _ output, played⟩
  · rw [same n]
    rw [window] at unpulled
    have fresh := h.fresh n unpulled
    exact ⟨fresh.1, fun items read => fresh.2 items (reads n items read)⟩

end Drain

namespace Pool

variable {p p' m s s' : Pool α} {now k : Nat} {e : Event α} {d d' : Drain α}
  {t u v : List (Nat × Event α)} {j : List (Entry α)}

theorem solo_step (sound : p.Sound) (draining : p.pass = some (.draining d))
    (h : d.Solo j v) (stepped : p.step now e = some p') (after : p'.pass = some (.draining d')) :
    d'.Solo (j ++ (p.record? e).toList) (v ++ [(now, e)]) := by
  have numbered := sound.numbered d draining
  have unread : e ≠ .read none → ∀ n items, .read n items ∈ j ++ (p.record? e).toList →
      .read n items ∈ j := by
    intro other n items mem
    rcases List.mem_append.mp mem with before | here
    · exact before
    · exact absurd (read_of_record (Option.mem_toList.mp here)) other
  have foreign : e.batch? = none → ∀ n, answersTo n (v ++ [(now, e)]) = answersTo n v :=
    fun none n => answersTo_concat_other (by simp [none])
  cases draining_cases sound draining stepped with
  | answer _ k b b' _ own found taken going =>
    cases after.symm.trans going
    exact h.put numbered own found taken (unread (by rintro rfl; cases own))
  | shut fault entry failed =>
    cases after
    refine h.keep rfl rfl rfl (foreign rfl) fun n items mem => ?_
    rw [entry] at mem
    simpa using mem
  | unread f entry =>
    cases after
    refine h.pull numbered rfl (foreign rfl) fun n items mem => Or.inl ?_
    rw [entry] at mem
    simpa using mem
  | batch items position entry =>
    cases after
    refine h.pull numbered rfl (foreign rfl) fun n items' mem => ?_
    rw [entry] at mem
    rcases List.mem_append.mp mem with before | new
    · exact Or.inl before
    · cases List.mem_singleton.mp new
      exact Or.inr ⟨rfl, rfl⟩
  | collect k result found =>
    cases after
    exact h.collect numbered found rfl (foreign rfl) (unread (by simp))
  | close _ done closed =>
    rw [drain?_eq_some_iff.mpr after] at closed
    cases closed
  | other _ _ none quiet reads pass =>
    cases after.symm.trans (pass.trans draining)
    exact h.keep rfl rfl rfl (foreign none) (unread (reads _))

end Pool

/-! ## Where a batch stands -/

namespace Drain

def At (d : Drain α) (n : Nat) (b : Batch α) : Prop :=
  (n, b) ∈ d.window.running ∨ ∃ result, b = .done result ∧ (n, result) ∈ d.window.outputs

variable {d d' : Drain α} {n k : Nat} {b b' c : Batch α}

theorem at_put (numbered : d.window.Numbered) (found : d.window.get? k = some b)
    (apart : ∀ result, (k, result) ∉ d.window.outputs) :
    (d.put k b').At n c ↔ (n = k ∧ c = b') ∨ (n ≠ k ∧ d.At n c) := by
  constructor
  · rintro (running | ⟨result, rfl, output⟩)
    · rcases (numbered.mem_running_set found).mp running with moved | ⟨other, same⟩
      · cases moved
        exact Or.inl ⟨rfl, rfl⟩
      · exact Or.inr ⟨other, Or.inl same⟩
    · refine Or.inr ⟨?_, Or.inr ⟨result, rfl, output⟩⟩
      rintro rfl
      exact apart result output
  · rintro (⟨rfl, rfl⟩ | ⟨other, running | output⟩)
    · exact Or.inl ((numbered.mem_running_set found).mpr (Or.inl rfl))
    · exact Or.inl ((numbered.mem_running_set found).mpr (Or.inr ⟨other, running⟩))
    · exact Or.inr output

theorem at_pull (window : d'.window = { d.window with
      pulled := d.window.pulled + 1, running := d.window.running ++ [(d.window.pulled, b)] }) :
    d'.At n c ↔ (n = d.window.pulled ∧ c = b) ∨ d.At n c := by
  rw [At, At, window, List.mem_append, List.mem_singleton, Prod.mk.injEq]
  constructor
  · rintro ((running | new) | output)
    · exact Or.inr (Or.inl running)
    · exact Or.inl new
    · exact Or.inr (Or.inr output)
  · rintro (new | running | output)
    · exact Or.inl (Or.inr new)
    · exact Or.inl (Or.inl running)
    · exact Or.inr output

theorem at_collect {result : Except Failure Report} (numbered : d.window.Numbered)
    (found : d.window.get? k = some (.done result))
    (window : d'.window = { d.window with
      running := d.window.running.filter (·.1 ≠ k)
      outputs := d.window.outputs ++ [(k, result)] }) : d'.At n c ↔ d.At n c := by
  have flies := numbered.get?_eq_some_iff.mp found
  rw [At, At, window]
  constructor
  · rintro (running | ⟨result', rfl, output⟩)
    · exact Or.inl (List.mem_filter.mp running).1
    · rcases List.mem_append.mp output with before | new
      · exact Or.inr ⟨result', rfl, before⟩
      · cases List.mem_singleton.mp new
        exact Or.inl flies
  · rintro (running | ⟨result', rfl, output⟩)
    · by_cases here : n = k
      · subst here
        cases numbered.eq_of_mem flies running
        exact Or.inr ⟨result, rfl, List.mem_append_right _ List.mem_cons_self⟩
      · exact Or.inl (List.mem_filter.mpr ⟨running, by simpa using here⟩)
    · exact Or.inr ⟨result', rfl, List.mem_append_left _ output⟩

end Drain

/-! ## What has failed -/

namespace Drain

def Fails (d : Drain α) (n : Nat) (f : Failure) : Prop :=
  (n, .done (.error f)) ∈ d.window.running ∨ (n, .error f) ∈ d.window.outputs

/-- The failures in a pass are those of the store that it has met, and one that it has met is not
forgotten. -/
structure Faulted (v : List (Nat × Event α)) (d : Drain α) : Prop where
  caused : ∀ n f, d.Fails n f → ∃ x ∈ v, ∃ g, x.2.fault? = some g ∧ f = .store g
  noted : (d.readFailed = true ∨ ∃ x ∈ v, x.2.fault?.isSome) → ∃ n f, d.Fails n f

theorem faulted_new (concurrency : Nat) : (new concurrency : Drain α).Faulted [] where
  caused n f fails := by rcases fails with h | h <;> cases h
  noted met := by
    rcases met with failed | ⟨x, mem, -⟩
    · cases failed
    · cases mem

structure Lively (d : Drain α) : Prop where
  room : 1 ≤ d.window.limit
  waiting : ∀ n b, (n, b) ∈ d.window.running → b.Waiting

theorem lively_new (concurrency : Nat) : (new concurrency : Drain α).Lively where
  room := Window.one_le_limit_new concurrency
  waiting n b running := by cases running

variable {d d' : Drain α} {q : Queue α} {chunk n : Nat} {f : Failure} {fault : Option StoreFailure}
  {v : List (Nat × Event α)} {now k : Nat} {e : Event α} {b b' : Batch α}

theorem Faulted.cons_other (h : d.Faulted v) (same : ∀ n f, d'.Fails n f ↔ d.Fails n f)
    (failed : d'.readFailed = d.readFailed) (quiet : e.fault?.isSome → d.readFailed = true) :
    d'.Faulted (v ++ [(now, e)]) := by
  refine ⟨fun n f fails => ?_, fun met => ?_⟩
  · obtain ⟨x, mem, cause⟩ := h.caused n f ((same n f).mp fails)
    exact ⟨x, List.mem_append_left _ mem, cause⟩
  · have before : d.readFailed = true ∨ ∃ x ∈ v, x.2.fault?.isSome := by
      rcases met with met | ⟨x, mem, met⟩
      · exact Or.inl (failed ▸ met)
      · rcases List.mem_append.mp mem with mem | mem
        · exact Or.inr ⟨x, mem, met⟩
        · rw [List.mem_singleton.mp mem] at met
          exact Or.inl (quiet met)
    obtain ⟨n, f, fails⟩ := h.noted before
    exact ⟨n, f, (same n f).mpr fails⟩

theorem Faulted.cons_fault {g : StoreFailure} (h : d.Faulted v) (met : e.fault? = some g)
    (new : d'.Fails k (.store g))
    (only : ∀ n f, d'.Fails n f → d.Fails n f ∨ f = .store g) :
    d'.Faulted (v ++ [(now, e)]) := by
  refine ⟨fun n f fails => ?_, fun _ => ⟨k, _, new⟩⟩
  rcases only n f fails with before | rfl
  · obtain ⟨x, mem, cause⟩ := h.caused n f before
    exact ⟨x, List.mem_append_left _ mem, cause⟩
  · exact ⟨(now, e), List.mem_append_right _ List.mem_cons_self, g, met, rfl⟩

theorem fails_put (numbered : d.window.Numbered) (found : d.window.get? k = some b)
    (going : ¬ b.Failed) :
    (d.put k b').Fails n f ↔ (n = k ∧ b' = .done (.error f)) ∨ d.Fails n f := by
  have flies := numbered.get?_eq_some_iff.mp found
  constructor
  · rintro (running | output)
    · rcases (numbered.mem_running_set found).mp running with moved | ⟨-, same⟩
      · cases moved
        exact Or.inl ⟨rfl, rfl⟩
      · exact Or.inr (Or.inl same)
    · exact Or.inr (Or.inr output)
  · rintro (⟨rfl, rfl⟩ | running | output)
    · exact Or.inl ((numbered.mem_running_set found).mpr (Or.inl rfl))
    · have other : n ≠ k := by
        rintro rfl
        exact going ⟨f, numbered.eq_of_mem flies running⟩
      exact Or.inl ((numbered.mem_running_set found).mpr (Or.inr ⟨other, running⟩))
    · exact Or.inr output

theorem fails_iff_at : d.Fails n f ↔ d.At n (.done (.error f)) := by
  constructor
  · rintro (running | output)
    · exact Or.inl running
    · exact Or.inr ⟨_, rfl, output⟩
  · rintro (running | ⟨result, ⟨⟩, output⟩)
    · exact Or.inl running
    · exact Or.inr output

theorem fails_pull (window : d'.window = { d.window with
      pulled := d.window.pulled + 1, running := d.window.running ++ [(d.window.pulled, b)] }) :
    d'.Fails n f ↔ (n = d.window.pulled ∧ b = .done (.error f)) ∨ d.Fails n f := by
  rw [fails_iff_at, fails_iff_at, at_pull window, eq_comm (a := b)]

theorem fails_collect {result : Except Failure Report} (numbered : d.window.Numbered)
    (found : d.window.get? k = some (.done result))
    (window : d'.window = { d.window with
      running := d.window.running.filter (·.1 ≠ k)
      outputs := d.window.outputs ++ [(k, result)] }) :
    d'.Fails n f ↔ d.Fails n f := by
  rw [fails_iff_at, fails_iff_at, at_collect numbered found window]

end Drain

namespace Pool

variable {p p' m s s' : Pool α} {now k : Nat} {e : Event α} {d d' : Drain α}
  {t u v : List (Nat × Event α)} {j : List (Entry α)}

theorem lively_step (sound : p.Sound) (draining : p.pass = some (.draining d)) (h : d.Lively)
    (stepped : p.step now e = some p') (after : p'.pass = some (.draining d')) : d'.Lively := by
  have numbered := sound.numbered d draining
  have pulled : ∀ {b : Batch α}, b.Waiting →
      ∀ n c, (n, c) ∈ d.window.running ++ [(d.window.pulled, b)] → c.Waiting := by
    intro b waits n c running
    rcases List.mem_append.mp running with before | new
    · exact h.waiting n c before
    · cases List.mem_singleton.mp new
      exact waits
  cases draining_cases sound draining stepped with
  | answer _ k b b' _ own found taken going =>
    cases after.symm.trans going
    refine ⟨h.room, fun n c running => ?_⟩
    rcases (numbered.mem_running_set found).mp running with moved | ⟨-, same⟩
    · cases moved
      exact Batch.waiting_of_take? taken
    · exact h.waiting n c same
  | shut fault entry failed =>
    cases after
    exact ⟨h.room, h.waiting⟩
  | unread f entry =>
    cases after
    exact ⟨h.room, pulled trivial⟩
  | batch items position entry =>
    cases after
    exact ⟨h.room, pulled (Batch.waiting_check _ _ _)⟩
  | collect k result found =>
    cases after
    exact ⟨h.room, fun n c running => h.waiting n c (List.mem_filter.mp running).1⟩
  | close _ done closed =>
    rw [drain?_eq_some_iff.mpr after] at closed
    cases closed
  | other _ _ foreign quiet reads pass =>
    cases after.symm.trans (pass.trans draining)
    exact h

theorem faulted_step (sound : p.Sound) (draining : p.pass = some (.draining d)) (h : d.Faulted v)
    (stepped : p.step now e = some p') (after : p'.pass = some (.draining d')) :
    d'.Faulted (v ++ [(now, e)]) := by
  have numbered := sound.numbered d draining
  cases draining_cases sound draining stepped with
  | answer _ k b b' _ own found taken going =>
    cases after.symm.trans going
    rcases Batch.take?_cases taken with ⟨quiet, fine, before⟩ | ⟨g, met, rfl, before⟩
    · refine h.cons_other (fun n f => ?_) rfl (by simp [quiet])
      rw [Drain.fails_put numbered found before]
      exact or_iff_right fun new => fine ⟨f, new.2⟩
    · refine h.cons_fault met ((Drain.fails_put numbered found before).mpr (Or.inl ⟨rfl, rfl⟩))
        fun n f fails => ?_
      rcases (Drain.fails_put numbered found before).mp fails with ⟨-, same⟩ | fails
      · cases same
        exact Or.inr rfl
      · exact Or.inl fails
  | shut fault entry failed =>
    cases after
    exact h.cons_other (fun n f => Iff.rfl) rfl failed
  | unread g entry =>
    cases after
    refine h.cons_fault rfl ((Drain.fails_pull rfl).mpr (Or.inl ⟨rfl, rfl⟩)) fun n f fails => ?_
    rcases (Drain.fails_pull rfl).mp fails with ⟨-, same⟩ | fails
    · cases same
      exact Or.inr rfl
    · exact Or.inl fails
  | batch items position entry =>
    cases after
    refine h.cons_other (fun n f => ?_) rfl (by simp [Event.fault?])
    rw [Drain.fails_pull rfl]
    exact or_iff_right fun new => Batch.not_failed_check items [] [] ⟨f, new.2⟩
  | collect k result found =>
    cases after
    exact h.cons_other (fun n f => Drain.fails_collect numbered found rfl) rfl
      (by simp [Event.fault?])
  | close _ done closed =>
    rw [drain?_eq_some_iff.mpr after] at closed
    cases closed
  | other _ _ foreign quiet reads pass =>
    cases after.symm.trans (pass.trans draining)
    exact h.cons_other (fun n f => Iff.rfl) rfl (by simp [quiet])

/-! ## A whole pass -/

/-- At every time of a pass its batches are where their own answers have brought them, its failures
are those that it has met, and each batch in flight has a next answer. -/
structure Settled (m : Pool α) (v : List (Nat × Event α)) (s : Pool α) : Prop where
  sound : s.Sound
  solo : ∀ d, s.pass = some (.draining d) → d.Solo (m.journal v) v
  faulted : ∀ d, s.pass = some (.draining d) → d.Faulted v
  lively : ∀ d, s.pass = some (.draining d) → d.Lively

theorem settled_of_pass (pass : p.LatestPass t m u) (sound : p.Sound) (ran : p.run t = some s) :
    m.Settled u s := by
  obtain ⟨soundly, -, opened, one⟩ := pass.opened sound
  refine pass_history ?_ ?_ (pass.run ran) one
  · intro v now e s s' reached h other stepped
    refine ⟨(moves_of_step stepped).sound h.sound, fun d' after => ?_, fun d' after => ?_,
      fun d' after => ?_⟩
    · obtain ⟨d, draining⟩ := draining_of_step other stepped after
      rw [journal_concat reached]
      exact solo_step h.sound draining (h.solo d draining) stepped after
    · obtain ⟨d, draining⟩ := draining_of_step other stepped after
      exact faulted_step h.sound draining (h.faulted d draining) stepped after
    · obtain ⟨d, draining⟩ := draining_of_step other stepped after
      exact lively_step h.sound draining (h.lively d draining) stepped after
  · refine ⟨soundly, fun d draining => ?_, fun d draining => ?_, fun d draining => ?_⟩
    · cases opened.symm.trans draining
      exact Drain.solo_new _
    · cases opened.symm.trans draining
      exact Drain.faulted_new _
    · cases opened.symm.trans draining
      exact Drain.lively_new _

end Pool
end ChainFetch.Work
