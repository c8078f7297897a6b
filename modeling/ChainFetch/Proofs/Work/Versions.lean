import ChainFetch.Proofs.Work.Moves
/-!
Which version of an item leaves the queue. A run is read together with the items that it shows to
the handler and the positions that it takes out. Main statements: `get?_run`, an item stays unless
its position is taken, and `mem_shown_of_mem_taken`, only the positions of items that were shown are
taken.
-/

namespace ChainFetch.Work

variable {α : Type}

namespace Event

/-- Whether a call of add or of remove changes what is queued under this id. -/
def Names (id : String) : Event α → Prop
  | .save items none => ∃ i ∈ items, i.id = id
  | .remove ids none => id ∈ ids
  | _ => False

end Event

namespace Batch

variable {b b' : Batch α} {shown new : List (Item α)} {taken : List Position}

def listed : Batch α → List Position
  | checking _ satisfied _ => satisfied
  | clearing satisfied _ => satisfied
  | verifying _ completed _ => completed
  | removing completed _ => completed
  | _ => []

def given : Batch α → List (Item α)
  | checking _ _ remaining => remaining
  | clearing _ remaining => remaining
  | handling items => items
  | verifying unverified _ _ => unverified
  | _ => []

theorem listed_handle (items : List (Item α)) : (handle items).listed = [] := by
  cases items <;> rfl

theorem given_handle (items : List (Item α)) : (handle items).given = items := by
  cases items <;> rfl

theorem listed_check (unchecked : List (Item α)) (satisfied : List Position)
    (remaining : List (Item α)) : (check unchecked satisfied remaining).listed = satisfied := by
  cases unchecked with
  | cons i unchecked => rfl
  | nil =>
    cases satisfied with
    | nil => exact listed_handle remaining
    | cons p satisfied => rfl

theorem given_check (unchecked : List (Item α)) (satisfied : List Position)
    (remaining : List (Item α)) : (check unchecked satisfied remaining).given = remaining := by
  cases unchecked with
  | cons i unchecked => rfl
  | nil =>
    cases satisfied with
    | nil => exact given_handle remaining
    | cons p satisfied => rfl

theorem listed_verify (unverified : List (Item α)) (completed : List Position)
    (report : Report) : (verify unverified completed report).listed = completed := by
  cases unverified with
  | cons i unverified => rfl
  | nil => cases completed <;> rfl

theorem given_verify (unverified : List (Item α)) (completed : List Position) (report : Report) :
    (verify unverified completed report).given = unverified := by
  cases unverified with
  | cons i unverified => rfl
  | nil => cases completed <;> rfl

/-- All that a batch will take out, or may yet decide to, was shown to the handler. -/
structure Accounts (shown : List (Item α)) (b : Batch α) : Prop where
  listed : ∀ r ∈ b.listed, r ∈ shown.map Item.position
  given : ∀ i ∈ b.given, i ∈ shown

theorem Accounts.append (h : b.Accounts shown) (new : List (Item α)) :
    b.Accounts (shown ++ new) := by
  refine ⟨?_, ?_⟩
  · intro r hr
    rw [List.map_append]
    exact List.mem_append_left _ (h.listed r hr)
  · intro i hi
    exact List.mem_append_left _ (h.given i hi)

theorem accounts_start (items : List (Item α)) : (start items).Accounts shown := by
  refine ⟨?_, ?_⟩
  · rw [start, listed_check]
    intro r hr
    cases hr
  · rw [start, given_check]
    intro i hi
    cases hi

theorem accounts_done (result : Except Failure Report) :
    (done result : Batch α).Accounts shown := by
  refine ⟨?_, ?_⟩
  · intro r hr
    cases hr
  · intro i hi
    cases hi

theorem Moves.taken_subset (m : Moves b new taken b') (h : b.Accounts shown) :
    ∀ r ∈ taken, r ∈ shown.map Item.position := by
  intro r hr
  cases m with
  | prechecked | handled | verified | failed => cases hr
  | cleared => exact h.listed r hr
  | removed => exact h.listed r hr

theorem Moves.accounts (m : Moves b new taken b') (h : b.Accounts shown) :
    b'.Accounts (shown ++ new) := by
  have older := h.append new
  cases m with
  | prechecked i unchecked satisfied remaining a =>
    have seen : i ∈ shown ++ [i] := List.mem_append_right _ List.mem_cons_self
    have postponed : (check unchecked satisfied (remaining ++ [i])).Accounts (shown ++ [i]) := by
      refine ⟨?_, ?_⟩
      · rw [listed_check]
        exact older.listed
      · rw [given_check]
        intro j hj
        rcases List.mem_append.mp hj with hj | hj
        · exact older.given j hj
        · rw [List.mem_singleton.mp hj]
          exact seen
    rcases a with e | satisfies
    · exact postponed
    · cases satisfies
      · exact postponed
      · refine ⟨?_, ?_⟩
        · rw [Batch.prechecked, listed_check]
          intro r hr
          rcases List.mem_append.mp hr with hr | hr
          · exact older.listed r hr
          · rw [List.mem_singleton.mp hr]
            exact List.mem_map_of_mem seen
        · rw [Batch.prechecked, given_check]
          exact older.given
  | cleared remaining =>
    refine ⟨?_, ?_⟩
    · rw [listed_handle]
      intro r hr
      cases hr
    · rw [given_handle]
      exact older.given
  | handled items a =>
    rcases a with e | hint
    · exact accounts_done _
    · refine ⟨?_, ?_⟩
      · rw [Batch.handled, listed_verify]
        intro r hr
        cases hr
      · rw [Batch.handled, given_verify]
        exact older.given
  | verified i unverified completed report a =>
    have undecided : ∀ j ∈ unverified, j ∈ shown ++ [] := by
      intro j hj
      exact older.given j (List.mem_cons_of_mem _ hj)
    have kept : (verify unverified completed { report with kept := report.kept + 1 }).Accounts
        (shown ++ []) := by
      refine ⟨?_, ?_⟩
      · rw [listed_verify]
        exact older.listed
      · rw [given_verify]
        exact undecided
    rcases a with e | complete
    · exact kept
    · cases complete
      · exact kept
      · refine ⟨?_, ?_⟩
        · rw [Batch.verified, listed_verify]
          intro r hr
          rcases List.mem_append.mp hr with hr | hr
          · exact older.listed r hr
          · rw [List.mem_singleton.mp hr]
            exact List.mem_map_of_mem (older.given i List.mem_cons_self)
        · rw [Batch.verified, given_verify]
          exact undecided
  | removed report => exact accounts_done _
  | failed e => exact accounts_done _

end Batch

namespace Pool

variable {p p' m : Pool α} {now : Nat} {e : Event α} {a : Act α} {id : String} {i : Item α}
  {seen : List (Item α)} {t u : List (Nat × Event α)}

namespace Act

def shown : Act α → List (Item α)
  | .batch shown _ => shown
  | _ => []

def taken : Act α → List Position
  | .batch _ taken => taken
  | _ => []

def Names (id : String) : Act α → Prop
  | .save items => ∃ i ∈ items, i.id = id
  | .remove ids => id ∈ ids
  | _ => False

end Act

theorem names_of_names_act (h : (p.act e).Names id) : e.Names id := by
  cases e with
  | save items fault =>
    cases items with
    | nil => cases h
    | cons i items =>
      cases fault with
      | none => exact h
      | some e => cases h
  | remove ids fault =>
    cases fault with
    | none => exact h
    | some e => cases h
  | prechecked k answer =>
    simp only [act] at h
    split at h <;> cases h
  | cleared k fault =>
    cases fault with
    | none =>
      simp only [act] at h
      split at h <;> cases h
    | some e => cases h
  | removed k fault =>
    cases fault with
    | none =>
      simp only [act] at h
      split at h <;> cases h
    | some e => cases h
  | _ => cases h

/-! ## What a run shows and takes -/

def acts (p : Pool α) (t : List (Nat × Event α)) : List (Act α) := labels step act p t

def shown (p : Pool α) (t : List (Nat × Event α)) : List (Item α) := (p.acts t).flatMap Act.shown

def taken (p : Pool α) (t : List (Nat × Event α)) : List Position := (p.acts t).flatMap Act.taken

theorem acts_cons (h : p.step now e = some m) : p.acts ((now, e) :: t) = p.act e :: m.acts t :=
  labels_cons h

theorem shown_append (h : p.run t = some m) : p.shown (t ++ u) = p.shown t ++ m.shown u := by
  rw [shown, acts, labels_append h, List.flatMap_append]
  rfl

/-! ## One step -/

theorem filter_not_mem_nil (found : Option (Item α)) :
    found.filter (·.position ∉ ([] : List Position)) = found := by
  cases found <;> simp [Option.filter]

/-- What is queued under an id that no call of add or remove is about stays there, unless the step
takes its position. -/
theorem Moves.get? (h : Moves now p a p') (sound : p.queue.Sound) (other : ¬ a.Names id) :
    p'.get? id = (p.get? id).filter (·.position ∉ a.taken) := by
  cases h with
  | save items =>
    rcases p.queue.get?_save items id with ⟨i, saved, named, -⟩ | ⟨-, same⟩
    · exact absurd ⟨i, saved, named⟩ other
    · change (p.queue.save items).get? id = _
      exact same.trans (filter_not_mem_nil _).symm
  | remove ids =>
    have absent : id ∉ ids := other
    change (p.queue.remove ids).get? id = _
    rw [Queue.get?_remove sound, if_neg absent]
    exact (filter_not_mem_nil _).symm
  | batch d k b b' shown taken draining found moves =>
    exact Queue.get?_removeDispatched sound taken id
  | _ => exact (filter_not_mem_nil _).symm

def Accounts (p : Pool α) (seen : List (Item α)) : Prop :=
  ∀ d, p.pass = some (.draining d) → ∀ n b, (n, b) ∈ d.window.running → b.Accounts seen

theorem Moves.accounts (h : Moves now p a p') (sound : p.Sound) (accounts : p.Accounts seen) :
    p'.Accounts (seen ++ a.shown) ∧ ∀ r ∈ a.taken, r ∈ seen.map Item.position := by
  cases h with
  | batch d k b b' new taken draining found moves =>
    have numbered := sound.numbered d draining
    have before := accounts d draining k b (numbered.get?_eq_some_iff.mp found)
    refine ⟨?_, moves.taken_subset before⟩
    rintro _ ⟨⟩ n c running
    rcases (numbered.mem_running_set found).mp running with moved | ⟨-, same⟩
    · cases moved
      exact moves.accounts before
    · exact (accounts d draining n c same).append new
  | read d d' fault draining reads =>
    refine ⟨?_, by simp [Act.taken]⟩
    simp only [Act.shown, List.append_nil]
    rintro _ ⟨⟩ n c running
    rcases Drain.read_cases reads with ⟨w, closed, rfl, -⟩ | ⟨w, e, pulled, rfl, -⟩ |
      ⟨w, last, -, pulled, -, rfl, -⟩
    · obtain ⟨-, rfl⟩ := Window.close?_cases closed
      exact accounts d draining n c running
    · obtain ⟨-, rfl⟩ := Window.pull?_cases pulled
      rcases List.mem_append.mp running with running | new
      · exact accounts d draining n c running
      · cases List.mem_singleton.mp new
        exact Batch.accounts_done _
    · obtain ⟨-, rfl⟩ := Window.pull?_cases pulled
      rcases List.mem_append.mp running with running | new
      · exact accounts d draining n c running
      · cases List.mem_singleton.mp new
        exact Batch.accounts_start _
  | collect d d' k draining collects =>
    refine ⟨?_, by simp [Act.taken]⟩
    simp only [Act.shown, List.append_nil]
    rintro _ ⟨⟩ n c running
    obtain ⟨result, w, -, completed, rfl⟩ := Drain.collect_cases collects
    rw [Window.complete?_cases completed] at running
    exact accounts d draining n c (List.mem_filter.mp running).1
  | openPass opening =>
    refine ⟨?_, by simp [Act.taken]⟩
    rintro _ ⟨⟩ n c running
    cases running
  | begin | closeFailed | close | passDone =>
    refine ⟨?_, by simp [Act.taken]⟩
    rintro _ ⟨⟩
  | _ =>
    refine ⟨?_, by simp [Act.taken]⟩
    simp only [Act.shown, List.append_nil]
    exact accounts

/-! ## A run -/

theorem sound_run (sound : p.Sound) (ran : p.run t = some p') : p'.Sound :=
  after_invariant (fun sound stepped => (moves_of_step stepped).sound sound) sound ran

theorem get?_run (sound : p.Sound) (ran : p.run t = some p')
    (other : ∀ x ∈ t, ¬ x.2.Names id) :
    p'.get? id = (p.get? id).filter (·.position ∉ p.taken t) := by
  induction t generalizing p with
  | nil =>
    cases ran
    exact (filter_not_mem_nil _).symm
  | cons x t ih =>
    obtain ⟨now, e⟩ := x
    obtain ⟨m, first, rest⟩ := after_cons_eq_some.mp ran
    have moved := moves_of_step first
    have here : ¬ (p.act e).Names id := fun named =>
      other (now, e) List.mem_cons_self (names_of_names_act named)
    rw [ih (moved.sound sound) rest fun x hx => other x (List.mem_cons_of_mem _ hx),
      moved.get? sound.queue here, Option.filter_filter, taken, taken, acts_cons first,
      List.flatMap_cons]
    congr 1
    funext i
    simp

theorem mem_shown_of_mem_taken (sound : p.Sound) (accounts : p.Accounts seen)
    (ran : p.run t = some p') :
    p'.Accounts (seen ++ p.shown t) ∧
      ∀ r ∈ p.taken t, r ∈ (seen ++ p.shown t).map Item.position := by
  induction t generalizing p seen with
  | nil =>
    cases ran
    have none : p'.shown [] = [] := rfl
    rw [none, List.append_nil]
    refine ⟨accounts, ?_⟩
    intro r hr
    cases hr
  | cons x t ih =>
    obtain ⟨now, e⟩ := x
    obtain ⟨m, first, rest⟩ := after_cons_eq_some.mp ran
    have moved := moves_of_step first
    obtain ⟨before, here⟩ := moved.accounts sound accounts
    obtain ⟨after, later⟩ := ih (moved.sound sound) before rest
    have shows : seen ++ p.shown ((now, e) :: t) = seen ++ (p.act e).shown ++ m.shown t := by
      rw [shown, acts_cons first, List.flatMap_cons, ← shown, List.append_assoc]
    rw [shows]
    refine ⟨after, ?_⟩
    intro r hr
    rw [taken, acts_cons first, List.flatMap_cons, List.mem_append] at hr
    rcases hr with hr | hr
    · rw [List.append_assoc, List.map_append]
      exact List.mem_append_left _ (here r hr)
    · exact later r hr

theorem accounts_of_new {c : Config} (made : new c = .ok p) : p.Accounts [] := by
  unfold new at made
  split at made
  · cases made
  · cases made
    rintro d ⟨⟩

/-- The newest version of an id, not shown to the handler, stays queued through a run exactly as
long as no pass takes out the position of another version that was shown, with the same id and the
same time. -/
theorem queued_iff_no_twin_taken {c : Config} (made : new c = .ok p) (ran : p.run t = some m)
    (queued : m.get? i.id = some i) (rest : m.run u = some p')
    (newest : ∀ x ∈ u, ¬ x.2.Names i.id) (unseen : i ∉ p.shown (t ++ u)) :
    p'.get? i.id = some i ↔
      ¬ ∃ j ∈ p.shown (t ++ u), j ≠ i ∧ j.id = i.id ∧ j.time = i.time ∧
        j.position ∈ m.taken u := by
  have sound := (sound_of_new made).1
  have left := get?_run (sound_run sound ran) rest newest
  rw [queued] at left
  constructor
  · rintro stays ⟨j, -, -, id, time, gone⟩
    rw [stays] at left
    have kept := (Option.filter_eq_some_iff.mp left.symm).2
    have twin : j.position = i.position := by rw [Item.position, Item.position, id, time]
    rw [twin] at gone
    simp only [decide_eq_true_eq] at kept
    exact kept gone
  · intro untouched
    rw [left, Option.filter_eq_some_iff]
    refine ⟨rfl, ?_⟩
    rw [decide_eq_true_eq]
    intro gone
    apply untouched
    have accounts := (mem_shown_of_mem_taken sound (accounts_of_new made) ran).1
    -- A pass takes out positions, and lists only those of items that it has shown.
    have listed := (mem_shown_of_mem_taken (sound_run sound ran) accounts rest).2 _ gone
    rw [List.nil_append, ← shown_append ran] at listed
    obtain ⟨j, seen, same⟩ := List.mem_map.mp listed
    have other : j ≠ i := by
      rintro rfl
      exact unseen seen
    rw [Item.position, Item.position, Position.mk.injEq] at same
    refine ⟨j, seen, other, same.2, same.1, ?_⟩
    rw [Item.position, same.1, same.2]
    exact gone

/-- An item is read and given to the handler, and saved again meanwhile. -/
def readded (again : Item Nat) : List (Nat × Event Nat) := [
  (0, .start .zero), (0, .turn), (0, .save [⟨"a", .epoch, 1⟩] none), (0, .note), (0, .openPass),
  (0, .read none), (0, .prechecked 0 (.ok false)), (100, .save [again] none), (100, .note)]

def completed : List (Nat × Event Nat) :=
  [(1000, .handled 0 (.ok none)), (1000, .verified 0 (.ok true)), (1000, .removed 0 none)]

/-- A version saved again under the time that it had is taken out unseen. -/
theorem readded_lost : ∃ p m p' : Pool Nat,
    new {} = .ok p ∧ p.run (readded ⟨"a", .epoch, 2⟩) = some m ∧
      m.get? "a" = some ⟨"a", .epoch, 2⟩ ∧ m.run completed = some p' ∧
      (∀ x ∈ completed, ¬ x.2.Names "a") ∧
      ⟨"a", .epoch, 2⟩ ∉ p.shown (readded ⟨"a", .epoch, 2⟩ ++ completed) ∧ p'.get? "a" = none := by
  refine ⟨_, _, _, rfl, rfl, rfl, rfl, ?_, ?_, rfl⟩
  · simp [completed, Event.Names]
  · decide

def later : Instant := (Instant.mk? 1 0).getD .epoch

theorem queued_iff_no_twin_taken_later : ∃ p m p' : Pool Nat,
    new {} = .ok p ∧ p.run (readded ⟨"a", later, 2⟩) = some m ∧ m.run completed = some p' ∧
      p'.get? "a" = some ⟨"a", later, 2⟩ ∧
      (p'.get? "a" = some ⟨"a", later, 2⟩ ↔
        ¬ ∃ j ∈ p.shown (readded ⟨"a", later, 2⟩ ++ completed),
          j ≠ ⟨"a", later, 2⟩ ∧ j.id = "a" ∧ j.time = later ∧ j.position ∈ m.taken completed) := by
  refine ⟨_, _, _, rfl, rfl, rfl, rfl, ?_⟩
  exact queued_iff_no_twin_taken (c := {}) (i := ⟨"a", later, 2⟩)
    (t := readded ⟨"a", later, 2⟩) (u := completed) rfl rfl rfl rfl
    (by simp [completed, Event.Names]) (by decide)

end Pool
end ChainFetch.Work
