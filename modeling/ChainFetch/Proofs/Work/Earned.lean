import ChainFetch.Proofs.Work.Dispatch
/-!
Nothing leaves the queue unearned. What a batch lists to be taken out are the positions of those of
its items of which the handler has said that they are satisfied, or complete after their work. Main
statements: `Drain.Moves.journaled` and `lost_iff_earned`.
-/

namespace ChainFetch.Work

variable {α : Type}

namespace Entry

/-- The position of an item of batch `k` that its check beforehand finds satisfied. -/
def satisfies? (k : Nat) : Entry α → Option Position
  | .prechecked n i (.ok true) => if n = k then some i.position else none
  | _ => none

/-- The position of an item of batch `k` that its check after the work finds complete. -/
def completes? (k : Nat) : Entry α → Option Position
  | .verified n i (.ok true) => if n = k then some i.position else none
  | _ => none

def number? : Entry α → Option Nat
  | .read k _ => some k
  | .prechecked k _ _ => some k
  | .handled k _ _ => some k
  | .verified k _ _ => some k
  | _ => none

variable {k : Nat} {x : Entry α} {r : Position}

theorem satisfies?_eq_some_iff :
    x.satisfies? k = some r ↔ ∃ i, x = .prechecked k i (.ok true) ∧ i.position = r := by
  constructor
  · intro h
    unfold satisfies? at h
    split at h
    · rename_i n i
      split at h
      · rename_i same
        cases h
        exact ⟨i, by rw [same], rfl⟩
      · cases h
    · cases h
  · rintro ⟨i, rfl, rfl⟩
    exact if_pos rfl

theorem completes?_eq_some_iff :
    x.completes? k = some r ↔ ∃ i, x = .verified k i (.ok true) ∧ i.position = r := by
  constructor
  · intro h
    unfold completes? at h
    split at h
    · rename_i n i
      split at h
      · rename_i same
        cases h
        exact ⟨i, by rw [same], rfl⟩
      · cases h
    · cases h
  · rintro ⟨i, rfl, rfl⟩
    exact if_pos rfl

section Shows

/-! Both functions show the positions of the items `i` of one kind of entry, `entry i`. -/

variable {shows? : Entry α → Option Position} {entry : Item α → Entry α}
  (shows : ∀ {x r}, shows? x = some r ↔ ∃ i, x = entry i ∧ i.position = r)

include shows

theorem shows?_of_number (number : ∀ i, (entry i).number? = some k) (other : x.number? ≠ some k) :
    shows? x = none := by
  rw [Option.eq_none_iff_forall_ne_some]
  intro r h
  obtain ⟨i, rfl, -⟩ := shows.mp h
  exact other (number i)

theorem mem_filterMap_shows {j : List (Entry α)} :
    r ∈ j.filterMap shows? ↔ ∃ i, entry i ∈ j ∧ i.position = r := by
  simp only [List.mem_filterMap, shows]
  constructor
  · rintro ⟨x, hx, i, rfl, place⟩
    exact ⟨i, hx, place⟩
  · rintro ⟨i, hx, place⟩
    exact ⟨_, hx, i, rfl, place⟩

end Shows

theorem satisfies?_of_number (other : x.number? ≠ some k) : x.satisfies? k = none :=
  shows?_of_number satisfies?_eq_some_iff (fun _ => rfl) other

theorem completes?_of_number (other : x.number? ≠ some k) : x.completes? k = none :=
  shows?_of_number completes?_eq_some_iff (fun _ => rfl) other

def satisfied (k : Nat) (j : List (Entry α)) : List Position := j.filterMap (satisfies? k)

def completed (k : Nat) (j : List (Entry α)) : List Position := j.filterMap (completes? k)

variable {j : List (Entry α)}

theorem mem_satisfied :
    r ∈ satisfied k j ↔ ∃ i, .prechecked k i (.ok true) ∈ j ∧ i.position = r :=
  mem_filterMap_shows satisfies?_eq_some_iff

theorem mem_completed :
    r ∈ completed k j ↔ ∃ i, .verified k i (.ok true) ∈ j ∧ i.position = r :=
  mem_filterMap_shows completes?_eq_some_iff

theorem satisfied_concat (k : Nat) (j : List (Entry α)) (x : Entry α) :
    satisfied k (j ++ [x]) = satisfied k j ++ (x.satisfies? k).toList :=
  filterMap_concat (satisfies? k) j x

theorem completed_concat (k : Nat) (j : List (Entry α)) (x : Entry α) :
    completed k (j ++ [x]) = completed k j ++ (x.completes? k).toList :=
  filterMap_concat (completes? k) j x

theorem satisfied_concat_of_number (j : List (Entry α)) (other : x.number? ≠ some k) :
    satisfied k (j ++ [x]) = satisfied k j := by
  rw [satisfied_concat, satisfies?_of_number other, Option.toList_none, List.append_nil]

theorem completed_concat_of_number (j : List (Entry α)) (other : x.number? ≠ some k) :
    completed k (j ++ [x]) = completed k j := by
  rw [completed_concat, completes?_of_number other, Option.toList_none, List.append_nil]

end Entry

/-- Every check is of an item that was read, and a check after the work is of one that the handler
was given and has handled before. -/
structure Grounded (j : List (Entry α)) : Prop where
  prechecked : ∀ k i a, .prechecked k i a ∈ j →
    ∃ items, i ∈ items ∧ [.read k items, .prechecked k i a].Sublist j
  verified : ∀ k i a, .verified k i a ∈ j → ∃ items given hint, i ∈ items ∧ i ∈ given ∧
    [.read k items, .handled k given (.ok hint), .verified k i a].Sublist j

theorem sublist_concat_of_mem {j l : List (Entry α)} {x : Entry α} (h : l.Sublist j) :
    (l ++ [x]).Sublist (j ++ [x]) := h.append (List.Sublist.refl _)

theorem Grounded.concat {j : List (Entry α)} {x : Entry α} (h : Grounded j)
    (prechecked : ∀ k i a, x = .prechecked k i a → ∃ items, i ∈ items ∧ .read k items ∈ j)
    (verified : ∀ k i a, x = .verified k i a → ∃ items given hint, i ∈ items ∧ i ∈ given ∧
      [.read k items, .handled k given (.ok hint)].Sublist j) : Grounded (j ++ [x]) := by
  refine ⟨?_, ?_⟩
  · intro k i a hx
    rcases List.mem_append.mp hx with hx | hx
    · obtain ⟨items, read, before⟩ := h.prechecked k i a hx
      exact ⟨items, read, before.trans (List.sublist_append_left _ _)⟩
    · obtain ⟨items, read, before⟩ := prechecked k i a (List.mem_singleton.mp hx).symm
      rw [List.mem_singleton.mp hx]
      exact ⟨items, read, sublist_concat_of_mem (List.singleton_sublist.mpr before)⟩
  · intro k i a hx
    rcases List.mem_append.mp hx with hx | hx
    · obtain ⟨items, given, hint, read, handled, before⟩ := h.verified k i a hx
      exact ⟨items, given, hint, read, handled, before.trans (List.sublist_append_left _ _)⟩
    · obtain ⟨items, given, hint, read, handled, before⟩ :=
        verified k i a (List.mem_singleton.mp hx).symm
      rw [List.mem_singleton.mp hx]
      exact ⟨items, given, hint, read, handled, sublist_concat_of_mem before⟩

namespace Batch

/-- What a batch in flight has come to by the journal. -/
def Recorded (k : Nat) (j : List (Entry α)) : Batch α → Prop
  | .checking unchecked satisfied remaining =>
    satisfied = Entry.satisfied k j ∧ Entry.completed k j = [] ∧
      ∃ items, .read k items ∈ j ∧ unchecked ⊆ items ∧ remaining ⊆ items
  | .clearing satisfied remaining =>
    satisfied = Entry.satisfied k j ∧ Entry.completed k j = [] ∧
      ∃ items, .read k items ∈ j ∧ remaining ⊆ items
  | .handling given =>
    Entry.completed k j = [] ∧ ∃ items, .read k items ∈ j ∧ given ⊆ items
  | .verifying unverified completed _ =>
    completed = Entry.completed k j ∧ ∃ items given hint,
      [.read k items, .handled k given (.ok hint)].Sublist j ∧ given ⊆ items ∧ unverified ⊆ given
  | .removing completed _ => completed = Entry.completed k j
  | .done _ => True

variable {k n : Nat} {j : List (Entry α)} {b b' : Batch α} {x : Option (Entry α)}
  {satisfied completed : List Position} {items unchecked remaining unverified : List (Item α)}

theorem recorded_handle (unhandled : Entry.completed k j = []) (read : .read k items ∈ j)
    (given : remaining ⊆ items) : (handle remaining).Recorded k j := by
  cases remaining with
  | nil => trivial
  | cons i remaining => exact ⟨unhandled, items, read, given⟩

theorem recorded_check (listed : satisfied = Entry.satisfied k j)
    (unhandled : Entry.completed k j = []) (read : .read k items ∈ j)
    (left : unchecked ⊆ items) (given : remaining ⊆ items) :
    (check unchecked satisfied remaining).Recorded k j := by
  cases unchecked with
  | cons i unchecked => exact ⟨listed, unhandled, items, read, left, given⟩
  | nil =>
    cases satisfied with
    | nil => exact recorded_handle unhandled read given
    | cons p satisfied => exact ⟨listed, unhandled, items, read, given⟩

theorem recorded_verify {given : List (Item α)} {hint : Option Duration} (report : Report)
    (listed : completed = Entry.completed k j)
    (handled : [.read k items, .handled k given (.ok hint)].Sublist j) (read : given ⊆ items)
    (left : unverified ⊆ given) : (verify unverified completed report).Recorded k j := by
  cases unverified with
  | cons i unverified => exact ⟨listed, items, given, hint, handled, read, left⟩
  | nil =>
    cases completed with
    | nil => trivial
    | cons p completed => exact listed

theorem Recorded.concat {y : Entry α} (h : b.Recorded n j) (other : y.number? ≠ some n) :
    b.Recorded n (j ++ [y]) := by
  have satisfies := Entry.satisfied_concat_of_number j other
  have completes := Entry.completed_concat_of_number j other
  cases b with
  | checking unchecked satisfied remaining =>
    obtain ⟨listed, unhandled, items, read, left, given⟩ := h
    exact ⟨listed.trans satisfies.symm, completes.trans unhandled, items,
      List.mem_append_left _ read, left, given⟩
  | clearing satisfied remaining =>
    obtain ⟨listed, unhandled, items, read, given⟩ := h
    exact ⟨listed.trans satisfies.symm, completes.trans unhandled, items,
      List.mem_append_left _ read, given⟩
  | handling given =>
    obtain ⟨unhandled, items, read, given⟩ := h
    exact ⟨completes.trans unhandled, items, List.mem_append_left _ read, given⟩
  | verifying unverified completed report =>
    obtain ⟨listed, items, given, hint, handled, read, left⟩ := h
    exact ⟨listed.trans completes.symm, items, given, hint,
      handled.trans (List.sublist_append_left _ _), read, left⟩
  | removing completed report =>
    have listed : completed = Entry.completed n j := h
    exact listed.trans completes.symm
  | done result => trivial

theorem recorded_start (satisfies : Entry.satisfied k j = []) (completes : Entry.completed k j = [])
    (items : List (Item α)) : (start items).Recorded k (j ++ [.read k items]) := by
  refine recorded_check ?_ ?_ (List.mem_append_right _ List.mem_cons_self)
    (List.Subset.refl _) (List.nil_subset _)
  · rw [Entry.satisfied_concat, satisfies]
    rfl
  · rw [Entry.completed_concat, completes]
    rfl

theorem Answers.recorded (a : b.Answers k x b') (h : b.Recorded k j) :
    b'.Recorded k (j ++ x.toList) := by
  cases a with
  | prechecked i unchecked satisfied remaining a =>
    obtain ⟨listed, unhandled, items, read, left, given⟩ := h
    obtain ⟨first, left⟩ := List.cons_subset.mp left
    rw [Option.toList_some]
    have read' := List.mem_append_left [Entry.prechecked k i a] read
    have unhandled' : Entry.completed k (j ++ [.prechecked k i a]) = [] := by
      rw [Entry.completed_concat, unhandled]
      rfl
    have given' : remaining ++ [i] ⊆ items :=
      List.append_subset.mpr ⟨given, List.cons_subset.mpr ⟨first, List.nil_subset _⟩⟩
    -- Only the answer that an item is satisfied puts its position on the list.
    rcases a with e | satisfies
    · refine recorded_check ?_ unhandled' read' left given'
      rw [Entry.satisfied_concat, listed]
      simp [Entry.satisfies?]
    · cases satisfies
      · refine recorded_check ?_ unhandled' read' left given'
        rw [Entry.satisfied_concat, listed]
        simp [Entry.satisfies?]
      · refine recorded_check ?_ unhandled' read' left given
        rw [Entry.satisfied_concat, listed]
        simp [Entry.satisfies?]
  | cleared satisfied remaining =>
    obtain ⟨listed, unhandled, items, read, given⟩ := h
    rw [Option.toList_none, List.append_nil]
    exact recorded_handle unhandled read given
  | handled given a =>
    obtain ⟨unhandled, items, read, sub⟩ := h
    rcases a with e | hint
    · trivial
    · refine recorded_verify _ ?_ (sublist_concat_of_mem (List.singleton_sublist.mpr read)) sub
        (List.Subset.refl _)
      rw [Option.toList_some, Entry.completed_concat, unhandled]
      rfl
  | verified i unverified completed report a =>
    obtain ⟨listed, items, given, hint, handled, read, left⟩ := h
    obtain ⟨first, left⟩ := List.cons_subset.mp left
    rw [Option.toList_some]
    have handled' := handled.trans (List.sublist_append_left j [Entry.verified k i a])
    rcases a with e | complete
    · refine recorded_verify _ ?_ handled' read left
      rw [Entry.completed_concat, listed]
      simp [Entry.completes?]
    · cases complete
      · refine recorded_verify _ ?_ handled' read left
        rw [Entry.completed_concat, listed]
        simp [Entry.completes?]
      · refine recorded_verify _ ?_ handled' read left
        rw [Entry.completed_concat, listed]
        simp [Entry.completes?]
  | removed completed report => trivial
  | failed b e => trivial

theorem Answers.grounded (a : b.Answers k x b') (h : b.Recorded k j) (grounded : Grounded j) :
    Grounded (j ++ x.toList) := by
  cases a with
  | prechecked i unchecked satisfied remaining a =>
    obtain ⟨-, -, items, read, left, -⟩ := h
    refine grounded.concat ?_ (by simp)
    rintro _ _ _ ⟨⟩
    exact ⟨items, (List.cons_subset.mp left).1, read⟩
  | handled given a => exact grounded.concat (by simp) (by simp)
  | verified i unverified completed report a =>
    obtain ⟨-, items, given, hint, handled, read, left⟩ := h
    refine grounded.concat (by simp) ?_
    rintro _ _ _ ⟨⟩
    have first := (List.cons_subset.mp left).1
    exact ⟨items, given, hint, read first, first, handled⟩
  | cleared | removed | failed =>
    rw [Option.toList_none, List.append_nil]
    exact grounded

theorem Answers.number (a : b.Answers k x b') : ∀ y ∈ x, y.number? = some k := by
  cases a <;> simp [Entry.number?]

end Batch

namespace Drain

variable {q : Queue α} {chunk k : Nat} {d d' : Drain α} {x : Option (Entry α)}
  {j : List (Entry α)}

/-- What the batches in flight have come to by the journal, which says nothing yet of the numbers
that are not given out. -/
structure Journaled (j : List (Entry α)) (d : Drain α) : Prop where
  grounded : Grounded j
  batches : ∀ n b, (n, b) ∈ d.window.running → b.Recorded n j
  fresh : ∀ n, d.window.pulled ≤ n → Entry.satisfied n j = [] ∧ Entry.completed n j = []

theorem Journaled.of_running (h : d.Journaled j) (y : Entry α)
    (prechecked : ∀ k i a, y ≠ .prechecked k i a) (verified : ∀ k i a, y ≠ .verified k i a)
    (batches : ∀ n b, (n, b) ∈ d'.window.running → b.Recorded n (j ++ [y]))
    (pulled : d.window.pulled ≤ d'.window.pulled) : d'.Journaled (j ++ [y]) := by
  refine ⟨?_, batches, ?_⟩
  · exact h.grounded.concat (fun k i a same => absurd same (prechecked k i a))
      (fun k i a same => absurd same (verified k i a))
  · intro n unpulled
    obtain ⟨satisfies, completes⟩ := h.fresh n (Nat.le_trans pulled unpulled)
    have no : y.satisfies? n = none ∧ y.completes? n = none := by
      refine ⟨?_, ?_⟩
      · rw [Option.eq_none_iff_forall_ne_some]
        intro r same
        obtain ⟨i, checked, -⟩ := Entry.satisfies?_eq_some_iff.mp same
        exact prechecked n i _ checked
      · rw [Option.eq_none_iff_forall_ne_some]
        intro r same
        obtain ⟨i, checked, -⟩ := Entry.completes?_eq_some_iff.mp same
        exact verified n i _ checked
    rw [Entry.satisfied_concat, Entry.completed_concat, satisfies, completes, no.1, no.2]
    exact ⟨rfl, rfl⟩

theorem Moves.journaled (m : Moves q chunk d x d') (numbered : d.window.Numbered)
    (h : d.Journaled j) : d'.Journaled (j ++ x.toList) := by
  cases m with
  | stay =>
    rw [Option.toList_none, List.append_nil]
    exact h
  | saved items =>
    refine h.of_running _ (by simp) (by simp) ?_ (Nat.le_refl _)
    exact fun n b running => (h.batches n b running).concat (by simp [Entry.number?])
  | close w closed =>
    obtain ⟨-, rfl⟩ := Window.close?_cases closed
    rw [Option.toList_none, List.append_nil]
    exact ⟨h.grounded, h.batches, h.fresh⟩
  | readFailed w e pulled =>
    obtain ⟨-, rfl⟩ := Window.pull?_cases pulled
    refine h.of_running _ (by simp) (by simp) ?_ (Nat.le_succ _)
    intro n b running
    rcases List.mem_append.mp running with running | new
    · exact (h.batches n b running).concat (by simp [Entry.number?])
    · cases List.mem_singleton.mp new
      trivial
  | read w last ends pulled =>
    obtain ⟨-, rfl⟩ := Window.pull?_cases pulled
    refine h.of_running _ (by simp) (by simp) ?_ (Nat.le_succ _)
    intro n b running
    rcases List.mem_append.mp running with running | new
    · -- The numbers in flight were given out before this one.
      have before := numbered.pulled _ running
      exact (h.batches n b running).concat (by simp [Entry.number?, Nat.ne_of_gt before])
    · cases List.mem_singleton.mp new
      obtain ⟨satisfies, completes⟩ := h.fresh _ (Nat.le_refl _)
      exact Batch.recorded_start satisfies completes _
  | answer k b b' x found answers =>
    have running := numbered.get?_eq_some_iff.mp found
    have before := h.batches k b running
    refine ⟨answers.grounded before h.grounded, ?_, ?_⟩
    · intro n c running
      rcases (numbered.mem_running_set found).mp running with moved | ⟨other, same⟩
      · cases moved
        exact answers.recorded before
      · have still := h.batches n c same
        cases x with
        | none =>
          rw [Option.toList_none, List.append_nil]
          exact still
        | some y =>
          refine still.concat ?_
          rw [answers.number y rfl]
          exact fun same => other (Option.some.inj same).symm
    · intro n unpulled
      have given := numbered.pulled _ running
      have unpulled : d.window.pulled ≤ n := unpulled
      cases x with
      | none =>
        rw [Option.toList_none, List.append_nil]
        exact h.fresh n unpulled
      | some y =>
        have other : y.number? ≠ some n := by
          rw [answers.number y rfl]
          exact fun same => absurd (Option.some.inj same) (by omega)
        rw [Option.toList_some, Entry.satisfied_concat_of_number j other,
          Entry.completed_concat_of_number j other]
        exact h.fresh n unpulled
  | collect d' k collects =>
    obtain ⟨_, _, -, completed, rfl⟩ := collect_cases collects
    rw [Window.complete?_cases completed, Option.toList_none, List.append_nil]
    refine ⟨h.grounded, ?_, h.fresh⟩
    intro n b running
    exact h.batches n b (List.mem_filter.mp running).1

end Drain

/-- By the journal of the pass, the event takes out what stands at the position of the item: the
answer to a removal of batch `k`, for an item read at this position that the handler found to be
satisfied, or worked on without an error and then found to be complete. -/
inductive Earned (j : List (Entry α)) (i : Item α) : Event α → Prop
  | satisfied (k : Nat) (items : List (Item α)) (old : Item α) (read : old ∈ items)
      (place : old.position = i.position)
      (evidence : [.read k items, .prechecked k old (.ok true)].Sublist j) :
      Earned j i (.cleared k none)
  | completed (k : Nat) (items given : List (Item α)) (hint : Option Duration) (old : Item α)
      (read : old ∈ items) (worked : old ∈ given) (place : old.position = i.position)
      (evidence : [.read k items, .handled k given (.ok hint),
        .verified k old (.ok true)].Sublist j) :
      Earned j i (.removed k none)

/-- What an event takes out of the queue, by the journal of the pass. -/
def Event.takes (j : List (Entry α)) : Event α → List Position
  | .cleared k none => Entry.satisfied k j
  | .removed k none => Entry.completed k j
  | _ => []

theorem Grounded.mem_takes_iff {j : List (Entry α)} {i : Item α} {e : Event α} (h : Grounded j) :
    i.position ∈ e.takes j ↔ Earned j i e := by
  constructor
  · intro mem
    unfold Event.takes at mem
    split at mem
    · obtain ⟨old, checked, place⟩ := Entry.mem_satisfied.mp mem
      obtain ⟨items, read, evidence⟩ := h.prechecked _ old _ checked
      exact .satisfied _ items old read place evidence
    · obtain ⟨old, checked, place⟩ := Entry.mem_completed.mp mem
      obtain ⟨items, given, hint, read, worked, evidence⟩ := h.verified _ old _ checked
      exact .completed _ items given hint old read worked place evidence
    · cases mem
  · intro earned
    cases earned with
    | satisfied _ items old read place evidence =>
      exact Entry.mem_satisfied.mpr ⟨old, evidence.subset (by simp), place⟩
    | completed _ items given hint old read worked place evidence =>
      exact Entry.mem_completed.mpr ⟨old, evidence.subset (by simp), place⟩

namespace Pool

variable {p p' m m' n : Pool α} {now : Nat} {e : Event α} {d : Drain α}
  {t u : List (Nat × Event α)} {i : Item α} {j : List (Entry α)} {id : String}

theorem journaled_of_latestPass (sound : p.Sound) (ran : p.run t = some m)
    (pass : p.LatestPass t n u) (draining : m.pass = some (.draining d)) :
    d.Journaled (n.journal u) := by
  obtain ⟨sound, -, opened, one⟩ := pass.opened sound
  have start : True ∧ ∀ d, n.pass = some (.draining d) → d.Journaled [] := by
    refine ⟨trivial, fun d draining => ?_⟩
    cases opened.symm.trans draining
    exact ⟨⟨by simp, by simp⟩, by simp [Drain.new, Window.new], fun _ _ => ⟨rfl, rfl⟩⟩
  exact (pass_invariant (P := fun j d => d.Journaled j) (Q := fun _ => True) (fun _ => trivial)
    (fun _ => trivial) (fun _ numbered h moves => moves.journaled numbered h) sound rfl start
    (pass.run ran) one).2 d draining

theorem taken_eq_nil (cleared : ∀ k, e ≠ .cleared k none) (removed : ∀ k, e ≠ .removed k none) :
    (p.act e).taken = [] := by
  cases e with
  | save items fault => cases items <;> cases fault <;> rfl
  | remove ids fault => cases fault <;> rfl
  | prechecked k a =>
    simp only [act]
    split <;> rfl
  | cleared k fault =>
    cases fault with
    | none => exact absurd rfl (cleared k)
    | some f => rfl
  | removed k fault =>
    cases fault with
    | none => exact absurd rfl (removed k)
    | some f => rfl
  | _ => rfl

theorem Moves.draining_of_taken {a : Act α} {r : Position} (h : Moves now p a m)
    (taken : r ∈ a.taken) : ∃ d, p.pass = some (.draining d) := by
  cases h with
  | batch d k b b' shown taken draining => exact ⟨d, draining⟩
  | _ => cases taken

theorem draining_of_earned (earned : Earned j i e) (stepped : m.step now e = some m') :
    ∃ d, m.pass = some (.draining d) := by
  cases earned with
  | satisfied => exact draining_of_ofPass rfl stepped
  | completed => exact draining_of_ofPass rfl stepped

theorem taken_eq_takes (numbered : d.window.Numbered) (draining : m.pass = some (.draining d))
    (h : d.Journaled j) (stepped : m.step now e = some m') : (m.act e).taken = e.takes j := by
  by_cases cleared : ∃ k, e = .cleared k none
  · obtain ⟨k, rfl⟩ := cleared
    obtain ⟨d', satisfied, remaining, same, found, -⟩ := cleared_cases stepped
    cases draining.symm.trans same
    rw [act, batch?_eq draining, found]
    exact (h.batches k _ (numbered.get?_eq_some_iff.mp found)).1
  · by_cases removed : ∃ k, e = .removed k none
    · obtain ⟨k, rfl⟩ := removed
      obtain ⟨d', completed, report, same, found, -⟩ := removed_cases stepped
      cases draining.symm.trans same
      rw [act, batch?_eq draining, found]
      exact h.batches k _ (numbered.get?_eq_some_iff.mp found)
    · rw [taken_eq_nil (fun k same => cleared ⟨k, same⟩) fun k same => removed ⟨k, same⟩]
      unfold Event.takes
      split
      · exact absurd ⟨_, rfl⟩ cleared
      · exact absurd ⟨_, rfl⟩ removed
      · rfl

/-! ## The version that is taken -/

def Fresh (id : String) (j : List (Entry α)) (p : Pool α) : Prop :=
  ∀ k items old, .read k items ∈ j → old ∈ items → old.id = id →
    (∃ again, [.read k items, .saved again].Sublist j ∧ ∃ x ∈ again, x.id = id) ∨
      ∀ i, p.get? id = some i → old = i

theorem get?_of_step (sound : p.queue.Sound) (stepped : p.step now e = some m)
    (found : m.get? id = some i) :
    p.get? id = some i ∨
      ∃ again, p.record? e = some (.saved again) ∧ i ∈ again ∧ i.id = id := by
  by_cases named : e.Names id
  · unfold Event.Names at named
    split at named
    · rename_i items
      cases items with
      | nil => simp at named
      | cons x items =>
        cases stepped
        change (p.queue.save _).get? id = some i at found
        rcases Queue.get?_save p.queue (x :: items) id with ⟨y, mem, same, last⟩ | ⟨others, -⟩
        · rw [last] at found
          cases found
          exact Or.inr ⟨_, rfl, mem, same⟩
        · obtain ⟨y, mem, same⟩ := named
          exact absurd same (others y mem)
    · cases stepped
      change (p.queue.remove _).get? id = some i at found
      rw [Queue.get?_remove sound, if_pos named] at found
      cases found
    · cases named
  · left
    rw [(moves_of_step stepped).get? sound fun h => named (names_of_names_act h)] at found
    exact (Option.filter_eq_some_iff.mp found).1

theorem Fresh.step (h : Fresh id j p) (sound : p.Sound) (stepped : p.step now e = some m) :
    Fresh id (j ++ (p.record? e).toList) m := by
  intro k items old read mem named
  rcases List.mem_append.mp read with read | read
  · rcases h k items old read mem named with ⟨again, evidence, saved⟩ | same
    · exact Or.inl ⟨again, evidence.trans (List.sublist_append_left _ _), saved⟩
    · by_cases kept : ∀ i, m.get? id = some i → p.get? id = some i
      · exact Or.inr fun i found => same i (kept i found)
      · left
        simp only [not_forall] at kept
        obtain ⟨i, found, changed⟩ := kept
        obtain ⟨again, record, mem, same⟩ :=
          (get?_of_step sound.queue stepped found).resolve_left changed
        refine ⟨again, ?_, i, mem, same⟩
        rw [record]
        exact sublist_concat_of_mem (List.singleton_sublist.mpr read)
  · refine Or.inr fun i found => ?_
    have record := Option.mem_toList.mp read
    obtain ⟨same, -, d, -, rfl⟩ := batch?_of_read sound record stepped
    have queued := sound.queue.get?_of_mem_readAfter mem
    rw [named, ← same] at queued
    change m.get? id = some old at queued
    rw [found] at queued
    exact (Option.some.inj queued).symm

/-- Apart from calls of add and of remove about it, an item stays queued in a step or is gone after
it, and is gone exactly if the latest pass has earned its removal. The version taken is the one that
this pass has read, unless its id was saved again since. -/
theorem lost_iff_earned {c : Config} (made : new c = .ok p) (ran : p.run t = some m)
    (stepped : m.step now e = some m') (queued : m.get? i.id = some i) (other : ¬ e.Names i.id) :
    (m'.get? i.id = some i ∨ m'.get? i.id = none) ∧
    (m'.get? i.id = none ↔ ∃ n u, p.LatestPass t n u ∧ Earned (n.journal u) i e) ∧
    ∀ n u, p.LatestPass t n u → ∀ k items old, .read k items ∈ n.journal u → old ∈ items →
      old.id = i.id →
      (∃ again, [.read k items, .saved again].Sublist (n.journal u) ∧ ∃ x ∈ again, x.id = i.id) ∨
        old = i := by
  obtain ⟨sound, -⟩ := sound_of_new made
  have soundly := sound_run sound ran
  have moved := moves_of_step stepped
  have left := moved.get? soundly.queue fun h => other (names_of_names_act h)
  rw [queued] at left
  have lost : m'.get? i.id = none ↔ i.position ∈ (m.act e).taken := by
    rw [left, Option.filter_eq_none_iff]
    simp
  refine ⟨?_, ?_, ?_⟩
  · cases found : m'.get? i.id with
    | none => exact Or.inr rfl
    | some j =>
      rw [found, eq_comm, Option.filter_eq_some_iff] at left
      exact Or.inl left.1.symm
  · rw [lost]
    constructor
    · intro taken
      obtain ⟨d, draining⟩ := moved.draining_of_taken taken
      obtain ⟨n, u, pass⟩ := exists_latestPass (drain?_of_new made) ran draining
      have journaled := journaled_of_latestPass sound ran pass draining
      rw [taken_eq_takes (soundly.numbered d draining) draining journaled stepped] at taken
      exact ⟨n, u, pass, journaled.grounded.mem_takes_iff.mp taken⟩
    · rintro ⟨n, u, pass, earned⟩
      obtain ⟨d, draining⟩ := draining_of_earned earned stepped
      have journaled := journaled_of_latestPass sound ran pass draining
      rw [taken_eq_takes (soundly.numbered d draining) draining journaled stepped]
      exact journaled.grounded.mem_takes_iff.mpr earned
  · intro n u pass k items old read mem named
    obtain ⟨soundly', -⟩ := pass.opened sound
    have start : Fresh i.id [] n := by simp [Fresh]
    have fresh := journal_invariant (P := Fresh i.id)
      (fun _ sound fresh stepped => fresh.step sound stepped) soundly' start (pass.run ran)
    rcases fresh k items old read mem named with again | same
    · exact Or.inl again
    · exact Or.inr (same i queued)

/-- A pass reads three items: the first is satisfied, the handler works on the others, and one of
them is complete. -/
def halfDone : List (Nat × Event Nat) := [
  (0, .read none), (1, .prechecked 0 (.ok true)), (1, .prechecked 0 (.ok false)),
  (1, .prechecked 0 (.error (.work "down"))), (2, .cleared 0 none), (3, .handled 0 (.ok none)),
  (4, .verified 0 (.ok true)), (4, .verified 0 (.ok false))]

theorem lost_iff_earned_halfDone : ∃ p m m' : Pool Nat, new {} = .ok p ∧
    p.run (threeQueued ++ (0, .openPass) :: halfDone) = some m ∧
      m.step 5 (.removed 0 none) = some m' ∧
      m.get? "a" = none ∧ m.get? "b" = some ⟨"b", .epoch, 1⟩ ∧ m'.get? "b" = none ∧
      (∃ n u, p.LatestPass (threeQueued ++ (0, .openPass) :: halfDone) n u ∧
        Earned (n.journal u) ⟨"b", .epoch, 1⟩ (.removed 0 none)) ∧
      m'.get? "c" = some ⟨"c", .epoch, 1⟩ ∧
      ¬ ∃ n u, p.LatestPass (threeQueued ++ (0, .openPass) :: halfDone) n u ∧
        Earned (n.journal u) ⟨"c", .epoch, 1⟩ (.removed 0 none) := by
  refine ⟨_, _, _, rfl, rfl, rfl, rfl, rfl, rfl, ?_, rfl, ?_⟩
  · have result := lost_iff_earned (c := {}) (i := ⟨"b", .epoch, 1⟩)
      (t := threeQueued ++ (0, .openPass) :: halfDone) rfl rfl
      (show step 5 _ (.removed 0 none) = some _ from rfl) rfl (by simp [Event.Names])
    exact result.2.1.mp rfl
  · have result := lost_iff_earned (c := {}) (i := ⟨"c", .epoch, 1⟩)
      (t := threeQueued ++ (0, .openPass) :: halfDone) rfl rfl
      (show step 5 _ (.removed 0 none) = some _ from rfl) rfl (by simp [Event.Names])
    exact result.2.1.not.mp (by decide)

end Pool
end ChainFetch.Work
