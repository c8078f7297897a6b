import Mathlib.Data.List.Infix
import Mathlib.Tactic.FinCases
import ChainFetch.Proofs.Work.Journal
import ChainFetch.Proofs.Work.Wakeful
/-!
What a pass dispatches. Its reads go up along the order of the queue, so that no position is in two
batches, and nothing that keeps its place is passed over. Main statements: `Drain.Moves.ascends` and
`dispatch_of_pass`.
-/

namespace ChainFetch.Work

variable {α : Type}

namespace Entry

def batch? : Entry α → Option (List (Item α))
  | .read _ items => some items
  | _ => none

def batches (j : List (Entry α)) : List (List (Item α)) := j.filterMap batch?

def dispatched (j : List (Entry α)) : List Position := (batches j).flatten.map Item.position

variable {j : List (Entry α)} {x : Option (Entry α)} {r : Position}

theorem batches_append_of_none (none : x.bind batch? = none) :
    batches (j ++ x.toList) = batches j := by
  cases x with
  | none => simp
  | some x =>
    rw [Option.bind_some] at none
    simp [batches, none]

theorem batches_append_read (j : List (Entry α)) (k : Nat) (items : List (Item α)) :
    batches (j ++ [.read k items]) = batches j ++ [items] := by
  simp [batches, batch?]

theorem dispatched_append_read (j : List (Entry α)) (k : Nat) (items : List (Item α)) :
    dispatched (j ++ [.read k items]) = dispatched j ++ items.map Item.position := by
  simp [dispatched, batches_append_read]

theorem dispatched_append_of_none (none : x.bind batch? = none) :
    dispatched (j ++ x.toList) = dispatched j := by
  rw [dispatched, batches_append_of_none none, dispatched]

theorem mem_dispatched_append (h : r ∈ dispatched j) (l : List (Entry α)) :
    r ∈ dispatched (j ++ l) := by
  simp only [dispatched, batches, List.filterMap_append, List.flatten_append, List.map_append,
    List.mem_append]
  exact Or.inl h

end Entry

open Entry (batches dispatched)

theorem countP_mem_eq_one {ls : List (List Position)} {r : Position} (once : ls.flatten.Nodup)
    (h : r ∈ ls.flatten) : ls.countP (fun l => r ∈ l) = 1 := by
  induction ls with
  | nil => cases h
  | cons l ls ih =>
    rw [List.flatten_cons] at once h
    obtain ⟨-, rest, apart⟩ := List.nodup_append.mp once
    by_cases first : r ∈ l
    · have absent : ls.countP (fun l => r ∈ l) = 0 := by
        rw [List.countP_eq_zero]
        intro k hk
        simp only [decide_eq_true_eq]
        exact fun again => apart r first r (List.mem_flatten.mpr ⟨k, hk, again⟩) rfl
      rw [List.countP_cons_of_pos (by simpa using first), absent]
    · rw [List.countP_cons_of_neg (by simpa using first)]
      exact ih rest ((List.mem_append.mp h).resolve_left first)

theorem Batch.Answers.batch?_eq_none {k : Nat} {b b' : Batch α} {x : Option (Entry α)}
    (h : b.Answers k x b') : x.bind Entry.batch? = none := by
  cases h <;> rfl

theorem Batch.start_injective : Function.Injective (start : List (Item α) → Batch α) := by
  intro items items' same
  cases items <;> cases items' <;> simp_all [start, check, handle]

theorem Batch.start_ne_failed (items : List (Item α)) (e : Failure) :
    start items ≠ done (.error e) := by
  cases items <;> simp [start, check, handle]

/-- The batches of a pass have the size asked for, and go up along the queue. -/
structure Ordered (chunk : Nat) (j : List (Entry α)) : Prop where
  size : ∀ b ∈ batches j, b.length ≤ chunk
  ascending : (dispatched j).Pairwise (· < ·)

theorem Ordered.append {chunk : Nat} {j : List (Entry α)} {x : Option (Entry α)}
    (h : Ordered chunk j) (none : x.bind Entry.batch? = none) : Ordered chunk (j ++ x.toList) := by
  refine ⟨?_, ?_⟩
  · rw [Entry.batches_append_of_none none]
    exact h.size
  · rw [Entry.dispatched_append_of_none none]
    exact h.ascending

namespace Position

variable {p r : Position} {after : Option Position}

theorem lt_of_isAbove (passed : ¬ p.IsAbove after) (above : r.IsAbove after) : p < r := by
  cases after with
  | none => exact absurd trivial passed
  | some a =>
    have above : a < r := above
    rcases lt_or_eq_or_gt p a with below | rfl | beyond
    · exact lt_trans below above
    · exact above
    · exact absurd beyond passed

end Position

namespace Drain

variable {q : Queue α} {chunk : Nat} {d d' : Drain α} {x : Option (Entry α)}
  {j : List (Entry α)} {r : Position}

def Ascends (chunk : Nat) (j : List (Entry α)) (d : Drain α) : Prop :=
  Ordered chunk j ∧ ∀ r ∈ dispatched j, ¬ r.IsAbove d.position

theorem Moves.read_or_stays (m : d.Moves q chunk x d') :
    (x.bind Entry.batch? = none ∧ d'.position = d.position) ∨
    ∃ last, (q.readAfter d.position chunk).getLast? = some last ∧
      x = some (.read d.window.pulled (q.readAfter d.position chunk)) ∧
      d'.position = some last.position := by
  cases m with
  | stay => exact Or.inl ⟨rfl, rfl⟩
  | saved => exact Or.inl ⟨rfl, rfl⟩
  | close => exact Or.inl ⟨rfl, rfl⟩
  | readFailed => exact Or.inl ⟨rfl, rfl⟩
  | read w last ends pulled => exact Or.inr ⟨last, ends, rfl, rfl⟩
  | answer k b b' x found answers => exact Or.inl ⟨answers.batch?_eq_none, rfl⟩
  | collect d' k collects =>
    obtain ⟨_, _, -, -, rfl⟩ := collect_cases collects
    exact Or.inl ⟨rfl, rfl⟩

theorem Moves.ascends (m : d.Moves q chunk x d') (sound : q.Sound) (h : d.Ascends chunk j) :
    d'.Ascends chunk (j ++ x.toList) := by
  obtain ⟨ordered, passed⟩ := h
  rcases m.read_or_stays with ⟨none, same⟩ | ⟨last, ends, rfl, moved⟩
  · refine ⟨ordered.append none, ?_⟩
    rw [Entry.dispatched_append_of_none none, same]
    exact passed
  · -- The batch is a beginning of what lies above the last position, which all the rest lies below.
    have positions := sound.map_position_readAfter d.position chunk
    have above : ∀ r ∈ (q.readAfter d.position chunk).map Item.position,
        r.IsAbove d.position := by
      intro r hr
      rw [positions] at hr
      exact (Queue.mem_above.mp (List.mem_of_mem_take hr)).2
    have inside : ((q.readAfter d.position chunk).map Item.position).Pairwise (· < ·) := by
      rw [positions]
      exact (sound.above_ascending d.position).sublist (List.take_sublist _ _)
    have short : (q.readAfter d.position chunk).length ≤ chunk := by
      rw [← List.length_map Item.position, positions]
      exact List.length_take_le _ _
    have upTo : ∀ r ∈ (q.readAfter d.position chunk).map Item.position, ¬ last.position < r :=
      fun r read => sound.not_lt_of_mem_readAfter ends read
    refine ⟨⟨?_, ?_⟩, ?_⟩
    · rw [Option.toList_some, Entry.batches_append_read]
      intro b hb
      rcases List.mem_append.mp hb with hb | hb
      · exact ordered.size b hb
      · rw [List.mem_singleton.mp hb]
        exact short
    · rw [Option.toList_some, Entry.dispatched_append_read, List.pairwise_append]
      refine ⟨ordered.ascending, inside, ?_⟩
      intro r hr s hs
      exact Position.lt_of_isAbove (passed r hr) (above s hs)
    · rw [Option.toList_some, Entry.dispatched_append_read, moved]
      intro r hr
      rcases List.mem_append.mp hr with hr | hr
      · have final : last.position ∈ (q.readAfter d.position chunk).map Item.position :=
          List.mem_map_of_mem (List.mem_of_getLast? ends)
        have below := Position.lt_of_isAbove (passed r hr) (above _ final)
        exact fun beyond => Position.lt_irrefl _ (Position.lt_trans below beyond)
      · exact upTo r hr

/-- The entry of a read tells which batch comes into the window, and nothing else comes into it with
items to work on. -/
theorem Moves.read_iff_put (m : d.Moves q chunk x d') (numbered : d.window.Numbered) {k : Nat}
    {items : List (Item α)} :
    x = some (.read k items) ↔
      d.window.get? k = none ∧ d'.window.get? k = some (.start items) := by
  have numbered' := m.numbered numbered
  simp only [Option.eq_none_iff_forall_ne_some, ne_eq, numbered.get?_eq_some_iff,
    numbered'.get?_eq_some_iff]
  cases m with
  | stay | saved =>
    refine iff_of_false (by simp) ?_
    rintro ⟨absent, put⟩
    exact absent _ put
  | close w closed =>
    obtain ⟨-, rfl⟩ := Window.close?_cases closed
    refine iff_of_false (by simp) ?_
    rintro ⟨absent, put⟩
    exact absent _ put
  | readFailed w e pulled =>
    obtain ⟨-, rfl⟩ := Window.pull?_cases pulled
    refine iff_of_false (by simp) ?_
    rintro ⟨absent, put⟩
    rcases List.mem_append.mp put with before | new
    · exact absent _ before
    · exact Batch.start_ne_failed items e (congrArg Prod.snd (List.mem_singleton.mp new))
  | read w last ends pulled =>
    obtain ⟨-, rfl⟩ := Window.pull?_cases pulled
    constructor
    · rintro ⟨⟩
      exact ⟨fun b before => Nat.lt_irrefl _ (numbered.pulled _ before),
        List.mem_append_right _ List.mem_cons_self⟩
    · rintro ⟨absent, put⟩
      rcases List.mem_append.mp put with before | new
      · exact absurd before (absent _)
      · obtain ⟨rfl, same⟩ := Prod.mk.inj (List.mem_singleton.mp new)
        rw [Batch.start_injective same]
  | answer n b b' x found answers =>
    refine iff_of_false (by cases answers <;> simp) ?_
    rintro ⟨absent, put⟩
    rcases (numbered.mem_running_set found).mp put with moved | ⟨-, before⟩
    · cases moved
      exact absent b (numbered.get?_eq_some_iff.mp found)
    · exact absent _ before
  | collect d' n collects =>
    obtain ⟨_, _, -, completed, rfl⟩ := collect_cases collects
    refine iff_of_false (by simp) ?_
    rintro ⟨absent, put⟩
    rw [Window.complete?_cases completed] at put
    exact absent _ (List.mem_filter.mp put).1

theorem Moves.unread_or_dispatched (m : d.Moves q chunk x d') (sound : q.Sound) (room : 0 < chunk)
    (going : d.readFailed = false) (reads : x ≠ some .readFailed) (queued : r ∈ q.index)
    (unread : d.Unread r) : d'.Unread r ∨ r ∈ dispatched (j ++ x.toList) := by
  obtain ⟨opened, above⟩ := unread
  cases m with
  | stay => exact Or.inl ⟨opened, above⟩
  | saved => exact Or.inl ⟨opened, above⟩
  | close w closed ended =>
    rcases ended with failed | none
    · rw [going] at failed
      cases failed
    · exact absurd above (sound.not_isAbove_of_readAfter_eq_nil room none queued)
  | readFailed => exact absurd rfl reads
  | read w last ends pulled =>
    rcases sound.mem_readAfter_or_isAbove ends queued above with read | beyond
    · refine Or.inr ?_
      rw [Option.toList_some, Entry.dispatched_append_read]
      exact List.mem_append_right _ read
    · obtain ⟨-, rfl⟩ := Window.pull?_cases pulled
      exact Or.inl ⟨opened, beyond⟩
  | answer => exact Or.inl ⟨opened, above⟩
  | collect d' k collects =>
    obtain ⟨_, _, -, completed, rfl⟩ := collect_cases collects
    rw [Window.complete?_cases completed]
    exact Or.inl ⟨opened, above⟩

theorem Moves.going (m : d.Moves q chunk x d') (reads : x ≠ some .readFailed)
    (going : d.readFailed = false) : d'.readFailed = false := by
  cases m with
  | readFailed => exact absurd rfl reads
  | collect d' k collects =>
    obtain ⟨_, _, -, -, rfl⟩ := collect_cases collects
    exact going
  | _ => exact going

theorem Moves.limit_eq (m : d.Moves q chunk x d') : d'.window.limit = d.window.limit := by
  cases m with
  | close w closed =>
    rw [(Window.close?_cases closed).2]
  | readFailed w e pulled =>
    rw [(Window.pull?_cases pulled).2]
  | read w last ends pulled =>
    rw [(Window.pull?_cases pulled).2]
  | collect d' k collects =>
    obtain ⟨_, _, -, completed, rfl⟩ := collect_cases collects
    rw [Window.complete?_cases completed]
  | _ => rfl

end Drain

namespace Pool

variable {p p' m : Pool α} {now : Nat} {e : Event α} {d : Drain α} {t u : List (Nat × Event α)}
  {r : Position} {seen : List (Entry α)}

def Stands (p : Pool α) (r : Position) : Prop := ∃ i, p.get? r.id = some i ∧ i.position = r

/-- A pass is under way that has still to read as far as the position. -/
def Unread (p : Pool α) (r : Position) : Prop :=
  ∃ d, p.pass = some (.draining d) ∧ d.Unread r

theorem Sound.mem_index_iff (sound : p.Sound) : r ∈ p.queue.index ↔ p.Stands r :=
  sound.queue.indexed r

/-- The batches of a pass, as a run from its opening reads them. -/
def batches (p : Pool α) (t : List (Nat × Event α)) : List (List (Item α)) :=
  Entry.batches (p.journal t)

/-- A step of the run puts a batch of these items into the window, under a new number. -/
def PutsIn (p : Pool α) (t : List (Nat × Event α)) (k : Nat) (items : List (Item α)) : Prop :=
  ∃ v now e w s s', t = v ++ (now, e) :: w ∧ p.run v = some s ∧ s.step now e = some s' ∧
    s.batch? k = none ∧ s'.batch? k = some (.start items)

theorem read_iff_put (sound : p.Sound) (other : e ≠ .openPass) (stepped : p.step now e = some p')
    {k : Nat} {items : List (Item α)} : p.record? e = some (.read k items) ↔
      p.batch? k = none ∧ p'.batch? k = some (.start items) := by
  cases under : p.drain? with
  | none =>
    obtain ⟨still, quiet | ⟨added, quiet⟩⟩ := idle_of_step under other stepped
    all_goals exact iff_of_false (by simp [quiet]) (by simp [batch?, still])
  | some d =>
    have draining := drain?_eq_some_iff.mp under
    rcases drain_moves_of_step sound draining stepped with ⟨d', after, moves⟩ | ⟨closed, quiet, -⟩
    · rw [batch?_eq draining, batch?_eq after]
      exact moves.read_iff_put (sound.numbered d draining)
    · exact iff_of_false (by simp [quiet]) (by simp [batch?, closed])

theorem mem_journal_iff_putsIn (sound : m.Sound) (ran : m.run u = some p')
    (one : ∀ x ∈ u, x.2 ≠ .openPass) (k : Nat) (items : List (Item α)) :
    .read k items ∈ m.journal u ↔ m.PutsIn u k items := by
  rw [mem_journal_iff ran]
  constructor
  · rintro ⟨v, now, e, w, s, s', rfl, reached, stepped, record⟩
    have other : e ≠ .openPass := one (now, e) (by simp)
    exact ⟨v, now, e, w, s, s', rfl, reached, stepped,
      (read_iff_put (sound_run sound reached) other stepped).mp record⟩
  · rintro ⟨v, now, e, w, s, s', rfl, reached, stepped, put⟩
    have other : e ≠ .openPass := one (now, e) (by simp)
    exact ⟨v, now, e, w, s, s', rfl, reached, stepped,
      (read_iff_put (sound_run sound reached) other stepped).mpr put⟩

theorem ne_readFailed_of_step (reads : ∀ f, e ≠ .read (some f)) :
    p.record? e ≠ some .readFailed := by
  intro record
  rcases record?_cases record with ⟨_, _, -, ⟨⟩⟩ | ⟨fault, d, rfl, -, entry⟩ |
    ⟨_, _, _, -, ⟨⟩⟩ | ⟨_, _, _, -, ⟨⟩⟩ | ⟨_, _, _, -, ⟨⟩⟩
  cases fault with
  | some f => exact absurd rfl (reads f)
  | none =>
    unfold Drain.recordRead? at entry
    split at entry
    · cases entry
    · split at entry <;> simp_all

def Reading (p : Pool α) : Prop :=
  ∀ d, p.pass = some (.draining d) → d.readFailed = false ∧ 1 ≤ d.window.limit

theorem Reading.step (h : p.Reading) (sound : p.Sound) (other : e ≠ .openPass)
    (reads : ∀ f, e ≠ .read (some f)) (stepped : p.step now e = some p') : p'.Reading := by
  intro d' draining'
  cases under : p.drain? with
  | none =>
    have still := (idle_of_step under other stepped).1
    rw [drain?_eq_some_iff.mpr draining'] at still
    cases still
  | some d =>
    have draining := drain?_eq_some_iff.mp under
    obtain ⟨going, room⟩ := h d draining
    rcases drain_moves_of_step sound draining stepped with ⟨d'', under', moves⟩ | ⟨closed, -⟩
    · cases draining'.symm.trans under'
      refine ⟨moves.going (ne_readFailed_of_step reads) going, ?_⟩
      rw [moves.limit_eq]
      exact room
    · rw [drain?_eq_some_iff.mpr draining'] at closed
      cases closed

/-- What keeps its place until the reads have come past it is dispatched. -/
theorem unread_or_dispatched (sound : p.Sound) (reading : p.Reading) (ran : p.run u = some p')
    (one : ∀ x ∈ u, x.2 ≠ .openPass) (reads : ∀ x ∈ u, ∀ f, x.2 ≠ .read (some f))
    (stands : ∀ v w s, u = v ++ w → p.run v = some s → s.Unread r → s.Stands r)
    (h : p.Unread r ∨ r ∈ dispatched seen) :
    p'.Unread r ∨ r ∈ dispatched (seen ++ p.journal u) := by
  induction u generalizing p seen with
  | nil =>
    cases ran
    simpa [journal, labels] using h
  | cons x u ih =>
    obtain ⟨now, e⟩ := x
    obtain ⟨n, first, rest⟩ := after_cons_eq_some.mp ran
    have other := one _ List.mem_cons_self
    have fine := reads _ List.mem_cons_self
    have here : n.Unread r ∨ r ∈ dispatched (seen ++ (p.record? e).toList) := by
      rcases h with unread | before
      · have queued := sound.mem_index_iff.mpr (stands [] _ p rfl rfl unread)
        obtain ⟨d, draining, unread⟩ := unread
        obtain ⟨going, room⟩ := reading d draining
        rcases drain_moves_of_step sound draining first with ⟨d', under, moves⟩ | ⟨-, -, done⟩
        · rcases moves.unread_or_dispatched sound.queue sound.chunk going
            (ne_readFailed_of_step fine) queued unread with still | read
          · exact Or.inl ⟨d', under, still⟩
          · exact Or.inr read
        · -- A pass closes only after its reads have come to the end of the queue.
          have ended := ((Window.isDone_iff room).mp done).1
          rw [unread.1] at ended
          cases ended
      · exact Or.inr (Entry.mem_dispatched_append before _)
    rw [journal_cons first, ← List.append_assoc]
    refine ih ((moves_of_step first).sound sound) (reading.step sound other fine first) rest
      (fun x hx => one x (List.mem_cons_of_mem _ hx))
      (fun x hx => reads x (List.mem_cons_of_mem _ hx)) ?_ here
    intro v w s split reached
    exact stands ((now, e) :: v) w s (by rw [split]; rfl)
      (after_cons_eq_some.mpr ⟨n, first, reached⟩)

theorem ordered_of_run (sound : m.Sound) (ran : m.run u = some p')
    (one : ∀ x ∈ u, x.2 ≠ .openPass) : Ordered m.config.chunkSize.toNat (m.journal u) := by
  have start : Ordered m.config.chunkSize.toNat ([] : List (Entry α)) :=
    ⟨by simp [Entry.batches], .nil⟩
  refine (pass_invariant (P := Drain.Ascends m.config.chunkSize.toNat) (fun h => h.1) ?_ ?_ sound
    rfl ⟨start, ?_⟩ ran one).1
  · exact fun h => h.append (x := some _) rfl
  · exact fun sound _ h moves => moves.ascends sound h
  · exact fun _ _ => ⟨start, by simp [dispatched, Entry.batches]⟩

theorem countP_batches_eq_one {chunk : Nat} (ordered : Ordered chunk (m.journal u))
    (read : r ∈ dispatched (m.journal u)) :
    (m.batches u).countP (fun b => r ∈ b.map Item.position) = 1 := by
  have once := Position.nodup_of_pairwise ordered.ascending
  rw [dispatched, List.map_flatten] at once read
  have count := countP_mem_eq_one once read
  rw [List.countP_map] at count
  exact count

theorem reading_of_opened (opened : m.pass = some (.draining (.new m.config.concurrency.toNat))) :
    m.Reading := by
  intro d draining
  cases opened.symm.trans draining
  exact ⟨rfl, Window.one_le_limit_new _⟩

/-- The batches of a pass are those that it puts into its window. If its reads do not fail, none is
larger than asked for, their positions go up from each to the next, and whatever keeps its place
from the opening of the pass until the reads have come past it is in exactly one of them. -/
theorem dispatch_of_pass {c : Config} (made : new c = .ok p) (ran : p.run t = some p')
    (pass : p.LatestPass t m u) (reads : ∀ x ∈ u, ∀ f, x.2 ≠ .read (some f)) :
    (∀ k b, .read k b ∈ m.journal u ↔ m.PutsIn u k b) ∧
    (∀ b ∈ m.batches u, b.length ≤ c.chunkSize.toNat) ∧
    ((m.batches u).flatten.map Item.position).Pairwise (· < ·) ∧
    ∀ r, (∀ v w s, u = v ++ w → m.run v = some s → s.Unread r → s.Stands r) → ¬ p'.Unread r →
      (m.batches u).countP (fun b => r ∈ b.map Item.position) = 1 := by
  obtain ⟨sound, config⟩ := sound_of_new made
  obtain ⟨sound, same, opened, one⟩ := pass.opened sound
  rw [config] at same
  have ordered := ordered_of_run sound (pass.run ran) one
  rw [same] at ordered
  refine ⟨mem_journal_iff_putsIn sound (pass.run ran) one, ordered.size, ordered.ascending, ?_⟩
  intro r stands passed
  have start : m.Unread r := ⟨_, opened, rfl, trivial⟩
  have before : m.Unread r ∨ r ∈ dispatched ([] : List (Entry α)) := Or.inl start
  have read := (unread_or_dispatched sound (reading_of_opened opened) (pass.run ran) one reads
    stands before).resolve_left passed
  exact countP_batches_eq_one ordered read

/-- Three items are queued before a pass. -/
def threeQueued : List (Nat × Event Nat) := [
  (0, .start .zero), (0, .turn),
  (0, .save [⟨"a", .epoch, 1⟩, ⟨"b", .epoch, 1⟩, ⟨"c", .epoch, 1⟩] none), (0, .note)]

/-- The first two are read. One is satisfied and comes back where it was, the other goes behind the
third, which is read then. -/
def requeued : List (Nat × Event Nat) := [
  (0, .read none), (1, .prechecked 0 (.ok true)), (1, .prechecked 0 (.ok false)),
  (2, .cleared 0 none), (3, .save [⟨"a", .epoch, 2⟩, ⟨"b", later, 2⟩] none), (4, .read none),
  (5, .read none)]

theorem dispatch_of_pass_requeued : ∃ p m p' : Pool Nat, new { chunkSize := 2 } = .ok p ∧
    p.LatestPass (threeQueued ++ (0, .openPass) :: requeued) m requeued ∧
      m.run requeued = some p' ∧
      m.batches requeued =
        [[⟨"a", .epoch, 1⟩, ⟨"b", .epoch, 1⟩], [⟨"c", .epoch, 1⟩, ⟨"b", later, 2⟩]] ∧
      m.PutsIn requeued 1 [⟨"c", .epoch, 1⟩, ⟨"b", later, 2⟩] ∧
      ((m.batches requeued).flatten.map Item.position).Pairwise (· < ·) ∧
      (m.batches requeued).countP (fun b => ⟨.epoch, "c"⟩ ∈ b.map Item.position) = 1 := by
  refine ⟨_, _, _, rfl, ⟨threeQueued, 0, _, rfl, rfl, rfl, by simp [requeued]⟩, rfl, rfl, ?_⟩
  have result := dispatch_of_pass (c := { chunkSize := 2 })
    (t := threeQueued ++ (0, .openPass) :: requeued) rfl rfl
    ⟨threeQueued, 0, _, rfl, rfl, rfl, by simp [requeued]⟩ (by simp [requeued])
  refine ⟨(result.1 1 _).mp ?_, result.2.2.1, result.2.2.2 ⟨.epoch, "c"⟩ ?_ ?_⟩
  · exact List.mem_of_getElem? (show (journal _ requeued)[4]? = some _ from rfl)
  · intro v w s split reached _
    have part : v ∈ requeued.inits := (List.mem_inits _ _).mpr ⟨w, split.symm⟩
    fin_cases part <;> cases reached <;> exact ⟨_, rfl, rfl⟩
  · rintro ⟨d, ⟨⟩, exhausted, -⟩
    cases exhausted

end Pool
end ChainFetch.Work
