import Mathlib.Algebra.GroupWithZero.Nat
import ChainFetch.Proofs.Work.Faults
/-!
How long a pass lasts in which nothing is added. Kept items stay queued, so what gets less is not
the queue but what lies above the last position read: each read takes a whole page off it, and what
is removed meanwhile can only shorten it. Main statement: `ends_of_pass`.
-/

namespace ChainFetch.Work

variable {α : Type}

/-- How many pages of `size` positions `n` positions fill, the last one perhaps in part. -/
def pages (n size : Nat) : Nat := (n + size - 1) / size

theorem pages_le {m n : Nat} (h : m ≤ n) (size : Nat) : pages m size ≤ pages n size :=
  Nat.div_le_div_right (by omega)

theorem pages_lt {m n size : Nat} (room : 0 < size) (some : 0 < n) (less : m ≤ n - size) :
    pages m size < pages n size := by
  have next : pages m size + 1 = (m + size - 1 + size) / size := (Nat.add_div_right _ room).symm
  rcases Nat.lt_or_ge n size with short | full
  · have none : pages m size = 0 := Nat.div_eq_of_lt (by omega)
    have one : 0 < pages n size := Nat.div_pos (by omega) room
    omega
  · have fits : (m + size - 1 + size) / size ≤ pages n size := Nat.div_le_div_right (by omega)
    omega

namespace Queue

variable {q q' : Queue α} {after : Option Position} {chunk : Nat} {last : Item α}

theorem Sound.length_index_le_count (h : q.Sound) : q.index.length ≤ q.count := by
  have distinct : (q.index.map Position.id).Nodup := by
    refine List.Nodup.map_on (fun a ha b hb same => ?_) (Position.nodup_of_pairwise h.ascending)
    exact h.eq_of_id_eq ha hb same
  have held : q.index.map Position.id ⊆ q.items.entries.map Prod.fst := by
    intro id mem
    obtain ⟨p, indexed, rfl⟩ := List.mem_map.mp mem
    obtain ⟨i, found, -⟩ := (h.indexed p).mp indexed
    obtain ⟨x, found, -⟩ := Option.map_eq_some_iff.mp found
    have named := List.find?_some found
    simp only [decide_eq_true_eq] at named
    rw [← named]
    exact List.mem_map_of_mem (List.mem_of_find?_eq_some found)
  have fits := (distinct.subperm held).length_le
  rw [List.length_map, List.length_map] at fits
  exact fits

theorem Sound.length_above_le (h : q'.Sound) (less : q'.index ⊆ q.index) (after : Option Position) :
    (q'.above after).length ≤ (q.above after).length := by
  have distinct := Position.nodup_of_pairwise (h.above_ascending after)
  refine (distinct.subperm fun p mem => ?_).length_le
  obtain ⟨held, above⟩ := mem_above.mp mem
  exact mem_above.mpr ⟨less held, above⟩

theorem Sound.length_above_read (h : q.Sound)
    (ends : (q.readAfter after chunk).getLast? = some last) :
    (q.above (some last.position)).length ≤ (q.above after).length - chunk ∧
      (q.readAfter after chunk).length = min chunk (q.above after).length := by
  have page := h.map_position_readAfter after chunk
  have reached : last.position ∈ q.above after := by
    refine List.mem_of_mem_take (i := chunk) ?_
    rw [← page]
    exact List.mem_map_of_mem (List.mem_of_getLast? ends)
  refine ⟨?_, ?_⟩
  · rw [← List.length_drop]
    have distinct := Position.nodup_of_pairwise (h.above_ascending (some last.position))
    refine (distinct.subperm fun p mem => ?_).length_le
    obtain ⟨held, beyond⟩ := mem_above.mp mem
    have above : p ∈ q.above after := by
      refine mem_above.mpr ⟨held, ?_⟩
      have before := (mem_above.mp reached).2
      cases after with
      | none => trivial
      | some a => exact Position.lt_trans before beyond
    rw [← List.take_append_drop chunk (q.above after), List.mem_append] at above
    refine above.resolve_left fun read => ?_
    rw [← page] at read
    exact h.not_lt_of_mem_readAfter ends read beyond
  · rw [← List.length_map Item.position, page, List.length_take]

end Queue

namespace Event

def adds : Event α → Bool
  | .save (_ :: _) none => true
  | _ => false

end Event

namespace Drain

variable {d d' : Drain α} {q q' : Queue α} {chunk k : Nat} {fault : Option StoreFailure}
  {b b' : Batch α}

def unread (d : Drain α) (q : Queue α) : Nat := (q.above d.position).length

/-- How often the queue can still be read: once for each page, and once to see its end. -/
def readsLeft (d : Drain α) (q : Queue α) (chunk : Nat) : Nat :=
  if d.window.exhausted || d.readFailed then 0 else pages (d.unread q) chunk + 1

/-- How many steps the batches in flight can still make: an answer for each step of their rank, and
their collection. -/
def load (d : Drain α) : Nat := (d.window.running.map fun r => r.2.rank + 1).sum

/-- How many steps come with what is not yet read: two checks of each item, and of each page its
read, its removals, its work and its collection. A read that fails leaves another to end the
reads. -/
def ahead (d : Drain α) (q : Queue α) (chunk : Nat) : Nat :=
  if d.window.exhausted then 0
  else if d.readFailed then 1
  else 2 * d.unread q + 5 * pages (d.unread q) chunk + 3

/-- How many steps a pass can still make, its close among them. -/
def stepsLeft (d : Drain α) (q : Queue α) (chunk : Nat) : Nat := d.ahead q chunk + d.load + 1

theorem left_of_put (numbered : d.window.Numbered) (found : d.window.get? k = some b)
    (nearer : b'.rank < b.rank) (q : Queue α) (chunk : Nat) :
    (d.put k b').readsLeft q chunk = d.readsLeft q chunk ∧
      (d.put k b').stepsLeft q chunk + 1 ≤ d.stepsLeft q chunk := by
  obtain ⟨before, later, whole, moved, -⟩ := numbered.running_split found
  have lighter : (d.put k b').load + 1 ≤ d.load := by
    rw [load, load, put, moved, whole]
    simp only [List.map_append, List.map_cons, List.sum_append, List.sum_cons]
    omega
  have same : (d.put k b').ahead q chunk = d.ahead q chunk := rfl
  refine ⟨rfl, ?_⟩
  rw [stepsLeft, stepsLeft, same]
  omega

theorem left_of_collect (numbered : d.window.Numbered) (collects : d.collect k = some d')
    (q : Queue α) (chunk : Nat) :
    d'.readsLeft q chunk = d.readsLeft q chunk ∧
      d'.stepsLeft q chunk + 1 ≤ d.stepsLeft q chunk := by
  obtain ⟨result, w, found, completed, rfl⟩ := collect_cases collects
  obtain ⟨before, later, whole, -, left⟩ := numbered.running_split found
  rw [Window.complete?_cases completed, left]
  have lighter : (before.map fun r => r.2.rank + 1).sum + (later.map fun r => r.2.rank + 1).sum +
      1 ≤ d.load := by
    rw [load, whole]
    simp only [List.map_append, List.map_cons, List.sum_append, List.sum_cons]
    omega
  refine ⟨rfl, ?_⟩
  simp only [stepsLeft, ahead, load, unread, List.map_append, List.sum_append] at lighter ⊢
  omega

theorem left_le (sound : q'.Sound) (less : q'.index ⊆ q.index) (d : Drain α) (chunk : Nat) :
    d.readsLeft q' chunk ≤ d.readsLeft q chunk ∧ d.stepsLeft q' chunk ≤ d.stepsLeft q chunk := by
  have fewer : d.unread q' ≤ d.unread q := sound.length_above_le less d.position
  have fill := pages_le fewer chunk
  refine ⟨?_, ?_⟩
  · unfold readsLeft
    split <;> omega
  · refine Nat.succ_le_succ (Nat.add_le_add_right ?_ _)
    unfold ahead
    split
    · exact Nat.le_refl _
    · split <;> omega

theorem left_of_read (sound : q.Sound) (room : 0 < chunk) (h : d.read q chunk fault = some d') :
    d'.readsLeft q chunk + (!d.readFailed).toNat ≤ d.readsLeft q chunk ∧
      d'.stepsLeft q chunk + 1 ≤ d.stepsLeft q chunk := by
  have opened : ∀ w, w.isOpen = true → (w : Window (Batch α) (Except Failure Report)).exhausted =
      false := by
    intro w opened
    simp only [Window.isOpen, Bool.and_eq_true, Bool.not_eq_true'] at opened
    exact opened.1
  rcases read_cases h with ⟨w, closed, rfl, -⟩ | ⟨w, f, pulled, rfl, -, going⟩ |
    ⟨w, last, ends, pulled, going, rfl, -⟩
  · obtain ⟨flows, rfl⟩ := Window.close?_cases closed
    have flows := opened _ flows
    refine ⟨?_, ?_⟩
    · cases failed : d.readFailed <;> simp [readsLeft, flows, failed]
    · simp only [stepsLeft, ahead, load, flows, if_true, Bool.false_eq_true, if_false]
      split <;> omega
  · obtain ⟨flows, rfl⟩ := Window.pull?_cases pulled
    have flows := opened _ flows
    simp [readsLeft, stepsLeft, ahead, load, flows, going, Batch.rank]
    omega
  · obtain ⟨flows, rfl⟩ := Window.pull?_cases pulled
    have flows := opened _ flows
    obtain ⟨less, length⟩ := sound.length_above_read ends
    have some : 0 < (q.above d.position).length := by
      have nonempty := List.length_pos_of_mem (List.mem_of_getLast? ends)
      omega
    have page := pages_lt room some less
    have rank := Batch.rank_check_le (q.readAfter d.position chunk) [] []
    simp only [readsLeft, stepsLeft, ahead, load, unread, flows, going, Bool.or_self,
      Bool.false_eq_true, if_false, Bool.not_false, Bool.toNat_true, List.map_append,
      List.map_cons, List.map_nil, List.sum_append, List.sum_cons, List.sum_nil, List.length_nil,
      Batch.start] at rank ⊢
    omega

end Drain

namespace Pool

variable {p p' m s : Pool α} {now k : Nat} {e : Event α} {d d' : Drain α}
  {t v : List (Nat × Event α)}

/-- Whether an event reads the queue. After a read that failed a pass asks for no other. -/
def asks (p : Pool α) : Event α → Bool
  | .read _ => p.drain?.any fun d => !d.readFailed
  | _ => false

def reads (p : Pool α) (t : List (Nat × Event α)) : Nat := (labels step asks p t).count true

def passSteps (t : List (Nat × Event α)) : Nat := t.countP (·.2.ofPass)

def readsLeft (p : Pool α) : Nat :=
  (p.drain?.map fun d => d.readsLeft p.queue p.config.chunkSize.toNat).getD 0

def stepsLeft (p : Pool α) : Nat :=
  (p.drain?.map fun d => d.stepsLeft p.queue p.config.chunkSize.toNat).getD 0

theorem left_of_draining (draining : p.pass = some (.draining d)) :
    p.readsLeft = d.readsLeft p.queue p.config.chunkSize.toNat ∧
      p.stepsLeft = d.stepsLeft p.queue p.config.chunkSize.toNat := by
  rw [readsLeft, stepsLeft, drain?_eq_some_iff.mpr draining]
  exact ⟨rfl, rfl⟩

theorem left_of_idle (idle : p.drain? = none) : p.readsLeft = 0 ∧ p.stepsLeft = 0 := by
  rw [readsLeft, stepsLeft, idle]
  exact ⟨rfl, rfl⟩

/-! ## One step -/

theorem asks_of_foreign (foreign : e.ofPass = false) : p.asks e = false := by
  cases e with
  | read fault => cases foreign
  | _ => rfl

theorem index_subset_of_step (sound : p.Sound) (still : e.adds = false)
    (stepped : p.step now e = some p') : p'.queue.index ⊆ p.queue.index := by
  have unsaved : ∀ items, p.act e ≠ .save items := by
    intro items
    cases e with
    | save items fault =>
      cases items with
      | nil => simp [act]
      | cons i items =>
        cases fault with
        | none => cases still
        | some f => simp [act]
    | remove ids fault => cases fault <;> simp [act]
    | prechecked k a => simp only [act]; split <;> simp
    | cleared k fault =>
      cases fault with
      | none => simp only [act]; split <;> simp
      | some f => simp [act]
    | removed k fault =>
      cases fault with
      | none => simp only [act]; split <;> simp
      | some f => simp [act]
    | _ => simp [act]
  have moved := moves_of_step stepped
  generalize p.act e = a at moved unsaved
  cases moved with
  | save items => exact absurd rfl (unsaved items)
  | remove ids => exact fun r held => sound.queue.mem_index_of_remove ids held
  | batch d k b b' shown taken =>
    exact fun r held => ((sound.queue.mem_index_removeDispatched taken).mp held).1
  | _ => exact List.Subset.refl _

theorem left_of_foreign (sound : p.Sound) (other : e ≠ .openPass) (still : e.adds = false)
    (foreign : e.ofPass = false) (stepped : p.step now e = some p') :
    p'.readsLeft ≤ p.readsLeft ∧ p'.stepsLeft ≤ p.stepsLeft := by
  cases under : p.drain? with
  | none =>
    have idle := left_of_idle (idle_of_step under other stepped).1
    rw [idle.1, idle.2]
    exact ⟨Nat.zero_le _, Nat.zero_le _⟩
  | some d =>
    have draining := drain?_eq_some_iff.mp under
    have after := (pass_of_foreign sound draining foreign stepped).trans draining
    have left := Drain.left_le ((moves_of_step stepped).sound sound).queue
      (index_subset_of_step sound still stepped) d p.config.chunkSize.toNat
    rw [(left_of_draining draining).1, (left_of_draining draining).2, (left_of_draining after).1,
      (left_of_draining after).2, (moves_of_step stepped).config_eq]
    exact left

/-- A step of a pass leaves it one step less, and one that reads the queue one read less. -/
theorem left_of_own (sound : p.Sound) (still : e.adds = false) (own : e.ofPass = true)
    (stepped : p.step now e = some p') :
    p'.readsLeft + (p.asks e).toNat ≤ p.readsLeft ∧ p'.stepsLeft + 1 ≤ p.stepsLeft := by
  obtain ⟨d, draining⟩ := draining_of_ofPass own stepped
  have numbered := sound.numbered d draining
  -- The pass goes on with `d'` over the queue of before, of which something may be taken out.
  have onward : ∀ d' n, p'.pass = some (.draining d') →
      d'.readsLeft p.queue p.config.chunkSize.toNat + n ≤
        d.readsLeft p.queue p.config.chunkSize.toNat →
      d'.stepsLeft p.queue p.config.chunkSize.toNat + 1 ≤
        d.stepsLeft p.queue p.config.chunkSize.toNat →
      p'.readsLeft + n ≤ d.readsLeft p.queue p.config.chunkSize.toNat ∧
        p'.stepsLeft + 1 ≤ d.stepsLeft p.queue p.config.chunkSize.toNat := by
    intro d' n after reads steps
    have left := Drain.left_le ((moves_of_step stepped).sound sound).queue
      (index_subset_of_step sound still stepped) d' p.config.chunkSize.toNat
    rw [(left_of_draining after).1, (left_of_draining after).2, (moves_of_step stepped).config_eq]
    omega
  rw [(left_of_draining draining).1, (left_of_draining draining).2]
  cases answers : e.batch? with
  | some k =>
    obtain ⟨d', b, b', same, found, taken, after, -⟩ := step_answer answers stepped
    cases draining.symm.trans same
    have left := Drain.left_of_put numbered found (Batch.rank_lt_of_take? taken) p.queue
      p.config.chunkSize.toNat
    have unasked : p.asks e = false := by
      cases e with
      | read fault => cases answers
      | _ => rfl
    rw [unasked]
    exact onward _ 0 after (Nat.le_of_eq left.1) left.2
  | none =>
    cases e with
    | read fault =>
      obtain ⟨d₀, d', same, reads, rfl⟩ := read_cases stepped
      cases draining.symm.trans same
      have left := Drain.left_of_read sound.queue sound.chunk reads
      rw [asks, drain?_eq_some_iff.mpr draining, Option.any_some]
      exact onward d' _ rfl left.1 left.2
    | collect k =>
      obtain ⟨d₀, d', same, collects, rfl⟩ := collect_cases stepped
      cases draining.symm.trans same
      have left := Drain.left_of_collect numbered collects p.queue p.config.chunkSize.toNat
      exact onward d' 0 rfl (Nat.le_of_eq left.1) left.2
    | closePass =>
      have closed : p'.drain? = none := by
        obtain ⟨-, -, -, ⟨_, -, rfl⟩ | ⟨_, -, rfl⟩⟩ := closePass_cases stepped <;> rfl
      rw [(left_of_idle closed).1, (left_of_idle closed).2]
      exact ⟨Nat.zero_le _, Nat.succ_le_succ (Nat.zero_le _)⟩
    | prechecked | cleared | handled | verified | removed => cases answers
    | _ => cases own

theorem left_of_step (sound : p.Sound) (other : e ≠ .openPass) (still : e.adds = false)
    (stepped : p.step now e = some p') :
    p'.readsLeft + (p.asks e).toNat ≤ p.readsLeft ∧
      p'.stepsLeft + e.ofPass.toNat ≤ p.stepsLeft := by
  cases own : e.ofPass with
  | false =>
    rw [asks_of_foreign own]
    exact left_of_foreign sound other still own stepped
  | true => exact left_of_own sound still own stepped

/-! ## A whole pass -/

theorem left_of_run (sound : p.Sound) (ran : p.run v = some s)
    (one : ∀ x ∈ v, x.2 ≠ .openPass) (still : ∀ x ∈ v, x.2.adds = false) :
    s.readsLeft + p.reads v ≤ p.readsLeft ∧ s.stepsLeft + passSteps v ≤ p.stepsLeft := by
  induction v generalizing p with
  | nil =>
    cases ran
    exact ⟨Nat.le_refl _, Nat.le_refl _⟩
  | cons x v ih =>
    obtain ⟨now, e⟩ := x
    obtain ⟨n, first, rest⟩ := after_cons_eq_some.mp ran
    have here := left_of_step sound (one (now, e) List.mem_cons_self)
      (still (now, e) List.mem_cons_self) first
    dsimp only at here
    have later := ih ((moves_of_step first).sound sound) rest
      (fun y mem => one y (List.mem_cons_of_mem _ mem))
      (fun y mem => still y (List.mem_cons_of_mem _ mem))
    have asked : p.reads ((now, e) :: v) = n.reads v + (p.asks e).toNat := by
      rw [reads, labels_cons first, List.count_cons, ← reads]
      cases p.asks e <;> rfl
    have made : passSteps ((now, e) :: v) = passSteps v + e.ofPass.toNat := by
      rw [passSteps, List.countP_cons, ← passSteps]
      cases e.ofPass <;> rfl
    omega

/-- A pass during which nothing is added, over a queue of `n` items, whatever is answered to it and
whatever is removed meanwhile: it reads the queue at most once for each page of it and once more; it
makes a bounded number of steps, so that it ends; and until its end it has a step to make, whatever
it waits for. -/
theorem ends_of_pass {c : Config} (made : new c = .ok p) (ran : p.run t = some s)
    (pass : p.LatestPass t m v) (still : ∀ x ∈ v, x.2.adds = false) :
    m.reads v ≤ pages m.count c.chunkSize.toNat + 1 ∧
    passSteps v ≤ 2 * m.count + 5 * pages m.count c.chunkSize.toNat + 4 ∧
    ∀ d, s.pass = some (.draining d) → s.GoesOn d ∧
      passSteps v < 2 * m.count + 5 * pages m.count c.chunkSize.toNat + 4 := by
  obtain ⟨sound, config⟩ := sound_of_new made
  obtain ⟨soundly, same, opened, one⟩ := pass.opened sound
  have settled := settled_of_pass pass sound ran
  have left := left_of_run soundly (pass.run ran) one still
  have fits : m.queue.index.length ≤ m.count := soundly.queue.length_index_le_count
  have fill := pages_le fits c.chunkSize.toNat
  have start := left_of_draining opened
  rw [same, config] at start
  have reads : m.readsLeft = pages m.queue.index.length c.chunkSize.toNat + 1 := start.1
  have steps : m.stepsLeft =
      2 * m.queue.index.length + 5 * pages m.queue.index.length c.chunkSize.toNat + 4 := start.2
  refine ⟨by omega, by omega, fun d draining => ?_⟩
  have going : 0 < s.stepsLeft := by
    rw [(left_of_draining draining).2]
    exact Nat.succ_pos _
  exact ⟨goesOn settled.sound draining (settled.lively d draining), by omega⟩

def byTwo : Config where
  chunkSize := 2
  concurrency := 2

/-- A pass reads two of three items and the handler keeps both; the third is removed before the next
read, which finds the end of the queue. -/
def endsEarly : List (Nat × Event Nat) := [
  (0, .read none), (1, .prechecked 0 (.ok false)), (1, .remove ["c"] none),
  (2, .prechecked 0 (.error (.work "down"))), (3, .handled 0 (.error (.work "down"))),
  (4, .read none)]

theorem ends_of_pass_endsEarly : ∃ p m s : Pool Nat, new byTwo = .ok p ∧
    p.run (threeQueued ++ (0, .openPass) :: endsEarly) = some s ∧
      p.LatestPass (threeQueued ++ (0, .openPass) :: endsEarly) m endsEarly ∧
      m.count = 3 ∧ m.reads endsEarly ≤ 3 ∧ passSteps endsEarly < 20 ∧
      ∃ d, s.pass = some (.draining d) ∧ s.GoesOn d := by
  have ends := ends_of_pass (c := byTwo) (t := threeQueued ++ (0, .openPass) :: endsEarly) rfl rfl
    ⟨threeQueued, 0, _, rfl, rfl, rfl, by simp [endsEarly]⟩ (by decide)
  obtain ⟨goesOn, short⟩ := ends.2.2 _ rfl
  exact ⟨_, _, _, rfl, rfl, ⟨threeQueued, 0, _, rfl, rfl, rfl, by simp [endsEarly]⟩, rfl, ends.1,
    short, _, rfl, goesOn⟩

end Pool
end ChainFetch.Work
