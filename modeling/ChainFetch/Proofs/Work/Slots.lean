import ChainFetch.Proofs.Work.Dispatch
import ChainFetch.Proofs.Work.Earned
/-!
Who holds a position. In a pass each position that was read is held by one batch at most, which
takes it out or lets go of it, and none is taken out twice. Main statements: `Batch.Moves.subperm`,
what one answer does with what a batch holds, and `Slotted.run`.
-/

namespace ChainFetch.Work

variable {α : Type}

namespace Batch

variable {b b' : Batch α} {shown : List (Item α)} {taken : List Position}

theorem Moves.subperm (m : Moves b shown taken b') : (taken ++ b'.held).Subperm b.held := by
  cases m with
  | prechecked i unchecked satisfied remaining a =>
    have postponed : ((check unchecked satisfied (remaining ++ [i])).held).Perm
        (Batch.checking (i :: unchecked) satisfied remaining).held := by
      rw [held_check, List.perm_iff_count]
      intro r
      simp only [Batch.held, List.map_cons, List.map_append, List.map_nil, List.count_append,
        List.count_cons, List.count_nil]
      omega
    rw [List.nil_append]
    rcases a with e | satisfies
    · exact postponed.subperm
    · cases satisfies
      · exact postponed.subperm
      · refine List.Perm.subperm ?_
        rw [Batch.prechecked, held_check, List.perm_iff_count]
        intro r
        simp only [Batch.held, List.map_cons, List.count_append, List.count_cons, List.count_nil]
        omega
  | cleared remaining =>
    rw [held_handle]
    exact List.Subperm.refl _
  | handled items a =>
    rcases a with e | hint
    · exact List.nil_subperm
    · rw [Batch.handled, held_verify, List.nil_append, List.append_nil]
      exact List.Subperm.refl _
  | verified i unverified completed report a =>
    rw [List.nil_append]
    rcases a with e | complete
    · rw [Batch.verified, held_verify]
      exact (List.sublist_cons_self _ _).subperm
    · cases complete
      · rw [Batch.verified, held_verify]
        exact (List.sublist_cons_self _ _).subperm
      · refine List.Perm.subperm ?_
        rw [Batch.verified, held_verify, List.perm_iff_count]
        intro r
        simp only [Batch.held, List.map_cons, List.count_append, List.count_cons, List.count_nil]
        omega
  | removed report =>
    change (taken ++ []).Subperm taken
    rw [List.append_nil]
  | failed e => exact List.nil_subperm

end Batch

namespace Drain

/-- Each position is held by one batch in flight, once, and is none of those that are `gone`; the
reads have come past all of these. -/
structure Slotted (gone : List Position) (d : Drain α) : Prop where
  once : ∀ n b, (n, b) ∈ d.window.running → b.held.Nodup
  left : ∀ n b, (n, b) ∈ d.window.running → ∀ r ∈ b.held, r ∉ gone ∧ ¬ r.IsAbove d.position
  apart : ∀ n b n' b', (n, b) ∈ d.window.running → (n', b') ∈ d.window.running → n ≠ n' →
    ∀ r ∈ b.held, r ∉ b'.held
  passed : ∀ r ∈ gone, ¬ r.IsAbove d.position

theorem slotted_new (concurrency : Nat) : (new concurrency : Drain α).Slotted [] where
  once n b running := by cases running
  left n b running := by cases running
  apart n b n' b' running := by cases running
  passed r mem := by cases mem

variable {d d' : Drain α} {gone : List Position} {k : Nat} {b b' : Batch α}

theorem Slotted.mono {gone' : List Position} (h : d.Slotted gone)
    (same : ∀ r ∈ gone', r ∈ gone) : d.Slotted gone' where
  once := h.once
  left n b running r held := ⟨fun mem => (h.left n b running r held).1 (same r mem),
    (h.left n b running r held).2⟩
  apart := h.apart
  passed r mem := h.passed r (same r mem)

theorem Slotted.put {taken : List Position} (h : d.Slotted gone) (numbered : d.window.Numbered)
    (found : d.window.get? k = some b) (fewer : (taken ++ b'.held).Subperm b.held) :
    (d.put k b').Slotted (gone ++ taken) ∧ ∀ r ∈ taken, r ∉ gone := by
  have flies := numbered.get?_eq_some_iff.mp found
  have distinct : (taken ++ b'.held).Nodup := by
    obtain ⟨l, perm, sub⟩ := fewer
    exact perm.nodup_iff.mp ((h.once k b flies).sublist sub)
  obtain ⟨-, inside, split⟩ := List.nodup_append.mp distinct
  have taken_held : ∀ r ∈ taken, r ∈ b.held := fun r mem =>
    fewer.subset (List.mem_append_left _ mem)
  have still_held : ∀ r ∈ b'.held, r ∈ b.held := fun r mem =>
    fewer.subset (List.mem_append_right _ mem)
  refine ⟨⟨fun n c running => ?_, fun n c running r held => ?_,
    fun n c n' c' running running' other r held => ?_, fun r mem => ?_⟩, fun r mem => ?_⟩
  · rcases (numbered.mem_running_set found).mp running with moved | ⟨-, same⟩
    · cases moved
      exact inside
    · exact h.once n c same
  · rcases (numbered.mem_running_set found).mp running with moved | ⟨other, same⟩
    · cases moved
      obtain ⟨here, below⟩ := h.left k b flies r (still_held r held)
      refine ⟨fun mem => ?_, below⟩
      rcases List.mem_append.mp mem with mem | mem
      · exact here mem
      · exact split r mem r held rfl
    · obtain ⟨here, below⟩ := h.left n c same r held
      refine ⟨fun mem => ?_, below⟩
      rcases List.mem_append.mp mem with mem | mem
      · exact here mem
      · exact h.apart n c k b same flies other r held (taken_held r mem)
  · rcases (numbered.mem_running_set found).mp running with moved | ⟨far, same⟩
    · cases moved
      rcases (numbered.mem_running_set found).mp running' with moved | ⟨far, same⟩
      · cases moved
        exact absurd rfl other
      · exact h.apart k b n' c' flies same other r (still_held r held)
    · rcases (numbered.mem_running_set found).mp running' with moved | ⟨far', same'⟩
      · cases moved
        exact fun mem => h.apart n c k b same flies other r held (still_held r mem)
      · exact h.apart n c n' c' same same' other r held
  · rcases List.mem_append.mp mem with mem | mem
    · exact h.passed r mem
    · exact (h.left k b flies r (taken_held r mem)).2
  · exact (h.left k b flies r (taken_held r mem)).1

theorem Slotted.pull (h : d.Slotted gone)
    (window : d'.window.running = d.window.running ++ [(k, b)]) (distinct : b.held.Nodup)
    (new : ∀ r ∈ b.held, r.IsAbove d.position ∧ ¬ r.IsAbove d'.position)
    (further : ∀ r : Position, ¬ r.IsAbove d.position → ¬ r.IsAbove d'.position) :
    d'.Slotted gone := by
  have cases_of : ∀ n c, (n, c) ∈ d'.window.running →
      (n, c) ∈ d.window.running ∨ n = k ∧ c = b := by
    intro n c running
    rw [window] at running
    simpa using running
  refine ⟨fun n c running => ?_, fun n c running r held => ?_,
    fun n c n' c' running running' other r held => ?_, fun r mem => further r (h.passed r mem)⟩
  · rcases cases_of n c running with before | ⟨rfl, rfl⟩
    · exact h.once n c before
    · exact distinct
  · rcases cases_of n c running with before | ⟨rfl, rfl⟩
    · exact ⟨(h.left n c before r held).1, further r (h.left n c before r held).2⟩
    · exact ⟨fun mem => h.passed r mem (new r held).1, (new r held).2⟩
  · rcases cases_of n c running with before | ⟨rfl, rfl⟩
    · rcases cases_of n' c' running' with before' | ⟨rfl, rfl⟩
      · exact h.apart n c n' c' before before' other r held
      · exact fun mem => (h.left n c before r held).2 (new r mem).1
    · rcases cases_of n' c' running' with before' | ⟨rfl, -⟩
      · exact fun mem => (h.left n' c' before' r mem).2 (new r held).1
      · exact absurd rfl other

theorem Slotted.read {q : Queue α} {chunk : Nat} {fault : Option StoreFailure}
    (h : d.Slotted gone) (sound : q.Sound)
    (reads : d.read q chunk fault = some d') : d'.Slotted gone := by
  rcases read_cases reads with ⟨w, closed, rfl, -⟩ | ⟨w, e, pulled, rfl, -⟩ |
    ⟨w, last, ends, pulled, -, rfl, -⟩
  · obtain ⟨-, rfl⟩ := Window.close?_cases closed
    exact ⟨h.once, h.left, h.apart, h.passed⟩
  · obtain ⟨-, rfl⟩ := Window.pull?_cases pulled
    refine h.pull rfl List.nodup_nil (fun r held => ?_) fun r under => under
    cases held
  · -- The new batch holds what it has read, all of it above what the reads had come past.
    obtain ⟨-, rfl⟩ := Window.pull?_cases pulled
    have positions := sound.map_position_readAfter d.position chunk
    have ascending : ((q.readAfter d.position chunk).map Item.position).Pairwise (· < ·) := by
      rw [positions]
      exact (sound.above_ascending d.position).sublist (List.take_sublist _ _)
    have above : ∀ r ∈ (q.readAfter d.position chunk).map Item.position,
        r.IsAbove d.position := by
      intro r mem
      rw [positions] at mem
      exact (Queue.mem_above.mp (List.mem_of_mem_take mem)).2
    have final := above _ (List.mem_map_of_mem (List.mem_of_getLast? ends))
    have start := Batch.held_start (q.readAfter d.position chunk)
    refine h.pull rfl ?_ (fun r held => ?_) fun r under beyond => ?_
    · rw [start]
      exact Position.nodup_of_pairwise ascending
    · rw [start] at held
      exact ⟨above r held, sound.not_lt_of_mem_readAfter ends held⟩
    · exact Position.lt_irrefl _ (Position.lt_trans (Position.lt_of_isAbove under final) beyond)

theorem Slotted.collect (h : d.Slotted gone) (collects : d.collect k = some d') :
    d'.Slotted gone := by
  obtain ⟨result, w, -, completed, rfl⟩ := collect_cases collects
  rw [Window.complete?_cases completed]
  refine ⟨fun n b running => ?_, fun n b running => ?_, fun n b n' b' running running' => ?_,
    h.passed⟩
  · exact h.once n b (List.mem_filter.mp running).1
  · exact h.left n b (List.mem_filter.mp running).1
  · exact h.apart n b n' b' (List.mem_filter.mp running).1 (List.mem_filter.mp running').1

end Drain

namespace Pool

variable {p p' m n s s' a b : Pool α} {now k : Nat} {e : Event α} {d : Drain α}
  {t u v w : List (Nat × Event α)} {i : Item α} {r : Position} {gone : List Position}

def Slotted (gone : List Position) (p : Pool α) : Prop :=
  ∀ d, p.pass = some (.draining d) → d.Slotted gone

theorem Moves.slotted {act : Act α} (h : Moves now p act p') (sound : p.Sound)
    (slotted : p.Slotted gone) (unopened : p.pass ≠ some .opening ∨ gone = []) :
    p'.Slotted (gone ++ act.taken) ∧ ∀ r ∈ act.taken, r ∉ gone := by
  have still : p'.pass = p.pass → act.taken = [] →
      p'.Slotted (gone ++ act.taken) ∧ ∀ r ∈ act.taken, r ∉ gone := by
    intro same none
    rw [none, List.append_nil]
    exact ⟨fun d draining => slotted d (same ▸ draining), fun r mem => by cases mem⟩
  have idle : (∀ d, p'.pass ≠ some (.draining d)) → act.taken = [] →
      p'.Slotted (gone ++ act.taken) ∧ ∀ r ∈ act.taken, r ∉ gone := by
    intro closed none
    rw [none]
    exact ⟨fun d draining => absurd draining (closed d), fun r mem => by cases mem⟩
  cases h with
  | stay | save | note | wake | remove | loop => exact still rfl rfl
  | begin | closeFailed | close | passDone => exact idle (by simp) rfl
  | openPass opening =>
    refine ⟨fun d draining => ?_, fun r mem => by cases mem⟩
    cases draining
    rcases unopened with other | rfl
    · exact absurd opening other
    · exact Drain.slotted_new _
  | read d d' fault draining reads =>
    refine ⟨fun d'' after => ?_, fun r mem => by cases mem⟩
    cases after
    exact ((slotted d draining).read sound.queue reads).mono (by simp [Act.taken])
  | batch d k b b' shown taken draining found moves =>
    obtain ⟨after, apart⟩ :=
      (slotted d draining).put (sound.numbered d draining) found moves.subperm
    refine ⟨fun d'' same => ?_, apart⟩
    cases same
    exact after
  | collect d d' k draining collects =>
    refine ⟨fun d'' after => ?_, fun r mem => by cases mem⟩
    cases after
    exact ((slotted d draining).collect collects).mono (by simp [Act.taken])

theorem taken_cons (h : p.step now e = some m) :
    p.taken ((now, e) :: t) = (p.act e).taken ++ m.taken t := by
  rw [taken, acts_cons h, List.flatMap_cons]
  rfl

theorem taken_append (h : p.run t = some m) : p.taken (t ++ u) = p.taken t ++ m.taken u := by
  rw [taken, acts, labels_append h, List.flatMap_append]
  rfl

/-- What is gone before is not taken out again in the same pass. -/
theorem Slotted.run (slotted : p.Slotted gone) (sound : p.Sound) (ran : p.run u = some s)
    (one : ∀ x ∈ u, x.2 ≠ .openPass) :
    s.Slotted (gone ++ p.taken u) ∧ ∀ r ∈ p.taken u, r ∉ gone := by
  induction u generalizing p gone with
  | nil =>
    cases ran
    refine ⟨fun d draining => (slotted d draining).mono ?_, fun r mem => by cases mem⟩
    intro r mem
    rcases List.mem_append.mp mem with mem | mem
    · exact mem
    · cases mem
  | cons x u ih =>
    obtain ⟨now, e⟩ := x
    obtain ⟨m, first, rest⟩ := after_cons_eq_some.mp ran
    have moved := moves_of_step first
    have here : m.Slotted (gone ++ (p.act e).taken) ∧ ∀ r ∈ (p.act e).taken, r ∉ gone := by
      cases under : p.drain? with
      | none =>
        have still := (idle_of_step under (one _ List.mem_cons_self) first).1
        refine ⟨fun d draining => ?_, fun r mem => ?_⟩
        · rw [drain?_eq_some_iff.mpr draining] at still
          cases still
        · obtain ⟨d, draining⟩ := moved.draining_of_taken mem
          rw [drain?_eq_some_iff.mpr draining] at under
          cases under
      | some d =>
        have draining := drain?_eq_some_iff.mp under
        exact moved.slotted sound slotted (Or.inl (by simp [draining]))
    obtain ⟨after, later⟩ := ih here.1 (moved.sound sound) rest
      fun y mem => one y (List.mem_cons_of_mem _ mem)
    rw [taken_cons first, ← List.append_assoc]
    refine ⟨after, fun r mem => ?_⟩
    rcases List.mem_append.mp mem with mem | mem
    · exact here.2 r mem
    · exact fun before => later r mem (List.mem_append_left _ before)

end Pool
end ChainFetch.Work
