import ChainFetch.Proofs.Fetch.Ledger
import ChainFetch.Proofs.Fetch.Stopping
/-!
The gate before the backward direction, where both directions have a loop. Whatever a step does, the
two of them stand in one of four ways: `stands_of_run`. Main statement: `backward_waits`.
-/

namespace ChainFetch.Fetch

open Schedule (Loop Effect)

variable {γ : Type}

/-- How forward with loop `l` and backward with loop `b` stand before the gate: no task is set off,
or forward goes on without a success, or it has ended without one, or it has had one. Only then has
backward started. -/
inductive Stand (tasks : Both Task) (gate : Gate) (l b : Loop) : Prop
  | unset (forward : tasks.forward = .absent) (backward : tasks.backward = .absent)
      (closed : gate = .closed) (first : l.firstRun = true) (idle : l.stage = .unstarted)
      (still : b.stage = .unstarted)
  | shut (forward : tasks.forward = .entering ∧ l.stage = .unstarted ∨
        tasks.forward = .looping ∧ l.status = .running)
      (backward : tasks.backward = .held) (closed : gate = .closed) (first : l.firstRun = true)
      (still : b.stage = .unstarted)
  | givenUp (forward : tasks.forward = .done)
      (backward : tasks.backward = .held ∨ tasks.backward = .done) (up : gate = .givenUp)
      (ended : l.status = .finished) (first : l.firstRun = true) (still : b.stage = .unstarted)
  | opened (forward : tasks.forward ≠ .absent) (opened : gate = .opened)
      (success : l.firstRun = false)

namespace Stand

variable {tasks tasks' : Both Task} {gate : Gate} {l l' b b' : Loop} {now : Nat}
  {e : Schedule.Event} {effects : List Effect}

theorem still_of_firstRun (h : Stand tasks gate l b) (first : l.firstRun = true) :
    b.stage = .unstarted := by
  cases h with
  | opened forward opened success =>
    rw [first] at success
    cases success
  | _ => assumption

theorem idle_of_absent (h : Stand tasks gate l b) (absent : tasks.forward = .absent) :
    l.stage = .unstarted := by
  cases h with
  | unset _ _ _ _ idle => exact idle
  | shut forward =>
    rw [absent] at forward
    simp at forward
  | givenUp forward =>
    rw [absent] at forward
    cases forward
  | opened forward => exact absurd absent forward

theorem step (moved : l.step now e = some (l', effects)) (first : l.firstRun = true)
    (still : b.stage = .unstarted) (held : tasks.backward = .held)
    (goes : (l'.status = .running ∧ .returned ∉ effects ∧ tasks.forward = .looping) ∨
      (l'.status = .finished ∧ .returned ∈ effects ∧ tasks.forward = .done)) :
    Stand tasks (Gate.after .closed effects) l' b := by
  have after : Gate.after .closed effects =
      if .firstSuccess ∈ effects then .opened
      else if .returned ∈ effects then .givenUp else .closed := if_pos rfl
  rw [after]
  rcases Loop.firstRun_of_step moved with ⟨same, unseen⟩ | ⟨-, success, later, rfl⟩
  · rw [if_neg unseen]
    rcases goes with ⟨running, on, task⟩ | ⟨finished, back, task⟩
    · rw [if_neg on]
      exact .shut (Or.inr ⟨task, running⟩) held rfl (same.trans first) still
    · rw [if_pos back]
      exact .givenUp task (Or.inl held) rfl finished (same.trans first) still
  · rw [if_pos List.mem_cons_self]
    refine .opened ?_ rfl success
    rcases goes with ⟨-, -, task⟩ | ⟨-, -, task⟩ <;> simp [task]

theorem step_of_success (moved : l.step now e = some (l', effects)) (success : l.firstRun = false)
    (forward : tasks.forward ≠ .absent) : Stand tasks (Gate.after .opened effects) l' b := by
  refine .opened forward rfl ?_
  rcases Loop.firstRun_of_step moved with ⟨same, -⟩ | ⟨first, -⟩
  · exact same.trans success
  · rw [success] at first
    cases first

theorem enter {jitter : Duration} (h : Stand tasks gate l b) (sound : l.Sound)
    (task : tasks.forward = .entering) (moved : l.step now (.start jitter) = some (l', effects)) :
    Stand (tasks.set .forward (if .returned ∈ effects then .done else .looping))
      (gate.after effects) l' b := by
  cases h with
  | unset forward =>
    rw [task] at forward
    cases forward
  | shut forward backward closed first still =>
    rw [closed]
    refine step moved first still backward ?_
    have unstarted : l.stage = .unstarted := by
      rcases forward with ⟨-, unstarted⟩ | ⟨looping, -⟩
      · exact unstarted
      · rw [task] at looping
        cases looping
    rcases Loop.start_status moved with ⟨begun, rfl, back⟩ | ⟨-, running, on⟩ | ⟨-, fin, back⟩
    · exact Or.inr ⟨sound.finished_of_unstarted unstarted begun, back, if_pos back⟩
    · exact Or.inl ⟨running, on, if_neg on⟩
    · exact Or.inr ⟨fin, back, if_pos back⟩
  | givenUp forward =>
    rw [task] at forward
    cases forward
  | opened forward opened success =>
    rw [opened]
    refine step_of_success moved success ?_
    change (if .returned ∈ effects then Task.done else .looping) ≠ .absent
    split <;> simp

theorem loop (h : Stand tasks gate l b) (sound : l.Sound) (own : e.stage = .inside)
    (moved : l.step now e = some (l', effects)) :
    Stand (if .returned ∈ effects then tasks.set .forward .done else tasks) (gate.after effects)
      l' b := by
  have running := Loop.running_of_own sound own moved
  cases h with
  | unset forward backward closed first idle =>
    -- no event of its own reaches a loop outside its run
    exact absurd idle (sound.begun_of_running running)
  | shut forward backward closed first still =>
    rw [closed]
    have looping : tasks.forward = .looping := by
      rcases forward with ⟨-, unstarted⟩ | ⟨looping, -⟩
      · exact absurd unstarted (sound.begun_of_running running)
      · exact looping
    rcases Loop.own_cases own moved with ⟨same, on⟩ | ⟨fin, back⟩
    · rw [if_neg on]
      exact step moved first still backward (Or.inl ⟨same.trans running, on, looping⟩)
    · rw [if_pos back]
      exact step moved first still backward (Or.inr ⟨fin, back, rfl⟩)
  | givenUp forward backward up ended =>
    rw [running] at ended
    cases ended
  | opened forward opened success =>
    rw [opened]
    refine step_of_success moved success ?_
    split
    · simp [Both.set]
    · exact forward

theorem backward (h : Stand tasks gate l b)
    (goes : tasks.backward = .entering ∨ b.stage ≠ .unstarted)
    (forward : tasks'.forward = tasks.forward) : Stand tasks' gate l b' := by
  cases h with
  | unset _ absent _ _ _ still =>
    rw [absent] at goes
    exact absurd still (goes.resolve_left (by simp))
  | shut _ held _ _ still =>
    rw [held] at goes
    exact absurd still (goes.resolve_left (by simp))
  | givenUp _ task _ _ _ still =>
    refine absurd still (goes.resolve_left ?_)
    rcases task with held | done
    · simp [held]
    · simp [done]
  | opened set opened success => exact .opened (by rwa [forward]) opened success

theorem hush (h : Stand tasks gate l b) (first : l'.firstRun = l.firstRun)
    (stage : l'.stage = l.stage) (status : l'.status = l.status ∨ l.status = .idle)
    (still : b'.stage = b.stage) : Stand tasks gate l' b' := by
  have kept : l.status ≠ .idle → l'.status = l.status := fun begun => status.resolve_right begun
  cases h with
  | unset forward backward closed ahead idle before =>
    exact .unset forward backward closed (first.trans ahead) (stage.trans idle)
      (still.trans before)
  | shut forward backward closed ahead before =>
    refine .shut ?_ backward closed (first.trans ahead) (still.trans before)
    rcases forward with ⟨entering, idle⟩ | ⟨looping, running⟩
    · exact Or.inl ⟨entering, stage.trans idle⟩
    · exact Or.inr ⟨looping, (kept (by simp [running])).trans running⟩
  | givenUp forward backward up ended ahead before =>
    exact .givenUp forward backward up ((kept (by simp [ended])).trans ended) (first.trans ahead)
      (still.trans before)
  | opened forward opened success => exact .opened forward opened (first.trans success)

theorem release (h : Stand tasks gate l b) (held : tasks.backward = .held)
    (settled : gate ≠ .closed) :
    Stand (tasks.set .backward (if gate = .opened then .entering else .done)) gate l b := by
  cases h with
  | unset _ absent =>
    rw [held] at absent
    cases absent
  | shut _ _ closed => exact absurd closed settled
  | givenUp forward _ up ended first still =>
    exact .givenUp forward (Or.inr (if_neg (by simp [up]))) up ended first still
  | opened forward opened success => exact .opened forward opened success

end Stand

def Fetcher.Stands (f : Fetcher γ) : Prop :=
  ∀ l b, f.loops.get .forward = some l → f.loops.get .backward = some b →
    Stand f.tasks f.gate l b ∧ (f.Pending → f.tasks.forward = .absent)

namespace Fetcher

variable {f f' : Fetcher γ} {d : Direction} {l l' : Loop} {now : Nat} {effects : List Effect}

theorem stands_of_publish {c : Config} (bare : f.Bare)
    (loops : ∀ d, f'.loops.get d = c.loop? f'.memory d) (tasks : f'.tasks = f.tasks)
    (gate : f'.gate =
      if (f'.loops.get .forward).isSome && (f'.loops.get .backward).isSome then .closed
      else .opened) : f'.Stands := by
  intro a b forward backward
  have absent : ∀ d, f'.tasks.get d = .absent := by
    intro d
    rw [tasks]
    exact (bare d).2
  rw [forward, backward] at gate
  rw [loops] at forward backward
  refine ⟨.unset (absent .forward) (absent .backward) gate ?_ ?_ ?_, fun _ => absent .forward⟩
  · exact (firstRun_of_loop? forward).1
  · exact (sound_of_loop? forward).2.1
  · exact (sound_of_loop? backward).2.1

theorem Stands.launch (h : f.Stands) (before : f.Pending) (after : ¬ f'.Pending)
    (loops : f'.loops = f.loops) (tasks : f'.tasks = f.launch.tasks) (gate : f'.gate = f.gate) :
    f'.Stands := by
  intro a b forward backward
  rw [loops] at forward backward
  obtain ⟨stand, absent⟩ := h a b forward backward
  refine ⟨?_, fun waits => absurd waits after⟩
  cases stand with
  | unset _ _ closed first idle still =>
    have set : f.launch.tasks = ⟨.entering, .held⟩ := by
      have forward : f.loops.forward = some a := forward
      have backward : f.loops.backward = some b := backward
      simp [Fetcher.launch, forward, backward, closed]
    rw [tasks, gate, set]
    exact .shut (Or.inl ⟨rfl, idle⟩) rfl closed first still
  | shut forward =>
    rw [absent before] at forward
    simp at forward
  | givenUp forward =>
    rw [absent before] at forward
    cases forward
  | opened forward => exact absurd (absent before) forward

theorem Stands.set (h : f.Stands) (found : f.loops.get d = some l)
    (loops : f'.loops = f.loops.set d (some l')) (pending : f'.Pending → f.Pending)
    (forward : d = .forward → ∀ b, Stand f.tasks f.gate l b → Stand f'.tasks f'.gate l' b)
    (backward : d = .backward → ∀ a, Stand f.tasks f.gate a l → Stand f'.tasks f'.gate a l')
    (absent : ∀ a b, Stand f.tasks f.gate a b → f.tasks.forward = .absent →
      (d = .forward → a = l) → f'.tasks.forward = .absent) : f'.Stands := by
  intro a b forward' backward'
  rw [loops] at forward' backward'
  cases d with
  | forward =>
    rw [Both.get_set_self] at forward'
    rw [Both.get_set_of_ne _ (by simp)] at backward'
    cases forward'
    obtain ⟨stand, before⟩ := h l b found backward'
    exact ⟨forward rfl b stand,
      fun waits => absent l b stand (before (pending waits)) fun _ => rfl⟩
  | backward =>
    rw [Both.get_set_of_ne _ (by simp)] at forward'
    rw [Both.get_set_self] at backward'
    cases backward'
    obtain ⟨stand, before⟩ := h a l forward' found
    exact ⟨backward rfl a stand,
      fun waits => absent a l stand (before (pending waits)) (by simp)⟩

theorem Stands.hush (h : f.Stands) (found : f.loops.get d = some l) (count : l'.count = l.count)
    (stage : l'.stage = l.stage) (status : l'.status = l.status ∨ l.status = .idle)
    (loops : f'.loops = f.loops.set d (some l')) (tasks : f'.tasks = f.tasks)
    (gate : f'.gate = f.gate) (pending : f'.Pending → f.Pending) : f'.Stands := by
  have first : l'.firstRun = l.firstRun := congrArg Schedule.Count.firstRun count
  refine h.set found loops pending ?_ ?_ ?_ <;> rw [tasks]
  · rw [gate]
    exact fun _ b stand => stand.hush first stage status rfl
  · rw [gate]
    exact fun _ a stand => stand.hush rfl rfl (Or.inl rfl) stage
  · exact fun _ _ _ absent _ => absent

theorem Stands.enter {jitter : Duration} (h : f.Stands) (sound : l.Sound)
    (task : f.tasks.get d = .entering) (found : f.loops.get d = some l)
    (moved : l.step now (.start jitter) = some (l', effects))
    (loops : f'.loops = f.loops.set d (some l'))
    (tasks : f'.tasks = f.tasks.set d (if .returned ∈ effects then .done else .looping))
    (gate : f'.gate = if d = .forward then f.gate.after effects else f.gate)
    (pending : f'.Pending → f.Pending) : f'.Stands := by
  refine h.set found loops pending ?_ ?_ ?_ <;> rw [tasks]
  · rintro rfl b stand
    rw [gate]
    exact stand.enter sound task moved
  · rintro rfl a stand
    rw [gate]
    exact stand.backward (Or.inl task) rfl
  · intro a b stand absent _
    cases d with
    | forward =>
      have task : f.tasks.forward = .entering := task
      rw [task] at absent
      cases absent
    | backward => exact absent

theorem Stands.loop {e : Schedule.Event} (h : f.Stands) (sound : l.Sound)
    (found : f.loops.get d = some l) (own : e.stage = .inside)
    (moved : l.step now e = some (l', effects)) (loops : f'.loops = f.loops.set d (some l'))
    (tasks : f'.tasks = if .returned ∈ effects then f.tasks.set d .done else f.tasks)
    (gate : f'.gate = if d = .forward then f.gate.after effects else f.gate)
    (pending : f'.Pending → f.Pending) : f'.Stands := by
  have begun := sound.begun_of_running (Loop.running_of_own sound own moved)
  have other : d = .backward → f'.tasks.forward = f.tasks.forward := by
    rintro rfl
    rw [tasks]
    split <;> rfl
  refine h.set found loops pending ?_ ?_ ?_
  · rintro rfl b stand
    rw [tasks, gate]
    exact stand.loop sound own moved
  · rintro rfl a stand
    rw [gate]
    exact stand.backward (Or.inr begun) (other rfl)
  · intro a b stand absent same
    cases d with
    | forward =>
      rw [same rfl] at stand
      exact absurd (stand.idle_of_absent absent) begun
    | backward => exact (other rfl).trans absent

end Fetcher

namespace System

variable {s s' m : System γ} {now k : Nat} {a : Act γ} {e : Event γ} {d : Direction} {l b : Loop}
  {back : Option (Direction × Except Failure Schedule.Signal)} {t u : List (Nat × Event γ)}

/-- In all ways but the last backward stands still, so a step is one lemma of `Stand` for forward
and `Stand.backward` for the other direction. -/
theorem Shift.stands (shift : Shift now s s' back) (h : s.fetcher.Regular)
    (stands : s.fetcher.Stands) : s'.fetcher.Stands := by
  cases shift with
  | still loops tasks gate pending =>
    intro l b forward backward
    rw [loops] at forward backward
    obtain ⟨stand, before⟩ := stands l b forward backward
    rw [tasks, gate]
    exact ⟨stand, fun waits => before (pending waits)⟩
  | publish bare loops tasks gate => exact Fetcher.stands_of_publish bare loops tasks gate
  | launch before after loops tasks gate => exact stands.launch before after loops tasks gate
  | hush d l m found count stage status loops tasks gate pending =>
    exact stands.hush found count stage status loops tasks gate pending
  | release held settled loops tasks gate pending =>
    intro l b forward backward
    rw [loops] at forward backward
    obtain ⟨stand, before⟩ := stands l b forward backward
    rw [tasks, gate]
    exact ⟨stand.release held settled, fun waits => before (pending waits)⟩
  | enter d jitter l m effects task found moved loops tasks gate pending =>
    exact stands.enter (h.sound d l found) task found moved loops tasks gate pending
  | loop d ev l m effects back found own moved finished loops tasks gate pending =>
    exact stands.loop (h.sound d l found) found own moved loops tasks gate pending

theorem stands_of_run [Cursor γ] (regular : s.fetcher.Regular) (bare : s.fetcher.Bare)
    (ran : s.run t = some s') : s'.fetcher.Regular ∧ s'.fetcher.Stands := by
  refine after_invariant (P := fun m => m.fetcher.Regular ∧ m.fetcher.Stands) ?_ ⟨regular, ?_⟩ ran
  · intro now m e m' ⟨regular, stands⟩ stepped
    exact ⟨(moves_of_step stepped).regular regular,
      (shift_of_step regular stepped).stands regular stands⟩
  · intro l b forward
    rw [(bare .forward).1] at forward
    cases forward

/-! ## Who has started -/

theorem begun_of_act [Cursor γ] {part : Part γ} (h : s.fetcher.Regular)
    (stepped : s.step now e = some s') (acts : s.act e = .tick d part) :
    ∃ l, s.fetcher.loops.get d = some l ∧ l.stage ≠ .unstarted := by
  have ticking : ∀ {tick : Tick γ}, s.fetcher.ticks.get d = some tick →
      ∃ l, s.fetcher.loops.get d = some l ∧ l.stage ≠ .unstarted := by
    intro tick found
    obtain ⟨l, since, present, stage⟩ := h.ticking d (by simp [found])
    exact ⟨l, present, by simp [stage]⟩
  have moves := moves_of_step stepped
  rw [acts] at moves
  cases moves with
  | advance m k c c' a found moves =>
    rcases moves.memory_cases with ⟨other, -⟩ | ⟨state, load, -⟩
    · cases other
    · cases load
  | begin d clock l found ready go => exact ⟨l, found, by simp [ready]⟩
  | answer d part l tick tick' lane found => exact ticking found
  | lock d l work resume lane found => exact ticking found
  | failed d l next resume e lane found => exact ticking found
  | saved d l next resume lane found => exact ticking found
  | tickDone d result l l' effects tasks gate found finished => exact ticking finished

theorem begun_of_mem_acts [Cursor γ] {part : Part γ} (regular : s.fetcher.Regular)
    (ran : s.run t = some s') (acted : .tick d part ∈ s.acts t) :
    ∃ l, s'.fetcher.loops.get d = some l ∧ l.stage ≠ .unstarted := by
  refine after_history (P := fun t m => ∀ part, .tick d part ∈ s.acts t →
    ∃ l, m.fetcher.loops.get d = some l ∧ l.stage ≠ .unstarted) ?_ ?_ ran part acted
  · intro t now e m m' before begun stepped part acted
    have here := (regular_of_run regular before).1
    have started : ∃ l, m.fetcher.loops.get d = some l ∧ l.stage ≠ .unstarted := by
      rw [acts_concat before, List.mem_append] at acted
      rcases acted with earlier | now
      · exact begun part earlier
      · exact begun_of_act here stepped (List.mem_singleton.mp now).symm
    obtain ⟨l, found, stage⟩ := started
    obtain ⟨l', found', follows⟩ := (shift_of_step here stepped).follows here found
    exact ⟨l', found', follows.begun stage⟩
  · intro part acted
    cases acted

/-! ## The end without a success -/

/-- The forward loop has ended without a success, and backward has a loop. -/
def Ended (s : System γ) : Prop :=
  ∃ l b, s.fetcher.loops.get .forward = some l ∧ s.fetcher.loops.get .backward = some b ∧
    l.status = .finished ∧ l.firstRun = true

theorem Ended.shift (ended : s.Ended) (h : s.fetcher.Regular) (shift : Shift now s s' back) :
    s'.Ended := by
  obtain ⟨l, b, forward, backward, fin, first⟩ := ended
  obtain ⟨l', forward', follows⟩ := shift.follows h forward
  obtain ⟨b', backward', -⟩ := shift.follows h backward
  refine ⟨l', b', forward', backward', follows.finished fin, ?_⟩
  rcases follows.firstRun with ⟨signal, rfl, -⟩ | ⟨-, same⟩
  · obtain ⟨m, found, running⟩ := shift.found h
    rw [forward] at found
    cases found
    rw [fin] at running
    cases running
  · exact same.trans first

theorem Ended.run [Cursor γ] (ended : s.Ended) (regular : s.fetcher.Regular)
    (ran : s.run u = some s') : s'.Ended := by
  refine (after_invariant (P := fun m => m.fetcher.Regular ∧ m.Ended) ?_ ⟨regular, ended⟩ ran).2
  intro now m e m' ⟨regular, ended⟩ stepped
  exact ⟨(moves_of_step stepped).regular regular,
    ended.shift regular (shift_of_step regular stepped)⟩

end System

def Event.OfRun (k : Nat) : Event γ → Prop
  | .advance n fault => n = k ∧ fault = none
  | .enter _ _ => True
  | .release => True
  | _ => False

namespace System

variable {s s' m : System γ} {now k n : Nat} {d : Direction} {e : Event γ} {l b : Loop}
  {t : List (Nat × Event γ)}

/-- Call `k` of run comes back within `n` steps of its own, whenever they are taken. -/
def Returns [Cursor γ] (s : System γ) (n k : Nat) : Prop :=
  ∀ now, ∃ t s', t.length ≤ n ∧ (∀ x ∈ t, x.1 = now ∧ x.2.OfRun k) ∧ s.run t = some s' ∧
    s'.fetcher.calls[k]? = some (.run (.done none))

section Returns

variable [Cursor γ]

theorem Returns.cons (h : m.Returns n k) (own : e.OfRun k)
    (stepped : ∀ now, s.step now e = some m) : s.Returns (n + 1) k := by
  intro now
  obtain ⟨t, s', short, owns, ran, back⟩ := h now
  refine ⟨(now, e) :: t, s', Nat.succ_le_succ short, ?_, ?_, back⟩
  · intro x member
    rcases List.mem_cons.mp member with rfl | member
    · exact ⟨rfl, own⟩
    · exact owns x member
  · exact after_cons_eq_some.mpr ⟨m, stepped now, ran⟩

theorem Returns.mono {n' : Nat} (h : s.Returns n k) (le : n ≤ n') : s.Returns n' k := by
  intro now
  obtain ⟨t, s', short, rest⟩ := h now
  exact ⟨t, s', Nat.le_trans short le, rest⟩

theorem returns_of_done (done : s.fetcher.calls[k]? = some (.run (.done none))) :
    s.Returns 0 k := fun _ => ⟨[], s, Nat.le_refl 0, by simp, rfl, done⟩

theorem returns_of_step {r : Run γ} (found : s.fetcher.calls[k]? = some (.run r))
    (stepped : s.stepRun none r = some (s, .done none)) : s.Returns 1 k := by
  have bound : k < s.fetcher.calls.length := (List.getElem?_eq_some_iff.mp found).1
  refine (returns_of_done (s := s.setFetcher { s.fetcher with
    calls := s.fetcher.calls.set k (.run (.done none)) }) ?_).cons (e := .advance k none)
    ⟨rfl, rfl⟩ fun now => ?_
  · exact List.getElem?_set_self bound
  · simp [step, stepCall, found, stepped]

theorem returns_of_over (found : s.fetcher.calls[k]? = some (.run .running))
    (forward : s.fetcher.tasks.forward.isOver = true)
    (backward : s.fetcher.tasks.backward.isOver = true) : s.Returns 1 k :=
  returns_of_step found (by simp [stepRun, forward, backward])

theorem returns_of_held (found : s.fetcher.calls[k]? = some (.run .running))
    (forward : s.fetcher.tasks.forward = .done) (held : s.fetcher.tasks.backward = .held)
    (up : s.fetcher.gate = .givenUp) : s.Returns 2 k := by
  refine (returns_of_over (s := s.setFetcher (s.fetcher.setTask .backward .done)) found ?_
    rfl).cons (e := .release) trivial fun now => ?_
  · change s.fetcher.tasks.forward.isOver = true
    rw [forward]
    rfl
  · simp [step, held, up]

theorem returns_of_entering (found : s.fetcher.calls[k]? = some (.run .running))
    (forward : s.fetcher.tasks.forward = .entering) (held : s.fetcher.tasks.backward = .held)
    (closed : s.fetcher.gate = .closed) (loop : s.fetcher.loops.get .forward = some l)
    (fin : l.status = .finished) : s.Returns 3 k := by
  refine (returns_of_held (s := s.setFetcher { s.fetcher with
    tasks := s.fetcher.tasks.set .forward .done, gate := .givenUp }) found rfl held rfl).cons
    (e := .enter .forward .zero) trivial fun now => ?_
  have start : l.step now (.start .zero) = some (l, [.returned]) := by
    simp [Loop.step, Loop.start, fin]
  have entering : s.fetcher.tasks.get .forward = .entering := forward
  simp only [step, if_pos entering, Fetcher.stepLoop, Fetcher.setTask, loop, start]
  simp [← loop, Fetcher.follow, Fetcher.setTask, closed]

theorem returns_of_published (found : s.fetcher.calls[k]? = some (.run .published))
    (forward : s.fetcher.loops.get .forward = some l)
    (backward : s.fetcher.loops.get .backward = some b) (closed : s.fetcher.gate = .closed)
    (fin : l.status = .finished) : s.Returns 4 k := by
  have bound : k < s.fetcher.calls.length := (List.getElem?_eq_some_iff.mp found).1
  cases asked : s.fetcher.stopAsked with
  -- a stop that came between the halves of run keeps it from setting off the tasks
  | true => exact (returns_of_step found (by simp [stepRun, asked])).mono (by omega)
  | false =>
    have some : s.fetcher.loops.forward = some l := forward
    have some' : s.fetcher.loops.backward = Option.some b := backward
    refine (returns_of_entering (s := s.setFetcher { s.fetcher.launch with
      calls := s.fetcher.calls.set k (.run .running) }) (List.getElem?_set_self bound) ?_ ?_
      closed forward fin).cons (e := .advance k none) ⟨rfl, rfl⟩ fun now => ?_
    · simp [setFetcher, Fetcher.launch, some]
    · simp [setFetcher, Fetcher.launch, some', closed]
    · simp [step, stepCall, found, stepRun, asked, setFetcher, Fetcher.launch]

theorem Ended.returns {r : Run γ} (ended : s.Ended) (h : s.fetcher.Regular)
    (stands : s.fetcher.Stands) (found : s.fetcher.calls[k]? = some (.run r)) :
    (∃ error, r = .done error) ∨ s.Returns 4 k := by
  obtain ⟨l, b, forward, backward, fin, first⟩ := ended
  obtain ⟨stand, waits⟩ := stands l b forward backward
  have launched := h.launched (Fetcher.not_bare_of_loop forward)
  -- By where the call stands, and from there on by what has become of the backward task.
  cases r with
  | done error => exact Or.inl ⟨error, rfl⟩
  | entering =>
    exact Or.inr ((returns_of_step found (by simp [stepRun, launched.1])).mono (by omega))
  | loading init => exact absurd found (launched.2 k init)
  | published =>
    refine Or.inr (returns_of_published found forward backward ?_ fin)
    have absent := waits ⟨k, found⟩
    cases stand with
    | unset _ _ closed => exact closed
    | shut _ _ closed => exact closed
    | givenUp set =>
      rw [absent] at set
      cases set
    | opened set => exact absurd absent set
  | running =>
    refine Or.inr ?_
    cases stand with
    | unset absent absent' =>
      exact (returns_of_over found (by rw [absent]; rfl) (by rw [absent']; rfl)).mono (by omega)
    | shut task held closed =>
      rcases task with ⟨entering, -⟩ | ⟨-, running⟩
      · exact (returns_of_entering found entering held closed forward fin).mono (by omega)
      · rw [fin] at running
        cases running
    | givenUp done task up =>
      rcases task with held | done'
      · exact (returns_of_held found done held up).mono (by omega)
      · exact (returns_of_over found (by rw [done]; rfl) (by rw [done']; rfl)).mono (by omega)
    | opened _ _ success =>
      rw [first] at success
      cases success

end Returns

theorem stored?_of_begin [Cursor γ] {clock : Instant} {work : State γ} (coherent : s.Coherent)
    (stepped : s.step now e = some s') (begins : s.act e = .tick d (.begin clock))
    (fetching : s'.fetcher.ticks.get d = some (.fetching work)) :
    ∃ held, s.stored? = some held ∧ work.cursors = held.cursors := by
  have moves := moves_of_step stepped
  rw [begins] at moves
  cases moves with
  | advance m k c c' a found moves =>
    rcases moves.memory_cases with ⟨other, -⟩ | ⟨state, load, -⟩
    · cases other
    · cases load
  | begin d clock l found ready go =>
    refine ⟨_, coherent.mirrors.mirrored
      (coherent.mirrors.initialised (Fetcher.not_bare_of_loop found)), ?_⟩
    rw [setFetcher, Both.get_set_self, Fetcher.begun] at fetching
    split at fetching
    · rw [Tick.start] at fetching
      split at fetching
      · cases fetching
      · cases fetching
        rfl
    · cases fetching
  | answer d part l tick tick' lane found next =>
    cases tick with
    | _ => cases next

/-- Where both directions have a loop, backward has no part of a tick before a forward tick has come
back with a success. A backward tick begins by a fetch with the cursors that are stored then, and
the forward cursor among them is that of the tick that opened the gate or of a later one. Where the
forward loop ends without a success there is never a part of a backward tick, and every call of run
comes back by steps of its own, whatever goes on beside it. -/
theorem backward_waits [Cursor γ] {c : Config} {f : Fetcher γ} {store : Table (State γ)}
    (made : Fetcher.new c = .ok f)
    (named : ∀ state, store.get? c.id = some state → state.id = c.id)
    (ran : (⟨store, f⟩ : System γ).run t = some s)
    (forward : s.fetcher.loops.get .forward = some l)
    (backward : s.fetcher.loops.get .backward = some b) :
    (∀ now e s' part, s.step now e = some s' → s.act e = .tick .backward part →
      ∃ gating later, FirstSuccess ((⟨store, f⟩ : System γ).ledger .forward t) gating later ∧
        ∀ clock work, part = .begin clock →
          s'.fetcher.ticks.get .backward = some (.fetching work) →
          ∃ held, s.stored? = some held ∧
            (∀ lane context, (Tick.request lane context work).cursors = held.cursors) ∧
            held.cursor .forward =
              ((later.filterMap Entry.saved?).getLastD gating).cursor .forward) ∧
    (l.status = .finished →
      ((⟨store, f⟩ : System γ).ledger .forward t).any Entry.isSuccess = false →
      ∀ u s', s.run u = some s' →
        (∀ part, .tick .backward part ∉ (⟨store, f⟩ : System γ).acts (t ++ u)) ∧
        ∀ (k : Nat) (r : Run γ), s'.fetcher.calls[k]? = some (.run r) →
          (∃ error, r = .done error) ∨ s'.Returns 4 k) := by
  have start := coherent_of_new made named
  have edited := edited_of_new made start
  have bare := bare_of_new made
  have coherent := start.run ran
  have counted := any_isSuccess_ledger (d := .forward) start bare ran
  rw [forward] at counted
  obtain ⟨-, stands⟩ := stands_of_run start.regular bare ran
  refine ⟨?_, ?_⟩
  · intro now e s' part stepped acts
    obtain ⟨m, found, begun⟩ := begun_of_act coherent.regular stepped acts
    rw [backward] at found
    cases found
    have success : l.firstRun = false := by
      cases first : l.firstRun with
      | false => rfl
      | true => exact absurd ((stands l b forward backward).1.still_of_firstRun first) begun
    obtain ⟨gating, later, first⟩ :=
      exists_firstSuccess start edited bare ran (counted.trans (by simp [success]))
    refine ⟨gating, later, first, ?_⟩
    rintro clock work rfl fetching
    obtain ⟨held, stored, cursors⟩ := stored?_of_begin coherent stepped acts fetching
    obtain ⟨held', stored', -, cursor⟩ := sameHalf_of_firstSuccess start ran first
    rw [stored] at stored'
    cases stored'
    exact ⟨held, stored, fun _ _ => cursors, cursor⟩
  · intro fin none u s' further
    have first : l.firstRun = true := by simpa [none] using counted
    have ended : s.Ended := ⟨l, b, forward, backward, fin, first⟩
    have whole : (⟨store, f⟩ : System γ).run (t ++ u) = some s' :=
      after_append_eq_some.mpr ⟨s, ran, further⟩
    obtain ⟨regular', stands'⟩ := stands_of_run start.regular bare whole
    have ended' := ended.run coherent.regular further
    refine ⟨?_, fun k r found => ended'.returns regular' stands' found⟩
    intro part acted
    obtain ⟨m, found, begun⟩ := begun_of_mem_acts start.regular whole acted
    obtain ⟨l', b', forward', backward', -, first'⟩ := ended'
    rw [backward'] at found
    cases found
    exact begun ((stands' _ _ forward' backward').1.still_of_firstRun first')

def reached : State HeightCursor where
  id := bothWays.id
  jobs := ⟨{ frequency := bothWays.startFrequency .forward, lastRun := some .epoch, runs := 1 },
    { frequency := bothWays.startFrequency .backward }⟩
  cursors := ⟨some ⟨100⟩, none⟩

def fruitless : List (Nat × Event HeightCursor) := stopping ++ [
  (1, .fetched .forward (.error (.fetch "no answer"))), (1, .lock .forward),
  (1, .saved .forward none), (1, .tickDone .forward)]

theorem backward_waits_launched :
    Fetcher.new bothWays = .ok newBothWays ∧
    (∃ (s s' : System HeightCursor) (l b : Loop) (work gating : State HeightCursor)
        (later : List (Entry HeightCursor)),
      (⟨{}, newBothWays⟩ : System HeightCursor).run launched = some s ∧
        s.fetcher.loops.get .forward = some l ∧ s.fetcher.loops.get .backward = some b ∧
        s.step 0 (.turn .backward .epoch) = some s' ∧
        s'.fetcher.ticks.get .backward = some (.fetching work) ∧
        FirstSuccess ((⟨{}, newBothWays⟩ : System HeightCursor).ledger .forward launched) gating
          later ∧
        s.stored? = some reached ∧
        (∀ lane context, (Tick.request lane context work).cursors = reached.cursors) ∧
        reached.cursor .forward =
          ((later.filterMap Entry.saved?).getLastD gating).cursor .forward) ∧
    ∃ (s : System HeightCursor) (l b : Loop),
      (⟨{}, newBothWays⟩ : System HeightCursor).run (opening ++ fruitless) = some s ∧
        s.fetcher.loops.get .forward = some l ∧ s.fetcher.loops.get .backward = some b ∧
        l.status = .finished ∧ s.fetcher.calls[0]? = some (.run .running) ∧ s.Returns 4 0 := by
  have made : Fetcher.new bothWays = .ok newBothWays := rfl
  have named : ∀ state, ({} : Table (State HeightCursor)).get? bothWays.id = some state →
      state.id = bothWays.id := by
    simp [Table.get?]
  refine ⟨made, ?_, ?_⟩
  · have ends : ((⟨{}, newBothWays⟩ : System HeightCursor).run launched).bind (fun s =>
        (s.fetcher.loops.get .forward).bind fun l => (s.fetcher.loops.get .backward).bind fun b =>
          (s.step 0 (.turn .backward .epoch)).map fun s' =>
            (b.stopAsked, s.stored?, s'.fetcher.ticks.get .backward)) =
        some (false, some reached, some (.fetching
          (reached.setJob .backward { reached.job .backward with lastRun := some .epoch }))) := rfl
    obtain ⟨s, ran, ends⟩ := Option.bind_eq_some_iff.mp ends
    obtain ⟨l, forward, ends⟩ := Option.bind_eq_some_iff.mp ends
    obtain ⟨b, backward, ends⟩ := Option.bind_eq_some_iff.mp ends
    obtain ⟨s', stepped, ends⟩ := Option.map_eq_some_iff.mp ends
    simp only [Prod.mk.injEq] at ends
    obtain ⟨go, stored, begun⟩ := ends
    have acts : s.act (.turn .backward .epoch) = .tick .backward (.begin .epoch) := by
      simp [act, backward, go]
    obtain ⟨gating, later, first, asked⟩ :=
      (backward_waits made named ran forward backward).1 0 _ s' _ stepped acts
    obtain ⟨held, stored', told, cursor⟩ := asked .epoch _ rfl begun
    rw [stored] at stored'
    cases stored'
    exact ⟨s, s', l, b, _, gating, later, ran, forward, backward, stepped, begun, first, stored,
      told, cursor⟩
  · have ends : ((⟨{}, newBothWays⟩ : System HeightCursor).run (opening ++ fruitless)).bind
        (fun s => (s.fetcher.loops.get .forward).bind fun l =>
          (s.fetcher.loops.get .backward).map fun b =>
            (l.status, s.fetcher.calls[0]?, ((⟨{}, newBothWays⟩ : System HeightCursor).ledger
              .forward (opening ++ fruitless)).any Entry.isSuccess)) =
        some (.finished, some (.run .running), false) := rfl
    obtain ⟨s, ran, ends⟩ := Option.bind_eq_some_iff.mp ends
    obtain ⟨l, forward, ends⟩ := Option.bind_eq_some_iff.mp ends
    obtain ⟨b, backward, ends⟩ := Option.map_eq_some_iff.mp ends
    simp only [Prod.mk.injEq] at ends
    obtain ⟨fin, found, none⟩ := ends
    obtain ⟨-, calls⟩ := (backward_waits made named ran forward backward).2 fin none [] s rfl
    refine ⟨s, l, b, ran, forward, backward, fin, found, ?_⟩
    rcases calls 0 .running found with ⟨_, done⟩ | returns
    · cases done
    · exact returns

end System

end ChainFetch.Fetch
