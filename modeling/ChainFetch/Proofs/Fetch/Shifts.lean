import ChainFetch.Proofs.Fetch.Launch
import ChainFetch.Proofs.Schedule.Counters
import ChainFetch.Proofs.Schedule.Lifecycle
/-!
What one step of a fetcher makes of its schedule, which is its loops, its tasks and the gate. What a
loop shows of a step is told apart by whether it shows a first success or a return. Main statements:
`shift_of_step`, and `Shift.turned` for one loop.
-/

namespace ChainFetch

@[simp] theorem Both.set_set {α : Type} (b : Both α) (d : Direction) (a a' : α) :
    (b.set d a).set d a' = b.set d a' := by
  cases d <;> rfl

namespace Fetch

open Schedule (Loop Effect Signal)

variable {γ : Type}

def Gate.after (g : Gate) (seen : List Effect) : Gate :=
  if g = .closed then
    if .firstSuccess ∈ seen then .opened else if .returned ∈ seen then .givenUp else .closed
  else g

namespace Fetcher

variable {f f' : Fetcher γ} {now : Nat} {clock : Instant} {d : Direction} {e : Schedule.Event}
  {effects : List Effect}

theorem frame_foldl_follow : (effects.foldl (follow clock d) f).loops = f.loops ∧
    (effects.foldl (follow clock d) f).calls = f.calls ∧
    (effects.foldl (follow clock d) f).started = f.started := by
  induction effects generalizing f with
  | nil => exact ⟨rfl, rfl, rfl⟩
  | cons effect effects ih =>
    have same : (f.follow clock d effect).loops = f.loops ∧
        (f.follow clock d effect).calls = f.calls ∧
        (f.follow clock d effect).started = f.started := by
      cases effect with
      | tick c => exact ⟨rfl, rfl, rfl⟩
      | sleep length => exact ⟨rfl, rfl, rfl⟩
      | firstSuccess =>
        simp only [follow]
        split <;> exact ⟨rfl, rfl, rfl⟩
      | returned =>
        simp only [follow]
        split <;> exact ⟨rfl, rfl, rfl⟩
    obtain ⟨loops, calls, started⟩ := same
    rw [List.foldl_cons]
    exact ⟨ih.1.trans loops, ih.2.1.trans calls, ih.2.2.trans started⟩

theorem tasks_foldl_follow : (effects.foldl (follow clock d) f).tasks =
    if .returned ∈ effects then f.tasks.set d .done else f.tasks := by
  induction effects generalizing f with
  | nil => simp
  | cons effect effects ih =>
    rw [List.foldl_cons, ih]
    cases effect with
    | tick c => simp [follow, setTick]
    | sleep length => simp [follow]
    | firstSuccess =>
      have same : (f.follow clock d .firstSuccess).tasks = f.tasks := by
        simp only [follow]
        split <;> rfl
      simp [same]
    | returned =>
      have done : (f.follow clock d .returned).tasks = f.tasks.set d .done := by
        simp only [follow]
        split <;> rfl
      simp [done]

theorem gate_foldl_follow_of_open (settled : ¬ (d = .forward ∧ f.gate = .closed)) :
    (effects.foldl (follow clock d) f).gate = f.gate := by
  induction effects generalizing f with
  | nil => rfl
  | cons effect effects ih =>
    have same : (f.follow clock d effect).gate = f.gate := by
      cases effect with
      | tick c => rfl
      | sleep length => rfl
      | firstSuccess => simp only [follow, if_neg settled]
      | returned =>
        simp only [follow]
        split
        · rename_i closed
          exact absurd closed settled
        · rfl
    rw [List.foldl_cons, ih (by rwa [same]), same]

theorem gate_foldl_follow_of_not_first (closed : f.gate = .closed)
    (unseen : .firstSuccess ∉ effects) :
    (effects.foldl (follow clock .forward) f).gate =
      if .returned ∈ effects then .givenUp else .closed := by
  induction effects generalizing f with
  | nil => simpa using closed
  | cons effect effects ih =>
    rw [List.mem_cons, not_or] at unseen
    rw [List.foldl_cons]
    cases effect with
    | tick c =>
      refine (ih (f := f.follow clock .forward (.tick c)) closed unseen.2).trans ?_
      simp
    | sleep length =>
      refine (ih (f := f.follow clock .forward (.sleep length)) closed unseen.2).trans ?_
      simp
    | firstSuccess => exact absurd rfl unseen.1
    | returned =>
      have up : (f.follow clock .forward .returned).gate = .givenUp := by
        simp [follow, setTask, closed]
      rw [gate_foldl_follow_of_open (by simp [up]), up]
      simp

/-- A first success is shown before a return, so that it opens the gate even where the loop ends
with it. -/
theorem gate_foldl_follow
    (first : .firstSuccess ∈ effects → ∃ later, effects = .firstSuccess :: later) :
    (effects.foldl (follow clock d) f).gate =
      if d = .forward then f.gate.after effects else f.gate := by
  by_cases forward : d = .forward
  · subst forward
    rw [if_pos rfl, Gate.after]
    by_cases closed : f.gate = .closed
    · rw [if_pos closed]
      by_cases seen : .firstSuccess ∈ effects
      · rw [if_pos seen]
        obtain ⟨later, rfl⟩ := first seen
        have opened : (f.follow clock .forward .firstSuccess).gate = .opened := by
          simp [follow, closed]
        rw [List.foldl_cons, gate_foldl_follow_of_open (by simp [opened]), opened]
      · rw [if_neg seen]
        exact gate_foldl_follow_of_not_first closed seen
    · rw [if_neg closed]
      exact gate_foldl_follow_of_open fun same => closed same.2
  · rw [if_neg forward]
    exact gate_foldl_follow_of_open fun same => forward same.1

theorem firstRun_of_loop? {c : Config} {state : State γ} {l : Loop}
    (made : c.loop? state d = some l) :
    l.firstRun = true ∧ (state.job d).complete = false := by
  unfold Config.loop? at made
  split at made
  · cases made
  · obtain ⟨going, made⟩ := Option.ite_none_left_eq_some.mp made
    cases made
    exact ⟨rfl, by simpa using going⟩

/-- Whether a call of run has put up the loops and not set off the tasks yet. -/
def Pending (f : Fetcher γ) : Prop := ∃ k : Nat, f.calls[k]? = some (.run .published)

theorem pending_of_set {k : Nat} {c : Call γ} (calls : f'.calls = f.calls.set k c)
    (other : c ≠ .run .published) (h : f'.Pending) : f.Pending := by
  obtain ⟨n, set⟩ := h
  rw [calls] at set
  rcases getElem?_set_cases set with ⟨-, same⟩ | ⟨-, found⟩
  · exact absurd same.symm other
  · exact ⟨n, found⟩

theorem stepLoop_schedule (h : f.stepLoop now clock d e = some f') :
    ∃ l l' effects, f.loops.get d = some l ∧ l.step now e = some (l', effects) ∧
      f'.loops = f.loops.set d (some l') ∧
      f'.tasks = (if .returned ∈ effects then f.tasks.set d .done else f.tasks) ∧
      f'.gate = (if d = .forward then f.gate.after effects else f.gate) ∧ f'.calls = f.calls := by
  obtain ⟨l, l', effects, found, moved, rfl⟩ := stepLoop_cases h
  refine ⟨l, l', effects, found, moved, frame_foldl_follow.1, tasks_foldl_follow, ?_,
    frame_foldl_follow.2.1⟩
  apply gate_foldl_follow
  intro seen
  rcases Loop.firstRun_of_step moved with ⟨-, unseen⟩ | ⟨-, -, later⟩
  · exact absurd seen unseen
  · exact later

end Fetcher

def Tick.result? : Tick γ → Option (Except Failure Signal)
  | .done result => some result
  | _ => none

namespace System

variable {s s' : System γ} {now : Nat} {d : Direction} {e : Event γ}
  {back : Option (Direction × Except Failure Signal)} {l l' : Loop}

def finished? (s : System γ) : Act γ → Option (Direction × Except Failure Signal)
  | .tick d .finish => ((s.fetcher.ticks.get d).bind Tick.result?).map (d, ·)
  | _ => none

theorem finished?_ofLoad (state : Option (State γ)) : s.finished? (.ofLoad state) = none := by
  cases state <;> rfl

/-- What one step makes of the schedule, by the tick that comes back in it: nothing, or the loops
are put up, the tasks are set off, a call of stop tells a loop or finishes one before its run, the
gate lets the backward task go, a task calls run of its loop, or a loop goes on. -/
inductive Shift (now : Nat) (s s' : System γ) : Option (Direction × Except Failure Signal) → Prop
  | still (loops : s'.fetcher.loops = s.fetcher.loops) (tasks : s'.fetcher.tasks = s.fetcher.tasks)
      (gate : s'.fetcher.gate = s.fetcher.gate)
      (pending : s'.fetcher.Pending → s.fetcher.Pending) : Shift now s s' none
  | publish (bare : s.fetcher.Bare)
      (loops : ∀ d, s'.fetcher.loops.get d = s.fetcher.config.loop? s'.fetcher.memory d)
      (tasks : s'.fetcher.tasks = s.fetcher.tasks)
      (gate : s'.fetcher.gate =
        if (s'.fetcher.loops.get .forward).isSome && (s'.fetcher.loops.get .backward).isSome
        then .closed else .opened) : Shift now s s' none
  | launch (before : s.fetcher.Pending) (after : ¬ s'.fetcher.Pending)
      (loops : s'.fetcher.loops = s.fetcher.loops)
      (tasks : s'.fetcher.tasks = s.fetcher.launch.tasks)
      (gate : s'.fetcher.gate = s.fetcher.gate) : Shift now s s' none
  | hush (d : Direction) (l l' : Loop) (found : s.fetcher.loops.get d = some l)
      (count : l'.count = l.count) (stage : l'.stage = l.stage)
      (status : l'.status = l.status ∨ l.status = .idle)
      (loops : s'.fetcher.loops = s.fetcher.loops.set d (some l'))
      (tasks : s'.fetcher.tasks = s.fetcher.tasks) (gate : s'.fetcher.gate = s.fetcher.gate)
      (pending : s'.fetcher.Pending → s.fetcher.Pending) : Shift now s s' none
  | release (held : s.fetcher.tasks.backward = .held) (settled : s.fetcher.gate ≠ .closed)
      (loops : s'.fetcher.loops = s.fetcher.loops)
      (tasks : s'.fetcher.tasks =
        s.fetcher.tasks.set .backward (if s.fetcher.gate = .opened then .entering else .done))
      (gate : s'.fetcher.gate = s.fetcher.gate)
      (pending : s'.fetcher.Pending → s.fetcher.Pending) : Shift now s s' none
  | enter (d : Direction) (jitter : Duration) (l l' : Loop) (effects : List Effect)
      (task : s.fetcher.tasks.get d = .entering) (found : s.fetcher.loops.get d = some l)
      (moved : l.step now (.start jitter) = some (l', effects))
      (loops : s'.fetcher.loops = s.fetcher.loops.set d (some l'))
      (tasks : s'.fetcher.tasks =
        s.fetcher.tasks.set d (if .returned ∈ effects then .done else .looping))
      (gate : s'.fetcher.gate =
        if d = .forward then s.fetcher.gate.after effects else s.fetcher.gate)
      (pending : s'.fetcher.Pending → s.fetcher.Pending) : Shift now s s' none
  | loop (d : Direction) (e : Schedule.Event) (l l' : Loop) (effects : List Effect)
      (back : Option (Direction × Except Failure Signal)) (found : s.fetcher.loops.get d = some l)
      (own : e.stage = .inside) (moved : l.step now e = some (l', effects))
      (finished : ∀ b result, back = some (b, result) ↔ b = d ∧ e = .tickDone result)
      (loops : s'.fetcher.loops = s.fetcher.loops.set d (some l'))
      (tasks : s'.fetcher.tasks =
        if .returned ∈ effects then s.fetcher.tasks.set d .done else s.fetcher.tasks)
      (gate : s'.fetcher.gate =
        if d = .forward then s.fetcher.gate.after effects else s.fetcher.gate)
      (pending : s'.fetcher.Pending → s.fetcher.Pending) : Shift now s s' back

theorem shift_of_loop {f : Fetcher γ} {d : Direction} {clock : Instant} {e : Schedule.Event}
    (own : e.stage = .inside) (quiet : ∀ result, e ≠ .tickDone result)
    (h : s.fetcher.stepLoop now clock d e = some f) : Shift now s (s.setFetcher f) none := by
  obtain ⟨l, l', effects, found, moved, loops, tasks, gate, calls⟩ := Fetcher.stepLoop_schedule h
  refine .loop d e l l' effects none found own moved ?_ loops tasks gate ?_
  · intro b result
    simp [quiet]
  · rw [setFetcher, Fetcher.Pending, calls]
    exact fun h => h

theorem shift_of_call {m : System γ} {k : Nat} {c c' : Call γ} {a : Act γ}
    (h : s.fetcher.Regular) (found : s.fetcher.calls[k]? = some c) (moves : c.Moves now s a m c') :
    Shift now s (m.setFetcher { m.fetcher with calls := m.fetcher.calls.set k c' }) none := by
  have pending : c' ≠ .run .published →
      ({ m.fetcher with calls := m.fetcher.calls.set k c' } : Fetcher γ).Pending →
        s.fetcher.Pending :=
    Fetcher.pending_of_set (congrArg (List.set · k c') moves.frame.2.2)
  have init : ∀ {i i' : Init γ}, i.Moves s a m i' → c' ≠ .run .published →
      Shift now s (m.setFetcher { m.fetcher with calls := m.fetcher.calls.set k c' }) none := by
    intro i i' moves other
    obtain ⟨memory, initialised, locked, same⟩ := moves.frame
    refine .still ?_ ?_ ?_ (pending other) <;> simp only [setFetcher, same]
  cases moves with
  | init m i i' a moves => exact init moves (by simp)
  | loading m i i' a moves => exact init moves (by simp)
  | unloaded m i e a moves => exact init moves (by simp)
  | publish fresh go loaded =>
    refine .publish (h.fresh fresh).1 (fun d => ?_) rfl rfl
    exact Fetcher.loops_publish _ _ d
  | loaded m i state a moves =>
    have memory : m.fetcher.memory = state := by cases moves <;> rfl
    obtain ⟨_, _, _, same⟩ := moves.frame
    refine .publish (h.loading k i found) (fun d => ?_) ?_ rfl
    · change (m.fetcher.publish state).loops.get d = s.fetcher.config.loop? m.fetcher.memory d
      rw [Fetcher.loops_publish, memory, same]
    · change m.fetcher.tasks = s.fetcher.tasks
      rw [same]
  | launch go =>
    refine .launch ⟨k, found⟩ ?_ rfl rfl rfl
    rintro ⟨n, set⟩
    rcases getElem?_set_cases set with ⟨-, same⟩ | ⟨other, published⟩
    · cases same
    · exact other (h.alone n k _ _ published found trivial trivial)
  | ask d rest l present =>
    exact .hush d l { l with stopAsked := true } present rfl rfl (Or.inl rfl) rfl rfl rfl
      (pending (by simp))
  | settle d rest l l' present settled =>
    rw [settled]
    split
    · rename_i idle
      exact .hush d l { l with status := .finished } present rfl rfl (Or.inr idle) rfl rfl rfl
        (pending (by simp))
    · exact .hush d l l present rfl rfl (Or.inl rfl) rfl rfl rfl (pending (by simp))
  | _ => exact .still rfl rfl rfl (pending (by simp))

theorem shift_of_answer {d : Direction} {next : Lane → Tick γ → Option (Tick γ)}
    (h : s.answer d next = some s') : Shift now s s' none := by
  obtain ⟨_, _, _, -, -, -, rfl⟩ := answer_cases h
  exact .still rfl rfl rfl fun h => h

theorem shift_of_enter [Cursor γ] {jitter : Duration}
    (stepped : s.step now (.enter d jitter) = some s') : Shift now s s' none := by
  obtain ⟨task, f, went, rfl⟩ := enter_cases stepped
  obtain ⟨l, l', effects, found, moved, loops, tasks, gate, calls⟩ :=
    Fetcher.stepLoop_schedule went
  refine .enter d jitter l l' effects task found moved loops (tasks.trans ?_) gate ?_
  · split
    · exact Both.set_set ..
    · rfl
  · rw [setFetcher, Fetcher.Pending, calls]
    exact fun h => h

theorem shift_of_tickDone [Cursor γ] (stepped : s.step now (.tickDone d) = some s') :
    Shift now s s' (s.finished? (.tick d .finish)) := by
  obtain ⟨result, f, done, went, rfl⟩ := tickDone_cases stepped
  obtain ⟨l, l', effects, found, moved, loops, tasks, gate, calls⟩ :=
    Fetcher.stepLoop_schedule went
  have back : s.finished? (.tick d .finish) = some (d, result) := by
    rw [finished?, done]
    rfl
  rw [back]
  refine .loop d _ l l' effects _ found rfl moved ?_ loops tasks gate ?_
  · intro b r
    simp only [Option.some.injEq, Prod.mk.injEq, Schedule.Event.tickDone.injEq]
    constructor
    · rintro ⟨rfl, rfl⟩
      exact ⟨rfl, rfl⟩
    · rintro ⟨rfl, rfl⟩
      exact ⟨rfl, rfl⟩
  · rw [setFetcher, Fetcher.Pending, calls]
    exact fun h => h

theorem finished?_turn [Cursor γ] (clock : Instant) :
    s.finished? (s.act (.turn d clock)) = none := by
  simp only [act]
  split
  · split <;> rfl
  · rfl

theorem shift_of_step [Cursor γ] (h : s.fetcher.Regular) (stepped : s.step now e = some s') :
    Shift now s s' (s.finished? (s.act e)) := by
  cases e with
  | call kind =>
    cases stepped
    refine .still rfl rfl rfl ?_
    rintro ⟨n, set⟩
    rcases getElem?_concat_cases set with found | ⟨-, new⟩
    · exact ⟨n, found⟩
    · cases kind <;> cases new
  | advance k fault =>
    obtain ⟨c, m, c', found, called, rfl⟩ := advance_cases stepped
    rw [act, finished?_ofLoad]
    exact shift_of_call h found (call_moves_of_step called)
  | enter d jitter => exact shift_of_enter stepped
  | release =>
    obtain ⟨held, settled, rfl⟩ := release_cases stepped
    exact .release held settled rfl rfl rfl fun h => h
  | turn d clock =>
    obtain ⟨f, went, rfl⟩ := Option.map_eq_some_iff.mp stepped
    rw [finished?_turn]
    exact shift_of_loop rfl (by simp) went
  | timeout d | interrupt d =>
    obtain ⟨f, went, rfl⟩ := Option.map_eq_some_iff.mp stepped
    exact shift_of_loop rfl (by simp) went
  | fetched d a | merged d a | judged d a => exact shift_of_answer stepped
  | lock d =>
    obtain ⟨-, l, work, resume, -, -, rfl⟩ := lock_cases stepped
    exact .still rfl rfl rfl fun h => h
  | saved d fault =>
    obtain ⟨l, next, resume, -, -, ⟨e, -, rfl⟩ | ⟨-, rfl⟩⟩ := saved_cases stepped
    · exact .still rfl rfl rfl fun h => h
    · exact .still rfl rfl rfl fun h => h
  | tickDone d => exact shift_of_tickDone stepped

/-! ## One loop -/

/-- What a step keeps of one loop. Only a success of its own ticks ends its wait for the first. -/
structure Follows (d : Direction) (back : Option (Direction × Except Failure Signal))
    (l l' : Loop) : Prop where
  begun : l.stage ≠ .unstarted → l'.stage ≠ .unstarted
  finished : l.status = .finished → l'.status = .finished
  firstRun : (∃ signal, back = some (d, .ok signal) ∧ l'.firstRun = false) ∨
    ((∀ signal, back ≠ some (d, .ok signal)) ∧ l'.firstRun = l.firstRun)

/-- What a step makes of one loop: it leaves it, but for a mark that a call of stop puts down, or
the loop takes a step of its own, with the tick that comes back to it. -/
inductive Turned (now : Nat) (d : Direction) (back : Option (Direction × Except Failure Signal))
    (l l' : Loop) : Prop
  | kept (count : l'.count = l.count) (stage : l'.stage = l.stage)
      (status : l'.status = l.status ∨ l.status = .idle)
      (other : ∀ result, back ≠ some (d, result)) : Turned now d back l l'
  | own (ev : Schedule.Event) (effects : List Effect) (moved : l.step now ev = some (l', effects))
      (inside : ev.stage = .inside ∨ ∃ jitter, ev = .start jitter)
      (finished : ∀ result, back = some (d, result) ↔ ev = .tickDone result) :
      Turned now d back l l'

theorem Turned.follows (turned : Turned now d back l l') (sound : l.Sound) :
    Follows d back l l' := by
  cases turned with
  | kept count stage status other =>
    refine ⟨by rw [stage]; exact fun h => h, ?_, ?_⟩
    · intro fin
      rcases status with kept | idle
      · exact kept.trans fin
      · rw [fin] at idle
        cases idle
    · exact Or.inr ⟨fun signal => other (.ok signal), congrArg Schedule.Count.firstRun count⟩
  | own ev effects moved inside finished =>
    refine ⟨?_, fun fin => Loop.finished_of_step sound fin moved, ?_⟩
    · intro begun
      refine (Loop.unstarted_of_step moved ?_).not.mpr begun
      rintro ⟨idle, -⟩
      exact begun (sound.unstarted idle)
    · rcases Loop.count_cases moved with ⟨same, -, other, -⟩ | ⟨-, ⟨jitter, rfl⟩, same, -⟩ |
        ⟨signal, rfl, -, same, -⟩
      · exact Or.inr ⟨fun signal k => other signal ((finished _).mp k),
          congrArg Schedule.Count.firstRun same⟩
      · refine Or.inr ⟨fun signal k => ?_, congrArg Schedule.Count.firstRun same⟩
        cases (finished _).mp k
      · exact Or.inl ⟨signal, (finished _).mpr rfl, congrArg Schedule.Count.firstRun same⟩

theorem Shift.turned (shift : Shift now s s' back) (found : s.fetcher.loops.get d = some l) :
    ∃ l', s'.fetcher.loops.get d = some l' ∧ Turned now d back l l' := by
  have same : s'.fetcher.loops.get d = s.fetcher.loops.get d →
      (∀ result, back ≠ some (d, result)) →
      ∃ l', s'.fetcher.loops.get d = some l' ∧ Turned now d back l l' :=
    fun loops other => ⟨l, loops.trans found, .kept rfl rfl (Or.inl rfl) other⟩
  -- The step is of the loop of direction `b`.
  have set : ∀ {b : Direction} {m m' : Loop}, s.fetcher.loops.get b = some m →
      s'.fetcher.loops = s.fetcher.loops.set b (some m') →
      (d ≠ b → ∀ result, back ≠ some (d, result)) → (d = b → Turned now d back m m') →
      ∃ l', s'.fetcher.loops.get d = some l' ∧ Turned now d back l l' := by
    intro b m m' present loops other own
    by_cases here : d = b
    · subst here
      rw [found] at present
      cases present
      exact ⟨m', by rw [loops, Both.get_set_self], own rfl⟩
    · exact same (by rw [loops, Both.get_set_of_ne _ here]) (other here)
  cases shift with
  | still loops => exact same (by rw [loops]) (by simp)
  | publish bare =>
    rw [(bare d).1] at found
    cases found
  | launch before after loops => exact same (by rw [loops]) (by simp)
  | release held settled loops => exact same (by rw [loops]) (by simp)
  | hush b m m' present count stage status loops =>
    exact set present loops (by simp) fun _ => .kept count stage status (by simp)
  | enter b jitter m m' effects task present moved loops =>
    exact set present loops (by simp) fun _ =>
      .own (.start jitter) effects moved (Or.inr ⟨jitter, rfl⟩) (by simp)
  | loop b ev m m' effects back present own moved finished loops =>
    refine set present loops ?_ ?_
    · intro other result k
      exact other ((finished d result).mp k).1
    · rintro rfl
      exact .own ev effects moved (Or.inl own) (by simpa using finished d)

theorem Shift.follows (shift : Shift now s s' back) (h : s.fetcher.Regular)
    (found : s.fetcher.loops.get d = some l) :
    ∃ l', s'.fetcher.loops.get d = some l' ∧ Follows d back l l' := by
  obtain ⟨l', found', turned⟩ := shift.turned found
  exact ⟨l', found', turned.follows (h.sound d l found)⟩

theorem Shift.found {result : Except Failure Signal} (h : s.fetcher.Regular)
    (shift : Shift now s s' (some (d, result))) :
    ∃ l, s.fetcher.loops.get d = some l ∧ l.status = .running := by
  generalize same : some (d, result) = back at shift
  cases shift with
  | loop b ev l l' effects back found own moved finished =>
    obtain ⟨rfl, -⟩ := (finished d result).mp same.symm
    exact ⟨l, found, Loop.running_of_own (h.sound d l found) own moved⟩
  | _ => cases same

theorem Shift.made (shift : Shift now s s' back) (absent : s.fetcher.loops.get d = none)
    (made : s'.fetcher.loops.get d = some l) :
    s.fetcher.Bare ∧ back = none ∧ s.fetcher.config.loop? s'.fetcher.memory d = some l := by
  have same : s'.fetcher.loops.get d ≠ s.fetcher.loops.get d := by
    rw [absent, made]
    simp
  have set : ∀ {b : Direction} {m m' : Loop}, s.fetcher.loops.get b = some m →
      s'.fetcher.loops ≠ s.fetcher.loops.set b (some m') := by
    intro b m m' present loops
    by_cases own : d = b
    · rw [← own, absent] at present
      cases present
    · exact same (by rw [loops, Both.get_set_of_ne _ own])
  cases shift with
  | publish bare loops => exact ⟨bare, rfl, (loops d).symm.trans made⟩
  | still loops => exact absurd (by rw [loops]) same
  | launch before after loops => exact absurd (by rw [loops]) same
  | release held settled loops => exact absurd (by rw [loops]) same
  | hush b m m' present count stage status loops => exact absurd loops (set present)
  | enter b jitter m m' effects task present moved loops => exact absurd loops (set present)
  | loop b ev m m' effects back present own moved finished loops => exact absurd loops (set present)

theorem Shift.appears (shift : Shift now s s' back) (absent : s.fetcher.loops.get d = none)
    (made : s'.fetcher.loops.get d = some l) :
    s.fetcher.Bare ∧ back = none ∧ l.firstRun = true ∧
      (s'.fetcher.memory.job d).complete = false := by
  obtain ⟨bare, none, new⟩ := shift.made absent made
  exact ⟨bare, none, Fetcher.firstRun_of_loop? new⟩

end System
end Fetch
end ChainFetch
