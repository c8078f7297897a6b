import ChainFetch.Proofs.Schedule.Counters
import ChainFetch.Rehearsal.Schedule
/-!
A loop left to itself: nobody wakes or stops it, its ticks take the times and have the results of a
script, and a wait with an end lasts until its end. Main statements: `Loop.step_later`, what a loop
does depends on differences of times alone, and `rehearseSchedule_alone`, a rehearsal without
callers plays the script in this way.
-/

namespace ChainFetch.Schedule

/-! ## Later times -/

namespace Stage

def later (lag : Nat) : Stage → Stage
  | unstarted => unstarted
  | ready => ready
  | ticking since => ticking (since + lag)
  | waiting since length notified => waiting (since + lag) length notified
  | returned => returned

end Stage

namespace Loop

def later (lag : Nat) (l : Loop) : Loop := { l with stage := l.stage.later lag }

variable {l : Loop} {lag now : Nat}

theorem later_wake (l : Loop) (lag : Nat) : (l.later lag).wake = l.wake.later lag := by
  obtain ⟨config, mode, status, stopAsked, permit, shown, runs, interval, firstRun, stage⟩ := l
  cases stage with
  | waiting since length notified => cases notified <;> cases permit <;> rfl
  | _ => rfl

theorem later_pause (l : Loop) (now lag : Nat) (length : Option Duration) :
    (l.later lag).pause (now + lag) length =
      ((l.pause now length).1.later lag, (l.pause now length).2) := by
  unfold pause
  by_cases stop : l.stopAsked = true
  · rw [if_pos stop, if_pos (show (l.later lag).stopAsked = true from stop)]
    rfl
  · rw [if_neg stop, if_neg (show ¬ (l.later lag).stopAsked = true from stop)]
    rfl

theorem later_start (l : Loop) (now lag : Nat) (jitter : Duration) :
    (l.later lag).start (now + lag) jitter =
      ((l.start now jitter).1.later lag, (l.start now jitter).2) := by
  by_cases idle : l.status = .idle
  · have idle' : (l.later lag).status = .idle := idle
    simp only [start, if_pos idle, if_pos idle']
    by_cases prompt : (l.config.startDelay + jitter).isZero = true
    · have prompt' : ((l.later lag).config.startDelay + jitter).isZero = true := prompt
      simp only [if_pos prompt, if_pos prompt']
      rfl
    · have prompt' : ¬ ((l.later lag).config.startDelay + jitter).isZero = true := prompt
      simp only [if_neg prompt, if_neg prompt']
      exact later_pause { l with status := .running, interval := l.currentInterval } now lag _
  · have idle' : ¬ (l.later lag).status = .idle := idle
    simp only [start, if_neg idle, if_neg idle']

theorem later_succeeded (l : Loop) (now since lag : Nat) (signal : Signal) :
    (l.later lag).succeeded (now + lag) (since + lag) signal =
      ((l.succeeded now since signal).1.later lag, (l.succeeded now since signal).2) := by
  have elapsed : now + lag - (since + lag) = now - since := by omega
  have pauses := fun length => later_pause (l.credited signal) now lag length
  by_cases ends : signal = .stop ∨ (l.credited signal).reachedMaxRuns = true
  · have ends' : signal = .stop ∨ ((l.later lag).credited signal).reachedMaxRuns = true := ends
    rw [succeeded_of_ends now since ends, succeeded_of_ends _ _ ends']
    rfl
  have going' : ¬ (signal = .stop ∨ ((l.later lag).credited signal).reachedMaxRuns = true) := ends
  by_cases idle : (l.credited signal).idles signal = true
  · have idle' : ((l.later lag).credited signal).idles signal = true := idle
    rw [succeeded_of_idles now since ends idle, succeeded_of_idles _ _ going' idle']
    exact congrArg (fun x => (x.1, l.firstEffects ++ x.2)) (pauses none)
  · have busy' : ¬ ((l.later lag).credited signal).idles signal = true := idle
    rw [succeeded_of_sleeps now since ends idle, succeeded_of_sleeps _ _ going' busy', elapsed]
    let sleep := (l.credited signal).sleepAfter (.ofMillis (now - since))
    exact congrArg (fun x => (x.1, l.firstEffects ++ .sleep sleep :: x.2)) (pauses (some sleep))

/-- What a loop does depends on differences of times alone. -/
theorem step_later (l : Loop) (lag now : Nat) (e : Event) :
    (l.later lag).step (now + lag) e = (l.step now e).map fun x => (x.1.later lag, x.2) := by
  cases e with
  | start jitter => exact congrArg some (later_start l now lag jitter)
  | turn =>
    obtain ⟨config, mode, status, stopAsked, permit, shown, runs, interval, firstRun, stage⟩ := l
    cases stage with
    | ready => cases stopAsked <;> rfl
    | _ => rfl
  | tickDone result =>
    cases stage : l.stage with
    | ticking since =>
      have stage' : (l.later lag).stage = .ticking (since + lag) := by rw [later, stage]; rfl
      cases result with
      | ok signal =>
        simp only [step, stage, stage']
        exact congrArg some (later_succeeded l now since lag signal)
      | error f =>
        simp only [step, stage, stage']
        exact congrArg some (later_pause l now lag _)
    | _ =>
      simp only [step, later, Stage.later, stage]
      rfl
  | timeout =>
    obtain ⟨config, mode, status, stopAsked, permit, shown, runs, interval, firstRun, stage⟩ := l
    cases stage with
    | waiting since length notified =>
      cases length with
      | none => rfl
      | some length =>
        have due : since + lag + length.ceilMillis ≤ now + lag ↔
            since + length.ceilMillis ≤ now := by omega
        simp only [step, later, Stage.later, due]
        split <;> rfl
    | _ => rfl
  | rouse =>
    obtain ⟨config, mode, status, stopAsked, permit, shown, runs, interval, firstRun, stage⟩ := l
    cases stage with
    | waiting since length notified => cases notified <;> cases permit <;> rfl
    | _ => rfl
  | interrupt =>
    obtain ⟨config, mode, status, stopAsked, permit, shown, runs, interval, firstRun, stage⟩ := l
    cases stage with
    | waiting since length notified => cases stopAsked <;> rfl
    | _ => rfl
  | wake => exact congrArg some (by rw [later_wake])
  | askStop => rfl
  | settleStop =>
    obtain ⟨config, mode, status, stopAsked, permit, shown, runs, interval, firstRun, stage⟩ := l
    cases status <;> rfl
  | join =>
    obtain ⟨config, mode, status, stopAsked, permit, shown, runs, interval, firstRun, stage⟩ := l
    cases status <;> rfl

end Loop

/-! ## A script of ticks -/

/-- A tick of a script: how long it takes, and how it comes back. -/
structure Beat where
  delay : Duration
  result : Except Failure Signal

def Beat.millis (b : Beat) : Nat := b.delay.ceilMillis

/-- A tick that a loop has made: when it began, what it was told, and what others saw of the loop
when it came back. -/
structure Round where
  beat : Beat
  start : Nat
  context : Context
  seen : List Effect

structure Alone where
  now : Nat
  loop : Loop

namespace Alone

def rest (a : Alone) : Alone :=
  match a.loop.deadline? with
  | some due => (a.loop.step due .timeout).elim a fun x => ⟨due, x.1⟩
  | none => a

def start (config : Config) (mode : Mode) (jitter : Duration) : Alone :=
  rest ⟨0, ((Loop.new config mode).start 0 jitter).1⟩

/-- One tick and the wait that follows it, where the loop is at its top. -/
def beat? (a : Alone) (b : Beat) : Option (Round × Alone) :=
  (a.loop.step a.now .turn).bind fun begun =>
    (begun.1.step (a.now + b.millis) (.tickDone b.result)).map fun ended =>
      (⟨b, a.now, a.loop.context, ended.2⟩, rest ⟨a.now + b.millis, ended.1⟩)

/-- Plays a script as far as the loop comes back to its top. -/
def play (a : Alone) : List Beat → List Round × Alone
  | [] => ([], a)
  | b :: script =>
    match a.beat? b with
    | some (r, a) => ((r :: (a.play script).1), (a.play script).2)
    | none => ([], a)

def later (lag : Nat) (a : Alone) : Alone := ⟨a.now + lag, a.loop.later lag⟩

end Alone

def Round.later (lag : Nat) (r : Round) : Round := { r with start := r.start + lag }

namespace Alone

variable {a a' : Alone} {b : Beat} {r : Round} {lag : Nat} {script : List Beat}

theorem deadline?_later (l : Loop) (lag : Nat) :
    (l.later lag).deadline? = l.deadline?.map (· + lag) := by
  obtain ⟨config, mode, status, stopAsked, permit, shown, runs, interval, firstRun, stage⟩ := l
  cases stage with
  | waiting since length notified =>
    cases length with
    | none => rfl
    | some length =>
      simp only [Loop.deadline?, Loop.later, Stage.later, Option.map_some, Option.some.injEq]
      omega
  | _ => rfl

theorem rest_later (a : Alone) (lag : Nat) : (a.later lag).rest = a.rest.later lag := by
  unfold rest
  rw [show (a.later lag).loop.deadline? = _ from deadline?_later a.loop lag]
  cases ends : a.loop.deadline? with
  | none => rfl
  | some due =>
    have shifted := Loop.step_later a.loop lag due .timeout
    simp only [Option.map_some, later]
    rw [shifted]
    cases a.loop.step due .timeout <;> rfl

theorem beat?_later (a : Alone) (lag : Nat) (b : Beat) :
    (a.later lag).beat? b = (a.beat? b).map fun x => (x.1.later lag, x.2.later lag) := by
  have top := Loop.step_later a.loop lag a.now .turn
  unfold beat?
  simp only [later]
  rw [top]
  cases a.loop.step a.now .turn with
  | none => rfl
  | some begun =>
    have ends := Loop.step_later begun.1 lag (a.now + b.millis) (.tickDone b.result)
    have due : a.now + lag + b.millis = a.now + b.millis + lag := by omega
    simp only [Option.map_some, Option.bind_some, due]
    rw [ends]
    cases begun.1.step (a.now + b.millis) (.tickDone b.result) with
    | none => rfl
    | some ended =>
      have rested := rest_later ⟨a.now + b.millis, ended.1⟩ lag
      simp only [Option.map_some, Option.some.injEq, Prod.mk.injEq]
      exact ⟨rfl, rested⟩

theorem play_later (a : Alone) (lag : Nat) (script : List Beat) :
    (a.later lag).play script =
      ((a.play script).1.map (Round.later lag), (a.play script).2.later lag) := by
  induction script generalizing a with
  | nil => rfl
  | cons b script ih =>
    simp only [play, beat?_later]
    cases a.beat? b with
    | none => rfl
    | some x => simp only [Option.map_some, ih, List.map_cons]

/-! ## What a beat leaves -/

structure Untouched (l : Loop) : Prop where
  stopAsked : l.stopAsked = false
  permit : l.permit = false
  notified : ∀ since length, l.stage ≠ .waiting since length true

def Settled (l : Loop) : Prop :=
  l.stage = .ready ∨ l.stage = .returned ∨ ∃ since, l.stage = .waiting since none false

theorem untouched_of_step {l l' : Loop} {now : Nat} {e : Event} {effects : List Effect}
    (h : Untouched l) (own : e = .turn ∨ (∃ result, e = .tickDone result) ∨ e = .timeout)
    (k : l.step now e = some (l', effects)) : Untouched l' := by
  rcases own with rfl | ⟨result, rfl⟩ | rfl
  · obtain ⟨-, ⟨stop, -⟩ | ⟨-, rfl, -⟩⟩ := Loop.turn_cases k
    · rw [h.stopAsked] at stop
      cases stop
    · exact ⟨h.stopAsked, h.permit, by simp⟩
  · obtain ⟨-, ⟨-, -, stop, permit⟩, -, length, paused, -⟩ := Loop.tickDone_cases k
    refine ⟨stop.trans h.stopAsked, permit.trans h.permit, ?_⟩
    rcases paused with ⟨-, stage, -⟩ | ⟨-, -, -, stage⟩ <;> simp [stage]
  · obtain ⟨since, length, notified, stage, rfl, -⟩ := Loop.timeout_cases k
    cases notified with
    | true => exact absurd stage (h.notified _ _)
    | false => exact ⟨h.stopAsked, by simp [h.permit], by simp⟩

theorem rest_cases (a : Alone) :
    (a.loop.deadline? = none ∧ a.rest = a) ∨
    ∃ since length notified, a.loop.stage = .waiting since (some length) notified ∧
      a.rest = ⟨since + length.ceilMillis,
        { a.loop with permit := a.loop.permit || notified, stage := .ready }⟩ := by
  unfold rest
  cases stage : a.loop.stage with
  | waiting since length notified =>
    cases length with
    | none => exact Or.inl (by simp [Loop.deadline?, stage])
    | some length =>
      refine Or.inr ⟨since, length, notified, rfl, ?_⟩
      simp [Loop.deadline?, stage, Loop.step, Loop.release]
  | _ => exact Or.inl (by simp [Loop.deadline?, stage])

theorem untouched_rest (h : Untouched a.loop) : Untouched a.rest.loop := by
  rcases a.rest_cases with ⟨-, same⟩ | ⟨since, length, notified, stage, same⟩
  · rw [same]
    exact h
  · rw [same]
    cases notified with
    | true => exact absurd stage (h.notified _ _)
    | false => exact ⟨h.stopAsked, by simp [h.permit], by simp⟩

theorem beat?_cases (h : a.beat? b = some (r, a')) (untouched : Untouched a.loop) :
    a.loop.stage = .ready ∧ ∃ l,
      { a.loop with stage := .ticking a.now }.step (a.now + b.millis)
        (.tickDone b.result) = some (l, r.seen) ∧
      r = ⟨b, a.now, a.loop.context, r.seen⟩ ∧
      a' = rest ⟨a.now + b.millis, l⟩ := by
  unfold beat? at h
  obtain ⟨⟨m, begun⟩, top, h⟩ := Option.bind_eq_some_iff.mp h
  obtain ⟨⟨l, seen⟩, ends, h⟩ := Option.map_eq_some_iff.mp h
  cases h
  obtain ⟨ready, ⟨stop, -⟩ | ⟨-, rfl, -⟩⟩ := Loop.turn_cases top
  · rw [untouched.stopAsked] at stop
    cases stop
  · exact ⟨ready, l, ends, rfl, rfl⟩

theorem beat?_isSome (ready : a.loop.stage = .ready) (untouched : Untouched a.loop) (b : Beat) :
    ∃ r a', a.beat? b = some (r, a') := by
  unfold beat?
  rw [Loop.step_turn_of_ready a.now ready untouched.stopAsked]
  cases b.result with
  | ok signal => exact ⟨_, _, rfl⟩
  | error f => exact ⟨_, _, rfl⟩

theorem beat?_eq_none (busy : a.loop.stage ≠ .ready) (b : Beat) : a.beat? b = none := by
  unfold beat?
  simp [Loop.step, busy]

theorem settled_of_beat? (h : a.beat? b = some (r, a')) (untouched : Untouched a.loop) :
    Untouched a'.loop ∧ Settled a'.loop := by
  obtain ⟨ready, l, ends, -, rfl⟩ := beat?_cases h untouched
  have ticking : Untouched { a.loop with stage := .ticking a.now } :=
    ⟨untouched.stopAsked, untouched.permit, by simp⟩
  have ended := untouched_of_step ticking (Or.inr (Or.inl ⟨_, rfl⟩)) ends
  refine ⟨untouched_rest (a := ⟨_, l⟩) ended, ?_⟩
  obtain ⟨-, -, -, length, paused, -⟩ := Loop.tickDone_cases ends
  rcases rest_cases ⟨a.now + b.millis, l⟩ with ⟨endless, same⟩ | ⟨_, _, _, -, same⟩
  · rw [same]
    rcases paused with ⟨-, stage, -⟩ | ⟨-, -, -, stage⟩
    · exact Or.inr (Or.inl stage)
    · cases length with
      | none => exact Or.inr (Or.inr ⟨_, stage⟩)
      | some length => simp [Loop.deadline?, stage] at endless
  · rw [same]
    exact Or.inl rfl

theorem start_cases (config : Config) (mode : Mode) (jitter : Duration) :
    Untouched (start config mode jitter).loop ∧ (start config mode jitter).loop.stage = .ready ∧
      ((Loop.new config mode).start 0 jitter).2 = [] ∧
      Untouched ((Loop.new config mode).start 0 jitter).1 ∧
      ∀ since length notified,
        ((Loop.new config mode).start 0 jitter).1.stage = .waiting since length notified →
          since = 0 := by
  obtain ⟨l, effects, begun⟩ : ∃ l effects, (Loop.new config mode).start 0 jitter = (l, effects) :=
    ⟨_, _, rfl⟩
  rw [start, begun]
  rcases Loop.start_cases (congrArg some begun) with ⟨began, -⟩ |
    ⟨-, m, rfl, ⟨rfl, rfl⟩ | ⟨stop, -⟩ | ⟨length, rfl, rfl⟩⟩
  · exact absurd rfl began
  · exact ⟨⟨rfl, rfl, by simp [rest, Loop.deadline?]⟩, rfl, rfl, ⟨rfl, rfl, by simp⟩, by simp⟩
  · cases stop
  · refine ⟨untouched_rest (a := ⟨0, _⟩) ⟨rfl, rfl, by simp⟩, ?_, rfl, ⟨rfl, rfl, by simp⟩, ?_⟩
    rotate_left
    · rintro _ _ _ ⟨⟩
      rfl
    rcases rest_cases ⟨0, { Loop.new config mode with
      status := .running, interval := (Loop.new config mode).currentInterval
      stage := .waiting 0 (some length) false }⟩ with ⟨endless, -⟩ | ⟨_, _, _, -, same⟩
    · cases endless
    · rw [same]

end Alone

/-! ## The rehearsal of a script -/

namespace Beat

def plan (b : Beat) : Rehearsal.TickPlan := { delay := b.delay, result := b.result }

def last : Beat := ⟨.zero, .ok .stop⟩

end Beat

open Rehearsal (ScheduleEntry SchedulePlay TickPlan)

def Effect.entry : Effect → ScheduleEntry
  | tick context => .tick context
  | firstSuccess => .firstRun
  | sleep length => .sleep length
  | returned => .ended

def Round.entries (r : Round) : List (Nat × ScheduleEntry) :=
  (r.start, .tick r.context) :: r.seen.map fun effect => (r.start + r.beat.millis, effect.entry)

namespace Alone

variable {a a' : Alone} {b : Beat} {r : Round} {script : List Beat} {p p' p'' : SchedulePlay}
  {m n : Nat} {plans : List TickPlan}
  {log : List (Nat × ScheduleEntry)} {effects : List Effect}

/-- The rehearsal leads from one state to another in so many steps at most. -/
def Leads (n : Nat) (p p' : SchedulePlay) : Prop :=
  ∃ m ≤ n, ∀ fuel, SchedulePlay.world.run (fuel + m) false p = SchedulePlay.world.run fuel false p'

theorem Leads.refl (p : SchedulePlay) : Leads 0 p p := ⟨0, Nat.le_refl _, fun _ => rfl⟩

theorem Leads.trans (h : Leads m p p') (k : Leads n p' p'') : Leads (m + n) p p'' := by
  obtain ⟨i, first, h⟩ := h
  obtain ⟨j, second, k⟩ := k
  refine ⟨j + i, by omega, fun fuel => ?_⟩
  rw [← Nat.add_assoc, h, k]

theorem Leads.program (h : p.program = some p') : Leads 1 p p' := by
  refine ⟨1, Nat.le_refl _, fun fuel => ?_⟩
  have h : SchedulePlay.world.program p = some p' := h
  simp [Rehearsal.World.run, h]

theorem Leads.clock (idle : p.program = none) (silent : p.agenda = [])
    (due : SchedulePlay.world.nextAlarm? p = some n) : Leads 1 p { p with now := n } := by
  refine ⟨1, Nat.le_refl _, fun fuel => ?_⟩
  have idle : SchedulePlay.world.program p = none := idle
  have silent : SchedulePlay.world.script p = none := by
    change p.script = none
    rw [SchedulePlay.script, silent]
  simp only [Rehearsal.World.run, Bool.false_eq_true, if_false, idle, silent, due]
  rfl

def rehearsed (a : Alone) (plans : List TickPlan) (log : List (Nat × ScheduleEntry)) :
    SchedulePlay :=
  { now := a.now, loop := a.loop, called := true, plans := plans, agenda := [], log := log }

theorem foldl_follow (quiet : ∀ c, .tick c ∉ effects) (p : SchedulePlay) :
    effects.foldl SchedulePlay.follow p =
      { p with log := p.log ++ effects.map fun effect => (p.now, effect.entry) } := by
  induction effects generalizing p with
  | nil => simp
  | cons effect effects ih =>
    have others : ∀ c, .tick c ∉ effects := fun c h => quiet c (List.mem_cons_of_mem _ h)
    rw [List.foldl_cons, ih others]
    cases effect with
    | tick c => exact absurd List.mem_cons_self (quiet c)
    | firstSuccess | sleep length | returned =>
      simp [SchedulePlay.follow, SchedulePlay.note, Effect.entry]

theorem Leads.mono (h : Leads m p p') (k : m ≤ n) : Leads n p p' := by
  obtain ⟨i, first, h⟩ := h
  exact ⟨i, Nat.le_trans first k, h⟩

theorem Leads.awaited (waits : p.now < n → p.program = none) (silent : p.agenda = [])
    (reached : p.now ≤ n) (alarms : SchedulePlay.world.alarms p = [n])
    (done : SchedulePlay.program { p with now := n } = some p') : Leads 2 p p' := by
  by_cases now : p.now = n
  · subst now
    exact (Leads.program done).mono (by omega)
  · have before : p.now < n := by omega
    have next : SchedulePlay.world.nextAlarm? p = some n := by
      have later : SchedulePlay.world.now p < n := before
      rw [Rehearsal.World.nextAlarm?, alarms]
      simp [later]
    exact (Leads.clock (waits before) silent next).trans (Leads.program done)

theorem leads_rest (untouched : Untouched a.loop)
    (begun : ∀ since length notified,
      a.loop.stage = .waiting since (some length) notified → since = a.now) :
    Leads 2 (a.rehearsed plans log) (a.rest.rehearsed plans log) := by
  rcases a.rest_cases with ⟨-, same⟩ | ⟨since, length, notified, stage, same⟩
  · rw [same]
    exact (Leads.refl _).mono (by omega)
  · obtain rfl := begun since length notified stage
    have unheard : notified = false := by
      cases notified with
      | true => exact absurd stage (untouched.notified _ _)
      | false => rfl
    subst unheard
    rw [same]
    refine Leads.awaited (n := a.now + length.ceilMillis) ?_ rfl (Nat.le_add_right _ _) ?_ ?_
    · intro early
      have early : ¬ a.now + length.ceilMillis ≤ a.now := Nat.not_le.mpr early
      simp [SchedulePlay.program, rehearsed, Loop.nextEvent?, stage, untouched.stopAsked,
        untouched.permit, early]
    · simp [SchedulePlay.world, rehearsed, Loop.deadline?, stage]
    · simp [SchedulePlay.program, SchedulePlay.take, rehearsed, Loop.nextEvent?, Loop.step,
        Loop.release, stage, untouched.stopAsked, untouched.permit]

theorem leads_beat (untouched : Untouched a.loop) (next : plans.head?.getD {} = b.plan)
    (h : a.beat? b = some (r, a')) :
    Leads 5 (a.rehearsed plans log) (a'.rehearsed plans.tail (log ++ r.entries)) := by
  obtain ⟨ready, l, ends, shape, rfl⟩ := beat?_cases h untouched
  have ticking : Untouched { a.loop with stage := .ticking a.now } :=
    ⟨untouched.stopAsked, untouched.permit, by simp⟩
  obtain ⟨-, -, quiet, length, paused, -⟩ := Loop.tickDone_cases ends
  -- The tick begins.
  have first : Leads 1 (a.rehearsed plans log)
      { a.rehearsed plans.tail (log ++ [(a.now, .tick a.loop.context)]) with
        loop := { a.loop with stage := .ticking a.now }
        flight? := some (a.now + b.millis, b.result) } := by
    refine Leads.program ?_
    have top := Loop.step_turn_of_ready a.now ready untouched.stopAsked
    simp [SchedulePlay.program, SchedulePlay.take, rehearsed, Loop.nextEvent?, ready, top,
      SchedulePlay.follow, SchedulePlay.note, SchedulePlay.beginTick, next, Beat.plan, Beat.millis]
  -- It comes back.
  have second : Leads 2
      { a.rehearsed plans.tail (log ++ [(a.now, .tick a.loop.context)]) with
        loop := { a.loop with stage := .ticking a.now }
        flight? := some (a.now + b.millis, b.result) }
      (rehearsed ⟨a.now + b.millis, l⟩ plans.tail (log ++ r.entries)) := by
    refine Leads.awaited (n := a.now + b.millis) ?_ rfl (Nat.le_add_right _ _) ?_ ?_
    · intro early
      have early : ¬ a.now + b.millis ≤ a.now := Nat.not_le.mpr early
      simp [SchedulePlay.program, rehearsed, early]
    · simp [SchedulePlay.world, rehearsed, Loop.deadline?]
    · rw [shape]
      simp [SchedulePlay.program, SchedulePlay.take, rehearsed, ends, foldl_follow quiet,
        Round.entries]
  have rested : Leads 2 (rehearsed ⟨a.now + b.millis, l⟩ plans.tail (log ++ r.entries))
      ((rest ⟨a.now + b.millis, l⟩).rehearsed plans.tail (log ++ r.entries)) := by
    refine leads_rest (untouched_of_step ticking (Or.inr (Or.inl ⟨_, rfl⟩)) ends) ?_
    intro since length' notified stage
    rcases paused with ⟨-, stage', -⟩ | ⟨-, -, -, stage'⟩
    · rw [stage'] at stage
      cases stage
    · rw [stage'] at stage
      cases stage
      rfl
  exact (first.trans second).trans rested

theorem run_of_busy (untouched : Untouched a.loop) (settled : Settled a.loop)
    (busy : a.loop.stage ≠ .ready) (fuel : Nat) :
    SchedulePlay.world.run fuel false (a.rehearsed plans log) = a.rehearsed plans log := by
  have idle : SchedulePlay.world.program (a.rehearsed plans log) = none ∧
      SchedulePlay.world.nextAlarm? (a.rehearsed plans log) = none := by
    rcases settled with ready | back | ⟨since, stage⟩
    · exact absurd ready busy
    · simp [SchedulePlay.world, SchedulePlay.program, rehearsed, Loop.nextEvent?, back,
        Rehearsal.World.nextAlarm?, Loop.deadline?]
    · simp [SchedulePlay.world, SchedulePlay.program, rehearsed, Loop.nextEvent?, stage,
        Rehearsal.World.nextAlarm?, Loop.deadline?, untouched.stopAsked, untouched.permit]
  have silent : SchedulePlay.world.script (a.rehearsed plans log) = none := rfl
  cases fuel with
  | zero => rfl
  | succ fuel => simp [Rehearsal.World.run, idle.1, idle.2, silent]

theorem play_of_busy (busy : a.loop.stage ≠ .ready) (script : List Beat) :
    a.play script = ([], a) := by
  cases script with
  | nil => rfl
  | cons b script => rw [play, beat?_eq_none busy]

theorem play_cons (h : a.beat? b = some (r, a')) :
    a.play (b :: script) = (r :: (a'.play script).1, (a'.play script).2) := by
  rw [play, h]

/-- A script and a tick that ends the loop take five steps for each tick at most, and the loop is
not at its top then. -/
theorem leads_play (untouched : Untouched a.loop) (settled : Settled a.loop) (script : List Beat)
    (log : List (Nat × ScheduleEntry)) :
    ∃ rest, Leads (5 * (script.length + 1)) (a.rehearsed (script.map Beat.plan) log)
      ((a.play (script ++ [.last])).2.rehearsed rest
        (log ++ (a.play (script ++ [.last])).1.flatMap Round.entries)) ∧
      Untouched (a.play (script ++ [.last])).2.loop ∧
      Settled (a.play (script ++ [.last])).2.loop ∧
      (a.play (script ++ [.last])).2.loop.stage ≠ .ready := by
  induction script generalizing a log with
  | nil =>
    by_cases ready : a.loop.stage = .ready
    · obtain ⟨r, a', beat⟩ := beat?_isSome ready untouched .last
      have made : Leads 5 (a.rehearsed [] log) (a'.rehearsed [] (log ++ r.entries)) :=
        leads_beat untouched rfl beat
      obtain ⟨untouched', settled'⟩ := settled_of_beat? beat untouched
      rw [List.nil_append, play_cons beat]
      refine ⟨[], by simpa [play] using made, untouched', settled', ?_⟩
      obtain ⟨-, l, ends, -, rfl⟩ := beat?_cases beat untouched
      obtain ⟨since, -, k⟩ := Loop.tickDone_ok_cases ends
      have ended : l.stage = .returned := by
        rw [Loop.succeeded, if_pos (Or.inl rfl)] at k
        rw [(Prod.mk.inj k).1]
      simp [play, rest, ended, Loop.deadline?]
    · rw [play_of_busy ready]
      exact ⟨_, by simpa using (Leads.refl _).mono (Nat.zero_le _), untouched, settled, ready⟩
  | cons b script ih =>
    by_cases ready : a.loop.stage = .ready
    · obtain ⟨r, a', beat⟩ := beat?_isSome ready untouched b
      obtain ⟨untouched', settled'⟩ := settled_of_beat? beat untouched
      have made : Leads 5 (a.rehearsed ((b :: script).map Beat.plan) log)
          (a'.rehearsed (script.map Beat.plan) (log ++ r.entries)) := leads_beat untouched rfl beat
      obtain ⟨rest, later, ended⟩ := ih untouched' settled' (log ++ r.entries)
      rw [List.cons_append, play_cons beat]
      refine ⟨rest, ?_, ended⟩
      have whole := made.trans later
      rw [List.append_assoc] at whole
      exact whole.mono (by simp only [List.length_cons]; omega)
    · rw [play_of_busy ready]
      exact ⟨_, by simpa using (Leads.refl _).mono (Nat.zero_le _), untouched, settled, ready⟩

/-- A rehearsal without callers plays its script in this way, with a tick that ends the loop behind
it. The log counts time from the first tick where the start is partly random. -/
theorem rehearseSchedule_alone (config : Config) (mode : Mode) (script : List Beat) :
    let played := (start config mode .zero).play (script ++ [.last])
    let report := Rehearsal.rehearseSchedule config mode [] (script.map Beat.plan) []
    report.final = Rehearsal.look played.2.loop ∧
      ∃ origin : Nat, (config.jitterMax.millis = 0 → origin = 0) ∧
        report.log = (played.1.flatMap Round.entries).map fun x => ((x.1 : Int) - origin, x.2) := by
  intro played report
  obtain ⟨untouched, ready, silent, untouched₀, begun⟩ := start_cases config mode .zero
  obtain ⟨plans, leads, still, settled, busy⟩ := leads_play untouched (Or.inl ready) script []
  have called : Leads 1
      { loop := Loop.new config mode, plans := script.map Beat.plan, agenda := [] }
      (rehearsed ⟨0, ((Loop.new config mode).start 0 .zero).1⟩ (script.map Beat.plan) []) := by
    refine Leads.program ?_
    simp [SchedulePlay.program, SchedulePlay.take, Loop.step, silent, rehearsed]
  have rested : Leads 2
      (rehearsed ⟨0, ((Loop.new config mode).start 0 .zero).1⟩ (script.map Beat.plan) [])
      ((start config mode .zero).rehearsed (script.map Beat.plan) []) :=
    leads_rest untouched₀ fun since length notified => begun since (some length) notified
  obtain ⟨m, few, whole⟩ := (called.trans rested).trans leads
  -- The steps that are left over change nothing.
  have fuel : Rehearsal.scheduleFuel (script.map Beat.plan) [] =
      Rehearsal.scheduleFuel (script.map Beat.plan) [] - m + m := by
    simp only [Rehearsal.scheduleFuel, List.length_map, List.length_nil]
    omega
  have result := whole (Rehearsal.scheduleFuel (script.map Beat.plan) [] - m)
  rw [← fuel, run_of_busy still settled busy, List.nil_append] at result
  have played_eq : SchedulePlay.world.play (Rehearsal.scheduleFuel (script.map Beat.plan) [])
      { loop := Loop.new config mode, plans := script.map Beat.plan, agenda := [] } =
        played.2.rehearsed plans (played.1.flatMap Round.entries) := result
  have shifted : ∃ origin : Nat, (config.jitterMax.millis = 0 → origin = 0) ∧ report.log =
      (SchedulePlay.world.play (Rehearsal.scheduleFuel (script.map Beat.plan) [])
        { loop := Loop.new config mode, plans := script.map Beat.plan, agenda := [] }).log.map
          fun x => ((x.1 : Int) - origin, x.2) :=
    ⟨_, by intro prompt; simp [prompt], rfl⟩
  refine ⟨?_, ?_⟩
  · simp only [report, Rehearsal.rehearseSchedule, List.foldl_nil]
    rw [played_eq]
    rfl
  · rw [played_eq] at shifted
    exact shifted

end Alone
end ChainFetch.Schedule
