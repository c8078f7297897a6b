import ChainFetch.Rehearsal.Clock
import ChainFetch.Schedule.Loop
/-!
A schedule's loop with scripted ticks and callers.
-/

namespace ChainFetch.Rehearsal

open Schedule (Loop Effect Signal Status Context)

inductive TickAct
  | wake
  | requestStop
  deriving DecidableEq, Inhabited

structure TickPlan where
  acts : List TickAct := []
  delay : Duration := .zero
  result : Except Failure Signal := .ok .stop
  deriving Inhabited

inductive Action
  | wake
  | stop
  | requestStop
  | finished
  | run
  | look
  deriving DecidableEq, Inhabited

structure Look where
  status : Status
  runs : Nat
  interval : Duration
  deriving DecidableEq, Inhabited

def look (l : Loop) : Look := ⟨l.status, l.runs, l.currentInterval⟩

inductive ScheduleEntry
  | tick (context : Context)
  | firstRun
  | sleep (length : Duration)
  | ended
  | done (action : Action) (look : Look)
  deriving DecidableEq, Inhabited

structure SchedulePlay where
  now : Nat := 0
  loop : Loop
  called : Bool := false
  plans : List TickPlan
  flight? : Option (Nat × Except Failure Signal) := none
  agenda : List (Nat × Action)
  asked : Bool := false
  log : List (Nat × ScheduleEntry) := []
  deriving Inhabited

def requestStop (now : Nat) (l : Loop) : Loop :=
  ((l.step now .askStop).bind fun (l, _) => l.step now .settleStop).elim l (·.1)

def doWake (now : Nat) (l : Loop) : Loop := (l.step now .wake).elim l (·.1)

def doAction (now : Nat) (l : Loop) : Action → Loop
  | .wake => doWake now l
  | .stop => requestStop now l
  | .requestStop => requestStop now l
  | .run => (l.step now (.start .zero)).elim l (·.1)
  | .finished => l
  | .look => l

namespace SchedulePlay

def note (p : SchedulePlay) (e : ScheduleEntry) : SchedulePlay :=
  { p with log := p.log ++ [(p.now, e)] }

/-- A tick begins: it takes the next plan, and stops the loop when there is none left. -/
def beginTick (p : SchedulePlay) : SchedulePlay :=
  let plan := p.plans.headD {}
  let loop := plan.acts.foldl
    (fun l a => match a with
      | .wake => doWake p.now l
      | .requestStop => requestStop p.now l) p.loop
  { p with
    loop := loop
    plans := p.plans.tail
    flight? := some (p.now + plan.delay.ceilMillis, plan.result) }

def follow (p : SchedulePlay) : Effect → SchedulePlay
  | .tick context => (p.note (.tick context)).beginTick
  | .firstSuccess => p.note .firstRun
  | .sleep length => p.note (.sleep length)
  | .returned => p.note .ended

def take (p : SchedulePlay) (e : Schedule.Event) : Option SchedulePlay :=
  (p.loop.step p.now e).map fun (l, effects) => effects.foldl follow { p with loop := l }

def program (p : SchedulePlay) : Option SchedulePlay :=
  if !p.called then { p with called := true }.take (.start .zero)
  else match p.flight? with
    | some (t, result) =>
      if t ≤ p.now then { p with flight? := none }.take (.tickDone result) else none
    | none => (p.loop.nextEvent? p.now).bind p.take

/-- Stopping and waiting for the end last until the loop is finished; other actions are done at
once. -/
def script (p : SchedulePlay) : Option SchedulePlay :=
  match p.agenda with
  | [] => none
  | (t, action) :: rest =>
    let finish (p : SchedulePlay) : SchedulePlay :=
      { p.note (.done action (look p.loop)) with agenda := rest, asked := false }
    if p.now < t then none
    else if p.asked then (p.loop.step p.now .join).map fun _ => finish p
    else
      let p := { p with loop := doAction p.now p.loop action }
      if action = .stop ∨ action = .finished then some { p with asked := true }
      else some (finish p)

def world : World SchedulePlay where
  program := program
  script := script
  now := now
  setNow t p := { p with now := t }
  alarms p :=
    (p.flight?.map (·.1)).toList ++ p.loop.deadline?.toList ++ (p.agenda.head?.map (·.1)).toList

end SchedulePlay

structure ScheduleReport where
  before : List Look
  log : List (Int × ScheduleEntry)
  final : Look
  punctual : Bool
  deriving Inhabited

/-- Steps for a whole rehearsal: a tick takes its turn, comes back and is waited for, with the clock
moved on before the last two, and there is at most one tick more than there are plans; an action has
its instant, its request and its end. -/
def scheduleFuel (plans : List TickPlan) (agenda : List (Nat × Action)) : Nat :=
  5 * (plans.length + 1) + 3 * agenda.length + 6

def startsAt (config : Schedule.Config) (t : Nat) : Bool :=
  config.startDelay.ceilMillis ≤ t && t ≤ (config.startDelay + config.jitterMax).ceilMillis

/-- Rehearses a loop: the actions `before` its run, then its run with `agenda` beside it. With a
random start the log counts time from the first tick. -/
def rehearseSchedule (config : Schedule.Config) (mode : Schedule.Mode) (before : List Action)
    (plans : List TickPlan) (agenda : List (Nat × Action)) : ScheduleReport :=
  let loop := Loop.new config mode
  let (loop, looks) := before.foldl
    (fun (l, looks) a => let l := doAction 0 l a; (l, looks ++ [look l])) (loop, [look loop])
  let p := SchedulePlay.world.play (scheduleFuel plans agenda)
    { loop := loop, plans := plans, agenda := agenda }
  let firstTick := p.log.findSome? fun (t, e) => match e with
    | .tick _ => some t
    | _ => none
  let drawn := config.jitterMax.millis ≠ 0
  let origin : Nat := if drawn then firstTick.getD 0 else 0
  ⟨looks, p.log.map fun (t, e) => ((t : Int) - origin, e), look p.loop,
    !drawn || firstTick.all (startsAt config)⟩

end ChainFetch.Rehearsal
