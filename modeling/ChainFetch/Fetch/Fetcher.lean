import ChainFetch.Fetch.Tick
import ChainFetch.Schedule.Loop
import ChainFetch.Table
/-!
A fetcher and its store as a machine. An event is one uninterrupted step of a call, of a loop or of
a tick, together with the answer that it had waited for; `System.step` says when it can happen and
what it does. Every interleaving of ticks, calls and failures is a list of events.
-/

namespace ChainFetch.Fetch

open Schedule (Loop Effect)

/-- A call that loads the state, or makes it and saves it where there is none. -/
inductive Init (γ : Type)
  | locking
  | reading
  | creating
  | done (result : Except Failure (State γ))

inductive Run (γ : Type)
  | entering
  | loading (init : Init γ)
  /-- The loops are there for others to see, but not started. -/
  | published
  | running
  | done (error : Option Failure)

/-- A call that stops both directions, one after the other. -/
inductive Stop
  | entering
  | collecting
  | asking (d : Direction) (rest : List Direction)
  | settling (d : Direction) (rest : List Direction)
  | joining (d : Direction) (rest : List Direction)
  | done
  deriving DecidableEq, Inhabited

inductive Call (γ : Type)
  | init (stage : Init γ)
  | run (stage : Run γ)
  | stop (stage : Stop)

inductive CallKind
  | init
  | run
  | stop
  deriving DecidableEq, Inhabited

inductive Task
  | absent
  | held
  | entering
  | looping
  | done
  deriving DecidableEq, Inhabited

def Task.isOver (t : Task) : Bool := t = .absent || t = .done

/-- The gate that holds the backward direction until forward has succeeded once; it is given up when
forward ends without that. -/
inductive Gate
  | closed
  | opened
  | givenUp
  deriving DecidableEq, Inhabited

structure Fetcher (γ : Type) where
  config : Config
  memory : State γ
  initialised : Bool := false
  started : Bool := false
  stopAsked : Bool := false
  locked : Bool := false
  loops : Both (Option Loop) := ⟨none, none⟩
  tasks : Both Task := ⟨.absent, .absent⟩
  ticks : Both (Option (Tick γ)) := ⟨none, none⟩
  gate : Gate := .opened
  calls : List (Call γ) := []

/-- A fetcher and the store that it shares with others. -/
structure System (γ : Type) where
  store : Table (State γ)
  fetcher : Fetcher γ

inductive Event (γ : Type)
  | call (kind : CallKind)
  /-- Call `k` takes its next step; a call of the store in it fails with `fault`. -/
  | advance (k : Nat) (fault : Option StoreFailure)
  | enter (d : Direction) (jitter : Duration)
  | release
  | turn (d : Direction) (clock : Instant)
  | timeout (d : Direction)
  | interrupt (d : Direction)
  | fetched (d : Direction) (answer : Except Failure (Outcome γ))
  | merged (d : Direction) (answer : Except Failure (Merge γ))
  | judged (d : Direction) (answer : Except Failure Bool)
  | lock (d : Direction)
  | saved (d : Direction) (fault : Option StoreFailure)
  | tickDone (d : Direction)

def Config.freshState {γ : Type} (c : Config) : State γ :=
  .fresh c.id ⟨c.startFrequency .forward, c.startFrequency .backward⟩

/-- The loop that follows a job in direction `d`, none once the job is complete. It starts at the
job's frequency; a reset goes back to the configured interval. -/
def Config.loop? {γ : Type} (c : Config) (s : State γ) (d : Direction) : Option Loop :=
  match c.schedules.get d with
  | none => none
  | some base =>
    let job := s.job d
    if job.complete then none
    else
      some (.new { base with
        name := c.id ++ "/" ++ d.text
        intervalInit := some base.resetInterval
        interval := min job.frequency base.intervalMax } .periodic)

namespace Fetcher

variable {γ : Type}

def new (c : Config) : Except Failure (Fetcher γ) :=
  match c.fault? with
  | some fault => .error (.config fault)
  | none => .ok { config := c, memory := c.freshState }

def directions : Option Direction → List Direction
  | some d => [d]
  | none => Direction.all

def isComplete (f : Fetcher γ) (d : Option Direction) : Bool :=
  (directions d).all fun d => (f.config.schedules.get d).isNone || (f.memory.job d).complete

def laterOf (a b : Option Instant) : Option Instant :=
  match a, b with
  | some t, some u => if t < u then some u else some t
  | some t, none => some t
  | none, b => b

def lastRun (f : Fetcher γ) (d : Option Direction) : Option Instant :=
  (directions d).foldl (fun latest d =>
    if (f.config.schedules.get d).isSome then laterOf latest (f.memory.job d).lastRun
    else latest) none

def nextRun (f : Fetcher γ) (d : Option Direction) : NextRun :=
  (directions d).foldl (fun first d =>
    let next := if (f.config.schedules.get d).isSome then (f.memory.job d).nextRun else .never
    NextRun.min first next) .never

def setTick (f : Fetcher γ) (d : Direction) (t : Option (Tick γ)) : Fetcher γ :=
  { f with ticks := f.ticks.set d t }

def setTask (f : Fetcher γ) (d : Direction) (t : Task) : Fetcher γ :=
  { f with tasks := f.tasks.set d t }

def hold (f : Fetcher γ) (s : State γ) : Fetcher γ := { f with memory := s, locked := false }

def follow (clock : Instant) (d : Direction) (f : Fetcher γ) : Effect → Fetcher γ
  | .tick _ =>
    f.setTick d (some (match f.config.lane? d with
      | some l => .start l f.memory clock
      | none => .done (.error (.config (.unscheduled d.text f.config.id)))))
  | .firstSuccess =>
    if d = .forward ∧ f.gate = .closed then { f with gate := .opened } else f
  | .sleep _ => f
  | .returned =>
    let f := f.setTask d .done
    if d = .forward ∧ f.gate = .closed then { f with gate := .givenUp } else f

def stepLoop (now : Nat) (clock : Instant) (f : Fetcher γ) (d : Direction) (e : Schedule.Event) :
    Option (Fetcher γ) :=
  match f.loops.get d with
  | none => none
  | some l =>
    (l.step now e).map fun (l, effects) =>
      effects.foldl (follow clock d) { f with loops := f.loops.set d (some l) }

def publish (f : Fetcher γ) (s : State γ) : Fetcher γ :=
  let forward := f.config.loop? s .forward
  let backward := f.config.loop? s .backward
  { f with
    loops := ⟨forward, backward⟩
    gate := if forward.isSome && backward.isSome then .closed else .opened }

/-- Sets off the tasks; backward is held while the gate is closed. -/
def launch (f : Fetcher γ) : Fetcher γ :=
  { f with tasks :=
    ⟨if f.loops.forward.isSome then .entering else .absent,
      if f.loops.backward.isNone then .absent else if f.gate = .closed then .held else .entering⟩ }

def stopNext : List Direction → Stop
  | [] => .done
  | d :: rest => .asking d rest

end Fetcher

namespace System

variable {γ : Type}

def setFetcher (s : System γ) (f : Fetcher γ) : System γ := { s with fetcher := f }

def stepInit (s : System γ) (fault : Option StoreFailure) : Init γ → Option (System γ × Init γ)
  | .locking =>
    if s.fetcher.locked then none
    else some (s.setFetcher { s.fetcher with locked := true }, .reading)
  | .reading =>
    match fault with
    | some e => some (s.setFetcher { s.fetcher with locked := false }, .done (.error (.store e)))
    | none =>
      match s.store.get? s.fetcher.config.id with
      | some state =>
        some (s.setFetcher { s.fetcher.hold state with initialised := true }, .done (.ok state))
      | none => some (s, .creating)
  | .creating =>
    match fault with
    | some e => some (s.setFetcher { s.fetcher with locked := false }, .done (.error (.store e)))
    | none =>
      let state := s.fetcher.config.freshState
      some (⟨s.store.insert state.id state,
        { s.fetcher.hold state with initialised := true }⟩, .done (.ok state))
  | .done _ => none

def stepRun (s : System γ) (fault : Option StoreFailure) : Run γ → Option (System γ × Run γ)
  | .entering =>
    let f := s.fetcher
    if f.stopAsked || f.started then some (s, .done none)
    else
      let f := { f with started := true }
      if f.initialised then some (s.setFetcher (f.publish f.memory), .published)
      else some (s.setFetcher f, .loading .locking)
  | .loading init =>
    (s.stepInit fault init).map fun (s, init) =>
      match init with
      | .done (.ok state) => (s.setFetcher (s.fetcher.publish state), .published)
      | .done (.error e) => (s, .done (some e))
      | init => (s, .loading init)
  | .published =>
    if s.fetcher.stopAsked then some (s, .done none)
    else some (s.setFetcher s.fetcher.launch, .running)
  | .running =>
    if s.fetcher.tasks.forward.isOver && s.fetcher.tasks.backward.isOver then
      some (s, .done none)
    else none
  | .done _ => none

def stepStop (now : Nat) (f : Fetcher γ) : Stop → Option (Fetcher γ × Stop)
  | .entering => some ({ f with stopAsked := true }, .collecting)
  | .collecting =>
    some (f, Fetcher.stopNext (Direction.all.filter fun d => (f.loops.get d).isSome))
  | .asking d rest => (f.stepLoop now .epoch d .askStop).map (·, .settling d rest)
  | .settling d rest => (f.stepLoop now .epoch d .settleStop).map (·, .joining d rest)
  | .joining d rest => (f.stepLoop now .epoch d .join).map (·, Fetcher.stopNext rest)
  | .done => none

def stepCall (now : Nat) (s : System γ) (fault : Option StoreFailure) :
    Call γ → Option (System γ × Call γ)
  | .init stage => (s.stepInit fault stage).map fun (s, stage) => (s, .init stage)
  | .run stage => (s.stepRun fault stage).map fun (s, stage) => (s, .run stage)
  | .stop stage =>
    (stepStop now s.fetcher stage).map fun (f, stage) => (s.setFetcher f, .stop stage)

/-- The answer that the tick of direction `d` waits for has come: its next stage is `next`, where it
has one. -/
def answer (s : System γ) (d : Direction) (next : Lane → Tick γ → Option (Tick γ)) :
    Option (System γ) := do
  let lane ← s.fetcher.config.lane? d
  let tick ← s.fetcher.ticks.get d
  let tick ← next lane tick
  pure (s.setFetcher (s.fetcher.setTick d (some tick)))

/-- One step at time `now`: the system after it, or nothing where the event cannot happen. -/
def step [Cursor γ] (now : Nat) (s : System γ) : Event γ → Option (System γ)
  | .call kind =>
    let call : Call γ := match kind with
      | .init => .init .locking
      | .run => .run .entering
      | .stop => .stop .entering
    some (s.setFetcher { s.fetcher with calls := s.fetcher.calls ++ [call] })
  | .advance k fault => do
    let call ← s.fetcher.calls[k]?
    let (s, call) ← s.stepCall now fault call
    pure (s.setFetcher { s.fetcher with calls := s.fetcher.calls.set k call })
  | .enter d jitter =>
    if s.fetcher.tasks.get d = .entering then
      ((s.fetcher.setTask d .looping).stepLoop now .epoch d (.start jitter)).map s.setFetcher
    else none
  | .release =>
    if s.fetcher.tasks.backward = .held then
      match s.fetcher.gate with
      | .closed => none
      | .opened => some (s.setFetcher (s.fetcher.setTask .backward .entering))
      | .givenUp => some (s.setFetcher (s.fetcher.setTask .backward .done))
    else none
  | .turn d clock => (s.fetcher.stepLoop now clock d .turn).map s.setFetcher
  | .timeout d => (s.fetcher.stepLoop now .epoch d .timeout).map s.setFetcher
  | .interrupt d => (s.fetcher.stepLoop now .epoch d .interrupt).map s.setFetcher
  | .fetched d a => s.answer d fun l t => match t with
    | .fetching work => some (.fetched l work a)
    | _ => none
  | .merged d a => s.answer d fun l t => match t with
    | .merging work outcome => some (.merged l work outcome a)
    | _ => none
  | .judged d a => s.answer d fun l t => match t with
    | .judging work paced newItems => some (.judged l work paced newItems a)
    | _ => none
  | .lock d =>
    if s.fetcher.locked then none
    else (s.answer d fun l t => match t with
      | .locking work resume => some (.locked l s.fetcher.memory work resume)
      | _ => none).map fun s => s.setFetcher { s.fetcher with locked := true }
  | .saved d fault =>
    match s.fetcher.ticks.get d with
    | some (.saving next resume) =>
      (s.answer d fun l _ => some (.saved l next resume fault)).map fun s =>
        match fault with
        | some _ => s.setFetcher { s.fetcher with locked := false }
        | none => ⟨s.store.insert next.id next, s.fetcher.hold next⟩
    | _ => none
  | .tickDone d =>
    match s.fetcher.ticks.get d with
    | some (.done result) =>
      ((s.fetcher.setTick d none).stepLoop now .epoch d (.tickDone result)).map s.setFetcher
    | _ => none

end System
end ChainFetch.Fetch
