import ChainFetch.Fetch.Config
import ChainFetch.Fetch.Outcome
/-!
One tick of one direction. It works on a copy of the state, waits for the answers of the handler and
of the store one at a time, and hands its own half of the copy over when it saves.
-/

namespace ChainFetch.Fetch

open Schedule (Signal)

inductive Resume
  | again
  | finish (error : Option Failure) (signal : Option Signal)
  deriving DecidableEq, Inhabited

/-- Where a tick stands; each stage but the last waits for one answer. -/
inductive Tick (γ : Type)
  | fetching (work : State γ)
  | merging (work : State γ) (outcome : Outcome γ)
  /-- `paced` says whether the fetch asked for an interval of its own. -/
  | judging (work : State γ) (paced : Bool) (newItems : UInt64)
  | locking (work : State γ) (resume : Resume)
  | saving (next : State γ) (resume : Resume)
  | done (result : Except Failure Signal)

namespace State

variable {γ : Type}

def setFrequency (s : State γ) (d : Direction) (f : Duration) : State γ :=
  s.setJob d { s.job d with frequency := f }

def applyMerge [Cursor γ] (s : State γ) (d : Direction) (m : Merge γ) : State γ :=
  (s.setCursor d (d.guard (s.cursor d) m.cursor)).setJob d
    { s.job d with runs := (s.job d).runs + 1 }

end State

namespace Tick

variable {γ : Type}

def start (l : Lane) (memory : State γ) (clock : Instant) : Tick γ :=
  let job := memory.job l.direction
  if job.complete then .done (.ok .stop)
  else .fetching (memory.setJob l.direction { job with lastRun := some clock })

def request (l : Lane) (context : Schedule.Context) (work : State γ) : Request γ where
  direction := l.direction
  firstRun := context.firstRun
  interval := context.interval
  fallback := (work.job l.direction).fallback
  cursors := work.cursors

def progress (l : Lane) (work : State γ) (newItems : UInt64) : Progress γ :=
  ⟨work, work.job l.direction, newItems, none⟩

/-- Ends the work: the rate, where there is one, sets the frequency after a fetch without error that
asked for none. -/
def settle (l : Lane) (work : State γ) (error : Option Failure) (paced : Bool)
    (newItems : UInt64) : Tick γ :=
  match if error.isNone && !paced then l.rate else none with
  | none => .locking work (.finish error none)
  | some rate =>
    match rate.signal (work.job l.direction).frequency newItems with
    | .interval i =>
      .locking (work.setFrequency l.direction (min i l.schedule.intervalMax)) (.finish error none)
    | .reset =>
      .locking (work.setFrequency l.direction l.schedule.resetInterval)
        (.finish error (some .reset))
    | .keep => .locking work (.finish error none)
    | .stop => .locking work (.finish error none)

/-- After the merge, or without one: takes over the interval asked for, and then looks whether the
backward direction is complete. -/
def pace (l : Lane) (work : State γ) (outcome : Outcome γ) (error : Option Failure)
    (newItems : UInt64) : Tick γ :=
  let explicit := outcome.explicitInterval
  let work := match explicit with
    | some i => work.setFrequency l.direction (min i l.schedule.intervalMax)
    | none => work
  if error.isNone ∧ l.direction = .backward then .judging work explicit.isSome newItems
  else settle l work error explicit.isSome newItems

/-- The fetch answers. What a backward fetch reached is merged even beside an error. -/
def fetched (l : Lane) (work : State γ) (answer : Except Failure (Outcome γ)) : Tick γ :=
  let outcome := match answer with
    | .ok outcome => outcome
    | .error e => .failed e
  if l.direction = .backward ∨ outcome.error.isNone then .merging work outcome
  else pace l work outcome outcome.error 0

def merged [Cursor γ] (l : Lane) (work : State γ) (outcome : Outcome γ)
    (answer : Except Failure (Merge γ)) : Tick γ :=
  match answer with
  | .ok m => pace l (work.applyMerge l.direction m) outcome outcome.error m.newItems
  | .error e => pace l work outcome (outcome.error.or (some e)) 0

/-- The check for completion answers. The first time it holds only sends the fetch to the second
source. -/
def judged (l : Lane) (work : State γ) (paced : Bool) (newItems : UInt64)
    (answer : Except Failure Bool) : Tick γ :=
  let job := work.job l.direction
  match answer with
  | .ok true =>
    if job.fallback then
      settle l (work.setJob l.direction { job with complete := true }) none paced newItems
    else .locking (work.setJob l.direction { job with fallback := true }) .again
  | .ok false => settle l work none paced newItems
  | .error e => settle l work (some e) paced newItems

/-- The lock is taken: the tick's half goes on top of the state in memory. -/
def locked (l : Lane) (memory work : State γ) (resume : Resume) : Tick γ :=
  .saving (memory.adopt work l.direction) resume

def saved (l : Lane) (next : State γ) (resume : Resume) (fault : Option StoreFailure) : Tick γ :=
  match fault, resume with
  | some e, _ => .done (.error (.store e))
  | none, .again => .fetching next
  | none, .finish (some e) _ => .done (.error e)
  | none, .finish none signal =>
    let job := next.job l.direction
    .done (.ok (if job.complete then .stop else signal.getD (.interval job.frequency)))

end Tick
end ChainFetch.Fetch
