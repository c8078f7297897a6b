import ChainFetch.Schedule.Config
import ChainFetch.Schedule.Signal
/-!
The loop of a schedule as a machine. An event is one uninterrupted step of the loop or of a caller;
`Loop.step` says when it can happen and what it does. Whoever runs the loop chooses the events, so
every interleaving of ticks, wakes and stops is a list of them.
-/

namespace ChainFetch.Schedule

/-- Where the run of a loop stands. Times are milliseconds of one clock. -/
inductive Stage
  | unstarted
  | ready
  | ticking (since : Nat)
  /-- In a wait, without end where there is no length; `notified` once a wake has reached it. -/
  | waiting (since : Nat) (length : Option Duration) (notified : Bool)
  | returned
  deriving DecidableEq, Inhabited

inductive Effect
  | tick (context : Context)
  | firstSuccess
  | sleep (length : Duration)
  | returned
  deriving DecidableEq, Inhabited

/-- The steps of the loop are `turn` to `interrupt`, of which the last three end a wait. A request
to stop is `askStop`, the request itself, and then `settleStop`, which finishes a loop that has not
started. -/
inductive Event
  | start (jitter : Duration)
  | turn
  | tickDone (result : Except Failure Signal)
  | timeout
  | rouse
  | interrupt
  | wake
  | askStop
  | settleStop
  | join

structure Loop where
  config : Config
  mode : Mode
  status : Status := .idle
  stopAsked : Bool := false
  /-- A wake that no wait has taken; a second one adds nothing. -/
  permit : Bool := false
  shown : UInt64
  -- The counter has 64 bits. It starts at 0 and grows by one for each successful tick, so that no
  -- run ever counts to `2 ^ 64`; the count of a `Job`, which a store hands on, does wrap.
  runs : Nat := 0
  interval : Duration
  firstRun : Bool := true
  stage : Stage := .unstarted
  deriving DecidableEq, Inhabited

namespace Loop

def new (config : Config) (mode : Mode) : Loop where
  config := config
  mode := mode
  shown := config.startInterval.word
  interval := config.startInterval

def currentInterval (l : Loop) : Duration := .ofMillis l.shown.toNat

def context (l : Loop) : Context := ⟨l.firstRun, l.interval⟩

def finish (l : Loop) : Loop × List Effect :=
  ({ l with status := .finished, stage := .returned }, [.returned])

def pause (l : Loop) (now : Nat) (length : Option Duration) : Loop × List Effect :=
  if l.stopAsked then l.finish else ({ l with stage := .waiting now length false }, [])

/-- A call of run. It comes back at once unless the loop has not started. The first tick's interval
is the one that outsiders see. -/
def start (l : Loop) (now : Nat) (jitter : Duration) : Loop × List Effect :=
  if l.status = .idle then
    let l := { l with status := .running, interval := l.currentInterval }
    let delay := l.config.startDelay + jitter
    if delay.isZero then ({ l with stage := .ready }, []) else l.pause now (some delay)
  else (l, [.returned])

def turn (l : Loop) (now : Nat) : Loop × List Effect :=
  if l.stopAsked then l.finish else ({ l with stage := .ticking now }, [.tick l.context])

def intervalAfter (l : Loop) : Signal → Duration
  | .keep => l.interval
  | .stop => l.interval
  | .interval d => min d l.config.intervalMax
  | .reset => l.config.resetInterval

def reachedMaxRuns (l : Loop) : Bool :=
  match l.config.maxRuns with
  | some n => n.toNat ≤ l.runs
  | none => false

def idles (l : Loop) (signal : Signal) : Bool :=
  l.mode = .debounced && (signal = .keep || signal = .reset)

def sleepAfter (l : Loop) (elapsed : Duration) : Duration :=
  if l.config.accurateTiming then l.interval - elapsed else l.interval

/-- The loop after a successful tick: counters first, then the ways to end, then the wait. -/
def succeeded (l : Loop) (now since : Nat) (signal : Signal) : Loop × List Effect :=
  let first := if l.firstRun then [Effect.firstSuccess] else []
  let interval := l.intervalAfter signal
  let l := { l with
    runs := l.runs + 1
    interval := interval
    shown := interval.word
    firstRun := false }
  let (l, effects) :=
    if signal = .stop ∨ l.reachedMaxRuns then l.finish
    else if l.idles signal then l.pause now none
    else
      let sleep := l.sleepAfter (.ofMillis (now - since))
      let (l, effects) := l.pause now (some sleep)
      (l, .sleep sleep :: effects)
  (l, first ++ effects)

def failed (l : Loop) (now : Nat) : Loop × List Effect :=
  l.pause now (some l.config.errorCooldown)

def deadline? (l : Loop) : Option Nat :=
  match l.stage with
  | .waiting since (some length) _ => some (since + length.ceilMillis)
  | _ => none

def wake (l : Loop) : Loop :=
  match l.stage with
  | .waiting since length false =>
    if l.permit then l else { l with stage := .waiting since length true }
  | _ => { l with permit := true }

/-- A wait that ends for another reason passes on the wake that had reached it. -/
def release (l : Loop) (notified : Bool) : Loop :=
  { l with permit := l.permit || notified }

/-- One step at time `now`: the loop after it and what others see of it, or nothing where the event
cannot happen. -/
def step (now : Nat) (l : Loop) : Event → Option (Loop × List Effect)
  | .start jitter => some (l.start now jitter)
  | .turn => if l.stage = .ready then some (l.turn now) else none
  | .tickDone result =>
    match l.stage, result with
    | .ticking since, .ok signal => some (l.succeeded now since signal)
    | .ticking _, .error _ => some (l.failed now)
    | _, _ => none
  | .timeout =>
    match l.stage with
    | .waiting since (some length) notified =>
      if since + length.ceilMillis ≤ now then
        some ({ l.release notified with stage := .ready }, [])
      else none
    | _ => none
  | .rouse =>
    match l.stage with
    | .waiting _ _ notified =>
      if notified then some ({ l with stage := .ready }, [])
      else if l.permit then some ({ l with permit := false, stage := .ready }, [])
      else none
    | _ => none
  | .interrupt =>
    match l.stage with
    | .waiting _ _ notified => if l.stopAsked then some (l.release notified).finish else none
    | _ => none
  | .wake => some (l.wake, [])
  | .askStop => some ({ l with stopAsked := true }, [])
  | .settleStop =>
    some (if l.status = .idle then { l with status := .finished } else l, [])
  | .join => if l.status = .finished then some (l, []) else none

/-- The step of the loop itself that can happen at `now`, if any: a wake is taken before a timer. -/
def nextEvent? (now : Nat) (l : Loop) : Option Event :=
  match l.stage with
  | .ready => some .turn
  | .waiting since length notified =>
    if l.stopAsked then some .interrupt
    else if notified || l.permit then some .rouse
    else match length with
      | some length => if since + length.ceilMillis ≤ now then some .timeout else none
      | none => none
  | _ => none

theorem step_nextEvent? {now : Nat} {l : Loop} {e : Event} (h : l.nextEvent? now = some e) :
    (l.step now e).isSome := by
  unfold nextEvent? at h
  split at h
  · rename_i hs
    cases h
    simp [step, hs]
  · rename_i since length notified hs
    split at h
    · rename_i hstop
      cases h
      simp [step, hs, hstop]
    split at h
    · rename_i hwake
      cases h
      simp only [step, hs]
      cases notified <;> simp_all
    split at h
    · split at h
      · rename_i hnow
        cases h
        simp [step, hs, hnow]
      · simp at h
    · simp at h
  · simp at h

end Loop
end ChainFetch.Schedule
