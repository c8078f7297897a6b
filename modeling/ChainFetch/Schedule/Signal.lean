import ChainFetch.Duration
/-!
What passes between a schedule's loop and its ticks.
-/

namespace ChainFetch.Schedule

inductive Signal
  | keep
  | interval (d : Duration)
  | reset
  | stop
  deriving DecidableEq, Inhabited

structure Context where
  firstRun : Bool
  interval : Duration
  deriving DecidableEq, Inhabited

/-- A loop sleeps its interval between ticks, or, debounced, idles until woken when a tick has
nothing left to do. -/
inductive Mode
  | periodic
  | debounced
  deriving DecidableEq, Inhabited

inductive Status
  | idle
  | running
  | finished
  deriving DecidableEq, Inhabited

end ChainFetch.Schedule
