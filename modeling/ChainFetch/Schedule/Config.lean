import ChainFetch.Failure
/-!
Configuration of a schedule: its intervals, its limits, and which configurations are refused.
-/

namespace ChainFetch.Schedule

structure Config where
  name : String := "scheduler"
  interval : Duration := .ofSecs 1
  intervalMax : Duration := .ofSecs 300
  intervalInit : Option Duration := none
  /-- Takes the time of a tick off the sleep that follows it. -/
  accurateTiming : Bool := false
  maxRuns : Option UInt64 := none
  startDelay : Duration := .zero
  jitterMax : Duration := .zero
  errorCooldown : Duration := .ofSecs 1
  deriving DecidableEq, Inhabited

namespace Config

def resetInterval (c : Config) : Duration := min (c.intervalInit.getD c.interval) c.intervalMax

def startInterval (c : Config) : Duration := min c.interval c.intervalMax

/-- The first fault of a configuration: no name, a ceiling below the interval, no runs at all. -/
def fault? (c : Config) : Option ConfigFault :=
  if c.name = "" then some .unnamedSchedule
  else if c.intervalMax < c.interval then
    some (.ceilingBelowInterval c.name c.intervalMax c.interval)
  else if c.maxRuns = some 0 then some (.noRuns c.name)
  else none

theorem fault?_eq_none_iff {c : Config} :
    c.fault? = none ↔ c.name ≠ "" ∧ c.interval ≤ c.intervalMax ∧ c.maxRuns ≠ some 0 := by
  have bounds : ¬ c.intervalMax < c.interval ↔ c.interval ≤ c.intervalMax := Nat.not_lt
  rw [← bounds, fault?]
  split
  · simp [*]
  · split
    · simp [*]
    · split <;> simp [*]

theorem resetInterval_le (c : Config) : c.resetInterval ≤ c.intervalMax := by
  simp only [Duration.le_def, resetInterval, Duration.nanos_min]; omega

theorem startInterval_le (c : Config) : c.startInterval ≤ c.intervalMax := by
  simp only [Duration.le_def, startInterval, Duration.nanos_min]; omega

theorem startInterval_of_le {c : Config} (h : c.interval ≤ c.intervalMax) :
    c.startInterval = c.interval :=
  Duration.min_eq_left h

theorem resetInterval_of_intervalInit {c : Config} (h : c.intervalInit = none) :
    c.resetInterval = c.startInterval := by
  rw [resetInterval, startInterval, h, Option.getD_none]

instance : Json.Codec Config where
  encode c := .ofFields [
    ("name", Json.encode c.name),
    ("interval", Json.encode c.interval),
    ("interval_max", Json.encode c.intervalMax),
    ("interval_init", Json.encode c.intervalInit),
    ("accurate_timing", Json.encode c.accurateTiming),
    ("max_runs", Json.encode c.maxRuns),
    ("start_delay", Json.encode c.startDelay),
    ("jitter_max", Json.encode c.jitterMax),
    ("error_cooldown", Json.encode c.errorCooldown)]
  decode? j := do
    let r ← j.record? 9
    pure {
      name := ← r.read? 0 "name" Json.required
      interval := ← r.read? 1 "interval" Json.required
      intervalMax := ← r.read? 2 "interval_max" Json.required
      intervalInit := ← r.read? 3 "interval_init" (Json.default none)
      accurateTiming := ← r.read? 4 "accurate_timing" (Json.default false)
      maxRuns := ← r.read? 5 "max_runs" (Json.default none)
      startDelay := ← r.read? 6 "start_delay" (Json.default .zero)
      jitterMax := ← r.read? 7 "jitter_max" (Json.default .zero)
      errorCooldown := ← r.read? 8 "error_cooldown" (Json.default (.ofSecs 1)) }

end Config
end ChainFetch.Schedule
