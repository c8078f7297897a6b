import ChainFetch.Schedule.Config
import ChainFetch.Schedule.Signal
/-!
Configuration of a pool of deferred work.
-/

namespace ChainFetch.Work

structure Config where
  /-- Its interval is also the time after which kept items are tried again. -/
  schedule : Schedule.Config := { name := "pending-work" }
  chunkSize : UInt64 := 50
  concurrency : UInt64 := 4
  debounced : Bool := false
  deriving DecidableEq, Inhabited

namespace Config

def named (name : String) : Config := { schedule := { name := name } }

def mode (c : Config) : Schedule.Mode := if c.debounced then .debounced else .periodic

def fault? (c : Config) : Option ConfigFault :=
  if c.chunkSize = 0 then some .emptyChunk
  else if c.concurrency = 0 then some .noConcurrency
  else c.schedule.fault?

theorem fault?_eq_none_iff {c : Config} :
    c.fault? = none ↔ c.chunkSize ≠ 0 ∧ c.concurrency ≠ 0 ∧ c.schedule.fault? = none := by
  rw [fault?]
  split
  · simp [*]
  · split <;> simp [*]

instance : Json.Codec Config where
  encode c := .ofFields [
    ("scheduler", Json.encode c.schedule),
    ("chunk_size", Json.encode c.chunkSize),
    ("concurrency", Json.encode c.concurrency),
    ("debounced", Json.encode c.debounced)]
  decode? j := do
    let r ← j.record? 4
    pure {
      schedule := ← r.read? 0 "scheduler" Json.required
      chunkSize := ← r.read? 1 "chunk_size" Json.required
      concurrency := ← r.read? 2 "concurrency" Json.required
      debounced := ← r.read? 3 "debounced" (Json.default false) }

end Config
end ChainFetch.Work
