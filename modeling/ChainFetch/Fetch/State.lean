import ChainFetch.Cursor
import ChainFetch.Instant.Text
/-!
What is kept of a fetcher: a job and a cursor for each direction. From a job follows when it is due
next.
-/

namespace ChainFetch.Fetch

/-- When a job is next due: at once, at an instant, or never. -/
inductive NextRun
  | due
  | at (t : Instant)
  | never
  deriving DecidableEq, Inhabited

namespace NextRun

def le : NextRun → NextRun → Bool
  | due, _ => true
  | _, never => true
  | .at t, .at u => t ≤ u
  | _, _ => false

def min (a b : NextRun) : NextRun := if le a b then a else b

end NextRun

structure Job where
  frequency : Duration
  lastRun : Option Instant := none
  runs : UInt64 := 0
  complete : Bool := false
  /-- Whether the second source is asked instead of the first. -/
  fallback : Bool := false
  deriving DecidableEq, Inhabited

namespace Job

/-- One interval after the latest tick; never where that lies out of range. -/
def nextRun (j : Job) : NextRun :=
  if j.complete then .never
  else match j.lastRun with
    | none => .due
    | some t => match t.add? j.frequency with
      | some u => .at u
      | none => .never

instance : Json.Codec Job where
  encode j := .ofFields [
    ("frequency", Json.encode j.frequency),
    ("last_run", Json.encode j.lastRun),
    ("num_runs", Json.encode j.runs),
    ("complete", Json.encode j.complete),
    ("use_fallback_source", Json.encode j.fallback)]
  decode? j := do
    let r ← j.record? 5
    pure {
      frequency := ← r.read? 0 "frequency" Json.required
      lastRun := ← r.read? 1 "last_run" Json.optional
      runs := ← r.read? 2 "num_runs" Json.required
      complete := ← r.read? 3 "complete" Json.required
      fallback := ← r.read? 4 "use_fallback_source" Json.required }

end Job

structure State (γ : Type) where
  id : String
  jobs : Both Job
  cursors : Both (Option γ)
  deriving DecidableEq, Inhabited

namespace State

variable {γ : Type}

def fresh (id : String) (frequency : Both Duration) : State γ where
  id := id
  jobs := frequency.map fun f => { frequency := f }
  cursors := ⟨none, none⟩

def job (s : State γ) (d : Direction) : Job := s.jobs.get d

def cursor (s : State γ) (d : Direction) : Option γ := s.cursors.get d

def setJob (s : State γ) (d : Direction) (j : Job) : State γ := { s with jobs := s.jobs.set d j }

def setCursor (s : State γ) (d : Direction) (c : Option γ) : State γ :=
  { s with cursors := s.cursors.set d c }

/-- The state `s` with the job and the cursor of one direction taken from `work`. -/
def adopt (s work : State γ) (d : Direction) : State γ :=
  (s.setJob d (work.job d)).setCursor d (work.cursor d)

@[simp] theorem id_adopt (s work : State γ) (d : Direction) : (s.adopt work d).id = s.id := rfl

@[simp] theorem job_adopt_self (s work : State γ) (d : Direction) :
    (s.adopt work d).job d = work.job d := by
  simp [adopt, setJob, setCursor, job]

@[simp] theorem cursor_adopt_self (s work : State γ) (d : Direction) :
    (s.adopt work d).cursor d = work.cursor d := by
  simp [adopt, setJob, setCursor, cursor]

theorem job_adopt_of_ne (s work : State γ) {d e : Direction} (h : e ≠ d) :
    (s.adopt work d).job e = s.job e := by
  simp [adopt, setJob, setCursor, job, Both.get_set_of_ne _ h]

theorem cursor_adopt_of_ne (s work : State γ) {d e : Direction} (h : e ≠ d) :
    (s.adopt work d).cursor e = s.cursor e := by
  simp [adopt, setJob, setCursor, cursor, Both.get_set_of_ne _ h]

end State

instance : Json.Codec (Both Job) where
  encode b := .ofFields [("forward", Json.encode b.forward), ("backward", Json.encode b.backward)]
  decode? j := do
    let r ← j.record? 2
    pure {
      forward := ← r.read? 0 "forward" Json.required
      backward := ← r.read? 1 "backward" Json.required }

variable {γ : Type} [Json.Codec γ]

instance : Json.Codec (Both (Option γ)) where
  encode b := .ofFields [("forward", Json.encode b.forward), ("backward", Json.encode b.backward)]
  decode? j := do
    let r ← j.record? 2
    pure {
      forward := ← r.read? 0 "forward" Json.optional
      backward := ← r.read? 1 "backward" Json.optional }

instance : Json.Codec (State γ) where
  encode s := .ofFields [("id", Json.encode s.id), ("jobs", Json.encode s.jobs),
    ("cursors", Json.encode s.cursors)]
  decode? j := do
    let r ← j.record? 3
    pure {
      id := ← r.read? 0 "id" Json.required
      jobs := ← r.read? 1 "jobs" Json.required
      cursors := ← r.read? 2 "cursors" Json.required }

end ChainFetch.Fetch
