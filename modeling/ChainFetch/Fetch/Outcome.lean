import ChainFetch.Failure
import ChainFetch.Fetch.State
/-!
What a fetch is asked and what it answers.
-/

namespace ChainFetch.Fetch

structure Request (γ : Type) where
  direction : Direction
  firstRun : Bool
  interval : Duration
  fallback : Bool
  cursors : Both (Option γ)
  deriving DecidableEq, Inhabited

def Request.cursor {γ : Type} (r : Request γ) : Option γ := r.cursors.get r.direction

/-- What one fetch came to. An error may stand beside a cursor that was reached before it. -/
structure Outcome (γ : Type) where
  error : Option Failure := none
  newInterval : Option Duration := none
  reached : Both (Option γ) := ⟨none, none⟩
  deriving DecidableEq, Inhabited

namespace Outcome

variable {γ : Type}

def failed (e : Failure) : Outcome γ := { error := some e }

def withCursor (o : Outcome γ) (d : Direction) (c : γ) : Outcome γ :=
  { o with reached := o.reached.set d (some c) }

def withInterval (o : Outcome γ) (i : Duration) : Outcome γ := { o with newInterval := some i }

def withError (o : Outcome γ) (e : Failure) : Outcome γ := { o with error := some e }

def explicitInterval (o : Outcome γ) : Option Duration := o.newInterval.filter (!·.isZero)

end Outcome

/-- What a check for completion is told: the state as it would be kept, and the items of the last
merge. -/
structure Progress (γ : Type) where
  state : State γ
  job : Job
  newItems : UInt64
  error : Option Failure
  deriving DecidableEq, Inhabited

def Progress.standsStill {γ : Type} (p : Progress γ) : Bool := p.newItems = 0

end ChainFetch.Fetch
