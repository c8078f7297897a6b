import ChainFetch.Window
/-!
The driver of a window. In each turn it asks the source for the next operation, while the window is
open, and polls the operations in flight, until one of the two has an answer. It comes back when
nothing is in flight and nothing will be pulled.
-/

namespace ChainFetch

/-- A poll that a driver makes and its answer, none where there is none yet. -/
inductive Poll (τ ω : Type)
  | source (answer : Option (Option τ))
  | flight (answer : Option (Nat × ω))
  | neither
  deriving DecidableEq

inductive Driver (τ ω : Type)
  /-- In a turn, with whether the source was to be asked when it began. -/
  | turning (asks : Bool) (w : Window τ ω)
  | returned (outputs : List (Nat × ω))

namespace Driver

variable {τ ω : Type}

def turn (w : Window τ ω) : Driver τ ω :=
  if w.isDone then .returned w.outputs else .turning w.isOpen w

def new (limit : Nat) : Driver τ ω := turn (.new limit)

/-- The driver after a poll, or nothing where it does not make that poll. Without an answer the turn
goes on. -/
def step : Driver τ ω → Poll τ ω → Option (Driver τ ω)
  | .turning asks w, .source answer =>
    if asks then
      match answer with
      | none => some (.turning asks w)
      | some none => w.close?.map turn
      | some (some op) => (w.pull? op).map turn
    else none
  | .turning asks w, .flight answer =>
    if w.running.isEmpty then none
    else
      match answer with
      | none => some (.turning asks w)
      | some (k, out) => (w.complete? k out).map turn
  | .turning asks w, .neither =>
    if asks || !w.running.isEmpty then none else some (.returned w.outputs)
  | .returned _, _ => none

def run (d : Driver τ ω) (polls : List (Poll τ ω)) : Option (Driver τ ω) := polls.foldlM step d

def inFlight : Driver τ ω → List (Nat × τ)
  | .turning _ w => w.running
  | .returned _ => []

end Driver
end ChainFetch
