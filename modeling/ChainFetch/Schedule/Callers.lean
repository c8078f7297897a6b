import ChainFetch.Schedule.Loop
/-!
A loop and those who call it. A call takes one step of the loop at a time, so calls of run, of wake
and of the stops interleave in every way. A tick that asks its own loop to stop is a caller like any
other.
-/

namespace ChainFetch.Schedule

inductive CallKind
  | run
  | wake
  | requestStop
  | stop
  | finished
  deriving DecidableEq, Inhabited

/-- What a call does next. -/
inductive CallStage
  | entering
  | inside
  | waking
  | asking
  | settling
  | joining
  | back
  deriving DecidableEq, Inhabited

structure Call where
  kind : CallKind
  stage : CallStage
  deriving DecidableEq, Inhabited

def CallKind.entry : CallKind → CallStage
  | .run => .entering
  | .wake => .waking
  | .requestStop => .asking
  | .stop => .asking
  | .finished => .joining

def Event.stage : Event → CallStage
  | .start _ => .entering
  | .turn => .inside
  | .tickDone _ => .inside
  | .timeout => .inside
  | .rouse => .inside
  | .interrupt => .inside
  | .wake => .waking
  | .askStop => .asking
  | .settleStop => .settling
  | .join => .joining

/-- Where a call stands after a step of the loop, by what others see of that. -/
def Call.after (c : Call) (e : Event) (effects : List Effect) : Call where
  kind := c.kind
  stage := match e with
    | .wake => .back
    | .askStop => .settling
    | .settleStop => if c.kind = .stop then .joining else .back
    | .join => .back
    | _ => if .returned ∈ effects then .back else .inside

/-- A loop and the calls made of it so far, numbered from zero. -/
structure Shared where
  loop : Loop
  calls : List Call := []

inductive Deed
  | call (kind : CallKind)
  | take (k : Nat) (e : Event)

namespace Shared

def new (config : Config) (mode : Mode) : Shared := { loop := .new config mode }

/-- One step at time `now`, or nothing where it cannot happen. -/
def step (now : Nat) (s : Shared) : Deed → Option Shared
  | .call kind => some { s with calls := s.calls ++ [⟨kind, kind.entry⟩] }
  | .take k e =>
    match s.calls[k]? with
    | none => none
    | some c =>
      if c.stage = e.stage then
        (s.loop.step now e).map fun (l, effects) => ⟨l, s.calls.set k (c.after e effects)⟩
      else none

end Shared
end ChainFetch.Schedule
