import ChainFetch.Duration
import ChainFetch.Rehearsal.Clock
import ChainFetch.Window
/-!
A window over a source that makes it wait: each operation comes `gap` after it was asked for and
takes `delay`.
-/

namespace ChainFetch.Rehearsal

structure Errand where
  gap : Duration
  delay : Duration
  deriving Inhabited

structure Span where
  yielded : Nat
  finished : Nat
  deriving DecidableEq, Inhabited

structure WindowPlay where
  now : Nat := 0
  source : List Errand
  comes? : Option Nat := none
  window : Window Span Span
  deriving Inhabited

namespace WindowPlay

def program (p : WindowPlay) : Option WindowPlay :=
  match p.window.running.find? (·.2.finished ≤ p.now) with
  | some (k, span) => (p.window.complete? k span).map fun w => { p with window := w }
  | none =>
    if p.window.isOpen then
      match p.source, p.comes? with
      | [], _ => p.window.close?.map fun w => { p with window := w }
      | e :: _, none => some { p with comes? := some (p.now + e.gap.ceilMillis) }
      | e :: rest, some t =>
        if t ≤ p.now then
          (p.window.pull? ⟨p.now, p.now + e.delay.ceilMillis⟩).map fun w =>
            { p with window := w, source := rest, comes? := none }
        else none
    else none

def world : World WindowPlay where
  program := program
  script _ := none
  now := now
  setNow t p := { p with now := t }
  alarms p := p.comes?.toList ++ p.window.running.map (·.2.finished)

end WindowPlay

/-- Steps for all of `errands`: each is asked for, comes and is completed, with the clock moved on
before the last two; and the source ends once. -/
def windowFuel (errands : List Errand) : Nat := 5 * errands.length + 2

/-- The outputs of a window over `errands` and the instant at which it was done. -/
def driveWindow (limit : Nat) (errands : List Errand) : List (Nat × Span) × Nat :=
  let p := WindowPlay.world.play (windowFuel errands) { source := errands, window := .new limit }
  (p.window.outputs, p.now)

example : driveWindow 0 [⟨.zero, .ofMillis 10⟩, ⟨.zero, .ofMillis 5⟩] =
    ([(0, ⟨0, 10⟩), (1, ⟨10, 15⟩)], 15) := by decide +kernel

end ChainFetch.Rehearsal
