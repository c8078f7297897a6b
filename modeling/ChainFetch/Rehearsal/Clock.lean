/-!
Virtual time. A world takes all the steps that it can take at one instant; then its clock moves to
the next instant at which something is due, and nothing else takes time.
-/

namespace ChainFetch.Rehearsal

/-- A program under rehearsal and the script that acts on it from outside. -/
structure World (σ : Type) where
  program : σ → Option σ
  script : σ → Option σ
  now : σ → Nat
  setNow : Nat → σ → σ
  alarms : σ → List Nat

def World.nextAlarm? {σ : Type} (w : World σ) (s : σ) : Option Nat :=
  ((w.alarms s).filter (w.now s < ·)).min?

/-- Runs a world until nothing is due or the fuel is spent. The program goes first; once the script
has the turn it keeps it while it has steps to take. -/
def World.run {σ : Type} (w : World σ) : (fuel : Nat) → (scriptTurn : Bool) → σ → σ
  | 0, _, s => s
  | fuel + 1, scriptTurn, s =>
    match if scriptTurn then w.script s else none with
    | some s => w.run fuel true s
    | none =>
      match w.program s with
      | some s => w.run fuel false s
      | none =>
        match w.script s with
        | some s => w.run fuel true s
        | none =>
          match w.nextAlarm? s with
          | some t => w.run fuel false (w.setNow t s)
          | none => s

def World.play {σ : Type} (w : World σ) (fuel : Nat) (s : σ) : σ := w.run fuel false s

def patience : Nat := 100000000

end ChainFetch.Rehearsal
