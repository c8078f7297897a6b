/-!
A bounded window of operations. The next operation is pulled only while fewer than `limit` are in
flight, so a full window holds back whatever produces them. Outputs stand in completion order.
-/

namespace ChainFetch

/-- Operations in flight, numbered in the order in which they were pulled, and the outputs so
far. -/
structure Window (τ ω : Type) where
  limit : Nat
  pulled : Nat := 0
  exhausted : Bool := false
  running : List (Nat × τ) := []
  outputs : List (Nat × ω) := []
  deriving Inhabited

namespace Window

variable {τ ω : Type}

/-- An empty window; a limit of zero counts as one. -/
def new (limit : Nat) : Window τ ω := { limit := max limit 1 }

def isOpen (w : Window τ ω) : Bool := !w.exhausted && w.running.length < w.limit

def isDone (w : Window τ ω) : Bool := !w.isOpen && w.running.isEmpty

def pull? (w : Window τ ω) (op : τ) : Option (Window τ ω) :=
  if w.isOpen then
    some { w with pulled := w.pulled + 1, running := w.running ++ [(w.pulled, op)] }
  else none

def close? (w : Window τ ω) : Option (Window τ ω) :=
  if w.isOpen then some { w with exhausted := true } else none

def get? (w : Window τ ω) (k : Nat) : Option τ := (w.running.find? (·.1 = k)).map (·.2)

def set (w : Window τ ω) (k : Nat) (op : τ) : Window τ ω :=
  { w with running := w.running.map fun r => if r.1 = k then (k, op) else r }

def complete? (w : Window τ ω) (k : Nat) (out : ω) : Option (Window τ ω) :=
  if w.running.any (·.1 = k) then
    some { w with
      running := w.running.filter (·.1 ≠ k)
      outputs := w.outputs ++ [(k, out)] }
  else none

theorem one_le_limit_new (limit : Nat) : 1 ≤ (new limit : Window τ ω).limit := by
  simp only [new]; omega

theorem isDone_iff {w : Window τ ω} (h : 1 ≤ w.limit) :
    w.isDone = true ↔ w.exhausted = true ∧ w.running = [] := by
  unfold isDone isOpen
  cases hr : w.running with
  | nil => cases w.exhausted <;> simp; omega
  | cons r rs => simp

end Window
end ChainFetch
