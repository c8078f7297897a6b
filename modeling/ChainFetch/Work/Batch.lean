import ChainFetch.Failure
import ChainFetch.Work.Item
/-!
One batch of a pass: each item is checked beforehand, those that are satisfied leave the queue, the
rest are handled together, and of those that are then complete the queue is cleared too. A stage
waits for one answer, and each function below is named for the answer that has come.
-/

namespace ChainFetch.Work

structure Report where
  kept : Nat := 0
  hint : Option Duration := none
  deriving DecidableEq, Inhabited

/-- Where a batch stands. -/
inductive Batch (α : Type)
  | checking (unchecked : List (Item α)) (satisfied : List Position) (remaining : List (Item α))
  | clearing (satisfied : List Position) (remaining : List (Item α))
  | handling (items : List (Item α))
  | verifying (unverified : List (Item α)) (completed : List Position) (report : Report)
  | removing (completed : List Position) (report : Report)
  | done (result : Except Failure Report)
  deriving Inhabited

namespace Batch

variable {α : Type}

def handle : List (Item α) → Batch α
  | [] => done (.ok {})
  | items => handling items

def check (unchecked : List (Item α)) (satisfied : List Position) (remaining : List (Item α)) :
    Batch α :=
  match unchecked, satisfied with
  | [], [] => handle remaining
  | [], satisfied => clearing satisfied remaining
  | unchecked, satisfied => checking unchecked satisfied remaining

def verify (unverified : List (Item α)) (completed : List Position) (report : Report) : Batch α :=
  match unverified, completed with
  | [], [] => done (.ok report)
  | [], completed => removing completed report
  | unverified, completed => verifying unverified completed report

def start (items : List (Item α)) : Batch α := check items [] []

/-- A check beforehand answers. An item whose check fails is handled like one that is not
satisfied. -/
def prechecked (item : Item α) (unchecked : List (Item α)) (satisfied : List Position)
    (remaining : List (Item α)) : Except Failure Bool → Batch α
  | .ok true => check unchecked (satisfied ++ [item.position]) remaining
  | .ok false => check unchecked satisfied (remaining ++ [item])
  | .error _ => check unchecked satisfied (remaining ++ [item])

/-- The handler answers. If it failed, all that it was given stays queued. -/
def handled (items : List (Item α)) : Except Failure (Option Duration) → Batch α
  | .ok hint => verify items [] { hint := hint }
  | .error _ => done (.ok { kept := items.length })

def verified (item : Item α) (unverified : List (Item α)) (completed : List Position)
    (report : Report) : Except Failure Bool → Batch α
  | .ok true => verify unverified (completed ++ [item.position]) report
  | .ok false => verify unverified completed { report with kept := report.kept + 1 }
  | .error _ => verify unverified completed { report with kept := report.kept + 1 }

end Batch

namespace Report

def earlier (a b : Option Duration) : Option Duration :=
  match a, b with
  | some d, some e => some (min d e)
  | some d, none => some d
  | none, b => b

def add (a b : Report) : Report := ⟨a.kept + b.kept, earlier a.hint b.hint⟩

/-- All reports as one, or the first failure among them. -/
def total : List (Except Failure Report) → Except Failure Report
  | [] => .ok {}
  | .error e :: _ => .error e
  | .ok r :: rest => (total rest).map r.add

end Report
end ChainFetch.Work
