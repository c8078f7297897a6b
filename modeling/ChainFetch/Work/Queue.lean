import ChainFetch.Table
import ChainFetch.Work.Item
/-!
The queue of deferred work: items under their ids, and an index of their positions in ascending
order. Reading goes along the index.
-/

namespace ChainFetch.Work

structure Queue (α : Type) where
  items : Table (Item α) := {}
  index : List Position := []
  deriving Inhabited

namespace Queue

variable {α : Type}

def empty : Queue α := {}

/-- Queues an item; one that is queued under the same id goes. -/
def put (q : Queue α) (i : Item α) : Queue α :=
  let index := match q.items.get? i.id with
    | some old => q.index.erase old.position
    | none => q.index
  ⟨q.items.insert i.id i, i.position.insert index⟩

def save (q : Queue α) (items : List (Item α)) : Queue α := items.foldl put q

def removeId (q : Queue α) (id : String) : Queue α :=
  match q.items.get? id with
  | some i => ⟨q.items.erase id, q.index.erase i.position⟩
  | none => q

def remove (q : Queue α) (ids : List String) : Queue α := ids.foldl removeId q

def removeAt (q : Queue α) (p : Position) : Queue α :=
  if p ∈ q.index then ⟨q.items.erase p.id, q.index.erase p⟩ else q

/-- Takes out items that are still where they were when they were handed out. -/
def removeDispatched (q : Queue α) (ps : List Position) : Queue α := ps.foldl removeAt q

def count (q : Queue α) : Nat := q.items.size

def get? (q : Queue α) (id : String) : Option (Item α) := q.items.get? id

def first? (q : Queue α) : Option (Item α) := q.index.head?.bind fun p => q.get? p.id

def above (q : Queue α) : (after : Option Position) → List Position
  | none => q.index
  | some p => q.index.filter (p < ·)

def readAfter (q : Queue α) (after : Option Position) (limit : Nat) : List (Item α) :=
  ((q.above after).take limit).filterMap fun p => q.get? p.id

end Queue
end ChainFetch.Work
