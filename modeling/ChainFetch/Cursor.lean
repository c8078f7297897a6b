import ChainFetch.Direction
/-!
Cursors: how far a fetch has come. Only a cursor's position counts when two are merged; main
statement: `guard_merge`, the guard never refuses what a merge gives.
-/

namespace ChainFetch

/-- A marker in the data with a position that grows towards the present. -/
class Cursor (γ : Type) where
  position : γ → UInt64

structure HeightCursor where
  height : UInt64
  deriving DecidableEq, Inhabited

instance : Cursor HeightCursor := ⟨HeightCursor.height⟩

instance : Json.Codec HeightCursor where
  encode c := .ofFields [("height", Json.encode c.height)]
  decode? j := do
    let r ← j.record? 1
    pure { height := ← r.read? 0 "height" Json.required }

structure SignatureCursor where
  signature : String
  slot : UInt64
  timestamp : Int64
  deriving DecidableEq, Inhabited

instance : Cursor SignatureCursor := ⟨SignatureCursor.slot⟩

instance : Json.Codec SignatureCursor where
  encode c := .ofFields [("signature", Json.encode c.signature), ("slot", Json.encode c.slot),
    ("timestamp", Json.encode c.timestamp)]
  decode? j := do
    let r ← j.record? 3
    pure {
      signature := ← r.read? 0 "signature" Json.required
      slot := ← r.read? 1 "slot" Json.required
      timestamp := ← r.read? 2 "timestamp" Json.required }

/-- A merged cursor and the number of items between it and the one before. -/
structure Merge (γ : Type) where
  cursor : Option γ
  newItems : UInt64
  deriving DecidableEq, Inhabited

namespace Direction

variable {γ : Type} [Cursor γ]

def advances (d : Direction) (prev next : γ) : Bool :=
  match d with
  | forward => Cursor.position prev < Cursor.position next
  | backward => Cursor.position next < Cursor.position prev

def distance (d : Direction) (prev next : γ) : UInt64 :=
  match d with
  | forward => Cursor.position next - Cursor.position prev
  | backward => Cursor.position prev - Cursor.position next

/-- Keeps the further of the cursor held and the one reached. The first cursor of all counts as one
item. -/
def merge (d : Direction) (held reached : Option γ) : Merge γ :=
  match held, reached with
  | held, none => ⟨held, 0⟩
  | none, some last => ⟨some last, 1⟩
  | some prev, some last =>
    if d.advances prev last then ⟨some last, d.distance prev last⟩ else ⟨some prev, 0⟩

/-- The cursor to hold: `next`, unless it is absent or would go back. -/
def guard (d : Direction) (held next : Option γ) : Option γ :=
  match held, next with
  | held, none => held
  | none, next => next
  | some prev, some next => if d.advances next prev then some prev else some next

theorem not_advances_symm (d : Direction) {prev next : γ} (h : d.advances prev next = true) :
    d.advances next prev = false := by
  cases d <;> simp only [advances, decide_eq_true_eq, decide_eq_false_iff_not] at h ⊢ <;>
    exact UInt64.not_lt.mpr (UInt64.le_of_lt h)

theorem not_advances_self (d : Direction) (c : γ) : d.advances c c = false := by
  cases d <;> simp [advances]

theorem guard_merge (d : Direction) (held reached : Option γ) :
    d.guard held (d.merge held reached).cursor = (d.merge held reached).cursor := by
  match held, reached with
  | none, none => rfl
  | none, some _ => rfl
  | some _, none => simp [merge, guard, not_advances_self]
  | some prev, some last =>
    cases h : d.advances prev last with
    | true => simp [merge, guard, h, not_advances_symm d h]
    | false => simp [merge, guard, h, not_advances_self]

end Direction
end ChainFetch
