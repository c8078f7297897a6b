import ChainFetch.Json
/-!
The two directions of a fetch, and pairs with one component for each.
-/

namespace ChainFetch

/-- Forward goes to the present, backward to where the data began. -/
inductive Direction
  | forward
  | backward
  deriving DecidableEq, Inhabited

namespace Direction

def all : List Direction := [forward, backward]

theorem mem_all (d : Direction) : d ∈ all := by cases d <;> decide

def text : Direction → String
  | forward => "forward"
  | backward => "backward"

def opposite : Direction → Direction
  | forward => backward
  | backward => forward

/-- Reads a name, or an object with the name alone, holding null. -/
instance : Json.Codec Direction where
  encode d := .text d.text
  decode?
    | .text s => all.find? (·.text = s)
    | .object [(name, .null)] => all.find? (·.text = name)
    | _ => none

end Direction

structure Both (α : Type) where
  forward : α
  backward : α
  deriving DecidableEq, Inhabited

namespace Both

variable {α β : Type}

def get (b : Both α) : Direction → α
  | .forward => b.forward
  | .backward => b.backward

def set (b : Both α) (d : Direction) (a : α) : Both α :=
  match d with
  | .forward => { b with forward := a }
  | .backward => { b with backward := a }

def map (f : α → β) (b : Both α) : Both β := ⟨f b.forward, f b.backward⟩

@[simp] theorem get_set_self (b : Both α) (d : Direction) (a : α) : (b.set d a).get d = a := by
  cases d <;> rfl

theorem get_set_of_ne (b : Both α) {d e : Direction} (h : e ≠ d) (a : α) :
    (b.set d a).get e = b.get e := by
  cases d <;> cases e <;> simp_all [get, set]

@[simp] theorem set_get_self (b : Both α) (d : Direction) : b.set d (b.get d) = b := by
  cases d <;> rfl

@[ext]
theorem ext {b c : Both α} (h : ∀ d, b.get d = c.get d) : b = c := by
  cases b; cases c
  have hf := h .forward
  have hb := h .backward
  simp_all [get]

end Both
end ChainFetch
