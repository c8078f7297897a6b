import ChainFetch.Json
/-!
The set of those who want an item of work done, in the order of their names. Main statement:
`mem_add`.
-/

namespace ChainFetch.Work

/-- Names in ascending order of their code points, each once. -/
structure Subscribers where
  names : List String := []
  deriving DecidableEq, Inhabited

namespace Subscribers

def insertName (name : String) : List String → List String
  | [] => [name]
  | n :: ns => if name < n then name :: n :: ns else if name = n then n :: ns else
    n :: insertName name ns

def contains (s : Subscribers) (name : String) : Bool := s.names.contains name

def add (s : Subscribers) (name : String) : Subscribers := ⟨insertName name s.names⟩

def remove (s : Subscribers) (name : String) : Subscribers := ⟨s.names.filter (· ≠ name)⟩

def size (s : Subscribers) : Nat := s.names.length

def isEmpty (s : Subscribers) : Bool := s.names.isEmpty

def ofList (names : List String) : Subscribers := names.foldl add {}

theorem mem_add {s : Subscribers} {name n : String} :
    n ∈ (s.add name).names ↔ n = name ∨ n ∈ s.names := by
  cases s with
  | mk names =>
    simp only [add]
    induction names with
    | nil => simp [insertName]
    | cons m ms ih =>
      unfold insertName
      split
      · simp
      · split
        · rename_i h
          subst h
          simp
        · simp only [List.mem_cons, ih]
          constructor
          · rintro (h | h | h) <;> simp [h]
          · rintro (h | h | h) <;> simp [h]

instance : Json.Codec Subscribers where
  encode s := Json.encode s.names
  decode? j := (Json.decode? j).map ofList

example : (ofList ["b", "a", "b"]).names = ["a", "b"] := by decide +kernel

end Subscribers
end ChainFetch.Work
