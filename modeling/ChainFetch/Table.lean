/-!
Finite maps from text. Main statements: `get?_insert` and `get?_erase`.
-/

namespace ChainFetch

/-- Values under keys. `insert` and `erase` keep each key at most once. -/
structure Table (α : Type) where
  entries : List (String × α) := []
  deriving Inhabited

namespace Table

variable {α : Type}

def empty : Table α := {}

def get? (t : Table α) (key : String) : Option α := (t.entries.find? (·.1 = key)).map (·.2)

def erase (t : Table α) (key : String) : Table α := ⟨t.entries.filter (·.1 ≠ key)⟩

def insert (t : Table α) (key : String) (a : α) : Table α := ⟨(key, a) :: (t.erase key).entries⟩

def size (t : Table α) : Nat := t.entries.length

theorem get?_erase (t : Table α) (key k : String) :
    (t.erase key).get? k = if k = key then none else t.get? k := by
  unfold get? erase
  induction t.entries with
  | nil => simp
  | cons e es ih =>
    by_cases h : e.1 = key <;> by_cases hk : e.1 = k <;> by_cases hkk : k = key <;>
      simp_all

theorem get?_insert (t : Table α) (key k : String) (a : α) :
    (t.insert key a).get? k = if k = key then some a else t.get? k := by
  by_cases h : k = key
  · simp [get?, insert, h]
  · have h' : ¬ key = k := fun e => h e.symm
    rw [if_neg h, ← if_neg (c := k = key) (t := none) (e := t.get? k) h, ← get?_erase]
    simp [get?, insert, h']

end Table
end ChainFetch
