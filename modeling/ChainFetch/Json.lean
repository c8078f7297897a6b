import ChainFetch.Binary64
/-!
JSON values, and how a record is decoded from one: by the names of an object's fields, or by the
places of a list.
-/

namespace ChainFetch

/-- A JSON value. An integer outside `-2 ^ 63 ≤ n < 2 ^ 64` is read as a real. An object keeps its
fields sorted by name, each name once. -/
inductive Json
  | null
  | bool (b : Bool)
  | int (n : Int)
  | real (x : Binary64)
  | text (s : String)
  | list (items : List Json)
  | object (fields : List (String × Json))
  deriving Inhabited

namespace Json

def field? (name : String) : Json → Option Json
  | object fields => (fields.find? (·.1 = name)).map (·.2)
  | _ => none

def setField (name : String) (value : Json) : List (String × Json) → List (String × Json)
  | [] => [(name, value)]
  | (n, v) :: rest =>
    if n = name then (n, value) :: rest
    else if name < n then (name, value) :: (n, v) :: rest
    else (n, v) :: setField name value rest

def ofFields (fields : List (String × Json)) : Json :=
  object (fields.foldl (fun fs f => setField f.1 f.2 fs) [])

class Codec (α : Type) where
  encode : α → Json
  decode? : Json → Option α

export Codec (encode decode?)

instance : Codec Json := ⟨id, some⟩

instance : Codec Bool where
  encode := bool
  decode?
    | bool b => some b
    | _ => none

instance : Codec String where
  encode := text
  decode?
    | text s => some s
    | _ => none

instance : Codec UInt64 where
  encode n := int n.toNat
  decode?
    | int n => if 0 ≤ n ∧ n < 18446744073709551616 then some (UInt64.ofNat n.toNat) else none
    | _ => none

@[simp] theorem decode?_encode_uint64 (n : UInt64) : decode? (encode n) = some n := by
  have h : (n.toNat : Int) < 18446744073709551616 := by have := n.toNat_lt; omega
  simp only [encode, decode?]
  rw [if_pos ⟨by omega, h⟩]
  simp

instance : Codec Int64 where
  encode n := int n.toInt
  decode?
    | int n =>
      if -9223372036854775808 ≤ n ∧ n < 9223372036854775808 then some (Int64.ofInt n) else none
    | _ => none

@[simp] theorem decode?_encode_int64 (n : Int64) : decode? (encode n) = some n := by
  simp only [encode, decode?]
  rw [if_pos ⟨n.le_toInt, n.toInt_lt⟩]
  simp

/-- A real may be written as an integer, and is then the nearest number to it. -/
instance : Codec Binary64 where
  encode := real
  decode?
    | real x => some x
    | int n =>
      let size := Binary64.ofRatio n.natAbs 1
      some (if n < 0 then size.negate else size)
    | _ => none

instance {α : Type} [Codec α] : Codec (Option α) where
  encode
    | none => null
    | some a => encode a
  decode?
    | null => some none
    | j => (decode? j).map some

instance {α : Type} [Codec α] : Codec (List α) where
  encode as := list (as.map encode)
  decode?
    | list items => items.mapM decode?
    | _ => none

inductive Record
  | named (fields : List (String × Json))
  | placed (items : List Json)

/-- A record of `size` fields: an object, whose further fields are ignored, or a list, which may
not be longer. -/
def record? (size : Nat) : Json → Option Record
  | object fields => some (.named fields)
  | list items => if items.length ≤ size then some (.placed items) else none
  | _ => none

/-- What stands for a field that is not there: in an object, and past the end of a list. -/
structure Absent (α : Type) where
  named : Option α
  placed : Option α

def required {α : Type} : Absent α := ⟨none, none⟩

def optional {α : Type} : Absent (Option α) := ⟨some none, none⟩

def default {α : Type} (a : α) : Absent α := ⟨some a, some a⟩

def Record.read? {α : Type} [Codec α] (r : Record) (place : Nat) (name : String)
    (absent : Absent α) : Option α :=
  match r with
  | .named fields =>
    match fields.find? (·.1 = name) with
    | some (_, j) => decode? j
    | none => absent.named
  | .placed items =>
    match items[place]? with
    | some j => decode? j
    | none => absent.placed

example : (decode? (encode (18446744073709551615 : UInt64)) : Option UInt64) =
    some 18446744073709551615 := by decide
example : (decode? (int (-1)) : Option UInt64) = none := by decide
example : (decode? null : Option (Option Bool)) = some none := rfl

end Json
end ChainFetch
