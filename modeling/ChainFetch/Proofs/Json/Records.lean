import Mathlib.Data.List.Induction
import ChainFetch.Cursor
/-!
Records read back from what they were written as. Main statements: `bind_read?`, a field is found by
its name wherever it was written, `decode?_encode_option`, and the types whose values come back
whole (`Lossless`).
-/

namespace ChainFetch.Json

variable {α β : Type} {name wanted : String} {value : Json} {fields : List (String × Json)}

/-! ## Fields -/

theorem find?_setField (name : String) (value : Json) (fields : List (String × Json))
    (wanted : String) :
    (setField name value fields).find? (·.1 = wanted) =
      if name = wanted then some (name, value) else fields.find? (·.1 = wanted) := by
  induction fields with
  | nil => by_cases same : name = wanted <;> simp [setField, same]
  | cons field fields ih =>
    obtain ⟨n, v⟩ := field
    simp only [setField]
    split
    · rename_i here
      subst here
      by_cases same : n = wanted <;> simp [same]
    · split
      · by_cases same : name = wanted <;> simp [same]
      · rename_i other _
        by_cases same : n = wanted
        · simp [same, show name ≠ wanted by rintro rfl; exact other same]
        · simp [same, ih]

def Record.ofFields (fields : List (String × Json)) : Record :=
  .named (fields.foldl (fun fs f => setField f.1 f.2 fs) [])

theorem bind_record? (size : Nat) (fields : List (String × Json)) (next : Record → Option β) :
    (record? size (Json.ofFields fields) >>= next) = next (.ofFields fields) := rfl

theorem find?_ofFields (distinct : (fields.map (·.1)).Nodup) (member : (name, value) ∈ fields) :
    (fields.foldl (fun fs f => setField f.1 f.2 fs) []).find? (·.1 = name) =
      some (name, value) := by
  induction fields using List.reverseRecOn with
  | nil => cases member
  | append_singleton fields last ih =>
    rw [List.foldl_append, List.foldl_cons, List.foldl_nil, find?_setField]
    simp only [List.map_append, List.map_cons, List.map_nil, List.nodup_append,
      List.mem_singleton] at distinct
    obtain ⟨earlier, -, apart⟩ := distinct
    rcases List.mem_append.mp member with before | here
    · rw [if_neg fun same => apart _ (List.mem_map_of_mem before) _ rfl same.symm]
      exact ih earlier before
    · cases List.mem_singleton.mp here
      rw [if_pos rfl]

/-- A decoder that asks for a field by its name goes on with what the field comes back as, wherever
the field was written. -/
theorem bind_read? [Codec α] {a : α} {next : α → Option β} {b : β} {place : Nat}
    {absent : Absent α} (distinct : (fields.map (·.1)).Nodup) (member : (name, value) ∈ fields)
    (reads : decode? value = some a) (rest : next a = some b) :
    ((Record.ofFields fields).read? place name absent >>= next) = some b := by
  have found : (Record.ofFields fields).read? place name absent = some a := by
    rw [Record.ofFields, Record.read?, find?_ofFields distinct member]
    exact reads
  rw [found]
  exact rest

/-! ## Values -/

/-- Values that come back as they were, and are told from an absent one. -/
class Lossless (α : Type) [Codec α] : Prop where
  decode?_encode (a : α) : decode? (encode a) = some a
  encode_ne_null (a : α) : encode a ≠ null

export Lossless (decode?_encode encode_ne_null)

instance : Lossless Bool := ⟨fun _ => rfl, fun _ => by simp [encode]⟩

instance : Lossless String := ⟨fun _ => rfl, fun _ => by simp [encode]⟩

instance : Lossless UInt64 := ⟨decode?_encode_uint64, fun _ => by simp [encode]⟩

instance : Lossless Int64 := ⟨decode?_encode_int64, fun _ => by simp [encode]⟩

theorem ofFields_ne_null (fields : List (String × Json)) : ofFields fields ≠ null := by
  simp [ofFields]

theorem decode?_encode_option [Codec α] {f : α → α} {o : Option α}
    (solid : ∀ a : α, encode a ≠ null)
    (reads : ∀ a, o = some a → decode? (encode a) = some (f a)) :
    decode? (encode o) = some (o.map f) := by
  cases o with
  | none => rfl
  | some a =>
    have inner : (decode? (encode (some a)) : Option (Option α)) =
        (decode? (encode a)).map some := by
      simp only [encode, decode?]
      split
      · exact absurd ‹_› (solid a)
      · rfl
    rw [inner, reads a rfl]
    rfl

end ChainFetch.Json
