import Mathlib.Data.List.Nodup
import ChainFetch.Table
/-!
Tables with each key once. Main statement: `Distinct.mem_entries_iff`, what stands in such a table
is what is found there.
-/

namespace ChainFetch.Table

variable {α : Type} {t : Table α} {key : String}

def Distinct (t : Table α) : Prop := (t.entries.map (·.1)).Nodup

theorem distinct_empty : (empty : Table α).Distinct := List.nodup_nil

theorem Distinct.erase (h : t.Distinct) (key : String) : (t.erase key).Distinct :=
  h.sublist (List.filter_sublist.map _)

theorem Distinct.insert (h : t.Distinct) (key : String) (a : α) : (t.insert key a).Distinct := by
  unfold Distinct Table.insert
  rw [List.map_cons, List.nodup_cons]
  refine ⟨?_, h.erase key⟩
  simp [Table.erase]

theorem Distinct.mem_entries_iff (h : t.Distinct) {e : String × α} :
    e ∈ t.entries ↔ t.get? e.1 = some e.2 := by
  unfold get?
  rw [Option.map_eq_some_iff]
  constructor
  · intro member
    cases found : t.entries.find? (·.1 = e.1) with
    | none =>
      have absent := List.find?_eq_none.mp found e member
      simp at absent
    | some r =>
      have same : r.1 = e.1 := by simpa using List.find?_some found
      have one := List.inj_on_of_nodup_map h (List.mem_of_find?_eq_some found) member same
      exact ⟨r, rfl, congrArg Prod.snd one⟩
  · rintro ⟨r, found, value⟩
    have same : r.1 = e.1 := by simpa using List.find?_some found
    have one : r = e := Prod.ext same value
    rw [← one]
    exact List.mem_of_find?_eq_some found

end ChainFetch.Table
