import Mathlib.Data.Finmap
import Mathlib.Data.Finset.Sort
import ChainFetch.Proofs.Table
import ChainFetch.Proofs.Text.Bytes
import ChainFetch.Proofs.Work.Order
/-!
A queue and the finite map that it keeps. Whatever is saved and removed, the index and the items say
the same, and what is read is what a map from ids to items has, in the order of times and of the
bytes of the ids. Main statements: `keeps_ofChanges` and `refines_stock`.
-/

namespace ChainFetch.Work

variable {α : Type}

inductive Change (α : Type)
  | save (items : List (Item α))
  | remove (ids : List String)
  | removeDispatched (ps : List Position)

def Queue.apply (q : Queue α) : Change α → Queue α
  | .save items => q.save items
  | .remove ids => q.remove ids
  | .removeDispatched ps => q.removeDispatched ps

def Queue.ofChanges (changes : List (Change α)) : Queue α := changes.foldl apply empty

/-! ## Order by bytes -/

namespace Position

variable {p q r : Position}

/-- Earlier times first, then ids by their bytes. -/
def Before (p q : Position) : Prop :=
  p.time < q.time ∨ (p.time = q.time ∧ bytes p.id < bytes q.id)

instance (p q : Position) : Decidable (p.Before q) :=
  inferInstanceAs (Decidable (p.time < q.time ∨ (p.time = q.time ∧ bytes p.id < bytes q.id)))

theorem before_iff : p.Before q ↔ p < q := by
  unfold Before
  rw [← lt_iff_bytes_lt, lt_def]

def AtMost (p q : Position) : Prop := ¬ q.Before p

instance : DecidableRel AtMost := fun p q => inferInstanceAs (Decidable (¬ q.Before p))

theorem atMost_iff : p.AtMost q ↔ ¬ q < p := by
  unfold AtMost
  rw [before_iff]

theorem atMost_of_lt (h : p < q) : p.AtMost q := by
  rw [atMost_iff]
  intro k
  exact lt_irrefl p (lt_trans h k)

instance : IsTrans Position AtMost where
  trans p q r h k := by
    rw [atMost_iff] at *
    intro more
    rcases lt_or_eq_or_gt p q with less | rfl | above
    · exact k (lt_trans more less)
    · exact k more
    · exact h above

instance : Std.Antisymm AtMost where
  antisymm p q h k := by
    rw [atMost_iff] at *
    rcases lt_or_eq_or_gt p q with less | same | above
    · exact absurd less k
    · exact same
    · exact absurd above h

instance : Std.Total AtMost where
  total p q := by
    rw [atMost_iff, atMost_iff]
    rcases lt_or_eq_or_gt p q with less | rfl | above
    · exact Or.inl (fun k => lt_irrefl p (lt_trans less k))
    · exact Or.inl (lt_irrefl p)
    · exact Or.inr (fun k => lt_irrefl p (lt_trans k above))

def Exceeds (p : Position) : (after : Option Position) → Bool
  | none => true
  | some a => a.Before p

end Position

/-! ## The map -/

/-- A finite map from ids to items. -/
abbrev Stock (α : Type) := Finmap fun _ : String => Item α

namespace Stock

def save (m : Stock α) (items : List (Item α)) : Stock α :=
  items.foldl (fun m i => m.insert i.id i) m

def remove (m : Stock α) (ids : List String) : Stock α := ids.foldl (fun m id => m.erase id) m

def removeAt (m : Stock α) (p : Position) : Stock α :=
  if (m.lookup p.id).map Item.position = some p then m.erase p.id else m

def apply (m : Stock α) : Change α → Stock α
  | .save items => m.save items
  | .remove ids => m.remove ids
  | .removeDispatched ps => ps.foldl removeAt m

def ofChanges (changes : List (Change α)) : Stock α := changes.foldl apply ∅

def positions (m : Stock α) : Finset Position :=
  (m.entries.map fun e => e.2.position).toFinset

def first? (m : Stock α) : Option (Item α) :=
  (m.positions.sort Position.AtMost).head?.bind fun p => m.lookup p.id

def page (m : Stock α) (after : Option Position) (limit : Nat) : List Position :=
  ((m.positions.filter (·.Exceeds after)).sort Position.AtMost).take limit

def readAfter (m : Stock α) (after : Option Position) (limit : Nat) : List (Item α) :=
  (m.page after limit).filterMap fun p => m.lookup p.id

theorem mem_positions {m : Stock α} {p : Position} :
    p ∈ m.positions ↔ ∃ id i, m.lookup id = some i ∧ i.position = p := by
  unfold positions
  rw [Multiset.mem_toFinset, Multiset.mem_map]
  constructor
  · rintro ⟨⟨id, i⟩, held, rfl⟩
    exact ⟨id, i, Finmap.lookup_eq_some_iff.mpr held, rfl⟩
  · rintro ⟨id, i, held, rfl⟩
    exact ⟨⟨id, i⟩, Finmap.lookup_eq_some_iff.mp held, rfl⟩

end Stock

/-! ## Keeping -/

namespace Queue

variable {q : Queue α} {m : Stock α}

/-- The queue has the items of the map, each under its own id and once, and an index of them. -/
structure Keeps (q : Queue α) (m : Stock α) : Prop where
  sound : q.Sound
  distinct : q.items.Distinct
  get? : ∀ id, q.get? id = m.lookup id

theorem keeps_empty : (empty : Queue α).Keeps ∅ := by
  refine ⟨sound_empty, Table.distinct_empty, ?_⟩
  intro id
  rw [Finmap.lookup_empty]
  rfl

theorem Keeps.put (h : q.Keeps m) (i : Item α) : (q.put i).Keeps (m.insert i.id i) := by
  refine ⟨sound_put h.sound i, h.distinct.insert i.id i, ?_⟩
  intro id
  rw [get?_put]
  split
  · rename_i same
    rw [same, Finmap.lookup_insert]
  · rename_i other
    rw [Finmap.lookup_insert_of_ne _ other, h.get?]

theorem Keeps.drop (h : q.Keeps m) {p : Position} (held : p ∈ q.index) :
    (q.drop p).Keeps (m.erase p.id) := by
  refine ⟨sound_drop h.sound held, h.distinct.erase p.id, ?_⟩
  intro id
  rw [get?_drop]
  split
  · rename_i same
    rw [same, Finmap.lookup_erase]
  · rename_i other
    rw [Finmap.lookup_erase_ne other, h.get?]

theorem Keeps.removeId (h : q.Keeps m) (id : String) : (q.removeId id).Keeps (m.erase id) := by
  rcases h.sound.removeId_eq id with ⟨same, absent⟩ | ⟨i, found, same⟩
  · rw [same]
    refine ⟨h.sound, h.distinct, ?_⟩
    intro k
    by_cases e : k = id
    · rw [e, Finmap.lookup_erase, absent]
    · rw [Finmap.lookup_erase_ne e, h.get?]
  · have named : i.position.id = id := h.sound.named id i found
    rw [same, ← named]
    exact h.drop (h.sound.mem_index found)

theorem Keeps.removeAt (h : q.Keeps m) (p : Position) : (q.removeAt p).Keeps (m.removeAt p) := by
  have stands : p ∈ q.index ↔ (m.lookup p.id).map Item.position = some p := by
    rw [h.sound.indexed, h.get?, Option.map_eq_some_iff]
  unfold Queue.removeAt Stock.removeAt
  by_cases held : p ∈ q.index
  · rw [if_pos held, if_pos (stands.mp held)]
    exact h.drop held
  · rw [if_neg held, if_neg (mt stands.mpr held)]
    exact h

theorem Keeps.apply (h : q.Keeps m) (c : Change α) : (q.apply c).Keeps (m.apply c) := by
  cases c with
  | save items =>
    change (q.save items).Keeps (m.save items)
    induction items generalizing q m with
    | nil => exact h
    | cons i items ih => exact ih (h.put i)
  | remove ids =>
    change (q.remove ids).Keeps (m.remove ids)
    induction ids generalizing q m with
    | nil => exact h
    | cons id ids ih => exact ih (h.removeId id)
  | removeDispatched ps =>
    change (q.removeDispatched ps).Keeps (ps.foldl Stock.removeAt m)
    induction ps generalizing q m with
    | nil => exact h
    | cons p ps ih => exact ih (h.removeAt p)

theorem keeps_ofChanges (changes : List (Change α)) :
    (ofChanges changes).Keeps (Stock.ofChanges changes) := by
  unfold ofChanges Stock.ofChanges
  have start : (empty : Queue α).Keeps ∅ := keeps_empty
  generalize (empty : Queue α) = q at start ⊢
  generalize (∅ : Stock α) = m at start ⊢
  induction changes generalizing q m with
  | nil => exact start
  | cons c changes ih => exact ih _ _ (start.apply c)

/-! ## Reading -/

theorem Keeps.positions_eq (h : q.Keeps m) : m.positions = q.index.toFinset := by
  ext p
  rw [Stock.mem_positions, List.mem_toFinset, h.sound.indexed]
  constructor
  · rintro ⟨id, i, held, rfl⟩
    rw [← h.get?] at held
    have named : i.position.id = id := h.sound.named id i held
    rw [named]
    exact ⟨i, held, rfl⟩
  · rintro ⟨i, held, rfl⟩
    rw [h.get?] at held
    exact ⟨_, i, held, rfl⟩

theorem sort_toFinset_of_ascending {ps : List Position} (ascending : ps.Pairwise (· < ·)) :
    ps.toFinset.sort Position.AtMost = ps := by
  rw [List.toFinset_sort _ (Position.nodup_of_pairwise ascending)]
  exact ascending.imp Position.atMost_of_lt

theorem above_eq_filter (q : Queue α) (after : Option Position) :
    q.above after = q.index.filter (·.Exceeds after) := by
  cases after with
  | none => simp [above, Position.Exceeds]
  | some a => simp [above, Position.Exceeds, Position.before_iff]

theorem Keeps.page (h : q.Keeps m) (after : Option Position) (limit : Nat) :
    m.page after limit = (q.above after).take limit := by
  unfold Stock.page
  rw [h.positions_eq, ← List.toFinset_filter, ← above_eq_filter,
    sort_toFinset_of_ascending (h.sound.above_ascending after)]

theorem Keeps.readAfter (h : q.Keeps m) (after : Option Position) (limit : Nat) :
    q.readAfter after limit = m.readAfter after limit := by
  unfold Queue.readAfter Stock.readAfter
  rw [h.page]
  simp only [h.get?]

theorem Keeps.map_position_readAfter (h : q.Keeps m) (after : Option Position) (limit : Nat) :
    (m.readAfter after limit).map Item.position = m.page after limit := by
  rw [← h.readAfter, h.page]
  exact h.sound.map_position_readAfter after limit

theorem Keeps.first? (h : q.Keeps m) : q.first? = m.first? := by
  unfold Queue.first? Stock.first?
  rw [h.positions_eq, sort_toFinset_of_ascending h.sound.ascending]
  simp only [h.get?]

theorem Keeps.mem_entries (h : q.Keeps m) {e : String × Item α} :
    e ∈ q.items.entries ↔ q.get? e.1 = some e.2 := h.distinct.mem_entries_iff

theorem Keeps.count (h : q.Keeps m) : q.count = m.keys.card := by
  have keys : m.keys = (q.items.entries.map (·.1)).toFinset := by
    ext id
    rw [Finmap.mem_keys, Finmap.mem_iff, List.mem_toFinset, List.mem_map]
    constructor
    · rintro ⟨i, held⟩
      rw [← h.get?] at held
      exact ⟨(id, i), h.mem_entries.mpr held, rfl⟩
    · rintro ⟨e, held, rfl⟩
      exact ⟨e.2, by rw [← h.get?]; exact h.mem_entries.mp held⟩
  rw [keys, List.toFinset_card_of_nodup h.distinct, List.length_map]
  rfl

/-- However it is changed, a queue has one item for each id under that id, and an index of exactly
their positions; and it counts, finds and reads what the map does that is changed alike. -/
theorem refines_stock (changes : List (Change α)) :
    let q := ofChanges changes
    let m := Stock.ofChanges changes
    q.items.Distinct ∧ (∀ e ∈ q.items.entries, e.2.id = e.1) ∧
      q.index.Nodup ∧ (∀ p, p ∈ q.index ↔ ∃ e ∈ q.items.entries, e.2.position = p) ∧
      q.count = m.keys.card ∧ q.first? = m.first? ∧ (∀ id, q.get? id = m.lookup id) ∧
      ∀ after limit, q.readAfter after limit = m.readAfter after limit ∧
        (m.readAfter after limit).map Item.position = m.page after limit := by
  intro q m
  have keeps : q.Keeps m := keeps_ofChanges changes
  refine ⟨keeps.distinct, ?_, Position.nodup_of_pairwise keeps.sound.ascending, ?_, keeps.count,
    keeps.first?, keeps.get?,
    fun after limit => ⟨keeps.readAfter after limit, keeps.map_position_readAfter after limit⟩⟩
  · intro e held
    exact keeps.sound.named e.1 e.2 (keeps.mem_entries.mp held)
  · intro p
    rw [keeps.sound.indexed]
    constructor
    · rintro ⟨i, found, same⟩
      exact ⟨(p.id, i), keeps.mem_entries.mpr found, same⟩
    · rintro ⟨e, held, rfl⟩
      have found := keeps.mem_entries.mp held
      have named : e.2.position.id = e.1 := keeps.sound.named e.1 e.2 found
      rw [named]
      exact ⟨e.2, found, rfl⟩

end Queue
end ChainFetch.Work
