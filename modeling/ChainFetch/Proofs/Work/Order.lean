import ChainFetch.Work.Queue
/-!
The queue under its operations. Its index lists the positions of the queued items in ascending
order, whatever is done to it, so that the queue is known by the item under each id. Main
statements: `get?_save`, `get?_removeDispatched`, and `Sound.mem_readAfter_or_isAbove`, by which a
read passes over nothing.
-/

namespace ChainFetch.Work

namespace Position

variable {p q : Position} {qs : List Position}

theorem lt_or_eq_or_gt (p q : Position) : p < q ∨ p = q ∨ q < p := by
  rcases Instant.lt_or_eq_or_gt p.time q.time with h | h | h
  · exact Or.inl (Or.inl h)
  · by_cases less : p.id < q.id
    · exact Or.inl (Or.inr ⟨h, less⟩)
    by_cases more : q.id < p.id
    · exact Or.inr (Or.inr (Or.inr ⟨h.symm, more⟩))
    · have same : p.id = q.id := String.le_antisymm more less
      refine Or.inr (Or.inl ?_)
      cases p; cases q
      simp_all
  · exact Or.inr (Or.inr (Or.inl h))

theorem ne_of_lt (h : p < q) : p ≠ q := fun e => lt_irrefl q (e ▸ h)

theorem pairwise_insert (h : qs.Pairwise (· < ·)) : (insert p qs).Pairwise (· < ·) := by
  induction qs with
  | nil => exact List.pairwise_singleton _ _
  | cons q qs ih =>
    obtain ⟨above, rest⟩ := List.pairwise_cons.mp h
    unfold insert
    split
    · rename_i less
      refine List.pairwise_cons.mpr ⟨?_, h⟩
      intro r hr
      rcases List.mem_cons.mp hr with rfl | hr
      · exact less
      · exact lt_trans less (above r hr)
    · split
      · exact h
      · rename_i notLess notSame
        refine List.pairwise_cons.mpr ⟨?_, ih rest⟩
        intro r hr
        rcases mem_insert.mp hr with rfl | hr
        · rcases lt_or_eq_or_gt r q with k | k | k
          · exact absurd k notLess
          · exact absurd k notSame
          · exact k
        · exact above r hr

def IsAbove (p : Position) : (after : Option Position) → Prop
  | none => True
  | some a => a < p

theorem nodup_of_pairwise (h : qs.Pairwise (· < ·)) : qs.Nodup := h.imp ne_of_lt

end Position

namespace Queue

variable {α : Type} {q : Queue α} {i j : Item α} {p : Position} {id : String}

/-- The index lists the positions of the queued items in ascending order, and every item is queued
under its own id. -/
structure Sound (q : Queue α) : Prop where
  ascending : q.index.Pairwise (· < ·)
  indexed : ∀ p, p ∈ q.index ↔ ∃ i, q.get? p.id = some i ∧ i.position = p
  named : ∀ id i, q.get? id = some i → i.id = id

theorem sound_empty : (empty : Queue α).Sound :=
  ⟨List.Pairwise.nil, by simp [empty, get?, Table.get?], by simp [empty, get?, Table.get?]⟩

theorem Sound.mem_index (h : q.Sound) (queued : q.get? id = some i) : i.position ∈ q.index := by
  rw [h.indexed]
  refine ⟨i, ?_, rfl⟩
  rw [← queued, ← h.named id i queued]
  rfl

theorem Sound.mem_erase_index (h : q.Sound) {r : Position} :
    r ∈ q.index.erase p ↔ r ≠ p ∧ r ∈ q.index :=
  (Position.nodup_of_pairwise h.ascending).mem_erase_iff

theorem Sound.eq_of_id_eq (h : q.Sound) {r : Position} (hp : p ∈ q.index) (hr : r ∈ q.index)
    (same : p.id = r.id) : p = r := by
  obtain ⟨i, hi, rfl⟩ := (h.indexed p).mp hp
  obtain ⟨j, hj, rfl⟩ := (h.indexed r).mp hr
  rw [same, hj, Option.some.injEq] at hi
  rw [hi]

/-! ## Queuing -/

@[simp] theorem get?_put (q : Queue α) (i : Item α) (id : String) :
    (q.put i).get? id = if id = i.id then some i else q.get? id :=
  Table.get?_insert q.items i.id id i

theorem Sound.mem_index_put (h : q.Sound) :
    p ∈ (q.put i).index ↔ p = i.position ∨ (p.id ≠ i.id ∧ p ∈ q.index) := by
  unfold put
  split
  · rename_i old found
    have held : old.position ∈ q.index := h.mem_index found
    have named : old.position.id = i.id := h.named i.id old found
    rw [Position.mem_insert, h.mem_erase_index]
    constructor
    · rintro (k | ⟨ne, k⟩)
      · exact Or.inl k
      · exact Or.inr ⟨fun e => ne (h.eq_of_id_eq k held (e.trans named.symm)), k⟩
    · rintro (k | ⟨ne, k⟩)
      · exact Or.inl k
      · exact Or.inr ⟨fun e => ne (e ▸ named), k⟩
  · rename_i absent
    rw [Position.mem_insert]
    have other : p ∈ q.index → p.id ≠ i.id := by
      intro k e
      obtain ⟨j, hj, -⟩ := (h.indexed p).mp k
      rw [e] at hj
      rw [get?, absent] at hj
      cases hj
    constructor
    · rintro (k | k)
      · exact Or.inl k
      · exact Or.inr ⟨other k, k⟩
    · rintro (k | ⟨-, k⟩)
      · exact Or.inl k
      · exact Or.inr k

theorem sound_put (h : q.Sound) (i : Item α) : (q.put i).Sound := by
  refine ⟨?_, ?_, ?_⟩
  · unfold put
    split
    · exact Position.pairwise_insert (h.ascending.sublist List.erase_sublist)
    · exact Position.pairwise_insert h.ascending
  · intro p
    rw [h.mem_index_put, get?_put]
    by_cases same : p.id = i.id
    · rw [if_pos same]
      constructor
      · rintro (rfl | ⟨ne, -⟩)
        · exact ⟨i, rfl, rfl⟩
        · exact absurd same ne
      · rintro ⟨j, hj, rfl⟩
        cases hj
        exact Or.inl rfl
    · rw [if_neg same, h.indexed]
      constructor
      · rintro (rfl | ⟨-, k⟩)
        · exact absurd rfl same
        · exact k
      · intro k
        exact Or.inr ⟨same, k⟩
  · intro id j
    rw [get?_put]
    split
    · rename_i same
      rintro ⟨⟩
      exact same.symm
    · exact h.named id j

theorem sound_save (h : q.Sound) (items : List (Item α)) : (q.save items).Sound := by
  induction items generalizing q with
  | nil => exact h
  | cons i items ih => exact ih (sound_put h i)

theorem get?_save (q : Queue α) (items : List (Item α)) (id : String) :
    (∃ i ∈ items, i.id = id ∧ (q.save items).get? id = some i) ∨
      ((∀ i ∈ items, i.id ≠ id) ∧ (q.save items).get? id = q.get? id) := by
  induction items generalizing q with
  | nil => exact Or.inr ⟨by simp, rfl⟩
  | cons i items ih =>
    rcases ih (q.put i) with ⟨j, hj, same, found⟩ | ⟨others, found⟩
    · exact Or.inl ⟨j, List.mem_cons_of_mem _ hj, same, found⟩
    · have found : (q.save (i :: items)).get? id = (q.put i).get? id := found
      rw [get?_put] at found
      by_cases same : id = i.id
      · rw [if_pos same] at found
        exact Or.inl ⟨i, List.mem_cons_self, same.symm, found⟩
      · rw [if_neg same] at found
        refine Or.inr ⟨?_, found⟩
        intro j hj
        rcases List.mem_cons.mp hj with rfl | hj
        · exact fun e => same e.symm
        · exact others j hj

/-! ## Taking out -/

def drop (q : Queue α) (p : Position) : Queue α := ⟨q.items.erase p.id, q.index.erase p⟩

@[simp] theorem get?_drop (q : Queue α) (p : Position) (id : String) :
    (q.drop p).get? id = if id = p.id then none else q.get? id :=
  Table.get?_erase q.items p.id id

theorem sound_drop (h : q.Sound) (hp : p ∈ q.index) : (q.drop p).Sound := by
  refine ⟨h.ascending.sublist List.erase_sublist, ?_, ?_⟩
  · intro r
    rw [drop, h.mem_erase_index, ← drop, get?_drop]
    by_cases same : r.id = p.id
    · rw [if_pos same]
      constructor
      · rintro ⟨ne, hr⟩
        exact absurd (h.eq_of_id_eq hr hp same) ne
      · rintro ⟨i, hi, -⟩
        cases hi
    · rw [if_neg same, h.indexed]
      constructor
      · exact fun k => k.2
      · exact fun k => ⟨fun e => same (e ▸ rfl), k⟩
  · intro id i
    rw [get?_drop]
    split
    · rintro ⟨⟩
    · exact h.named id i

theorem Sound.removeId_eq (h : q.Sound) (id : String) :
    (q.removeId id = q ∧ q.get? id = none) ∨
      ∃ i, q.get? id = some i ∧ q.removeId id = q.drop i.position := by
  unfold removeId
  split
  · rename_i i found
    refine Or.inr ⟨i, found, ?_⟩
    rw [drop, Item.position, h.named id i found]
  · rename_i absent
    exact Or.inl ⟨rfl, absent⟩

theorem sound_removeId (h : q.Sound) (id : String) : (q.removeId id).Sound := by
  rcases h.removeId_eq id with ⟨same, -⟩ | ⟨i, found, same⟩
  · rw [same]
    exact h
  · rw [same]
    exact sound_drop h (h.mem_index found)

theorem sound_remove (h : q.Sound) (ids : List String) : (q.remove ids).Sound := by
  induction ids generalizing q with
  | nil => exact h
  | cons id ids ih => exact ih (sound_removeId h id)

theorem get?_removeId (h : q.Sound) (id k : String) :
    (q.removeId id).get? k = if k = id then none else q.get? k := by
  rcases h.removeId_eq id with ⟨same, absent⟩ | ⟨i, found, same⟩
  · rw [same]
    split
    · rename_i e
      rw [e, absent]
    · rfl
  · rw [same, get?_drop, Item.position, h.named id i found]

theorem get?_remove (h : q.Sound) (ids : List String) (k : String) :
    (q.remove ids).get? k = if k ∈ ids then none else q.get? k := by
  induction ids generalizing q with
  | nil => simp [remove]
  | cons id ids ih =>
    have rest := ih (sound_removeId h id)
    rw [get?_removeId h] at rest
    rw [remove, List.foldl_cons, ← remove, rest]
    by_cases e : k = id <;> simp [e]

theorem sound_removeAt (h : q.Sound) (p : Position) : (q.removeAt p).Sound := by
  unfold removeAt
  split
  · rename_i held
    exact sound_drop h held
  · exact h

theorem get?_removeAt (h : q.Sound) (p : Position) (id : String) :
    (q.removeAt p).get? id = (q.get? id).filter (·.position ≠ p) := by
  unfold removeAt
  split
  · rename_i held
    change (q.drop p).get? id = _
    rw [get?_drop]
    split
    · rename_i same
      obtain ⟨i, hi, rfl⟩ := (h.indexed p).mp held
      rw [same, hi]
      simp [Option.filter]
    · rename_i other
      cases found : q.get? id with
      | none => rfl
      | some i =>
        have ne : i.position ≠ p := fun e => other (by rw [← e, ← h.named id i found]; rfl)
        simp [Option.filter, ne]
  · rename_i absent
    cases found : q.get? id with
    | none => rfl
    | some i =>
      have ne : i.position ≠ p := fun e => absent (e ▸ h.mem_index found)
      simp [Option.filter, ne]

theorem sound_removeDispatched (h : q.Sound) (ps : List Position) :
    (q.removeDispatched ps).Sound := by
  induction ps generalizing q with
  | nil => exact h
  | cons p ps ih => exact ih (sound_removeAt h p)

/-- A removal by position takes exactly the items that stand at one of the positions. -/
theorem get?_removeDispatched (h : q.Sound) (ps : List Position) (id : String) :
    (q.removeDispatched ps).get? id = (q.get? id).filter (·.position ∉ ps) := by
  induction ps generalizing q with
  | nil => cases found : q.get? id <;> simp [removeDispatched, Option.filter, found]
  | cons p ps ih =>
    have rest := ih (sound_removeAt h p)
    rw [get?_removeAt h, Option.filter_filter] at rest
    rw [removeDispatched, List.foldl_cons, ← removeDispatched, rest]
    congr 1
    funext i
    simp

theorem Sound.mem_index_of_remove (h : q.Sound) (ids : List String)
    (held : p ∈ (q.remove ids).index) : p ∈ q.index := by
  obtain ⟨i, found, rfl⟩ := ((sound_remove h ids).indexed p).mp held
  rw [get?_remove h] at found
  split at found
  · cases found
  · exact (h.indexed _).mpr ⟨i, found, rfl⟩

theorem Sound.mem_index_removeDispatched (h : q.Sound) (ps : List Position) :
    p ∈ (q.removeDispatched ps).index ↔ p ∈ q.index ∧ p ∉ ps := by
  rw [(sound_removeDispatched h ps).indexed, h.indexed, get?_removeDispatched h]
  constructor
  · rintro ⟨i, found, rfl⟩
    obtain ⟨found, kept⟩ := Option.filter_eq_some_iff.mp found
    exact ⟨⟨i, found, rfl⟩, by simpa using kept⟩
  · rintro ⟨⟨i, found, rfl⟩, kept⟩
    exact ⟨i, Option.filter_eq_some_iff.mpr ⟨found, by simpa using kept⟩, rfl⟩

theorem Sound.count_eq_zero (h : q.Sound) (empty : q.index = []) : q.count = 0 := by
  cases entries : q.items.entries with
  | nil => simp [count, Table.size, entries]
  | cons e es =>
    have found : q.get? e.1 = some e.2 := by simp [get?, Table.get?, entries]
    have held := h.mem_index found
    rw [empty] at held
    cases held

/-! ## Reading -/

theorem mem_above {after : Option Position} :
    p ∈ q.above after ↔ p ∈ q.index ∧ p.IsAbove after := by
  cases after with
  | none => simp [above, Position.IsAbove]
  | some a => simp [above, Position.IsAbove]

theorem Sound.above_ascending (h : q.Sound) (after : Option Position) :
    (q.above after).Pairwise (· < ·) := by
  cases after with
  | none => exact h.ascending
  | some a => exact h.ascending.filter _

theorem Sound.map_position_filterMap (h : q.Sound) {ps : List Position}
    (held : ∀ p ∈ ps, p ∈ q.index) :
    (ps.filterMap fun p => q.get? p.id).map Item.position = ps := by
  induction ps with
  | nil => rfl
  | cons p ps ih =>
    obtain ⟨i, found, same⟩ := (h.indexed p).mp (held p List.mem_cons_self)
    rw [List.filterMap_cons, found, List.map_cons, same,
      ih fun r hr => held r (List.mem_cons_of_mem _ hr)]

theorem Sound.map_position_readAfter (h : q.Sound) (after : Option Position) (limit : Nat) :
    (q.readAfter after limit).map Item.position = (q.above after).take limit := by
  apply h.map_position_filterMap
  intro p hp
  exact (mem_above.mp (List.mem_of_mem_take hp)).1

theorem Sound.get?_of_mem_readAfter (h : q.Sound) {after : Option Position} {limit : Nat}
    (read : i ∈ q.readAfter after limit) : q.get? i.id = some i := by
  obtain ⟨p, -, found⟩ := List.mem_filterMap.mp read
  rw [h.named p.id i found]
  exact found

/-- A read passes over nothing: what lies above the last position that was read is in the batch, or
lies above the batch. -/
theorem Sound.mem_readAfter_or_isAbove (h : q.Sound) {after : Option Position} {limit : Nat}
    {last : Item α} (ends : (q.readAfter after limit).getLast? = some last)
    (held : p ∈ q.index) (above : p.IsAbove after) :
    p ∈ (q.readAfter after limit).map Item.position ∨ last.position < p := by
  have member : p ∈ q.above after := mem_above.mpr ⟨held, above⟩
  rw [h.map_position_readAfter]
  rw [← List.take_append_drop limit (q.above after), List.mem_append] at member
  rcases member with member | member
  · exact Or.inl member
  · have ordered := h.above_ascending after
    rw [← List.take_append_drop limit (q.above after)] at ordered
    refine Or.inr ((List.pairwise_append.mp ordered).2.2 last.position ?_ p member)
    rw [← h.map_position_readAfter]
    exact List.mem_map_of_mem (List.mem_of_getLast? ends)

theorem Sound.not_lt_of_mem_readAfter (h : q.Sound) {after : Option Position} {limit : Nat}
    {last : Item α} (ends : (q.readAfter after limit).getLast? = some last)
    (read : p ∈ (q.readAfter after limit).map Item.position) : ¬ last.position < p := by
  have inside : ((q.readAfter after limit).map Item.position).Pairwise (· < ·) := by
    rw [h.map_position_readAfter]
    exact (h.above_ascending after).sublist (List.take_sublist _ _)
  obtain ⟨front, whole⟩ := List.getLast?_eq_some_iff.mp ends
  rw [whole, List.map_append] at inside read
  intro beyond
  rcases List.mem_append.mp read with read | read
  · have below := (List.pairwise_append.mp inside).2.2 p read last.position List.mem_cons_self
    exact Position.lt_irrefl _ (Position.lt_trans below beyond)
  · rw [List.mem_singleton.mp read] at beyond
    exact Position.lt_irrefl _ beyond

theorem Sound.not_isAbove_of_readAfter_eq_nil (h : q.Sound) {after : Option Position} {limit : Nat}
    (room : 0 < limit) (empty : q.readAfter after limit = []) (held : p ∈ q.index) :
    ¬ p.IsAbove after := by
  intro above
  have member : p ∈ q.above after := mem_above.mpr ⟨held, above⟩
  have none := h.map_position_readAfter after limit
  rw [empty, List.map_nil, eq_comm, List.take_eq_nil_iff] at none
  rcases none with none | none
  · omega
  · rw [none] at member
    cases member

end Queue
end ChainFetch.Work
