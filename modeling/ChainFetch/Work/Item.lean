import ChainFetch.Instant.Text
/-!
Deferred work. An item's id is what makes it one; its position, time first, orders the queue.
-/

namespace ChainFetch.Work

structure Item (α : Type) where
  id : String
  time : Instant
  payload : α
  deriving DecidableEq, Inhabited

/-- A place in the order of the queue: earlier times first, then ids by code points. -/
structure Position where
  time : Instant
  id : String
  deriving DecidableEq, Inhabited

def Item.position {α : Type} (i : Item α) : Position := ⟨i.time, i.id⟩

namespace Position

instance : LT Position := ⟨fun p q => p.time < q.time ∨ (p.time = q.time ∧ p.id < q.id)⟩
instance (p q : Position) : Decidable (p < q) :=
  inferInstanceAs (Decidable (p.time < q.time ∨ (p.time = q.time ∧ p.id < q.id)))

theorem lt_def {p q : Position} :
    p < q ↔ p.time < q.time ∨ (p.time = q.time ∧ p.id < q.id) := Iff.rfl

theorem lt_irrefl (p : Position) : ¬ p < p := by
  rw [lt_def]
  rintro (h | h)
  · exact Instant.lt_irrefl _ h
  · exact String.lt_irrefl _ h.2

theorem lt_trans {p q r : Position} (h : p < q) (k : q < r) : p < r := by
  rw [lt_def] at *
  rcases h with h | ⟨ht, hi⟩ <;> rcases k with k | ⟨kt, ki⟩
  · exact Or.inl (Instant.lt_trans h k)
  · exact Or.inl (kt ▸ h)
  · exact Or.inl (ht ▸ k)
  · exact Or.inr ⟨ht.trans kt, String.lt_trans hi ki⟩

def insert (p : Position) : List Position → List Position
  | [] => [p]
  | q :: qs => if p < q then p :: q :: qs else if p = q then q :: qs else q :: insert p qs

theorem mem_insert {p q : Position} {qs : List Position} :
    q ∈ insert p qs ↔ q = p ∨ q ∈ qs := by
  induction qs with
  | nil => simp [insert]
  | cons r rs ih =>
    unfold insert
    split
    · simp
    · split
      · rename_i h
        subst h
        simp
      · simp only [List.mem_cons, ih]
        constructor
        · rintro (h | h | h) <;> simp [h]
        · rintro (h | h | h) <;> simp [h]

instance : Json.Codec Position where
  encode p := .ofFields [("time", Json.encode p.time), ("id", Json.encode p.id)]
  decode? j := do
    let r ← j.record? 2
    pure {
      time := ← r.read? 0 "time" Json.required
      id := ← r.read? 1 "id" Json.required }

end Position

instance {α : Type} [Json.Codec α] : Json.Codec (Item α) where
  encode i := .ofFields [("id", Json.encode i.id), ("time", Json.encode i.time),
    ("payload", Json.encode i.payload)]
  decode? j := do
    let r ← j.record? 3
    pure {
      id := ← r.read? 0 "id" Json.required
      time := ← r.read? 1 "time" Json.required
      payload := ← r.read? 2 "payload" Json.required }

end ChainFetch.Work
