import ChainFetch.Proofs.Fetch.Launch
/-!
The lock on saving. One tick or call holds it at a time, and no other writes the state meanwhile, so
that what a tick saves differs from the state in memory in its own direction alone. Main statement:
`Moves.guarded`.
-/

namespace ChainFetch.Fetch

open Schedule (Loop)

variable {γ : Type}

namespace State

def SameHalf (d : Direction) (s t : State γ) : Prop := s.job d = t.job d ∧ s.cursor d = t.cursor d

def SameBut (d : Direction) (s t : State γ) : Prop := s.id = t.id ∧ ∀ e, e ≠ d → SameHalf e s t

theorem sameBut_adopt (s work : State γ) (d : Direction) : (s.adopt work d).SameBut d s :=
  ⟨s.id_adopt work d, fun _ ne => ⟨s.job_adopt_of_ne work ne, s.cursor_adopt_of_ne work ne⟩⟩

end State

inductive Holder
  | tick (d : Direction)
  | call (k : Nat)

def Init.Holds : Init γ → Prop
  | .reading => True
  | .creating => True
  | _ => False

def Call.Holds : Call γ → Prop
  | .init i => i.Holds
  | .run (.loading i) => i.Holds
  | _ => False

namespace Fetcher

variable {f f' : Fetcher γ} {d : Direction} {k : Nat} {c c' : Call γ}

def saves? (f : Fetcher γ) (d : Direction) : Option (State γ) := (f.ticks.get d).bind Tick.saves?

def Holds (f : Fetcher γ) : Holder → Prop
  | .tick d => f.saves? d ≠ none
  | .call k => ∃ c, f.calls[k]? = some c ∧ c.Holds

/-- The lock has one holder at most, and a tick that holds it saves the state in memory but for its
own direction. -/
structure Guarded (f : Fetcher γ) : Prop where
  locked : ∀ h, f.Holds h → f.locked = true
  alone : ∀ h h', f.Holds h → f.Holds h' → h = h'
  based : ∀ d next, f.saves? d = some next → next.SameBut d f.memory

theorem Guarded.keep (h : f.Guarded) (locked : f'.locked = f.locked) (memory : f'.memory = f.memory)
    (ticks : ∀ d next, f'.saves? d = some next → f.saves? d = some next)
    (calls : ∀ k, f'.Holds (.call k) → f.Holds (.call k)) : f'.Guarded := by
  have older : ∀ h, f'.Holds h → f.Holds h := by
    intro holder holds
    cases holder with
    | tick d =>
      obtain ⟨next, saves⟩ := Option.ne_none_iff_exists'.mp holds
      exact Option.ne_none_iff_exists'.mpr ⟨next, ticks d next saves⟩
    | call k => exact calls k holds
  refine ⟨?_, ?_, ?_⟩
  · intro holder holds
    rw [locked]
    exact h.locked holder (older holder holds)
  · intro a b left right
    exact h.alone a b (older a left) (older b right)
  · intro d next saves
    rw [memory]
    exact h.based d next (ticks d next saves)

theorem Guarded.acquire (h : f.Guarded) (free : f.locked = false) (locked : f'.locked = true)
    (holder : Holder) (only : ∀ a, f'.Holds a → a = holder ∨ f.Holds a)
    (based : ∀ d next, f'.saves? d = some next →
      f.saves? d = some next ∨ next.SameBut d f'.memory) : f'.Guarded := by
  have none : ∀ a, ¬ f.Holds a := by
    intro a holds
    exact absurd (free.symm.trans (h.locked a holds)) (by simp)
  have one : ∀ a, f'.Holds a → a = holder := fun a holds => (only a holds).resolve_right (none a)
  refine ⟨fun _ _ => locked, ?_, ?_⟩
  · intro a b left right
    exact (one a left).trans (one b right).symm
  · intro d next saves
    rcases based d next saves with before | same
    · exact absurd (Option.ne_none_iff_exists'.mpr ⟨next, before⟩) (none (.tick d))
    · exact same

theorem Guarded.release (h : f.Guarded) (holder : Holder) (held : f.Holds holder)
    (only : ∀ a, f'.Holds a → f.Holds a ∧ a ≠ holder) : f'.Guarded := by
  have none : ∀ a, ¬ f'.Holds a := by
    intro a holds
    exact (only a holds).2 (h.alone a holder (only a holds).1 held)
  refine ⟨?_, ?_, ?_⟩
  · intro a holds
    exact absurd holds (none a)
  · intro a b left
    exact absurd left (none a)
  · intro d next saves
    exact absurd (Option.ne_none_iff_exists'.mpr ⟨next, saves⟩) (none (.tick d))

theorem holds_call_set {a : Nat} (calls : f'.calls = f.calls.set k c')
    (holds : f'.Holds (.call a)) :
    (a = k ∧ c'.Holds) ∨ (a ≠ k ∧ f.Holds (.call a)) := by
  obtain ⟨b, set, holds⟩ := holds
  rw [calls] at set
  rcases getElem?_set_cases set with ⟨same, rfl⟩ | ⟨other, set⟩
  · exact Or.inl ⟨same, holds⟩
  · exact Or.inr ⟨other, b, set, holds⟩

theorem saves?_congr (ticks : f'.ticks = f.ticks) (d : Direction) : f'.saves? d = f.saves? d := by
  rw [saves?, saves?, ticks]

theorem holds_call_congr (calls : f'.calls = f.calls) (k : Nat) :
    f'.Holds (.call k) ↔ f.Holds (.call k) := by
  rw [Holds, Holds, calls]

theorem saves?_set {t : Option (Tick γ)} (ticks : f'.ticks = f.ticks.set d t) (e : Direction) :
    f'.saves? e = if e = d then t.bind Tick.saves? else f.saves? e := by
  rw [saves?, ticks, Both.get_set]
  split
  · rfl
  · rfl

theorem Guarded.setTick {t : Option (Tick γ)} (h : f.Guarded) (locked : f'.locked = f.locked)
    (memory : f'.memory = f.memory) (calls : f'.calls = f.calls)
    (ticks : f'.ticks = f.ticks.set d t) (free : t.bind Tick.saves? = none) : f'.Guarded := by
  apply h.keep locked memory
  · intro e next saves
    rw [saves?_set ticks] at saves
    split at saves
    · rw [free] at saves
      cases saves
    · exact saves
  · intro k holds
    exact (holds_call_congr calls k).mp holds

theorem Guarded.lock {l : Lane} {work : State γ} {resume : Resume} (h : f.Guarded)
    (free : f.locked = false) (direction : l.direction = d) (locked : f'.locked = true)
    (memory : f'.memory = f.memory) (calls : f'.calls = f.calls)
    (ticks : f'.ticks = f.ticks.set d (some (.locked l f.memory work resume))) :
    f'.Guarded := by
  have saves?_eq : ∀ e, f'.saves? e =
      if e = d then some (f.memory.adopt work d) else f.saves? e := by
    intro e
    rw [saves?_set ticks, Option.bind_some, Tick.locked, Tick.saves?, direction]
  apply h.acquire free locked (.tick d)
  · intro a holds
    cases a with
    | tick e =>
      rw [Holds, saves?_eq] at holds
      split at holds
      · rename_i same
        exact Or.inl (by rw [same])
      · exact Or.inr holds
    | call k => exact Or.inr ((holds_call_congr calls k).mp holds)
  · intro e next saves
    rw [saves?_eq] at saves
    split at saves
    · rename_i same
      cases saves
      rw [same, memory]
      exact Or.inr (State.sameBut_adopt _ _ _)
    · exact Or.inl saves

theorem Guarded.unlock {t : Option (Tick γ)} (h : f.Guarded) (held : f.saves? d ≠ none)
    (calls : f'.calls = f.calls) (ticks : f'.ticks = f.ticks.set d t)
    (free : t.bind Tick.saves? = none) : f'.Guarded := by
  apply h.release (.tick d) held
  intro a holds
  cases a with
  | tick e =>
    rw [Holds, saves?_set ticks] at holds
    split at holds
    · exact absurd free holds
    · rename_i other
      exact ⟨holds, by simpa using other⟩
  | call k => exact ⟨(holds_call_congr calls k).mp holds, by simp⟩

theorem Guarded.setCall (h : f.Guarded) (locked : f'.locked = f.locked)
    (memory : f'.memory = f.memory) (ticks : f'.ticks = f.ticks)
    (calls : f'.calls = f.calls.set k c') (idle : ¬ c'.Holds) : f'.Guarded := by
  apply h.keep locked memory
  · intro d next saves
    rw [← saves?_congr ticks]
    exact saves
  · intro a holds
    rcases holds_call_set calls holds with ⟨-, holds⟩ | ⟨-, holds⟩
    · exact absurd holds idle
    · exact holds

theorem Guarded.init {s m : System γ} {i i' : Init γ} {a : Act γ} (h : s.fetcher.Guarded)
    (found : s.fetcher.calls[k]? = some c) (before : c.Holds ↔ i.Holds)
    (moves : i.Moves s a m i') (locked : f'.locked = m.fetcher.locked)
    (memory : f'.memory = m.fetcher.memory) (ticks : f'.ticks = s.fetcher.ticks)
    (calls : f'.calls = s.fetcher.calls.set k c') (after : c'.Holds ↔ i'.Holds) :
    f'.Guarded := by
  have release : i.Holds → ¬ i'.Holds → f'.Guarded := by
    intro held idle
    apply h.release (.call k) ⟨c, found, before.mpr held⟩
    intro a holds
    cases a with
    | tick d =>
      refine ⟨?_, by simp⟩
      rw [Holds, ← saves?_congr ticks]
      exact holds
    | call n =>
      rcases holds_call_set calls holds with ⟨-, holds⟩ | ⟨other, holds⟩
      · exact absurd (after.mp holds) idle
      · exact ⟨holds, by simpa using other⟩
  cases moves with
  | lock free =>
    apply h.acquire free locked (.call k)
    · intro a holds
      cases a with
      | tick d =>
        rw [Holds, saves?_congr ticks] at holds
        exact Or.inr holds
      | call n =>
        rcases holds_call_set calls holds with ⟨rfl, -⟩ | ⟨-, holds⟩
        · exact Or.inl rfl
        · exact Or.inr holds
    · intro d next saves
      rw [saves?_congr ticks] at saves
      exact Or.inl saves
  | failed _ held e =>
    apply release _ (fun idle => idle)
    rcases held with rfl | rfl <;> trivial
  | found state => exact release trivial (fun idle => idle)
  | absent =>
    apply h.keep locked memory
    · intro d next saves
      rw [← saves?_congr ticks]
      exact saves
    · intro n holds
      rcases holds_call_set calls holds with ⟨rfl, -⟩ | ⟨-, holds⟩
      · exact ⟨c, found, before.mpr trivial⟩
      · exact holds
  | created store state => exact release trivial (fun idle => idle)

end Fetcher

namespace System

variable {s s' : System γ} {now : Nat} {a : Act γ}

theorem guarded_of_call {m : System γ} {k : Nat} {c c' : Call γ} (h : s.fetcher.Guarded)
    (found : s.fetcher.calls[k]? = some c) (moves : c.Moves now s a m c') :
    ({ m.fetcher with calls := m.fetcher.calls.set k c' } : Fetcher γ).Guarded := by
  have idle : ∀ {f' : Fetcher γ} (c' : Call γ), f'.locked = s.fetcher.locked →
      f'.memory = s.fetcher.memory → f'.ticks = s.fetcher.ticks →
      f'.calls = s.fetcher.calls.set k c' → ¬ c'.Holds → f'.Guarded :=
    fun c' locked memory ticks calls => h.setCall locked memory ticks calls
  cases moves with
  | init m i i' a moves =>
    obtain ⟨memory, initialised, locked, same⟩ := moves.frame
    exact h.init found Iff.rfl moves rfl rfl (by rw [same]) (by rw [same]) Iff.rfl
  | loading m i i' a moves =>
    obtain ⟨memory, initialised, locked, same⟩ := moves.frame
    exact h.init found Iff.rfl moves rfl rfl (by rw [same]) (by rw [same]) Iff.rfl
  | loaded m i state a moves =>
    obtain ⟨memory, initialised, locked, same⟩ := moves.frame
    have ticks : m.fetcher.ticks = s.fetcher.ticks := by rw [same]
    have calls : m.fetcher.calls = s.fetcher.calls := by rw [same]
    have idle : (Call.run .published : Call γ).Holds ↔ (Init.done (.ok state)).Holds := Iff.rfl
    exact h.init found Iff.rfl moves rfl rfl ticks (congrArg (List.set · k _) calls) idle
  | unloaded m i e a moves =>
    obtain ⟨memory, initialised, locked, same⟩ := moves.frame
    exact h.init found Iff.rfl moves rfl rfl (by rw [same]) (by rw [same]) Iff.rfl
  | load fresh go => exact idle (.run (.loading .locking)) rfl rfl rfl rfl (fun p => p)
  | _ => exact idle _ rfl rfl rfl rfl (fun p => p)

theorem direction_of_lane? {c : Config} {d : Direction} {l : Lane} (lane : c.lane? d = some l) :
    l.direction = d := by
  obtain ⟨schedule, -, rfl⟩ := Option.map_eq_some_iff.mp lane
  rfl

theorem Moves.guarded [Cursor γ] (m : Moves now s a s') (h : s.fetcher.Guarded) :
    s'.fetcher.Guarded := by
  cases m with
  | call c new =>
    refine h.keep rfl rfl (fun _ _ saves => saves) ?_
    rintro n ⟨b, set, holds⟩
    rcases getElem?_concat_cases set with set | ⟨-, rfl⟩
    · exact ⟨b, set, holds⟩
    · rcases new with rfl | rfl | rfl <;> cases holds
  | advance m k c c' a found moves => exact guarded_of_call h found moves
  | enter | release | loop =>
    exact h.keep rfl rfl (fun _ _ saves => saves) (fun _ holds => holds)
  | begin d clock l found ready go =>
    refine h.setTick rfl rfl rfl rfl ?_
    rw [Option.bind_some, Fetcher.begun]
    split
    · exact Tick.saves?_start _ _ _
    · rfl
  | answer d part l tick tick' lane found next free stays =>
    exact h.setTick rfl rfl rfl rfl stays
  | lock d l work resume lane found free =>
    exact h.lock free (direction_of_lane? lane) rfl rfl rfl rfl
  | failed d l next resume e lane found =>
    have held : s.fetcher.saves? d ≠ none := by simp [Fetcher.saves?, found, Tick.saves?]
    exact h.unlock held rfl rfl (Tick.saves?_saved l next resume (some e))
  | saved d l next resume lane found =>
    have held : s.fetcher.saves? d ≠ none := by simp [Fetcher.saves?, found, Tick.saves?]
    exact h.unlock held rfl rfl (Tick.saves?_saved l next resume none)
  | tickDone d result l l' effects tasks gate found finished moved others =>
    exact h.setTick rfl rfl rfl rfl rfl

theorem guarded_of_new {c : Config} {f : Fetcher γ} (made : Fetcher.new c = .ok f) :
    f.Guarded := by
  unfold Fetcher.new at made
  split at made
  · cases made
  · cases made
    have none : ∀ h, ¬ ({ config := c, memory := c.freshState } : Fetcher γ).Holds h := by
      intro h
      cases h with
      | tick d => cases d <;> exact fun holds => holds rfl
      | call k =>
        rintro ⟨a, found, -⟩
        simp at found
    refine ⟨?_, ?_, ?_⟩
    · intro h holds
      exact absurd holds (none h)
    · intro h h' holds
      exact absurd holds (none h)
    · intro d next saves
      exact absurd (Option.ne_none_iff_exists'.mpr ⟨next, saves⟩) (none (.tick d))

end System
end ChainFetch.Fetch
