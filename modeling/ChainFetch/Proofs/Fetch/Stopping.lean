import ChainFetch.Proofs.Fetch.Halves
/-!
What a stop holds back. A call of stop tells the directions one after the other, and waits for the
end of one before it tells the next. Main statements: `Moves.halting`, `begins_iff`, a direction
begins a tick exactly while no call of stop has told it, and `not_begin_of_told`.
-/

namespace ChainFetch.Fetch

open Schedule (Loop)

variable {γ : Type}

namespace Stop

variable {d : Direction} {rest : List Direction}

/-- Whether a call of stop has told a direction, or has found no loop of it to tell. -/
def Told (d : Direction) : Stop → Prop
  | .entering => False
  | .collecting => False
  | .asking e rest => d ≠ e ∧ d ∉ rest
  | .settling _ rest => d ∉ rest
  | .joining _ rest => d ∉ rest
  | .done => True

/-- Whether a call of stop has seen a direction end, or has found no loop of it. -/
def Joined (d : Direction) : Stop → Prop
  | .entering => False
  | .collecting => False
  | .asking e rest => d ≠ e ∧ d ∉ rest
  | .settling e rest => d ≠ e ∧ d ∉ rest
  | .joining e rest => d ≠ e ∧ d ∉ rest
  | .done => True

/-- A call of stop takes the directions in their order, each once. -/
def InOrder : Stop → Prop
  | .asking e rest => (e :: rest).Sublist Direction.all
  | .settling e rest => (e :: rest).Sublist Direction.all
  | .joining e rest => (e :: rest).Sublist Direction.all
  | _ => True

theorem told_stopNext : (Fetcher.stopNext rest).Told d ↔ d ∉ rest := by
  cases rest with
  | nil => simp [Fetcher.stopNext, Told]
  | cons e rest => simp [Fetcher.stopNext, Told]

theorem joined_stopNext : (Fetcher.stopNext rest).Joined d ↔ d ∉ rest := by
  cases rest with
  | nil => simp [Fetcher.stopNext, Joined]
  | cons e rest => simp [Fetcher.stopNext, Joined]

theorem inOrder_stopNext (h : rest.Sublist Direction.all) :
    (Fetcher.stopNext rest).InOrder := by
  cases rest with
  | nil => trivial
  | cons e rest => exact h

theorem not_mem_of_inOrder (h : (d :: rest).Sublist Direction.all) : d ∉ rest :=
  (List.nodup_cons.mp (h.nodup (by decide))).1

theorem joined_forward_of_asking (h : (Stop.asking .backward rest).InOrder) :
    (Stop.asking .backward rest).Joined .forward := by
  have order : (Direction.backward :: rest).Sublist Direction.all := h
  have short := order.length_le
  refine ⟨by decide, ?_⟩
  intro pending
  have two := List.length_pos_of_mem pending
  have same := order.eq_of_length (by simp [Direction.all] at *; omega)
  cases same

end Stop

namespace Fetcher

variable {f f' : Fetcher γ} {d : Direction} {rest : List Direction} {k : Nat} {c c' : Stop}
  {l l' : Loop}

def HasStop (f : Fetcher γ) (P : Stop → Prop) : Prop :=
  ∃ (k : Nat) (c : Stop), f.calls[k]? = some (.stop c) ∧ P c

def Told (f : Fetcher γ) (d : Direction) : Prop := f.HasStop (Stop.Told d)

def Joined (f : Fetcher γ) (d : Direction) : Prop := f.HasStop (Stop.Joined d)

def Dormant (f : Fetcher γ) (d : Direction) (l : Loop) : Prop :=
  l.stage = .unstarted ∧ f.tasks.get d = .absent

/-- A loop knows of a stop exactly if it was told, and has ended where that was seen, but for loops
that will not start. -/
structure Halting (f : Fetcher γ) : Prop where
  asked : f.HasStop (· ≠ .entering) → f.stopAsked = true
  inOrder : ∀ (k : Nat) (c : Stop), f.calls[k]? = some (.stop c) → c.InOrder
  told : ∀ d, f.Told d → ∀ l, f.loops.get d = some l → l.stopAsked = true ∨ f.Dormant d l
  joined : ∀ d, f.Joined d → ∀ l, f.loops.get d = some l → l.status = .finished ∨ f.Dormant d l
  tells : ∀ d l, f.loops.get d = some l → l.stopAsked = true → f.Told d

def SameStops (f f' : Fetcher γ) : Prop := ∀ (k : Nat) (c : Stop),
  (f.calls[k]? = some (.stop c) → f'.calls[k]? = some (.stop c)) ∧
    (f'.calls[k]? = some (.stop c) → c = .entering ∨ f.calls[k]? = some (.stop c))

theorem SameStops.of_eq (calls : f'.calls = f.calls) : f.SameStops f' := by
  intro k c
  rw [calls]
  exact ⟨fun found => found, Or.inr⟩

theorem SameStops.concat {b : Call γ} (calls : f'.calls = f.calls ++ [b])
    (new : ∀ c, b = .stop c → c = .entering) : f.SameStops f' := by
  intro k c
  rw [calls]
  constructor
  · intro found
    rw [List.getElem?_append_left (List.getElem?_eq_some_iff.mp found).1]
    exact found
  · intro found
    rcases getElem?_concat_cases found with before | ⟨-, same⟩
    · exact Or.inr before
    · exact Or.inl (new c same.symm)

theorem SameStops.set {b b' : Call γ} (found : f.calls[k]? = some b)
    (calls : f'.calls = f.calls.set k b') (before : ∀ c, b ≠ .stop c)
    (after : ∀ c, b' ≠ .stop c) : f.SameStops f' := by
  intro n c
  rw [calls]
  constructor
  · intro present
    have ne : k ≠ n := by
      rintro rfl
      rw [found] at present
      cases present
      exact before c rfl
    rw [List.getElem?_set_ne ne]
    exact present
  · intro set
    rcases getElem?_set_cases set with ⟨-, same⟩ | ⟨-, present⟩
    · exact absurd same.symm (after c)
    · exact Or.inr present

theorem SameStops.newer {P : Stop → Prop} (same : f.SameStops f') (h : f.HasStop P) :
    f'.HasStop P := by
  obtain ⟨k, c, found, holds⟩ := h
  exact ⟨k, c, (same k c).1 found, holds⟩

theorem SameStops.older {P : Stop → Prop} (same : f.SameStops f') (going : ¬ P .entering)
    (h : f'.HasStop P) : f.HasStop P := by
  obtain ⟨k, c, found, holds⟩ := h
  rcases (same k c).2 found with rfl | before
  · exact absurd holds going
  · exact ⟨k, c, before, holds⟩

theorem SameStops.inOrder (same : f.SameStops f')
    (h : ∀ (k : Nat) (c : Stop), f.calls[k]? = some (.stop c) → c.InOrder) (k : Nat) (c : Stop)
    (found : f'.calls[k]? = some (.stop c)) : c.InOrder := by
  rcases (same k c).2 found with rfl | before
  · trivial
  · exact h k c before

theorem HasStop.set {P : Stop → Prop} {b b' : Call γ} (h : f.HasStop P)
    (found : f.calls[k]? = some b) (calls : f'.calls = f.calls.set k b')
    (keeps : ∀ c, b = .stop c → P c → ∃ c', b' = .stop c' ∧ P c') : f'.HasStop P := by
  obtain ⟨n, c, before, holds⟩ := h
  by_cases same : n = k
  · subst same
    rw [found, Option.some.injEq] at before
    obtain ⟨c', rfl, holds⟩ := keeps c before holds
    have bound : n < f.calls.length := (List.getElem?_eq_some_iff.mp found).1
    exact ⟨n, c', by rw [calls, List.getElem?_set_self bound], holds⟩
  · refine ⟨n, c, ?_, holds⟩
    rw [calls, List.getElem?_set_ne (Ne.symm same)]
    exact before

theorem hasStop_set {P : Stop → Prop} (found : f.calls[k]? = some (.stop c))
    (calls : f'.calls = f.calls.set k (.stop c')) (keeps : P c → P c') :
    f'.HasStop P ↔ P c' ∨ f.HasStop P := by
  constructor
  · rintro ⟨n, b, set, holds⟩
    rw [calls] at set
    rcases getElem?_set_cases set with ⟨-, same⟩ | ⟨-, before⟩
    · cases same
      exact Or.inl holds
    · exact Or.inr ⟨n, b, before, holds⟩
  · rintro (holds | older)
    · have bound : k < f.calls.length := (List.getElem?_eq_some_iff.mp found).1
      exact ⟨k, c', by rw [calls, List.getElem?_set_self bound], holds⟩
    · apply older.set found calls
      rintro b ⟨⟩ holds
      exact ⟨c', rfl, keeps holds⟩

theorem Halting.congr (h : f.Halting) (same : f.SameStops f')
    (asked : f'.stopAsked = f.stopAsked) (loops : f'.loops = f.loops)
    (tasks : ∀ d, f.tasks.get d = .absent → f'.tasks.get d = .absent) : f'.Halting := by
  have dormant : ∀ {d : Direction} {l : Loop}, f.Dormant d l → f'.Dormant d l :=
    fun still => ⟨still.1, tasks _ still.2⟩
  refine ⟨?_, same.inOrder h.inOrder, ?_, ?_, ?_⟩
  · intro going
    rw [asked]
    exact h.asked (same.older (fun ne => ne rfl) going)
  · intro d told l found
    rw [loops] at found
    exact (h.told d (same.older (fun told => told) told) l found).imp_right dormant
  · intro d joined l found
    rw [loops] at found
    exact (h.joined d (same.older (fun joined => joined) joined) l found).imp_right dormant
  · intro d l found asked
    rw [loops] at found
    exact same.newer (h.tells d l found asked)

theorem Halting.setLoop (h : f.Halting) (found : f.loops.get d = some l) (awake : ¬ f.Dormant d l)
    (stopAsked : l'.stopAsked = l.stopAsked)
    (finished : l.status = .finished → l'.status = .finished) (calls : f'.calls = f.calls)
    (asked : f'.stopAsked = f.stopAsked) (loops : f'.loops = f.loops.set d (some l'))
    (tasks : ∀ e, e ≠ d → f'.tasks.get e = f.tasks.get e) : f'.Halting := by
  have same : f.SameStops f' := .of_eq calls
  refine ⟨?_, same.inOrder h.inOrder, ?_, ?_, ?_⟩
  · intro going
    rw [asked]
    exact h.asked (same.older (fun ne => ne rfl) going)
  · intro e told m present
    have told : f.Told e := same.older (fun told => told) told
    rw [loops, Both.get_set] at present
    split at present
    · rename_i here
      cases present
      rw [here] at told
      rw [stopAsked]
      exact Or.inl ((h.told d told l found).resolve_right awake)
    · rename_i other
      rw [Dormant, tasks e other]
      exact h.told e told m present
  · intro e joined m present
    have joined : f.Joined e := same.older (fun joined => joined) joined
    rw [loops, Both.get_set] at present
    split at present
    · rename_i here
      cases present
      rw [here] at joined
      exact Or.inl (finished ((h.joined d joined l found).resolve_right awake))
    · rename_i other
      rw [Dormant, tasks e other]
      exact h.joined e joined m present
  · intro e m present asked
    apply same.newer
    rw [loops, Both.get_set] at present
    split at present
    · rename_i here
      cases present
      rw [stopAsked] at asked
      rw [here]
      exact h.tells d l found asked
    · exact h.tells e m present asked

theorem Halting.publish (h : f.Halting) (bare : f.Bare) (same : f.SameStops f')
    (asked : f'.stopAsked = f.stopAsked) (tasks : f'.tasks = f.tasks)
    (loops : ∀ d l, f'.loops.get d = some l → l.stage = .unstarted ∧ l.stopAsked = false) :
    f'.Halting := by
  have dormant : ∀ d l, f'.loops.get d = some l → f'.Dormant d l := by
    intro d l found
    rw [Dormant, tasks]
    exact ⟨(loops d l found).1, (bare d).2⟩
  refine ⟨?_, same.inOrder h.inOrder, fun d _ l found => Or.inr (dormant d l found),
    fun d _ l found => Or.inr (dormant d l found), ?_⟩
  · intro going
    rw [asked]
    exact h.asked (same.older (fun ne => ne rfl) going)
  · intro d l found asked
    exact absurd (asked.symm.trans (loops d l found).2) (by simp)

theorem Halting.launch (h : f.Halting) (go : f.stopAsked = false) (same : f.SameStops f')
    (loops : f'.loops = f.loops) : f'.Halting := by
  have none : ∀ P : Stop → Prop, ¬ P .entering → ¬ f'.HasStop P := by
    intro P untouched going
    obtain ⟨k, c, found, holds⟩ := same.older untouched going
    have begun : c ≠ .entering := by
      rintro rfl
      exact untouched holds
    have stopped := h.asked ⟨k, c, found, begun⟩
    exact absurd (stopped.symm.trans go) (by simp)
  refine ⟨?_, same.inOrder h.inOrder, ?_, ?_, ?_⟩
  · intro going
    exact absurd going (none _ (fun ne => ne rfl))
  · intro d told
    exact absurd told (none _ (fun told => told))
  · intro d joined
    exact absurd joined (none _ (fun joined => joined))
  · intro d l found asked
    rw [loops] at found
    exact same.newer (h.tells d l found asked)

/-- What a call of stop may make of a loop. -/
structure Halted (l l' : Loop) : Prop where
  asked : l.stopAsked = true → l'.stopAsked = true
  stage : l'.stage = l.stage
  finished : l.status = .finished → l'.status = .finished

theorem Halted.refl (l : Loop) : Halted l l := ⟨fun h => h, rfl, fun h => h⟩

theorem Halting.advance (h : f.Halting) (found : f.calls[k]? = some (.stop c))
    (calls : f'.calls = f.calls.set k (.stop c')) (tasks : f'.tasks = f.tasks)
    (asked : f'.stopAsked = true) (inOrder : c'.InOrder)
    (tells : ∀ d, c.Told d → c'.Told d) (joins : ∀ d, c.Joined d → c'.Joined d)
    (loops : ∀ d l', f'.loops.get d = some l' → ∃ l, f.loops.get d = some l ∧ Halted l l' ∧
      (c'.Told d → ¬ c.Told d → l'.stopAsked = true) ∧
      (c'.Joined d → ¬ c.Joined d → l'.status = .finished) ∧
      (l'.stopAsked = true → l.stopAsked = true ∨ c'.Told d)) : f'.Halting := by
  have dormant : ∀ {d : Direction} {l l' : Loop}, Halted l l' → f.Dormant d l →
      f'.Dormant d l' := by
    intro d l l' halted dormant
    rw [Dormant, tasks, halted.stage]
    exact dormant
  refine ⟨fun _ => asked, ?_, ?_, ?_, ?_⟩
  · intro n b set
    rw [calls] at set
    rcases getElem?_set_cases set with ⟨-, same⟩ | ⟨-, before⟩
    · cases same
      exact inOrder
    · exact h.inOrder n b before
  · intro d told l' present
    obtain ⟨l, before, halted, tell, -, -⟩ := loops d l' present
    have older : f.Told d → l'.stopAsked = true ∨ f'.Dormant d l' := by
      intro told
      rcases h.told d told l before with asked | still
      · exact Or.inl (halted.asked asked)
      · exact Or.inr (dormant halted still)
    rcases (hasStop_set found calls (tells d)).mp told with new | told
    · by_cases old : c.Told d
      · exact older ⟨k, c, found, old⟩
      · exact Or.inl (tell new old)
    · exact older told
  · intro d joined l' present
    obtain ⟨l, before, halted, -, join, -⟩ := loops d l' present
    have older : f.Joined d → l'.status = .finished ∨ f'.Dormant d l' := by
      intro joined
      rcases h.joined d joined l before with finished | still
      · exact Or.inl (halted.finished finished)
      · exact Or.inr (dormant halted still)
    rcases (hasStop_set found calls (joins d)).mp joined with new | joined
    · by_cases old : c.Joined d
      · exact older ⟨k, c, found, old⟩
      · exact Or.inl (join new old)
    · exact older joined
  · intro d l' present asked
    obtain ⟨l, before, -, -, -, knows⟩ := loops d l' present
    apply (hasStop_set found calls (tells d)).mpr
    rcases knows asked with asked | told
    · exact Or.inr (h.tells d l before asked)
    · exact Or.inl told

/-! ## Steps of a call of stop -/

theorem Halting.mark (h : f.Halting) (found : f.calls[k]? = some (.stop .entering)) :
    ({ f with stopAsked := true, calls := f.calls.set k (.stop .collecting) } :
      Fetcher γ).Halting := by
  refine h.advance found rfl rfl rfl trivial (fun _ told => told) (fun _ joined => joined) ?_
  intro d l present
  exact ⟨l, present, .refl l, fun told => told.elim, fun joined => joined.elim, Or.inl⟩

theorem Halting.collect (h : f.Halting) (found : f.calls[k]? = some (.stop .collecting)) :
    ({ f with calls := f.calls.set k (.stop (stopNext
      (Direction.all.filter fun d => (f.loops.get d).isSome))) } : Fetcher γ).Halting := by
  have asked := h.asked ⟨k, _, found, by simp⟩
  refine h.advance found rfl rfl asked (Stop.inOrder_stopNext List.filter_sublist)
    (fun _ told => told.elim) (fun _ joined => joined.elim) ?_
  intro d l present
  have here : ¬ d ∉ Direction.all.filter fun d => (f.loops.get d).isSome := by
    have present : f.loops.get d = some l := present
    cases d <;> simp [Direction.all, present]
  refine ⟨l, present, .refl l, ?_, ?_, Or.inl⟩
  · intro told
    exact absurd (Stop.told_stopNext.mp told) here
  · intro joined
    exact absurd (Stop.joined_stopNext.mp joined) here

theorem Halting.ask (h : f.Halting) (found : f.calls[k]? = some (.stop (.asking d rest)))
    (present : f.loops.get d = some l) :
    ({ f with
      loops := f.loops.set d (some { l with stopAsked := true })
      calls := f.calls.set k (.stop (.settling d rest)) } : Fetcher γ).Halting := by
  have asked := h.asked ⟨k, _, found, by simp⟩
  have order : (Stop.asking d rest).InOrder := h.inOrder k _ found
  have last : d ∉ rest := Stop.not_mem_of_inOrder order
  refine h.advance found rfl rfl asked order (fun _ told => told.2) (fun _ joined => joined) ?_
  intro e m set
  have set : (f.loops.set d (some { l with stopAsked := true })).get e = some m := set
  rw [Both.get_set] at set
  split at set
  · rename_i same
    cases set
    subst same
    exact ⟨l, present, ⟨fun _ => rfl, rfl, fun fin => fin⟩, fun _ _ => rfl,
      fun joined old => absurd joined old, fun _ => Or.inr last⟩
  · rename_i other
    -- The directions after this one stay untold until it has ended.
    exact ⟨m, set, .refl m, fun told old => absurd ⟨other, told⟩ old,
      fun joined old => absurd joined old, Or.inl⟩

theorem Halting.settle (h : f.Halting) (found : f.calls[k]? = some (.stop (.settling d rest)))
    (present : f.loops.get d = some l)
    (settled : l' = if l.status = .idle then { l with status := .finished } else l) :
    ({ f with
      loops := f.loops.set d (some l')
      calls := f.calls.set k (.stop (.joining d rest)) } : Fetcher γ).Halting := by
  have asked := h.asked ⟨k, _, found, by simp⟩
  have order : (Stop.settling d rest).InOrder := h.inOrder k _ found
  have halted : Halted l l' ∧ l'.stopAsked = l.stopAsked := by
    rw [settled]
    split
    · exact ⟨⟨fun asked => asked, rfl, fun _ => rfl⟩, rfl⟩
    · exact ⟨.refl l, rfl⟩
  refine h.advance found rfl rfl asked order (fun _ told => told) (fun _ joined => joined) ?_
  intro e m set
  have set : (f.loops.set d (some l')).get e = some m := set
  rw [Both.get_set] at set
  split at set
  · rename_i same
    cases set
    subst same
    refine ⟨l, present, halted.1, fun told old => absurd told old,
      fun joined old => absurd joined old, ?_⟩
    intro asked
    rw [halted.2] at asked
    exact Or.inl asked
  · exact ⟨m, set, .refl m, fun told old => absurd told old,
      fun joined old => absurd joined old, Or.inl⟩

theorem Halting.join (h : f.Halting) (found : f.calls[k]? = some (.stop (.joining d rest)))
    (present : f.loops.get d = some l) (finished : l.status = .finished) :
    ({ f with calls := f.calls.set k (.stop (stopNext rest)) } : Fetcher γ).Halting := by
  have asked := h.asked ⟨k, _, found, by simp⟩
  have order : (Stop.joining d rest).InOrder := h.inOrder k _ found
  have later : rest.Sublist Direction.all := List.sublist_of_cons_sublist order
  refine h.advance found rfl rfl asked (Stop.inOrder_stopNext later)
    (fun _ told => Stop.told_stopNext.mpr told)
    (fun _ joined => Stop.joined_stopNext.mpr joined.2) ?_
  intro e m set
  refine ⟨m, set, .refl m, fun told old => absurd (Stop.told_stopNext.mp told) old, ?_, Or.inl⟩
  intro joined old
  have after := Stop.joined_stopNext.mp joined
  by_cases same : e = d
  · have set : f.loops.get e = some m := set
    rw [same, present] at set
    cases set
    exact finished
  · exact absurd ⟨same, after⟩ old

end Fetcher

namespace System

variable {s s' : System γ} {now : Nat} {a : Act γ} {d : Direction} {t u : List (Nat × Event γ)}

theorem halting_of_call {m : System γ} {k : Nat} {c c' : Call γ} (regular : s.fetcher.Regular)
    (h : s.fetcher.Halting) (found : s.fetcher.calls[k]? = some c)
    (moves : c.Moves now s a m c') :
    ({ m.fetcher with calls := m.fetcher.calls.set k c' } : Fetcher γ).Halting := by
  cases moves with
  | init m i i' a moves =>
    obtain ⟨memory, initialised, locked, same⟩ := moves.frame
    rw [same]
    exact h.congr (.set found rfl (by simp) (by simp)) rfl rfl (fun _ absent => absent)
  | reject | load | withdraw | ended =>
    exact h.congr (.set found rfl (by simp) (by simp)) rfl rfl (fun _ absent => absent)
  | publish fresh go =>
    exact h.publish (regular.fresh fresh).1 (.set found rfl (by simp) (by simp)) rfl rfl
      fun _ _ made => (Fetcher.sound_of_publish made).2
  | loading m i i' a moves =>
    obtain ⟨memory, initialised, locked, same⟩ := moves.frame
    rw [same]
    exact h.congr (.set found rfl (by simp) (by simp)) rfl rfl (fun _ absent => absent)
  | loaded m i state a moves =>
    obtain ⟨memory, initialised, locked, same⟩ := moves.frame
    rw [same]
    exact h.publish (regular.loading k i found) (.set found rfl (by simp) (by simp)) rfl rfl
      fun _ _ made => (Fetcher.sound_of_publish made).2
  | unloaded m i e a moves =>
    obtain ⟨memory, initialised, locked, same⟩ := moves.frame
    rw [same]
    exact h.congr (.set found rfl (by simp) (by simp)) rfl rfl (fun _ absent => absent)
  | launch go => exact h.launch go (.set found rfl (by simp) (by simp)) rfl
  | mark => exact h.mark found
  | collect => exact h.collect found
  | ask d rest l present => exact h.ask found present
  | settle d rest l l' present settled => exact h.settle found present settled
  | join d rest l present finished => exact h.join found present finished

theorem entering_of_new {c : Call γ}
    (new : c = .init .locking ∨ c = .run .entering ∨ c = .stop .entering) (b : Stop)
    (stops : c = .stop b) : b = .entering := by
  rcases new with rfl | rfl | rfl
  · cases stops
  · cases stops
  · cases stops
    rfl

theorem Moves.halting [Cursor γ] (m : Moves now s a s') (regular : s.fetcher.Regular)
    (h : s.fetcher.Halting) : s'.fetcher.Halting := by
  cases m with
  | call c new =>
    exact h.congr (.concat rfl (entering_of_new new)) rfl rfl (fun _ absent => absent)
  | advance m k c c' a found moves => exact halting_of_call regular h found moves
  | enter d jitter l l' effects tasks gate task found moved others =>
    refine h.setLoop found ?_ (Loop.stopAsked_of_step (by simp) moved)
      (fun fin => Loop.finished_of_step (regular.sound d l found) fin moved) rfl rfl rfl others
    rintro ⟨-, absent⟩
    rw [task] at absent
    cases absent
  | release t held =>
    refine h.congr (.of_eq rfl) rfl rfl ?_
    intro d absent
    cases d with
    | forward => exact absent
    | backward =>
      have absent : s.fetcher.tasks.backward = .absent := absent
      rw [held] at absent
      cases absent
  | loop d e l l' effects tasks gate found begun own unasked moved others =>
    refine h.setLoop found ?_ (Loop.stopAsked_of_step unasked moved)
      (fun fin => Loop.finished_of_step (regular.sound d l found) fin moved) rfl rfl rfl others
    rintro ⟨unstarted, -⟩
    exact begun unstarted
  | begin d clock l found ready go =>
    have moved := Loop.step_turn_of_ready now ready go
    refine h.setLoop found ?_ (Loop.stopAsked_of_step (by simp) moved)
      (fun fin => Loop.finished_of_step (regular.sound d l found) fin moved) rfl rfl rfl
      (fun _ _ => rfl)
    rintro ⟨unstarted, -⟩
    rw [ready] at unstarted
    cases unstarted
  | answer | lock | failed | saved =>
    exact h.congr (.of_eq rfl) rfl rfl (fun _ absent => absent)
  | tickDone d result l l' effects tasks gate found finished moved others =>
    refine h.setLoop found ?_ (Loop.stopAsked_of_step (by simp) moved)
      (fun fin => Loop.finished_of_step (regular.sound d l found) fin moved) rfl rfl rfl others
    rintro ⟨unstarted, -⟩
    obtain ⟨⟨since, ticking⟩, -⟩ := Loop.tickDone_cases moved
    rw [ticking] at unstarted
    cases unstarted

theorem halting_of_new {c : Config} {f : Fetcher γ} (made : Fetcher.new c = .ok f) :
    f.Halting := by
  unfold Fetcher.new at made
  split at made
  · cases made
  · cases made
    have none : ∀ P : Stop → Prop,
        ¬ ({ config := c, memory := c.freshState } : Fetcher γ).HasStop P := by
      rintro P ⟨k, b, found, -⟩
      simp at found
    refine ⟨?_, ?_, ?_, ?_, ?_⟩
    · intro going
      exact absurd going (none _)
    · intro k b found
      simp at found
    · intro d told
      exact absurd told (none _)
    · intro d joined
      exact absurd joined (none _)
    · intro d l found
      cases d <;> cases found

/-! ## Runs -/

theorem act_eq_begin [Cursor γ] {e : Event γ} {clock : Instant}
    (begins : s.act e = .tick d (.begin clock)) :
    e = .turn d clock ∧ ∃ l, s.fetcher.loops.get d = some l ∧ l.stopAsked = false := by
  cases e with
  | advance k fault => exact absurd begins (Act.ofLoad_ne_tick _ _ _)
  | turn b read =>
    simp only [act] at begins
    split at begins
    · rename_i l found
      split at begins
      · cases begins
      · rename_i go
        cases begins
        exact ⟨rfl, l, found, by simpa using go⟩
    · cases begins
  | _ => cases begins

theorem act_ne_begin_of_told [Cursor γ] {e : Event γ} (h : s.fetcher.Halting)
    (told : s.fetcher.Told d) (stepped : s.step now e = some s') (clock : Instant) :
    s.act e ≠ .tick d (.begin clock) := by
  intro begins
  obtain ⟨rfl, l, found, go⟩ := act_eq_begin begins
  obtain ⟨f, moved, -⟩ := Option.map_eq_some_iff.mp stepped
  obtain ⟨l', m, effects, found', moved, -⟩ := Fetcher.stepLoop_cases moved
  rw [found] at found'
  cases found'
  have ready := (Loop.turn_cases moved).1
  rcases h.told d told l found with asked | ⟨unstarted, -⟩
  · rw [go] at asked
    cases asked
  · rw [ready] at unstarted
    cases unstarted

theorem Moves.ticks_eq_none [Cursor γ] (m : Moves now s a s')
    (quiet : ∀ clock, a ≠ .tick d (.begin clock)) (idle : s.fetcher.ticks.get d = none) :
    s'.fetcher.ticks.get d = none := by
  have other : ∀ {e : Direction} {tick : Tick γ} (t : Option (Tick γ)),
      s.fetcher.ticks.get e = some tick → (s.fetcher.ticks.set e t).get d = none := by
    intro e tick t found
    have ne : d ≠ e := by
      rintro rfl
      rw [idle] at found
      cases found
    rw [Both.get_set_of_ne _ ne]
    exact idle
  cases m with
  | call c new => exact idle
  | advance m k c c' a found moves =>
    obtain ⟨-, same, -⟩ := moves.frame
    rw [← same] at idle
    exact idle
  | enter | release | loop => exact idle
  | begin e clock l found ready go =>
    have ne : d ≠ e := by
      rintro rfl
      exact quiet clock rfl
    exact (Both.get_set_of_ne _ ne _).trans idle
  | answer e part l tick tick' lane found next free stays => exact other _ found
  | lock e l work resume lane found free => exact other _ found
  | failed e l next resume fault lane found => exact other _ found
  | saved e l next resume lane found => exact other _ found
  | tickDone e result l l' effects tasks gate found finished moved others =>
    exact other _ finished

theorem told_of_call {c c' : Call γ} (m : c.Moves now s a s' c') (b : Stop) (before : c = .stop b)
    (told : b.Told d) : ∃ b', c' = .stop b' ∧ b'.Told d := by
  cases m with
  | mark =>
    cases before
    exact told.elim
  | collect =>
    cases before
    exact told.elim
  | ask e rest l found =>
    cases before
    exact ⟨_, rfl, told.2⟩
  | settle e rest l l' found settled =>
    cases before
    exact ⟨_, rfl, told⟩
  | join e rest l found finished =>
    cases before
    exact ⟨_, rfl, Stop.told_stopNext.mpr told⟩
  | _ => cases before

theorem Moves.told [Cursor γ] (m : Moves now s a s') (told : s.fetcher.Told d) :
    s'.fetcher.Told d := by
  cases m with
  | call c new =>
    have same : s.fetcher.SameStops { s.fetcher with calls := s.fetcher.calls ++ [c] } :=
      .concat rfl (entering_of_new new)
    exact same.newer told
  | advance m k c c' a found moves =>
    obtain ⟨-, -, same⟩ := moves.frame
    exact told.set found (congrArg (List.set · k c') same) (told_of_call moves)
  | _ => exact told

/-- Once it was told, a direction begins no tick in any run. -/
theorem not_begin_of_told [Cursor γ] (regular : s.fetcher.Regular) (h : s.fetcher.Halting)
    (told : s.fetcher.Told d) (ran : s.run u = some s') :
    (∀ clock, .tick d (.begin clock) ∉ s.acts u) ∧
      (s.fetcher.ticks.get d = none → s'.fetcher.ticks.get d = none) := by
  induction u generalizing s with
  | nil =>
    cases ran
    exact ⟨fun _ => List.not_mem_nil, fun idle => idle⟩
  | cons x u ih =>
    obtain ⟨now, e⟩ := x
    obtain ⟨m, first, rest⟩ := after_cons_eq_some.mp ran
    have moved := moves_of_step first
    have quiet := act_ne_begin_of_told h told first
    -- No call forgets whom it told, so the rest of the run starts with the direction told.
    obtain ⟨never, idles⟩ :=
      ih (moved.regular regular) (moved.halting regular h) (moved.told told) rest
    refine ⟨?_, ?_⟩
    · intro clock
      rw [acts, labels_cons first, List.mem_cons]
      rintro (here | later)
      · exact quiet clock here.symm
      · exact never clock later
    · intro idle
      exact idles (moved.ticks_eq_none quiet idle)

theorem ticks_eq_none_of_joined (regular : s.fetcher.Regular) (h : s.fetcher.Halting)
    (joined : s.fetcher.Joined d) : s.fetcher.ticks.get d = none := by
  cases tick : s.fetcher.ticks.get d with
  | none => rfl
  | some t =>
    obtain ⟨l, since, found, ticking⟩ := regular.ticking d (by simp [tick])
    rcases h.joined d joined l found with finished | ⟨unstarted, -⟩
    · rcases (regular.sound d l found).finished finished with stage | stage
      · rw [stage] at ticking
        cases ticking
      · rw [stage] at ticking
        cases ticking
    · rw [unstarted] at ticking
      cases ticking

theorem begins_iff [Cursor γ] (regular : s.fetcher.Regular) (h : s.fetcher.Halting)
    (clock : Instant) :
    (s.fetcher.ticks.get d = none ∧
        ∃ s', s.step now (.turn d clock) = some s' ∧ s'.fetcher.ticks.get d ≠ none) ↔
      (∃ l, s.fetcher.loops.get d = some l ∧ l.stage = .ready) ∧ ¬ s.fetcher.Told d := by
  constructor
  · rintro ⟨idle, s', stepped, begun⟩
    obtain ⟨f, moved, -⟩ := Option.map_eq_some_iff.mp stepped
    obtain ⟨l, m, effects, found, moved, -⟩ := Fetcher.stepLoop_cases moved
    refine ⟨⟨l, found, (Loop.turn_cases moved).1⟩, ?_⟩
    intro told
    have quiet := act_ne_begin_of_told h told stepped
    exact begun ((moves_of_step stepped).ticks_eq_none quiet idle)
  · rintro ⟨⟨l, found, ready⟩, untold⟩
    have go : l.stopAsked = false := by
      cases asked : l.stopAsked with
      | false => rfl
      | true => exact absurd (h.tells d l found asked) untold
    refine ⟨regular.ticks_eq_none_of_ready found ready, ?_⟩
    simp [step, Fetcher.stepLoop, found, Loop.step_turn_of_ready now ready go, Fetcher.follow,
      Fetcher.setTick, setFetcher]

/-- A direction begins a tick exactly where its loop is at its top and no call of stop has told it.
Once told it begins none in any run; a call of stop comes back only when no direction has a tick,
and tells backward only when forward has none. -/
theorem stop_holds_back [Cursor γ] {c : Config} {f : Fetcher γ} {store : Table (State γ)}
    (made : Fetcher.new c = .ok f) (ran : (⟨store, f⟩ : System γ).run t = some s) :
    (∀ d now clock,
      (s.fetcher.ticks.get d = none ∧
          ∃ s', s.step now (.turn d clock) = some s' ∧ s'.fetcher.ticks.get d ≠ none) ↔
        (∃ l, s.fetcher.loops.get d = some l ∧ l.stage = .ready) ∧ ¬ s.fetcher.Told d) ∧
    (∀ d, s.fetcher.Told d → ∀ u s', s.run u = some s' →
      (∀ clock, .tick d (.begin clock) ∉ s.acts u) ∧
        (s.fetcher.ticks.get d = none → s'.fetcher.ticks.get d = none)) ∧
    (∀ k : Nat, s.fetcher.calls[k]? = some (.stop .done) →
      ∀ d, s.fetcher.Told d ∧ s.fetcher.ticks.get d = none) ∧
    ∀ (k : Nat) (rest : List Direction),
      s.fetcher.calls[k]? = some (.stop (.asking .backward rest)) →
        s.fetcher.ticks.get .forward = none := by
  obtain ⟨regular, -⟩ := regular_of_new made
  obtain ⟨regular, -, halting⟩ := run_invariant (P := fun m => m.fetcher.Halting)
    (fun regular h m => m.halting regular h) regular (halting_of_new made) ran
  refine ⟨?_, ?_, ?_, ?_⟩
  · intro d now clock
    exact begins_iff regular halting clock
  · intro d told u s' ran
    exact not_begin_of_told regular halting told ran
  · intro k back d
    have joined : s.fetcher.Joined d := ⟨k, .done, back, trivial⟩
    exact ⟨⟨k, .done, back, trivial⟩, ticks_eq_none_of_joined regular halting joined⟩
  · intro k rest asks
    have joined := Stop.joined_forward_of_asking (halting.inOrder k _ asks)
    exact ticks_eq_none_of_joined regular halting ⟨k, _, asks, joined⟩

def stopping : List (Nat × Event HeightCursor) := [
  (0, .call .stop), (0, .advance 1 none), (0, .advance 1 none), (0, .advance 1 none),
  (0, .advance 1 none)]

theorem stop_holds_back_stopping : ∃ s : System HeightCursor,
    Fetcher.new bothWays = .ok newBothWays ∧
      (⟨{}, newBothWays⟩ : System HeightCursor).run (opening ++ stopping) = some s ∧
      s.fetcher.Told .forward ∧
      ∀ u s', s.run u = some s' → ∀ clock, .tick .forward (.begin clock) ∉ s.acts u := by
  have made : Fetcher.new bothWays = .ok newBothWays := rfl
  have ends : ((⟨{}, newBothWays⟩ : System HeightCursor).run (opening ++ stopping)).map
      (·.fetcher.calls[1]?) = some (some (.stop (.joining .forward [.backward]))) := rfl
  obtain ⟨s, ran, found⟩ := Option.map_eq_some_iff.mp ends
  have first : Direction.forward ∉ [Direction.backward] := by decide
  have told : s.fetcher.Told .forward := ⟨1, _, found, first⟩
  obtain ⟨-, quiet, -, -⟩ := stop_holds_back made ran
  refine ⟨s, made, ran, told, ?_⟩
  intro u s' further
  exact (quiet .forward told u s' further).1

/-- Backward begins a tick after stop was called, while the call waits for forward: its first one,
which the success of forward's first tick sets off, and one beside a later tick of forward. -/
theorem tick_after_stop :
    (∃ s s' : System HeightCursor,
      (⟨{}, newBothWays⟩ : System HeightCursor).run (opening ++ stopping) = some s ∧
        s.fetcher.calls[1]? = some (.stop (.joining .forward [.backward])) ∧
        s.fetcher.tasks.backward = .held ∧ s.fetcher.ticks.backward.isSome = false ∧
        s.run (firstSuccess ++ [(0, .turn .backward .epoch)]) = some s' ∧
        s'.fetcher.ticks.backward.isSome = true) ∧
    ∃ s s' : System HeightCursor,
      (⟨{}, newBothWays⟩ : System HeightCursor).run
          (launched ++ [(1000, .timeout .forward), (1000, .turn .forward .epoch)] ++ stopping) =
        some s ∧
        s.fetcher.calls[1]? = some (.stop (.joining .forward [.backward])) ∧
        s.fetcher.ticks.backward.isSome = false ∧
        s.step 1001 (.turn .backward .epoch) = some s' ∧
        s'.fetcher.ticks.backward.isSome = true := by
  refine ⟨?_, ?_⟩
  · have ends : ((⟨{}, newBothWays⟩ : System HeightCursor).run (opening ++ stopping)).bind (fun s =>
        (s.run (firstSuccess ++ [(0, .turn .backward .epoch)])).map fun s' =>
          (s.fetcher.calls[1]?, s.fetcher.tasks.backward, s.fetcher.ticks.backward.isSome,
            s'.fetcher.ticks.backward.isSome)) =
        some (some (.stop (.joining .forward [.backward])), .held, false, true) := rfl
    obtain ⟨s, ran, rest⟩ := Option.bind_eq_some_iff.mp ends
    obtain ⟨s', further, seen⟩ := Option.map_eq_some_iff.mp rest
    simp only [Prod.mk.injEq] at seen
    exact ⟨s, s', ran, seen.1, seen.2.1, seen.2.2.1, further, seen.2.2.2⟩
  · have ends : ((⟨{}, newBothWays⟩ : System HeightCursor).run
          (launched ++ [(1000, .timeout .forward), (1000, .turn .forward .epoch)] ++ stopping)).bind
        (fun s => (s.step 1001 (.turn .backward .epoch)).map fun s' =>
          (s.fetcher.calls[1]?, s.fetcher.ticks.backward.isSome,
            s'.fetcher.ticks.backward.isSome)) =
        some (some (.stop (.joining .forward [.backward])), false, true) := rfl
    obtain ⟨s, ran, rest⟩ := Option.bind_eq_some_iff.mp ends
    obtain ⟨s', further, seen⟩ := Option.map_eq_some_iff.mp rest
    simp only [Prod.mk.injEq] at seen
    exact ⟨s, s', ran, seen.1, seen.2.1, further, seen.2.2⟩

end System
end ChainFetch.Fetch
