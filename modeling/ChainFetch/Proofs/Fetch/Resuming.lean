import ChainFetch.Proofs.Fetch.History
/-!
What a fetcher leaves behind is all that another needs. Its ticks save what a fold over their parts
gives from the state in memory, whatever else happens. Main statement:
`memory_stored_and_reload_agrees`, the state in memory is the stored one, and a new fetcher that
loads it goes on as the first would.
-/

namespace ChainFetch.Fetch

variable {γ : Type}

/-- An event of the fetcher, or others save or delete under an id of their own. -/
inductive Happening (γ : Type)
  | own (e : Event γ)
  | others (id : String) (entry : Option (State γ))

def Happening.events (t : List (Nat × Event γ)) : List (Nat × Happening γ) :=
  t.map fun x => (x.1, .own x.2)

def Happening.init : List (Nat × Happening γ) :=
  events [(0, .call .init), (0, .advance 0 none), (0, .advance 0 none)]

def Act.part? : Act γ → Option (Direction × Part γ)
  | .tick d part => some (d, part)
  | _ => none

def Tick.keeps? : Tick γ → Part γ → Option (State γ)
  | .saving next _, .saved none => some next
  | _, _ => none

namespace System

def happen [Cursor γ] (now : Nat) (s : System γ) : Happening γ → Option (System γ)
  | .own e => s.step now e
  | .others id entry =>
    if id = s.fetcher.config.id then none
    else some { s with store := match entry with
      | some state => s.store.insert id state
      | none => s.store.erase id }

def happens [Cursor γ] (s : System γ) (t : List (Nat × Happening γ)) : Option (System γ) :=
  after happen s t

def deed (s : System γ) : Happening γ → Act γ
  | .own e => s.act e
  | .others _ _ => .other

def deeds [Cursor γ] (s : System γ) (t : List (Nat × Happening γ)) : List (Act γ) :=
  labels happen deed s t

def parts [Cursor γ] (s : System γ) (t : List (Nat × Happening γ)) :
    List (Direction × Part γ) := (s.deeds t).filterMap Act.part?

def keeps? (s : System γ) : Act γ → Option (State γ)
  | .tick d part => (s.fetcher.ticks.get d).bind (·.keeps? part)
  | _ => none

def persisted [Cursor γ] (s : System γ) (t : List (Nat × Happening γ)) : List (State γ) :=
  (labels happen (fun s x => s.keeps? (s.deed x)) s t).filterMap id

variable {s s' m : System γ} {now : Nat} {a : Act γ} {x : Happening γ}
  {t : List (Nat × Happening γ)}

/-! ## Runs -/

theorem Moves.ticks_eq [Cursor γ] (moves : Moves now s a s') (other : a.part? = none) :
    s'.fetcher.ticks = s.fetcher.ticks := by
  cases moves with
  | advance m k c c' a found moves => exact moves.frame.2.1
  | begin | answer | lock | failed | saved | tickDone => cases other
  | _ => rfl

theorem others_cases [Cursor γ] {id : String} {entry : Option (State γ)}
    (h : s.happen now (.others id entry) = some s') :
    s'.fetcher = s.fetcher ∧ s'.stored? = s.stored? := by
  obtain ⟨other, h⟩ := Option.ite_none_left_eq_some.mp h
  cases h
  refine ⟨rfl, ?_⟩
  cases entry with
  | some state => exact (Table.get?_insert _ _ _ _).trans (if_neg (Ne.symm other))
  | none => exact (Table.get?_erase _ _ _).trans (if_neg (Ne.symm other))

theorem happen_cases [Cursor γ] (h : s.happen now x = some s') :
    Moves now s (s.deed x) s' ∨
      (s.deed x = .other ∧ s'.fetcher = s.fetcher ∧ s'.stored? = s.stored?) := by
  cases x with
  | own e => exact Or.inl (moves_of_step h)
  | others id entry => exact Or.inr ⟨rfl, others_cases h⟩

theorem Coherent.congr (h : s.Coherent) (fetcher : s'.fetcher = s.fetcher)
    (stored : s'.stored? = s.stored?) : s'.Coherent := by
  obtain ⟨regular, guarded, mirrors⟩ := h
  refine ⟨by rw [fetcher]; exact regular, by rw [fetcher]; exact guarded, ?_, ?_, ?_, ?_⟩
  · rw [fetcher, stored]
    exact mirrors.named
  · rw [fetcher, stored]
    exact mirrors.mirrored
  · rw [fetcher]
    exact mirrors.untouched
  · rw [fetcher, stored]
    exact mirrors.creating

theorem Coherent.happen [Cursor γ] (h : s.Coherent) (happened : s.happen now x = some s') :
    s'.Coherent := by
  rcases happen_cases happened with moves | ⟨-, fetcher, stored⟩
  · exact moves.coherent h
  · exact h.congr fetcher stored

theorem Coherent.happens [Cursor γ] (h : s.Coherent) (ran : s.happens t = some s') :
    s'.Coherent := after_invariant (fun h happened => Coherent.happen h happened) h ran

theorem initialised_of_load [Cursor γ] {state : State γ} (moves : Moves now s (.load state) s') :
    s'.fetcher.initialised = true := by
  have init : ∀ {i i' : Init γ} {m : System γ}, i.Moves s (.load state) m i' →
      m.fetcher.initialised = true := by
    intro i i' m moves
    cases moves <;> rfl
  cases moves with
  | advance m k c c' a found moves =>
    change m.fetcher.initialised = true
    cases moves with
    | init m i i' a moves => exact init moves
    | loading m i i' a moves => exact init moves
    | loaded m i state a moves =>
      have loaded := init moves
      exact loaded
    | unloaded m i e a moves => exact init moves

theorem initialised_of_happen [Cursor γ] (happened : s.happen now x = some s')
    (loaded : s.fetcher.initialised = true ∨ ∃ state, s.deed x = .load state) :
    s'.fetcher.initialised = true := by
  rcases happen_cases happened with moves | ⟨other, fetcher, -⟩
  · rcases loaded with loaded | ⟨state, load⟩
    · exact moves.initialised loaded
    · rw [load] at moves
      exact initialised_of_load moves
  · rcases loaded with loaded | ⟨state, load⟩
    · rw [fetcher]
      exact loaded
    · rw [other] at load
      cases load

theorem deeds_cons [Cursor γ] (h : s.happen now x = some m) :
    s.deeds ((now, x) :: t) = s.deed x :: m.deeds t := labels_cons h

theorem parts_cons [Cursor γ] (h : s.happen now x = some m) :
    s.parts ((now, x) :: t) = (s.deed x).part?.toList ++ m.parts t := by
  rw [parts, deeds_cons h, filterMap_cons_toList, ← parts]

theorem persisted_cons [Cursor γ] (h : s.happen now x = some m) :
    s.persisted ((now, x) :: t) = (s.keeps? (s.deed x)).toList ++ m.persisted t :=
  filterMap_labels_cons h

theorem initialised_of_happens [Cursor γ] (ran : s.happens t = some s')
    (loaded : s.fetcher.initialised = true ∨ ∃ state, .load state ∈ s.deeds t) :
    s'.fetcher.initialised = true := by
  induction t generalizing s with
  | nil =>
    cases ran
    simpa [deeds, labels] using loaded
  | cons y t ih =>
    obtain ⟨now, x⟩ := y
    obtain ⟨m, first, rest⟩ := after_cons_eq_some.mp ran
    rw [deeds_cons first] at loaded
    apply ih rest
    rcases loaded with loaded | ⟨state, load⟩
    · exact Or.inl (initialised_of_happen first (Or.inl loaded))
    · rcases List.mem_cons.mp load with here | later
      · exact Or.inl (initialised_of_happen first (Or.inr ⟨state, here.symm⟩))
      · exact Or.inr ⟨state, later⟩

theorem config_of_happen [Cursor γ] (happened : s.happen now x = some s') :
    s'.fetcher.config = s.fetcher.config := by
  rcases happen_cases happened with moves | ⟨-, fetcher, -⟩
  · exact moves.config_eq
  · rw [fetcher]

end System

/-! ## Both directions alone -/

/-- The ticks of both directions over one state, with what they have saved. -/
structure Duo (γ : Type) where
  memory : State γ
  ticks : Both (Option (Tick γ)) := ⟨none, none⟩
  saved : List (State γ) := []

namespace Duo

open ChainFetch.Fetch.System (Moves happen_cases initialised_of_happen config_of_happen parts_cons
  persisted_cons)

def step [Cursor γ] (c : Config) (b : Duo γ) : Direction × Part γ → Option (Duo γ)
  | (d, .begin clock) =>
    let tick : Tick γ := Fetcher.begun { config := c, memory := b.memory } d clock
    match b.ticks.get d with
    | none => some { b with ticks := b.ticks.set d (some tick) }
    | some _ => none
  | (d, .finish) =>
    match b.ticks.get d with
    | some (.done _) => some { b with ticks := b.ticks.set d none }
    | _ => none
  | (d, part) => do
    let l ← c.lane? d
    let t ← b.ticks.get d
    let t' ← t.next? l b.memory part
    pure {
      memory := (t.keeps? part).getD b.memory
      ticks := b.ticks.set d (some t')
      saved := b.saved ++ (t.keeps? part).toList }

def run [Cursor γ] (c : Config) (b : Duo γ) (parts : List (Direction × Part γ)) : Option (Duo γ) :=
  parts.foldlM (step c) b

variable {c : Config} {b b' : Duo γ} {d : Direction} {part : Part γ} {l : Lane} {t t' : Tick γ}
  {s s' m : System γ} {now : Nat} {a : Act γ} {x : Happening γ} {u : List (Nat × Happening γ)}

theorem step_answer [Cursor γ] (lane : c.lane? d = some l) (found : b.ticks.get d = some t)
    (next : t.next? l b.memory part = some t') :
    b.step c (d, part) = some {
      memory := (t.keeps? part).getD b.memory
      ticks := b.ticks.set d (some t')
      saved := b.saved ++ (t.keeps? part).toList } := by
  cases part with
  | begin clock => cases t <;> cases next
  | finish => cases t <;> cases next
  | _ => simp [step, lane, found, next]

theorem begins_of_step [Cursor γ] (idle : b.ticks.get d = none)
    (h : b.step c (d, part) = some b') : ∃ clock, part = .begin clock := by
  cases part with
  | begin clock => exact ⟨clock, rfl⟩
  | _ => simp [step, idle] at h

/-- Alone are the ticks of a system, or only those of one direction, or none. -/
structure Tracks (b : Duo γ) (s : System γ) : Prop where
  memory : b.memory = s.fetcher.memory
  ticks : ∀ d, b.ticks.get d = none ∨ b.ticks.get d = s.fetcher.ticks.get d

/-- Alone, the ticks do with an act what a step does that leads to `s'`: they save the same, and the
directions in step stay in step. -/
def KeepsUp [Cursor γ] (b : Duo γ) (s : System γ) (a : Act γ) (s' : System γ) : Prop :=
  ∃ b', b.run s.fetcher.config a.part?.toList = some b' ∧ b'.Tracks s' ∧
    b'.saved = b.saved ++ (s.keeps? a).toList ∧
    ∀ d, b.ticks.get d = s.fetcher.ticks.get d → b'.ticks.get d = s'.fetcher.ticks.get d

theorem Tracks.set [Cursor γ] (h : b.Tracks s) (tick : Option (Tick γ))
    (step : b.step s.fetcher.config (d, part) = some
      ⟨s'.fetcher.memory, b.ticks.set d tick, b.saved ++ (s.keeps? (.tick d part)).toList⟩)
    (ticks : s'.fetcher.ticks = s.fetcher.ticks.set d tick) : b.KeepsUp s (.tick d part) s' := by
  refine ⟨⟨s'.fetcher.memory, b.ticks.set d tick, _⟩, by simp [run, Act.part?, step],
    ⟨rfl, ?_⟩, rfl, ?_⟩
  · intro e
    rw [ticks, Both.get_set, Both.get_set]
    split
    · exact Or.inr rfl
    · exact h.ticks e
  · intro e equal
    rw [ticks, Both.get_set, Both.get_set, equal]

theorem Tracks.keep [Cursor γ] (h : b.Tracks s) (other : a.part? = none)
    (memory : s'.fetcher.memory = s.fetcher.memory) (ticks : s'.fetcher.ticks = s.fetcher.ticks) :
    b.KeepsUp s a s' := by
  have nothing : s.keeps? a = none := by
    cases a with
    | tick d part => cases other
    | _ => rfl
  refine ⟨b, by rw [other]; rfl, ⟨h.memory.trans memory.symm, ?_⟩, by rw [nothing]; simp, ?_⟩
  · rw [ticks]
    exact h.ticks
  · rw [ticks]
    exact fun _ equal => equal

theorem Tracks.moves [Cursor γ] (h : b.Tracks s) (coherent : s.Coherent)
    (loaded : s.fetcher.initialised = true) (moves : Moves now s a s')
    (here : ∀ d part, a = .tick d part → b.ticks.get d = s.fetcher.ticks.get d) :
    b.KeepsUp s a s' := by
  have answer : ∀ {d : Direction} {part : Part γ} {l : Lane} {t t' : Tick γ}, a = .tick d part →
      s.fetcher.config.lane? d = some l → s.fetcher.ticks.get d = some t →
      t.next? l s.fetcher.memory part = some t' →
      s'.fetcher.memory = (t.keeps? part).getD s.fetcher.memory →
      s'.fetcher.ticks = s.fetcher.ticks.set d (some t') → b.KeepsUp s a s' := by
    intro d part l t t' act lane found next memory ticks
    have alone : b.ticks.get d = some t := (here d part act).trans found
    rw [← h.memory] at next
    subst act
    refine h.set _ ?_ ticks
    rw [step_answer lane alone next, memory, h.memory]
    simp [System.keeps?, found]
  cases moves with
  | call | enter | release | loop => exact h.keep rfl rfl rfl
  | advance m k c c' a found moves =>
    have memory := coherent.memory_eq_of_call loaded found moves
    have ticks := moves.frame.2.1
    rcases moves.memory_cases with ⟨rfl, -⟩ | ⟨state, rfl, -⟩ <;> exact h.keep rfl memory ticks
  | begin d clock l found ready go =>
    have idle := coherent.regular.ticks_eq_none_of_ready found ready
    have alone := (here d _ rfl).trans idle
    refine h.set (some (s.fetcher.begun d clock)) ?_ rfl
    simp [step, alone, System.keeps?, idle, h.memory, Fetcher.begun, System.setFetcher]
  | answer d part l tick tick' lane found next free stays =>
    refine answer rfl lane found next ?_ rfl
    cases tick with
    | saving => cases free
    | _ => rfl
  | lock d l work resume lane found free => exact answer rfl lane found rfl rfl rfl
  | failed d l next resume e lane found => exact answer rfl lane found rfl rfl rfl
  | saved d l next resume lane found => exact answer rfl lane found rfl rfl rfl
  | tickDone d result l l' effects tasks gate found finished =>
    have alone := (here d _ rfl).trans finished
    refine h.set none ?_ rfl
    simp [step, alone, System.keeps?, finished, Tick.keeps?, h.memory, System.setFetcher]

theorem Tracks.happen [Cursor γ] (h : b.Tracks s) (coherent : s.Coherent)
    (loaded : s.fetcher.initialised = true) (happened : s.happen now x = some s')
    (here : ∀ d part, s.deed x = .tick d part → b.ticks.get d = s.fetcher.ticks.get d) :
    b.KeepsUp s (s.deed x) s' := by
  rcases happen_cases happened with moves | ⟨other, fetcher, -⟩
  · exact h.moves coherent loaded moves here
  · exact h.keep (by rw [other]; rfl) (by rw [fetcher]) (by rw [fetcher])

theorem exists_run_of_happens [Cursor γ] (memory : b.memory = s.fetcher.memory)
    (ticks : ∀ d, b.ticks.get d = s.fetcher.ticks.get d) (coherent : s.Coherent)
    (loaded : s.fetcher.initialised = true) (ran : s.happens u = some s') :
    ∃ b', b.run s.fetcher.config (s.parts u) = some b' := by
  induction u generalizing s b with
  | nil => exact ⟨b, rfl⟩
  | cons y u ih =>
    obtain ⟨now, x⟩ := y
    obtain ⟨m, first, rest⟩ := after_cons_eq_some.mp ran
    have tracks : b.Tracks s := ⟨memory, fun d => Or.inr (ticks d)⟩
    obtain ⟨v, stepped, tracks', -, exactly⟩ :=
      tracks.happen coherent loaded first fun d _ _ => ticks d
    obtain ⟨b', later⟩ := ih tracks'.memory (fun d => exactly d (ticks d))
      (coherent.happen first) (initialised_of_happen first (Or.inl loaded)) rest
    refine ⟨b', ?_⟩
    rw [parts_cons first, run, List.foldlM_append, ← run, stepped]
    rw [config_of_happen first] at later
    exact later

theorem Tracks.eq_of_step [Cursor γ] {c : Config} (h : b.Tracks s) (regular : s.fetcher.Regular)
    (happened : s.happen now x = some s') (act : s.deed x = .tick d part)
    (step : b.step c (d, part) = some b') : b.ticks.get d = s.fetcher.ticks.get d := by
  rcases h.ticks d with idle | same
  · obtain ⟨clock, rfl⟩ := begins_of_step idle step
    rcases happen_cases happened with moves | ⟨other, -⟩
    · rw [act] at moves
      cases moves with
      | begin d clock l found ready go =>
        rw [idle, regular.ticks_eq_none_of_ready found ready]
      | answer d part l tick tick' lane found next => cases tick <;> cases next
      | advance m k c c' a found moves => rcases moves.memory_cases with ⟨⟨⟩, -⟩ | ⟨_, ⟨⟩, -⟩
    · rw [act] at other
      cases other
  · exact same

/-- What the ticks of a run save, and what it leaves in memory, follows from their parts: ticks that
were in flight before have no part among them. -/
theorem Tracks.happens [Cursor γ] (h : b.Tracks s) (coherent : s.Coherent)
    (loaded : s.fetcher.initialised = true) (ran : s.happens u = some s')
    (alone : b.run s.fetcher.config (s.parts u) = some b') :
    b'.memory = s'.fetcher.memory ∧ b'.saved = b.saved ++ s.persisted u := by
  induction u generalizing s b with
  | nil =>
    cases ran
    cases alone
    exact ⟨h.memory, by simp [System.persisted, labels]⟩
  | cons y u ih =>
    obtain ⟨now, x⟩ := y
    obtain ⟨m, first, rest⟩ := after_cons_eq_some.mp ran
    rw [parts_cons first, run, List.foldlM_append, ← run] at alone
    obtain ⟨v, stepped, later⟩ := Option.bind_eq_some_iff.mp alone
    -- A part that the ticks alone can do too finds them where those of the run stand.
    have here : ∀ d part, s.deed x = .tick d part → b.ticks.get d = s.fetcher.ticks.get d := by
      intro d part act
      rw [act] at stepped
      exact h.eq_of_step coherent.regular first act (by simpa [run, Act.part?] using stepped)
    obtain ⟨v', stepped', tracks, saved, -⟩ := h.happen coherent loaded first here
    cases stepped.symm.trans stepped'
    obtain ⟨memory, saved'⟩ := ih tracks (coherent.happen first)
      (initialised_of_happen first (Or.inl loaded)) rest
      (by rw [config_of_happen first]; exact later)
    refine ⟨memory, ?_⟩
    rw [saved', saved, persisted_cons first, List.append_assoc]

end Duo

namespace System

variable {s s' m : System γ} {now : Nat} {x : Happening γ} {t : List (Nat × Happening γ)}
  {state : State γ} {c : Config} {f : Fetcher γ} {store : Table (State γ)}

theorem config_of_happens [Cursor γ] (ran : s.happens t = some s') :
    s'.fetcher.config = s.fetcher.config :=
  after_invariant (P := fun m => m.fetcher.config = s.fetcher.config)
    (fun same happened => (config_of_happen happened).trans same) rfl ran

theorem stored?_of_happen [Cursor γ] (h : s.Coherent) (held : s.stored? = some state)
    (idle : (s.deed x).part? = none) (happened : s.happen now x = some s') :
    s'.stored? = some state ∧ s'.fetcher.ticks = s.fetcher.ticks := by
  refine ⟨?_, ?_⟩
  · cases x with
    | own e =>
      cases h.stores (x := .event e) happened with
      | same same => exact same.trans held
      | created missing =>
        rw [held] at missing
        cases missing
      | saved => cases idle
    | others id entry => exact (others_cases happened).2.trans held
  · rcases happen_cases happened with moves | ⟨-, fetcher, -⟩
    · exact moves.ticks_eq idle
    · rw [fetcher]

theorem stored?_of_happens [Cursor γ] (h : s.Coherent) (held : s.stored? = some state)
    (idle : s.parts t = []) (ran : s.happens t = some s') :
    s'.stored? = some state ∧ s'.fetcher.ticks = s.fetcher.ticks := by
  induction t generalizing s with
  | nil =>
    cases ran
    exact ⟨held, rfl⟩
  | cons y t ih =>
    obtain ⟨now, x⟩ := y
    obtain ⟨m, first, rest⟩ := after_cons_eq_some.mp ran
    rw [parts_cons first, List.append_eq_nil_iff, Option.toList_eq_nil_iff] at idle
    obtain ⟨stored, ticks⟩ := stored?_of_happen h held idle.1 first
    obtain ⟨stored', ticks'⟩ := ih (h.happen first) stored idle.2 rest
    exact ⟨stored', ticks'.trans ticks⟩

theorem new_cases (made : Fetcher.new c = .ok f) : f = { config := c, memory := c.freshState } := by
  unfold Fetcher.new at made
  split at made
  · cases made
  · cases made
    rfl

theorem happens_init [Cursor γ] (made : Fetcher.new c = .ok f)
    (stored : store.get? c.id = some state) :
    (⟨store, f⟩ : System γ).happens Happening.init = some ⟨store, { f with
      memory := state, initialised := true, calls := [.init (.done (.ok state))] }⟩ := by
  obtain rfl := new_cases made
  simp [happens, Happening.init, Happening.events, after, happen, step, stepCall, stepInit,
    setFetcher, Fetcher.hold, stored]

theorem deeds_init [Cursor γ] (made : Fetcher.new c = .ok f)
    (stored : store.get? c.id = some state) :
    (⟨store, f⟩ : System γ).deeds Happening.init = [.other, .other, .load state] := by
  obtain rfl := new_cases made
  simp [deeds, labels, Happening.init, Happening.events, happen, step, stepCall, stepInit,
    setFetcher, deed, act, Call.loads?, Init.loads?, Act.ofLoad, stored]

/-- After a successful init the state in memory is the stored one, whatever ticks, calls and
failures follow. A new fetcher that loads it then has the same state, and where both go on with the
same parts of ticks, with the same answers, readings of the clock and faults, they save the same
states. Neither what else happens on the way nor a tick of the first that was in flight makes a
difference. -/
theorem memory_stored_and_reload_agrees [Cursor γ] {loaded : State γ} (made : Fetcher.new c = .ok f)
    (named : ∀ state, store.get? c.id = some state → state.id = c.id)
    (before : (⟨store, f⟩ : System γ).happens t = some s)
    (init : .load loaded ∈ (⟨store, f⟩ : System γ).deeds t) :
    s.stored? = some s.fetcher.memory ∧
    (∃ r, (⟨s.store, f⟩ : System γ).happens Happening.init = some r ∧
      .load s.fetcher.memory ∈ (⟨s.store, f⟩ : System γ).deeds Happening.init ∧
      (⟨s.store, f⟩ : System γ).parts Happening.init = []) ∧
    ∀ v r loaded', (⟨s.store, f⟩ : System γ).happens v = some r →
      .load loaded' ∈ (⟨s.store, f⟩ : System γ).deeds v → (⟨s.store, f⟩ : System γ).parts v = [] →
      r.fetcher.memory = s.fetcher.memory ∧
      ∀ u s' w r', s.happens u = some s' → r.happens w = some r' → r.parts w = s.parts u →
        r.persisted w = s.persisted u ∧ r'.fetcher.memory = s'.fetcher.memory ∧
          r'.stored? = s'.stored? := by
  have coherent := (coherent_of_new made named).happens before
  have ready := initialised_of_happens before (Or.inr ⟨loaded, init⟩)
  have held := coherent.mirrors.mirrored ready
  have config : f.config = c := (regular_of_new made).2
  have same : s.fetcher.config = c := (config_of_happens before).trans config
  have kept : s.store.get? c.id = some s.fetcher.memory := by rw [← same]; exact held
  have fresh : (⟨s.store, f⟩ : System γ).Coherent := by
    apply coherent_of_new made
    rw [← same]
    exact coherent.mirrors.named
  have deeds := deeds_init made kept
  refine ⟨held, ⟨_, happens_init made kept, by simp [deeds], by rw [parts, deeds]; rfl⟩, ?_⟩
  intro v r loaded' again init' idle
  have coherent' := fresh.happens again
  have ready' := initialised_of_happens again (Or.inr ⟨loaded', init'⟩)
  have held' := coherent'.mirrors.mirrored ready'
  have start : (⟨s.store, f⟩ : System γ).stored? = some s.fetcher.memory := by
    rw [stored?, config]
    exact kept
  obtain ⟨stored, ticks⟩ := stored?_of_happens fresh start idle again
  have memory : r.fetcher.memory = s.fetcher.memory := Option.some.inj (held'.symm.trans stored)
  refine ⟨memory, ?_⟩
  intro u s' w r' ran ran' equal
  have same' : r.fetcher.config = c := (config_of_happens again).trans config
  -- Both fold the same parts over the same state, which the new one can because it has no tick.
  let b : Duo γ := { memory := s.fetcher.memory }
  have nothing : ∀ d, b.ticks.get d = none := by
    intro d
    cases d <;> rfl
  have idle' : ∀ d, b.ticks.get d = r.fetcher.ticks.get d := by
    intro d
    rw [nothing, ticks]
    obtain rfl := new_cases made
    cases d <;> rfl
  obtain ⟨b', alone⟩ := Duo.exists_run_of_happens memory.symm idle' coherent' ready' ran'
  have second : b.Tracks r := ⟨memory.symm, fun d => Or.inl (nothing d)⟩
  have first : b.Tracks s := ⟨rfl, fun d => Or.inl (nothing d)⟩
  obtain ⟨left', saved'⟩ := second.happens coherent' ready' ran' alone
  rw [same', ← same, equal] at alone
  obtain ⟨left, saved⟩ := first.happens coherent ready ran alone
  have memories : r'.fetcher.memory = s'.fetcher.memory := left'.symm.trans left
  refine ⟨List.append_cancel_left (saved'.symm.trans saved), memories, ?_⟩
  have stored' := (coherent'.happens ran').mirrors.mirrored
    (initialised_of_happens ran' (Or.inl ready'))
  have stored := (coherent.happens ran).mirrors.mirrored
    (initialised_of_happens ran (Or.inl ready))
  rw [stored', stored, memories]

def leftBehind : List (Nat × Happening HeightCursor) :=
  Happening.events (launched ++ [(0, .turn .backward .epoch)]) ++ [(1, .others "accounts" none)]

def forwardTick (now : Nat) : List (Nat × Event HeightCursor) := [
  (now, .turn .forward .epoch), (now, .fetched .forward (.ok {})),
  (now, .merged .forward (.ok ⟨some ⟨110⟩, 10⟩)), (now + 1, .lock .forward),
  (now + 2, .saved .forward none), (now + 2, .tickDone .forward)]

def goesOn : List (Nat × Happening HeightCursor) :=
  Happening.events ([(1, .call .init), (1, .advance 1 none), (1, .advance 1 none),
    (1000, .timeout .forward)] ++ forwardTick 1000)

def startsAnew : List (Nat × Happening HeightCursor) :=
  Happening.events ([(2, .call .run), (2, .advance 1 none), (2, .advance 1 none),
    (2, .enter .forward .zero)] ++ forwardTick 2)

theorem memory_stored_and_reload_agrees_leftBehind : ∃ s s' r r' : System HeightCursor,
    Fetcher.new bothWays = .ok newBothWays ∧
      (⟨{}, newBothWays⟩ : System HeightCursor).happens leftBehind = some s ∧
      s.happens goesOn = some s' ∧
      (⟨s.store, newBothWays⟩ : System HeightCursor).happens Happening.init = some r ∧
      r.happens startsAnew = some r' ∧ s.stored? = some s.fetcher.memory ∧
      s'.fetcher.memory.cursors = ⟨some ⟨110⟩, none⟩ ∧ r.persisted startsAnew = s.persisted goesOn ∧
      r'.stored? = s'.stored? := by
  have made : Fetcher.new bothWays = .ok newBothWays := rfl
  let p : List (Direction × Part HeightCursor) := [(.forward, .begin .epoch),
    (.forward, .fetched (.ok {})), (.forward, .merged (.ok ⟨some ⟨110⟩, 10⟩)), (.forward, .lock),
    (.forward, .saved none), (.forward, .finish)]
  have ends : ((⟨{}, newBothWays⟩ : System HeightCursor).happens leftBehind).bind (fun s =>
      (s.happens goesOn).bind fun s' =>
        ((⟨s.store, newBothWays⟩ : System HeightCursor).happens Happening.init).bind fun r =>
          (r.happens startsAnew).map fun r' =>
            (s.parts goesOn, r.parts startsAnew, s'.fetcher.memory.cursors)) =
      some (p, p, ⟨some ⟨110⟩, none⟩) := rfl
  obtain ⟨s, before, rest⟩ := Option.bind_eq_some_iff.mp ends
  obtain ⟨s', ran, rest⟩ := Option.bind_eq_some_iff.mp rest
  obtain ⟨r, again, rest⟩ := Option.bind_eq_some_iff.mp rest
  obtain ⟨r', ran', ended⟩ := Option.map_eq_some_iff.mp rest
  simp only [Prod.mk.injEq] at ended
  obtain ⟨parts, parts', cursors⟩ := ended
  have init : .load bothWays.freshState ∈
      (⟨{}, newBothWays⟩ : System HeightCursor).deeds leftBehind :=
    List.mem_of_getElem? (i := 4) rfl
  obtain ⟨held, ⟨_, -, load, idle⟩, goes⟩ :=
    memory_stored_and_reload_agrees made (by simp [Table.get?]) before init
  obtain ⟨-, alike⟩ := goes _ r _ again load idle
  obtain ⟨persisted, -, stored⟩ := alike goesOn s' startsAnew r' ran ran' (parts'.trans parts.symm)
  exact ⟨s, s', r, r', made, before, ran, again, ran', held, cursors, persisted, stored⟩

end System
end ChainFetch.Fetch
