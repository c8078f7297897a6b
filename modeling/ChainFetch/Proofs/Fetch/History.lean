import ChainFetch.Proofs.Fetch.Halves
/-!
Fetchers that follow one another on a store. In a history one fetcher at a time writes, and at any
moment another may take its place, which has nothing but the store to go on from. Main statements:
`Coherent.live`, what is in memory is what is stored, and `Upheld.lives`, what the answers to the
ticks of a direction keep holds of them throughout.
-/

namespace ChainFetch.Fetch

open Schedule (Loop)

variable {γ : Type}

/-- What happens in a history: an event, or the fetcher is gone and another is made. -/
inductive Turn (γ : Type)
  | event (e : Event γ)
  | restart (c : Config)

def Turn.events (t : List (Nat × Event γ)) : List (Nat × Turn γ) :=
  t.map fun x => (x.1, .event x.2)

inductive Note (γ : Type)
  | restart
  | fetch (request : Request γ) (answer : Except Failure (Outcome γ))
  | part (part : Part γ)

def Tick.note (l : Lane) (context : Schedule.Context) : Tick γ → Part γ → Note γ
  | .fetching work, .fetched a => .fetch (request l context work) a
  | _, part => .part part

def Init.Creates : Init γ → Prop
  | .creating => True
  | _ => False

def Call.Creates : Call γ → Prop
  | .init i => i.Creates
  | .run (.loading i) => i.Creates
  | _ => False

theorem Init.Creates.holds {i : Init γ} (h : i.Creates) : i.Holds := by
  cases i with
  | creating => trivial
  | _ => cases h

theorem Call.Creates.holds {c : Call γ} (h : c.Creates) : c.Holds := by
  cases c with
  | init i => exact Init.Creates.holds h
  | run r =>
    cases r with
    | loading i => exact Init.Creates.holds h
    | _ => cases h
  | stop c => cases h

namespace System

variable {s s' m : System γ} {now k : Nat} {a : Act γ} {d : Direction} {c c' : Call γ}
  {i i' : Init γ} {f : Fetcher γ}

def stored? (s : System γ) : Option (State γ) := s.store.get? s.fetcher.config.id

/-- One turn of a history. A fetcher takes the place of another under the same id alone, and only
if its configuration has no fault. -/
def live [Cursor γ] (now : Nat) (s : System γ) : Turn γ → Option (System γ)
  | .event e => s.step now e
  | .restart c =>
    match Fetcher.new c with
    | .ok f => if c.id = s.fetcher.config.id then some ⟨s.store, f⟩ else none
    | .error _ => none

def lives [Cursor γ] (s : System γ) (t : List (Nat × Turn γ)) : Option (System γ) := after live s t

theorem live_restart_cases [Cursor γ] {c : Config} (h : s.live now (.restart c) = some s') :
    ∃ f, Fetcher.new c = .ok f ∧ c.id = s.fetcher.config.id ∧ s' = ⟨s.store, f⟩ := by
  simp only [live] at h
  split at h
  · rename_i f made
    split at h
    · rename_i same
      cases h
      exact ⟨f, made, same, rfl⟩
    · cases h
  · cases h

/-! ## Memory and store -/

/-- The store has what is in memory, once the fetcher has loaded its state; before that nothing is
scheduled. -/
structure Mirrors (s : System γ) : Prop where
  named : ∀ state, s.stored? = some state → state.id = s.fetcher.config.id
  mirrored : s.fetcher.initialised = true → s.stored? = some s.fetcher.memory
  untouched : s.fetcher.initialised = false →
    s.fetcher.memory = s.fetcher.config.freshState ∧ s.fetcher.Bare
  creating : ∀ (k : Nat) (c : Call γ), s.fetcher.calls[k]? = some c → c.Creates → s.stored? = none

theorem Mirrors.initialised (h : s.Mirrors) (scheduled : ¬ s.fetcher.Bare) :
    s.fetcher.initialised = true := by
  cases init : s.fetcher.initialised with
  | true => rfl
  | false => exact absurd (h.untouched init).2 scheduled

theorem Mirrors.keep (h : s.Mirrors) (store : s'.store = s.store)
    (config : s'.fetcher.config = s.fetcher.config) (memory : s'.fetcher.memory = s.fetcher.memory)
    (initialised : s'.fetcher.initialised = s.fetcher.initialised)
    (bare : s.fetcher.initialised = false → s.fetcher.Bare → s'.fetcher.Bare)
    (calls : ∀ (k : Nat) (c : Call γ), s'.fetcher.calls[k]? = some c → c.Creates →
      ∃ n : Nat, s.fetcher.calls[n]? = some c) : s'.Mirrors := by
  have same : s'.stored? = s.stored? := by rw [stored?, stored?, store, config]
  refine ⟨?_, ?_, ?_, ?_⟩
  · rw [same, config]
    exact h.named
  · rw [same, memory, initialised]
    exact h.mirrored
  · rw [memory, config, initialised]
    intro new
    exact ⟨(h.untouched new).1, bare new (h.untouched new).2⟩
  · intro k c found creates
    obtain ⟨k, before⟩ := calls k c found creates
    rw [same]
    exact h.creating k c before creates

theorem Mirrors.setCall (h : s.Mirrors) (store : s'.store = s.store)
    (config : s'.fetcher.config = s.fetcher.config) (memory : s'.fetcher.memory = s.fetcher.memory)
    (initialised : s'.fetcher.initialised = s.fetcher.initialised)
    (bare : s.fetcher.initialised = false → s.fetcher.Bare → s'.fetcher.Bare)
    (calls : s'.fetcher.calls = s.fetcher.calls.set k c') (idle : ¬ c'.Creates) : s'.Mirrors := by
  apply h.keep store config memory initialised bare
  intro n b found creates
  rw [calls] at found
  rcases getElem?_set_cases found with ⟨-, rfl⟩ | ⟨-, before⟩
  · exact absurd creates idle
  · exact ⟨n, before⟩

theorem mirrors_of_loaded (loaded : s.stored? = some s.fetcher.memory)
    (named : s.fetcher.memory.id = s.fetcher.config.id)
    (initialised : s.fetcher.initialised = true)
    (calls : ∀ (n : Nat) (b : Call γ), s.fetcher.calls[n]? = some b → ¬ b.Creates) : s.Mirrors := by
  refine ⟨?_, fun _ => loaded, ?_, fun n b found creates => absurd creates (calls n b found)⟩
  · intro state same
    rw [loaded] at same
    cases same
    exact named
  · intro new
    rw [initialised] at new
    cases new

theorem Mirrors.init (h : s.Mirrors) (guarded : s.fetcher.Guarded)
    (found : s.fetcher.calls[k]? = some c) (before : c.Holds ↔ i.Holds)
    (moves : i.Moves s a m i') (store : s'.store = m.store)
    (config : s'.fetcher.config = s.fetcher.config)
    (memory : s'.fetcher.memory = m.fetcher.memory)
    (initialised : s'.fetcher.initialised = m.fetcher.initialised)
    (bare : s'.fetcher.initialised = false → s.fetcher.Bare → s'.fetcher.Bare)
    (calls : s'.fetcher.calls = s.fetcher.calls.set k c') (after : c'.Creates → i'.Creates) :
    s'.Mirrors := by
  have others : ∀ (n : Nat) (b : Call γ), s'.fetcher.calls[n]? = some b → b.Creates →
      (n = k ∧ i'.Creates) ∨ (n ≠ k ∧ s.fetcher.calls[n]? = some b) := by
    intro n b set creates
    rw [calls] at set
    rcases getElem?_set_cases set with ⟨same, rfl⟩ | ⟨other, set⟩
    · exact Or.inl ⟨same, after creates⟩
    · exact Or.inr ⟨other, set⟩
  have quiet : m.store = s.store → m.fetcher.memory = s.fetcher.memory →
      m.fetcher.initialised = s.fetcher.initialised → (i'.Creates → s.stored? = none) →
      s'.Mirrors := by
    intro kept same loaded empty
    have here : s'.stored? = s.stored? := by rw [stored?, stored?, store, kept, config]
    refine ⟨?_, ?_, ?_, ?_⟩
    · rw [here, config]
      exact h.named
    · rw [here, memory, initialised, same, loaded]
      exact h.mirrored
    · intro new
      have before : s.fetcher.initialised = false := by rw [← loaded, ← initialised, new]
      rw [memory, same, config]
      exact ⟨(h.untouched before).1, bare new (h.untouched before).2⟩
    · intro n b set creates
      rw [here]
      rcases others n b set creates with ⟨-, creates⟩ | ⟨-, older⟩
      · exact empty creates
      · exact h.creating n b older creates
  cases moves with
  | lock free => exact quiet rfl rfl rfl (fun creates => by cases creates)
  | failed _ held e => exact quiet rfl rfl rfl (fun creates => by cases creates)
  | absent missing => exact quiet rfl rfl rfl (fun _ => missing)
  | found state stored =>
    refine mirrors_of_loaded ?_ ?_ initialised ?_
    · rw [stored?, store, config, memory]
      exact stored
    · rw [memory, config]
      exact h.named state stored
    · intro n b set creates
      rcases others n b set creates with ⟨-, creates⟩ | ⟨-, older⟩
      · cases creates
      · have empty := h.creating n b older creates
        rw [stored?, stored] at empty
        cases empty
  | created table state fresh saved =>
    have named : state.id = s.fetcher.config.id := by rw [fresh]; rfl
    refine mirrors_of_loaded ?_ ?_ initialised ?_
    · rw [stored?, store, config, memory]
      rw [saved, Table.get?_insert, if_pos named.symm]
      rfl
    · rw [memory, config]
      exact named
    · intro n b set creates
      rcases others n b set creates with ⟨-, creates⟩ | ⟨other, older⟩
      · cases creates
      · have same := guarded.alone (.call n) (.call k) ⟨b, older, creates.holds⟩
          ⟨c, found, before.mpr trivial⟩
        cases same
        exact absurd rfl other

theorem mirrors_of_call (h : s.Mirrors) (guarded : s.fetcher.Guarded)
    (found : s.fetcher.calls[k]? = some c) (moves : c.Moves now s a m c') :
    (m.setFetcher { m.fetcher with calls := m.fetcher.calls.set k c' }).Mirrors := by
  have loads : ∀ {c : Call γ} {i i' : Init γ} {m : System γ}, s.fetcher.calls[k]? = some c →
      (c.Holds ↔ i.Holds) → i.Moves s a m i' → (c'.Creates → i'.Creates) →
      (m.setFetcher { m.fetcher with calls := m.fetcher.calls.set k c' }).Mirrors := by
    intro c i i' m found before moves after
    obtain ⟨memory, initialised, locked, same⟩ := moves.frame
    refine h.init guarded found before moves rfl ?_ rfl rfl ?_ ?_ after
    · simp only [setFetcher, same]
    · simp only [setFetcher, same]
      exact fun _ bare => bare
    · simp only [setFetcher, same]
  have scheduled : ∀ {d : Direction} {l : Loop}, s.fetcher.loops.get d = some l →
      s.fetcher.initialised ≠ false := by
    intro d l found
    rw [h.initialised (Fetcher.not_bare_of_loop found)]
    simp
  cases moves with
  | init m i i' a moves => exact loads found Iff.rfl moves (fun p => p)
  | loading m i i' a moves => exact loads found Iff.rfl moves (fun p => p)
  | unloaded m i e a moves => exact loads found Iff.rfl moves (fun p => p)
  | loaded m i state a moves =>
    have loaded : m.fetcher.initialised = true := by cases moves <;> rfl
    obtain ⟨memory, initialised, locked, same⟩ := moves.frame
    refine h.init guarded found Iff.rfl moves rfl ?_ rfl rfl ?_ ?_
      (show (Call.run .published : Call γ).Creates → _ from fun p => p)
    · simp only [setFetcher, Fetcher.publish, same]
    · intro new
      exact absurd (loaded.symm.trans new) (by simp)
    · simp only [setFetcher, Fetcher.publish, same]
  | publish fresh go loaded =>
    refine h.setCall rfl rfl rfl rfl ?_ rfl (fun p => p)
    intro new
    exact absurd (loaded.symm.trans new) (by simp)
  | launch go =>
    refine h.setCall rfl rfl rfl rfl ?_ rfl (fun p => p)
    -- Without a loop there is no task to set off.
    intro _ bare d
    refine ⟨(bare d).1, ?_⟩
    cases d with
    | forward =>
      have absent : s.fetcher.loops.forward = none := (bare .forward).1
      simp [setFetcher, Fetcher.launch, Both.get, absent]
    | backward =>
      have absent : s.fetcher.loops.backward = none := (bare .backward).1
      simp [setFetcher, Fetcher.launch, Both.get, absent]
  | ask d rest l present =>
    exact h.setCall rfl rfl rfl rfl (fun new => absurd new (scheduled present)) rfl (fun p => p)
  | settle d rest l l' present settled =>
    exact h.setCall rfl rfl rfl rfl (fun new => absurd new (scheduled present)) rfl (fun p => p)
  | _ => exact h.setCall rfl rfl rfl rfl (fun _ bare => bare) rfl (fun p => p)

theorem Mirrors.setLoops (h : s.Mirrors) (scheduled : ¬ s.fetcher.Bare) (store : s'.store = s.store)
    (config : s'.fetcher.config = s.fetcher.config) (memory : s'.fetcher.memory = s.fetcher.memory)
    (initialised : s'.fetcher.initialised = s.fetcher.initialised)
    (calls : s'.fetcher.calls = s.fetcher.calls) : s'.Mirrors := by
  apply h.keep store config memory initialised
  · exact fun _ bare => absurd bare scheduled
  · intro k c found _
    rw [calls] at found
    exact ⟨k, found⟩

theorem Moves.mirrors [Cursor γ] (moves : Moves now s a s') (h : s.Mirrors)
    (regular : s.fetcher.Regular) (guarded : s.fetcher.Guarded) : s'.Mirrors := by
  have scheduled : ∀ {d : Direction} {t : Tick γ}, s.fetcher.ticks.get d = some t →
      ¬ s.fetcher.Bare := by
    intro d t found
    obtain ⟨l, -, present, -⟩ := regular.ticking d (by simp [found])
    exact Fetcher.not_bare_of_loop present
  cases moves with
  | call c new =>
    refine h.keep rfl rfl rfl rfl (fun _ bare => bare) ?_
    intro k b found creates
    rcases getElem?_concat_cases found with before | ⟨-, rfl⟩
    · exact ⟨k, before⟩
    · rcases new with rfl | rfl | rfl <;> cases creates
  | advance m k c c' a found moves => exact mirrors_of_call h guarded found moves
  | enter d jitter l l' effects tasks gate task found =>
    exact h.setLoops (Fetcher.not_bare_of_loop found) rfl rfl rfl rfl rfl
  | release t held =>
    refine h.setLoops (Fetcher.not_bare_of_task (d := .backward) ?_) rfl rfl rfl rfl rfl
    rw [Both.get, held]
    simp
  | loop d e l l' effects tasks gate found =>
    exact h.setLoops (Fetcher.not_bare_of_loop found) rfl rfl rfl rfl rfl
  | begin d clock l found =>
    exact h.setLoops (Fetcher.not_bare_of_loop found) rfl rfl rfl rfl rfl
  | answer d part l tick tick' lane found =>
    exact h.setLoops (scheduled found) rfl rfl rfl rfl rfl
  | lock d l work resume lane found => exact h.setLoops (scheduled found) rfl rfl rfl rfl rfl
  | failed d l next resume e lane found => exact h.setLoops (scheduled found) rfl rfl rfl rfl rfl
  | tickDone d result l l' effects tasks gate found =>
    exact h.setLoops (Fetcher.not_bare_of_loop found) rfl rfl rfl rfl rfl
  | saved d l next resume lane found =>
    have saves : s.fetcher.saves? d = some next := by
      rw [Fetcher.saves?, found]
      rfl
    have loaded := h.initialised (scheduled found)
    have named : next.id = s.fetcher.config.id :=
      ((guarded.based d next saves).1).trans (h.named _ (h.mirrored loaded))
    refine mirrors_of_loaded ?_ named loaded ?_
    · rw [stored?, Table.get?_insert, if_pos named.symm]
    · -- Who holds the lock is the tick, and not a call.
      intro n b found creates
      have same := guarded.alone (.call n) (.tick d) ⟨b, found, creates.holds⟩
        (Option.ne_none_iff_exists'.mpr ⟨next, saves⟩)
      cases same

/-- What a step of a call writes: nothing, or it takes over what is stored, or it stores a state
that begins. -/
inductive Writes (s m : System γ) (c : Call γ) : Prop
  | nothing (store : m.store = s.store) (memory : m.fetcher.memory = s.fetcher.memory)
      (initialised : m.fetcher.initialised = s.fetcher.initialised)
  | loads (stored : s.stored? = some m.fetcher.memory) (store : m.store = s.store)
      (initialised : m.fetcher.initialised = true)
  | creates (creates : c.Creates) (fresh : m.fetcher.memory = s.fetcher.config.freshState)
      (store : m.store = s.store.insert s.fetcher.config.id m.fetcher.memory)
      (initialised : m.fetcher.initialised = true)

theorem writes_of_call (moves : c.Moves now s a m c') : Writes s m c := by
  have init : ∀ {i i' : Init γ} {n : System γ}, (i.Creates → c.Creates) → i.Moves s a n i' →
      Writes s n c := by
    intro i i' n creates moves
    cases moves with
    | found state stored => exact .loads stored rfl rfl
    | created store state fresh saved =>
      refine .creates (creates trivial) fresh ?_ rfl
      rw [saved, fresh]
      rfl
    | _ => exact .nothing rfl rfl rfl
  cases moves with
  | init m i i' a moves => exact init (fun p => p) moves
  | loading m i i' a moves => exact init (fun p => p) moves
  | loaded n i state a moves =>
    -- The loops that are put up then are no part of what is kept.
    cases init (fun p => p) moves with
    | nothing store memory initialised => exact .nothing store memory initialised
    | loads stored store initialised => exact .loads stored store initialised
    | creates creates fresh store initialised => exact .creates creates fresh store initialised
  | unloaded m i e a moves => exact init (fun p => p) moves
  | _ => exact .nothing rfl rfl rfl

/-! ## Histories -/

structure Coherent (s : System γ) : Prop where
  regular : s.fetcher.Regular
  guarded : s.fetcher.Guarded
  mirrors : s.Mirrors

theorem coherent_of_new {c : Config} {store : Table (State γ)} (made : Fetcher.new c = .ok f)
    (named : ∀ state, store.get? c.id = some state → state.id = c.id) :
    (⟨store, f⟩ : System γ).Coherent := by
  obtain ⟨regular, same⟩ := regular_of_new made
  have bare := bare_of_new made
  refine ⟨regular, guarded_of_new made, ?_⟩
  unfold Fetcher.new at made
  split at made
  · cases made
  · cases made
    exact ⟨named, by simp, fun _ => ⟨rfl, bare⟩, by simp⟩

theorem initialised_of_new {c : Config} (made : Fetcher.new c = .ok f) :
    f.initialised = false := by
  unfold Fetcher.new at made
  split at made
  · cases made
  · cases made
    rfl

theorem Moves.coherent [Cursor γ] (moves : Moves now s a s') (h : s.Coherent) : s'.Coherent :=
  ⟨moves.regular h.regular, moves.guarded h.guarded, moves.mirrors h.mirrors h.regular h.guarded⟩

theorem Coherent.live [Cursor γ] (h : s.Coherent) {x : Turn γ} (lived : s.live now x = some s') :
    s'.Coherent ∧ s'.fetcher.config.id = s.fetcher.config.id := by
  cases x with
  | event e =>
    have moves := moves_of_step lived
    exact ⟨moves.coherent h, congrArg Config.id moves.config_eq⟩
  | restart c =>
    obtain ⟨f, made, same, rfl⟩ := live_restart_cases lived
    have config := (regular_of_new made).2
    refine ⟨coherent_of_new made ?_, ?_⟩
    · rw [same]
      exact h.mirrors.named
    · rw [config]
      exact same

theorem Coherent.lives [Cursor γ] {t : List (Nat × Turn γ)} (h : s.Coherent)
    (lived : s.lives t = some s') : s'.Coherent :=
  after_invariant (fun h lived => (Coherent.live h lived).1) h lived

theorem Coherent.ticks_eq_none (h : s.Coherent) (new : s.fetcher.initialised = false)
    (d : Direction) : s.fetcher.ticks.get d = none :=
  h.regular.ticks_eq_none ((h.mirrors.untouched new).2 d).1

theorem Coherent.initialised (h : s.Coherent) {t : Tick γ}
    (found : s.fetcher.ticks.get d = some t) : s.fetcher.initialised = true := by
  cases new : s.fetcher.initialised with
  | true => rfl
  | false =>
    rw [h.ticks_eq_none new d] at found
    cases found

/-! ## One tick -/

inductive Ticked [Cursor γ] (s : System γ) (d : Direction) : Act γ → Option (Tick γ) → Prop
  | kept (a : Act γ) (other : ∀ part, a ≠ .tick d part) : Ticked s d a (s.fetcher.ticks.get d)
  | begun (clock : Instant) (l : Loop) (found : s.fetcher.loops.get d = some l)
      (ready : l.stage = .ready) :
      Ticked s d (.tick d (.begin clock)) (some (s.fetcher.begun d clock))
  | answered (l : Lane) (t t' : Tick γ) (part : Part γ) (lane : s.fetcher.config.lane? d = some l)
      (found : s.fetcher.ticks.get d = some t) (next : t.next? l s.fetcher.memory part = some t') :
      Ticked s d (.tick d part) (some t')
  | back (result : Except Failure Schedule.Signal)
      (found : s.fetcher.ticks.get d = some (.done result)) : Ticked s d (.tick d .finish) none

theorem Moves.ticked [Cursor γ] (moves : Moves now s a s') (d : Direction) :
    s.Ticked d a (s'.fetcher.ticks.get d) := by
  -- The act is of the tick of direction `b`.
  have set : ∀ {b : Direction} {part : Part γ} {x : Option (Tick γ)}, s.Ticked b (.tick b part) x →
      s.Ticked d (.tick b part) ((s.fetcher.ticks.set b x).get d) := by
    intro b part x own
    by_cases same : b = d
    · subst same
      rw [Both.get_set_self]
      exact own
    · rw [Both.get_set_of_ne _ (Ne.symm same)]
      refine .kept _ fun part k => ?_
      cases k
      exact same rfl
  cases moves with
  | call | enter | release | loop => exact .kept _ (by simp)
  | advance m k c c' a found moves =>
    have other : ∀ part, a ≠ .tick d part := by
      rcases moves.memory_cases with ⟨rfl, -⟩ | ⟨state, rfl, -⟩ <;> simp
    have same : (m.setFetcher { m.fetcher with calls := m.fetcher.calls.set k c' }).fetcher.ticks =
        s.fetcher.ticks := moves.frame.2.1
    rw [same]
    exact .kept a other
  | begin b clock l found ready go => exact set (.begun clock l found ready)
  | answer b part l tick tick' lane found next =>
    exact set (.answered l tick tick' part lane found next)
  | lock b l work resume lane found => exact set (.answered l _ _ .lock lane found rfl)
  | failed b l next resume e lane found => exact set (.answered l _ _ _ lane found rfl)
  | saved b l next resume lane found => exact set (.answered l _ _ _ lane found rfl)
  | tickDone b result l l' effects tasks gate found finished => exact set (.back result finished)

/-! ## Ticks in a history -/

def noteOf? (s : System γ) (d : Direction) : Act γ → Option (Note γ)
  | .tick b part =>
    if b = d then
      match s.fetcher.config.lane? d, s.fetcher.loops.get d, s.fetcher.ticks.get d with
      | some l, some loop, some t => some (t.note l loop.context part)
      | _, _, _ => some (.part part)
    else none
  | _ => none

def note? [Cursor γ] (s : System γ) (d : Direction) : Turn γ → Option (Note γ)
  | .event e => s.noteOf? d (s.act e)
  | .restart _ => some .restart

def notes [Cursor γ] (s : System γ) (d : Direction) (t : List (Nat × Turn γ)) : List (Note γ) :=
  (labels live (note? · d) s t).filterMap id

theorem notes_cons [Cursor γ] {x : Turn γ} {t : List (Nat × Turn γ)} (h : s.live now x = some m) :
    s.notes d ((now, x) :: t) = (s.note? d x).toList ++ m.notes d t :=
  filterMap_labels_cons h

/-- What holds of a tick of direction `d` at each of its stages, by what was said of the direction
so far and by the state in memory. -/
structure Upheld [Cursor γ] (d : Direction) (P : List (Note γ) → State γ → Tick γ → Prop) :
    Prop where
  begin : ∀ {j l memory} clock, l.direction = d →
    P (j ++ [.part (.begin clock)]) memory (.start l memory clock)
  done : ∀ {j memory} result, P j memory (.done result)
  answer : ∀ {j l memory t part t'} context, l.direction = d → P j memory t →
    t.next? l memory part = some t' → part ≠ .saved none →
    P (j ++ [t.note l context part]) memory t'
  saved : ∀ {j l memory next resume}, l.direction = d → P j memory (.saving next resume) →
    P (j ++ [.part (.saved none)]) next (.saved l next resume none)
  half : ∀ {j memory memory' t}, memory.SameHalf d memory' → P j memory t → P j memory' t

theorem noteOf?_of_ne {b : Direction} (other : b ≠ d) (part : Part γ) :
    s.noteOf? d (.tick b part) = none := if_neg other

theorem noteOf?_of_other (other : ∀ part, a ≠ .tick d part) : s.noteOf? d a = none := by
  cases a with
  | tick b part => exact noteOf?_of_ne (fun same => other part (by rw [same])) part
  | _ => rfl

theorem noteOf?_begin (idle : s.fetcher.ticks.get d = none) (clock : Instant) :
    s.noteOf? d (.tick d (.begin clock)) = some (.part (.begin clock)) := by
  rw [noteOf?, if_pos rfl, idle]
  split
  · rename_i none
    cases none
  · rfl

theorem noteOf?_tick {l : Lane} {loop : Loop} {t : Tick γ}
    (lane : s.fetcher.config.lane? d = some l) (found : s.fetcher.loops.get d = some loop)
    (tick : s.fetcher.ticks.get d = some t) (part : Part γ) :
    s.noteOf? d (.tick d part) = some (t.note l loop.context part) := by
  rw [noteOf?, if_pos rfl, lane, found, tick]

theorem Coherent.memory_eq_of_call (h : s.Coherent) (loaded : s.fetcher.initialised = true)
    (found : s.fetcher.calls[k]? = some c) (moves : c.Moves now s a m c') :
    m.fetcher.memory = s.fetcher.memory := by
  have held := h.mirrors.mirrored loaded
  cases writes_of_call moves with
  | nothing store memory => exact memory
  | loads stored =>
    rw [held] at stored
    exact (Option.some.inj stored).symm
  | creates creates =>
    have missing := h.mirrors.creating k c found creates
    rw [held] at missing
    cases missing

/-- Once the state is loaded, nothing but the save of a tick changes what is in memory. -/
theorem Moves.memory_cases [Cursor γ] (moves : Moves now s a s') (h : s.Coherent)
    (loaded : s.fetcher.initialised = true) :
    (s'.fetcher.memory = s.fetcher.memory ∧ ∀ b, a ≠ .tick b (.saved none)) ∨
      ∃ b next resume, a = .tick b (.saved none) ∧
        s.fetcher.ticks.get b = some (.saving next resume) ∧ s'.fetcher.memory = next := by
  cases moves with
  | advance m k c c' a found moves =>
    have same : m.fetcher.memory = s.fetcher.memory := h.memory_eq_of_call loaded found moves
    refine Or.inl ⟨same, ?_⟩
    rcases moves.memory_cases with ⟨rfl, -⟩ | ⟨state, rfl, -⟩ <;> simp
  | answer b part l tick tick' lane found next free stays =>
    refine Or.inl ⟨rfl, ?_⟩
    rintro b ⟨⟩
    cases tick with
    | saving => cases free
    | _ => cases next
  | saved b l next resume lane found => exact Or.inr ⟨b, next, resume, rfl, found, rfl⟩
  | _ => exact Or.inl ⟨rfl, by simp⟩

def kept (s : System γ) : List (State γ) :=
  s.stored?.toList ++ if s.fetcher.initialised then [s.fetcher.memory] else []

theorem Coherent.mem_kept (h : s.Coherent) {state : State γ} :
    state ∈ s.kept ↔ s.stored? = some state := by
  rw [kept, List.mem_append, Option.mem_toList]
  constructor
  · rintro (stored | held)
    · exact stored
    · split at held
      · rename_i loaded
        rw [List.mem_singleton.mp held]
        exact h.mirrors.mirrored loaded
      · cases held
  · exact Or.inl

theorem Moves.initialised [Cursor γ] (moves : Moves now s a s')
    (loaded : s.fetcher.initialised = true) : s'.fetcher.initialised = true := by
  cases moves with
  | advance m k c c' a found moves =>
    change m.fetcher.initialised = true
    cases writes_of_call moves with
    | nothing store memory initialised => exact initialised.trans loaded
    | loads stored store initialised => exact initialised
    | creates creates fresh store initialised => exact initialised
  | _ => exact loaded

theorem initialised_of_lives [Cursor γ] {t : List (Nat × Turn γ)} (lived : s.lives t = some s')
    (one : ∀ x ∈ t, ∀ c, x.2 ≠ .restart c) (loaded : s.fetcher.initialised = true) :
    s'.fetcher.initialised = true := by
  induction t generalizing s with
  | nil =>
    cases lived
    exact loaded
  | cons x t ih =>
    obtain ⟨now, x⟩ := x
    obtain ⟨m, first, rest⟩ := after_cons_eq_some.mp lived
    refine ih rest (fun x hx => one x (List.mem_cons_of_mem _ hx)) ?_
    cases x with
    | event e => exact (moves_of_step first).initialised loaded
    | restart c => exact absurd rfl (one _ List.mem_cons_self c)

/-- What a turn makes of the stored state: nothing, or a call that has found none creates it, or a
tick saves it. -/
inductive Stores (s s' : System γ) : Turn γ → Prop
  | same {x : Turn γ} (same : s'.stored? = s.stored?) : Stores s s' x
  | created {x : Turn γ} (missing : s.stored? = none)
      (fresh : s'.stored? = some s.fetcher.config.freshState) : Stores s s' x
  | saved (d : Direction) (l : Lane) (next : State γ) (resume : Resume)
      (lane : s.fetcher.config.lane? d = some l)
      (tick : s.fetcher.ticks.get d = some (.saving next resume))
      (held : s.stored? = some s.fetcher.memory) (based : next.SameBut d s.fetcher.memory)
      (stored : s'.stored? = some next)
      (after : s'.fetcher.ticks.get d = some (.saved l next resume none)) :
      Stores s s' (.event (.saved d none))

theorem eq_saved_of_act [Cursor γ] {e : Event γ} (h : s.act e = .tick d (.saved none)) :
    e = .saved d none := by
  cases e with
  | saved b fault =>
    cases h
    rfl
  | advance b fault => exact absurd h (Act.ofLoad_ne_tick _ _ _)
  | turn b clock =>
    simp only [act] at h
    split at h
    · split at h <;> cases h
    · cases h
  | _ => cases h

theorem Coherent.stores [Cursor γ] {x : Turn γ} (h : s.Coherent) (lived : s.live now x = some s') :
    Stores s s' x := by
  cases x with
  | restart c =>
    obtain ⟨f, made, same, rfl⟩ := live_restart_cases lived
    have config := (regular_of_new made).2
    refine .same ?_
    rw [stored?, stored?, config, same]
  | event e =>
    have moves := moves_of_step lived
    generalize act : s.act e = a at moves
    cases moves with
    | advance m k c c' a found moves =>
      have config := moves.frame.1
      cases writes_of_call moves with
      | nothing store => exact .same (by simp only [stored?, setFetcher, store, config])
      | loads stored store => exact .same (by simp only [stored?, setFetcher, store, config])
      | creates creates fresh store =>
        refine .created (h.mirrors.creating k c found creates) ?_
        simp only [stored?, setFetcher, store, config, fresh]
        rw [Table.get?_insert, if_pos rfl]
    | saved d l next resume lane found =>
      have loaded := h.initialised found
      have held := h.mirrors.mirrored loaded
      have based := h.guarded.based d next (by rw [Fetcher.saves?, found]; rfl)
      have named : next.id = s.fetcher.config.id := based.1.trans (h.mirrors.named _ held)
      cases eq_saved_of_act act
      refine .saved d l next resume lane found held based ?_ (Both.get_set_self _ _ _)
      rw [stored?, Table.get?_insert, if_pos named.symm]
    | _ => exact .same rfl

section Upheld

variable [Cursor γ] {P : List (Note γ) → State γ → Tick γ → Prop} {j : List (Note γ)}

theorem Upheld.moves (u : Upheld d P) (h : s.Coherent)
    (holds : ∀ t, s.fetcher.ticks.get d = some t → P j s.fetcher.memory t)
    (moves : Moves now s a s') :
    ∀ t, s'.fetcher.ticks.get d = some t →
      P (j ++ (s.noteOf? d a).toList) s'.fetcher.memory t := by
  intro t tick
  have ticked := moves.ticked d
  generalize after : s'.fetcher.ticks.get d = x at ticked
  rw [after] at tick
  cases ticked with
  | kept a other =>
    have half : s.fetcher.memory.SameHalf d s'.fetcher.memory := by
      rcases moves.memory_cases h (h.initialised tick) with
        ⟨memory, -⟩ | ⟨b, next, resume, rfl, saving, memory⟩
      · rw [memory]
        exact ⟨rfl, rfl⟩
      · have saves : s.fetcher.saves? b = some next := by
          rw [Fetcher.saves?, saving]
          rfl
        have foreign : d ≠ b := fun same => other _ (by rw [same])
        obtain ⟨job, cursor⟩ := (h.guarded.based b next saves).2 d foreign
        rw [memory]
        exact ⟨job.symm, cursor.symm⟩
    rw [noteOf?_of_other other, Option.toList_none, List.append_nil]
    exact u.half half (holds t tick)
  | begun clock loop found ready =>
    have loaded := h.mirrors.initialised (Fetcher.not_bare_of_loop found)
    rcases moves.memory_cases h loaded with ⟨memory, -⟩ | ⟨_, _, _, k, -⟩
    · rw [noteOf?_begin (h.regular.ticks_eq_none_of_ready found ready), memory]
      rw [Fetcher.begun] at tick
      cases tick
      split
      · rename_i l lane
        exact u.begin clock (direction_of_lane? lane)
      · exact u.done _
    · cases k
  | answered l t₀ t' part lane found next =>
    cases tick
    obtain ⟨loop, -, present, -⟩ := h.regular.ticking d (by simp [found])
    rw [noteOf?_tick lane present found]
    rcases moves.memory_cases h (h.initialised found) with
      ⟨memory, quiet⟩ | ⟨b, state, resume, same, saving, memory⟩
    · rw [memory]
      exact u.answer _ (direction_of_lane? lane) (holds _ found) next fun k => quiet d (by rw [k])
    · cases same
      rw [saving] at found
      cases found
      cases next
      rw [memory]
      exact u.saved (direction_of_lane? lane) (holds _ saving)
  | back result found => cases tick

theorem Upheld.live {x : Turn γ} (u : Upheld d P) (h : s.Coherent)
    (holds : ∀ t, s.fetcher.ticks.get d = some t → P j s.fetcher.memory t)
    (lived : s.live now x = some s') :
    ∀ t, s'.fetcher.ticks.get d = some t →
      P (j ++ (s.note? d x).toList) s'.fetcher.memory t := by
  cases x with
  | event e => exact u.moves h holds (moves_of_step lived)
  | restart c =>
    intro t found
    have coherent := (h.live lived).1
    obtain ⟨f, made, -, rfl⟩ := live_restart_cases lived
    have loaded := coherent.initialised found
    rw [initialised_of_new made] at loaded
    cases loaded

/-- What each stage of a direction's ticks keeps holds of them in every history. -/
theorem Upheld.lives {t : List (Nat × Turn γ)} (u : Upheld d P) (h : s.Coherent)
    (holds : ∀ t, s.fetcher.ticks.get d = some t → P j s.fetcher.memory t)
    (lived : s.lives t = some s') :
    ∀ r, s'.fetcher.ticks.get d = some r → P (j ++ s.notes d t) s'.fetcher.memory r := by
  induction t generalizing s j with
  | nil =>
    cases lived
    simpa [notes, labels] using holds
  | cons x t ih =>
    obtain ⟨now, x⟩ := x
    obtain ⟨m, first, rest⟩ := after_cons_eq_some.mp lived
    rw [notes_cons first, ← List.append_assoc]
    exact ih (h.live first).1 (u.live h holds first) rest

end Upheld

end System
end ChainFetch.Fetch
