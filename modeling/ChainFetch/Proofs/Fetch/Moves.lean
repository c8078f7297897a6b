import ChainFetch.Fetch.Fetcher
import ChainFetch.Proofs.Schedule.Stages
import ChainFetch.Proofs.Trace
/-!
What one step of a fetcher can do, said once: a call takes one of the moves of `Call.Moves`, and the
system one of `System.Moves`, each with its `Act` upon the state that is kept. Main statement:
`moves_of_step`.
-/

namespace ChainFetch.Fetch

open Schedule (Loop Effect)

variable {γ : Type}

inductive Part (γ : Type)
  | begin (clock : Instant)
  | fetched (answer : Except Failure (Outcome γ))
  | merged (answer : Except Failure (Merge γ))
  | judged (answer : Except Failure Bool)
  | lock
  | saved (fault : Option StoreFailure)
  | finish

/-- What a step does to the state that is kept: a call takes one over from the store, or a tick goes
on. -/
inductive Act (γ : Type)
  | other
  | load (state : State γ)
  | tick (d : Direction) (part : Part γ)

namespace Tick

def next? [Cursor γ] (l : Lane) (memory : State γ) : Tick γ → Part γ → Option (Tick γ)
  | .fetching work, .fetched a => some (.fetched l work a)
  | .merging work outcome, .merged a => some (.merged l work outcome a)
  | .judging work paced newItems, .judged a => some (.judged l work paced newItems a)
  | .locking work resume, .lock => some (.locked l memory work resume)
  | .saving next resume, .saved fault => some (.saved l next resume fault)
  | _, _ => none

def saves? : Tick γ → Option (State γ)
  | .saving next _ => some next
  | _ => none

def Awaits : Tick γ → Prop
  | .saving _ _ => False
  | .done _ => False
  | _ => True

theorem Awaits.saves? {t : Tick γ} (h : t.Awaits) : t.saves? = none := by
  cases t with
  | saving next resume => exact h.elim
  | _ => rfl

theorem awaits_settle (l : Lane) (work : State γ) (error : Option Failure) (paced : Bool)
    (newItems : UInt64) : (settle l work error paced newItems).Awaits := by
  unfold settle
  split
  · trivial
  · split <;> trivial

theorem awaits_pace (l : Lane) (work : State γ) (outcome : Outcome γ) (error : Option Failure)
    (newItems : UInt64) : (pace l work outcome error newItems).Awaits := by
  unfold pace
  dsimp only
  split
  · trivial
  · exact awaits_settle _ _ _ _ _

theorem awaits_fetched (l : Lane) (work : State γ) (a : Except Failure (Outcome γ)) :
    (fetched l work a).Awaits := by
  rcases a with e | outcome
  · simp only [fetched]
    split
    · trivial
    · exact awaits_pace _ _ _ _ _
  · simp only [fetched]
    split
    · trivial
    · exact awaits_pace _ _ _ _ _

theorem awaits_merged [Cursor γ] (l : Lane) (work : State γ) (outcome : Outcome γ)
    (a : Except Failure (Merge γ)) : (merged l work outcome a).Awaits := by
  unfold merged
  split
  · exact awaits_pace _ _ _ _ _
  · exact awaits_pace _ _ _ _ _

theorem awaits_judged (l : Lane) (work : State γ) (paced : Bool) (newItems : UInt64)
    (a : Except Failure Bool) : (judged l work paced newItems a).Awaits := by
  unfold judged
  dsimp only
  split
  · split
    · exact awaits_settle _ _ _ _ _
    · trivial
  · exact awaits_settle _ _ _ _ _
  · exact awaits_settle _ _ _ _ _

theorem saves?_start (l : Lane) (memory : State γ) (clock : Instant) :
    (start l memory clock).saves? = none := by
  unfold start
  dsimp only
  split <;> rfl

theorem saves?_saved (l : Lane) (next : State γ) (resume : Resume) (fault : Option StoreFailure) :
    (saved l next resume fault).saves? = none := by
  unfold saved
  split <;> rfl

end Tick

/-! ## Calls -/

inductive Init.Moves : System γ → Init γ → Act γ → System γ → Init γ → Prop
  | lock (s : System γ) (free : s.fetcher.locked = false) :
      Init.Moves s .locking .other (s.setFetcher { s.fetcher with locked := true }) .reading
  | failed (s : System γ) (i : Init γ) (held : i = .reading ∨ i = .creating) (e : Failure) :
      Init.Moves s i .other (s.setFetcher { s.fetcher with locked := false }) (.done (.error e))
  | found (s : System γ) (state : State γ)
      (stored : s.store.get? s.fetcher.config.id = some state) :
      Init.Moves s .reading (.load state)
        (s.setFetcher { s.fetcher.hold state with initialised := true }) (.done (.ok state))
  | absent (s : System γ) (missing : s.store.get? s.fetcher.config.id = none) :
      Init.Moves s .reading .other s .creating
  | created (s : System γ) (store : Table (State γ)) (state : State γ)
      (fresh : state = s.fetcher.config.freshState)
      (saved : store = s.store.insert state.id state) :
      Init.Moves s .creating (.load state)
        ⟨store, { s.fetcher.hold state with initialised := true }⟩ (.done (.ok state))

inductive Call.Moves (now : Nat) : System γ → Call γ → Act γ → System γ → Call γ → Prop
  | init (s s' : System γ) (i i' : Init γ) (a : Act γ) (moves : i.Moves s a s' i') :
      Call.Moves now s (.init i) a s' (.init i')
  | reject (s : System γ) : Call.Moves now s (.run .entering) .other s (.run (.done none))
  | publish (s : System γ) (fresh : s.fetcher.started = false) (go : s.fetcher.stopAsked = false)
      (loaded : s.fetcher.initialised = true) :
      Call.Moves now s (.run .entering) .other
        (s.setFetcher (({ s.fetcher with started := true } : Fetcher γ).publish s.fetcher.memory))
        (.run .published)
  | load (s : System γ) (fresh : s.fetcher.started = false) (go : s.fetcher.stopAsked = false) :
      Call.Moves now s (.run .entering) .other
        (s.setFetcher { s.fetcher with started := true }) (.run (.loading .locking))
  | loading (s s' : System γ) (i i' : Init γ) (a : Act γ) (moves : i.Moves s a s' i') :
      Call.Moves now s (.run (.loading i)) a s' (.run (.loading i'))
  | loaded (s s' : System γ) (i : Init γ) (state : State γ) (a : Act γ)
      (moves : i.Moves s a s' (.done (.ok state))) :
      Call.Moves now s (.run (.loading i)) a (s'.setFetcher (s'.fetcher.publish state))
        (.run .published)
  | unloaded (s s' : System γ) (i : Init γ) (e : Failure) (a : Act γ)
      (moves : i.Moves s a s' (.done (.error e))) :
      Call.Moves now s (.run (.loading i)) a s' (.run (.done (some e)))
  | withdraw (s : System γ) : Call.Moves now s (.run .published) .other s (.run (.done none))
  | launch (s : System γ) (go : s.fetcher.stopAsked = false) :
      Call.Moves now s (.run .published) .other (s.setFetcher s.fetcher.launch) (.run .running)
  | ended (s : System γ) : Call.Moves now s (.run .running) .other s (.run (.done none))
  | mark (s : System γ) :
      Call.Moves now s (.stop .entering) .other
        (s.setFetcher { s.fetcher with stopAsked := true }) (.stop .collecting)
  | collect (s : System γ) :
      Call.Moves now s (.stop .collecting) .other s
        (.stop (Fetcher.stopNext (Direction.all.filter fun d => (s.fetcher.loops.get d).isSome)))
  | ask (s : System γ) (d : Direction) (rest : List Direction) (l : Loop)
      (found : s.fetcher.loops.get d = some l) :
      Call.Moves now s (.stop (.asking d rest)) .other
        (s.setFetcher { s.fetcher with
          loops := s.fetcher.loops.set d (some { l with stopAsked := true }) })
        (.stop (.settling d rest))
  | settle (s : System γ) (d : Direction) (rest : List Direction) (l l' : Loop)
      (found : s.fetcher.loops.get d = some l)
      (settled : l' = if l.status = .idle then { l with status := .finished } else l) :
      Call.Moves now s (.stop (.settling d rest)) .other
        (s.setFetcher { s.fetcher with loops := s.fetcher.loops.set d (some l') })
        (.stop (.joining d rest))
  | join (s : System γ) (d : Direction) (rest : List Direction) (l : Loop)
      (found : s.fetcher.loops.get d = some l) (finished : l.status = .finished) :
      Call.Moves now s (.stop (.joining d rest)) .other s (.stop (Fetcher.stopNext rest))

def Init.loads? (s : System γ) : Init γ → Option StoreFailure → Option (State γ)
  | .reading, none => s.store.get? s.fetcher.config.id
  | .creating, none => some s.fetcher.config.freshState
  | _, _ => none

def Call.loads? (s : System γ) (fault : Option StoreFailure) : Call γ → Option (State γ)
  | .init i => i.loads? s fault
  | .run (.loading i) => i.loads? s fault
  | _ => none

def Act.ofLoad : Option (State γ) → Act γ
  | some state => .load state
  | none => .other

theorem Act.ofLoad_ne_tick (state : Option (State γ)) (d : Direction) (part : Part γ) :
    ofLoad state ≠ .tick d part := by
  cases state <;> simp [ofLoad]

namespace System

variable {s s' s'' : System γ} {now k : Nat} {d : Direction} {fault : Option StoreFailure}

theorem init_moves_of_step {i i' : Init γ} (h : s.stepInit fault i = some (s', i')) :
    i.Moves s (.ofLoad (i.loads? s fault)) s' i' := by
  cases i with
  | locking =>
    simp only [stepInit] at h
    split at h
    · cases h
    · rename_i free
      cases h
      exact .lock s (by simpa using free)
  | reading =>
    cases fault with
    | some e =>
      cases h
      exact .failed s _ (Or.inl rfl) _
    | none =>
      simp only [stepInit] at h
      split at h
      · rename_i state found
        cases h
        rw [Init.loads?, found]
        exact .found s state found
      · rename_i absent
        cases h
        rw [Init.loads?, absent]
        exact .absent s absent
  | creating =>
    cases fault with
    | some e =>
      cases h
      exact .failed s _ (Or.inr rfl) _
    | none =>
      cases h
      exact .created s _ _ rfl rfl
  | done result => cases h

theorem run_moves_of_step {r r' : Run γ} (h : s.stepRun fault r = some (s', r')) :
    Call.Moves now s (.run r) (.ofLoad ((Call.run r).loads? s fault)) s' (.run r') := by
  cases r with
  | entering =>
    simp only [stepRun] at h
    split at h
    · cases h
      exact .reject s
    · rename_i new
      simp only [Bool.or_eq_true, not_or, Bool.not_eq_true] at new
      split at h
      · rename_i loaded
        cases h
        exact .publish s new.2 new.1 loaded
      · cases h
        exact .load s new.2 new.1
  | loading i =>
    obtain ⟨⟨m, i'⟩, stepped, h⟩ := Option.map_eq_some_iff.mp h
    have moves := init_moves_of_step stepped
    dsimp only at h
    split at h
    · cases h
      exact .loaded s m i _ _ moves
    · cases h
      exact .unloaded s _ i _ _ moves
    · cases h
      exact .loading s _ i _ _ moves
  | published =>
    simp only [stepRun] at h
    split at h
    · cases h
      exact .withdraw s
    · rename_i go
      cases h
      exact .launch s (by simpa using go)
  | running =>
    simp only [stepRun] at h
    split at h
    · cases h
      exact .ended s
    · cases h
  | done e => cases h

end System

namespace Fetcher

variable {f f' : Fetcher γ} {now : Nat} {clock : Instant} {d : Direction} {e : Schedule.Event}

theorem stepLoop_cases (h : f.stepLoop now clock d e = some f') :
    ∃ l l' effects, f.loops.get d = some l ∧ l.step now e = some (l', effects) ∧
      f' = effects.foldl (follow clock d) { f with loops := f.loops.set d (some l') } := by
  unfold stepLoop at h
  split at h
  · cases h
  · rename_i l found
    obtain ⟨⟨l', effects⟩, moved, rfl⟩ := Option.map_eq_some_iff.mp h
    exact ⟨l, l', effects, found, moved, rfl⟩

theorem foldl_follow_of_quiet {effects : List Effect} (quiet : ∀ c, .tick c ∉ effects) :
    ∃ tasks gate, effects.foldl (follow clock d) f = { f with tasks := tasks, gate := gate } ∧
      ∀ e, e ≠ d → tasks.get e = f.tasks.get e := by
  induction effects generalizing f with
  | nil => exact ⟨f.tasks, f.gate, rfl, fun _ _ => rfl⟩
  | cons effect effects ih =>
    have here : ∃ tasks gate, f.follow clock d effect = { f with tasks := tasks, gate := gate } ∧
        ∀ e, e ≠ d → tasks.get e = f.tasks.get e := by
      cases effect with
      | tick c => exact absurd List.mem_cons_self (quiet c)
      | firstSuccess =>
        simp only [follow]
        split
        · exact ⟨f.tasks, .opened, rfl, fun _ _ => rfl⟩
        · exact ⟨f.tasks, f.gate, rfl, fun _ _ => rfl⟩
      | sleep length => exact ⟨f.tasks, f.gate, rfl, fun _ _ => rfl⟩
      | returned =>
        simp only [follow]
        split
        · exact ⟨f.tasks.set d .done, .givenUp, rfl, fun e ne => Both.get_set_of_ne _ ne _⟩
        · exact ⟨f.tasks.set d .done, f.gate, rfl, fun e ne => Both.get_set_of_ne _ ne _⟩
    obtain ⟨tasks, gate, same, others⟩ := here
    obtain ⟨tasks', gate', same', others'⟩ :=
      ih (f := f.follow clock d effect) fun c h => quiet c (List.mem_cons_of_mem _ h)
    refine ⟨tasks', gate', ?_, ?_⟩
    · rw [List.foldl_cons, same', same]
    · intro e ne
      rw [others' e ne, same]
      exact others e ne

def begun (f : Fetcher γ) (d : Direction) (clock : Instant) : Tick γ :=
  match f.config.lane? d with
  | some l => .start l f.memory clock
  | none => .done (.error (.config (.unscheduled d.text f.config.id)))

theorem stepLoop_of_quiet
    (silent : ∀ (l l' : Loop) (effects : List Effect),
      l.step now e = some (l', effects) → effects = [])
    (h : f.stepLoop now clock d e = some f') :
    ∃ l l', f.loops.get d = some l ∧ l.step now e = some (l', []) ∧
      f' = { f with loops := f.loops.set d (some l') } := by
  obtain ⟨l, l', effects, found, moved, rfl⟩ := stepLoop_cases h
  cases silent l l' effects moved
  exact ⟨l, l', found, moved, rfl⟩

end Fetcher

namespace System

variable {s s' : System γ} {now k : Nat} {d : Direction} {fault : Option StoreFailure}

theorem stop_moves_of_step {f : Fetcher γ} {c c' : Stop}
    (h : stepStop now s.fetcher c = some (f, c')) :
    Call.Moves now s (.stop c) .other (s.setFetcher f) (.stop c') := by
  cases c with
  | entering =>
    cases h
    exact .mark s
  | collecting =>
    cases h
    exact .collect s
  | asking d rest =>
    obtain ⟨f', stepped, h⟩ := Option.map_eq_some_iff.mp h
    cases h
    obtain ⟨l, l', found, moved, rfl⟩ :=
      Fetcher.stepLoop_of_quiet (fun _ _ _ moved => (Loop.askStop_cases moved).2) stepped
    rw [(Loop.askStop_cases moved).1]
    exact .ask s d rest l found
  | settling d rest =>
    obtain ⟨f', stepped, h⟩ := Option.map_eq_some_iff.mp h
    cases h
    obtain ⟨l, l', found, moved, rfl⟩ :=
      Fetcher.stepLoop_of_quiet (fun _ _ _ moved => (Loop.settleStop_cases moved).2) stepped
    exact .settle s d rest l l' found (Loop.settleStop_cases moved).1
  | joining d rest =>
    obtain ⟨f', stepped, h⟩ := Option.map_eq_some_iff.mp h
    cases h
    obtain ⟨l, l', found, moved, rfl⟩ :=
      Fetcher.stepLoop_of_quiet (fun _ _ _ moved => (Loop.join_cases moved).2.2) stepped
    obtain ⟨finished, rfl, -⟩ := Loop.join_cases moved
    have same : s.fetcher.loops.set d (some l') = s.fetcher.loops := by
      rw [← found, Both.set_get_self]
    rw [same]
    exact .join s d rest l' found finished
  | done => cases h

theorem call_moves_of_step {c c' : Call γ} (h : s.stepCall now fault c = some (s', c')) :
    c.Moves now s (.ofLoad (c.loads? s fault)) s' c' := by
  cases c with
  | init i =>
    obtain ⟨⟨m, i'⟩, stepped, h⟩ := Option.map_eq_some_iff.mp h
    cases h
    exact .init s _ i i' _ (init_moves_of_step stepped)
  | run r =>
    obtain ⟨⟨m, r'⟩, stepped, h⟩ := Option.map_eq_some_iff.mp h
    cases h
    exact run_moves_of_step stepped
  | stop c =>
    obtain ⟨⟨f, c'⟩, stepped, h⟩ := Option.map_eq_some_iff.mp h
    cases h
    exact stop_moves_of_step stepped

/-! ## Moves of the system -/

def act (s : System γ) : Event γ → Act γ
  | .advance k fault => .ofLoad ((s.fetcher.calls[k]?).bind (·.loads? s fault))
  | .turn d clock =>
    match s.fetcher.loops.get d with
    | some l => if l.stopAsked then .other else .tick d (.begin clock)
    | none => .other
  | .fetched d a => .tick d (.fetched a)
  | .merged d a => .tick d (.merged a)
  | .judged d a => .tick d (.judged a)
  | .lock d => .tick d .lock
  | .saved d fault => .tick d (.saved fault)
  | .tickDone d => .tick d .finish
  | _ => .other

/-- What one step makes of a system. A call is made or goes on; a task enters its loop or is let
through the gate; a loop goes on or begins a tick; a tick takes an answer, takes the lock, has its
save fail or succeed, and comes back. -/
inductive Moves [Cursor γ] (now : Nat) : System γ → Act γ → System γ → Prop
  | call (s : System γ) (c : Call γ)
      (new : c = .init .locking ∨ c = .run .entering ∨ c = .stop .entering) :
      Moves now s .other (s.setFetcher { s.fetcher with calls := s.fetcher.calls ++ [c] })
  | advance (s m : System γ) (k : Nat) (c c' : Call γ) (a : Act γ)
      (found : s.fetcher.calls[k]? = some c) (moves : c.Moves now s a m c') :
      Moves now s a (m.setFetcher { m.fetcher with calls := m.fetcher.calls.set k c' })
  | enter (s : System γ) (d : Direction) (jitter : Duration) (l l' : Loop) (effects : List Effect)
      (tasks : Both Task) (gate : Gate) (task : s.fetcher.tasks.get d = .entering)
      (found : s.fetcher.loops.get d = some l)
      (moved : l.step now (.start jitter) = some (l', effects))
      (others : ∀ e, e ≠ d → tasks.get e = s.fetcher.tasks.get e) :
      Moves now s .other (s.setFetcher { s.fetcher with
        loops := s.fetcher.loops.set d (some l'), tasks := tasks, gate := gate })
  | release (s : System γ) (t : Task) (held : s.fetcher.tasks.backward = .held) :
      Moves now s .other (s.setFetcher (s.fetcher.setTask .backward t))
  | loop (s : System γ) (d : Direction) (e : Schedule.Event) (l l' : Loop) (effects : List Effect)
      (tasks : Both Task) (gate : Gate) (found : s.fetcher.loops.get d = some l)
      (begun : l.stage ≠ .unstarted) (own : ∀ result, e ≠ .tickDone result) (unasked : e ≠ .askStop)
      (moved : l.step now e = some (l', effects))
      (others : ∀ e, e ≠ d → tasks.get e = s.fetcher.tasks.get e) :
      Moves now s .other (s.setFetcher { s.fetcher with
        loops := s.fetcher.loops.set d (some l'), tasks := tasks, gate := gate })
  | begin (s : System γ) (d : Direction) (clock : Instant) (l : Loop)
      (found : s.fetcher.loops.get d = some l) (ready : l.stage = .ready)
      (go : l.stopAsked = false) :
      Moves now s (.tick d (.begin clock)) (s.setFetcher { s.fetcher with
        loops := s.fetcher.loops.set d (some { l with stage := .ticking now })
        ticks := s.fetcher.ticks.set d (some (s.fetcher.begun d clock)) })
  | answer (s : System γ) (d : Direction) (part : Part γ) (l : Lane) (tick tick' : Tick γ)
      (lane : s.fetcher.config.lane? d = some l) (found : s.fetcher.ticks.get d = some tick)
      (next : tick.next? l s.fetcher.memory part = some tick') (free : tick.saves? = none)
      (stays : tick'.saves? = none) :
      Moves now s (.tick d part) (s.setFetcher (s.fetcher.setTick d (some tick')))
  | lock (s : System γ) (d : Direction) (l : Lane) (work : State γ) (resume : Resume)
      (lane : s.fetcher.config.lane? d = some l)
      (found : s.fetcher.ticks.get d = some (.locking work resume))
      (free : s.fetcher.locked = false) :
      Moves now s (.tick d .lock) (s.setFetcher { s.fetcher with
        locked := true
        ticks := s.fetcher.ticks.set d (some (.locked l s.fetcher.memory work resume)) })
  | failed (s : System γ) (d : Direction) (l : Lane) (next : State γ) (resume : Resume)
      (e : StoreFailure) (lane : s.fetcher.config.lane? d = some l)
      (found : s.fetcher.ticks.get d = some (.saving next resume)) :
      Moves now s (.tick d (.saved (some e))) (s.setFetcher { s.fetcher with
        locked := false
        ticks := s.fetcher.ticks.set d (some (.saved l next resume (some e))) })
  | saved (s : System γ) (d : Direction) (l : Lane) (next : State γ) (resume : Resume)
      (lane : s.fetcher.config.lane? d = some l)
      (found : s.fetcher.ticks.get d = some (.saving next resume)) :
      Moves now s (.tick d (.saved none)) ⟨s.store.insert next.id next, { s.fetcher with
        memory := next
        locked := false
        ticks := s.fetcher.ticks.set d (some (.saved l next resume none)) }⟩
  | tickDone (s : System γ) (d : Direction) (result : Except Failure Schedule.Signal) (l l' : Loop)
      (effects : List Effect) (tasks : Both Task) (gate : Gate)
      (found : s.fetcher.loops.get d = some l)
      (finished : s.fetcher.ticks.get d = some (.done result))
      (moved : l.step now (.tickDone result) = some (l', effects))
      (others : ∀ e, e ≠ d → tasks.get e = s.fetcher.tasks.get e) :
      Moves now s (.tick d .finish) (s.setFetcher { s.fetcher with
        loops := s.fetcher.loops.set d (some l'), tasks := tasks, gate := gate
        ticks := s.fetcher.ticks.set d none })

/-! ## What each event does -/

theorem answer_cases {next : Lane → Tick γ → Option (Tick γ)} (h : s.answer d next = some s') :
    ∃ l tick tick', s.fetcher.config.lane? d = some l ∧ s.fetcher.ticks.get d = some tick ∧
      next l tick = some tick' ∧ s' = s.setFetcher (s.fetcher.setTick d (some tick')) := by
  unfold answer at h
  obtain ⟨l, lane, h⟩ := Option.bind_eq_some_iff.mp h
  obtain ⟨tick, found, h⟩ := Option.bind_eq_some_iff.mp h
  obtain ⟨tick', next, h⟩ := Option.bind_eq_some_iff.mp h
  cases h
  exact ⟨l, tick, tick', lane, found, next, rfl⟩

section Events

variable [Cursor γ]

theorem advance_cases (h : s.step now (.advance k fault) = some s') :
    ∃ c m c', s.fetcher.calls[k]? = some c ∧ s.stepCall now fault c = some (m, c') ∧
      s' = m.setFetcher { m.fetcher with calls := m.fetcher.calls.set k c' } := by
  obtain ⟨c, found, h⟩ := Option.bind_eq_some_iff.mp h
  obtain ⟨⟨m, c'⟩, stepped, h⟩ := Option.bind_eq_some_iff.mp h
  cases h
  exact ⟨c, m, c', found, stepped, rfl⟩

theorem enter_cases {jitter : Duration} (h : s.step now (.enter d jitter) = some s') :
    s.fetcher.tasks.get d = .entering ∧
      ∃ f, (s.fetcher.setTask d .looping).stepLoop now .epoch d (.start jitter) = some f ∧
        s' = s.setFetcher f := by
  obtain ⟨task, h⟩ := Option.ite_none_right_eq_some.mp h
  obtain ⟨f, stepped, rfl⟩ := Option.map_eq_some_iff.mp h
  exact ⟨task, f, stepped, rfl⟩

theorem release_cases (h : s.step now .release = some s') :
    s.fetcher.tasks.backward = .held ∧ s.fetcher.gate ≠ .closed ∧
      s' = s.setFetcher (s.fetcher.setTask .backward
        (if s.fetcher.gate = .opened then .entering else .done)) := by
  obtain ⟨held, h⟩ := Option.ite_none_right_eq_some.mp h
  split at h
  · cases h
  · rename_i opened
    cases h
    exact ⟨held, by simp [opened], by rw [if_pos opened]⟩
  · rename_i up
    cases h
    exact ⟨held, by simp [up], by rw [if_neg (by simp [up])]⟩

theorem fetched_cases {a : Except Failure (Outcome γ)} (h : s.step now (.fetched d a) = some s') :
    ∃ l work, s.fetcher.config.lane? d = some l ∧
      s.fetcher.ticks.get d = some (.fetching work) ∧
      s' = s.setFetcher (s.fetcher.setTick d (some (.fetched l work a))) := by
  obtain ⟨l, tick, tick', lane, found, next, rfl⟩ := answer_cases h
  split at next
  · cases next
    exact ⟨l, _, lane, found, rfl⟩
  · cases next

theorem merged_cases {a : Except Failure (Merge γ)} (h : s.step now (.merged d a) = some s') :
    ∃ l work outcome, s.fetcher.config.lane? d = some l ∧
      s.fetcher.ticks.get d = some (.merging work outcome) ∧
      s' = s.setFetcher (s.fetcher.setTick d (some (.merged l work outcome a))) := by
  obtain ⟨l, tick, tick', lane, found, next, rfl⟩ := answer_cases h
  split at next
  · cases next
    exact ⟨l, _, _, lane, found, rfl⟩
  · cases next

theorem judged_cases {a : Except Failure Bool} (h : s.step now (.judged d a) = some s') :
    ∃ l work paced newItems, s.fetcher.config.lane? d = some l ∧
      s.fetcher.ticks.get d = some (.judging work paced newItems) ∧
      s' = s.setFetcher (s.fetcher.setTick d (some (.judged l work paced newItems a))) := by
  obtain ⟨l, tick, tick', lane, found, next, rfl⟩ := answer_cases h
  split at next
  · cases next
    exact ⟨l, _, _, _, lane, found, rfl⟩
  · cases next

theorem lock_cases (h : s.step now (.lock d) = some s') :
    s.fetcher.locked = false ∧ ∃ l work resume, s.fetcher.config.lane? d = some l ∧
      s.fetcher.ticks.get d = some (.locking work resume) ∧
      s' = s.setFetcher { s.fetcher with
        locked := true
        ticks := s.fetcher.ticks.set d (some (.locked l s.fetcher.memory work resume)) } := by
  obtain ⟨free, h⟩ := Option.ite_none_left_eq_some.mp h
  obtain ⟨m, answered, rfl⟩ := Option.map_eq_some_iff.mp h
  obtain ⟨l, tick, tick', lane, found, next, rfl⟩ := answer_cases answered
  split at next
  · cases next
    exact ⟨by simpa using free, l, _, _, lane, found, rfl⟩
  · cases next

theorem saved_cases (h : s.step now (.saved d fault) = some s') :
    ∃ l next resume, s.fetcher.config.lane? d = some l ∧
      s.fetcher.ticks.get d = some (.saving next resume) ∧
      ((∃ e, fault = some e ∧ s' = s.setFetcher { s.fetcher with
          locked := false
          ticks := s.fetcher.ticks.set d (some (.saved l next resume (some e))) }) ∨
        (fault = none ∧ s' = ⟨s.store.insert next.id next, { s.fetcher with
          memory := next
          locked := false
          ticks := s.fetcher.ticks.set d (some (.saved l next resume none)) }⟩)) := by
  simp only [step] at h
  split at h
  · rename_i next resume found
    obtain ⟨m, answered, h⟩ := Option.map_eq_some_iff.mp h
    obtain ⟨l, tick, tick', lane, found', stage, rfl⟩ := answer_cases answered
    cases stage
    cases fault with
    | none =>
      cases h
      exact ⟨l, next, resume, lane, found, Or.inr ⟨rfl, rfl⟩⟩
    | some e =>
      cases h
      exact ⟨l, next, resume, lane, found, Or.inl ⟨e, rfl, rfl⟩⟩
  · cases h

theorem tickDone_cases (h : s.step now (.tickDone d) = some s') :
    ∃ result f, s.fetcher.ticks.get d = some (.done result) ∧
      (s.fetcher.setTick d none).stepLoop now .epoch d (.tickDone result) = some f ∧
      s' = s.setFetcher f := by
  simp only [step] at h
  split at h
  · rename_i result finished
    obtain ⟨f, stepped, rfl⟩ := Option.map_eq_some_iff.mp h
    exact ⟨result, f, finished, stepped, rfl⟩
  · cases h

end Events

theorem moves_of_loop [Cursor γ] (d : Direction) {clock : Instant} {e : Schedule.Event}
    {l l' : Loop} {effects : List Effect} (found : s.fetcher.loops.get d = some l)
    (begun : l.stage ≠ .unstarted) (own : ∀ result, e ≠ .tickDone result) (unasked : e ≠ .askStop)
    (moved : l.step now e = some (l', effects)) (quiet : ∀ c, .tick c ∉ effects) :
    Moves now s .other (s.setFetcher (effects.foldl (Fetcher.follow clock d)
      { s.fetcher with loops := s.fetcher.loops.set d (some l') })) := by
  obtain ⟨tasks, gate, same, others⟩ := Fetcher.foldl_follow_of_quiet quiet
  rw [same]
  exact .loop s d e l l' effects tasks gate found begun own unasked moved others

section Steps

variable [Cursor γ]

theorem moves_of_call {kind : CallKind} (h : s.step now (.call kind) = some s') :
    Moves now s .other s' := by
  cases kind with
  | init =>
    cases h
    exact .call s _ (Or.inl rfl)
  | run =>
    cases h
    exact .call s _ (Or.inr (Or.inl rfl))
  | stop =>
    cases h
    exact .call s _ (Or.inr (Or.inr rfl))

theorem moves_of_enter {jitter : Duration} (h : s.step now (.enter d jitter) = some s') :
    Moves now s .other s' := by
  obtain ⟨task, f, stepped, rfl⟩ := enter_cases h
  obtain ⟨l, l', effects, found, moved, rfl⟩ := Fetcher.stepLoop_cases stepped
  have quiet := Loop.quiet_of_ne_turn (by simp) (by simp) moved
  obtain ⟨tasks, gate, same, others⟩ := Fetcher.foldl_follow_of_quiet quiet
  rw [same]
  refine .enter s d jitter l l' effects tasks gate task found moved ?_
  intro e ne
  rw [others e ne]
  exact Both.get_set_of_ne _ ne _

theorem moves_of_turn {clock : Instant} (h : s.step now (.turn d clock) = some s') :
    Moves now s (s.act (.turn d clock)) s' := by
  obtain ⟨f, stepped, rfl⟩ := Option.map_eq_some_iff.mp h
  obtain ⟨l, l', effects, found, moved, rfl⟩ := Fetcher.stepLoop_cases stepped
  obtain ⟨ready, ⟨stop, same⟩ | ⟨go, rfl, rfl⟩⟩ := Loop.turn_cases moved
  · have quiet : ∀ c, .tick c ∉ effects := by
      cases same
      simp
    have other : s.act (.turn d clock) = .other := by
      simp only [act, found]
      exact if_pos stop
    rw [other]
    exact moves_of_loop d found (by simp [ready]) (by simp) (by simp) moved quiet
  · have begins : s.act (.turn d clock) = .tick d (.begin clock) := by
      simp [act, found, go]
    rw [begins]
    exact .begin s d clock l found ready go

/-- An event at which a loop goes on that has begun, but neither comes to its top nor sees a tick
come back. -/
theorem moves_of_going {e : Schedule.Event}
    (begun : ∀ {l l' : Loop} {effects}, l.step now e = some (l', effects) → l.stage ≠ .unstarted)
    (other : e ≠ .turn) (own : ∀ result, e ≠ .tickDone result) (unasked : e ≠ .askStop)
    (h : (s.fetcher.stepLoop now .epoch d e).map s.setFetcher = some s') :
    Moves now s .other s' := by
  obtain ⟨f, stepped, rfl⟩ := Option.map_eq_some_iff.mp h
  obtain ⟨l, l', effects, found, moved, rfl⟩ := Fetcher.stepLoop_cases stepped
  exact moves_of_loop d found (begun moved) own unasked moved
    (Loop.quiet_of_ne_turn own other moved)

theorem moves_of_tickDone (h : s.step now (.tickDone d) = some s') :
    Moves now s (.tick d .finish) s' := by
  obtain ⟨result, f, finished, stepped, rfl⟩ := tickDone_cases h
  obtain ⟨l, l', effects, found, moved, rfl⟩ := Fetcher.stepLoop_cases stepped
  obtain ⟨-, -, quiet, -⟩ := Loop.tickDone_cases moved
  obtain ⟨tasks, gate, same, others⟩ := Fetcher.foldl_follow_of_quiet quiet
  rw [same]
  exact .tickDone s d result l l' effects tasks gate found finished moved others

/-- Whatever a system does in a step is one of its moves. -/
theorem moves_of_step {e : Event γ} (h : s.step now e = some s') : Moves now s (s.act e) s' := by
  cases e with
  | call kind => exact moves_of_call h
  | advance k fault =>
    obtain ⟨c, m, c', found, stepped, rfl⟩ := advance_cases h
    rw [act, found, Option.bind_some]
    exact .advance s m k c c' _ found (call_moves_of_step stepped)
  | enter d jitter => exact moves_of_enter h
  | release =>
    obtain ⟨held, -, rfl⟩ := release_cases h
    exact .release s _ held
  | turn d clock => exact moves_of_turn h
  | timeout d =>
    refine moves_of_going (fun moved => ?_) (by simp) (by simp) (by simp) h
    obtain ⟨_, _, _, waiting, -⟩ := Loop.timeout_cases moved
    simp [waiting]
  | interrupt d =>
    refine moves_of_going (fun moved => ?_) (by simp) (by simp) (by simp) h
    obtain ⟨_, _, _, waiting, -⟩ := Loop.interrupt_cases moved
    simp [waiting]
  | fetched d a =>
    obtain ⟨l, work, lane, found, rfl⟩ := fetched_cases h
    exact .answer s d _ l _ _ lane found rfl rfl (Tick.awaits_fetched _ _ _).saves?
  | merged d a =>
    obtain ⟨l, work, outcome, lane, found, rfl⟩ := merged_cases h
    exact .answer s d _ l _ _ lane found rfl rfl (Tick.awaits_merged _ _ _ _).saves?
  | judged d a =>
    obtain ⟨l, work, paced, newItems, lane, found, rfl⟩ := judged_cases h
    exact .answer s d _ l _ _ lane found rfl rfl (Tick.awaits_judged _ _ _ _ _).saves?
  | lock d =>
    obtain ⟨free, l, work, resume, lane, found, rfl⟩ := lock_cases h
    exact .lock s d l work resume lane found free
  | saved d fault =>
    obtain ⟨l, next, resume, lane, found, ⟨e, rfl, rfl⟩ | ⟨rfl, rfl⟩⟩ := saved_cases h
    · exact .failed s d l next resume e lane found
    · exact .saved s d l next resume lane found
  | tickDone d => exact moves_of_tickDone h

end Steps

def acts [Cursor γ] (s : System γ) (t : List (Nat × Event γ)) : List (Act γ) := labels step act s t

end System
end ChainFetch.Fetch
