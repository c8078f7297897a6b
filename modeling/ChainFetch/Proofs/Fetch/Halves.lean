import ChainFetch.Proofs.Fetch.Locking
/-!
No update of one direction is lost to the other. What a run does is taken apart into the moves of
each direction, and the moves of one direction alone are folded over a state of their own. Main
statements: `Agree.run`, the run and the fold agree on the direction's half, and `sameBut_of_saved`,
a save leaves the other half alone.
-/

namespace ChainFetch.Fetch

open Schedule (Loop)

variable {γ : Type}

/-! ## One half of the state -/

namespace State

variable {d e : Direction} {s t : State γ}

theorem SameHalf.setJob (h : s.SameHalf d t) (j : Job) :
    (s.setJob d j).SameHalf d (t.setJob d j) := by
  refine ⟨?_, h.2⟩
  rw [job, job, State.setJob, State.setJob, Both.get_set_self, Both.get_set_self]

theorem SameHalf.setCursor (h : s.SameHalf d t) (c : Option γ) :
    (s.setCursor d c).SameHalf d (t.setCursor d c) := by
  refine ⟨h.1, ?_⟩
  rw [cursor, cursor, State.setCursor, State.setCursor, Both.get_set_self, Both.get_set_self]

theorem SameHalf.setFrequency (h : s.SameHalf d t) (i : Duration) :
    (s.setFrequency d i).SameHalf d (t.setFrequency d i) := by
  rw [State.setFrequency, State.setFrequency, h.1]
  exact h.setJob _

theorem SameHalf.applyMerge [Cursor γ] (h : s.SameHalf d t) (m : Merge γ) :
    (s.applyMerge d m).SameHalf d (t.applyMerge d m) := by
  rw [State.applyMerge, State.applyMerge, h.1, h.2]
  exact (h.setCursor _).setJob _

theorem SameHalf.adopt (h : s.SameHalf d t) (m m' : State γ) :
    (m.adopt s d).SameHalf d (m'.adopt t d) := by
  refine ⟨?_, ?_⟩
  · rw [job_adopt_self, job_adopt_self]
    exact h.1
  · rw [cursor_adopt_self, cursor_adopt_self]
    exact h.2

end State

namespace Tick

/-- Two ticks at one stage, with copies of the state that have one half in common. -/
inductive Agrees (d : Direction) : Tick γ → Tick γ → Prop
  | fetching {v w : State γ} (same : v.SameHalf d w) : Agrees d (.fetching v) (.fetching w)
  | merging {v w : State γ} (same : v.SameHalf d w) (outcome : Outcome γ) :
      Agrees d (.merging v outcome) (.merging w outcome)
  | judging {v w : State γ} (same : v.SameHalf d w) (paced : Bool) (newItems : UInt64) :
      Agrees d (.judging v paced newItems) (.judging w paced newItems)
  | locking {v w : State γ} (same : v.SameHalf d w) (resume : Resume) :
      Agrees d (.locking v resume) (.locking w resume)
  | saving {v w : State γ} (same : v.SameHalf d w) (resume : Resume) :
      Agrees d (.saving v resume) (.saving w resume)
  | done (result : Except Failure Schedule.Signal) : Agrees d (.done result) (.done result)

variable {l : Lane} {m v w : State γ} {t t' u : Tick γ} {part : Part γ}

theorem agrees_refl {d : Direction} (t : Tick γ) : t.Agrees d t := by
  cases t with
  | fetching work => exact .fetching ⟨rfl, rfl⟩
  | merging work outcome => exact .merging ⟨rfl, rfl⟩ outcome
  | judging work paced newItems => exact .judging ⟨rfl, rfl⟩ paced newItems
  | locking work resume => exact .locking ⟨rfl, rfl⟩ resume
  | saving next resume => exact .saving ⟨rfl, rfl⟩ resume
  | done result => exact .done result

theorem agrees_start {m' : State γ} (same : m.SameHalf l.direction m') (clock : Instant) :
    (start l m clock).Agrees l.direction (start l m' clock) := by
  simp only [start, same.1]
  split
  · exact .done _
  · exact .fetching (same.setJob _)

theorem agrees_settle (same : v.SameHalf l.direction w) (error : Option Failure) (paced : Bool)
    (newItems : UInt64) :
    (settle l v error paced newItems).Agrees l.direction (settle l w error paced newItems) := by
  unfold settle
  split
  · exact .locking same _
  · rw [same.1]
    split
    · exact .locking (same.setFrequency _) _
    · exact .locking (same.setFrequency _) _
    · exact .locking same _
    · exact .locking same _

theorem agrees_pace (same : v.SameHalf l.direction w) (outcome : Outcome γ)
    (error : Option Failure) (newItems : UInt64) :
    (pace l v outcome error newItems).Agrees l.direction (pace l w outcome error newItems) := by
  cases explicit : outcome.explicitInterval with
  | none =>
    simp only [pace, explicit]
    split
    · exact .judging same _ _
    · exact agrees_settle same _ _ _
  | some i =>
    simp only [pace, explicit]
    split
    · exact .judging (same.setFrequency _) _ _
    · exact agrees_settle (same.setFrequency _) _ _ _

theorem agrees_fetched (same : v.SameHalf l.direction w) (a : Except Failure (Outcome γ)) :
    (fetched l v a).Agrees l.direction (fetched l w a) := by
  rcases a with e | outcome
  · simp only [fetched]
    split
    · exact .merging same _
    · exact agrees_pace same _ _ _
  · simp only [fetched]
    split
    · exact .merging same _
    · exact agrees_pace same _ _ _

theorem agrees_merged [Cursor γ] (same : v.SameHalf l.direction w) (outcome : Outcome γ)
    (a : Except Failure (Merge γ)) :
    (merged l v outcome a).Agrees l.direction (merged l w outcome a) := by
  rcases a with e | merge
  · exact agrees_pace same _ _ _
  · exact agrees_pace (same.applyMerge merge) _ _ _

theorem agrees_judged (same : v.SameHalf l.direction w) (paced : Bool) (newItems : UInt64)
    (a : Except Failure Bool) :
    (judged l v paced newItems a).Agrees l.direction (judged l w paced newItems a) := by
  rcases a with e | complete
  · exact agrees_settle same (some e) paced newItems
  · cases complete
    · exact agrees_settle same _ _ _
    · simp only [judged, same.1]
      split
      · exact agrees_settle (same.setJob _) _ _ _
      · exact .locking (same.setJob _) _

theorem agrees_saved (same : v.SameHalf l.direction w) (resume : Resume)
    (fault : Option StoreFailure) :
    (saved l v resume fault).Agrees l.direction (saved l w resume fault) := by
  cases fault with
  | some e => exact .done _
  | none =>
    cases resume with
    | again => exact .fetching same
    | finish error signal =>
      cases error with
      | some e => exact .done _
      | none =>
        simp only [saved, same.1]
        exact .done _

/-- Ticks that agree go on alike, whatever the other half of the state is. -/
theorem Agrees.next? [Cursor γ] (h : t.Agrees l.direction u) (m' : State γ)
    (next : t.next? l m part = some t') :
    ∃ u', u.next? l m' part = some u' ∧ t'.Agrees l.direction u' := by
  cases h with
  | fetching same =>
    cases part with
    | fetched a =>
      cases next
      exact ⟨_, rfl, agrees_fetched same a⟩
    | _ => cases next
  | merging same outcome =>
    cases part with
    | merged a =>
      cases next
      exact ⟨_, rfl, agrees_merged same outcome a⟩
    | _ => cases next
  | judging same paced newItems =>
    cases part with
    | judged a =>
      cases next
      exact ⟨_, rfl, agrees_judged same paced newItems a⟩
    | _ => cases next
  | locking same resume =>
    cases part with
    | lock =>
      cases next
      exact ⟨_, rfl, .saving (same.adopt m m') resume⟩
    | _ => cases next
  | saving same resume =>
    cases part with
    | saved fault =>
      cases next
      exact ⟨_, rfl, agrees_saved same resume fault⟩
    | _ => cases next
  | done result => cases part <;> cases next

end Tick

/-! ## One direction alone -/

inductive Move (γ : Type)
  | load (state : State γ)
  | tick (part : Part γ)

/-- One direction alone with a state of its own. -/
structure Solo (γ : Type) where
  memory : State γ
  tick : Option (Tick γ) := none

namespace Solo

def step [Cursor γ] (l : Lane) (w : Solo γ) : Move γ → Option (Solo γ)
  | .load state => some { w with memory := state }
  | .tick (.begin clock) =>
    match w.tick with
    | none => some { w with tick := some (.start l w.memory clock) }
    | some _ => none
  | .tick .finish =>
    match w.tick with
    | some (.done _) => some { w with tick := none }
    | _ => none
  | .tick (.saved none) =>
    match w.tick with
    | some (.saving next resume) => some ⟨next, some (.saved l next resume none)⟩
    | _ => none
  | .tick part =>
    match w.tick with
    | some t => (t.next? l w.memory part).map fun t' => { w with tick := some t' }
    | none => none

def run [Cursor γ] (l : Lane) (w : Solo γ) (moves : List (Move γ)) : Option (Solo γ) :=
  moves.foldlM (step l) w

variable {l : Lane} {w w' : Solo γ}

theorem step_answer [Cursor γ] {t t' : Tick γ} {part : Part γ} (found : w.tick = some t)
    (next : t.next? l w.memory part = some t') (open' : part ≠ .saved none) :
    w.step l (.tick part) = some { w with tick := some t' } := by
  cases part with
  | begin clock => cases t <;> cases next
  | finish => cases t <;> cases next
  | saved fault =>
    cases fault with
    | none => exact absurd rfl open'
    | some e => simp only [step, found, next, Option.map_some]
  | fetched | merged | judged | lock => simp only [step, found, next, Option.map_some]

end Solo

def Act.move? (d : Direction) : Act γ → Option (Move γ)
  | .other => none
  | .load state => some (.load state)
  | .tick e part => if e = d then some (.tick part) else none

theorem Call.Moves.memory_cases {s s' : System γ} {c c' : Call γ} {a : Act γ} {now : Nat}
    (m : c.Moves now s a s' c') :
    (a = .other ∧ s'.fetcher.memory = s.fetcher.memory) ∨
      ∃ state, a = .load state ∧ s'.fetcher.memory = state := by
  have init : ∀ {s' : System γ} {i i' : Init γ}, i.Moves s a s' i' →
      (a = .other ∧ s'.fetcher.memory = s.fetcher.memory) ∨
        ∃ state, a = .load state ∧ s'.fetcher.memory = state := by
    intro s' i i' moves
    cases moves with
    | found state => exact Or.inr ⟨state, rfl, rfl⟩
    | created store state => exact Or.inr ⟨state, rfl, rfl⟩
    | _ => exact Or.inl ⟨rfl, rfl⟩
  cases m with
  | init _ _ _ _ moves => exact init moves
  | loading _ _ _ _ moves => exact init moves
  | loaded m i state a moves =>
    have written := init moves
    exact written
  | unloaded _ _ _ _ moves => exact init moves
  | _ => exact Or.inl ⟨rfl, rfl⟩

namespace System

variable {s s' m : System γ} {now : Nat} {a : Act γ} {d : Direction} {l : Lane} {w : Solo γ}
  {t u : List (Nat × Event γ)}

structure Agree (d : Direction) (s : System γ) (w : Solo γ) : Prop where
  half : s.fetcher.memory.SameHalf d w.memory
  tick : Option.Rel (Tick.Agrees d) (s.fetcher.ticks.get d) w.tick

theorem Agree.congr (h : s.Agree d w) (memory : s'.fetcher.memory.SameHalf d s.fetcher.memory)
    (ticks : s'.fetcher.ticks.get d = s.fetcher.ticks.get d) : s'.Agree d w := by
  refine ⟨⟨memory.1.trans h.half.1, memory.2.trans h.half.2⟩, ?_⟩
  rw [ticks]
  exact h.tick

theorem Agree.tick_eq_none (h : s.Agree d w) (idle : s.fetcher.ticks.get d = none) :
    w.tick = none := by
  have tick := h.tick
  rw [idle] at tick
  cases alone : w.tick with
  | none => rfl
  | some t =>
    rw [alone] at tick
    cases tick

theorem Agree.exists_tick (h : s.Agree d w) {t : Tick γ} (found : s.fetcher.ticks.get d = some t) :
    ∃ u, w.tick = some u ∧ t.Agrees d u := by
  have tick := h.tick
  rw [found] at tick
  cases alone : w.tick with
  | none =>
    rw [alone] at tick
    cases tick
  | some u =>
    rw [alone] at tick
    cases tick with
    | some agrees => exact ⟨u, rfl, agrees⟩

theorem run_toList_some [Cursor γ] {w' : Solo γ} {move : Move γ} (h : w.step l move = some w') :
    w.run l (some move).toList = some w' := by
  simp [Solo.run, h]

theorem move?_of_ne {e : Direction} {part : Part γ} (ne : e ≠ d) :
    (Act.tick e part).move? d = none := if_neg ne

theorem move?_self {part : Part γ} : (Act.tick d part).move? d = some (.tick part) := if_pos rfl

theorem Agree.answer [Cursor γ] {e : Direction} {k : Lane} {t t' : Tick γ} {part : Part γ}
    (h : s.Agree l.direction w) (lane : s.fetcher.config.lane? l.direction = some l)
    (laned : s.fetcher.config.lane? e = some k) (found : s.fetcher.ticks.get e = some t)
    (next : t.next? k s.fetcher.memory part = some t') (writes : part ≠ .saved none)
    (locked : Bool) :
    ∃ w', w.run l ((Act.tick e part).move? l.direction).toList = some w' ∧
      (s.setFetcher { s.fetcher with
        locked := locked
        ticks := s.fetcher.ticks.set e (some t') }).Agree l.direction w' := by
  by_cases same : e = l.direction
  · subst same
    rw [lane] at laned
    cases laned
    obtain ⟨u, alone, agrees⟩ := h.exists_tick found
    obtain ⟨u', next', agrees'⟩ := agrees.next? w.memory next
    rw [move?_self]
    refine ⟨{ w with tick := some u' }, ?_, h.half, ?_⟩
    · exact run_toList_some (Solo.step_answer alone next' writes)
    · rw [setFetcher, Both.get_set_self]
      exact .some agrees'
  · rw [move?_of_ne same]
    exact ⟨w, rfl, h.congr ⟨rfl, rfl⟩ (Both.get_set_of_ne _ (Ne.symm same) _)⟩

theorem Agree.stay [Cursor γ] (h : s.Agree l.direction w) (foreign : a.move? l.direction = none)
    (memory : s'.fetcher.memory.SameHalf l.direction s.fetcher.memory)
    (ticks : s'.fetcher.ticks.get l.direction = s.fetcher.ticks.get l.direction) :
    ∃ w', w.run l (a.move? l.direction).toList = some w' ∧ s'.Agree l.direction w' := by
  rw [foreign]
  exact ⟨w, rfl, h.congr memory ticks⟩

theorem Agree.load [Cursor γ] (h : s.Agree l.direction w)
    (ticks : s'.fetcher.ticks.get l.direction = s.fetcher.ticks.get l.direction) :
    ∃ w', w.run l ((Act.load s'.fetcher.memory).move? l.direction).toList = some w' ∧
      s'.Agree l.direction w' := by
  refine ⟨{ w with memory := s'.fetcher.memory }, rfl, ⟨rfl, rfl⟩, ?_⟩
  rw [ticks]
  exact h.tick

theorem Agree.begin [Cursor γ] (h : s.Agree l.direction w)
    (lane : s.fetcher.config.lane? l.direction = some l)
    (idle : s.fetcher.ticks.get l.direction = none) (clock : Instant)
    (memory : s'.fetcher.memory = s.fetcher.memory)
    (ticks : s'.fetcher.ticks.get l.direction = some (s.fetcher.begun l.direction clock)) :
    ∃ w', w.run l ((Act.tick l.direction (.begin clock)).move? l.direction).toList = some w' ∧
      s'.Agree l.direction w' := by
  have alone := h.tick_eq_none idle
  rw [move?_self]
  refine ⟨{ w with tick := some (.start l w.memory clock) }, ?_, memory ▸ h.half, ?_⟩
  · apply run_toList_some
    simp only [Solo.step, alone]
  · rw [ticks, Fetcher.begun, lane]
    exact .some (Tick.agrees_start h.half clock)

theorem Agree.save [Cursor γ] {next : State γ} {resume : Resume} (h : s.Agree l.direction w)
    (found : s.fetcher.ticks.get l.direction = some (.saving next resume))
    (memory : s'.fetcher.memory = next)
    (ticks : s'.fetcher.ticks.get l.direction = some (.saved l next resume none)) :
    ∃ w', w.run l ((Act.tick l.direction (.saved none)).move? l.direction).toList = some w' ∧
      s'.Agree l.direction w' := by
  obtain ⟨u, alone, agrees⟩ := h.exists_tick found
  rw [move?_self]
  cases agrees with
  | @saving _ next' same =>
    refine ⟨⟨next', some (.saved l next' resume none)⟩, ?_, memory ▸ same, ?_⟩
    · apply run_toList_some
      simp only [Solo.step, alone]
    · rw [ticks]
      exact .some (Tick.agrees_saved same resume none)

theorem Agree.finish [Cursor γ] {result : Except Failure Schedule.Signal}
    (h : s.Agree l.direction w)
    (found : s.fetcher.ticks.get l.direction = some (.done result))
    (memory : s'.fetcher.memory = s.fetcher.memory)
    (ticks : s'.fetcher.ticks.get l.direction = none) :
    ∃ w', w.run l ((Act.tick l.direction .finish).move? l.direction).toList = some w' ∧
      s'.Agree l.direction w' := by
  obtain ⟨u, alone, agrees⟩ := h.exists_tick found
  rw [move?_self]
  cases agrees with
  | done result =>
    refine ⟨{ w with tick := none }, ?_, memory ▸ h.half, ?_⟩
    · apply run_toList_some
      simp only [Solo.step, alone]
    · rw [ticks]
      exact .none

/-- What happens in the other direction leaves this one as it is; what happens in this one happens
to it alone. -/
theorem Agree.moves [Cursor γ] (h : s.Agree l.direction w) (regular : s.fetcher.Regular)
    (guarded : s.fetcher.Guarded) (lane : s.fetcher.config.lane? l.direction = some l)
    (m : Moves now s a s') :
    ∃ w', w.run l (a.move? l.direction).toList = some w' ∧ s'.Agree l.direction w' := by
  cases m with
  | call | enter | release | loop => exact h.stay rfl ⟨rfl, rfl⟩ rfl
  | advance m k c c' a found moves =>
    obtain ⟨-, frame, -⟩ := moves.frame
    have ticks := congrArg (Both.get · l.direction) frame
    obtain ⟨w', ran, agrees⟩ : ∃ w', w.run l (a.move? l.direction).toList = some w' ∧
        m.Agree l.direction w' := by
      rcases moves.memory_cases with ⟨rfl, memory⟩ | ⟨state, rfl, rfl⟩
      · exact h.stay rfl (by rw [memory]; exact ⟨rfl, rfl⟩) ticks
      · exact h.load ticks
    exact ⟨w', ran, agrees.congr ⟨rfl, rfl⟩ rfl⟩
  | begin e clock k found ready go =>
    by_cases same : e = l.direction
    · subst same
      exact h.begin lane (regular.ticks_eq_none_of_ready found ready) clock rfl
        (Both.get_set_self ..)
    · exact h.stay (move?_of_ne same) ⟨rfl, rfl⟩ (Both.get_set_of_ne _ (Ne.symm same) _)
  | answer e part k tick tick' laned found next free stays =>
    have writes : part ≠ .saved none := by
      rintro rfl
      cases tick with
      | saving => cases free
      | _ => cases next
    exact h.answer lane laned found next writes s.fetcher.locked
  | lock e k work resume laned found free => exact h.answer lane laned found rfl (by simp) true
  | failed e k next resume fault laned found =>
    exact h.answer lane laned found rfl (by simp) false
  | saved e k next resume laned found =>
    by_cases same : e = l.direction
    · subst same
      rw [lane] at laned
      cases laned
      exact h.save found rfl (Both.get_set_self ..)
    · have saves : s.fetcher.saves? e = some next := by
        rw [Fetcher.saves?, found]
        rfl
      exact h.stay (move?_of_ne same) ((guarded.based e next saves).2 _ (Ne.symm same))
        (Both.get_set_of_ne _ (Ne.symm same) _)
  | tickDone e result k k' effects tasks gate found finished moved others =>
    by_cases same : e = l.direction
    · subst same
      exact h.finish finished rfl (Both.get_set_self ..)
    · exact h.stay (move?_of_ne same) ⟨rfl, rfl⟩ (Both.get_set_of_ne _ (Ne.symm same) _)

/-! ## Runs -/

def moves [Cursor γ] (s : System γ) (d : Direction) (t : List (Nat × Event γ)) : List (Move γ) :=
  (s.acts t).filterMap (Act.move? d)

theorem moves_cons [Cursor γ] {e : Event γ} (h : s.step now e = some m) :
    s.moves d ((now, e) :: t) = ((s.act e).move? d).toList ++ m.moves d t := by
  rw [moves, acts, labels_cons h, filterMap_cons_toList, ← acts, ← moves]

/-- A run of the system does to one half what the moves of its direction do alone. -/
theorem Agree.run [Cursor γ] (h : s.Agree l.direction w) (regular : s.fetcher.Regular)
    (guarded : s.fetcher.Guarded) (lane : s.fetcher.config.lane? l.direction = some l)
    (ran : s.run u = some s') :
    ∃ w', w.run l (s.moves l.direction u) = some w' ∧ s'.Agree l.direction w' := by
  induction u generalizing s w with
  | nil =>
    cases ran
    exact ⟨w, rfl, h⟩
  | cons x u ih =>
    obtain ⟨now, e⟩ := x
    obtain ⟨m, first, rest⟩ := after_cons_eq_some.mp ran
    have moved := moves_of_step first
    -- The induction is on the run; a step of the other direction leaves the fold where it is.
    obtain ⟨v, stepped, agrees⟩ := h.moves regular guarded lane moved
    have lane' : m.fetcher.config.lane? l.direction = some l := by
      rw [moved.config_eq]
      exact lane
    obtain ⟨w', folded, agrees'⟩ :=
      ih agrees (moved.regular regular) (moved.guarded guarded) lane' rest
    refine ⟨w', ?_, agrees'⟩
    rw [moves_cons first, Solo.run, List.foldlM_append, ← Solo.run, stepped]
    exact folded

/-- A save changes the state in memory in its own direction alone. It stores what it puts into
memory, or, where it fails, changes neither. -/
theorem sameBut_of_saved [Cursor γ] {fault : Option StoreFailure} (guarded : s.fetcher.Guarded)
    (h : s.step now (.saved d fault) = some s') :
    s'.fetcher.memory.SameBut d s.fetcher.memory ∧
      (fault = none → s'.store.get? s'.fetcher.memory.id = some s'.fetcher.memory) ∧
      (fault ≠ none → s'.fetcher.memory = s.fetcher.memory ∧ s'.store = s.store) := by
  obtain ⟨l, next, resume, -, found, ⟨e, rfl, rfl⟩ | ⟨rfl, rfl⟩⟩ := saved_cases h
  · exact ⟨⟨rfl, fun _ _ => ⟨rfl, rfl⟩⟩, by simp, fun _ => ⟨rfl, rfl⟩⟩
  · have saves : s.fetcher.saves? d = some next := by
      rw [Fetcher.saves?, found]
      rfl
    refine ⟨guarded.based d next saves, ?_, by simp⟩
    intro _
    rw [Table.get?_insert, if_pos rfl]

/-- In every interleaving each direction has what the fold of its own moves gives, and no save
changes the id or the other direction's half. -/
theorem fold_and_frame [Cursor γ] {c : Config} {f : Fetcher γ} {store : Table (State γ)}
    (made : Fetcher.new c = .ok f) (before : (⟨store, f⟩ : System γ).run t = some s)
    (ran : s.run u = some s') :
    (∀ d l, c.lane? d = some l →
      ∃ w, Solo.run l ⟨s.fetcher.memory, s.fetcher.ticks.get d⟩ (s.moves d u) = some w ∧
        s'.fetcher.memory.SameHalf d w.memory) ∧
    ∀ now d fault s'', s'.step now (.saved d fault) = some s'' →
      s''.fetcher.memory.SameBut d s'.fetcher.memory ∧
        (fault = none → s''.store.get? s''.fetcher.memory.id = some s''.fetcher.memory) ∧
        (fault ≠ none → s''.fetcher.memory = s'.fetcher.memory ∧ s''.store = s'.store) := by
  obtain ⟨regular, config⟩ := regular_of_new made
  obtain ⟨regular, same, guarded⟩ :=
    run_invariant (fun _ h m => m.guarded h) regular (guarded_of_new made) before
  refine ⟨?_, ?_⟩
  · intro d l lane
    have direction := direction_of_lane? lane
    subst direction
    have agrees : s.Agree l.direction ⟨s.fetcher.memory, s.fetcher.ticks.get l.direction⟩ := by
      refine ⟨⟨rfl, rfl⟩, ?_⟩
      cases s.fetcher.ticks.get l.direction with
      | none => exact .none
      | some t => exact .some t.agrees_refl
    have here : s.fetcher.config.lane? l.direction = some l := by
      rw [same, config]
      exact lane
    obtain ⟨w, folded, agrees⟩ := agrees.run regular guarded here ran
    exact ⟨w, folded, agrees.half⟩
  · intro now d fault s'' stepped
    obtain ⟨-, -, guarded⟩ := run_invariant (fun _ h m => m.guarded h) regular guarded ran
    exact sameBut_of_saved guarded stepped

def bothWays : Config := { id := "blocks", schedules := ⟨some {}, some {}⟩ }

def newBothWays : Fetcher HeightCursor := { config := bothWays, memory := bothWays.freshState }

/-- A call of run over an empty store, up to where the first forward tick waits for an answer. -/
def opening : List (Nat × Event HeightCursor) := [
  (0, .call .run), (0, .advance 0 none), (0, .advance 0 none), (0, .advance 0 none),
  (0, .advance 0 none), (0, .advance 0 none), (0, .enter .forward .zero),
  (0, .turn .forward .epoch)]

/-- The first forward tick succeeds, and backward is let into its loop. -/
def firstSuccess : List (Nat × Event HeightCursor) := [
  (0, .fetched .forward (.ok {})), (0, .merged .forward (.ok ⟨some ⟨100⟩, 1⟩)),
  (0, .lock .forward), (0, .saved .forward none), (0, .tickDone .forward), (0, .release),
  (0, .enter .backward .zero)]

def launched : List (Nat × Event HeightCursor) := opening ++ firstSuccess

/-- A backward tick that commits twice, with the steps of a forward tick between. -/
def interleaved : List (Nat × Event HeightCursor) := [
  (0, .turn .backward .epoch), (1000, .timeout .forward), (1000, .turn .forward .epoch),
  (1001, .fetched .backward (.ok {})), (1001, .merged .backward (.ok ⟨some ⟨90⟩, 9⟩)),
  (1002, .judged .backward (.ok true)), (1002, .fetched .forward (.ok {})),
  (1003, .lock .backward), (1003, .merged .forward (.ok ⟨some ⟨110⟩, 10⟩)),
  (1004, .saved .backward none), (1004, .lock .forward), (1005, .fetched .backward (.ok {})),
  (1005, .saved .forward none), (1006, .merged .backward (.ok ⟨some ⟨80⟩, 0⟩)),
  (1007, .judged .backward (.ok true)), (1007, .tickDone .forward), (1008, .lock .backward),
  (1009, .saved .backward none), (1009, .tickDone .backward)]

theorem fold_and_frame_interleaved : ∃ s s' : System HeightCursor,
    Fetcher.new bothWays = .ok newBothWays ∧
      (⟨{}, newBothWays⟩ : System HeightCursor).run launched = some s ∧
      s.run interleaved = some s' ∧
      s'.fetcher.memory.cursors = ⟨some ⟨110⟩, some ⟨80⟩⟩ ∧
      ∀ d l, bothWays.lane? d = some l →
        ∃ w, Solo.run l ⟨s.fetcher.memory, s.fetcher.ticks.get d⟩ (s.moves d interleaved) = some w ∧
          s'.fetcher.memory.SameHalf d w.memory := by
  have made : Fetcher.new bothWays = .ok newBothWays := rfl
  have ends : ((⟨{}, newBothWays⟩ : System HeightCursor).run launched).bind (fun s =>
      (s.run interleaved).map (·.fetcher.memory.cursors)) = some ⟨some ⟨110⟩, some ⟨80⟩⟩ := rfl
  obtain ⟨s, before, rest⟩ := Option.bind_eq_some_iff.mp ends
  obtain ⟨s', ran, cursors⟩ := Option.map_eq_some_iff.mp rest
  exact ⟨s, s', made, before, ran, cursors, (fold_and_frame made before ran).1⟩

end System

end ChainFetch.Fetch
