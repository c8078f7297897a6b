import ChainFetch.Proofs.Fetch.Cursors
/-!
How the backward direction comes to its end. A check that holds first sends its fetch to the second
source, and ends it only when it holds there too. Main statements: `upheld_founded`, what was said
before a flag is set, at each stage of a tick, and `completion_checked_and_final`.
-/

namespace ChainFetch.Fetch

variable {γ : Type}

/-! ## What is said before a flag is set -/

def Fetched (fallback : Bool) (outcome : Outcome γ) (j : List (Note γ)) : Prop :=
  ∃ before request, j = before ++ [.fetch request (.ok outcome)] ∧
    request.direction = .backward ∧ request.fallback = fallback

def Merged (fallback : Bool) (j : List (Note γ)) : Prop :=
  ∃ before outcome merge, j = before ++ [.part (.merged (.ok merge))] ∧
    Fetched fallback outcome before ∧ outcome.error = none

/-- A backward fetch has come back without an error, what it reached has been merged, and the check
for completion holds. -/
def Checked (fallback : Bool) (j : List (Note γ)) : Prop :=
  ∃ before, j = before ++ [.part (.judged (.ok true))] ∧ Merged fallback before

structure Level (held own : Job) : Prop where
  fallback : own.fallback = held.fallback
  complete : own.complete = false
  going : held.complete = false

/-- What a tick is about to save sets no flag, or one for which there are grounds. -/
inductive Warranted (j : List (Note γ)) (held own : Job) (resume : Resume) : Prop
  | level (level : Level held own)
  | fellBack (checked : Checked false j) (first : held.fallback = false)
      (complete : own.complete = false) (going : held.complete = false)
  | completed (checked : Checked true j) (second : held.fallback = true)
      (finish : ∃ signal, resume = .finish none signal)

namespace Tick

/-- The grounds of a backward tick's copy by what was said so far; `held` is the job in memory. -/
def Founded (j : List (Note γ)) (held : Job) : Tick γ → Prop
  | .fetching work => Level held (work.job .backward)
  | .merging work outcome =>
    Level held (work.job .backward) ∧ (outcome.error = none → Fetched held.fallback outcome j)
  | .judging work _ _ => Level held (work.job .backward) ∧ Merged held.fallback j
  | .locking work resume => Warranted j held (work.job .backward) resume
  | .saving next resume =>
    ∃ before, j = before ++ [.part .lock] ∧ Warranted before held (next.job .backward) resume
  | .done _ => True

variable {l : Lane} {j : List (Note γ)} {held : Job} {memory work next : State γ}

theorem job_setFrequency (s : State γ) (d : Direction) (i : Duration) :
    (s.setFrequency d i).job d = { s.job d with frequency := i } := by
  simp [State.setFrequency, State.setJob, State.job]

theorem job_setFrequency_fallback (s : State γ) (d : Direction) (i : Duration) :
    ((s.setFrequency d i).job d).fallback = (s.job d).fallback ∧
      ((s.setFrequency d i).job d).complete = (s.job d).complete := by
  rw [job_setFrequency]
  exact ⟨rfl, rfl⟩

theorem settle_job (l : Lane) (work : State γ) (error : Option Failure) (paced : Bool)
    (newItems : UInt64) : ∃ own asked f, settle l work error paced newItems =
      .locking own (.finish error asked) ∧
      own.job l.direction = { work.job l.direction with frequency := f } := by
  unfold settle
  split
  · exact ⟨work, none, _, rfl, rfl⟩
  · split
    · exact ⟨_, _, _, rfl, job_setFrequency _ _ _⟩
    · exact ⟨_, _, _, rfl, job_setFrequency _ _ _⟩
    · exact ⟨work, none, _, rfl, rfl⟩
    · exact ⟨work, none, _, rfl, rfl⟩

theorem settle_cases (l : Lane) (work : State γ) (error : Option Failure) (paced : Bool)
    (newItems : UInt64) : ∃ own signal, settle l work error paced newItems =
      .locking own (.finish error signal) ∧
      (own.job l.direction).fallback = (work.job l.direction).fallback ∧
      (own.job l.direction).complete = (work.job l.direction).complete := by
  obtain ⟨own, asked, f, same, job⟩ := settle_job l work error paced newItems
  refine ⟨own, asked, same, ?_⟩
  rw [job]
  exact ⟨rfl, rfl⟩

theorem founded_settle (backward : l.direction = .backward)
    (level : Level held (work.job .backward)) (error : Option Failure) (paced : Bool)
    (newItems : UInt64) : (settle l work error paced newItems).Founded j held := by
  obtain ⟨own, signal, same, fallback, complete⟩ := settle_cases l work error paced newItems
  rw [backward] at fallback complete
  rw [same]
  exact .level ⟨fallback.trans level.fallback, complete.trans level.complete, level.going⟩

theorem founded_pace (backward : l.direction = .backward)
    (level : Level held (work.job .backward)) (outcome : Outcome γ) (error : Option Failure)
    (newItems : UInt64) (merged : error = none → Merged held.fallback j) :
    (pace l work outcome error newItems).Founded j held := by
  have paced : ∀ {work : State γ} explicit, Level held (work.job .backward) →
      (if error.isNone ∧ l.direction = .backward then .judging work explicit newItems
        else settle l work error explicit newItems).Founded j held := by
    intro work explicit level
    split
    · rename_i asks
      exact ⟨level, merged (Option.isNone_iff_eq_none.mp asks.1)⟩
    · exact founded_settle backward level _ _ _
  cases explicit : outcome.explicitInterval with
  | none =>
    simp only [pace, explicit]
    exact paced _ level
  | some i =>
    simp only [pace, explicit]
    refine paced _ ?_
    obtain ⟨fallback, complete⟩ :=
      job_setFrequency_fallback work .backward (min i l.schedule.intervalMax)
    rw [backward]
    exact ⟨fallback.trans level.fallback, complete.trans level.complete, level.going⟩

theorem founded_start (backward : l.direction = .backward) (clock : Instant) :
    (start l memory clock).Founded j (memory.job .backward) := by
  unfold start
  dsimp only
  rw [backward]
  split
  · trivial
  · rename_i going
    have going : (memory.job .backward).complete = false := by simpa using going
    refine ⟨?_, ?_, going⟩
    · simp [State.setJob, State.job]
    · simpa [State.setJob, State.job] using going

theorem founded_fetched (backward : l.direction = .backward) (context : Schedule.Context)
    (level : Level held (work.job .backward)) (a : Except Failure (Outcome γ)) :
    (fetched l work a).Founded (j ++ [.fetch (request l context work) a]) held := by
  have asked : (request l context work).direction = .backward ∧
      (request l context work).fallback = held.fallback := by
    refine ⟨backward, ?_⟩
    rw [request, backward]
    exact level.fallback
  rcases a with e | outcome
  · have merging : fetched l work (.error e) = .merging work (.failed e) :=
      if_pos (Or.inl backward)
    rw [merging]
    refine ⟨level, ?_⟩
    rintro ⟨⟩
  · have merging : fetched l work (.ok outcome) = .merging work outcome :=
      if_pos (Or.inl backward)
    rw [merging]
    exact ⟨level, fun _ => ⟨j, _, rfl, asked⟩⟩

theorem founded_merged [Cursor γ] (backward : l.direction = .backward)
    (level : Level held (work.job .backward)) (outcome : Outcome γ)
    (fetched : outcome.error = none → Fetched held.fallback outcome j)
    (a : Except Failure (Merge γ)) :
    (merged l work outcome a).Founded (j ++ [.part (.merged a)]) held := by
  rcases a with e | merge
  · refine founded_pace backward level _ _ _ ?_
    intro none
    rw [Option.or_eq_none_iff] at none
    cases none.2
  · refine founded_pace backward ?_ _ _ _ ?_
    · rw [backward]
      have same : ((work.applyMerge .backward merge).job .backward).fallback =
          (work.job .backward).fallback ∧
          ((work.applyMerge .backward merge).job .backward).complete =
            (work.job .backward).complete := by
        simp [State.applyMerge, State.setJob, State.setCursor, State.job]
      exact ⟨same.1.trans level.fallback, same.2.trans level.complete, level.going⟩
    · exact fun clean => ⟨j, outcome, merge, rfl, fetched clean, clean⟩

theorem founded_judged (backward : l.direction = .backward)
    (level : Level held (work.job .backward)) (merged : Merged held.fallback j) (paced : Bool)
    (newItems : UInt64) (a : Except Failure Bool) :
    (judged l work paced newItems a).Founded (j ++ [.part (.judged a)]) held := by
  rcases a with e | complete
  · exact founded_settle backward level (some e) paced newItems
  · cases complete
    · exact founded_settle backward level none paced newItems
    · have checked : Checked held.fallback (j ++ [.part (.judged (.ok true))]) := ⟨j, rfl, merged⟩
      simp only [judged, backward]
      split
      · rename_i second
        rw [level.fallback] at second
        rw [second] at checked
        obtain ⟨own, signal, same, -⟩ := settle_cases l
          (work.setJob .backward { work.job .backward with complete := true }) none paced newItems
        rw [same]
        exact .completed checked second ⟨signal, rfl⟩
      · rename_i first
        rw [level.fallback, Bool.not_eq_true] at first
        rw [first] at checked
        refine .fellBack checked first ?_ level.going
        simpa [State.setJob, State.job] using level.complete

theorem Founded.next? [Cursor γ] {t t' : Tick γ} {part : Part γ} (context : Schedule.Context)
    (backward : l.direction = .backward) (founded : t.Founded j held)
    (next : t.next? l memory part = some t') (writes : part ≠ .saved none) :
    t'.Founded (j ++ [t.note l context part]) held := by
  cases t with
  | fetching work =>
    cases part with
    | fetched a =>
      cases next
      exact founded_fetched backward context founded a
    | _ => cases next
  | merging work outcome =>
    cases part with
    | merged a =>
      cases next
      exact founded_merged backward founded.1 outcome founded.2 a
    | _ => cases next
  | judging work paced newItems =>
    cases part with
    | judged a =>
      cases next
      exact founded_judged backward founded.1 founded.2 paced newItems a
    | _ => cases next
  | locking work resume =>
    cases part with
    | lock =>
      cases next
      refine ⟨j, rfl, ?_⟩
      rw [backward, State.job_adopt_self]
      exact founded
    | _ => cases next
  | saving next' resume =>
    cases part with
    | saved fault =>
      cases fault with
      | none => exact absurd rfl writes
      | some e =>
        cases next
        trivial
    | _ => cases next
  | done result => cases part <;> cases next

theorem founded_saved {resume : Resume} {before : List (Note γ)}
    (warranted : Warranted before held (next.job .backward) resume) :
    (saved l next resume none).Founded j (next.job .backward) := by
  unfold saved
  split
  · trivial
  · have going : (next.job .backward).complete = false := by
      cases warranted with
      | level level => exact level.complete
      | fellBack checked first complete going => exact complete
      | completed checked second finish =>
        obtain ⟨signal, finish⟩ := finish
        cases finish
    exact ⟨rfl, going, going⟩
  · trivial
  · trivial

end Tick

/-! ## What becomes of the flags -/

structure Job.GoesOn (d : Direction) (a b : Job) : Prop where
  fallback : a.fallback = true → b.fallback = true
  complete : a.complete = true → b.complete = true
  ordered : b.complete = true → a.complete = true ∨ b.fallback = true
  forward : d = .forward → b.fallback = a.fallback ∧ b.complete = a.complete

theorem Edits.goesOn [Cursor γ] {d : Direction} {a b : Job × Option γ} (h : Edits d a b) :
    a.1.GoesOn d b.1 := by
  induction h with
  | refl => exact ⟨fun p => p, fun p => p, Or.inl, fun _ => ⟨rfl, rfl⟩⟩
  | tail _ edit ih =>
    cases edit with
    | fellBack j c backward =>
      refine ⟨fun _ => rfl, ih.complete, fun _ => Or.inr rfl, ?_⟩
      rintro rfl
      cases backward
    | completed j c backward second =>
      refine ⟨fun _ => second, fun _ => rfl, fun _ => Or.inr second, ?_⟩
      rintro rfl
      cases backward
    | _ => exact ⟨ih.fallback, ih.complete, ih.ordered, ih.forward⟩

namespace State

def FellBack (s : State γ) : Prop := (s.job .backward).fallback = true

def Completed (s : State γ) : Prop := (s.job .backward).complete = true

/-- Completion comes with the second source alone, and the forward job has no flag set. -/
structure Flagged (s : State γ) : Prop where
  ordered : s.Completed → s.FellBack
  forward : (s.job .forward).fallback = false ∧ (s.job .forward).complete = false

theorem flagged_fresh (c : Config) : (c.freshState : State γ).Flagged :=
  ⟨by rintro ⟨⟩, rfl, rfl⟩

theorem Flagged.edits [Cursor γ] {s t : State γ} (h : s.Flagged)
    (edits : ∀ d, Edits d (s.half d) (t.half d)) : t.Flagged := by
  have backward := (edits .backward).goesOn
  obtain ⟨fallback, complete⟩ := (edits .forward).goesOn.forward rfl
  refine ⟨?_, fallback.trans h.forward.1, complete.trans h.forward.2⟩
  intro completed
  rcases backward.ordered completed with before | second
  · exact backward.fallback (h.ordered before)
  · exact second

end State

namespace System

variable {s s' : System γ} {now : Nat} {x : Turn γ} {t u : List (Nat × Turn γ)}

theorem not_fetching_of_completed {j : List (Note γ)} (coherent : s.Coherent)
    (founded : ∀ t, s.fetcher.ticks.get .backward = some t →
      t.Founded j (s.fetcher.memory.job .backward))
    (completed : ∃ m ∈ s.kept, m.Completed) (work : State γ) :
    s.fetcher.ticks.get .backward ≠ some (.fetching work) := by
  intro fetching
  obtain ⟨m, kept, completed⟩ := completed
  have held := coherent.mirrors.mirrored (coherent.initialised fetching)
  rw [coherent.mem_kept, held] at kept
  cases kept
  have level : Level _ _ := founded _ fetching
  exact absurd (level.going.symm.trans completed) (by simp)

variable [Cursor γ]

/-- The first of the states that are kept to have a flag come with this turn. -/
def Sets (s s' : System γ) (flag : State γ → Prop) : Prop :=
  (∀ m ∈ s.kept, ¬ flag m) ∧ ∃ m ∈ s'.kept, flag m

theorem upheld_founded :
    Upheld (γ := γ) .backward fun j memory t => t.Founded j (memory.job .backward) where
  begin clock backward := Tick.founded_start backward clock
  done _ := trivial
  answer context backward founded next writes := founded.next? context backward next writes
  saved _ founded := by
    obtain ⟨before, -, warranted⟩ := founded
    exact Tick.founded_saved warranted
  half same founded := same.1 ▸ founded

/-- What is kept gets a flag that it had not where a backward tick saves it. -/
theorem saved_of_sets (h : s.Coherent) (lived : s.live now x = some s') {flag : State γ → Prop}
    (sets : s.Sets s' flag) (fresh : ∀ c : Config, ¬ flag c.freshState)
    (backward : ∀ a b : State γ, a.job .backward = b.job .backward → flag a → flag b) :
    x = .event (.saved .backward none) ∧ ∃ l next resume,
      s.fetcher.config.lane? .backward = some l ∧
      s.fetcher.ticks.get .backward = some (.saving next resume) ∧ ¬ flag s.fetcher.memory ∧
      flag next ∧ s'.fetcher.ticks.get .backward = some (.saved l next resume none) := by
  obtain ⟨unset, m', kept, flagged⟩ := sets
  have stored := (h.live lived).1.mem_kept.mp kept
  cases h.stores lived with
  | same same =>
    rw [same] at stored
    exact absurd flagged (unset m' (h.mem_kept.mpr stored))
  | created missing created =>
    rw [created] at stored
    cases stored
    exact absurd flagged (fresh _)
  | saved d l next resume lane tick held based stored' after =>
    rw [stored'] at stored
    cases stored
    have bare := unset _ (h.mem_kept.mpr held)
    cases d with
    | forward =>
      have same := (based.2 .backward (by simp)).1
      exact absurd (backward _ _ same flagged) bare
    | backward => exact ⟨rfl, l, _, resume, lane, tick, bare, flagged, after⟩

theorem checked_of_fellBack {j : List (Note γ)} (coherent : s.Coherent)
    (founded : ∀ t, s.fetcher.ticks.get .backward = some t →
      t.Founded j (s.fetcher.memory.job .backward))
    (lived : s.live now x = some s') (sets : s.Sets s' State.FellBack) :
    x = .event (.saved .backward none) ∧ ∃ i, j = i ++ [.part .lock] ∧ Checked false i := by
  obtain ⟨saved, l, next, resume, lane, tick, bare, flag, after⟩ :=
    saved_of_sets coherent lived sets (fun c => by rintro ⟨⟩)
      (fun a b same flag => by rw [State.FellBack, ← same]; exact flag)
  obtain ⟨i, notes, warranted⟩ := founded _ tick
  refine ⟨saved, i, notes, ?_⟩
  cases warranted with
  | level level => exact absurd (level.fallback.symm.trans flag) bare
  | fellBack checked => exact checked
  | completed checked second => exact absurd second bare

theorem checked_of_completed {j : List (Note γ)} (coherent : s.Coherent)
    (founded : ∀ t, s.fetcher.ticks.get .backward = some t →
      t.Founded j (s.fetcher.memory.job .backward))
    (lived : s.live now x = some s') (sets : s.Sets s' State.Completed) :
    x = .event (.saved .backward none) ∧ (∃ i, j = i ++ [.part .lock] ∧ Checked true i) ∧
      s'.fetcher.ticks.get .backward = some (.done (.ok .stop)) := by
  obtain ⟨saved, l, next, resume, lane, tick, bare, flag, after⟩ :=
    saved_of_sets coherent lived sets (fun c => by rintro ⟨⟩)
      (fun a b same flag => by rw [State.Completed, ← same]; exact flag)
  obtain ⟨i, notes, warranted⟩ := founded _ tick
  cases warranted with
  | level level => exact absurd (level.complete.symm.trans flag) (by simp)
  | fellBack checked first complete => exact absurd (complete.symm.trans flag) (by simp)
  | completed checked second finish =>
    obtain ⟨signal, rfl⟩ := finish
    refine ⟨saved, ⟨i, notes, checked⟩, ?_⟩
    have completed : (next.job l.direction).complete = true := by
      rw [direction_of_lane? lane]
      exact flag
    rw [after, Tick.saved, completed]
    rfl

/-- Neither flag is taken back in what is kept. -/
theorem goesOn_of_lives {m : State γ} (coherent : s.Coherent) (edited : s.Edited)
    (lived : s.lives t = some s') (kept : m ∈ s.kept) : s'.kept ≠ [] ∧ ∀ m' ∈ s'.kept,
      (m.FellBack → m'.FellBack) ∧ (m.Completed → m'.Completed) := by
  obtain ⟨some, edits⟩ := kept_of_lives coherent edited lived kept
  refine ⟨some, fun m' kept' => ?_⟩
  have goesOn := (edits m' kept' .backward).goesOn
  exact ⟨goesOn.fallback, goesOn.complete⟩

theorem flagged_of_live (coherent : s.Coherent) (edited : s.Edited)
    (flagged : ∀ m ∈ s.kept, m.Flagged) (lived : s.live now x = some s') :
    ∀ m ∈ s'.kept, m.Flagged := by
  intro m kept
  have stored := (coherent.live lived).1.mem_kept.mp kept
  cases coherent.stores lived with
  | same same =>
    rw [same] at stored
    exact flagged m (coherent.mem_kept.mpr stored)
  | created missing created =>
    rw [created] at stored
    cases stored
    exact State.flagged_fresh _
  | saved d l next resume lane tick held =>
    obtain ⟨m', stored', edits⟩ := stored_of_live coherent edited lived held
    rw [stored] at stored'
    cases stored'
    exact (flagged _ (coherent.mem_kept.mpr held)).edits edits

theorem flagged_of_lives (coherent : s.Coherent) (edited : s.Edited)
    (flagged : ∀ m ∈ s.kept, m.Flagged) (lived : s.lives t = some s') :
    ∀ m ∈ s'.kept, m.Flagged := by
  induction t generalizing s with
  | nil =>
    cases lived
    exact flagged
  | cons x t ih =>
    obtain ⟨now, x⟩ := x
    obtain ⟨n, first, rest⟩ := after_cons_eq_some.mp lived
    exact ih (coherent.live first).1 (edited.live coherent first)
      (flagged_of_live coherent edited flagged first) rest

/-- How the backward direction ends, in every history that begins without a state in the store.
Completion comes with the second source alone, and never forward. The second source is taken by a
save right after a fetch from the first without error and a check that holds, and completion by one
right after such a fetch from the second, in a tick that comes back with a stop. Neither is taken
back, and after completion there is no backward fetch. A fetcher has in memory what is stored, or it
has not loaded its state yet. -/
theorem completion_checked_and_final {c : Config} {f : Fetcher γ} {store : Table (State γ)}
    (made : Fetcher.new c = .ok f) (absent : store.get? c.id = none)
    (before : (⟨store, f⟩ : System γ).lives t = some s) :
    (∀ m ∈ s.fetcher.memory :: s.kept, m.Flagged) ∧
    (∀ now x s', s.live now x = some s' →
      (s.Sets s' State.FellBack → x = .event (.saved .backward none) ∧
        ∃ j, (⟨store, f⟩ : System γ).notes .backward t = j ++ [.part .lock] ∧ Checked false j) ∧
      (s.Sets s' State.Completed → x = .event (.saved .backward none) ∧
        (∃ j, (⟨store, f⟩ : System γ).notes .backward t = j ++ [.part .lock] ∧ Checked true j) ∧
        s'.fetcher.ticks.get .backward = some (.done (.ok .stop)))) ∧
    (∀ u s', s.lives u = some s' →
      (∀ m ∈ s.kept, s'.kept ≠ [] ∧ ∀ m' ∈ s'.kept,
        (m.FellBack → m'.FellBack) ∧ (m.Completed → m'.Completed)) ∧
      ((∃ m ∈ s.kept, m.Completed) →
        ∀ work, s'.fetcher.ticks.get .backward ≠ some (.fetching work))) ∧
    (s.fetcher.initialised = true → s.fetcher.memory ∈ s.kept) ∧
    (s.fetcher.initialised = false →
      s.fetcher.memory = s.fetcher.config.freshState ∧ ∀ d, s.fetcher.ticks.get d = none) := by
  have start := coherent_of_new made fun state stored => by
    rw [absent] at stored
    cases stored
  have edited := edited_of_new made start
  have nothing : ∀ m ∈ (⟨store, f⟩ : System γ).kept, m.Flagged := by
    intro m kept
    have stored := start.mem_kept.mp kept
    rw [stored?, (regular_of_new made).2, absent] at stored
    cases stored
  have founded := upheld_founded.lives (j := []) start
    (fun t tick => by
      rw [start.ticks_eq_none (initialised_of_new made)] at tick
      cases tick) before
  have flagged := flagged_of_lives start edited nothing before
  have coherent := start.lives before
  have edited := edited_of_lives start edited before
  have mirrored : s.fetcher.initialised = true → s.fetcher.memory ∈ s.kept :=
    fun loaded => coherent.mem_kept.mpr (coherent.mirrors.mirrored loaded)
  refine ⟨?_, ?_, ?_, mirrored, ?_⟩
  · intro m held
    rcases List.mem_cons.mp held with rfl | kept
    · cases loaded : s.fetcher.initialised with
      | true => exact flagged _ (mirrored loaded)
      | false =>
        rw [(coherent.mirrors.untouched loaded).1]
        exact State.flagged_fresh _
    · exact flagged m kept
  · exact fun now x s' lived => ⟨checked_of_fellBack coherent founded lived,
      checked_of_completed coherent founded lived⟩
  · intro u s' lived
    refine ⟨fun m kept => goesOn_of_lives coherent edited lived kept, ?_⟩
    rintro ⟨m, kept, completed⟩
    obtain ⟨some, later⟩ := goesOn_of_lives coherent edited lived kept
    obtain ⟨m', kept'⟩ := List.exists_mem_of_ne_nil _ some
    exact not_fetching_of_completed (coherent.lives lived)
      (upheld_founded.lives coherent founded lived) ⟨m', kept', (later m' kept').2 completed⟩
  · exact fun new => ⟨(coherent.mirrors.untouched new).1, coherent.ticks_eq_none new⟩

def replaced : List (Nat × Turn HeightCursor) :=
  (1009, .event (.tickDone .backward)) :: (1010, .restart bothWays) :: Turn.events [
    (1010, .call .run), (1010, .advance 0 none), (1010, .advance 0 none), (1010, .advance 0 none),
    (1010, .advance 0 none), (1010, .enter .forward .zero), (1010, .turn .forward .epoch)]

theorem completion_checked_and_final_replaced : ∃ s s' s'' : System HeightCursor,
    Fetcher.new bothWays = .ok newBothWays ∧
      (⟨{}, newBothWays⟩ : System HeightCursor).lives
        (Turn.events (launched ++ interleaved.take 17)) = some s ∧
      s.live 1009 (.event (.saved .backward none)) = some s' ∧ s'.lives replaced = some s'' ∧
      s.Sets s' State.Completed ∧
      (∃ j, (⟨{}, newBothWays⟩ : System HeightCursor).notes .backward
        (Turn.events (launched ++ interleaved.take 17)) = j ++ [.part .lock] ∧ Checked true j) ∧
      s'.fetcher.ticks.get .backward = some (.done (.ok .stop)) ∧
      s''.fetcher.initialised = true ∧
      ∀ work, s''.fetcher.ticks.get .backward ≠ some (.fetching work) := by
  have made : Fetcher.new bothWays = .ok newBothWays := rfl
  have ends : ((⟨{}, newBothWays⟩ : System HeightCursor).lives
      (Turn.events (launched ++ interleaved.take 17))).bind (fun s =>
        (s.live 1009 (.event (.saved .backward none))).bind fun s' => (s'.lives replaced).map
          fun s'' => (s.kept.map fun m => (m.job .backward).complete,
            s'.kept.map fun m => (m.job .backward).complete, s''.fetcher.initialised)) =
      some ([false, false], [true, true], true) := rfl
  obtain ⟨s, before, rest⟩ := Option.bind_eq_some_iff.mp ends
  obtain ⟨s', lived, rest⟩ := Option.bind_eq_some_iff.mp rest
  obtain ⟨s'', later, flags⟩ := Option.map_eq_some_iff.mp rest
  simp only [Prod.mk.injEq] at flags
  obtain ⟨unset, set, loaded⟩ := flags
  have sets : s.Sets s' State.Completed := by
    refine ⟨?_, ?_⟩
    · intro m kept completed
      have flag := List.mem_map_of_mem (f := fun m => (m.job .backward).complete) kept
      rw [unset] at flag
      have completed : (m.job .backward).complete = true := completed
      simp [completed] at flag
    · have flag : true ∈ s'.kept.map fun m => (m.job .backward).complete := by simp [set]
      obtain ⟨m, kept, completed⟩ := List.mem_map.mp flag
      exact ⟨m, kept, completed⟩
  have result := completion_checked_and_final made rfl before
  obtain ⟨-, notes, stop⟩ := (result.2.1 1009 _ s' lived).2 sets
  obtain ⟨m, kept, completed⟩ := sets.2
  have completes : (⟨{}, newBothWays⟩ : System HeightCursor).lives
      (Turn.events (launched ++ interleaved.take 17) ++
        [(1009, .event (.saved .backward none))]) = some s' :=
    after_append_eq_some.mpr ⟨s, before, after_cons_eq_some.mpr ⟨s', lived, rfl⟩⟩
  have ended := ((completion_checked_and_final made rfl completes).2.2.1 replaced s'' later).2
  exact ⟨s, s', s'', made, before, lived, later, sets, notes, stop, loaded,
    ended ⟨m, kept, completed⟩⟩

end System
end ChainFetch.Fetch
