import ChainFetch.Proofs.Fetch.Cadence
import ChainFetch.Proofs.Fetch.Failing
/-!
Which frequencies a fetcher keeps. A tick cuts the frequency that it sets at the ceiling of its
schedule; one that sets none keeps the frequency that it began with, and with it what an earlier
fetcher may have left above the ceiling. Main statements: `Paced.next?`, what a tick has in its
copy, `stored_of_run`, and `frequency_of_success`.
-/

namespace ChainFetch.Fetch

open Schedule (Loop Signal)

variable {γ : Type}

def Asked (j : List (Part γ)) : Prop := j.filterMap Part.interval? ≠ []

theorem asked_concat {j : List (Part γ)} {p : Part γ} :
    Asked (j ++ [p]) ↔ Asked j ∨ p.interval? ≠ none := by
  unfold Asked
  cases asked : p.interval? <;> simp [asked]

def Resume.Succeeds : Resume → Prop
  | .finish none _ => True
  | _ => False

/-- A frequency that was `origin` before: it is cut at the ceiling where it was set, and otherwise
as it was. -/
structure Lane.Fits (l : Lane) (origin : Duration) (set : Prop) (f : Duration) : Prop where
  kept : ¬ set → f = origin
  cut : set → f ≤ l.schedule.intervalMax

namespace Lane

variable {l : Lane} {origin f : Duration} {set set' : Prop}

theorem fits_of_not (unset : ¬ set) : l.Fits origin set origin :=
  ⟨fun _ => rfl, fun k => absurd k unset⟩

theorem fits_of_le (set : Prop) (below : f ≤ l.schedule.intervalMax) (k : set) :
    l.Fits origin set f := ⟨fun unset => absurd k unset, fun _ => below⟩

theorem Fits.le_iff (h : l.Fits origin set f) :
    f ≤ l.schedule.intervalMax ↔ set ∨ origin ≤ l.schedule.intervalMax := by
  by_cases k : set
  · exact iff_of_true (h.cut k) (Or.inl k)
  · rw [h.kept k, or_iff_right k]

theorem Fits.congr (h : l.Fits origin set f) (same : set' ↔ set) : l.Fits origin set' f :=
  ⟨fun unset => h.kept fun k => unset (same.mpr k), fun k => h.cut (same.mp k)⟩

theorem Fits.of_eq {f' : Duration} (h : l.Fits origin set f) (same : f' = f) :
    l.Fits origin set f' := by
  rw [same]
  exact h

theorem Fits.cases (h : l.Fits origin set f) : f = origin ∨ f ≤ l.schedule.intervalMax := by
  by_cases k : set
  · exact Or.inr (h.cut k)
  · exact Or.inl (h.kept k)

end Lane

namespace State

theorem frequency_setFrequency (s : State γ) (d : Direction) (f : Duration) :
    ((s.setFrequency d f).job d).frequency = f := by
  simp [setFrequency, setJob, job]

theorem frequency_setJob (s : State γ) (d : Direction) (j : Job) :
    ((s.setJob d j).job d).frequency = j.frequency := by
  simp [setJob, job]

theorem frequency_applyMerge [Cursor γ] (s : State γ) (d : Direction) (m : Merge γ) :
    ((s.applyMerge d m).job d).frequency = (s.job d).frequency := by
  simp [applyMerge, setJob, setCursor, job]

end State

/-! ## The copy of a tick -/

namespace Tick

variable {l : Lane} {origin : Duration} {j : List (Part γ)} {memory work next : State γ}
  {t t' : Tick γ} {part : Part γ} {outcome : Outcome γ} {error : Option Failure}

/-- What a tick that began with the frequency `origin` has for it after the answers `j`. Where none
of them asked for an interval a rate sets it, but only for a tick that succeeds. -/
def Paced (l : Lane) (origin : Duration) (j : List (Part γ)) : Tick γ → Prop
  | .fetching work => l.Fits origin (Asked j) (work.job l.direction).frequency
  | .merging work outcome =>
    ∃ before answer, j = before ++ [.fetched answer] ∧ outcome = .ofAnswer answer ∧
      l.Fits origin (Asked before) (work.job l.direction).frequency
  | .judging work _ _ =>
    l.Fits origin (Asked j) (work.job l.direction).frequency ∧ l.rate = none
  | .locking work resume =>
    l.Fits origin (Asked j ∨ resume.Succeeds ∧ l.rate ≠ none) (work.job l.direction).frequency
  | .saving next resume =>
    l.Fits origin (Asked j ∨ resume.Succeeds ∧ l.rate ≠ none) (next.job l.direction).frequency
  | .done _ => True

theorem paced_start (l : Lane) (memory : State γ) (clock : Instant) :
    (start l memory clock).Paced l (memory.job l.direction).frequency [] := by
  unfold start
  dsimp only
  split
  · trivial
  · exact (Lane.fits_of_not (by simp [Asked])).of_eq (State.frequency_setJob ..)

theorem paced_settle (fits : l.Fits origin (Asked j) (work.job l.direction).frequency)
    (error : Option Failure) (paced : Bool) (newItems : UInt64)
    (asked : error = none → paced = true → Asked j ∨ l.rate = none) :
    (settle l work error paced newItems).Paced l origin j := by
  have unset (k : ¬ (error = none ∧ paced = false ∧ l.rate ≠ none)) :
      l.Fits origin (Asked j ∨ (Resume.finish error none).Succeeds ∧ l.rate ≠ none)
        (work.job l.direction).frequency := by
    refine fits.congr ⟨fun set => set.elim id fun ⟨succeeds, rated⟩ => ?_, Or.inl⟩
    cases error with
    | some e => exact succeeds.elim
    | none =>
      cases paced with
      | true => exact (asked rfl rfl).resolve_right rated
      | false => exact absurd ⟨rfl, rfl, rated⟩ k
  unfold settle
  split
  · rename_i unrated
    refine unset fun ⟨clean, unpaced, rated⟩ => ?_
    rw [clean, unpaced] at unrated
    exact rated unrated
  · rename_i rate rated
    obtain ⟨clean, follows⟩ := Option.ite_none_right_eq_some.mp rated
    rw [Bool.and_eq_true, Option.isNone_iff_eq_none] at clean
    obtain ⟨rfl, -⟩ := clean
    have rated : l.rate ≠ none := by
      rw [follows]
      exact Option.some_ne_none rate
    split
    · exact (Lane.fits_of_le _ (Nat.min_le_right _ _) (Or.inr ⟨trivial, rated⟩)).of_eq
        (State.frequency_setFrequency ..)
    · exact (Lane.fits_of_le _ l.schedule.resetInterval_le (Or.inr ⟨trivial, rated⟩)).of_eq
        (State.frequency_setFrequency ..)
    · rename_i keeps
      unfold Schedule.Rate.signal at keeps
      split at keeps <;> cases keeps
    · rename_i stops
      unfold Schedule.Rate.signal at stops
      split at stops <;> cases stops

theorem paced_pace {before : List (Part γ)} (alone : l.direction = .backward → l.rate = none)
    (fits : l.Fits origin (Asked before) (work.job l.direction).frequency)
    (came : Asked j ↔ Asked before ∨ outcome.explicitInterval ≠ none) (newItems : UInt64) :
    (pace l work outcome error newItems).Paced l origin j := by
  have rest {work : State γ} (fits : l.Fits origin (Asked j) (work.job l.direction).frequency) :
      (if error.isNone ∧ l.direction = .backward then
          Tick.judging work outcome.explicitInterval.isSome newItems
        else settle l work error outcome.explicitInterval.isSome newItems).Paced l origin j := by
    split
    · rename_i judges
      exact ⟨fits, alone judges.2⟩
    · refine paced_settle fits error _ newItems fun _ paced => Or.inl (came.mpr (Or.inr ?_))
      exact Option.isSome_iff_ne_none.mp paced
  unfold pace
  cases explicit : outcome.explicitInterval with
  | none =>
    rw [explicit] at came rest
    exact rest (fits.congr (by simpa using came))
  | some i =>
    rw [explicit] at came rest
    have set := came.mpr (Or.inr (Option.some_ne_none i))
    exact rest ((Lane.fits_of_le _ (Nat.min_le_right _ _) set).of_eq
      (State.frequency_setFrequency ..))

theorem paced_fetched (alone : l.direction = .backward → l.rate = none)
    (fits : l.Fits origin (Asked j) (work.job l.direction).frequency)
    (a : Except Failure (Outcome γ)) : (fetched l work a).Paced l origin (j ++ [.fetched a]) := by
  rw [fetched_eq]
  split
  · exact ⟨j, a, rfl, rfl, fits⟩
  · exact paced_pace alone fits asked_concat 0

theorem paced_merged [Cursor γ] {before : List (Part γ)} {answer : Except Failure (Outcome γ)}
    (alone : l.direction = .backward → l.rate = none)
    (fits : l.Fits origin (Asked before) (work.job l.direction).frequency)
    (came : outcome = .ofAnswer answer) (a : Except Failure (Merge γ)) :
    (merged l work outcome a).Paced l origin (before ++ [.fetched answer] ++ [.merged a]) := by
  have asks : Asked (before ++ [.fetched answer] ++ [.merged a]) ↔
      Asked before ∨ outcome.explicitInterval ≠ none := by
    rw [asked_concat, asked_concat, came]
    exact or_iff_left fun k => k rfl
  rcases a with e | merge
  · exact paced_pace alone fits asks 0
  · exact paced_pace alone (fits.of_eq (State.frequency_applyMerge ..)) asks merge.newItems

theorem paced_judged {paced : Bool}
    (fits : l.Fits origin (Asked j) (work.job l.direction).frequency) (unrated : l.rate = none)
    (newItems : UInt64) (a : Except Failure Bool) :
    (judged l work paced newItems a).Paced l origin (j ++ [.judged a]) := by
  have asks : Asked (j ++ [.judged a]) ↔ Asked j := asked_concat.trans (or_iff_left fun k => k rfl)
  have fits := fits.congr asks
  rcases a with e | complete
  · exact paced_settle fits (some e) paced newItems fun _ _ => Or.inr unrated
  · cases complete with
    | false => exact paced_settle fits none paced newItems fun _ _ => Or.inr unrated
    | true =>
      unfold judged
      dsimp only
      split
      · refine paced_settle (fits.of_eq ?_) none paced newItems fun _ _ => Or.inr unrated
        exact State.frequency_setJob ..
      · have set : Asked (j ++ [.judged (.ok true)]) ∨ Resume.again.Succeeds ∧ l.rate ≠ none ↔
            Asked (j ++ [.judged (.ok true)]) := or_iff_left fun k => k.1
        refine (fits.of_eq ?_).congr set
        exact State.frequency_setJob ..

theorem Paced.next? [Cursor γ] (alone : l.direction = .backward → l.rate = none)
    (h : t.Paced l origin j) (next : t.next? l memory part = some t') :
    t'.Paced l origin (j ++ [part]) := by
  cases t with
  | fetching work =>
    cases part with
    | fetched a =>
      cases next
      exact paced_fetched alone h a
    | _ => cases next
  | merging work outcome =>
    cases part with
    | merged a =>
      cases next
      obtain ⟨before, answer, rfl, came, fits⟩ := h
      exact paced_merged alone fits came a
    | _ => cases next
  | judging work paced newItems =>
    cases part with
    | judged a =>
      cases next
      exact paced_judged h.1 h.2 newItems a
    | _ => cases next
  | locking work resume =>
    cases part with
    | lock =>
      cases next
      have fits : l.Fits origin _ (work.job l.direction).frequency := h
      exact (fits.of_eq (congrArg Job.frequency (State.job_adopt_self ..))).congr
        (or_congr_left (asked_concat.trans (or_iff_left fun k => k rfl)))
    | _ => cases next
  | saving state resume =>
    cases part with
    | saved fault =>
      cases next
      unfold saved
      split
      · trivial
      · have fits : l.Fits origin _ (state.job l.direction).frequency := h
        refine fits.congr (asked_concat.trans ?_)
        exact (or_iff_left fun k => k rfl).trans (or_iff_left fun k => k.1.elim).symm
      · trivial
      · trivial
    | _ => cases next
  | done result => cases part <;> cases next

theorem paced_saved (l : Lane) (next : State γ) (resume : Resume) (fault : Option StoreFailure) :
    (saved l next resume fault).Paced l (next.job l.direction).frequency [] := by
  unfold saved
  split
  · trivial
  · exact Lane.fits_of_not (by simp [Asked])
  · trivial
  · trivial

end Tick

/-! ## What is stored -/

namespace Config

variable {c : Config} {d : Direction} {l : Lane}

theorem rated_iff_of_lane? (lane : c.lane? d = some l) :
    l.rate ≠ none ↔ d = .forward ∧ c.rate ≠ none := by
  obtain ⟨base, -, rfl⟩ := Option.map_eq_some_iff.mp lane
  exact ite_ne_right_iff

theorem unrated_of_lane? (lane : c.lane? d = some l) : l.direction = .backward → l.rate = none := by
  obtain ⟨base, -, rfl⟩ := Option.map_eq_some_iff.mp lane
  rintro rfl
  rfl

def Sets (c : Config) (d : Direction) (j : List (Part γ)) : Prop :=
  Asked j ∨ d = .forward ∧ c.rate ≠ none

theorem frequency_freshState (c : Config) (d : Direction) :
    ((c.freshState : State γ).job d).frequency = c.startFrequency d := by
  cases d <;> rfl

end Config

namespace System

variable [Cursor γ] {s s' m : System γ} {now : Nat} {a : Act γ} {e : Event γ} {d : Direction}
  {l : Lane} {base : Schedule.Config} {origin : Duration} {j : List (Part γ)} {state : State γ}
  {clock : Instant} {t u : List (Nat × Event γ)}

theorem job_of_other {tick : Tick γ} (coherent : s.Coherent) (moves : Moves now s a s')
    (found : s.fetcher.ticks.get d = some tick) (other : ∀ part, a ≠ .tick d part) :
    s'.fetcher.memory.job d = s.fetcher.memory.job d := by
  rcases moves.memory_cases coherent (coherent.initialised found) with
    ⟨memory, -⟩ | ⟨b, next, resume, rfl, saving, memory⟩
  · rw [memory]
  · have foreign : d ≠ b := fun same => other _ (by rw [same])
    rw [memory]
    exact ((coherent.guarded.based b next (by rw [Fetcher.saves?, saving]; rfl)).2 d foreign).1

theorem memory_of_begin (coherent : s.Coherent) (moves : Moves now s (.tick d (.begin clock)) s') :
    s'.fetcher.memory = s.fetcher.memory ∧
      s'.fetcher.ticks.get d = some (s.fetcher.begun d clock) := by
  have ticked := moves.ticked d
  generalize after : s'.fetcher.ticks.get d = x at ticked
  cases ticked with
  | kept _ other => exact absurd rfl (other _)
  | begun _ loop found ready =>
    have loaded := coherent.mirrors.initialised (Fetcher.not_bare_of_loop found)
    rcases moves.memory_cases coherent loaded with ⟨memory, -⟩ | ⟨_, _, _, k, -⟩
    · exact ⟨memory, rfl⟩
    · cases k
  | answered l' t t' part lane' found next => cases t <;> cases next

/-- What the ticks in flight have for a frequency is the one that is kept, or within the
ceiling. -/
def Capped (s : System γ) : Prop :=
  ∀ d l t, s.fetcher.config.lane? d = some l → s.fetcher.ticks.get d = some t →
    ∃ origin j, t.Paced l origin j ∧
      (origin = (s.fetcher.memory.job d).frequency ∨ origin ≤ l.schedule.intervalMax)

omit [Cursor γ] in
theorem capped_of_new {c : Config} {f : Fetcher γ} {store : Table (State γ)}
    (made : Fetcher.new c = .ok f) (coherent : (⟨store, f⟩ : System γ).Coherent) :
    (⟨store, f⟩ : System γ).Capped := by
  intro d l t lane found
  rw [coherent.ticks_eq_none (initialised_of_new made)] at found
  cases found

theorem Moves.capped (moves : Moves now s a s') (coherent : s.Coherent) (capped : s.Capped) :
    s'.Capped := by
  intro d l t lane found
  rw [moves.config_eq] at lane
  have ticked := moves.ticked d
  generalize after : s'.fetcher.ticks.get d = x at ticked found
  cases ticked with
  | kept _ other =>
    obtain ⟨origin, j, paced, below⟩ := capped d l t lane found
    exact ⟨origin, j, paced, by rwa [job_of_other coherent moves found other]⟩
  | begun clock loop present ready =>
    obtain ⟨memory, -⟩ := memory_of_begin coherent moves
    cases found
    rw [Fetcher.begun, lane, memory]
    have paced := Tick.paced_start l s.fetcher.memory clock
    rw [direction_of_lane? lane] at paced
    exact ⟨_, [], paced, Or.inl rfl⟩
  | answered l' t₀ t' part lane' found' next =>
    cases found
    rw [lane] at lane'
    cases lane'
    rcases moves.memory_cases coherent (coherent.initialised found') with
      ⟨memory, -⟩ | ⟨b, state, resume, same, saving, memory⟩
    · obtain ⟨origin, j, paced, below⟩ := capped d l t₀ lane found'
      rw [memory]
      exact ⟨origin, _, paced.next? (Config.unrated_of_lane? lane) next, below⟩
    · cases same
      rw [saving] at found'
      cases found'
      cases next
      have paced := Tick.paced_saved l state resume none
      rw [direction_of_lane? lane] at paced
      exact ⟨_, [], paced, Or.inl (by rw [memory])⟩
  | back result done => cases found

omit [Cursor γ] in
theorem Capped.saving {next : State γ} {resume : Resume} (capped : s.Capped)
    (lane : s.fetcher.config.lane? d = some l)
    (found : s.fetcher.ticks.get d = some (.saving next resume)) :
    (next.job d).frequency = (s.fetcher.memory.job d).frequency ∨
      (next.job d).frequency ≤ l.schedule.intervalMax := by
  obtain ⟨origin, j, fits, below⟩ := capped d l _ lane found
  have fits : l.Fits origin _ (next.job l.direction).frequency := fits
  rw [direction_of_lane? lane] at fits
  rcases fits.cases with same | cut
  · rwa [same]
  · exact Or.inr cut

theorem stored_of_step (coherent : s.Coherent) (capped : s.Capped)
    (scheduled : s.fetcher.config.schedules.get d = some base)
    (stepped : s.step now e = some s') (stored : s'.stored? = some state) :
    (state.job d).frequency ≤ base.intervalMax ∨
      ∃ old, s.stored? = some old ∧ (state.job d).frequency = (old.job d).frequency := by
  cases coherent.stores (x := .event e) stepped with
  | same same => exact Or.inr ⟨state, same.symm.trans stored, rfl⟩
  | created missing fresh =>
    rw [fresh] at stored
    cases stored
    rw [Config.frequency_freshState, Config.startFrequency, scheduled]
    exact Or.inl base.startInterval_le
  | saved b l next resume lane tick held based stored' =>
    rw [stored'] at stored
    cases stored
    by_cases own : b = d
    · subst own
      rcases capped.saving lane tick with same | cut
      · exact Or.inr ⟨_, held, same⟩
      · rw [Config.lane?, scheduled] at lane
        cases lane
        exact Or.inl cut
    · exact Or.inr ⟨_, held, congrArg Job.frequency (based.2 d (Ne.symm own)).1⟩

theorem stored_of_run (coherent : s.Coherent) (capped : s.Capped)
    (scheduled : s.fetcher.config.schedules.get d = some base) (ran : s.run u = some s') :
    s'.Capped ∧ ∀ state, s'.stored? = some state → (state.job d).frequency ≤ base.intervalMax ∨
      ∃ old, s.stored? = some old ∧ (state.job d).frequency = (old.job d).frequency := by
  refine (after_invariant (P := fun m => (m.Coherent ∧ m.fetcher.config = s.fetcher.config) ∧
    m.Capped ∧ ∀ state, m.stored? = some state → (state.job d).frequency ≤ base.intervalMax ∨
      ∃ old, s.stored? = some old ∧ (state.job d).frequency = (old.job d).frequency)
    ?_ ⟨⟨coherent, rfl⟩, capped, fun state stored => Or.inr ⟨state, stored, rfl⟩⟩ ran).2
  intro now m e m' ⟨⟨coherent, config⟩, capped, kept⟩ stepped
  have moves := moves_of_step stepped
  refine ⟨⟨moves.coherent coherent, moves.config_eq.trans config⟩,
    moves.capped coherent capped, fun state stored => ?_⟩
  rcases stored_of_step coherent capped (by rw [config]; exact scheduled) stepped stored with
    cut | ⟨old, before, same⟩
  · exact Or.inl cut
  · rw [same]
    exact kept old before

/-! ## A tick in a run -/

/-- A tick that began with the frequency `origin` and has had the answers `j`; once it has succeeded
what it has set is in memory. -/
structure Spell (l : Lane) (origin : Duration) (j : List (Part γ)) (s : System γ) : Prop where
  lane : s.fetcher.config.lane? l.direction = some l
  ticking : ∃ t, s.fetcher.ticks.get l.direction = some t ∧ t.Paced l origin j ∧
    ∀ signal, t = .done (.ok signal) →
      l.Fits origin (Asked j ∨ l.rate ≠ none) (s.fetcher.memory.job l.direction).frequency

theorem spell_of_begin (coherent : s.Coherent)
    (lane : s.fetcher.config.lane? l.direction = some l)
    (going : (s.fetcher.memory.job l.direction).complete = true → l.rate = none)
    (moves : Moves now s (.tick l.direction (.begin clock)) s') :
    Spell l (s.fetcher.memory.job l.direction).frequency [] s' := by
  obtain ⟨memory, tick⟩ := memory_of_begin coherent moves
  rw [Fetcher.begun, lane] at tick
  refine ⟨by rw [moves.config_eq]; exact lane, _, tick, Tick.paced_start .., ?_⟩
  intro signal done
  unfold Tick.start at done
  dsimp only at done
  split at done
  · rename_i complete
    rw [memory]
    exact Lane.fits_of_not (by simp [Asked, going complete])
  · cases done

theorem Spell.step (h : Spell l origin j s) (coherent : s.Coherent) (moves : Moves now s a s')
    (goes : a ≠ .tick l.direction .finish) :
    Spell l origin (j ++ (a.partOf? l.direction).toList) s' := by
  obtain ⟨t, found, paced, ends⟩ := h.ticking
  refine ⟨by rw [moves.config_eq]; exact h.lane, ?_⟩
  rcases moves.tick_cases coherent h.lane found goes with
    ⟨other, after⟩ | ⟨part, t', rfl, next, after⟩
  · rw [Act.partOf?_eq_none other, Option.toList_none, List.append_nil,
      job_of_other coherent moves found other]
    exact ⟨t, after, paced, ends⟩
  · have part? : (Act.tick l.direction part).partOf? l.direction = some part := if_pos rfl
    rw [part?]
    refine ⟨t', after, paced.next? (Config.unrated_of_lane? h.lane) next, ?_⟩
    rintro signal rfl
    -- A tick that has succeeded has just saved.
    obtain ⟨state, asked, rfl, rfl, -⟩ := Tick.saved_of_next? next
    rcases moves.memory_cases coherent (coherent.initialised found) with
      ⟨-, quiet⟩ | ⟨b, next', resume, same, saving, memory⟩
    · exact absurd rfl (quiet _)
    · cases same
      cases found.symm.trans saving
      rw [memory]
      have fits : l.Fits origin _ (state.job l.direction).frequency := paced
      refine fits.congr (or_congr (asked_concat.trans (or_iff_left fun k => k rfl)) ?_)
      exact ⟨fun rated => ⟨trivial, rated⟩, And.right⟩

theorem Spell.run (h : Spell l origin [] s) (coherent : s.Coherent) (ran : s.run u = some s')
    (same : .tick l.direction .finish ∉ s.acts u) :
    Spell l origin (s.tickParts l.direction u) s' := by
  refine unfinished_invariant (P := fun u m => Spell l origin (s.tickParts l.direction u) m) ?_ h
    coherent ran same
  intro u now e m m' before coherent spell goes moves
  rw [tickParts_concat before]
  exact spell.step coherent moves goes

omit [Cursor γ] in
theorem nextRun_of_scheduled {f : Fetcher γ} (scheduled : f.config.schedules.get d = some base) :
    f.nextRun (some d) = (f.memory.job d).nextRun := by
  rw [Fetcher.nextRun, Fetcher.directions, List.foldl_cons, List.foldl_nil, scheduled]
  cases next : (f.memory.job d).nextRun <;> simp [NextRun.min, NextRun.le]

omit [Cursor γ] in
theorem nextRun_le_iff {f : Fetcher γ} {latest limit next : Instant}
    (scheduled : f.config.schedules.get d = some base)
    (began : (f.memory.job d).lastRun = some latest)
    (bounded : latest.add? base.intervalMax = some limit)
    (due : f.nextRun (some d) = .at next) :
    next ≤ limit ↔ (f.memory.job d).frequency ≤ base.intervalMax := by
  rw [nextRun_of_scheduled scheduled, Job.nextRun, began] at due
  split at due
  · cases due
  · dsimp only at due
    split at due
    · cases due
      exact Instant.le_iff_of_add? ‹_› bounded
    · cases due

/-- A tick that comes back with a success keeps in memory and in the store the frequency that it
began with, unless it sets one; so its frequency is within the ceiling exactly where it sets one or
began within the ceiling, and so is the time at which the direction is due next. A frequency above
the ceiling is the one that the store had at the start, and once a tick has kept one within the
ceiling there is none above it again. -/
theorem frequency_of_success {c : Config} {f : Fetcher γ} {store : Table (State γ)}
    {signal : Signal} (made : Fetcher.new c = .ok f)
    (named : ∀ state, store.get? c.id = some state → state.id = c.id)
    (before : (⟨store, f⟩ : System γ).run t = some s)
    (begins : s.step now (.turn d clock) = some m)
    (acts : s.act (.turn d clock) = .tick d (.begin clock)) (ran : m.run u = some s')
    (same : .tick d .finish ∉ m.acts u)
    (succeeds : s'.fetcher.ticks.get d = some (.done (.ok signal))) :
    ∃ base, c.schedules.get d = some base ∧ s'.stored? = some s'.fetcher.memory ∧
      (¬ c.Sets d (m.tickParts d u) →
        (s'.fetcher.memory.job d).frequency = (s.fetcher.memory.job d).frequency) ∧
      ((s'.fetcher.memory.job d).frequency ≤ base.intervalMax ↔
        c.Sets d (m.tickParts d u) ∨ (s.fetcher.memory.job d).frequency ≤ base.intervalMax) ∧
      (∀ latest limit next, (s'.fetcher.memory.job d).lastRun = some latest →
        latest.add? base.intervalMax = some limit → s'.fetcher.nextRun (some d) = .at next →
          (next ≤ limit ↔ (s'.fetcher.memory.job d).frequency ≤ base.intervalMax)) ∧
      ((s'.fetcher.memory.job d).frequency ≤ base.intervalMax ∨
        ∃ old, store.get? c.id = some old ∧
          (s'.fetcher.memory.job d).frequency = (old.job d).frequency) ∧
      ((s'.fetcher.memory.job d).frequency ≤ base.intervalMax →
        ∀ v s'' state, s'.run v = some s'' → s''.stored? = some state →
          (state.job d).frequency ≤ base.intervalMax) := by
  have start := coherent_of_new made named
  have coherent := start.run before
  have moves := moves_of_step begins
  rw [acts] at moves
  obtain ⟨config, ⟨loop, found⟩, l, lane, rfl, scheduled⟩ := lane_of_begin made before acts
  -- A tick that finds its job complete succeeds without a save, and with no rate to heed.
  have going : (s.fetcher.memory.job l.direction).complete = true → l.rate = none := by
    intro complete
    cases way : l.direction with
    | backward => exact Config.unrated_of_lane? lane way
    | forward =>
      rw [way] at found complete
      have edited := edited_of_new made start
      rw [incomplete_of_run start edited (bare_of_new made) before found] at complete
      cases complete
  have coherent' := moves.coherent coherent
  have begun := spell_of_begin coherent (by rw [config]; exact lane) going moves
  obtain ⟨tick, succeeds', -, ends⟩ := (begun.run coherent' ran same).ticking
  rw [succeeds] at succeeds'
  cases succeeds'
  have fits := (ends signal rfl).congr (or_congr_right (Config.rated_iff_of_lane? lane).symm)
  have later := coherent'.run ran
  have stored := later.mirrors.mirrored (later.initialised succeeds)
  have config' : s'.fetcher.config = c :=
    (regular_of_run coherent'.regular ran).2.trans (moves.config_eq.trans config)
  -- What is stored, from the start to the end of the tick and from there on.
  have whole : (⟨store, f⟩ : System γ).run (t ++ (now, .turn l.direction clock) :: u) = some s' :=
    after_append_eq_some.mpr ⟨s, before, after_cons_eq_some.mpr ⟨m, begins, ran⟩⟩
  have initial := (regular_of_new made).2
  obtain ⟨capped, traced⟩ := stored_of_run start (capped_of_new made start)
    (by rw [initial]; exact scheduled) whole
  refine ⟨l.schedule, scheduled, stored, fits.kept, fits.le_iff, ?_, ?_, ?_⟩
  · intro latest limit next began bounded due
    exact nextRun_le_iff (by rw [config']; exact scheduled) began bounded due
  · rw [← initial]
    exact traced _ stored
  · intro below v s'' state further stored'
    obtain ⟨-, traced'⟩ := stored_of_run later capped (by rw [config']; exact scheduled) further
    rcases traced' state stored' with cut | ⟨old, held, kept⟩
    · exact cut
    · rw [stored] at held
      cases held
      rw [kept]
      exact below

/-! ## A ceiling that came down -/

def strict : Config :=
  { id := "blocks", schedules := ⟨some { intervalMax := .ofSecs 10 }, none⟩ }

def newStrict : Fetcher HeightCursor := { config := strict, memory := strict.freshState }

def oneItem (outcome : Outcome HeightCursor) : List (Nat × Event HeightCursor) := [
  (0, .fetched .forward (.ok outcome)), (0, .merged .forward (.ok ⟨some ⟨100⟩, 1⟩)),
  (0, .lock .forward), (0, .saved .forward none)]

structure FirstTick (outcome : Outcome HeightCursor) (s m s' : System HeightCursor) : Prop where
  before : (⟨({} : Table _).insert "blocks" slow, newStrict⟩ : System HeightCursor).run
    (catchesUp.take 6) = some s
  begins : s.step 0 (.turn .forward .epoch) = some m
  ran : m.run (oneItem outcome) = some s'
  acts : s.act (.turn .forward .epoch) = .tick .forward (.begin .epoch)
  did : m.acts (oneItem outcome) = [.tick .forward (.fetched (.ok outcome)),
    .tick .forward (.merged (.ok ⟨some ⟨100⟩, 1⟩)), .tick .forward .lock,
    .tick .forward (.saved none)]

theorem firstTick_of_seen (outcome : Outcome HeightCursor) (signal : Signal)
    (seen : ((⟨({} : Table _).insert "blocks" slow, newStrict⟩ : System HeightCursor).run
      (catchesUp.take 6)).bind (fun s => (s.step 0 (.turn .forward .epoch)).bind fun m =>
        (m.run (oneItem outcome)).map fun s' => (s.act (.turn .forward .epoch),
          m.acts (oneItem outcome), s'.fetcher.ticks.get .forward)) =
      some (.tick .forward (.begin .epoch), [.tick .forward (.fetched (.ok outcome)),
        .tick .forward (.merged (.ok ⟨some ⟨100⟩, 1⟩)), .tick .forward .lock,
        .tick .forward (.saved none)], some (.done (.ok signal)))) :
    ∃ s m s', FirstTick outcome s m s' ∧
      s'.fetcher.ticks.get .forward = some (.done (.ok signal)) := by
  obtain ⟨s, before, seen⟩ := Option.bind_eq_some_iff.mp seen
  obtain ⟨m, begins, seen⟩ := Option.bind_eq_some_iff.mp seen
  obtain ⟨s', ran, seen⟩ := Option.map_eq_some_iff.mp seen
  simp only [Prod.mk.injEq] at seen
  obtain ⟨acts, did, back⟩ := seen
  exact ⟨s, m, s', ⟨before, begins, ran, acts, did⟩, back⟩

/-- A tick that asks for nothing keeps what an earlier fetcher has left, and one that asks for more
than there may be has it cut for good. -/
theorem frequency_of_success_strict :
    Fetcher.new strict = .ok newStrict ∧
    (∃ s m s', FirstTick {} s m s' ∧
      s'.fetcher.ticks.get .forward = some (.done (.ok (.interval (.ofSecs 40)))) ∧
      (s'.fetcher.memory.job .forward).frequency = (s.fetcher.memory.job .forward).frequency) ∧
    ∃ s m s', FirstTick { newInterval := some (.ofSecs 60) } s m s' ∧
      s'.fetcher.ticks.get .forward = some (.done (.ok (.interval (.ofSecs 10)))) ∧
      (s'.fetcher.memory.job .forward).frequency ≤ .ofSecs 10 ∧
      ∀ v s'' state, s'.run v = some s'' → s''.stored? = some state →
        (state.job .forward).frequency ≤ .ofSecs 10 := by
  have made : Fetcher.new strict = .ok newStrict := rfl
  have named : ∀ state, (({} : Table _).insert "blocks" slow).get? strict.id = some state →
      state.id = strict.id := by
    intro state found
    cases found
    rfl
  refine ⟨made, ?_, ?_⟩
  · obtain ⟨s, m, s', first, back⟩ :=
      firstTick_of_seen {} (.interval (.ofSecs 40)) rfl
    obtain ⟨base, scheduled, -, kept, -⟩ := frequency_of_success made named first.before
      first.begins first.acts first.ran (by simp [first.did]) back
    refine ⟨s, m, s', first, back, kept ?_⟩
    rw [tickParts, first.did]
    rintro (asked | rated)
    · exact asked rfl
    · exact rated.2 rfl
  · obtain ⟨s, m, s', first, back⟩ := firstTick_of_seen
      { newInterval := some (.ofSecs 60) } (.interval (.ofSecs 10)) rfl
    obtain ⟨base, scheduled, -, -, below, -, -, later⟩ := frequency_of_success made named
      first.before first.begins first.acts first.ran (by simp [first.did]) back
    cases scheduled
    have asked : Asked (m.tickParts .forward (oneItem { newInterval := some (.ofSecs 60) })) := by
      rw [tickParts, first.did]
      exact List.cons_ne_nil (Duration.ofSecs 60) []
    have cut := below.mpr (Or.inl (Or.inl asked))
    exact ⟨s, m, s', first, back, cut, later cut⟩

def stillSlow : State HeightCursor :=
  (slow.setJob .forward { frequency := .ofSecs 40, lastRun := some .epoch, runs := 1 }).setCursor
    .forward (some ⟨100⟩)

/-- The tick comes back with a success, and its direction is due later than the ceiling allows; only
its loop keeps to it. -/
theorem frequency_above_ceiling :
    ∃ (s : System HeightCursor) (limit next : Instant), Fetcher.new strict = .ok newStrict ∧
      (⟨({} : Table _).insert "blocks" slow, newStrict⟩ : System HeightCursor).run
        (catchesUp.take 6 ++ (0, .turn .forward .epoch) :: oneItem {}) = some s ∧
      s.fetcher.ticks.get .forward = some (.done (.ok (.interval (.ofSecs 40)))) ∧
      s.stored? = some stillSlow ∧ ¬ (stillSlow.job .forward).frequency ≤ .ofSecs 10 ∧
      Instant.epoch.add? (.ofSecs 10) = some limit ∧
      s.fetcher.nextRun (some .forward) = .at next ∧ ¬ next ≤ limit ∧
      (s.step 0 (.tickDone .forward)).bind
        (fun s => (s.fetcher.loops.get .forward).map (·.interval)) = some (.ofSecs 10) := by
  have seen : ((⟨({} : Table _).insert "blocks" slow, newStrict⟩ : System HeightCursor).run
      (catchesUp.take 6 ++ (0, .turn .forward .epoch) :: oneItem {})).map (fun s =>
        (s.fetcher.ticks.get .forward, s.stored?, s.fetcher.nextRun (some .forward),
          (s.step 0 (.tickDone .forward)).bind fun s =>
            (s.fetcher.loops.get .forward).map (·.interval))) =
      some (some (.done (.ok (.interval (.ofSecs 40)))), some stillSlow,
        .at ⟨40, 0, by decide, by decide, by decide⟩, some (.ofSecs 10)) := rfl
  obtain ⟨s, ran, seen⟩ := Option.map_eq_some_iff.mp seen
  simp only [Prod.mk.injEq] at seen
  obtain ⟨back, stored, due, keeps⟩ := seen
  exact ⟨s, ⟨10, 0, by decide, by decide, by decide⟩, _, rfl, ran, back, stored, by decide, rfl,
    due, by decide, keeps⟩

end System
end ChainFetch.Fetch
