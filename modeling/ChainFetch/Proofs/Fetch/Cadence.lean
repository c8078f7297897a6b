import ChainFetch.Proofs.Fetch.Ledger
/-!
The interval of a loop and the frequency of its job. A tick works its frequency out from what it was
asked for, and saves it; the loop works its interval out from the signal of the tick, by a
configuration that was made for the state found at its start. Main statements: `Resets.next?`, a
tick asks for a reset only beside the interval which that restores, and `interval_of_success`, the
two agree after every success.
-/

namespace ChainFetch.Fetch

open Schedule (Loop Effect Signal)

variable {γ : Type}

/-! ## Ticks -/

/-- A tick that is to come back with a signal of its own asks for a reset, and its frequency is then
the interval that a reset restores. -/
def Resume.Resets (l : Lane) (own : Job) : Resume → Prop
  | .again => True
  | .finish _ asked =>
    ∀ signal, asked = some signal → signal = .reset ∧ own.frequency = l.schedule.resetInterval

namespace Tick

variable {l : Lane} {memory work next : State γ} {t t' : Tick γ} {part : Part γ}

def Resets (l : Lane) : Tick γ → Prop
  | .locking work resume => resume.Resets l (work.job l.direction)
  | .saving next resume => resume.Resets l (next.job l.direction)
  | _ => True

theorem resets_settle (l : Lane) (work : State γ) (error : Option Failure) (paced : Bool)
    (newItems : UInt64) : (settle l work error paced newItems).Resets l := by
  unfold settle
  split
  · rintro signal ⟨⟩
  · split
    · rintro signal ⟨⟩
    · rintro signal ⟨⟩
      exact ⟨rfl, by simp [State.setFrequency, State.setJob, State.job]⟩
    · rintro signal ⟨⟩
    · rintro signal ⟨⟩

theorem resets_pace (l : Lane) (work : State γ) (outcome : Outcome γ) (error : Option Failure)
    (newItems : UInt64) : (pace l work outcome error newItems).Resets l := by
  unfold pace
  dsimp only
  split
  · trivial
  · exact resets_settle ..

theorem resets_fetched (l : Lane) (work : State γ) (a : Except Failure (Outcome γ)) :
    (fetched l work a).Resets l := by
  rcases a with e | outcome
  · simp only [fetched]
    split
    · trivial
    · exact resets_pace ..
  · simp only [fetched]
    split
    · trivial
    · exact resets_pace ..

theorem resets_merged [Cursor γ] (l : Lane) (work : State γ) (outcome : Outcome γ)
    (a : Except Failure (Merge γ)) : (merged l work outcome a).Resets l := by
  unfold merged
  split <;> exact resets_pace ..

theorem resets_judged (l : Lane) (work : State γ) (paced : Bool) (newItems : UInt64)
    (a : Except Failure Bool) : (judged l work paced newItems a).Resets l := by
  unfold judged
  dsimp only
  split
  · split
    · exact resets_settle ..
    · trivial
  · exact resets_settle ..
  · exact resets_settle ..

theorem resets_saved (l : Lane) (next : State γ) (resume : Resume) (fault : Option StoreFailure) :
    (saved l next resume fault).Resets l := by
  unfold saved
  split <;> trivial

theorem resets_start (l : Lane) (memory : State γ) (clock : Instant) :
    (start l memory clock).Resets l := by
  unfold start
  dsimp only
  split <;> trivial

theorem Resets.next? [Cursor γ] (resets : t.Resets l) (next : t.next? l memory part = some t') :
    t'.Resets l := by
  cases t with
  | fetching work =>
    cases part with
    | fetched a =>
      cases next
      exact resets_fetched ..
    | _ => cases next
  | merging work outcome =>
    cases part with
    | merged a =>
      cases next
      exact resets_merged ..
    | _ => cases next
  | judging work paced newItems =>
    cases part with
    | judged a =>
      cases next
      exact resets_judged ..
    | _ => cases next
  | locking work resume =>
    cases part with
    | lock =>
      cases next
      rw [locked, Resets, State.job_adopt_self]
      exact resets
    | _ => cases next
  | saving state resume =>
    cases part with
    | saved fault =>
      cases next
      exact resets_saved ..
    | _ => cases next
  | done result => cases part <;> cases next

end Tick

/-! ## Loops -/

inductive Signals (base : Schedule.Config) (own : Job) : Signal → Prop
  | interval : Signals base own (.interval own.frequency)
  | reset (restored : own.frequency = base.resetInterval) : Signals base own .reset

/-- The loop keeps to the schedule that it was made for. -/
structure Heeds (base : Schedule.Config) (l : Loop) : Prop where
  ceiling : l.config.intervalMax = base.intervalMax
  reset : l.config.resetInterval = base.resetInterval

theorem Heeds.congr {base : Schedule.Config} {l l' : Loop} (h : Heeds base l)
    (same : l'.config = l.config) : Heeds base l' where
  ceiling := (congrArg Schedule.Config.intervalMax same).trans h.ceiling
  reset := (congrArg Schedule.Config.resetInterval same).trans h.reset

theorem heeds_of_loop? {c : Config} {state : State γ} {d : Direction} {base : Schedule.Config}
    {l : Loop} (scheduled : c.schedules.get d = some base) (made : c.loop? state d = some l) :
    Heeds base l := by
  rw [Config.loop?, scheduled] at made
  obtain ⟨-, made⟩ := Option.ite_none_left_eq_some.mp made
  cases made
  exact ⟨rfl, Duration.min_eq_left base.resetInterval_le⟩

theorem Heeds.step {base : Schedule.Config} {l l' : Loop} {now : Nat} {e : Schedule.Event}
    {effects : List Effect} (h : Heeds base l) (moved : l.step now e = some (l', effects)) :
    Heeds base l' := by
  rcases Loop.count_cases moved with ⟨same, -⟩ | ⟨-, -, same, -⟩ | ⟨signal, -, -, same, -⟩
  · exact h.congr (congrArg Schedule.Count.config same)
  · exact h.congr (congrArg Schedule.Count.config same)
  · exact h.congr (congrArg Schedule.Count.config same)

theorem Heeds.intervalAfter {base : Schedule.Config} {l : Loop} {own : Job} {signal : Signal}
    (h : Heeds base l) (signals : Signals base own signal) :
    l.intervalAfter signal = min own.frequency base.intervalMax := by
  cases signals with
  | interval => rw [Loop.intervalAfter, h.ceiling]
  | reset restored =>
    rw [Loop.intervalAfter, h.reset, restored]
    exact (Duration.min_eq_left base.resetInterval_le).symm

namespace System

variable {s s' : System γ} {now : Nat} {d : Direction} {e : Event γ} {l l' : Loop}
  {back : Option (Direction × Except Failure Signal)} {base : Schedule.Config}
  {t : List (Nat × Event γ)} {j : List (Entry γ)}

theorem Turned.interval_eq (turned : Turned now d back l l') (sound : l.Sound)
    (begun : l.stage ≠ .unstarted) (quiet : ∀ signal, back ≠ some (d, .ok signal)) :
    l'.interval = l.interval := by
  cases turned with
  | kept count => exact congrArg Schedule.Count.interval count
  | own ev effects moved inside finished =>
    rcases Loop.count_cases moved with ⟨same, -⟩ | ⟨idle, -⟩ | ⟨signal, rfl, -⟩
    · exact congrArg Schedule.Count.interval same
    · exact absurd (sound.unstarted idle) begun
    · exact absurd ((finished _).mpr rfl) (quiet signal)

theorem Turned.heeds (turned : Turned now d back l l') (heeds : Heeds base l) : Heeds base l' := by
  cases turned with
  | kept count => exact heeds.congr (congrArg Schedule.Count.config count)
  | own ev effects moved => exact heeds.step moved

theorem Turned.credits {signal : Signal}
    (turned : Turned now d (some (d, .ok signal)) l l') :
    l'.interval = l.intervalAfter signal ∧ l'.stage ≠ .unstarted := by
  cases turned with
  | kept count stage status other => exact absurd rfl (other _)
  | own ev effects moved inside finished =>
    cases (finished _).mp rfl
    obtain ⟨since, ticking, same⟩ := Loop.tickDone_ok_cases moved
    have count := (l.count_succeeded now since signal).1
    rw [← same] at count
    refine ⟨congrArg Schedule.Count.interval count, ?_⟩
    rw [ne_eq, Loop.unstarted_of_step moved (by simp), ticking]
    simp

/-- The loop of a direction and its ticks by the ledger `j`: the signal of a tick that is done goes
with the state that it has saved, and from its success on, the loop's interval is the frequency that
was saved before it, until the next tick comes back. -/
structure Cadenced (base : Schedule.Config) (d : Direction) (j : List (Entry γ)) (s : System γ) :
    Prop where
  resets : ∀ l t, s.fetcher.config.lane? d = some l → s.fetcher.ticks.get d = some t → t.Resets l
  heeds : ∀ l, s.fetcher.loops.get d = some l → Heeds base l
  done : ∀ signal, s.fetcher.ticks.get d = some (.done (.ok signal)) → signal ≠ .stop →
    ∃ early state, j = early ++ [.saved state] ∧ Signals base (state.job d) signal
  since : ∀ early signal later, j = early ++ .back (.ok signal) :: later → signal ≠ .stop →
    (∀ result, .back result ∉ later) →
      ∃ older state l, early = older ++ [.saved state] ∧ Signals base (state.job d) signal ∧
        s.fetcher.loops.get d = some l ∧ l.stage ≠ .unstarted ∧
        l.interval = min (state.job d).frequency base.intervalMax

theorem cadenced_of_bare (regular : s.fetcher.Regular) (bare : s.fetcher.Bare) :
    Cadenced base d [] s := by
  have idle := regular.ticks_eq_none (bare d).1
  refine ⟨?_, ?_, ?_, ?_⟩
  · intro l t lane found
    rw [idle] at found
    cases found
  · intro l found
    rw [(bare d).1] at found
    cases found
  · intro signal found
    rw [idle] at found
    cases found
  · intro early signal later came
    simp at came

theorem Cadenced.heeds_step (h : Cadenced base d j s)
    (scheduled : s.fetcher.config.schedules.get d = some base) (shift : Shift now s s' back)
    (found' : s'.fetcher.loops.get d = some l') : Heeds base l' := by
  cases found : s.fetcher.loops.get d with
  | none => exact heeds_of_loop? scheduled (shift.made found found').2.2
  | some l =>
    obtain ⟨k, present, turned⟩ := shift.turned found
    rw [found'] at present
    cases present
    exact turned.heeds (h.heeds l found)

section Runs

variable [Cursor γ]

theorem Cadenced.resets_step (h : Cadenced base d j s) (moves : Moves now s (s.act e) s')
    {l : Lane} {t : Tick γ} (lane : s'.fetcher.config.lane? d = some l)
    (found : s'.fetcher.ticks.get d = some t) : t.Resets l := by
  rw [moves.config_eq] at lane
  have ticked := moves.ticked d
  generalize s'.fetcher.ticks.get d = after, s.act e = a at ticked found
  cases ticked with
  | kept _ other => exact h.resets l t lane found
  | begun clock loop present ready =>
    cases found
    rw [Fetcher.begun, lane]
    exact Tick.resets_start ..
  | answered l' t₀ t' part lane' found' next =>
    cases found
    rw [lane] at lane'
    cases lane'
    exact (h.resets l t₀ lane found').next? next
  | back result done => cases found

theorem Cadenced.done_step {signal : Signal} (h : Cadenced base d j s)
    (scheduled : s.fetcher.config.schedules.get d = some base) (moves : Moves now s (s.act e) s')
    (done : s'.fetcher.ticks.get d = some (.done (.ok signal))) (goes : signal ≠ .stop) :
    ∃ early state, j ++ (s.enters? d (s.act e)).toList = early ++ [.saved state] ∧
      Signals base (state.job d) signal := by
  rcases moves.done_cases (fun stop => absurd stop goes) done with
    ⟨same, none⟩ | ⟨state, asked, acts, saving, came⟩
  · obtain ⟨early, state, before, signals⟩ := h.done signal same goes
    exact ⟨early, state, by rw [none, before]; simp, signals⟩
  · refine ⟨j, state, by rw [acts, enters?_of_saving saving]; rfl, ?_⟩
    have lane : s.fetcher.config.lane? d =
        some ⟨d, base, if d = .forward then s.fetcher.config.rate else none⟩ := by
      rw [Config.lane?, scheduled]
      rfl
    have resets := h.resets _ _ lane saving
    rw [if_neg (fun complete => goes (came.trans (if_pos complete)))] at came
    cases asked with
    | none =>
      rw [came]
      exact .interval
    | some signal' =>
      obtain ⟨reset, restored⟩ := resets signal' rfl
      rw [came, Option.getD_some, reset]
      exact .reset restored

theorem Cadenced.since_step {early later : List (Entry γ)} {signal : Signal}
    (h : Cadenced base d j s) (regular : s.fetcher.Regular) (stepped : s.step now e = some s')
    (came : j ++ (s.enters? d (s.act e)).toList = early ++ .back (.ok signal) :: later)
    (goes : signal ≠ .stop) (last : ∀ result, .back result ∉ later) :
    ∃ older state l, early = older ++ [.saved state] ∧ Signals base (state.job d) signal ∧
      s'.fetcher.loops.get d = some l ∧ l.stage ≠ .unstarted ∧
      l.interval = min (state.job d).frequency base.intervalMax := by
  have shift := shift_of_step regular stepped
  rcases append_toList_cases came with ⟨new, -, rfl⟩ | ⟨later', rfl, older⟩
  · have finished := enters?_eq_back.mp new
    obtain ⟨older, state, before, signals⟩ := h.done signal (done_of_finished? finished) goes
    rw [finished] at shift
    obtain ⟨l, found, -⟩ := shift.found regular
    obtain ⟨l', found', turned⟩ := shift.turned found
    obtain ⟨interval, begun⟩ := turned.credits
    exact ⟨older, state, l', before, signals, found', begun,
      interval.trans ((h.heeds l found).intervalAfter signals)⟩
  · obtain ⟨older, state, l, before, signals, found, begun, interval⟩ :=
      h.since early signal later' older goes fun result k => last result (List.mem_append_left _ k)
    -- No tick comes back in this step.
    have quiet : ∀ signal, s.finished? (s.act e) ≠ some (d, .ok signal) := by
      intro signal finished
      apply last (.ok signal)
      rw [enters?_eq_back.mpr finished]
      simp
    have sound := regular.sound d l found
    obtain ⟨l', found', turned⟩ := shift.turned found
    exact ⟨older, state, l', before, signals, found', (turned.follows sound).begun begun,
      (turned.interval_eq sound begun quiet).trans interval⟩

theorem cadenced_of_run {s₀ : System γ} (regular : s₀.fetcher.Regular) (bare : s₀.fetcher.Bare)
    (scheduled : s₀.fetcher.config.schedules.get d = some base) (ran : s₀.run t = some s) :
    Cadenced base d (s₀.ledger d t) s := by
  refine after_history (P := fun t m => Cadenced base d (s₀.ledger d t) m) ?_ ?_ ran
  · intro t now e m m' before cadenced stepped
    obtain ⟨regular', config⟩ := regular_of_run regular before
    rw [← config] at scheduled
    have moves := moves_of_step stepped
    rw [ledger_concat before]
    exact ⟨fun _ _ => cadenced.resets_step moves,
      fun _ => cadenced.heeds_step scheduled (shift_of_step regular' stepped),
      fun _ => cadenced.done_step scheduled moves,
      fun _ _ _ => cadenced.since_step regular' stepped⟩
  · exact cadenced_of_bare regular bare

/-- After a success that does not end its loop, the loop's interval is the frequency that its tick
has saved, cut where the schedule says, and so it is told to the next tick. After a reset both are
the interval that the schedule of the direction restores, whatever was found at the start. -/
theorem interval_of_success {c : Config} {f : Fetcher γ} {store : Table (State γ)}
    {early later : List (Entry γ)} {signal : Signal} (made : Fetcher.new c = .ok f)
    (scheduled : c.schedules.get d = some base)
    (ran : (⟨store, f⟩ : System γ).run t = some s)
    (came : (⟨store, f⟩ : System γ).ledger d t = early ++ .back (.ok signal) :: later)
    (goes : signal ≠ .stop) (last : ∀ result, .back result ∉ later) :
    ∃ older state l, early = older ++ [.saved state] ∧ s.fetcher.loops.get d = some l ∧
      l.interval = min (state.job d).frequency base.intervalMax ∧
      (signal = .reset →
        (state.job d).frequency = base.resetInterval ∧ l.interval = base.resetInterval) ∧
      ∀ now l' effects context, l.step now .turn = some (l', effects) → .tick context ∈ effects →
        context.interval = min (state.job d).frequency base.intervalMax := by
  obtain ⟨regular, same⟩ := regular_of_new made
  have cadenced := cadenced_of_run regular (bare_of_new made) (by rw [same]; exact scheduled) ran
  obtain ⟨older, state, l, before, signals, found, -, interval⟩ :=
    cadenced.since early signal later came goes last
  refine ⟨older, state, l, before, found, interval, ?_, ?_⟩
  · rintro rfl
    cases signals with
    | reset restored =>
      have below := base.resetInterval_le
      rw [Duration.le_def] at below
      refine ⟨restored, ?_⟩
      rw [interval, restored]
      exact Duration.ext (Nat.min_eq_left below)
  · intro now l' effects context stepped told
    obtain ⟨-, rfl⟩ := Loop.ready_of_tick stepped told
    exact interval

end Runs

/-! ## A reset after a restart -/

def eager : Config :=
  { id := "blocks", schedules := ⟨some {}, none⟩, rate := some (.new .leastNormal 0) }

def newEager : Fetcher HeightCursor := { config := eager, memory := eager.freshState }

def slow : State HeightCursor := .fresh "blocks" ⟨.ofSecs 40, .ofSecs 1⟩

def catchesUp : List (Nat × Event HeightCursor) := [
  (0, .call .run), (0, .advance 0 none), (0, .advance 0 none), (0, .advance 0 none),
  (0, .advance 0 none), (0, .enter .forward .zero), (0, .turn .forward .epoch),
  (0, .fetched .forward (.ok {})), (0, .merged .forward (.ok ⟨some ⟨100⟩, 1⟩)),
  (0, .lock .forward), (0, .saved .forward none), (0, .tickDone .forward),
  (1000, .timeout .forward)]

def caughtUp : State HeightCursor where
  id := "blocks"
  jobs := ⟨{ frequency := .ofSecs 1, lastRun := some .epoch, runs := 1 },
    { frequency := .ofSecs 1 }⟩
  cursors := ⟨some ⟨100⟩, none⟩

/-- The first tick is told what the loop resumes with, and the second the configured interval. -/
theorem interval_of_success_catchesUp :
    Fetcher.new eager = .ok newEager ∧
    ((⟨({} : Table _).insert "blocks" slow, newEager⟩ : System HeightCursor).run
      (catchesUp.take 6)).bind (fun s => (s.fetcher.loops.get .forward).map (·.interval)) =
        some (.ofSecs 40) ∧
    ∃ (s : System HeightCursor) (l l' : Loop) (effects : List Effect) (context : Schedule.Context),
      (⟨({} : Table _).insert "blocks" slow, newEager⟩ : System HeightCursor).run catchesUp =
          some s ∧
        s.fetcher.loops.get .forward = some l ∧ l.interval = .ofSecs 1 ∧
        l.step 1000 .turn = some (l', effects) ∧ .tick context ∈ effects ∧
        context.interval = min (caughtUp.job .forward).frequency (.ofSecs 300) := by
  have made : Fetcher.new eager = .ok newEager := rfl
  have ends : ((⟨({} : Table _).insert "blocks" slow, newEager⟩ : System HeightCursor).run
      catchesUp).bind (fun s => (s.fetcher.loops.get .forward).bind fun l =>
        (l.step 1000 .turn).map (·.2)) = some [.tick ⟨false, .ofSecs 1⟩] := rfl
  obtain ⟨s, ran, ends⟩ := Option.bind_eq_some_iff.mp ends
  obtain ⟨l, found, ends⟩ := Option.bind_eq_some_iff.mp ends
  obtain ⟨⟨l', effects⟩, stepped, told⟩ := Option.map_eq_some_iff.mp ends
  cases told
  have came : (⟨({} : Table _).insert "blocks" slow, newEager⟩ : System HeightCursor).ledger
      .forward catchesUp = [.saved caughtUp] ++ .back (.ok .reset) :: [] := rfl
  obtain ⟨older, state, l₀, before, found', -, reset, next⟩ :=
    interval_of_success made rfl ran came (by simp) (by simp)
  rw [found] at found'
  cases found'
  have split : [] ++ [Entry.saved caughtUp] = older ++ [.saved state] := before
  obtain ⟨rfl, same⟩ := List.append_inj' split rfl
  cases same
  exact ⟨made, rfl, s, l, l', _, _, ran, found, (reset rfl).2, stepped, List.mem_singleton.mpr rfl,
    next 1000 l' _ _ stepped (List.mem_singleton.mpr rfl)⟩

end System
end ChainFetch.Fetch
