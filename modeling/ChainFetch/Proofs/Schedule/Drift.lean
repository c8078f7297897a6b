import Mathlib.Algebra.GroupWithZero.Nat
import ChainFetch.Proofs.Schedule.Alone
import ChainFetch.Proofs.Schedule.Tally
/-!
When the ticks of an undisturbed loop start, with no time lost between them. Main statement:
`starts_of_run`, each start is the one before it and, after that, the longer of the tick and the
interval in effect after it where timing is accurate, their sum where it is not.
-/

namespace ChainFetch

theorem Duration.ceilMillis_sub_ofMillis (d : Duration) (n : Nat) :
    (d - .ofMillis n).ceilMillis = d.ceilMillis - n := by
  simp only [ceilMillis, nanos_sub, ofMillis]
  omega

namespace Schedule

/-- Whether an event leaves a loop to itself: no wake, no request to stop, no failed tick. -/
def Event.calm : Event → Bool
  | .wake => false
  | .askStop => false
  | .settleStop => false
  | .tickDone (.error _) => false
  | _ => true

/-- A tick that has succeeded, with the interval in effect after it. Times are milliseconds. -/
structure Lap where
  start : Nat
  took : Nat
  interval : Duration
  deriving DecidableEq

namespace Lap

def span (accurate : Bool) (x : Lap) : Nat :=
  if accurate then max x.interval.ceilMillis x.took else x.interval.ceilMillis + x.took

/-- The start of the tick after the ones in `done`, where `first` is that of the first. -/
def next (accurate : Bool) (first : Nat) (done : List Lap) : Nat :=
  first + (done.map (span accurate)).sum

variable {accurate : Bool} {first : Nat} {done : List Lap} {x : Lap}

theorem next_concat :
    next accurate first (done ++ [x]) = next accurate first done + x.span accurate := by
  simp [next, Nat.add_assoc]

theorem next_of_within {n : Nat} (steady : ∀ x ∈ done, x.interval.ceilMillis = n)
    (within : ∀ x ∈ done, x.took ≤ n) : next true first done = first + done.length * n := by
  have spans : done.map (span true) = done.map fun _ => n := by
    refine List.map_congr_left fun x mem => ?_
    rw [span, if_pos rfl, steady x mem]
    exact Nat.max_eq_left (within x mem)
  rw [next, spans, List.map_const', List.sum_replicate_nat]

end Lap

namespace Loop

variable {config : Config} {mode : Mode} {l l' : Loop} {now later : Nat} {e : Event}
  {effects : List Effect} {given : List Signal} {t : List (Nat × Event)}

def starts (log : List (Nat × Effect)) : List Nat :=
  log.filterMap fun
    | (now, .tick _) => some now
    | _ => none

def lap? (now : Nat) (l : Loop) (e : Event) (l' : Loop) : Option Lap :=
  match l.stage, e with
  | .ticking since, .tickDone (.ok _) => some ⟨since, now - since, l'.interval⟩
  | _, _ => none

def laps (l : Loop) : List (Nat × Event) → List Lap
  | [] => []
  | (now, e) :: t =>
    match l.step now e with
    | some (l', _) => (l.lap? now e l').toList ++ l'.laps t
    | none => []

def flight? (l : Loop) : Option Nat :=
  match l.stage with
  | .ticking since => some since
  | _ => none

def comes? (now : Nat) (l : Loop) : Option Nat :=
  match l.stage with
  | .ready => some now
  | .waiting since (some length) _ => some (since + length.ceilMillis)
  | _ => none

theorem laps_cons (h : l.step now e = some (l', effects)) :
    l.laps ((now, e) :: t) = (l.lap? now e l').toList ++ l'.laps t := by
  rw [laps, h]

theorem starts_append (log log' : List (Nat × Effect)) :
    starts (log ++ log') = starts log ++ starts log' := List.filterMap_append

theorem starts_of_quiet (h : ∀ c, .tick c ∉ effects) : starts (effects.map (now, ·)) = [] := by
  rw [starts, List.filterMap_map, List.filterMap_eq_nil_iff]
  intro effect mem
  cases effect with
  | tick context => exact absurd mem (h context)
  | firstSuccess => rfl
  | sleep length => rfl
  | returned => rfl

theorem lap?_of_ticking {since : Nat} {signal : Signal} (ticking : l.stage = .ticking since) :
    l.lap? now (.tickDone (.ok signal)) l' = some ⟨since, now - since, l'.interval⟩ := by
  simp only [lap?, ticking]

theorem lap?_eq_none (h : ∀ signal, e ≠ .tickDone (.ok signal)) : l.lap? now e l' = none := by
  unfold lap?
  split
  · exact absurd rfl (h _)
  · rfl

/-! ## The intervals in effect -/

theorem Paced.interval_of_laps (h : l.Paced config given) (ran : l.run t = some l') {k : Nat}
    {x : Lap} (at_ : (l.laps t)[k]? = some x) :
    x.interval =
      (given ++ (signals t).take (k + 1)).foldl config.next config.startInterval.toWord := by
  induction t generalizing l given k with
  | nil => simp [laps] at at_
  | cons y t ih =>
    obtain ⟨now, e⟩ := y
    obtain ⟨m, effects, first, rest⟩ := run_cons_eq_some.mp ran
    have later := h.step first
    rw [laps_cons first] at at_
    by_cases success : ∃ signal, e = .tickDone (.ok signal)
    · obtain ⟨signal, rfl⟩ := success
      obtain ⟨since, ticking, -⟩ := tickDone_ok_cases first
      rw [lap?_of_ticking ticking] at at_
      rw [signals_cons]
      cases k with
      | zero =>
        cases at_
        have begun := (unstarted_of_step first (by simp)).not.mpr (by simp [ticking])
        exact later.begun begun
      | succ k =>
        have tail := ih later rest at_
        rw [List.append_assoc] at tail
        exact tail
    · have unsaid : ∀ signal, e ≠ .tickDone (.ok signal) := fun signal same =>
        success ⟨signal, same⟩
      rw [lap?_eq_none unsaid, Option.toList_none, List.nil_append] at at_
      rw [Event.signal?_eq_none unsaid, Option.toList_none, List.append_nil] at later
      rw [signals_cons, Event.signal?_eq_none unsaid, Option.toList_none, List.nil_append]
      exact ih later rest at_

/-! ## The starts -/

/-- A loop that is left to itself at `now`, with the ticks that have `begun` and those that are
`done`: each began when it should, and so will the next one. -/
structure OnTime (config : Config) (begun : List Nat) (done : List Lap) (now : Nat) (l : Loop) :
    Prop where
  sound : l.Sound
  config_eq : l.config = config
  periodic : l.mode = .periodic
  calm : Alone.Untouched l
  fresh : l.stage = .unstarted → begun = [] ∧ done = []
  begun_eq : begun = done.map Lap.start ++ l.flight?.toList
  lawful : ∀ k b first, begun[k]? = some b → begun[0]? = some first →
    b = Lap.next config.accurateTiming first (done.take k)
  ahead : ∀ since, l.flight? = some since → since ≤ now
  limited : ∀ since notified, l.stage ≠ .waiting since none notified
  held : ∀ due, l.comes? now = some due → now ≤ due
  due : ∀ due first, l.comes? now = some due → begun[0]? = some first →
    due = Lap.next config.accurateTiming first done

variable {begun : List Nat} {done : List Lap}

theorem onTime_new (config : Config) (now : Nat) :
    (new config .periodic).OnTime config [] [] now where
  sound := sound_new config .periodic
  config_eq := rfl
  periodic := rfl
  calm := ⟨rfl, rfl, by simp [new]⟩
  fresh _ := ⟨rfl, rfl⟩
  begun_eq := rfl
  lawful k _ _ at_ := by simp at at_
  ahead _ flies := by simp [new, flight?] at flies
  limited := by simp [new]
  held _ comes := by simp [new, comes?] at comes
  due _ _ comes := by simp [new, comes?] at comes

theorem nextEvent?_of_comes? {due : Nat} (h : l.comes? now = some due) :
    (l.nextEvent? due).isSome := by
  unfold comes? at h
  split at h
  · rename_i stage
    simp [nextEvent?, stage]
  · rename_i since length notified stage
    cases h
    simp only [nextEvent?, stage]
    split
    · rfl
    · split <;> simp
  · cases h

theorem OnTime.rest (h : l.OnTime config begun done now) (order : now ≤ later)
    (rests : ∀ x < later, now ≤ x → l.nextEvent? x = none) :
    l.OnTime config begun done later := by
  have bound : ∀ due, l.comes? now = some due → later ≤ due := by
    intro due comes
    by_contra passed
    have acts := nextEvent?_of_comes? comes
    rw [rests due (by omega) (h.held due comes)] at acts
    cases acts
  have same : ∀ due, l.comes? later = some due → l.comes? now = some due := by
    intro due comes
    unfold comes? at comes ⊢
    split at comes
    · rename_i stage
      have still := bound now (by simp [comes?, stage])
      exact (congrArg some (Nat.le_antisymm order still)).trans comes
    · exact comes
    · cases comes
  exact { h with
    ahead := fun since flies => Nat.le_trans (h.ahead since flies) order
    held := fun due comes => bound due (same due comes)
    due := fun due first comes => h.due due first (same due comes) }

theorem OnTime.keep (h : l.OnTime config begun done now) (sound : l'.Sound)
    (config_eq : l'.config = l.config) (periodic : l'.mode = l.mode) (calm : Alone.Untouched l')
    (grounded : l.flight? = none ∧ l'.flight? = none) (begins : l'.stage ≠ .unstarted)
    (limited : ∀ since notified, l'.stage ≠ .waiting since none notified)
    (held : ∀ due, l'.comes? now = some due → now ≤ due)
    (due : begun = [] ∨ ∀ due, l'.comes? now = some due → l.comes? now = some due) :
    l'.OnTime config begun done now where
  sound := sound
  config_eq := config_eq.trans h.config_eq
  periodic := periodic.trans h.periodic
  calm := calm
  fresh unstarted := absurd unstarted begins
  begun_eq := by rw [grounded.2, ← grounded.1]; exact h.begun_eq
  lawful := h.lawful
  ahead since flies := by simp [grounded.2] at flies
  limited := limited
  held := held
  due d first comes began := by
    rcases due with none | same
    · simp [none] at began
    · exact h.due d first (same d comes) began

theorem OnTime.start {jitter : Duration} (h : l.OnTime config begun done now)
    (k : l.step now (.start jitter) = some (l', effects)) : l'.OnTime config begun done now := by
  have sound := sound_step h.sound k
  rcases start_cases k with ⟨-, rfl, -⟩ | ⟨idle, m, rfl, ⟨rfl, -⟩ | ⟨stop, -⟩ | ⟨length, rfl, -⟩⟩
  · exact h
  · have unstarted := h.sound.unstarted idle
    refine h.keep sound rfl rfl ⟨h.calm.stopAsked, h.calm.permit, by simp⟩
      ⟨by simp [flight?, unstarted], rfl⟩ (by simp) (by simp) ?_ (Or.inl (h.fresh unstarted).1)
    intro due comes
    cases comes
    exact Nat.le_refl _
  · rw [h.calm.stopAsked] at stop
    cases stop
  · have unstarted := h.sound.unstarted idle
    refine h.keep sound rfl rfl ⟨h.calm.stopAsked, h.calm.permit, by simp⟩
      ⟨by simp [flight?, unstarted], rfl⟩ (by simp) (by simp) ?_ (Or.inl (h.fresh unstarted).1)
    intro due comes
    cases comes
    exact Nat.le_add_right _ _

theorem OnTime.timeout (h : l.OnTime config begun done now)
    (k : l.step now .timeout = some (l', effects)) : l'.OnTime config begun done now := by
  have sound := sound_step h.sound k
  obtain ⟨since, length, notified, stage, rfl, -⟩ := timeout_cases k
  have ends : l.comes? now = some now := by
    have due : l.comes? now = some (since + length.ceilMillis) := by simp only [comes?, stage]
    have early := h.held _ due
    have late := over_of_timeout k stage
    rw [due, Nat.le_antisymm late early]
  refine h.keep sound rfl rfl (Alone.untouched_of_step h.calm (Or.inr (Or.inr rfl)) k)
    ⟨by simp [flight?, stage], rfl⟩ (by simp) (by simp) ?_ (Or.inr ?_)
  · intro due comes
    cases comes
    exact Nat.le_refl _
  · intro due comes
    cases comes
    exact ends

theorem OnTime.turn (h : l.OnTime config begun done now)
    (k : l.step now .turn = some (l', effects)) :
    l'.OnTime config (begun ++ [now]) done now ∧ ∃ context, effects = [.tick context] := by
  have sound := sound_step h.sound k
  have calm := Alone.untouched_of_step h.calm (Or.inl rfl) k
  obtain ⟨ready, ⟨stop, -⟩ | ⟨-, rfl, rfl⟩⟩ := turn_cases k
  · rw [h.calm.stopAsked] at stop
    cases stop
  refine ⟨⟨sound, h.config_eq, h.periodic, calm, by simp, ?_, ?_, ?_, by simp, ?_, ?_⟩, _, rfl⟩
  · rw [h.begun_eq]
    simp [flight?, ready]
  · have count : begun.length = done.length := by
      rw [h.begun_eq]
      simp [flight?, ready]
    intro k b first began zero
    rcases Nat.lt_or_ge k begun.length with old | new
    · rw [List.getElem?_append_left old] at began
      rw [List.getElem?_append_left (by omega)] at zero
      exact h.lawful k b first began zero
    · obtain rfl : k = begun.length := by
        have within := (List.getElem?_eq_some_iff.mp began).1
        rw [List.length_append, List.length_singleton] at within
        omega
      rw [List.getElem?_concat_length] at began
      cases began
      rw [List.take_of_length_le (Nat.le_of_eq count.symm)]
      cases begun with
      | nil =>
        cases zero
        rw [List.length_eq_zero_iff.mp count.symm]
        rfl
      | cons b begun => exact h.due now first (by simp only [comes?, ready]) zero
  · intro since flies
    cases flies
    exact Nat.le_refl _
  · intro due comes
    cases comes
  · intro due first comes
    cases comes

theorem ceilMillis_sleepAfter (l : Loop) (start took : Nat) :
    took + (l.sleepAfter (.ofMillis took)).ceilMillis =
      Lap.span l.config.accurateTiming ⟨start, took, l.interval⟩ := by
  rw [sleepAfter, Lap.span]
  split
  · rw [Duration.ceilMillis_sub_ofMillis]
    change took + (l.interval.ceilMillis - took) = max l.interval.ceilMillis took
    omega
  · exact Nat.add_comm _ _

theorem stage_of_success (now since : Nat) (signal : Signal) (periodic : l.mode = .periodic)
    (go : l.stopAsked = false) :
    (l.succeeded now since signal).1.stage = .returned ∨
      (l.succeeded now since signal).1.stage =
        .waiting now (some ((l.credited signal).sleepAfter (.ofMillis (now - since)))) false := by
  by_cases ends : signal = .stop ∨ (l.credited signal).reachedMaxRuns = true
  · rw [succeeded_of_ends now since ends]
    exact Or.inl rfl
  · have busy : ¬ (l.credited signal).idles signal = true := by simp [idles, credited, periodic]
    rw [succeeded_of_sleeps now since ends busy, pause]
    simp [credited, go]

theorem OnTime.started {since first : Nat} (h : l.OnTime config begun done now)
    (flies : l.flight? = some since) (zero : begun[0]? = some first) :
    since = Lap.next config.accurateTiming first done := by
  have last : begun[done.length]? = some since := by
    rw [h.begun_eq, flies, Option.toList_some, ← List.length_map Lap.start,
      List.getElem?_concat_length]
  rw [h.lawful _ _ _ last zero, List.take_length]

/-- The tick in flight comes to its end as the lap `x`: the loop is over, or waits for what the tick
has left of its span. -/
theorem OnTime.land {x : Lap} (h : l.OnTime config begun done now)
    (flies : l.flight? = some x.start) (took : now - x.start = x.took) (sound : l'.Sound)
    (config_eq : l'.config = l.config) (periodic : l'.mode = l.mode) (calm : Alone.Untouched l')
    (stage : l'.stage = .returned ∨ ∃ length, l'.stage = .waiting now (some length) false ∧
      x.took + length.ceilMillis = x.span config.accurateTiming) :
    l'.OnTime config begun (done ++ [x]) now := by
  have before := h.begun_eq
  rw [flies, Option.toList_some] at before
  refine ⟨sound, config_eq.trans h.config_eq, periodic.trans h.periodic, calm, ?_, ?_, ?_, ?_, ?_,
    ?_, ?_⟩
  · rcases stage with stage | ⟨length, stage, -⟩ <;> simp [stage]
  · have lands : l'.flight? = none := by
      rcases stage with stage | ⟨length, stage, -⟩ <;> simp only [flight?, stage]
    rw [before, lands]
    simp
  · intro k b first began zero
    have within := (List.getElem?_eq_some_iff.mp began).1
    rw [before, List.length_append, List.length_map, List.length_singleton] at within
    rw [List.take_append_of_le_length (by omega)]
    exact h.lawful k b first began zero
  · rcases stage with stage | ⟨length, stage, -⟩ <;> simp [flight?, stage]
  · rcases stage with stage | ⟨length, stage, -⟩ <;> simp [stage]
  · rcases stage with stage | ⟨length, stage, -⟩
    · simp [comes?, stage]
    · simp only [comes?, stage, Option.some.injEq]
      rintro due rfl
      exact Nat.le_add_right _ _
  · rcases stage with stage | ⟨length, stage, fills⟩
    · simp [comes?, stage]
    · simp only [comes?, stage, Option.some.injEq]
      rintro due first rfl zero
      have ahead := h.ahead _ flies
      have started := h.started flies zero
      rw [Lap.next_concat, ← started]
      omega

theorem OnTime.tickDone {signal : Signal} (h : l.OnTime config begun done now)
    (k : l.step now (.tickDone (.ok signal)) = some (l', effects)) :
    l'.OnTime config begun (done ++ (l.lap? now (.tickDone (.ok signal)) l').toList) now := by
  obtain ⟨-, ⟨config_eq, mode_eq, -, -⟩, -⟩ := tickDone_cases k
  obtain ⟨since, ticking, made⟩ := tickDone_ok_cases k
  have interval := congrArg Count.interval (l.count_succeeded now since signal).1
  have stage := stage_of_success now since signal h.periodic h.calm.stopAsked
  rw [← made] at interval stage
  rw [lap?_of_ticking ticking, Option.toList_some]
  refine h.land (by simp only [flight?, ticking]) rfl (sound_step h.sound k) config_eq mode_eq
    (Alone.untouched_of_step h.calm (Or.inr (Or.inl ⟨_, rfl⟩)) k) ?_
  refine stage.imp_right fun waits => ⟨_, waits, ?_⟩
  rw [show l'.interval = l.intervalAfter signal from interval, ← h.config_eq]
  exact (l.credited signal).ceilMillis_sleepAfter since (now - since)

theorem OnTime.step (h : l.OnTime config begun done now) (calm : e.calm = true)
    (k : l.step now e = some (l', effects)) :
    l'.OnTime config (begun ++ starts (effects.map (now, ·))) (done ++ (l.lap? now e l').toList)
      now := by
  by_cases top : e = .turn
  · subst top
    obtain ⟨onTime, context, rfl⟩ := h.turn k
    rw [lap?_eq_none (by simp), Option.toList_none, List.append_nil]
    exact onTime
  by_cases success : ∃ signal, e = .tickDone (.ok signal)
  · obtain ⟨signal, rfl⟩ := success
    obtain ⟨-, -, quiet, -⟩ := tickDone_cases k
    rw [starts_of_quiet quiet, List.append_nil]
    exact h.tickDone k
  have quiet : ∀ result, e ≠ .tickDone result := by
    rintro (f | signal) rfl
    · cases calm
    · exact success ⟨signal, rfl⟩
  rw [starts_of_quiet (quiet_of_ne_turn quiet top k), lap?_eq_none fun signal => quiet _,
    Option.toList_none, List.append_nil, List.append_nil]
  cases e with
  | start jitter => exact h.start k
  | turn => exact absurd rfl top
  | tickDone result => exact absurd rfl (quiet result)
  | timeout => exact h.timeout k
  | rouse =>
    rcases wake_of_rouse k with stored | ⟨since, length, stage⟩
    · rw [h.calm.permit] at stored
      cases stored
    · exact absurd stage (h.calm.notified _ _)
  | interrupt =>
    obtain ⟨-, -, -, -, stop, -⟩ := interrupt_cases k
    rw [h.calm.stopAsked] at stop
    cases stop
  | wake => cases calm
  | askStop => cases calm
  | settleStop => cases calm
  | join =>
    obtain ⟨-, rfl, -⟩ := join_cases k
    exact h

theorem OnTime.run (h : l.OnTime config begun done now) (ran : l.run t = some l')
    (prompt : l.Prompt now t) (calm : ∀ x ∈ t, x.2.calm = true) :
    l'.OnTime config (begun ++ starts (l.seen t)) (done ++ l.laps t) (clock now t) := by
  induction t generalizing l now begun done with
  | nil =>
    cases ran
    rw [laps, List.append_nil]
    exact (List.append_nil begun).symm ▸ h
  | cons x t ih =>
    obtain ⟨later, e⟩ := x
    obtain ⟨m, effects, first, rest⟩ := run_cons_eq_some.mp ran
    obtain ⟨order, rests, prompt⟩ := (prompt_cons first).mp prompt
    have stepped := (h.rest order rests).step (calm _ List.mem_cons_self) first
    have onward := ih stepped rest prompt fun y mem => calm y (List.mem_cons_of_mem _ mem)
    rw [seen_cons first, starts_append, laps_cons first, ← List.append_assoc, ← List.append_assoc]
    exact onward

theorem OnTime.next_due {first : Nat} (h : l.OnTime config begun done now)
    (zero : begun[0]? = some first) (grounded : l.flight? = none) (going : l.stage ≠ .returned) :
    ∃ due, due = Lap.next config.accurateTiming first done ∧ now ≤ due ∧
      (l.nextEvent? due).isSome := by
  obtain ⟨due, comes⟩ : ∃ due, l.comes? now = some due := by
    cases stage : l.stage with
    | unstarted =>
      rw [(h.fresh stage).1] at zero
      cases zero
    | ready => exact ⟨now, by simp only [comes?, stage]⟩
    | ticking since =>
      rw [flight?, stage] at grounded
      cases grounded
    | waiting since length notified =>
      cases length with
      | none => exact absurd stage (h.limited _ _)
      | some length => exact ⟨since + length.ceilMillis, by simp only [comes?, stage]⟩
    | returned => exact absurd stage going
  exact ⟨due, h.due due first comes zero, h.held due comes, nextEvent?_of_comes? comes⟩

theorem OnTime.length_le (h : l.OnTime config begun done now) : begun.length ≤ done.length + 1 := by
  have one : l.flight?.toList.length ≤ 1 := by cases l.flight? <;> simp
  rw [h.begun_eq, List.length_append, List.length_map]
  omega

theorem Paced.ceilMillis_of_keep (h : l.Paced config []) (ran : l.run t = some l')
    (steady : ∀ s ∈ signals t, s = .keep) {x : Lap} (mem : x ∈ l.laps t) :
    x.interval.ceilMillis = config.startInterval.word.toNat := by
  obtain ⟨k, at_⟩ := List.mem_iff_getElem?.mp mem
  rw [h.interval_of_laps ran at_, List.nil_append, Config.foldl_next_of_keep_or_reset, if_neg]
  · exact Duration.ceilMillis_ofMillis _
  · intro resets
    cases steady _ (List.mem_of_mem_take resets)
  · exact fun s given => Or.inl (steady s (List.mem_of_mem_take given))

/-- Left to itself, and with a clock that passes over no step that is due, a loop that does not idle
starts each tick with no drift. The ticks that have started are those that have succeeded and the
one in flight; the interval in effect after a tick is the fold of the signals up to its own; each
start is given by the laps before it, so that ticks within an interval that never changes start at
its multiples; and between two ticks the clock has not passed the start of the next one, at which
the loop has a step to make. -/
theorem starts_of_run (ran : (new config .periodic).run t = some l)
    (prompt : (new config .periodic).Prompt now t) (calm : ∀ x ∈ t, x.2.calm = true) :
    starts ((new config .periodic).seen t) =
      ((new config .periodic).laps t).map Lap.start ++ l.flight?.toList ∧
    (∀ k x, ((new config .periodic).laps t)[k]? = some x →
      x.interval = ((signals t).take (k + 1)).foldl config.next config.startInterval.toWord) ∧
    (∀ k b first, (starts ((new config .periodic).seen t))[k]? = some b →
      (starts ((new config .periodic).seen t))[0]? = some first →
      b = first +
        ((((new config .periodic).laps t).take k).map (Lap.span config.accurateTiming)).sum) ∧
    (config.accurateTiming = true → (∀ s ∈ signals t, s = .keep) →
      (∀ x ∈ (new config .periodic).laps t, x.took ≤ config.startInterval.word.toNat) →
      ∀ k b first, (starts ((new config .periodic).seen t))[k]? = some b →
        (starts ((new config .periodic).seen t))[0]? = some first →
        b = first + k * config.startInterval.word.toNat) ∧
    ∀ first, (starts ((new config .periodic).seen t))[0]? = some first →
      l.flight? = none → l.stage ≠ .returned →
      ∃ due, due = first + (((new config .periodic).laps t).map
          (Lap.span config.accurateTiming)).sum ∧
        clock now t ≤ due ∧ (l.nextEvent? due).isSome := by
  have onTime := (onTime_new config now).run ran prompt calm
  have paced := paced_new config .periodic
  rw [List.nil_append, List.nil_append] at onTime
  refine ⟨onTime.begun_eq, fun k x => paced.interval_of_laps ran, onTime.lawful, ?_,
    fun first zero grounded going => onTime.next_due zero grounded going⟩
  intro accurate steady within k b first began zero
  have short : k ≤ ((new config .periodic).laps t).length := by
    have bound := (List.getElem?_eq_some_iff.mp began).1
    have one := onTime.length_le
    omega
  have kept : ∀ x ∈ (new config .periodic).laps t,
      x.interval.ceilMillis = config.startInterval.word.toNat := fun x mem =>
    paced.ceilMillis_of_keep ran steady mem
  rw [onTime.lawful k b first began zero, accurate,
    Lap.next_of_within (fun x mem => kept x (List.mem_of_mem_take mem))
      (fun x mem => within x (List.mem_of_mem_take mem)), List.length_take_of_le short]

def tenths : Config where
  interval := .ofMillis 10
  accurateTiming := true

def uneven : List (Nat × Event) :=
  [(3, .start .zero), (3, .turn), (7, .tickDone (.ok .keep)), (13, .timeout), (13, .turn),
    (25, .tickDone (.ok (.interval (.ofMillis 5)))), (25, .timeout), (25, .turn),
    (27, .tickDone (.ok .reset)), (35, .timeout), (35, .turn)]

def even : List (Nat × Event) :=
  [(3, .start .zero), (3, .turn), (7, .tickDone (.ok .keep)), (13, .timeout), (13, .turn),
    (23, .tickDone (.ok .keep)), (23, .timeout)]

theorem starts_of_run_uneven :
    starts ((new tenths .periodic).seen uneven) = [3, 13, 25, 35] ∧
      (35 = 3 + ((((new tenths .periodic).laps uneven).take 3).map (Lap.span true)).sum) ∧
      (starts ((new tenths .periodic).seen even))[1]? = some 13 ∧ 13 = 3 + 1 * 10 ∧
      ∃ l : Loop, (new tenths .periodic).run even = some l ∧
        ∃ due, due = 3 + (((new tenths .periodic).laps even).map (Lap.span true)).sum ∧
          23 ≤ due ∧ (l.nextEvent? due).isSome := by
  obtain ⟨m, ranUneven⟩ : ∃ m, (new tenths .periodic).run uneven = some m := ⟨_, rfl⟩
  obtain ⟨l, ran⟩ : ∃ l, (new tenths .periodic).run even = some l := ⟨_, rfl⟩
  have grounded : l.flight? = none ∧ l.stage ≠ .returned := by
    cases ran
    decide
  have promptUneven : (new tenths .periodic).Prompt 0 uneven := by decide
  have prompt : (new tenths .periodic).Prompt 0 even := by decide
  obtain ⟨-, -, third, -, -⟩ := starts_of_run ranUneven promptUneven (by decide)
  obtain ⟨-, -, -, steady, between⟩ := starts_of_run ran prompt (by decide)
  exact ⟨by decide, third 3 35 3 (by decide) (by decide), by decide,
    steady rfl (by decide) (by decide) 1 13 3 (by decide) (by decide), l, ran,
    between 3 (by decide) grounded.1 grounded.2⟩

end Loop
end Schedule
end ChainFetch
