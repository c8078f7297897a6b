import ChainFetch.Proofs.Schedule.Counters
/-!
The interval that each tick of a loop is told. Main statement: `interval_of_tick`, it is the fold of
the signals of the earlier successes over the starting interval cut to whole milliseconds in 64
bits, since a run takes its first interval from the copy that outsiders see. The cut is lost with
the first signal that sets an interval.
-/

namespace ChainFetch

namespace Schedule

/-- The interval in effect after a success, where `interval` was in effect before it. -/
def Config.next (c : Config) (interval : Duration) : Signal → Duration
  | .keep => interval
  | .interval d => min d c.intervalMax
  | .reset => c.resetInterval
  | .stop => interval

def Signal.sets : Signal → Bool
  | .keep => false
  | .interval _ => true
  | .reset => true
  | .stop => false

/-- Once a signal has set the interval, what it was at first does not matter. -/
theorem Config.foldl_next_eq_iff (c : Config) (d d' : Duration) (given : List Signal) :
    given.foldl c.next d = given.foldl c.next d' ↔ given.any Signal.sets = true ∨ d = d' := by
  induction given generalizing d d' with
  | nil => simp
  | cons s given ih =>
    rw [List.foldl_cons, List.foldl_cons, ih, List.any_cons, Bool.or_eq_true]
    cases s with
    | keep => simp [next, Signal.sets]
    | interval e => simp [next, Signal.sets]
    | reset => simp [next, Signal.sets]
    | stop => simp [next, Signal.sets]

theorem Config.foldl_next_of_keep_or_reset {c : Config} {given : List Signal} (d : Duration)
    (h : ∀ s ∈ given, s = .keep ∨ s = .reset) :
    given.foldl c.next d = if .reset ∈ given then c.resetInterval else d := by
  induction given generalizing d with
  | nil => simp
  | cons s given ih =>
    have later := ih (c.next d s) fun s mem => h s (List.mem_cons_of_mem _ mem)
    rw [List.foldl_cons, later]
    rcases h s List.mem_cons_self with rfl | rfl
    · simp [next]
    · simp [next]

def Event.signal? : Event → Option Signal
  | .tickDone (.ok signal) => some signal
  | _ => none

theorem Event.signal?_eq_none {e : Event} (h : ∀ signal, e ≠ .tickDone (.ok signal)) :
    e.signal? = none := by
  unfold signal?
  split
  · exact absurd rfl (h _)
  · rfl

def signals (t : List (Nat × Event)) : List Signal := t.filterMap (·.2.signal?)

theorem signals_cons {now : Nat} {e : Event} {t : List (Nat × Event)} :
    signals ((now, e) :: t) = e.signal?.toList ++ signals t :=
  filterMap_cons_toList (fun x : Nat × Event => x.2.signal?) (now, e) t

namespace Loop

variable {config : Config} {mode : Mode} {l l' : Loop} {now : Nat} {e : Event}
  {effects : List Effect} {given : List Signal} {t : List (Nat × Event)}

theorem intervalAfter_eq_next (l : Loop) (signal : Signal) :
    l.intervalAfter signal = l.config.next l.interval signal := by
  cases signal <;> rfl

/-- Before the run of a loop outsiders see its starting interval; from then on the interval in
effect is the fold of the signals `given` so far. -/
structure Paced (config : Config) (given : List Signal) (l : Loop) : Prop where
  sound : l.Sound
  config_eq : l.config = config
  waits : l.stage = .unstarted → l.shown = config.startInterval.word ∧ given = []
  begun : l.stage ≠ .unstarted → l.interval = given.foldl config.next config.startInterval.toWord

theorem paced_new (config : Config) (mode : Mode) : (new config mode).Paced config [] where
  sound := sound_new config mode
  config_eq := rfl
  waits _ := ⟨rfl, rfl⟩
  begun stage := absurd rfl stage

theorem Paced.step (h : l.Paced config given) (k : l.step now e = some (l', effects)) :
    l'.Paced config (given ++ e.signal?.toList) := by
  have sound := sound_step h.sound k
  rcases count_cases k with ⟨same, -, unsaid, outside⟩ | ⟨idle, ⟨jitter, rfl⟩, same, -⟩ |
    ⟨signal, rfl, ⟨since, ticking⟩, same, -⟩
  · rw [Event.signal?_eq_none unsaid, Option.toList_none, List.append_nil]
    have stage := unstarted_of_step k outside
    refine ⟨sound, (congrArg Count.config same).trans h.config_eq, fun unstarted => ?_,
      fun begun => ?_⟩
    · obtain ⟨shown, none⟩ := h.waits (stage.mp unstarted)
      exact ⟨(congrArg Count.shown same).trans shown, none⟩
    · exact (congrArg Count.interval same).trans (h.begun fun k => begun (stage.mpr k))
  · obtain ⟨shown, rfl⟩ := h.waits (h.sound.unstarted idle)
    refine ⟨sound, (congrArg Count.config same).trans h.config_eq, fun unstarted => ?_,
      fun begun => ?_⟩
    · exact ⟨(congrArg Count.shown same).trans shown, rfl⟩
    · have taken : l'.interval = l.currentInterval := congrArg Count.interval same
      rw [taken, currentInterval, shown]
      rfl
  · have begun : l.stage ≠ .unstarted := by simp [ticking]
    have ended := fun unstarted => begun ((unstarted_of_step k (by simp)).mp unstarted)
    refine ⟨sound, (congrArg Count.config same).trans h.config_eq,
      fun unstarted => absurd unstarted ended, fun _ => ?_⟩
    have credited : l'.interval = l.intervalAfter signal := congrArg Count.interval same
    rw [credited, intervalAfter_eq_next, h.config_eq, h.begun begun]
    simp [Event.signal?]

theorem Paced.run (h : l.Paced config given) (ran : l.run t = some l') :
    l'.Paced config (given ++ signals t) := by
  induction t generalizing l given with
  | nil =>
    cases ran
    rw [signals, List.filterMap_nil, List.append_nil]
    exact h
  | cons x t ih =>
    obtain ⟨now, e⟩ := x
    obtain ⟨m, effects, first, rest⟩ := run_cons_eq_some.mp ran
    have later := ih (h.step first) rest
    rw [List.append_assoc] at later
    rw [signals_cons]
    exact later

/-- Whatever the callers of a loop do, every tick is told the fold of the signals of the earlier
successes over the starting interval cut to whole milliseconds in 64 bits. That is the fold over the
starting interval itself exactly if a signal has set the interval, or nothing is cut off. Where a
reset goes back to the starting interval and no other interval was asked for, only the cut and its
end with the first reset change the interval. -/
theorem interval_of_tick {context : Context} (ran : (new config mode).run t = some l)
    (stepped : l.step now e = some (l', effects)) (told : .tick context ∈ effects) :
    context.interval = (signals t).foldl config.next config.startInterval.toWord ∧
    (context.interval = (signals t).foldl config.next config.startInterval ↔
      (signals t).any Signal.sets = true ∨
        ∃ n : UInt64, config.startInterval = .ofMillis n.toNat) ∧
    (config.intervalInit = none → (∀ s ∈ signals t, s = .keep ∨ s = .reset) →
      context.interval =
        if .reset ∈ signals t then config.startInterval else config.startInterval.toWord) := by
  have paced := (paced_new config mode).run ran
  rw [List.nil_append] at paced
  have fold : context.interval = (signals t).foldl config.next config.startInterval.toWord := by
    obtain ⟨ready, rfl⟩ := ready_of_tick stepped told
    exact paced.begun (by simp [ready])
  refine ⟨fold, ?_, fun unset only => ?_⟩
  · rw [fold, config.foldl_next_eq_iff, Duration.toWord_eq_self_iff]
  · rw [fold, Config.foldl_next_of_keep_or_reset _ only, Config.resetInterval_of_intervalInit unset]

def fractional : Config := { interval := ⟨1500000⟩ }

def resetOnce : List (Nat × Event) :=
  [(0, .start .zero), (0, .turn), (0, .tickDone (.ok .reset)), (2, .timeout)]

theorem interval_of_tick_resetOnce : ∃ l l' : Loop,
    (new fractional .periodic).run resetOnce = some l ∧
      l.step 2 .turn = some (l', [.tick ⟨false, ⟨1500000⟩⟩]) ∧
      (⟨1500000⟩ : Duration) =
        (signals resetOnce).foldl fractional.next fractional.startInterval.toWord := by
  obtain ⟨l, ran⟩ : ∃ l, (new fractional .periodic).run resetOnce = some l := ⟨_, rfl⟩
  obtain ⟨l', stepped⟩ : ∃ l', l.step 2 .turn = some (l', [.tick ⟨false, ⟨1500000⟩⟩]) := by
    cases ran
    exact ⟨_, rfl⟩
  exact ⟨l, l', ran, stepped, (interval_of_tick ran stepped (List.mem_singleton.mpr rfl)).1⟩

/-- No signal came before the first tick, and it is told less than the starting interval; only
resets to that interval are asked for, and the second tick is told another interval. -/
theorem first_interval_cut : ∃ l l' m m' : Loop,
    (new fractional .periodic).run (resetOnce.take 1) = some l ∧
      l.step 0 .turn = some (l', [.tick ⟨true, .ofMillis 1⟩]) ∧
      (signals (resetOnce.take 1)).foldl fractional.next fractional.startInterval = ⟨1500000⟩ ∧
      fractional.intervalInit = none ∧ signals resetOnce = [.reset] ∧
      (new fractional .periodic).run resetOnce = some m ∧
      m.step 2 .turn = some (m', [.tick ⟨false, ⟨1500000⟩⟩]) ∧
      Duration.ofMillis 1 ≠ ⟨1500000⟩ := by
  exact ⟨_, _, _, _, rfl, rfl, rfl, rfl, rfl, rfl, rfl, by decide⟩

end Loop
end Schedule
end ChainFetch
