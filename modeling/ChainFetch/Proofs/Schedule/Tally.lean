import ChainFetch.Proofs.Schedule.Intervals
import ChainFetch.Proofs.Schedule.Wakes
/-!
What a loop has counted and told at any time of its run. Main statement: `tally_of_run`, the
counters are those of the successes so far, the first of which was told once, and no interval, no
sleep and no number of successes goes beyond its bound.
-/

namespace ChainFetch

theorem Duration.toWord_le (d : Duration) : d.toWord ≤ d := by
  rw [le_def, toWord, word, ofMillis, UInt64.toNat_ofNat']
  calc d.millis % 2 ^ 64 * 1000000
      ≤ d.millis * 1000000 := Nat.mul_le_mul_right _ (Nat.mod_le _ _)
    _ ≤ d.nanos := Nat.div_mul_le_self _ _

namespace Schedule

namespace Config

variable {c : Config} {d : Duration}

theorem next_le (c : Config) (h : d ≤ c.intervalMax) (signal : Signal) :
    c.next d signal ≤ c.intervalMax := by
  cases signal with
  | keep => exact h
  | interval e => exact Nat.min_le_right _ _
  | reset => exact c.resetInterval_le
  | stop => exact h

theorem foldl_next_le (h : d ≤ c.intervalMax) (given : List Signal) :
    given.foldl c.next d ≤ c.intervalMax := by
  induction given generalizing d with
  | nil => exact h
  | cons s given ih => exact ih (c.next_le h s)

end Config

namespace Loop

variable {config : Config} {mode : Mode} {l l' : Loop} {now : Nat} {e : Event}
  {effects : List Effect} {given : List Signal} {t : List (Nat × Event)}

def seen (l : Loop) : List (Nat × Event) → List (Nat × Effect)
  | [] => []
  | (now, e) :: t =>
    match l.step now e with
    | some (l', effects) => effects.map (now, ·) ++ l'.seen t
    | none => []

theorem seen_cons (h : l.step now e = some (l', effects)) :
    l.seen ((now, e) :: t) = effects.map (now, ·) ++ l'.seen t := by
  rw [seen, h]

def firsts (log : List (Nat × Effect)) : Nat := (log.map Prod.snd).count .firstSuccess

theorem firsts_append (log : List (Nat × Effect)) (now : Nat) (effects : List Effect) :
    firsts (log ++ effects.map (now, ·)) = firsts log + effects.count .firstSuccess := by
  have same : (effects.map (now, ·)).map Prod.snd = effects := by
    rw [List.map_map]
    exact List.map_id effects
  rw [firsts, List.map_append, List.count_append, same, ← firsts]

/-! ## One step -/

theorem count_succeeded_firstSuccess (l : Loop) (now since : Nat) (signal : Signal) :
    (l.succeeded now since signal).2.count .firstSuccess = if l.firstRun then 1 else 0 := by
  have front : l.firstEffects.count .firstSuccess = if l.firstRun then 1 else 0 := by
    unfold firstEffects
    split <;> rfl
  have quiet : ∀ length,
      ((l.credited signal).pause now length).2.count .firstSuccess = 0 := fun length =>
    List.count_eq_zero.mpr ((l.credited signal).count_pause now length).2
  rcases l.succeeded_cases now since signal with k | ⟨-, k⟩ | ⟨sleep, k⟩
  · rw [k, List.count_append, front]
    rfl
  · rw [k, List.count_append, front, quiet]
    rfl
  · rw [k, List.count_append, front, List.count_cons_of_ne (by simp), quiet]
    rfl

theorem not_reached_of_succeeded (now since : Nat) {signal : Signal}
    (going : (l.succeeded now since signal).1.stage ≠ .returned) :
    (l.credited signal).reachedMaxRuns = false := by
  cases reached : (l.credited signal).reachedMaxRuns with
  | false => rfl
  | true =>
    rw [succeeded_of_ends now since (Or.inr reached)] at going
    exact absurd rfl going

theorem length_of_succeeded {since : Nat} {signal : Signal} {length : Duration}
    (slept : .sleep length ∈ (l.succeeded now since signal).2) :
    length = (l.credited signal).sleepAfter (.ofMillis (now - since)) := by
  have unseen : ∀ wait, .sleep length ∉ ((l.credited signal).pause now wait).2 := fun wait mem => by
    cases eq_returned_of_mem_pause mem
  have later : .sleep length ∉ l.firstEffects := fun mem => by
    cases eq_firstSuccess_of_mem mem
  by_cases ends : signal = .stop ∨ (l.credited signal).reachedMaxRuns = true
  · rw [succeeded_of_ends now since ends] at slept
    rcases List.mem_append.mp slept with slept | slept
    · exact absurd slept later
    · simp [finish] at slept
  by_cases idle : (l.credited signal).idles signal = true
  · rw [succeeded_of_idles now since ends idle] at slept
    rcases List.mem_append.mp slept with slept | slept
    · exact absurd slept later
    · exact absurd slept (unseen _)
  · rw [succeeded_of_sleeps now since ends idle] at slept
    rcases List.mem_append.mp slept with slept | slept
    · exact absurd slept later
    · rcases List.mem_cons.mp slept with same | slept
      · exact Effect.sleep.inj same
      · exact absurd slept (unseen _)

theorem sleep_of_step {length : Duration} (h : l.step now e = some (l', effects))
    (slept : .sleep length ∈ effects) :
    ∃ since signal, e = .tickDone (.ok signal) ∧ l.stage = .ticking since ∧
      l'.interval = l.intervalAfter signal ∧
      length = (l.credited signal).sleepAfter (.ofMillis (now - since)) := by
  by_cases top : e = .turn
  · subst top
    obtain ⟨-, ⟨-, k⟩ | ⟨-, -, rfl⟩⟩ := turn_cases h
    · cases k
      simp at slept
    · simp at slept
  by_cases ends : ∃ result, e = .tickDone result
  · obtain ⟨f | signal, rfl⟩ := ends
    · obtain ⟨-, -, k⟩ := tickDone_error_cases h
      rw [(Prod.mk.inj k).2] at slept
      cases eq_returned_of_mem_pause slept
    · obtain ⟨since, ticking, k⟩ := tickDone_ok_cases h
      have credited := congrArg Count.interval (l.count_succeeded now since signal).1
      rw [← k] at credited
      rw [(Prod.mk.inj k).2] at slept
      exact ⟨since, signal, rfl, ticking, credited, length_of_succeeded slept⟩
  · cases eq_returned_of_mem (fun result same => ends ⟨result, same⟩) top h _ slept

theorem sleepAfter_le (l : Loop) (elapsed : Duration) : l.sleepAfter elapsed ≤ l.interval := by
  unfold sleepAfter
  split
  · exact Nat.sub_le _ _
  · exact Nat.le_refl _

/-! ## A run -/

/-- The counters of a loop beside the signals `given` to it and the `log` of what it let others see.
While it has not come back there is room for another success. -/
structure Tallied (config : Config) (given : List Signal) (log : List (Nat × Effect)) (l : Loop) :
    Prop where
  sound : l.Sound
  config_eq : l.config = config
  runs : l.runs = given.length
  firstRun : l.firstRun = given.isEmpty
  told : firsts log = min given.length 1
  room : ∀ n, config.maxRuns = some n → l.stage ≠ .returned → given.length < max n.toNat 1
  bounded : ∀ n, config.maxRuns = some n → given.length ≤ max n.toNat 1

variable {log : List (Nat × Effect)}

theorem tallied_new (config : Config) (mode : Mode) : (new config mode).Tallied config [] [] where
  sound := sound_new config mode
  config_eq := rfl
  runs := rfl
  firstRun := rfl
  told := rfl
  room _ _ _ := Nat.lt_of_lt_of_le Nat.zero_lt_one (Nat.le_max_right _ _)
  bounded _ _ := Nat.zero_le _

theorem Tallied.keep (h : l.Tallied config given log) (k : l.step now e = some (l', effects))
    (config_eq : l'.config = l.config) (runs : l'.runs = l.runs)
    (firstRun : l'.firstRun = l.firstRun) (untold : .firstSuccess ∉ effects) :
    l'.Tallied config given (log ++ effects.map (now, ·)) where
  sound := sound_step h.sound k
  config_eq := config_eq.trans h.config_eq
  runs := runs.trans h.runs
  firstRun := firstRun.trans h.firstRun
  told := by rw [firsts_append, List.count_eq_zero.mpr untold, Nat.add_zero, h.told]
  room n limit going := h.room n limit fun back => going (returned_of_step h.sound back k)
  bounded := h.bounded

theorem Tallied.credit {signal : Signal} (h : l.Tallied config given log)
    (k : l.step now (.tickDone (.ok signal)) = some (l', effects)) :
    l'.Tallied config (given ++ [signal]) (log ++ effects.map (now, ·)) := by
  obtain ⟨since, ticking, made⟩ := tickDone_ok_cases k
  have same := (l.count_succeeded now since signal).1
  have told := l.count_succeeded_firstSuccess now since signal
  have full : ∀ n, config.maxRuns = some n → given.length < max n.toNat 1 := fun n limit =>
    h.room n limit (by simp [ticking])
  rw [← made] at same told
  have config_eq : l'.config = l.config := congrArg Count.config same
  have runs : l'.runs = l.runs + 1 := congrArg Count.runs same
  refine ⟨sound_step h.sound k, config_eq.trans h.config_eq, ?_, ?_, ?_, ?_, ?_⟩
  · rw [runs, h.runs, List.length_append, List.length_singleton]
  · have after : l'.firstRun = false := congrArg Count.firstRun same
    simp [after]
  · rw [firsts_append, told, h.told, h.firstRun]
    cases given <;> simp
  · intro n limit going
    have unreached : (l.credited signal).reachedMaxRuns = false := by
      refine not_reached_of_succeeded now since ?_
      rw [← made]
      exact going
    rw [← h.config_eq] at limit
    simp only [reachedMaxRuns, credited, limit, h.runs, decide_eq_false_iff_not] at unreached
    rw [List.length_append, List.length_singleton]
    omega
  · intro n limit
    rw [List.length_append, List.length_singleton]
    exact full n limit

theorem Tallied.step (h : l.Tallied config given log) (k : l.step now e = some (l', effects)) :
    l'.Tallied config (given ++ e.signal?.toList) (log ++ effects.map (now, ·)) := by
  rcases count_cases k with ⟨same, untold, unsaid, -⟩ | ⟨-, ⟨jitter, rfl⟩, same, untold⟩ |
    ⟨signal, rfl, -⟩
  · rw [Event.signal?_eq_none unsaid, Option.toList_none, List.append_nil]
    exact h.keep k (congrArg Count.config same) (congrArg Count.runs same)
      (congrArg Count.firstRun same) untold
  · rw [Event.signal?_eq_none (by simp), Option.toList_none, List.append_nil]
    exact h.keep k (congrArg Count.config same) (congrArg Count.runs same)
      (congrArg Count.firstRun same) untold
  · exact h.credit k

theorem Tallied.run (h : l.Tallied config given log) (ran : l.run t = some l') :
    l'.Tallied config (given ++ signals t) (log ++ l.seen t) := by
  induction t generalizing l given log with
  | nil =>
    cases ran
    rw [signals, List.filterMap_nil, seen, List.append_nil, List.append_nil]
    exact h
  | cons x t ih =>
    obtain ⟨now, e⟩ := x
    obtain ⟨m, effects, first, rest⟩ := run_cons_eq_some.mp ran
    have later := ih (h.step first) rest
    rw [List.append_assoc, List.append_assoc] at later
    rw [signals_cons, seen_cons first]
    exact later

/-- However its ticks end and whatever its callers do, a loop counts its successes, waits for a
first one exactly as long as there is none, has told it once from then on, and has no more of them
than it may. No tick is told an interval above the ceiling, and no sleep is longer than the interval
in effect. -/
theorem tally_of_run (ran : (new config mode).run t = some l) :
    l.runs = (signals t).length ∧
    (l.firstRun = true ↔ (signals t).length = 0) ∧
    firsts ((new config mode).seen t) = (if (signals t).length = 0 then 0 else 1) ∧
    (∀ n, config.maxRuns = some n → (signals t).length ≤ max n.toNat 1) ∧
    ∀ now e l' effects, l.step now e = some (l', effects) →
      (∀ context, .tick context ∈ effects → context.interval ≤ config.intervalMax ∧
        (context.firstRun = true ↔ (signals t).length = 0)) ∧
      ∀ length, .sleep length ∈ effects → length ≤ l'.interval := by
  have tallied := (tallied_new config mode).run ran
  have paced := (paced_new config mode).run ran
  rw [List.nil_append] at tallied paced
  have first : l.firstRun = true ↔ (signals t).length = 0 := by
    rw [tallied.firstRun, List.isEmpty_iff, List.length_eq_zero_iff]
  refine ⟨tallied.runs, first, ?_, tallied.bounded, fun now e l' effects stepped =>
    ⟨fun context told => ?_, fun length slept => ?_⟩⟩
  · rw [← List.nil_append ((new config mode).seen t), tallied.told]
    split <;> omega
  · obtain ⟨ready, rfl⟩ := ready_of_tick stepped told
    refine ⟨?_, first⟩
    have start : config.startInterval.toWord ≤ config.intervalMax :=
      Nat.le_trans (Duration.toWord_le _) config.startInterval_le
    have fold : l.interval = _ := paced.begun (by simp [ready])
    change l.interval ≤ _
    rw [fold]
    exact Config.foldl_next_le start _
  · obtain ⟨since, signal, -, -, interval, rfl⟩ := sleep_of_step stepped slept
    rw [interval]
    exact (l.credited signal).sleepAfter_le _

def brisk : Config where
  intervalMax := .ofSecs 2
  accurateTiming := true
  maxRuns := some 2

def faltering : List (Nat × Event) :=
  [(0, .start .zero), (0, .turn), (5, .tickDone (.error default)), (1005, .timeout), (1005, .turn),
    (1010, .tickDone (.ok (.interval (.ofSecs 9)))), (3005, .timeout), (3005, .turn)]

theorem tally_of_run_faltering : ∃ l l' : Loop,
    (new brisk .periodic).run faltering = some l ∧ l.runs = (signals faltering).length ∧
      firsts ((new brisk .periodic).seen faltering) = 1 ∧ (signals faltering).length ≤ 2 ∧
      l.step 3100 (.tickDone (.ok .keep)) = some (l', [.returned]) ∧
      ∃ m m' : Loop, (new brisk .periodic).run (faltering.take 5) = some m ∧
        m.step 1010 (.tickDone (.ok (.interval (.ofSecs 9)))) =
          some (m', [.firstSuccess, .sleep (.ofMillis 1995)]) ∧
        Duration.ofMillis 1995 ≤ m'.interval := by
  obtain ⟨l, ran⟩ : ∃ l, (new brisk .periodic).run faltering = some l := ⟨_, rfl⟩
  obtain ⟨m, before⟩ : ∃ m, (new brisk .periodic).run (faltering.take 5) = some m := ⟨_, rfl⟩
  obtain ⟨l', last⟩ : ∃ l', l.step 3100 (.tickDone (.ok .keep)) = some (l', [.returned]) := by
    cases ran
    exact ⟨_, rfl⟩
  obtain ⟨m', slept⟩ : ∃ m', m.step 1010 (.tickDone (.ok (.interval (.ofSecs 9)))) =
      some (m', [.firstSuccess, .sleep (.ofMillis 1995)]) := by
    cases before
    exact ⟨_, rfl⟩
  obtain ⟨runs, -, told, bounded, -⟩ := tally_of_run ran
  obtain ⟨-, -, -, -, later⟩ := tally_of_run before
  exact ⟨l, l', ran, runs, told, bounded 2 rfl, last, m, m', before, slept,
    (later _ _ _ _ slept).2 _ (by simp)⟩

end Loop
end Schedule
end ChainFetch
