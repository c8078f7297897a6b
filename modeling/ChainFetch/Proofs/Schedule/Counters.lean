import ChainFetch.Proofs.Schedule.Stages
import ChainFetch.Proofs.Trace
/-!
What ticks count and set in a loop. Main statement: `count_cases`, nothing but a success moves the
counters, and a call of run that enters the loop only takes over the interval that outsiders see.
-/

namespace ChainFetch.Schedule

structure Count where
  config : Config
  mode : Mode
  shown : UInt64
  runs : Nat
  interval : Duration
  firstRun : Bool

namespace Loop

variable {l l' l'' : Loop} {now : Nat} {e : Event} {effects : List Effect}

/-- A loop by itself: what its own steps and its callers make of it. -/
def run (l : Loop) (t : List (Nat × Event)) : Option Loop :=
  after (fun now l e => (l.step now e).map Prod.fst) l t

theorem run_cons_eq_some {t : List (Nat × Event)} :
    l.run ((now, e) :: t) = some l'' ↔
      ∃ l' effects, l.step now e = some (l', effects) ∧ l'.run t = some l'' := by
  unfold run
  rw [after_cons_eq_some]
  constructor
  · rintro ⟨m, first, rest⟩
    obtain ⟨⟨_, effects⟩, stepped, rfl⟩ := Option.map_eq_some_iff.mp first
    exact ⟨_, effects, stepped, rest⟩
  · rintro ⟨m, effects, stepped, rest⟩
    exact ⟨m, Option.map_eq_some_iff.mpr ⟨_, stepped, rfl⟩, rest⟩

def count (l : Loop) : Count := ⟨l.config, l.mode, l.shown, l.runs, l.interval, l.firstRun⟩

theorem count_wake (l : Loop) : l.wake.count = l.count := by
  rcases l.wake_cases with ⟨since, length, -, k⟩ | k <;> rw [k] <;> rfl

theorem count_pause (l : Loop) (now : Nat) (length : Option Duration) :
    (l.pause now length).1.count = l.count ∧ .firstSuccess ∉ (l.pause now length).2 := by
  unfold pause
  split
  · exact ⟨rfl, by simp [finish]⟩
  · exact ⟨rfl, by simp⟩

theorem mem_firstEffects : .firstSuccess ∈ l.firstEffects ↔ l.firstRun = true := by
  unfold firstEffects
  split
  · rename_i first
    simp [first]
  · rename_i first
    simpa using first

theorem count_succeeded (l : Loop) (now since : Nat) (signal : Signal) :
    (l.succeeded now since signal).1.count = (l.credited signal).count ∧
      (.firstSuccess ∈ (l.succeeded now since signal).2 ↔ l.firstRun = true) := by
  rcases l.succeeded_cases now since signal with k | ⟨-, k⟩ | ⟨sleep, k⟩
  · rw [k]
    exact ⟨rfl, by simp [finish, mem_firstEffects]⟩
  · obtain ⟨same, quiet⟩ := (l.credited signal).count_pause now none
    rw [k]
    exact ⟨same, by simp [quiet, mem_firstEffects]⟩
  · obtain ⟨same, quiet⟩ := (l.credited signal).count_pause now (some sleep)
    rw [k]
    exact ⟨same, by simp [quiet, mem_firstEffects]⟩

theorem tickDone_ok_cases {signal : Signal}
    (h : l.step now (.tickDone (.ok signal)) = some (l', effects)) :
    ∃ since, l.stage = .ticking since ∧ (l', effects) = l.succeeded now since signal := by
  simp only [step] at h
  split at h
  · rename_i since _ stage k
    cases k
    exact ⟨since, stage, (Option.some.inj h).symm⟩
  · rename_i k
    cases k
  · cases h

theorem tickDone_error_cases {f : Failure}
    (h : l.step now (.tickDone (.error f)) = some (l', effects)) :
    ∃ since, l.stage = .ticking since ∧
      (l', effects) = l.pause now (some l.config.errorCooldown) := by
  simp only [step] at h
  split at h
  · rename_i k
    cases k
  · rename_i since _ stage _
    exact ⟨since, stage, (Option.some.inj h).symm⟩
  · cases h

/-- A call of run that finds the loop idle starts from the interval that outsiders see. A success
credits its signal, and the first one is seen. No other step moves a counter. -/
theorem count_cases (h : l.step now e = some (l', effects)) :
    (l'.count = l.count ∧ .firstSuccess ∉ effects ∧ (∀ signal, e ≠ .tickDone (.ok signal)) ∧
      ¬ (l.status = .idle ∧ ∃ jitter, e = .start jitter)) ∨
    (l.status = .idle ∧ (∃ jitter, e = .start jitter) ∧
      l'.count = { l.count with interval := l.currentInterval } ∧ .firstSuccess ∉ effects) ∨
    (∃ signal, e = .tickDone (.ok signal) ∧ (∃ since, l.stage = .ticking since) ∧
      l'.count = (l.credited signal).count ∧ (.firstSuccess ∈ effects ↔ l.firstRun = true)) := by
  cases e with
  | start jitter =>
    rcases start_cases h with ⟨begun, rfl, rfl⟩ |
      ⟨idle, m, rfl, ⟨rfl, rfl⟩ | ⟨-, k⟩ | ⟨length, rfl, rfl⟩⟩
    · exact Or.inl ⟨rfl, by simp, by simp, fun enters => begun enters.1⟩
    · exact Or.inr (Or.inl ⟨idle, ⟨jitter, rfl⟩, rfl, by simp⟩)
    · cases k
      exact Or.inr (Or.inl ⟨idle, ⟨jitter, rfl⟩, rfl, by simp⟩)
    · exact Or.inr (Or.inl ⟨idle, ⟨jitter, rfl⟩, rfl, by simp⟩)
  | turn =>
    obtain ⟨-, ⟨-, k⟩ | ⟨-, rfl, rfl⟩⟩ := turn_cases h
    · cases k
      exact Or.inl ⟨rfl, by simp, by simp, by simp⟩
    · exact Or.inl ⟨rfl, by simp, by simp, by simp⟩
  | tickDone result =>
    cases result with
    | ok signal =>
      obtain ⟨since, stage, k⟩ := tickDone_ok_cases h
      obtain ⟨same, first⟩ := l.count_succeeded now since signal
      rw [← k] at same first
      exact Or.inr (Or.inr ⟨signal, rfl, ⟨since, stage⟩, same, first⟩)
    | error f =>
      obtain ⟨-, -, k⟩ := tickDone_error_cases h
      obtain ⟨same, quiet⟩ := l.count_pause now (some l.config.errorCooldown)
      rw [← k] at same quiet
      exact Or.inl ⟨same, quiet, by simp, by simp⟩
  | timeout =>
    obtain ⟨_, _, _, -, rfl, rfl⟩ := timeout_cases h
    exact Or.inl ⟨rfl, by simp, by simp, by simp⟩
  | rouse =>
    obtain ⟨_, _, _, -, rfl, rfl⟩ := rouse_cases h
    exact Or.inl ⟨rfl, by simp, by simp, by simp⟩
  | interrupt =>
    obtain ⟨_, _, _, -, -, rfl, rfl⟩ := interrupt_cases h
    exact Or.inl ⟨rfl, by simp, by simp, by simp⟩
  | wake =>
    cases h
    exact Or.inl ⟨l.count_wake, by simp, by simp, by simp⟩
  | askStop =>
    obtain ⟨rfl, rfl⟩ := askStop_cases h
    exact Or.inl ⟨rfl, by simp, by simp, by simp⟩
  | settleStop =>
    obtain ⟨rfl, rfl⟩ := settleStop_cases h
    refine Or.inl ⟨?_, by simp, by simp, by simp⟩
    split <;> rfl
  | join =>
    obtain ⟨-, rfl, rfl⟩ := join_cases h
    exact Or.inl ⟨rfl, by simp, by simp, by simp⟩

theorem firstRun_of_step (h : l.step now e = some (l', effects)) :
    (l'.firstRun = l.firstRun ∧ .firstSuccess ∉ effects) ∨
      (l.firstRun = true ∧ l'.firstRun = false ∧ ∃ later, effects = .firstSuccess :: later) := by
  rcases count_cases h with ⟨same, unseen, -⟩ | ⟨-, -, same, unseen⟩ |
    ⟨signal, rfl, -, same, seen⟩
  · exact Or.inl ⟨congrArg Count.firstRun same, unseen⟩
  · exact Or.inl ⟨congrArg Count.firstRun same, unseen⟩
  · have after : l'.firstRun = false := congrArg Count.firstRun same
    cases first : l.firstRun with
    | false => exact Or.inl ⟨after, by simp [seen, first]⟩
    | true =>
      refine Or.inr ⟨rfl, after, ?_⟩
      obtain ⟨since, -, k⟩ := tickDone_ok_cases h
      have front : l.firstEffects = [.firstSuccess] := if_pos first
      rcases l.succeeded_cases now since signal with j | ⟨-, j⟩ | ⟨sleep, j⟩
      · rw [← k, Prod.mk.injEq, front] at j
        exact ⟨_, j.2⟩
      · rw [← k, Prod.mk.injEq, front] at j
        exact ⟨_, j.2⟩
      · rw [← k, Prod.mk.injEq, front] at j
        exact ⟨_, j.2⟩

theorem unstarted_of_step (h : l.step now e = some (l', effects))
    (outside : ¬ (l.status = .idle ∧ ∃ jitter, e = .start jitter)) :
    l'.stage = .unstarted ↔ l.stage = .unstarted := by
  cases e with
  | start jitter =>
    rcases start_cases h with ⟨-, rfl, -⟩ | ⟨idle, -⟩
    · rfl
    · exact absurd ⟨idle, jitter, rfl⟩ outside
  | turn =>
    obtain ⟨ready, ⟨-, k⟩ | ⟨-, rfl, -⟩⟩ := turn_cases h
    · cases k
      simp [ready]
    · simp [ready]
  | tickDone result =>
    obtain ⟨⟨since, ticking⟩, -, -, length, paused, -⟩ := tickDone_cases h
    rcases paused with ⟨-, stage, -⟩ | ⟨-, -, -, stage⟩ <;> simp [stage, ticking]
  | timeout =>
    obtain ⟨_, _, _, stage, rfl, -⟩ := timeout_cases h
    simp [stage]
  | rouse =>
    obtain ⟨_, _, _, stage, rfl, -⟩ := rouse_cases h
    simp [stage]
  | interrupt =>
    obtain ⟨_, _, _, stage, -, rfl, -⟩ := interrupt_cases h
    simp [stage]
  | wake =>
    cases h
    rcases l.wake_cases with ⟨since, length, stage, k⟩ | k <;> simp [k]
    simp [stage]
  | askStop =>
    obtain ⟨rfl, -⟩ := askStop_cases h
    rfl
  | settleStop =>
    obtain ⟨rfl, -⟩ := settleStop_cases h
    split <;> rfl
  | join =>
    obtain ⟨-, rfl, -⟩ := join_cases h
    rfl

theorem ready_of_tick {context : Context} (h : l.step now e = some (l', effects))
    (told : .tick context ∈ effects) : l.stage = .ready ∧ context = l.context := by
  by_cases own : ∃ result, e = .tickDone result
  · obtain ⟨result, rfl⟩ := own
    exact absurd told ((tickDone_cases h).2.2.1 context)
  · rcases quiet_or_begins (fun result same => own ⟨result, same⟩) h with
      quiet | ⟨ready, -, -, rfl⟩
    · exact absurd told (quiet context)
    · exact ⟨ready, Effect.tick.inj (List.mem_singleton.mp told)⟩

end Loop
end ChainFetch.Schedule
