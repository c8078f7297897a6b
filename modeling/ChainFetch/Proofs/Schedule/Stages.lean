import ChainFetch.Schedule.Loop
/-!
What one step of a schedule's loop can do. Each event has one lemma that says all of it, so that
nothing else opens `Loop.step`. Main statements: `sound_step`, the status of a loop agrees with its
stage, and `tickDone_cases`, the ways in which a loop goes on after a tick.
-/

namespace ChainFetch.Schedule.Loop

variable {l l' : Loop} {now : Nat} {e : Event} {effects : List Effect}

/-- The status of a loop agrees with its stage. A loop that was stopped before its run stays
unstarted. -/
def Sound (l : Loop) : Prop :=
  match l.status, l.stage with
  | .idle, .unstarted => True
  | .running, .ready => True
  | .running, .ticking _ => True
  | .running, .waiting _ _ _ => True
  | .finished, .unstarted => True
  | .finished, .returned => True
  | _, _ => False

theorem sound_new (config : Config) (mode : Mode) : (new config mode).Sound := trivial

theorem Sound.unstarted (h : l.Sound) (idle : l.status = .idle) : l.stage = .unstarted := by
  unfold Sound at h
  rw [idle] at h
  split at h <;> simp_all

theorem Sound.running (h : l.Sound) (begun : l.stage ≠ .unstarted) (going : l.stage ≠ .returned) :
    l.status = .running := by
  unfold Sound at h
  split at h <;> simp_all

theorem Sound.finished (h : l.Sound) (fin : l.status = .finished) :
    l.stage = .unstarted ∨ l.stage = .returned := by
  unfold Sound at h
  rw [fin] at h
  split at h <;> simp_all

theorem Sound.finished_of_unstarted (h : l.Sound) (unstarted : l.stage = .unstarted)
    (begun : l.status ≠ .idle) : l.status = .finished := by
  unfold Sound at h
  rw [unstarted] at h
  split at h <;> simp_all

theorem Sound.begun_of_running (h : l.Sound) (running : l.status = .running) :
    l.stage ≠ .unstarted := by
  intro unstarted
  have fin := h.finished_of_unstarted unstarted (by simp [running])
  rw [running] at fin
  cases fin

/-! ## One lemma for each event -/

/-- A call of run. Only an idle loop starts; it goes to its top, into a wait of some length, or,
when a stop was asked for during its start delay, to its end. -/
theorem start_cases {jitter : Duration} (h : l.step now (.start jitter) = some (l', effects)) :
    (l.status ≠ .idle ∧ l' = l ∧ effects = [.returned]) ∨
    (l.status = .idle ∧ ∃ m : Loop,
      m = { l with status := .running, interval := l.currentInterval } ∧
      ((l' = { m with stage := .ready } ∧ effects = []) ∨
        (l.stopAsked = true ∧ (l', effects) = m.finish) ∨
        (∃ length, l' = { m with stage := .waiting now (some length) false } ∧ effects = []))) := by
  simp only [step, start, Option.some.injEq] at h
  split at h
  · rename_i idle
    refine Or.inr ⟨idle, _, rfl, ?_⟩
    split at h
    · cases h
      exact Or.inl ⟨rfl, rfl⟩
    · unfold pause at h
      split at h
      · rename_i stop
        exact Or.inr (Or.inl ⟨stop, h.symm⟩)
      · cases h
        exact Or.inr (Or.inr ⟨_, rfl, rfl⟩)
  · rename_i idle
    cases h
    exact Or.inl ⟨idle, rfl, rfl⟩

theorem turn_cases (h : l.step now .turn = some (l', effects)) :
    l.stage = .ready ∧
      ((l.stopAsked = true ∧ (l', effects) = l.finish) ∨
        (l.stopAsked = false ∧ l' = { l with stage := .ticking now } ∧
          effects = [.tick l.context])) := by
  simp only [step, turn] at h
  split at h
  · rename_i ready
    refine ⟨ready, ?_⟩
    rw [Option.some.injEq] at h
    split at h
    · rename_i stop
      exact Or.inl ⟨stop, h.symm⟩
    · rename_i stop
      cases h
      exact Or.inr ⟨by simpa using stop, rfl, rfl⟩
  · cases h

theorem step_turn_of_ready (now : Nat) (ready : l.stage = .ready) (go : l.stopAsked = false) :
    l.step now .turn = some ({ l with stage := .ticking now }, [.tick l.context]) := by
  simp [step, turn, ready, go]

def SameCaller (l l' : Loop) : Prop :=
  l'.config = l.config ∧ l'.mode = l.mode ∧ l'.stopAsked = l.stopAsked ∧ l'.permit = l.permit

def Paused (l l' : Loop) (now : Nat) (length : Option Duration) (effects : List Effect) : Prop :=
  (l'.status = .finished ∧ l'.stage = .returned ∧ .returned ∈ effects) ∨
  (l'.status = l.status ∧ l.stopAsked = false ∧ .returned ∉ effects ∧
    l'.stage = .waiting now length false)

theorem pause_paused (l : Loop) (now : Nat) (length : Option Duration) :
    l.SameCaller (l.pause now length).1 ∧ (∀ c, .tick c ∉ (l.pause now length).2) ∧
      Paused l (l.pause now length).1 now length (l.pause now length).2 := by
  unfold pause
  split
  · refine ⟨⟨rfl, rfl, rfl, rfl⟩, ?_, Or.inl ⟨rfl, rfl, ?_⟩⟩
    · simp [finish]
    · simp [finish]
  · rename_i stop
    refine ⟨⟨rfl, rfl, rfl, rfl⟩, by simp, Or.inr ⟨rfl, ?_, by simp, rfl⟩⟩
    simpa using stop

theorem eq_returned_of_mem_pause {length : Option Duration} {x : Effect}
    (mem : x ∈ (l.pause now length).2) : x = .returned := by
  unfold pause at mem
  split at mem
  · exact List.mem_singleton.mp mem
  · cases mem

def credited (l : Loop) (signal : Signal) : Loop :=
  { l with
    runs := l.runs + 1
    interval := l.intervalAfter signal
    shown := (l.intervalAfter signal).word
    firstRun := false }

def firstEffects (l : Loop) : List Effect := if l.firstRun then [.firstSuccess] else []

theorem succeeded_of_ends {signal : Signal} (now since : Nat)
    (ends : signal = .stop ∨ (l.credited signal).reachedMaxRuns = true) :
    l.succeeded now since signal =
      ((l.credited signal).finish.1, l.firstEffects ++ (l.credited signal).finish.2) := by
  rw [credited] at ends ⊢
  simp only [succeeded, if_pos ends, firstEffects]

theorem succeeded_of_idles {signal : Signal} (now since : Nat)
    (going : ¬ (signal = .stop ∨ (l.credited signal).reachedMaxRuns = true))
    (idle : (l.credited signal).idles signal = true) :
    l.succeeded now since signal = (((l.credited signal).pause now none).1,
      l.firstEffects ++ ((l.credited signal).pause now none).2) := by
  rw [credited] at going idle ⊢
  simp only [succeeded, if_neg going, if_pos idle, firstEffects]

theorem succeeded_of_sleeps {signal : Signal} (now since : Nat)
    (going : ¬ (signal = .stop ∨ (l.credited signal).reachedMaxRuns = true))
    (busy : ¬ (l.credited signal).idles signal = true) :
    let sleep := (l.credited signal).sleepAfter (.ofMillis (now - since))
    l.succeeded now since signal = (((l.credited signal).pause now (some sleep)).1,
      l.firstEffects ++ .sleep sleep :: ((l.credited signal).pause now (some sleep)).2) := by
  rw [credited] at going busy ⊢
  simp only [succeeded, if_neg going, if_neg busy, firstEffects]

/-- A success that ends the loop, one after which it idles, and one after which it sleeps. -/
theorem succeeded_cases (now since : Nat) (signal : Signal) :
    (l.succeeded now since signal =
        ((l.credited signal).finish.1, l.firstEffects ++ (l.credited signal).finish.2)) ∨
    ((l.credited signal).idles signal = true ∧ l.succeeded now since signal =
        (((l.credited signal).pause now none).1,
          l.firstEffects ++ ((l.credited signal).pause now none).2)) ∨
    (∃ sleep, l.succeeded now since signal =
        (((l.credited signal).pause now (some sleep)).1,
          l.firstEffects ++ .sleep sleep :: ((l.credited signal).pause now (some sleep)).2)) := by
  by_cases ends : signal = .stop ∨ (l.credited signal).reachedMaxRuns = true
  · exact Or.inl (succeeded_of_ends now since ends)
  by_cases idle : (l.credited signal).idles signal = true
  · exact Or.inr (Or.inl ⟨idle, succeeded_of_idles now since ends idle⟩)
  · exact Or.inr (Or.inr ⟨_, succeeded_of_sleeps now since ends idle⟩)

theorem eq_firstSuccess_of_mem {x : Effect} (mem : x ∈ l.firstEffects) : x = .firstSuccess := by
  unfold firstEffects at mem
  split at mem
  · exact List.mem_singleton.mp mem
  · cases mem

theorem not_mem_firstEffects (c : Context) : .tick c ∉ l.firstEffects := fun mem => by
  cases eq_firstSuccess_of_mem mem

theorem returned_not_mem_firstEffects : .returned ∉ l.firstEffects := fun mem => by
  cases eq_firstSuccess_of_mem mem

theorem Paused.of_credited {signal : Signal} {length : Option Duration} {first : List Effect}
    (h : Paused (l.credited signal) l' now length effects) (quiet : .returned ∉ first) :
    Paused l l' now length (first ++ effects) := by
  rcases h with ⟨fin, stage, back⟩ | ⟨status, stop, back, stage⟩
  · exact Or.inl ⟨fin, stage, List.mem_append_right _ back⟩
  · refine Or.inr ⟨status, stop, ?_, stage⟩
    rw [List.mem_append]
    rintro (k | k)
    · exact quiet k
    · exact back k

/-- After a tick the loop is finished or begins a wait; a wait without end follows only a success
after which the loop idles. A tick that comes back begins no other. -/
theorem tickDone_cases {result : Except Failure Signal}
    (h : l.step now (.tickDone result) = some (l', effects)) :
    (∃ since, l.stage = .ticking since) ∧ l.SameCaller l' ∧ (∀ c, .tick c ∉ effects) ∧
      ∃ length, Paused l l' now length effects ∧
        (length = none → ∃ signal, result = .ok signal ∧ l.idles signal = true) := by
  simp only [step] at h
  split at h
  · rename_i since signal stage
    refine ⟨⟨since, stage⟩, ?_⟩
    rw [Option.some.injEq] at h
    rcases l.succeeded_cases now since signal with k | ⟨idle, k⟩ | ⟨sleep, k⟩
    · rw [h, Prod.mk.injEq] at k
      obtain ⟨rfl, rfl⟩ := k
      refine ⟨⟨rfl, rfl, rfl, rfl⟩, ?_, some .zero, Or.inl ⟨rfl, rfl, ?_⟩, by simp⟩
      · simp [finish, not_mem_firstEffects]
      · simp [finish]
    · rw [h, Prod.mk.injEq] at k
      obtain ⟨rfl, rfl⟩ := k
      obtain ⟨same, quiet, paused⟩ := (l.credited signal).pause_paused now none
      refine ⟨same, ?_, none, paused.of_credited l.returned_not_mem_firstEffects,
        fun _ => ⟨signal, rfl, idle⟩⟩
      simp [not_mem_firstEffects, quiet]
    · rw [h, Prod.mk.injEq] at k
      obtain ⟨rfl, rfl⟩ := k
      obtain ⟨same, quiet, paused⟩ := (l.credited signal).pause_paused now (some sleep)
      have unseen : .returned ∉ l.firstEffects ++ [.sleep sleep] := by
        simp [returned_not_mem_firstEffects]
      have going := paused.of_credited unseen
      rw [List.append_assoc] at going
      refine ⟨same, ?_, some sleep, going, by simp⟩
      simp [not_mem_firstEffects, quiet]
  · rename_i since e stage
    refine ⟨⟨since, stage⟩, ?_⟩
    rw [Option.some.injEq, failed] at h
    obtain ⟨same, quiet, paused⟩ := l.pause_paused now (some l.config.errorCooldown)
    rw [h] at same quiet paused
    exact ⟨same, quiet, _, paused, by simp⟩
  · cases h

theorem timeout_cases (h : l.step now .timeout = some (l', effects)) :
    ∃ since length notified, l.stage = .waiting since (some length) notified ∧
      l' = { l with permit := l.permit || notified, stage := .ready } ∧ effects = [] := by
  simp only [step] at h
  split at h
  · rename_i since length notified stage
    split at h
    · cases h
      exact ⟨since, length, notified, stage, rfl, rfl⟩
    · cases h
  · cases h

theorem over_of_timeout (h : l.step now .timeout = some (l', effects)) {since : Nat}
    {length : Duration} {notified : Bool}
    (stage : l.stage = .waiting since (some length) notified) :
    since + length.ceilMillis ≤ now := by
  simp only [step, stage] at h
  split at h
  · assumption
  · cases h

theorem rouse_cases (h : l.step now .rouse = some (l', effects)) :
    ∃ since length notified, l.stage = .waiting since length notified ∧
      l' = { l with permit := l.permit && notified, stage := .ready } ∧ effects = [] := by
  simp only [step] at h
  split at h
  · rename_i since length notified stage
    refine ⟨since, length, notified, stage, ?_⟩
    split at h
    · rename_i reached
      cases h
      simp [reached]
    · rename_i reached
      split at h
      · cases h
        simp [reached]
      · cases h
  · cases h

theorem wake_of_rouse (h : l.step now .rouse = some (l', effects)) :
    l.permit = true ∨ ∃ since length, l.stage = .waiting since length true := by
  simp only [step] at h
  split at h
  · rename_i since length notified stage
    split at h
    · rename_i reached
      exact Or.inr ⟨since, length, by rw [stage, reached]⟩
    · split at h
      · rename_i stored
        exact Or.inl stored
      · cases h
  · cases h

theorem interrupt_cases (h : l.step now .interrupt = some (l', effects)) :
    ∃ since length notified, l.stage = .waiting since length notified ∧ l.stopAsked = true ∧
      l' = { l with
        permit := l.permit || notified, status := .finished, stage := .returned } ∧
      effects = [.returned] := by
  simp only [step] at h
  split at h
  · rename_i since length notified stage
    split at h
    · rename_i stop
      cases h
      exact ⟨since, length, notified, stage, stop, rfl, rfl⟩
    · cases h
  · cases h

theorem askStop_cases (h : l.step now .askStop = some (l', effects)) :
    l' = { l with stopAsked := true } ∧ effects = [] := by
  cases h
  exact ⟨rfl, rfl⟩

theorem settleStop_cases (h : l.step now .settleStop = some (l', effects)) :
    l' = (if l.status = .idle then { l with status := .finished } else l) ∧ effects = [] := by
  cases h
  exact ⟨rfl, rfl⟩

theorem join_cases (h : l.step now .join = some (l', effects)) :
    l.status = .finished ∧ l' = l ∧ effects = [] := by
  simp only [step] at h
  split at h
  · rename_i fin
    cases h
    exact ⟨fin, rfl, rfl⟩
  · cases h

theorem wake_cases (l : Loop) :
    (∃ since length, l.stage = .waiting since length false ∧
        l.wake = { l with stage := .waiting since length true }) ∨
      l.wake = { l with permit := true } := by
  unfold wake
  split
  · rename_i since length stage
    split
    · rename_i stored
      refine Or.inr ?_
      rw [← stored]
    · exact Or.inl ⟨since, length, stage, rfl⟩
  · exact Or.inr rfl

theorem eq_returned_of_mem (own : ∀ result, e ≠ .tickDone result) (other : e ≠ .turn)
    (h : l.step now e = some (l', effects)) : ∀ x ∈ effects, x = .returned := by
  cases e with
  | start jitter =>
    rcases start_cases h with ⟨-, -, rfl⟩ | ⟨-, m, -, ⟨-, rfl⟩ | ⟨-, k⟩ | ⟨length, -, rfl⟩⟩
    · simp
    · simp
    · cases k
      simp
    · simp
  | turn => exact absurd rfl other
  | tickDone result => exact absurd rfl (own result)
  | timeout =>
    obtain ⟨-, -, -, -, -, rfl⟩ := timeout_cases h
    simp
  | rouse =>
    obtain ⟨-, -, -, -, -, rfl⟩ := rouse_cases h
    simp
  | interrupt =>
    obtain ⟨-, -, -, -, -, -, rfl⟩ := interrupt_cases h
    simp
  | wake =>
    cases h
    simp
  | askStop =>
    obtain ⟨-, rfl⟩ := askStop_cases h
    simp
  | settleStop =>
    obtain ⟨-, rfl⟩ := settleStop_cases h
    simp
  | join =>
    obtain ⟨-, -, rfl⟩ := join_cases h
    simp

theorem quiet_of_ne_turn (own : ∀ result, e ≠ .tickDone result) (other : e ≠ .turn)
    (h : l.step now e = some (l', effects)) : ∀ c, .tick c ∉ effects := fun c mem => by
  cases eq_returned_of_mem own other h _ mem

theorem quiet_or_begins (own : ∀ result, e ≠ .tickDone result)
    (h : l.step now e = some (l', effects)) :
    (∀ c, .tick c ∉ effects) ∨
      (l.stage = .ready ∧ l.stopAsked = false ∧ l' = { l with stage := .ticking now } ∧
        effects = [.tick l.context]) := by
  by_cases top : e = .turn
  · subst top
    obtain ⟨ready, ⟨-, k⟩ | ⟨go, same, begun⟩⟩ := turn_cases h
    · cases k
      exact Or.inl (by simp)
    · exact Or.inr ⟨ready, go, same, begun⟩
  · exact Or.inl (quiet_of_ne_turn own top h)

/-! ## What every step keeps -/

theorem sound_wake (h : l.Sound) : l.wake.Sound := by
  rcases l.wake_cases with ⟨since, length, stage, k⟩ | k
  · have running := h.running (by simp [stage]) (by simp [stage])
    simp [k, Sound, running]
  · rw [k]
    exact h

theorem sound_step (h : l.Sound) (k : l.step now e = some (l', effects)) : l'.Sound := by
  cases e with
  | start jitter =>
    rcases start_cases k with ⟨-, rfl, -⟩ | ⟨-, m, rfl, ⟨rfl, -⟩ | ⟨-, k⟩ | ⟨length, rfl, -⟩⟩
    · exact h
    · trivial
    · cases k
      trivial
    · trivial
  | turn =>
    obtain ⟨ready, ⟨-, k⟩ | ⟨-, rfl, -⟩⟩ := turn_cases k
    · cases k
      trivial
    · have running := h.running (by simp [ready]) (by simp [ready])
      simp [Sound, running]
  | tickDone result =>
    obtain ⟨⟨since, ticking⟩, -, -, length, ⟨fin, stage, -⟩ | ⟨status, -, -, stage⟩, -⟩ :=
      tickDone_cases k
    · rw [Sound, fin, stage]
      trivial
    · have running := h.running (by simp [ticking]) (by simp [ticking])
      simp [Sound, status, stage, running]
  | timeout =>
    obtain ⟨since, length, notified, stage, rfl, -⟩ := timeout_cases k
    have running := h.running (by simp [stage]) (by simp [stage])
    simp [Sound, running]
  | rouse =>
    obtain ⟨since, length, notified, stage, rfl, -⟩ := rouse_cases k
    have running := h.running (by simp [stage]) (by simp [stage])
    simp [Sound, running]
  | interrupt =>
    obtain ⟨since, length, notified, stage, -, rfl, -⟩ := interrupt_cases k
    trivial
  | wake =>
    cases k
    exact sound_wake h
  | askStop =>
    obtain ⟨rfl, -⟩ := askStop_cases k
    exact h
  | settleStop =>
    obtain ⟨rfl, -⟩ := settleStop_cases k
    split
    · rename_i idle
      rw [Sound, h.unstarted idle]
      trivial
    · exact h
  | join =>
    obtain ⟨-, rfl, -⟩ := join_cases k
    exact h

theorem stage_of_ticking {since : Nat} (h : l.Sound) (ticking : l.stage = .ticking since)
    (own : ∀ result, e ≠ .tickDone result) (k : l.step now e = some (l', effects)) :
    l'.stage = .ticking since := by
  cases e with
  | start jitter =>
    rcases start_cases k with ⟨-, rfl, -⟩ | ⟨idle, -⟩
    · exact ticking
    · rw [h.unstarted idle] at ticking
      cases ticking
  | turn =>
    have ready := (turn_cases k).1
    rw [ready] at ticking
    cases ticking
  | tickDone result => exact absurd rfl (own result)
  | timeout =>
    obtain ⟨_, _, _, waiting, -⟩ := timeout_cases k
    rw [waiting] at ticking
    cases ticking
  | rouse =>
    obtain ⟨_, _, _, waiting, -⟩ := rouse_cases k
    rw [waiting] at ticking
    cases ticking
  | interrupt =>
    obtain ⟨_, _, _, waiting, -⟩ := interrupt_cases k
    rw [waiting] at ticking
    cases ticking
  | wake =>
    cases k
    simp [wake, ticking]
  | askStop =>
    obtain ⟨rfl, -⟩ := askStop_cases k
    exact ticking
  | settleStop =>
    obtain ⟨rfl, -⟩ := settleStop_cases k
    split
    · exact ticking
    · exact ticking
  | join =>
    obtain ⟨-, rfl, -⟩ := join_cases k
    exact ticking

/-! ## Stops -/

theorem stopAsked_of_step (other : e ≠ .askStop) (k : l.step now e = some (l', effects)) :
    l'.stopAsked = l.stopAsked := by
  cases e with
  | start jitter =>
    rcases start_cases k with ⟨-, rfl, -⟩ | ⟨-, m, rfl, ⟨rfl, -⟩ | ⟨-, k⟩ | ⟨length, rfl, -⟩⟩
    · rfl
    · rfl
    · cases k
      rfl
    · rfl
  | turn =>
    obtain ⟨-, ⟨-, k⟩ | ⟨-, rfl, -⟩⟩ := turn_cases k
    · cases k
      rfl
    · rfl
  | tickDone result =>
    obtain ⟨-, ⟨-, -, same, -⟩, -⟩ := tickDone_cases k
    exact same
  | timeout =>
    obtain ⟨_, _, _, -, rfl, -⟩ := timeout_cases k
    rfl
  | rouse =>
    obtain ⟨_, _, _, -, rfl, -⟩ := rouse_cases k
    rfl
  | interrupt =>
    obtain ⟨_, _, _, -, -, rfl, -⟩ := interrupt_cases k
    rfl
  | wake =>
    cases k
    rcases l.wake_cases with ⟨since, length, -, k⟩ | k
    · rw [k]
    · rw [k]
  | askStop => exact absurd rfl other
  | settleStop =>
    obtain ⟨rfl, -⟩ := settleStop_cases k
    split
    · rfl
    · rfl
  | join =>
    obtain ⟨-, rfl, -⟩ := join_cases k
    rfl

theorem finished_of_step (h : l.Sound) (fin : l.status = .finished)
    (k : l.step now e = some (l', effects)) : l'.status = .finished := by
  have idle : l.status ≠ .idle := by simp [fin]
  have ready : l.stage ≠ .ready := by
    rcases h.finished fin with stage | stage <;> simp [stage]
  have waiting : ∀ since length notified, l.stage ≠ .waiting since length notified := by
    rcases h.finished fin with stage | stage <;> simp [stage]
  cases e with
  | start jitter =>
    rcases start_cases k with ⟨-, rfl, -⟩ | ⟨begins, -⟩
    · exact fin
    · exact absurd begins idle
  | turn => exact absurd (turn_cases k).1 ready
  | tickDone result =>
    obtain ⟨⟨since, ticking⟩, -⟩ := tickDone_cases k
    rcases h.finished fin with stage | stage
    · rw [stage] at ticking
      cases ticking
    · rw [stage] at ticking
      cases ticking
  | timeout =>
    obtain ⟨_, _, _, waits, -⟩ := timeout_cases k
    exact absurd waits (waiting _ _ _)
  | rouse =>
    obtain ⟨_, _, _, waits, -⟩ := rouse_cases k
    exact absurd waits (waiting _ _ _)
  | interrupt =>
    obtain ⟨_, _, _, waits, -⟩ := interrupt_cases k
    exact absurd waits (waiting _ _ _)
  | wake =>
    cases k
    rcases l.wake_cases with ⟨since, length, waits, -⟩ | k
    · exact absurd waits (waiting _ _ _)
    · rw [k]
      exact fin
  | askStop =>
    obtain ⟨rfl, -⟩ := askStop_cases k
    exact fin
  | settleStop =>
    obtain ⟨rfl, -⟩ := settleStop_cases k
    rw [if_neg idle]
    exact fin
  | join =>
    obtain ⟨-, rfl, -⟩ := join_cases k
    exact fin

/-! ## Wakes -/

/-- In a wait without end that no wake has reached, and none is stored. -/
def Parked (l : Loop) : Prop :=
  (∃ since, l.stage = .waiting since none false) ∧ l.permit = false

theorem keep_or_reset_of_idles {signal : Signal} (h : l.idles signal = true) :
    signal = .keep ∨ signal = .reset := by
  simp only [idles, Bool.and_eq_true, Bool.or_eq_true, decide_eq_true_eq] at h
  exact h.2

theorem not_parked_of_ticking {since : Nat} (ticking : l.stage = .ticking since) : ¬ l.Parked := by
  rintro ⟨⟨_, waiting⟩, -⟩
  rw [ticking] at waiting
  cases waiting

theorem not_parked_wake (l : Loop) : ¬ l.wake.Parked := by
  rintro ⟨⟨since, stage⟩, permit⟩
  rcases l.wake_cases with ⟨since', length, -, k⟩ | k
  · rw [k] at stage
    cases stage
  · rw [k] at permit
    cases permit

theorem parked_of_step (own : ∀ result, e ≠ .tickDone result)
    (k : l.step now e = some (l', effects)) (parked : l'.Parked) : l.Parked := by
  obtain ⟨⟨since, stage⟩, permit⟩ := parked
  cases e with
  | start jitter =>
    rcases start_cases k with ⟨-, rfl, -⟩ | ⟨-, m, rfl, ⟨rfl, -⟩ | ⟨-, k⟩ | ⟨length, rfl, -⟩⟩
    · exact ⟨⟨since, stage⟩, permit⟩
    · cases stage
    · cases k
      cases stage
    · cases stage
  | turn =>
    obtain ⟨ready, ⟨-, k⟩ | ⟨-, rfl, -⟩⟩ := turn_cases k
    · cases k
      cases stage
    · cases stage
  | tickDone result => exact absurd rfl (own result)
  | timeout =>
    obtain ⟨_, _, _, -, rfl, -⟩ := timeout_cases k
    cases stage
  | rouse =>
    obtain ⟨_, _, _, -, rfl, -⟩ := rouse_cases k
    cases stage
  | interrupt =>
    obtain ⟨_, _, _, -, -, rfl, -⟩ := interrupt_cases k
    cases stage
  | wake =>
    cases k
    exact absurd ⟨⟨since, stage⟩, permit⟩ l.not_parked_wake
  | askStop =>
    obtain ⟨rfl, -⟩ := askStop_cases k
    exact ⟨⟨since, stage⟩, permit⟩
  | settleStop =>
    obtain ⟨rfl, -⟩ := settleStop_cases k
    split at stage
    · rename_i idle
      rw [if_pos idle] at permit
      exact ⟨⟨since, stage⟩, permit⟩
    · rename_i begun
      rw [if_neg begun] at permit
      exact ⟨⟨since, stage⟩, permit⟩
  | join =>
    obtain ⟨-, rfl, -⟩ := join_cases k
    exact ⟨⟨since, stage⟩, permit⟩

theorem permit_of_step (taken : e ≠ .rouse) (k : l.step now e = some (l', effects))
    (permit : l.permit = true) : l'.permit = true := by
  cases e with
  | start jitter =>
    rcases start_cases k with ⟨-, rfl, -⟩ | ⟨-, m, rfl, ⟨rfl, -⟩ | ⟨-, k⟩ | ⟨length, rfl, -⟩⟩
    · exact permit
    · exact permit
    · cases k
      exact permit
    · exact permit
  | turn =>
    obtain ⟨-, ⟨-, k⟩ | ⟨-, rfl, -⟩⟩ := turn_cases k
    · cases k
      exact permit
    · exact permit
  | tickDone result =>
    obtain ⟨-, ⟨-, -, -, same⟩, -⟩ := tickDone_cases k
    rw [same]
    exact permit
  | timeout =>
    obtain ⟨_, _, _, -, rfl, -⟩ := timeout_cases k
    simp [permit]
  | rouse => exact absurd rfl taken
  | interrupt =>
    obtain ⟨_, _, _, -, -, rfl, -⟩ := interrupt_cases k
    simp [permit]
  | wake =>
    cases k
    rcases l.wake_cases with ⟨since, length, -, k⟩ | k
    · rw [k]
      exact permit
    · rw [k]
  | askStop =>
    obtain ⟨rfl, -⟩ := askStop_cases k
    exact permit
  | settleStop =>
    obtain ⟨rfl, -⟩ := settleStop_cases k
    split
    · exact permit
    · exact permit
  | join =>
    obtain ⟨-, rfl, -⟩ := join_cases k
    exact permit

end ChainFetch.Schedule.Loop
