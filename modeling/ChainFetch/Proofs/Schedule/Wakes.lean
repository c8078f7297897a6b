import ChainFetch.Proofs.Schedule.Counters
import Mathlib.Logic.Function.Iterate
/-!
What wakes do to the waits of a loop, with the times at which they do it. A wake that no wait has
taken is held as a token, by the wait that it reached or by the loop, and the loop is pressed where
it stands between ticks with a token. Main statements: `Pressed.run`, no time passes while a loop is
pressed, and `wakes_spent`, the first wait after a wake has no length left, and each wake cuts at
most one wait short.
-/

namespace ChainFetch.Schedule

namespace Event

def isWake : Event → Bool
  | .wake => true
  | _ => false

def endsWait : Event → Bool
  | .timeout => true
  | .rouse => true
  | .interrupt => true
  | _ => false

end Event

/-- Whether a wait of some length takes time. -/
def Long (length : Option Duration) : Bool := length.all fun d => !d.isZero

namespace Loop

variable {l l' m : Loop} {now later : Nat} {e : Event} {effects : List Effect}
  {t u v w : List (Nat × Event)}

def clock (now : Nat) : List (Nat × Event) → Nat
  | [] => now
  | (later, _) :: t => clock later t

/-- The clock never goes back, and passes over no instant at which the loop has a step to make. -/
def Prompt (l : Loop) (now : Nat) : List (Nat × Event) → Prop
  | [] => True
  | (later, e) :: t =>
    now ≤ later ∧ (∀ x < later, now ≤ x → l.nextEvent? x = none) ∧
      match l.step later e with
      | some (l', _) => l'.Prompt later t
      | none => True

instance decidablePrompt (l : Loop) (now : Nat) :
    (t : List (Nat × Event)) → Decidable (l.Prompt now t)
  | [] => .isTrue trivial
  | (later, e) :: t =>
    have : Decidable (match l.step later e with
        | some (l', _) => l'.Prompt later t
        | none => True) :=
      match l.step later e with
      | some (l', _) => l'.decidablePrompt later t
      | none => .isTrue trivial
    inferInstanceAs (Decidable
      (now ≤ later ∧ (∀ x < later, now ≤ x → l.nextEvent? x = none) ∧ _))

def wait? (l : Loop) : Option (Nat × Option Duration) :=
  match l.stage with
  | .waiting since length _ => some (since, length)
  | _ => none

def reached (l : Loop) : Bool :=
  match l.stage with
  | .waiting _ _ notified => notified
  | _ => false

/-- A wake that no wait has taken. -/
def Owed (l : Loop) : Prop := l.permit = true ∨ l.reached = true

/-- Between ticks, with no reason to wait. -/
def Pressed (l : Loop) : Prop := l.stage = .ready ∨ (∃ w, l.wait? = some w) ∧ l.Owed

def advance (now : Nat) (l : Loop) : Loop :=
  match l.nextEvent? now with
  | some e => ((l.step now e).map Prod.fst).getD l
  | none => l

/-- After at most two steps of the loop's own, a tick begins at `now` or the run is over. -/
def DueAt (l : Loop) (now : Nat) : Prop :=
  ∃ n ≤ 2, ((advance now)^[n] l).stage = .ticking now ∨ ((advance now)^[n] l).stage = .returned

/-- The wait that an event cuts short: it takes time, a wake ends it, and its length is not over. -/
def shortens? (l : Loop) (now : Nat) : Event → Option (Nat × Option Duration)
  | .rouse => l.wait?.filter fun w => Long w.2 && w.2.all fun d => decide (now < w.1 + d.ceilMillis)
  | _ => none

def shortened (l : Loop) : List (Nat × Event) → List (Nat × Option Duration)
  | [] => []
  | (now, e) :: t =>
    (l.shortens? now e).toList ++
      match l.step now e with
      | some (l', _) => l'.shortened t
      | none => []

def begun (l : Loop) : List (Nat × Event) → List (Nat × Option Duration)
  | [] => []
  | (now, e) :: t =>
    match l.step now e with
    | some (l', _) => (if l.wait? = none then l'.wait? else none).toList ++ l'.begun t
    | none => []

theorem shortened_cons (h : l.step now e = some (l', effects)) :
    l.shortened ((now, e) :: t) = (l.shortens? now e).toList ++ l'.shortened t := by
  rw [shortened, h]

theorem begun_cons (h : l.step now e = some (l', effects)) :
    l.begun ((now, e) :: t) =
      (if l.wait? = none then l'.wait? else none).toList ++ l'.begun t := by
  rw [begun, h]

theorem prompt_cons (h : l.step later e = some (l', effects)) :
    l.Prompt now ((later, e) :: t) ↔
      now ≤ later ∧ (∀ x < later, now ≤ x → l.nextEvent? x = none) ∧ l'.Prompt later t := by
  rw [Prompt, h]

theorem Prompt.append (h : l.Prompt now (t ++ u)) (ran : l.run t = some m) :
    m.Prompt (clock now t) u := by
  induction t generalizing l now with
  | nil =>
    cases ran
    exact h
  | cons x t ih =>
    obtain ⟨later, e⟩ := x
    obtain ⟨l', effects, first, rest⟩ := run_cons_eq_some.mp ran
    exact ih ((prompt_cons first).mp h).2.2 rest

theorem Prompt.take (h : l.Prompt now (t ++ u)) : l.Prompt now t := by
  induction t generalizing l now with
  | nil => trivial
  | cons x t ih =>
    obtain ⟨later, e⟩ := x
    obtain ⟨order, rests, onward⟩ := h
    refine ⟨order, rests, ?_⟩
    split
    · rename_i taken
      rw [taken] at onward
      exact ih onward
    · trivial

theorem run_append_eq_some :
    l.run (t ++ u) = some m ↔ ∃ l', l.run t = some l' ∧ l'.run u = some m :=
  after_append_eq_some

/-- What every step of a sound loop keeps, a whole run of it keeps. -/
theorem Sound.run {P : Loop → Prop} (h : l.Sound) (start : P l)
    (keeps : ∀ {now l e l' effects}, l.Sound → P l → l.step now e = some (l', effects) → P l')
    (ran : l.run t = some m) : m.Sound ∧ P m := by
  refine after_invariant (P := fun l => l.Sound ∧ P l) (fun {now l e l'} before stepped => ?_)
    ⟨h, start⟩ ran
  obtain ⟨⟨_, effects⟩, taken, rfl⟩ := Option.map_eq_some_iff.mp stepped
  exact ⟨sound_step before.1 taken, keeps before.1 before.2 taken⟩

theorem sound_run (h : l.Sound) (ran : l.run t = some m) : m.Sound :=
  (h.run trivial (fun _ _ _ => trivial) ran).1

/-! ## One step -/

theorem wait?_eq_some {since : Nat} {length : Option Duration} :
    l.wait? = some (since, length) ↔ ∃ notified, l.stage = .waiting since length notified := by
  unfold wait?
  cases l.stage <;> simp

theorem Sound.wait?_of_idle (h : l.Sound) (idle : l.status = .idle) : l.wait? = none := by
  rw [wait?, h.unstarted idle]

theorem wait?_wake (l : Loop) : l.wake.wait? = l.wait? := by
  rcases l.wake_cases with ⟨since, length, stage, k⟩ | k
  · rw [k, wait?, wait?, stage]
  · rw [k]
    rfl

/-- A step outside a wait may begin one. A wait goes on until one of its ends, which leaves the loop
outside a wait. -/
theorem wait?_cases (h : l.Sound) (k : l.step now e = some (l', effects)) :
    (l.wait? = none ∧ e.endsWait = false ∧ ∀ w, l'.wait? = some w → w.1 = now) ∨
      (l'.wait? = l.wait? ∧ e.endsWait = false) ∨ (e.endsWait = true ∧ l'.wait? = none) := by
  cases e with
  | start jitter =>
    rcases start_cases k with ⟨-, rfl, -⟩ | ⟨idle, m, rfl, ⟨rfl, -⟩ | ⟨-, k⟩ | ⟨length, rfl, -⟩⟩
    · exact Or.inr (Or.inl ⟨rfl, rfl⟩)
    · exact Or.inl ⟨h.wait?_of_idle idle, rfl, fun w begins => by cases begins⟩
    · cases k
      exact Or.inl ⟨h.wait?_of_idle idle, rfl, fun w begins => by cases begins⟩
    · refine Or.inl ⟨h.wait?_of_idle idle, rfl, fun w begins => ?_⟩
      cases begins
      rfl
  | turn =>
    obtain ⟨ready, k⟩ := turn_cases k
    have outside : l.wait? = none := by rw [wait?, ready]
    refine Or.inl ⟨outside, rfl, fun w begins => ?_⟩
    rcases k with ⟨-, k⟩ | ⟨-, rfl, -⟩
    · cases k
      cases begins
    · cases begins
  | tickDone result =>
    obtain ⟨⟨since, ticking⟩, -, -, length, paused, -⟩ := tickDone_cases k
    have outside : l.wait? = none := by rw [wait?, ticking]
    refine Or.inl ⟨outside, rfl, fun w begins => ?_⟩
    rcases paused with ⟨-, stage, -⟩ | ⟨-, -, -, stage⟩
    · rw [wait?, stage] at begins
      cases begins
    · rw [wait?, stage] at begins
      cases begins
      rfl
  | timeout =>
    obtain ⟨_, _, _, -, rfl, -⟩ := timeout_cases k
    exact Or.inr (Or.inr ⟨rfl, rfl⟩)
  | rouse =>
    obtain ⟨_, _, _, -, rfl, -⟩ := rouse_cases k
    exact Or.inr (Or.inr ⟨rfl, rfl⟩)
  | interrupt =>
    obtain ⟨_, _, _, -, -, rfl, -⟩ := interrupt_cases k
    exact Or.inr (Or.inr ⟨rfl, rfl⟩)
  | wake =>
    cases k
    exact Or.inr (Or.inl ⟨l.wait?_wake, rfl⟩)
  | askStop =>
    obtain ⟨rfl, -⟩ := askStop_cases k
    exact Or.inr (Or.inl ⟨rfl, rfl⟩)
  | settleStop =>
    obtain ⟨rfl, -⟩ := settleStop_cases k
    refine Or.inr (Or.inl ⟨?_, rfl⟩)
    split <;> rfl
  | join =>
    obtain ⟨-, rfl, -⟩ := join_cases k
    exact Or.inr (Or.inl ⟨rfl, rfl⟩)

theorem stage_of_others (outside : l.wait? = none) (idle : l.status ≠ .idle) (top : e ≠ .turn)
    (own : ∀ result, e ≠ .tickDone result) (k : l.step now e = some (l', effects)) :
    l'.stage = l.stage := by
  have waits : ∀ since length notified, l.stage ≠ .waiting since length notified := by
    intro since length notified stage
    rw [wait?, stage] at outside
    cases outside
  cases e with
  | start jitter =>
    rcases start_cases k with ⟨-, rfl, -⟩ | ⟨begins, -⟩
    · rfl
    · exact absurd begins idle
  | turn => exact absurd rfl top
  | tickDone result => exact absurd rfl (own result)
  | timeout =>
    obtain ⟨_, _, _, stage, -⟩ := timeout_cases k
    exact absurd stage (waits _ _ _)
  | rouse =>
    obtain ⟨_, _, _, stage, -⟩ := rouse_cases k
    exact absurd stage (waits _ _ _)
  | interrupt =>
    obtain ⟨_, _, _, stage, -⟩ := interrupt_cases k
    exact absurd stage (waits _ _ _)
  | wake =>
    cases k
    rcases l.wake_cases with ⟨since, length, stage, -⟩ | k
    · exact absurd stage (waits _ _ _)
    · rw [k]
  | askStop =>
    obtain ⟨rfl, -⟩ := askStop_cases k
    rfl
  | settleStop =>
    obtain ⟨rfl, -⟩ := settleStop_cases k
    rw [if_neg idle]
  | join =>
    obtain ⟨-, rfl, -⟩ := join_cases k
    rfl

theorem returned_of_step (h : l.Sound) (returned : l.stage = .returned)
    (k : l.step now e = some (l', effects)) : l'.stage = .returned := by
  rw [← returned]
  refine stage_of_others (by rw [wait?, returned]) (fun idle => ?_) ?_ ?_ k
  · rw [h.unstarted idle] at returned
    cases returned
  · rintro rfl
    rw [(turn_cases k).1] at returned
    cases returned
  · rintro result rfl
    obtain ⟨⟨since, ticking⟩, -⟩ := tickDone_cases k
    rw [ticking] at returned
    cases returned

theorem ready_of_step (h : l.Sound) (ready : l.stage = .ready) (top : e ≠ .turn)
    (k : l.step now e = some (l', effects)) : l'.stage = .ready := by
  rw [← ready]
  refine stage_of_others (by rw [wait?, ready]) ?_ top ?_ k
  · rw [h.running (by simp [ready]) (by simp [ready])]
    simp
  · rintro result rfl
    obtain ⟨⟨since, ticking⟩, -⟩ := tickDone_cases k
    rw [ticking] at ready
    cases ready

theorem ready_or_returned_of_endsWait (ends : e.endsWait = true)
    (k : l.step now e = some (l', effects)) : l'.stage = .ready ∨ l'.stage = .returned := by
  cases e with
  | timeout =>
    obtain ⟨_, _, _, -, rfl, -⟩ := timeout_cases k
    exact Or.inl rfl
  | rouse =>
    obtain ⟨_, _, _, -, rfl, -⟩ := rouse_cases k
    exact Or.inl rfl
  | interrupt =>
    obtain ⟨_, _, _, -, -, rfl, -⟩ := interrupt_cases k
    exact Or.inr rfl
  | _ => cases ends

/-! ## Tokens -/

def tokens (l : Loop) : Nat := l.permit.toNat + l.reached.toNat

theorem toNat_or_le (a b : Bool) : (a || b).toNat ≤ a.toNat + b.toNat := by
  cases a <;> cases b <;> decide

theorem reached_of_outside (outside : l.wait? = none) : l.reached = false := by
  unfold reached
  split
  · rename_i stage
    rw [wait?, stage] at outside
    cases outside
  · rfl

theorem tokens_le_one (outside : l.wait? = none) : l.tokens ≤ 1 := by
  rw [tokens, reached_of_outside outside]
  cases l.permit <;> simp

theorem owed_wake (l : Loop) : l.wake.Owed := by
  rcases l.wake_cases with ⟨since, length, -, k⟩ | k
  · exact Or.inr (by rw [k, reached])
  · exact Or.inl (by rw [k])

theorem tokens_wake (l : Loop) : l.wake.tokens ≤ l.tokens + 1 := by
  rcases l.wake_cases with ⟨since, length, stage, k⟩ | k
  · simp [k, tokens, reached, stage]
  · have same : l.wake.reached = l.reached := by rw [k]; rfl
    rw [tokens, tokens, same, k]
    have bound := l.permit.toNat_le
    simp only [Bool.toNat_true]
    omega

/-- The end of a wait that takes a wake uses a token up. No other step loses the last token, and
only a wake brings one. -/
theorem tokens_cases (h : l.Sound) (k : l.step now e = some (l', effects)) :
    (e = .rouse ∧ l'.tokens + 1 = l.tokens) ∨
      (e ≠ .rouse ∧ (l.Owed → l'.Owed) ∧ l'.tokens ≤ l.tokens + e.isWake.toNat) := by
  have of_same : e ≠ .rouse → l'.permit = l.permit → l'.reached = l.reached →
      (e ≠ .rouse ∧ (l.Owed → l'.Owed) ∧ l'.tokens ≤ l.tokens + e.isWake.toNat) := by
    intro other permit reached
    rw [Owed, Owed, tokens, tokens, permit, reached]
    exact ⟨other, id, Nat.le_add_right _ _⟩
  cases e with
  | start jitter =>
    rcases start_cases k with ⟨-, rfl, -⟩ | ⟨idle, m, rfl, k⟩
    · exact Or.inr (of_same (by simp) rfl rfl)
    · have unreached := reached_of_outside (h.wait?_of_idle idle)
      rcases k with ⟨rfl, -⟩ | ⟨-, k⟩ | ⟨length, rfl, -⟩
      · exact Or.inr (of_same (by simp) rfl unreached.symm)
      · cases k
        exact Or.inr (of_same (by simp) rfl unreached.symm)
      · exact Or.inr (of_same (by simp) rfl unreached.symm)
  | turn =>
    obtain ⟨ready, k⟩ := turn_cases k
    have unreached : l.reached = false := by rw [reached, ready]
    rcases k with ⟨-, k⟩ | ⟨-, rfl, -⟩
    · cases k
      exact Or.inr (of_same (by simp) rfl unreached.symm)
    · exact Or.inr (of_same (by simp) rfl unreached.symm)
  | tickDone result =>
    obtain ⟨⟨since, ticking⟩, ⟨-, -, -, permit⟩, -, length, paused, -⟩ := tickDone_cases k
    refine Or.inr (of_same (by simp) permit ?_)
    rcases paused with ⟨-, stage, -⟩ | ⟨-, -, -, stage⟩
    · rw [reached, reached, stage, ticking]
    · rw [reached, reached, stage, ticking]
  | timeout =>
    obtain ⟨since, length, notified, stage, rfl, -⟩ := timeout_cases k
    refine Or.inr ⟨by simp, ?_, ?_⟩
    · simp only [Owed, reached, stage, Bool.or_eq_true, Bool.false_eq_true, or_false, imp_self]
    · have bound := toNat_or_le l.permit notified
      simp only [tokens, reached, stage, Bool.toNat_false]
      omega
  | rouse =>
    have held := wake_of_rouse k
    obtain ⟨since, length, notified, stage, rfl, -⟩ := rouse_cases k
    refine Or.inl ⟨rfl, ?_⟩
    simp only [tokens, reached, stage]
    cases permit : l.permit <;> cases notified <;> simp_all
  | interrupt =>
    obtain ⟨since, length, notified, stage, -, rfl, -⟩ := interrupt_cases k
    refine Or.inr ⟨by simp, ?_, ?_⟩
    · simp only [Owed, reached, stage, Bool.or_eq_true, Bool.false_eq_true, or_false, imp_self]
    · have bound := toNat_or_le l.permit notified
      simp only [tokens, reached, stage, Bool.toNat_false]
      omega
  | wake =>
    cases k
    exact Or.inr ⟨by simp, fun _ => l.owed_wake, l.tokens_wake⟩
  | askStop =>
    obtain ⟨rfl, -⟩ := askStop_cases k
    exact Or.inr (of_same (by simp) rfl rfl)
  | settleStop =>
    obtain ⟨rfl, -⟩ := settleStop_cases k
    refine Or.inr (of_same (by simp) ?_ ?_)
    · split <;> rfl
    · split <;> rfl
  | join =>
    obtain ⟨-, rfl, -⟩ := join_cases k
    exact Or.inr (of_same (by simp) rfl rfl)

/-! ## Pressed loops -/

theorem Pressed.nextEvent? (h : l.Pressed) (now : Nat) : ∃ e, l.nextEvent? now = some e := by
  rcases h with ready | ⟨⟨⟨since, length⟩, waits⟩, owed⟩
  · exact ⟨.turn, by simp [Loop.nextEvent?, ready]⟩
  · obtain ⟨notified, stage⟩ := wait?_eq_some.mp waits
    have held : (notified || l.permit) = true := by
      rcases owed with permit | reached
      · simp [permit]
      · rw [Loop.reached, stage] at reached
        simp [reached]
    unfold Loop.nextEvent?
    simp only [stage, held, if_true]
    split <;> exact ⟨_, rfl⟩

/-- No time passes while a loop is pressed. -/
theorem Pressed.time (h : l.Pressed) (prompt : l.Prompt now ((later, e) :: t)) : later = now := by
  obtain ⟨order, rests, -⟩ := prompt
  obtain ⟨next, acts⟩ := h.nextEvent? now
  by_contra passed
  have still := rests now (by omega) (Nat.le_refl now)
  rw [acts] at still
  cases still

theorem Pressed.step (h : l.Pressed) (sound : l.Sound) (top : e ≠ .turn)
    (k : l.step now e = some (l', effects)) : l'.Pressed ∨ l'.stage = .returned := by
  rcases h with ready | ⟨⟨w, waits⟩, owed⟩
  · exact Or.inl (Or.inl (ready_of_step sound ready top k))
  · rcases wait?_cases sound k with ⟨outside, -⟩ | ⟨same, on⟩ | ⟨ends, -⟩
    · rw [waits] at outside
      cases outside
    · refine Or.inl (Or.inr ⟨⟨w, same.trans waits⟩, ?_⟩)
      rcases tokens_cases sound k with ⟨rfl, -⟩ | ⟨-, keeps, -⟩
      · cases on
      · exact keeps owed
    · rcases ready_or_returned_of_endsWait ends k with ready | returned
      · exact Or.inl (Or.inl ready)
      · exact Or.inr returned

theorem Pressed.run (h : l.Pressed) (sound : l.Sound) (ran : l.run w = some m)
    (prompt : l.Prompt now (w ++ [(later, e)])) (top : ∀ x ∈ w, x.2 ≠ .turn)
    (going : m.stage ≠ .returned) : m.Pressed ∧ later = now := by
  induction w generalizing l now with
  | nil =>
    cases ran
    exact ⟨h, h.time prompt⟩
  | cons x w ih =>
    obtain ⟨at_, e'⟩ := x
    obtain ⟨l', effects, first, rest⟩ := run_cons_eq_some.mp ran
    have here : at_ = now := h.time prompt
    subst here
    have onward := ((prompt_cons first).mp prompt).2.2
    rcases h.step sound (top _ List.mem_cons_self) first with pressed | returned
    · exact ih pressed (sound_step sound first) rest onward
        fun x mem => top x (List.mem_cons_of_mem _ mem)
    · have ended := (sound_step sound first).run returned returned_of_step rest
      exact absurd ended.2 going

theorem advance_eq (acts : l.nextEvent? now = some e) (k : l.step now e = some (l', effects)) :
    advance now l = l' := by
  rw [advance, acts]
  simp only [k, Option.map_some, Option.getD_some]

theorem advance_of_ready (ready : l.stage = .ready) (now : Nat) :
    (advance now l).stage = .ticking now ∨ (advance now l).stage = .returned := by
  have acts : l.nextEvent? now = some .turn := by rw [nextEvent?, ready]
  obtain ⟨⟨l', effects⟩, taken⟩ := Option.isSome_iff_exists.mp (step_nextEvent? acts)
  rw [advance_eq acts taken]
  obtain ⟨-, ⟨-, k⟩ | ⟨-, rfl, -⟩⟩ := turn_cases taken
  · cases k
    exact Or.inr rfl
  · exact Or.inl rfl

theorem endsWait_of_nextEvent? {x : Nat × Option Duration} (waits : l.wait? = some x)
    (acts : l.nextEvent? now = some e) : e.endsWait = true := by
  obtain ⟨since, length⟩ := x
  obtain ⟨notified, stage⟩ := wait?_eq_some.mp waits
  simp only [nextEvent?, stage] at acts
  split at acts
  · cases acts
    rfl
  split at acts
  · cases acts
    rfl
  split at acts
  · split at acts
    · cases acts
      rfl
    · cases acts
  · cases acts

theorem Pressed.dueAt (h : l.Pressed) (now : Nat) : l.DueAt now := by
  by_cases ready : l.stage = .ready
  · exact ⟨1, by omega, advance_of_ready ready now⟩
  · obtain ⟨x, waits⟩ := (h.resolve_left ready).1
    obtain ⟨next, acts⟩ := h.nextEvent? now
    obtain ⟨⟨l', effects⟩, taken⟩ := Option.isSome_iff_exists.mp (step_nextEvent? acts)
    rcases ready_or_returned_of_endsWait (endsWait_of_nextEvent? waits acts) taken with
      ready | returned
    · refine ⟨2, Nat.le_refl 2, ?_⟩
      rw [Function.iterate_succ_apply, advance_eq acts taken]
      exact advance_of_ready ready now
    · refine ⟨1, by omega, Or.inr ?_⟩
      rw [Function.iterate_one, advance_eq acts taken]
      exact returned

/-! ## The first wait after a wake -/

theorem Owed.run (h : l.Owed) (sound : l.Sound) (ran : l.run u = some m)
    (first : ∀ x ∈ u, x.2.endsWait = false) : m.Owed := by
  induction u generalizing l with
  | nil =>
    cases ran
    exact h
  | cons x u ih =>
    obtain ⟨now, e⟩ := x
    obtain ⟨l', effects, taken, rest⟩ := run_cons_eq_some.mp ran
    refine ih ?_ (sound_step sound taken) rest fun y mem => first y (List.mem_cons_of_mem _ mem)
    rcases tokens_cases sound taken with ⟨rfl, -⟩ | ⟨-, keeps, -⟩
    · exact absurd (first _ List.mem_cons_self) (by simp [Event.endsWait])
    · exact keeps h

theorem since_le_clock {x : Nat × Option Duration} (sound : l.Sound)
    (begins : ∀ y, l.wait? = some y → y.1 ≤ now) (prompt : l.Prompt now t)
    (ran : l.run t = some m) (waits : m.wait? = some x) : x.1 ≤ clock now t := by
  induction t generalizing l now with
  | nil =>
    cases ran
    exact begins x waits
  | cons z t ih =>
    obtain ⟨later, e⟩ := z
    obtain ⟨l', effects, taken, rest⟩ := run_cons_eq_some.mp ran
    obtain ⟨order, -, onward⟩ := (prompt_cons taken).mp prompt
    refine ih (sound_step sound taken) (fun y here => ?_) onward rest
    rcases wait?_cases sound taken with ⟨-, -, fresh⟩ | ⟨same, -⟩ | ⟨-, outside⟩
    · exact Nat.le_of_eq (fresh y here)
    · exact Nat.le_trans (begins y (same.symm.trans here)) order
    · rw [outside] at here
      cases here

theorem Owed.wait_ends {x : Nat × Option Duration} {called : Nat} (h : l.Owed) (sound : l.Sound)
    (began : ∀ y, l.wait? = some y → now = max called y.1) (passed : called ≤ now)
    (prompt : l.Prompt now (u ++ [(later, e)])) (ran : l.run u = some m)
    (first : ∀ z ∈ u, z.2.endsWait = false) (waits : m.wait? = some x) :
    later = max called x.1 := by
  induction u generalizing l now with
  | nil =>
    cases ran
    have pressed : m.Pressed := Or.inr ⟨⟨x, waits⟩, h⟩
    exact (pressed.time prompt).trans (began x waits)
  | cons z u ih =>
    obtain ⟨here, e'⟩ := z
    obtain ⟨l', effects, taken, rest⟩ := run_cons_eq_some.mp ran
    obtain ⟨order, -, onward⟩ := (prompt_cons taken).mp prompt
    have owed : l'.Owed := by
      refine h.run sound (run_cons_eq_some.mpr ⟨l', effects, taken, rfl⟩) ?_ (u := [(here, e')])
      intro y mem
      rw [List.mem_singleton.mp mem]
      exact first _ List.mem_cons_self
    refine ih owed (sound_step sound taken) (fun y begins => ?_) (Nat.le_trans passed order)
      onward rest fun y mem => first y (List.mem_cons_of_mem _ mem)
    rcases wait?_cases sound taken with ⟨-, -, fresh⟩ | ⟨same, -⟩ | ⟨ends, -⟩
    · rw [fresh y begins, Nat.max_eq_right (Nat.le_trans passed order)]
    · have waiting := same.symm.trans begins
      have pressed : l.Pressed := Or.inr ⟨⟨y, waiting⟩, h⟩
      exact (pressed.time prompt).trans (began y waiting)
    · rw [first _ List.mem_cons_self] at ends
      cases ends

/-! ## The next tick after a wake -/

theorem Owed.step_outside (h : l.Owed) (sound : l.Sound) (outside : l.wait? = none)
    (k : l.step now e = some (l', effects)) : l'.Owed := by
  rcases tokens_cases sound k with ⟨rfl, -⟩ | ⟨-, keeps, -⟩
  · obtain ⟨since, length, notified, stage, -⟩ := rouse_cases k
    rw [wait?, stage] at outside
    cases outside
  · exact keeps h

theorem Owed.run_outside {s : Stage} (kept : Event → Prop)
    (outside : ∀ l : Loop, l.stage = s → l.wait? = none)
    (keeps : ∀ {l l' : Loop} {now : Nat} {e : Event} {effects : List Effect}, l.Sound →
      l.stage = s → kept e → l.step now e = some (l', effects) → l'.stage = s)
    (h : l.Owed) (sound : l.Sound) (stage : l.stage = s) (only : ∀ x ∈ v, kept x.2)
    (ran : l.run v = some m) : m.Owed ∧ m.Sound ∧ m.stage = s := by
  induction v generalizing l with
  | nil =>
    cases ran
    exact ⟨h, sound, stage⟩
  | cons x v ih =>
    obtain ⟨now, e⟩ := x
    obtain ⟨l', effects, taken, rest⟩ := run_cons_eq_some.mp ran
    exact ih (h.step_outside sound (outside l stage) taken) (sound_step sound taken)
      (keeps sound stage (only _ List.mem_cons_self) taken)
      (fun y mem => only y (List.mem_cons_of_mem _ mem)) rest

theorem unstarted_of_ne_start (_ : l.Sound) (unstarted : l.stage = .unstarted)
    (other : ∀ jitter, e ≠ .start jitter) (k : l.step now e = some (l', effects)) :
    l'.stage = .unstarted :=
  (unstarted_of_step k fun begins => begins.2.elim other).mpr unstarted

theorem Owed.tickDone {result : Except Failure Signal} (h : l.Owed) (sound : l.Sound)
    (k : l.step now (.tickDone result) = some (l', effects)) :
    l'.Pressed ∨ l'.stage = .returned := by
  obtain ⟨⟨since, ticking⟩, -, -, length, paused, -⟩ := tickDone_cases k
  have owed := h.step_outside sound (by rw [wait?, ticking]) k
  rcases paused with ⟨-, returned, -⟩ | ⟨-, -, -, stage⟩
  · exact Or.inr returned
  · exact Or.inl (Or.inr ⟨⟨_, wait?_eq_some.mpr ⟨_, stage⟩⟩, owed⟩)

theorem Owed.start {jitter : Duration} (h : l.Owed) (sound : l.Sound)
    (unstarted : l.stage = .unstarted) (k : l.step now (.start jitter) = some (l', effects)) :
    l'.Pressed ∨ l'.status = .finished := by
  have owed := h.step_outside sound (by rw [wait?, unstarted]) k
  rcases start_cases k with ⟨begun, rfl, -⟩ | ⟨-, m, rfl, ⟨rfl, -⟩ | ⟨-, k⟩ | ⟨length, rfl, -⟩⟩
  · exact Or.inr (sound.finished_of_unstarted unstarted begun)
  · exact Or.inl (Or.inl rfl)
  · cases k
    exact Or.inr rfl
  · exact Or.inl (Or.inr ⟨⟨_, rfl⟩, owed⟩)

theorem Pressed.due {ended : Nat} {e' : Event} (h : l'.Pressed) (sound : l.Sound)
    (taken : l.step ended e = some (l', effects)) (ran : l'.run w = some m)
    (prompt : l.Prompt now ((ended, e) :: (w ++ [(later, e')]))) (top : ∀ x ∈ w, x.2 ≠ .turn)
    (going : m.stage ≠ .returned) : later = ended ∧ m.DueAt ended := by
  have onward := ((prompt_cons taken).mp prompt).2.2
  obtain ⟨pressed, time⟩ := h.run (sound_step sound taken) ran onward top going
  exact ⟨time, pressed.dueAt ended⟩

/-! ## What wakes cut short -/

theorem shortens?_eq_some {x : Nat × Option Duration} (h : l.shortens? now e = some x) :
    e = .rouse ∧ l.wait? = some x ∧ Long x.2 = true := by
  unfold shortens? at h
  split at h
  · obtain ⟨waits, long⟩ := Option.filter_eq_some_iff.mp h
    rw [Bool.and_eq_true] at long
    exact ⟨rfl, waits, long.1⟩
  · cases h

theorem shortens?_eq_none (other : e ≠ .rouse) : l.shortens? now e = none :=
  Option.eq_none_iff_forall_ne_some.mpr fun _ cut => other (shortens?_eq_some cut).1

theorem long_of_mem_shortened {x : Nat × Option Duration} (mem : x ∈ l.shortened t) :
    Long x.2 = true := by
  induction t generalizing l with
  | nil => cases mem
  | cons y t ih =>
    obtain ⟨now, e⟩ := y
    rw [shortened, List.mem_append] at mem
    rcases mem with here | later
    · exact (shortens?_eq_some (Option.mem_toList.mp here)).2.2
    · split at later
      · exact ih later
      · cases later

/-- Every wait cut short uses up a token. -/
theorem shortened_le_tokens (sound : l.Sound) (ran : l.run t = some m) :
    (l.shortened t).length + m.tokens ≤ l.tokens + t.countP (·.2.isWake) := by
  induction t generalizing l with
  | nil =>
    cases ran
    simp [shortened]
  | cons x t ih =>
    obtain ⟨now, e⟩ := x
    obtain ⟨l', effects, taken, rest⟩ := run_cons_eq_some.mp ran
    have onward := ih (sound_step sound taken) rest
    have wakes : ((now, e) :: t).countP (·.2.isWake) =
        t.countP (·.2.isWake) + e.isWake.toNat := by
      rw [List.countP_cons]
      cases e.isWake <;> rfl
    rw [shortened_cons taken, List.length_append, wakes]
    rcases tokens_cases sound taken with ⟨rfl, used⟩ | ⟨other, -, bound⟩
    · have one : (l.shortens? now .rouse).toList.length ≤ 1 := by
        cases l.shortens? now .rouse <;> simp
      omega
    · rw [shortens?_eq_none (fun same => absurd same other), Option.toList_none, List.length_nil]
      omega

/-- At most one wait besides the one in progress is cut short. -/
def CutsOneMore (l : Loop) (t : List (Nat × Event)) : Prop :=
  ∃ c d, l.shortened t = c ++ d ∧ c.Sublist l.wait?.toList ∧ d.length ≤ 1

theorem CutsOneMore.cons (h : l'.CutsOneMore t) (sound : l.Sound)
    (k : l.step now e = some (l', effects))
    (short : l.wait? = none → ∀ x, l'.wait? = some x → Long x.2 = false) :
    l.CutsOneMore ((now, e) :: t) := by
  obtain ⟨c, d, cut, here, one⟩ := h
  have long : ∀ x ∈ c, Long x.2 = true := fun x mem =>
    long_of_mem_shortened (cut ▸ List.mem_append_left d mem)
  rw [CutsOneMore, shortened_cons k, cut]
  have uncut : e.endsWait = false → l.shortens? now e = none := fun on =>
    shortens?_eq_none fun rouses => by simp [rouses, Event.endsWait] at on
  rcases wait?_cases sound k with ⟨outside, on, -⟩ | ⟨same, on⟩ | ⟨ends, ended⟩
  · -- a wait that begins here is not long, so none of what is cut is that wait
    have spared : c = [] := by
      rw [List.eq_nil_iff_forall_not_mem]
      intro x mem
      have waits : l'.wait? = some x := Option.mem_toList.mp (here.subset mem)
      have brief := short outside x waits
      rw [long x mem] at brief
      cases brief
    rw [uncut on, spared]
    exact ⟨[], d, rfl, List.nil_sublist _, one⟩
  · rw [uncut on]
    exact ⟨c, d, rfl, same ▸ here, one⟩
  · rw [ended] at here
    have spared : c = [] := List.sublist_nil.mp here
    rw [spared]
    refine ⟨_, d, rfl, ?_, one⟩
    cases cuts : l.shortens? now e with
    | none => exact List.nil_sublist _
    | some x =>
      have same := (shortens?_eq_some cuts).2.1
      exact same ▸ List.Sublist.refl _

theorem cutsOneMore_of_no_wake (sound : l.Sound) (ran : l.run w = some m)
    (unwoken : ∀ x ∈ w, x.2.isWake = false) : l.CutsOneMore w := by
  induction w generalizing l with
  | nil => exact ⟨[], [], rfl, List.nil_sublist _, by simp⟩
  | cons x w ih =>
    cases outside : l.wait? with
    | none =>
      have bound := shortened_le_tokens sound ran
      have unheard : (x :: w).countP (·.2.isWake) = 0 := by
        rw [List.countP_eq_zero]
        intro y mem
        simp [unwoken y mem]
      have one := tokens_le_one outside
      exact ⟨[], l.shortened (x :: w), rfl, List.nil_sublist _, by omega⟩
    | some y =>
      obtain ⟨now, e⟩ := x
      obtain ⟨l', effects, taken, rest⟩ := run_cons_eq_some.mp ran
      refine (ih (sound_step sound taken) rest ?_).cons sound taken ?_
      · exact fun z mem => unwoken z (List.mem_cons_of_mem _ mem)
      · intro idle
        rw [outside] at idle
        cases idle

theorem cutsOneMore_of_no_wait (sound : l.Sound) (ran : l.run (v ++ w) = some m)
    (brief : ∀ x ∈ l.begun v, Long x.2 = false) (unwoken : ∀ x ∈ w, x.2.isWake = false) :
    l.CutsOneMore (v ++ w) := by
  induction v generalizing l with
  | nil => exact cutsOneMore_of_no_wake sound ran unwoken
  | cons x v ih =>
    obtain ⟨now, e⟩ := x
    obtain ⟨l', effects, taken, rest⟩ := run_cons_eq_some.mp ran
    rw [begun_cons taken] at brief
    refine (ih (sound_step sound taken) rest ?_).cons sound taken ?_
    · exact fun y mem => brief y (List.mem_append_right _ mem)
    · intro outside y begins
      refine brief y (List.mem_append_left _ ?_)
      rw [if_pos outside, begins]
      simp

/-- A wake comes at `now`, and the run goes on to a loop whose next event is at `later`. As long as
no wait has ended, no length is left of a wait: it ends at the wake, or where it begins. The next
tick is due at the wake itself where the loop was between ticks, at the end of the tick in flight
where there was one, and at the start of a run that had not begun. However many wakes come while no
long wait begins, they cut at most one wait besides the one in progress at the first of them, and no
run cuts more waits than it has wakes. -/
theorem wakes_spent {config : Config} {mode : Mode} (before : (new config mode).run t = some l)
    (prompt : (new config mode).Prompt 0 (t ++ (now, .wake) :: (u ++ [(later, e)])))
    (ran : l.wake.run u = some m) :
    (∀ since length notified, m.stage = .waiting since length notified →
      (∀ x ∈ u, x.2.endsWait = false) → later = max now since ∧ m.DueAt later) ∧
    ((l.stage = .ready ∨ ∃ since length notified, l.stage = .waiting since length notified) →
      (∀ x ∈ u, x.2 ≠ .turn) → m.stage ≠ .returned → later = now ∧ m.DueAt now) ∧
    (∀ since v ended result w, l.stage = .ticking since →
      u = v ++ (ended, .tickDone result) :: w → (∀ x ∈ v, ∀ result, x.2 ≠ .tickDone result) →
      (∀ x ∈ w, x.2 ≠ .turn) → m.stage ≠ .returned → later = ended ∧ m.DueAt ended) ∧
    (∀ v start jitter w, l.stage = .unstarted → u = v ++ (start, .start jitter) :: w →
      (∀ x ∈ v, ∀ jitter, x.2 ≠ .start jitter) → (∀ x ∈ w, x.2 ≠ .turn) →
      m.stage ≠ .unstarted → m.stage ≠ .returned → later = start ∧ m.DueAt start) ∧
    (∀ v w, u = v ++ w → (∀ x ∈ l.wake.begun v, Long x.2 = false) →
      (∀ x ∈ w, x.2.isWake = false) → l.wake.CutsOneMore u) ∧
    ((new config mode).shortened (t ++ (now, .wake) :: u)).length ≤
      (t ++ (now, .wake) :: u).countP (·.2.isWake) := by
  have sound : l.Sound := sound_run (sound_new config mode) before
  have woken : l.step now .wake = some (l.wake, []) := rfl
  have soundly : l.wake.Sound := sound_wake sound
  have owed := l.owed_wake
  obtain ⟨order, -, onward⟩ := (prompt_cons woken).mp (prompt.append before)
  refine ⟨fun since length notified stage first => ?_, fun between top going => ?_,
    fun since v ended result w ticking split own top going => ?_,
    fun v start jitter w unstarted split own top begun going => ?_,
    fun v w split brief unwoken => ?_, ?_⟩
  · have waits : m.wait? = some (since, length) := wait?_eq_some.mpr ⟨notified, stage⟩
    have pressed : m.Pressed := Or.inr ⟨⟨_, waits⟩, owed.run soundly ran first⟩
    refine ⟨owed.wait_ends soundly (fun x waiting => ?_) (Nat.le_refl now) onward ran first waits,
      pressed.dueAt later⟩
    have earlier := since_le_clock (sound_new config mode) (fun y begins => by cases begins)
      prompt.take before (l.wait?_wake.symm.trans waiting)
    exact (Nat.max_eq_left (Nat.le_trans earlier order)).symm
  · have pressed : l.wake.Pressed := by
      rcases between with ready | ⟨since, length, notified, stage⟩
      · exact Or.inl (ready_of_step sound ready (by simp) woken)
      · have waits : l.wait? = some (since, length) := wait?_eq_some.mpr ⟨notified, stage⟩
        exact Or.inr ⟨⟨_, l.wait?_wake.trans waits⟩, owed⟩
    obtain ⟨pressed, time⟩ := pressed.run soundly ran onward top going
    exact ⟨time, pressed.dueAt now⟩
  · subst split
    obtain ⟨a, ranV, rest⟩ := run_append_eq_some.mp ran
    obtain ⟨b, effects, taken, rest⟩ := run_cons_eq_some.mp rest
    have still : l.wake.stage = .ticking since := stage_of_ticking sound ticking (by simp) woken
    obtain ⟨owed, soundA, -⟩ := owed.run_outside (fun e => ∀ result, e ≠ .tickDone result)
      (fun l ticking => by rw [wait?, ticking]) stage_of_ticking soundly still own ranV
    rw [List.append_assoc, List.cons_append] at onward
    rcases owed.tickDone soundA taken with pressed | returned
    · exact pressed.due soundA taken rest (onward.append ranV) top going
    · have ended := (sound_step soundA taken).run returned returned_of_step rest
      exact absurd ended.2 going
  · subst split
    obtain ⟨a, ranV, rest⟩ := run_append_eq_some.mp ran
    obtain ⟨b, effects, taken, rest⟩ := run_cons_eq_some.mp rest
    have still := unstarted_of_ne_start sound unstarted (by simp) woken
    obtain ⟨owed, soundA, waiting⟩ := owed.run_outside (fun e => ∀ jitter, e ≠ .start jitter)
      (fun l unstarted => by rw [wait?, unstarted]) unstarted_of_ne_start soundly still own ranV
    rw [List.append_assoc, List.cons_append] at onward
    rcases owed.start soundA waiting taken with pressed | fin
    · exact pressed.due soundA taken rest (onward.append ranV) top going
    · obtain ⟨soundM, ended⟩ := (sound_step soundA taken).run fin finished_of_step rest
      rcases soundM.finished ended with stage | stage
      · exact absurd stage begun
      · exact absurd stage going
  · subst split
    exact cutsOneMore_of_no_wait soundly ran brief unwoken
  · have whole : (new config mode).run (t ++ (now, .wake) :: u) = some m :=
      run_append_eq_some.mpr ⟨l, before, run_cons_eq_some.mpr ⟨_, _, woken, ran⟩⟩
    have bound := shortened_le_tokens (sound_new config mode) whole
    have none : (new config mode).tokens = 0 := rfl
    omega

def steady : Config := { interval := .ofMillis 10 }

def asleep : List (Nat × Event) := [(0, .start .zero), (0, .turn), (0, .tickDone (.ok .keep))]

def roused : List (Nat × Event) := [(3, .rouse), (3, .turn), (8, .tickDone (.ok .keep))]

/-- Two wakes in a sleep, one wake in a sleep, one in a tick, and one before the run. -/
theorem wakes_spent_steady :
    (∃ l m : Loop, (new steady .periodic).run asleep = some l ∧
      (new steady .periodic).Prompt 0
        (asleep ++ (3, .wake) :: ((3, .wake) :: roused ++ [(8, .rouse)])) ∧
      l.wake.run ((3, .wake) :: roused) = some m ∧ l.wake.CutsOneMore ((3, .wake) :: roused)) ∧
    (∃ l : Loop, (new steady .periodic).run asleep = some l ∧
      (new steady .periodic).Prompt 0 (asleep ++ (3, .wake) :: ([] ++ [(3, .rouse)])) ∧
      3 = max 3 0 ∧ l.wake.DueAt 3) ∧
    (∃ l m : Loop, (new steady .periodic).run (asleep.take 2) = some l ∧
      (new steady .periodic).Prompt 0
        (asleep.take 2 ++ (2, .wake) :: ([(5, .tickDone (.ok .keep))] ++ [(5, .rouse)])) ∧
      l.wake.run [(5, .tickDone (.ok .keep))] = some m ∧ m.DueAt 5) ∧
    ∃ l m : Loop, (new steady .periodic).run [] = some l ∧
      (new steady .periodic).Prompt 0
        ([] ++ (1, .wake) :: ([(4, .start (.ofMillis 7))] ++ [(4, .rouse)])) ∧
      l.wake.run [(4, .start (.ofMillis 7))] = some m ∧ m.DueAt 4 := by
  refine ⟨⟨_, _, rfl, by decide, rfl, ?_⟩, ⟨_, rfl, by decide, ?_⟩,
    ⟨_, _, rfl, by decide, rfl, ?_⟩, ⟨_, _, rfl, by decide, rfl, ?_⟩⟩
  · have prompt : (new steady .periodic).Prompt 0
        (asleep ++ (3, .wake) :: ((3, .wake) :: roused ++ [(8, .rouse)])) := by decide
    have spent := wakes_spent rfl prompt rfl
    exact spent.2.2.2.2.1 [(3, .wake)] roused rfl (by decide) (by decide)
  · have prompt : (new steady .periodic).Prompt 0
        (asleep ++ (3, .wake) :: ([] ++ [(3, .rouse)])) := by decide
    have spent := wakes_spent rfl prompt rfl
    have between := spent.2.1 (Or.inr ⟨_, _, _, rfl⟩) (by simp) (by decide)
    exact ⟨(spent.1 0 _ true rfl (by simp)).1, between.2⟩
  · have prompt : (new steady .periodic).Prompt 0
        (asleep.take 2 ++ (2, .wake) :: ([(5, .tickDone (.ok .keep))] ++ [(5, .rouse)])) := by
      decide
    have spent := wakes_spent rfl prompt rfl
    exact (spent.2.2.1 0 [] 5 _ [] rfl rfl (by simp) (by simp) (by decide)).2
  · have prompt : (new steady .periodic).Prompt 0
        ([] ++ (1, .wake) :: ([(4, .start (.ofMillis 7))] ++ [(4, .rouse)])) := by decide
    have spent := wakes_spent rfl prompt rfl
    exact (spent.2.2.2.1 [] 4 _ [] rfl rfl (by simp) (by simp) (by decide) (by decide)).2

/-- Two wakes come in one sleep, with no wait between them, and then none; both that sleep and the
next one are cut short. -/
theorem two_wakes_cut_two_waits : ∃ l m : Loop, (new steady .periodic).run asleep = some l ∧
    (new steady .periodic).Prompt 0
      (asleep ++ (3, .wake) :: (3, .wake) :: (roused ++ [(8, .rouse)])) ∧
    l.wake.begun [(3, .wake)] = [] ∧ (∀ x ∈ roused ++ [(8, .rouse)], x.2.isWake = false) ∧
    l.run ((3, .wake) :: (3, .wake) :: (roused ++ [(8, .rouse)])) = some m ∧
    l.shortened ((3, .wake) :: (3, .wake) :: (roused ++ [(8, .rouse)])) =
      [(0, some (.ofMillis 10)), (8, some (.ofMillis 10))] := by
  exact ⟨_, _, rfl, by decide, rfl, by decide, rfl, rfl⟩

end Loop
end ChainFetch.Schedule
