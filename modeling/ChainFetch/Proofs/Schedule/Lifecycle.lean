import ChainFetch.Proofs.Schedule.Stages
import ChainFetch.Proofs.Trace
import ChainFetch.Rehearsal.Schedule
import ChainFetch.Schedule.Callers
/-!
The life of a loop that is shared by its callers. Main statement: `Shared.life_cycle`, its status
goes forward, one call of run at most has ticks, one tick at a time, none begins once a stop was
asked for, and whoever waits for the end comes back after it. What a rehearsal does with a loop its
callers can do: `rehearseSchedule_reached`.
-/

namespace ChainFetch.Schedule

/-! ## The loop -/

namespace Loop

variable {l l' : Loop} {now : Nat} {e : Event} {effects : List Effect}

def ticks (l : Loop) : Bool :=
  match l.stage with
  | .ticking _ => true
  | _ => false

theorem ticks_iff : l.ticks = true ↔ ∃ since, l.stage = .ticking since := by
  unfold ticks
  split
  · rename_i since ticking
    simp [ticking]
  · rename_i other
    simp only [Bool.false_eq_true, false_iff]
    rintro ⟨since, ticking⟩
    exact other since ticking

theorem own_cases (own : e.stage = .inside) (h : l.step now e = some (l', effects)) :
    (l'.status = l.status ∧ .returned ∉ effects) ∨
      (l'.status = .finished ∧ .returned ∈ effects) := by
  cases e with
  | turn =>
    obtain ⟨-, ⟨-, k⟩ | ⟨-, rfl, rfl⟩⟩ := turn_cases h
    · cases k
      exact Or.inr ⟨rfl, by simp⟩
    · exact Or.inl ⟨rfl, by simp⟩
  | tickDone result =>
    obtain ⟨-, -, -, length, ⟨fin, -, back⟩ | ⟨status, -, back, -⟩, -⟩ := tickDone_cases h
    · exact Or.inr ⟨fin, back⟩
    · exact Or.inl ⟨status, back⟩
  | timeout =>
    obtain ⟨_, _, _, -, rfl, rfl⟩ := timeout_cases h
    exact Or.inl ⟨rfl, by simp⟩
  | rouse =>
    obtain ⟨_, _, _, -, rfl, rfl⟩ := rouse_cases h
    exact Or.inl ⟨rfl, by simp⟩
  | interrupt =>
    obtain ⟨_, _, _, -, -, rfl, rfl⟩ := interrupt_cases h
    exact Or.inr ⟨rfl, by simp⟩
  | _ => cases own

theorem running_of_own (h : l.Sound) (own : e.stage = .inside)
    (k : l.step now e = some (l', effects)) : l.status = .running := by
  cases e with
  | turn =>
    have ready := (turn_cases k).1
    exact h.running (by simp [ready]) (by simp [ready])
  | tickDone result =>
    obtain ⟨⟨since, ticking⟩, -⟩ := tickDone_cases k
    exact h.running (by simp [ticking]) (by simp [ticking])
  | timeout =>
    obtain ⟨_, _, _, waiting, -⟩ := timeout_cases k
    exact h.running (by simp [waiting]) (by simp [waiting])
  | rouse =>
    obtain ⟨_, _, _, waiting, -⟩ := rouse_cases k
    exact h.running (by simp [waiting]) (by simp [waiting])
  | interrupt =>
    obtain ⟨_, _, _, waiting, -⟩ := interrupt_cases k
    exact h.running (by simp [waiting]) (by simp [waiting])
  | _ => cases own

theorem stage_nextEvent? (h : l.nextEvent? now = some e) : e.stage = .inside := by
  unfold nextEvent? at h
  repeat' split at h
  all_goals cases h <;> rfl

theorem start_status {jitter : Duration} (h : l.step now (.start jitter) = some (l', effects)) :
    (l.status ≠ .idle ∧ l' = l ∧ .returned ∈ effects) ∨
      (l.status = .idle ∧ l'.status = .running ∧ .returned ∉ effects) ∨
      (l.status = .idle ∧ l'.status = .finished ∧ .returned ∈ effects) := by
  rcases start_cases h with ⟨begun, rfl, rfl⟩ |
    ⟨idle, m, rfl, ⟨rfl, rfl⟩ | ⟨-, k⟩ | ⟨length, rfl, rfl⟩⟩
  · exact Or.inl ⟨begun, rfl, by simp⟩
  · exact Or.inr (Or.inl ⟨idle, rfl, by simp⟩)
  · cases k
    exact Or.inr (Or.inr ⟨idle, rfl, by simp⟩)
  · exact Or.inr (Or.inl ⟨idle, rfl, by simp⟩)

theorem status_wake (l : Loop) : l.wake.status = l.status := by
  rcases l.wake_cases with ⟨_, _, -, k⟩ | k <;> rw [k]

theorem status_of_step (h : l.step now e = some (l', effects)) :
    l'.status = l.status ∨
      (l.status = .idle ∧ ((∃ jitter, e = .start jitter) ∨ l'.status = .finished)) ∨
      (e.stage = .inside ∧ l'.status = .finished) := by
  cases own : e.stage with
  | inside =>
    rcases own_cases own h with ⟨same, -⟩ | ⟨fin, -⟩
    · exact Or.inl same
    · exact Or.inr (Or.inr ⟨rfl, fin⟩)
  | _ =>
    cases e with
    | start jitter =>
      rcases start_status h with ⟨-, rfl, -⟩ | ⟨idle, -⟩ | ⟨idle, -⟩
      · exact Or.inl rfl
      · exact Or.inr (Or.inl ⟨idle, Or.inl ⟨jitter, rfl⟩⟩)
      · exact Or.inr (Or.inl ⟨idle, Or.inl ⟨jitter, rfl⟩⟩)
    | wake =>
      cases h
      exact Or.inl l.status_wake
    | askStop =>
      cases h
      exact Or.inl rfl
    | settleStop =>
      obtain ⟨rfl, -⟩ := settleStop_cases h
      split
      · rename_i idle
        exact Or.inr (Or.inl ⟨idle, Or.inr rfl⟩)
      · exact Or.inl rfl
    | join =>
      obtain ⟨-, rfl, -⟩ := join_cases h
      exact Or.inl rfl
    | _ => cases own

theorem ticks_of_ready (ready : l.stage = .ready) : l.ticks = false := by
  simp [ticks, ready]

theorem ticks_of_ticking {since : Nat} (ticking : l.stage = .ticking since) :
    l.ticks = true := by
  simp [ticks, ticking]

theorem ticks_of_step (h : l.Sound) (top : e ≠ .turn) (own : ∀ result, e ≠ .tickDone result)
    (k : l.step now e = some (l', effects)) : l'.ticks = l.ticks := by
  cases flight : l.ticks with
  | true =>
    obtain ⟨since, ticking⟩ := ticks_iff.mp flight
    exact ticks_of_ticking (stage_of_ticking h ticking own k)
  | false =>
    cases e with
    | start jitter =>
      rcases start_cases k with ⟨-, rfl, -⟩ |
        ⟨-, m, rfl, ⟨rfl, -⟩ | ⟨-, k⟩ | ⟨length, rfl, -⟩⟩
      · exact flight
      · rfl
      · cases k
        rfl
      · rfl
    | turn => exact absurd rfl top
    | tickDone result => exact absurd rfl (own result)
    | timeout =>
      obtain ⟨_, _, _, -, rfl, -⟩ := timeout_cases k
      rfl
    | rouse =>
      obtain ⟨_, _, _, -, rfl, -⟩ := rouse_cases k
      rfl
    | interrupt =>
      obtain ⟨_, _, _, -, -, rfl, -⟩ := interrupt_cases k
      rfl
    | wake =>
      cases k
      rcases l.wake_cases with ⟨since, length, -, k⟩ | k
      · rw [k]
        rfl
      · rw [k]
        exact flight
    | askStop =>
      cases k
      exact flight
    | settleStop =>
      obtain ⟨rfl, -⟩ := settleStop_cases k
      split <;> exact flight
    | join =>
      obtain ⟨-, rfl, -⟩ := join_cases k
      exact flight

theorem ticks_of_turn (k : l.step now .turn = some (l', effects)) :
    l.ticks = false ∧ l'.ticks = !l.stopAsked := by
  obtain ⟨ready, ⟨stop, k⟩ | ⟨go, rfl, -⟩⟩ := turn_cases k
  · cases k
    refine ⟨ticks_of_ready ready, ?_⟩
    rw [stop]
    rfl
  · refine ⟨ticks_of_ready ready, ?_⟩
    rw [go]
    rfl

theorem ticks_of_tickDone {result : Except Failure Signal}
    (k : l.step now (.tickDone result) = some (l', effects)) :
    l.ticks = true ∧ l'.ticks = false := by
  obtain ⟨⟨since, ticking⟩, -, -, length, paused, -⟩ := tickDone_cases k
  refine ⟨ticks_of_ticking ticking, ?_⟩
  rcases paused with ⟨-, stage, -⟩ | ⟨-, -, -, stage⟩ <;> simp [ticks, stage]

end Loop

/-! ## The callers -/

/-- A call stands where its kind can bring it, and the status is what it has seen last or later:
who waits for the end comes back from a loop that is finished. -/
def Call.Fits (c : Call) (status : Status) : Prop :=
  match c.kind, c.stage with
  | .run, .entering => True
  | .run, .inside => status = .running
  | .run, .back => status ≠ .idle
  | .wake, .waking => True
  | .wake, .back => True
  | .requestStop, .asking => True
  | .requestStop, .settling => True
  | .requestStop, .back => status ≠ .idle
  | .stop, .asking => True
  | .stop, .settling => True
  | .stop, .joining => status ≠ .idle
  | .stop, .back => status = .finished
  | .finished, .joining => True
  | .finished, .back => status = .finished
  | _, _ => False

theorem Call.fits_entry (kind : CallKind) (status : Status) :
    (⟨kind, kind.entry⟩ : Call).Fits status := by
  cases kind <;> trivial

theorem Call.Fits.later {c : Call} {a b : Status} (h : c.Fits a)
    (forward : b = a ∨ a = .idle ∨ b = .finished) (outside : c.stage = .inside → b = a) :
    c.Fits b := by
  obtain ⟨kind, stage⟩ := c
  cases kind <;> cases stage <;> simp_all [Call.Fits] <;> rcases forward with rfl | rfl | rfl <;>
    simp_all

theorem Call.Fits.run {c : Call} {a : Status} (h : c.Fits a) (stage : c.stage = .inside) :
    c.kind = .run ∧ a = .running := by
  obtain ⟨kind, _⟩ := c
  cases kind <;> simp_all [Call.Fits]

namespace Shared

variable {s s' m : Shared} {now k n : Nat} {c : Call} {e : Event} {d : Deed}
  {t u : List (Nat × Deed)}

theorem take_cases (h : s.step now (.take k e) = some s') :
    ∃ c l effects, s.calls[k]? = some c ∧ c.stage = e.stage ∧
      s.loop.step now e = some (l, effects) ∧ s' = ⟨l, s.calls.set k (c.after e effects)⟩ := by
  simp only [step] at h
  split at h
  · cases h
  · rename_i c found
    obtain ⟨stage, h⟩ := Option.ite_none_right_eq_some.mp h
    obtain ⟨⟨l, effects⟩, moved, rfl⟩ := Option.map_eq_some_iff.mp h
    exact ⟨c, l, effects, found, stage, moved, rfl⟩

theorem inside_of_step (stepped : s.step now d = some s')
    (found : s.calls[k]? = some c) (inside : c.stage = .inside) :
    s'.loop.status = .finished ∨ ∃ c, s'.calls[k]? = some c ∧ c.stage = .inside := by
  cases d with
  | call kind =>
    cases stepped
    have before := (List.getElem?_eq_some_iff.mp found).1
    exact Or.inr ⟨c, by rw [List.getElem?_append_left before, found], inside⟩
  | take n e =>
    obtain ⟨b, l, effects, found', stage, moved, rfl⟩ := take_cases stepped
    by_cases same : n = k
    · subst same
      cases found.symm.trans found'
      rcases Loop.own_cases (stage.symm.trans inside) moved with ⟨-, out⟩ | ⟨fin, -⟩
      · have set := List.getElem?_set_self (a := c.after e effects)
          (List.getElem?_eq_some_iff.mp found).1
        refine Or.inr ⟨_, set, ?_⟩
        have own := stage.symm.trans inside
        cases e <;> first | exact if_neg out | cases own
      · exact Or.inl fin
    · exact Or.inr ⟨c, (List.getElem?_set_ne same).trans found, inside⟩

/-- The calls fit the status of the loop, and exactly one of them runs it while it is running. -/
structure Orderly (s : Shared) : Prop where
  sound : s.loop.Sound
  driven : s.loop.status = .running → ∃ (k : Nat) (c : Call), s.calls[k]? = some c ∧
    c.stage = .inside
  fits : ∀ (k : Nat) (c : Call), s.calls[k]? = some c → c.Fits s.loop.status
  alone : ∀ (k n : Nat) (c b : Call), s.calls[k]? = some c → s.calls[n]? = some b →
    c.stage = .inside → b.stage = .inside → k = n

theorem orderly_new (config : Config) (mode : Mode) : (new config mode).Orderly :=
  ⟨Loop.sound_new config mode, by simp [new, Loop.new], by simp [new], by simp [new]⟩

theorem fits_after {l : Loop} {effects : List Effect} (h : c.Fits s.loop.status)
    (stage : c.stage = e.stage) (moved : s.loop.step now e = some (l, effects)) :
    (c.after e effects).Fits l.status := by
  obtain ⟨kind, at'⟩ := c
  obtain rfl : at' = e.stage := stage
  have own : e.stage = .inside →
      (⟨kind, if .returned ∈ effects then .back else .inside⟩ : Call).Fits l.status := by
    intro inside
    obtain ⟨rfl, running⟩ := h.run inside
    rcases Loop.own_cases inside moved with ⟨same, out⟩ | ⟨fin, back⟩
    · rw [if_neg out]
      exact same.trans running
    · rw [if_pos back, fin]
      simp [Call.Fits]
  cases e with
  | start jitter =>
    have run : kind = .run := by cases kind <;> first | rfl | cases h
    subst run
    rcases Loop.start_status moved with ⟨begun, rfl, back⟩ | ⟨-, running, out⟩ | ⟨-, fin, back⟩
    · simpa [Call.after, back, Call.Fits] using begun
    · simpa [Call.after, out, Call.Fits] using running
    · simp [Call.after, back, Call.Fits, fin]
  | turn | tickDone | timeout | rouse | interrupt => exact own rfl
  | wake => cases kind <;> trivial
  | askStop => cases kind <;> trivial
  | settleStop =>
    obtain ⟨rfl, -⟩ := Loop.settleStop_cases moved
    have begun : (if s.loop.status = .idle then { s.loop with status := .finished }
        else s.loop).status ≠ .idle := by
      split
      · simp
      · assumption
    cases kind <;> first | exact begun | cases h
  | join =>
    obtain ⟨fin, rfl, -⟩ := Loop.join_cases moved
    cases kind <;> first | exact fin | cases h

theorem inside_of_after {l : Loop} {effects : List Effect} (stage : c.stage = e.stage)
    (moved : s.loop.step now e = some (l, effects)) (inside : (c.after e effects).stage = .inside) :
    c.stage = .inside ∨ s.loop.status = .idle := by
  cases e with
  | start jitter =>
    rcases Loop.start_status moved with ⟨-, -, back⟩ | ⟨idle, -⟩ | ⟨idle, -⟩
    · simp [Call.after, back] at inside
    · exact Or.inr idle
    · exact Or.inr idle
  | turn | tickDone | timeout | rouse | interrupt => exact Or.inl stage
  | wake | askStop | join => cases inside
  | settleStop =>
    simp only [Call.after] at inside
    split at inside <;> cases inside

theorem Orderly.driven_of_step (h : s.Orderly) (stepped : s.step now d = some s')
    (running : s'.loop.status = .running) :
    ∃ (k : Nat) (c : Call), s'.calls[k]? = some c ∧ c.stage = .inside := by
  have goes : s.loop.status = .running → ∃ (k : Nat) (c : Call), s'.calls[k]? = some c ∧
      c.stage = .inside := by
    intro before
    obtain ⟨k, c, found, inside⟩ := h.driven before
    rcases inside_of_step stepped found inside with fin | still
    · rw [running] at fin
      cases fin
    · exact ⟨k, still⟩
  cases d with
  | call kind =>
    cases stepped
    exact goes running
  | take k e =>
    obtain ⟨c, l, effects, found, -, moved, rfl⟩ := take_cases stepped
    have running : l.status = .running := running
    rcases Loop.status_of_step moved with same | ⟨idle, ⟨jitter, rfl⟩ | fin⟩ | ⟨-, fin⟩
    · exact goes (same.symm.trans running)
    · have set := List.getElem?_set_self (a := c.after (.start jitter) effects)
        (List.getElem?_eq_some_iff.mp found).1
      refine ⟨k, _, set, ?_⟩
      rcases Loop.start_status moved with ⟨begun, -⟩ | ⟨-, -, out⟩ | ⟨-, fin, -⟩
      · exact absurd idle begun
      · exact if_neg out
      · rw [running] at fin
        cases fin
    · rw [running] at fin
      cases fin
    · rw [running] at fin
      cases fin

theorem Orderly.step (h : s.Orderly) (stepped : s.step now d = some s') : s'.Orderly := by
  cases d with
  | call kind =>
    have driven := h.driven_of_step stepped
    cases stepped
    refine ⟨h.sound, driven, ?_, ?_⟩
    · intro n b found
      rcases getElem?_concat_cases found with before | ⟨-, rfl⟩
      · exact h.fits n b before
      · exact Call.fits_entry kind _
    · have older : ∀ (n : Nat) (b : Call), (s.calls ++ [⟨kind, kind.entry⟩])[n]? = some b →
          b.stage = .inside → s.calls[n]? = some b := by
        intro n b found inside
        rcases getElem?_concat_cases found with before | ⟨-, rfl⟩
        · exact before
        · cases kind <;> cases inside
      intro i j c b left right inside inside'
      exact h.alone i j c b (older i c left inside) (older j b right inside') inside inside'
  | take k e =>
    have driven := h.driven_of_step stepped
    obtain ⟨c, l, effects, found, stage, moved, rfl⟩ := take_cases stepped
    have forward := Loop.status_of_step moved
    -- A call that runs the loop while another takes a step finds it running and leaves it so.
    have others : ∀ (n : Nat) (b : Call), n ≠ k → s.calls[n]? = some b → b.stage = .inside →
        l.status = s.loop.status := by
      intro n b other before inside
      have running := ((h.fits n b before).run inside).2
      rcases forward with same | ⟨idle, -⟩ | ⟨own, -⟩
      · exact same
      · rw [running] at idle
        cases idle
      · exact absurd (h.alone n k b c before found inside (stage.trans own)) other
    refine ⟨Loop.sound_step h.sound moved, driven, ?_, ?_⟩
    · intro n b set
      rcases getElem?_set_cases set with ⟨-, rfl⟩ | ⟨other, before⟩
      · exact fits_after (h.fits k c found) stage moved
      · apply (h.fits n b before).later
        · rcases forward with same | ⟨idle, -⟩ | ⟨-, fin⟩
          · exact Or.inl same
          · exact Or.inr (Or.inl idle)
          · exact Or.inr (Or.inr fin)
        · exact others n b other before
    · have entered : ∀ (n : Nat) (b : Call), n ≠ k → s.calls[n]? = some b → b.stage = .inside →
          (c.after e effects).stage ≠ .inside := by
        intro n b other before inside after
        rcases inside_of_after stage moved after with here | idle
        · exact other (h.alone n k b c before found inside here)
        · rw [((h.fits n b before).run inside).2] at idle
          cases idle
      intro i j a b left right inside inside'
      rcases getElem?_set_cases left with ⟨rfl, rfl⟩ | ⟨first, older⟩ <;>
        rcases getElem?_set_cases right with ⟨rfl, rfl⟩ | ⟨second, older'⟩
      · rfl
      · exact absurd inside (entered j b second older' inside')
      · exact absurd inside' (entered i a first older inside)
      · exact h.alone i j a b older older' inside inside'

/-! ## Runs -/

inductive Sight
  | begins (k : Nat)
  | ends (k : Nat)
  deriving DecidableEq

def sight? (s : Shared) : Deed → Option Sight
  | .take k .turn => if s.loop.stopAsked then none else some (.begins k)
  | .take k (.tickDone _) => some (.ends k)
  | _ => none

def run (s : Shared) (t : List (Nat × Deed)) : Option Shared := after step s t

def sights (s : Shared) (t : List (Nat × Deed)) : List Sight :=
  (labels step sight? s t).filterMap id

theorem sights_cons (h : s.step now d = some m) :
    s.sights ((now, d) :: t) = (s.sight? d).toList ++ m.sights t :=
  filterMap_labels_cons h

theorem Orderly.run (h : s.Orderly) (ran : s.run t = some s') : s'.Orderly :=
  after_invariant (fun h stepped => Orderly.step h stepped) h ran

theorem stopAsked_of_step (stepped : s.step now d = some s') (asked : s.loop.stopAsked = true) :
    s'.loop.stopAsked = true := by
  cases d with
  | call kind =>
    cases stepped
    exact asked
  | take k e =>
    obtain ⟨c, l, effects, -, -, moved, rfl⟩ := take_cases stepped
    by_cases ask : e = .askStop
    · subst ask
      cases moved
      rfl
    · exact (Loop.stopAsked_of_step ask moved).trans asked

theorem sight_cases (h : s.Orderly) (stepped : s.step now d = some s') :
    (s.sight? d = none ∧ s'.loop.ticks = s.loop.ticks) ∨
    (∃ k c, s.calls[k]? = some c ∧ c.stage = .inside ∧ s.loop.stopAsked = false ∧
      s.sight? d = some (.begins k) ∧ s.loop.ticks = false ∧ s'.loop.ticks = true) ∨
    (∃ k c, s.calls[k]? = some c ∧ c.stage = .inside ∧
      s.sight? d = some (.ends k) ∧ s.loop.ticks = true ∧ s'.loop.ticks = false) := by
  cases d with
  | call kind =>
    cases stepped
    exact Or.inl ⟨rfl, rfl⟩
  | take k e =>
    obtain ⟨c, l, effects, found, stage, moved, rfl⟩ := take_cases stepped
    cases e with
    | turn =>
      obtain ⟨before, after⟩ := Loop.ticks_of_turn moved
      cases asked : s.loop.stopAsked with
      | true => exact Or.inl ⟨by simp [sight?, asked], by simp [before, after, asked]⟩
      | false =>
        exact Or.inr (Or.inl ⟨k, c, found, stage, rfl, by simp [sight?, asked], before,
          by simp [after, asked]⟩)
    | tickDone result =>
      obtain ⟨before, after⟩ := Loop.ticks_of_tickDone moved
      exact Or.inr (Or.inr ⟨k, c, found, stage, rfl, before, after⟩)
    | _ => exact Or.inl ⟨rfl, Loop.ticks_of_step h.sound (by simp) (by simp) moved⟩

/-- Ticks of call `k`, one after the other, the last of them perhaps in flight. -/
def Alternates (k : Nat) (sights : List Sight) (inFlight : Bool) : Prop :=
  ∃ n, sights = (List.replicate n [.begins k, .ends k]).flatten ++
    if inFlight then [.begins k] else []

theorem Alternates.concat_begins {j : List Sight} (h : Alternates k j false) :
    Alternates k (j ++ [.begins k]) true := by
  obtain ⟨n, rfl⟩ := h
  exact ⟨n, by simp⟩

theorem Alternates.concat_ends {j : List Sight} (h : Alternates k j true) :
    Alternates k (j ++ [.ends k]) false := by
  obtain ⟨n, rfl⟩ := h
  exact ⟨n + 1, by simp [List.replicate_succ']⟩

/-- All that was seen of ticks is of one call, which runs the loop until that is finished. -/
def Serial (s : Shared) (j : List Sight) : Prop :=
  ∃ k, Alternates k j s.loop.ticks ∧
    (j = [] ∨ s.loop.status = .finished ∨ ∃ c, s.calls[k]? = some c ∧ c.stage = .inside)

theorem serial_new (config : Config) (mode : Mode) : (new config mode).Serial [] :=
  ⟨0, ⟨0, rfl⟩, Or.inl rfl⟩

theorem finished_of_step (h : s.Orderly) (stepped : s.step now d = some s')
    (fin : s.loop.status = .finished) : s'.loop.status = .finished := by
  cases d with
  | call kind =>
    cases stepped
    exact fin
  | take k e =>
    obtain ⟨c, l, effects, -, -, moved, rfl⟩ := take_cases stepped
    exact Loop.finished_of_step h.sound fin moved

theorem Serial.step {j : List Sight} (serial : s.Serial j) (h : s.Orderly)
    (stepped : s.step now d = some s') : s'.Serial (j ++ (s.sight? d).toList) := by
  obtain ⟨k, alternates, owner⟩ := serial
  -- Whoever has a tick runs the loop now, so it is the call that had the ticks before.
  have same : ∀ {n : Nat} {c : Call}, s.calls[n]? = some c → c.stage = .inside → j ≠ [] →
      n = k := by
    intro n c found inside some
    rcases owner with none | fin | ⟨b, found', inside'⟩
    · exact absurd none some
    · rw [((h.fits n c found).run inside).2] at fin
      cases fin
    · exact h.alone n k c b found found' inside inside'
  rcases sight_cases h stepped with ⟨nothing, ticks⟩ |
    ⟨n, c, found, inside, -, begins, idle, ticks⟩ | ⟨n, c, found, inside, ends, flight, ticks⟩
  · rw [nothing, Option.toList_none, List.append_nil]
    refine ⟨k, by rw [ticks]; exact alternates, ?_⟩
    rcases owner with none | fin | ⟨c, found, inside⟩
    · exact Or.inl none
    · exact Or.inr (Or.inl (finished_of_step h stepped fin))
    · exact Or.inr (inside_of_step stepped found inside)
  · rw [begins, Option.toList_some]
    refine ⟨n, ?_, Or.inr (inside_of_step stepped found inside)⟩
    rw [idle] at alternates
    rw [ticks]
    by_cases first : j = []
    · subst first
      exact Alternates.concat_begins ⟨0, rfl⟩
    · rw [same found inside first]
      exact alternates.concat_begins
  · rw [ends, Option.toList_some]
    rw [flight] at alternates
    have some : j ≠ [] := by
      obtain ⟨i, rfl⟩ := alternates
      simp
    refine ⟨n, ?_, Or.inr (inside_of_step stepped found inside)⟩
    rw [ticks, same found inside some]
    exact alternates.concat_ends

theorem Serial.run {j : List Sight} (serial : s.Serial j) (h : s.Orderly)
    (ran : s.run t = some s') : s'.Serial (j ++ s.sights t) := by
  induction t generalizing s j with
  | nil =>
    cases ran
    simpa [sights, labels] using serial
  | cons x t ih =>
    obtain ⟨now, d⟩ := x
    obtain ⟨m, first, rest⟩ := after_cons_eq_some.mp ran
    rw [sights_cons first, ← List.append_assoc]
    exact ih (serial.step h first) (h.step first) rest

/-- Once a stop was asked for, the tick in flight ends and there is no other. -/
theorem sights_of_stopAsked (h : s.Orderly) (asked : s.loop.stopAsked = true)
    (ran : s.run t = some s') :
    s.sights t = [] ∨ (s.loop.ticks = true ∧ ∃ k, s.sights t = [.ends k]) := by
  induction t generalizing s with
  | nil => exact Or.inl rfl
  | cons x t ih =>
    obtain ⟨now, d⟩ := x
    obtain ⟨m, first, rest⟩ := after_cons_eq_some.mp ran
    have later := ih (h.step first) (stopAsked_of_step first asked) rest
    rw [sights_cons first]
    rcases sight_cases h first with ⟨nothing, ticks⟩ |
      ⟨k, c, -, -, go, -⟩ | ⟨k, c, -, -, ends, flight, ticks⟩
    · rw [nothing, Option.toList_none, List.nil_append, ← ticks]
      exact later
    · rw [asked] at go
      cases go
    · rcases later with none | ⟨still, -⟩
      · exact Or.inr ⟨flight, k, by rw [ends, none]; rfl⟩
      · rw [ticks] at still
        cases still

theorem stopAsked_of_mem (ran : s.run t = some s')
    (asked : s.loop.stopAsked = true ∨ ∃ now k, (now, .take k .askStop) ∈ t) :
    s'.loop.stopAsked = true := by
  induction t generalizing s with
  | nil =>
    cases ran
    simpa using asked
  | cons x t ih =>
    obtain ⟨now, d⟩ := x
    obtain ⟨m, first, rest⟩ := after_cons_eq_some.mp ran
    apply ih rest
    rcases asked with asked | ⟨now', k, member⟩
    · exact Or.inl (stopAsked_of_step first asked)
    · rcases List.mem_cons.mp member with here | later
      · cases here
        obtain ⟨c, l, effects, -, -, moved, rfl⟩ := take_cases first
        cases moved
        exact Or.inl rfl
      · exact Or.inr ⟨now', k, later⟩

theorem status_of_step (h : s.Orderly) (stepped : s.step now d = some s') :
    s'.loop.status = s.loop.status ∨
      (s.loop.status = .idle ∧ s'.loop.status = .running) ∨
      (s.loop.status ≠ .finished ∧ s'.loop.status = .finished) := by
  by_cases fin : s.loop.status = .finished
  · exact Or.inl ((finished_of_step h stepped fin).trans fin.symm)
  · cases d with
    | call kind =>
      cases stepped
      exact Or.inl rfl
    | take k e =>
      obtain ⟨c, l, effects, -, -, moved, rfl⟩ := take_cases stepped
      rcases Loop.status_of_step moved with same | ⟨idle, -⟩ | ⟨-, ended⟩
      · exact Or.inl same
      · cases l.status with
        | idle => exact Or.inl idle.symm
        | running => exact Or.inr (Or.inl ⟨idle, rfl⟩)
        | finished => exact Or.inr (Or.inr ⟨fin, rfl⟩)
      · exact Or.inr (Or.inr ⟨fin, ended⟩)

/-- Whatever its callers do, and whatever its ticks answer. The status of a loop goes from idle to
running to finished, or from idle to finished. A tick begins only while it is running, and the ticks
are those of one call of run, one after the other. After a stop was asked for, wherever the loop
stood, the tick in flight ends and none begins. Who waits for the end comes back after it. -/
theorem life_cycle {config : Config} {mode : Mode} (ran : (new config mode).run t = some s) :
    (∀ now d s', s.step now d = some s' →
      (s'.loop.status = s.loop.status ∨
        (s.loop.status = .idle ∧ s'.loop.status = .running) ∨
        (s.loop.status ≠ .finished ∧ s'.loop.status = .finished)) ∧
      (s.loop.ticks = false → s'.loop.ticks = true →
        s.loop.status = .running ∧ ∃ k, s.sight? d = some (.begins k))) ∧
    (∃ k, Alternates k ((new config mode).sights t) s.loop.ticks) ∧
    ((∃ now k, (now, .take k .askStop) ∈ t) → ∀ u s', s.run u = some s' →
      s.sights u = [] ∨ (s.loop.ticks = true ∧ ∃ k, s.sights u = [.ends k])) ∧
    ∀ (k : Nat) (c : Call), s.calls[k]? = some c → c.kind = .stop ∨ c.kind = .finished →
      c.stage = .back → s.loop.status = .finished := by
  have start := orderly_new config mode
  have orderly := start.run ran
  refine ⟨?_, ?_, ?_, ?_⟩
  · intro now d s' stepped
    refine ⟨status_of_step orderly stepped, ?_⟩
    intro idle flight
    rcases sight_cases orderly stepped with ⟨-, ticks⟩ |
      ⟨k, c, found, inside, -, begins, -⟩ | ⟨k, c, -, -, -, still, -⟩
    · rw [flight, idle] at ticks
      cases ticks
    · exact ⟨((orderly.fits k c found).run inside).2, k, begins⟩
    · rw [idle] at still
      cases still
  · obtain ⟨k, alternates, -⟩ := (serial_new config mode).run start ran
    exact ⟨k, alternates⟩
  · intro asked u s' ran'
    exact sights_of_stopAsked orderly (stopAsked_of_mem ran (Or.inr asked)) ran'
  · intro k c found waits back
    have fits := orderly.fits k c found
    obtain ⟨kind, stage⟩ := c
    obtain rfl : stage = .back := back
    rcases waits with rfl | rfl
    · exact fits
    · exact fits

/-- A tick asks its own loop to stop, run is called a second time, and someone waits for the
end. -/
def asksWithin : List (Nat × Deed) := [
  (0, .call .run), (0, .take 0 (.start .zero)), (0, .take 0 .turn), (1, .call .requestStop),
  (1, .call .run), (1, .take 2 (.start .zero)), (1, .call .finished), (2, .take 1 .askStop),
  (2, .take 1 .settleStop)]

def endsAfter : List (Nat × Deed) := [(3, .take 0 (.tickDone (.ok .keep))), (4, .take 3 .join)]

theorem life_cycle_asksWithin : ∃ s s' : Shared,
    (new {} .periodic).run asksWithin = some s ∧ s.run endsAfter = some s' ∧
      s.loop.status = .running ∧ s.loop.ticks = true ∧
      (∃ k, s.sights endsAfter = [.ends k]) ∧
      s'.calls[3]? = some ⟨.finished, .back⟩ ∧ s'.loop.status = .finished := by
  have ends : ((new {} .periodic).run asksWithin).bind (fun s => (s.run endsAfter).map fun s' =>
      (s.loop.status, s.loop.ticks, s.sights endsAfter, s'.calls[3]?)) =
      some (.running, true, [.ends 0], some ⟨.finished, .back⟩) := by decide
  obtain ⟨s, ran, rest⟩ := Option.bind_eq_some_iff.mp ends
  obtain ⟨s', ran', ended⟩ := Option.map_eq_some_iff.mp rest
  simp only [Prod.mk.injEq] at ended
  obtain ⟨running, flight, seen, back⟩ := ended
  have whole : (new {} .periodic).run (asksWithin ++ endsAfter) = some s' :=
    after_append_eq_some.mpr ⟨s, ran, ran'⟩
  have asked : ∃ now k, (now, .take k .askStop) ∈ asksWithin :=
    ⟨2, 1, List.mem_of_getElem? (i := 7) rfl⟩
  have shown : ∃ k, s.sights endsAfter = [.ends k] := by
    rcases (life_cycle ran).2.2.1 asked endsAfter s' ran' with none | ⟨-, shown⟩
    · rw [seen] at none
      cases none
    · exact shown
  exact ⟨s, s', ran, ran', running, flight, shown, back,
    (life_cycle whole).2.2.2 3 _ back (Or.inr rfl) rfl⟩

/-! ## A rehearsed loop -/

variable {config : Config} {mode : Mode} {l l' : Loop} {effects : List Effect}

theorem run_concat_take (ran : (new config mode).run t = some s) (found : s.calls[k]? = some c)
    (stage : c.stage = e.stage) (moved : s.loop.step now e = some (l, effects)) :
    (new config mode).run (t ++ [(now, .take k e)]) =
      some ⟨l, s.calls.set k (c.after e effects)⟩ := by
  apply after_append_eq_some.mpr
  refine ⟨s, ran, after_cons_eq_some.mpr ⟨_, ?_, rfl⟩⟩
  simp only [step, found, if_pos stage, moved, Option.map_some]

theorem run_concat_call (ran : (new config mode).run t = some s) (kind : CallKind)
    (stage : kind.entry = e.stage) (moved : s.loop.step now e = some (l, effects)) :
    ∃ (t : List (Nat × Deed)) (s' : Shared) (n : Nat), (new config mode).run t = some s' ∧
      s'.loop = l ∧ s'.calls[n]? = some (Call.after ⟨kind, kind.entry⟩ e effects) := by
  have called : (new config mode).run (t ++ [(now, .call kind)]) =
      some { s with calls := s.calls ++ [⟨kind, kind.entry⟩] } :=
    after_append_eq_some.mpr ⟨s, ran, rfl⟩
  have found : (s.calls ++ [⟨kind, kind.entry⟩])[s.calls.length]? = some ⟨kind, kind.entry⟩ :=
    List.getElem?_concat_length
  have taken := run_concat_take called found stage moved
  exact ⟨_, _, s.calls.length, taken, rfl, List.getElem?_set_self (by simp)⟩

end Shared

/-- A loop that callers can bring about. -/
def Reached (config : Config) (mode : Mode) (l : Loop) : Prop :=
  ∃ t s, (Shared.new config mode).run t = some s ∧ s.loop = l

namespace Reached

variable {config : Config} {mode : Mode} {l l' : Loop} {now : Nat} {e : Event}
  {effects : List Effect}

theorem new (config : Config) (mode : Mode) : Reached config mode (.new config mode) :=
  ⟨[], Shared.new config mode, rfl, rfl⟩

theorem call (h : Reached config mode l) (kind : CallKind) (stage : kind.entry = e.stage)
    (moved : l.step now e = some (l', effects)) : Reached config mode l' := by
  obtain ⟨t, s, ran, rfl⟩ := h
  obtain ⟨t, s', n, ran', loop, -⟩ := Shared.run_concat_call ran kind stage moved
  exact ⟨t, s', ran', loop⟩

theorem own (h : Reached config mode l) (own : e.stage = .inside)
    (moved : l.step now e = some (l', effects)) : Reached config mode l' := by
  obtain ⟨t, s, ran, rfl⟩ := h
  have orderly := (Shared.orderly_new config mode).run ran
  obtain ⟨k, c, found, inside⟩ := orderly.driven (Loop.running_of_own orderly.sound own moved)
  exact ⟨_, _, Shared.run_concat_take ran found (inside.trans own.symm) moved, rfl⟩

open Rehearsal

theorem wake (h : Reached config mode l) (now : Nat) : Reached config mode (doWake now l) := by
  have wakes : l.step now .wake = some (doWake now l, []) := rfl
  exact h.call .wake rfl wakes

theorem requestStop (h : Reached config mode l) (now : Nat) :
    Reached config mode (requestStop now l) := by
  obtain ⟨t, s, ran, rfl⟩ := h
  have asks : s.loop.step now .askStop = some ({ s.loop with stopAsked := true }, []) := rfl
  obtain ⟨t, s', n, ran', loop, found⟩ := Shared.run_concat_call ran .requestStop rfl asks
  have settles : s'.loop.step now .settleStop = some (Rehearsal.requestStop now s.loop, []) := by
    rw [loop]
    rfl
  exact ⟨_, _, Shared.run_concat_take ran' found rfl settles, rfl⟩

theorem action (h : Reached config mode l) (now : Nat) (a : Action) :
    Reached config mode (doAction now l a) := by
  cases a with
  | wake => exact h.wake now
  | stop => exact h.requestStop now
  | requestStop => exact h.requestStop now
  | finished => exact h
  | run =>
    have starts : l.step now (.start .zero) = some (l.start now .zero) := rfl
    exact h.call .run rfl starts
  | look => exact h

variable {p p' : SchedulePlay}

theorem follow (h : Reached config mode p.loop) (effect : Effect) :
    Reached config mode (p.follow effect).loop := by
  cases effect with
  | tick context =>
    refine List.foldlRecOn (motive := Reached config mode) _ _ h ?_
    rintro l reached act -
    cases act with
    | wake => exact reached.wake _
    | requestStop => exact reached.requestStop _
  | firstSuccess => exact h
  | sleep length => exact h
  | returned => exact h

theorem take (taken : p.take e = some p')
    (moves : ∀ {l' effects}, p.loop.step p.now e = some (l', effects) →
      Reached config mode l') : Reached config mode p'.loop := by
  obtain ⟨⟨l', effects⟩, moved, rfl⟩ := Option.map_eq_some_iff.mp taken
  refine List.foldlRecOn (motive := fun p : SchedulePlay => Reached config mode p.loop) _ _
    (moves moved) ?_
  rintro p reached effect -
  exact reached.follow effect

theorem program (h : Reached config mode p.loop) (stepped : p.program = some p') :
    Reached config mode p'.loop := by
  unfold SchedulePlay.program at stepped
  split at stepped
  · exact take stepped (h.call .run (e := .start .zero) rfl)
  · split at stepped
    · rename_i since result _
      split at stepped
      · exact take stepped (h.own (e := .tickDone result) rfl)
      · cases stepped
    · obtain ⟨e, next, taken⟩ := Option.bind_eq_some_iff.mp stepped
      exact take taken (h.own (Loop.stage_nextEvent? next))

theorem script (h : Reached config mode p.loop) (stepped : p.script = some p') :
    Reached config mode p'.loop := by
  unfold SchedulePlay.script at stepped
  split at stepped
  · cases stepped
  · rename_i t a rest agenda
    split at stepped
    · cases stepped
    · split at stepped
      · obtain ⟨-, -, rfl⟩ := Option.map_eq_some_iff.mp stepped
        exact h
      · split at stepped <;> cases stepped <;> exact h.action p.now a

theorem play (h : Reached config mode p.loop) (fuel : Nat) :
    Reached config mode (SchedulePlay.world.play fuel p).loop :=
  World.run_invariant (P := fun p : SchedulePlay => Reached config mode p.loop) program script
    (fun _ h => h) fuel false h

end Reached

/-- A rehearsal ends with a loop that callers can bring about, so what holds of every loop that is
shared holds of the loops that are rehearsed. -/
theorem rehearseSchedule_reached (config : Config) (mode : Mode) (before : List Rehearsal.Action)
    (plans : List Rehearsal.TickPlan) (agenda : List (Nat × Rehearsal.Action)) :
    ∃ l, Reached config mode l ∧
      (Rehearsal.rehearseSchedule config mode before plans agenda).final = Rehearsal.look l := by
  refine ⟨_, Reached.play ?_ _, rfl⟩
  refine List.foldlRecOn (motive := fun x : Loop × List Rehearsal.Look => Reached config mode x.1)
    _ _ (Reached.new config mode) ?_
  rintro ⟨l, looks⟩ reached a -
  exact reached.action 0 a

end ChainFetch.Schedule
