import Mathlib.Algebra.GroupWithZero.Nat
import ChainFetch.Proofs.Schedule.Alone
/-!
Failed ticks leave no trace in a loop. Main statement: `failures_invisible`, a script without its
failing entries shows the same successes and ends in the same loop, and each failing entry puts off
what follows it by its own time and one cooldown.
-/

namespace ChainFetch.Schedule

def Beat.succeeds (b : Beat) : Bool := b.result.isOk

def Round.succeeds (r : Round) : Bool := r.beat.succeeds

def Round.shown (r : Round) : Beat × Context × List Effect := (r.beat, r.context, r.seen)

/-- The time that the failing ticks among some rounds cost: their own, and a cooldown each. -/
def cost (cooldown : Nat) (rounds : List Round) : Nat :=
  ((rounds.filter (!·.succeeds)).map fun r => r.beat.millis + cooldown).sum

/-- What a script makes of a loop, in `rounds` and up to `a`, beside what it makes of it without its
failing entries, in `rounds'` and up to `a'`. -/
structure Erases (cooldown : Nat) (rounds rounds' : List Round) (a a' : Alone) : Prop where
  shown : (rounds.filter Round.succeeds).map Round.shown = rounds'.map Round.shown
  silent : ∀ r ∈ rounds, r.succeeds = false → r.seen = []
  timed : ∀ before r rest, rounds = before ++ r :: rest → r.succeeds = true →
    rounds'[before.countP Round.succeeds]?.map (Round.later (cost cooldown before)) = some r
  final : a = a'.later (cost cooldown rounds)

/-! ## Lists of rounds -/

section Rounds

variable {a a' : Alone} {r : Round} {rounds rounds' : List Round} {cooldown : Nat}

theorem cost_cons_of_success (ok : r.succeeds = true) :
    cost cooldown (r :: rounds) = cost cooldown rounds := by
  simp [cost, ok]

theorem cost_cons_of_failure (failed : r.succeeds = false) :
    cost cooldown (r :: rounds) = cost cooldown rounds + (r.beat.millis + cooldown) := by
  simp [cost, failed, Nat.add_comm]

-- The shift is a variable in these, so that nothing computes with times to see that they hold.
theorem Round.succeeds_later (r : Round) (lag : Nat) : (r.later lag).succeeds = r.succeeds := rfl

theorem Round.seen_later (r : Round) (lag : Nat) : (r.later lag).seen = r.seen := rfl

theorem countP_map_later (lag : Nat) (rounds : List Round) :
    (rounds.map (Round.later lag)).countP Round.succeeds = rounds.countP Round.succeeds := by
  rw [List.countP_map]
  rfl

theorem cost_map_later (cooldown lag : Nat) (rounds : List Round) :
    cost cooldown (rounds.map (Round.later lag)) = cost cooldown rounds := by
  rw [cost, List.filter_map, List.map_map]
  rfl

theorem shown_map_later (lag : Nat) (rounds : List Round) :
    ((rounds.map (Round.later lag)).filter Round.succeeds).map Round.shown =
      (rounds.filter Round.succeeds).map Round.shown := by
  rw [List.filter_map, List.map_map]
  rfl

theorem Round.later_later (r : Round) (m n : Nat) : (r.later m).later n = r.later (m + n) := by
  simp [Round.later, Nat.add_assoc]

theorem Alone.later_later (a : Alone) (m n : Nat) : (a.later m).later n = a.later (m + n) := by
  obtain ⟨now, config, mode, status, stopAsked, permit, shown, runs, interval, firstRun, stage⟩ := a
  cases stage <;> simp [Alone.later, Loop.later, Stage.later, Nat.add_assoc]

theorem Alone.later_zero (a : Alone) : a.later 0 = a := by
  obtain ⟨now, config, mode, status, stopAsked, permit, shown, runs, interval, firstRun, stage⟩ := a
  cases stage <;> rfl

theorem erases_nil (cooldown : Nat) (a : Alone) : Erases cooldown [] [] a a where
  shown := rfl
  silent := by simp
  timed := by simp
  final := a.later_zero.symm

theorem Erases.success (h : Erases cooldown rounds rounds' a a') (ok : r.succeeds = true) :
    Erases cooldown (r :: rounds) (r :: rounds') a a' where
  shown := by
    rw [List.filter_cons_of_pos ok, List.map_cons, List.map_cons, h.shown]
  silent := by
    intro x member failed
    rcases List.mem_cons.mp member with rfl | member
    · rw [ok] at failed
      cases failed
    · exact h.silent x member failed
  timed := by
    intro before x rest split ok'
    cases before with
    | nil =>
      obtain ⟨rfl, -⟩ := List.cons.inj split
      rfl
    | cons y before =>
      obtain ⟨rfl, later⟩ := List.cons.inj split
      rw [List.countP_cons_of_pos ok, List.getElem?_cons_succ, cost_cons_of_success ok]
      exact h.timed before x rest later ok'
  final := by
    rw [cost_cons_of_success ok]
    exact h.final

theorem Erases.failure (h : Erases cooldown rounds rounds' a a') (failed : r.succeeds = false)
    (unseen : r.seen = []) :
    Erases cooldown (r :: rounds.map (Round.later (r.beat.millis + cooldown))) rounds'
      (a.later (r.beat.millis + cooldown)) a' where
  shown := by
    rw [List.filter_cons_of_neg (by simp [failed]), shown_map_later, h.shown]
  silent := by
    intro x member failed'
    rcases List.mem_cons.mp member with rfl | member
    · exact unseen
    · obtain ⟨y, mem, rfl⟩ := List.mem_map.mp member
      rw [Round.succeeds_later] at failed'
      rw [Round.seen_later]
      exact h.silent y mem failed'
  timed := by
    intro before x rest split ok
    cases before with
    | nil =>
      obtain ⟨rfl, -⟩ := List.cons.inj split
      rw [failed] at ok
      cases ok
    | cons y before =>
      obtain ⟨rfl, behind⟩ := List.cons.inj split
      obtain ⟨before', rest', rfl, rfl, later⟩ := List.map_eq_append_iff.mp behind
      obtain ⟨x', rest'', rfl, rfl, rfl⟩ := List.map_eq_cons_iff.mp later
      rw [Round.succeeds_later] at ok
      have timed := h.timed before' x' rest'' rfl ok
      rw [List.countP_cons_of_neg (by simp [failed]), countP_map_later,
        cost_cons_of_failure failed, cost_map_later]
      obtain ⟨x'', found, rfl⟩ := Option.map_eq_some_iff.mp timed
      rw [Round.later_later]
      exact Option.map_eq_some_iff.mpr ⟨x'', found, rfl⟩
  final := by
    rw [h.final, Alone.later_later, cost_cons_of_failure failed, cost_map_later]

end Rounds

/-! ## Runs -/

namespace Alone

variable {a a' : Alone} {b : Beat} {r : Round} {script : List Beat}

theorem beat?_of_failure (ready : a.loop.stage = .ready) (untouched : Untouched a.loop)
    (failed : b.succeeds = false) : a.beat? b = some (⟨b, a.now, a.loop.context, []⟩,
      a.later (b.millis + a.loop.config.errorCooldown.ceilMillis)) := by
  obtain ⟨delay, result⟩ := b
  cases result with
  | ok signal => cases failed
  | error f =>
    have top := Loop.step_turn_of_ready a.now ready untouched.stopAsked
    unfold beat?
    rw [top]
    obtain ⟨now, l⟩ := a
    obtain ⟨config, mode, status, stopAsked, permit, shown, runs, interval, firstRun, stage⟩ := l
    obtain ⟨rfl, rfl, -⟩ := untouched
    cases ready
    simp [Loop.step, Loop.failed, Loop.pause, rest, Loop.deadline?, Loop.release, later, Loop.later,
      Stage.later, Nat.add_assoc]

theorem config_of_beat? (h : a.beat? b = some (r, a')) (untouched : Untouched a.loop) :
    a'.loop.config = a.loop.config := by
  obtain ⟨-, l, ends, -, rfl⟩ := beat?_cases h untouched
  obtain ⟨-, ⟨same, -⟩, -⟩ := Loop.tickDone_cases ends
  rcases rest_cases ⟨a.now + b.millis, l⟩ with ⟨-, rested⟩ | ⟨_, _, _, -, rested⟩
  · rw [rested]
    exact same
  · rw [rested]
    exact same

theorem beat_of_beat? (h : a.beat? b = some (r, a')) (untouched : Untouched a.loop) :
    r.beat = b := by
  obtain ⟨-, l, -, shape, -⟩ := beat?_cases h untouched
  rw [shape]

theorem erases_play (untouched : Untouched a.loop) (script : List Beat) :
    Erases a.loop.config.errorCooldown.ceilMillis (a.play script).1
      (a.play (script.filter Beat.succeeds)).1 (a.play script).2
      (a.play (script.filter Beat.succeeds)).2 := by
  induction script generalizing a with
  | nil => exact erases_nil _ a
  | cons b script ih =>
    by_cases ready : a.loop.stage = .ready
    · cases ok : b.succeeds with
      | true =>
        obtain ⟨r, a', beat⟩ := beat?_isSome ready untouched b
        have same := beat_of_beat? beat untouched
        rw [List.filter_cons_of_pos ok, play_cons beat, play_cons beat,
          ← config_of_beat? beat untouched]
        exact (ih (settled_of_beat? beat untouched).1).success (by rw [Round.succeeds, same, ok])
      | false =>
        have beat := beat?_of_failure ready untouched ok
        rw [List.filter_cons_of_neg (by simp [ok]), play_cons beat, play_later]
        exact (ih untouched).failure (r := ⟨b, a.now, a.loop.context, []⟩) ok rfl
    · rw [play_of_busy ready, play_of_busy ready]
      exact erases_nil _ a

/-- The ticks that a loop makes are the first of its script, and all of it if the loop is still at
its top. -/
theorem beats_play (untouched : Untouched a.loop) (script : List Beat) :
    (a.play script).1.map Round.beat <+: script ∧
      ((a.play script).2.loop.stage = .ready → (a.play script).1.map Round.beat = script) := by
  induction script generalizing a with
  | nil => exact ⟨List.prefix_rfl, fun _ => rfl⟩
  | cons b script ih =>
    by_cases ready : a.loop.stage = .ready
    · obtain ⟨r, a', beat⟩ := beat?_isSome ready untouched b
      obtain ⟨first, whole⟩ := ih (settled_of_beat? beat untouched).1
      rw [play_cons beat, List.map_cons, beat_of_beat? beat untouched, List.prefix_cons_inj]
      exact ⟨first, fun top => congrArg _ (whole top)⟩
    · rw [play_of_busy ready]
      exact ⟨List.nil_prefix, fun top => absurd top ready⟩

theorem config_start (config : Config) (mode : Mode) (jitter : Duration) :
    (start config mode jitter).loop.config = config := by
  obtain ⟨l, effects, begun⟩ : ∃ l effects, (Loop.new config mode).start 0 jitter = (l, effects) :=
    ⟨_, _, rfl⟩
  have stepped : (Loop.new config mode).step 0 (.start jitter) = some (l, effects) :=
    congrArg some begun
  have same : l.config = config := by
    rcases Loop.count_cases stepped with
      ⟨same, -⟩ | ⟨-, -, same, -⟩ | ⟨_, ended, -⟩
    · exact congrArg Count.config same
    · exact congrArg Count.config same
    · cases ended
  rw [start, begun]
  rcases rest_cases ⟨0, l⟩ with ⟨-, rested⟩ | ⟨_, _, _, -, rested⟩
  · rw [rested]
    exact same
  · rw [rested]
    exact same

/-- A loop that is left to itself makes the first ticks of its script, with or without the failing
entries of it, and all of them if it is still at its top. The failing ticks do not show: without
them the others are told the same, show the same to others, and bring the loop to the same end. Each
failing tick puts off what follows it by its own time and one cooldown. -/
theorem failures_invisible (config : Config) (mode : Mode) (jitter : Duration)
    (script : List Beat) :
    let whole := (start config mode jitter).play script
    let erased := (start config mode jitter).play (script.filter Beat.succeeds)
    whole.1.map Round.beat <+: script ∧
      (whole.2.loop.stage = .ready → whole.1.map Round.beat = script) ∧
      (erased.2.loop.stage = .ready → erased.1.map Round.beat = script.filter Beat.succeeds) ∧
      Erases config.errorCooldown.ceilMillis whole.1 erased.1 whole.2 erased.2 := by
  obtain ⟨untouched, -⟩ := start_cases config mode jitter
  have erases := erases_play untouched script
  rw [config_start] at erases
  obtain ⟨first, whole⟩ := beats_play untouched script
  exact ⟨first, whole, (beats_play untouched _).2, erases⟩

example : ((start {} .periodic .zero).play [⟨.ofMillis 5, .error (.work "down")⟩,
    ⟨.zero, .ok .keep⟩, ⟨.zero, .ok .stop⟩]).1.map Round.start = [0, 1005, 2005] := by
  decide

end Alone
end ChainFetch.Schedule
