import ChainFetch.Proofs.Fetch.Ceiling
/-!
The rounds of a tick: a fetch and what comes of it. Forward has one; backward has a second one after
a first that exhausts its source. Main statements: `Rounds.next?`, which rounds a tick has behind it
at each of its stages, `runs_next?`, a merge that succeeds counts as a run, and `rounds_of_tick`.
-/

namespace ChainFetch.Fetch

open Schedule (Loop)

variable {γ : Type}

namespace Note

def request? : Note γ → Option (Request γ)
  | .fetch request _ => some request
  | _ => none

def merge? : Note γ → Option (Merge γ)
  | .part p => p.merge?
  | _ => none

end Note

/-! ## Rounds -/

def exhausted (q : Request γ) (outcome : Outcome γ) (merge : Merge γ) : List (Note γ) :=
  [.fetch q (.ok outcome), .part (.merged (.ok merge)), .part (.judged (.ok true))]

def Exhausts (q : Request γ) (j : List (Note γ)) : Prop :=
  q.fallback = false ∧ ∃ outcome merge rest, outcome.error = none ∧
    j = exhausted q outcome merge ++ rest

def Switches (q : Request γ) (j : List (Note γ)) : Prop :=
  q.fallback = false ∧ ∃ outcome merge rest, outcome.error = none ∧
    j = exhausted q outcome merge ++ [.part .lock, .part (.saved none)] ++ rest

/-- The calls of the fetch handler by a tick of direction `d` with the notes `j`, on a job with the
flag `fallback`: one, or backward two, of which the second asks the second source. Five answers at
most come to each. -/
structure Called (d : Direction) (fallback : Bool) (j : List (Note γ)) (calls : List (Request γ)) :
    Prop where
  rounds : ∃ first, first.direction = d ∧ first.fallback = fallback ∧
    (calls = [first] ∧ ¬ Switches first j ∨
      d = .backward ∧ Switches first j ∧
        ∃ second, calls = [first, second] ∧ second.direction = d ∧ second.fallback = true)
  bounded : j.length ≤ 5 * calls.length

section

variable {d : Direction} {fallback : Bool} {j tail : List (Note γ)} {q : Request γ}
  {outcome : Outcome γ} {merge : Merge γ} {n : Note γ}

theorem Called.length {calls : List (Request γ)} (h : Called d fallback j calls) :
    (d = .forward → calls.length = 1) ∧
      (d = .backward → calls.length = 1 ∨ calls.length = 2) := by
  obtain ⟨first, -, -, ⟨rfl, -⟩ | ⟨rfl, -, second, rfl, -⟩⟩ := h.rounds
  · exact ⟨fun _ => rfl, fun _ => Or.inl rfl⟩
  · exact ⟨(nomatch ·), fun _ => Or.inr rfl⟩

theorem Switches.exhausts (h : Switches q j) : Exhausts q j := by
  obtain ⟨first, outcome, merge, rest, clean, rfl⟩ := h
  exact ⟨first, outcome, merge, _, clean, List.append_assoc _ _ _⟩

theorem not_exhausts_concat (stays : ¬ Exhausts q j) (other : n ≠ .part (.judged (.ok true))) :
    ¬ Exhausts q (j ++ [n]) := by
  rintro ⟨first, outcome, merge, rest, clean, same⟩
  rcases List.eq_nil_or_concat rest with rfl | ⟨rest, last, rfl⟩
  · have split : exhausted q outcome merge ++ [] =
        [.fetch q (.ok outcome), .part (.merged (.ok merge))] ++
          [.part (.judged (.ok true))] := rfl
    rw [split] at same
    obtain ⟨-, same⟩ := List.append_inj' same rfl
    exact other (List.singleton_inj.mp same)
  · rw [List.concat_eq_append, ← List.append_assoc] at same
    obtain ⟨rfl, -⟩ := List.append_inj' same rfl
    exact stays ⟨first, outcome, merge, rest, clean, rfl⟩

theorem not_exhausts_of_second (second : q.fallback = true) : ¬ Exhausts q j := by
  rintro ⟨first, -⟩
  rw [second] at first
  cases first

theorem not_exhausts_of_length (short : j.length ≤ 2) : ¬ Exhausts q j := by
  rintro ⟨-, outcome, merge, rest, -, rfl⟩
  simp only [exhausted, List.length_append, List.length_cons] at short
  omega

theorem not_switches_of_length (short : j.length ≤ 4) : ¬ Switches q j := by
  rintro ⟨-, outcome, merge, rest, -, rfl⟩
  simp only [exhausted, List.length_append, List.length_cons] at short
  omega

/-- What a tick has behind it as it fetches: nothing, or a round that exhausted the first source.
`source` says whether it asks the second one. -/
inductive Behind (d : Direction) (fallback : Bool) : List (Note γ) → Bool → Prop
  | nothing : Behind d fallback [] fallback
  | switched (q : Request γ) (outcome : Outcome γ) (merge : Merge γ) (backward : d = .backward)
      (direction : q.direction = d) (own : q.fallback = fallback) (first : fallback = false)
      (clean : outcome.error = none) :
      Behind d fallback (exhausted q outcome merge ++ [.part .lock, .part (.saved none)]) true

theorem Behind.length_eq {source : Bool} (h : Behind d fallback j source) :
    j.length = 5 * (j.filterMap Note.request?).length := by
  cases h <;> rfl

structure Calls (d : Direction) (fallback : Bool) (j : List (Note γ)) (q : Request γ) : Prop where
  behind : Behind d fallback j q.fallback
  direction : q.direction = d

theorem Calls.eq_nil (calls : Calls d fallback j q) (first : q.fallback = false) :
    j = [] ∧ fallback = false := by
  obtain ⟨behind, -⟩ := calls
  rw [first] at behind
  cases behind with
  | nothing => exact ⟨rfl, rfl⟩

theorem Calls.called (calls : Calls d fallback j q) {waiting : Option (Request γ)}
    (own : tail.filterMap Note.request? ++ waiting.toList = [q]) (short : tail.length ≤ 5)
    (stays : ¬ Switches q tail) :
    Called d fallback (j ++ tail) ((j ++ tail).filterMap Note.request? ++ waiting.toList) := by
  obtain ⟨behind, direction⟩ := calls
  have length := behind.length_eq
  rw [List.filterMap_append, List.append_assoc, own]
  refine ⟨?_, ?_⟩
  · generalize asks : q.fallback = source at behind
    cases behind with
    | nothing => exact ⟨q, direction, asks, Or.inl ⟨rfl, stays⟩⟩
    | switched q' outcome merge backward direction' own' first clean =>
      refine ⟨q', direction', own', Or.inr ⟨backward, ?_, q, rfl, direction, asks⟩⟩
      exact ⟨own'.trans first, outcome, merge, tail, clean, rfl⟩
  · rw [List.length_append, List.length_append, List.length_singleton]
    omega

end

namespace Tick

/-! ## One tick -/

variable {l : Lane} {memory work next : State γ} {t t' : Tick γ} {part : Part γ}
  {error : Option Failure} {outcome : Outcome γ} {newItems : UInt64} {paced : Bool}

/-- What a tick of direction `d` has behind it at each stage, on a job with the flag `fallback`. -/
inductive Rounds (d : Direction) (fallback : Bool) : List (Note γ) → Tick γ → Prop
  | fetching {j : List (Note γ)} {work : State γ}
      (behind : Behind d fallback j (work.job d).fallback) : Rounds d fallback j (.fetching work)
  | merging {j : List (Note γ)} {q : Request γ} {answer : Except Failure (Outcome γ)}
      {work : State γ} (calls : Calls d fallback j q) (told : (work.job d).fallback = q.fallback) :
      Rounds d fallback (j ++ [.fetch q answer]) (.merging work (.ofAnswer answer))
  | judging {j : List (Note γ)} {q : Request γ} {outcome : Outcome γ} {merge : Merge γ}
      {work : State γ} {paced : Bool} {newItems : UInt64} (calls : Calls d fallback j q)
      (told : (work.job d).fallback = q.fallback) (backward : d = .backward)
      (clean : outcome.error = none) :
      Rounds d fallback (j ++ [.fetch q (.ok outcome), .part (.merged (.ok merge))])
        (.judging work paced newItems)
  | switching {q : Request γ} {outcome : Outcome γ} {merge : Merge γ} {work : State γ}
      (calls : Calls d fallback [] q) (first : q.fallback = false)
      (told : (work.job d).fallback = true) (backward : d = .backward)
      (clean : outcome.error = none) :
      Rounds d fallback (exhausted q outcome merge) (.locking work .again)
  | switchSaving {q : Request γ} {outcome : Outcome γ} {merge : Merge γ} {next : State γ}
      (calls : Calls d fallback [] q) (first : q.fallback = false)
      (told : (next.job d).fallback = true) (backward : d = .backward)
      (clean : outcome.error = none) :
      Rounds d fallback (exhausted q outcome merge ++ [.part .lock]) (.saving next .again)
  | ending {j rest : List (Note γ)} {q : Request γ} {answer : Except Failure (Outcome γ)}
      {work : State γ} {error : Option Failure} {asked : Option Schedule.Signal}
      (calls : Calls d fallback j q) (quiet : rest.filterMap Note.request? = [])
      (short : rest.length ≤ 2) (stays : ¬ Exhausts q (.fetch q answer :: rest)) :
      Rounds d fallback (j ++ .fetch q answer :: rest) (.locking work (.finish error asked))
  | endSaving {j rest : List (Note γ)} {q : Request γ} {answer : Except Failure (Outcome γ)}
      {next : State γ} {error : Option Failure} {asked : Option Schedule.Signal}
      (calls : Calls d fallback j q) (quiet : rest.filterMap Note.request? = [])
      (short : rest.length ≤ 3) (stays : ¬ Exhausts q (.fetch q answer :: rest)) :
      Rounds d fallback (j ++ .fetch q answer :: rest) (.saving next (.finish error asked))
  | done {j rest : List (Note γ)} {q : Request γ} {answer : Except Failure (Outcome γ)}
      {result : Except Failure Schedule.Signal} (calls : Calls d fallback j q)
      (quiet : rest.filterMap Note.request? = []) (short : rest.length ≤ 4)
      (stays : ¬ Switches q (.fetch q answer :: rest)) :
      Rounds d fallback (j ++ .fetch q answer :: rest) (.done result)

theorem pace_job (l : Lane) (work : State γ) (outcome : Outcome γ) (error : Option Failure)
    (newItems : UInt64) : ∃ own f,
      own.job l.direction = { work.job l.direction with frequency := f } ∧
      ((error = none ∧ l.direction = .backward ∧
          ∃ paced, pace l work outcome error newItems = .judging own paced newItems) ∨
        ∃ asked, pace l work outcome error newItems = .locking own (.finish error asked)) := by
  have rest (work : State γ) (paced : Bool) : ∃ own f,
      own.job l.direction = { work.job l.direction with frequency := f } ∧
      ((error = none ∧ l.direction = .backward ∧ ∃ paced',
          (if error.isNone ∧ l.direction = .backward then Tick.judging work paced newItems
            else settle l work error paced newItems) = .judging own paced' newItems) ∨
        ∃ asked, (if error.isNone ∧ l.direction = .backward then Tick.judging work paced newItems
            else settle l work error paced newItems) = .locking own (.finish error asked)) := by
    split
    · rename_i judges
      exact ⟨work, _, rfl,
        Or.inl ⟨Option.isNone_iff_eq_none.mp judges.1, judges.2, paced, rfl⟩⟩
    · obtain ⟨own, asked, f, same, job⟩ := settle_job l work error paced newItems
      exact ⟨own, f, job, Or.inr ⟨asked, same⟩⟩
  unfold pace
  cases outcome.explicitInterval with
  | none => exact rest work false
  | some i =>
    obtain ⟨own, f, job, stage⟩ :=
      rest (work.setFrequency l.direction (min i l.schedule.intervalMax)) true
    rw [job_setFrequency] at job
    exact ⟨own, f, job, stage⟩

variable {d : Direction} {fallback : Bool} {j rest : List (Note γ)} {q : Request γ}
  {answer : Except Failure (Outcome γ)} {merge : Merge γ}

theorem rounds_settle (calls : Calls d fallback j q) (quiet : rest.filterMap Note.request? = [])
    (short : rest.length ≤ 2) (stays : ¬ Exhausts q (.fetch q answer :: rest))
    (error : Option Failure) (paced : Bool) (newItems : UInt64) :
    (settle l work error paced newItems).Rounds d fallback (j ++ .fetch q answer :: rest) := by
  obtain ⟨own, asked, f, same, -⟩ := settle_job l work error paced newItems
  rw [same]
  exact .ending calls quiet short stays

theorem start_eq (going : (memory.job l.direction).complete = false) (clock : Instant) :
    start l memory clock =
      .fetching (memory.setJob l.direction
        { memory.job l.direction with lastRun := some clock }) := by
  unfold start
  dsimp only
  rw [if_neg (by rw [going]; exact Bool.false_ne_true)]

theorem rounds_start (going : (memory.job l.direction).complete = false) (clock : Instant) :
    (start l memory clock).Rounds l.direction (memory.job l.direction).fallback [] := by
  have told : (memory.job l.direction).fallback = ((memory.setJob l.direction
      { memory.job l.direction with lastRun := some clock }).job l.direction).fallback := by
    simp [State.setJob, State.job]
  rw [start_eq going]
  refine .fetching ?_
  rw [← told]
  exact .nothing

theorem rounds_fetched (behind : Behind l.direction fallback j (work.job l.direction).fallback)
    (context : Schedule.Context) (a : Except Failure (Outcome γ)) :
    (fetched l work a).Rounds l.direction fallback (j ++ [.fetch (request l context work) a]) := by
  have calls : Calls l.direction fallback j (request l context work) := ⟨behind, rfl⟩
  rw [fetched_eq]
  split
  · exact .merging calls rfl
  · rename_i skips
    obtain ⟨own, f, -, ⟨-, backward, -⟩ | ⟨asked, stage⟩⟩ :=
      pace_job l work (.ofAnswer a) (Outcome.ofAnswer a).error 0
    · exact absurd (Or.inl backward) skips
    · rw [stage]
      exact .ending calls rfl (Nat.zero_le _) (not_exhausts_of_length (Nat.le_succ 1))

theorem rounds_merged [Cursor γ] (calls : Calls l.direction fallback j q)
    (told : (work.job l.direction).fallback = q.fallback) (a : Except Failure (Merge γ)) :
    (merged l work (.ofAnswer answer) a).Rounds l.direction fallback
      (j ++ [.fetch q answer] ++ [.part (.merged a)]) := by
  rw [List.append_assoc, List.singleton_append]
  rcases a with e | merge
  · obtain ⟨own, f, -, ⟨none, -⟩ | ⟨asked, stage⟩⟩ := pace_job l work (.ofAnswer answer)
      ((Outcome.ofAnswer answer).error.or (some e)) 0
    · rw [Option.or_eq_none_iff] at none
      cases none.2
    · rw [merged, stage]
      exact .ending calls rfl (by simp) (not_exhausts_of_length (Nat.le_refl 2))
  · obtain ⟨own, f, job, ⟨clean, backward, paced, stage⟩ | ⟨asked, stage⟩⟩ :=
      pace_job l (work.applyMerge l.direction merge) (.ofAnswer answer)
        (Outcome.ofAnswer answer).error merge.newItems
    · rw [merged, stage]
      cases answer with
      | error e => cases clean
      | ok outcome =>
        refine .judging calls ?_ backward clean
        rw [job, ← told]
        simp [State.applyMerge, State.setJob, State.setCursor, State.job]
    · rw [merged, stage]
      exact .ending calls rfl (by simp) (not_exhausts_of_length (Nat.le_refl 2))

theorem rounds_judged (calls : Calls l.direction fallback j q)
    (told : (work.job l.direction).fallback = q.fallback) (backward : l.direction = .backward)
    (clean : outcome.error = none) (paced : Bool) (newItems : UInt64) (a : Except Failure Bool) :
    (judged l work paced newItems a).Rounds l.direction fallback
      (j ++ [.fetch q (.ok outcome), .part (.merged (.ok merge))] ++ [.part (.judged a)]) := by
  have ends (stays : ¬ Exhausts q [.fetch q (.ok outcome), .part (.merged (.ok merge)),
      .part (.judged a)]) (work : State γ) (error : Option Failure) :
      (settle l work error paced newItems).Rounds l.direction fallback
        (j ++ [.fetch q (.ok outcome), .part (.merged (.ok merge))] ++ [.part (.judged a)]) := by
    rw [List.append_assoc]
    exact rounds_settle calls rfl (Nat.le_refl _) stays error paced newItems
  have unheld (other : a ≠ .ok true) : ¬ Exhausts q [.fetch q (.ok outcome),
      .part (.merged (.ok merge)), .part (.judged a)] := by
    have early : ¬ Exhausts q [.fetch q (.ok outcome), .part (.merged (.ok merge))] :=
      not_exhausts_of_length (Nat.le_refl 2)
    exact not_exhausts_concat early (by simpa using other)
  rcases a with e | complete
  · exact ends (unheld (by simp)) work (some e)
  · cases complete with
    | false => exact ends (unheld (by simp)) work none
    | true =>
      simp only [judged]
      split
      · rename_i second
        rw [told] at second
        exact ends (not_exhausts_of_second second) _ none
      · rename_i first
        rw [told, Bool.not_eq_true] at first
        obtain ⟨rfl, -⟩ := calls.eq_nil first
        exact .switching calls first (by simp [State.setJob, State.job]) backward clean

theorem saved_finish (l : Lane) (next : State γ) (error : Option Failure)
    (asked : Option Schedule.Signal) (fault : Option StoreFailure) :
    ∃ result, saved l next (.finish error asked) fault = .done result := by
  cases fault with
  | some e => exact ⟨_, rfl⟩
  | none => cases error <;> exact ⟨_, rfl⟩

theorem Rounds.next? [Cursor γ] (h : t.Rounds l.direction fallback j)
    (context : Schedule.Context) (next : t.next? l memory part = some t') :
    t'.Rounds l.direction fallback (j ++ [t.note l context part]) := by
  cases h with
  | fetching behind =>
    cases part with
    | fetched a =>
      cases next
      exact rounds_fetched behind context a
    | _ => cases next
  | merging calls told =>
    cases part with
    | merged a =>
      cases next
      exact rounds_merged calls told a
    | _ => cases next
  | judging calls told backward clean =>
    cases part with
    | judged a =>
      cases next
      exact rounds_judged calls told backward clean _ _ a
    | _ => cases next
  | switching calls first told backward clean =>
    cases part with
    | lock =>
      cases next
      refine .switchSaving calls first ?_ backward clean
      rw [State.job_adopt_self]
      exact told
    | _ => cases next
  | switchSaving calls first told backward clean =>
    cases part with
    | saved fault =>
      cases next
      cases fault with
      | none =>
        refine .fetching ?_
        rw [told, List.append_assoc]
        exact .switched _ _ _ backward calls.direction (first.trans (calls.eq_nil first).2.symm)
          (calls.eq_nil first).2 clean
      | some e =>
        -- A save that fails ends the tick before it can ask the second source.
        refine .done (j := []) calls rfl (Nat.le_refl _) ?_
        rintro ⟨-, _, _, _, -, same⟩
        simp [exhausted, note] at same
    | _ => cases next
  | ending calls quiet short stays =>
    cases part with
    | lock =>
      cases next
      rw [List.append_assoc, List.cons_append]
      refine .endSaving calls ?_ ?_ (not_exhausts_concat stays (by simp [note]))
      · rw [List.filterMap_append, quiet]
        rfl
      · rw [List.length_append]
        exact Nat.succ_le_succ short
    | _ => cases next
  | @endSaving _ _ _ _ state error asked calls quiet short stays =>
    cases part with
    | saved fault =>
      cases next
      obtain ⟨result, ended⟩ := saved_finish l state error asked fault
      rw [ended, List.append_assoc, List.cons_append]
      refine .done calls ?_ ?_ fun switches =>
        not_exhausts_concat stays (by simp [note]) switches.exhausts
      · rw [List.filterMap_append, quiet]
        rfl
      · rw [List.length_append]
        exact Nat.succ_le_succ short
    | _ => cases next
  | done => cases part <;> cases next

def asks? (l : Lane) (context : Schedule.Context) : Tick γ → Option (Request γ)
  | .fetching work => some (request l context work)
  | _ => none

theorem Rounds.called (h : t.Rounds l.direction fallback j) (context : Schedule.Context) :
    Called l.direction fallback j (j.filterMap Note.request? ++ (t.asks? l context).toList) := by
  cases h with
  | @fetching j work behind =>
    have calls : Calls l.direction fallback j (request l context work) := ⟨behind, rfl⟩
    have called : Called l.direction fallback (j ++ []) ((j ++ []).filterMap Note.request? ++
        (some (request l context work)).toList) :=
      calls.called rfl (Nat.zero_le _) (not_switches_of_length (Nat.zero_le _))
    rwa [List.append_nil] at called
  | merging calls told =>
    exact calls.called rfl (Nat.le_add_left 1 4) (not_switches_of_length (Nat.le_add_left 1 3))
  | judging calls told backward clean =>
    exact calls.called rfl (Nat.le_add_left 2 3) (not_switches_of_length (Nat.le_add_left 2 2))
  | switching calls first told backward clean =>
    exact calls.called rfl (Nat.le_add_left 3 2) (not_switches_of_length (Nat.le_add_left 3 1))
  | switchSaving calls first told backward clean =>
    exact calls.called rfl (Nat.le_add_left 4 1) (not_switches_of_length (Nat.le_refl 4))
  | ending calls quiet short stays =>
    refine calls.called ?_ ?_ fun switches => stays switches.exhausts
    · simp [Note.request?, quiet, asks?]
    · exact Nat.succ_le_succ (Nat.le_trans short (Nat.le_add_left 2 2))
  | endSaving calls quiet short stays =>
    refine calls.called ?_ ?_ fun switches => stays switches.exhausts
    · simp [Note.request?, quiet, asks?]
    · exact Nat.succ_le_succ (Nat.le_trans short (Nat.le_add_left 3 1))
  | done calls quiet short stays =>
    exact calls.called (by simp [Note.request?, quiet, asks?]) (Nat.succ_le_succ short) stays

/-! ## Runs -/

def copy? : Tick γ → Option (State γ)
  | .fetching work => some work
  | .merging work _ => some work
  | .judging work _ _ => some work
  | .locking work _ => some work
  | .saving next _ => some next
  | .done _ => none

variable {own : State γ}

theorem runs_settle (copy : (settle l work error paced newItems).copy? = some own) :
    (own.job l.direction).runs = (work.job l.direction).runs := by
  obtain ⟨own', asked, f, same, job⟩ := settle_job l work error paced newItems
  rw [same] at copy
  cases copy
  rw [job]

theorem runs_pace (copy : (pace l work outcome error newItems).copy? = some own) :
    (own.job l.direction).runs = (work.job l.direction).runs := by
  obtain ⟨own', f, job, ⟨-, -, paced, stage⟩ | ⟨asked, stage⟩⟩ :=
    pace_job l work outcome error newItems
  all_goals
    rw [stage] at copy
    cases copy
    rw [job]

theorem runs_fetched {a : Except Failure (Outcome γ)}
    (copy : (fetched l work a).copy? = some own) :
    (own.job l.direction).runs = (work.job l.direction).runs := by
  rw [fetched_eq] at copy
  split at copy
  · cases copy
    rfl
  · exact runs_pace copy

theorem runs_merged [Cursor γ] {a : Except Failure (Merge γ)}
    (copy : (merged l work outcome a).copy? = some own) :
    (own.job l.direction).runs =
      (work.job l.direction).runs + if (Part.merged a).merge?.isSome then 1 else 0 := by
  cases a with
  | ok merge =>
    refine (runs_pace copy).trans ?_
    simp [State.applyMerge, State.setJob, State.job, Part.merge?]
  | error e => exact (runs_pace copy).trans (UInt64.add_zero _).symm

theorem runs_judged {a : Except Failure Bool}
    (copy : (judged l work paced newItems a).copy? = some own) :
    (own.job l.direction).runs = (work.job l.direction).runs := by
  have set (j : Job) : ((work.setJob l.direction j).job l.direction).runs = j.runs := by
    simp [State.setJob, State.job]
  unfold judged at copy
  dsimp only at copy
  split at copy
  · split at copy
    · exact (runs_settle copy).trans (set _)
    · cases copy
      exact set _
  · exact runs_settle copy
  · exact runs_settle copy

/-- A merge that succeeds counts as a run, and nothing else does. -/
theorem runs_next? [Cursor γ] (next : t.next? l memory part = some t')
    (copy : t'.copy? = some own) : ∃ work, t.copy? = some work ∧ (own.job l.direction).runs =
      (work.job l.direction).runs + if part.merge?.isSome then 1 else 0 := by
  have none : ∀ {x y : UInt64}, x = y → x = y + 0 := fun same => same.trans (UInt64.add_zero _).symm
  cases t with
  | fetching work =>
    cases part with
    | fetched a =>
      cases next
      exact ⟨work, rfl, none (runs_fetched copy)⟩
    | _ => cases next
  | merging work outcome =>
    cases part with
    | merged a =>
      cases next
      exact ⟨work, rfl, runs_merged copy⟩
    | _ => cases next
  | judging work paced newItems =>
    cases part with
    | judged a =>
      cases next
      exact ⟨work, rfl, none (runs_judged copy)⟩
    | _ => cases next
  | locking work resume =>
    cases part with
    | lock =>
      cases next
      cases copy
      exact ⟨work, rfl, none (congrArg Job.runs (State.job_adopt_self ..))⟩
    | _ => cases next
  | saving state resume =>
    cases part with
    | saved fault =>
      cases next
      refine ⟨state, rfl, none ?_⟩
      unfold saved at copy
      split at copy <;> cases copy
      rfl
    | _ => cases next
  | done result => cases part <;> cases next

end Tick

theorem Note.merge?_note (t : Tick γ) (l : Lane) (context : Schedule.Context) (part : Part γ) :
    (t.note l context part).merge? = part.merge? := by
  cases t <;> cases part <;> rfl

theorem Tick.eq_of_note {t : Tick γ} {l : Lane} {context : Schedule.Context} {part part' : Part γ}
    (same : t.note l context part = .part part') : part = part' := by
  cases t <;> cases part <;> cases same <;> rfl

def mergeCount (j : List (Note γ)) : UInt64 := .ofNat (j.filterMap Note.merge?).length

theorem mergeCount_concat (j : List (Note γ)) (n : Note γ) :
    mergeCount (j ++ [n]) = mergeCount j + if n.merge?.isSome then 1 else 0 := by
  rw [mergeCount, filterMap_concat, List.length_append, UInt64.ofNat_add]
  cases n.merge? <;> simp [mergeCount]

/-! ## A tick in a run -/

namespace System

variable [Cursor γ] {s s' m : System γ} {now : Nat} {a : Act γ} {e : Event γ} {d : Direction}
  {l : Lane} {clock : Instant} {origin : Job} {j : List (Note γ)} {t u : List (Nat × Event γ)}

def tickNotes (s : System γ) (d : Direction) (t : List (Nat × Event γ)) : List (Note γ) :=
  (labels step (fun m e => m.noteOf? d (m.act e)) s t).filterMap id

theorem tickNotes_concat (ran : s.run t = some m) (now : Nat) (e : Event γ) :
    s.tickNotes d (t ++ [(now, e)]) = s.tickNotes d t ++ (m.noteOf? d (m.act e)).toList :=
  filterMap_labels_concat ran now e

omit [Cursor γ] in
def asks? (s : System γ) (d : Direction) : Option (Request γ) :=
  match s.fetcher.config.lane? d, s.fetcher.loops.get d, s.fetcher.ticks.get d with
  | some l, some loop, some t => t.asks? l loop.context
  | _, _, _ => none

def calls (s : System γ) (d : Direction) (t : List (Nat × Event γ)) : List (Request γ) :=
  (s.tickNotes d t).filterMap Note.request? ++ ((s.run t).bind (·.asks? d)).toList

/-- A tick that began on the job `origin`, of which `j` was said so far. -/
structure Course (l : Lane) (origin : Job) (j : List (Note γ)) (s : System γ) : Prop where
  lane : s.fetcher.config.lane? l.direction = some l
  saves : j.getLast? = some (.part (.saved none)) →
    (s.fetcher.memory.job l.direction).runs = origin.runs + mergeCount j
  ticking : ∃ t, s.fetcher.ticks.get l.direction = some t ∧
    t.Rounds l.direction origin.fallback j ∧
    ∀ own, t.copy? = some own → (own.job l.direction).runs = origin.runs + mergeCount j

theorem course_of_begin (coherent : s.Coherent)
    (lane : s.fetcher.config.lane? l.direction = some l)
    (going : (s.fetcher.memory.job l.direction).complete = false)
    (moves : Moves now s (.tick l.direction (.begin clock)) s') :
    Course l (s.fetcher.memory.job l.direction) [] s' := by
  obtain ⟨-, tick⟩ := memory_of_begin coherent moves
  have started : s'.fetcher.ticks.get l.direction = some (.start l s.fetcher.memory clock) := by
    rw [tick, Fetcher.begun, lane]
  refine ⟨by rw [moves.config_eq]; exact lane, by simp, _, started,
    Tick.rounds_start going clock, ?_⟩
  intro own copy
  rw [Tick.start_eq going] at copy
  cases copy
  simp [State.setJob, State.job, mergeCount]

theorem Course.step (h : Course l origin j s) (coherent : s.Coherent) (moves : Moves now s a s')
    (goes : a ≠ .tick l.direction .finish) :
    Course l origin (j ++ (s.noteOf? l.direction a).toList) s' := by
  obtain ⟨t, found, rounds, counts⟩ := h.ticking
  have lane : s'.fetcher.config.lane? l.direction = some l := by rw [moves.config_eq]; exact h.lane
  rcases moves.tick_cases coherent h.lane found goes with
    ⟨other, after⟩ | ⟨part, t', rfl, next, after⟩
  · rw [noteOf?_of_other other, Option.toList_none, List.append_nil]
    refine ⟨lane, ?_, t, after, rounds, counts⟩
    rw [job_of_other coherent moves found other]
    exact h.saves
  · obtain ⟨loop, -, present, -⟩ := coherent.regular.ticking l.direction (by simp [found])
    rw [noteOf?_tick h.lane present found, Option.toList_some]
    have counts' : ∀ own, t'.copy? = some own → (own.job l.direction).runs =
        origin.runs + mergeCount (j ++ [t.note l loop.context part]) := by
      intro own copy
      obtain ⟨work, before, runs⟩ := Tick.runs_next? next copy
      rw [runs, counts work before, mergeCount_concat, Note.merge?_note, UInt64.add_assoc]
    refine ⟨lane, fun last => ?_, t', after, rounds.next? loop.context next, counts'⟩
    rw [List.getLast?_concat, Option.some_inj] at last
    have wrote : part = .saved none := Tick.eq_of_note last
    subst wrote
    rcases moves.memory_cases coherent (coherent.initialised found) with
      ⟨-, quiet⟩ | ⟨b, state, resume, same, saving, memory⟩
    · exact absurd rfl (quiet _)
    · cases same
      cases found.symm.trans saving
      rw [memory, mergeCount_concat, Note.merge?_note, counts state rfl]
      exact congrArg _ (UInt64.add_zero _).symm

theorem Course.run (h : Course l origin [] s) (coherent : s.Coherent) (ran : s.run u = some s')
    (same : .tick l.direction .finish ∉ s.acts u) :
    Course l origin (s.tickNotes l.direction u) s' := by
  refine unfinished_invariant (P := fun u m => Course l origin (s.tickNotes l.direction u) m) ?_ h
    coherent ran same
  intro u now e m m' before coherent course goes moves
  rw [tickNotes_concat before]
  exact course.step coherent moves goes

theorem Course.called (h : Course l origin (s.tickNotes l.direction u) s') (coherent : s'.Coherent)
    (ran : s.run u = some s') :
    Called l.direction origin.fallback (s.tickNotes l.direction u) (s.calls l.direction u) := by
  obtain ⟨t, found, rounds, -⟩ := h.ticking
  obtain ⟨loop, -, present, -⟩ := coherent.regular.ticking l.direction (by simp [found])
  have waiting : s'.asks? l.direction = t.asks? l loop.context := by
    rw [asks?, h.lane, present, found]
  rw [calls, ran, Option.bind_some, waiting]
  exact rounds.called loop.context

/-- A tick on a job that is not complete calls the fetch handler once, or backward twice, whatever
is answered and whatever the other direction saves meanwhile. The second call asks the second
source, and there is one exactly if the first asked the first source, came back without an error,
was merged, exhausted the source by the check for completion, and that was saved. After each save
that succeeds the runs in memory and in the store have grown by the merges that have succeeded. -/
theorem rounds_of_tick {c : Config} {f : Fetcher γ} {store : Table (State γ)}
    (made : Fetcher.new c = .ok f)
    (named : ∀ state, store.get? c.id = some state → state.id = c.id)
    (before : (⟨store, f⟩ : System γ).run t = some s)
    (begins : s.step now (.turn d clock) = some m)
    (acts : s.act (.turn d clock) = .tick d (.begin clock))
    (going : (s.fetcher.memory.job d).complete = false) (ran : m.run u = some s')
    (same : .tick d .finish ∉ m.acts u) :
    (d = .forward → (m.calls d u).length = 1) ∧
      (d = .backward → (m.calls d u).length = 1 ∨ (m.calls d u).length = 2) ∧
      Called d (s.fetcher.memory.job d).fallback (m.tickNotes d u) (m.calls d u) ∧
      ((m.tickNotes d u).getLast? = some (.part (.saved none)) →
        s'.stored? = some s'.fetcher.memory ∧
        (s'.fetcher.memory.job d).runs = (s.fetcher.memory.job d).runs +
          .ofNat ((m.tickNotes d u).filterMap Note.merge?).length) := by
  have start := coherent_of_new made named
  have coherent := start.run before
  have moves := moves_of_step begins
  rw [acts] at moves
  obtain ⟨config, -, l, lane, rfl, -⟩ := lane_of_begin made before acts
  rw [← config] at lane
  have coherent' := moves.coherent coherent
  have later := coherent'.run ran
  have course := (course_of_begin coherent lane going moves).run coherent' ran same
  have called := course.called later ran
  obtain ⟨tick, found, -⟩ := course.ticking
  refine ⟨called.length.1, called.length.2, called, fun last => ⟨?_, course.saves last⟩⟩
  exact later.mirrors.mirrored (later.initialised found)

def bothRounds : List (Nat × Event HeightCursor) := (interleaved.drop 1).take 17

theorem rounds_of_tick_interleaved :
    ∃ s m s' : System HeightCursor,
      (⟨{}, newBothWays⟩ : System HeightCursor).run launched = some s ∧
        s.step 0 (.turn .backward .epoch) = some m ∧ m.run bothRounds = some s' ∧
        (∃ first second, m.calls .backward bothRounds = [first, second] ∧
          first.fallback = false ∧ second.fallback = true) ∧
        (s'.fetcher.memory.job .backward).runs = 2 := by
  have made : Fetcher.new bothWays = .ok newBothWays := rfl
  have ends : ((⟨{}, newBothWays⟩ : System HeightCursor).run launched).bind (fun s =>
      (s.step 0 (.turn .backward .epoch)).bind fun m => (m.run bothRounds).map fun s' =>
        (s.act (.turn .backward .epoch), s.fetcher.memory.job .backward,
          m.tickParts .backward bothRounds, (m.calls .backward bothRounds).length,
          (m.tickNotes .backward bothRounds).getLast?,
          ((m.tickNotes .backward bothRounds).filterMap Note.merge?).length)) =
      some (.tick .backward (.begin .epoch), { frequency := .ofSecs 1 }, [
        .fetched (.ok {}), .merged (.ok ⟨some ⟨90⟩, 9⟩), .judged (.ok true), .lock, .saved none,
        .fetched (.ok {}), .merged (.ok ⟨some ⟨80⟩, 0⟩), .judged (.ok true), .lock,
        .saved none], 2, some (.part (.saved none)), 2) := rfl
  obtain ⟨s, before, ends⟩ := Option.bind_eq_some_iff.mp ends
  obtain ⟨m, begins, ends⟩ := Option.bind_eq_some_iff.mp ends
  obtain ⟨s', ran, ends⟩ := Option.map_eq_some_iff.mp ends
  simp only [Prod.mk.injEq] at ends
  obtain ⟨acts, job, did, twice, last, merges⟩ := ends
  have goes : .tick .backward .finish ∉ m.acts bothRounds := by
    intro back
    have finish : Part.finish ∈ m.tickParts .backward bothRounds :=
      List.mem_filterMap.mpr ⟨_, back, rfl⟩
    rw [did] at finish
    simp at finish
  obtain ⟨-, -, called, saves⟩ := rounds_of_tick made (by simp [Table.get?]) before begins acts
    (by rw [job]) ran goes
  have runs := (saves last).2
  rw [job, merges] at runs
  refine ⟨s, m, s', before, begins, ran, ?_, runs⟩
  obtain ⟨first, -, told, ⟨once, -⟩ | ⟨-, -, second, both, -, switched⟩⟩ := called.rounds
  · rw [once] at twice
    cases twice
  · rw [job] at told
    exact ⟨first, second, both, told, switched⟩

end System
end ChainFetch.Fetch
