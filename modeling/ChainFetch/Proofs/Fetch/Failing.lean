import ChainFetch.Proofs.Fetch.Ledger
/-!
What a tick leaves behind that comes back with an error. Its copy of the state takes over something
of every answer, and what it has saved by then stays. Main statements: `Accounts.next?`, the copy by
the answers so far, and `failed_tick`.
-/

namespace ChainFetch.Fetch

open Schedule (Loop Signal)

variable {γ : Type}

/-! ## What the answers leave -/

namespace Outcome

def ofAnswer : Except Failure (Outcome γ) → Outcome γ
  | .ok outcome => outcome
  | .error e => .failed e

def pace (outcome : Outcome γ) (l : Lane) (own : Job × Option γ) : Job × Option γ :=
  match outcome.explicitInterval with
  | some i => ({ own.1 with frequency := min i l.schedule.intervalMax }, own.2)
  | none => own

end Outcome

namespace Part

def fetch? : Part γ → Option (Except Failure (Outcome γ))
  | .fetched answer => some answer
  | _ => none

def interval? (p : Part γ) : Option Duration :=
  p.fetch?.bind fun answer => (Outcome.ofAnswer answer).explicitInterval

def merge? : Part γ → Option (Merge γ)
  | .merged (.ok merge) => some merge
  | _ => none

def holds : Part γ → Bool
  | .judged (.ok true) => true
  | _ => false

def Silent (p : Part γ) : Prop := p.fetch? = none ∧ p.merge? = none ∧ p.holds = false

end Part

def Once (j : List (Part γ)) : Prop :=
  ∃ answer, j.filterMap Part.fetch? = [answer] ∧ j.filterMap Part.merge? = [] ∧
    j.any Part.holds = false

theorem Once.silent {j : List (Part γ)} {p : Part γ} (h : Once j) (silent : p.Silent) :
    Once (j ++ [p]) := by
  obtain ⟨answer, fetch, merge, holds⟩ := h
  obtain ⟨fetch', merge', holds'⟩ := silent
  exact ⟨answer, by simp [fetch, fetch'], by simp [merge, merge'], by simp [holds, holds']⟩

namespace Lane

variable [Cursor γ] {l : Lane} {clock : Instant} {own : Job × Option γ} {j : List (Part γ)}

/-- What is kept of the answers `j` to a tick that fails, in the half `own` of the state that it
began on. -/
def keeps (l : Lane) (clock : Instant) (own : Job × Option γ) (j : List (Part γ)) :
    Job × Option γ :=
  ({ own.1 with
      frequency := ((j.filterMap Part.interval?).getLast?.map
        (min · l.schedule.intervalMax)).getD own.1.frequency
      lastRun := some clock
      runs := own.1.runs + UInt64.ofNat (j.filterMap Part.merge?).length
      fallback := own.1.fallback || j.any Part.holds },
    (j.filterMap Part.merge?).foldl (fun c m => l.direction.guard c m.cursor) own.2)

theorem keeps_nil : l.keeps clock own [] = ({ own.1 with lastRun := some clock }, own.2) := by
  simp [keeps]

theorem keeps_silent {p : Part γ} (silent : p.Silent) :
    l.keeps clock own (j ++ [p]) = l.keeps clock own j := by
  obtain ⟨fetch, merge, holds⟩ := silent
  have interval : p.interval? = none := by rw [Part.interval?, fetch, Option.bind_none]
  simp [keeps, interval, merge, holds]

theorem keeps_fetched (answer : Except Failure (Outcome γ)) :
    l.keeps clock own (j ++ [.fetched answer]) =
      (Outcome.ofAnswer answer).pace l (l.keeps clock own j) := by
  have merge : (Part.fetched answer).merge? = none := rfl
  have interval :
      (Part.fetched answer).interval? = (Outcome.ofAnswer answer).explicitInterval := rfl
  cases asked : (Outcome.ofAnswer answer).explicitInterval with
  | none => simp [keeps, Outcome.pace, Part.holds, merge, interval, asked]
  | some i => simp [keeps, Outcome.pace, Part.holds, merge, interval, asked]

theorem keeps_merged (merge : Merge γ) :
    l.keeps clock own (j ++ [.merged (.ok merge)]) =
      ({ (l.keeps clock own j).1 with runs := (l.keeps clock own j).1.runs + 1 },
        l.direction.guard (l.keeps clock own j).2 merge.cursor) := by
  have interval : (Part.merged (.ok merge)).interval? = none := rfl
  simp [keeps, Part.merge?, Part.holds, interval, UInt64.ofNat_add, UInt64.add_assoc]

theorem keeps_judged :
    l.keeps clock own (j ++ [.judged (.ok true)]) =
      ({ (l.keeps clock own j).1 with fallback := true }, (l.keeps clock own j).2) := by
  have merge : (Part.judged (.ok true) : Part γ).merge? = none := rfl
  have interval : (Part.judged (.ok true) : Part γ).interval? = none := rfl
  simp [keeps, Part.holds, merge, interval]

theorem keeps_of_once {answer : Except Failure (Outcome γ)}
    (fetch : j.filterMap Part.fetch? = [answer]) (merge : j.filterMap Part.merge? = [])
    (holds : j.any Part.holds = false) :
    l.keeps clock own j =
      ({ own.1 with
          frequency := ((Outcome.ofAnswer answer).explicitInterval.map
            (min · l.schedule.intervalMax)).getD own.1.frequency
          lastRun := some clock }, own.2) := by
  have interval : j.filterMap Part.interval? =
      (Outcome.ofAnswer answer).explicitInterval.toList := by
    have split : j.filterMap Part.interval? =
        (j.filterMap Part.fetch?).filterMap fun a => (Outcome.ofAnswer a).explicitInterval :=
      List.filterMap_filterMap.symm
    rw [split, fetch]
    cases asked : (Outcome.ofAnswer answer).explicitInterval <;> simp [asked]
  rw [keeps, interval, merge, holds]
  cases (Outcome.ofAnswer answer).explicitInterval <;> simp

end Lane

namespace State

variable {d : Direction} {s t : State γ}

theorem sameBut_setJob (s : State γ) (d : Direction) (j : Job) : (s.setJob d j).SameBut d s :=
  ⟨rfl, fun _ ne => ⟨Both.get_set_of_ne _ ne _, rfl⟩⟩

theorem SameBut.trans {r : State γ} (h : r.SameBut d s) (k : s.SameBut d t) : r.SameBut d t :=
  ⟨h.1.trans k.1, fun b ne => ⟨(h.2 b ne).1.trans (k.2 b ne).1, (h.2 b ne).2.trans (k.2 b ne).2⟩⟩

theorem SameBut.symm (h : s.SameBut d t) : t.SameBut d s :=
  ⟨h.1.symm, fun b ne => ⟨(h.2 b ne).1.symm, (h.2 b ne).2.symm⟩⟩

theorem SameBut.eq_of_half (h : s.SameBut d t) (own : s.half d = t.half d) : s = t := by
  have halves : ∀ b, s.job b = t.job b ∧ s.cursor b = t.cursor b := by
    intro b
    by_cases same : b = d
    · subst same
      exact ⟨congrArg (·.1) own, congrArg (·.2) own⟩
    · exact h.2 b same
  obtain ⟨id, ⟨jf, jb⟩, ⟨cf, cb⟩⟩ := s
  obtain ⟨id', ⟨jf', jb'⟩, ⟨cf', cb'⟩⟩ := t
  obtain ⟨jobs, cursors⟩ := halves .forward
  obtain ⟨jobs', cursors'⟩ := halves .backward
  cases h.1
  simp only [job, cursor, Both.get] at jobs cursors jobs' cursors'
  rw [jobs, cursors, jobs', cursors']

end State

/-! ## One tick -/

/-- What a tick that is about to save has in its copy: all that is kept of the answers `j`, unless
it goes on to a success. Only a backward tick fetches again. -/
inductive Owes [Cursor γ] (l : Lane) (clock : Instant) (own : Job × Option γ) (j : List (Part γ))
    (work : Job × Option γ) : Resume → Prop
  | again (kept : work = l.keeps clock own j) (backward : l.direction = .backward) :
      Owes l clock own j work .again
  | failed (kept : work = l.keeps clock own j) (once : l.direction = .forward → Once j)
      (e : Failure) (asked : Option Signal) : Owes l clock own j work (.finish (some e) asked)
  | clean (asked : Option Signal) : Owes l clock own j work (.finish none asked)

theorem Owes.silent [Cursor γ] {l : Lane} {clock : Instant} {own work : Job × Option γ}
    {j : List (Part γ)} {resume : Resume} {p : Part γ} (h : Owes l clock own j work resume)
    (silent : p.Silent) : Owes l clock own (j ++ [p]) work resume := by
  cases h with
  | again kept backward => exact .again (kept.trans (Lane.keeps_silent silent).symm) backward
  | failed kept once e asked =>
    exact .failed (kept.trans (Lane.keeps_silent silent).symm)
      (fun forward => (once forward).silent silent) e asked
  | clean asked => exact .clean asked

namespace Tick

variable [Cursor γ] {l : Lane} {clock : Instant} {own held : Job × Option γ} {j : List (Part γ)}
  {memory work next : State γ} {t t' : Tick γ} {part : Part γ}

/-- The copy of a tick by the answers `j` that it had, with `own` the half of the state that it
began on and `held` the one in memory. -/
def Accounts (l : Lane) (clock : Instant) (own : Job × Option γ) (j : List (Part γ))
    (held : Job × Option γ) : Tick γ → Prop
  | .fetching work =>
    work.half l.direction = l.keeps clock own j ∧ (l.direction = .forward → j = [])
  | .merging work outcome =>
    ∃ before answer, j = before ++ [.fetched answer] ∧ outcome = .ofAnswer answer ∧
      work.half l.direction = l.keeps clock own before ∧
      (l.direction = .forward → before = [] ∧ outcome.error = none)
  | .judging work _ _ =>
    work.half l.direction = l.keeps clock own j ∧ l.direction = .backward
  | .locking work resume => Owes l clock own j (work.half l.direction) resume
  | .saving next resume => Owes l clock own j (next.half l.direction) resume
  | .done (.error _) => j.getLast? = some (.saved none) →
    held = l.keeps clock own j ∧ (l.direction = .forward → Once j)
  | .done (.ok _) => True

theorem accounts_start (l : Lane) (memory : State γ) (clock : Instant) :
    (start l memory clock).Accounts l clock (memory.half l.direction) [] held := by
  unfold start
  dsimp only
  split
  · trivial
  · refine ⟨?_, fun _ => rfl⟩
    rw [State.half_setJob, Lane.keeps_nil]
    rfl

theorem accounts_settle {error : Option Failure}
    (failing : error ≠ none → work.half l.direction = l.keeps clock own j ∧
      (l.direction = .forward → Once j)) (paced : Bool) (newItems : UInt64) :
    (settle l work error paced newItems).Accounts l clock own j held := by
  cases error with
  | none =>
    unfold settle
    split
    · exact .clean _
    · split <;> exact .clean _
  | some e =>
    obtain ⟨kept, once⟩ := failing (by simp)
    exact .failed kept once e none

theorem accounts_pace {outcome : Outcome γ} {error : Option Failure}
    (kept : outcome.pace l (work.half l.direction) = l.keeps clock own j)
    (once : error ≠ none → l.direction = .forward → Once j) (newItems : UInt64) :
    (pace l work outcome error newItems).Accounts l clock own j held := by
  have rest : ∀ {work : State γ} explicit, work.half l.direction = l.keeps clock own j →
      (if error.isNone ∧ l.direction = .backward then Tick.judging work explicit newItems
        else settle l work error explicit newItems).Accounts l clock own j held := by
    intro work explicit kept
    split
    · rename_i asks
      exact ⟨kept, asks.2⟩
    · exact accounts_settle (fun failing => ⟨kept, once failing⟩) _ _
  cases explicit : outcome.explicitInterval with
  | none =>
    rw [Outcome.pace, explicit] at kept
    simp only [pace, explicit]
    exact rest _ kept
  | some i =>
    rw [Outcome.pace, explicit] at kept
    simp only [pace, explicit]
    refine rest _ ?_
    rw [State.half_setFrequency]
    exact kept

omit [Cursor γ] in
theorem fetched_eq (l : Lane) (work : State γ) (a : Except Failure (Outcome γ)) :
    fetched l work a =
      if l.direction = .backward ∨ (Outcome.ofAnswer a).error.isNone then
        .merging work (.ofAnswer a)
      else pace l work (.ofAnswer a) (Outcome.ofAnswer a).error 0 := by
  cases a <;> rfl

theorem accounts_fetched (kept : work.half l.direction = l.keeps clock own j)
    (fresh : l.direction = .forward → j = []) (a : Except Failure (Outcome γ)) :
    (fetched l work a).Accounts l clock own (j ++ [.fetched a]) held := by
  rw [fetched_eq]
  split
  · rename_i merges
    refine ⟨j, a, rfl, rfl, kept, fun forward => ⟨fresh forward, ?_⟩⟩
    rcases merges with backward | clean
    · rw [forward] at backward
      cases backward
    · exact Option.isNone_iff_eq_none.mp clean
  · refine accounts_pace ?_ ?_ 0
    · rw [kept, Lane.keeps_fetched]
    · intro _ forward
      rw [fresh forward]
      exact ⟨a, rfl, rfl, rfl⟩

theorem accounts_merged {outcome : Outcome γ} {answer : Except Failure (Outcome γ)}
    (kept : work.half l.direction = l.keeps clock own j) (came : outcome = .ofAnswer answer)
    (fresh : l.direction = .forward → j = [] ∧ outcome.error = none)
    (a : Except Failure (Merge γ)) :
    (merged l work outcome a).Accounts l clock own (j ++ [.fetched answer] ++ [.merged a])
      held := by
  rcases a with e | merge
  · refine accounts_pace ?_ ?_ 0
    · rw [kept, Lane.keeps_silent ⟨rfl, rfl, rfl⟩, Lane.keeps_fetched, came]
    · intro _ forward
      rw [(fresh forward).1]
      exact ⟨answer, rfl, rfl, rfl⟩
  · refine accounts_pace ?_ ?_ merge.newItems
    · rw [State.half_applyMerge, Lane.keeps_merged, Lane.keeps_fetched, ← kept, ← came]
      -- The merge and the interval change different fields.
      cases explicit : outcome.explicitInterval <;> simp [Outcome.pace, explicit, State.half]
    · intro failing forward
      exact absurd (fresh forward).2 failing

theorem accounts_judged (kept : work.half l.direction = l.keeps clock own j)
    (backward : l.direction = .backward) (paced : Bool) (newItems : UInt64)
    (a : Except Failure Bool) :
    (judged l work paced newItems a).Accounts l clock own (j ++ [.judged a]) held := by
  rcases a with e | complete
  · change (settle l work (some e) paced newItems).Accounts l clock own _ held
    refine accounts_settle (fun _ => ⟨?_, fun forward => ?_⟩) _ _
    · rw [kept, Lane.keeps_silent ⟨rfl, rfl, rfl⟩]
    · rw [forward] at backward
      cases backward
  · cases complete
    · exact accounts_settle (fun failing => absurd rfl failing) _ _
    · simp only [judged]
      split
      · exact accounts_settle (fun failing => absurd rfl failing) _ _
      · refine Owes.again ?_ backward
        rw [State.half_setJob, Lane.keeps_judged, ← kept]
        rfl

theorem Accounts.next? (h : t.Accounts l clock own j held)
    (next : t.next? l memory part = some t') (writes : part ≠ .saved none) :
    t'.Accounts l clock own (j ++ [part]) held := by
  cases t with
  | fetching work =>
    cases part with
    | fetched a =>
      cases next
      exact accounts_fetched h.1 h.2 a
    | _ => cases next
  | merging work outcome =>
    cases part with
    | merged a =>
      cases next
      obtain ⟨before, answer, rfl, came, kept, fresh⟩ := h
      exact accounts_merged kept came fresh a
    | _ => cases next
  | judging work paced newItems =>
    cases part with
    | judged a =>
      cases next
      exact accounts_judged h.1 h.2 paced newItems a
    | _ => cases next
  | locking work resume =>
    cases part with
    | lock =>
      cases next
      have owes : Owes l clock own j (work.half l.direction) resume := h
      rw [← State.half_adopt memory] at owes
      exact owes.silent ⟨rfl, rfl, rfl⟩
    | _ => cases next
  | saving state resume =>
    cases part with
    | saved fault =>
      cases fault with
      | none => exact absurd rfl writes
      | some e =>
        cases next
        intro last
        simp at last
    | _ => cases next
  | done result => cases part <;> cases next

theorem accounts_saved {resume : Resume}
    (owes : Owes l clock own j (next.half l.direction) resume) :
    (saved l next resume none).Accounts l clock own (j ++ [.saved none])
      (next.half l.direction) := by
  cases owes.silent (p := .saved none) ⟨rfl, rfl, rfl⟩ with
  | again kept backward =>
    refine ⟨kept, fun forward => ?_⟩
    rw [forward] at backward
    cases backward
  | failed kept once => exact fun _ => ⟨kept, once⟩
  | clean => trivial

end Tick

/-! ## A tick in a run -/

def Act.partOf? (d : Direction) : Act γ → Option (Part γ)
  | .tick b part => if b = d then some part else none
  | _ => none

theorem Act.partOf?_eq_none {d : Direction} {a : Act γ} (other : ∀ part, a ≠ .tick d part) :
    a.partOf? d = none := by
  cases a with
  | tick b part => exact if_neg fun same => other part (by rw [same])
  | _ => rfl

namespace System

variable [Cursor γ] {s s' m : System γ} {now : Nat} {a : Act γ} {e : Event γ} {d : Direction}
  {l : Lane} {clock : Instant} {origin : State γ} {j : List (Part γ)} {saves : List (State γ)}
  {t u : List (Nat × Event γ)}

def tickParts (s : System γ) (d : Direction) (t : List (Nat × Event γ)) : List (Part γ) :=
  (s.acts t).filterMap (Act.partOf? d)

theorem tickParts_concat (ran : s.run t = some m) (now : Nat) (e : Event γ) :
    s.tickParts d (t ++ [(now, e)]) = s.tickParts d t ++ ((m.act e).partOf? d).toList := by
  rw [tickParts, acts_concat ran, filterMap_concat, ← tickParts]

/-- A step leaves a tick as it is or is its answer, until the tick comes back. -/
theorem Moves.tick_cases {tick : Tick γ} (moves : Moves now s a s') (coherent : s.Coherent)
    (lane : s.fetcher.config.lane? l.direction = some l)
    (found : s.fetcher.ticks.get l.direction = some tick) (goes : a ≠ .tick l.direction .finish) :
    ((∀ part, a ≠ .tick l.direction part) ∧
      s'.fetcher.ticks.get l.direction = some tick) ∨
    ∃ part tick', a = .tick l.direction part ∧
      tick.next? l s.fetcher.memory part = some tick' ∧
      s'.fetcher.ticks.get l.direction = some tick' := by
  have ticked := moves.ticked l.direction
  generalize after : s'.fetcher.ticks.get l.direction = x at ticked
  cases ticked with
  | kept _ other => exact Or.inl ⟨other, found⟩
  | begun clock loop present ready =>
    rw [coherent.regular.ticks_eq_none_of_ready present ready] at found
    cases found
  | answered l' tick₀ tick' part lane' found' next =>
    cases lane.symm.trans lane'
    cases found.symm.trans found'
    exact Or.inr ⟨part, tick', rfl, next, rfl⟩
  | back result done => exact absurd rfl goes

/-- A tick of a direction that began on the state `origin`, while no other direction saves: what it
has answered so far is `j`, and what it has saved is `saves`. -/
structure Attempt (l : Lane) (clock : Instant) (origin : State γ) (j : List (Part γ))
    (saves : List (State γ)) (s : System γ) : Prop where
  lane : s.fetcher.config.lane? l.direction = some l
  memory : s.fetcher.memory = saves.getLast?.getD origin
  others : s.fetcher.memory.SameBut l.direction origin
  ticking : ∃ t, s.fetcher.ticks.get l.direction = some t ∧
    t.Accounts l clock (origin.half l.direction) j (s.fetcher.memory.half l.direction) ∧
    ((∀ signal, t ≠ .done (.ok signal)) →
      (s.fetcher.memory.job l.direction).complete = (origin.job l.direction).complete)

theorem attempt_of_begin (h : s.Coherent) (lane : s.fetcher.config.lane? l.direction = some l)
    (moves : Moves now s (.tick l.direction (.begin clock)) s') :
    Attempt l clock s.fetcher.memory [] [] s' := by
  have ticked := moves.ticked l.direction
  generalize after : s'.fetcher.ticks.get l.direction = x at ticked
  cases ticked with
  | kept _ other => exact absurd rfl (other _)
  | begun _ loop found ready =>
    have loaded := h.mirrors.initialised (Fetcher.not_bare_of_loop found)
    rcases moves.memory_cases h loaded with ⟨memory, -⟩ | ⟨_, _, _, k, -⟩
    · refine ⟨by rw [moves.config_eq]; exact lane, memory, ?_, _, after, ?_, ?_⟩
      · rw [memory]
        exact ⟨rfl, fun _ _ => ⟨rfl, rfl⟩⟩
      · rw [Fetcher.begun, lane]
        exact Tick.accounts_start ..
      · intro _
        rw [memory]
    · cases k
  | answered l' t t' part lane' found next => cases t <;> cases next

theorem Attempt.unsaved (h : Attempt l clock origin j saves s) (coherent : s.Coherent)
    (moves : Moves now s a s') (goes : a ≠ .tick l.direction .finish)
    (memory : s'.fetcher.memory = s.fetcher.memory) (quiet : a ≠ .tick l.direction (.saved none)) :
    Attempt l clock origin (j ++ (a.partOf? l.direction).toList) saves s' := by
  obtain ⟨t, found, accounts, level⟩ := h.ticking
  have lane : s'.fetcher.config.lane? l.direction = some l := by rw [moves.config_eq]; exact h.lane
  rw [← memory] at accounts level
  refine ⟨lane, memory.trans h.memory, by rw [memory]; exact h.others, ?_⟩
  rcases moves.tick_cases coherent h.lane found goes with
    ⟨other, after⟩ | ⟨part, t', rfl, next, after⟩
  · rw [Act.partOf?_eq_none other, Option.toList_none, List.append_nil]
    exact ⟨t, after, accounts, level⟩
  · have part? : (Act.tick l.direction part).partOf? l.direction = some part := if_pos rfl
    rw [part?]
    refine ⟨t', after, accounts.next? next (fun k => quiet (by rw [k])), fun _ => level ?_⟩
    rintro signal rfl
    cases part <;> cases next

theorem Attempt.saved {next : State γ} {resume : Resume} (h : Attempt l clock origin j saves s)
    (coherent : s.Coherent) (moves : Moves now s (.tick l.direction (.saved none)) s')
    (saving : s.fetcher.ticks.get l.direction = some (.saving next resume))
    (memory : s'.fetcher.memory = next) :
    Attempt l clock origin (j ++ [.saved none]) (saves ++ [next]) s' := by
  obtain ⟨t, found, owes, -⟩ := h.ticking
  rw [saving] at found
  cases found
  have based := coherent.guarded.based l.direction next (by rw [Fetcher.saves?, saving]; rfl)
  have ticked := moves.ticked l.direction
  generalize after : s'.fetcher.ticks.get l.direction = x at ticked
  refine ⟨by rw [moves.config_eq]; exact h.lane, by rw [memory]; simp, ?_, ?_⟩
  · rw [memory]
    exact based.trans h.others
  · cases ticked with
    | kept _ other => exact absurd rfl (other _)
    | answered l' t₀ t' part lane' found' ended =>
      rw [h.lane] at lane'
      cases lane'
      rw [saving] at found'
      cases found'
      cases ended
      rw [memory]
      refine ⟨_, after, Tick.accounts_saved owes, fun fails => ?_⟩
      cases owes with
      | again kept => exact congrArg (·.1.complete) kept
      | failed kept => exact congrArg (·.1.complete) kept
      | clean asked => exact absurd rfl (fails _)

theorem Attempt.step (h : Attempt l clock origin j saves s) (coherent : s.Coherent)
    (moves : Moves now s a s') (goes : a ≠ .tick l.direction .finish)
    (alone : ∀ b, b ≠ l.direction → a ≠ .tick b (.saved none)) :
    Attempt l clock origin (j ++ (a.partOf? l.direction).toList)
      (saves ++ (s.enters? l.direction a).toList.filterMap Entry.saved?) s' := by
  obtain ⟨t, found, -⟩ := h.ticking
  rcases moves.memory_cases coherent (coherent.initialised found) with
    ⟨memory, quiet⟩ | ⟨b, next, resume, rfl, saving, memory⟩
  · have nothing : (s.enters? l.direction a).toList.filterMap Entry.saved? = [] := by
      rw [List.filterMap_eq_nil_iff]
      intro entry member
      cases entry with
      | back result => rfl
      | saved state => exact absurd (enters?_eq_saved (Option.mem_toList.mp member)).1 (quiet _)
    rw [nothing, List.append_nil]
    exact h.unsaved coherent moves goes memory (quiet _)
  · by_cases own : b = l.direction
    · subst own
      have part? : (Act.tick l.direction (.saved none : Part γ)).partOf? l.direction =
        some (.saved none) := if_pos rfl
      rw [part?, enters?_of_saving saving]
      exact h.saved coherent moves saving memory
    · exact absurd rfl (alone b own)

theorem Attempt.run (h : Attempt l clock origin [] [] s) (coherent : s.Coherent)
    (ran : s.run u = some s') (same : .tick l.direction .finish ∉ s.acts u)
    (alone : ∀ b, b ≠ l.direction → .tick b (.saved none) ∉ s.acts u) :
    Attempt l clock origin (s.tickParts l.direction u)
      ((s.ledger l.direction u).filterMap Entry.saved?) s' := by
  refine acts_invariant (P := fun u m => Attempt l clock origin (s.tickParts l.direction u)
    ((s.ledger l.direction u).filterMap Entry.saved?) m)
    (K := fun a => a ≠ .tick l.direction .finish ∧
      ∀ b, b ≠ l.direction → a ≠ .tick b (.saved none)) ?_ h coherent ran ?_
  · intro u now e m m' before coherent attempt ⟨goes, alone⟩ moves
    rw [tickParts_concat before, ledger_concat before, List.filterMap_append]
    exact attempt.step coherent moves goes alone
  · refine fun a mem => ⟨?_, fun b ne => ?_⟩
    · rintro rfl
      exact same mem
    · rintro rfl
      exact alone b ne mem

theorem scheduled_of_loop {loop : Loop} (regular : s.fetcher.Regular) (bare : s.fetcher.Bare)
    (ran : s.run t = some s') (found : s'.fetcher.loops.get d = some loop) :
    ∃ base, s.fetcher.config.schedules.get d = some base := by
  have kept := after_invariant (P := fun m => m.fetcher.Regular ∧
    m.fetcher.config = s.fetcher.config ∧ ∀ loop, m.fetcher.loops.get d = some loop →
      ∃ base, s.fetcher.config.schedules.get d = some base) ?_ ⟨regular, rfl, ?_⟩ ran
  · exact kept.2.2 loop found
  · intro now m e m' ⟨regular, config, scheduled⟩ stepped
    have moves := moves_of_step stepped
    refine ⟨moves.regular regular, moves.config_eq.trans config, fun loop found' => ?_⟩
    cases found : m.fetcher.loops.get d with
    | some loop => exact scheduled loop found
    | none =>
      have made := ((shift_of_step regular stepped).made found found').2.2
      rw [config, Config.loop?] at made
      split at made
      · cases made
      · exact ⟨_, ‹_›⟩
  · intro loop found
    rw [(bare d).1] at found
    cases found

theorem lane_of_begin {c : Config} {f : Fetcher γ} {store : Table (State γ)}
    (made : Fetcher.new c = .ok f) (before : (⟨store, f⟩ : System γ).run t = some s)
    (acts : s.act (.turn d clock) = .tick d (.begin clock)) :
    s.fetcher.config = c ∧ (∃ loop, s.fetcher.loops.get d = some loop) ∧
      ∃ l : Lane, c.lane? d = some l ∧ l.direction = d ∧
        c.schedules.get d = some l.schedule := by
  obtain ⟨regular, initial⟩ := regular_of_new made
  have config := (regular_of_run regular before).2.trans initial
  obtain ⟨loop, found⟩ : ∃ loop, s.fetcher.loops.get d = some loop := by
    simp only [act] at acts
    split at acts
    · exact ⟨_, ‹_›⟩
    · cases acts
  obtain ⟨base, scheduled⟩ := scheduled_of_loop regular (bare_of_new made) before found
  rw [initial] at scheduled
  refine ⟨config, ⟨loop, found⟩, ⟨d, base, if d = .forward then c.rate else none⟩, ?_, rfl,
    scheduled⟩
  rw [Config.lane?, scheduled]
  rfl

/-- A tick that comes back with an error, while the other direction saves nothing, leaves in memory
and in the store what it saved last, or both as they were; no direction becomes complete by it.
Where its last save has succeeded, a forward tick changes nothing but its time and, if its fetch
asked for one, the frequency, and a backward tick keeps the cursor of every merge that succeeded,
unless that goes back. -/
theorem failed_tick {c : Config} {f : Fetcher γ} {store : Table (State γ)} {error : Failure}
    (made : Fetcher.new c = .ok f)
    (named : ∀ state, store.get? c.id = some state → state.id = c.id)
    (before : (⟨store, f⟩ : System γ).run t = some s)
    (begins : s.step now (.turn d clock) = some m)
    (acts : s.act (.turn d clock) = .tick d (.begin clock)) (ran : m.run u = some s')
    (same : .tick d .finish ∉ m.acts u) (alone : ∀ b, b ≠ d → .tick b (.saved none) ∉ m.acts u)
    (fails : s'.fetcher.ticks.get d = some (.done (.error error))) :
    ∃ base, c.schedules.get d = some base ∧
      s'.fetcher.memory =
        (((m.ledger d u).filterMap Entry.saved?).getLast?).getD s.fetcher.memory ∧
      s'.stored? = (((m.ledger d u).filterMap Entry.saved?).getLast?).or s.stored? ∧
      (∀ b, (s'.fetcher.memory.job b).complete = (s.fetcher.memory.job b).complete) ∧
      ((m.tickParts d u).getLast? = some (.saved none) →
        (d = .forward → ∃ answer, (m.tickParts d u).filterMap Part.fetch? = [answer] ∧
          s'.fetcher.memory = s.fetcher.memory.setJob .forward
            { s.fetcher.memory.job .forward with
              lastRun := some clock
              frequency := ((Outcome.ofAnswer answer).explicitInterval.map
                (min · base.intervalMax)).getD (s.fetcher.memory.job .forward).frequency }) ∧
        (d = .backward → s'.fetcher.memory.cursor .backward =
          ((m.tickParts d u).filterMap Part.merge?).foldl
            (fun held merge => Direction.backward.guard held merge.cursor)
            (s.fetcher.memory.cursor .backward))) := by
  have start := coherent_of_new made named
  have coherent := start.run before
  have moves := moves_of_step begins
  rw [acts] at moves
  obtain ⟨config, ⟨loop, found⟩, l, lane, rfl, scheduled⟩ := lane_of_begin made before acts
  rw [← config] at lane
  have attempt :=
    (attempt_of_begin coherent lane moves).run (moves.coherent coherent) ran same alone
  obtain ⟨t, tick, accounts, level⟩ := attempt.ticking
  rw [fails] at tick
  cases tick
  have stored := coherent.mirrors.mirrored
    (coherent.mirrors.initialised (Fetcher.not_bare_of_loop found))
  have later := (moves.coherent coherent).run ran
  have stored' := later.mirrors.mirrored (later.initialised fails)
  refine ⟨l.schedule, scheduled, attempt.memory, ?_, ?_, fun last => ?_⟩
  · rw [stored', stored, attempt.memory]
    cases ((m.ledger l.direction u).filterMap Entry.saved?).getLast? <;> rfl
  · intro b
    by_cases own : b = l.direction
    · rw [own]
      exact level (by simp)
    · exact congrArg Job.complete (attempt.others.2 b own).1
  · obtain ⟨kept, once⟩ := accounts last
    refine ⟨fun forward => ?_, fun backward => ?_⟩
    · obtain ⟨answer, fetch, merge, holds⟩ := once forward
      rw [Lane.keeps_of_once fetch merge holds] at kept
      refine ⟨answer, fetch, ?_⟩
      rw [← forward]
      apply (attempt.others.trans (State.sameBut_setJob _ _ _).symm).eq_of_half
      rw [kept, State.half_setJob]
      rfl
    · have cursor := congrArg (·.2) kept
      rw [← backward]
      exact cursor

/-! ## A failure after a merge -/

def cutShort : List (Nat × Event HeightCursor) := [
  (0, .fetched .backward (.ok {})), (0, .merged .backward (.ok ⟨some ⟨90⟩, 9⟩)),
  (0, .judged .backward (.ok true)), (0, .lock .backward), (0, .saved .backward none),
  (0, .fetched .backward (.ok { error := some (.fetch "no answer") })),
  (0, .merged .backward (.ok ⟨some ⟨80⟩, 10⟩)), (0, .lock .backward), (0, .saved .backward none)]

def refused : List (Nat × Event HeightCursor) := [
  (1000, .fetched .forward
    (.ok { error := some (.fetch "no answer"), newInterval := some (.ofSecs 400) })),
  (1000, .lock .forward), (1000, .saved .forward none)]

theorem failed_tick_launched :
    Fetcher.new bothWays = .ok newBothWays ∧
    (∃ s m s' : System HeightCursor,
      (⟨{}, newBothWays⟩ : System HeightCursor).run launched = some s ∧
        s.step 0 (.turn .backward .epoch) = some m ∧ m.run cutShort = some s' ∧
        s'.fetcher.ticks.get .backward = some (.done (.error (.fetch "no answer"))) ∧
        s'.fetcher.memory.cursor .backward = some ⟨80⟩) ∧
    ∃ s m s' : System HeightCursor,
      (⟨{}, newBothWays⟩ : System HeightCursor).run (launched ++ [(1000, .timeout .forward)]) =
          some s ∧
        s.step 1000 (.turn .forward .epoch) = some m ∧ m.run refused = some s' ∧
        s'.fetcher.ticks.get .forward = some (.done (.error (.fetch "no answer"))) ∧
        s'.fetcher.memory = s.fetcher.memory.setJob .forward
          { s.fetcher.memory.job .forward with
            lastRun := some .epoch
            frequency := .ofSecs 300 } := by
  have made : Fetcher.new bothWays = .ok newBothWays := rfl
  have named : ∀ state, ({} : Table (State HeightCursor)).get? bothWays.id = some state →
      state.id = bothWays.id := by
    simp [Table.get?]
  refine ⟨made, ?_, ?_⟩
  · have ends : ((⟨{}, newBothWays⟩ : System HeightCursor).run launched).bind (fun s =>
        (s.step 0 (.turn .backward .epoch)).bind fun m => (m.run cutShort).map fun s' =>
          (s.act (.turn .backward .epoch), m.acts cutShort, s.fetcher.memory.cursor .backward,
            s'.fetcher.ticks.get .backward)) =
        some (.tick .backward (.begin .epoch), [
          .tick .backward (.fetched (.ok {})), .tick .backward (.merged (.ok ⟨some ⟨90⟩, 9⟩)),
          .tick .backward (.judged (.ok true)), .tick .backward .lock,
          .tick .backward (.saved none),
          .tick .backward (.fetched (.ok { error := some (.fetch "no answer") })),
          .tick .backward (.merged (.ok ⟨some ⟨80⟩, 10⟩)), .tick .backward .lock,
          .tick .backward (.saved none)], none, some (.done (.error (.fetch "no answer")))) := rfl
    obtain ⟨s, before, ends⟩ := Option.bind_eq_some_iff.mp ends
    obtain ⟨m, begins, ends⟩ := Option.bind_eq_some_iff.mp ends
    obtain ⟨s', ran, ends⟩ := Option.map_eq_some_iff.mp ends
    simp only [Prod.mk.injEq] at ends
    obtain ⟨acts, did, cursor, fails⟩ := ends
    obtain ⟨_, -, -, -, -, left⟩ := failed_tick made named before begins acts ran
      (by simp [did]) (by intro b ne; cases b <;> simp_all) fails
    have merges := (left (by rw [tickParts, did]; rfl)).2 rfl
    rw [cursor, tickParts, did] at merges
    exact ⟨s, m, s', before, begins, ran, fails, merges⟩
  · have ends : ((⟨{}, newBothWays⟩ : System HeightCursor).run
        (launched ++ [(1000, .timeout .forward)])).bind (fun s =>
          (s.step 1000 (.turn .forward .epoch)).bind fun m => (m.run refused).map fun s' =>
            (s.act (.turn .forward .epoch), m.acts refused, s'.fetcher.ticks.get .forward)) =
        some (.tick .forward (.begin .epoch), [
          .tick .forward (.fetched
            (.ok { error := some (.fetch "no answer"), newInterval := some (.ofSecs 400) })),
          .tick .forward .lock, .tick .forward (.saved none)],
          some (.done (.error (.fetch "no answer")))) := rfl
    obtain ⟨s, before, ends⟩ := Option.bind_eq_some_iff.mp ends
    obtain ⟨m, begins, ends⟩ := Option.bind_eq_some_iff.mp ends
    obtain ⟨s', ran, ends⟩ := Option.map_eq_some_iff.mp ends
    simp only [Prod.mk.injEq] at ends
    obtain ⟨acts, did, fails⟩ := ends
    obtain ⟨base, scheduled, -, -, -, left⟩ := failed_tick made named before begins acts ran
      (by simp [did]) (by intro b ne; cases b <;> simp_all) fails
    cases scheduled
    obtain ⟨answer, fetch, kept⟩ := (left (by rw [tickParts, did]; rfl)).1 rfl
    rw [tickParts, did] at fetch
    cases fetch
    exact ⟨s, m, s', before, begins, ran, fails, kept⟩

end System
end ChainFetch.Fetch
