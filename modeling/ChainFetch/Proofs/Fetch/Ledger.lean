import ChainFetch.Proofs.Fetch.Completion
import ChainFetch.Proofs.Fetch.Shifts
/-!
The ledger of a direction: what its ticks save and with what they come back, in their order. Main
statements: `any_isSuccess_ledger`, a loop has its first success ahead until there is one in the
ledger, `sameHalf_last`, the direction's half of what is stored is that of the last state entered,
and `exists_firstSuccess`, a forward success comes right after the save of its tick.
-/

namespace ChainFetch.Fetch

open Schedule (Loop Signal)

variable {γ : Type}

theorem append_toList_cases {α : Type} {j early later : List α} {new : Option α} {x : α}
    (h : j ++ new.toList = early ++ x :: later) :
    (new = some x ∧ later = [] ∧ j = early) ∨
      ∃ later', later = later' ++ new.toList ∧ j = early ++ x :: later' := by
  cases new with
  | none =>
    rw [Option.toList_none, List.append_nil] at h
    exact Or.inr ⟨later, by simp, h⟩
  | some y =>
    rw [Option.toList_some] at h
    rcases List.eq_nil_or_concat later with rfl | ⟨later', z, rfl⟩
    · obtain ⟨rfl, same⟩ := List.append_inj' h rfl
      cases same
      exact Or.inl ⟨rfl, rfl, rfl⟩
    · rw [List.concat_eq_append, ← List.cons_append, ← List.append_assoc] at h
      obtain ⟨rfl, same⟩ := List.append_inj' h rfl
      cases same
      exact Or.inr ⟨later', List.concat_eq_append, rfl⟩

/-- What is entered of the ticks of one direction. -/
inductive Entry (γ : Type)
  | saved (state : State γ)
  | back (result : Except Failure Signal)

namespace Entry

def isSuccess : Entry γ → Bool
  | .back (.ok _) => true
  | _ => false

def saved? : Entry γ → Option (State γ)
  | .saved state => some state
  | _ => none

end Entry

/-- The first success in a ledger is that of the tick that saved `gating`, and `later` follows. -/
def FirstSuccess (j : List (Entry γ)) (gating : State γ) (later : List (Entry γ)) : Prop :=
  ∃ early signal, j = early ++ .saved gating :: .back (.ok signal) :: later ∧
    early.any Entry.isSuccess = false

theorem Tick.Awaits.result? {t : Tick γ} (h : t.Awaits) : t.result? = none := by
  cases t with
  | done result => exact h.elim
  | _ => rfl

theorem Tick.result?_next? [Cursor γ] {l : Lane} {memory : State γ} {t t' : Tick γ} {part : Part γ}
    (next : t.next? l memory part = some t') (free : t.saves? = none) : t'.result? = none := by
  cases t with
  | fetching work =>
    cases part with
    | fetched a =>
      cases next
      exact (awaits_fetched _ _ _).result?
    | _ => cases next
  | merging work outcome =>
    cases part with
    | merged a =>
      cases next
      exact (awaits_merged _ _ _ _).result?
    | _ => cases next
  | judging work paced newItems =>
    cases part with
    | judged a =>
      cases next
      exact (awaits_judged _ _ _ _ _).result?
    | _ => cases next
  | locking work resume =>
    cases part with
    | lock =>
      cases next
      rfl
    | _ => cases next
  | saving next resume => cases free
  | done result => cases part <;> cases next

theorem Tick.saved_of_next? [Cursor γ] {l : Lane} {memory : State γ} {t : Tick γ} {part : Part γ}
    {signal : Signal} (next : t.next? l memory part = some (.done (.ok signal))) :
    ∃ state asked, t = .saving state (.finish none asked) ∧ part = .saved none ∧
      signal = if (state.job l.direction).complete then .stop
        else asked.getD (.interval (state.job l.direction).frequency) := by
  cases t with
  | saving state resume =>
    cases part with
    | saved fault =>
      have ended := Option.some.inj next
      unfold saved at ended
      split at ended
      · cases ended
      · cases ended
      · cases ended
      · cases ended
        exact ⟨state, _, rfl, rfl, rfl⟩
    | _ => cases next
  | _ =>
    have going := Tick.result?_next? next rfl
    cases going

namespace System

variable {s s' m : System γ} {now : Nat} {a : Act γ} {e : Event γ} {d : Direction} {l : Loop}
  {t : List (Nat × Event γ)}

/-! ## Entries -/

def enters? (s : System γ) (d : Direction) : Act γ → Option (Entry γ)
  | .tick b (.saved none) => if b = d then (s.fetcher.saves? d).map .saved else none
  | .tick b .finish =>
    if b = d then ((s.fetcher.ticks.get d).bind Tick.result?).map .back else none
  | _ => none

def ledger [Cursor γ] (s : System γ) (d : Direction) (t : List (Nat × Event γ)) :
    List (Entry γ) :=
  (labels step (fun m e => m.enters? d (m.act e)) s t).filterMap id

theorem acts_concat [Cursor γ] (ran : s.run t = some m) (now : Nat) (e : Event γ) :
    s.acts (t ++ [(now, e)]) = s.acts t ++ [m.act e] :=
  labels_concat ran now e

theorem ledger_concat [Cursor γ] (ran : s.run t = some m) (now : Nat) (e : Event γ) :
    s.ledger d (t ++ [(now, e)]) = s.ledger d t ++ (m.enters? d (m.act e)).toList :=
  filterMap_labels_concat ran now e

theorem enters?_of_ne {b : Direction} (other : b ≠ d) (part : Part γ) :
    s.enters? d (.tick b part) = none := by
  cases part with
  | saved fault =>
    cases fault with
    | none => exact if_neg other
    | some e => rfl
  | finish => exact if_neg other
  | _ => rfl

theorem enters?_of_other (other : ∀ part, a ≠ .tick d part) : s.enters? d a = none := by
  cases a with
  | tick b part => exact enters?_of_ne (fun same => other part (by rw [same])) part
  | _ => rfl

theorem enters?_of_saving {state : State γ} {resume : Resume}
    (found : s.fetcher.ticks.get d = some (.saving state resume)) :
    s.enters? d (.tick d (.saved none)) = some (.saved state) := by
  simp [enters?, Fetcher.saves?, found, Tick.saves?]

theorem enters?_eq_back {result : Except Failure Signal} :
    s.enters? d a = some (.back result) ↔ s.finished? a = some (d, result) := by
  cases a with
  | other => simp [enters?, finished?]
  | load state => simp [enters?, finished?]
  | tick b part =>
    cases part with
    | finish =>
      simp only [enters?, finished?]
      by_cases own : b = d
      · subst own
        rw [if_pos rfl]
        cases (s.fetcher.ticks.get b).bind Tick.result? <;> simp
      · rw [if_neg own]
        cases (s.fetcher.ticks.get b).bind Tick.result? <;> simp [own]
    | saved fault =>
      cases fault with
      | some e => simp [enters?, finished?]
      | none =>
        simp only [enters?, finished?]
        split <;> simp
    | _ => simp [enters?, finished?]

theorem enters?_eq_saved {state : State γ} (h : s.enters? d a = some (.saved state)) :
    a = .tick d (.saved none) ∧ s.fetcher.saves? d = some state := by
  by_cases own : ∃ part, a = .tick d part
  · obtain ⟨part, rfl⟩ := own
    cases part with
    | saved fault =>
      cases fault with
      | some e => cases h
      | none =>
        simp only [enters?, if_pos] at h
        exact ⟨rfl, by simpa using h⟩
    | finish =>
      simp only [enters?, if_pos] at h
      obtain ⟨result, -, back⟩ := Option.map_eq_some_iff.mp h
      cases back
    | _ => cases h
  · cases a with
    | tick b part =>
      have other : b ≠ d := by
        rintro rfl
        exact own ⟨part, rfl⟩
      rw [enters?_of_ne other] at h
      cases h
    | _ => cases h

theorem any_isSuccess_enters? : (s.enters? d a).toList.any Entry.isSuccess = true ↔
    ∃ signal, s.finished? a = some (d, .ok signal) := by
  rw [List.any_eq_true]
  constructor
  · rintro ⟨entry, member, success⟩
    cases entry with
    | saved state => cases success
    | back result =>
      cases result with
      | error e => cases success
      | ok signal => exact ⟨signal, enters?_eq_back.mp (Option.mem_toList.mp member)⟩
  · rintro ⟨signal, back⟩
    exact ⟨_, Option.mem_toList.mpr (enters?_eq_back.mpr back), rfl⟩

theorem done_of_finished? {result : Except Failure Signal}
    (back : s.finished? a = some (d, result)) :
    s.fetcher.ticks.get d = some (.done result) := by
  cases a with
  | tick b part =>
    cases part with
    | finish =>
      obtain ⟨r, ended, same⟩ := Option.map_eq_some_iff.mp back
      obtain ⟨tick, found, ended⟩ := Option.bind_eq_some_iff.mp ended
      cases same
      cases tick with
      | done r =>
        cases ended
        exact found
      | _ => cases ended
    | _ => cases back
  | _ => cases back

/-! ## Runs -/

section Runs

variable [Cursor γ]

theorem Coherent.run (h : s.Coherent) (ran : s.run t = some s') : s'.Coherent :=
  after_invariant (fun h stepped => (moves_of_step stepped).coherent h) h ran

/-- What the steps of a run keep, of the events so far and the system that they lead to, where all
that the run does is of one kind. -/
theorem acts_invariant {P : List (Nat × Event γ) → System γ → Prop} {K : Act γ → Prop}
    (keeps : ∀ {u now e m m'}, s.run u = some m → m.Coherent → P u m → K (m.act e) →
      Moves now m (m.act e) m' → P (u ++ [(now, e)]) m')
    (start : P [] s) (coherent : s.Coherent) (ran : s.run t = some m)
    (kind : ∀ a ∈ s.acts t, K a) : P t m := by
  refine after_history (P := fun u m => (∀ a ∈ s.acts u, K a) → P u m) ?_ (fun _ => start)
    ran kind
  intro u now e m m' before holds stepped kind
  rw [acts_concat before, List.forall_mem_append] at kind
  exact keeps before (coherent.run before) (holds kind.1) (kind.2 _ List.mem_cons_self)
    (moves_of_step stepped)

/-- What the steps of a run keep as long as the tick of a direction does not come back. -/
theorem unfinished_invariant {P : List (Nat × Event γ) → System γ → Prop}
    (keeps : ∀ {u now e m m'}, s.run u = some m → m.Coherent → P u m →
      m.act e ≠ .tick d .finish → Moves now m (m.act e) m' → P (u ++ [(now, e)]) m')
    (start : P [] s) (coherent : s.Coherent) (ran : s.run t = some m)
    (unfinished : .tick d .finish ∉ s.acts t) : P t m :=
  acts_invariant (K := (· ≠ .tick d .finish)) keeps start coherent ran
    fun _ mem finished => unfinished (finished ▸ mem)

theorem any_isSuccess_ledger (coherent : s.Coherent) (bare : s.fetcher.Bare)
    (ran : s.run t = some s') :
    (s.ledger d t).any Entry.isSuccess = (s'.fetcher.loops.get d).any (!·.firstRun) := by
  refine after_history (P := fun t m =>
    (s.ledger d t).any Entry.isSuccess = (m.fetcher.loops.get d).any (!·.firstRun)) ?_ ?_ ran
  · intro t now e m m' before counted stepped
    have regular := (coherent.run before).regular
    have shift := shift_of_step regular stepped
    have quiet : (∀ signal, m.finished? (m.act e) ≠ some (d, .ok signal)) →
        (m.enters? d (m.act e)).toList.any Entry.isSuccess = false := by
      intro other
      rw [Bool.eq_false_iff, ne_eq, any_isSuccess_enters?]
      rintro ⟨signal, back⟩
      exact other signal back
    rw [ledger_concat before, List.any_append, counted]
    cases found : m.fetcher.loops.get d with
    | none =>
      rw [quiet]
      · cases made : m'.fetcher.loops.get d with
        | none => rfl
        | some l =>
          obtain ⟨-, -, first, -⟩ := shift.appears found made
          simp [first]
      · intro signal back
        rw [back] at shift
        obtain ⟨l, present, -⟩ := shift.found regular
        rw [found] at present
        cases present
    | some l =>
      obtain ⟨l', found', follows⟩ := shift.follows regular found
      rw [found']
      rcases follows.firstRun with ⟨signal, back, first⟩ | ⟨other, same⟩
      · simp [any_isSuccess_enters?.mpr ⟨signal, back⟩, first]
      · simp [quiet other, same]
  · rw [(bare d).1]
    rfl

theorem enters?_of_saved (coherent : s.Coherent) (stepped : s.step now (.saved d none) = some s') :
    ∃ state, s.enters? d (s.act (.saved d none)) = some (.saved state) ∧
      s'.stored? = some state := by
  have later := (moves_of_step stepped).coherent coherent
  obtain ⟨l, state, resume, lane, tick, ⟨_, fault, -⟩ | ⟨-, rfl⟩⟩ := saved_cases stepped
  · cases fault
  refine ⟨state, ?_, ?_⟩
  · exact enters?_of_saving tick
  · exact later.mirrors.mirrored (later.initialised (Both.get_set_self _ d _))

theorem saved?_enters?_of_ne (other : e ≠ .saved d none) :
    (s.enters? d (s.act e)).toList.filterMap Entry.saved? = [] := by
  rw [List.filterMap_eq_nil_iff]
  intro entry member
  cases entry with
  | back result => rfl
  | saved state =>
    exact absurd (eq_saved_of_act (enters?_eq_saved (Option.mem_toList.mp member)).1) other

theorem sameHalf_of_step {held : State γ} (coherent : s.Coherent)
    (stepped : s.step now e = some s') (other : e ≠ .saved d none)
    (stored : s.stored? = some held) :
    ∃ held', s'.stored? = some held' ∧ held'.SameHalf d held := by
  cases coherent.stores (x := .event e) stepped with
  | same same => exact ⟨held, same.trans stored, rfl, rfl⟩
  | created missing =>
    rw [stored] at missing
    cases missing
  | saved b l state resume lane tick memory based stored' =>
    have ne : d ≠ b := by
      rintro rfl
      exact other rfl
    rw [stored] at memory
    cases memory
    exact ⟨state, stored', based.2 d ne⟩

theorem sameHalf_last {next : State γ} (coherent : s.Coherent) (ran : s.run t = some s')
    (last : ((s.ledger d t).filterMap Entry.saved?).getLast? = some next) :
    ∃ held, s'.stored? = some held ∧ held.SameHalf d next := by
  refine after_history (P := fun t m => ∀ next,
    ((s.ledger d t).filterMap Entry.saved?).getLast? = some next →
      ∃ held, m.stored? = some held ∧ held.SameHalf d next) ?_ ?_ ran next last
  · intro t now e m m' before kept stepped next last
    have here := coherent.run before
    rw [ledger_concat before, List.filterMap_append] at last
    by_cases own : e = .saved d none
    · subst own
      obtain ⟨state, entry, stored⟩ := enters?_of_saved here stepped
      rw [entry] at last
      have same : state = next := by simpa [Entry.saved?] using last
      exact ⟨state, stored, by rw [same]; exact ⟨rfl, rfl⟩⟩
    · rw [saved?_enters?_of_ne own, List.append_nil] at last
      obtain ⟨held, stored, half⟩ := kept next last
      obtain ⟨held', stored', same⟩ := sameHalf_of_step here stepped own stored
      exact ⟨held', stored', same.1.trans half.1, same.2.trans half.2⟩
  · intro next last
    cases last

theorem incomplete_of_run (coherent : s.Coherent) (edited : s.Edited) (bare : s.fetcher.Bare)
    (ran : s.run t = some s') (found : s'.fetcher.loops.get .forward = some l) :
    (s'.fetcher.memory.job .forward).complete = false := by
  refine (after_invariant (P := fun m => (m.Coherent ∧ m.Edited) ∧
    ∀ l, m.fetcher.loops.get .forward = some l →
      (m.fetcher.memory.job .forward).complete = false) ?_ ⟨⟨coherent, edited⟩, ?_⟩ ran).2 l found
  · intro now m e m' ⟨⟨coherent, edited⟩, going⟩ stepped
    have coherent' := (moves_of_step stepped).coherent coherent
    refine ⟨⟨coherent', edited.live (x := .event e) coherent stepped⟩, ?_⟩
    intro l' found'
    cases found : m.fetcher.loops.get .forward with
    | none => exact ((shift_of_step coherent.regular stepped).appears found found').2.2.2
    | some l =>
      have stored := coherent.mirrors.mirrored
        (coherent.mirrors.initialised (Fetcher.not_bare_of_loop found))
      have stored' := coherent'.mirrors.mirrored
        (coherent'.mirrors.initialised (Fetcher.not_bare_of_loop found'))
      obtain ⟨held, later, edits⟩ := stored_of_live (x := .event e) coherent edited stepped stored
      rw [stored'] at later
      cases later
      exact ((edits .forward).goesOn.forward rfl).2.trans (going l found)
  · intro l found
    rw [(bare .forward).1] at found
    cases found

theorem Moves.done_cases {signal : Signal} (moves : Moves now s a s')
    (going : signal = .stop →
      ∀ l, s.fetcher.loops.get d = some l → (s.fetcher.memory.job d).complete = false)
    (done : s'.fetcher.ticks.get d = some (.done (.ok signal))) :
    (s.fetcher.ticks.get d = some (.done (.ok signal)) ∧ s.enters? d a = none) ∨
      ∃ state asked, a = .tick d (.saved none) ∧
        s.fetcher.ticks.get d = some (.saving state (.finish none asked)) ∧
        signal = if (state.job d).complete then .stop
          else asked.getD (.interval (state.job d).frequency) := by
  have ticked := moves.ticked d
  generalize x : s'.fetcher.ticks.get d = after at ticked
  rw [x] at done
  cases ticked with
  | kept _ other => exact Or.inl ⟨done, enters?_of_other other⟩
  | begun clock loop found ready =>
    have ended := Option.some.inj done
    rw [Fetcher.begun] at ended
    split at ended
    · rename_i l lane
      rw [Tick.start, direction_of_lane? lane] at ended
      split at ended
      · rename_i complete
        cases ended
        rw [going rfl loop found] at complete
        cases complete
      · cases ended
    · cases ended
  | answered l t t' part lane found next =>
    cases done
    obtain ⟨state, asked, rfl, rfl, signal⟩ := Tick.saved_of_next? next
    rw [direction_of_lane? lane] at signal
    exact Or.inr ⟨state, asked, rfl, found, signal⟩
  | back result found => cases done

theorem saved_of_done {signal : Signal} (coherent : s.Coherent) (edited : s.Edited)
    (bare : s.fetcher.Bare) (ran : s.run t = some s')
    (done : s'.fetcher.ticks.get .forward = some (.done (.ok signal))) :
    ∃ early state, s.ledger .forward t = early ++ [.saved state] := by
  refine after_history (P := fun t m => ∀ signal,
    m.fetcher.ticks.get .forward = some (.done (.ok signal)) →
      ∃ early state, s.ledger .forward t = early ++ [.saved state]) ?_ ?_ ran signal done
  · intro t now e m m' before saved stepped signal done
    rw [ledger_concat before]
    have going := fun l => incomplete_of_run (l := l) coherent edited bare before
    rcases (moves_of_step stepped).done_cases (fun _ => going) done with
      ⟨same, none⟩ | ⟨state, asked, acts, found, -⟩
    · obtain ⟨early, state, before⟩ := saved signal same
      exact ⟨early, state, by rw [none, before]; simp⟩
    · exact ⟨s.ledger .forward t, state, by rw [acts, enters?_of_saving found]; rfl⟩
  · intro signal done
    rw [coherent.regular.ticks_eq_none (bare .forward).1] at done
    cases done

/-- Every forward success in the ledger comes right after the save of its tick. -/
theorem saved_of_success {signal : Signal} {early later : List (Entry γ)} (coherent : s.Coherent)
    (edited : s.Edited) (bare : s.fetcher.Bare) (ran : s.run t = some s')
    (entered : s.ledger .forward t = early ++ .back (.ok signal) :: later) :
    ∃ older state, early = older ++ [.saved state] := by
  refine after_history (P := fun t _ => ∀ early signal later,
    s.ledger .forward t = early ++ .back (.ok signal) :: later →
      ∃ older state, early = older ++ [.saved state]) ?_ ?_ ran early signal later entered
  · intro t now e m m' before saved stepped early signal later entered
    rw [ledger_concat before] at entered
    rcases append_toList_cases entered with ⟨new, -, rfl⟩ | ⟨later', -, older⟩
    · exact saved_of_done coherent edited bare before (done_of_finished? (enters?_eq_back.mp new))
    · exact saved early signal later' older
  · intro early signal later entered
    simp [ledger, labels] at entered

theorem exists_firstSuccess (coherent : s.Coherent) (edited : s.Edited) (bare : s.fetcher.Bare)
    (ran : s.run t = some s') (success : (s.ledger .forward t).any Entry.isSuccess = true) :
    ∃ gating later, FirstSuccess (s.ledger .forward t) gating later := by
  obtain ⟨x, found⟩ :=
    Option.isSome_iff_exists.mp (List.find?_isSome.mpr (List.any_eq_true.mp success))
  obtain ⟨first, early, later, entered, none⟩ := List.find?_eq_some_iff_append.mp found
  cases x with
  | saved state => cases first
  | back result =>
    cases result with
    | error e => cases first
    | ok signal =>
      obtain ⟨older, gating, rfl⟩ := saved_of_success coherent edited bare ran entered
      refine ⟨gating, later, older, signal, ?_, ?_⟩
      · rw [entered, List.append_assoc, List.singleton_append]
      · rw [List.any_eq_false]
        intro y member
        simpa using none y (List.mem_append_left _ member)

/-- From the first success on, what is stored of a direction is that of the tick which brought it or
of a later one. -/
theorem sameHalf_of_firstSuccess {gating : State γ} {later : List (Entry γ)} (coherent : s.Coherent)
    (ran : s.run t = some s') (first : FirstSuccess (s.ledger d t) gating later) :
    ∃ held, s'.stored? = some held ∧
      held.SameHalf d ((later.filterMap Entry.saved?).getLastD gating) := by
  obtain ⟨early, signal, entered, -⟩ := first
  apply sameHalf_last coherent ran
  rw [entered, List.filterMap_append, List.getLast?_append]
  simp [Entry.saved?, List.getLast?_cons, List.getLastD_eq_getLast?]

end Runs

end System
end ChainFetch.Fetch
