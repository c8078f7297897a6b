import Mathlib.Logic.Relation
import ChainFetch.Proofs.Fetch.History
/-!
What becomes of a direction's half of the state. Whatever the handler answers, a tick makes of its
copy only what `Edit` lists, and a history of what is stored only what ticks make of it. Main
statements: `stored_of_lives`, and `cursors_keep`, cursors go one way.
-/

namespace ChainFetch

open Fetch

variable {γ : Type}

namespace Direction

variable [Cursor γ] {d : Direction} {a b c : Option γ}

/-- Whether the second cursor is there where the first is, and does not lie behind it. -/
def Keeps (d : Direction) : Option γ → Option γ → Prop
  | none, _ => True
  | some _, none => False
  | some a, some b =>
    match d with
    | forward => Cursor.position a ≤ Cursor.position b
    | backward => Cursor.position b ≤ Cursor.position a

theorem keeps_refl (d : Direction) (a : Option γ) : d.Keeps a a := by
  cases a with
  | none => trivial
  | some a => cases d <;> exact UInt64.le_refl _

theorem Keeps.trans (h : d.Keeps a b) (k : d.Keeps b c) : d.Keeps a c := by
  match a, b, c with
  | none, _, _ => trivial
  | some a, none, _ => cases h
  | some a, some b, none => cases k
  | some a, some b, some c =>
    cases d with
    | forward => exact UInt64.le_trans h k
    | backward => exact UInt64.le_trans k h

theorem keeps_guard (d : Direction) (held next : Option γ) : d.Keeps held (d.guard held next) := by
  match held, next with
  | none, _ => trivial
  | some prev, none => exact d.keeps_refl _
  | some prev, some next =>
    rw [guard]
    split
    · exact d.keeps_refl _
    · rename_i stays
      cases d with
      | forward =>
        simp only [advances, decide_eq_true_eq, UInt64.not_lt] at stays
        exact stays
      | backward =>
        simp only [advances, decide_eq_true_eq, UInt64.not_lt] at stays
        exact stays

end Direction

namespace Fetch

open Relation (ReflTransGen)

/-! ## Edits of one half -/

namespace State

def half (s : State γ) (d : Direction) : Job × Option γ := (s.job d, s.cursor d)

variable {s t : State γ} {d : Direction}

theorem SameHalf.half_eq (h : s.SameHalf d t) : s.half d = t.half d := by
  rw [half, half, h.1, h.2]

theorem half_setJob (s : State γ) (d : Direction) (j : Job) :
    (s.setJob d j).half d = (j, s.cursor d) := by
  simp [half, setJob, job, cursor]

theorem half_setFrequency (s : State γ) (d : Direction) (i : Duration) :
    (s.setFrequency d i).half d = ({ s.job d with frequency := i }, s.cursor d) := half_setJob ..

theorem half_applyMerge [Cursor γ] (s : State γ) (d : Direction) (m : Merge γ) :
    (s.applyMerge d m).half d =
      ({ s.job d with runs := (s.job d).runs + 1 }, d.guard (s.cursor d) m.cursor) := by
  simp [half, applyMerge, setJob, setCursor, job, cursor]

theorem half_adopt (s work : State γ) (d : Direction) : (s.adopt work d).half d = work.half d := by
  rw [half, job_adopt_self, cursor_adopt_self, half]

end State

/-- What a tick does to its half of the state. -/
inductive Edit [Cursor γ] (d : Direction) : Job × Option γ → Job × Option γ → Prop
  | began (j : Job) (c : Option γ) (clock : Option Instant) :
      Edit d (j, c) ({ j with lastRun := clock }, c)
  | paced (j : Job) (c : Option γ) (i : Duration) : Edit d (j, c) ({ j with frequency := i }, c)
  | merged (j : Job) (c next : Option γ) :
      Edit d (j, c) ({ j with runs := j.runs + 1 }, d.guard c next)
  | fellBack (j : Job) (c : Option γ) (backward : d = .backward) :
      Edit d (j, c) ({ j with fallback := true }, c)
  | completed (j : Job) (c : Option γ) (backward : d = .backward) (second : j.fallback = true) :
      Edit d (j, c) ({ j with complete := true }, c)

abbrev Edits [Cursor γ] (d : Direction) : Job × Option γ → Job × Option γ → Prop :=
  ReflTransGen (Edit d)

theorem Edits.keeps [Cursor γ] {d : Direction} {a b : Job × Option γ} (h : Edits d a b) :
    d.Keeps a.2 b.2 := by
  induction h with
  | refl => exact d.keeps_refl _
  | tail _ edit ih =>
    refine ih.trans ?_
    cases edit with
    | merged j c next => exact d.keeps_guard c next
    | _ => exact d.keeps_refl _

namespace Tick

def Edited [Cursor γ] (d : Direction) (h : Job × Option γ) : Tick γ → Prop
  | .fetching work => Edits d h (work.half d)
  | .merging work _ => Edits d h (work.half d)
  | .judging work _ _ => d = .backward ∧ Edits d h (work.half d)
  | .locking work _ => Edits d h (work.half d)
  | .saving next _ => Edits d h (next.half d)
  | .done _ => True

variable [Cursor γ] {l : Lane} {h : Job × Option γ} {memory work next : State γ}

theorem edited_start (l : Lane) (memory : State γ) (clock : Instant) :
    (start l memory clock).Edited l.direction (memory.half l.direction) := by
  unfold start
  dsimp only
  split
  · trivial
  · rw [Edited, State.half_setJob]
    exact .single (.began _ _ _)

theorem edited_settle (edits : Edits l.direction h (work.half l.direction))
    (error : Option Failure) (paced : Bool) (newItems : UInt64) :
    (settle l work error paced newItems).Edited l.direction h := by
  have frequency : ∀ i,
      Edits l.direction h ((work.setFrequency l.direction i).half l.direction) := by
    intro i
    rw [State.half_setFrequency]
    exact edits.tail (.paced _ _ _)
  unfold settle
  split
  · exact edits
  · split
    · exact frequency _
    · exact frequency _
    · exact edits
    · exact edits

theorem edited_pace (edits : Edits l.direction h (work.half l.direction)) (outcome : Outcome γ)
    (error : Option Failure) (newItems : UInt64) :
    (pace l work outcome error newItems).Edited l.direction h := by
  have paced : ∀ {work : State γ}, Edits l.direction h (work.half l.direction) →
      ∀ explicit, (if error.isNone ∧ l.direction = .backward then .judging work explicit newItems
        else settle l work error explicit newItems).Edited l.direction h := by
    intro work edits explicit
    split
    · rename_i asks
      exact ⟨asks.2, edits⟩
    · exact edited_settle edits _ _ _
  cases explicit : outcome.explicitInterval with
  | none =>
    simp only [pace, explicit]
    exact paced edits _
  | some i =>
    simp only [pace, explicit]
    refine paced ?_ _
    rw [State.half_setFrequency]
    exact edits.tail (.paced _ _ _)

theorem edited_fetched (edits : Edits l.direction h (work.half l.direction))
    (a : Except Failure (Outcome γ)) : (fetched l work a).Edited l.direction h := by
  have merging : ∀ outcome : Outcome γ,
      (if l.direction = .backward ∨ outcome.error.isNone then .merging work outcome
        else pace l work outcome outcome.error 0).Edited l.direction h := by
    intro outcome
    split
    · exact edits
    · exact edited_pace edits _ _ _
  rcases a with e | outcome
  · exact merging _
  · exact merging _

theorem edited_merged (edits : Edits l.direction h (work.half l.direction)) (outcome : Outcome γ)
    (a : Except Failure (Merge γ)) : (merged l work outcome a).Edited l.direction h := by
  rcases a with e | merge
  · exact edited_pace edits _ _ _
  · refine edited_pace ?_ _ _ _
    rw [State.half_applyMerge]
    exact edits.tail (.merged _ _ _)

theorem edited_judged (backward : l.direction = .backward)
    (edits : Edits l.direction h (work.half l.direction)) (paced : Bool) (newItems : UInt64)
    (a : Except Failure Bool) : (judged l work paced newItems a).Edited l.direction h := by
  rcases a with e | complete
  · exact edited_settle edits (some e) paced newItems
  · cases complete
    · exact edited_settle edits _ _ _
    · simp only [judged]
      split
      · rename_i second
        refine edited_settle ?_ _ _ _
        rw [State.half_setJob]
        exact edits.tail (.completed _ _ backward second)
      · rw [Edited, State.half_setJob]
        exact edits.tail (.fellBack _ _ backward)

theorem edited_saved (edits : Edits l.direction h (next.half l.direction)) (resume : Resume)
    (fault : Option StoreFailure) : (saved l next resume fault).Edited l.direction h := by
  unfold saved
  split
  · trivial
  · exact edits
  · trivial
  · trivial

theorem Edited.next? {t t' : Tick γ} {part : Part γ} (edited : t.Edited l.direction h)
    (next : t.next? l memory part = some t') : t'.Edited l.direction h := by
  cases t with
  | fetching work =>
    cases part with
    | fetched a =>
      cases next
      exact edited_fetched edited a
    | _ => cases next
  | merging work outcome =>
    cases part with
    | merged a =>
      cases next
      exact edited_merged edited outcome a
    | _ => cases next
  | judging work paced newItems =>
    cases part with
    | judged a =>
      cases next
      exact edited_judged edited.1 edited.2 paced newItems a
    | _ => cases next
  | locking work resume =>
    cases part with
    | lock =>
      cases next
      rw [locked, Edited, State.half_adopt]
      exact edited
    | _ => cases next
  | saving next' resume =>
    cases part with
    | saved fault =>
      cases next
      exact edited_saved edited resume fault
    | _ => cases next
  | done result => cases part <;> cases next

end Tick

namespace System

variable [Cursor γ] {s s' : System γ} {now : Nat} {d : Direction} {m : State γ}
  {t u : List (Nat × Turn γ)}

/-! ## Histories -/

theorem upheld_edited (d : Direction) :
    Upheld (γ := γ) d fun _ memory t => t.Edited d (memory.half d) where
  begin clock direction := direction ▸ Tick.edited_start _ _ clock
  done _ := trivial
  answer _ direction edited next _ := by
    subst direction
    exact edited.next? next
  saved direction _ := by
    subst direction
    exact Tick.edited_saved .refl _ none
  half same edited := same.half_eq ▸ edited

def Edited (s : System γ) : Prop :=
  ∀ d t, s.fetcher.ticks.get d = some t → t.Edited d (s.fetcher.memory.half d)

theorem Edited.live {x : Turn γ} (h : s.Edited) (coherent : s.Coherent)
    (lived : s.live now x = some s') : s'.Edited :=
  fun d => (upheld_edited d).live (j := []) coherent (h d) lived

theorem stored_of_live {x : Turn γ} (coherent : s.Coherent) (h : s.Edited)
    (lived : s.live now x = some s') (stored : s.stored? = some m) :
    ∃ m', s'.stored? = some m' ∧ ∀ d, Edits d (m.half d) (m'.half d) := by
  cases coherent.stores lived with
  | same same => exact ⟨m, same.trans stored, fun _ => .refl⟩
  | created missing fresh =>
    rw [stored] at missing
    cases missing
  | saved b l next resume lane tick held based stored' after =>
    rw [stored] at held
    cases held
    refine ⟨next, stored', fun d => ?_⟩
    by_cases same : d = b
    · rw [same]
      exact h b _ tick
    · rw [State.SameHalf.half_eq (based.2 d same)]

theorem stored_of_lives (coherent : s.Coherent) (h : s.Edited) (lived : s.lives t = some s')
    (stored : s.stored? = some m) :
    ∃ m', s'.stored? = some m' ∧ ∀ d, Edits d (m.half d) (m'.half d) := by
  induction t generalizing s m with
  | nil =>
    cases lived
    exact ⟨m, stored, fun _ => .refl⟩
  | cons x t ih =>
    obtain ⟨now, x⟩ := x
    obtain ⟨n, first, rest⟩ := after_cons_eq_some.mp lived
    obtain ⟨m', here, edits⟩ := stored_of_live coherent h first stored
    obtain ⟨m'', there, edits'⟩ := ih (coherent.live first).1 (h.live coherent first) rest here
    exact ⟨m'', there, fun d => (edits d).trans (edits' d)⟩

theorem edited_of_new {c : Config} {f : Fetcher γ} {store : Table (State γ)}
    (made : Fetcher.new c = .ok f) (coherent : (⟨store, f⟩ : System γ).Coherent) :
    (⟨store, f⟩ : System γ).Edited := by
  intro d t found
  rw [coherent.ticks_eq_none (initialised_of_new made)] at found
  cases found

theorem edited_of_lives (coherent : s.Coherent) (h : s.Edited) (lived : s.lives t = some s') :
    s'.Edited := by
  intro d
  exact (upheld_edited d).lives (j := []) coherent (h d) lived

/-- Every kept state goes on to every later one by what ticks do. -/
theorem kept_of_lives (coherent : s.Coherent) (edited : s.Edited) (lived : s.lives t = some s')
    (kept : m ∈ s.kept) :
    s'.kept ≠ [] ∧ ∀ m' ∈ s'.kept, ∀ d, Edits d (m.half d) (m'.half d) := by
  have later := coherent.lives lived
  obtain ⟨m', stored, edits⟩ := stored_of_lives coherent edited lived (coherent.mem_kept.mp kept)
  refine ⟨List.ne_nil_of_mem (later.mem_kept.mpr stored), ?_⟩
  intro m'' kept'
  rw [later.mem_kept, stored] at kept'
  cases kept'
  exact edits

/-- In every history of fetchers on a store that has the state under its own id, whatever the
handlers answer and whatever fails, a cursor that is kept stays, and none of its direction lies
behind it later. A fetcher that has not loaded its state yet has the one that it was made with, and
no tick. -/
theorem cursors_keep {c : Config} {f : Fetcher γ} {store : Table (State γ)}
    (made : Fetcher.new c = .ok f)
    (named : ∀ state, store.get? c.id = some state → state.id = c.id)
    (before : (⟨store, f⟩ : System γ).lives t = some s) (lived : s.lives u = some s') :
    (∀ m ∈ s.kept, s'.kept ≠ [] ∧
      ∀ m' ∈ s'.kept, ∀ d : Direction, d.Keeps (m.cursor d) (m'.cursor d)) ∧
    ((∀ x ∈ u, ∀ c, x.2 ≠ .restart c) →
      ∀ d : Direction, d.Keeps (s.fetcher.memory.cursor d) (s'.fetcher.memory.cursor d)) ∧
    (s.fetcher.initialised = false →
      s.fetcher.memory = s.fetcher.config.freshState ∧ ∀ d, s.fetcher.ticks.get d = none) := by
  have coherent := coherent_of_new made named
  have edited := edited_of_lives coherent (edited_of_new made coherent) before
  have coherent := coherent.lives before
  have later := coherent.lives lived
  have keeps : ∀ m ∈ s.kept,
      s'.kept ≠ [] ∧ ∀ m' ∈ s'.kept, ∀ d : Direction, d.Keeps (m.cursor d) (m'.cursor d) := by
    intro m kept
    obtain ⟨some, edits⟩ := kept_of_lives coherent edited lived kept
    exact ⟨some, fun m' kept' d => (edits m' kept' d).keeps⟩
  have untouched : s.fetcher.initialised = false →
      s.fetcher.memory = s.fetcher.config.freshState ∧ ∀ d, s.fetcher.ticks.get d = none :=
    fun new => ⟨(coherent.mirrors.untouched new).1, coherent.ticks_eq_none new⟩
  refine ⟨keeps, ?_, untouched⟩
  intro one d
  cases loaded : s.fetcher.initialised with
  | true =>
    have held := coherent.mem_kept.mpr (coherent.mirrors.mirrored loaded)
    have held' := later.mem_kept.mpr
      (later.mirrors.mirrored (initialised_of_lives lived one loaded))
    exact (keeps _ held).2 _ held' d
  | false =>
    rw [(untouched loaded).1]
    cases d <;> trivial

def fallenBehind : List (Nat × Turn HeightCursor) :=
  Turn.events [
    (1000, .timeout .forward), (1000, .turn .forward .epoch), (1001, .fetched .forward (.ok {})),
    (1001, .merged .forward (.ok ⟨some ⟨90⟩, 0⟩)), (1002, .lock .forward),
    (1002, .saved .forward none)] ++
  (1003, .restart bothWays) ::
  Turn.events [(1003, .call .init), (1003, .advance 0 none), (1003, .advance 0 none)]

theorem cursors_keep_fallenBehind : ∃ s s' : System HeightCursor,
    Fetcher.new bothWays = .ok newBothWays ∧
      (⟨{}, newBothWays⟩ : System HeightCursor).lives (Turn.events launched) = some s ∧
      s.lives fallenBehind = some s' ∧ s'.fetcher.memory.cursors = ⟨some ⟨100⟩, none⟩ ∧
      ∀ m ∈ s.kept, s'.kept ≠ [] ∧
        ∀ m' ∈ s'.kept, ∀ d : Direction, d.Keeps (m.cursor d) (m'.cursor d) := by
  have made : Fetcher.new bothWays = .ok newBothWays := rfl
  have ends : ((⟨{}, newBothWays⟩ : System HeightCursor).lives (Turn.events launched)).bind
      (fun s => (s.lives fallenBehind).map (·.fetcher.memory.cursors)) =
        some ⟨some ⟨100⟩, none⟩ := rfl
  obtain ⟨s, before, rest⟩ := Option.bind_eq_some_iff.mp ends
  obtain ⟨s', lived, cursors⟩ := Option.map_eq_some_iff.mp rest
  refine ⟨s, s', made, before, lived, cursors, ?_⟩
  exact (cursors_keep made (by simp [Table.get?]) before lived).1

end System
end Fetch
end ChainFetch
