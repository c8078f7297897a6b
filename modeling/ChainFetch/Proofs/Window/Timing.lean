import ChainFetch.Proofs.Driver
import ChainFetch.Proofs.Window.Timetable
/-!
When a driver's operations come and end under virtual time. At one instant the polls that have an
answer may be made in any order; the clock goes on only when none has one. Main statements:
`Punctual.pick`, in every order a rehearsed window keeps to the timetable, `keeps_time`, its outputs
and its end, and `wider_window`, a wider window ends nothing later.
-/

namespace ChainFetch.Rehearsal

/-- What happens next in a rehearsed window, where several things may: the source is polled, or an
operation in flight, or the clock goes on. -/
inductive Pick
  | source
  | flight (k : Nat)
  | clock
  deriving DecidableEq

namespace WindowPlay

variable {p p' p'' : WindowPlay} {limit k t : Nat} {errands before : List Errand} {e : Errand}
  {x : Pick} {picks : List Pick} {span : Span}

def pollSource (p : WindowPlay) : Option WindowPlay :=
  if p.window.isOpen then
    match p.source, p.comes? with
    | [], _ => p.window.close?.map fun w => { p with window := w }
    | e :: _, none => some { p with comes? := some (p.now + e.gap.ceilMillis) }
    | e :: rest, some t =>
      if t ≤ p.now then
        (p.window.pull? ⟨p.now, p.now + e.delay.ceilMillis⟩).map fun w =>
          { p with window := w, source := rest, comes? := none }
      else none
  else none

def pick (p : WindowPlay) : Pick → Option WindowPlay
  | .source => p.pollSource
  | .flight k =>
    (p.window.get? k).bind fun span =>
      if span.finished ≤ p.now then
        (p.window.complete? k span).map fun w => { p with window := w }
      else none
  | .clock => if p.program.isNone then (world.nextAlarm? p).map (world.setNow · p) else none

def run (p : WindowPlay) (picks : List Pick) : Option WindowPlay := picks.foldlM pick p

def start (limit : Nat) (errands : List Errand) : WindowPlay :=
  { source := errands, window := .new limit }

/-- A rehearsal of `errands`, in any order, after which nothing can happen. -/
def Ends (limit : Nat) (errands : List Errand) (p : WindowPlay) : Prop :=
  (∃ picks, (start limit errands).run picks = some p) ∧ ∀ x, p.pick x = none

theorem run_cons_eq_some :
    p.run (x :: picks) = some p'' ↔ ∃ p', p.pick x = some p' ∧ p'.run picks = some p'' := by
  unfold run
  rw [List.foldlM_cons]
  exact Option.bind_eq_some_iff

inductive Goes (p : WindowPlay) : WindowPlay → Prop
  | asks {e : Errand} {rest : List Errand} (opened : p.window.isOpen = true)
      (source : p.source = e :: rest) (unasked : p.comes? = none) :
      Goes p { p with comes? := some (p.now + e.gap.ceilMillis) }
  | pulls {e : Errand} {rest : List Errand} {t : Nat} {w : Window Span Span}
      (source : p.source = e :: rest) (comes : p.comes? = some t) (due : t ≤ p.now)
      (done : p.window.pull? ⟨p.now, p.now + e.delay.ceilMillis⟩ = some w) :
      Goes p { p with window := w, source := rest, comes? := none }
  | closes {w : Window Span Span} (source : p.source = []) (done : p.window.close? = some w) :
      Goes p { p with window := w }
  | completes {k : Nat} {span : Span} {w : Window Span Span} (held : p.window.get? k = some span)
      (due : span.finished ≤ p.now) (done : p.window.complete? k span = some w) :
      Goes p { p with window := w }
  | waits {t : Nat} (idle : p.program = none) (next : world.nextAlarm? p = some t) :
      Goes p { p with now := t }

theorem goes_of_pick (h : p.pick x = some p') : p.Goes p' := by
  cases x with
  | source =>
    obtain ⟨opened, h⟩ := Option.ite_none_right_eq_some.mp h
    split at h
    · rename_i source
      obtain ⟨w, done, rfl⟩ := Option.map_eq_some_iff.mp h
      exact .closes source done
    · rename_i source unasked
      cases h
      exact .asks opened source unasked
    · rename_i source comes
      obtain ⟨due, h⟩ := Option.ite_none_right_eq_some.mp h
      obtain ⟨w, done, rfl⟩ := Option.map_eq_some_iff.mp h
      exact .pulls source comes due done
  | flight k =>
    obtain ⟨span, held, h⟩ := Option.bind_eq_some_iff.mp h
    obtain ⟨due, h⟩ := Option.ite_none_right_eq_some.mp h
    obtain ⟨w, done, rfl⟩ := Option.map_eq_some_iff.mp h
    exact .completes held due done
  | clock =>
    obtain ⟨idle, h⟩ := Option.ite_none_right_eq_some.mp h
    obtain ⟨t, next, rfl⟩ := Option.map_eq_some_iff.mp h
    exact .waits (Option.isNone_iff_eq_none.mp idle) next

/-! ## Where nothing can happen -/

theorem program_eq : p.program =
    match p.window.running.find? (·.2.finished ≤ p.now) with
    | some (k, span) => (p.window.complete? k span).map fun w => { p with window := w }
    | none => p.pollSource := rfl

theorem program_eq_none_iff : p.program = none ↔
    (∀ r ∈ p.window.running, p.now < r.2.finished) ∧ p.pollSource = none := by
  rw [program_eq]
  cases found : p.window.running.find? (·.2.finished ≤ p.now) with
  | none =>
    have ahead : ∀ r ∈ p.window.running, p.now < r.2.finished :=
      fun r member => by simpa using List.find?_eq_none.mp found r member
    exact ⟨fun silent => ⟨ahead, silent⟩, fun h => h.2⟩
  | some r =>
    obtain ⟨k, span⟩ := r
    have member := List.mem_of_find?_eq_some found
    have due : span.finished ≤ p.now := by simpa using List.find?_some found
    have completes : (p.window.complete? k span).isSome :=
      Window.complete?_isSome_iff.mpr ⟨span, member⟩
    obtain ⟨w, done⟩ := Option.isSome_iff_exists.mp completes
    constructor
    · intro stuck
      rw [Option.map_eq_none_iff, done] at stuck
      cases stuck
    · rintro ⟨ahead, -⟩
      exact absurd (ahead _ member) (Nat.not_lt.mpr due)

theorem coming_of_pollSource (silent : p.pollSource = none) (opened : p.window.isOpen = true) :
    ∃ t, p.comes? = some t ∧ p.now < t := by
  rw [pollSource, if_pos opened] at silent
  split at silent
  · simp [Window.close?, opened] at silent
  · cases silent
  · rename_i comes
    split at silent
    · simp [Window.pull?, opened] at silent
    · rename_i early
      exact ⟨_, comes, Nat.lt_of_not_le early⟩

theorem pick_eq_none_of_program (idle : p.program = none) (moves : x ≠ .clock) :
    p.pick x = none := by
  obtain ⟨ahead, silent⟩ := program_eq_none_iff.mp idle
  cases x with
  | source => exact silent
  | flight k =>
    rw [pick, Option.bind_eq_none_iff]
    intro span held
    obtain ⟨r, found, same⟩ := Option.map_eq_some_iff.mp held
    have early := ahead r (List.mem_of_find?_eq_some found)
    rw [same] at early
    exact if_neg (Nat.not_le.mpr early)
  | clock => exact absurd rfl moves

theorem exists_pick_of_program (numbered : p.window.Numbered) (h : p.program = some p') :
    ∃ x, p.pick x = some p' := by
  rw [program_eq] at h
  split at h
  · rename_i k span found
    have held := numbered.get?_eq_some_iff.mpr (List.mem_of_find?_eq_some found)
    have due : span.finished ≤ p.now := by simpa using List.find?_some found
    exact ⟨.flight k, by rw [pick, held, Option.bind_some, if_pos due, h]⟩
  · exact ⟨.source, h⟩

theorem pick_eq_none_iff (numbered : p.window.Numbered) :
    (∀ x, p.pick x = none) ↔ p.program = none ∧ world.nextAlarm? p = none := by
  constructor
  · intro stuck
    have idle : p.program = none := by
      cases going : p.program with
      | none => rfl
      | some p' =>
        obtain ⟨x, picked⟩ := exists_pick_of_program numbered going
        rw [stuck x] at picked
        cases picked
    have waits := stuck .clock
    rw [pick, idle, Option.isNone_none, if_pos rfl, Option.map_eq_none_iff] at waits
    exact ⟨idle, waits⟩
  · rintro ⟨idle, quiet⟩ x
    by_cases clock : x = .clock
    · subst clock
      rw [pick, quiet, Option.map_none, ite_self]
    · exact pick_eq_none_of_program idle clock

theorem nextAlarm?_cases (next : world.nextAlarm? p = some t) :
    p.now < t ∧ (p.comes? = some t ∨ ∃ r ∈ p.window.running, r.2.finished = t) ∧
      (∀ u, p.comes? = some u → p.now < u → t ≤ u) ∧
      ∀ r ∈ p.window.running, p.now < r.2.finished → t ≤ r.2.finished := by
  obtain ⟨member, least⟩ := List.min?_eq_some_iff.mp next
  obtain ⟨alarm, later⟩ := List.mem_filter.mp member
  have least : ∀ a ∈ world.alarms p, p.now < a → t ≤ a :=
    fun a ha later => least a (List.mem_filter.mpr ⟨ha, decide_eq_true later⟩)
  simp only [world, List.mem_append, Option.mem_toList, List.mem_map] at alarm least
  refine ⟨of_decide_eq_true later, alarm, fun u comes => least u (Or.inl comes), fun r hr => ?_⟩
  exact least _ (Or.inr ⟨r, hr, rfl⟩)

/-! ## Keeping to the timetable -/

theorem perm_of_follows {w : Window Span Span} {ops : List Span} {ended : Prop}
    (follows : w.Follows limit ops w.outputs ended)
    (brought : ∀ o ∈ w.outputs, ops[o.1]? = some o.2) :
    (w.outputs ++ w.running).Perm (ops.mapIdx Prod.mk) := by
  have apart : ∀ o ∈ w.outputs, ∀ r ∈ w.running, o.1 ≠ r.1 := by
    intro o ho r hr same
    obtain ⟨-, fresh⟩ := (follows.mem_running_iff r.1 r.2).mp hr
    exact fresh (same ▸ List.mem_map_of_mem ho)
  have nodup : (w.outputs ++ w.running).Nodup := by
    refine List.Nodup.of_map Prod.fst ?_
    rw [List.map_append, List.nodup_append]
    refine ⟨follows.nodup, follows.numbered.distinct, ?_⟩
    intro a ha b hb
    obtain ⟨o, ho, rfl⟩ := List.mem_map.mp ha
    obtain ⟨r, hr, rfl⟩ := List.mem_map.mp hb
    exact apart o ho r hr
  have within : w.outputs ++ w.running ⊆ ops.mapIdx Prod.mk := by
    intro x member
    have found : ops[x.1]? = some x.2 := by
      rcases List.mem_append.mp member with out | running
      · exact brought x out
      · exact ((follows.mem_running_iff x.1 x.2).mp running).1
    obtain ⟨bound, same⟩ := List.getElem?_eq_some_iff.mp found
    exact List.mem_mapIdx.mpr ⟨x.1, bound, by rw [same]⟩
  refine (List.subperm_of_subset nodup within).perm_of_length_le ?_
  have all := follows.conserved
  rw [List.length_append, List.length_mapIdx]
  omega

/-- A rehearsed window that has handed over the operations of `before` keeps to their timetable.
Nothing in flight is overdue, and an operation asked for comes when the timetable says. -/
structure Punctual (limit : Nat) (before : List Errand) (p : WindowPlay) : Prop where
  follows : p.window.Follows limit (timetable limit before) p.window.outputs
    (p.window.exhausted = true)
  brought : ∀ o ∈ p.window.outputs, (timetable limit before)[o.1]? = some o.2
  past : ∀ o ∈ p.window.outputs, o.2.finished ≤ p.now
  ahead : ∀ r ∈ p.window.running, p.now ≤ r.2.finished
  inOrder : p.window.outputs.Pairwise fun o o' => o.2.finished ≤ o'.2.finished
  ended : p.window.exhausted = true → p.source = []
  asked : ∀ t, p.comes? = some t → p.now ≤ t ∧ p.window.isOpen = true ∧
    ∃ e rest, p.source = e :: rest ∧
      t = askedAt (max limit 1) (timetable limit before) + e.gap.ceilMillis
  unasked : p.comes? = none → p.source ≠ [] →
    p.now ≤ askedAt (max limit 1) (timetable limit before)
  handed : lastYielded (timetable limit before) ≤ p.now
  busy : p.now ≤ lastFinished (timetable limit before) ∨ p.comes?.isSome

theorem punctual_start : (start limit errands).Punctual limit [] where
  follows := by simpa [start, timetable, Window.new] using Window.follows_new limit
  brought := by simp [start, Window.new]
  past := by simp [start, Window.new]
  ahead := by simp [start, Window.new]
  inOrder := List.Pairwise.nil
  ended := by simp [start, Window.new]
  asked := by simp [start]
  unasked _ _ := Nat.zero_le _
  handed := Nat.le_refl _
  busy := Or.inl (Nat.zero_le _)

theorem Punctual.countP_eq (h : p.Punctual limit before) (q : Nat → Bool) :
    ((timetable limit before).map Span.finished).countP q =
      p.window.outputs.countP (fun o => q o.2.finished) +
        p.window.running.countP fun r => q r.2.finished := by
  have same : (timetable limit before).map Span.finished =
      ((timetable limit before).mapIdx Prod.mk).map fun x => x.2.finished :=
    List.ext_getElem (by simp) (by simp)
  rw [same, List.countP_map, ← (perm_of_follows h.follows h.brought).countP_eq, List.countP_append]
  rfl

theorem Punctual.now_eq (h : p.Punctual limit before) (opened : p.window.isOpen = true)
    (source : p.source ≠ []) (unasked : p.comes? = none) :
    p.now = askedAt (max limit 1) (timetable limit before) := by
  refine Nat.le_antisymm (h.unasked unasked source) ?_
  have handed := h.handed
  have room : (if max limit 1 ≤ (timetable limit before).length then
      nthLeast ((timetable limit before).map Span.finished)
        ((timetable limit before).length - max limit 1) else 0) ≤ p.now := by
    split
    · rw [nthLeast_le_iff (by rw [List.length_map]; omega), h.countP_eq]
      have all : p.window.outputs.countP (fun o => decide (o.2.finished ≤ p.now)) =
          p.window.outputs.length := by
        rw [List.countP_eq_length]
        exact fun o ho => by simpa using h.past o ho
      have few := (h.follows.isOpen_iff.mp opened).2
      omega
    · exact Nat.zero_le _
  unfold askedAt
  omega

theorem Punctual.asks {rest : List Errand} (h : p.Punctual limit before)
    (opened : p.window.isOpen = true) (source : p.source = e :: rest) (unasked : p.comes? = none) :
    ({ p with comes? := some (p.now + e.gap.ceilMillis) } : WindowPlay).Punctual limit before := by
  have now := h.now_eq opened (by simp [source]) unasked
  refine { h with asked := ?_, unasked := by simp, busy := by simp }
  rintro t ⟨⟩
  exact ⟨Nat.le_add_right _ _, opened, e, rest, source, by rw [← now]⟩

theorem Punctual.pulls {rest : List Errand} {w : Window Span Span} (h : p.Punctual limit before)
    (source : p.source = e :: rest) (comes : p.comes? = some t) (due : t ≤ p.now)
    (done : p.window.pull? ⟨p.now, p.now + e.delay.ceilMillis⟩ = some w) :
    ({ p with window := w, source := rest, comes? := none } : WindowPlay).Punctual limit
      (before ++ [e]) := by
  obtain ⟨early, opened, e', rest', source', when⟩ := h.asked t comes
  rw [source] at source'
  cases source'
  have follows := h.follows.pull? done
  obtain ⟨-, rfl⟩ := Window.pull?_cases done
  have grown : timetable limit (before ++ [e]) =
      timetable limit before ++ [⟨p.now, p.now + e.delay.ceilMillis⟩] := by
    rw [timetable_concat, Errand.span, ← when, Nat.le_antisymm early due]
  have last : lastYielded (timetable limit (before ++ [e])) = p.now := by
    simp [grown, lastYielded]
  rw [← grown] at follows
  refine
    { follows
      brought := ?_
      past := h.past
      ahead := ?_
      inOrder := h.inOrder
      ended := ?_
      asked := by simp
      unasked := ?_
      handed := Nat.le_of_eq last
      busy := Or.inl ?_ }
  · intro o ho
    have found := h.brought o ho
    obtain ⟨bound, -⟩ := List.getElem?_eq_some_iff.mp found
    rw [grown, List.getElem?_append_left bound, found]
  · intro r hr
    rcases List.mem_append.mp hr with hr | hr
    · exact h.ahead r hr
    · rw [List.mem_singleton.mp hr]
      exact Nat.le_add_right _ _
  · intro closed
    have closed : p.window.exhausted = true := closed
    simp [Window.isOpen, closed] at opened
  · intro _ _
    exact Nat.le_trans (Nat.le_of_eq last.symm) (Nat.le_max_left _ _)
  · refine Nat.le_trans (Nat.le_add_right _ e.delay.ceilMillis) (le_latest ?_)
    simp [grown]

theorem Punctual.closes {w : Window Span Span} (h : p.Punctual limit before)
    (source : p.source = []) (done : p.window.close? = some w) :
    ({ p with window := w } : WindowPlay).Punctual limit before := by
  have follows := h.follows.close? done
  obtain ⟨-, rfl⟩ := Window.close?_cases done
  refine { h with follows := by simpa using follows, ended := fun _ => source, asked := ?_ }
  intro t comes
  obtain ⟨-, -, e, rest, more, -⟩ := h.asked t comes
  rw [source] at more
  cases more

theorem Punctual.completes {w : Window Span Span} (h : p.Punctual limit before)
    (held : p.window.get? k = some span) (due : span.finished ≤ p.now)
    (done : p.window.complete? k span = some w) :
    ({ p with window := w } : WindowPlay).Punctual limit before := by
  have member := h.follows.numbered.get?_eq_some_iff.mp held
  have follows := h.follows.complete? done
  have fewer := h.follows.numbered.length_filter member
  have now := Nat.le_antisymm (h.ahead _ member) due
  obtain rfl := Window.complete?_cases done
  refine
    { follows
      brought := ?_
      past := ?_
      ahead := fun r hr => h.ahead r (List.mem_filter.mp hr).1
      inOrder := ?_
      ended := h.ended
      asked := ?_
      unasked := h.unasked
      handed := h.handed
      busy := h.busy }
  · intro o ho
    rcases List.mem_append.mp ho with ho | ho
    · exact h.brought o ho
    · rw [List.mem_singleton.mp ho]
      exact ((h.follows.mem_running_iff k span).mp member).1
  · intro o ho
    rcases List.mem_append.mp ho with ho | ho
    · exact h.past o ho
    · rw [List.mem_singleton.mp ho]
      exact due
  · refine List.pairwise_append.mpr ⟨h.inOrder, List.pairwise_singleton _ _, ?_⟩
    intro o ho o' ho'
    rw [List.mem_singleton.mp ho', ← now]
    exact h.past o ho
  · intro u comes
    obtain ⟨early, opened, more⟩ := h.asked u comes
    refine ⟨early, ?_, more⟩
    simp only [Window.isOpen, Bool.and_eq_true, decide_eq_true_eq] at opened ⊢
    exact ⟨opened.1, by omega⟩

/-- The clock never passes an instant at which something is due. -/
theorem Punctual.waits (h : p.Punctual limit before) (idle : p.program = none)
    (next : world.nextAlarm? p = some t) :
    ({ p with now := t } : WindowPlay).Punctual limit before := by
  obtain ⟨later, alarm, first, firsts⟩ := nextAlarm?_cases next
  obtain ⟨ahead, silent⟩ := program_eq_none_iff.mp idle
  have upTo : ∀ r ∈ p.window.running, t ≤ r.2.finished := fun r hr => firsts r hr (ahead r hr)
  refine { h with past := ?_, ahead := upTo, asked := ?_, unasked := ?_, handed := ?_, busy := ?_ }
  · exact fun o ho => Nat.le_trans (h.past o ho) (Nat.le_of_lt later)
  · intro u comes
    obtain ⟨-, opened, more⟩ := h.asked u comes
    obtain ⟨u', comes', early⟩ := coming_of_pollSource silent opened
    rw [comes] at comes'
    cases comes'
    exact ⟨first u comes early, opened, more⟩
  · -- The source is not asked as the window is full, and no operation in flight ends before `t`.
    intro unasked source
    have full : p.window.outputs.length + max limit 1 ≤ (timetable limit before).length := by
      rw [← Nat.not_lt]
      intro room
      obtain ⟨_, comes, -⟩ := coming_of_pollSource silent
        (h.follows.isOpen_iff.mpr ⟨fun ended => source (h.ended ended), room⟩)
      rw [unasked] at comes
      cases comes
    have none : p.window.running.countP (fun r => decide (r.2.finished < t)) = 0 := by
      rw [List.countP_eq_zero]
      exact fun r hr => by simpa using upTo r hr
    have some := List.countP_le_length (l := p.window.outputs)
      (p := fun o => decide (o.2.finished < t))
    change t ≤ _
    refine Nat.le_trans ?_ (Nat.le_max_right _ _)
    rw [if_pos (by omega), le_nthLeast_iff (by rw [List.length_map]; omega), h.countP_eq]
    omega
  · exact Nat.le_trans h.handed (Nat.le_of_lt later)
  · rcases alarm with comes | ⟨r, hr, rfl⟩
    · exact Or.inr (by simp [comes])
    · refine Or.inl (le_latest (List.mem_map.mpr ⟨r.2, ?_, rfl⟩))
      exact List.mem_of_getElem? ((h.follows.mem_running_iff r.1 r.2).mp hr).1

theorem Punctual.pick (h : p.Punctual limit before) (picked : p.pick x = some p') :
    ∃ handed, p'.Punctual limit (before ++ handed) ∧ p.source = handed ++ p'.source := by
  cases goes_of_pick picked with
  | asks opened source unasked =>
    exact ⟨[], by simpa using h.asks opened source unasked, rfl⟩
  | @pulls e rest t w source comes due done =>
    exact ⟨[e], h.pulls source comes due done, source⟩
  | closes source done => exact ⟨[], by simpa using h.closes source done, rfl⟩
  | completes held due done => exact ⟨[], by simpa using h.completes held due done, rfl⟩
  | waits idle next => exact ⟨[], by simpa using h.waits idle next, rfl⟩

/-! ## How long it takes -/

theorem countP_later_lt {alarms : List Nat} {now : Nat} (member : t ∈ alarms) (later : now < t) :
    alarms.countP (t < ·) < alarms.countP (now < ·) := by
  have fewer (l : List Nat) : l.countP (t < ·) ≤ l.countP (now < ·) :=
    List.countP_mono_left fun a _ above => by simp at above ⊢; omega
  obtain ⟨a, b, rfl⟩ := List.append_of_mem member
  have first := fewer a
  have rest := fewer b
  simp only [List.countP_append, List.countP_cons, later, Nat.lt_irrefl, decide_true, decide_false,
    if_true, Bool.false_eq_true, if_false]
  omega

/-- Steps that a rehearsed window can take at most: for each operation of the source five, of which
an operation asked for has had its first, for one in flight its end, one for the end of the source
and one for each instant still to come. -/
def left (p : WindowPlay) : Nat :=
  5 * p.source.length - 2 * p.comes?.isSome.toNat + p.window.running.length +
    (!p.window.exhausted).toNat + (world.alarms p).countP (p.now < ·)

theorem left_start : (start limit errands).left = 5 * errands.length + 1 := by
  simp [left, start, Window.new, world]

theorem Punctual.left_lt (h : p.Punctual limit before) (picked : p.pick x = some p') :
    p'.left < p.left := by
  cases goes_of_pick picked with
  | @asks e rest opened source unasked =>
    have one := List.countP_le_length (l := [p.now + e.gap.ceilMillis]) (p := (p.now < ·))
    simp only [left, world, source, unasked, List.countP_append, Option.toList, List.countP_nil,
      List.length_cons, Option.isSome, Bool.toNat_true, Bool.toNat_false]
    simp only [List.length_cons, List.length_nil] at one
    omega
  | @pulls e rest t w source comes due done =>
    obtain ⟨-, rfl⟩ := Window.pull?_cases done
    have one := List.countP_le_length (l := [p.now + e.delay.ceilMillis]) (p := (p.now < ·))
    simp only [left, world, source, comes, List.countP_append, Option.toList, List.countP_nil,
      List.length_cons, Option.isSome, Bool.toNat_true, Bool.toNat_false, List.length_append,
      List.map_append, List.map_cons, List.map_nil, List.length_nil]
    simp only [List.length_cons, List.length_nil] at one
    omega
  | closes source done =>
    obtain ⟨opened, rfl⟩ := Window.close?_cases done
    have more : p.window.exhausted = false := by
      simp only [Window.isOpen, Bool.and_eq_true, Bool.not_eq_true'] at opened
      exact opened.1
    simp only [left, world, more, Bool.not_false, Bool.not_true, Bool.toNat_true, Bool.toNat_false]
    omega
  | @completes k span w held due done =>
    have member := h.follows.numbered.get?_eq_some_iff.mp held
    have fewer := h.follows.numbered.length_filter member
    have later : (p.window.running.filter (·.1 ≠ k)).countP (fun r => p.now < r.2.finished) ≤
        p.window.running.countP fun r => p.now < r.2.finished :=
      List.filter_sublist.countP_le
    obtain rfl := Window.complete?_cases done
    simp only [left, world, List.countP_append, List.countP_map, Function.comp_def]
    omega
  | @waits t idle next =>
    obtain ⟨later, alarm, -⟩ := nextAlarm?_cases next
    have member : t ∈ world.alarms p := by
      simp only [world, List.mem_append, Option.mem_toList, List.mem_map]
      exact alarm
    have fewer := countP_later_lt member later
    simp only [left]
    exact Nat.add_lt_add_left fewer _

/-! ## Whole rehearsals -/

theorem Punctual.run (h : p.Punctual limit before) (ran : p.run picks = some p') :
    ∃ handed, p'.Punctual limit (before ++ handed) ∧ p.source = handed ++ p'.source ∧
      picks.length + p'.left ≤ p.left := by
  induction picks generalizing p before with
  | nil =>
    cases ran
    exact ⟨[], by simpa using h, rfl, by simp⟩
  | cons x picks ih =>
    obtain ⟨m, picked, ran⟩ := run_cons_eq_some.mp ran
    obtain ⟨first, here, source⟩ := h.pick picked
    obtain ⟨rest, there, source', steps⟩ := ih here ran
    have step := h.left_lt picked
    refine ⟨first ++ rest, by rwa [← List.append_assoc], ?_, ?_⟩
    · rw [source, source', List.append_assoc]
    · rw [List.length_cons]
      omega

theorem Punctual.isDone (h : p.Punctual limit before) (stuck : ∀ x, p.pick x = none) :
    p.source = [] ∧ p.comes? = none ∧ p.window.isDone = true := by
  obtain ⟨idle, quiet⟩ := (pick_eq_none_iff h.follows.numbered).mp stuck
  obtain ⟨ahead, silent⟩ := program_eq_none_iff.mp idle
  have quiet : ∀ a ∈ world.alarms p, ¬ p.now < a := by
    intro a member later
    have none := List.min?_eq_none_iff.mp quiet
    exact List.ne_nil_of_mem (List.mem_filter.mpr ⟨member, decide_eq_true later⟩) none
  simp only [world, List.mem_append, Option.mem_toList, List.mem_map] at quiet
  have empty : p.window.running = [] := by
    rw [List.eq_nil_iff_forall_not_mem]
    exact fun r hr => quiet _ (Or.inr ⟨r, hr, rfl⟩) (ahead r hr)
  have closed : p.window.isOpen = false := by
    rw [← Bool.not_eq_true]
    intro opened
    obtain ⟨t, comes, later⟩ := coming_of_pollSource silent opened
    exact quiet t (Or.inl comes) later
  have done : p.window.isDone = true := Window.isDone_iff_idle.mpr ⟨closed, empty⟩
  refine ⟨h.ended (h.follows.isDone_iff.mp done).1, ?_, done⟩
  cases comes : p.comes? with
  | none => rfl
  | some t =>
    obtain ⟨-, opened, -⟩ := h.asked t comes
    rw [closed] at opened
    cases opened

theorem Ends.punctual (h : Ends limit errands p) :
    p.Punctual limit errands ∧ p.comes? = none ∧ p.window.isDone = true := by
  obtain ⟨⟨picks, ran⟩, stuck⟩ := h
  obtain ⟨handed, here, source, -⟩ := punctual_start.run ran
  obtain ⟨empty, rest⟩ := here.isDone stuck
  have all : [] ++ handed = errands := by simpa [start, empty] using source.symm
  rw [all] at here
  exact ⟨here, rest⟩

theorem Ends.perm (h : Ends limit errands p) :
    p.window.outputs.Perm ((timetable limit errands).mapIdx Prod.mk) := by
  obtain ⟨here, -, done⟩ := h.punctual
  have all := perm_of_follows here.follows here.brought
  rwa [(Window.isDone_iff_idle.mp done).2, List.append_nil] at all

theorem Ends.now_eq (h : Ends limit errands p) :
    p.now = lastFinished (timetable limit errands) := by
  obtain ⟨here, unasked, -⟩ := h.punctual
  refine Nat.le_antisymm (by simpa [unasked] using here.busy) (latest_le_iff.mpr ?_)
  intro a member
  obtain ⟨span, found, rfl⟩ := List.mem_map.mp member
  obtain ⟨i, bound, rfl⟩ := List.mem_iff_getElem.mp found
  exact here.past (i, _) (h.perm.mem_iff.mpr (List.mem_mapIdx.mpr ⟨i, bound, rfl⟩))

theorem Ends.numbers (h : Ends limit errands p) :
    (p.window.outputs.map Prod.fst).Perm (List.range errands.length) := by
  have same : ((timetable limit errands).mapIdx Prod.mk).map Prod.fst =
      List.range errands.length :=
    List.ext_getElem (by simp [length_timetable]) (by simp)
  rw [← same]
  exact h.perm.map Prod.fst

theorem Ends.getElem?_eq (h : Ends limit errands p) (brought : (k, span) ∈ p.window.outputs) :
    (timetable limit errands)[k]? = some span :=
  h.punctual.1.brought _ brought

theorem takes_of_pick (picked : p.pick x = some p') :
    p'.window = p.window ∨ ∃ poll, p.window.Takes poll p'.window := by
  cases goes_of_pick picked with
  | asks => exact Or.inl rfl
  | pulls source comes due done => exact Or.inr ⟨_, .pulls done⟩
  | closes source done => exact Or.inr ⟨_, .closes done⟩
  | completes held due done => exact Or.inr ⟨_, .completes done⟩
  | waits => exact Or.inl rfl

theorem run_of_picks {polls : List (Poll Span Span)}
    (before : (Driver.new limit).run polls = some (.turn p.window)) (ran : p.run picks = some p') :
    ∃ polls, (Driver.new limit).run polls = some (.turn p'.window) := by
  induction picks generalizing p polls with
  | nil =>
    cases ran
    exact ⟨polls, before⟩
  | cons x picks ih =>
    obtain ⟨m, picked, ran⟩ := run_cons_eq_some.mp ran
    rcases takes_of_pick picked with same | ⟨poll, takes⟩
    · exact ih (by rwa [same]) ran
    · exact ih (Driver.run_concat_eq_some.mpr ⟨_, before, Driver.step_of_takes takes⟩) ran

theorem Ends.returned (h : Ends limit errands p) :
    ∃ polls : List (Poll Span Span),
      (Driver.new limit).run polls = some (.returned p.window.outputs) := by
  obtain ⟨-, -, done⟩ := h.punctual
  obtain ⟨picks, ran⟩ := h.1
  have first : (Driver.new limit).run ([] : List (Poll Span Span)) =
      some (.turn (start limit errands).window) := rfl
  obtain ⟨polls, driven⟩ := run_of_picks first ran
  exact ⟨polls, by rw [driven, Driver.turn_eq_returned_iff.mpr ⟨done, rfl⟩]⟩

theorem Punctual.world_run (h : p.Punctual limit before) {fuel : Nat} (enough : p.left ≤ fuel)
    (scriptTurn : Bool) : ∃ picks, p.run picks = some (world.run fuel scriptTurn p) ∧
      ∀ x, (world.run fuel scriptTurn p).pick x = none := by
  induction fuel generalizing p before scriptTurn with
  | zero =>
    refine ⟨[], rfl, fun x => ?_⟩
    cases picked : p.pick x with
    | none => exact picked
    | some p' =>
      have less := h.left_lt picked
      omega
  | succ fuel ih =>
    -- Both the program's steps and the clock's are picks; the window has no script.
    have goes {x : Pick} {m : WindowPlay} (picked : p.pick x = some m)
        (next : world.run (fuel + 1) scriptTurn p = world.run fuel false m) :
        ∃ picks, p.run picks = some (world.run (fuel + 1) scriptTurn p) ∧
          ∀ x, (world.run (fuel + 1) scriptTurn p).pick x = none := by
      obtain ⟨handed, here, -⟩ := h.pick picked
      have less := h.left_lt picked
      obtain ⟨picks, ran, stuck⟩ := ih here (by omega) false
      rw [next]
      exact ⟨x :: picks, run_cons_eq_some.mpr ⟨m, picked, ran⟩, stuck⟩
    cases going : p.program with
    | some m =>
      obtain ⟨x, picked⟩ := exists_pick_of_program h.follows.numbered going
      exact goes picked (by cases scriptTurn <;> simp [World.run, world, going])
    | none =>
      cases next : world.nextAlarm? p with
      | some t =>
        have picked : p.pick .clock = some (world.setNow t p) := by
          rw [WindowPlay.pick, going, Option.isNone_none, if_pos rfl, next, Option.map_some]
        refine goes picked ?_
        cases scriptTurn <;> simp [World.run, show world.program p = none from going,
          show world.script p = none from rfl, next]
      | none =>
        have stays : world.run (fuel + 1) scriptTurn p = p := by
          cases scriptTurn <;> simp [World.run, show world.program p = none from going,
            show world.script p = none from rfl, next]
        rw [stays]
        exact ⟨[], rfl, (pick_eq_none_iff h.follows.numbered).mpr ⟨going, next⟩⟩

theorem ends_driveWindow (limit : Nat) (errands : List Errand) :
    ∃ p, Ends limit errands p ∧ driveWindow limit errands = (p.window.outputs, p.now) := by
  have enough : (start limit errands).left ≤ windowFuel errands := by
    rw [left_start, windowFuel]
    omega
  obtain ⟨picks, ran, stuck⟩ := punctual_start.world_run enough false
  exact ⟨_, ⟨⟨picks, ran⟩, stuck⟩, rfl⟩

/-- The operations come and end as the timetable says. Whatever is picked where several things may
happen, a rehearsal ends, having brought all operations in the order in which they end, at the
instant at which the last of them does; and its driver has come back. -/
theorem keeps_time (limit : Nat) (errands : List Errand) :
    ((timetable limit errands).length = errands.length ∧ ∀ i (e : Errand), errands[i]? = some e →
      (timetable limit errands)[i]? =
        some (e.span (askedAt (max limit 1) ((timetable limit errands).take i)))) ∧
    (∀ picks p, (start limit errands).run picks = some p →
      picks.length ≤ 5 * errands.length + 1) ∧
    (∀ p, Ends limit errands p →
      p.window.outputs.Perm ((timetable limit errands).mapIdx Prod.mk) ∧
      p.window.outputs.Pairwise (fun o o' => o.2.finished ≤ o'.2.finished) ∧
      p.now = lastFinished (timetable limit errands) ∧
      ∃ polls : List (Poll Span Span),
        (Driver.new limit).run polls = some (.returned p.window.outputs)) ∧
    ∃ p, Ends limit errands p ∧ driveWindow limit errands = (p.window.outputs, p.now) := by
  refine ⟨⟨length_timetable, fun i e => getElem?_timetable⟩, ?_, ?_, ends_driveWindow limit errands⟩
  · intro picks p ran
    obtain ⟨-, -, -, steps⟩ := punctual_start.run ran
    rw [left_start] at steps
    omega
  · intro p ended
    exact ⟨ended.perm, ended.punctual.1.inOrder, ended.now_eq, ended.returned⟩

example : timetable 2 [⟨.ofMillis 1, .ofMillis 9⟩, ⟨.ofMillis 1, .ofMillis 2⟩, ⟨.zero, .ofMillis 8⟩,
    ⟨.ofMillis 3, .ofMillis 1⟩] = [⟨1, 10⟩, ⟨2, 4⟩, ⟨4, 12⟩, ⟨13, 14⟩] := by cbv

/-- Both of two results have `n` operations, each once. In the second none of them comes or ends
later than in the first, and it is reached no later. -/
structure NoSlower (n : Nat) (narrow wide : List (Nat × Span) × Nat) : Prop where
  narrow_numbers : (narrow.1.map Prod.fst).Perm (List.range n)
  wide_numbers : (wide.1.map Prod.fst).Perm (List.range n)
  noLater : ∀ k a b, (k, a) ∈ narrow.1 → (k, b) ∈ wide.1 → b.NoLater a
  done : wide.2 ≤ narrow.2

theorem Ends.noSlower {limit' : Nat} (narrow : Ends limit errands p) (wide : Ends limit' errands p')
    (wider : limit ≤ limit') :
    NoSlower errands.length (p.window.outputs, p.now) (p'.window.outputs, p'.now) where
  narrow_numbers := narrow.numbers
  wide_numbers := wide.numbers
  noLater := by
    intro k a b late early
    obtain ⟨bound, rfl⟩ := List.getElem?_eq_some_iff.mp (narrow.getElem?_eq late)
    obtain ⟨bound', rfl⟩ := List.getElem?_eq_some_iff.mp (wide.getElem?_eq early)
    exact (timetable_mono wider errands).get bound' bound
  done := by
    change p'.now ≤ p.now
    rw [narrow.now_eq, wide.now_eq]
    exact lastFinished_mono (timetable_mono wider errands)

/-- A wider window makes nothing later, whatever is picked in either rehearsal. -/
theorem wider_window {limit limit' : Nat} (wider : limit ≤ limit') (errands : List Errand) :
    (∀ p p', Ends limit errands p → Ends limit' errands p' →
      NoSlower errands.length (p.window.outputs, p.now) (p'.window.outputs, p'.now)) ∧
    NoSlower errands.length (driveWindow limit errands) (driveWindow limit' errands) := by
  refine ⟨fun p p' narrow wide => narrow.noSlower wide wider, ?_⟩
  obtain ⟨p, narrow, same⟩ := ends_driveWindow limit errands
  obtain ⟨p', wide, same'⟩ := ends_driveWindow limit' errands
  rw [same, same']
  exact narrow.noSlower wide wider

def longFirst : List Errand := [⟨.zero, .ofMillis 10⟩, ⟨.ofMillis 1, .ofMillis 5⟩]

/-- In the wider window the short operation does not wait for the long one. -/
theorem wider_window_longFirst :
    driveWindow 1 longFirst = ([(0, ⟨0, 10⟩), (1, ⟨11, 16⟩)], 16) ∧
    driveWindow 2 longFirst = ([(1, ⟨1, 6⟩), (0, ⟨0, 10⟩)], 10) ∧
    NoSlower longFirst.length (driveWindow 1 longFirst) (driveWindow 2 longFirst) :=
  ⟨by decide +kernel, by decide +kernel, (wider_window (show 1 ≤ 2 by decide) longFirst).2⟩

end WindowPlay
end ChainFetch.Rehearsal
