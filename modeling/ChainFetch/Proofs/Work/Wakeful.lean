import ChainFetch.Proofs.Work.Moves
/-!
A debounced pool does not sleep on work. Whatever is queued while a pass runs is still to be read,
is owed by something that the pass has read, or is new work that will begin another pass. Main
statements: `Moves.wakeful`, and `not_unread_or_owes_of_total`, a pass that is not made again has
left nothing.
-/

namespace ChainFetch.Work

open Schedule (Loop Signal)

variable {α : Type}

/-- Whether a batch has come to something after which the pass is made again. -/
def Retries : Except Failure Report → Prop
  | .ok r => 0 < r.kept
  | .error _ => True

theorem Report.kept_add (a b : Report) : (a.add b).kept = a.kept + b.kept := rfl

theorem Report.not_retries_of_total {outputs : List (Except Failure Report)} {total : Report}
    (totals : Report.total outputs = .ok total) (none : total.kept = 0) :
    ∀ o ∈ outputs, ¬ Retries o := by
  induction outputs generalizing total with
  | nil => simp
  | cons o outputs ih =>
    cases o with
    | error e => cases totals
    | ok r =>
      unfold Report.total at totals
      cases rest : Report.total outputs with
      | error e =>
        rw [rest] at totals
        cases totals
      | ok total' =>
        rw [rest] at totals
        cases totals
        rw [Report.kept_add] at none
        have others := ih rest (by omega)
        intro o member
        rcases List.mem_cons.mp member with rfl | member
        · simp only [Retries]
          omega
        · exact others o member

namespace Batch

variable {b b' : Batch α} {shown : List (Item α)} {taken : List Position} {r : Position}

def held : Batch α → List Position
  | checking unchecked satisfied remaining =>
    unchecked.map Item.position ++ satisfied ++ remaining.map Item.position
  | clearing satisfied remaining => satisfied ++ remaining.map Item.position
  | handling items => items.map Item.position
  | verifying unverified completed _ => unverified.map Item.position ++ completed
  | removing completed _ => completed
  | done _ => []

/-- Whether a batch is bound to come to something after which the pass is made again. -/
def WillRetry : Batch α → Prop
  | verifying _ _ report => 0 < report.kept
  | removing _ report => 0 < report.kept
  | done result => Retries result
  | _ => False

theorem held_handle (items : List (Item α)) : (handle items).held = items.map Item.position := by
  cases items <;> rfl

theorem held_check (unchecked : List (Item α)) (satisfied : List Position)
    (remaining : List (Item α)) : (check unchecked satisfied remaining).held =
      unchecked.map Item.position ++ satisfied ++ remaining.map Item.position := by
  cases unchecked with
  | cons i unchecked => rfl
  | nil =>
    cases satisfied with
    | nil => exact held_handle remaining
    | cons p satisfied => rfl

theorem held_verify (unverified : List (Item α)) (completed : List Position) (report : Report) :
    (verify unverified completed report).held = unverified.map Item.position ++ completed := by
  cases unverified with
  | cons i unverified => rfl
  | nil => cases completed <;> rfl

theorem willRetry_verify (unverified : List (Item α)) (completed : List Position)
    (report : Report) : (verify unverified completed report).WillRetry ↔ 0 < report.kept := by
  cases unverified with
  | cons i unverified => rfl
  | nil => cases completed <;> rfl

theorem held_start (items : List (Item α)) : (start items).held = items.map Item.position := by
  rw [start, held_check]
  simp

theorem Moves.held (m : Moves b shown taken b') (hr : r ∈ b.held) :
    r ∈ taken ∨ r ∈ b'.held ∨ b'.WillRetry := by
  cases m with
  | prechecked i unchecked satisfied remaining a =>
    refine Or.inr (Or.inl ?_)
    rcases a with e | satisfies
    · rw [Batch.prechecked, held_check]
      simp only [Batch.held, List.map_cons, List.map_append, List.mem_append, List.mem_cons] at hr ⊢
      tauto
    · cases satisfies
      · rw [Batch.prechecked, held_check]
        simp only [Batch.held, List.map_cons, List.map_append, List.mem_append,
          List.mem_cons] at hr ⊢
        tauto
      · rw [Batch.prechecked, held_check]
        simp only [Batch.held, List.map_cons, List.mem_append, List.mem_cons] at hr ⊢
        tauto
  | cleared remaining =>
    rw [held_handle]
    rcases List.mem_append.mp hr with hr | hr
    · exact Or.inl hr
    · exact Or.inr (Or.inl hr)
  | handled items a =>
    refine Or.inr ?_
    rcases a with e | hint
    · refine Or.inr ?_
      simp only [Batch.held] at hr
      cases items with
      | nil => cases hr
      | cons i items => simp [Batch.handled, WillRetry, Retries]
    · refine Or.inl ?_
      rw [Batch.handled, held_verify, List.append_nil]
      exact hr
  | verified i unverified completed report a =>
    refine Or.inr ?_
    simp only [Batch.held, List.map_cons, List.cons_append, List.mem_cons] at hr
    rcases a with e | complete
    · refine Or.inr ?_
      rw [Batch.verified, willRetry_verify]
      exact Nat.succ_pos _
    · cases complete
      · refine Or.inr ?_
        rw [Batch.verified, willRetry_verify]
        exact Nat.succ_pos _
      · refine Or.inl ?_
        rw [Batch.verified, held_verify]
        simp only [List.mem_append, List.mem_cons] at hr ⊢
        tauto
  | removed report => exact Or.inl hr
  | failed e => exact Or.inr (Or.inr trivial)

theorem Moves.willRetry (m : Moves b shown taken b') (h : b.WillRetry) : b'.WillRetry := by
  cases m with
  | prechecked i unchecked satisfied remaining a => cases h
  | cleared remaining => cases h
  | handled items a => cases h
  | verified i unverified completed report a =>
    rcases a with e | complete
    · rw [Batch.verified, willRetry_verify]
      exact Nat.succ_pos _
    · cases complete
      · rw [Batch.verified, willRetry_verify]
        exact Nat.succ_pos _
      · rw [Batch.verified, willRetry_verify]
        exact h
  | removed report => exact h
  | failed e => trivial

end Batch

namespace Drain

variable {d d' : Drain α} {k : Nat} {b b' : Batch α} {shown : List (Item α)}
  {taken : List Position} {r : Position} {q : Queue α} {chunk : Nat} {fault : Option StoreFailure}

def WillRetry (d : Drain α) : Prop :=
  (∃ n b, (n, b) ∈ d.window.running ∧ b.WillRetry) ∨
    ∃ n o, (n, o) ∈ d.window.outputs ∧ Retries o

/-- A batch in flight holds the position, or the pass will be made again. -/
def Owes (d : Drain α) (r : Position) : Prop :=
  (∃ n b, (n, b) ∈ d.window.running ∧ r ∈ b.held) ∨ d.WillRetry

def Unread (d : Drain α) (r : Position) : Prop :=
  d.window.exhausted = false ∧ r.IsAbove d.position

theorem WillRetry.put (h : d.WillRetry) (numbered : d.window.Numbered)
    (found : d.window.get? k = some b) (m : b.Moves shown taken b') : (d.put k b').WillRetry := by
  rcases h with ⟨n, c, running, retries⟩ | output
  · refine Or.inl ?_
    by_cases same : n = k
    · rw [same] at running
      cases numbered.eq_of_mem running (numbered.get?_eq_some_iff.mp found)
      exact ⟨k, b', (numbered.mem_running_set found).mpr (Or.inl rfl), m.willRetry retries⟩
    · exact ⟨n, c, (numbered.mem_running_set found).mpr (Or.inr ⟨same, running⟩), retries⟩
  · exact Or.inr output

theorem Owes.put (h : d.Owes r) (numbered : d.window.Numbered)
    (found : d.window.get? k = some b) (m : b.Moves shown taken b') (stays : r ∉ taken) :
    (d.put k b').Owes r := by
  have moved : (k, b') ∈ (d.put k b').window.running :=
    (numbered.mem_running_set found).mpr (Or.inl rfl)
  rcases h with ⟨n, c, running, held⟩ | retries
  · by_cases same : n = k
    · rw [same] at running
      cases numbered.eq_of_mem running (numbered.get?_eq_some_iff.mp found)
      rcases (m.held held).resolve_left stays with held | retries
      · exact Or.inl ⟨k, b', moved, held⟩
      · exact Or.inr (Or.inl ⟨k, b', moved, retries⟩)
    · exact Or.inl ⟨n, c, (numbered.mem_running_set found).mpr (Or.inr ⟨same, running⟩), held⟩
  · exact Or.inr (retries.put numbered found m)

theorem collect_mem (numbered : d.window.Numbered) (collects : d.collect k = some d') {n : Nat}
    {c : Batch α} (running : (n, c) ∈ d.window.running) :
    (n, c) ∈ d'.window.running ∨
      ∃ result, c = .done result ∧ (n, result) ∈ d'.window.outputs := by
  obtain ⟨result, w, found, completed, rfl⟩ := collect_cases collects
  rw [Window.complete?_cases completed]
  by_cases same : n = k
  · rw [same] at running ⊢
    have taken := numbered.eq_of_mem running (numbered.get?_eq_some_iff.mp found)
    exact Or.inr ⟨result, taken, by simp⟩
  · refine Or.inl (List.mem_filter.mpr ⟨running, ?_⟩)
    simpa using same

theorem WillRetry.collect (h : d.WillRetry) (numbered : d.window.Numbered)
    (collects : d.collect k = some d') : d'.WillRetry := by
  rcases h with ⟨n, c, running, retries⟩ | ⟨n, o, output, retries⟩
  · rcases collect_mem numbered collects running with stays | ⟨result, rfl, output⟩
    · exact Or.inl ⟨n, c, stays, retries⟩
    · exact Or.inr ⟨n, result, output, retries⟩
  · obtain ⟨result, w, -, completed, rfl⟩ := collect_cases collects
    rw [Window.complete?_cases completed]
    exact Or.inr ⟨n, o, List.mem_append_left _ output, retries⟩

theorem Owes.collect (h : d.Owes r) (numbered : d.window.Numbered)
    (collects : d.collect k = some d') : d'.Owes r := by
  rcases h with ⟨n, c, running, held⟩ | retries
  · rcases collect_mem numbered collects running with stays | ⟨result, rfl, -⟩
    · exact Or.inl ⟨n, c, stays, held⟩
    · cases held
  · exact Or.inr (retries.collect numbered collects)

/-! ## Reads -/

theorem willRetry_of_pull {w : Window (Batch α) (Except Failure Report)} {e : Failure}
    (pulled : d.window.pull? (.done (.error e)) = some w) :
    ({ d with readFailed := true, window := w } : Drain α).WillRetry := by
  obtain ⟨-, rfl⟩ := Window.pull?_cases pulled
  refine Or.inl ⟨d.window.pulled, .done (.error e), List.mem_append_right _ ?_, trivial⟩
  exact List.mem_singleton_self _

theorem WillRetry.read (h : d.WillRetry) (reads : d.read q chunk fault = some d') :
    d'.WillRetry := by
  rcases read_cases reads with ⟨w, closed, rfl, -⟩ | ⟨w, e, pulled, rfl, -⟩ |
    ⟨w, last, -, pulled, -, rfl, -⟩
  · obtain ⟨-, rfl⟩ := Window.close?_cases closed
    exact h
  · exact willRetry_of_pull pulled
  · obtain ⟨-, rfl⟩ := Window.pull?_cases pulled
    rcases h with ⟨n, c, running, retries⟩ | output
    · exact Or.inl ⟨n, c, List.mem_append_left _ running, retries⟩
    · exact Or.inr output

def Recorded (d : Drain α) : Prop := d.readFailed = true → d.WillRetry

theorem Recorded.read (recorded : d.Recorded) (reads : d.read q chunk fault = some d') :
    d'.Recorded := by
  intro failed
  rcases read_cases reads with ⟨w, closed, rfl, -⟩ | ⟨w, e, pulled, rfl, -⟩ |
    ⟨w, last, -, -, going, rfl, -⟩
  · exact (recorded failed).read reads
  · exact willRetry_of_pull pulled
  · rw [going] at failed
    cases failed

theorem unread_or_owes_of_read (sound : q.Sound) (room : 0 < chunk) (recorded : d.Recorded)
    (reads : d.read q chunk fault = some d') (queued : r ∈ q.index)
    (h : d.Unread r ∨ d.Owes r) : d'.Unread r ∨ d'.Owes r := by
  rcases read_cases reads with ⟨w, closed, rfl, ended⟩ | ⟨w, e, pulled, rfl, -⟩ |
    ⟨w, last, ends, pulled, -, rfl, -⟩
  · refine Or.inr ?_
    rcases ended with failed | ⟨-, none⟩
    · exact Or.inr ((recorded failed).read reads)
    · obtain ⟨-, rfl⟩ := Window.close?_cases closed
      rcases h with ⟨-, above⟩ | owes
      · exact absurd above (sound.not_isAbove_of_readAfter_eq_nil room none queued)
      · exact owes
  · exact Or.inr (Or.inr (willRetry_of_pull pulled))
  · rcases h with ⟨going, above⟩ | ⟨n, c, running, held⟩ | retries
    · obtain ⟨-, rfl⟩ := Window.pull?_cases pulled
      rcases sound.mem_readAfter_or_isAbove ends queued above with read | beyond
      · refine Or.inr (Or.inl ⟨d.window.pulled, .start (q.readAfter d.position chunk),
          List.mem_append_right _ (List.mem_singleton_self _), ?_⟩)
        rw [Batch.held_start]
        exact read
      · exact Or.inl ⟨going, beyond⟩
    · obtain ⟨-, rfl⟩ := Window.pull?_cases pulled
      exact Or.inr (Or.inl ⟨n, c, List.mem_append_left _ running, held⟩)
    · exact Or.inr (Or.inr (retries.read reads))

theorem limit_of_read (reads : d.read q chunk fault = some d') :
    d'.window.limit = d.window.limit := by
  rcases read_cases reads with ⟨w, closed, rfl, -⟩ | ⟨w, e, pulled, rfl, -⟩ |
    ⟨w, last, -, pulled, -, rfl, -⟩
  · rw [(Window.close?_cases closed).2]
  · rw [(Window.pull?_cases pulled).2]
  · rw [(Window.pull?_cases pulled).2]

theorem not_unread_or_owes_of_total {total : Report} (room : 1 ≤ d.window.limit)
    (done : d.window.isDone = true)
    (totals : Report.total (d.window.outputs.map (·.2)) = .ok total) (none : total.kept = 0) :
    ¬ (d.Unread r ∨ d.Owes r) := by
  obtain ⟨exhausted, empty⟩ := (Window.isDone_iff room).mp done
  rintro (⟨going, -⟩ | ⟨n, c, running, -⟩ | ⟨n, c, running, -⟩ | ⟨n, o, output, retries⟩)
  · rw [exhausted] at going
    cases going
  · rw [empty] at running
    cases running
  · rw [empty] at running
    cases running
  · exact Report.not_retries_of_total totals none o (List.mem_map_of_mem output) retries

end Drain

theorem Config.not_idle_signal {c : Config} {newWork : Bool} {total : Report}
    (idle : c.signal newWork total = .keep ∨ c.signal newWork total = .reset) :
    newWork = false ∧ total.kept = 0 := by
  unfold signal at idle
  split at idle
  · simp at idle
  · rename_i old
    refine ⟨by simpa using old, ?_⟩
    split at idle
    · simp at idle
    · split at idle
      · rename_i keeps
        exact keeps.2
      · simp at idle

namespace Pool

variable {p p' : Pool α} {now : Nat}

/-- Nothing is queued, or a call of add that has saved its items has still to wake the loop. -/
def Answered (p : Pool α) : Prop := p.queue.index = [] ∨ 0 < p.saved ∨ 0 < p.noted

/-- What is queued during a pass is new work, or still to be read, or owed by the pass. A pass that
asks to idle leaves nothing, and a parked loop has nothing left. -/
structure Wakeful (p : Pool α) : Prop where
  room : ∀ d, p.pass = some (.draining d) → 1 ≤ d.window.limit
  recorded : ∀ d, p.pass = some (.draining d) → d.Recorded
  draining : ∀ d, p.pass = some (.draining d) → ∀ r ∈ p.queue.index,
    (p.newWork = true ∨ 0 < p.saved) ∨ d.Unread r ∨ d.Owes r
  closed : ∀ s, p.pass = some (.closed (.ok s)) → s = .keep ∨ s = .reset →
    p.loop.permit = false → p.Answered
  parked : p.loop.Parked → p.Answered

theorem Sound.not_parked (h : p.Sound) (going : p.pass ≠ none) : ¬ p.loop.Parked := by
  obtain ⟨since, ticking⟩ := h.ticking going
  exact Loop.not_parked_of_ticking ticking

theorem Answered.remove (h : p.Answered) (sound : p.queue.Sound) (ids : List String) :
    ({ p with queue := p.queue.remove ids } : Pool α).Answered := by
  rcases h with empty | adding
  · refine Or.inl (List.eq_nil_iff_forall_not_mem.mpr ?_)
    intro r held
    have held := sound.mem_index_of_remove ids held
    rw [empty] at held
    cases held
  · exact Or.inr adding

theorem Wakeful.setDrain {q : Queue α} {d : Drain α} (sound : p.Sound) (going : p.pass ≠ none)
    (room : 1 ≤ d.window.limit) (recorded : d.Recorded)
    (draining : ∀ r ∈ q.index, (p.newWork = true ∨ 0 < p.saved) ∨ d.Unread r ∨ d.Owes r) :
    ({ p with queue := q }.setDrain d).Wakeful := by
  refine ⟨?_, ?_, ?_, ?_, ?_⟩
  · rintro _ ⟨⟩
    exact room
  · rintro _ ⟨⟩
    exact recorded
  · rintro _ ⟨⟩
    exact draining
  · rintro _ ⟨⟩
  · intro parked
    exact absurd parked (sound.not_parked going)

theorem Wakeful.answered_of_close (h : p.Wakeful) {d : Drain α} {total : Report}
    (draining : p.pass = some (.draining d)) (done : d.window.isDone = true)
    (totals : Report.total (d.window.outputs.map (·.2)) = .ok total)
    (old : p.newWork = false) (none : total.kept = 0) : p.Answered := by
  rcases Nat.eq_zero_or_pos p.saved with unsaved | saved
  · refine Or.inl (List.eq_nil_iff_forall_not_mem.mpr ?_)
    intro r queued
    -- New work would have ended the pass otherwise, and a pass that kept nothing owes nothing.
    rcases h.draining d draining r queued with (new | saved) | left
    · rw [old] at new
      cases new
    · omega
    · exact Drain.not_unread_or_owes_of_total (h.room d draining) done totals none left
  · exact Or.inr (Or.inl saved)

theorem Wakeful.loop (h : p.Wakeful) (sound : p.Sound) {e : Schedule.Event} {l : Loop}
    {effects : List Schedule.Effect} (own : ∀ result, e ≠ .tickDone result)
    (moved : p.loop.step now e = some (l, effects)) :
    ({ p with loop := l } : Pool α).Wakeful := by
  refine ⟨h.room, h.recorded, h.draining, ?_, ?_⟩
  · intro s closed idle permit
    have closed : p.pass = some (.closed (.ok s)) := closed
    apply h.closed s closed idle
    obtain ⟨since, ticking⟩ := sound.ticking (by simp [closed])
    have taken : e ≠ .rouse := by
      rintro rfl
      obtain ⟨_, _, _, waiting, -⟩ := Loop.rouse_cases moved
      rw [ticking] at waiting
      cases waiting
    cases stored : p.loop.permit with
    | false => rfl
    | true =>
      have kept := Loop.permit_of_step taken moved stored
      exact absurd (permit.symm.trans kept) (by simp)
  · intro parked
    exact h.parked (Loop.parked_of_step own moved parked)

theorem Wakeful.save (h : p.Wakeful) (items : List (Item α)) :
    ({ p with queue := p.queue.save items, saved := p.saved + 1 } : Pool α).Wakeful := by
  have adding : 0 < p.saved + 1 := Nat.succ_pos _
  exact ⟨h.room, h.recorded, fun _ _ _ _ => Or.inl (Or.inr adding),
    fun _ _ _ _ => Or.inr (Or.inl adding), fun _ => Or.inr (Or.inl adding)⟩

theorem Wakeful.note (h : p.Wakeful) (debounced : p.config.debounced = true) :
    ({ p with
      newWork := true
      saved := p.saved - 1
      noted := if p.config.debounced then p.noted + 1 else p.noted } : Pool α).Wakeful := by
  have waking : 0 < if p.config.debounced = true then p.noted + 1 else p.noted := by
    rw [if_pos debounced]
    exact Nat.succ_pos _
  exact ⟨h.room, h.recorded, fun _ _ _ _ => Or.inl (Or.inl rfl),
    fun _ _ _ _ => Or.inr (Or.inr waking), fun _ => Or.inr (Or.inr waking)⟩

theorem Wakeful.wake (h : p.Wakeful) (sound : p.Sound) :
    ({ p with noted := p.noted - 1, loop := p.loop.wake } : Pool α).Wakeful := by
  refine ⟨h.room, h.recorded, h.draining, ?_, ?_⟩
  · intro s closed idle permit
    have closed : p.pass = some (.closed (.ok s)) := closed
    obtain ⟨since, ticking⟩ := sound.ticking (by simp [closed])
    simp [Loop.wake, ticking] at permit
  · intro parked
    exact absurd parked p.loop.not_parked_wake

theorem Wakeful.remove (h : p.Wakeful) (sound : p.Sound) (ids : List String) :
    ({ p with queue := p.queue.remove ids } : Pool α).Wakeful := by
  refine ⟨h.room, h.recorded, ?_, ?_, ?_⟩
  · intro d draining r held
    exact h.draining d draining r (sound.queue.mem_index_of_remove ids held)
  · intro s closed idle permit
    exact (h.closed s closed idle permit).remove sound.queue ids
  · intro parked
    exact (h.parked parked).remove sound.queue ids

theorem wakeful_of_openPass (sound : p.Sound) (opening : p.pass = some .opening) :
    ({ p with newWork := false, pass := some (.draining (.new p.config.concurrency.toNat)) } :
      Pool α).Wakeful := by
  refine ⟨?_, ?_, ?_, by simp, ?_⟩
  · rintro _ ⟨⟩
    exact Window.one_le_limit_new _
  · rintro _ ⟨⟩ failed
    cases failed
  · rintro _ ⟨⟩ r queued
    exact Or.inr (Or.inl ⟨rfl, trivial⟩)
  · intro parked
    exact absurd parked (sound.not_parked (by simp [opening]))

section Draining

variable {d d' : Drain α} {k : Nat} (h : p.Wakeful) (sound : p.Sound)
  (draining : p.pass = some (.draining d))

include h sound draining

theorem Wakeful.read {fault : Option StoreFailure}
    (reads : d.read p.queue p.config.chunkSize.toNat fault = some d') :
    (p.setDrain d').Wakeful := by
  apply Wakeful.setDrain sound (by simp [draining])
  · rw [Drain.limit_of_read reads]
    exact h.room d draining
  · exact (h.recorded d draining).read reads
  · intro r queued
    rcases h.draining d draining r queued with new | left
    · exact Or.inl new
    · exact Or.inr (Drain.unread_or_owes_of_read sound.queue sound.chunk
        (h.recorded d draining) reads queued left)

theorem Wakeful.batch {b b' : Batch α} {shown : List (Item α)} {taken : List Position}
    (found : d.window.get? k = some b) (moves : b.Moves shown taken b') :
    ({ p with queue := p.queue.removeDispatched taken }.setDrain (d.put k b')).Wakeful := by
  have numbered := sound.numbered d draining
  apply Wakeful.setDrain sound (by simp [draining])
  · exact h.room d draining
  · intro failed
    exact (h.recorded d draining failed).put numbered found moves
  · intro r queued
    obtain ⟨queued, stays⟩ := (sound.queue.mem_index_removeDispatched taken).mp queued
    rcases h.draining d draining r queued with new | unread | owes
    · exact Or.inl new
    · exact Or.inr (Or.inl unread)
    · exact Or.inr (Or.inr (owes.put numbered found moves stays))

theorem Wakeful.collect (collects : d.collect k = some d') : (p.setDrain d').Wakeful := by
  have numbered := sound.numbered d draining
  obtain ⟨result, w, -, completed, rfl⟩ := Drain.collect_cases collects
  have completed := Window.complete?_cases completed
  apply Wakeful.setDrain sound (by simp [draining])
  · rw [completed]
    exact h.room d draining
  · intro failed
    exact (h.recorded d draining failed).collect numbered collects
  · intro r queued
    rcases h.draining d draining r queued with new | unread | owes
    · exact Or.inl new
    · rw [completed]
      exact Or.inr (Or.inl unread)
    · exact Or.inr (Or.inr (owes.collect numbered collects))

theorem Wakeful.close {total : Report} (done : d.window.isDone = true)
    (totals : Report.total (d.window.outputs.map (·.2)) = .ok total) :
    ({ p with
      newWork := false
      pass := some (.closed (.ok (p.config.signal p.newWork total))) } : Pool α).Wakeful := by
  refine ⟨by simp, by simp, by simp, ?_, ?_⟩
  · rintro _ ⟨⟩ idle permit
    obtain ⟨old, none⟩ := Config.not_idle_signal idle
    exact h.answered_of_close draining done totals old none
  · intro parked
    exact absurd parked (sound.not_parked (by simp [draining]))

end Draining

theorem Wakeful.passDone (h : p.Wakeful) {result : Except Failure Schedule.Signal} {l : Loop}
    {effects : List Schedule.Effect} (closed : p.pass = some (.closed result))
    (moved : p.loop.step now (.tickDone result) = some (l, effects)) :
    ({ p with pass := none, loop := l } : Pool α).Wakeful := by
  refine ⟨by simp, by simp, by simp, by simp, ?_⟩
  rintro ⟨⟨since, stage⟩, permit⟩
  obtain ⟨-, ⟨-, -, -, same⟩, -, length, paused, idle⟩ := Loop.tickDone_cases moved
  rcases paused with ⟨-, returned, -⟩ | ⟨-, -, -, waiting⟩
  · rw [returned] at stage
    cases stage
  · rw [waiting] at stage
    cases stage
    obtain ⟨signal, rfl, idles⟩ := idle rfl
    exact h.closed signal closed (Loop.keep_or_reset_of_idles idles) (same.symm.trans permit)

theorem Moves.wakeful {a : Act α} (m : Moves now p a p') (sound : p.Sound)
    (debounced : p.config.debounced = true) (h : p.Wakeful) : p'.Wakeful := by
  cases m with
  | stay => exact h
  | save items => exact h.save items
  | note => exact h.note debounced
  | wake => exact h.wake sound
  | remove ids => exact h.remove sound ids
  | loop e l effects own moved quiet => exact h.loop sound own moved
  -- A loop whose tick is under way is not parked.
  | begin ready go =>
    refine ⟨by simp, by simp, by simp, by simp, ?_⟩
    intro parked
    exact absurd parked (Loop.not_parked_of_ticking rfl)
  | openPass opening => exact wakeful_of_openPass sound opening
  | read d d' fault draining reads => exact h.read sound draining reads
  | batch d k b b' shown taken draining found moves => exact h.batch sound draining found moves
  | collect d d' k draining collects => exact h.collect sound draining collects
  | closeFailed d e draining =>
    refine ⟨by simp, by simp, by simp, by simp, ?_⟩
    intro parked
    exact absurd parked (sound.not_parked (by simp [draining]))
  | close d total draining done totals => exact h.close sound draining done totals
  | passDone result l effects closed moved => exact h.passDone closed moved

theorem wakeful_of_new {c : Config} (made : new c = .ok p) : p.Wakeful := by
  unfold new at made
  split at made
  · cases made
  · cases made
    refine ⟨by simp, by simp, by simp, by simp, ?_⟩
    rintro ⟨⟨since, stage⟩, -⟩
    cases stage

/-- A debounced pool that is parked, with no wake stored, has an empty queue, or some call of add
has saved its items and has still to note them or to wake the loop. -/
theorem queue_empty_of_parked {c : Config} {t : List (Nat × Event α)} (made : new c = .ok p)
    (debounced : c.debounced = true) (ran : p.run t = some p') (parked : p'.loop.Parked) :
    p'.count = 0 ∨ 0 < p'.saved ∨ 0 < p'.noted := by
  obtain ⟨sound, -, wakeful⟩ := run_invariant
    (fun sound config h m => m.wakeful sound (config ▸ debounced) h) made
    (wakeful_of_new made) ran
  rcases wakeful.parked parked with empty | adding
  · exact Or.inl (sound.queue.count_eq_zero empty)
  · exact Or.inr adding

/-- One item goes through a pass and its wake through another; then a call of add saves a second
item and has not yet noted it. -/
def lateAdd : List (Nat × Event Nat) := [
  (0, .start .zero), (0, .turn), (0, .save [⟨"a", .epoch, 1⟩] none), (1, .note), (1, .wake),
  (2, .openPass), (2, .read none), (3, .prechecked 0 (.ok false)), (4, .handled 0 (.ok none)),
  (5, .verified 0 (.ok true)), (6, .removed 0 none), (6, .collect 0), (6, .read none),
  (6, .closePass), (6, .passDone), (6, .rouse), (6, .turn), (7, .openPass), (7, .read none),
  (7, .closePass), (7, .passDone), (8, .save [⟨"b", .epoch, 2⟩] none)]

theorem queue_empty_of_parked_lateAdd : ∃ p p' : Pool Nat,
    new { debounced := true } = .ok p ∧ p.run lateAdd = some p' ∧ p'.loop.Parked ∧
      p'.count = 1 ∧ (p'.count = 0 ∨ 0 < p'.saved ∨ 0 < p'.noted) := by
  refine ⟨_, _, rfl, rfl, ⟨⟨7, rfl⟩, rfl⟩, rfl, ?_⟩
  exact queue_empty_of_parked (c := { debounced := true }) (t := lateAdd) rfl rfl rfl
    ⟨⟨7, rfl⟩, rfl⟩

end Pool
end ChainFetch.Work
