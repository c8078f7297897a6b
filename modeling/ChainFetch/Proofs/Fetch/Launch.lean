import ChainFetch.Proofs.Fetch.Moves
/-!
A fetcher is launched once: one call of run at most prepares the loops, nothing is scheduled before,
and a direction has a tick only while its loop ticks. Main statements: `Moves.regular` and
`run_invariant`.
-/

namespace ChainFetch

theorem Both.get_set {α : Type} (b : Both α) (d e : Direction) (a : α) :
    (b.set d a).get e = if e = d then a else b.get e := by
  by_cases same : e = d
  · rw [if_pos same, same, Both.get_set_self]
  · rw [if_neg same, Both.get_set_of_ne b same]

namespace Fetch

open Schedule (Loop Effect)

variable {γ : Type}

def Call.Prepares : Call γ → Prop
  | .run (.loading _) => True
  | .run .published => True
  | _ => False

namespace Fetcher

variable {f : Fetcher γ} {c c' : Call γ} {k : Nat} {d : Direction}

/-- No loop is there for others to see, and no task is set off. -/
def Bare (f : Fetcher γ) : Prop := ∀ d, f.loops.get d = none ∧ f.tasks.get d = .absent

structure Regular (f : Fetcher γ) : Prop where
  sound : ∀ d l, f.loops.get d = some l → l.Sound
  ticking : ∀ d, f.ticks.get d ≠ none →
    ∃ l since, f.loops.get d = some l ∧ l.stage = .ticking since
  fresh : f.started = false →
    f.Bare ∧ ∀ (k : Nat) (c : Call γ), f.calls[k]? = some c → ¬ c.Prepares
  loading : ∀ (k : Nat) (i : Init γ), f.calls[k]? = some (.run (.loading i)) → f.Bare
  alone : ∀ (k n : Nat) (c c' : Call γ), f.calls[k]? = some c → f.calls[n]? = some c' →
    c.Prepares → c'.Prepares → k = n

theorem Regular.started (h : f.Regular) (found : f.calls[k]? = some c) (prepares : c.Prepares) :
    f.started = true := by
  cases fresh : f.started with
  | true => rfl
  | false => exact absurd prepares ((h.fresh fresh).2 k c found)

theorem Regular.ticks_eq_none (h : f.Regular) (absent : f.loops.get d = none) :
    f.ticks.get d = none := by
  cases tick : f.ticks.get d with
  | none => rfl
  | some t =>
    obtain ⟨l, since, found, -⟩ := h.ticking d (by simp [tick])
    rw [absent] at found
    cases found

theorem Regular.ticks_eq_none_of_ready (h : f.Regular) {l : Loop}
    (found : f.loops.get d = some l) (ready : l.stage = .ready) : f.ticks.get d = none := by
  cases tick : f.ticks.get d with
  | none => rfl
  | some t =>
    obtain ⟨m, since, present, ticking⟩ := h.ticking d (by simp [tick])
    rw [found] at present
    cases present
    rw [ready] at ticking
    cases ticking

theorem Regular.frame (h : f.Regular) (memory : State γ) (initialised locked stopAsked : Bool) :
    ({ f with
      memory := memory, initialised := initialised, locked := locked, stopAsked := stopAsked
    } : Fetcher γ).Regular :=
  ⟨h.sound, h.ticking, h.fresh, h.loading, h.alone⟩

theorem Regular.setCall (h : f.Regular) (found : f.calls[k]? = some c) (c' : Call γ)
    (keeps : c'.Prepares → c.Prepares)
    (loads : ∀ i, c' = .run (.loading i) → ∃ i, c = .run (.loading i)) :
    ({ f with calls := f.calls.set k c' } : Fetcher γ).Regular := by
  have older : ∀ (n : Nat) (a : Call γ), (f.calls.set k c')[n]? = some a → a.Prepares →
      ∃ b, f.calls[n]? = some b ∧ b.Prepares := by
    intro n a set prepares
    rcases getElem?_set_cases set with ⟨rfl, rfl⟩ | ⟨-, set⟩
    · exact ⟨c, found, keeps prepares⟩
    · exact ⟨a, set, prepares⟩
  refine ⟨h.sound, h.ticking, ?_, ?_, ?_⟩
  · intro fresh
    refine ⟨(h.fresh fresh).1, ?_⟩
    intro n a set prepares
    obtain ⟨b, before, prepared⟩ := older n a set prepares
    exact (h.fresh fresh).2 n b before prepared
  · intro n i set
    rcases getElem?_set_cases set with ⟨-, same⟩ | ⟨-, set⟩
    · obtain ⟨j, rfl⟩ := loads i same.symm
      exact h.loading k j found
    · exact h.loading n i set
  · intro n m a b left right prepares prepares'
    obtain ⟨a', left, prepared⟩ := older n a left prepares
    obtain ⟨b', right, prepared'⟩ := older m b right prepares'
    exact h.alone n m a' b' left right prepared prepared'

theorem Regular.setIdle (h : f.Regular) (found : f.calls[k]? = some c) (c' : Call γ)
    (idle : ¬ c'.Prepares) : ({ f with calls := f.calls.set k c' } : Fetcher γ).Regular := by
  apply h.setCall found c'
  · intro prepares
    exact absurd prepares idle
  · rintro i rfl
    exact absurd trivial idle

def Launched (f : Fetcher γ) : Prop :=
  f.started = true ∧ ∀ (k : Nat) (i : Init γ), f.calls[k]? ≠ some (.run (.loading i))

theorem Regular.launched (h : f.Regular) (scheduled : ¬ f.Bare) : f.Launched := by
  refine ⟨?_, ?_⟩
  · cases fresh : f.started with
    | true => rfl
    | false => exact absurd (h.fresh fresh).1 scheduled
  · intro k i loading
    exact scheduled (h.loading k i loading)

theorem Regular.setLoop (h : f.Regular) (launched : f.Launched) {l' : Loop} (sound : l'.Sound)
    {ticks : Both (Option (Tick γ))} (tasks : Both Task) (gate : Gate)
    (own : ticks.get d ≠ none → ∃ since, l'.stage = .ticking since)
    (others : ∀ e, e ≠ d → ticks.get e = f.ticks.get e) :
    ({ f with
      loops := f.loops.set d (some l'), tasks := tasks, gate := gate, ticks := ticks
    } : Fetcher γ).Regular := by
  refine ⟨?_, ?_, ?_, ?_, h.alone⟩
  · intro e l found
    rw [Both.get_set] at found
    split at found
    · cases found
      exact sound
    · exact h.sound e l found
  · intro e tick
    simp only [Both.get_set]
    by_cases same : e = d
    · rw [same] at tick
      obtain ⟨since, stage⟩ := own tick
      exact ⟨l', since, if_pos same, stage⟩
    · rw [if_neg same]
      apply h.ticking e
      rw [← others e same]
      exact tick
  · intro fresh
    exact absurd (launched.1.symm.trans fresh) (by simp)
  · intro n i loading
    exact absurd loading (launched.2 n i)

theorem Regular.setTasks (h : f.Regular) (launched : f.Launched) (tasks : Both Task) :
    ({ f with tasks := tasks } : Fetcher γ).Regular := by
  refine ⟨h.sound, h.ticking, ?_, ?_, h.alone⟩
  · intro fresh
    exact absurd (launched.1.symm.trans fresh) (by simp)
  · intro n i loading
    exact absurd loading (launched.2 n i)

theorem Regular.setTick (h : f.Regular) (held : f.ticks.get d ≠ none) (t : Tick γ)
    (memory : State γ) (locked : Bool) :
    ({ f with
      memory := memory, locked := locked, ticks := f.ticks.set d (some t)
    } : Fetcher γ).Regular := by
  refine ⟨h.sound, ?_, h.fresh, h.loading, h.alone⟩
  intro e tick
  rw [Both.get_set] at tick
  by_cases same : e = d
  · rw [same]
    exact h.ticking d held
  · rw [if_neg same] at tick
    exact h.ticking e tick

theorem not_bare_of_loop {l : Loop} (found : f.loops.get d = some l) : ¬ f.Bare := by
  intro bare
  rw [(bare d).1] at found
  cases found

theorem not_bare_of_task (set : f.tasks.get d ≠ .absent) : ¬ f.Bare :=
  fun bare => set (bare d).2

theorem Regular.stepLoop (h : f.Regular) {l l' : Loop} {now : Nat} {e : Schedule.Event}
    {effects : List Effect} (found : f.loops.get d = some l)
    (moved : l.step now e = some (l', effects)) (own : ∀ result, e ≠ .tickDone result)
    (tasks : Both Task) (gate : Gate) :
    ({ f with
      loops := f.loops.set d (some l'), tasks := tasks, gate := gate
    } : Fetcher γ).Regular := by
  apply h.setLoop (h.launched (not_bare_of_loop found)) (Loop.sound_step (h.sound d l found) moved)
    tasks gate
  · intro held
    obtain ⟨m, since, present, ticking⟩ := h.ticking d held
    rw [found] at present
    cases present
    exact ⟨since, Loop.stage_of_ticking (h.sound d l found) ticking own moved⟩
  · exact fun _ _ => rfl

theorem sound_of_loop? {config : Config} {s : State γ} {l : Loop}
    (made : config.loop? s d = some l) : l.Sound ∧ l.stage = .unstarted ∧ l.stopAsked = false := by
  unfold Config.loop? at made
  split at made
  · cases made
  · dsimp only at made
    split at made
    · cases made
    · cases made
      exact ⟨Loop.sound_new _ _, rfl, rfl⟩

theorem loops_publish (f : Fetcher γ) (s : State γ) (d : Direction) :
    (f.publish s).loops.get d = f.config.loop? s d := by
  cases d <;> rfl

theorem sound_of_publish {s : State γ} {l : Loop} (made : (f.publish s).loops.get d = some l) :
    l.Sound ∧ l.stage = .unstarted ∧ l.stopAsked = false := by
  rw [loops_publish] at made
  exact sound_of_loop? made

theorem Regular.start (h : f.Regular) (fresh : f.started = false) (k : Nat) (c' : Call γ) :
    ({ f with started := true, calls := f.calls.set k c' } : Fetcher γ).Regular := by
  obtain ⟨bare, idle⟩ := h.fresh fresh
  have only : ∀ (n : Nat) (a : Call γ), (f.calls.set k c')[n]? = some a → a.Prepares → n = k := by
    intro n a set prepares
    rcases getElem?_set_cases set with ⟨same, -⟩ | ⟨-, set⟩
    · exact same
    · exact absurd prepares (idle n a set)
  refine ⟨h.sound, h.ticking, ?_, fun _ _ _ => bare, ?_⟩
  · rintro ⟨⟩
  · intro n m a b left right prepares prepares'
    exact (only n a left prepares).trans (only m b right prepares').symm

theorem Regular.publish (h : f.Regular) (bare : f.Bare) (started : f.started = true)
    (alone : ∀ (n : Nat) (a : Call γ), f.calls[n]? = some a → a.Prepares → n = k) (s : State γ) :
    ({ f.publish s with calls := f.calls.set k (.run .published) } : Fetcher γ).Regular := by
  have only : ∀ (n : Nat) (a : Call γ), (f.calls.set k (.run .published))[n]? = some a →
      a.Prepares → n = k := by
    intro n a set prepares
    rcases getElem?_set_cases set with ⟨same, -⟩ | ⟨-, set⟩
    · exact same
    · exact alone n a set prepares
  refine ⟨?_, ?_, ?_, ?_, ?_⟩
  · intro e l made
    exact (sound_of_publish made).1
  · intro e tick
    exact absurd (h.ticks_eq_none (bare e).1) tick
  · intro fresh
    have fresh : f.started = false := fresh
    rw [started] at fresh
    cases fresh
  · intro n i set
    have same := only n _ set trivial
    rcases getElem?_set_cases set with ⟨-, loads⟩ | ⟨other, -⟩
    · cases loads
    · exact absurd same other
  · intro n m a b left right prepares prepares'
    exact (only n a left prepares).trans (only m b right prepares').symm

end Fetcher

theorem Init.Moves.frame {s s' : System γ} {i i' : Init γ} {a : Act γ}
    (m : i.Moves s a s' i') :
    ∃ memory initialised locked, s'.fetcher = { s.fetcher with
      memory := memory, initialised := initialised, locked := locked } := by
  cases m with
  | lock free => exact ⟨s.fetcher.memory, s.fetcher.initialised, true, rfl⟩
  | failed held e => exact ⟨s.fetcher.memory, s.fetcher.initialised, false, rfl⟩
  | found state => exact ⟨state, true, false, rfl⟩
  | absent => exact ⟨s.fetcher.memory, s.fetcher.initialised, s.fetcher.locked, rfl⟩
  | created store state => exact ⟨state, true, false, rfl⟩

theorem Call.Moves.frame {s s' : System γ} {c c' : Call γ} {a : Act γ} {now : Nat}
    (m : c.Moves now s a s' c') : s'.fetcher.config = s.fetcher.config ∧
      s'.fetcher.ticks = s.fetcher.ticks ∧ s'.fetcher.calls = s.fetcher.calls := by
  have init : ∀ {s' : System γ} {i i' : Init γ}, i.Moves s a s' i' →
      s'.fetcher.config = s.fetcher.config ∧ s'.fetcher.ticks = s.fetcher.ticks ∧
        s'.fetcher.calls = s.fetcher.calls := by
    intro s' i i' moves
    obtain ⟨memory, initialised, locked, same⟩ := moves.frame
    rw [same]
    exact ⟨rfl, rfl, rfl⟩
  cases m with
  | init _ _ _ _ moves => exact init moves
  | loading _ _ _ _ moves => exact init moves
  | loaded m i state a moves =>
    have same := init moves
    exact same
  | unloaded _ _ _ _ moves => exact init moves
  | _ => exact ⟨rfl, rfl, rfl⟩

namespace System

variable {s s' : System γ} {now : Nat} {a : Act γ}

theorem regular_of_call {m : System γ} {k : Nat} {c c' : Call γ}
    (h : s.fetcher.Regular) (found : s.fetcher.calls[k]? = some c)
    (moves : c.Moves now s a m c') :
    ({ m.fetcher with calls := m.fetcher.calls.set k c' } : Fetcher γ).Regular := by
  have idle : ∀ c' : Call γ, ¬ c'.Prepares →
      ({ s.fetcher with calls := s.fetcher.calls.set k c' } : Fetcher γ).Regular :=
    fun c' => h.setIdle found c'
  cases moves with
  | init m i i' a moves =>
    obtain ⟨memory, initialised, locked, same⟩ := moves.frame
    rw [same]
    exact (idle (.init i') (fun p => p)).frame memory initialised locked s.fetcher.stopAsked
  | reject => exact idle _ (fun p => p)
  | publish fresh go =>
    obtain ⟨bare, quiet⟩ := h.fresh fresh
    have started : ({ s.fetcher with started := true } : Fetcher γ).Regular :=
      ⟨h.sound, h.ticking, by rintro ⟨⟩, h.loading, h.alone⟩
    apply started.publish bare rfl
    intro n a other prepares
    exact absurd prepares (quiet n a other)
  | load fresh go => exact h.start fresh k _
  | loading m i i' a moves =>
    obtain ⟨memory, initialised, locked, same⟩ := moves.frame
    have keeps := h.setCall found (.run (.loading i')) (fun p => p) (fun _ _ => ⟨i, rfl⟩)
    rw [same]
    exact keeps.frame memory initialised locked s.fetcher.stopAsked
  | loaded m i state a moves =>
    obtain ⟨memory, initialised, locked, same⟩ := moves.frame
    have started := h.started found trivial
    have alone : ∀ (n : Nat) (a : Call γ), s.fetcher.calls[n]? = some a → a.Prepares → n = k :=
      fun n a other prepares => h.alone n k a _ other found prepares trivial
    rw [same]
    exact (h.frame memory initialised locked s.fetcher.stopAsked).publish
      (h.loading k i found) started alone state
  | unloaded m i e a moves =>
    obtain ⟨memory, initialised, locked, same⟩ := moves.frame
    rw [same]
    exact (idle (.run (.done (some e))) (fun p => p)).frame memory initialised locked
      s.fetcher.stopAsked
  | withdraw => exact idle _ (fun p => p)
  | launch go =>
    have launched : ({ s.fetcher with calls := s.fetcher.calls.set k (.run .running) } :
        Fetcher γ).Launched := by
      refine ⟨h.started found trivial, ?_⟩
      intro n i set
      rcases getElem?_set_cases set with ⟨-, running⟩ | ⟨other, loading⟩
      · cases running
      · exact other (h.alone n k _ _ loading found trivial trivial)
    exact (idle (.run .running) (fun p => p)).setTasks launched _
  | ended => exact idle _ (fun p => p)
  | mark =>
    exact (idle (.stop .collecting) (fun p => p)).frame s.fetcher.memory
      s.fetcher.initialised s.fetcher.locked true
  | collect => exact idle _ (fun p => p)
  | ask d rest l present =>
    have moved : l.step 0 .askStop = some ({ l with stopAsked := true }, []) := rfl
    exact (idle (.stop (.settling d rest)) (fun p => p)).stepLoop present moved (by simp)
      s.fetcher.tasks s.fetcher.gate
  | settle d rest l l' present settled =>
    have moved : l.step 0 .settleStop = some (l', []) := by rw [settled]; rfl
    exact (idle (.stop (.joining d rest)) (fun p => p)).stepLoop present moved (by simp)
      s.fetcher.tasks s.fetcher.gate
  | join d rest l present finished => exact idle _ (fun p => p)

theorem Moves.regular [Cursor γ] (m : Moves now s a s') (h : s.fetcher.Regular) :
    s'.fetcher.Regular := by
  cases m with
  | call c new =>
    have idle : ¬ c.Prepares := by
      rcases new with rfl | rfl | rfl <;> exact fun p => p
    have older : ∀ (n : Nat) (b : Call γ), (s.fetcher.calls ++ [c])[n]? = some b →
        b.Prepares → s.fetcher.calls[n]? = some b := by
      intro n b set prepares
      rcases getElem?_concat_cases set with set | ⟨-, rfl⟩
      · exact set
      · exact absurd prepares idle
    refine ⟨h.sound, h.ticking, ?_, ?_, ?_⟩
    · intro fresh
      refine ⟨(h.fresh fresh).1, ?_⟩
      intro n b set prepares
      exact (h.fresh fresh).2 n b (older n b set prepares) prepares
    · intro n i set
      exact h.loading n i (older n _ set trivial)
    · intro n k b b' left right prepares prepares'
      exact h.alone n k b b' (older n b left prepares) (older k b' right prepares') prepares
        prepares'
  | advance m k c c' a found moves => exact regular_of_call h found moves
  | enter d jitter l l' effects tasks gate task found moved others =>
    exact h.stepLoop found moved (by simp) tasks gate
  | release t held =>
    have launched := h.launched (Fetcher.not_bare_of_task (d := .backward) (by
      rw [Both.get, held]
      simp))
    exact h.setTasks launched _
  | loop d e l l' effects tasks gate found begun own unasked moved others =>
    exact h.stepLoop found moved own tasks gate
  | begin d clock l found ready go =>
    have moved := Loop.step_turn_of_ready now ready go
    exact h.setLoop (h.launched (Fetcher.not_bare_of_loop found))
      (Loop.sound_step (h.sound d l found) moved) s.fetcher.tasks s.fetcher.gate
      (fun _ => ⟨now, rfl⟩) (fun e ne => Both.get_set_of_ne _ ne _)
  | answer d part l tick tick' lane found next free stays =>
    exact h.setTick (by simp [found]) tick' s.fetcher.memory s.fetcher.locked
  | lock d l work resume lane found free =>
    exact h.setTick (by simp [found]) _ s.fetcher.memory true
  | failed d l next resume e lane found =>
    exact h.setTick (by simp [found]) _ s.fetcher.memory false
  | saved d l next resume lane found =>
    exact h.setTick (by simp [found]) _ next false
  | tickDone d result l l' effects tasks gate found finished moved others =>
    exact h.setLoop (h.launched (Fetcher.not_bare_of_loop found))
      (Loop.sound_step (h.sound d l found) moved) tasks gate (by simp)
      (fun e ne => Both.get_set_of_ne _ ne _)

/-! ## Runs -/

def run [Cursor γ] (s : System γ) (t : List (Nat × Event γ)) : Option (System γ) := after step s t

theorem bare_of_new {c : Config} {f : Fetcher γ} (made : Fetcher.new c = .ok f) : f.Bare := by
  unfold Fetcher.new at made
  split at made
  · cases made
  · cases made
    intro d
    cases d <;> exact ⟨rfl, rfl⟩

theorem regular_of_new {c : Config} {f : Fetcher γ} (made : Fetcher.new c = .ok f) :
    f.Regular ∧ f.config = c := by
  unfold Fetcher.new at made
  split at made
  · cases made
  · cases made
    have bare : ∀ d, (⟨none, none⟩ : Both (Option Loop)).get d = none := by
      intro d
      cases d <;> rfl
    have quiet : ∀ d, (⟨none, none⟩ : Both (Option (Tick γ))).get d = none := by
      intro d
      cases d <;> rfl
    refine ⟨⟨?_, ?_, ?_, ?_, ?_⟩, rfl⟩
    · intro d l found
      rw [bare] at found
      cases found
    · intro d tick
      exact absurd (quiet d) tick
    · intro fresh
      refine ⟨?_, by simp⟩
      intro d
      exact ⟨bare d, by cases d <;> rfl⟩
    · intro k i loading
      simp at loading
    · intro k n a b left
      simp at left

theorem Moves.config_eq [Cursor γ] (m : Moves now s a s') :
    s'.fetcher.config = s.fetcher.config := by
  cases m with
  | advance m k c c' a found moves =>
    exact moves.frame.1
  | _ => rfl

/-- What every move of a regular system keeps, a whole run keeps. -/
theorem run_invariant [Cursor γ] {t : List (Nat × Event γ)} {P : System γ → Prop}
    (keeps : ∀ {now s a s'}, s.fetcher.Regular → P s → Moves now s a s' → P s')
    (regular : s.fetcher.Regular) (start : P s) (ran : s.run t = some s') :
    s'.fetcher.Regular ∧ s'.fetcher.config = s.fetcher.config ∧ P s' := by
  refine after_invariant
    (P := fun m => m.fetcher.Regular ∧ m.fetcher.config = s.fetcher.config ∧ P m) ?_
    ⟨regular, rfl, start⟩ ran
  intro now m e m' ⟨regular, config, holds⟩ stepped
  have moved := moves_of_step stepped
  exact ⟨moved.regular regular, moved.config_eq.trans config, keeps regular holds moved⟩

theorem regular_of_run [Cursor γ] {t : List (Nat × Event γ)} (regular : s.fetcher.Regular)
    (ran : s.run t = some s') :
    s'.fetcher.Regular ∧ s'.fetcher.config = s.fetcher.config := by
  obtain ⟨regular', config, -⟩ :=
    run_invariant (P := fun _ => True) (fun _ _ _ => trivial) regular trivial ran
  exact ⟨regular', config⟩

end System
end Fetch
end ChainFetch
