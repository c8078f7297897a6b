import ChainFetch.Proofs.Work.Faults
/-!
What the batches of a pass report. Of each the journal says what has become of its items and which
hint its handler has given, whatever the order in which the batches were answered and collected.
Main statements: `Batch.Answers.weighs`, by which a batch goes on to report what the journal says,
and `Drain.Moves.accounted`, by which all batches of a pass do.
-/

namespace ChainFetch.Work

variable {α : Type}

/-! ## Reports as one -/

namespace Report

variable {outputs : List (Except Failure Report)} {r total : Report}

theorem total_cons (h : Report.total (.ok r :: outputs) = .ok total) :
    ∃ rest, Report.total outputs = .ok rest ∧ total = r.add rest := by
  rw [Report.total] at h
  cases later : Report.total outputs with
  | error f =>
    rw [later] at h
    cases h
  | ok rest =>
    rw [later] at h
    cases h
    exact ⟨rest, rfl, rfl⟩

theorem fine_of_total (h : Report.total outputs = .ok total) (f : Failure) :
    .error f ∉ outputs := by
  rcases total_cases outputs with ⟨g, failed, -⟩ | ⟨_, -, fine⟩
  · rw [h] at failed
    cases failed
  · exact fine f

theorem kept_total (h : Report.total outputs = .ok total) :
    total.kept = 0 ↔ ∀ r, .ok r ∈ outputs → r.kept = 0 := by
  induction outputs generalizing total with
  | nil =>
    cases h
    simp
  | cons output outputs ih =>
    cases output with
    | error f => cases h
    | ok r =>
      obtain ⟨rest, later, rfl⟩ := total_cons h
      have sum : (r.add rest).kept = r.kept + rest.kept := rfl
      rw [sum, Nat.add_eq_zero_iff, ih later]
      simp

theorem earlier_cases (a b : Option Duration) :
    (a = none ∧ b = none ∧ earlier a b = none) ∨
      ∃ d, earlier a b = some d ∧ (a = some d ∨ b = some d) ∧
        (∀ e, a = some e → d ≤ e) ∧ ∀ e, b = some e → d ≤ e := by
  cases a with
  | none =>
    cases b with
    | none => exact Or.inl ⟨rfl, rfl, rfl⟩
    | some e => exact Or.inr ⟨e, rfl, Or.inr rfl, by simp, by simp [Duration.le_def]⟩
  | some d =>
    cases b with
    | none => exact Or.inr ⟨d, rfl, Or.inl rfl, by simp [Duration.le_def], by simp⟩
    | some e =>
      refine Or.inr ⟨min d e, rfl, ?_, ?_, ?_⟩
      · rcases Duration.le_total d e with less | less
        · exact Or.inl (congrArg some (Duration.min_eq_left less).symm)
        · exact Or.inr (congrArg some (Duration.min_eq_right less).symm)
      · rintro _ ⟨⟩
        exact Nat.min_le_left _ _
      · rintro _ ⟨⟩
        exact Nat.min_le_right _ _

theorem hint_total (h : Report.total outputs = .ok total) :
    ((∀ r, .ok r ∈ outputs → r.hint = none) ∧ total.hint = none) ∨
      ∃ d, total.hint = some d ∧ (∃ r, .ok r ∈ outputs ∧ r.hint = some d) ∧
        ∀ r e, .ok r ∈ outputs → r.hint = some e → d ≤ e := by
  induction outputs generalizing total with
  | nil =>
    cases h
    exact Or.inl ⟨by simp, rfl⟩
  | cons output outputs ih =>
    cases output with
    | error f => cases h
    | ok r =>
      obtain ⟨rest, later, rfl⟩ := total_cons h
      have sum : (r.add rest).hint = earlier r.hint rest.hint := rfl
      rw [sum]
      rcases earlier_cases r.hint rest.hint with ⟨none, others, nothing⟩ |
        ⟨d, least, source, below, beyond⟩
      · refine Or.inl ⟨fun r' mem => ?_, nothing⟩
        rcases ih later with ⟨unhinted, -⟩ | ⟨d, given, -⟩
        · rcases List.mem_cons.mp mem with here | mem
          · cases here
            exact none
          · exact unhinted r' mem
        · rw [others] at given
          cases given
      · refine Or.inr ⟨d, least, ?_, fun r' e mem given => ?_⟩
        · rcases source with here | there
          · exact ⟨r, List.mem_cons_self, here⟩
          · rcases ih later with ⟨-, none⟩ | ⟨d', given, ⟨r', mem, same⟩, -⟩
            · rw [none] at there
              cases there
            · rw [given] at there
              cases there
              exact ⟨r', List.mem_cons_of_mem _ mem, same⟩
        · rcases List.mem_cons.mp mem with here | mem
          · cases here
            exact below e given
          · rcases ih later with ⟨unhinted, -⟩ | ⟨d', given', -, shortest⟩
            · rw [unhinted r' mem] at given
              cases given
            · exact Nat.le_trans (beyond d' given') (shortest r' e mem given)

end Report

/-! ## What the journal says of a batch -/

namespace Entry

def settles? (k : Nat) : Entry α → Option (Item α)
  | .prechecked n i (.ok true) => if n = k then some i else none
  | .verified n i (.ok true) => if n = k then some i else none
  | _ => none

def hint? : Entry α → Option Duration
  | .handled _ _ (.ok hint) => hint
  | _ => none

variable {k n : Nat} {x : Entry α} {i : Item α} {d : Duration} {j : List (Entry α)}

theorem settles?_eq_some_iff :
    x.settles? k = some i ↔ x = .prechecked k i (.ok true) ∨ x = .verified k i (.ok true) := by
  constructor
  · intro h
    unfold settles? at h
    split at h
    · split at h
      · rename_i same
        cases h
        exact Or.inl (by rw [same])
      · cases h
    · split at h
      · rename_i same
        cases h
        exact Or.inr (by rw [same])
      · cases h
    · cases h
  · rintro (rfl | rfl)
    · exact if_pos rfl
    · exact if_pos rfl

theorem settles?_of_number (other : x.number? ≠ some k) : x.settles? k = none := by
  rw [Option.eq_none_iff_forall_ne_some]
  intro i h
  rcases settles?_eq_some_iff.mp h with rfl | rfl
  · exact other rfl
  · exact other rfl

def settled (k : Nat) (j : List (Entry α)) : List (Item α) := j.filterMap (settles? k)

def hints (j : List (Entry α)) : List Duration := j.filterMap hint?

theorem mem_settled :
    i ∈ settled k j ↔ .prechecked k i (.ok true) ∈ j ∨ .verified k i (.ok true) ∈ j := by
  rw [settled, List.mem_filterMap]
  constructor
  · rintro ⟨x, mem, settles⟩
    rcases settles?_eq_some_iff.mp settles with rfl | rfl
    · exact Or.inl mem
    · exact Or.inr mem
  · rintro (mem | mem)
    · exact ⟨_, mem, settles?_eq_some_iff.mpr (Or.inl rfl)⟩
    · exact ⟨_, mem, settles?_eq_some_iff.mpr (Or.inr rfl)⟩

theorem mem_hints : d ∈ hints j ↔ ∃ n given, .handled n given (.ok (some d)) ∈ j := by
  rw [hints, List.mem_filterMap]
  constructor
  · rintro ⟨x, mem, given⟩
    unfold hint? at given
    split at given
    · subst given
      exact ⟨_, _, mem⟩
    · cases given
  · rintro ⟨n, given, mem⟩
    exact ⟨_, mem, rfl⟩

theorem settled_concat (k : Nat) (j : List (Entry α)) (x : Entry α) :
    settled k (j ++ [x]) = settled k j ++ (x.settles? k).toList :=
  filterMap_concat (settles? k) j x

end Entry

open Entry (settled hints)

namespace Batch

def undecided : Batch α → List (Item α)
  | .checking unchecked _ remaining => unchecked ++ remaining
  | .clearing _ remaining => remaining
  | .handling items => items
  | .verifying unverified _ _ => unverified
  | .removing _ _ => []
  | .done _ => []

def report : Batch α → Report
  | .verifying _ _ report => report
  | .removing _ report => report
  | .done (.ok report) => report
  | _ => {}

theorem handle_eq (items : List (Item α)) :
    (handle items).undecided = items ∧ (handle items).report = {} := by
  cases items <;> exact ⟨rfl, rfl⟩

theorem check_eq (unchecked : List (Item α)) (satisfied : List Position)
    (remaining : List (Item α)) :
    (check unchecked satisfied remaining).undecided = unchecked ++ remaining ∧
      (check unchecked satisfied remaining).report = {} := by
  cases unchecked with
  | cons i unchecked => exact ⟨rfl, rfl⟩
  | nil =>
    cases satisfied with
    | nil => exact handle_eq remaining
    | cons p satisfied => exact ⟨rfl, rfl⟩

theorem verify_eq (unverified : List (Item α)) (completed : List Position) (report : Report) :
    (verify unverified completed report).undecided = unverified ∧
      (verify unverified completed report).report = report := by
  cases unverified with
  | cons i unverified => exact ⟨rfl, rfl⟩
  | nil => cases completed <;> exact ⟨rfl, rfl⟩

/-- Batch `n` of these items stands with its report as the journal has it: each item is over, or
undecided, or counted as kept, and its hint is the one that its handler has given. -/
structure Weighs (n : Nat) (items : List (Item α)) (j : List (Entry α)) (b : Batch α) : Prop where
  counted : ∃ kept : List (Item α),
    items.Perm (settled n j ++ (b.undecided ++ kept)) ∧ kept.length = b.report.kept
  hinted : ∀ d, b.report.hint = some d ↔ ∃ given, .handled n given (.ok (some d)) ∈ j

variable {k n : Nat} {items : List (Item α)} {j : List (Entry α)} {b b' : Batch α}
  {x : Option (Entry α)} {y : Entry α}

theorem Weighs.concat (h : b.Weighs n items j) (other : y.number? ≠ some n) :
    b.Weighs n items (j ++ [y]) := by
  refine ⟨?_, fun d => ?_⟩
  · rw [Entry.settled_concat, Entry.settles?_of_number other, Option.toList_none, List.append_nil]
    exact h.counted
  · rw [h.hinted]
    constructor
    · rintro ⟨given, mem⟩
      exact ⟨given, List.mem_append_left _ mem⟩
    · rintro ⟨given, mem⟩
      rcases List.mem_append.mp mem with mem | new
      · exact ⟨given, mem⟩
      · rw [← List.mem_singleton.mp new] at other
        exact absurd rfl other

theorem weighs_start (fresh : ∀ y ∈ j, y.number? ≠ some n) :
    (start items).Weighs n items (j ++ [.read n items]) := by
  have none : settled n (j ++ [.read n items]) = [] := by
    refine List.filterMap_eq_nil_iff.mpr fun y mem => ?_
    rcases List.mem_append.mp mem with mem | new
    · exact Entry.settles?_of_number (fresh y mem)
    · rw [List.mem_singleton.mp new]
      rfl
  obtain ⟨left, report⟩ := check_eq items [] []
  refine ⟨⟨[], ?_, ?_⟩, fun d => ?_⟩
  · rw [start, none, left]
    simp
  · rw [start, report]
    rfl
  · rw [start, report]
    constructor
    · intro hint
      cases hint
    · rintro ⟨given, mem⟩
      rcases List.mem_append.mp mem with mem | new
      · exact absurd rfl (fresh _ mem)
      · cases List.mem_singleton.mp new

theorem not_failed_ok (r : Report) : ¬ (Batch.done (.ok r) : Batch α).Failed := by
  rintro ⟨f, ⟨⟩⟩

theorem Answers.not_failed (a : b.Answers k x b') (going : ¬ b'.Failed) : ¬ b.Failed := by
  cases a with
  | failed b e => exact absurd ⟨e, rfl⟩ going
  | _ => rintro ⟨f, ⟨⟩⟩

theorem Answers.ne_read (a : b.Answers k x b') (items : List (Item α)) :
    x ≠ some (.read n items) := by
  cases a <;> simp

theorem Weighs.decide (h : b.Weighs n items j) (unhandled : ∀ given a, y ≠ .handled n given a)
    (hint : b'.report.hint = b.report.hint)
    (decided : ∀ kept : List (Item α), kept.length = b.report.kept → ∃ kept' : List (Item α),
      (b.undecided ++ kept).Perm ((y.settles? n).toList ++ (b'.undecided ++ kept')) ∧
        kept'.length = b'.report.kept) : b'.Weighs n items (j ++ [y]) := by
  obtain ⟨⟨kept, whole, count⟩, hinted⟩ := h
  refine ⟨?_, fun d => ?_⟩
  · obtain ⟨kept', onward, count'⟩ := decided kept count
    refine ⟨kept', whole.trans ?_, count'⟩
    rw [Entry.settled_concat, List.append_assoc]
    exact onward.append_left _
  · rw [hint, hinted]
    constructor
    · rintro ⟨given, mem⟩
      exact ⟨given, List.mem_append_left _ mem⟩
    · rintro ⟨given, mem⟩
      refine ⟨given, (List.mem_append.mp mem).resolve_right fun new => ?_⟩
      exact unhandled given _ (List.mem_singleton.mp new).symm

theorem Weighs.prechecked {i : Item α} {unchecked remaining : List (Item α)}
    {satisfied : List Position}
    (h : (Batch.checking (i :: unchecked) satisfied remaining).Weighs n items j)
    (a : Except Failure Bool) :
    (Batch.prechecked i unchecked satisfied remaining a).Weighs n items
      (j ++ [.prechecked n i a]) := by
  have checked : ∀ satisfied' remaining',
      (i :: (unchecked ++ remaining)).Perm
        (((Entry.prechecked n i a).settles? n).toList ++ (unchecked ++ remaining')) →
      (check unchecked satisfied' remaining').Weighs n items (j ++ [.prechecked n i a]) := by
    intro satisfied' remaining' moved
    obtain ⟨left, report⟩ := check_eq unchecked satisfied' remaining'
    refine h.decide (by simp) (congrArg Report.hint report) fun kept count =>
      ⟨kept, ?_, count.trans (congrArg Report.kept report).symm⟩
    rw [left, ← List.append_assoc]
    exact moved.append_right kept
  have postponed : (i :: (unchecked ++ remaining)).Perm (unchecked ++ (remaining ++ [i])) := by
    rw [← List.append_assoc]
    exact (List.perm_append_singleton i _).symm
  rcases a with f | satisfies
  · exact checked _ _ postponed
  · cases satisfies with
    | false => exact checked _ _ postponed
    | true =>
      refine checked _ _ ?_
      rw [Entry.settles?, if_pos rfl]
      exact List.Perm.refl _

theorem Weighs.verified {i : Item α} {unverified : List (Item α)} {completed : List Position}
    {report : Report}
    (h : (Batch.verifying (i :: unverified) completed report).Weighs n items j)
    (a : Except Failure Bool) :
    (Batch.verified i unverified completed report a).Weighs n items (j ++ [.verified n i a]) := by
  have keeps : (Entry.verified n i a).settles? n = none →
      (verify unverified completed { report with kept := report.kept + 1 }).Weighs n items
        (j ++ [.verified n i a]) := by
    intro unsettled
    obtain ⟨left, told⟩ := verify_eq unverified completed { report with kept := report.kept + 1 }
    refine h.decide (by simp) (by rw [told]; rfl) fun kept count => ⟨i :: kept, ?_, ?_⟩
    · rw [unsettled, left]
      exact List.perm_middle.symm
    · rw [told, List.length_cons]
      exact congrArg (· + 1) count
  rcases a with f | complete
  · exact keeps rfl
  · cases complete with
    | false => exact keeps rfl
    | true =>
      obtain ⟨left, told⟩ := verify_eq unverified (completed ++ [i.position]) report
      refine h.decide (by simp) (congrArg Report.hint told) fun kept count =>
        ⟨kept, ?_, count.trans (congrArg Report.kept told).symm⟩
      rw [Batch.verified, left, Entry.settles?, if_pos rfl]
      exact List.Perm.refl _

theorem Weighs.handled {given : List (Item α)} (h : (Batch.handling given).Weighs n items j)
    (a : Except Failure (Option Duration)) :
    (Batch.handled given a).Weighs n items (j ++ [.handled n given a]) := by
  obtain ⟨⟨kept, whole, count⟩, hinted⟩ := h
  obtain rfl : kept = [] := List.length_eq_zero_iff.mp count
  have here : settled n (j ++ [.handled n given a]) = settled n j := by
    rw [Entry.settled_concat]
    exact List.append_nil _
  have only : ∀ d, a = .ok (some d) ↔
      ∃ given', .handled n given' (.ok (some d)) ∈ j ++ [.handled n given a] := by
    intro d
    constructor
    · rintro rfl
      exact ⟨given, List.mem_append_right _ List.mem_cons_self⟩
    · rintro ⟨given', mem⟩
      rcases List.mem_append.mp mem with mem | new
      · cases (hinted d).mpr ⟨given', mem⟩
      · cases List.mem_singleton.mp new
        rfl
  rcases a with f | hint
  · refine ⟨⟨given, ?_, rfl⟩, fun d => ?_⟩
    · rw [here]
      rw [List.append_nil] at whole
      exact whole
    · rw [← only d]
      constructor <;> rintro ⟨⟩
  · obtain ⟨left, told⟩ := verify_eq given [] { hint := hint }
    refine ⟨⟨[], ?_, ?_⟩, fun d => ?_⟩
    · rw [here, Batch.handled, left]
      exact whole
    · rw [Batch.handled, told]
      rfl
    · rw [Batch.handled, told, ← only d]
      simp

/-- With each answer a batch goes on to report what the journal says about its items. -/
theorem Answers.weighs (a : b.Answers n x b') (going : ¬ b'.Failed) (h : b.Weighs n items j) :
    b'.Weighs n items (j ++ x.toList) := by
  cases a with
  | prechecked i unchecked satisfied remaining a => exact h.prechecked a
  | handled given a => exact h.handled a
  | verified i unverified completed report a => exact h.verified a
  | cleared satisfied remaining =>
    obtain ⟨left, report⟩ := handle_eq remaining
    rw [Option.toList_none, List.append_nil]
    exact ⟨by rw [left, report]; exact h.counted, by rw [report]; exact h.hinted⟩
  | removed completed report =>
    rw [Option.toList_none, List.append_nil]
    exact ⟨h.counted, h.hinted⟩
  | failed b e => exact absurd ⟨e, rfl⟩ going

end Batch

/-! ## A pass under way -/

namespace Drain

variable {d d' : Drain α} {q : Queue α} {chunk k n : Nat} {j : List (Entry α)}
  {x : Option (Entry α)} {y : Entry α} {b : Batch α}

/-- The batches of a pass are those of the journal, each standing in one place with the report that
the journal says. -/
structure Accounted (j : List (Entry α)) (d : Drain α) : Prop where
  below : ∀ n b, d.At n b → n < d.window.pulled
  apart : ∀ n b result, (n, b) ∈ d.window.running → (n, result) ∉ d.window.outputs
  named : ∀ n b, d.At n b → ¬ b.Failed → ∃ items, .read n items ∈ j
  stands : ∀ y ∈ j, ∀ n, y.number? = some n → ∃ b, d.At n b
  distinct : ∀ n items, .read n items ∈ j → items.Nodup
  weighs : ∀ n b items, d.At n b → ¬ b.Failed → .read n items ∈ j → b.Weighs n items j

theorem accounted_new (concurrency : Nat) : (new concurrency : Drain α).Accounted [] where
  below n b stands := by rcases stands with h | ⟨_, _, h⟩ <;> cases h
  apart n b result running := by cases running
  named n b stands := by rcases stands with h | ⟨_, _, h⟩ <;> cases h
  stands y mem := by cases mem
  distinct n items mem := by cases mem
  weighs n b items stands going mem := by cases mem

theorem Accounted.fresh (h : d.Accounted j) (mem : y ∈ j) :
    y.number? ≠ some d.window.pulled := by
  intro number
  obtain ⟨b, stands⟩ := h.stands y mem _ number
  exact Nat.lt_irrefl _ (h.below _ _ stands)

theorem Accounted.of_at (h : d.Accounted j) (same : ∀ n b, d'.At n b ↔ d.At n b)
    (pulled : d'.window.pulled = d.window.pulled)
    (apart : ∀ n b result, (n, b) ∈ d'.window.running → (n, result) ∉ d'.window.outputs) :
    d'.Accounted j where
  below n b stands := pulled ▸ h.below n b ((same n b).mp stands)
  apart := apart
  named n b stands := h.named n b ((same n b).mp stands)
  stands y mem n number := by
    obtain ⟨b, stands⟩ := h.stands y mem n number
    exact ⟨b, (same n b).mpr stands⟩
  distinct := h.distinct
  weighs n b items stands := h.weighs n b items ((same n b).mp stands)

theorem Accounted.concat (h : d.Accounted j) (none : y.number? = none) :
    d.Accounted (j ++ [y]) := by
  have before : ∀ n items, .read n items ∈ j ++ [y] → .read n items ∈ j := by
    intro n items mem
    refine (List.mem_append.mp mem).resolve_right fun new => ?_
    rw [← List.mem_singleton.mp new] at none
    cases none
  refine ⟨h.below, h.apart, fun n b stands going => ?_, fun z mem n number => ?_,
    fun n items mem => h.distinct n items (before n items mem),
    fun n b items stands going mem => ?_⟩
  · obtain ⟨items, mem⟩ := h.named n b stands going
    exact ⟨items, List.mem_append_left _ mem⟩
  · rcases List.mem_append.mp mem with mem | new
    · exact h.stands z mem n number
    · rw [List.mem_singleton.mp new, none] at number
      cases number
  · exact (h.weighs n b items stands going (before n items mem)).concat (by simp [none])

theorem Accounted.pull (h : d.Accounted j) (window : d'.window = { d.window with
      pulled := d.window.pulled + 1, running := d.window.running ++ [(d.window.pulled, b)] })
    (entry : (∃ items, y = .read d.window.pulled items ∧ items.Nodup ∧ b = .start items) ∨
      y.number? = none ∧ b.Failed) : d'.Accounted (j ++ [y]) := by
  have number : ∀ n, y.number? = some n → n = d.window.pulled := by
    intro n number
    rcases entry with ⟨items, rfl, -⟩ | ⟨none, -⟩
    · exact (Option.some.inj number).symm
    · rw [none] at number
      cases number
  have pulled : d'.window.pulled = d.window.pulled + 1 := by rw [window]
  refine ⟨fun n c stands => ?_, fun n c result running output => ?_, fun n c stands going => ?_,
    fun z mem n number' => ?_, fun n items mem => ?_, fun n c items stands going mem => ?_⟩
  · rw [pulled]
    rcases (at_pull window).mp stands with ⟨rfl, -⟩ | before
    · exact Nat.lt_succ_self _
    · exact Nat.lt_succ_of_lt (h.below n c before)
  · rw [window] at running output
    rcases List.mem_append.mp running with before | new
    · exact h.apart n c result before output
    · cases List.mem_singleton.mp new
      exact Nat.lt_irrefl _ (h.below _ _ (Or.inr ⟨result, rfl, output⟩))
  · rcases (at_pull window).mp stands with ⟨rfl, rfl⟩ | before
    · rcases entry with ⟨items, rfl, -⟩ | ⟨-, failed⟩
      · exact ⟨items, List.mem_append_right _ List.mem_cons_self⟩
      · exact absurd failed going
    · obtain ⟨items, mem⟩ := h.named n c before going
      exact ⟨items, List.mem_append_left _ mem⟩
  · rcases List.mem_append.mp mem with mem | new
    · obtain ⟨c, before⟩ := h.stands z mem n number'
      exact ⟨c, (at_pull window).mpr (Or.inr before)⟩
    · rw [List.mem_singleton.mp new] at number'
      exact ⟨b, (at_pull window).mpr (Or.inl ⟨number n number', rfl⟩)⟩
  · rcases List.mem_append.mp mem with mem | new
    · exact h.distinct n items mem
    · rcases entry with ⟨items', rfl, distinct, -⟩ | ⟨none, -⟩
      · cases List.mem_singleton.mp new
        exact distinct
      · rw [← List.mem_singleton.mp new] at none
        cases none
  · rcases (at_pull window).mp stands with ⟨rfl, rfl⟩ | before
    · rcases entry with ⟨items', rfl, -, rfl⟩ | ⟨-, failed⟩
      · rcases List.mem_append.mp mem with mem | new
        · exact absurd rfl (h.fresh mem)
        · cases List.mem_singleton.mp new
          exact Batch.weighs_start fun z mem => h.fresh mem
      · exact absurd failed going
    · have low := h.below n c before
      have other : y.number? ≠ some n := fun same => by
        have := number n same
        omega
      rcases List.mem_append.mp mem with mem | new
      · exact (h.weighs n c items before going mem).concat other
      · rw [← List.mem_singleton.mp new] at other
        exact absurd rfl other

theorem Accounted.answer {b' : Batch α} (h : d.Accounted j) (numbered : d.window.Numbered)
    (found : d.window.get? k = some b) (answers : b.Answers k x b') :
    (d.put k b').Accounted (j ++ x.toList) := by
  have flies := numbered.get?_eq_some_iff.mp found
  have moved : ∀ {n c}, (d.put k b').At n c ↔ (n = k ∧ c = b') ∨ (n ≠ k ∧ d.At n c) :=
    at_put numbered found fun result => h.apart k b result flies
  have before : ∀ n items, .read n items ∈ j ++ x.toList → .read n items ∈ j := by
    intro n items mem
    refine (List.mem_append.mp mem).resolve_right fun new => ?_
    exact answers.ne_read items (Option.mem_toList.mp new)
  refine ⟨fun n c stands => ?_, fun n c result running output => ?_, fun n c stands going => ?_,
    fun z mem n number => ?_, fun n items mem => h.distinct n items (before n items mem),
    fun n c items stands going mem => ?_⟩
  · rcases moved.mp stands with ⟨rfl, -⟩ | ⟨-, same⟩
    · exact numbered.pulled _ flies
    · exact h.below n c same
  · rcases (numbered.mem_running_set found).mp running with same | ⟨-, same⟩
    · cases same
      exact h.apart k b result flies output
    · exact h.apart n c result same output
  · have read : ∃ items, .read n items ∈ j := by
      rcases moved.mp stands with ⟨rfl, rfl⟩ | ⟨-, same⟩
      · exact h.named n b (Or.inl flies) (answers.not_failed going)
      · exact h.named n c same going
    obtain ⟨items, mem⟩ := read
    exact ⟨items, List.mem_append_left _ mem⟩
  · by_cases here : n = k
    · exact ⟨b', moved.mpr (Or.inl ⟨here, rfl⟩)⟩
    · rcases List.mem_append.mp mem with mem | new
      · obtain ⟨c, same⟩ := h.stands z mem n number
        exact ⟨c, moved.mpr (Or.inr ⟨here, same⟩)⟩
      · rw [answers.number z (Option.mem_toList.mp new)] at number
        exact absurd (Option.some.inj number).symm here
  · have mem := before n items mem
    rcases moved.mp stands with ⟨rfl, rfl⟩ | ⟨other, same⟩
    · exact answers.weighs going
        (h.weighs n b items (Or.inl flies) (answers.not_failed going) mem)
    · have still := h.weighs n c items same going mem
      cases x with
      | none =>
        rw [Option.toList_none, List.append_nil]
        exact still
      | some y =>
        refine still.concat ?_
        rw [answers.number y rfl]
        exact fun same => other (Option.some.inj same).symm

theorem Moves.accounted (m : Moves q chunk d x d') (sound : q.Sound) (numbered : d.window.Numbered)
    (h : d.Accounted j) : d'.Accounted (j ++ x.toList) := by
  cases m with
  | stay =>
    rw [Option.toList_none, List.append_nil]
    exact h
  | saved items => exact h.concat rfl
  | close w closed =>
    obtain ⟨-, rfl⟩ := Window.close?_cases closed
    rw [Option.toList_none, List.append_nil]
    exact h.of_at (fun n b => Iff.rfl) rfl h.apart
  | readFailed w e pulled =>
    obtain ⟨-, rfl⟩ := Window.pull?_cases pulled
    exact h.pull rfl (Or.inr ⟨rfl, e, rfl⟩)
  | read w last ends pulled =>
    obtain ⟨-, rfl⟩ := Window.pull?_cases pulled
    refine h.pull rfl (Or.inl ⟨_, rfl, ?_, rfl⟩)
    refine List.Nodup.of_map Item.position ?_
    rw [sound.map_position_readAfter]
    exact (Position.nodup_of_pairwise (sound.above_ascending _)).sublist (List.take_sublist _ _)
  | answer k b b' x found answers => exact h.answer numbered found answers
  | collect d' k collects =>
    obtain ⟨result, w, found, completed, rfl⟩ := collect_cases collects
    have flies := numbered.get?_eq_some_iff.mp found
    rw [Window.complete?_cases completed, Option.toList_none, List.append_nil]
    refine h.of_at (fun n b => at_collect numbered found rfl) rfl
      fun n b result' running output => ?_
    obtain ⟨running, other⟩ := List.mem_filter.mp running
    rcases List.mem_append.mp output with before | new
    · exact h.apart n b result' running before
    · cases List.mem_singleton.mp new
      simp at other

/-! ## The outputs of a pass -/

theorem output_of_at (idle : d.window.running = [])
    (fine : ∀ f, .error f ∉ d.window.outputs.map (·.2)) (stands : d.At n b) :
    ∃ r, b = .done (.ok r) ∧ .ok r ∈ d.window.outputs.map (·.2) := by
  rcases stands with running | ⟨result, rfl, output⟩
  · rw [idle] at running
    cases running
  · have mem := List.mem_map_of_mem (f := (·.2)) output
    cases result with
    | error f => exact absurd mem (fine f)
    | ok r => exact ⟨r, rfl, mem⟩

theorem Accounted.weighs_of_output (h : d.Accounted j) {r : Report}
    (mem : .ok r ∈ d.window.outputs.map (·.2)) :
    ∃ n items, .read n items ∈ j ∧ (Batch.done (.ok r)).Weighs n items j := by
  obtain ⟨⟨n, result⟩, mem, same⟩ := List.mem_map.mp mem
  cases same
  have stands : d.At n (.done (.ok r)) := Or.inr ⟨_, rfl, mem⟩
  obtain ⟨items, read⟩ := h.named n _ stands (Batch.not_failed_ok r)
  exact ⟨n, items, read, h.weighs n _ items stands (Batch.not_failed_ok r) read⟩

theorem Accounted.output_of_read (h : d.Accounted j) (idle : d.window.running = [])
    (fine : ∀ f, .error f ∉ d.window.outputs.map (·.2)) {items : List (Item α)}
    (read : .read n items ∈ j) :
    ∃ r, .ok r ∈ d.window.outputs.map (·.2) ∧ (Batch.done (.ok r)).Weighs n items j := by
  obtain ⟨b, stands⟩ := h.stands _ read n rfl
  obtain ⟨r, rfl, mem⟩ := output_of_at idle fine stands
  exact ⟨r, mem, h.weighs n _ items stands (Batch.not_failed_ok r) read⟩

theorem Accounted.mem_hints (h : d.Accounted j) (idle : d.window.running = [])
    (fine : ∀ f, .error f ∉ d.window.outputs.map (·.2)) (hint : Duration) :
    hint ∈ hints j ↔ ∃ r, .ok r ∈ d.window.outputs.map (·.2) ∧ r.hint = some hint := by
  rw [Entry.mem_hints]
  constructor
  · rintro ⟨n, given, handled⟩
    obtain ⟨b, stands⟩ := h.stands _ handled n rfl
    obtain ⟨r, rfl, mem⟩ := output_of_at idle fine stands
    obtain ⟨items, read⟩ := h.named n _ stands (Batch.not_failed_ok r)
    have weighs := h.weighs n _ items stands (Batch.not_failed_ok r) read
    exact ⟨r, mem, (weighs.hinted hint).mpr ⟨given, handled⟩⟩
  · rintro ⟨r, mem, given⟩
    obtain ⟨n, items, -, weighs⟩ := h.weighs_of_output mem
    obtain ⟨given, handled⟩ := (weighs.hinted hint).mp given
    exact ⟨n, given, handled⟩

end Drain

end ChainFetch.Work
