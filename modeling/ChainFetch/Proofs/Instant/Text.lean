import Mathlib.Data.List.TakeWhile
import ChainFetch.Instant.Text
import ChainFetch.Proofs.Instant.Calendar
/-!
Instants read back from their text. Main statements: `read?_text`, the instant that a text names,
and `read?_text_eq_some_iff`, the instants that are found again.
-/

namespace ChainFetch.Instant

open Text (padded trimLeft isBlank)

variable {c : Char} {cs rest : List Char} {width n : Nat}

/-! ## The parts of a text -/

theorem not_isBlank_of_isDigit (digit : c.isDigit = true) : isBlank c = false := by
  simp only [Char.isDigit, Bool.and_eq_true, decide_eq_true_eq] at digit
  obtain ⟨least, most⟩ := digit
  have least : 48 ≤ c.toNat := least
  have most : c.toNat ≤ 57 := most
  simp only [isBlank, Text.blankRanges, List.any_cons, List.any_nil, Bool.or_false,
    Bool.or_eq_false_iff, Bool.and_eq_false_iff, decide_eq_false_iff_not]
  omega

theorem trimLeft_cons (solid : isBlank c = false) (cs : List Char) :
    trimLeft (c :: cs) = c :: cs := by
  simp [trimLeft, solid]

theorem exists_padded_eq_cons (width n : Nat) :
    ∃ d ds, (padded width n).toList = d :: ds ∧ d.isDigit = true := by
  obtain ⟨d, ds, digits⟩ := List.exists_cons_of_ne_nil (Text.padded_ne_nil width n)
  refine ⟨d, ds, digits, Text.isDigit_of_mem_padded (?_ : d ∈ (padded width n).toList)⟩
  rw [digits]
  exact List.mem_cons_self

theorem trimLeft_padded (width n : Nat) (rest : List Char) :
    trimLeft ((padded width n).toList ++ rest) = (padded width n).toList ++ rest := by
  obtain ⟨d, ds, digits, digit⟩ := exists_padded_eq_cons width n
  rw [digits]
  exact trimLeft_cons (not_isBlank_of_isDigit digit) _

theorem number?_padded (fits : n < Nat.pow 10 width) (places : 0 < width) (rest : List Char) :
    number? width ((padded width n).toList ++ rest) = some (n, rest) := by
  have length := Text.length_padded fits places
  have taken : (((padded width n).toList ++ rest).take width).takeWhile Char.isDigit =
      (padded width n).toList := by
    rw [List.take_left' length, List.takeWhile_eq_self_iff]
    exact fun _ => Text.isDigit_of_mem_padded
  unfold number?
  dsimp only
  rw [trimLeft_padded, taken, if_neg (Text.padded_ne_nil width n), List.drop_left' rfl,
    Text.ofDigits_padded]

theorem mark?_cons (solid : isBlank c = false) (rest : List Char) :
    mark? c (c :: rest) = some rest := by
  rw [mark?, trimLeft_cons solid]
  exact if_pos rfl

theorem year?_signed (stops : c.isDigit = false) (rest : List Char) :
    year? ('-' :: ((padded width n).toList ++ c :: rest)) = some (-(n : Int), c :: rest) ∧
      year? ('+' :: ((padded width n).toList ++ c :: rest)) = some ((n : Int), c :: rest) := by
  refine ⟨?_, ?_⟩
  all_goals
    unfold year?
    rw [trimLeft_cons (by decide)]
    simp only [Text.splitDigits_padded stops, if_neg (Text.padded_ne_nil width n),
      Text.ofDigits_padded, Option.map_some]

theorem year?_digits (fits : n < Nat.pow 10 4) (rest : List Char) :
    year? ((padded 4 n).toList ++ rest) = some ((n : Int), rest) := by
  have signless : ∀ sign tail, sign.isDigit = false →
      (padded 4 n).toList ++ rest ≠ sign :: tail := by
    intro sign tail other same
    obtain ⟨d, ds, digits, digit⟩ := exists_padded_eq_cons 4 n
    rw [digits] at same
    obtain ⟨rfl, -⟩ := List.cons.inj same
    rw [other] at digit
    cases digit
  unfold year?
  dsimp only
  rw [trimLeft_padded]
  split
  · exact absurd ‹_› (signless _ _ rfl)
  · exact absurd ‹_› (signless _ _ rfl)
  · rw [number?_padded fits (by decide)]
    rfl

theorem year?_yearText (year : Int) (stops : c.isDigit = false) (rest : List Char) :
    year? ((yearText year).toList ++ c :: rest) = some (year, c :: rest) := by
  unfold yearText
  split
  · rename_i range
    have fits : year.toNat < Nat.pow 10 4 := by
      change year.toNat < 10000
      omega
    rw [year?_digits fits, Int.toNat_of_nonneg range.1]
  · split
    · rename_i before
      have size : -(year.natAbs : Int) = year := by omega
      have read : year? ('-' :: ((padded 4 year.natAbs).toList ++ c :: rest)) =
          some (-(year.natAbs : Int), c :: rest) := (year?_signed stops rest).1
      rw [size] at read
      simpa using read
    · rename_i since
      have size : (year.natAbs : Int) = year := by omega
      have read : year? ('+' :: ((padded 4 year.natAbs).toList ++ c :: rest)) =
          some ((year.natAbs : Int), c :: rest) := (year?_signed stops rest).2
      rw [size] at read
      simpa using read

theorem fraction?_padded (fits : n < Nat.pow 10 width) (places : 0 < width) (most : width ≤ 9)
    (rest : List Char) : fraction? ('.' :: ((padded width n).toList ++ 'Z' :: rest)) =
      some (n * Nat.pow 10 (9 - width), 'Z' :: rest) := by
  have length := Text.length_padded fits places
  have whole : (padded width n).toList.take 9 = (padded width n).toList :=
    List.take_of_length_le (by rw [length]; exact most)
  have stops : 'Z'.isDigit = false := by decide
  simp only [fraction?, Text.splitDigits_padded stops, if_neg (Text.padded_ne_nil width n), whole,
    Text.ofDigits_padded, length]

theorem fraction?_fractionText (fits : n < 1000000000) (rest : List Char) :
    fraction? ((fractionText n).toList ++ 'Z' :: rest) = some (n, 'Z' :: rest) := by
  unfold fractionText
  split
  · rename_i none
    rw [none]
    simp [fraction?]
  · split
    · rename_i millis
      have short : n / 1000000 < Nat.pow 10 3 := by change n / 1000000 < 1000; omega
      have read := fraction?_padded short (by decide) (by decide) rest
      have back : n / 1000000 * Nat.pow 10 (9 - 3) = n := by change n / 1000000 * 1000000 = n; omega
      rw [back] at read
      simpa using read
    · split
      · rename_i micros
        have short : n / 1000 < Nat.pow 10 6 := by change n / 1000 < 1000000; omega
        have read := fraction?_padded short (by decide) (by decide) rest
        have back : n / 1000 * Nat.pow 10 (9 - 6) = n := by change n / 1000 * 1000 = n; omega
        rw [back] at read
        simpa using read
      · have whole : n < Nat.pow 10 9 := fits
        have read := fraction?_padded whole (by decide) (by decide) rest
        simpa using read

/-! ## Instants -/

theorem offset?_zulu : offset? ['Z'] = some (0, []) := by
  rw [offset?, trimLeft_cons (by decide)]
  rfl

theorem read?_parts {year : Int} {month day hour minute second nanos : Nat}
    (date : Calendar.isDate year month day = true) (hours : hour ≤ 23) (minutes : minute ≤ 59)
    (seconds : second ≤ 60) (fraction : nanos < 1000000000) :
    read? (yearText year ++ "-" ++ padded 2 month ++ "-" ++ padded 2 day ++ "T" ++ padded 2 hour ++
        ":" ++ padded 2 minute ++ ":" ++ padded 2 second ++ fractionText nanos ++ "Z") =
      let leap := second / 60
      let wall := Calendar.toDays year month day * 86400 +
        (hour * 3600 + minute * 60 + (second - leap) : Nat)
      if firstSecond ≤ wall ∧ wall ≤ lastSecond then mk? wall (nanos + leap * 1000000000)
      else none := by
  have two {n : Nat} (fits : n < 100) (rest : List Char) :
      number? 2 ((padded 2 n).toList ++ rest) = some (n, rest) :=
    number?_padded fits (by decide) rest
  have marked {c : Char} {n : Nat} (solid : isBlank c = false) (fits : n < 100)
      (rest : List Char) :
      (mark? c (c :: ((padded 2 n).toList ++ rest))).bind (number? 2) = some (n, rest) := by
    rw [mark?_cons solid, Option.bind_some, two fits]
  obtain ⟨months, days⟩ := Calendar.lt_of_isDate date
  have hyphen : "-".toList = ['-'] := by simp
  have colon : ":".toList = [':'] := by simp
  have tee : "T".toList = ['T'] := by simp
  have zulu : "Z".toList = ['Z'] := by simp
  unfold read?
  simp only [String.toList_append, List.append_assoc, hyphen, colon, tee, zulu, List.cons_append,
    List.nil_append]
  dsimp only [Option.bind_eq_bind]
  rw [year?_yearText year (by decide), Option.bind_some, marked (by decide) months,
    Option.bind_some, marked (by decide) days, Option.bind_some]
  dsimp only
  rw [if_pos (Or.inl rfl), Option.bind_some, two (by omega : hour < 100), Option.bind_some,
    marked (by decide) (by omega : minute < 100), Option.bind_some,
    marked (by decide) (by omega : second < 100), Option.bind_some,
    fraction?_fractionText fraction, Option.bind_some, offset?_zulu, Option.bind_some,
    if_neg (fun left => left rfl), if_pos ⟨hours, minutes, seconds, by decide, date⟩, Int.sub_zero]

/-- Only the last second of a minute is followed by a leap second. -/
def Shown (t : Instant) : Prop := t.nanos < 1000000000 ∨ t.secs % 60 = 59

instance (t : Instant) : Decidable t.Shown :=
  inferInstanceAs (Decidable (t.nanos < 1000000000 ∨ t.secs % 60 = 59))

/-- The text of an instant names its second, or in the middle of a minute the one after a leap
second. -/
theorem read?_text (t : Instant) : read? t.text =
    let second := (t.secs % 86400).toNat % 60 + t.nanos / 1000000000
    let wall := t.secs + (t.nanos / 1000000000 - second / 60 : Nat)
    if firstSecond ≤ wall ∧ wall ≤ lastSecond then
      mk? wall (t.nanos % 1000000000 + second / 60 * 1000000000)
    else none := by
  have back := Calendar.toDays_ofDays (t.secs / 86400)
  have date := Calendar.isDate_ofDays (t.secs / 86400)
  have bound := t.nanos_lt
  unfold text
  generalize Calendar.ofDays (t.secs / 86400) = named at back date
  obtain ⟨year, month, day⟩ := named
  dsimp only at back date ⊢
  rw [read?_parts date (by omega) (by omega) (by omega) (by omega), back]
  dsimp only
  generalize split : (t.secs % 86400).toNat = clock
  have wall : t.secs / 86400 * 86400 + ((clock / 3600 * 3600 + clock / 60 % 60 * 60 +
      (clock % 60 + t.nanos / 1000000000 - (clock % 60 + t.nanos / 1000000000) / 60) : Nat) : Int) =
      t.secs + (t.nanos / 1000000000 - (clock % 60 + t.nanos / 1000000000) / 60 : Nat) := by
    omega
  rw [wall]

/-- An instant is found again by its text exactly if a clock can show it. -/
theorem read?_text_eq_some_iff {t : Instant} : read? t.text = some t ↔ t.Shown := by
  have bound := t.nanos_lt
  rw [read?_text]
  dsimp only
  generalize split : (t.secs % 86400).toNat % 60 + t.nanos / 1000000000 = second
  constructor
  · intro found
    obtain ⟨-, found⟩ := Option.ite_none_right_eq_some.mp found
    obtain ⟨secs, nanos⟩ := parts_of_mk? found
    unfold Shown
    omega
  · intro shown
    unfold Shown at shown
    have leap : second / 60 = t.nanos / 1000000000 := by omega
    have nanos : t.nanos % 1000000000 + t.nanos / 1000000000 * 1000000000 = t.nanos := by omega
    rw [leap, nanos, Nat.sub_self]
    simp [t.secs_ge, t.secs_le, mk?_parts]

end ChainFetch.Instant
