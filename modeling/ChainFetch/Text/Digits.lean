/-!
Decimal digits: splitting them off a text, their value, and reading a count below `2 ^ 64`.
-/

namespace ChainFetch.Text

def splitDigits (cs : List Char) : List Char × List Char :=
  (cs.takeWhile Char.isDigit, cs.dropWhile Char.isDigit)

def digitValue (c : Char) : Nat := c.toNat - '0'.toNat

def ofDigits (ds : List Char) : Nat := ds.foldl (fun n c => 10 * n + digitValue c) 0

/-- A count: digits alone or after one plus sign, with a value below `2 ^ 64`. -/
def readCount? (cs : List Char) : Option UInt64 :=
  let ds := match cs with
    | '+' :: rest => rest
    | _ => cs
  if ds ≠ [] ∧ ds.all Char.isDigit ∧ ofDigits ds < UInt64.size then
    some (UInt64.ofNat (ofDigits ds))
  else none

def padded (width n : Nat) : String :=
  let ds := toString n
  String.ofList (List.replicate (width - ds.length) '0') ++ ds

/-! ## Numbers as they are written -/

variable {width n : Nat}

theorem toList_padded (width n : Nat) : (padded width n).toList =
    List.replicate (width - (Nat.toDigits 10 n).length) '0' ++ Nat.toDigits 10 n := by
  rw [padded, Nat.toString_eq_ofList_toDigits, String.length_ofList, String.toList_append,
    String.toList_ofList, String.toList_ofList]

theorem isDigit_of_mem_padded {c : Char} (member : c ∈ (padded width n).toList) :
    c.isDigit = true := by
  rw [toList_padded, List.mem_append] at member
  rcases member with zero | digit
  · rw [List.eq_of_mem_replicate zero]
    rfl
  · exact Nat.isDigit_of_mem_toDigits (by decide) (by decide) digit

theorem ofDigits_padded (width n : Nat) : ofDigits (padded width n).toList = n := by
  have same (ds : List Char) : ofDigits ds = Nat.ofDigitChars 10 ds 0 :=
    Nat.ofDigitChars_eq_foldl.symm
  rw [same, toList_padded, Nat.ofDigitChars_append, Nat.ofDigitChars_replicate_zero, Nat.mul_zero,
    Nat.ofDigitChars_ten_toDigits]

theorem padded_ne_nil (width n : Nat) : (padded width n).toList ≠ [] := by
  rw [toList_padded]
  exact List.append_ne_nil_of_right_ne_nil _ Nat.toDigits_ne_nil

theorem length_padded (fits : n < Nat.pow 10 width) (places : 0 < width) :
    (padded width n).toList.length = width := by
  have short : (Nat.toDigits 10 n).length ≤ width :=
    (Nat.length_toDigits_le_iff (by decide) places).mpr fits
  rw [toList_padded, List.length_append, List.length_replicate]
  omega

theorem splitDigits_padded {c : Char} (stops : c.isDigit = false) (rest : List Char) :
    splitDigits ((padded width n).toList ++ c :: rest) = ((padded width n).toList, c :: rest) := by
  have digits : ∀ a ∈ (padded width n).toList, a.isDigit = true := fun _ => isDigit_of_mem_padded
  rw [splitDigits, List.takeWhile_append_of_pos digits, List.dropWhile_append_of_pos digits]
  simp [stops]

example : readCount? ['+', '4', '2'] = some 42 := by decide
example : readCount? ['+'] = none ∧ readCount? [] = none := by decide
example : readCount? ['-', '0'] = none := by decide
example : padded 4 7 = "0007" ∧ padded 2 123 = "123" := by decide +kernel

end ChainFetch.Text
