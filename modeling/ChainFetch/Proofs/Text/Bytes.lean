import Mathlib.Tactic.SplitIfs
/-!
Strings by their bytes. Main statement: `lt_iff_bytes_lt`, the order of strings by code points is
that of their UTF-8 bytes.
-/

namespace ChainFetch

def bytes (s : String) : List UInt8 := s.toByteArray.data.toList

theorem bytes_eq_flatMap (s : String) : bytes s = s.toList.flatMap String.utf8EncodeChar := by
  unfold bytes
  rw [← String.utf8Encode_toList, List.utf8Encode, List.toList_data_toByteArray]

/-! ## The first place at which two codes differ -/

/-- Two lists that differ at some place, the first below the second. Neither begins with the other,
so that what follows them does not count. -/
inductive Diverges : List UInt8 → List UInt8 → Prop
  | here {x y : UInt8} (less : x < y) (as bs : List UInt8) : Diverges (x :: as) (y :: bs)
  | later (x : UInt8) {as bs : List UInt8} (rest : Diverges as bs) : Diverges (x :: as) (x :: bs)

theorem Diverges.append_lt {as bs : List UInt8} (h : Diverges as bs) (cs ds : List UInt8) :
    as ++ cs < bs ++ ds := by
  induction h with
  | here less as bs => exact List.Lex.rel less
  | later x rest ih => exact List.Lex.cons ih

variable {m n v w : Nat} {as bs : List UInt8}

theorem diverges_of_lt (less : m < n) (small : n < 256) :
    Diverges (UInt8.ofNat m :: as) (UInt8.ofNat n :: bs) := by
  apply Diverges.here
  rw [UInt8.lt_iff_toNat_lt, UInt8.toNat_ofNat', UInt8.toNat_ofNat']
  omega

theorem diverges_of_le (le : m ≤ n) (small : n < 256) (rest : m = n → Diverges as bs) :
    Diverges (UInt8.ofNat m :: as) (UInt8.ofNat n :: bs) := by
  by_cases same : m = n
  · rw [same]
    exact Diverges.later _ (rest same)
  · exact diverges_of_lt (by omega) small

/-! ## Code points -/

def lead (v : Nat) : Nat :=
  if v ≤ 0x7f then v
  else if v ≤ 0x7ff then v / 64 % 32 + 192
  else if v ≤ 0xffff then v / 4096 % 16 + 224
  else v / 262144 % 8 + 240

def trail (v : Nat) : List UInt8 :=
  if v ≤ 0x7f then []
  else if v ≤ 0x7ff then [UInt8.ofNat (v % 64 + 128)]
  else if v ≤ 0xffff then [UInt8.ofNat (v / 64 % 64 + 128), UInt8.ofNat (v % 64 + 128)]
  else [UInt8.ofNat (v / 4096 % 64 + 128), UInt8.ofNat (v / 64 % 64 + 128),
    UInt8.ofNat (v % 64 + 128)]

theorem utf8EncodeChar_eq (c : Char) :
    String.utf8EncodeChar c = UInt8.ofNat (lead c.val.toNat) :: trail c.val.toNat := by
  unfold String.utf8EncodeChar lead trail
  dsimp only
  split_ifs <;> rfl

theorem lead_mono (le : v ≤ w) (top : w < 0x110000) : lead v ≤ lead w := by
  unfold lead
  split_ifs <;> omega

theorem lead_lt (v : Nat) : lead v < 256 := by
  unfold lead
  split_ifs <;> omega

theorem diverges_trail (less : v < w) (top : w < 0x110000) (same : lead v = lead w) :
    Diverges (trail v) (trail w) := by
  unfold lead at same
  unfold trail
  -- Codes of different lengths have different first bytes.
  split_ifs at same ⊢
  all_goals try omega
  · exact diverges_of_lt (by omega) (by omega)
  · apply diverges_of_le (by omega) (by omega)
    intro second
    exact diverges_of_lt (by omega) (by omega)
  · apply diverges_of_le (by omega) (by omega)
    intro second
    apply diverges_of_le (by omega) (by omega)
    intro third
    exact diverges_of_lt (by omega) (by omega)

theorem diverges_utf8EncodeChar {c d : Char} (h : c < d) :
    Diverges (String.utf8EncodeChar c) (String.utf8EncodeChar d) := by
  have less : c.val.toNat < d.val.toNat := h
  have top : d.val.toNat < 0x110000 := by
    have valid := d.valid
    unfold UInt32.isValidChar Nat.isValidChar at valid
    omega
  rw [utf8EncodeChar_eq, utf8EncodeChar_eq]
  apply diverges_of_le (lead_mono (by omega) top) (lead_lt _)
  exact diverges_trail less top

theorem flatMap_lt_of_lt {cs ds : List Char} (h : cs < ds) :
    cs.flatMap String.utf8EncodeChar < ds.flatMap String.utf8EncodeChar := by
  have lex : List.Lex (· < ·) cs ds := h
  induction lex with
  | nil =>
    rw [List.flatMap_cons, utf8EncodeChar_eq]
    exact List.nil_lt_cons _ _
  | rel less =>
    rw [List.flatMap_cons, List.flatMap_cons]
    exact (diverges_utf8EncodeChar less).append_lt _ _
  | cons rest ih =>
    rw [List.flatMap_cons, List.flatMap_cons]
    apply List.append_left_lt
    exact ih rest

theorem lt_iff_bytes_lt {s t : String} : s < t ↔ bytes s < bytes t := by
  have mono : ∀ {s t : String}, s < t → bytes s < bytes t := by
    intro s t less
    rw [bytes_eq_flatMap, bytes_eq_flatMap]
    exact flatMap_lt_of_lt (String.lt_iff.mp less)
  refine ⟨mono, ?_⟩
  intro less
  apply Decidable.by_contra
  intro notLess
  by_cases more : t < s
  · exact List.lt_asymm less (mono more)
  · have same : s = t := String.le_antisymm more notLess
    rw [same] at less
    exact List.lt_irrefl _ less

end ChainFetch
