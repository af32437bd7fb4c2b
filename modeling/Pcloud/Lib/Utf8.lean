import Mathlib.Algebra.Order.Ring.Nat
import Mathlib.Data.List.Basic

/-!
# Lossy decoding of UTF-8

Text is read one character at a time. Where no character starts, the bytes of the longest
beginning of one are replaced together, by one replacement character of three bytes.
-/

namespace Utf8

def firstChar? (bytes : List UInt8) : Option Char := (⟨bytes.toArray⟩ : ByteArray).utf8DecodeChar? 0

def isTail (byte : UInt8) : Bool := byte &&& 0xC0 = 0x80

/-- The second byte of a character of three bytes, given the first. -/
def isSecondOfThree (first second : UInt8) : Bool :=
  if first = 0xE0 then 0xA0 ≤ second ∧ second ≤ 0xBF
  else if 0xE1 ≤ first ∧ first ≤ 0xEC then 0x80 ≤ second ∧ second ≤ 0xBF
  else if first = 0xED then 0x80 ≤ second ∧ second ≤ 0x9F
  else if 0xEE ≤ first ∧ first ≤ 0xEF then 0x80 ≤ second ∧ second ≤ 0xBF
  else false

/-- The second byte of a character of four bytes, given the first. -/
def isSecondOfFour (first second : UInt8) : Bool :=
  if first = 0xF0 then 0x90 ≤ second ∧ second ≤ 0xBF
  else if 0xF1 ≤ first ∧ first ≤ 0xF3 then 0x80 ≤ second ∧ second ≤ 0xBF
  else if first = 0xF4 then 0x80 ≤ second ∧ second ≤ 0x8F
  else false

/-- How many bytes one replacement character stands for, where no character starts. -/
def invalidLen : List UInt8 → Nat
  | first :: second :: rest =>
    if isSecondOfThree first second then 2
    else if isSecondOfFour first second then if rest.head?.any isTail then 3 else 2
    else 1
  | _ => 1

def replacement : Char := '\uFFFD'

/-- Decodes what follows the next `skip` bytes. -/
def lossyFrom : Nat → List UInt8 → List Char
  | _, [] => []
  | skip + 1, _ :: bytes => lossyFrom skip bytes
  | 0, first :: bytes =>
    match firstChar? (first :: bytes) with
    | some c => c :: lossyFrom (c.utf8Size - 1) bytes
    | none => replacement :: lossyFrom (invalidLen (first :: bytes) - 1) bytes

def lossy (bytes : List UInt8) : List Char := lossyFrom 0 bytes

theorem lossy_ne_nil {bytes : List UInt8} (h : bytes ≠ []) : lossy bytes ≠ [] := by
  obtain ⟨first, rest, rfl⟩ := List.exists_cons_of_ne_nil h
  rw [lossy, lossyFrom]
  split
  all_goals exact List.cons_ne_nil _ _

def size (chars : List Char) : Nat := (chars.map Char.utf8Size).sum

@[simp]
theorem size_nil : size [] = 0 := rfl

@[simp]
theorem size_cons (c : Char) (chars : List Char) : size (c :: chars) = c.utf8Size + size chars := rfl

theorem utf8ByteSize_ofList (chars : List Char) : (String.ofList chars).utf8ByteSize = size chars := by
  induction chars with
  | nil => rfl
  | cons c chars ih => rw [String.ofList_cons, String.utf8ByteSize_append, String.utf8ByteSize_singleton, ih, size_cons]

theorem toByteArray_eq (bytes : List UInt8) : (⟨bytes.toArray⟩ : ByteArray) = bytes.toByteArray := by
  apply ByteArray.ext
  simp

theorem firstChar?_encode_append (c : Char) (rest : List UInt8) :
    firstChar? (String.utf8EncodeChar c ++ rest) = some c := by
  unfold firstChar?
  rw [toByteArray_eq, List.toByteArray_append]
  exact ByteArray.utf8DecodeChar?_utf8EncodeChar_append

theorem utf8Size_le_length {bytes : List UInt8} {c : Char} (h : firstChar? bytes = some c) :
    c.utf8Size ≤ bytes.length := by
  have hencode := String.toByteArray_utf8EncodeChar_of_utf8DecodeChar?_eq_some h
  have hsize : c.utf8Size = min c.utf8Size bytes.length := by
    simpa [toByteArray_eq] using congrArg ByteArray.size hencode
  omega

theorem size_lossyFrom_le (skip : Nat) (bytes : List UInt8) :
    size (lossyFrom skip bytes) ≤ 3 * (bytes.length - skip) := by
  induction bytes generalizing skip with
  | nil => simp [lossyFrom]
  | cons first bytes ih =>
    match skip with
    | skip + 1 =>
      have := ih skip
      simp only [lossyFrom, List.length_cons]
      omega
    | 0 =>
      unfold lossyFrom
      split
      next c hc =>
        have := ih (c.utf8Size - 1)
        have := c.utf8Size_pos
        have hfits : c.utf8Size ≤ bytes.length + 1 := utf8Size_le_length hc
        simp only [size_cons, List.length_cons]
        omega
      next =>
        have := ih (invalidLen (first :: bytes) - 1)
        have hsize : replacement.utf8Size = 3 := rfl
        simp only [size_cons, List.length_cons, hsize]
        omega

theorem size_lossy_le (bytes : List UInt8) : size (lossy bytes) ≤ 3 * bytes.length := size_lossyFrom_le 0 bytes

theorem lossyFrom_length_append (skipped rest : List UInt8) :
    lossyFrom skipped.length (skipped ++ rest) = lossy rest := by
  induction skipped with
  | nil => rfl
  | cons byte skipped ih => exact ih

theorem lossy_encode_append (c : Char) (rest : List UInt8) :
    lossy (String.utf8EncodeChar c ++ rest) = c :: lossy rest := by
  have hlen := String.length_utf8EncodeChar c
  have hfirst := firstChar?_encode_append c rest
  obtain ⟨first, tail, hencode⟩ := List.exists_cons_of_length_pos (hlen ▸ c.utf8Size_pos)
  rw [hencode] at hlen hfirst ⊢
  have htail : c.utf8Size - 1 = tail.length := by
    rw [← hlen, List.length_cons, Nat.add_sub_cancel]
  show lossyFrom 0 (first :: (tail ++ rest)) = c :: lossy rest
  unfold lossyFrom
  rw [← List.cons_append, hfirst]
  show c :: lossyFrom (c.utf8Size - 1) (tail ++ rest) = c :: lossy rest
  rw [htail, lossyFrom_length_append]

theorem lossy_encode (chars : List Char) : lossy (chars.flatMap String.utf8EncodeChar) = chars := by
  induction chars with
  | nil => rfl
  | cons c chars ih => rw [List.flatMap_cons, lossy_encode_append, ih]

example : lossy [0x61, 0xF0, 0x9F, 0x98, 0x62, 0xE0, 0x80, 0xC3, 0xA9] =
    ['a', '\uFFFD', 'b', '\uFFFD', '\uFFFD', 'é'] := by decide

/-! ## An ASCII byte splits the text -/

theorem le_of_isTail {byte : UInt8} (h : isTail byte = true) : 0x80 ≤ byte := by
  rw [isTail, decide_eq_true_iff] at h
  rw [UInt8.le_iff_toNat_le, ← h, UInt8.toNat_and]
  exact Nat.and_le_left

theorem le_of_isSecondOfThree {first second : UInt8} (h : isSecondOfThree first second = true) : 0x80 ≤ second := by
  unfold isSecondOfThree at h
  split_ifs at h
  all_goals
    rw [decide_eq_true_iff] at h
    exact UInt8.le_trans (by decide) h.1

theorem le_of_isSecondOfFour {first second : UInt8} (h : isSecondOfFour first second = true) : 0x80 ≤ second := by
  unfold isSecondOfFour at h
  split_ifs at h
  all_goals
    rw [decide_eq_true_iff] at h
    exact UInt8.le_trans (by decide) h.1

theorem invalidLen_le_length (first : UInt8) (rest : List UInt8) : invalidLen (first :: rest) ≤ rest.length + 1 := by
  cases rest with
  | nil => rfl
  | cons second rest =>
    rw [invalidLen]
    split_ifs with hthree hfour htail
    · simp
    · cases rest with
      | nil => simp at htail
      | cons third rest => simp
    · simp
    · simp

theorem firstChar?_eq_some_iff {bytes : List UInt8} {c : Char} :
    firstChar? bytes = some c ↔ String.utf8EncodeChar c <+: bytes := by
  constructor
  · intro h
    obtain ⟨rest, hrest⟩ := ByteArray.exists_of_utf8DecodeChar?_eq_some h
    refine ⟨rest.data.toList, ?_⟩
    have hlist := congrArg (fun b => b.data.toList) hrest
    simpa using hlist.symm
  · rintro ⟨rest, rfl⟩
    exact firstChar?_encode_append c rest

theorem isPrefix_of_append {byte : UInt8} (hfirst : byte.IsUTF8FirstByte) {bytes rest : List UInt8}
    (hne : bytes ≠ []) {c : Char}
    (h : String.utf8EncodeChar c <+: bytes ++ byte :: rest) : String.utf8EncodeChar c <+: bytes := by
  rcases Nat.lt_or_ge bytes.length (String.utf8EncodeChar c).length with hlong | hshort
  · have hat : (String.utf8EncodeChar c)[bytes.length] = byte := by
      rw [h.getElem hlong]
      simp
    rw [← hat, UInt8.isUTF8FirstByte_getElem_utf8EncodeChar] at hfirst
    exact absurd (List.length_eq_zero_iff.mp hfirst) hne
  · exact List.prefix_of_prefix_length_le h (List.prefix_append bytes _) hshort

theorem firstChar?_append {byte : UInt8} (hfirst : byte.IsUTF8FirstByte) {bytes : List UInt8}
    (hne : bytes ≠ []) (rest : List UInt8) :
    firstChar? (bytes ++ byte :: rest) = firstChar? bytes := by
  ext c
  simp only [firstChar?_eq_some_iff]
  exact ⟨isPrefix_of_append hfirst hne, fun h => h.trans (List.prefix_append bytes _)⟩

theorem eq_of_mem_encode {c d : Char} {byte : UInt8} (hc : String.utf8EncodeChar c = [byte])
    (h : byte ∈ String.utf8EncodeChar d) : d = c := by
  have hfirst := UInt8.isUTF8FirstByte_getElem_zero_utf8EncodeChar (c := c)
  obtain ⟨i, hi, hat⟩ := List.getElem_of_mem h
  simp only [hc, List.getElem_cons_zero] at hfirst
  rw [← hat, UInt8.isUTF8FirstByte_getElem_utf8EncodeChar] at hfirst
  subst hfirst
  obtain ⟨first, rest, hencode⟩ := List.exists_cons_of_ne_nil (List.ne_nil_of_mem h)
  have hc' := firstChar?_encode_append c rest
  have hd := firstChar?_encode_append d []
  simp only [hencode, List.getElem_cons_zero] at hat
  rw [hc, ← hat, List.singleton_append, ← hencode] at hc'
  rw [List.append_nil, hc'] at hd
  exact (Option.some.inj hd).symm

section Ascii

variable {byte : UInt8} (hascii : byte < 0x80)
include hascii

theorem invalidLen_append_ascii (first : UInt8) (bytes rest : List UInt8) :
    invalidLen (first :: (bytes ++ byte :: rest)) = invalidLen (first :: bytes) := by
  have hnot : ¬ 0x80 ≤ byte := UInt8.not_le.mpr hascii
  match bytes with
  | [] =>
    have hthree : isSecondOfThree first byte = false :=
      Bool.eq_false_iff.mpr fun h => hnot (le_of_isSecondOfThree h)
    have hfour : isSecondOfFour first byte = false :=
      Bool.eq_false_iff.mpr fun h => hnot (le_of_isSecondOfFour h)
    simp [invalidLen, hthree, hfour]
  | [second] =>
    have htail : isTail byte = false := Bool.eq_false_iff.mpr fun h => hnot (le_of_isTail h)
    simp [invalidLen, htail]
  | second :: third :: more => rfl

theorem lossyFrom_append_ascii {c : Char} (hc : String.utf8EncodeChar c = [byte]) {skip : Nat} {bytes : List UInt8}
    (hskip : skip ≤ bytes.length) (rest : List UInt8) :
    lossyFrom skip (bytes ++ byte :: rest) = lossyFrom skip bytes ++ c :: lossy rest := by
  have hstart : byte.IsUTF8FirstByte := by
    have hzero := UInt8.isUTF8FirstByte_getElem_zero_utf8EncodeChar (c := c)
    simpa only [hc, List.getElem_cons_zero] using hzero
  induction bytes generalizing skip with
  | nil =>
    obtain rfl := Nat.le_zero.mp hskip
    have hone := lossy_encode_append c rest
    rwa [hc] at hone
  | cons first bytes ih =>
    match skip with
    | skip + 1 => exact ih (Nat.le_of_succ_le_succ hskip)
    | 0 =>
      simp only [List.cons_append, lossyFrom]
      rw [← List.cons_append, firstChar?_append hstart (List.cons_ne_nil first bytes) rest]
      cases hfirst : firstChar? (first :: bytes) with
      | some d =>
        have hfits : d.utf8Size ≤ bytes.length + 1 := utf8Size_le_length hfirst
        simp only [List.cons_append]
        rw [ih (by omega)]
      | none =>
        have hfits := invalidLen_le_length first bytes
        simp only [List.cons_append]
        rw [invalidLen_append_ascii hascii, ih (by omega)]

theorem lossy_append_ascii {c : Char} (hc : String.utf8EncodeChar c = [byte]) (bytes rest : List UInt8) :
    lossy (bytes ++ byte :: rest) = lossy bytes ++ c :: lossy rest :=
  lossyFrom_append_ascii hascii hc (Nat.zero_le _) rest

end Ascii

end Utf8
