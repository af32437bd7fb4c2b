import Mathlib.Algebra.Group.Nat.Defs
import Mathlib.Data.List.Induction
import Mathlib.Tactic.IntervalCases
import Pcloud.Proto.HttpDownload

/-!
# Numerals of so many digits

What `parse` of the standard library reads in a text of a fixed length: so many digits, or a plus and one digit less.
-/

namespace Pcloud.Numerals

def digit (n : Nat) : Char := Char.ofNat ('0'.toNat + n % 10)

def numeral : (width n : Nat) → List Char
  | 0, _ => []
  | width + 1, n => numeral width (n / 10) ++ [digit n]

@[simp]
theorem length_numeral (width n : Nat) : (numeral width n).length = width := by
  induction width generalizing n with
  | zero => rfl
  | succ width ih => rw [numeral, List.length_append, ih, List.length_singleton]

theorem digit_mod (n : Nat) : digit (n % 10) = digit n := by rw [digit, digit, Nat.mod_mod]

theorem digitOf_digit (n : Nat) : parseUnsigned.digitOf 10 (digit n) = some (n % 10) := by
  have hlt := Nat.mod_lt n (by decide : 0 < 10)
  rw [← digit_mod]
  generalize n % 10 = d at hlt
  interval_cases d <;> rfl

theorem char_le_iff (c d : Char) : c ≤ d ↔ c.toNat ≤ d.toNat := Char.le_def.trans UInt32.le_iff_toNat_le

theorem eq_digit_of_digitOf {c : Char} {d : Nat} (h : parseUnsigned.digitOf 10 c = some d) : d < 10 ∧ c = digit d := by
  unfold parseUnsigned.digitOf at h
  dsimp only at h
  by_cases hdigit : '0' ≤ c ∧ c ≤ '9'
  · rw [if_pos hdigit] at h
    obtain ⟨hlt, hd⟩ := Option.ite_some_none_eq_some.mp h
    rw [char_le_iff, char_le_iff] at hdigit
    have hzero : '0'.toNat = 48 := rfl
    refine ⟨hd ▸ hlt, ?_⟩
    rw [digit, Nat.mod_eq_of_lt (hd ▸ hlt), ← hd, show '0'.toNat + (c.toNat - '0'.toNat) = c.toNat by omega,
      Char.ofNat_toNat]
  · rw [if_neg hdigit] at h
    obtain ⟨hlt, -⟩ := Option.ite_some_none_eq_some.mp h
    split at hlt
    · omega
    · split at hlt
      · omega
      · omega

/-- The loop of `parse` over the digits. -/
def readDigits (digits : List Char) : Option Nat :=
  digits.foldlM (fun value c => (parseUnsigned.digitOf 10 c).map fun digit => value * 10 + digit) 0

theorem readDigits_concat (digits : List Char) (c : Char) :
    readDigits (digits ++ [c]) =
      (readDigits digits).bind fun value => (parseUnsigned.digitOf 10 c).map fun digit => value * 10 + digit := by
  rw [readDigits, List.foldlM_append]
  simp [readDigits]

theorem readDigits_eq_some_iff {digits : List Char} {n : Nat} :
    readDigits digits = some n ↔ digits = numeral digits.length n ∧ n < 10 ^ digits.length := by
  induction digits using List.reverseRecOn generalizing n with
  | nil =>
    show some 0 = some n ↔ _
    simp [numeral, eq_comm]
  | append_singleton digits c ih =>
    have hlength : (digits ++ [c]).length = digits.length + 1 := by simp
    rw [readDigits_concat, hlength, numeral, pow_succ]
    constructor
    · intro h
      obtain ⟨value, hvalue, h⟩ := Option.bind_eq_some_iff.mp h
      obtain ⟨d, hd, rfl⟩ := Option.map_eq_some_iff.mp h
      obtain ⟨hdigits, hlt⟩ := ih.mp hvalue
      obtain ⟨hten, rfl⟩ := eq_digit_of_digitOf hd
      have hdiv : (value * 10 + d) / 10 = value := by omega
      have hdigit : digit (value * 10 + d) = digit d := by rw [digit, digit, Nat.mul_add_mod_self_right]
      exact ⟨by rw [hdiv, hdigit, ← hdigits], by omega⟩
    · rintro ⟨h, hlt⟩
      obtain ⟨hdigits, hc⟩ := List.append_inj' h rfl
      rw [ih.mpr ⟨hdigits, by omega⟩, List.singleton_inj.mp hc, Option.bind_some, digitOf_digit, Option.map_some,
        Nat.div_add_mod']

theorem toNat_digit (n : Nat) : (digit n).toNat = 48 + n % 10 := by
  have hlt := Nat.mod_lt n (by decide : 0 < 10)
  rw [← digit_mod]
  generalize n % 10 = d at hlt
  interval_cases d <;> rfl

theorem mem_numeral {width n : Nat} {c : Char} (h : c ∈ numeral width n) : 48 ≤ c.toNat ∧ c.toNat ≤ 57 := by
  induction width generalizing n with
  | zero => cases h
  | succ width ih =>
    rcases List.mem_append.mp h with h | h
    · exact ih h
    · rw [List.mem_singleton.mp h, toNat_digit]
      omega

theorem notMem_numeral {width n : Nat} {sign : Char} (hsign : sign.toNat < 48) : sign ∉ numeral width n := by
  intro hmem
  have hdigit := mem_numeral hmem
  omega

theorem numeral_ne_cons {width n : Nat} {sign : Char} {rest : List Char} (hsign : sign.toNat < 48) :
    numeral width n ≠ sign :: rest := by
  intro h
  apply notMem_numeral hsign
  rw [h]
  exact List.mem_cons_self

/-- The texts that are read as a number without a minus. -/
def IsUnsigned (width n : Nat) (text : List Char) : Prop :=
  text = numeral width n ∧ n < 10 ^ width ∨ text = '+' :: numeral (width - 1) n ∧ n < 10 ^ (width - 1)

theorem filter_eq_some_iff {digits : List Char} {n max : Nat} (hmax : 10 ^ digits.length ≤ max + 1) :
    (readDigits digits).filter (· ≤ max) = some n ↔ digits = numeral digits.length n ∧ n < 10 ^ digits.length := by
  rw [Option.filter_eq_some_iff, readDigits_eq_some_iff, decide_eq_true_iff]
  exact and_iff_left_of_imp fun h => by omega

theorem parseUnsigned_eq_some_iff {width n max : Nat} {text : List Char} (hlength : text.length = width + 2)
    (hmax : 10 ^ (width + 2) ≤ max + 1) : parseUnsigned 10 max text = some n ↔ IsUnsigned (width + 2) n text := by
  rcases text with _ | ⟨first, rest⟩
  · cases hlength
  by_cases hplus : first = '+'
  · subst hplus
    have hrest : rest.length = width + 1 := by simpa using hlength
    have hne : rest.isEmpty = false := by
      rw [List.isEmpty_eq_false_iff]
      rintro rfl
      cases hrest
    have hparse : parseUnsigned 10 max ('+' :: rest) = (readDigits rest).filter (· ≤ max) := by
      simp only [parseUnsigned, hne]
      rfl
    have hmax' : 10 ^ rest.length ≤ max + 1 := by
      rw [hrest]
      exact (Nat.pow_le_pow_right (by decide) (by omega)).trans hmax
    rw [hparse, filter_eq_some_iff hmax', hrest, IsUnsigned, or_iff_right fun h => numeral_ne_cons (by decide) h.1.symm]
    simp
  · have hparse : parseUnsigned 10 max (first :: rest) = (readDigits (first :: rest)).filter (· ≤ max) := by
      unfold parseUnsigned
      split
      · next heq => exact absurd (List.cons.inj heq).1 hplus
      · rfl
    rw [hparse, filter_eq_some_iff (by rwa [hlength]), hlength, IsUnsigned, or_iff_left]
    rintro ⟨h, -⟩
    exact hplus (List.cons.inj h).1

theorem not_isUnsigned_minus {width n : Nat} {rest : List Char} : ¬IsUnsigned width n ('-' :: rest) := by
  rintro (⟨h, -⟩ | ⟨h, -⟩)
  · exact numeral_ne_cons (by decide) h.symm
  · cases h

theorem isUnsigned_iff_of_notMem {width n : Nat} {number : List Char} (hplus : '+' ∉ number) :
    IsUnsigned width n number ↔ number = numeral width n ∧ n < 10 ^ width := by
  refine or_iff_left ?_
  rintro ⟨rfl, -⟩
  exact hplus List.mem_cons_self

end Pcloud.Numerals
