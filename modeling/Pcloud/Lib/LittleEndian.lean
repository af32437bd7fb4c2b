import Mathlib.Algebra.Group.Nat.Defs
import Mathlib.Data.List.Basic

/-!
# Numbers as bytes, the lowest first
-/

namespace LittleEndian

def digits (width n : Nat) : List UInt8 := (List.range width).map fun i => UInt8.ofNat (n / 256 ^ i)

def value (bytes : List UInt8) : Nat := bytes.foldr (fun byte rest => byte.toNat + 256 * rest) 0

@[simp]
theorem length_digits (width n : Nat) : (digits width n).length = width := by
  simp [digits]

@[simp]
theorem value_nil : value [] = 0 := rfl

@[simp]
theorem value_cons (byte : UInt8) (bytes : List UInt8) : value (byte :: bytes) = byte.toNat + 256 * value bytes := rfl

theorem value_lt (bytes : List UInt8) : value bytes < 256 ^ bytes.length := by
  induction bytes with
  | nil => simp
  | cons byte bytes ih =>
    have hbyte := byte.toNat_lt
    rw [value_cons, List.length_cons, Nat.pow_succ]
    omega

theorem digits_succ (width n : Nat) : digits (width + 1) n = UInt8.ofNat n :: digits width (n / 256) := by
  simp only [digits, List.range_succ_eq_map, List.map_cons, List.map_map, Nat.pow_zero, Nat.div_one]
  congr 1
  apply List.map_congr_left
  intro i _
  simp only [Function.comp_apply, Nat.pow_succ, Nat.div_div_eq_div_mul, Nat.mul_comm]

theorem value_digits (width n : Nat) : value (digits width n) = n % 256 ^ width := by
  induction width generalizing n with
  | zero => simp [digits, Nat.mod_one]
  | succ width ih =>
    have hlow : (UInt8.ofNat n).toNat = n % 256 := UInt8.toNat_ofNat'
    rw [digits_succ, value_cons, ih, hlow, Nat.pow_succ, Nat.mul_comm (256 ^ width) 256, Nat.mod_mul]

theorem value_digits_of_lt {width n : Nat} (h : n < 256 ^ width) : value (digits width n) = n := by
  rw [value_digits, Nat.mod_eq_of_lt h]

theorem digits_value (bytes : List UInt8) : digits bytes.length (value bytes) = bytes := by
  induction bytes with
  | nil => rfl
  | cons byte bytes ih =>
    have hbyte := byte.toNat_lt
    have hlow : UInt8.ofNat (byte.toNat + 256 * value bytes) = byte := by
      apply UInt8.toNat_inj.mp
      rw [UInt8.toNat_ofNat']
      omega
    have hhigh : (byte.toNat + 256 * value bytes) / 256 = value bytes := by omega
    rw [List.length_cons, digits_succ, value_cons, hlow, hhigh, ih]

end LittleEndian
