import Mathlib.Data.Nat.Digits.Lemmas

/-!
# Numbers written in digits, the highest first

A list of digits of a fixed length is the number it stands for. A stream that is read in digits
of one width and written in digits of another is followed through that number.
-/

namespace Digits

def value (base : Nat) (digits : List Nat) : Nat := Nat.ofDigits base digits.reverse

variable {base : Nat}

@[simp]
theorem value_nil : value base [] = 0 := rfl

@[simp]
theorem value_cons (d : Nat) (ds : List Nat) :
    value base (d :: ds) = d * base ^ ds.length + value base ds := by
  simp only [value, List.reverse_cons, Nat.ofDigits_append, List.length_reverse, Nat.ofDigits_singleton]
  rw [Nat.add_comm, Nat.mul_comm]

theorem value_concat (ds : List Nat) (d : Nat) :
    value base (ds ++ [d]) = value base ds * base + d := by
  induction ds with
  | nil => simp
  | cons x ds ih =>
    rw [List.cons_append, value_cons, ih, value_cons, List.length_append, List.length_singleton,
      Nat.pow_succ, Nat.add_mul, Nat.mul_assoc, Nat.add_assoc]

theorem value_inj (hbase : 1 < base) {xs ys : List Nat} (hlen : xs.length = ys.length)
    (hx : ∀ d ∈ xs, d < base) (hy : ∀ d ∈ ys, d < base) (h : value base xs = value base ys) : xs = ys := by
  have hlen' : xs.reverse.length = ys.reverse.length := by simpa using hlen
  have hrev := Nat.ofDigits_inj_of_len_eq hbase hlen' (by simpa using hx) (by simpa using hy) h
  exact List.reverse_injective hrev

/-! ## An accumulator of a few bits -/

theorem shift_in (acc bits : Nat) {w d : Nat} (hd : d < 2 ^ w) (hroom : bits + w ≤ 32) :
    ((acc <<< w) % 2 ^ 32 ||| d) % 2 ^ (bits + w) = acc % 2 ^ bits * 2 ^ w + d := by
  have hw : 2 ^ 32 = 2 ^ w * 2 ^ (32 - w) := by
    rw [← Nat.pow_add]
    congr 1
    omega
  have hshift : (acc <<< w) % 2 ^ 32 = 2 ^ w * (acc % 2 ^ (32 - w)) := by
    rw [Nat.shiftLeft_eq, Nat.mul_comm acc, hw, Nat.mul_mod_mul_left]
  have hlow : acc % 2 ^ (32 - w) % 2 ^ bits = acc % 2 ^ bits :=
    Nat.mod_mod_of_dvd acc (Nat.pow_dvd_pow 2 (by omega))
  rw [hshift, ← Nat.two_pow_add_eq_or_of_lt hd, Nat.add_comm bits w, Nat.pow_add,
    Nat.mod_mul, Nat.mul_add_mod, Nat.mod_eq_of_lt hd, Nat.mul_add_div (by positivity),
    Nat.div_eq_of_lt hd, Nat.add_zero, hlow, Nat.add_comm, Nat.mul_comm]

theorem shift_out (acc bits w : Nat) : acc >>> bits % 2 ^ w = acc % 2 ^ (bits + w) / 2 ^ bits := by
  rw [Nat.shiftRight_eq_div_pow, Nat.pow_add, Nat.mod_mul_right_div_self]

theorem shift_out_rest (acc bits w : Nat) :
    acc % 2 ^ (bits + w) = acc >>> bits % 2 ^ w * 2 ^ bits + acc % 2 ^ bits := by
  have hlow : acc % 2 ^ (bits + w) % 2 ^ bits = acc % 2 ^ bits :=
    Nat.mod_mod_of_dvd acc (Nat.pow_dvd_pow 2 (Nat.le_add_right bits w))
  rw [shift_out, ← hlow, Nat.mul_comm, Nat.div_add_mod]

end Digits
