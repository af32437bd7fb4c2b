import Mathlib.Algebra.Polynomial.Div
import Mathlib.Algebra.Polynomial.Monic
import Mathlib.Algebra.CharP.Two
import Mathlib.Algebra.Field.ZMod
import Mathlib.Data.ZMod.Basic
import Mathlib.RingTheory.Coprime.Lemmas
import Mathlib.Tactic.LinearCombination

/-!
# Cyclic redundancy checks

A register of `w` bits takes a message one bit at a time, the lowest bit first. Read as polynomials over the field of
two elements, the first bit as the highest coefficient, it holds a remainder of the message. So a message that is
changed within `w` bits in a row leaves another register.
-/

namespace Crc

open Polynomial

/-! ## Bits as polynomials -/

noncomputable def bit (b : Bool) : (ZMod 2)[X] := if b then 1 else 0

/-- The first bit is the highest coefficient. -/
noncomputable def ofBits (bits : List Bool) : (ZMod 2)[X] := bits.foldl (fun p b => X * p + bit b) 0

theorem bit_xor (a b : Bool) : bit (a ^^ b) = bit a + bit b := by
  cases a <;> cases b <;> simp [bit, CharTwo.add_self_eq_zero]

theorem foldl_bits (bits : List Bool) (p : (ZMod 2)[X]) :
    bits.foldl (fun p b => X * p + bit b) p = X ^ bits.length * p + ofBits bits := by
  induction bits generalizing p with
  | nil => simp [ofBits]
  | cons b bits ih =>
    rw [ofBits, List.foldl_cons, List.foldl_cons, ih, ih (X * 0 + bit b), List.length_cons, pow_succ]
    ring

@[simp]
theorem ofBits_nil : ofBits [] = 0 := rfl

theorem ofBits_append (xs ys : List Bool) : ofBits (xs ++ ys) = X ^ ys.length * ofBits xs + ofBits ys := by
  rw [ofBits, List.foldl_append, foldl_bits ys]
  rfl

theorem ofBits_cons (b : Bool) (bits : List Bool) : ofBits (b :: bits) = X ^ bits.length * bit b + ofBits bits := by
  rw [← List.singleton_append, ofBits_append]
  simp [ofBits]

theorem ofBits_concat (bits : List Bool) (b : Bool) : ofBits (bits ++ [b]) = X * ofBits bits + bit b := by
  rw [ofBits_append, List.length_singleton, pow_one]
  simp [ofBits]

theorem degree_ofBits_lt (bits : List Bool) : (ofBits bits).degree < bits.length := by
  induction bits with
  | nil => simp
  | cons b bits ih =>
    rw [ofBits_cons, List.length_cons]
    refine lt_of_le_of_lt (degree_add_le _ _) (max_lt ?_ ?_)
    · cases b
      · simp [bit]
      · simp only [bit, if_true, mul_one, degree_X_pow, Nat.cast_lt]
        omega
    · exact ih.trans (by exact_mod_cast Nat.lt_succ_self _)

theorem ofBits_inj {xs ys : List Bool} (hlen : xs.length = ys.length) (h : ofBits xs = ofBits ys) : xs = ys := by
  induction xs generalizing ys with
  | nil => exact (List.eq_nil_of_length_eq_zero hlen.symm).symm
  | cons x xs ih =>
    cases ys with
    | nil => cases hlen
    | cons y ys =>
      have hrest : xs.length = ys.length := Nat.succ.inj hlen
      rw [ofBits_cons, ofBits_cons, hrest] at h
      have hcoeff (b : Bool) (bits : List Bool) (hbits : bits.length = ys.length) :
          (X ^ ys.length * bit b + ofBits bits).coeff ys.length = if b then 1 else 0 := by
        have hlow : (ofBits bits).coeff ys.length = 0 := coeff_eq_zero_of_degree_lt (hbits ▸ degree_ofBits_lt bits)
        rw [coeff_add, hlow, add_zero, bit]
        cases b <;> simp
      have htop := congrArg (coeff · ys.length) h
      simp only [hcoeff x xs hrest, hcoeff y ys rfl] at htop
      have hxy : x = y := by
        cases x <;> cases y <;> simp_all
      subst hxy
      rw [ih hrest (add_left_cancel h)]

theorem ofBits_zipWith_xor {xs ys : List Bool} (hlen : xs.length = ys.length) :
    ofBits (xs.zipWith (· ^^ ·) ys) = ofBits xs + ofBits ys := by
  induction xs generalizing ys with
  | nil => simp [(List.eq_nil_of_length_eq_zero hlen.symm)]
  | cons x xs ih =>
    cases ys with
    | nil => cases hlen
    | cons y ys =>
      have hrest : xs.length = ys.length := Nat.succ.inj hlen
      rw [List.zipWith_cons_cons, ofBits_cons, ofBits_cons, ofBits_cons, ih hrest, bit_xor, List.length_zipWith, hrest,
        Nat.min_self]
      ring

/-! ## The register -/

section Register

variable {w : Nat}

/-- The lowest `n` bits of a word, the lowest first. -/
def lowBits (n : Nat) (word : BitVec w) : List Bool := (List.range n).map word.getLsbD

@[simp]
theorem length_lowBits (n : Nat) (word : BitVec w) : (lowBits n word).length = n := by simp [lowBits]

theorem lowBits_succ (n : Nat) (word : BitVec w) : lowBits (n + 1) word = lowBits n word ++ [word.getLsbD n] := by
  simp [lowBits, List.range_succ]

theorem lowBits_succ' (n : Nat) (word : BitVec w) :
    lowBits (n + 1) word = word.getLsbD 0 :: lowBits n (word >>> 1) := by
  simp only [lowBits, List.range_succ_eq_map, List.map_cons, List.map_map, List.cons.injEq, true_and]
  refine List.map_congr_left fun i _ => ?_
  simp [Nat.add_comm]

theorem lowBits_xor (n : Nat) (a b : BitVec w) :
    lowBits n (a ^^^ b) = (lowBits n a).zipWith (· ^^ ·) (lowBits n b) := by
  simp [lowBits, List.zipWith_map, List.zipWith_self]

noncomputable def poly (word : BitVec w) : (ZMod 2)[X] := ofBits (lowBits w word)

theorem poly_xor (a b : BitVec w) : poly (a ^^^ b) = poly a + poly b := by
  rw [poly, lowBits_xor, ofBits_zipWith_xor (by simp), poly, poly]

theorem lowBits_inj {a b : BitVec w} (h : lowBits w a = lowBits w b) : a = b := by
  refine BitVec.eq_of_getLsbD_eq fun i hi => ?_
  simpa [lowBits, hi] using congrArg (·[i]?) h

theorem X_mul_poly (reg : BitVec w) : X * poly reg = X ^ w * bit (reg.getLsbD 0) + poly (reg >>> 1) := by
  have hout : lowBits (w + 1) reg = lowBits w reg ++ [false] := by
    rw [lowBits_succ, BitVec.getLsbD_of_ge reg w (Nat.le_refl w)]
  have hcons := lowBits_succ' w reg
  rw [hout] at hcons
  have hpoly := congrArg ofBits hcons
  rw [ofBits_concat, ofBits_cons, length_lowBits] at hpoly
  simpa [poly, bit] using hpoly

/-- The divisor whose lower coefficients are the bits of `g`. -/
noncomputable def generator (g : BitVec w) : (ZMod 2)[X] := X ^ w + poly g

theorem degree_poly_lt (word : BitVec w) : (poly word).degree < w := by
  simpa [poly] using degree_ofBits_lt (lowBits w word)

theorem monic_generator (g : BitVec w) : (generator g).Monic := monic_X_pow_add (degree_poly_lt g)

theorem degree_generator (g : BitVec w) : (generator g).degree = w := by
  rw [generator, degree_add_eq_left_of_degree_lt]
  · exact degree_X_pow w
  · rw [degree_X_pow]
    exact degree_poly_lt g

theorem poly_not (word : BitVec w) : poly (~~~ word) = poly word + poly (BitVec.allOnes w) := by
  rw [← BitVec.xor_allOnes, poly_xor]

theorem coeff_zero_generator (g : BitVec w) (hw : 0 < w) (hg : g.getLsbD (w - 1) = true) :
    (generator g).coeff 0 = 1 := by
  obtain ⟨n, rfl⟩ := Nat.exists_eq_succ_of_ne_zero (Nat.ne_of_gt hw)
  have hlast : g.getLsbD n = true := hg
  rw [generator, poly, lowBits_succ, ofBits_concat, hlast, coeff_add, coeff_add, coeff_X_mul_zero]
  simp [bit]

/-! ## Steps -/

variable (g : BitVec w)

def step (reg : BitVec w) (b : Bool) : BitVec w :=
  if reg.getLsbD 0 ^^ b then reg >>> 1 ^^^ g else reg >>> 1

def feed (reg : BitVec w) (bits : List Bool) : BitVec w := bits.foldl (step g) reg

theorem feed_concat (reg : BitVec w) (bits : List Bool) (b : Bool) :
    feed g reg (bits ++ [b]) = step g (feed g reg bits) b := by
  rw [feed, List.foldl_append]
  rfl

theorem feed_append (reg : BitVec w) (bits bits' : List Bool) :
    feed g reg (bits ++ bits') = feed g (feed g reg bits) bits' := List.foldl_append

theorem poly_step (reg : BitVec w) (b : Bool) :
    poly (step g reg b) + bit (reg.getLsbD 0 ^^ b) * generator g = X * poly reg + X ^ w * bit b := by
  have hrest : X * poly reg + X ^ w * bit b = X ^ w * bit (reg.getLsbD 0 ^^ b) + poly (reg >>> 1) := by
    rw [X_mul_poly, bit_xor]
    ring
  rw [hrest, step]
  cases reg.getLsbD 0 ^^ b with
  | false => simp [bit]
  | true =>
    have htwice : poly g + poly g = 0 := CharTwo.add_self_eq_zero _
    rw [if_pos rfl, poly_xor, generator, bit, if_pos rfl]
    linear_combination htwice

/-- The register holds the message times `X ^ w`, and what it held before moved up by the message, up to the divisor. -/
theorem generator_dvd_feed (reg : BitVec w) (bits : List Bool) :
    generator g ∣ X ^ w * ofBits bits + X ^ bits.length * poly reg - poly (feed g reg bits) := by
  induction bits using List.reverseRecOn with
  | nil => simp [feed]
  | append_singleton bits b ih =>
    obtain ⟨q, hq⟩ := ih
    refine ⟨X * q + bit ((feed g reg bits).getLsbD 0 ^^ b), ?_⟩
    have hstep := poly_step g (feed g reg bits) b
    rw [feed_concat, ofBits_concat, List.length_append, List.length_singleton, pow_succ]
    linear_combination X * hq - hstep

theorem poly_feed (reg : BitVec w) (bits : List Bool) :
    poly (feed g reg bits) = (X ^ w * ofBits bits + X ^ bits.length * poly reg) %ₘ generator g := by
  obtain ⟨q, hq⟩ := generator_dvd_feed g reg bits
  have hdegree : (poly (feed g reg bits)).degree < (generator g).degree := by
    rw [degree_generator]
    exact degree_poly_lt _
  have hdivide : poly (feed g reg bits) + generator g * q = X ^ w * ofBits bits + X ^ bits.length * poly reg := by
    linear_combination -hq
  exact (div_modByMonic_unique q _ (monic_generator g) ⟨hdivide, hdegree⟩).2.symm

/-! ## Bursts -/

variable {g}

theorem isCoprime_generator_X (hg : (generator g).coeff 0 = 1) : IsCoprime (generator g) X := by
  refine ⟨1, (generator g).divX, ?_⟩
  have hdivX := divX_mul_X_add (generator g)
  rw [hg, C_1] at hdivX
  have htwice : (generator g).divX * X + (generator g).divX * X = 0 := CharTwo.add_self_eq_zero _
  linear_combination -hdivX + htwice

theorem eq_of_feed_eq (hg : (generator g).coeff 0 = 1) {reg : BitVec w} {before burst burst' after : List Bool}
    (hlen : burst.length = burst'.length) (hburst : burst.length ≤ w)
    (h : feed g reg (before ++ burst ++ after) = feed g reg (before ++ burst' ++ after)) : burst = burst' := by
  have hmoved : generator g ∣ X ^ (w + after.length) * (ofBits burst - ofBits burst') := by
    obtain ⟨q, hq⟩ := generator_dvd_feed g reg (before ++ burst ++ after)
    obtain ⟨q', hq'⟩ := generator_dvd_feed g reg (before ++ burst' ++ after)
    refine ⟨q - q', ?_⟩
    simp only [h, ofBits_append, List.length_append, hlen] at hq hq'
    rw [pow_add]
    linear_combination hq - hq'
  have hcoprime : IsCoprime (generator g) (X ^ (w + after.length)) := IsCoprime.pow_right (isCoprime_generator_X hg)
  have hdvd := hcoprime.dvd_of_dvd_mul_left hmoved
  have hdegree : (ofBits burst - ofBits burst').degree < (generator g).degree := by
    rw [degree_generator]
    refine lt_of_le_of_lt (degree_sub_le _ _) (max_lt ?_ ?_)
    · exact (degree_ofBits_lt burst).trans_le (by exact_mod_cast hburst)
    · exact (degree_ofBits_lt burst').trans_le (by exact_mod_cast hlen ▸ hburst)
  have hzero : ofBits burst - ofBits burst' = 0 := by
    by_contra hne
    exact (monic_generator g).not_dvd_of_degree_lt hne hdegree hdvd
  exact ofBits_inj hlen (sub_eq_zero.mp hzero)

theorem eq_of_feed_eq_of_window (hg : (generator g).coeff 0 = 1) {reg : BitVec w} {xs ys : List Bool}
    (hlen : xs.length = ys.length) {start : Nat} (hwindow : ∀ i, xs[i]? ≠ ys[i]? → start ≤ i ∧ i < start + w)
    (h : feed g reg xs = feed g reg ys) : xs = ys := by
  have hsplit (bits : List Bool) :
      bits.take start ++ (bits.drop start).take w ++ bits.drop (start + w) = bits := by
    rw [List.append_assoc, ← List.drop_drop, List.take_append_drop, List.take_append_drop]
  have hbefore : xs.take start = ys.take start := by
    refine List.ext_getElem? fun i => ?_
    rw [List.getElem?_take, List.getElem?_take]
    split
    · rename_i hi
      by_contra hne
      have := (hwindow i hne).1
      omega
    · rfl
  have hafter : xs.drop (start + w) = ys.drop (start + w) := by
    refine List.ext_getElem? fun i => ?_
    rw [List.getElem?_drop, List.getElem?_drop]
    by_contra hne
    have := (hwindow _ hne).2
    omega
  rw [← hsplit xs, ← hsplit ys, hbefore, hafter] at h ⊢
  rw [eq_of_feed_eq hg (by simp [hlen]) (by simp) h]

/-! ## Several bits at once -/

theorem step_xor (reg word : BitVec w) :
    step g (reg ^^^ word) false = step g reg (word.getLsbD 0) ^^^ word >>> 1 := by
  rw [step, step, Bool.xor_false, BitVec.getLsbD_xor, BitVec.ushiftRight_xor_distrib]
  cases reg.getLsbD 0 ^^ word.getLsbD 0 with
  | false => rfl
  | true => rw [if_pos rfl, if_pos rfl, BitVec.xor_assoc, BitVec.xor_assoc, BitVec.xor_comm (word >>> 1)]

theorem feed_replicate_xor (reg word : BitVec w) (n : Nat) :
    feed g (reg ^^^ word) (List.replicate n false) = feed g reg (lowBits n word) ^^^ word >>> n := by
  induction n with
  | zero => simp [feed, lowBits]
  | succ n ih =>
    have hbit : (word >>> n).getLsbD 0 = word.getLsbD n := by simp
    rw [List.replicate_succ', feed_concat, ih, step_xor, lowBits_succ, feed_concat, hbit, BitVec.shiftRight_add]

theorem feed_replicate_of_low {word low : BitVec w} {n : Nat} (hbits : lowBits n low = lowBits n word)
    (hgone : low >>> n = 0#w) :
    feed g word (List.replicate n false) = word >>> n ^^^ feed g low (List.replicate n false) := by
  have hword := feed_replicate_xor (g := g) 0#w word n
  have hlow := feed_replicate_xor (g := g) 0#w low n
  rw [BitVec.zero_xor] at hword hlow
  rw [hword, hlow, hbits, hgone, BitVec.xor_zero, BitVec.xor_comm]

end Register

end Crc
