import Pcloud.Lib.Digits
import Pcloud.Crypto.Primitives

/-!
# The base32 envelope of encrypted names

`base32_encode` and `base32_decode` of `pclsync_filename.rs`: upper-case base32 without padding.
Both run a small accumulator over the stream. The decoder drops whatever bits are left in it at
the end, so it takes more strings than the encoder makes.
-/

namespace Pcloud

open Digits

inductive FilenameError where
  | empty
  | tooLong (len : Nat)
  | base32Decode
  | invalidPlaintext
  | invalidUtf8
deriving DecidableEq

/-! ## The codec -/

def base32Alphabet : List Char := "ABCDEFGHIJKLMNOPQRSTUVWXYZ234567".toList

def base32Char (digit : Nat) : Char := base32Alphabet.getD digit 'A'

/-- `(buff >> bits) & 0x1f`, the index of the next character. -/
def base32Digit (buff bits : Nat) : Nat := (buff >>> bits) &&& 0x1f

/-- The digits of the loop over the input and of the flush after it. A byte is read only while
fewer than five bits are left, so one byte read gives one digit, or two. -/
def base32Loop (buff bits : Nat) : Bytes → List Nat
  | [] => if bits > 0 then [base32Digit (buff <<< (5 - bits) % 2 ^ 32) 0] else []
  | byte :: input =>
    let buff := (buff <<< 8) % 2 ^ 32 ||| byte.toNat
    let bits := bits + 8 - 5
    if bits < 5 then base32Digit buff bits :: base32Loop buff bits input
    else base32Digit buff bits :: base32Digit buff (bits - 5) :: base32Loop buff (bits - 5) input

def base32Encode (input : Bytes) : String := String.ofList ((base32Loop 0 0 input).map base32Char)

def base32Value (ch : UInt8) : Option Nat :=
  if 'A'.toUInt8 ≤ ch ∧ ch ≤ 'Z'.toUInt8 then some ((ch &&& 0x1f) - 1).toNat
  else if '2'.toUInt8 ≤ ch ∧ ch ≤ '7'.toUInt8 then some (ch - ('2'.toUInt8 - 26)).toNat
  else none

def base32DecodeLoop (buff bits : Nat) : Bytes → Except FilenameError Bytes
  | [] => .ok []
  | ch :: rest =>
    match base32Value ch with
    | none => .error .base32Decode
    | some v =>
      let buff := (buff <<< 5) % 2 ^ 32 ||| v
      let bits := bits + 5
      if bits ≥ 8 then
        (base32DecodeLoop buff (bits - 8) rest).map (UInt8.ofNat (buff >>> (bits - 8)) :: ·)
      else base32DecodeLoop buff bits rest

def base32Decode (input : String) : Except FilenameError Bytes := base32DecodeLoop 0 0 (utf8 input)

example : base32Encode (utf8 "foobar") = "MZXW6YTBOI" := by decide

/-! ## The encoder -/

def byteValue (bytes : Bytes) : Nat := value 256 (bytes.map UInt8.toNat)

@[simp]
theorem byteValue_nil : byteValue [] = 0 := rfl

@[simp]
theorem byteValue_cons (byte : UInt8) (bytes : Bytes) :
    byteValue (byte :: bytes) = byte.toNat * 256 ^ bytes.length + byteValue bytes := by
  simp [byteValue]

theorem byteValue_inj {xs ys : Bytes} (hlen : xs.length = ys.length) (h : byteValue xs = byteValue ys) :
    xs = ys := by
  have hlt : ∀ bytes : Bytes, ∀ d ∈ bytes.map UInt8.toNat, d < 256 := by
    intro bytes d hd
    obtain ⟨byte, -, rfl⟩ := List.mem_map.mp hd
    exact byte.toNat_lt
  have hmap := value_inj (by decide) (by simpa using hlen) (hlt xs) (hlt ys) h
  exact List.map_injective_iff.mpr (fun a b => UInt8.toNat_inj.mp) hmap

theorem base32Digit_eq (buff bits : Nat) : base32Digit buff bits = buff >>> bits % 2 ^ 5 :=
  Nat.and_two_pow_sub_one_eq_mod _ 5

theorem base32Digit_lt (buff bits : Nat) : base32Digit buff bits < 32 := by
  rw [base32Digit_eq]
  exact Nat.mod_lt _ (by decide)

/-- What the digits from some accumulator on say: its low bits, the bytes to come and a pad of
fewer than five zero bits. -/
def EncodesFrom (buff bits : Nat) (input : Bytes) (digits : List Nat) : Prop :=
  (∀ d ∈ digits, d < 32) ∧ ∃ pad < 5, 5 * digits.length = bits + 8 * input.length + pad ∧
    value 32 digits = (buff % 2 ^ bits * 256 ^ input.length + byteValue input) * 2 ^ pad

theorem EncodesFrom.emit {buff bits : Nat} {input : Bytes} {digits : List Nat}
    (h : EncodesFrom buff bits input digits) :
    EncodesFrom buff (bits + 5) input (base32Digit buff bits :: digits) := by
  obtain ⟨hlt, pad, hpad, hlen, hval⟩ := h
  refine ⟨?_, pad, hpad, ?_, ?_⟩
  · rw [List.forall_mem_cons]
    exact ⟨base32Digit_lt buff bits, hlt⟩
  · rw [List.length_cons]
    omega
  · have hpow : 32 ^ digits.length = 2 ^ bits * 256 ^ input.length * 2 ^ pad := by
      rw [show (32 : Nat) = 2 ^ 5 from rfl, show (256 : Nat) = 2 ^ 8 from rfl, ← Nat.pow_mul, ← Nat.pow_mul,
        ← Nat.pow_add, ← Nat.pow_add, hlen]
    rw [value_cons, hval, hpow, shift_out_rest, ← base32Digit_eq]
    ring

theorem EncodesFrom.read {buff bits : Nat} {byte : UInt8} {input : Bytes} {digits : List Nat}
    (hbits : bits < 5)
    (h : EncodesFrom ((buff <<< 8) % 2 ^ 32 ||| byte.toNat) (bits + 8) input digits) :
    EncodesFrom buff bits (byte :: input) digits := by
  obtain ⟨hlt, pad, hpad, hlen, hval⟩ := h
  refine ⟨hlt, pad, hpad, ?_, ?_⟩
  · rw [List.length_cons]
    omega
  · have hin := shift_in buff bits byte.toNat_lt (by omega)
    rw [hval, hin, byteValue_cons, List.length_cons]
    ring

/-- By induction on the input. Each byte read is followed by one digit or two, which leaves fewer
than five bits again. -/
theorem base32Loop_encodes (buff : Nat) {bits : Nat} (input : Bytes) (hbits : bits < 5) :
    EncodesFrom buff bits input (base32Loop buff bits input) := by
  induction input generalizing buff bits with
  | nil =>
    unfold base32Loop
    split
    · rename_i hpos
      refine ⟨?_, 5 - bits, by omega, ?_, ?_⟩
      · simp [base32Digit_lt]
      · simp
        omega
      · have hroom : 0 < 2 ^ (5 - bits) := by positivity
        have hin := shift_in buff bits hroom (by omega)
        rw [Nat.or_zero, show bits + (5 - bits) = 5 by omega, Nat.add_zero] at hin
        simp only [value_cons, List.length_nil, Nat.pow_zero, Nat.mul_one, value_nil, Nat.add_zero,
          base32Digit_eq, Nat.shiftRight_zero, byteValue_nil]
        exact hin
    · refine ⟨by simp, 0, by omega, by simp; omega, ?_⟩
      have hzero : bits = 0 := by omega
      simp [hzero, Nat.mod_one]
  | cons byte input ih =>
    apply EncodesFrom.read hbits
    unfold base32Loop
    set next := (buff <<< 8) % 2 ^ 32 ||| byte.toNat
    dsimp only
    split
    · rename_i hlow
      exact (ih next hlow).emit
    · rename_i hhigh
      have hleft : bits + 8 - 5 - 5 < 5 := by omega
      have hrest := (ih next hleft).emit.emit
      rwa [show bits + 8 - 5 - 5 + 5 + 5 = bits + 8 by omega,
        show bits + 8 - 5 - 5 + 5 = bits + 8 - 5 by omega] at hrest

/-! ## The decoder -/

/-- A character of the alphabet as the byte it is in a string. -/
def base32Byte (digit : Nat) : UInt8 := (base32Char digit).toUInt8

theorem base32Value_byte : ∀ d < 32, base32Value (base32Byte d) = some d := by decide

theorem base32Value_eq_some {ch : UInt8} {d : Nat} (h : base32Value ch = some d) :
    d < 32 ∧ ch = base32Byte d := by
  have hall : ∀ n < 256, ∀ d ∈ base32Value (UInt8.ofNat n), d < 32 ∧ UInt8.ofNat n = base32Byte d := by
    decide +kernel
  have hch := hall ch.toNat ch.toNat_lt
  rw [UInt8.ofNat_toNat] at hch
  exact hch d h

theorem base32Byte_inj {d d' : Nat} (hd : d < 32) (hd' : d' < 32) (h : base32Byte d = base32Byte d') :
    d = d' := by
  have hval := base32Value_byte d hd
  rw [h, base32Value_byte d' hd'] at hval
  exact (Option.some.inj hval).symm

theorem map_base32Byte_inj {xs ys : List Nat} (hx : ∀ d ∈ xs, d < 32) (hy : ∀ d ∈ ys, d < 32)
    (h : xs.map base32Byte = ys.map base32Byte) : xs = ys := by
  induction xs generalizing ys with
  | nil => simpa using h
  | cons x xs ih =>
    cases ys with
    | nil => cases h
    | cons y ys =>
      rw [List.forall_mem_cons] at hx hy
      rw [List.map_cons, List.map_cons, List.cons.injEq] at h
      rw [base32Byte_inj hx.1 hy.1 h.1, ih hx.2 hy.2 h.2]

theorem utf8_base32 {digits : List Nat} (h : ∀ d ∈ digits, d < 32) :
    utf8 (String.ofList (digits.map base32Char)) = digits.map base32Byte := by
  have hsize : ∀ d < 32, (base32Char d).utf8Size = 1 := by decide
  unfold utf8
  rw [String.toByteArray_ofList]
  induction digits with
  | nil => rfl
  | cons d digits ih =>
    rw [List.forall_mem_cons] at h
    rw [List.map_cons, List.map_cons, List.utf8Encode_cons, List.utf8Encode_singleton]
    simp only [ByteArray.data_append, Array.toList_append, ih h.2,
      String.utf8EncodeChar_eq_singleton (hsize d h.1)]
    rfl

/-- What the bytes from some accumulator on say: its low bits and the digits to come, less the
bits that are left over at the end. -/
def DecodesFrom (buff bits : Nat) (digits : List Nat) (out : Bytes) : Prop :=
  ∃ left < 8, ∃ rest < 2 ^ left, 8 * out.length + left = bits + 5 * digits.length ∧
    buff % 2 ^ bits * 32 ^ digits.length + value 32 digits = byteValue out * 2 ^ left + rest

theorem DecodesFrom.read {buff bits d : Nat} {digits : List Nat} {out : Bytes} (hd : d < 32)
    (hbits : bits < 8) (h : DecodesFrom ((buff <<< 5) % 2 ^ 32 ||| d) (bits + 5) digits out) :
    DecodesFrom buff bits (d :: digits) out := by
  obtain ⟨left, hleft, rest, hrest, hlen, hval⟩ := h
  refine ⟨left, hleft, rest, hrest, ?_, ?_⟩
  · rw [List.length_cons]
    omega
  · have hin := shift_in (w := 5) buff bits hd (by omega)
    rw [← hval, hin, value_cons, List.length_cons]
    ring

theorem DecodesFrom.emit {buff bits : Nat} {digits : List Nat} {out : Bytes}
    (h : DecodesFrom buff bits digits out) :
    DecodesFrom buff (bits + 8) digits (UInt8.ofNat (buff >>> bits) :: out) := by
  obtain ⟨left, hleft, rest, hrest, hlen, hval⟩ := h
  refine ⟨left, hleft, rest, hrest, ?_, ?_⟩
  · rw [List.length_cons]
    omega
  · have hpow : 2 ^ bits * 32 ^ digits.length = 256 ^ out.length * 2 ^ left := by
      rw [show (32 : Nat) = 2 ^ 5 from rfl, show (256 : Nat) = 2 ^ 8 from rfl, ← Nat.pow_mul, ← Nat.pow_mul,
        ← Nat.pow_add, ← Nat.pow_add, hlen]
    have hbyte : (UInt8.ofNat (buff >>> bits)).toNat = buff >>> bits % 2 ^ 8 := UInt8.toNat_ofNat'
    rw [shift_out_rest, byteValue_cons, hbyte]
    calc (buff >>> bits % 2 ^ 8 * 2 ^ bits + buff % 2 ^ bits) * 32 ^ digits.length + value 32 digits
        = buff >>> bits % 2 ^ 8 * (2 ^ bits * 32 ^ digits.length) +
            (buff % 2 ^ bits * 32 ^ digits.length + value 32 digits) := by ring
      _ = (buff >>> bits % 2 ^ 8 * 256 ^ out.length + byteValue out) * 2 ^ left + rest := by
          rw [hpow, hval]
          ring

theorem base32DecodeLoop_eq_ok {buff bits : Nat} {chars out : Bytes} (hbits : bits < 8)
    (h : base32DecodeLoop buff bits chars = .ok out) :
    ∃ digits : List Nat, (∀ d ∈ digits, d < 32) ∧ chars = digits.map base32Byte ∧
      DecodesFrom buff bits digits out := by
  induction chars generalizing buff bits out with
  | nil =>
    cases h
    exact ⟨[], by simp, rfl, bits, hbits, buff % 2 ^ bits, Nat.mod_lt _ (by positivity), by simp, by simp⟩
  | cons ch chars ih =>
    unfold base32DecodeLoop at h
    cases hv : base32Value ch with
    | none =>
      rw [hv] at h
      cases h
    | some d =>
      obtain ⟨hd, hch⟩ := base32Value_eq_some hv
      simp only [hv] at h
      split at h
      · rename_i hfull
        cases hout : base32DecodeLoop ((buff <<< 5) % 2 ^ 32 ||| d) (bits + 5 - 8) chars with
        | error e =>
          rw [hout] at h
          cases h
        | ok out' =>
          rw [hout] at h
          cases h
          obtain ⟨digits, hdigits, hchars, hdec⟩ := ih (by omega) hout
          have hemit := hdec.emit
          rw [show bits + 5 - 8 + 8 = bits + 5 by omega] at hemit
          exact ⟨d :: digits, List.forall_mem_cons.mpr ⟨hd, hdigits⟩, by rw [hch, hchars]; rfl,
            hemit.read hd hbits⟩
      · rename_i hlow
        obtain ⟨digits, hdigits, hchars, hdec⟩ := ih (by omega) h
        exact ⟨d :: digits, List.forall_mem_cons.mpr ⟨hd, hdigits⟩, by rw [hch, hchars]; rfl,
          hdec.read hd hbits⟩

theorem base32DecodeLoop_accepts (buff bits : Nat) {digits : List Nat} (h : ∀ d ∈ digits, d < 32) :
    ∃ out, base32DecodeLoop buff bits (digits.map base32Byte) = .ok out := by
  induction digits generalizing buff bits with
  | nil => exact ⟨[], rfl⟩
  | cons d digits ih =>
    rw [List.forall_mem_cons] at h
    rw [List.map_cons, base32DecodeLoop, base32Value_byte d h.1]
    dsimp only
    split
    · obtain ⟨out, hout⟩ := ih _ _ h.2
      exact ⟨_, by rw [hout]; rfl⟩
    · exact ih _ _ h.2

/-! ## There and back -/

theorem base32Decode_eq_ok {encoded : String} {data : Bytes} (h : base32Decode encoded = .ok data) :
    ∃ digits : List Nat, (∀ d ∈ digits, d < 32) ∧ encoded = String.ofList (digits.map base32Char) ∧
      DecodesFrom 0 0 digits data := by
  obtain ⟨digits, hdigits, hchars, hdec⟩ := base32DecodeLoop_eq_ok (by decide) h
  refine ⟨digits, hdigits, utf8_inj ?_, hdec⟩
  rw [hchars, utf8_base32 hdigits]

theorem base32Decode_encode (data : Bytes) : base32Decode (base32Encode data) = .ok data := by
  obtain ⟨hdigits, pad, hpad, hlen, hval⟩ := base32Loop_encodes 0 data (by decide : 0 < 5)
  have hutf8 := utf8_base32 hdigits
  obtain ⟨out, hout⟩ := base32DecodeLoop_accepts 0 0 hdigits
  obtain ⟨digits, hdigits', hsame, left, hleft, rest, hrest, hlen', hval'⟩ :=
    base32DecodeLoop_eq_ok (by decide) hout
  rw [← map_base32Byte_inj hdigits hdigits' hsame] at hlen' hval'
  -- Fewer than eight bits are left of the five-bit pad, so they are the pad.
  have hpadleft : left = pad := by omega
  subst hpadleft
  simp only [Nat.pow_zero, Nat.mod_one, Nat.zero_mul, Nat.zero_add] at hval hval'
  rw [hval] at hval'
  have hbytes : byteValue data = byteValue out := by
    have hdiv := congrArg (· / 2 ^ left) hval'
    simp only [Nat.mul_div_cancel _ (Nat.two_pow_pos left)] at hdiv
    rwa [Nat.mul_comm, Nat.mul_add_div (Nat.two_pow_pos left), Nat.div_eq_of_lt hrest, Nat.add_zero] at hdiv
  have hdata : data = out := byteValue_inj (by omega) hbytes
  unfold base32Decode base32Encode
  rw [hutf8, hout, hdata]

/-- How many bits the decoder has left over after a string. -/
def base32LeftOver (encoded : String) : Nat := 5 * (utf8 encoded).length % 8

/-- A string that the encoder could have made: the last character is needed, and the bits of it
that are left over are zero. -/
def Base32Canonical (encoded : String) : Prop :=
  base32LeftOver encoded < 5 ∧
    ∀ ch ∈ (utf8 encoded).getLast?, ∀ v ∈ base32Value ch, v % 2 ^ base32LeftOver encoded = 0

instance (encoded : String) : Decidable (Base32Canonical encoded) :=
  inferInstanceAs (Decidable (_ ∧ _))

theorem value_mod_two_pow (digits : List Nat) {left : Nat} (hleft : left < 5) :
    value 32 digits % 2 ^ left = 0 ↔ ∀ d ∈ digits.getLast?, d % 2 ^ left = 0 := by
  rcases List.eq_nil_or_concat digits with rfl | ⟨front, last, rfl⟩
  · simp
  · have hdvd : 2 ^ left ∣ value 32 front * 32 :=
      Dvd.dvd.mul_left (Nat.pow_dvd_pow 2 (show left ≤ 5 by omega)) _
    rw [List.concat_eq_append, value_concat, List.getLast?_concat]
    simp only [Option.mem_some_iff, forall_eq']
    rw [Nat.add_mod, Nat.mod_eq_zero_of_dvd hdvd, Nat.zero_add, Nat.mod_mod]

theorem base32Canonical_digits {digits : List Nat} (h : ∀ d ∈ digits, d < 32) :
    Base32Canonical (String.ofList (digits.map base32Char)) ↔
      5 * digits.length % 8 < 5 ∧ value 32 digits % 2 ^ (5 * digits.length % 8) = 0 := by
  unfold Base32Canonical base32LeftOver
  rw [utf8_base32 h, List.length_map]
  apply and_congr_right
  intro hleft
  rw [value_mod_two_pow digits hleft, List.getLast?_map]
  constructor
  · intro hall d hd
    have hlast := h d (List.mem_of_mem_getLast? hd)
    exact hall _ (Option.mem_map_of_mem _ hd) d (base32Value_byte d hlast)
  · intro hall ch hch v hv
    obtain ⟨d, hd, rfl⟩ := Option.mem_map.mp hch
    rw [base32Value_byte d (h d (List.mem_of_mem_getLast? hd)), Option.mem_some_iff] at hv
    rw [← hv]
    exact hall d hd

theorem base32Encode_decode_iff {encoded : String} {data : Bytes} (h : base32Decode encoded = .ok data) :
    base32Encode data = encoded ↔ Base32Canonical encoded := by
  obtain ⟨digits, hdigits, rfl, left, hleft, rest, hrest, hlen, hval⟩ := base32Decode_eq_ok h
  obtain ⟨hdigits', pad, hpad, hlen', hval'⟩ := base32Loop_encodes 0 data (by decide : 0 < 5)
  have hleftover : 5 * digits.length % 8 = left := by omega
  simp only [Nat.pow_zero, Nat.mod_one, Nat.zero_mul, Nat.zero_add] at hval hval'
  rw [base32Canonical_digits hdigits, hleftover]
  have hmod : value 32 digits % 2 ^ left = rest := by
    rw [hval, Nat.mul_comm, Nat.mul_add_mod, Nat.mod_eq_of_lt hrest]
  constructor
  · intro hencode
    have hsame : base32Loop 0 0 data = digits := by
      have hutf8 := congrArg utf8 hencode
      rw [base32Encode, utf8_base32 hdigits', utf8_base32 hdigits] at hutf8
      exact map_base32Byte_inj hdigits' hdigits hutf8
    rw [hsame] at hlen' hval'
    have hpadleft : pad = left := by omega
    refine ⟨by omega, ?_⟩
    rw [hval', hpadleft, Nat.mul_mod_left]
  · rintro ⟨hsmall, hzero⟩
    have hpadleft : pad = left := by omega
    have hsame : value 32 (base32Loop 0 0 data) = value 32 digits := by
      rw [hval', hval, hpadleft, ← hmod, hzero, Nat.add_zero]
    have hdata := value_inj (by decide) (by omega) hdigits' hdigits hsame
    rw [base32Encode, hdata]

end Pcloud
