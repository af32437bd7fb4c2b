import Pcloud.Fs.JournalFile
import Pcloud.Lib.Crc

/-!
# What the checksum of the journal tells apart

`crc32_ieee` shifts the lowest byte of the register out and puts what that leaves under the rest. It is the remainder
of the payload, so a payload that is changed within four bytes has another checksum.
-/

namespace Pcloud

open Crc Polynomial

/-! ## The register of the loop -/

/-- The polynomial, its highest coefficient first. -/
def crcPolynomial : BitVec 32 := 0xEDB88320#32

theorem and_one_ne_zero_iff (c : UInt32) : c &&& 1 ≠ 0 ↔ c.toBitVec.getLsbD 0 = true := by
  have hand : (c &&& 1).toBitVec = (BitVec.ofBool (c.toBitVec.getLsbD 0)).setWidth 32 := by
    rw [UInt32.toBitVec_and]
    exact BitVec.and_one_eq_setWidth_ofBool_getLsbD
  rw [ne_eq, ← UInt32.toBitVec_inj, hand]
  cases c.toBitVec.getLsbD 0 <;> decide

theorem crc32Bit_toBitVec (c : UInt32) : (crc32Bit c).toBitVec = step crcPolynomial c.toBitVec false := by
  rw [crc32Bit, step, Bool.xor_false]
  by_cases hlow : c &&& 1 ≠ 0
  · rw [if_pos hlow, if_pos ((and_one_ne_zero_iff c).mp hlow)]
    rfl
  · rw [if_neg hlow, if_neg fun h => hlow ((and_one_ne_zero_iff c).mpr h)]
    rfl

theorem crc32Bits_toBitVec (n : Nat) (c : UInt32) :
    ((List.range n).foldl (fun c _ => crc32Bit c) c).toBitVec = feed crcPolynomial c.toBitVec (List.replicate n false) := by
  induction n with
  | zero => rfl
  | succ n ih =>
    rw [List.range_succ, List.foldl_append, List.foldl_cons, List.foldl_nil, crc32Bit_toBitVec, ih, List.replicate_succ',
      feed_concat]

theorem getLsbD_lowByte (i : Nat) : (0xFF#32).getLsbD i = decide (i < 8) := by
  have hones : (0xFF#32) = (BitVec.allOnes 8).setWidth 32 := by decide
  rw [hones, BitVec.getLsbD_setWidth, BitVec.getLsbD_allOnes]
  by_cases hi : i < 8
  · simp [hi, Nat.lt_trans hi (by decide : 8 < 32)]
  · simp [hi]

section Byte

variable (word : BitVec 32) (byte : BitVec 8)

theorem lowBits_setWidth : lowBits 8 (byte.setWidth 32) = lowBits 8 byte := by
  refine List.map_congr_left fun i hi => ?_
  have hlt : i < 32 := Nat.lt_trans (List.mem_range.mp hi) (by decide)
  simp [hlt]

theorem setWidth_ushiftRight : byte.setWidth 32 >>> 8 = 0#32 := by
  refine BitVec.eq_of_getLsbD_eq fun i _ => ?_
  simp

theorem lowBits_lowByte : lowBits 8 (word &&& 0xFF#32) = lowBits 8 word := by
  refine List.map_congr_left fun i hi => ?_
  rw [BitVec.getLsbD_and, getLsbD_lowByte, decide_eq_true (List.mem_range.mp hi), Bool.and_true]

theorem lowByte_ushiftRight : (word &&& 0xFF#32) >>> 8 = 0#32 := by
  refine BitVec.eq_of_getLsbD_eq fun i _ => ?_
  simp [getLsbD_lowByte]

end Byte

/-- Only the lowest byte is fed; the rest of the register moves down past it. -/
theorem crc32Byte_toBitVec (crc : UInt32) (byte : UInt8) :
    (crc32Byte crc byte).toBitVec = feed crcPolynomial crc.toBitVec (lowBits 8 byte.toBitVec) := by
  let word := crc.toBitVec ^^^ byte.toBitVec.setWidth 32
  have hrest : crc.toBitVec >>> 8 = word >>> 8 := by
    rw [BitVec.ushiftRight_xor_distrib, setWidth_ushiftRight, BitVec.xor_zero]
  have hbyte : (crc32Byte crc byte).toBitVec =
      crc.toBitVec >>> 8 ^^^ feed crcPolynomial (word &&& 0xFF#32) (List.replicate 8 false) := by
    rw [crc32Byte, UInt32.toBitVec_xor, crc32Bits_toBitVec]
    rfl
  calc (crc32Byte crc byte).toBitVec
      = word >>> 8 ^^^ feed crcPolynomial (word &&& 0xFF#32) (List.replicate 8 false) := by rw [hbyte, hrest]
    _ = feed crcPolynomial word (List.replicate 8 false) :=
        (feed_replicate_of_low (lowBits_lowByte word) (lowByte_ushiftRight word)).symm
    _ = feed crcPolynomial crc.toBitVec (lowBits 8 byte.toBitVec) := by
        rw [feed_replicate_xor, setWidth_ushiftRight, BitVec.xor_zero, lowBits_setWidth]

/-- The bits of a text, each byte from its lowest bit on. -/
def messageBits (bytes : Bytes) : List Bool := bytes.flatMap fun byte => lowBits 8 byte.toBitVec

theorem feed_messageBits (bytes : Bytes) (crc : UInt32) :
    (bytes.foldl crc32Byte crc).toBitVec = feed crcPolynomial crc.toBitVec (messageBits bytes) := by
  induction bytes generalizing crc with
  | nil => rfl
  | cons byte bytes ih =>
    rw [List.foldl_cons, ih, crc32Byte_toBitVec, ← feed_append]
    rfl

theorem crc32Ieee_toBitVec (bytes : Bytes) :
    (crc32Ieee bytes).toBitVec = ~~~ feed crcPolynomial (BitVec.allOnes 32) (messageBits bytes) := by
  have hcrc := feed_messageBits bytes 0xFFFFFFFF
  rw [crc32Ieee, UInt32.toBitVec_not, hcrc]
  rfl

/-! ## What the checksum tells -/

theorem length_messageBits (bytes : Bytes) : (messageBits bytes).length = 8 * bytes.length := by
  simp [messageBits, Nat.mul_comm]

theorem messageBits_append (bytes bytes' : Bytes) :
    messageBits (bytes ++ bytes') = messageBits bytes ++ messageBits bytes' := List.flatMap_append

theorem messageBits_injective : Function.Injective messageBits := by
  intro bytes
  induction bytes with
  | nil =>
    intro bytes' h
    have hlen := congrArg List.length h
    rw [length_messageBits, length_messageBits, List.length_nil] at hlen
    exact (List.eq_nil_of_length_eq_zero (by omega)).symm
  | cons byte bytes ih =>
    rintro (_ | ⟨byte', bytes'⟩) h
    · cases h
    · obtain ⟨hbyte, hbytes⟩ := List.append_inj h (by simp)
      rw [UInt8.toBitVec_inj.mp (lowBits_inj hbyte), ih hbytes]

theorem coeff_zero_crcPolynomial : (generator crcPolynomial).coeff 0 = 1 :=
  coeff_zero_generator crcPolynomial (by decide) (by decide)

theorem generator_crcPolynomial : generator crcPolynomial =
    X ^ 32 + X ^ 26 + X ^ 23 + X ^ 22 + X ^ 16 + X ^ 12 + X ^ 11 + X ^ 10 + X ^ 8 + X ^ 7 + X ^ 5 + X ^ 4 + X ^ 2 +
      X + 1 := by
  have hbits : lowBits 32 crcPolynomial =
      [false, false, false, false, false, true, false, false, true, true, false, false, false, false, false, true,
        false, false, false, true, true, true, false, true, true, false, true, true, false, true, true, true] := by
    decide
  rw [generator, poly, hbits]
  simp only [ofBits, bit, List.foldl_cons, List.foldl_nil, if_true, Bool.false_eq_true, if_false]
  ring

theorem feed_eq_of_crc32Ieee_eq {bytes bytes' : Bytes} (h : crc32Ieee bytes = crc32Ieee bytes') :
    feed crcPolynomial (BitVec.allOnes 32) (messageBits bytes) =
      feed crcPolynomial (BitVec.allOnes 32) (messageBits bytes') := by
  have hnot := congrArg UInt32.toBitVec h
  rw [crc32Ieee_toBitVec, crc32Ieee_toBitVec] at hnot
  exact BitVec.not_inj.mp hnot

theorem poly_crc32Ieee (bytes : Bytes) : poly (crc32Ieee bytes).toBitVec =
    (X ^ 32 * ofBits (messageBits bytes) + X ^ (8 * bytes.length) * poly (BitVec.allOnes 32)) %ₘ
      generator crcPolynomial + poly (BitVec.allOnes 32) := by
  rw [crc32Ieee_toBitVec, poly_not, poly_feed, length_messageBits]

theorem crc32Ieee_torn_ne {before torn torn' after : Bytes} (hlen : torn.length = torn'.length)
    (hshort : torn.length ≤ 4) (hne : torn ≠ torn') :
    crc32Ieee (before ++ torn ++ after) ≠ crc32Ieee (before ++ torn' ++ after) := by
  intro h
  have hfeed := feed_eq_of_crc32Ieee_eq h
  simp only [messageBits_append] at hfeed
  refine hne (messageBits_injective (eq_of_feed_eq coeff_zero_crcPolynomial ?_ ?_ hfeed))
  · rw [length_messageBits, length_messageBits, hlen]
  · rw [length_messageBits]
    omega

/-- The checksum of the journal is CRC-32, by bits and by division, and a change within 32 bits in a row changes it. -/
theorem crc32Ieee_isCrc32 :
    (∀ bytes, (crc32Ieee bytes).toBitVec = ~~~ feed crcPolynomial (BitVec.allOnes 32) (messageBits bytes)) ∧
    (∀ bytes, poly (crc32Ieee bytes).toBitVec =
      (X ^ 32 * ofBits (messageBits bytes) + X ^ (8 * bytes.length) * poly (BitVec.allOnes 32)) %ₘ
        generator crcPolynomial + poly (BitVec.allOnes 32)) ∧
    (∀ bytes bytes' : Bytes, ∀ start, bytes.length = bytes'.length → bytes ≠ bytes' →
      (∀ i, (messageBits bytes)[i]? ≠ (messageBits bytes')[i]? → start ≤ i ∧ i < start + 32) →
      crc32Ieee bytes ≠ crc32Ieee bytes') ∧
    ∀ before torn torn' after : Bytes, torn.length = torn'.length → torn.length ≤ 4 → torn ≠ torn' →
      crc32Ieee (before ++ torn ++ after) ≠ crc32Ieee (before ++ torn' ++ after) := by
  refine ⟨crc32Ieee_toBitVec, poly_crc32Ieee, ?_, fun _ _ _ _ => crc32Ieee_torn_ne⟩
  intro bytes bytes' start hlen hne hwindow h
  have hbits : (messageBits bytes).length = (messageBits bytes').length := by
    rw [length_messageBits, length_messageBits, hlen]
  exact hne (messageBits_injective
    (eq_of_feed_eq_of_window coeff_zero_crcPolynomial hbits hwindow (feed_eq_of_crc32Ieee_eq h)))

theorem crc32Ieee_isCrc32_torn : crc32Ieee [1, 2, 3, 4, 5, 6] ≠ crc32Ieee [1, 0, 0, 0, 0, 6] :=
  crc32Ieee_isCrc32.2.2.2 [1] [2, 3, 4, 5] [0, 0, 0, 0] [6] rfl (by decide) (by decide)

theorem JournalCodec.readFrame_changed (codec : JournalCodec) {before torn torn' after : Bytes}
    (hlen : torn.length = torn'.length) (hshort : torn.length ≤ 4) (hne : torn ≠ torn')
    (hmax : (before ++ torn ++ after).length ≤ maxRecordBytes) (rest : Bytes) :
    codec.readFrame (u32ToLeBytes magic ++ u32ToLeBytes (UInt32.ofNat (before ++ torn ++ after).length) ++
      u32ToLeBytes (crc32Ieee (before ++ torn ++ after)) ++ (before ++ torn' ++ after ++ rest)) = .stop := by
  have hsame : (before ++ torn ++ after).length = (before ++ torn' ++ after).length := by simp [hlen]
  have hword : (UInt32.ofNat (before ++ torn ++ after).length).toNat = (before ++ torn' ++ after).length := by
    rw [hsame] at hmax ⊢
    exact UInt32.toNat_ofNat_of_lt' (Nat.lt_of_le_of_lt hmax (by decide))
  rw [readFrame_header, hword, List.take_left]
  split_ifs with hlarge htorn hcrc
  · omega
  · rfl
  · rfl
  · exact absurd (not_not.mp hcrc) (crc32Ieee_torn_ne hlen.symm (hlen ▸ hshort) hne.symm)

end Pcloud
