import Pcloud.Fs.JournalFile

/-!
# What may follow the records of a journal (`replay_path`)

Whole records at the start of what follows are read too, and the rest is dropped where no record starts. Only a header
that asks for more than a record may have turns the whole replay into an error.
-/

namespace Pcloud.JournalCodec

variable (codec : JournalCodec) {record : JournalRecord} {records : List JournalRecord}

/-- A header with the magic and a length no record has. -/
def Oversized (bytes : Bytes) : Prop :=
  12 ≤ bytes.length ∧ u32OfLeBytes (bytes.take 4) = magic ∧
    maxRecordBytes < (u32OfLeBytes ((bytes.drop 4).take 4)).toNat

def Readable (payload : Bytes) : Prop := payload.length ≤ maxRecordBytes ∧ (codec.fromSlice payload).isSome

/-- Such a header stands after a row of whole records, or at the start. -/
def OversizedAfterRecords (bytes : Bytes) : Prop :=
  ∃ payloads : List Bytes, ∃ left, (∀ payload ∈ payloads, codec.Readable payload) ∧
    bytes = payloads.flatMap envelope ++ left ∧ Oversized left

/-! ## One turn of the loop -/

variable {codec}

theorem readFrame_eq_fail {bytes : Bytes} {error : ReplayError} :
    codec.readFrame bytes = .fail error ↔ Oversized bytes := by
  unfold readFrame
  dsimp only
  constructor
  · intro h
    split_ifs at h with hnil hshort hmagic hlarge
    · exact ⟨by omega, not_not.mp hmagic, hlarge⟩
    · split at h <;> cases h
  · rintro ⟨hlong, hmagic, hlarge⟩
    have hne : bytes ≠ [] := by
      rintro rfl
      simp at hlong
    cases error
    rw [if_neg hne, if_neg (by omega), if_neg (not_not.mpr hmagic), if_pos hlarge]

theorem envelope_of_readFrame {bytes rest : Bytes} (h : codec.readFrame bytes = .frame record rest) :
    ∃ payload, codec.Readable payload ∧ bytes = envelope payload ++ rest := by
  unfold readFrame at h
  dsimp only at h
  split_ifs at h with hnil hshort hmagic hlarge htorn hcrc
  set payloadLen := u32OfLeBytes ((bytes.drop 4).take 4) with hpayloadLen
  set payload := (bytes.drop 12).take payloadLen.toNat with hpayload
  rcases hrecord : codec.fromSlice payload with _ | record
  · rw [hrecord] at h
    cases h
  · rw [hrecord] at h
    cases h
    have hlength : payload.length = payloadLen.toNat := by
      rw [hpayload, List.length_take, List.length_drop]
      omega
    have hword : ∀ n, n + 4 ≤ bytes.length →
        u32ToLeBytes (u32OfLeBytes ((bytes.drop n).take 4)) = (bytes.drop n).take 4 := by
      intro n hn
      apply u32ToLeBytes_ofLeBytes
      rw [List.length_take, List.length_drop]
      omega
    have hfirst : u32ToLeBytes magic = bytes.take 4 := by
      rw [← not_not.mp hmagic]
      exact hword 0 (by omega)
    have hsecond : u32ToLeBytes (UInt32.ofNat payload.length) = (bytes.drop 4).take 4 := by
      rw [hlength, UInt32.ofNat_toNat]
      exact hword 4 (by omega)
    have hthird : u32ToLeBytes (crc32Ieee payload) = (bytes.drop 8).take 4 := by
      rw [not_not.mp hcrc]
      exact hword 8 (by omega)
    refine ⟨payload, ⟨by omega, by rw [hrecord]; rfl⟩, ?_⟩
    calc bytes = bytes.take 4 ++ ((bytes.drop 4).take 4 ++ ((bytes.drop 8).take 4 ++
          ((bytes.drop 12).take payloadLen.toNat ++ bytes.drop (12 + payloadLen.toNat)))) := by
          have hsplit : ∀ m n, (bytes.drop m).take n ++ bytes.drop (m + n) = bytes.drop m := by
            intro m n
            rw [Nat.add_comm m n, Nat.add_comm n m, ← List.drop_drop, List.take_append_drop]
          rw [hsplit 12, hsplit 8 4, hsplit 4 4]
          exact (List.take_append_drop 4 bytes).symm
      _ = envelope payload ++ bytes.drop (12 + payloadLen.toNat) := by
          rw [envelope, hfirst, hsecond, hthird, hpayload]
          simp only [List.append_assoc]

/-! ## The whole replay -/

theorem leaves_iff {bytes left : Bytes} :
    FrameLog.Leaves codec.readFrame bytes left ↔
      ∃ payloads : List Bytes, (∀ payload ∈ payloads, codec.Readable payload) ∧
        bytes = payloads.flatMap envelope ++ left := by
  constructor
  · intro h
    induction h with
    | here bytes => exact ⟨[], by simp, rfl⟩
    | frame hframe _ ih =>
      obtain ⟨payload, hpayload, rfl⟩ := envelope_of_readFrame hframe
      obtain ⟨payloads, hpayloads, rfl⟩ := ih
      refine ⟨payload :: payloads, List.forall_mem_cons.mpr ⟨hpayload, hpayloads⟩, ?_⟩
      rw [List.flatMap_cons, List.append_assoc]
  · rintro ⟨payloads, hpayloads, rfl⟩
    induction payloads with
    | nil => exact .here left
    | cons payload payloads ih =>
      obtain ⟨⟨hlen, hsome⟩, hrest⟩ := List.forall_mem_cons.mp hpayloads
      obtain ⟨record, hrecord⟩ := Option.isSome_iff_exists.mp hsome
      rw [List.flatMap_cons, List.append_assoc]
      exact .frame (readFrame_envelope hlen hrecord _) (ih hrest)

theorem replayPath_eq_error {bytes : Bytes} {error : ReplayError} :
    codec.replayPath bytes = .error error ↔ codec.OversizedAfterRecords bytes := by
  rw [replayPath, FrameLog.scan_eq_error_iff codec.consumes (Nat.lt_succ_self _)]
  simp only [leaves_iff, readFrame_eq_fail]
  constructor
  · rintro ⟨left, ⟨payloads, hpayloads, hbytes⟩, hlarge⟩
    exact ⟨payloads, left, hpayloads, hbytes, hlarge⟩
  · rintro ⟨payloads, left, hpayloads, hbytes, hlarge⟩
    exact ⟨left, ⟨payloads, hpayloads, hbytes⟩, hlarge⟩

theorem replayPath_append (hgood : ∀ record ∈ records, codec.Good record) (g : Bytes) :
    codec.replayPath (records.flatMap codec.frame ++ g) = (codec.replayPath g).map (records ++ ·) := by
  have hle := codec.length_le_frames records
  have hfuel : (records.flatMap codec.frame ++ g).length <
      records.length + ((records.flatMap codec.frame ++ g).length + 1) := by omega
  have hg : g.length < (records.flatMap codec.frame ++ g).length + 1 := by
    rw [List.length_append]
    omega
  rw [← codec.scan_eq_replayPath hfuel, codec.reads.scan_append hgood, codec.scan_eq_replayPath hg]

/-- Replay gives the records back, and maybe more, whatever follows them: all but a header of a record too large. -/
theorem replayPath_tail_iff (hgood : ∀ record ∈ records, codec.Good record) (g : Bytes) :
    (∃ out, codec.replayPath (records.flatMap codec.frame ++ g) = .ok out ∧ records <+: out ∧
        (g = [] → out = records)) ↔
      ¬ codec.OversizedAfterRecords g := by
  rw [replayPath_append hgood]
  rcases hreplay : codec.replayPath g with error | more
  · have hlarge := replayPath_eq_error.mp hreplay
    refine iff_of_false ?_ (not_not.mpr hlarge)
    rintro ⟨out, ⟨⟩, -⟩
  · have hfine : ¬ codec.OversizedAfterRecords g := by
      intro hlarge
      have herror : codec.replayPath g = .error .recordTooLarge := replayPath_eq_error.mpr hlarge
      exact nomatch herror.symm.trans hreplay
    refine iff_of_true ⟨records ++ more, rfl, List.prefix_append records more, ?_⟩ hfine
    rintro rfl
    cases hreplay
    exact List.append_nil records

/-! ### A header of 16 MiB and a byte -/

open JournalFile (unlinkX unlinkXCodec unlinkXCodec_keeps)

def oversizedHeader : Bytes := u32ToLeBytes magic ++ u32ToLeBytes 0x01000001 ++ u32ToLeBytes 0

theorem unlinkX_good : unlinkXCodec.Good ⟨1, unlinkX⟩ := ⟨unlinkXCodec_keeps 1, by decide +kernel⟩

theorem not_replayPath_tail :
    unlinkXCodec.Good ⟨1, unlinkX⟩ ∧
      unlinkXCodec.replayPath ([⟨1, unlinkX⟩].flatMap unlinkXCodec.frame ++ oversizedHeader) =
        .error .recordTooLarge := by
  have hlarge : Oversized oversizedHeader := by
    unfold Oversized
    decide +kernel
  have herror : unlinkXCodec.replayPath oversizedHeader = .error .recordTooLarge :=
    replayPath_eq_error.mpr ⟨[], oversizedHeader, by simp, rfl, hlarge⟩
  refine ⟨unlinkX_good, ?_⟩
  rw [replayPath_append (by simpa using unlinkX_good), herror]
  rfl

/-- A byte that starts no record. -/
theorem replayPath_tail_iff_one :
    (∃ out, unlinkXCodec.replayPath ([⟨1, unlinkX⟩].flatMap unlinkXCodec.frame ++ [0]) = .ok out ∧
        [⟨1, unlinkX⟩] <+: out ∧ ([0] = ([] : Bytes) → out = [⟨1, unlinkX⟩])) ↔
      ¬ unlinkXCodec.OversizedAfterRecords [0] :=
  replayPath_tail_iff (by simpa using unlinkX_good) [0]

end Pcloud.JournalCodec
