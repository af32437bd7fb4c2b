import Mathlib.Data.Nat.Digits.Defs
import Pcloud.Fs.WriteJournal
import Pcloud.Lib.FrameLog
import Pcloud.Lib.Runs
import Pcloud.Model.Bytes

/-!
# The file of the write journal (`pcloud-fs/src/write_journal.rs`)

The journal byte by byte: what `append` writes, what is left of it after a failure or a crash, and what
`replay_path` makes of the file. A record is turned into bytes and back by `serde_json`, a parameter here.
The journal that the write path works on has the frames instead of the bytes.
-/

namespace Pcloud

/-! ## Frames -/

def magic : UInt32 := 0x50434A31

def maxRecordBytes : Nat := 16 * 1024 * 1024

def crc32Bit (c : UInt32) : UInt32 := if c &&& 1 ≠ 0 then (c >>> 1) ^^^ 0xEDB88320 else c >>> 1

def crc32Byte (crc : UInt32) (byte : UInt8) : UInt32 :=
  (crc >>> 8) ^^^ (List.range 8).foldl (fun c _ => crc32Bit c) ((crc ^^^ byte.toUInt32) &&& 0xFF)

def crc32Ieee (bytes : Bytes) : UInt32 := ~~~ bytes.foldl crc32Byte 0xFFFFFFFF

/-- The check value of the polynomial, for "123456789". -/
example : crc32Ieee [49, 50, 51, 52, 53, 54, 55, 56, 57] = 0xCBF43926 := by decide

/-- `serde_json::to_vec` and `serde_json::from_slice` of a record. -/
structure JournalCodec where
  toVec : JournalRecord → Bytes
  fromSlice : Bytes → Option JournalRecord

namespace JournalCodec

variable (codec : JournalCodec)

/-- The records of an operation are read back as they were written. -/
def Keeps (op : JournalOp) : Prop := ∀ seq, codec.fromSlice (codec.toVec ⟨seq, op⟩) = some ⟨seq, op⟩

/-- The header and the payload of `append`. -/
def frame (record : JournalRecord) : Bytes :=
  let payload := codec.toVec record
  u32ToLeBytes magic ++ u32ToLeBytes (UInt32.ofNat payload.length) ++ u32ToLeBytes (crc32Ieee payload) ++ payload

/-- One turn of the loop of `replay_path`, from the bytes that are left. -/
def readFrame (bytes : Bytes) : FrameLog.Outcome UInt8 JournalRecord ReplayError :=
  if bytes = [] then .stop
  else if bytes.length < 12 then .stop
  else if u32OfLeBytes (bytes.take 4) ≠ magic then .stop
  else
    let payloadLen := (u32OfLeBytes ((bytes.drop 4).take 4)).toNat
    let crcExpected := u32OfLeBytes ((bytes.drop 8).take 4)
    if payloadLen > maxRecordBytes then .fail .recordTooLarge
    else if payloadLen > bytes.length - 12 then .stop
    else
      let payload := (bytes.drop 12).take payloadLen
      if crc32Ieee payload ≠ crcExpected then .stop
      else
        match codec.fromSlice payload with
        | some record => .frame record (bytes.drop (12 + payloadLen))
        | none => .stop

/-- `replay_path`. A file that is not there is read as an empty one. -/
def replayPath (file : Bytes) : Except ReplayError (List JournalRecord) :=
  FrameLog.scan codec.readFrame (file.length + 1) file

/-- What `append` takes and replay gives back. -/
def Good (record : JournalRecord) : Prop :=
  codec.fromSlice (codec.toVec record) = some record ∧ (codec.toVec record).length ≤ maxRecordBytes

end JournalCodec

/-! ## The journal -/

/-- An open `WriteJournal`. -/
structure JournalHandle where
  position : Nat
  nextSeq : Nat

/-- Where `reset` stops with an error. -/
inductive ResetFailure
  | setLen
  | seek
  | commit
deriving DecidableEq, Repr

inductive JournalCall
  | open
  | append (op : JournalOp) (failure : Option AppendFailure)
  | reset (failure : Option ResetFailure)
  /-- The process is gone, and of the bytes that no `commit` has synced only some are kept. -/
  | crash (kept : Nat)
deriving DecidableEq, Repr

/-- A record whose append returned `Ok`, and how often the journal had been opened. -/
structure Acked where
  session : Nat
  record : JournalRecord
deriving DecidableEq, Repr

/-- A journal path over the life of many processes. `opens`, `synced` and what was acknowledged, since the last
reset and ever, are for the record only. -/
structure JournalFile where
  file : Bytes := []
  handle : Option JournalHandle := none
  synced : Nat := 0
  opens : Nat := 0
  acked : List Acked := []
  history : List Acked := []

namespace JournalFile

variable (codec : JournalCodec) (s : JournalFile)

/-- `write_all` at the position of the handle. -/
def writeAll (h : JournalHandle) (bytes : Bytes) : JournalFile :=
  { s with file := writeAt s.file h.position bytes, handle := some { h with position := h.position + bytes.length } }

def append (h : JournalHandle) (op : JournalOp) (failure : Option AppendFailure) : JournalFile :=
  let record : JournalRecord := ⟨h.nextSeq, op⟩
  if (codec.toVec record).length > maxRecordBytes then s
  else
    match failure with
    | some .nothing => s
    | some (.torn written) => s.writeAll h ((codec.frame record).take written)
    | some .unsynced => s.writeAll h (codec.frame record)
    | none =>
      let written := s.writeAll h (codec.frame record)
      { written with
        handle := some ⟨h.position + (codec.frame record).length, h.nextSeq + 1⟩
        synced := written.file.length
        acked := s.acked ++ [⟨s.opens, record⟩]
        history := s.history ++ [⟨s.opens, record⟩] }

def reset (h : JournalHandle) : Option ResetFailure → JournalFile
  | some .setLen => s
  | some .seek => { s with file := [], synced := 0, acked := [] }
  | some .commit | none => { s with file := [], handle := some { h with position := 0 }, synced := 0, acked := [] }

def step (s : JournalFile) : JournalCall → JournalFile
  | .open => { s with handle := some ⟨s.file.length, 1⟩, opens := s.opens + 1 }
  | .append op failure => s.handle.elim s fun h => s.append codec h op failure
  | .reset failure => s.handle.elim s fun h => s.reset h failure
  | .crash kept => { s with handle := none, file := s.file.take (max s.synced kept) }

end JournalFile

/-! ## What replay reads -/

namespace JournalCodec

variable {codec : JournalCodec} {record : JournalRecord}

theorem readFrame_header (codec : JournalCodec) (payloadLen crc : UInt32) (rest : Bytes) :
    codec.readFrame (u32ToLeBytes magic ++ u32ToLeBytes payloadLen ++ u32ToLeBytes crc ++ rest) =
      if payloadLen.toNat > maxRecordBytes then .fail .recordTooLarge
      else if payloadLen.toNat > rest.length then .stop
      else if crc32Ieee (rest.take payloadLen.toNat) ≠ crc then .stop
      else
        match codec.fromSlice (rest.take payloadLen.toNat) with
        | some record => .frame record (rest.drop payloadLen.toNat)
        | none => .stop := by
  let header := u32ToLeBytes magic ++ u32ToLeBytes payloadLen ++ u32ToLeBytes crc
  have hheader : header.length = 12 := by simp [header]
  have hmagic : (header ++ rest).take 4 = u32ToLeBytes magic := by simp [header]
  have hlen : ((header ++ rest).drop 4).take 4 = u32ToLeBytes payloadLen := by simp [header]
  have hcrc : ((header ++ rest).drop 8).take 4 = u32ToLeBytes crc := by
    have hsplit : header ++ rest = (u32ToLeBytes magic ++ u32ToLeBytes payloadLen) ++ (u32ToLeBytes crc ++ rest) := by
      simp [header]
    rw [hsplit, List.drop_left' (by simp)]
    simp
  have hdrop : ∀ n, (header ++ rest).drop (12 + n) = rest.drop n := by
    intro n
    rw [← hheader, List.drop_length_add_append]
  have hlength : (header ++ rest).length = 12 + rest.length := by rw [List.length_append, hheader]
  have hne : header ++ rest ≠ [] := by
    intro hnil
    rw [hnil] at hlength
    simp at hlength
    omega
  show codec.readFrame (header ++ rest) = _
  unfold readFrame
  rw [if_neg hne, if_neg (by omega), hmagic, hlen, hcrc]
  simp only [u32OfLeBytes_toLeBytes, ne_eq, not_true_eq_false, if_false, hdrop, hlength, Nat.add_sub_cancel_left]
  have hdrop12 : (header ++ rest).drop 12 = rest := hdrop 0
  rw [hdrop12]

/-- A payload under its header, whoever wrote it. -/
def envelope (payload : Bytes) : Bytes :=
  u32ToLeBytes magic ++ u32ToLeBytes (UInt32.ofNat payload.length) ++ u32ToLeBytes (crc32Ieee payload) ++ payload

theorem length_frame (codec : JournalCodec) (record : JournalRecord) :
    (codec.frame record).length = 12 + (codec.toVec record).length := by
  simp [frame]
  omega

theorem toNat_payloadLen {payload : Bytes} (h : payload.length ≤ maxRecordBytes) :
    (UInt32.ofNat payload.length).toNat = payload.length := by
  apply UInt32.toNat_ofNat_of_lt
  simp only [maxRecordBytes, UInt32.size] at h ⊢
  omega

theorem readFrame_envelope {payload : Bytes} (hlen : payload.length ≤ maxRecordBytes)
    (hrecord : codec.fromSlice payload = some record) (rest : Bytes) :
    codec.readFrame (envelope payload ++ rest) = .frame record rest := by
  rw [envelope, List.append_assoc, readFrame_header, toNat_payloadLen hlen]
  rw [if_neg (by omega), if_neg (by simp), List.take_left, if_neg (by simp), hrecord]
  simp

theorem readFrame_frame (h : codec.Good record) (rest : Bytes) :
    codec.readFrame (codec.frame record ++ rest) = .frame record rest := readFrame_envelope h.2 h.1 rest

theorem readFrame_torn (h : codec.Good record) {tail : Bytes} (hpart : tail <+: codec.frame record)
    (hne : tail ≠ codec.frame record) : codec.readFrame tail = .stop := by
  have hmax := h.2
  have hshort : tail.length < (codec.frame record).length := by
    have hle := hpart.length_le
    have hlength : tail.length ≠ (codec.frame record).length := fun heq => hne (hpart.eq_of_length heq)
    omega
  rw [length_frame] at hshort
  rcases Nat.lt_or_ge tail.length 12 with hheader | hheader
  · unfold readFrame
    split <;>
    rfl
  · obtain ⟨rest, rfl⟩ : ∃ rest, tail = u32ToLeBytes magic ++
        u32ToLeBytes (UInt32.ofNat (codec.toVec record).length) ++
        u32ToLeBytes (crc32Ieee (codec.toVec record)) ++ rest := by
      have hheaders : u32ToLeBytes magic ++ u32ToLeBytes (UInt32.ofNat (codec.toVec record).length) ++
          u32ToLeBytes (crc32Ieee (codec.toVec record)) <+: codec.frame record := List.prefix_append _ _
      obtain ⟨rest, heq⟩ := List.prefix_of_prefix_length_le hheaders hpart (by simpa)
      exact ⟨rest, heq.symm⟩
    rw [readFrame_header, toNat_payloadLen hmax, if_neg (by omega), if_pos]
    simp at hshort
    omega

theorem reads (codec : JournalCodec) : FrameLog.Reads codec.readFrame codec.frame codec.Good where
  back _ h rest := readFrame_frame h rest
  torn _ h _ hpart hne := readFrame_torn h hpart hne
  empty := rfl

theorem consumes (codec : JournalCodec) : FrameLog.Consumes codec.readFrame := by
  intro bytes record rest h
  unfold readFrame at h
  dsimp only at h
  split_ifs at h
  split at h
  · cases h
    simp
    omega
  · cases h

/-- Fuel for every byte is enough: more of it reads no more. -/
theorem scan_eq_replayPath (codec : JournalCodec) {fuel : Nat} {file : Bytes} (hfuel : file.length < fuel) :
    FrameLog.scan codec.readFrame fuel file = codec.replayPath file :=
  FrameLog.scan_fuel codec.consumes hfuel (Nat.lt_succ_self _)

theorem length_le_frames (codec : JournalCodec) (records : List JournalRecord) :
    records.length ≤ (records.flatMap codec.frame).length := by
  induction records with
  | nil => exact Nat.zero_le _
  | cons record records ih =>
    rw [List.flatMap_cons, List.length_append, length_frame, List.length_cons]
    omega

theorem replayPath_frames {records : List JournalRecord} (hgood : ∀ record ∈ records, codec.Good record) {tail : Bytes}
    (htail : FrameLog.Torn codec.frame codec.Good tail) :
    codec.replayPath (records.flatMap codec.frame ++ tail) = .ok records := by
  apply codec.reads.scan hgood htail
  have hle := codec.length_le_frames records
  rw [List.length_append]
  omega

end JournalCodec

/-! ## What is acknowledged is replayed -/

namespace JournalFile

variable {codec : JournalCodec} {s : JournalFile}

/-- What was acknowledged is replayed, in order and unchanged. -/
def Durable (codec : JournalCodec) (s : JournalFile) : Prop :=
  ∃ records, codec.replayPath s.file = .ok records ∧ (s.acked.map Acked.record).Sublist records

/-- The record is not too large, and the append gets as far as `write_all`. -/
def Writes (codec : JournalCodec) (h : JournalHandle) (op : JournalOp) (failure : Option AppendFailure) : Prop :=
  (codec.toVec ⟨h.nextSeq, op⟩).length ≤ maxRecordBytes ∧ failure ≠ some .nothing

/-- What an append writes goes to the end of a file of whole frames. -/
def Clean (codec : JournalCodec) (s : JournalFile) : JournalCall → Prop
  | .append op failure => ∀ h, s.handle = some h → Writes codec h op failure →
      h.position = s.file.length ∧ FrameLog.Whole codec.readFrame s.file
  | _ => True

/-- The frames that are synced, those that are not, and maybe a part of one. -/
def Framed (codec : JournalCodec) (s : JournalFile) : Prop :=
  ∃ synced unsynced tail, s.file = synced.flatMap codec.frame ++ (unsynced.flatMap codec.frame ++ tail) ∧
    s.synced = (synced.flatMap codec.frame).length ∧ (s.acked.map Acked.record).Sublist synced ∧
    (∀ record ∈ synced ++ unsynced, codec.Good record) ∧ FrameLog.Torn codec.frame codec.Good tail

theorem Framed.durable (h : Framed codec s) : Durable codec s := by
  obtain ⟨synced, unsynced, tail, hfile, -, hacked, hgood, htail⟩ := h
  refine ⟨synced ++ unsynced, ?_, hacked.trans (List.sublist_append_left ..)⟩
  rw [hfile, ← List.append_assoc, ← List.flatMap_append]
  exact JournalCodec.replayPath_frames hgood htail

theorem Framed.congr {s' : JournalFile} (h : Framed codec s) (hfile : s'.file = s.file) (hsynced : s'.synced = s.synced)
    (hacked : s'.acked = s.acked) : Framed codec s' := by
  unfold Framed
  rw [hfile, hsynced, hacked]
  exact h

theorem Framed.empty (hfile : s.file = []) (hsynced : s.synced = 0) (hacked : s.acked = []) : Framed codec s :=
  ⟨[], [], [], hfile, hsynced, by simp [hacked], by simp, .inl rfl⟩

theorem Framed.cut {s' : JournalFile} (h : Framed codec s) {n : Nat} (hn : s.synced ≤ n)
    (hfile : s'.file = s.file.take n)
    (hsynced : s'.synced = s.synced) (hacked : s'.acked = s.acked) : Framed codec s' := by
  obtain ⟨synced, unsynced, tail, hframes, hlength, hsub, hgood, htail⟩ := h
  have hunsynced : ∀ record ∈ unsynced, codec.Good record :=
    fun record hrecord => hgood record (List.mem_append_right _ hrecord)
  obtain ⟨unsynced', tail', htake, hpart, htail'⟩ :=
    FrameLog.take_frames hunsynced htail (n - (synced.flatMap codec.frame).length)
  refine ⟨synced, unsynced', tail', ?_, hsynced.trans hlength, hacked ▸ hsub, ?_, htail'⟩
  · rw [hfile, hframes, List.take_append, List.take_of_length_le (by omega), htake]
  · intro record hrecord
    rcases List.mem_append.mp hrecord with hrecord | hrecord
    · exact hgood record (List.mem_append_left _ hrecord)
    · exact hunsynced record (hpart.subset hrecord)

theorem Framed.extend {s' : JournalFile} (h : Framed codec s) (hwhole : FrameLog.Whole codec.readFrame s.file)
    {record : JournalRecord} (hrecord : codec.Good record) {n : Nat}
    (hfile : s'.file = s.file ++ (codec.frame record).take n) (hsynced : s'.synced = s.synced)
    (hacked : s'.acked = s.acked) : Framed codec s' := by
  obtain ⟨synced, unsynced, tail, hframes, hlength, hsub, hgood, htail⟩ := h
  rw [hframes, ← List.append_assoc, ← List.flatMap_append] at hwhole
  obtain rfl := codec.reads.tail_eq_nil hgood htail hwhole
  have hone : ∀ record' ∈ [record], codec.Good record' := by simpa using hrecord
  obtain ⟨more, tail', htake, hpart, htail'⟩ := FrameLog.take_frames hone FrameLog.torn_nil n
  refine ⟨synced, unsynced ++ more, tail', ?_, hsynced.trans hlength, hacked ▸ hsub, ?_, htail'⟩
  · rw [List.flatMap_singleton, List.append_nil] at htake
    rw [hfile, hframes, htake]
    simp
  · intro record' hrecord'
    rw [← List.append_assoc] at hrecord'
    rcases List.mem_append.mp hrecord' with hold | hnew
    · exact hgood record' hold
    · exact hone record' (hpart.subset hnew)

theorem Framed.sync {s' : JournalFile} (h : Framed codec s) (hwhole : FrameLog.Whole codec.readFrame s.file)
    {record : JournalRecord} (hrecord : codec.Good record) (hfile : s'.file = s.file ++ codec.frame record)
    (hsynced : s'.synced = s'.file.length) {session : Nat} (hacked : s'.acked = s.acked ++ [⟨session, record⟩]) :
    Framed codec s' := by
  obtain ⟨synced, unsynced, tail, hframes, hlength, hsub, hgood, htail⟩ := h
  rw [hframes, ← List.append_assoc, ← List.flatMap_append] at hwhole
  obtain rfl := codec.reads.tail_eq_nil hgood htail hwhole
  have hfile' : s'.file = (synced ++ unsynced ++ [record]).flatMap codec.frame := by
    rw [hfile, hframes]
    simp
  refine ⟨synced ++ unsynced ++ [record], [], [], by simpa using hfile', by rw [hsynced, hfile'], ?_, ?_, .inl rfl⟩
  · rw [hacked, List.map_append]
    exact (hsub.trans (List.sublist_append_left ..)).append (List.Sublist.refl _)
  · intro record' hrecord'
    rw [List.append_nil] at hrecord'
    rcases List.mem_append.mp hrecord' with hold | hnew
    · exact hgood record' hold
    · rwa [List.mem_singleton.mp hnew]

theorem Framed.append (h : Framed codec s) {handle : JournalHandle} (hposition : handle.position = s.file.length)
    (hwhole : FrameLog.Whole codec.readFrame s.file) {op : JournalOp} (hop : codec.Keeps op)
    (failure : Option AppendFailure) : Framed codec (s.append codec handle op failure) := by
  have hend : ∀ bytes, writeAt s.file handle.position bytes = s.file ++ bytes := by
    intro bytes
    rw [hposition, writeAt_length]
  unfold JournalFile.append
  dsimp only
  split_ifs with hsize
  · exact h
  · have hgood : codec.Good ⟨handle.nextSeq, op⟩ := ⟨hop handle.nextSeq, Nat.le_of_not_gt hsize⟩
    rcases failure with _ | _ | written | _
    · exact h.sync hwhole hgood (hend _) rfl rfl
    · exact h
    · exact h.extend hwhole hgood (hend _) rfl rfl
    · let frame := codec.frame ⟨handle.nextSeq, op⟩
      have hall : (s.writeAll handle frame).file = s.file ++ frame.take frame.length := by
        rw [List.take_length]
        exact hend frame
      exact h.extend hwhole hgood hall rfl rfl

theorem append_of_not_writes {handle : JournalHandle} {op : JournalOp} {failure : Option AppendFailure}
    (h : ¬ Writes codec handle op failure) : s.append codec handle op failure = s := by
  unfold JournalFile.append
  dsimp only
  split_ifs with hsize
  · rfl
  · have hnothing : failure = some .nothing := by
      by_contra hfailure
      exact h ⟨Nat.le_of_not_gt hsize, hfailure⟩
    rw [hnothing]

theorem Framed.step (h : Framed codec s) {call : JournalCall} (hclean : Clean codec s call)
    (hop : ∀ op failure, call = .append op failure → codec.Keeps op) : Framed codec (step codec s call) := by
  cases call with
  | «open» => exact h.congr rfl rfl rfl
  | append op failure =>
    rcases hhandle : s.handle with _ | handle
    · simp only [JournalFile.step, hhandle, Option.elim]
      exact h
    · simp only [JournalFile.step, hhandle, Option.elim]
      by_cases hwrites : Writes codec handle op failure
      · obtain ⟨hposition, hwhole⟩ := hclean handle hhandle hwrites
        exact h.append hposition hwhole (hop op failure rfl) failure
      · rw [append_of_not_writes hwrites]
        exact h
  | reset failure =>
    rcases hhandle : s.handle with _ | handle
    · simp only [JournalFile.step, hhandle, Option.elim]
      exact h
    · simp only [JournalFile.step, hhandle, Option.elim]
      rcases failure with _ | _ | _ | _
      · exact .empty rfl rfl rfl
      · exact h
      · exact .empty rfl rfl rfl
      · exact .empty rfl rfl rfl
  | crash kept => exact h.cut (Nat.le_max_left ..) rfl rfl rfl

/-! ### One operation as `serde_json` writes it -/

def unlinkX : JournalOp := .unlink "/x"

/-- The text before a sequence number, up to `"seq":`. -/
def jsonStart : Bytes := [123, 34, 115, 101, 113, 34, 58]

/-- The text after it, from `,"op":` on. -/
def jsonEnd : Bytes :=
  [44, 34, 111, 112, 34, 58, 123, 34, 85, 110, 108, 105, 110, 107, 34, 58, 123, 34, 112, 97, 116, 104, 34, 58, 34, 47,
    120, 34, 125, 125, 125]

/-- The records of `unlinkX`. -/
def unlinkXCodec : JournalCodec where
  toVec record := jsonStart ++ (Nat.digits 10 record.seq).reverse.map (fun d => UInt8.ofNat (48 + d)) ++ jsonEnd
  fromSlice bytes :=
    let digits := (bytes.drop jsonStart.length).take (bytes.length - jsonStart.length - jsonEnd.length)
    some ⟨Nat.ofDigits 10 (digits.map fun byte => byte.toNat - 48).reverse, unlinkX⟩

theorem unlinkXCodec_keeps : unlinkXCodec.Keeps unlinkX := by
  intro seq
  have hdigits : ∀ d ∈ (Nat.digits 10 seq).reverse, (UInt8.ofNat (48 + d)).toNat - 48 = d := by
    intro d hd
    have hlt := Nat.digits_lt_base (by decide) (List.mem_reverse.mp hd)
    simp
    omega
  have hsplit : ∀ digits : Bytes, ((jsonStart ++ digits ++ jsonEnd).drop jsonStart.length).take
      ((jsonStart ++ digits ++ jsonEnd).length - jsonStart.length - jsonEnd.length) = digits := by
    intro digits
    rw [List.append_assoc, List.drop_left]
    apply List.take_left'
    simp
  have hback : (((Nat.digits 10 seq).reverse.map fun d => UInt8.ofNat (48 + d)).map
      fun byte => byte.toNat - 48) = (Nat.digits 10 seq).reverse := by
    rw [List.map_map]
    exact (List.map_congr_left hdigits).trans (List.map_id _)
  simp only [unlinkXCodec, hsplit, hback, List.reverse_reverse, Nat.ofDigits_digits]

/-- An append is one of `unlinkX`. -/
def appendsUnlinkX : JournalCall → Bool
  | .append op _ => op = unlinkX
  | _ => true

theorem unlinkXCodec_keeps_all {calls : List JournalCall} (h : calls.all appendsUnlinkX) (op : JournalOp)
    (failure : Option AppendFailure) (hmem : .append op failure ∈ calls) : unlinkXCodec.Keeps op := by
  have hop : decide (op = unlinkX) = true := List.all_eq_true.mp h _ hmem
  rw [of_decide_eq_true hop]
  exact unlinkXCodec_keeps

/-! ### Whole runs -/

/-- Every run whose appends write to the end of whole frames replays, in every state, what it acknowledged. -/
theorem durable_of_clean (codec : JournalCodec) (calls : List JournalCall)
    (hcodec : ∀ op failure, .append op failure ∈ calls → codec.Keeps op)
    (hclean : Runs.AllSteps (step codec) (Clean codec) {} calls) :
    Runs.AllStates (step codec) (Durable codec) {} calls := by
  have hkept : Runs.AllSteps (step codec) (fun _ call => ∀ op failure, call = .append op failure → codec.Keeps op)
      {} calls := by
    apply Runs.allSteps_of_calls
    rintro call hcall op failure rfl
    exact hcodec op failure hcall
  exact (hclean.and hkept).allStates (I := Framed codec) (.empty rfl rfl rfl) (fun _ _ h hok => h.step hok.1 hok.2)
    fun _ h => h.durable

/-- Two appends, one that fails after five bytes, and a crash that leaves these. -/
def crashedOnce : List JournalCall :=
  [.open, .append unlinkX none, .append unlinkX none, .append unlinkX (some (.torn 5)), .crash 1000, .open]

theorem durable_of_clean_crashedOnce :
    unlinkXCodec.replayPath (Runs.run (step unlinkXCodec) {} crashedOnce).file = .ok [⟨1, unlinkX⟩, ⟨2, unlinkX⟩] ∧
      Runs.AllStates (step unlinkXCodec) (Durable unlinkXCodec) {} crashedOnce := by
  have hgood : ∀ seq ∈ [1, 2], unlinkXCodec.Good ⟨seq, unlinkX⟩ := by
    intro seq hseq
    refine ⟨unlinkXCodec_keeps seq, ?_⟩
    revert seq
    decide
  have hwhole : ∀ seqs : List Nat, (∀ seq ∈ seqs, seq ∈ [1, 2]) →
      FrameLog.Whole unlinkXCodec.readFrame ((seqs.map fun seq => ⟨seq, unlinkX⟩).flatMap unlinkXCodec.frame) := by
    intro seqs hseqs
    apply unlinkXCodec.reads.whole
    rintro record hrecord
    obtain ⟨seq, hseq, rfl⟩ := List.mem_map.mp hrecord
    exact hgood seq (hseqs seq hseq)
  refine ⟨by decide +kernel, durable_of_clean unlinkXCodec crashedOnce (unlinkXCodec_keeps_all (by decide)) ?_⟩
  refine ⟨trivial, ?_, ?_, ?_, trivial, trivial, trivial⟩
  · rintro _ ⟨⟩ -
    exact ⟨rfl, hwhole [] (by simp)⟩
  · rintro _ ⟨⟩ -
    exact ⟨rfl, hwhole [1] (by simp)⟩
  · rintro _ ⟨⟩ -
    have hfile : (Runs.run (step unlinkXCodec) {} (crashedOnce.take 3)).file =
        ([1, 2].map fun seq => ⟨seq, unlinkX⟩).flatMap unlinkXCodec.frame := by decide +kernel
    refine ⟨by decide +kernel, ?_⟩
    show FrameLog.Whole _ (Runs.run (step unlinkXCodec) {} (crashedOnce.take 3)).file
    rw [hfile]
    exact hwhole [1, 2] (by simp)

/-- An append between two others that fails after four bytes. -/
def tornOnce : List JournalCall :=
  [.open, .append unlinkX none, .append unlinkX (some (.torn 4)), .append unlinkX none]

/-- The next magic is taken for the length of the torn frame, and replay fails. -/
theorem not_durable :
    ¬ ∀ (codec : JournalCodec) (calls : List JournalCall),
      (∀ op failure, .append op failure ∈ calls → codec.Keeps op) →
      Runs.AllStates (step codec) (Durable codec) {} calls := by
  intro h
  obtain ⟨records, hreplay, -⟩ :=
    (h unlinkXCodec tornOnce (unlinkXCodec_keeps_all (by decide))).run
  have herror : unlinkXCodec.replayPath (Runs.run (step unlinkXCodec) {} tornOnce).file = .error .recordTooLarge := by
    decide +kernel
  rw [herror] at hreplay
  cases hreplay

/-! ## Sequence numbers -/

/-- A record has the number of its append among those of the same open handle, whatever was reset in between. -/
def Sequenced (s : JournalFile) : Prop :=
  ∀ before acked after, s.history = before ++ acked :: after →
    acked.record.seq = before.countP (·.session = acked.session) + 1

/-- Replay returns what was appended since the last reset, in order; and of two records of one open handle the later
has the higher number. -/
def ReplaysInOrder (codec : JournalCodec) (s : JournalFile) : Prop :=
  codec.replayPath s.file = .ok (s.acked.map Acked.record) ∧ s.acked <:+ s.history ∧
    s.history.Pairwise fun a b => a.session = b.session → a.record.seq < b.record.seq

/-- What fails leaves the file, or nothing in it. -/
def Quiet : JournalCall → Prop
  | .append _ (some (.torn _)) | .append _ (some .unsynced) | .reset (some .seek) => False
  | _ => True

structure Numbered (s : JournalFile) : Prop where
  next : ∀ h, s.handle = some h → h.nextSeq = s.history.countP (·.session = s.opens) + 1
  sessions : ∀ acked ∈ s.history, acked.session ≤ s.opens
  sequenced : Sequenced s
  suffix : s.acked <:+ s.history
  increasing : s.history.Pairwise fun a b => a.session = b.session → a.record.seq < b.record.seq

theorem Numbered.congr {s' : JournalFile} (h : Numbered s) (hhistory : s'.history = s.history)
    (hopens : s'.opens = s.opens)
    (hnext : ∀ handle', s'.handle = some handle' → ∃ handle, s.handle = some handle ∧ handle'.nextSeq = handle.nextSeq)
    (hacked : s'.acked <:+ s.acked) : Numbered s' where
  next handle' hhandle' := by
    obtain ⟨handle, hhandle, hseq⟩ := hnext handle' hhandle'
    rw [hhistory, hopens, hseq, h.next handle hhandle]
  sessions := by rw [hhistory, hopens]; exact h.sessions
  sequenced := by rw [Sequenced, hhistory]; exact h.sequenced
  suffix := by rw [hhistory]; exact hacked.trans h.suffix
  increasing := by rw [hhistory]; exact h.increasing

theorem Numbered.lt_next (h : Numbered s) {acked : Acked} (hacked : acked ∈ s.history)
    (hsession : acked.session = s.opens) :
    acked.record.seq < s.history.countP (·.session = s.opens) + 1 := by
  obtain ⟨before, after, hhistory⟩ := List.append_of_mem hacked
  rw [h.sequenced before acked after hhistory, hhistory, List.countP_append, List.countP_cons, hsession]
  simp

theorem Numbered.acknowledge {s' : JournalFile} (h : Numbered s) {handle : JournalHandle}
    (hhandle : s.handle = some handle)
    {op : JournalOp} (hhistory : s'.history = s.history ++ [⟨s.opens, ⟨handle.nextSeq, op⟩⟩])
    (hacked : s'.acked = s.acked ++ [⟨s.opens, ⟨handle.nextSeq, op⟩⟩]) (hopens : s'.opens = s.opens)
    {position : Nat} (hnext : s'.handle = some ⟨position, handle.nextSeq + 1⟩) : Numbered s' where
  next handle' hhandle' := by
    rw [hnext] at hhandle'
    cases hhandle'
    simp [hhistory, hopens, h.next handle hhandle]
  sessions acked hmem := by
    rw [hhistory] at hmem
    rw [hopens]
    rcases List.mem_append.mp hmem with hold | hnew
    · exact h.sessions acked hold
    · rw [List.mem_singleton.mp hnew]
  sequenced before acked after heq := by
    rw [hhistory] at heq
    rcases List.eq_nil_or_concat after with rfl | ⟨after', last, rfl⟩
    · obtain ⟨rfl, hlast⟩ := List.append_inj' heq rfl
      obtain rfl := (List.singleton_inj.mp hlast).symm
      exact h.next handle hhandle
    · rw [List.concat_eq_append, ← List.cons_append, ← List.append_assoc] at heq
      exact h.sequenced before acked after' (List.append_inj' heq rfl).1
  suffix := by
    obtain ⟨before, hbefore⟩ := h.suffix
    exact ⟨before, by rw [hacked, hhistory, ← hbefore, List.append_assoc]⟩
  increasing := by
    rw [hhistory, List.pairwise_append]
    refine ⟨h.increasing, List.pairwise_singleton _ _, ?_⟩
    intro acked hmem last hlast hsession
    rw [List.mem_singleton.mp hlast] at hsession ⊢
    rw [h.next handle hhandle]
    exact h.lt_next hmem hsession

theorem Numbered.step (h : Numbered s) (call : JournalCall) : Numbered (step codec s call) := by
  have hsame : ∀ handle', s.handle = some handle' → ∃ handle, s.handle = some handle ∧ handle'.nextSeq = handle.nextSeq :=
    fun handle' hhandle' => ⟨handle', hhandle', rfl⟩
  cases call with
  | «open» =>
    have hnone : s.history.countP (·.session = s.opens + 1) = 0 := by
      apply List.countP_eq_zero.mpr
      intro acked hacked
      have hle := h.sessions acked hacked
      simp
      omega
    refine ⟨?_, fun acked hacked => Nat.le_succ_of_le (h.sessions acked hacked), h.sequenced, h.suffix, h.increasing⟩
    rintro _ ⟨⟩
    exact (congrArg (· + 1) hnone).symm
  | append op failure =>
    rcases hhandle : s.handle with _ | handle
    · simp only [JournalFile.step, hhandle, Option.elim]
      exact h
    · simp only [JournalFile.step, hhandle, Option.elim, JournalFile.append]
      have hwritten : ∀ bytes, Numbered (s.writeAll handle bytes) := by
        intro bytes
        refine h.congr ?_ ?_ ?_ ?_
        · rfl
        · rfl
        · rintro _ ⟨⟩
          exact ⟨handle, hhandle, rfl⟩
        · exact List.suffix_refl _
      split_ifs
      · exact h
      · rcases failure with _ | _ | written | _
        · exact h.acknowledge hhandle rfl rfl rfl rfl
        · exact h
        · exact hwritten _
        · exact hwritten _
  | reset failure =>
    rcases hhandle : s.handle with _ | handle
    · simp only [JournalFile.step, hhandle, Option.elim]
      exact h
    · simp only [JournalFile.step, hhandle, Option.elim]
      have hmoved : ∀ handle', some { handle with position := 0 } = some handle' →
          ∃ handle, s.handle = some handle ∧ handle'.nextSeq = handle.nextSeq := by
        rintro _ ⟨⟩
        exact ⟨handle, hhandle, rfl⟩
      rcases failure with _ | _ | _ | _
      · exact h.congr rfl rfl hmoved (List.nil_suffix)
      · exact h
      · exact h.congr rfl rfl hsame (List.nil_suffix)
      · exact h.congr rfl rfl hmoved (List.nil_suffix)
  | crash kept => exact h.congr rfl rfl (by rintro _ ⟨⟩) (List.suffix_refl _)

/-- Nothing is torn or unsynced, and the file has what was acknowledged since the last reset. -/
structure Settled (codec : JournalCodec) (s : JournalFile) : Prop where
  file : s.file = (s.acked.map Acked.record).flatMap codec.frame
  synced : s.synced = s.file.length
  position : ∀ h, s.handle = some h → h.position = s.file.length
  good : ∀ acked ∈ s.acked, codec.Good acked.record

theorem Settled.replay (h : Settled codec s) : codec.replayPath s.file = .ok (s.acked.map Acked.record) := by
  have hgood : ∀ record ∈ s.acked.map Acked.record, codec.Good record := by
    intro record hrecord
    obtain ⟨acked, hacked, rfl⟩ := List.mem_map.mp hrecord
    exact h.good acked hacked
  have hreplay := JournalCodec.replayPath_frames hgood FrameLog.torn_nil
  rw [List.append_nil] at hreplay
  rw [h.file, hreplay]

theorem Settled.append (h : Settled codec s) {handle : JournalHandle} (hhandle : s.handle = some handle)
    {op : JournalOp} (hop : codec.Keeps op) : Settled codec (s.append codec handle op none) := by
  have hend : ∀ bytes, writeAt s.file handle.position bytes = s.file ++ bytes := by
    intro bytes
    rw [h.position handle hhandle, writeAt_length]
  unfold JournalFile.append
  dsimp only
  split_ifs with hsize
  · exact h
  · refine ⟨?_, rfl, ?_, ?_⟩
    · show writeAt s.file handle.position _ = _
      rw [hend, h.file, List.map_append, List.flatMap_append]
      simp
    · rintro _ ⟨⟩
      show handle.position + _ = (writeAt s.file handle.position _).length
      rw [hend, List.length_append, h.position handle hhandle]
    · intro acked hacked
      rcases List.mem_append.mp hacked with hold | hnew
      · exact h.good acked hold
      · rw [List.mem_singleton.mp hnew]
        exact ⟨hop handle.nextSeq, Nat.le_of_not_gt hsize⟩

theorem Settled.reset {handle : JournalHandle} : Settled codec (s.reset handle none) where
  file := rfl
  synced := rfl
  position := by
    rintro _ ⟨⟩
    rfl
  good _ hacked := absurd hacked List.not_mem_nil

theorem Settled.step (h : Settled codec s) {call : JournalCall} (hquiet : Quiet call)
    (hop : ∀ op failure, call = .append op failure → codec.Keeps op) : Settled codec (step codec s call) := by
  cases call with
  | «open» =>
    refine ⟨h.file, h.synced, ?_, h.good⟩
    rintro _ ⟨⟩
    rfl
  | append op failure =>
    rcases hhandle : s.handle with _ | handle
    · simp only [JournalFile.step, hhandle, Option.elim]
      exact h
    · simp only [JournalFile.step, hhandle, Option.elim]
      rcases failure with _ | _ | written | _
      · exact h.append hhandle (hop op none rfl)
      · unfold JournalFile.append
        dsimp only
        split_ifs <;>
        exact h
      · exact hquiet.elim
      · exact hquiet.elim
  | reset failure =>
    rcases hhandle : s.handle with _ | handle
    · simp only [JournalFile.step, hhandle, Option.elim]
      exact h
    · simp only [JournalFile.step, hhandle, Option.elim]
      rcases failure with _ | _ | _ | _
      · exact .reset
      · exact h
      · exact hquiet.elim
      · exact .reset
  | crash kept =>
    have hfile : s.file.take (max s.synced kept) = s.file := by
      apply List.take_of_length_le
      rw [h.synced]
      exact Nat.le_max_left ..
    refine ⟨hfile.trans h.file, ?_, by rintro _ ⟨⟩, h.good⟩
    show s.synced = (s.file.take (max s.synced kept)).length
    rw [hfile, h.synced]

/-- The numbers are in order for each open handle, in every state of every run; and so is what replay returns, where
no append or reset is cut short. -/
theorem sequenced (codec : JournalCodec) (calls : List JournalCall) :
    Runs.AllStates (step codec) Sequenced {} calls ∧
      ((∀ call ∈ calls, Quiet call) → (∀ op failure, .append op failure ∈ calls → codec.Keeps op) →
        Runs.AllStates (step codec) (ReplaysInOrder codec) {} calls) := by
  have hstart : Numbered {} := by
    refine ⟨by rintro _ ⟨⟩, by simp, ?_, List.suffix_refl _, List.Pairwise.nil⟩
    intro before acked after heq
    simp at heq
  constructor
  · have hany : Runs.AllSteps (step codec) (fun _ _ => True) {} calls := Runs.allSteps_of_calls (fun _ _ => trivial)
    exact hany.allStates (I := Numbered) hstart (fun s call h _ => h.step call) fun _ h => h.sequenced
  · intro hquiet hcodec
    have hcalls : Runs.AllSteps (step codec)
        (fun _ call => Quiet call ∧ ∀ op failure, call = .append op failure → codec.Keeps op) {} calls := by
      apply Runs.allSteps_of_calls
      intro call hcall
      refine ⟨hquiet call hcall, ?_⟩
      rintro op failure rfl
      exact hcodec op failure hcall
    have hsettled : Settled codec {} := ⟨rfl, rfl, by rintro _ ⟨⟩, by simp⟩
    exact hcalls.allStates (I := fun s => Numbered s ∧ Settled codec s) ⟨hstart, hsettled⟩
      (fun s call h hcall => ⟨h.1.step call, h.2.step hcall.1 hcall.2⟩)
      fun s h => ⟨h.2.replay, h.1.suffix, h.1.increasing⟩

/-- Two appends with a reset between them, and one after the journal is opened again. -/
def reopened : List JournalCall :=
  [.open, .append unlinkX none, .reset none, .append unlinkX none, .open, .append unlinkX none]

theorem sequenced_reopened :
    (Runs.run (step unlinkXCodec) {} reopened).history.map (fun acked => (acked.session, acked.record.seq)) =
        [(1, 1), (1, 2), (2, 1)] ∧
      Runs.AllStates (step unlinkXCodec) (ReplaysInOrder unlinkXCodec) {} reopened := by
  refine ⟨by decide +kernel, (sequenced unlinkXCodec reopened).2 ?_ (unlinkXCodec_keeps_all (by decide))⟩
  intro call hcall
  simp only [reopened, List.mem_cons, List.not_mem_nil, or_false] at hcall
  rcases hcall with rfl | rfl | rfl | rfl | rfl | rfl <;>
  trivial

/-- The handle of the second process starts again at one. -/
theorem not_sequenced :
    ¬ (∀ (codec : JournalCodec) (calls : List JournalCall), (∀ call ∈ calls, Quiet call) →
      (∀ op failure, .append op failure ∈ calls → codec.Keeps op) →
      ∀ records, codec.replayPath (Runs.run (step codec) {} calls).file = .ok records →
        records.Pairwise fun a b => a.seq < b.seq) ∧
    ¬ (∀ (codec : JournalCodec) (calls : List JournalCall), (∀ call ∈ calls, Quiet call) →
      (Runs.run (step codec) {} calls).history.Pairwise fun a b => a.record.seq < b.record.seq) := by
  have hquiet : ∀ call ∈ reopened, Quiet call := by
    intro call hcall
    simp only [reopened, List.mem_cons, List.not_mem_nil, or_false] at hcall
    rcases hcall with rfl | rfl | rfl | rfl | rfl | rfl <;>
    trivial
  constructor
  · intro h
    have hreplay : unlinkXCodec.replayPath (Runs.run (step unlinkXCodec) {} reopened).file =
        .ok [⟨2, unlinkX⟩, ⟨1, unlinkX⟩] := by decide +kernel
    have hpairwise := h unlinkXCodec reopened hquiet (unlinkXCodec_keeps_all (by decide)) _ hreplay
    revert hpairwise
    decide
  · intro h
    have hpairwise := h unlinkXCodec reopened hquiet
    revert hpairwise
    decide +kernel

end JournalFile

/-! ## The journal of the write path -/

namespace WriteJournal

variable {codec : JournalCodec} {journal : WriteJournal} {file : Bytes}

/-- The frames of a journal, of which at most the last is torn, are those of the file. -/
def Describes (codec : JournalCodec) (journal : WriteJournal) (file : Bytes) : Prop :=
  ∃ (records : List JournalRecord) (tail : Bytes),
    journal.frames = records.map .whole ++ (if tail = [] then [] else [.torn tail.length]) ∧
    file = records.flatMap codec.frame ++ tail ∧ (∀ record ∈ records, codec.Good record) ∧
    FrameLog.Torn codec.frame codec.Good tail

theorem Describes.replay (h : journal.Describes codec file) : journal.replay = codec.replayPath file := by
  obtain ⟨records, tail, hframes, rfl, hgood, htail⟩ := h
  rw [JournalCodec.replayPath_frames hgood htail, WriteJournal.replay, hframes, replayFrames_map_whole_append]
  split_ifs <;>
  simp [replayFrames, Except.map]

theorem Describes.append (h : journal.Describes codec file) (hwhole : FrameLog.Whole codec.readFrame file)
    {op : JournalOp} (hgood : codec.Good ⟨journal.nextSeq, op⟩) {failure : Option AppendFailure}
    (htorn : ∀ written, failure = some (.torn written) →
      0 < written ∧ written < (codec.frame ⟨journal.nextSeq, op⟩).length) {s : JournalFile} (hfile : s.file = file) :
    (journal.append op failure).2.Describes codec
      (s.append codec ⟨file.length, journal.nextSeq⟩ op failure).file := by
  obtain ⟨records, tail, hframes, rfl, hrecords, htail⟩ := h
  obtain rfl := codec.reads.tail_eq_nil hrecords htail hwhole
  rw [List.append_nil] at hfile ⊢
  rw [if_pos rfl, List.append_nil] at hframes
  have hend : ∀ bytes, writeAt s.file (records.flatMap codec.frame).length bytes =
      records.flatMap codec.frame ++ bytes := by
    intro bytes
    rw [hfile, writeAt_length]
  have hall : ∀ record ∈ records ++ [⟨journal.nextSeq, op⟩], codec.Good record := by
    intro record hrecord
    rcases List.mem_append.mp hrecord with hold | hnew
    · exact hrecords record hold
    · rwa [List.mem_singleton.mp hnew]
  simp only [JournalFile.append, if_neg (Nat.not_lt.mpr hgood.2)]
  rcases failure with _ | _ | written | _
  · exact ⟨records ++ [⟨journal.nextSeq, op⟩], [], by simp [WriteJournal.append, hframes],
      (hend _).trans (by simp), hall, .inl rfl⟩
  · exact ⟨records, [], by simp [WriteJournal.append, hframes], hfile.trans (by simp), hrecords, .inl rfl⟩
  · obtain ⟨hpos, hlt⟩ := htorn written rfl
    have hlength : ((codec.frame ⟨journal.nextSeq, op⟩).take written).length = written := by
      rw [List.length_take]
      omega
    have hne : (codec.frame ⟨journal.nextSeq, op⟩).take written ≠ [] := by
      intro hnil
      rw [hnil, List.length_nil] at hlength
      omega
    refine ⟨records, (codec.frame ⟨journal.nextSeq, op⟩).take written, ?_, hend _, hrecords,
      .inr ⟨_, hgood, List.take_prefix _ _, ?_⟩⟩
    · rw [if_neg hne, hlength, WriteJournal.append, hframes]
    · intro heq
      rw [heq] at hlength
      omega
  · exact ⟨records ++ [⟨journal.nextSeq, op⟩], [], by simp [WriteJournal.append, hframes],
      (hend _).trans (by simp), hall, .inl rfl⟩

end WriteJournal

end Pcloud
