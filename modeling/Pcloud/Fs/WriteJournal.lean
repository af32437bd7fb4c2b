import Mathlib.Data.List.Basic

/-!
# The write journal (`pcloud-fs/src/write_journal.rs`)

A file of frames. An append that fails may leave part of its frame in the file, and what is appended
later comes after it. Replay takes the CRC to tell such a frame from a whole one.
-/

namespace Pcloud

inductive JournalOp
  | create (parentPath name : String)
  | write (path : String) (offset len stagingBlob : Nat)
  | truncate (path : String) (newSize : Nat)
  | unlink (path : String)
  | rename (source target : String)
  | flushBarrier (path : String)
  | chunkAck (path : String) (uploadId offset len : Nat)
deriving DecidableEq, Repr

structure JournalRecord where
  seq : Nat
  op : JournalOp
deriving DecidableEq, Repr

inductive Frame
  | whole (record : JournalRecord)
  | torn (written : Nat)
deriving DecidableEq, Repr

structure WriteJournal where
  frames : List Frame := []
  nextSeq : Nat := 1
deriving DecidableEq, Repr

/-- How `append` can fail. -/
inductive AppendFailure
  | nothing
  /-- `write_all` stopped after some bytes of the frame. -/
  | torn (written : Nat)
  /-- The frame is in the file and `commit` failed. -/
  | unsynced
deriving DecidableEq, Repr

inductive ReplayError
  | recordTooLarge
deriving DecidableEq, Repr

namespace WriteJournal

/-- `append`, where `failure` is what happens to it if it fails. The sequence number only goes up at the end. -/
def append (journal : WriteJournal) (op : JournalOp) (failure : Option AppendFailure) : Option Nat × WriteJournal :=
  let whole := Frame.whole ⟨journal.nextSeq, op⟩
  match failure with
  | none => (some journal.nextSeq, ⟨journal.frames ++ [whole], journal.nextSeq + 1⟩)
  | some .nothing => (none, journal)
  | some (.torn written) => (none, { journal with frames := journal.frames ++ [.torn written] })
  | some .unsynced => (none, { journal with frames := journal.frames ++ [whole] })

/-- `replay_path`. Four to seven bytes of a header are followed by the magic of the next frame, which makes
a length over the limit. -/
def replayFrames : List Frame → Except ReplayError (List JournalRecord)
  | [] => .ok []
  | .whole record :: frames => (replayFrames frames).map (record :: ·)
  | .torn written :: frames =>
    if frames ≠ [] ∧ 4 ≤ written ∧ written < 8 then .error .recordTooLarge else .ok []

def replay (journal : WriteJournal) : Except ReplayError (List JournalRecord) := replayFrames journal.frames

/-- No append has left part of a frame. -/
def Intact (journal : WriteJournal) : Prop := ∃ records : List JournalRecord, journal.frames = records.map .whole

/-- The record is among those that replay returns. -/
def Replays (journal : WriteJournal) (record : JournalRecord) : Prop :=
  ∃ records, journal.replay = .ok records ∧ record ∈ records

/-- At most the last frame is torn. -/
def Sound (journal : WriteJournal) : Prop :=
  ∃ (records : List JournalRecord) (tail : List Frame),
    journal.frames = records.map .whole ++ tail ∧ (tail = [] ∨ ∃ written, tail = [.torn written])

theorem Intact.sound {journal : WriteJournal} (h : journal.Intact) : journal.Sound := by
  obtain ⟨records, h⟩ := h
  exact ⟨records, [], by rw [h, List.append_nil], .inl rfl⟩

theorem replayFrames_map_whole_append (records : List JournalRecord) (tail : List Frame) :
    replayFrames (records.map .whole ++ tail) = (replayFrames tail).map (records ++ ·) := by
  induction records with
  | nil => cases h : replayFrames tail <;> simp [h, Except.map]
  | cons record records ih =>
    rw [List.map_cons, List.cons_append, replayFrames, ih]
    cases replayFrames tail <;> rfl

theorem Sound.replays {journal : WriteJournal} (h : journal.Sound) {record : JournalRecord}
    (hrecord : Frame.whole record ∈ journal.frames) : journal.Replays record := by
  obtain ⟨records, tail, hframes, htail⟩ := h
  have hreplay : journal.replay = .ok records := by
    rw [replay, hframes, replayFrames_map_whole_append]
    rcases htail with rfl | ⟨written, rfl⟩ <;>
    simp [replayFrames, Except.map]
  refine ⟨records, hreplay, ?_⟩
  rw [hframes, List.mem_append, List.mem_map] at hrecord
  rcases hrecord with ⟨_, hmem, ⟨⟩⟩ | hrecord
  · exact hmem
  · rcases htail with rfl | ⟨written, rfl⟩ <;>
    simp at hrecord

theorem append_frames (journal : WriteJournal) (op : JournalOp) (failure : Option AppendFailure) :
    journal.frames <+: (journal.append op failure).2.frames := by
  rcases failure with _ | _ | written | _
  · exact List.prefix_append _ _
  · exact List.prefix_rfl
  · exact List.prefix_append _ _
  · exact List.prefix_append _ _

theorem append_ok {journal journal' : WriteJournal} {op : JournalOp} {failure : Option AppendFailure} {seq : Nat}
    (h : journal.append op failure = (some seq, journal')) : Frame.whole ⟨seq, op⟩ ∈ journal'.frames := by
  rcases failure with _ | _ | written | _ <;>
  cases h
  exact List.mem_append_right _ (List.mem_singleton_self _)

theorem Intact.sound_append {journal : WriteJournal} (h : journal.Intact) (op : JournalOp)
    (failure : Option AppendFailure) : (journal.append op failure).2.Sound := by
  obtain ⟨records, h⟩ := h
  rcases failure with _ | _ | written | _
  · apply Intact.sound
    refine ⟨records ++ [⟨journal.nextSeq, op⟩], ?_⟩
    simp [append, h]
  · exact Intact.sound ⟨records, h⟩
  · exact ⟨records, [.torn written], by simp [append, h], .inr ⟨written, rfl⟩⟩
  · apply Intact.sound
    refine ⟨records ++ [⟨journal.nextSeq, op⟩], ?_⟩
    simp [append, h]

end WriteJournal

end Pcloud
