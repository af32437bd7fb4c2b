import Mathlib.Logic.Basic
import Pcloud.Fs.WriteCalls

/-!
# The order of journal, blob and backend (module doc of `write_path.rs`)

A call changes a blob or the server, or is to, and appends a record that says so. The module doc has
the record first. `unlink`, `rename` and the flushes do that, `create`, `write` and `truncate` do not.
A crash is a run that goes no further.
-/

namespace Pcloud

open Program

namespace WriteAhead

/-- The operations of the journal. -/
def IsOperation : WriteCall → Prop
  | .create _ _ _ | .write _ _ _ | .truncate _ _ | .unlink _ _ | .rename _ _ => True
  | _ => False

abbrev Operation := { call : WriteCall // IsOperation call }

/-- A record says what an effect does. An upload is what a flush barrier promises. -/
def Describes : JournalOp → Effect → Prop
  | .create _ _, .truncateBlob _ size => size = 0
  | .write _ offset len stagingBlob, .writeBlobAt ino offset' bytes =>
    stagingBlob = ino ∧ offset = offset' ∧ len = bytes.length
  | .truncate _ newSize, .truncateBlob _ size => size = newSize
  | .unlink _, .removeBlob _ => True
  | .unlink path, .unlinkRemote path' => path' = path
  | .rename source target, .renameRemote source' target' => source' = source ∧ target' = target
  | .flushBarrier path, .uploadFile _ parent name | .flushBarrier path, .uploadCreate parent name
  | .flushBarrier path, .uploadSave _ _ parent name _ => splitParentName path = some (parent, name)
  | .flushBarrier _, .uploadWrite _ _ _ => True
  | _, _ => False

/-- An effect that changed a blob or the server, and the records that its call had made by then. -/
structure Change where
  effect : Effect
  records : List JournalRecord

/-- A blob is not as it was, or what the server has. -/
def Changes (w w' : World) : Prop := w'.blobs ≠ w.blobs ∨ w'.remote ≠ w.remote ∨ w'.sessions ≠ w.sessions

def next (records : List JournalRecord) : (e : Effect) → e.Answer → List JournalRecord
  | .journalAppend op, .ok seq => ⟨seq, op⟩ :: records
  | _, _ => records

open Classical in
noncomputable def note (changes : List Change) (w : World) (records : List JournalRecord) (e : Effect) (w' : World) :
    List Change :=
  if Changes w w' then ⟨e, records⟩ :: changes else changes

noncomputable def system (options : WritePathOptions) :
    System World (List Change) (List JournalRecord) Fate Operation Effect Effect.Answer
      (Except WritePathError Unit) where
  perform := World.perform
  program call := (WritePathService.program options call.1).run
  initial _ := []
  next _ records e ans _ := next records e ans
  note changes w records e _ w' := note changes w records e w'

abbrev State := Pool World (List Change) (List JournalRecord) Effect Effect.Answer (Except WritePathError Unit)

def start : State := ⟨{}, [], []⟩

/-- Each change came after a record of its call that describes it, and that a replay now returns. -/
def Ahead (w : World) (changes : List Change) : Prop :=
  ∀ change ∈ changes, ∃ record ∈ change.records, Describes record.op change.effect ∧ w.journal.Replays record

/-- Where a call has its blob before its record, the blob stays as it was. Nothing is appended after part of a
frame. -/
def Ordered (w : World) (e : Effect) (fate : Fate) : Prop :=
  match e with
  | .writeBlobFull _ _ | .writeBlobAt _ _ _ | .truncateBlob _ _ => (w.perform e fate).2.blobs = w.blobs
  | .journalAppend _ => w.journal.Intact
  | _ => True

/-! ## The threads -/

/-- What changes the server, or removes a blob. -/
def Late : Effect → Prop
  | .removeBlob _ | .uploadFile _ _ _ | .uploadCreate _ _ | .uploadWrite _ _ _ | .uploadSave _ _ _ _ _
  | .unlinkRemote _ | .renameRemote _ _ => True
  | _ => False

/-- That comes after a record that describes it. -/
def protocol : Protocol (List JournalRecord) Effect Effect.Answer where
  allowed records e := Late e → ∃ record ∈ records, Describes record.op e
  moves records e ans records' := records' = next records e ans

section Follows

open WritePathService

variable {options : WritePathOptions} {ino : Nat} {records : List JournalRecord}

theorem mem_next {e : Effect} {ans : e.Answer} {record : JournalRecord} (h : record ∈ records) :
    record ∈ next records e ans := by
  cases e
  case journalAppend op =>
    rcases ans with error | seq
    · exact h
    · exact List.mem_cons_of_mem _ h
  all_goals exact h

theorem follows_early {kind : Effect → Prop} {α : Type} {call : WriteProg α} (hcall : Asks kind call.run)
    (hearly : ∀ e, kind e → ¬ Late e) : Follows protocol (fun _ _ => True) call.run records :=
  hcall.follows (fun _ e _ he hlate => absurd hlate (hearly e he)) (fun _ _ _ _ _ _ _ => trivial) trivial

theorem follows_local {α : Type} {call : WriteProg α} (hcall : Asks Effect.Local call.run) :
    Follows protocol (fun _ _ => True) call.run records := by
  apply follows_early hcall
  intro e he
  cases e <;> first | exact he.elim | exact id

theorem follows_bind_true {α β : Type} {x : WriteProg α} {f : α → WriteProg β}
    (hx : Follows protocol (fun _ _ => True) x.run records)
    (hf : ∀ a records, Follows protocol (fun _ _ => True) (f a).run records) :
    Follows protocol (fun _ _ => True) (x >>= f).run records := by
  rw [follows_fallible_bind]
  apply hx.mono
  rintro (error | a) records _
  · trivial
  · exact hf a records

theorem follows_ask_true {e : Effect} (h : ¬ Late e) :
    Follows protocol (fun _ _ => True) (ask e).run records := ⟨fun hlate => absurd hlate h, fun _ _ _ => trivial⟩

theorem follows_append_bind {op : JournalOp} {α : Type} {f : Nat → WriteProg α}
    (hf : ∀ seq records, (∃ record ∈ records, record.op = op) → Follows protocol (fun _ _ => True) (f seq).run records) :
    Follows protocol (fun _ _ => True) (attempt (effect (.journalAppend op)) >>= f).run records := by
  rw [follows_fallible_bind]
  refine ⟨fun hlate => hlate.elim, ?_⟩
  rintro (error | seq) _ rfl
  · trivial
  · exact hf seq _ ⟨⟨seq, op⟩, List.mem_cons_self, rfl⟩

theorem follows_transfers {α : Type} {call : WriteProg α} {path parent name : String}
    (hcall : Asks (Effect.Transfers parent name) call.run) (hpath : splitParentName path = some (parent, name))
    (hbarrier : ∃ record ∈ records, record.op = .flushBarrier path) :
    Follows protocol (fun _ records => ∃ record ∈ records, record.op = .flushBarrier path) call.run records := by
  refine hcall.follows ?_ ?_ hbarrier
  · rintro records e ⟨record, hrecord, hop⟩ he hlate
    refine ⟨record, hrecord, ?_⟩
    rw [hop]
    cases e
    case uploadCreate parent' name' =>
      obtain ⟨rfl, rfl⟩ := he
      exact hpath
    case uploadSave ino uploadId parent' name' totalSize =>
      obtain ⟨rfl, rfl⟩ := he
      exact hpath
    case uploadWrite uploadId offset chunk => trivial
    all_goals first | exact he.elim | exact hlate.elim
  · rintro records e ans _ ⟨record, hrecord, hop⟩ _ rfl
    exact ⟨record, mem_next hrecord, hop⟩

theorem follows_flush : Follows protocol (fun _ _ => True) (flush options ino).run records := by
  apply follows_bind_true (follows_local (asks_getHandle trivial))
  intro id records
  apply follows_bind_true (follows_ask_true (e := .readHandle id) fun hlate => hlate)
  intro h records
  apply follows_append_bind
  rintro seq records ⟨record, hrecord, hop⟩
  rcases hpath : splitParentName h.path with _ | ⟨parent, name⟩
  · trivial
  apply follows_bind_true
  · exact ⟨fun _ => ⟨record, hrecord, by rw [hop]; exact hpath⟩, fun _ _ _ => trivial⟩
  intro _ records
  apply follows_bind_true (follows_ask_true (e := .now) fun hlate => hlate)
  intro now records
  exact follows_ask_true fun hlate => hlate

theorem follows_chunkedFlush : Follows protocol (fun _ _ => True) (chunkedFlush options ino).run records := by
  apply follows_bind_true (follows_local (asks_getHandle trivial))
  intro id records
  apply follows_bind_true (follows_ask_true (e := .readHandle id) fun hlate => hlate)
  intro h records
  rcases hpath : splitParentName h.path with _ | ⟨parent, name⟩
  · trivial
  apply follows_append_bind
  rintro seq records hbarrier
  rw [follows_fallible_bind]
  refine ⟨fun hlate => hlate.elim, ?_⟩
  rintro (_ | totalSize) _ rfl
  · trivial
  apply follows_bind_true
  · exact (follows_transfers (asks_runSessions 1) hpath hbarrier).mono fun _ _ _ => trivial
  intro _ records
  apply follows_bind_true (follows_ask_true (e := .now) fun hlate => hlate)
  intro now records
  exact follows_ask_true fun hlate => hlate

theorem follows_flushIfDue {dirty lastFlush : Nat} :
    Follows protocol (fun _ _ => True) (flushIfDue options ino dirty lastFlush).run records := by
  apply follows_bind_true (follows_ask_true (e := .now) fun hlate => hlate)
  intro now records
  split_ifs
  · apply follows_bind_true
    · rw [follows_outcome]
      exact follows_chunkedFlush
    rintro (error | ⟨⟩) records
    · cases error
      case upload message =>
        dsimp only
        split_ifs
        · exact follows_flush
        · trivial
      all_goals trivial
    · trivial
  · exact follows_flush
  · trivial

theorem follows_stageWrite {offset : Nat} {data : Bytes} :
    Follows protocol (fun _ _ => True) (stageWrite options ino offset data).run records := by
  apply follows_bind_true (follows_local (asks_getHandle trivial))
  intro id records
  apply follows_bind_true (follows_ask_true (e := .readHandle id) fun hlate => hlate)
  intro h records
  apply follows_bind_true
  · have hasks : Asks (fun e => ¬ Late e) (effectiveOffset h offset).run := asks_effectiveOffset fun hlate => hlate
    exact follows_early hasks fun _ he => he
  intro offset records
  apply follows_bind_true
  · apply follows_early asks_checkCeilings_counter
    rintro _ (rfl | rfl) hlate <;>
    exact hlate
  intro _ records
  apply follows_bind_true
  · exact ⟨fun hlate => hlate.elim, fun _ _ _ => trivial⟩
  intro _ records
  apply follows_append_bind
  intro seq records _
  apply follows_bind_true (follows_ask_true (e := .setDirty id _) fun hlate => hlate)
  intro _ records
  trivial

theorem follows_unlink {ino : Option Nat} {path : String} :
    Follows protocol (fun _ _ => True) (unlink ino path).run records := by
  apply follows_append_bind
  rintro seq records ⟨record, hrecord, hop⟩
  have hunlink : ∀ records', record ∈ records' →
      Follows protocol (fun _ _ => True) (attempt (effect (.unlinkRemote path))).run records' :=
    fun records' hrecord' => ⟨fun _ => ⟨record, hrecord', by rw [hop]; rfl⟩, fun _ _ _ => trivial⟩
  rcases ino with _ | ino
  · exact hunlink records hrecord
  · rw [follows_fallible_bind]
    refine ⟨fun _ => ⟨record, hrecord, by rw [hop]; trivial⟩, ?_⟩
    rintro ⟨⟩ _ rfl
    show Follows _ _ (ExceptT.run (_ >>= _)) _
    rw [follows_fallible_bind]
    refine ⟨fun hlate => hlate.elim, ?_⟩
    rintro ⟨⟩ _ rfl
    exact hunlink _ hrecord

theorem follows_rename {source target : String} :
    Follows protocol (fun _ _ => True) (rename source target).run records := by
  apply follows_append_bind
  rintro seq records ⟨record, hrecord, hop⟩
  apply follows_bind_true
  · exact ⟨fun _ => ⟨record, hrecord, by rw [hop]; exact ⟨rfl, rfl⟩⟩, fun _ _ _ => trivial⟩
  intro _ records
  exact follows_ask_true fun hlate => hlate

theorem follows_program (call : Operation) :
    Follows protocol (fun _ _ => True) (program options call.1).run records := by
  rcases call with ⟨call, hcall⟩
  cases call
  case create ino parentPath name => exact follows_local asks_create
  case write ino offset data =>
    apply follows_bind_true
    · apply follows_bind_true follows_stageWrite
      rintro ⟨dirty, lastFlush⟩ records
      exact follows_bind_true follows_flushIfDue fun _ _ => trivial
    · exact fun _ _ => trivial
  case truncate ino newSize => exact follows_local asks_truncate
  case unlink ino path => exact follows_unlink
  case rename source target => exact follows_rename
  all_goals exact hcall.elim

end Follows

/-! ## Whole runs -/

/-- The journal has at most a torn frame at its end, and the records of the calls and of the changes. -/
structure Recorded (w : World) (changes : List Change) (states : List (List JournalRecord)) : Prop where
  sound : w.journal.Sound
  calls : ∀ records ∈ states, ∀ record ∈ records, .whole record ∈ w.journal.frames
  changes : ∀ change ∈ changes, ∃ record ∈ change.records, Describes record.op change.effect ∧
    .whole record ∈ w.journal.frames

theorem Recorded.ahead {w : World} {changes : List Change} {states : List (List JournalRecord)}
    (h : Recorded w changes states) : Ahead w changes := by
  intro change hchange
  obtain ⟨record, hrecord, hdescribes, hframe⟩ := h.changes change hchange
  exact ⟨record, hrecord, hdescribes, h.sound.replays hframe⟩

theorem late_of_changes {w : World} {e : Effect} {fate : Fate} (hordered : Ordered w e fate)
    (hchanges : Changes w (w.perform e fate).2) : Late e := by
  by_contra hearly
  have hblobs : (w.perform e fate).2.blobs = w.blobs := by
    cases e
    case writeBlobFull => exact hordered
    case writeBlobAt => exact hordered
    case truncateBlob => exact hordered
    case readBlobAt => rw [World.perform_readBlobAt]
    all_goals first | exact absurd trivial hearly | skip
    all_goals
      simp only [World.perform, World.unlessRefused, World.setHandle]
      repeat' split
      all_goals simp
  have hserver : (w.perform e fate).2.remote = w.remote ∧ (w.perform e fate).2.sessions = w.sessions := by
    cases e
    case readBlobAt => rw [World.perform_readBlobAt]; exact ⟨rfl, rfl⟩
    all_goals first | exact absurd trivial hearly | skip
    all_goals
      simp only [World.perform, World.unlessRefused, World.unlessDisk, World.setHandle, World.setBlob]
      repeat' split
      all_goals simp
  rcases hchanges with h | h | h
  · exact h hblobs
  · exact h hserver.1
  · exact h hserver.2

theorem perform_journal {w : World} {e : Effect} {fate : Fate} (h : ∀ op, e ≠ .journalAppend op) :
    (w.perform e fate).2.journal = w.journal := by
  cases e
  case journalAppend op => exact absurd rfl (h op)
  case readBlobAt => rw [World.perform_readBlobAt]
  all_goals
    simp only [World.perform, World.unlessRefused, World.unlessDisk, World.setHandle, World.setBlob]
    repeat' split
    all_goals simp

theorem mem_of_mem_next {w : World} {records : List JournalRecord} {e : Effect} {fate : Fate} {record : JournalRecord}
    (h : record ∈ next records e (w.perform e fate).1) :
    record ∈ records ∨ .whole record ∈ (w.perform e fate).2.journal.frames := by
  cases e
  case journalAppend op =>
    obtain ⟨failure, hperform⟩ := w.perform_journalAppend fate op
    rw [hperform] at h ⊢
    rcases happend : w.journal.append op failure with ⟨_ | seq, journal⟩
    · rw [happend] at h
      exact .inl h
    · rw [happend] at h
      rcases List.mem_cons.mp h with rfl | h
      · exact .inr (WriteJournal.append_ok happend)
      · exact .inl h
  all_goals exact .inl h

theorem stepKeeps_recorded {options : WritePathOptions} :
    (system options).StepKeeps protocol (fun w _ _ _ _ e fate => Ordered w e fate) Recorded := by
  intro w changes states i records e fate h hstate hallowed hordered
  refine ⟨rfl, ?_⟩
  have hframes : ∀ frame ∈ w.journal.frames, frame ∈ (w.perform e fate).2.journal.frames := by
    by_cases happend : ∃ op, e = .journalAppend op
    · obtain ⟨op, rfl⟩ := happend
      obtain ⟨failure, hperform⟩ := w.perform_journalAppend fate op
      rw [hperform]
      exact fun frame hframe => (w.journal.append_frames op failure).subset hframe
    · rw [perform_journal fun op he => happend ⟨op, he⟩]
      exact fun frame hframe => hframe
  constructor
  · by_cases happend : ∃ op, e = .journalAppend op
    · obtain ⟨op, rfl⟩ := happend
      obtain ⟨failure, hperform⟩ := w.perform_journalAppend fate op
      show (w.perform (.journalAppend op) fate).2.journal.Sound
      rw [hperform]
      exact WriteJournal.Intact.sound_append hordered op failure
    · show (w.perform e fate).2.journal.Sound
      rw [perform_journal fun op he => happend ⟨op, he⟩]
      exact h.sound
  · intro records' hrecords' record hrecord
    rcases List.mem_or_eq_of_mem_set hrecords' with hold | rfl
    · exact hframes _ (h.calls records' hold record hrecord)
    · rcases mem_of_mem_next hrecord with hold | hnew
      · exact hframes _ (h.calls records (List.mem_of_getElem? hstate) record hold)
      · exact hnew
  · intro change hchange
    have hold : ∀ change ∈ changes, ∃ record ∈ change.records, Describes record.op change.effect ∧
        .whole record ∈ (w.perform e fate).2.journal.frames := by
      intro change hchange
      obtain ⟨record, hrecord, hdescribes, hframe⟩ := h.changes change hchange
      exact ⟨record, hrecord, hdescribes, hframes _ hframe⟩
    change change ∈ note changes w records e (w.perform e fate).2 at hchange
    unfold note at hchange
    split_ifs at hchange with hchanges
    · rcases List.mem_cons.mp hchange with rfl | hchange
      · obtain ⟨record, hrecord, hdescribes⟩ := hallowed (late_of_changes hordered hchanges)
        exact ⟨record, hrecord, hdescribes, hframes _ (h.calls records (List.mem_of_getElem? hstate) record hrecord)⟩
      · exact hold change hchange
    · exact hold change hchange

section OrderedRuns

open System WritePathService

/-- In a run of operations, interleaved in any way and left at any effect, whose effects are all in order, every change
came after a record of its call that describes it, and that a replay returns. -/
theorem ahead_of_ordered (options : WritePathOptions) (actions : List (Action Operation Fate))
    (hordered : Runs.AllSteps (system options).act (Guarded fun w _ _ _ _ e fate => Ordered w e fate) start actions) :
    Runs.AllStates (system options).act (fun pool => Ahead pool.world pool.ghost) start actions := by
  have hstart : Recorded {} [] [] := by
    refine ⟨⟨[], [], rfl, .inl rfl⟩, ?_, ?_⟩
    · exact fun _ h => absurd h List.not_mem_nil
    · exact fun _ h => absurd h List.not_mem_nil
  have hnone : AllFollow protocol (fun _ _ => True) start := fun thread hthread => absurd hthread List.not_mem_nil
  have hcall : ∀ w changes states call, Recorded w changes states →
      Recorded w changes (states ++ [(system options).initial call]) := by
    intro w changes states call h
    refine ⟨h.sound, ?_, h.changes⟩
    intro records hrecords record hrecord
    rcases List.mem_append.mp hrecords with hold | hnew
    · exact h.calls records hold record hrecord
    · rw [List.mem_singleton.mp hnew] at hrecord
      exact absurd hrecord List.not_mem_nil
  have hrun := run_invariant (fun call => follows_program call) hcall stepKeeps_recorded hstart hnone hordered
  exact hrun.mono fun pool h => h.1.ahead

/-- A rename and an unlink, each to its end. -/
def renamedAndUnlinked : List (Action Operation Fate) :=
  .start ⟨.rename "/a" "/b", trivial⟩ :: List.replicate 3 (.step 0 .fine) ++
    .start ⟨.unlink none "/c", trivial⟩ :: List.replicate 2 (.step 1 .fine)

theorem ahead_of_ordered_renamed :
    (Runs.run (system {}).act start renamedAndUnlinked).world.remote = [.unlinked "/c", .renamed "/a" "/b"] ∧
      Runs.AllStates (system {}).act (fun pool => Ahead pool.world pool.ghost) start renamedAndUnlinked := by
  refine ⟨rfl, ahead_of_ordered {} renamedAndUnlinked ?_⟩
  refine ⟨trivial, ⟨[], rfl⟩, trivial, trivial, trivial, ⟨[⟨1, .rename "/a" "/b"⟩], rfl⟩, trivial, trivial⟩

/-- A write up to its blob. -/
def writtenAndCrashed : List (Action Operation Fate) :=
  .start ⟨.create 1 "/" "f", trivial⟩ :: List.replicate 4 (.step 0 .fine) ++
    .start ⟨.write 1 0 [1, 2, 3], trivial⟩ :: List.replicate 3 (.step 1 .fine)

/-- The blob is written, and no record says so. -/
theorem not_ahead :
    ¬ ∀ (options : WritePathOptions) (actions : List (Action Operation Fate)),
      Runs.AllStates (system options).act (fun pool => Ahead pool.world pool.ghost) start actions := by
  intro h
  have hahead := (h {} (writtenAndCrashed ++ [.step 1 .fine])).run
  rw [Runs.run_append] at hahead
  set crashed := Runs.run (system {}).act start writtenAndCrashed
  have hghost : (Runs.run (system {}).act crashed [.step 1 .fine]).ghost =
      note crashed.ghost crashed.world [] (.writeBlobAt 1 0 [1, 2, 3])
        (crashed.world.perform (.writeBlobAt 1 0 [1, 2, 3]) .fine).2 := rfl
  have hchanges : Changes crashed.world (crashed.world.perform (.writeBlobAt 1 0 [1, 2, 3]) .fine).2 := by
    refine .inl fun hblobs => ?_
    have hblob : (some [1, 2, 3] : Option Bytes) = some [] := congrFun hblobs 1
    cases hblob
  rw [note, if_pos hchanges] at hghost
  rw [hghost] at hahead
  obtain ⟨record, hrecord, -⟩ := hahead _ List.mem_cons_self
  exact absurd hrecord List.not_mem_nil

end OrderedRuns

end WriteAhead

end Pcloud
