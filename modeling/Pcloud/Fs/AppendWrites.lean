import Mathlib.Algebra.Order.Ring.Nat
import Mathlib.Data.List.Flatten
import Mathlib.Data.List.Perm.Basic
import Pcloud.Fs.WriteCalls

/-!
# Writes on one append handle (`WritePathService::write`)

A write reads the counter and the length of the blob, and uses both after the lock is released. It
appends if the blob still ends where it did, and counts if the counter is still what it was.
-/

namespace Pcloud

open Program

namespace Appending

/-! ## The system -/

inductive Stage
  | reading
  | staged
  | counted
deriving DecidableEq, Repr

/-- What a write has seen, and how far it is. -/
structure Writer where
  offset : Nat
  data : Bytes
  held : Option Nat := none
  seen : Option WriteHandle := none
  size : Option Nat := none
  stage : Stage := .reading

namespace Writer

variable (writer : Writer)

/-- The payload, once it is in the blob. -/
def payload : List Bytes := if writer.stage = .reading then [] else [writer.data]

/-- The payload, once it is in the counter. -/
def countedPayload : List Bytes := if writer.stage = .counted then [writer.data] else []

/-- Where a write to the blob goes. -/
def target : Option Nat := writer.seen.map fun h => if h.appendMode then writer.size.getD 0 else writer.offset

/-- What the counter is set to. -/
def newDirty : Option Nat := writer.seen.map fun h => satAdd h.dirtyBytes writer.data.length

end Writer

/-- The payloads in the order of their blob writes, and in that of their counts: those of before the last reset of the
counter, and those of since then, on top of what it was. -/
structure Accepted where
  order : List Bytes := []
  base : Nat
  flushed : List Bytes := []
  counted : List Bytes := []

def next (writer : Writer) : (e : Effect) → e.Answer → Writer
  | .getHandle _, some id => { writer with held := some id }
  | .readHandle _, h => { writer with seen := some h }
  | .blobLen _, size => { writer with size }
  | .writeBlobAt _ _ _, .ok () => { writer with stage := .staged }
  | .setDirty _ _, _ => { writer with stage := .counted }
  | _, _ => writer

def note (accepted : Accepted) (writer : Writer) : (e : Effect) → e.Answer → Accepted
  | .writeBlobAt _ _ bytes, .ok () => { accepted with order := accepted.order ++ [bytes] }
  | .setDirty _ _, _ => { accepted with counted := accepted.counted ++ [writer.data] }
  | .resetDirty _ _ _, _ =>
    { accepted with base := 0, flushed := accepted.flushed ++ accepted.counted, counted := [] }
  | _, _ => accepted

/-- Writes of an inode, each at an offset that an append handle ignores. -/
def system (options : WritePathOptions) (ino : Nat) :
    System World Accepted Writer Fate (Nat × Bytes) Effect Effect.Answer (Except WritePathError Nat) where
  perform := World.perform
  program call := (WritePathService.write options ino call.1 call.2).run
  initial call := { offset := call.1, data := call.2 }
  next _ writer e ans _ := next writer e ans
  note accepted _ writer e ans _ := note accepted writer e ans

abbrev State := Pool World Accepted Writer Effect Effect.Answer (Except WritePathError Nat)

/-- Nobody writes yet. -/
def start (w : World) (id : Nat) : State := ⟨w, { base := (w.handle id).dirtyBytes }, []⟩

/-- Nothing is lost: the blob is what it was and the payloads, and the counter counts those of since its reset. -/
def Lossless (init : Bytes) (ino id : Nat) (w : World) (accepted : Accepted) : Prop :=
  w.blob ino = init ++ accepted.order.flatten ∧
    (w.handle id).dirtyBytes = accepted.base + (accepted.counted.map List.length).sum

/-- The blob ends where the write is to go, and the counter is what it was. A write to the blob that fails leaves it as
it was. -/
def Undisturbed (w : World) (writer : Writer) (e : Effect) (fate : Fate) : Prop :=
  match e with
  | .writeBlobAt ino offset bytes =>
    match fate with
    | .disk none => True
    | .disk (some n) => writeAt (w.blob ino) offset (bytes.take n) = w.blob ino
    | _ => writer.target = some (w.blob ino).length ∨
      writer.data = [] ∧ ∃ offset ≤ (w.blob ino).length, writer.target = some offset
  | .setDirty id _ => writer.newDirty = some ((w.handle id).dirtyBytes + writer.data.length)
  | _ => True

/-! ## The threads -/

/-- The handle is the one of the inode, and the blob the one of the handle. A write goes to the blob once, and then
to the counter. -/
def protocol (ino : Nat) : Protocol Writer Effect Effect.Answer where
  allowed writer
    | .getHandle ino' => ino' = ino
    | .readHandle id | .resetDirty id _ _ => writer.held = some id
    | .setDirty id dirty => writer.held = some id ∧ writer.newDirty = some dirty ∧ writer.stage = .staged
    | .writeBlobAt blobName offset bytes =>
      (∃ h, writer.seen = some h ∧ h.blobName = blobName) ∧ writer.target = some offset ∧ bytes = writer.data ∧
        writer.stage = .reading
    | .insertHandle _ _ | .removeHandle _ | .releaseHandle _ _ | .renamePaths _ _ | .writeBlobFull _ _
    | .truncateBlob _ _ | .removeBlob _ => False
    | _ => True
  moves writer e ans writer' := writer' = next writer e ans

/-- The effects that neither look at the blobs or the handles of the writes nor touch them. -/
def Neutral : Effect → Prop
  | .getHandle _ | .readHandle _ | .blobLen _ | .setDirty _ _ | .resetDirty _ _ _ | .writeBlobAt _ _ _
  | .insertHandle _ _ | .removeHandle _ | .releaseHandle _ _ | .renamePaths _ _ | .writeBlobFull _ _
  | .truncateBlob _ _ | .removeBlob _ => False
  | _ => True

theorem next_neutral {e : Effect} (h : Neutral e) (writer : Writer) (ans : e.Answer) : next writer e ans = writer := by
  cases e <;> first | exact h.elim | rfl

section Follows

open WritePathService

variable {options : WritePathOptions} {ino : Nat} {writer : Writer}

theorem follows_neutral {α : Type} {call : WriteProg α} (hcall : Asks Neutral call.run) :
    Follows (protocol ino) (fun _ writer' => writer' = writer) call.run writer := by
  refine hcall.follows (I := fun writer' => writer' = writer) ?_ ?_ rfl
  · rintro _ e rfl he
    cases e <;> first | exact he.elim | trivial
  · rintro _ e ans _ rfl he rfl
    exact next_neutral he _ ans

theorem follows_neutral_bind {α β : Type} {x : WriteProg α} {f : α → WriteProg β}
    {post : Except WritePathError β → Writer → Prop} (hx : Asks Neutral x.run)
    (herror : ∀ error, post (.error error) writer) (hf : ∀ a, Follows (protocol ino) post (f a).run writer) :
    Follows (protocol ino) post (x >>= f).run writer := by
  rw [follows_fallible_bind]
  apply (follows_neutral hx).mono
  rintro (error | a) _ rfl
  · exact herror error
  · exact hf a

theorem follows_handle_bind {β : Type} {f : Nat → WriteHandle → WriteProg β}
    {post : Except WritePathError β → Writer → Prop} (herror : ∀ error, post (.error error) writer)
    (hf : ∀ id h, Follows (protocol ino) post (f id h).run { writer with held := some id, seen := some h }) :
    Follows (protocol ino) post (do
      let id ← getHandle ino
      let h ← ask (.readHandle id)
      f id h : WriteProg β).run writer := by
  rw [follows_fallible_bind, getHandle, follows_fallible_bind]
  refine ⟨rfl, ?_⟩
  rintro (_ | id) _ rfl
  · exact herror _
  · show Follows _ _ (ExceptT.run (_ >>= _)) _
    rw [follows_fallible_bind]
    refine ⟨rfl, ?_⟩
    rintro h _ rfl
    exact hf id h

theorem flushRule : FlushRule (protocol ino) options ino (fun writer => writer.stage = .counted)
    fun id writer => writer.held = some id ∧ writer.stage = .counted where
  get writer hstage := by
    refine ⟨rfl, ?_⟩
    rintro (_ | id) _ rfl
    · exact ⟨hstage, by simp⟩
    · refine ⟨hstage, ?_⟩
      rintro id' ⟨⟩
      exact ⟨rfl, hstage⟩
  between id writer e h he := by
    cases e
    case readHandle id' =>
      refine ⟨he ▸ h.1, ?_⟩
      rintro handle _ rfl
      exact h
    case blobLen name =>
      refine ⟨trivial, ?_⟩
      rintro size _ rfl
      exact h
    all_goals first | exact he.elim | skip
    all_goals
      refine ⟨trivial, ?_⟩
      rintro ans _ rfl
      exact h
  reset id writer now h := by
    refine ⟨h.1, ?_⟩
    rintro ⟨⟩ _ rfl
    exact h.2
  clock writer hstage := by
    refine ⟨trivial, ?_⟩
    rintro now _ rfl
    exact hstage
  weaken id writer h := h.2

theorem follows_effectiveOffset {h : WriteHandle} (hseen : writer.seen = some h) :
    Follows (protocol ino) (fun result writer' => ∃ size, writer' = { writer with size } ∧
      ∃ offset, result = .ok offset ∧ writer'.target = some offset)
      (effectiveOffset h writer.offset).run writer := by
  unfold effectiveOffset
  split
  next happend =>
    refine ⟨trivial, ?_⟩
    rintro size _ rfl
    refine ⟨size, rfl, _, rfl, ?_⟩
    simp only [Writer.target, next, hseen, Option.map_some, happend, if_true]
  next happend =>
    refine ⟨writer.size, rfl, _, rfl, ?_⟩
    simp only [Writer.target, hseen, Option.map_some, happend, if_false, Bool.false_eq_true]

theorem follows_stageWrite {offset : Nat} {data : Bytes} :
    Follows (protocol ino) (fun result writer => ∀ a, result = .ok a → writer.stage = .counted)
      (stageWrite options ino offset data).run { offset, data } := by
  apply follows_handle_bind
  · rintro error _ ⟨⟩
  intro id h
  rw [follows_fallible_bind]
  apply (@follows_effectiveOffset ino ⟨offset, data, some id, some h, none, .reading⟩ h rfl).mono
  rintro _ _ ⟨size, rfl, target, rfl, htarget⟩
  show Follows _ _ (ExceptT.run (_ >>= _)) _
  apply follows_neutral_bind (asks_checkCeilings trivial trivial)
  · rintro error _ ⟨⟩
  intro _
  rw [follows_fallible_bind]
  refine ⟨⟨⟨h, rfl, rfl⟩, htarget, rfl, rfl⟩, ?_⟩
  rintro (error | ⟨⟩) _ rfl
  · rintro _ ⟨⟩
  show Follows _ _ (ExceptT.run (_ >>= _)) _
  apply follows_neutral_bind (asks_attempt (asks_perform.mpr trivial))
  · rintro error _ ⟨⟩
  intro _
  rw [follows_fallible_bind]
  refine ⟨⟨rfl, rfl, rfl⟩, ?_⟩
  rintro ⟨⟩ _ rfl _ _
  rfl

theorem follows_write (call : Nat × Bytes) :
    Follows (protocol ino) (fun result writer => ∀ n, result = .ok n → writer.stage = .counted)
      (write options ino call.1 call.2).run { offset := call.1, data := call.2 } := by
  rw [write, follows_fallible_bind]
  apply follows_stageWrite.mono
  rintro (error | ⟨dirty, lastFlush⟩) writer hstage
  · rintro _ ⟨⟩
  · show Follows _ _ (ExceptT.run (_ >>= _)) _
    rw [follows_fallible_bind]
    apply (flushRule.follows_flushIfDue (hstage _ rfl)).mono
    rintro (error | ⟨⟩) writer' hstage'
    · rintro _ ⟨⟩
    · exact fun _ _ => hstage'

end Follows

/-! ## One effect -/

/-- What is known of a world in which only writes of the inode run. -/
structure Open (ino id : Nat) (w : World) (accepted : Accepted) (writers : List Writer) : Prop where
  handle : w.handles.lookup ino = some id
  range : id < w.heap.length
  named : (w.handle id).blobName = ino
  held : ∀ writer ∈ writers, ∀ id', writer.held = some id' → id' = id
  seen : ∀ writer ∈ writers, ∀ h, writer.seen = some h → h.blobName = ino
  order : accepted.order.Perm (writers.flatMap Writer.payload)
  counted : (accepted.flushed ++ accepted.counted).Perm (writers.flatMap Writer.countedPayload)

section Step

variable {ino id i : Nat} {accepted : Accepted} {writers : List Writer} {writer : Writer} {e : Effect}

section World

variable (w : World) (fate : Fate)

theorem perform_neutral (h : Neutral e) : (w.perform e fate).2.handles = w.handles ∧
    (w.perform e fate).2.blobs = w.blobs ∧ (w.perform e fate).2.heap = w.heap := by
  cases e
  case readBlobAt => simp [World.perform_readBlobAt]
  all_goals first | exact h.elim | skip
  all_goals
    simp only [World.perform, World.unlessRefused]
    repeat' split
    all_goals simp

theorem note_neutral (h : Neutral e) (ans : e.Answer) : note accepted writer e ans = accepted := by
  cases e <;> first | exact h.elim | rfl

theorem perform_blobLen (name : Nat) : (w.perform (.blobLen name) fate).2 = w := by
  simp only [World.perform]
  split <;> rfl

theorem perform_writeBlobAt (name offset : Nat) (bytes : Bytes) :
    (w.perform (.writeBlobAt name offset bytes) fate).2.handles = w.handles ∧
      (w.perform (.writeBlobAt name offset bytes) fate).2.heap = w.heap := by
  simp only [World.perform, World.unlessDisk, World.setBlob]
  split <;>
  exact ⟨rfl, rfl⟩

theorem perform_handles_of_allowed (hallowed : (protocol ino).allowed writer e) :
    (w.perform e fate).2.handles = w.handles := by
  cases e
  case getHandle => rfl
  case readHandle => rfl
  case blobLen => rw [perform_blobLen]
  case setDirty => rfl
  case resetDirty => exact World.releaseBytes_handles ..
  case writeBlobAt => exact (perform_writeBlobAt ..).1
  all_goals first | exact hallowed.elim | exact (perform_neutral w fate (by trivial)).1

end World

/-! ### What a thread knows -/

variable {w : World} {fate : Fate}

theorem held_next {id' : Nat} (h : (next writer e (w.perform e fate).1).held = some id') :
    writer.held = some id' ∨ ∃ ino, e = .getHandle ino ∧ w.handles.lookup ino = some id' := by
  cases e
  case getHandle ino' =>
    change (next writer (.getHandle ino') (w.handles.lookup ino')).held = some id' at h
    rcases hlookup : w.handles.lookup ino' with _ | id''
    · rw [hlookup] at h
      exact .inl h
    · rw [hlookup] at h
      exact .inr ⟨ino', rfl, by rw [hlookup]; exact h⟩
  case writeBlobAt ino' offset bytes =>
    rcases hans : (w.perform (.writeBlobAt ino' offset bytes) fate).1 with error | ⟨⟩ <;>
    rw [hans] at h <;>
    exact .inl h
  all_goals exact .inl h

theorem seen_next {handle : WriteHandle} (h : (next writer e (w.perform e fate).1).seen = some handle) :
    writer.seen = some handle ∨ ∃ id, e = .readHandle id ∧ w.handle id = handle := by
  cases e
  case getHandle ino' =>
    change (next writer (.getHandle ino') (w.handles.lookup ino')).seen = some handle at h
    rcases hlookup : w.handles.lookup ino' with _ | id'' <;>
    rw [hlookup] at h <;>
    exact .inl h
  case readHandle id' => exact .inr ⟨id', rfl, Option.some.inj h⟩
  case writeBlobAt ino' offset bytes =>
    rcases hans : (w.perform (.writeBlobAt ino' offset bytes) fate).1 with error | ⟨⟩ <;>
    rw [hans] at h <;>
    exact .inl h
  all_goals exact .inl h

/-! ### What is accepted -/

variable (accepted) in
theorem order_note (hallowed : (protocol ino).allowed writer e) (ans : e.Answer) :
    ∃ added, (note accepted writer e ans).order = accepted.order ++ added ∧
      (next writer e ans).payload = writer.payload ++ added := by
  have hnil := List.append_nil writer.payload
  cases e
  case getHandle ino' =>
    rcases ans with _ | id' <;>
    exact ⟨[], (List.append_nil _).symm, hnil.symm⟩
  case writeBlobAt ino' offset bytes =>
    obtain ⟨-, -, rfl, hstage⟩ := hallowed
    rcases ans with error | ⟨⟩
    · exact ⟨[], (List.append_nil _).symm, hnil.symm⟩
    · exact ⟨[writer.data], rfl, by simp [Writer.payload, next, hstage]⟩
  case setDirty id' dirty =>
    obtain ⟨-, -, hstage⟩ := hallowed
    exact ⟨[], (List.append_nil _).symm, by simp [Writer.payload, next, hstage]⟩
  all_goals exact ⟨[], (List.append_nil _).symm, hnil.symm⟩

variable (accepted) in
theorem counted_note (hallowed : (protocol ino).allowed writer e) (ans : e.Answer) :
    ∃ added, (note accepted writer e ans).flushed ++ (note accepted writer e ans).counted =
        accepted.flushed ++ accepted.counted ++ added ∧
      (next writer e ans).countedPayload = writer.countedPayload ++ added := by
  have hnil := List.append_nil writer.countedPayload
  cases e
  case getHandle ino' =>
    rcases ans with _ | id' <;>
    exact ⟨[], (List.append_nil _).symm, hnil.symm⟩
  case writeBlobAt ino' offset bytes =>
    obtain ⟨-, -, -, hstage⟩ := hallowed
    rcases ans with error | ⟨⟩
    · exact ⟨[], (List.append_nil _).symm, hnil.symm⟩
    · exact ⟨[], (List.append_nil _).symm, by simp [Writer.countedPayload, next, hstage]⟩
  case setDirty id' dirty =>
    obtain ⟨-, -, hstage⟩ := hallowed
    exact ⟨[writer.data], by simp [note], by simp [Writer.countedPayload, next, hstage]⟩
  all_goals exact ⟨[], by simp [note], hnil.symm⟩

theorem perm_flatMap_set {α β : Type} {l : List α} {j : Nat} {a b : α} {f : α → List β} {order added : List β}
    (ha : l[j]? = some a) (hb : f b = f a ++ added) (h : order.Perm (l.flatMap f)) :
    (order ++ added).Perm ((l.set j b).flatMap f) := by
  obtain ⟨hj, rfl⟩ := List.getElem?_eq_some_iff.mp ha
  have hbefore : (l.flatMap f).Perm (f l[j] ++ (l.eraseIdx j).flatMap f) :=
    (List.getElem_cons_eraseIdx_perm hj).symm.flatMap_right f
  have hafter : ((l.set j b).flatMap f).Perm (f b ++ (l.eraseIdx j).flatMap f) :=
    (List.set_perm_cons_eraseIdx hj b).flatMap_right f
  have hadded : (order ++ added).Perm (added ++ (f l[j] ++ (l.eraseIdx j).flatMap f)) :=
    List.perm_append_comm.trans ((h.trans hbefore).append_left _)
  apply hadded.trans
  rw [hb, List.append_assoc] at hafter
  exact (List.perm_append_comm_assoc ..).trans hafter.symm

theorem Open.step (h : Open ino id w accepted writers) (hwriter : writers[i]? = some writer)
    (hallowed : (protocol ino).allowed writer e) :
    Open ino id (w.perform e fate).2 (note accepted writer e (w.perform e fate).1)
      (writers.set i (next writer e (w.perform e fate).1)) where
  handle := by rw [perform_handles_of_allowed w fate hallowed, h.handle]
  range := lt_of_lt_of_le h.range World.perform_heap_length
  named := by rw [World.perform_blobName h.range, h.named]
  held writer' hwriter' id' hid' := by
    rcases List.mem_or_eq_of_mem_set hwriter' with hold | rfl
    · exact h.held writer' hold id' hid'
    · rcases held_next hid' with hid' | ⟨ino', rfl, hlookup⟩
      · exact h.held writer (List.mem_of_getElem? hwriter) id' hid'
      · obtain rfl : ino' = ino := hallowed
        exact Option.some.inj (hlookup.symm.trans h.handle)
  seen writer' hwriter' handle hhandle := by
    rcases List.mem_or_eq_of_mem_set hwriter' with hold | rfl
    · exact h.seen writer' hold handle hhandle
    · rcases seen_next hhandle with hhandle | ⟨id', rfl, rfl⟩
      · exact h.seen writer (List.mem_of_getElem? hwriter) handle hhandle
      · obtain rfl := h.held writer (List.mem_of_getElem? hwriter) id' hallowed
        exact h.named
  order := by
    obtain ⟨added, horder, hpayload⟩ := order_note accepted hallowed (w.perform e fate).1
    rw [horder]
    exact perm_flatMap_set hwriter hpayload h.order
  counted := by
    obtain ⟨added, hcounted, hpayload⟩ := counted_note accepted hallowed (w.perform e fate).1
    rw [hcounted]
    exact perm_flatMap_set hwriter hpayload h.counted

/-! ### What an effect loses -/

theorem writeAt_eq_append_iff {blob bytes : Bytes} {offset : Nat} :
    writeAt blob offset bytes = blob ++ bytes ↔ offset = blob.length ∨ bytes = [] ∧ offset ≤ blob.length := by
  constructor
  · intro h
    have hlength := congrArg List.length h
    rw [length_writeAt, List.length_append] at hlength
    rcases eq_or_ne bytes [] with rfl | hbytes
    · rw [List.length_nil] at hlength
      exact .inr ⟨rfl, by omega⟩
    · have hpos := List.length_pos_iff.mpr hbytes
      omega
  · rintro (rfl | ⟨rfl, hoffset⟩)
    · exact writeAt_length blob bytes
    · simp [writeAt_of_le _ hoffset]

theorem blob_setBlob (blob : Bytes) : (w.setBlob ino (some blob)).blob ino = blob := by
  simp [World.blob, World.setBlob]

theorem writeBlobAt_iff {init : Bytes} {offset : Nat} (hblob : w.blob ino = init ++ accepted.order.flatten)
    (htarget : writer.target = some offset) :
    (w.perform (.writeBlobAt ino offset writer.data) fate).2.blob ino = init ++
        (note accepted writer (.writeBlobAt ino offset writer.data)
          (w.perform (.writeBlobAt ino offset writer.data) fate).1).order.flatten ↔
      Undisturbed w writer (.writeBlobAt ino offset writer.data) fate := by
  have hok : (w.setBlob ino (some (writeAt (w.blob ino) offset writer.data))).blob ino =
        init ++ (accepted.order ++ [writer.data]).flatten ↔
      writer.target = some (w.blob ino).length ∨
        writer.data = [] ∧ ∃ offset ≤ (w.blob ino).length, writer.target = some offset := by
    rw [blob_setBlob, List.flatten_append, List.flatten_singleton, ← List.append_assoc, ← hblob, htarget]
    simpa using writeAt_eq_append_iff
  cases fate with
  | disk reached =>
    rcases reached with _ | n
    · exact iff_of_true hblob trivial
    · show (w.setBlob ino (some (writeAt (w.blob ino) offset (writer.data.take n)))).blob ino =
        init ++ accepted.order.flatten ↔ writeAt (w.blob ino) offset (writer.data.take n) = w.blob ino
      rw [blob_setBlob, ← hblob]
  | fine => exact hok
  | time n => exact hok
  | order inos => exact hok
  | append failure => exact hok
  | refused error => exact hok
  | gone => exact hok

theorem lossless_neutral {init : Bytes} (hneutral : Neutral e) (h : Lossless init ino id w accepted) :
    Lossless init ino id (w.perform e fate).2 (note accepted writer e (w.perform e fate).1) := by
  obtain ⟨-, hblobs, hheap⟩ := perform_neutral w fate hneutral
  rw [note_neutral hneutral, Lossless, World.blob, World.handle, hblobs, hheap]
  exact h

theorem lossless_perform_iff {init : Bytes} (h : Open ino id w accepted writers) (hwriter : writers[i]? = some writer)
    (hallowed : (protocol ino).allowed writer e) (hlossless : Lossless init ino id w accepted) :
    Lossless init ino id (w.perform e fate).2 (note accepted writer e (w.perform e fate).1) ↔
      Undisturbed w writer e fate := by
  have hmem := List.mem_of_getElem? hwriter
  obtain ⟨hblob, hdirty⟩ := hlossless
  cases e
  case writeBlobAt name offset bytes =>
    obtain ⟨⟨handle, hseen, rfl⟩, htarget, rfl, -⟩ := hallowed
    rw [h.seen writer hmem handle hseen]
    refine Iff.trans (and_iff_left ?_) (writeBlobAt_iff hblob htarget)
    rw [World.handle, (perform_writeBlobAt ..).2]
    rcases (w.perform (.writeBlobAt ino offset writer.data) fate).1 with error | ⟨⟩ <;>
    exact hdirty
  case setDirty id' dirty =>
    obtain ⟨hheld, hnew, -⟩ := hallowed
    obtain rfl := h.held writer hmem id' hheld
    have hcounter : ((w.setHandle id' { w.handle id' with dirtyBytes := dirty }).handle id').dirtyBytes = dirty := by
      rw [World.handle_setHandle_self w id' h.range]
    refine Iff.trans (and_iff_right hblob) ?_
    show ((w.setHandle id' { w.handle id' with dirtyBytes := dirty }).handle id').dirtyBytes = accepted.base +
        ((accepted.counted ++ [writer.data]).map List.length).sum ↔
      writer.newDirty = some ((w.handle id').dirtyBytes + writer.data.length)
    rw [hcounter, hnew, hdirty]
    simp [Nat.add_assoc]
  case resetDirty id' maxGlobal now =>
    obtain rfl := h.held writer hmem id' hallowed
    refine iff_of_true ⟨?_, ?_⟩ trivial
    · show ((w.releaseBytes maxGlobal (w.handle id').dirtyBytes).setHandle id' _).blob ino = _
      rw [World.blob, World.setHandle, World.releaseBytes_blobs]
      exact hblob
    · have hrange : id' < (w.releaseBytes maxGlobal (w.handle id').dirtyBytes).heap.length := by
        rw [World.releaseBytes_heap]
        exact h.range
      simp only [World.perform, World.handle_setHandle_self _ id' hrange]
      rfl
  case getHandle ino' =>
    refine iff_of_true ?_ trivial
    show Lossless init ino id w (note accepted writer (.getHandle ino') (w.handles.lookup ino'))
    rcases w.handles.lookup ino' with _ | id' <;>
    exact ⟨hblob, hdirty⟩
  case readHandle id' => exact iff_of_true ⟨hblob, hdirty⟩ trivial
  case blobLen name =>
    rw [perform_blobLen]
    exact iff_of_true ⟨hblob, hdirty⟩ trivial
  all_goals first | exact hallowed.elim | exact iff_of_true (lossless_neutral (by trivial) ⟨hblob, hdirty⟩) trivial

end Step

/-! ## Whole runs -/

/-- The payload of a write that has returned. -/
def returned (thread : Thread Writer Effect Effect.Answer (Except WritePathError Nat)) : List Bytes :=
  match thread.rest with
  | .ret (.ok _) => [thread.state.data]
  | _ => []

/-- Nobody is writing any more. -/
def AllReturned (pool : State) : Prop := ∀ thread ∈ pool.threads, ∃ result, thread.rest = .ret result

section Runs

open System

variable {options : WritePathOptions} {ino id : Nat} {w : World} {actions : List (Action (Nat × Bytes) Fate)}

theorem Open.start (hopen : w.handles.lookup ino = some id) (hid : id < w.heap.length)
    (hname : (w.handle id).blobName = ino) : Open ino id w (start w id).ghost [] where
  handle := hopen
  range := hid
  named := hname
  held writer hwriter := by simp at hwriter
  seen writer hwriter := by simp at hwriter
  order := .nil
  counted := .nil

theorem Open.started {accepted : Accepted} {writers : List Writer} (h : Open ino id w accepted writers)
    (call : Nat × Bytes) : Open ino id w accepted (writers ++ [{ offset := call.1, data := call.2 }]) where
  handle := h.handle
  range := h.range
  named := h.named
  held writer hwriter id' hid' := by
    rcases List.mem_append.mp hwriter with hwriter | hwriter
    · exact h.held writer hwriter id' hid'
    · rw [List.mem_singleton.mp hwriter] at hid'
      cases hid'
  seen writer hwriter handle hhandle := by
    rcases List.mem_append.mp hwriter with hwriter | hwriter
    · exact h.seen writer hwriter handle hhandle
    · rw [List.mem_singleton.mp hwriter] at hhandle
      cases hhandle
  order := by simpa [Writer.payload] using h.order
  counted := by simpa [Writer.countedPayload] using h.counted

theorem allStates_lossless_iff (hopen : w.handles.lookup ino = some id) (hid : id < w.heap.length)
    (hname : (w.handle id).blobName = ino) :
    Runs.AllStates (system options ino).act (fun pool => Lossless (w.blob ino) ino id pool.world pool.ghost)
        (start w id) actions ↔
      Runs.AllSteps (system options ino).act
        (Guarded fun w _ _ _ writer e fate => Undisturbed w writer e fate) (start w id) actions := by
  refine allStates_iff_allSteps (P := protocol ino) (I := Open ino id)
    (Q := fun world ghost _ => Lossless (w.blob ino) ino id world ghost) follows_write
    (fun _ _ _ call h => h.started call) ?_ (fun _ _ _ _ h => h) ?_ (Open.start hopen hid hname) ?_ ?_
  · intro w accepted writers i writer e fate h hwriter hallowed _
    exact ⟨rfl, h.step hwriter hallowed⟩
  · intro w accepted writers i writer e fate h hwriter hallowed hlossless
    exact lossless_perform_iff h hwriter hallowed hlossless
  · simp [start, AllFollow]
  · simp [start, Lossless]

variable (options actions) in
theorem run_open (hopen : w.handles.lookup ino = some id) (hid : id < w.heap.length)
    (hname : (w.handle id).blobName = ino) :
    let pool := Runs.run (system options ino).act (start w id) actions
    Open ino id pool.world pool.ghost (states pool) ∧
      AllFollow (protocol ino) (fun result writer => ∀ n, result = .ok n → writer.stage = .counted) pool := by
  have hany : ∀ action ∈ actions, True := fun _ _ => trivial
  have hguard : Runs.AllSteps (system options ino).act (Guarded fun _ _ _ _ _ _ _ => True) (start w id) actions :=
    Runs.allSteps_of_invariant (I := fun _ => True) hany trivial fun _ _ _ _ => ⟨guarded_trivial, trivial⟩
  refine (run_invariant (I := Open ino id) follows_write (fun _ _ _ call h => h.started call) ?_
    (Open.start hopen hid hname) ?_ hguard).run
  · intro w accepted writers i writer e fate h hwriter hallowed _
    exact ⟨rfl, h.step hwriter hallowed⟩
  · simp [start, AllFollow]

theorem flatMap_perm_iff {α β : Type} {l : List α} {f g : α → List β} (h : ∀ a ∈ l, (g a).Sublist (f a)) :
    (l.flatMap f).Perm (l.flatMap g) ↔ ∀ a ∈ l, f a = g a := by
  constructor
  · intro hperm
    have hlength := hperm.length_eq
    clear hperm
    induction l with
    | nil => simp
    | cons a l ih =>
      obtain ⟨ha, hl⟩ := List.forall_mem_cons.mp h
      have hle := (List.Sublist.flatMap_right l hl).length_le
      have hhead := ha.length_le
      simp only [List.flatMap_cons, List.length_append] at hlength
      refine List.forall_mem_cons.mpr ⟨?_, ih hl (by omega)⟩
      exact (ha.eq_of_length (by omega)).symm
  · intro hsame
    rw [List.flatMap_congr hsame]

theorem returned_sublist {thread : Thread Writer Effect Effect.Answer (Except WritePathError Nat)}
    (hcounted : ∀ n, thread.rest = .ret (.ok n) → thread.state.stage = .counted) :
    (returned thread).Sublist thread.state.payload := by
  unfold returned
  split
  next n heq => simp [Writer.payload, hcounted n heq]
  next => exact List.nil_sublist _

theorem payload_eq_returned_iff {thread : Thread Writer Effect Effect.Answer (Except WritePathError Nat)}
    (hcounted : ∀ n, thread.rest = .ret (.ok n) → thread.state.stage = .counted) :
    thread.state.payload = returned thread ↔
      (thread.state.stage ≠ .reading → ∃ n, thread.rest = .ret (.ok n)) := by
  unfold returned
  split
  next n heq =>
    exact iff_of_true (by simp [Writer.payload, hcounted n heq]) fun _ => ⟨n, heq⟩
  next hrest =>
    constructor
    · intro hpayload hstage
      simp [Writer.payload, hstage] at hpayload
    · intro h
      by_contra hpayload
      have hstage : thread.state.stage ≠ .reading := by
        intro hreading
        exact hpayload (by simp [Writer.payload, hreading])
      obtain ⟨n, heq⟩ := h hstage
      exact hrest n heq

theorem accepted_perm_iff {pool : State} (hopen : Open ino id w pool.ghost (states pool))
    (hfollow : AllFollow (protocol ino) (fun result writer => ∀ n, result = .ok n → writer.stage = .counted) pool) :
    (pool.ghost.order.Perm (pool.threads.flatMap returned) ∧
        (pool.ghost.flushed ++ pool.ghost.counted).Perm (pool.threads.flatMap returned)) ↔
      ∀ thread ∈ pool.threads, thread.state.stage ≠ .reading → ∃ n, thread.rest = .ret (.ok n) := by
  have hcounted : ∀ thread ∈ pool.threads, ∀ n, thread.rest = .ret (.ok n) → thread.state.stage = .counted := by
    intro thread hthread n hrest
    have hpost := hfollow thread hthread
    rw [hrest] at hpost
    exact hpost n rfl
  have horder : pool.ghost.order.Perm (pool.threads.flatMap fun thread => thread.state.payload) := by
    simpa [states, List.flatMap_map] using hopen.order
  have hcount : (pool.ghost.flushed ++ pool.ghost.counted).Perm
      (pool.threads.flatMap fun thread => thread.state.countedPayload) := by
    simpa [states, List.flatMap_map] using hopen.counted
  have hiff : (pool.threads.flatMap fun thread => thread.state.payload).Perm (pool.threads.flatMap returned) ↔
      ∀ thread ∈ pool.threads, thread.state.stage ≠ .reading → ∃ n, thread.rest = .ret (.ok n) := by
    rw [flatMap_perm_iff fun thread hthread => returned_sublist (hcounted thread hthread)]
    exact forall₂_congr fun thread hthread => payload_eq_returned_iff (hcounted thread hthread)
  constructor
  · rintro ⟨hperm, -⟩
    exact hiff.mp (horder.symm.trans hperm)
  · intro hwritten
    refine ⟨horder.trans (hiff.mpr hwritten), ?_⟩
    have hsame : ∀ thread ∈ pool.threads, thread.state.countedPayload = returned thread := by
      intro thread hthread
      unfold returned
      split
      next n heq => simp [Writer.countedPayload, hcounted thread hthread n heq]
      next hrest =>
        have hstage : thread.state.stage = .reading := by
          by_contra hstage
          obtain ⟨n, heq⟩ := hwritten thread hthread hstage
          exact hrest n heq
        simp [Writer.countedPayload, hstage]
    rw [← List.flatMap_congr hsame]
    exact hcount

/-- In every state the blob has grown by the payloads written, and the counter has those counted since its reset;
and in the end these are the payloads of the writes that have returned. -/
theorem appends_iff (hopen : w.handles.lookup ino = some id) (hid : id < w.heap.length)
    (hname : (w.handle id).blobName = ino) :
    let pool := Runs.run (system options ino).act (start w id) actions
    (Runs.AllStates (system options ino).act (fun pool => Lossless (w.blob ino) ino id pool.world pool.ghost)
        (start w id) actions ∧
      (AllReturned pool → pool.ghost.order.Perm (pool.threads.flatMap returned) ∧
        (pool.ghost.flushed ++ pool.ghost.counted).Perm (pool.threads.flatMap returned))) ↔
    (Runs.AllSteps (system options ino).act
        (Guarded fun w _ _ _ writer e fate => Undisturbed w writer e fate) (start w id) actions ∧
      (AllReturned pool →
        ∀ thread ∈ pool.threads, thread.state.stage ≠ .reading → ∃ n, thread.rest = .ret (.ok n))) := by
  intro pool
  obtain ⟨hinv, hfollow⟩ := run_open options actions hopen hid hname
  exact and_congr (allStates_lossless_iff hopen hid hname) (imp_congr_right fun _ => accepted_perm_iff hinv hfollow)

end Runs

theorem exists_rest {pool : State} (counts : List Nat)
    (h : pool.threads.map Thread.rest = counts.map fun n => .ret (.ok n)) :
    ∀ thread ∈ pool.threads, ∃ n, thread.rest = .ret (.ok n) := by
  intro thread hthread
  have hrest := List.mem_map_of_mem (f := Thread.rest) hthread
  rw [h] at hrest
  obtain ⟨n, -, hn⟩ := List.mem_map.mp hrest
  exact ⟨n, hn.symm⟩

/-- An append handle of an empty blob. -/
def opened : World := WritePathService.performCall {} {} (.openForWrite 1 "/f" true false, [])

/-- Two writes, each to its end. -/
def inTurn : List (Action (Nat × Bytes) Fate) :=
  .start (0, [1, 2]) :: List.replicate 8 (.step 0 .fine) ++ .start (0, [3]) :: List.replicate 8 (.step 1 .fine)

theorem appends_iff_inTurn :
    let pool := Runs.run (system {} 1).act (start opened 0) inTurn
    AllReturned pool ∧ pool.ghost.order.Perm (pool.threads.flatMap returned) ∧
      Runs.AllStates (system {} 1).act (fun pool => Lossless (opened.blob 1) 1 0 pool.world pool.ghost)
        (start opened 0) inTurn := by
  intro pool
  have hrest : ∀ thread ∈ pool.threads, ∃ n, thread.rest = .ret (.ok n) := exists_rest [2, 1] rfl
  have hdone : AllReturned pool := fun thread hthread => (hrest thread hthread).imp' Except.ok fun _ => id
  have hguard : Runs.AllSteps (system {} 1).act
      (System.Guarded fun w _ _ _ writer e fate => Undisturbed w writer e fate) (start opened 0) inTurn := by
    refine ⟨trivial, trivial, trivial, trivial, trivial, .inl rfl, trivial, rfl, trivial, ?_⟩
    exact ⟨trivial, trivial, trivial, trivial, trivial, .inl rfl, trivial, rfl, trivial, trivial⟩
  have happends := (@appends_iff {} 1 0 opened inTurn rfl (by decide) rfl).mpr
    ⟨hguard, fun _ thread hthread _ => hrest thread hthread⟩
  exact ⟨hdone, (happends.2 hdone).1, happends.1⟩

/-- The same two writes, effect by effect in turn. -/
def atOnce : List (Action (Nat × Bytes) Fate) :=
  [.start (0, [1, 2]), .start (0, [3])] ++ (List.replicate 8 [.step 0 .fine, .step 1 .fine]).flatten

/-- Both write at the start of the blob, and both count from zero. -/
theorem not_appends :
    ¬ (∀ (options : WritePathOptions) (ino id : Nat) (w : World) (actions : List (Action (Nat × Bytes) Fate)),
      w.handles.lookup ino = some id → id < w.heap.length → (w.handle id).blobName = ino →
      (w.handle id).appendMode = true →
      let pool := Runs.run (system options ino).act (start w id) actions
      AllReturned pool → ∃ order : List Bytes, order.Perm (pool.threads.flatMap returned) ∧
        pool.world.blob ino = w.blob ino ++ order.flatten) ∧
    ¬ (∀ (options : WritePathOptions) (ino id : Nat) (w : World) (actions : List (Action (Nat × Bytes) Fate)),
      w.handles.lookup ino = some id → id < w.heap.length → (w.handle id).blobName = ino →
      let pool := Runs.run (system options ino).act (start w id) actions
      AllReturned pool →
        (pool.world.handle id).dirtyBytes = pool.ghost.base + (pool.ghost.counted.map List.length).sum) := by
  have hrest : ∀ thread ∈ (Runs.run (system {} 1).act (start opened 0) atOnce).threads,
      ∃ n, thread.rest = .ret (.ok n) := exists_rest [2, 1] rfl
  have hdone : AllReturned (Runs.run (system {} 1).act (start opened 0) atOnce) :=
    fun thread hthread => (hrest thread hthread).imp' Except.ok fun _ => id
  constructor
  · intro h
    obtain ⟨order, hperm, hblob⟩ := h {} 1 0 opened atOnce rfl (by decide) rfl rfl hdone
    have hlength := congrArg List.length hblob
    have hpayloads := hperm.flatten.length_eq
    have hblobLength : ((Runs.run (system {} 1).act (start opened 0) atOnce).world.blob 1).length = 2 := rfl
    have hpayloadLength :
        ((Runs.run (system {} 1).act (start opened 0) atOnce).threads.flatMap returned).flatten.length = 3 := rfl
    have hempty : opened.blob 1 = [] := rfl
    rw [hempty, List.nil_append] at hlength
    omega
  · intro h
    have hdirty := h {} 1 0 opened atOnce rfl (by decide) rfl hdone
    cases hdirty

end Appending

end Pcloud
