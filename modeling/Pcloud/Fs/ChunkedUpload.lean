import Pcloud.Fs.WriteCalls

/-!
# What a chunked flush publishes (`WritePathService::chunked_flush`)

A flush that finds a sidecar with the blob's name and size goes on from its offset. The session then
has its old start and the rest of the blob. That is the blob if its start is as it was when it was
sent, which nothing in the sidecar tells.
-/

namespace Pcloud

open Program

namespace World

variable (w : World)

/-- Each sidecar has a session of its own, which stored what was acknowledged and no more than it is to have. -/
structure SidecarsSound : Prop where
  stored : ∀ ino progress, w.sidecars.lookup ino = some progress → ∃ stored, w.sessions[progress.uploadId]? = some stored ∧
    progress.ackedOffset ≤ stored.length ∧ stored.length ≤ progress.totalSize
  separate : ∀ ino ino' progress progress', w.sidecars.lookup ino = some progress →
    w.sidecars.lookup ino' = some progress' → progress.uploadId = progress'.uploadId → ino = ino'

def stored (uploadId : Nat) : Bytes := (w.sessions[uploadId]?).getD []

/-- The sidecar that a chunked flush of the blob goes on with. -/
def resumable (ino blobName : Nat) : Option UploadProgress :=
  (w.sidecars.lookup ino).filter fun progress =>
    progress.blobName = blobName ∧ progress.totalSize = (w.blob blobName).length

/-- The acknowledged start of the session that is resumed, and the rest of the blob. -/
def assembled (ino blobName : Nat) : Bytes :=
  match w.resumable ino blobName with
  | some progress =>
    (w.stored progress.uploadId).take progress.ackedOffset ++ (w.blob blobName).drop progress.ackedOffset
  | none => w.blob blobName

/-- The blob starts with what the server has acknowledged of the session that is resumed, if one is. -/
def PrefixUnchanged (ino blobName : Nat) : Prop :=
  ∀ progress ∈ w.resumable ino blobName,
    (w.stored progress.uploadId).take progress.ackedOffset = (w.blob blobName).take progress.ackedOffset

variable {w}

theorem mem_resumable {ino blobName : Nat} {progress : UploadProgress} :
    progress ∈ w.resumable ino blobName ↔ w.sidecars.lookup ino = some progress ∧ progress.blobName = blobName ∧
      progress.totalSize = (w.blob blobName).length := by
  simp [resumable, Option.mem_def, Option.filter_eq_some_iff]

theorem assembled_eq_blob_iff {ino blobName : Nat} :
    w.assembled ino blobName = w.blob blobName ↔ w.PrefixUnchanged ino blobName := by
  unfold assembled PrefixUnchanged
  cases w.resumable ino blobName with
  | none => simp
  | some progress =>
    have hblob := List.take_append_drop progress.ackedOffset (w.blob blobName)
    simp only [Option.mem_def, Option.some.injEq, forall_eq']
    constructor
    · intro h
      rw [← List.append_left_inj, h, hblob]
    · intro h
      rw [h, hblob]

theorem SidecarsSound.empty : SidecarsSound {} where
  stored _ _ h := by simp at h
  separate _ _ _ _ h := by simp at h

theorem SidecarsSound.stored_eq (h : w.SidecarsSound) {ino : Nat} {progress : UploadProgress}
    (hsidecar : w.sidecars.lookup ino = some progress) :
    w.sessions[progress.uploadId]? = some (w.stored progress.uploadId) ∧
      progress.ackedOffset ≤ (w.stored progress.uploadId).length ∧
      (w.stored progress.uploadId).length ≤ progress.totalSize := by
  obtain ⟨stored, hstored, hbounds⟩ := h.stored ino progress hsidecar
  simpa [World.stored, hstored] using hbounds

/-! ## The invariant -/

theorem SidecarsSound.removeProgress (h : w.SidecarsSound) (ino : Nat) :
    SidecarsSound { w with sidecars := w.sidecars.erase ino } where
  stored ino' progress hsidecar := h.stored ino' progress (lookup_erase_eq_some.mp hsidecar).2
  separate ino' ino'' progress progress' hsidecar hsidecar' :=
    h.separate ino' ino'' progress progress' (lookup_erase_eq_some.mp hsidecar).2 (lookup_erase_eq_some.mp hsidecar').2

theorem SidecarsSound.saveProgress (h : w.SidecarsSound) {ino : Nat} {progress : UploadProgress} {stored : Bytes}
    (hstored : w.sessions[progress.uploadId]? = some stored) (hacked : progress.ackedOffset ≤ stored.length)
    (htotal : stored.length ≤ progress.totalSize)
    (hown : ∀ ino' progress', w.sidecars.lookup ino' = some progress' → progress'.uploadId = progress.uploadId →
      ino' = ino) :
    SidecarsSound { w with sidecars := w.sidecars.insert ino progress } where
  stored ino' progress' hsidecar := by
    rcases lookup_insert_eq_some.mp hsidecar with ⟨-, rfl⟩ | ⟨-, hsidecar⟩
    · exact ⟨stored, hstored, hacked, htotal⟩
    · exact h.stored ino' progress' hsidecar
  separate ino' ino'' progress' progress'' hsidecar hsidecar' heq := by
    rcases lookup_insert_eq_some.mp hsidecar with ⟨rfl, rfl⟩ | ⟨-, hold⟩ <;>
    rcases lookup_insert_eq_some.mp hsidecar' with ⟨rfl, rfl⟩ | ⟨-, hold'⟩
    · rfl
    · exact (hown ino'' progress'' hold' heq.symm).symm
    · exact hown ino' progress' hold heq
    · exact h.separate ino' ino'' progress' progress'' hold hold' heq

theorem SidecarsSound.lt_length (h : w.SidecarsSound) {ino : Nat} {progress : UploadProgress}
    (hsidecar : w.sidecars.lookup ino = some progress) : progress.uploadId < w.sessions.length := by
  obtain ⟨stored, hstored, -⟩ := h.stored ino progress hsidecar
  exact (List.getElem?_eq_some_iff.mp hstored).1

theorem SidecarsSound.uploadCreate (h : w.SidecarsSound) :
    SidecarsSound { w with sessions := w.sessions ++ [[]] } where
  stored ino progress hsidecar := by
    obtain ⟨stored, hstored, hbounds⟩ := h.stored ino progress hsidecar
    refine ⟨stored, ?_, hbounds⟩
    rw [List.getElem?_append_left (h.lt_length hsidecar), hstored]
  separate := h.separate

theorem SidecarsSound.uploadWrite (h : w.SidecarsSound) {ino : Nat} {progress : UploadProgress} {offset : Nat}
    {chunk : Bytes} (hsidecar : w.sidecars.lookup ino = some progress) (hacked : progress.ackedOffset ≤ offset)
    (hoffset : offset ≤ (w.stored progress.uploadId).length) (htotal : offset + chunk.length ≤ progress.totalSize) :
    SidecarsSound { w with
      sessions := w.sessions.set progress.uploadId (writeAt (w.stored progress.uploadId) offset chunk) } where
  stored ino' progress' hsidecar' := by
    by_cases hid : progress'.uploadId = progress.uploadId
    · obtain rfl := h.separate ino' ino progress' progress hsidecar' hsidecar hid
      obtain rfl : progress' = progress := Option.some.inj (hsidecar'.symm.trans hsidecar)
      obtain ⟨-, -, hlength⟩ := h.stored_eq hsidecar
      refine ⟨_, List.getElem?_set_self (h.lt_length hsidecar), ?_⟩
      rw [length_writeAt]
      omega
    · obtain ⟨stored, hstored, hbounds⟩ := h.stored ino' progress' hsidecar'
      refine ⟨stored, ?_, hbounds⟩
      rw [List.getElem?_set_ne (Ne.symm hid), hstored]
  separate := h.separate

/-! ## A flush under way

`w₀` is the world at the start of the flush, and `target` what its session is going to have. -/

/-- Between two sessions, or after a session that failed. -/
structure Assembles (w₀ : World) (ino blobName : Nat) (target : Bytes) (w : World) : Prop where
  sound : w.SidecarsSound
  blobs : w.blobs = w₀.blobs
  remote : w.remote = w₀.remote
  assembled : w.assembled ino blobName = target

/-- In a session that has the target up to an offset, and a sidecar that is not ahead of it. -/
structure Underway (w₀ : World) (ino blobName uploadId offset : Nat) (target : Bytes) (w : World) : Prop where
  sound : w.SidecarsSound
  blobs : w.blobs = w₀.blobs
  remote : w.remote = w₀.remote
  size : target.length = (w.blob blobName).length
  sidecar : ∃ acked heartbeat, w.sidecars.lookup ino = some ⟨uploadId, blobName, target.length, acked, heartbeat⟩ ∧
    acked ≤ offset ∧ target.drop acked = (w.blob blobName).drop acked
  offset_le : offset ≤ target.length
  stored : (w.stored uploadId).take offset = target.take offset

/-- After a session that was saved. -/
structure Published (w₀ : World) (ino : Nat) (path : String) (content : Bytes) (w : World) : Prop where
  sound : w.SidecarsSound
  blobs : w.blobs = w₀.blobs
  remote : w.remote = .saved ino path content :: w₀.remote

variable {w₀ : World} {ino blobName uploadId offset : Nat} {target : Bytes}

theorem Underway.assembles (h : Underway w₀ ino blobName uploadId offset target w) :
    Assembles w₀ ino blobName target w where
  sound := h.sound
  blobs := h.blobs
  remote := h.remote
  assembled := by
    obtain ⟨acked, heartbeat, hsidecar, hacked, hdrop⟩ := h.sidecar
    have hresumable := mem_resumable.mpr ⟨hsidecar, rfl, h.size⟩
    have htake := congrArg (List.take acked) h.stored
    rw [List.take_take, List.take_take, Nat.min_eq_left hacked] at htake
    rw [World.assembled, Option.mem_def.mp hresumable]
    show (w.stored uploadId).take acked ++ (w.blob blobName).drop acked = target
    rw [htake, ← hdrop, List.take_append_drop]

theorem Underway.length_stored (h : Underway w₀ ino blobName uploadId offset target w) :
    offset ≤ (w.stored uploadId).length ∧ (w.stored uploadId).length ≤ target.length := by
  obtain ⟨acked, heartbeat, hsidecar, -⟩ := h.sidecar
  obtain ⟨-, -, hlength⟩ := h.sound.stored_eq hsidecar
  have htake := congrArg List.length h.stored
  have hoffset := h.offset_le
  simp only [List.length_take] at htake
  refine ⟨?_, hlength⟩
  omega

theorem Underway.drop_blob (h : Underway w₀ ino blobName uploadId offset target w) :
    (w.blob blobName).drop offset = target.drop offset := by
  obtain ⟨acked, heartbeat, -, hacked, hdrop⟩ := h.sidecar
  obtain ⟨rest, rfl⟩ := Nat.exists_eq_add_of_le hacked
  rw [← List.drop_drop, ← List.drop_drop, hdrop]

theorem Assembles.size (h : Assembles w₀ ino blobName target w) : target.length = (w.blob blobName).length := by
  have hassembled := h.assembled
  unfold World.assembled at hassembled
  rcases hresumable : w.resumable ino blobName with _ | progress
  · rw [hresumable] at hassembled
    rw [← hassembled]
  · obtain ⟨hsidecar, -, htotal⟩ := mem_resumable.mp hresumable
    obtain ⟨-, hacked, hlength⟩ := h.sound.stored_eq hsidecar
    rw [hresumable] at hassembled
    rw [← hassembled]
    simp only [List.length_append, List.length_take, List.length_drop]
    omega

theorem Assembles.withJournal (h : Assembles w₀ ino blobName target w) (journal : WriteJournal) :
    Assembles w₀ ino blobName target { w with journal } :=
  ⟨⟨h.sound.stored, h.sound.separate⟩, h.blobs, h.remote, h.assembled⟩

theorem Published.resetDirty {path : String} {content : Bytes} (h : Published w₀ ino path content w)
    (id maxGlobal now : Nat) :
    Published w₀ ino path content (w.perform (.resetDirty id maxGlobal now) default).2 := by
  refine ⟨⟨?_, ?_⟩, ?_, ?_⟩
  · simpa [perform, setHandle] using h.sound.stored
  · simpa [perform, setHandle] using h.sound.separate
  · simpa [perform, setHandle] using h.blobs
  · simpa [perform, setHandle] using h.remote

theorem Assembles.blob_eq (h : Assembles w₀ ino blobName target w) : w.blob blobName = w₀.blob blobName := by
  rw [blob, h.blobs, blob]

theorem Assembles.removeProgress (h : Assembles w₀ ino blobName target w) :
    Assembles w₀ ino blobName (w₀.blob blobName) { w with sidecars := w.sidecars.erase ino } where
  sound := h.sound.removeProgress ino
  blobs := h.blobs
  remote := h.remote
  assembled := by
    rw [← h.blob_eq]
    simp only [World.assembled, resumable, AList.lookup_erase, Option.filter_none]
    rfl

theorem Assembles.resume (h : Assembles w₀ ino blobName target w) {progress : UploadProgress}
    (hsidecar : w.sidecars.lookup ino = some progress) (hname : progress.blobName = blobName)
    (htotal : progress.totalSize = target.length) :
    Underway w₀ ino blobName progress.uploadId progress.ackedOffset target w := by
  obtain ⟨-, hacked, hlength⟩ := h.sound.stored_eq hsidecar
  have hresumable := mem_resumable.mpr ⟨hsidecar, hname, htotal.trans h.size⟩
  have htake : ((w.stored progress.uploadId).take progress.ackedOffset).length = progress.ackedOffset := by
    simp [hacked]
  have htarget := h.assembled
  unfold World.assembled at htarget
  rw [Option.mem_def.mp hresumable] at htarget
  refine ⟨h.sound, h.blobs, h.remote, h.size, ⟨progress.ackedOffset, progress.heartbeatUnixSecs, ?_, le_rfl, ?_⟩,
    by omega, ?_⟩
  · rw [hsidecar, ← hname, ← htotal]
  · rw [← htarget]
    exact List.drop_left' htake
  · rw [← htarget]
    exact (List.take_left' htake).symm

theorem Underway.complete (h : Underway w₀ ino blobName uploadId target.length target w) :
    w.stored uploadId = target := by
  have hlength := h.length_stored
  have hstored := h.stored
  rwa [List.take_of_length_le hlength.2, List.take_length] at hstored

theorem Underway.withJournal (h : Underway w₀ ino blobName uploadId offset target w) (journal : WriteJournal) :
    Underway w₀ ino blobName uploadId offset target { w with journal } :=
  ⟨⟨h.sound.stored, h.sound.separate⟩, h.blobs, h.remote, h.size, h.sidecar, h.offset_le, h.stored⟩

theorem Underway.uploadWrite (h : Underway w₀ ino blobName uploadId offset target w) {n : Nat}
    (hn : offset + n ≤ target.length) :
    Underway w₀ ino blobName uploadId (offset + n) target { w with
      sessions := w.sessions.set uploadId (writeAt (w.stored uploadId) offset ((target.drop offset).take n)) } := by
  obtain ⟨acked, heartbeat, hsidecar, hacked, hdrop⟩ := h.sidecar
  have hlength : ((target.drop offset).take n).length = n := by simp; omega
  refine ⟨?_, h.blobs, h.remote, h.size, ⟨acked, heartbeat, hsidecar, by omega, hdrop⟩, hn, ?_⟩
  · apply h.sound.uploadWrite hsidecar hacked h.length_stored.1
    rwa [hlength]
  · rw [World.stored, List.getElem?_set_self (h.sound.lt_length hsidecar)]
    exact take_writeAt hn h.stored

theorem Underway.saveProgress (h : Underway w₀ ino blobName uploadId offset target w) (heartbeat : Nat) :
    Underway w₀ ino blobName uploadId offset target { w with
      sidecars := w.sidecars.insert ino ⟨uploadId, blobName, target.length, offset, heartbeat⟩ } := by
  obtain ⟨acked, heartbeat', hsidecar, -⟩ := h.sidecar
  refine ⟨?_, h.blobs, h.remote, h.size, ⟨offset, heartbeat, ?_, le_rfl, ?_⟩, h.offset_le, h.stored⟩
  · have hstored : w.sessions[uploadId]? = some (w.stored uploadId) := (h.sound.stored_eq hsidecar).1
    refine h.sound.saveProgress hstored h.length_stored.1 h.length_stored.2 ?_
    intro ino' progress' hsidecar' hid
    exact h.sound.separate ino' ino progress' _ hsidecar' hsidecar hid
  · exact AList.lookup_insert _
  · exact h.drop_blob.symm

end World

/-! ## The flush -/

def WritePathError.IsPermanent (error : WritePathError) : Prop := ∃ message, error = .uploadPermanent message

def Fate.IsPermanent (fate : Fate) : Prop := ∃ message, fate = .refused (.uploadPermanent message)

/-- The effects, where only some fates may be permanent refusals. -/
abbrev uploads (permanent : Prop) : Protocol World Effect Effect.Answer :=
  effects World.perform fun fate => fate.IsPermanent → permanent

/-- How a part of a flush ends. A permanent error comes of a permanent refusal. -/
def Ending {α : Type} (permanent : Prop) (done : α → World → Prop) (failed : World → Prop) :
    Except WritePathError α → World → Prop
  | .ok a, w => done a w
  | .error error, w => failed w ∧ (error.IsPermanent → permanent)

section Ending

variable {α β : Type} {permanent : Prop} {failed : World → Prop} {w : World}

theorem Ending.failed_mono {done : α → World → Prop} {failed' : World → Prop} {result : Except WritePathError α}
    (h : Ending permanent done failed result w) (hfailed : ∀ w, failed w → failed' w) :
    Ending permanent done failed' result w := by
  cases result with
  | ok a => exact h
  | error error => exact ⟨hfailed w h.1, h.2⟩

theorem follows_bind_ending (done : α → World → Prop) {done' : β → World → Prop} {x : WriteProg α}
    {f : α → WriteProg β} (hx : Follows (uploads permanent) (Ending permanent done failed) x.run w)
    (hf : ∀ a w, done a w → Follows (uploads permanent) (Ending permanent done' failed) (f a).run w) :
    Follows (uploads permanent) (Ending permanent done' failed) (x >>= f).run w := by
  rw [follows_fallible_bind]
  apply hx.mono
  rintro (error | a) w h
  · exact h
  · exact hf a w h

theorem ending_unlessRefused {done : α → World → Prop} {granted : Except WritePathError α × World} {fate : Fate}
    (hfate : fate.IsPermanent → permanent) (hfailed : failed w)
    (hgranted : Ending permanent done failed granted.1 granted.2) :
    Ending permanent done failed (w.unlessRefused fate granted).1 (w.unlessRefused fate granted).2 := by
  rcases w.unlessRefused_cases fate granted with ⟨error, rfl, heq⟩ | heq <;>
  rw [heq]
  · refine ⟨hfailed, ?_⟩
    rintro ⟨message, rfl⟩
    exact hfate ⟨message, rfl⟩
  · exact hgranted

theorem follows_now {done : Nat → World → Prop} (h : ∀ now, done now w) :
    Follows (uploads permanent) (Ending permanent done failed) (ask .now).run w := by
  apply follows_perform_effects.mpr
  intro fate _
  exact h fate.clock

theorem follows_journalAppend {Q : World → Prop} (op : JournalOp) (h : ∀ journal, Q { w with journal }) :
    Follows (uploads permanent) (Ending permanent (fun _ => Q) Q) (attempt (effect (.journalAppend op))).run w := by
  apply follows_perform_effects.mpr
  intro fate _
  obtain ⟨failure, hperform⟩ := w.perform_journalAppend fate op
  rw [hperform]
  cases (w.journal.append op failure).1 with
  | none =>
    refine ⟨h _, ?_⟩
    rintro ⟨_, ⟨⟩⟩
  | some seq => exact h _

theorem follows_saveProgress (done : World → Prop) {ino : Nat} {progress : UploadProgress} (hfailed : failed w)
    (hdone : done { w with sidecars := w.sidecars.insert ino progress }) :
    Follows (uploads permanent) (Ending permanent (fun _ => done) failed)
      (attempt (effect (.saveProgress ino progress))).run w := by
  apply follows_perform_effects.mpr
  intro fate hfate
  exact ending_unlessRefused hfate hfailed hdone

end Ending

section Flush

variable {options : WritePathOptions} {permanent : Prop} {w₀ w : World} {ino blobName uploadId offset : Nat}
  {target : Bytes} {parent name : String}

open World WritePathService

theorem World.Underway.refused {α : Type} {done : α → World → Prop}
    (h : Underway w₀ ino blobName uploadId offset target w) (message : String) :
    Ending permanent done (Assembles w₀ ino blobName target) (.error (.upload message)) w := by
  refine ⟨h.assembles, ?_⟩
  rintro ⟨_, ⟨⟩⟩

theorem follows_uploadWrite (h : Underway w₀ ino blobName uploadId offset target w) {n : Nat}
    (hn : offset + n ≤ target.length) :
    Follows (uploads permanent)
      (Ending permanent (fun _ => Underway w₀ ino blobName uploadId (offset + n) target)
        (Underway w₀ ino blobName uploadId offset target))
      (attempt (effect (.uploadWrite uploadId offset ((target.drop offset).take n)))).run w := by
  obtain ⟨acked, heartbeat, hsidecar, -⟩ := h.sidecar
  have hstored : w.sessions[uploadId]? = some (w.stored uploadId) := (h.sound.stored_eq hsidecar).1
  apply follows_perform_effects.mpr
  intro fate hfate
  simp only [World.perform, hstored]
  exact ending_unlessRefused hfate h (h.uploadWrite hn)

theorem follows_uploadChunk (maxAttempts : Nat) {n : Nat} (hn : offset + n ≤ target.length) (attempts : Nat)
    (h : Underway w₀ ino blobName uploadId offset target w) :
    Follows (uploads permanent)
      (Ending permanent (fun _ => Underway w₀ ino blobName uploadId (offset + n) target)
        (Underway w₀ ino blobName uploadId offset target))
      (uploadChunk maxAttempts uploadId offset ((target.drop offset).take n) attempts).run w := by
  induction attempts generalizing w with
  | zero =>
    rw [uploadChunk, follows_fallible_bind, follows_outcome]
    apply (follows_uploadWrite h hn).mono
    rintro (error | ⟨⟩) w hw
    · cases error
      case uploadTransient message =>
        refine ⟨hw.1, ?_⟩
        rintro ⟨_, ⟨⟩⟩
      all_goals exact hw
    · exact hw
  | succ attempts ih =>
    rw [uploadChunk, follows_fallible_bind, follows_outcome]
    apply (follows_uploadWrite h hn).mono
    rintro (error | ⟨⟩) w hw
    · cases error
      case uploadTransient message => exact ih hw.1
      all_goals exact hw
    · exact hw

theorem chunkBytes_pos (options : WritePathOptions) : 0 < chunkBytes options := by
  unfold chunkBytes defaultChunkSizeBytes
  split <;> omega

theorem follows_readChunk (h : Underway w₀ ino blobName uploadId offset target w) (n : Nat) :
    Follows (uploads permanent)
      (Ending permanent
        (fun chunk w' => chunk = (target.drop offset).take n ∧ Underway w₀ ino blobName uploadId offset target w')
        (Assembles w₀ ino blobName target))
      (orUpload "read staging blob" (attempt (effect (.readBlobAt blobName offset n)))).run w := by
  rw [follows_orUpload, follows_attempt]
  apply follows_perform_effects.mpr
  intro fate _
  simp only [World.perform]
  split
  · exact h.refused "read staging blob"
  · split_ifs
    · exact ⟨by rw [h.drop_blob], h⟩
    · exact h.refused "read staging blob"

theorem follows_uploadChunks (turns : Nat) (hturns : target.length ≤ offset + turns)
    (h : Underway w₀ ino blobName uploadId offset target w) :
    Follows (uploads permanent)
      (Ending permanent (fun _ => Underway w₀ ino blobName uploadId target.length target)
        (Assembles w₀ ino blobName target))
      (uploadChunks options ino (joinPath parent name) blobName target.length uploadId turns offset).run w := by
  induction turns generalizing offset w with
  | zero =>
    obtain rfl : offset = target.length := le_antisymm h.offset_le hturns
    exact h
  | succ turns ih =>
    rw [uploadChunks]
    split_ifs with hoffset
    · have hchunk := chunkBytes_pos options
      have hend : offset + min (chunkBytes options) (target.length - offset) ≤ target.length := by omega
      apply follows_bind_ending _ (follows_readChunk h _)
      rintro _ w ⟨rfl, h⟩
      apply follows_bind_ending _
        ((follows_uploadChunk _ hend _ h).mono fun _ _ h => h.failed_mono fun _ => Underway.assembles)
      intro _ w h
      apply follows_bind_ending _
        ((follows_journalAppend _ h.withJournal).mono fun _ _ h => h.failed_mono fun _ => Underway.assembles)
      intro _ w h
      apply follows_bind_ending _ (follows_now fun _ => h)
      intro now w h
      apply follows_bind_ending _
        (follows_saveProgress (Underway w₀ ino blobName uploadId _ target) h.assembles (h.saveProgress now))
      intro _ w h
      exact ih (by omega) h
    · obtain rfl : offset = target.length := by have := h.offset_le; omega
      exact h

theorem follows_startSession (h : Assembles w₀ ino blobName target w) (hnone : w.resumable ino blobName = none)  :
    Follows (uploads permanent)
      (Ending permanent (fun session => Underway w₀ ino blobName session.1 session.2 target)
        (Assembles w₀ ino blobName target))
      (startSession ino parent name blobName target.length).run w := by
  obtain rfl : w.blob blobName = target := by
    have hassembled := h.assembled
    rwa [assembled, hnone] at hassembled
  let started : World := { w with sessions := w.sessions ++ [[]] }
  have hstarted : Assembles w₀ ino blobName (w.blob blobName) started := by
    refine ⟨h.sound.uploadCreate, h.blobs, h.remote, ?_⟩
    show (match w.resumable ino blobName with | some progress => _ | none => w.blob blobName) = _
    rw [hnone]
  apply follows_bind_ending (fun uploadId w' => uploadId = w.sessions.length ∧ w' = started)
  · apply follows_perform_effects.mpr
    intro fate hfate
    exact ending_unlessRefused hfate h ⟨rfl, rfl⟩
  rintro _ _ ⟨rfl, rfl⟩
  apply follows_bind_ending (fun _ w' => w' = started) (follows_now fun _ => rfl)
  rintro now _ rfl
  apply follows_bind_ending (fun _ => Underway w₀ ino blobName w.sessions.length 0 (w.blob blobName))
  · apply follows_saveProgress _ hstarted
    refine ⟨?_, h.blobs, h.remote, rfl, ⟨0, now, AList.lookup_insert _, le_rfl, rfl⟩, Nat.zero_le _, rfl⟩
    apply hstarted.sound.saveProgress List.getElem?_concat_length (Nat.zero_le _) (Nat.zero_le _)
    intro ino' progress' hsidecar hid
    have hlt := h.sound.lt_length hsidecar
    exact absurd hid (Nat.ne_of_lt hlt)
  · intro _ w h
    exact h

theorem follows_resumeOrStart (h : Assembles w₀ ino blobName target w) :
    Follows (uploads permanent)
      (Ending permanent (fun session => Underway w₀ ino blobName session.1 session.2 target)
        (Assembles w₀ ino blobName target))
      (resumeOrStart ino parent name blobName target.length).run w := by
  apply follows_bind_ending (fun progress w' => progress = w.sidecars.lookup ino ∧ w' = w)
  · apply follows_perform_effects.mpr
    intro fate hfate
    exact ending_unlessRefused hfate h ⟨rfl, rfl⟩
  rintro _ w ⟨rfl, rfl⟩
  rcases hsidecar : w.sidecars.lookup ino with _ | progress
  · apply follows_startSession h
    simp [resumable, hsidecar]
  · dsimp only
    split_ifs with hmatch
    · exact h.resume hsidecar hmatch.1 hmatch.2
    · apply follows_startSession h
      rw [h.size] at hmatch
      simpa [resumable, hsidecar, Option.filter_eq_none_iff] using hmatch

theorem follows_openBlob (h : Underway w₀ ino blobName uploadId offset target w) :
    Follows (uploads permanent)
      (Ending permanent (fun _ => Underway w₀ ino blobName uploadId offset target) (Assembles w₀ ino blobName target))
      (orUpload "open staging blob" (attempt (effect (.openBlob blobName)))).run w := by
  rw [follows_orUpload, follows_attempt]
  apply follows_perform_effects.mpr
  intro fate _
  simp only [World.perform]
  split
  · exact h.refused "open staging blob"
  · exact h.refused "open staging blob"
  · exact h

theorem follows_uploadSave (path : String) (h : Underway w₀ ino blobName uploadId target.length target w)
    (hpath : path = joinPath parent name) (totalSize : Nat) :
    Follows (uploads permanent)
      (Ending permanent (fun _ => Published w₀ ino path target) (Assembles w₀ ino blobName target))
      (attempt (effect (.uploadSave ino uploadId parent name totalSize))).run w := by
  obtain ⟨acked, heartbeat, hsidecar, -⟩ := h.sidecar
  have hstored : w.sessions[uploadId]? = some target := by
    rw [(h.sound.stored_eq hsidecar).1, h.complete]
  apply follows_perform_effects.mpr
  intro fate hfate
  simp only [World.perform, hstored]
  apply ending_unlessRefused hfate h.assembles
  exact ⟨⟨h.sound.stored, h.sound.separate⟩, h.blobs, by rw [h.remote, hpath]⟩

theorem follows_runChunkedSession (h : Assembles w₀ ino blobName target w) :
    Follows (uploads permanent)
      (Ending permanent (fun _ => Published w₀ ino (joinPath parent name) target) (Assembles w₀ ino blobName target))
      (runChunkedSession options ino parent name blobName target.length).run w := by
  apply follows_bind_ending _ (follows_resumeOrStart h)
  rintro ⟨uploadId, resumeOffset⟩ w h
  apply follows_bind_ending _ (follows_openBlob h)
  intro _ w h
  apply follows_bind_ending _ (follows_uploadChunks target.length (Nat.le_add_left _ _) h)
  intro _ w h
  apply follows_bind_ending _ (follows_uploadSave _ h rfl _)
  intro _ w h
  apply follows_perform_effects.mpr
  rintro (_ | _) _
  case refused error => exact h
  all_goals exact ⟨h.sound.removeProgress ino, h.blobs, h.remote⟩

theorem follows_runSessions (restarts : Nat) (h : Assembles w₀ ino blobName target w) :
    Follows (uploads permanent)
      (Ending permanent
        (fun _ w' => ∃ content, (content = target ∨ permanent ∧ content = w₀.blob blobName) ∧
          Published w₀ ino (joinPath parent name) content w')
        (fun w' => w'.SidecarsSound ∧ w'.blobs = w₀.blobs))
      (runSessions options ino parent name blobName target.length restarts).run w := by
  induction restarts generalizing target w with
  | zero =>
    apply (follows_runChunkedSession h).mono
    rintro (error | _) w h
    · exact ⟨⟨h.1.sound, h.1.blobs⟩, h.2⟩
    · exact ⟨target, .inl rfl, h⟩
  | succ restarts ih =>
    rw [runSessions, follows_fallible_bind, follows_outcome]
    apply (follows_runChunkedSession h).mono
    rintro (error | _) w h
    · cases error
      case uploadPermanent message =>
        have hpermanent := h.2 ⟨message, rfl⟩
        apply follows_bind_ending (fun _ w' => ∃ target', (target' = target ∨ target' = w₀.blob blobName) ∧
          Assembles w₀ ino blobName target' w')
        · apply follows_perform_effects.mpr
          rintro (_ | _) _
          case refused error => exact ⟨target, .inl rfl, h.1⟩
          all_goals exact ⟨w₀.blob blobName, .inr rfl, h.1.removeProgress⟩
        · rintro _ w ⟨target', htarget', h'⟩
          have hsize : target.length = target'.length := by
            rw [h.1.size, h.1.blob_eq, ← h'.blob_eq, ← h'.size]
          rw [hsize]
          apply (ih h').mono
          rintro (error | _) w hw
          · exact hw
          · obtain ⟨content, hcontent, hw⟩ := hw
            refine ⟨content, ?_, hw⟩
            rcases hcontent with rfl | hcontent
            · exact htarget'.imp_right fun hblob => ⟨hpermanent, hblob⟩
            · exact .inr hcontent
      all_goals exact ⟨⟨h.1.sound, h.1.blobs⟩, h.2⟩
    · exact ⟨target, .inl rfl, h⟩

theorem follows_chunkedFlush (h : w.SidecarsSound) :
    Follows (uploads permanent)
      (Ending permanent
        (fun _ w' => ∃ id parent name content, w.handles.lookup ino = some id ∧
          splitParentName (w.handle id).path = some (parent, name) ∧
          (content = w.assembled ino (w.handle id).blobName ∨ permanent ∧ content = w.blob (w.handle id).blobName) ∧
          Published w ino (joinPath parent name) content w')
        (fun w' => w'.SidecarsSound ∧ w'.blobs = w.blobs))
      (chunkedFlush options ino).run w := by
  have hstart : ∀ blobName, Assembles w ino blobName (w.assembled ino blobName) w := fun _ => ⟨h, rfl, rfl, rfl⟩
  apply follows_bind_ending (fun id w' => w.handles.lookup ino = some id ∧ w = w')
  · apply follows_perform_effects.mpr
    intro fate _
    simp only [World.perform]
    rcases w.handles.lookup ino with _ | id
    · refine ⟨⟨h, rfl⟩, ?_⟩
      rintro ⟨_, ⟨⟩⟩
    · exact ⟨rfl, rfl⟩
  rintro id _ ⟨hid, rfl⟩
  apply follows_bind_ending (fun handle w' => w.handle id = handle ∧ w = w')
  · apply follows_perform_effects.mpr
    intro fate _
    exact ⟨rfl, rfl⟩
  rintro _ _ ⟨rfl, rfl⟩
  rcases hpath : splitParentName (w.handle id).path with _ | ⟨parent, name⟩
  · refine ⟨⟨h, rfl⟩, ?_⟩
    rintro ⟨_, ⟨⟩⟩
  dsimp only
  apply follows_bind_ending _
    ((follows_journalAppend _ (hstart (w.handle id).blobName).withJournal).mono fun _ _ h =>
      h.failed_mono fun _ h => ⟨h.sound, h.blobs⟩)
  intro _ w' h
  apply follows_bind_ending (fun size w'' => (∀ n ∈ size, n = (w.assembled ino (w.handle id).blobName).length) ∧ w' = w'')
  · apply follows_perform_effects.mpr
    intro fate _
    refine ⟨?_, ?_⟩
    · rintro n hn
      rw [h.size]
      rcases hblob : w'.blobs (w.handle id).blobName with _ | blob <;>
      cases fate <;>
      simp_all [World.perform, World.blob]
    · cases fate <;> rfl
  rintro size _ ⟨hsize, rfl⟩
  rcases size with _ | totalSize
  · refine ⟨⟨h.sound, h.blobs⟩, ?_⟩
    rintro ⟨_, ⟨⟩⟩
  obtain rfl := hsize totalSize rfl
  apply follows_bind_ending _ (follows_runSessions 1 h)
  rintro _ w'' ⟨content, hcontent, h⟩
  apply follows_bind_ending _ (follows_now fun _ => h)
  intro now w'' h
  apply follows_perform_effects.mpr
  intro fate _
  exact ⟨id, parent, name, content, hid, hpath, hcontent, h.resetDirty _ _ _⟩

/-! ## Whole runs -/

theorem Effect.Staging.sidecarsSound {e : Effect} {fate : Fate} (he : e.Staging) (h : w.SidecarsSound) :
    (w.perform e fate).2.SidecarsSound := by
  obtain ⟨hsidecars, hsessions⟩ := he.keeps w fate
  constructor
  · rw [hsidecars, hsessions]
    exact h.stored
  · rw [hsidecars]
    exact h.separate

theorem follows_staging {α : Type} {call : WriteProg α} (hcall : Asks Effect.Staging call.run) (h : w.SidecarsSound) :
    Follows (uploads permanent) (fun _ => SidecarsSound) call.run w :=
  hcall.keeps (fun _ _ _ he h => he.sidecarsSound h) h

theorem follows_plain {α : Type} {call : WriteProg α} (hcall : Asks Effect.Plain call.run) (h : w.SidecarsSound) :
    Follows (uploads permanent) (fun _ => SidecarsSound) call.run w :=
  follows_staging (hcall.mono fun _ => Effect.Plain.staging) h

theorem follows_sound_bind {α β : Type} {x : WriteProg α} {f : α → WriteProg β}
    (hx : Follows (uploads permanent) (fun _ => SidecarsSound) x.run w)
    (hf : ∀ a w, w.SidecarsSound → Follows (uploads permanent) (fun _ => SidecarsSound) (f a).run w) :
    Follows (uploads permanent) (fun _ => SidecarsSound) (x >>= f).run w := by
  rw [follows_fallible_bind]
  apply hx.mono
  rintro (error | a) w h
  · exact h
  · exact hf a w h

theorem follows_chunkedFlush_sound (h : w.SidecarsSound) :
    Follows (uploads permanent) (fun _ => SidecarsSound) (chunkedFlush options ino).run w := by
  apply (follows_chunkedFlush h).mono
  rintro (error | ⟨⟩) w' hw'
  · exact hw'.1.1
  · obtain ⟨_, _, _, _, -, -, -, hpublished⟩ := hw'
    exact hpublished.sound

theorem follows_flushIfDue {dirty lastFlush : Nat} (h : w.SidecarsSound) :
    Follows (uploads permanent) (fun _ => SidecarsSound) (flushIfDue options ino dirty lastFlush).run w := by
  apply follows_sound_bind (follows_plain (asks_ask (e := .now) trivial) h)
  intro now w h
  split_ifs
  · apply follows_sound_bind (follows_outcome.mpr (follows_chunkedFlush_sound h))
    rintro (error | ⟨⟩) w h
    · cases error
      case upload message =>
        dsimp only
        split_ifs
        · exact follows_plain asks_flush h
        · exact h
      all_goals exact h
    · exact h
  · exact follows_plain asks_flush h
  · exact h

theorem follows_reconcile {now serverBytes : Nat} {progress : UploadProgress} {outcome : ResumeOutcome}
    (h : w.SidecarsSound) (hsidecar : w.sidecars.lookup ino = some progress)
    (hbytes : serverBytes ≤ (w.stored progress.uploadId).length) :
    Follows (uploads permanent) (fun _ => SidecarsSound) (reconcile ino now serverBytes progress outcome).run w := by
  obtain ⟨hstored, -, hlength⟩ := h.stored_eq hsidecar
  have hsave : Follows (uploads permanent) (fun _ => SidecarsSound) (attempt (effect (.saveProgress ino
      { progress with ackedOffset := serverBytes, heartbeatUnixSecs := now }))).run w := by
    apply follows_perform_effects.mpr
    intro fate _
    apply w.unlessRefused_keeps fate h
    refine h.saveProgress hstored hbytes hlength ?_
    intro ino' progress' hsidecar' hid
    exact h.separate ino' ino progress' progress hsidecar' hsidecar hid
  apply follows_sound_bind (follows_outcome.mpr hsave)
  rintro (error | ⟨⟩) w h <;>
  exact h

theorem follows_removeProgress (h : w.SidecarsSound) :
    Follows (uploads permanent) (fun _ => SidecarsSound) (ask (.removeProgress ino)).run w := by
  apply follows_perform_effects.mpr
  rintro (_ | _) _
  case refused error => exact h
  all_goals exact h.removeProgress ino

theorem follows_uploadStatus (uploadId : Nat) :
    Follows (uploads permanent)
      (fun result w' => w' = w ∧ ∀ n, result = .ok (.bytes n) → n = (w.stored uploadId).length)
      (attempt (effect (.uploadStatus uploadId))).run w := by
  apply follows_perform_effects.mpr
  intro fate _
  rcases hstored : w.sessions[uploadId]? with _ | stored <;>
  cases fate <;>
  simp [World.perform, World.stored, hstored]

theorem follows_replayUploadSidecar {timeout now : Nat} (h : w.SidecarsSound) :
    Follows (uploads permanent) (fun _ => SidecarsSound) (replayUploadSidecar timeout now ino).run w := by
  unfold replayUploadSidecar
  rw [follows_fallible_bind, follows_outcome]
  apply follows_perform_effects.mpr
  intro fate _
  rcases w.unlessRefused_cases fate (.ok (w.sidecars.lookup ino), w) with ⟨error, -, heq⟩ | heq <;>
  simp only [World.perform, heq]
  · exact h
  rcases hsidecar : w.sidecars.lookup ino with _ | progress
  · exact h
  show Follows _ _ (ExceptT.run (_ >>= _)) w
  rw [follows_fallible_bind, follows_outcome]
  apply (follows_uploadStatus progress.uploadId).mono
  rintro (error | status) w' ⟨rfl, hstatus⟩
  · dsimp only [orElse]
    split_ifs
    · split
      · apply follows_sound_bind (follows_removeProgress h)
        intro _ w h
        exact h
      · exact h
    · exact h
  rcases status with serverBytes | _
  · obtain rfl := hstatus serverBytes rfl
    dsimp only [orElse]
    split_ifs
    · apply follows_sound_bind (follows_removeProgress h)
      intro _ w h
      exact h
    · exact h
    · exact follows_reconcile h hsidecar (min_le_left _ _)
    · exact follows_reconcile h hsidecar le_rfl
  · apply follows_sound_bind (follows_removeProgress h)
    intro _ w h
    exact h

theorem follows_program {call : WriteCall} (h : w.SidecarsSound) :
    Follows (uploads permanent) (fun _ => SidecarsSound) (program options call).run w := by
  cases call
  case write ino offset data =>
    apply follows_sound_bind
    · apply follows_sound_bind (follows_staging asks_stageWrite h)
      rintro ⟨dirty, lastFlush⟩ w h
      apply follows_sound_bind (follows_flushIfDue h)
      intro _ w h
      exact h
    · intro _ w h
      exact h
  case chunkedFlush ino => exact follows_chunkedFlush_sound h
  case replayUploadSidecars timeout =>
    have hfrom : ∀ now inos w, w.SidecarsSound →
        Follows (uploads permanent) (fun _ => SidecarsSound) (replayUploadSidecarsFrom timeout now inos).run w := by
      intro now inos
      induction inos with
      | nil => exact fun w h => h
      | cons ino inos ih =>
        intro w h
        apply follows_sound_bind (follows_replayUploadSidecar h)
        intro result w h
        apply follows_sound_bind (ih w h)
        intro results w h
        exact h
    apply follows_sound_bind
    · apply follows_sound_bind (follows_plain (asks_ask (e := .now) trivial) h)
      intro now w h
      apply follows_sound_bind (follows_plain (asks_ask (e := .listSidecars) trivial) h)
      intro inos w h
      exact hfrom now inos w h
    · intro _ w h
      exact h
  case stageWrite ino offset data => exact follows_staging (asks_stageWrite.fallible_bind fun _ => trivial) h
  all_goals exact follows_plain (asks_program trivial) h

end Flush

namespace WritePathService

variable (options : WritePathOptions)

/-- A run of calls, one after the other, from the start. -/
def run (calls : List (WriteCall × List Fate)) : World := calls.foldl (performCall options) {}

theorem sidecarsSound_run (calls : List (WriteCall × List Fate)) : (run options calls).SidecarsSound := by
  have hrun : ∀ w : World, w.SidecarsSound → (calls.foldl (performCall options) w).SidecarsSound := by
    induction calls with
    | nil => exact fun w h => h
    | cons call calls ih =>
      intro w h
      apply ih
      have hcall : Follows (uploads True) (fun _ => World.SidecarsSound) (program options call.1).run w :=
        follows_program h
      exact hcall.exec (fun _ => trivial) fun _ _ _ => trivial
  exact hrun {} World.SidecarsSound.empty

/-- A chunked flush from any state that a run of calls reaches, alone. Where it returns `Ok` it publishes the blob if
the blob still starts with what the session it resumes has acknowledged, and only if, unless the server permanently
refuses that session. -/
theorem chunkedFlush_publishes (calls : List (WriteCall × List Fate)) (ino : Nat) (fates : List Fate)
    (hok : (exec World.perform (chunkedFlush options ino).run fates (run options calls)).1 = .ok ()) :
    let w := run options calls
    let w' := (exec World.perform (chunkedFlush options ino).run fates w).2
    ∃ id parent name content, w.handles.lookup ino = some id ∧
      splitParentName (w.handle id).path = some (parent, name) ∧ w'.blobs = w.blobs ∧
      w'.remote = .saved ino (joinPath parent name) content :: w.remote ∧
      (w.PrefixUnchanged ino (w.handle id).blobName → content = w.blob (w.handle id).blobName) ∧
      ((∀ fate ∈ fates, ¬ fate.IsPermanent) →
        (content = w.blob (w.handle id).blobName ↔ w.PrefixUnchanged ino (w.handle id).blobName)) := by
  intro w w'
  have hspec : Follows (uploads (∃ fate ∈ fates, fate.IsPermanent)) _ (chunkedFlush options ino).run w :=
    follows_chunkedFlush (sidecarsSound_run options calls)
  have hdefault : Fate.IsPermanent default → ∃ fate ∈ fates, fate.IsPermanent := by rintro ⟨_, ⟨⟩⟩
  have hflush := hspec.exec hdefault fun fate hfate hpermanent => ⟨fate, hfate, hpermanent⟩
  rw [hok] at hflush
  obtain ⟨id, parent, name, content, hid, hpath, hcontent, hpublished⟩ := hflush
  refine ⟨id, parent, name, content, hid, hpath, hpublished.blobs, hpublished.remote, ?_, ?_⟩
  · intro hprefix
    rcases hcontent with hcontent | ⟨-, hcontent⟩
    · rw [hcontent, World.assembled_eq_blob_iff.mpr hprefix]
    · exact hcontent
  · intro hfates
    rcases hcontent with hcontent | ⟨⟨fate, hfate, hpermanent⟩, -⟩
    · rw [hcontent, World.assembled_eq_blob_iff]
    · exact absurd hpermanent (hfates fate hfate)

/-- Four bytes in two chunks, the second of which is refused. -/
def interrupted : List (WriteCall × List Fate) :=
  [(.openForWrite 1 "/f" false false, []),
    (.write 1 0 [1, 2, 3, 4], List.replicate 22 .fine ++ [.refused (.upload "refused")])]

def smallChunks : WritePathOptions := { flushThresholdBytes := 1, chunkSizeBytes := 2 }

theorem chunkedFlush_publishes_interrupted :
    (exec World.perform (chunkedFlush smallChunks 1).run [] (run smallChunks interrupted)).1 = .ok () ∧
      ∃ path, (exec World.perform (chunkedFlush smallChunks 1).run [] (run smallChunks interrupted)).2.remote =
        [.saved 1 path [1, 2, 3, 4]] := by
  refine ⟨by decide, ?_⟩
  obtain ⟨id, parent, name, content, hid, -, -, hremote, hcontent, -⟩ :=
    chunkedFlush_publishes smallChunks interrupted 1 [] (by decide)
  obtain rfl : 0 = id := Option.some.inj hid
  refine ⟨joinPath parent name, ?_⟩
  rw [hremote, hcontent]
  · rfl
  · intro progress hprogress
    obtain rfl := Option.some.inj (Option.mem_def.mp hprogress)
    decide

/-- The first byte is written over before the flush that goes on. -/
theorem not_chunkedFlush_publishes_blob :
    ¬ ∀ (options : WritePathOptions) (calls : List (WriteCall × List Fate)) (ino id : Nat) (fates : List Fate),
      let w := run options calls
      let result := exec World.perform (chunkedFlush options ino).run fates w
      w.handles.lookup ino = some id → result.1 = .ok () →
        ∃ path, result.2.remote = .saved ino path (w.blob (w.handle id).blobName) :: w.remote := by
  intro h
  obtain ⟨path, hremote⟩ := h smallChunks (interrupted ++ [(.stageWrite 1 0 [9], [])]) 1 0 [] (by decide) (by decide)
  have hpublished : (exec World.perform (chunkedFlush smallChunks 1).run []
      (run smallChunks (interrupted ++ [(.stageWrite 1 0 [9], [])]))).2.remote = [.saved 1 "/f" [1, 2, 3, 4]] := by
    decide
  rw [hpublished] at hremote
  injection hremote with hsaved
  injection hsaved with _ _ hcontent
  exact absurd hcontent (by decide)

end WritePathService

end Pcloud
