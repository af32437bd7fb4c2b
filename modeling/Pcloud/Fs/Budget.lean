import Mathlib.Algebra.BigOperators.Group.Finset.Basic
import Mathlib.Algebra.Order.Ring.Nat
import Mathlib.Data.Finset.Lattice.Basic
import Pcloud.Fs.WriteCalls

/-!
# The budget of staged bytes (`GLOBAL_STAGING_BYTES` in `pcloud-fs/src/write_path.rs`)

One counter for all services of a process. It is exact if it has what the open handles have counted.
-/

namespace Pcloud

open Program

namespace World

variable (w : World)

/-- What the open handle of an inode has counted. -/
def dirtyOf (ino : Nat) : Nat := (w.handles.lookup ino).elim 0 fun id => (w.handle id).dirtyBytes

def dirtyTotal : Nat := ∑ ino ∈ w.handles.keys.toFinset, w.dirtyOf ino

variable {w} {w' : World} {ino id : Nat}

theorem dirtyOf_of_notMem (h : ino ∉ w.handles.keys.toFinset) : w.dirtyOf ino = 0 := by
  rw [List.mem_toFinset, ← AList.mem_keys, ← AList.lookup_eq_none] at h
  rw [dirtyOf, h]
  rfl

theorem dirtyOf_of_open (h : w.handles.lookup ino = some id) : w.dirtyOf ino = (w.handle id).dirtyBytes := by
  rw [dirtyOf, h]
  rfl

theorem dirtyTotal_eq_sum {inos : Finset Nat} (h : w.handles.keys.toFinset ⊆ inos) :
    w.dirtyTotal = ∑ ino ∈ inos, w.dirtyOf ino :=
  Finset.sum_subset h fun _ _ hclosed => dirtyOf_of_notMem hclosed

theorem dirtyTotal_update {dirty : Nat} (hself : w'.dirtyOf ino = dirty)
    (hother : ∀ ino' ≠ ino, w'.dirtyOf ino' = w.dirtyOf ino') :
    w'.dirtyTotal + w.dirtyOf ino = w.dirtyTotal + dirty := by
  let inos := insert ino (w.handles.keys.toFinset ∪ w'.handles.keys.toFinset)
  have hino : ino ∈ inos := Finset.mem_insert_self ..
  have hw : w.handles.keys.toFinset ⊆ inos :=
    Finset.subset_union_left.trans (Finset.subset_insert ..)
  have hw' : w'.handles.keys.toFinset ⊆ inos :=
    Finset.subset_union_right.trans (Finset.subset_insert ..)
  have hrest : ∑ ino' ∈ inos.erase ino, w'.dirtyOf ino' = ∑ ino' ∈ inos.erase ino, w.dirtyOf ino' :=
    Finset.sum_congr rfl fun ino' hino' => hother ino' (Finset.ne_of_mem_erase hino')
  rw [dirtyTotal_eq_sum hw, dirtyTotal_eq_sum hw', ← Finset.add_sum_erase inos _ hino,
    ← Finset.add_sum_erase inos w.dirtyOf hino, hrest, hself]
  omega

theorem dirtyOf_le : w.dirtyOf ino ≤ w.dirtyTotal := by
  by_cases h : ino ∈ w.handles.keys.toFinset
  · rw [dirtyTotal, ← Finset.add_sum_erase _ w.dirtyOf h]
    exact Nat.le_add_right ..
  · rw [dirtyOf_of_notMem h]
    exact Nat.zero_le _

theorem dirtyTotal_congr (h : ∀ ino, w'.dirtyOf ino = w.dirtyOf ino) : w'.dirtyTotal = w.dirtyTotal := by
  have hupdate := dirtyTotal_update (h 0) fun ino _ => h ino
  omega

end World

namespace Budgeting

open World

/-! ## Effects -/

/-- What neither counts nor opens, closes or renames a handle. -/
def Idle : Effect → Prop
  | .insertHandle _ _ | .removeHandle _ | .setDirty _ _ | .resetDirty _ _ _ | .releaseHandle _ _ | .renamePaths _ _
  | .fetchAdd _ | .fetchSub _ => False
  | _ => True

/-- What holds of the counters in any run, leaks or not. -/
structure Wf (w : World) : Prop where
  sound : w.Sound
  bound : w.globalStagingBytes ≤ usizeMax

/-- The process counter has what the open handles have counted, and what those of other services have. -/
def Exact (rest : Nat) (w : World) : Prop := w.globalStagingBytes = w.dirtyTotal + rest

/-- The counters as they were. -/
structure SameCounters (w w' : World) : Prop where
  total : w'.globalStagingBytes = w.globalStagingBytes
  dirty : ∀ ino, w'.dirtyOf ino = w.dirtyOf ino

section Step

variable {w w' : World} {e : Effect} {fate : Fate} {ino id rest : Nat}

theorem SameCounters.refl (w : World) : SameCounters w w := ⟨rfl, fun _ => rfl⟩

theorem SameCounters.trans {w'' : World} (h : SameCounters w w') (h' : SameCounters w' w'') : SameCounters w w'' :=
  ⟨h'.total.trans h.total, fun ino => (h'.dirty ino).trans (h.dirty ino)⟩

theorem SameCounters.exact_iff (h : SameCounters w w') : Exact rest w' ↔ Exact rest w := by
  rw [Exact, Exact, h.total, dirtyTotal_congr h.dirty]

theorem perform_idle (w : World) (fate : Fate) (h : Idle e) : (w.perform e fate).2.handles = w.handles ∧
    (w.perform e fate).2.heap = w.heap ∧ (w.perform e fate).2.globalStagingBytes = w.globalStagingBytes := by
  cases e
  case readBlobAt => simp [World.perform_readBlobAt]
  all_goals first | exact h.elim | skip
  all_goals
    simp only [World.perform, World.unlessRefused, World.unlessDisk, World.setBlob]
    repeat' split
    all_goals simp

theorem sameCounters_idle (w : World) (fate : Fate) (h : Idle e) : SameCounters w (w.perform e fate).2 := by
  obtain ⟨hhandles, hheap, htotal⟩ := perform_idle w fate h
  refine ⟨htotal, fun ino => ?_⟩
  simp only [dirtyOf, World.handle, hhandles, hheap]

theorem Wf.step (h : Wf w) (fate : Fate) (hnamed : ∀ ino handle, e = .insertHandle ino handle → handle.blobName = ino) :
    Wf (w.perform e fate).2 where
  sound := h.sound.step fate hnamed
  bound := by
    have hrelease : ∀ maxGlobal dirty, (w.releaseBytes maxGlobal dirty).globalStagingBytes ≤ w.globalStagingBytes := by
      intro maxGlobal dirty
      unfold World.releaseBytes
      split <;> simp
    cases e
    case fetchAdd n =>
      simp only [World.perform, usizeMax]
      omega
    case fetchSub n =>
      simp only [World.perform, usizeMax]
      omega
    case resetDirty id maxGlobal now => exact (hrelease _ _).trans h.bound
    case releaseHandle ino maxGlobal =>
      simp only [World.perform]
      split
      · exact (hrelease _ _).trans h.bound
      · exact h.bound
    case insertHandle => exact h.bound
    case removeHandle => exact h.bound
    case setDirty => exact h.bound
    case renamePaths => exact h.bound
    all_goals
      rw [(perform_idle w fate (by trivial)).2.2]
      exact h.bound

theorem releaseBytes_exact (h : Wf w) (hexact : Exact rest w) {maxGlobal : Nat} (hmax : maxGlobal < usizeMax) (ino : Nat) :
    (w.releaseBytes maxGlobal (w.dirtyOf ino)).globalStagingBytes + w.dirtyOf ino = w.globalStagingBytes := by
  have hbound := h.bound
  have hle : w.dirtyOf ino ≤ w.dirtyTotal := dirtyOf_le
  rw [Exact] at hexact
  unfold World.releaseBytes
  split
  · simp only
    omega
  · omega

theorem exact_update {dirty : Nat} (hself : w'.dirtyOf ino = dirty)
    (hother : ∀ ino' ≠ ino, w'.dirtyOf ino' = w.dirtyOf ino') (hexact : Exact rest w) :
    Exact rest w' ↔ w'.globalStagingBytes + w.dirtyOf ino = w.globalStagingBytes + dirty := by
  have htotal := dirtyTotal_update hself hother
  rw [Exact] at hexact ⊢
  omega

theorem dirtyOf_setHandle (h : w.Sound) (hopen : w.handles.lookup ino = some id) (handle : WriteHandle) :
    (w.setHandle id handle).dirtyOf ino = handle.dirtyBytes ∧
      ∀ ino' ≠ ino, (w.setHandle id handle).dirtyOf ino' = w.dirtyOf ino' := by
  constructor
  · rw [dirtyOf_of_open (w := w.setHandle id handle) hopen, handle_setHandle_self w id (h.range ino id hopen)]
  · intro ino' hino
    show (w.handles.lookup ino').elim 0 _ = (w.handles.lookup ino').elim 0 _
    rcases hopen' : w.handles.lookup ino' with _ | id'
    · rfl
    · have hne : id' ≠ id := by
        rintro rfl
        exact hino ((h.named ino' id' hopen').symm.trans (h.named ino id' hopen))
      simp only [Option.elim, handle_setHandle_of_ne w id' hne]

theorem exact_resetDirty (h : Wf w) (hexact : Exact rest w) (hopen : w.handles.lookup ino = some id) {maxGlobal : Nat}
    (hmax : maxGlobal < usizeMax) (now : Nat) : Exact rest (w.perform (.resetDirty id maxGlobal now) fate).2 := by
  have hrelease := releaseBytes_exact h hexact hmax ino
  rw [dirtyOf_of_open hopen] at hrelease
  let released := w.releaseBytes maxGlobal (w.handle id).dirtyBytes
  have hreleased : ∀ ino', released.dirtyOf ino' = w.dirtyOf ino' := by
    intro ino'
    simp only [released, dirtyOf, World.handle, releaseBytes_handles, releaseBytes_heap]
  have hsound : released.Sound := by
    constructor
    · simpa [released] using h.sound.range
    · simpa [released, World.handle] using h.sound.named
  have hopen' : released.handles.lookup ino = some id := by simpa [released] using hopen
  obtain ⟨hself, hother⟩ := dirtyOf_setHandle hsound hopen' { w.handle id with dirtyBytes := 0, lastFlush := now }
  have hother' : ∀ ino' ≠ ino, (w.perform (.resetDirty id maxGlobal now) fate).2.dirtyOf ino' = w.dirtyOf ino' :=
    fun ino' hino => (hother ino' hino).trans (hreleased ino')
  apply (exact_update hself hother' hexact).mpr
  rw [dirtyOf_of_open hopen]
  exact hrelease

theorem dirtyOf_close (hhandles : w'.handles = w.handles.erase ino) (hheap : w'.heap = w.heap) :
    w'.dirtyOf ino = 0 ∧ ∀ ino' ≠ ino, w'.dirtyOf ino' = w.dirtyOf ino' := by
  constructor
  · simp [dirtyOf, hhandles]
  · intro ino' hino
    simp only [dirtyOf, World.handle, hhandles, hheap, AList.lookup_erase_ne hino]

theorem exact_releaseHandle (h : Wf w) (hexact : Exact rest w) {maxGlobal : Nat} (hmax : maxGlobal < usizeMax) :
    Exact rest (w.perform (.releaseHandle ino maxGlobal) fate).2 := by
  have hrelease := releaseBytes_exact h hexact hmax ino
  have hclosed : ∀ released : World, released.heap = w.heap →
      released.globalStagingBytes + w.dirtyOf ino = w.globalStagingBytes →
      Exact rest { released with handles := w.handles.erase ino } := by
    intro released hheap hreleased
    obtain ⟨hself, hother⟩ := @dirtyOf_close w { released with handles := w.handles.erase ino } ino rfl hheap
    exact (exact_update hself hother hexact).mpr hreleased
  rcases hopen : w.handles.lookup ino with _ | id
  · simp only [World.perform, hopen]
    apply hclosed w rfl
    simp [dirtyOf, hopen]
  · simp only [World.perform, hopen]
    rw [dirtyOf_of_open hopen] at hrelease
    apply hclosed _ (releaseBytes_heap ..)
    rwa [dirtyOf_of_open hopen]

end Step

/-! ## Calls -/

section Calls

open WritePathService

variable {options : WritePathOptions} {w : World} {ino rest : Nat}

/-- The counters are exact, whatever else. -/
def Balanced (rest : Nat) (w : World) : Prop := Wf w ∧ Exact rest w

theorem Balanced.idle (h : Balanced rest w) {e : Effect} (he : Idle e) (fate : Fate) :
    Balanced rest (w.perform e fate).2 := by
  refine ⟨h.1.step fate ?_, (sameCounters_idle w fate he).exact_iff.mpr h.2⟩
  rintro ino handle rfl
  exact he.elim

theorem flushRule (hmax : options.maxGlobalStagingBytes < usizeMax) :
    FlushRule anyFate options ino (Balanced rest) fun id w => Balanced rest w ∧ w.handles.lookup ino = some id where
  get w h := by
    refine ⟨trivial, ?_⟩
    rintro ans _ ⟨fate, -, ⟨⟩⟩
    exact ⟨h, fun id hopen => ⟨h, hopen⟩⟩
  between id w e h he := by
    refine ⟨trivial, ?_⟩
    have hidle : Idle e := by
      cases e <;> first | exact he.elim | trivial
    rintro ans _ ⟨fate, -, hperform⟩
    obtain rfl := (congrArg Prod.snd hperform).symm
    refine ⟨h.1.idle hidle fate, ?_⟩
    rw [(perform_idle w fate hidle).1, h.2]
  reset id w now h := by
    refine ⟨trivial, ?_⟩
    rintro ans _ ⟨fate, -, hperform⟩
    obtain rfl := (congrArg Prod.snd hperform).symm
    exact ⟨h.1.1.step fate (by simp), exact_resetDirty h.1.1 h.1.2 h.2 hmax now⟩
  clock w h := by
    refine ⟨trivial, ?_⟩
    rintro ans _ ⟨fate, -, hperform⟩
    obtain rfl := (congrArg Prod.snd hperform).symm
    exact h.idle (e := .now) trivial fate
  weaken id w h := h.1

theorem follows_release (hmax : options.maxGlobalStagingBytes < usizeMax) (h : Balanced rest w) :
    Follows anyFate (fun _ => Balanced rest) (release options ino).run w := by
  apply follows_perform_effects.mpr
  intro fate _
  exact ⟨h.1.step fate (by simp), exact_releaseHandle h.1 h.2 hmax⟩

/-! ### What leaks -/

/-- An open that does not get to its handle. -/
def OpenFails (w : World) (ino : Nat) (oTrunc : Bool) (fates : List Fate) : Prop :=
  if oTrunc then ∃ reached, fates.headI = .disk reached
  else w.blobs ino = none ∧ ∃ reached, fates.tail.headI = .disk reached

/-- Where a write of a handle goes, and the fates that are left then. -/
def target (w : World) (handle : WriteHandle) (offset : Nat) (fates : List Fate) : Nat × List Fate :=
  if handle.appendMode then ((w.perform (.blobLen handle.blobName) fates.headI).1.getD 0, fates.tail)
  else (offset, fates)

/-- The bytes of a write are within the ceilings. -/
def Fits (options : WritePathOptions) (w : World) (offset len : Nat) : Prop :=
  ¬ (options.maxStagingBytes < usizeMax ∧ satAdd offset len > options.maxStagingBytes) ∧
    ¬ satAdd w.globalStagingBytes len > options.maxGlobalStagingBytes

/-- The bytes of a write are within the ceilings, and then the blob or the journal can not be written. -/
def WriteFails (options : WritePathOptions) (w : World) (ino offset : Nat) (data : Bytes) (fates : List Fate) : Prop :=
  ∃ id, w.handles.lookup ino = some id ∧
    let staged := target w (w.handle id) offset fates.tail.tail
    Fits options w staged.1 data.length ∧
    ((∃ reached, staged.2.tail.headI = .disk reached) ∨ ∃ failure, staged.2.tail.tail.headI = .append failure)

/-- A counter goes with its handle, or bytes stay counted that no handle has. -/
def Leaks (options : WritePathOptions) (w : World) (call : WriteCall) (fates : List Fate) : Prop :=
  match call with
  | .openForWrite ino _ _ oTrunc => 0 < w.dirtyOf ino ∧ ¬ OpenFails w ino oTrunc fates
  | .write ino offset data => data ≠ [] ∧ WriteFails options w ino offset data fates
  | .unlink (some ino) _ => 0 < w.dirtyOf ino ∧ ∀ failure, fates.headI ≠ .append failure
  | _ => False

/-! ### What a call does -/

abbrev script : Protocol (List Fate × World) Effect Effect.Answer := scripted World.perform

theorem exact_insertHandle (h : Balanced rest w) {handle : WriteHandle} (hdirty : handle.dirtyBytes = 0) (fate : Fate) :
    Exact rest (w.perform (.insertHandle ino handle) fate).2 ↔ w.dirtyOf ino = 0 := by
  have hself : (w.perform (.insertHandle ino handle) fate).2.dirtyOf ino = 0 := by
    simp [World.perform, dirtyOf, World.handle, hdirty]
  have hother : ∀ ino' ≠ ino, (w.perform (.insertHandle ino handle) fate).2.dirtyOf ino' = w.dirtyOf ino' := by
    intro ino' hino
    simp only [World.perform, dirtyOf, AList.lookup_insert_ne hino]
    rcases hopen : w.handles.lookup ino' with _ | id
    · rfl
    · have hid := h.1.sound.range ino' id hopen
      simp [World.handle, List.getD_eq_getElem?_getD, List.getElem?_append_left hid]
  rw [exact_update hself hother h.2]
  simp [World.perform]

variable (ino) in
theorem exact_removeHandle (h : Exact rest w) (fate : Fate) :
    Exact rest (w.perform (.removeHandle ino) fate).2 ↔ w.dirtyOf ino = 0 := by
  obtain ⟨hself, hother⟩ := @dirtyOf_close w (w.perform (.removeHandle ino) fate).2 ino rfl rfl
  rw [exact_update hself hother h]
  simp [World.perform]

theorem follows_openForWrite (h : Balanced rest w) (path : String) (appendMode oTrunc : Bool) (fates : List Fate) :
    Follows script (fun _ s => Exact rest s.2 ↔ ¬ (0 < w.dirtyOf ino ∧ ¬ OpenFails w ino oTrunc fates))
      (openForWrite ino path appendMode oTrunc).run (fates, w) := by
  have hinsert : ∀ w' fates', SameCounters w w' → Balanced rest w' → ¬ OpenFails w ino oTrunc fates →
      Follows script (fun _ s => Exact rest s.2 ↔ ¬ (0 < w.dirtyOf ino ∧ ¬ OpenFails w ino oTrunc fates)) (do
        let now ← ask .now
        ask (.insertHandle ino { path, blobName := ino, dirtyBytes := 0, lastFlush := now, appendMode }) :
          WriteProg Unit).run (fates', w') := by
    intro w' fates' hsame h' hopens
    refine follows_scripted_op.mpr (follows_scripted_op.mpr ?_)
    show Exact rest (w'.perform (.insertHandle ino _) fates'.tail.headI).2 ↔ _
    rw [exact_insertHandle h' rfl, hsame.dirty]
    simp [hopens]
  unfold openForWrite
  split
  next htrunc =>
    refine follows_scripted_op.mpr ?_
    have hidle : Idle (.truncateBlob ino 0) := trivial
    have hsame := sameCounters_idle w fates.headI hidle
    have h' := h.idle hidle fates.headI
    rcases w.unlessDisk_cases fates.headI ino (fun n => if n = 0 then w.blob ino else setLen (w.blob ino) 0)
      (.ok (), w.setBlob ino (some (setLen (w.blob ino) 0))) with ⟨hdisk, herror⟩ | ⟨hdisk, hok⟩
    · have hans : (w.perform (.truncateBlob ino 0) fates.headI).1 = .error .staging := herror
      rw [hans]
      exact iff_of_true h'.2 fun hleak => hleak.2 (by rw [OpenFails, if_pos htrunc]; exact hdisk)
    · have hans : (w.perform (.truncateBlob ino 0) fates.headI).1 = .ok () := congrArg Prod.fst hok
      rw [hans]
      exact hinsert _ _ hsame h' (by rw [OpenFails, if_pos htrunc]; exact hdisk)
  next htrunc =>
    refine follows_scripted_op.mpr ?_
    have hworld : (w.perform (.blobExists ino) fates.headI).2 = w := rfl
    rcases hblob : w.blobs ino with _ | blob
    · have hans : (w.perform (.blobExists ino) fates.headI).1 = false := by simp [World.perform, hblob]
      rw [hans]
      refine follows_scripted_op.mpr ?_
      have hidle : Idle (.writeBlobFull ino []) := trivial
      have hsame := sameCounters_idle w fates.tail.headI hidle
      have h' := h.idle hidle fates.tail.headI
      rcases w.unlessDisk_cases fates.tail.headI ino (fun n => ([] : Bytes).take n)
        (.ok (), w.setBlob ino (some [])) with ⟨hdisk, herror⟩ | ⟨hdisk, hok⟩
      · have hans : (w.perform (.writeBlobFull ino []) fates.tail.headI).1 = .error .staging := herror
        rw [hworld, hans]
        exact iff_of_true h'.2 fun hleak => hleak.2 (by rw [OpenFails, if_neg htrunc]; exact ⟨hblob, hdisk⟩)
      · have hans : (w.perform (.writeBlobFull ino []) fates.tail.headI).1 = .ok () := congrArg Prod.fst hok
        rw [hworld, hans]
        exact hinsert _ _ hsame h' (by rw [OpenFails, if_neg htrunc]; exact fun hfails => hdisk hfails.2)
    · have hans : (w.perform (.blobExists ino) fates.headI).1 = true := by simp [World.perform, hblob]
      rw [hans]
      exact hinsert w _ (.refl w) h (by rw [OpenFails, if_neg htrunc, hblob]; simp)

theorem follows_unlink (h : Balanced rest w) (path : String) (fates : List Fate) :
    Follows script (fun _ s => Exact rest s.2 ↔ ¬ (0 < w.dirtyOf ino ∧ ∀ failure, fates.headI ≠ .append failure))
      (unlink (some ino) path).run (fates, w) := by
  refine follows_scripted_op.mpr ?_
  have hidle : Idle (.journalAppend (.unlink path)) := trivial
  have hsame := sameCounters_idle w fates.headI hidle
  have h' := h.idle hidle fates.headI
  rcases w.journalAppend_cases fates.headI (.unlink path) with ⟨⟨failure, hfate⟩, hans⟩ | ⟨hfate, seq, hans⟩
  · rw [hans]
    exact iff_of_true h'.2 fun hleak => hleak.2 failure hfate
  · rw [hans]
    generalize (w.perform (.journalAppend (.unlink path)) fates.headI).2 = w₁ at hsame h'
    refine follows_scripted_op.mpr (follows_scripted_op.mpr (follows_scripted_op.mpr ?_))
    have hremoved : Idle (.removeBlob ino) := trivial
    have hsame' := sameCounters_idle w₁ fates.tail.headI hremoved
    have h'' := h'.idle hremoved fates.tail.headI
    generalize (w₁.perform (.removeBlob ino) fates.tail.headI).2 = w₂ at hsame' h''
    refine Iff.trans (sameCounters_idle _ _ (e := .unlinkRemote path) trivial).exact_iff ?_
    refine Iff.trans (exact_removeHandle ino h''.2 _) ?_
    rw [hsame'.dirty, hsame.dirty]
    have hnot : ∀ failure, fates.headI ≠ .append failure := fun failure heq => hfate ⟨failure, heq⟩
    simp [hnot]

/-! ### A write -/

/-- The bytes of a write are in the process counter, and not in that of the handle yet. -/
structure Reserved (n : Nat) (w w' : World) : Prop where
  wf : Wf w'
  handles : w'.handles = w.handles
  total : w'.globalStagingBytes = w.globalStagingBytes + n
  dirty : ∀ ino, w'.dirtyOf ino = w.dirtyOf ino

theorem Reserved.idle {w' : World} {n : Nat} (h : Reserved n w w') {e : Effect} (he : Idle e) (fate : Fate) :
    Reserved n w (w'.perform e fate).2 where
  wf := by
    apply h.wf.step
    rintro ino handle rfl
    exact he.elim
  handles := (perform_idle w' fate he).1.trans h.handles
  total := (sameCounters_idle w' fate he).total.trans h.total
  dirty ino := ((sameCounters_idle w' fate he).dirty ino).trans (h.dirty ino)

theorem Reserved.exact_iff {w' : World} {n : Nat} (h : Reserved n w w') (hexact : Exact rest w) :
    Exact rest w' ↔ n = 0 := by
  have htotal := h.total
  have hdirty := dirtyTotal_congr h.dirty
  rw [Exact] at hexact ⊢
  omega

theorem Reserved.setDirty {w' : World} {n id : Nat} (h : Reserved n w w') (hexact : Exact rest w)
    (hopen : w.handles.lookup ino = some id) (fate : Fate) :
    Balanced rest (w'.perform (.setDirty id (satAdd (w.handle id).dirtyBytes n)) fate).2 := by
  refine ⟨h.wf.step fate (by simp), ?_⟩
  have hopen' : w'.handles.lookup ino = some id := by rw [h.handles, hopen]
  have hdirty := h.dirty ino
  rw [dirtyOf_of_open hopen] at hdirty
  have hsat : satAdd (w.handle id).dirtyBytes n = w'.dirtyOf ino + n := by
    have hle : w.dirtyOf ino ≤ w.dirtyTotal := dirtyOf_le
    have hbound := h.wf.bound
    have htotal := h.total
    rw [dirtyOf_of_open hopen] at hle
    rw [Exact] at hexact
    simp only [satAdd, u64Max, usizeMax] at hbound ⊢
    omega
  obtain ⟨hself, hother⟩ := dirtyOf_setHandle h.wf.sound hopen'
    { w'.handle id with dirtyBytes := satAdd (w.handle id).dirtyBytes n }
  have htotal := dirtyTotal_update hself hother
  have hsame := dirtyTotal_congr h.dirty
  have hreserved := h.total
  rw [Exact] at hexact ⊢
  show w'.globalStagingBytes = (w'.setHandle id _).dirtyTotal + rest
  simp only [hsat] at htotal ⊢
  omega

theorem follows_effectiveOffset (handle : WriteHandle) (offset : Nat) (fates : List Fate) :
    Follows script (fun result s => result = .ok (target w handle offset fates).1 ∧
      s = ((target w handle offset fates).2, w)) (effectiveOffset handle offset).run (fates, w) := by
  unfold effectiveOffset target
  split
  · refine follows_scripted_op.mpr ⟨rfl, ?_⟩
    simp only [World.perform]
    split <;> rfl
  · exact ⟨rfl, rfl⟩

theorem follows_checkCeilings (hmax : options.maxGlobalStagingBytes < usizeMax) (h : Wf w) (offset : Nat) (data : Bytes)
    (fates : List Fate) :
    Follows script (fun result s => (∃ error, result = .error error) ∧ ¬ Fits options w offset data.length ∧ s.2 = w ∨
      result = .ok () ∧ Fits options w offset data.length ∧ s.1 = fates.tail ∧ Reserved data.length w s.2)
      (checkCeilings options offset data).run (fates, w) := by
  have hbound := h.bound
  rw [checkCeilings_eq, if_pos hmax]
  split
  next hstaging => exact .inl ⟨⟨_, rfl⟩, fun hfits => hfits.1 hstaging, rfl⟩
  next hstaging =>
    refine follows_scripted_op.mpr ?_
    show Follows script _ (ExceptT.run (ite (satAdd w.globalStagingBytes data.length > _) _ _)) _
    split
    next hglobal =>
      refine follows_scripted_op.mpr (.inl ⟨⟨_, rfl⟩, fun hfits => hfits.2 hglobal, ?_⟩)
      simp only [World.perform, usizeMax] at hbound ⊢
      congr 1
      omega
    next hglobal =>
      refine .inr ⟨rfl, ⟨hstaging, hglobal⟩, rfl, ?_⟩
      have hfit : w.globalStagingBytes + data.length < 2 ^ 64 := by
        simp only [satAdd, u64Max, usizeMax] at hglobal hmax
        omega
      refine ⟨h.step _ (by simp), rfl, Nat.mod_eq_of_lt hfit, fun ino => rfl⟩

theorem follows_staged {w' : World} {id : Nat} {data : Bytes} (hexact : Exact rest w)
    (hopen : w.handles.lookup ino = some id) (hreserved : Reserved data.length w w') (offset : Nat) (fates : List Fate) :
    let fails := (∃ reached, fates.headI = .disk reached) ∨ ∃ failure, fates.tail.headI = .append failure
    Follows script (fun result s => (∃ error, result = .error error) ∧ fails ∧ Reserved data.length w s.2 ∨
        (∃ a, result = .ok a) ∧ ¬ fails ∧ Balanced rest s.2) (do
      attempt (effect (.writeBlobAt (w.handle id).blobName offset data))
      let _ ← attempt (effect (.journalAppend
        (.write (w.handle id).path offset data.length (w.handle id).blobName)))
      let dirty := satAdd (w.handle id).dirtyBytes data.length
      ask (.setDirty id dirty)
      return (dirty, (w.handle id).lastFlush) : WriteProg (Nat × Nat)).run (fates, w') := by
  intro fails
  generalize hblobName : (w.handle id).blobName = blobName
  refine follows_scripted_op.mpr ?_
  have hblob := hreserved.idle (e := .writeBlobAt blobName offset data) trivial fates.headI
  rcases w'.unlessDisk_cases fates.headI blobName (fun n => writeAt (w'.blob blobName) offset (data.take n))
    (.ok (), w'.setBlob blobName (some (writeAt (w'.blob blobName) offset data))) with ⟨hdisk, hans⟩ | ⟨hdisk, hok⟩
  · replace hans : (w'.perform (.writeBlobAt blobName offset data) fates.headI).1 = .error .staging := hans
    rw [hans]
    exact .inl ⟨⟨_, rfl⟩, .inl hdisk, hblob⟩
  have hans : (w'.perform (.writeBlobAt blobName offset data) fates.headI).1 = .ok () := congrArg Prod.fst hok
  rw [hans]
  refine follows_scripted_op.mpr ?_
  generalize (w'.perform (.writeBlobAt blobName offset data) fates.headI).2 = w₂ at hblob
  let record : JournalOp := .write (w.handle id).path offset data.length blobName
  have hjournal := hblob.idle (e := .journalAppend record) trivial fates.tail.headI
  rcases w₂.journalAppend_cases fates.tail.headI record with ⟨hfailure, hans⟩ | ⟨hfailure, seq, hans⟩
  · rw [hans]
    exact .inl ⟨⟨_, rfl⟩, .inr hfailure, hjournal⟩
  · rw [hans]
    have hdirty := hjournal.setDirty hexact hopen fates.tail.tail.headI
    exact follows_scripted_op.mpr (.inr ⟨⟨_, rfl⟩, not_or.mpr ⟨hdisk, hfailure⟩, hdirty⟩)

theorem follows_stageWrite (hmax : options.maxGlobalStagingBytes < usizeMax) (h : Balanced rest w) (offset : Nat)
    (data : Bytes) (fates : List Fate) :
    Follows script (fun result s =>
        (∃ error, result = .error error) ∧
            (Exact rest s.2 ↔ ¬ (data ≠ [] ∧ WriteFails options w ino offset data fates)) ∨
          (∃ a, result = .ok a) ∧ Balanced rest s.2 ∧ ¬ WriteFails options w ino offset data fates)
      (stageWrite options ino offset data).run (fates, w) := by
  refine follows_scripted_op.mpr ?_
  rcases hopen : w.handles.lookup ino with _ | id
  · have hans : (w.perform (.getHandle ino) fates.headI).1 = none := hopen
    rw [hans]
    refine .inl ⟨⟨_, rfl⟩, iff_of_true h.2 ?_⟩
    rintro ⟨-, id, hid, -⟩
    rw [hopen] at hid
    cases hid
  have hans : (w.perform (.getHandle ino) fates.headI).1 = some id := hopen
  rw [hans]
  refine follows_scripted_op.mpr ?_
  show Follows script _ (ExceptT.run (effectiveOffset (w.handle id) offset >>= _)) (fates.tail.tail, w)
  rw [follows_fallible_bind]
  apply (follows_effectiveOffset (w.handle id) offset fates.tail.tail).mono
  rintro _ _ ⟨rfl, rfl⟩
  show Follows script _ (ExceptT.run (checkCeilings options _ data >>= _)) _
  rw [follows_fallible_bind]
  have hfails : WriteFails options w ino offset data fates ↔
      Fits options w (target w (w.handle id) offset fates.tail.tail).1 data.length ∧
        ((∃ reached, (target w (w.handle id) offset fates.tail.tail).2.tail.headI = .disk reached) ∨
          ∃ failure, (target w (w.handle id) offset fates.tail.tail).2.tail.tail.headI = .append failure) := by
    simp only [WriteFails, hopen, Option.some.injEq, exists_eq_left']
  generalize target w (w.handle id) offset fates.tail.tail = staged at hfails
  obtain ⟨offset', fates'⟩ := staged
  apply (follows_checkCeilings hmax h.1 offset' data fates').mono
  rintro _ ⟨_, w'⟩ (⟨⟨error, rfl⟩, hfits, rfl⟩ | ⟨rfl, hfits, rfl, hreserved⟩)
  · exact .inl ⟨⟨_, rfl⟩, iff_of_true h.2 fun hleak => hfits (hfails.mp hleak.2).1⟩
  apply (follows_staged h.2 hopen hreserved offset' fates'.tail).mono
  rintro _ ⟨_, w''⟩ (⟨⟨error, rfl⟩, hfailed, hreserved'⟩ | ⟨⟨a, rfl⟩, hstaged, hbalanced⟩)
  · refine .inl ⟨⟨_, rfl⟩, ?_⟩
    rw [hreserved'.exact_iff h.2]
    simp [hfails.mpr ⟨hfits, hfailed⟩]
  · exact .inr ⟨⟨_, rfl⟩, hbalanced, fun hfail => hstaged (hfails.mp hfail).2⟩

theorem follows_write (hmax : options.maxGlobalStagingBytes < usizeMax) (h : Balanced rest w) (offset : Nat)
    (data : Bytes) (fates : List Fate) :
    Follows script (fun _ s => Exact rest s.2 ↔ ¬ (data ≠ [] ∧ WriteFails options w ino offset data fates))
      (write options ino offset data).run (fates, w) := by
  rw [write, follows_fallible_bind]
  apply (follows_stageWrite hmax h offset data fates).mono
  rintro _ ⟨fates', w'⟩ (⟨⟨error, rfl⟩, hexact⟩ | ⟨⟨⟨dirty, lastFlush⟩, rfl⟩, hbalanced, hstaged⟩)
  · exact hexact
  · have hdone : ∀ w', Balanced rest w' →
        (Exact rest w' ↔ ¬ (data ≠ [] ∧ WriteFails options w ino offset data fates)) :=
      fun w' h' => iff_of_true h'.2 fun hleak => hstaged hleak.2
    show Follows script _ (ExceptT.run (flushIfDue options ino dirty lastFlush >>= _)) _
    rw [follows_fallible_bind]
    have hflush : Follows anyFate (fun _ => Balanced rest) (flushIfDue options ino dirty lastFlush).run w' :=
      (flushRule hmax).follows_flushIfDue hbalanced
    apply (hflush.scripted fates').mono
    rintro (error | ⟨⟩) ⟨_, w''⟩ h''
    · exact hdone w'' h''
    · exact hdone w'' h''

/-- The calls of the budget. -/
def IsBudgeted : WriteCall → Prop
  | .openForWrite _ _ _ _ | .write _ _ _ | .flush _ | .chunkedFlush _ | .unlink _ _ | .release _ => True
  | _ => False

theorem exact_performCall (hmax : options.maxGlobalStagingBytes < usizeMax) (h : Balanced rest w) {call : WriteCall}
    (hcall : IsBudgeted call) (fates : List Fate) :
    Exact rest (performCall options w (call, fates)) ↔ ¬ Leaks options w call fates := by
  have hkept : ∀ {p : WriteProg Unit}, Follows anyFate (fun _ => Balanced rest) p.run w →
      Exact rest (exec World.perform p.run fates w).2 :=
    fun hp => ((hp.scripted fates).exec_scripted fun _ w => Balanced rest w).2
  cases call with
  | openForWrite ino path appendMode oTrunc =>
    exact (follows_openForWrite h path appendMode oTrunc fates).exec_scripted fun _ w' => Exact rest w' ↔ _
  | write ino offset data =>
    have hwrite : Follows script (fun _ s => Exact rest s.2 ↔ ¬ (data ≠ [] ∧ WriteFails options w ino offset data fates))
        (program options (.write ino offset data)).run (fates, w) := by
      rw [program, follows_fallible_bind]
      apply (follows_write hmax h offset data fates).mono
      rintro (error | n) s hs
      · exact hs
      · exact hs
    exact hwrite.exec_scripted fun _ w' => Exact rest w' ↔ _
  | flush ino => exact iff_of_true (hkept ((flushRule hmax).follows_flush h)) id
  | chunkedFlush ino => exact iff_of_true (hkept ((flushRule hmax).follows_chunkedFlush h)) id
  | unlink ino path =>
    rcases ino with _ | ino
    · have hasks : Asks Idle (unlink none path).run := by
        apply Asks.fallible_bind (asks_attempt (asks_perform.mpr trivial))
        intro _
        exact asks_attempt (asks_perform.mpr trivial)
      exact iff_of_true (hkept (hasks.keeps (fun w e fate he h => h.idle he fate) h)) id
    · exact (follows_unlink h path fates).exec_scripted fun _ w' => Exact rest w' ↔ _
  | release ino => exact iff_of_true (hkept (follows_release hmax h)) id
  | _ => exact hcall.elim

/-! ### What holds in any case -/

/-- What leaves the process counter alone, or releases. What opens a handle names it after its inode. -/
def Tame : Effect → Prop
  | .fetchAdd _ | .fetchSub _ => False
  | .insertHandle ino handle => handle.blobName = ino
  | _ => True

theorem tame_of_plain {e : Effect} (h : e.Plain) : Tame e := by
  cases e <;> first | exact h.1 | exact h.elim | trivial

theorem tame_of_unstaged {e : Effect} (h : e.Unstaged) : Tame e := by
  cases e <;> first | exact h.1 | exact h.elim | trivial

/-- The process counter is under the ceiling. -/
def Capped (ceiling : Nat) (w : World) : Prop := Wf w ∧ w.globalStagingBytes ≤ ceiling

theorem Capped.tame {ceiling : Nat} (h : Capped ceiling w) {e : Effect} (he : Tame e) (fate : Fate) :
    Capped ceiling (w.perform e fate).2 := by
  have hrelease : ∀ maxGlobal dirty, (w.releaseBytes maxGlobal dirty).globalStagingBytes ≤ ceiling := by
    intro maxGlobal dirty
    have hceiling := h.2
    unfold World.releaseBytes
    split
    · simp only
      omega
    · exact hceiling
  refine ⟨h.1.step fate ?_, ?_⟩
  · rintro ino handle rfl
    exact he
  · cases e
    case resetDirty id maxGlobal now => exact hrelease _ _
    case releaseHandle ino maxGlobal =>
      simp only [World.perform]
      split
      · exact hrelease _ _
      · exact h.2
    case fetchAdd => exact he.elim
    case fetchSub => exact he.elim
    case insertHandle => exact h.2
    case removeHandle => exact h.2
    case setDirty => exact h.2
    case renamePaths => exact h.2
    all_goals
      rw [(perform_idle w fate (by trivial)).2.2]
      exact h.2

/-- A program that keeps the process counter under the ceiling. -/
def KeepsCeiling {α : Type} (ceiling : Nat) (p : WriteProg α) : Prop :=
  ∀ fates w, Capped ceiling w → Follows script (fun _ s => Capped ceiling s.2) p.run (fates, w)

theorem keepsCeiling_of_asks {α : Type} {ceiling : Nat} {p : WriteProg α} (hp : Asks Tame p.run) :
    KeepsCeiling ceiling p := by
  intro fates w h
  have hkeeps : Follows anyFate (fun _ => Capped ceiling) p.run w := hp.keeps (fun w e fate he h => h.tame he fate) h
  exact hkeeps.scripted fates

theorem keepsCeiling_bind {α β : Type} {ceiling : Nat} {x : WriteProg α} {f : α → WriteProg β}
    (hx : KeepsCeiling ceiling x) (hf : ∀ a, KeepsCeiling ceiling (f a)) : KeepsCeiling ceiling (x >>= f) := by
  intro fates w h
  rw [follows_fallible_bind]
  apply (hx fates w h).mono
  rintro (error | a) ⟨fates', w'⟩ h'
  · exact h'
  · exact hf a fates' w' h'

theorem keepsCeiling_checkCeilings {ceiling : Nat} (hmax : options.maxGlobalStagingBytes < usizeMax)
    (hceiling : options.maxGlobalStagingBytes ≤ ceiling) (offset : Nat) (data : Bytes) :
    KeepsCeiling ceiling (checkCeilings options offset data) := by
  intro fates w h
  apply (follows_checkCeilings hmax h.1 offset data fates).mono
  rintro _ ⟨fates', w'⟩ (⟨-, -, rfl⟩ | ⟨-, hfits, -, hreserved⟩)
  · exact h
  · refine ⟨hreserved.wf, ?_⟩
    have hfits' := hfits.2
    rw [hreserved.total]
    simp only [satAdd, u64Max, usizeMax] at hfits' hmax
    omega

theorem keepsCeiling_write {ceiling : Nat} (hmax : options.maxGlobalStagingBytes < usizeMax)
    (hceiling : options.maxGlobalStagingBytes ≤ ceiling) (offset : Nat) (data : Bytes) :
    KeepsCeiling ceiling (write options ino offset data) := by
  apply keepsCeiling_bind
  · apply keepsCeiling_bind (keepsCeiling_of_asks (asks_getHandle trivial))
    intro id
    apply keepsCeiling_bind (keepsCeiling_of_asks (asks_ask (e := .readHandle id) trivial))
    intro handle
    apply keepsCeiling_bind (keepsCeiling_of_asks (asks_effectiveOffset trivial))
    intro offset
    apply keepsCeiling_bind (keepsCeiling_checkCeilings hmax hceiling offset data)
    intro _
    apply keepsCeiling_of_asks
    apply Asks.fallible_bind (asks_attempt (asks_perform.mpr trivial))
    intro _
    apply Asks.fallible_bind (asks_attempt (asks_perform.mpr trivial))
    intro _
    exact (asks_ask (e := .setDirty id _) trivial).fallible_bind fun _ => trivial
  · rintro ⟨dirty, lastFlush⟩
    apply keepsCeiling_of_asks
    exact (asks_flushIfDue.mono fun _ => tame_of_unstaged).fallible_bind fun _ => trivial

theorem capped_performCall {ceiling : Nat} (hmax : options.maxGlobalStagingBytes < usizeMax)
    (hceiling : options.maxGlobalStagingBytes ≤ ceiling) (h : Capped ceiling w) {call : WriteCall}
    (hcall : IsBudgeted call) (fates : List Fate) : Capped ceiling (performCall options w (call, fates)) := by
  have hplain : ∀ {call : WriteCall}, call.IsPlain → KeepsCeiling ceiling (program options call) :=
    fun hplain => keepsCeiling_of_asks ((asks_program hplain).mono fun _ => tame_of_plain)
  have hkeeps : KeepsCeiling ceiling (program options call) := by
    cases call with
    | openForWrite ino path appendMode oTrunc => exact hplain trivial
    | write ino offset data =>
      exact keepsCeiling_bind (keepsCeiling_write hmax hceiling offset data) fun _ => keepsCeiling_of_asks trivial
    | flush ino => exact hplain trivial
    | chunkedFlush ino => exact keepsCeiling_of_asks (asks_chunkedFlush.mono fun _ => tame_of_unstaged)
    | unlink ino path => exact hplain trivial
    | release ino => exact hplain trivial
    | _ => exact hcall.elim
  exact (hkeeps fates w h).exec_scripted fun _ => Capped ceiling

end Calls

/-! ## A process -/

structure Service where
  options : WritePathOptions
  world : World

/-- A call of one of the services, with the fates of its effects. -/
structure Request where
  service : Nat
  call : WriteCall
  fates : List Fate
  budgeted : IsBudgeted call

/-- `GLOBAL_STAGING_BYTES`, and the services that count in it. -/
structure Process where
  globalStagingBytes : Nat
  services : List Service

namespace Process

/-- No handle is open. -/
def start (all : List WritePathOptions) : Process := ⟨0, all.map fun options => ⟨options, {}⟩⟩

variable (p : Process)

/-- What a call of a service works on. -/
def world (service : Service) : World := { service.world with globalStagingBytes := p.globalStagingBytes }

def step (request : Request) : Process :=
  match p.services[request.service]? with
  | none => p
  | some service =>
    let world := WritePathService.performCall service.options (p.world service) (request.call, request.fates)
    ⟨world.globalStagingBytes, p.services.set request.service { service with world }⟩

/-- The sum over all open handles of all services. -/
def dirtyTotal : Nat := (p.services.map fun service => service.world.dirtyTotal).sum

def Exact : Prop := p.globalStagingBytes = p.dirtyTotal

def Leaks (request : Request) : Prop :=
  ∃ service, p.services[request.service]? = some service ∧
    Budgeting.Leaks service.options (p.world service) request.call request.fates

/-- What holds in any run, leaks or not. -/
structure Sound (ceiling : Nat) : Prop where
  capped : p.globalStagingBytes ≤ ceiling
  wf : ∀ service ∈ p.services, Wf (p.world service)
  limited : ∀ service ∈ p.services, service.options.maxGlobalStagingBytes < usizeMax
  under : ∀ service ∈ p.services, service.options.maxGlobalStagingBytes ≤ ceiling

variable {p} {request : Request} {service : Service} {ceiling : Nat}

theorem Sound.step (h : p.Sound ceiling) : (p.step request).Sound ceiling := by
  unfold Process.step
  rcases hservice : p.services[request.service]? with _ | service
  · exact h
  have hmem := List.mem_of_getElem? hservice
  have hcapped := capped_performCall (h.limited service hmem) (h.under service hmem) ⟨h.wf service hmem, h.capped⟩
    request.budgeted request.fates
  refine ⟨hcapped.2, ?_, ?_, ?_⟩
  · intro service' hservice'
    rcases List.mem_or_eq_of_mem_set hservice' with hold | rfl
    · exact ⟨⟨(h.wf service' hold).sound.range, (h.wf service' hold).sound.named⟩, hcapped.1.bound⟩
    · exact hcapped.1
  · intro service' hservice'
    rcases List.mem_or_eq_of_mem_set hservice' with hold | rfl
    · exact h.limited service' hold
    · exact h.limited service hmem
  · intro service' hservice'
    rcases List.mem_or_eq_of_mem_set hservice' with hold | rfl
    · exact h.under service' hold
    · exact h.under service hmem

theorem sum_map_set {α : Type} {l : List α} {i : Nat} {a : α} (h : l[i]? = some a) (f : α → Nat) (b : α) :
    ((l.set i b).map f).sum + f a = (l.map f).sum + f b := by
  induction l generalizing i with
  | nil => simp at h
  | cons c l ih =>
    rcases i with _ | i
    · obtain rfl : c = a := by simpa using h
      simp only [List.set_cons_zero, List.map_cons, List.sum_cons]
      omega
    · have hrest := ih (i := i) (by simpa using h)
      simp only [List.set_cons_succ, List.map_cons, List.sum_cons]
      omega

theorem exact_step_iff (h : p.Sound ceiling) (hexact : p.Exact) : (p.step request).Exact ↔ ¬ p.Leaks request := by
  unfold Process.step Process.Leaks
  rcases hservice : p.services[request.service]? with _ | service
  · exact iff_of_true hexact (by simp)
  have hmem := List.mem_of_getElem? hservice
  -- What the other services have counted stays.
  obtain ⟨rest, hrest⟩ : ∃ rest, p.dirtyTotal = service.world.dirtyTotal + rest := by
    have hsum := sum_map_set hservice (fun service => service.world.dirtyTotal) ⟨service.options, {}⟩
    have hempty : ({} : World).dirtyTotal = 0 := rfl
    rw [hempty] at hsum
    exact ⟨_, by rw [Process.dirtyTotal, ← Nat.add_zero (List.sum _), ← hsum, Nat.add_comm]⟩
  have hbalanced : Balanced rest (p.world service) := ⟨h.wf service hmem, hexact.trans hrest⟩
  have hcall := exact_performCall (h.limited service hmem) hbalanced request.budgeted request.fates
  simp only [Option.some.injEq, exists_eq_left']
  rw [← hcall]
  let world := WritePathService.performCall service.options (p.world service) (request.call, request.fates)
  have hsum := sum_map_set hservice (fun service => service.world.dirtyTotal) { service with world }
  rw [Process.dirtyTotal] at hrest
  show world.globalStagingBytes = ((p.services.set request.service { service with world }).map
    fun service => service.world.dirtyTotal).sum ↔ world.globalStagingBytes = world.dirtyTotal + rest
  simp only at hsum
  omega

theorem Sound.start {all : List WritePathOptions}
    (hmax : ∀ options ∈ all, options.maxGlobalStagingBytes < usizeMax)
    (hceiling : ∀ options ∈ all, options.maxGlobalStagingBytes ≤ ceiling) : (start all).Sound ceiling where
  capped := Nat.zero_le _
  wf service hservice := by
    obtain ⟨options, -, rfl⟩ := List.mem_map.mp hservice
    exact ⟨World.Sound.empty, Nat.zero_le _⟩
  limited service hservice := by
    obtain ⟨options, hoptions, rfl⟩ := List.mem_map.mp hservice
    exact hmax options hoptions
  under service hservice := by
    obtain ⟨options, hoptions, rfl⟩ := List.mem_map.mp hservice
    exact hceiling options hoptions

theorem exact_start (all : List WritePathOptions) : (start all).Exact := by
  have hempty : ({} : World).dirtyTotal = 0 := rfl
  induction all with
  | nil => rfl
  | cons options all ih =>
    simp only [Exact, start, dirtyTotal, List.map_cons, List.sum_cons, hempty] at ih ⊢
    omega

/-- The process counter has what the open handles have counted after each call if and only if no call leaks, and
it is never above the highest ceiling. -/
theorem budget_iff {all : List WritePathOptions}
    (hmax : ∀ options ∈ all, options.maxGlobalStagingBytes < usizeMax) (requests : List Request) :
    (Runs.AllStates step Exact (start all) requests ↔
      Runs.AllSteps step (fun p request => ¬ p.Leaks request) (start all) requests) ∧
    ∀ ceiling, (∀ options ∈ all, options.maxGlobalStagingBytes ≤ ceiling) →
      Runs.AllStates step (fun p => p.globalStagingBytes ≤ ceiling) (start all) requests := by
  have hany : ∀ request ∈ requests, True := fun _ _ => trivial
  constructor
  · refine Runs.allStates_iff_allSteps_of_invariant (I := fun p => Sound p usizeMax) hany (fun _ _ _ h => h.step)
      (fun _ _ _ h hexact => exact_step_iff h hexact) ?_ ?_
    · exact Sound.start hmax fun options hoptions => (hmax options hoptions).le
    · exact exact_start all
  · intro ceiling hceiling
    have hrun : Runs.AllSteps step (fun _ _ => True) (start all) requests :=
      Runs.allSteps_of_invariant (I := fun _ => True) hany trivial fun _ _ _ _ => ⟨trivial, trivial⟩
    exact hrun.allStates (I := fun p => Sound p ceiling) (Sound.start hmax hceiling) (fun _ _ h _ => h.step)
      fun _ h => h.capped

/-- A file that is opened, written and closed. -/
def openedAndClosed : List Request :=
  [⟨0, .openForWrite 1 "/f" false false, [], trivial⟩, ⟨0, .write 1 0 [1, 2, 3], [], trivial⟩,
    ⟨0, .release 1, [], trivial⟩]

theorem budget_iff_openedAndClosed :
    Runs.AllStates step Exact (start [{}]) openedAndClosed ∧
      Runs.AllStates step (fun p => p.globalStagingBytes ≤ 2 * 1024 * 1024 * 1024) (start [{}]) openedAndClosed := by
  have hmax : ∀ options ∈ [({} : WritePathOptions)], options.maxGlobalStagingBytes < usizeMax := by decide
  have hbudget := budget_iff hmax openedAndClosed
  refine ⟨hbudget.1.mpr ⟨?_, ?_, ?_, trivial⟩, hbudget.2 _ (by decide)⟩
  · rintro ⟨service, ⟨⟩, hdirty, -⟩
    exact absurd hdirty (by decide)
  · rintro ⟨service, ⟨⟩, -, id, ⟨⟩, -, hdisk | hjournal⟩
    · obtain ⟨reached, ⟨⟩⟩ := hdisk
    · obtain ⟨failure, ⟨⟩⟩ := hjournal
  · rintro ⟨service, ⟨⟩, hleaks⟩
    exact hleaks

/-- A file that is opened, written and removed. -/
def openedAndUnlinked : List Request :=
  [⟨0, .openForWrite 1 "/f" false false, [], trivial⟩, ⟨0, .write 1 0 [1, 2, 3], [], trivial⟩,
    ⟨0, .unlink (some 1) "/f", [], trivial⟩]

/-- The handle is gone, and its three bytes are still counted. -/
theorem not_budget :
    ¬ ∀ (all : List WritePathOptions), (∀ options ∈ all, options.maxGlobalStagingBytes < usizeMax) →
      ∀ requests, Runs.AllStates step Exact (start all) requests := by
  intro h
  have hmax : ∀ options ∈ [({} : WritePathOptions)], options.maxGlobalStagingBytes < usizeMax := by decide
  have hexact := (h [{}] hmax openedAndUnlinked).run
  cases hexact

end Process

end Budgeting

end Pcloud
