import Pcloud.Fs.WriteCalls

/-!
# A clean handle is uploaded

The counter of a handle and its blob change at different effects. In a run where no effect of any
thread lets them part, a handle that has nothing counted has its blob uploaded, and a drain uploads
what is left.
-/

namespace Pcloud

open Program

namespace World

/-- The content that was last uploaded for an inode. -/
def lastUpload (w : World) (ino : Nat) : Option Bytes :=
  w.remote.findSome? fun
    | .saved ino' _ content => if ino' = ino then some content else none
    | _ => none

def Uploaded (w : World) (ino : Nat) : Prop := w.lastUpload ino = some (w.blob ino)

end World

namespace Counting

/-! ## The system

The state of a thread is the list of inodes whose blobs it wrote and has yet to count, and the ghost tells
which blobs changed since their handle was opened. -/

def next (uncounted : List Nat) : (e : Effect) → e.Answer → List Nat
  | .writeBlobAt ino _ bytes, .ok () => if bytes = [] then uncounted else ino :: uncounted
  | .setDirty _ _, _ => []
  | .journalAppend _, .error _ => []
  | _, _ => uncounted

def note (touched : Nat → Bool) (w : World) (e : Effect) (w' : World) (ino : Nat) : Bool :=
  match e with
  | .insertHandle ino' _ => if ino = ino' then false else touched ino
  | _ => touched ino || w'.blob ino ≠ w.blob ino

def system (options : WritePathOptions) : System World (Nat → Bool) (List Nat) Fate WriteCall Effect Effect.Answer
    (Except WritePathError Unit) where
  perform := World.perform
  program call := (WritePathService.program options call).run
  initial _ := []
  next _ uncounted e ans _ := next uncounted e ans
  note touched w _ e _ w' := note touched w e w'

abbrev State := Pool World (Nat → Bool) (List Nat) Effect Effect.Answer (Except WritePathError Unit)

def start : State := ⟨{}, fun _ => false, []⟩

/-- A handle that is open and has nothing counted, and a blob that changed and no thread has yet to count: the blob
is what was last uploaded. -/
def Clean (w : World) (touched : Nat → Bool) (states : List (List Nat)) (ino : Nat) : Prop :=
  ∀ id, w.handles.lookup ino = some id → (w.handle id).dirtyBytes = 0 → touched ino →
    (∀ uncounted ∈ states, ino ∉ uncounted) → w.Uploaded ino

/-! ## The condition -/

section Condition

variable (w : World) (touched : Nat → Bool) (states : List (List Nat)) (i : Nat) (uncounted : List Nat) (e : Effect)
  (fate : Fate) (ino : Nat)

/-- Another thread has yet to count a write. -/
def OthersCount : Prop := ∃ j uncounted, j ≠ i ∧ states[j]? = some uncounted ∧ ino ∈ uncounted

/-- What happens to the blob is not lost: nobody has it open, its handle has something counted, or another thread has
yet to count. -/
def Covered : Prop :=
  w.handles.lookup ino = none ∨ (∃ id, w.handles.lookup ino = some id ∧ 0 < (w.handle id).dirtyBytes) ∨
    OthersCount states i ino

/-- A write that goes on to count. -/
def Counts : Prop :=
  ∃ offset bytes, e = .writeBlobAt ino offset bytes ∧ bytes ≠ [] ∧ ∀ reached, fate ≠ .disk reached

/-- The counter of the open handle is set to zero. -/
def Zeroes : Prop :=
  ∃ id, w.handles.lookup ino = some id ∧ (e = .setDirty id 0 ∨ ∃ maxGlobal now, e = .resetDirty id maxGlobal now)

/-- A write gives up after its blob, or counts on a handle that was replaced or closed. -/
def Forsakes : Prop :=
  ino ∈ uncounted ∧
    ((∃ op, e = .journalAppend op ∧ (w.perform (.journalAppend op) fate).1 = .error .journal) ∨
      ∃ id dirty, e = .setDirty id dirty ∧ w.handles.lookup ino ≠ some id)

/-- The effect does not part a counter and its blob. -/
structure Careful : Prop where
  /-- A blob is changed by a write that counts, or where it is covered, or to what was uploaded. -/
  changes : (w.perform e fate).2.blob ino ≠ w.blob ino → ¬ Counts e fate ino →
    Covered w states i ino ∨ w.lastUpload ino = some ((w.perform e fate).2.blob ino)
  /-- A counter is set to zero where the blob is what was uploaded, or another thread has yet to count. -/
  zeroes : Zeroes w e ino → touched ino → OthersCount states i ino ∨ w.Uploaded ino
  forsakes : Forsakes w uncounted e fate ino → touched ino → Covered w states i ino ∨ w.Uploaded ino
  /-- What is published is the blob. -/
  publishes : ∀ path content, (w.perform e fate).2.remote = .saved ino path content :: w.remote → touched ino →
    Covered w states i ino ∨ content = w.blob ino

end Condition

/-! ## One effect -/

section Step

variable {w : World} {touched : Nat → Bool} {states : List (List Nat)} {i ino : Nat} {uncounted : List Nat} {e : Effect}
  {fate : Fate}

theorem note_insertHandle {w' : World} {handle : WriteHandle} :
    note touched w (.insertHandle ino handle) w' ino = false := by
  simp [note]

theorem note_eq_true {w' : World} (h : note touched w e w' ino = true) :
    touched ino = true ∨ w'.blob ino ≠ w.blob ino := by
  unfold note at h
  split at h
  · split_ifs at h
    exact .inl h
  · simpa using h

theorem next_cases (h : ino ∈ uncounted) (hnext : ino ∉ next uncounted e (w.perform e fate).1) :
    (∃ op, e = .journalAppend op ∧ (w.perform (.journalAppend op) fate).1 = .error .journal) ∨
      ∃ id dirty, e = .setDirty id dirty := by
  cases e
  case setDirty id dirty => exact .inr ⟨id, dirty, rfl⟩
  case journalAppend op =>
    left
    refine ⟨op, rfl, ?_⟩
    obtain ⟨failure, hperform⟩ := w.perform_journalAppend fate op
    rw [hperform] at hnext ⊢
    rcases hseq : (w.journal.append op failure).1 with _ | seq
    · rfl
    · rw [hseq] at hnext
      exact absurd h hnext
  case writeBlobAt ino' offset bytes =>
    have hmem : ino ∈ next uncounted (.writeBlobAt ino' offset bytes) (w.perform (.writeBlobAt ino' offset bytes) fate).1 := by
      rcases (w.perform (.writeBlobAt ino' offset bytes) fate).1 with error | ⟨⟩
      · exact h
      · show ino ∈ if bytes = [] then uncounted else ino' :: uncounted
        split_ifs
        · exact h
        · exact List.mem_cons_of_mem _ h
    exact absurd hmem hnext
  all_goals exact absurd h hnext

theorem mem_next_of_counts (h : Counts e fate ino) : ino ∈ next uncounted e (w.perform e fate).1 := by
  obtain ⟨offset, bytes, rfl, hbytes, hfate⟩ := h
  have hans : (w.perform (.writeBlobAt ino offset bytes) fate).1 = .ok () := by
    cases fate
    case disk reached => exact absurd rfl (hfate reached)
    all_goals rfl
  rw [hans]
  simp [next, hbytes]

theorem uploaded_of_eq {w w' : World} (hremote : w'.remote = w.remote) (hblob : w'.blob ino = w.blob ino)
    (h : w.Uploaded ino) : w'.Uploaded ino := by
  rw [World.Uploaded, World.lastUpload, hremote, hblob]
  exact h

theorem lastUpload_of_ne {w w' : World} {change : RemoteChange} (hremote : w'.remote = change :: w.remote)
    (hne : ∀ path content, change ≠ .saved ino path content) : w'.lastUpload ino = w.lastUpload ino := by
  rw [World.lastUpload, World.lastUpload, hremote, List.findSome?_cons]
  rcases change with ⟨ino', path, content⟩ | path | ⟨source, target⟩
  · have hino : ino' ≠ ino := by
      rintro rfl
      exact hne path content rfl
    simp [hino]
  · rfl
  · rfl

theorem lastUpload_saved {w w' : World} {path : String} {content : Bytes}
    (hremote : w'.remote = .saved ino path content :: w.remote) : w'.lastUpload ino = some content := by
  rw [World.lastUpload, hremote, List.findSome?_cons]
  simp

theorem Zeroes.same (fate : Fate) (h : Zeroes w e ino) :
    (w.perform e fate).2.remote = w.remote ∧ (w.perform e fate).2.blob ino = w.blob ino := by
  obtain ⟨id, -, rfl | ⟨maxGlobal, now, rfl⟩⟩ := h <;>
  simp [World.perform, World.setHandle, World.blob]

theorem dirtyBytes_eq_zero {id : Nat} (hid : id < w.heap.length) (hopen : w.handles.lookup ino = some id)
    (hzeroes : ¬ Zeroes w e ino) (h : ((w.perform e fate).2.handle id).dirtyBytes = 0) :
    (w.handle id).dirtyBytes = 0 ∧ ∀ dirty, e ≠ .setDirty id dirty := by
  have hset : ∀ dirty, e ≠ .setDirty id dirty := by
    rintro dirty rfl
    simp only [World.perform, World.handle_setHandle_self w id hid] at h
    exact hzeroes ⟨id, hopen, .inl (by rw [h])⟩
  refine ⟨?_, hset⟩
  rcases World.perform_dirtyBytes fate e hid with heq | ⟨dirty, he, -⟩ | ⟨maxGlobal, now, he, -⟩
  · rw [← heq, h]
  · exact absurd he (hset dirty)
  · exact absurd ⟨id, hopen, .inr ⟨maxGlobal, now, he⟩⟩ hzeroes

theorem clean_step (hrange : ∀ ino id, w.handles.lookup ino = some id → id < w.heap.length)
    (hstate : states[i]? = some uncounted) (hclean : Clean w touched states ino)
    (hcareful : Careful w touched states i uncounted e fate ino) :
    Clean (w.perform e fate).2 (note touched w e (w.perform e fate).2)
      (states.set i (next uncounted e (w.perform e fate).1)) ino := by
  intro id hopen' hzero' htouched' hnone'
  -- No thread has the inode to count, before or after, but the one that goes on may have had.
  have hothers : ¬ OthersCount states i ino := by
    rintro ⟨j, uncounted', hj, hstate', hmem⟩
    apply hnone' uncounted' _ hmem
    apply List.mem_of_getElem? (i := j)
    rw [List.getElem?_set_ne hj.symm, hstate']
  have hself : ino ∉ next uncounted e (w.perform e fate).1 := by
    apply hnone'
    exact List.mem_of_getElem? (List.getElem?_set_self (List.getElem?_eq_some_iff.mp hstate).1)
  rcases World.perform_handles hopen' with hopen | ⟨-, handle, rfl⟩
  · by_cases hzeroes : Zeroes w e ino
    · obtain ⟨hremote, hblob⟩ := hzeroes.same fate
      have htouched : touched ino := (note_eq_true htouched').resolve_right fun h => h hblob
      exact uploaded_of_eq hremote hblob ((hcareful.zeroes hzeroes htouched).resolve_left hothers)
    obtain ⟨hzero, hset⟩ := dirtyBytes_eq_zero (hrange ino id hopen) hopen hzeroes hzero'
    have huncovered : ¬ Covered w states i ino := by
      rintro (hnone | ⟨id', hopen', hdirty⟩ | hcount)
      · rw [hopen] at hnone
        cases hnone
      · obtain rfl := Option.some.inj (hopen.symm.trans hopen')
        omega
      · exact hothers hcount
    by_cases hblob : (w.perform e fate).2.blob ino = w.blob ino
    · have htouched : touched ino := (note_eq_true htouched').resolve_right fun h => h hblob
      have huploaded : w.Uploaded ino := by
        by_cases hmem : ino ∈ uncounted
        · refine (hcareful.forsakes ⟨hmem, ?_⟩ htouched).resolve_left huncovered
          rcases next_cases hmem hself with hfails | ⟨id', dirty, he⟩
          · exact .inl hfails
          · refine .inr ⟨id', dirty, he, fun hopen' => ?_⟩
            obtain rfl := Option.some.inj (hopen.symm.trans hopen')
            exact hset dirty he
        · apply hclean id hopen hzero htouched
          intro uncounted' hmem'
          obtain ⟨j, hj⟩ := List.mem_iff_getElem?.mp hmem'
          rcases eq_or_ne j i with rfl | hne
          · obtain rfl := Option.some.inj (hstate.symm.trans hj)
            exact hmem
          · exact fun h => hothers ⟨j, uncounted', hne, hj, h⟩
      rcases World.perform_remote w fate e with hremote | ⟨-, -, -, change, hremote⟩
      · exact uploaded_of_eq hremote hblob huploaded
      · by_cases hpublished : ∃ path content, change = .saved ino path content
        · obtain ⟨path, content, rfl⟩ := hpublished
          obtain rfl := (hcareful.publishes path content hremote htouched).resolve_left huncovered
          rw [World.Uploaded, lastUpload_saved hremote, hblob]
        · have hne : ∀ path content, change ≠ .saved ino path content :=
            fun path content h => hpublished ⟨path, content, h⟩
          rw [World.Uploaded, lastUpload_of_ne hremote hne, hblob]
          exact huploaded
    · have hremote := ((World.perform_blob w fate e ino).resolve_left hblob).2.2
      have hcounts : ¬ Counts e fate ino := fun h => hself (mem_next_of_counts h)
      have hupload := (hcareful.changes hblob hcounts).resolve_left huncovered
      rw [World.Uploaded, ← hupload, World.lastUpload, World.lastUpload, hremote]
  · rw [note_insertHandle] at htouched'
    exact absurd htouched' (by decide)

theorem not_mem_next_nil (h : ¬ Counts e fate ino) : ino ∉ next [] e (w.perform e fate).1 := by
  cases e
  case writeBlobAt ino' offset bytes =>
    rcases hans : (w.perform (.writeBlobAt ino' offset bytes) fate).1 with error | ⟨⟩
    · exact List.not_mem_nil
    · show ino ∉ if bytes = [] then [] else [ino']
      split_ifs with hbytes
      · exact List.not_mem_nil
      · rw [List.mem_singleton]
        rintro rfl
        refine h ⟨offset, bytes, rfl, hbytes, ?_⟩
        rintro (_ | n) rfl <;>
        cases hans
  case journalAppend op =>
    rcases (w.perform (.journalAppend op) fate).1 with error | seq <;>
    exact List.not_mem_nil
  all_goals exact List.not_mem_nil

/-- What a thread may do: with something to count it records and counts, and a handle has the name of its blob. -/
def protocol : Protocol (List Nat) Effect Effect.Answer where
  allowed uncounted e := (uncounted = [] ∨ (∃ op, e = .journalAppend op) ∨ ∃ id dirty, e = .setDirty id dirty) ∧
    ∀ ino handle, e = .insertHandle ino handle → handle.blobName = ino
  moves uncounted e ans uncounted' := uncounted' = next uncounted e ans

theorem exposed_of_not_covered (h : ¬ Covered w states i ino) :
    ∃ id, w.handles.lookup ino = some id ∧ (w.handle id).dirtyBytes = 0 ∧ ¬ OthersCount states i ino := by
  simp only [Covered, not_or, not_exists, not_and, Nat.not_lt, Nat.le_zero] at h
  obtain ⟨hopen, hzero, hothers⟩ := h
  obtain ⟨id, hid⟩ := Option.ne_none_iff_exists'.mp hopen
  exact ⟨id, hid, hzero id hid, hothers⟩

theorem same_of_counting (h : (∃ op, e = .journalAppend op) ∨ ∃ id dirty, e = .setDirty id dirty) :
    (w.perform e fate).2.blobs = w.blobs ∧ (w.perform e fate).2.remote = w.remote := by
  obtain ⟨op, rfl⟩ | ⟨id, dirty, rfl⟩ := h <;>
  simp [World.perform, World.setHandle]

theorem note_of_blob_ne (h : (w.perform e fate).2.blob ino ≠ w.blob ino) :
    note touched w e (w.perform e fate).2 ino = true := by
  unfold note
  split
  · exact absurd rfl h
  · simp [h]

theorem note_of_touched {w' : World} (h : touched ino = true) (hinsert : ∀ handle, e ≠ .insertHandle ino handle) :
    note touched w e w' ino = true := by
  unfold note
  split
  case h_1 ino' handle =>
    rw [if_neg, h]
    rintro rfl
    exact hinsert handle rfl
  · simp [h]

theorem Clean.uploaded {id : Nat}
    (hclean : Clean (w.perform e fate).2 (note touched w e (w.perform e fate).2)
      (states.set i (next uncounted e (w.perform e fate).1)) ino)
    (hothers : ¬ OthersCount states i ino) (hself : ino ∉ next uncounted e (w.perform e fate).1)
    (hopen : (w.perform e fate).2.handles.lookup ino = some id)
    (hzero : ((w.perform e fate).2.handle id).dirtyBytes = 0)
    (htouched : note touched w e (w.perform e fate).2 ino = true) : (w.perform e fate).2.Uploaded ino := by
  apply hclean id hopen hzero htouched
  intro uncounted' hmem
  obtain ⟨j, hj⟩ := List.mem_iff_getElem?.mp hmem
  rcases eq_or_ne j i with rfl | hne
  · rw [List.getElem?_set_self'] at hj
    obtain ⟨_, -, rfl⟩ := Option.map_eq_some_iff.mp hj
    exact hself
  · rw [List.getElem?_set_ne hne.symm] at hj
    exact fun h => hothers ⟨j, uncounted', hne, hj, h⟩

theorem careful_of_clean (hrange : ∀ ino id, w.handles.lookup ino = some id → id < w.heap.length)
    (hallowed : protocol.allowed uncounted e)
    (hclean : Clean (w.perform e fate).2 (note touched w e (w.perform e fate).2)
      (states.set i (next uncounted e (w.perform e fate).1)) ino) :
    Careful w touched states i uncounted e fate ino := by
  constructor
  · intro hblob hcounts
    rw [or_iff_not_imp_left]
    intro hcovered
    obtain ⟨id, hopen, hzero, hothers⟩ := exposed_of_not_covered hcovered
    obtain ⟨hhandles, hheap, hremote⟩ := (World.perform_blob w fate e ino).resolve_left hblob
    obtain rfl := hallowed.1.resolve_right fun h => hblob (by rw [World.blob, (same_of_counting h).1, World.blob])
    have huploaded := hclean.uploaded hothers (not_mem_next_nil hcounts) (by rw [hhandles, hopen])
      (by rw [World.handle, hheap]; exact hzero) (note_of_blob_ne hblob)
    rw [World.Uploaded, World.lastUpload, hremote] at huploaded
    exact huploaded
  · intro hzeroes htouched
    rw [or_iff_not_imp_left]
    intro hothers
    obtain ⟨hremote, hblob⟩ := hzeroes.same fate
    obtain ⟨id, hopen, he⟩ := hzeroes
    have hid := hrange ino id hopen
    have huploaded : (w.perform e fate).2.Uploaded ino := by
      rcases he with rfl | ⟨maxGlobal, now, rfl⟩
      · apply hclean.uploaded hothers List.not_mem_nil hopen _ (note_of_touched htouched (by simp))
        simp only [World.perform, World.handle_setHandle_self w id hid]
      · obtain rfl := hallowed.1.resolve_right (by simp)
        have hid' : id < (w.releaseBytes maxGlobal (w.handle id).dirtyBytes).heap.length := by simpa using hid
        have hopen' : (w.perform (.resetDirty id maxGlobal now) fate).2.handles.lookup ino = some id := by
          simpa [World.perform, World.setHandle] using hopen
        apply hclean.uploaded hothers List.not_mem_nil hopen' _ (note_of_touched htouched (by simp))
        simp only [World.perform, World.handle_setHandle_self _ id hid']
    exact uploaded_of_eq hremote.symm hblob.symm huploaded
  · rintro ⟨hmem, hforsakes⟩ htouched
    rw [or_iff_not_imp_left]
    intro hcovered
    obtain ⟨id, hopen, hzero, hothers⟩ := exposed_of_not_covered hcovered
    rcases hforsakes with ⟨op, rfl, hfails⟩ | ⟨id', dirty, rfl, hne⟩
    · have hself : ino ∉ next uncounted (.journalAppend op) (w.perform (.journalAppend op) fate).1 := by
        rw [hfails]
        exact List.not_mem_nil
      exact hclean.uploaded hothers hself hopen hzero (note_of_touched htouched (by simp))
    · have hid : id ≠ id' := by
        rintro rfl
        exact hne hopen
      have hzero' : ((w.perform (.setDirty id' dirty) fate).2.handle id).dirtyBytes = 0 := by
        simp only [World.perform, World.handle_setHandle_of_ne w id hid, hzero]
      exact hclean.uploaded hothers List.not_mem_nil hopen hzero' (note_of_touched htouched (by simp))
  · intro path content hremote htouched
    rw [or_iff_not_imp_left]
    intro hcovered
    obtain ⟨id, hopen, hzero, hothers⟩ := exposed_of_not_covered hcovered
    have hchanged : (w.perform e fate).2.remote ≠ w.remote := by simp [hremote]
    obtain ⟨hhandles, hheap, hblobs, -⟩ := (World.perform_remote w fate e).resolve_left hchanged
    have hcounts : ¬ Counts e fate ino := by
      rintro ⟨offset, bytes, rfl, -, -⟩
      apply hchanged
      rcases fate with _ | _ | _ | (_ | _) | _ | _ | _ <;>
      rfl
    have hinsert : ∀ handle, e ≠ .insertHandle ino handle := by
      rintro handle rfl
      exact hchanged rfl
    obtain rfl := hallowed.1.resolve_right fun h => hchanged (same_of_counting h).2
    have huploaded := hclean.uploaded hothers (not_mem_next_nil hcounts) (by rw [hhandles, hopen])
      (by rw [World.handle, hheap]; exact hzero) (note_of_touched htouched hinsert)
    rw [World.Uploaded, lastUpload_saved hremote, World.blob, hblobs] at huploaded
    exact Option.some.inj huploaded

end Step

/-! ## The threads -/

section Threads

open WritePathService

variable {options : WritePathOptions} {ino : Nat}

theorem follows_unstaged {α : Type} {call : WriteProg α} (hcall : Asks Effect.Unstaged call.run) :
    Follows protocol (fun _ uncounted => uncounted = []) call.run [] := by
  refine hcall.follows (I := fun uncounted => uncounted = []) ?_ ?_ rfl
  · rintro _ e rfl he
    refine ⟨.inl rfl, ?_⟩
    rintro ino handle rfl
    exact he.1
  · rintro _ e ans _ rfl he rfl
    cases e
    case writeBlobAt => exact he.elim
    case journalAppend op => cases ans <;> rfl
    all_goals rfl

theorem follows_bind_nil {α β : Type} {x : WriteProg α} {f : α → WriteProg β}
    (hx : Follows protocol (fun _ uncounted => uncounted = []) x.run [])
    (hf : ∀ a, Follows protocol (fun _ uncounted => uncounted = []) (f a).run []) :
    Follows protocol (fun _ uncounted => uncounted = []) (x >>= f).run [] := by
  rw [follows_fallible_bind]
  apply hx.mono
  rintro (error | a) _ rfl
  · rfl
  · exact hf a

theorem follows_plain_nil {α : Type} {call : WriteProg α} (hcall : Asks Effect.Plain call.run) :
    Follows protocol (fun _ uncounted => uncounted = []) call.run [] :=
  follows_unstaged (hcall.mono fun _ => Effect.Plain.unstaged)

theorem follows_stageWrite {offset : Nat} {data : Bytes} :
    Follows protocol (fun _ uncounted => uncounted = []) (stageWrite options ino offset data).run [] := by
  apply follows_bind_nil (follows_plain_nil (asks_getHandle trivial))
  intro id
  apply follows_bind_nil (follows_plain_nil (asks_ask (e := .readHandle id) trivial))
  intro h
  apply follows_bind_nil (follows_plain_nil (asks_effectiveOffset trivial))
  intro offset
  apply follows_bind_nil
  · refine asks_checkCeilings_counter.follows (I := fun uncounted => uncounted = []) ?_ ?_ rfl
    · rintro _ _ rfl (rfl | rfl) <;>
      exact ⟨.inl rfl, by simp⟩
    · rintro _ _ ans _ rfl (rfl | rfl) rfl <;>
      rfl
  intro _
  rw [follows_fallible_bind, follows_attempt]
  apply follows_perform.mpr
  refine ⟨⟨.inl rfl, by simp⟩, ?_⟩
  rintro (error | ⟨⟩) uncounted rfl
  · rfl
  dsimp only [orElse]
  rw [follows_fallible_bind, follows_attempt]
  apply follows_perform.mpr
  refine ⟨⟨.inr (.inl ⟨_, rfl⟩), by simp⟩, ?_⟩
  rintro (error | seq) _ rfl
  · rfl
  dsimp only [orElse]
  rw [follows_fallible_bind]
  apply follows_ask.mpr
  refine ⟨⟨.inr (.inr ⟨_, _, rfl⟩), by simp⟩, ?_⟩
  rintro ⟨⟩ _ rfl
  rfl

theorem follows_program (call : WriteCall) :
    Follows protocol (fun _ uncounted => uncounted = []) (program options call).run [] := by
  cases call
  case stageWrite ino offset data => exact follows_bind_nil follows_stageWrite fun _ => rfl
  case write ino offset data =>
    apply follows_bind_nil
    · apply follows_bind_nil follows_stageWrite
      rintro ⟨dirty, lastFlush⟩
      exact follows_bind_nil (follows_unstaged asks_flushIfDue) fun _ => rfl
    · exact fun _ => rfl
  case chunkedFlush ino => exact follows_unstaged asks_chunkedFlush
  case replayUploadSidecars timeout => exact follows_bind_nil (follows_unstaged asks_replayUploadSidecars) fun _ => rfl
  all_goals exact follows_plain_nil (asks_program trivial)

end Threads

/-! ## A drain -/

section Drain

open World WritePathService

variable {options : WritePathOptions} {touched : Nat → Bool} {w : World} {ino : Nat}

/-- Every open handle that has nothing counted is uploaded, and the others are yet to be flushed. -/
structure Drained (touched : Nat → Bool) (left : List Nat) (w : World) : Prop where
  sound : World.Sound w
  uploaded : ∀ ino id, w.handles.lookup ino = some id → touched ino → (w.handle id).dirtyBytes = 0 → w.Uploaded ino
  left : ∀ ino id, w.handles.lookup ino = some id → 0 < (w.handle id).dirtyBytes → ino ∈ left

theorem Drained.flushed {left : List Nat} (h : Drained touched (ino :: left) w) {id : Nat}
    (hopen : w.handles.lookup ino = some id) (path : String) (maxGlobal now : Nat) (journal : WriteJournal)
    (fate : Fate) :
    Drained touched left (({ w with journal, remote := .saved ino path (w.blob ino) :: w.remote } : World).perform
      (.resetDirty id maxGlobal now) fate).2 := by
  let saved : World := { w with journal, remote := .saved ino path (w.blob ino) :: w.remote }
  let reset : World := (saved.perform (.resetDirty id maxGlobal now) fate).2
  have hhandles : reset.handles = w.handles := by simp [reset, saved, World.perform, World.setHandle]
  have hremote : reset.remote = .saved ino path (w.blob ino) :: w.remote := by
    simp [reset, saved, World.perform, World.setHandle]
  have hblobs : reset.blobs = w.blobs := by simp [reset, saved, World.perform, World.setHandle]
  have hid : id < (saved.releaseBytes maxGlobal (saved.handle id).dirtyBytes).heap.length := by
    simpa [saved] using h.sound.range ino id hopen
  have hzero : (reset.handle id).dirtyBytes = 0 := by
    simp only [reset, World.perform, World.handle_setHandle_self _ id hid]
  have hother : ∀ ino' id', w.handles.lookup ino' = some id' → ino' ≠ ino → reset.handle id' = w.handle id' := by
    intro ino' id' hopen' hino
    have hne : id' ≠ id := by
      rintro rfl
      exact hino ((h.sound.named ino' id' hopen').symm.trans (h.sound.named ino id' hopen))
    simp only [reset, World.perform, World.handle_setHandle_of_ne _ id' hne]
    rw [World.handle, releaseBytes_heap, World.handle]
  have hblob : ∀ ino', reset.blob ino' = w.blob ino' := fun ino' => by rw [World.blob, hblobs, World.blob]
  have hsaved : World.Sound saved := ⟨h.sound.range, h.sound.named⟩
  constructor
  · exact hsaved.step fate (by simp)
  · intro ino' id' hopen' htouched hzero'
    rw [hhandles] at hopen'
    show reset.lastUpload ino' = some (reset.blob ino')
    rw [hblob]
    rcases eq_or_ne ino' ino with rfl | hino
    · exact lastUpload_saved hremote
    · rw [lastUpload_of_ne hremote]
      · exact h.uploaded ino' id' hopen' htouched (by rwa [hother ino' id' hopen' hino] at hzero')
      · intro path' content hsame
        injection hsame with hsame
        exact hino hsame.symm
  · intro ino' id' hopen' hdirty
    rw [hhandles] at hopen'
    rcases eq_or_ne ino' ino with rfl | hino
    · obtain rfl := Option.some.inj (hopen.symm.trans hopen')
      exact absurd hzero (Nat.ne_of_gt hdirty)
    · rw [hother ino' id' hopen' hino] at hdirty
      exact (List.mem_cons.mp (h.left ino' id' hopen' hdirty)).resolve_left hino

theorem follows_flush {left : List Nat} (h : Drained touched (ino :: left) w) :
    Follows anyFate (Returns fun _ => Drained touched left) (flush options ino).run w := by
  apply follows_returns_bind fun id w' => w.handles.lookup ino = some id ∧ w = w'
  · apply follows_perform_effects.mpr
    intro fate _
    simp only [World.perform]
    rcases w.handles.lookup ino with _ | id
    · trivial
    · exact ⟨rfl, rfl⟩
  rintro id _ ⟨hopen, rfl⟩
  apply follows_returns_bind fun handle w' => w.handle id = handle ∧ w = w'
  · apply follows_perform_effects.mpr
    intro fate _
    exact ⟨rfl, rfl⟩
  rintro _ _ ⟨rfl, rfl⟩
  apply follows_returns_bind fun _ w' => ∃ journal, w' = { w with journal }
  · apply follows_perform_effects.mpr
    intro fate _
    obtain ⟨failure, hperform⟩ := w.perform_journalAppend fate (.flushBarrier (w.handle id).path)
    rw [hperform]
    rcases (w.journal.append (.flushBarrier (w.handle id).path) failure).1 with _ | seq
    · trivial
    · exact ⟨_, rfl⟩
  rintro _ _ ⟨journal, rfl⟩
  rcases splitParentName (w.handle id).path with _ | ⟨parent, name⟩
  · trivial
  apply follows_returns_bind fun _ w' => w' =
    { w with journal, remote := .saved ino (joinPath parent name) (w.blob ino) :: w.remote }
  · rw [h.sound.named ino id hopen]
    apply follows_perform_effects.mpr
    intro fate _
    simp only [World.perform]
    rcases hblob : w.blobs ino with _ | content
    · trivial
    · rw [World.blob, hblob]
      rcases World.unlessRefused_cases { w with journal } fate (.ok (),
        { w with journal, remote := .saved ino (joinPath parent name) content :: w.remote }) with ⟨error, -, heq⟩ | heq <;>
      simp only [heq]
      · trivial
      · rfl
  rintro _ _ rfl
  apply follows_returns_bind fun _ w' => w' =
    { w with journal, remote := .saved ino (joinPath parent name) (w.blob ino) :: w.remote }
  · apply follows_perform_effects.mpr
    intro fate _
    rfl
  rintro now _ rfl
  apply follows_perform_effects.mpr
  intro fate _
  exact h.flushed hopen (joinPath parent name) options.maxGlobalStagingBytes now journal fate

theorem follows_drainEach {left : List Nat} (h : Drained touched left w) :
    Follows anyFate (Returns fun entries w' => (∀ entry ∈ entries, entry.2 = .ok ()) → Drained touched [] w')
      (drainEach options left).run w := by
  induction left generalizing w with
  | nil => exact fun _ => h
  | cons ino left ih =>
    apply follows_returns_bind fun result w' => result = .ok () → Drained touched left w'
    · rw [follows_outcome]
      apply (follows_flush h).mono
      rintro (error | ⟨⟩) w' hw'
      · rintro ⟨⟩
      · exact fun _ => hw'
    rintro (error | ⟨⟩) w' hw'
    -- After a flush that failed there is nothing to show.
    · apply follows_returns_bind (fun _ _ => True)
      · have hany : Follows anyFate (fun _ _ => True) (drainEach options left).run w' :=
          (asks_drainEach left).keeps (fun _ _ _ _ _ => trivial) trivial
        apply hany.mono
        rintro (error' | entries) _ _ <;>
        trivial
      · intro entries w'' _ hentries
        have hfailed := hentries _ List.mem_cons_self
        cases hfailed
    · apply follows_returns_bind _ (ih (hw' rfl))
      intro entries w'' hw'' hentries
      exact hw'' fun entry hentry => hentries entry (List.mem_cons_of_mem _ hentry)

theorem mem_arrange {keys : List Nat} {fate : Fate} : ino ∈ fate.arrange keys ↔ ino ∈ keys := by
  unfold Fate.arrange
  split
  · split_ifs with hperm
    · exact hperm.mem_iff
    · exact Iff.rfl
  · exact Iff.rfl

theorem follows_drainAll (hsound : World.Sound w)
    (huploaded : ∀ ino id, w.handles.lookup ino = some id → touched ino → (w.handle id).dirtyBytes = 0 → w.Uploaded ino) :
    Follows anyFate (Returns fun entries w' => (∀ entry ∈ entries, entry.2 = .ok ()) → Drained touched [] w')
      (drainAll options).run w := by
  apply follows_returns_bind fun handles w' => w = w' ∧ ∀ ino id, w.handles.lookup ino = some id →
    (ino, w.handle id) ∈ handles
  · apply follows_perform_effects.mpr
    intro fate _
    refine ⟨rfl, fun ino id hopen => ?_⟩
    have hmem : ino ∈ fate.arrange w.handles.keys := by
      rw [mem_arrange, ← AList.mem_keys, ← AList.lookup_isSome, hopen]
      rfl
    exact List.mem_filterMap.mpr ⟨ino, hmem, by rw [hopen]; rfl⟩
  rintro handles _ ⟨rfl, hall⟩
  apply follows_drainEach
  refine ⟨hsound, huploaded, fun ino id hopen hdirty => ?_⟩
  exact List.mem_map.mpr ⟨(ino, w.handle id), List.mem_filter.mpr ⟨hall ino id hopen, by simpa using hdirty⟩, rfl⟩

end Drain

section Runs

open System WritePathService

variable {options : WritePathOptions} {pool : State} {actions : List (Action WriteCall Fate)}

theorem stepKeeps_sound {guard : Guard World (Nat → Bool) (List Nat) Fate Effect} :
    (system options).StepKeeps protocol guard fun w _ _ => World.Sound w := by
  intro w touched states i uncounted e fate hsound hstate hallowed _
  exact ⟨rfl, hsound.step fate hallowed.2⟩

theorem allStates_clean_iff :
    Runs.AllStates (system options).act (fun pool => ∀ ino, Clean pool.world pool.ghost (states pool) ino) start actions ↔
      Runs.AllSteps (system options).act
        (Guarded fun w touched states i uncounted e fate => ∀ ino, Careful w touched states i uncounted e fate ino)
        start actions := by
  refine allStates_iff_allSteps (Q := fun w touched states => ∀ ino, Clean w touched states ino)
    (fun call => follows_program call) (fun _ _ _ _ h => h) stepKeeps_sound ?_ ?_ World.Sound.empty ?_ ?_
  · intro w touched states call hclean ino id hopen hzero htouched hnone
    exact hclean ino id hopen hzero htouched fun uncounted hmem => hnone uncounted (List.mem_append_left _ hmem)
  · intro w touched states i uncounted e fate hsound hstate hallowed hclean
    constructor
    · intro hclean' ino
      exact careful_of_clean hsound.range hallowed (hclean' ino)
    · intro hcareful ino
      exact clean_step hsound.range hstate (hclean ino) (hcareful ino)
  · intro thread hthread
    exact absurd hthread List.not_mem_nil
  · intro ino id hopen
    simp [start] at hopen

theorem drainAll_uploads
    (hcareful : Runs.AllSteps (system options).act
      (Guarded fun w touched states i uncounted e fate => ∀ ino, Careful w touched states i uncounted e fate ino)
      start actions)
    (hdone : ∀ thread ∈ (Runs.run (system options).act start actions).threads, ∃ result, thread.rest = .ret result)
    {fates : List Fate} {entries : List (Nat × Except WritePathError Unit)}
    (hentries : (exec World.perform (drainAll options).run fates (Runs.run (system options).act start actions).world).1 =
      .ok entries) (hok : ∀ entry ∈ entries, entry.2 = .ok ()) {ino id : Nat} :
    let drained := (exec World.perform (drainAll options).run fates (Runs.run (system options).act start actions).world).2
    drained.handles.lookup ino = some id → (Runs.run (system options).act start actions).ghost ino →
      drained.Uploaded ino := by
  intro drained hopen htouched
  set pool := Runs.run (system options).act start actions
  have hclean : ∀ ino, Clean pool.world pool.ghost (states pool) ino := (allStates_clean_iff.mpr hcareful).run
  have hstart : AllFollow protocol (fun _ uncounted => uncounted = []) start :=
    fun thread hthread => absurd hthread List.not_mem_nil
  obtain ⟨hsound, hfollow⟩ : World.Sound pool.world ∧ AllFollow protocol (fun _ uncounted => uncounted = []) pool :=
    (run_invariant (fun call => follows_program call) (fun _ _ _ _ h => h) stepKeeps_sound World.Sound.empty hstart
      hcareful).run
  have hnone : ∀ uncounted ∈ states pool, uncounted = [] := by
    intro uncounted hmem
    obtain ⟨thread, hthread, rfl⟩ := List.mem_map.mp hmem
    obtain ⟨result, hresult⟩ := hdone thread hthread
    have hrest := hfollow thread hthread
    rwa [hresult] at hrest
  have huploaded : ∀ ino id, pool.world.handles.lookup ino = some id → pool.ghost ino →
      (pool.world.handle id).dirtyBytes = 0 → pool.world.Uploaded ino := by
    intro ino id hopen htouched hzero
    apply hclean ino id hopen hzero htouched
    intro uncounted hmem
    rw [hnone uncounted hmem]
    exact List.not_mem_nil
  have hfates : ∀ fate ∈ fates, True := fun _ _ => trivial
  have hspec : Follows anyFate _ (drainAll options).run pool.world := follows_drainAll hsound huploaded
  have hdrained := hspec.exec trivial hfates
  rw [hentries] at hdrained
  have h := hdrained hok
  apply h.uploaded ino id hopen htouched
  by_contra hdirty
  exact absurd (h.left ino id hopen (Nat.pos_of_ne_zero hdirty)) List.not_mem_nil

end Runs

section CleanRuns

open System WritePathService

variable (options : WritePathOptions) (actions : List (Action WriteCall Fate))

/-- The states of a run are all clean if and only if its effects are all careful. After such a run a drain that
succeeds leaves nothing to upload. -/
theorem clean_uploaded_iff :
    (Runs.AllStates (system options).act (fun pool => ∀ ino, Clean pool.world pool.ghost (states pool) ino) start actions ↔
      Runs.AllSteps (system options).act
        (Guarded fun w touched states i uncounted e fate => ∀ ino, Careful w touched states i uncounted e fate ino)
        start actions) ∧
    (Runs.AllSteps (system options).act
        (Guarded fun w touched states i uncounted e fate => ∀ ino, Careful w touched states i uncounted e fate ino)
        start actions →
      let pool := Runs.run (system options).act start actions
      (∀ thread ∈ pool.threads, ∃ result, thread.rest = .ret result) →
      ∀ fates entries, (exec World.perform (drainAll options).run fates pool.world).1 = .ok entries →
        (∀ entry ∈ entries, entry.2 = .ok ()) →
        let drained := (exec World.perform (drainAll options).run fates pool.world).2
        ∀ ino id, drained.handles.lookup ino = some id → pool.ghost ino → drained.Uploaded ino) :=
  ⟨allStates_clean_iff, fun hcareful hdone _ _ hentries hok _ _ hopen htouched =>
    drainAll_uploads hcareful hdone hentries hok hopen htouched⟩

end CleanRuns

/-- Four bytes by way of a truncation. -/
def truncated : List (Action WriteCall Fate) :=
  .start (.openForWrite 1 "/f" false false) :: List.replicate 4 (.step 0 .fine) ++
    .start (.truncate 1 4) :: List.replicate 4 (.step 1 .fine)

open System WritePathService in
/-- The counter stays at zero, and a drain finds nothing to do. -/
theorem not_clean_uploaded :
    ¬ (∀ options actions, Runs.AllStates (system options).act
      (fun pool => ∀ ino, Clean pool.world pool.ghost (states pool) ino) start actions) ∧
    ¬ (∀ options actions,
      let pool := Runs.run (system options).act start actions
      (∀ thread ∈ pool.threads, ∃ result, thread.rest = .ret result) →
      ∀ fates entries, (exec World.perform (drainAll options).run fates pool.world).1 = .ok entries →
        (∀ entry ∈ entries, entry.2 = .ok ()) →
        let drained := (exec World.perform (drainAll options).run fates pool.world).2
        ∀ ino id, drained.handles.lookup ino = some id → pool.ghost ino → drained.Uploaded ino) := by
  constructor
  · intro h
    have huploaded := (h {} truncated).run 1 0 rfl rfl rfl (by decide)
    cases huploaded
  · intro h
    have hthreads : (Runs.run (system {}).act start truncated).threads =
        List.replicate 2 ⟨[], .ret (.ok ())⟩ := rfl
    have hdone : ∀ thread ∈ (Runs.run (system {}).act start truncated).threads, ∃ result, thread.rest = .ret result := by
      intro thread hthread
      rw [hthreads] at hthread
      exact ⟨.ok (), by rw [List.eq_of_mem_replicate hthread]⟩
    have huploaded := h {} truncated hdone [] [] rfl (by simp) 1 0 rfl rfl
    cases huploaded

end Counting

end Pcloud
