import Pcloud.Fs.WritePath

/-!
# `unlink` and `rename` beside the open handles (`pcloud-fs/src/write_path.rs`)

What the two calls leave of the open handles and of the staging blobs. `unlink` drops a handle and its blob before it
asks the backend, and `rename` moves the handles of the very path it renames and none below it.
-/

namespace Pcloud.WritePathService

open Program

variable {w w' : World} {fates : List Fate}

/-- A call that changes names. -/
inductive NamespaceCall
  | unlink (ino : Option Nat) (path : String)
  | rename (source target : String)

def NamespaceCall.program : NamespaceCall → WriteProg Unit
  | .unlink ino path => WritePathService.unlink ino path
  | .rename source target => WritePathService.rename source target

/-- The open handles, what is in them, and the staging blobs. -/
structure SameLocal (w w' : World) : Prop where
  handles : w'.handles = w.handles
  heap : w'.heap = w.heap
  blobs : w'.blobs = w.blobs

/-- The handle that is open for an inode. -/
def Opened (w : World) (ino id : Nat) (handle : WriteHandle) : Prop :=
  w.handles.lookup ino = some id ∧ w.heap[id]? = some handle

/-- Every open handle of the source, or of something below it, has the path it then has. -/
def HandlesRenamed (source target : String) (w w' : World) : Prop :=
  ∀ ino id handle, Opened w ino id handle → ∃ handle', Opened w' ino id handle' ∧
    (handle.path = source → handle'.path = target) ∧
    ∀ rest, handle.path = source ++ "/" ++ rest → handle'.path = target ++ "/" ++ rest

/-- An error changes nothing here, and a rename that is done is done for the handles too. -/
def Consistent (call : NamespaceCall) (result : Except WritePathError Unit) (w w' : World) : Prop :=
  (∀ error, result = .error error → SameLocal w w') ∧
    ∀ source target, call = .rename source target → result = .ok () → HandlesRenamed source target w w'

/-- The record of the call gets into the journal. -/
def Journaled (fates : List Fate) : Prop := ∀ failure, fates.headI ≠ .append failure

/-- `unlink` finds something to drop, and then the backend refuses. -/
def DropsUnsaved (w : World) (ino : Option Nat) (fates : List Fate) : Prop :=
  Journaled fates ∧ (∃ error, fates.tail.tail.tail.headI = .refused error) ∧
    ∃ i, ino = some i ∧ (w.handles.lookup i ≠ none ∨ w.blobs i ≠ none ∧ ∀ n, fates.tail.headI ≠ .disk n)

/-- `rename` moves a directory that has an open handle below it. -/
def LeavesBehind (w : World) (source target : String) (fates : List Fate) : Prop :=
  Journaled fates ∧ (∀ error, fates.tail.headI ≠ .refused error) ∧ source ≠ target ∧
    ∃ ino id handle rest, Opened w ino id handle ∧ handle.path = source ++ "/" ++ rest

def Harms (w : World) (fates : List Fate) : NamespaceCall → Prop
  | .unlink ino _ => DropsUnsaved w ino fates
  | .rename source target => LeavesBehind w source target fates

/-! ## What stays -/

theorem SameLocal.refl (w : World) : SameLocal w w := ⟨rfl, rfl, rfl⟩

theorem SameLocal.trans {w'' : World} (h : SameLocal w w') (h' : SameLocal w' w'') : SameLocal w w'' :=
  ⟨h'.handles.trans h.handles, h'.heap.trans h.heap, h'.blobs.trans h.blobs⟩

theorem SameLocal.symm (h : SameLocal w w') : SameLocal w' w := ⟨h.handles.symm, h.heap.symm, h.blobs.symm⟩

theorem SameLocal.consistent (h : SameLocal w w') {call : NamespaceCall} {error : WritePathError} :
    Consistent call (.error error) w w' :=
  ⟨fun _ _ => h, fun _ _ _ hok => nomatch hok⟩

theorem consistent_error_iff {call : NamespaceCall} {error : WritePathError} :
    Consistent call (.error error) w w' ↔ SameLocal w w' :=
  ⟨fun h => h.1 error rfl, fun h => h.consistent⟩

theorem sameLocal_journalAppend (w : World) (op : JournalOp) (fate : Fate) :
    SameLocal w (w.perform (.journalAppend op) fate).2 := ⟨rfl, rfl, rfl⟩

theorem sameLocal_unlinkRemote (w : World) (path : String) (fate : Fate) :
    SameLocal w (w.perform (.unlinkRemote path) fate).2 := by
  simp only [World.perform]
  rcases w.unlessRefused_cases fate (.ok (), { w with remote := .unlinked path :: w.remote }) with ⟨_, -, heq⟩ | heq <;>
  rw [heq]
  · exact .refl w
  · exact ⟨rfl, rfl, rfl⟩

/-! ## Unlink -/

theorem erase_eq_self_iff {handles : AList fun _ : Nat => Nat} {ino : Nat} :
    handles.erase ino = handles ↔ handles.lookup ino = none := by
  constructor
  · intro h
    rw [← h, AList.lookup_erase]
  · intro h
    apply AList.ext
    exact List.kerase_of_notMem_keys (AList.lookup_eq_none.mp h)

theorem sameLocal_dropped_iff (w : World) (ino : Nat) (fate fate' : Fate) :
    SameLocal w ((w.perform (.removeBlob ino) fate).2.perform (.removeHandle ino) fate').2 ↔
      ¬ (w.handles.lookup ino ≠ none ∨ w.blobs ino ≠ none ∧ ∀ n, fate ≠ .disk n) := by
  by_cases hdisk : ∃ n, fate = .disk n
  · obtain ⟨n, rfl⟩ := hdisk
    constructor
    · rintro ⟨hhandles, -, -⟩ (hopen | ⟨-, hfine⟩)
      · exact hopen (erase_eq_self_iff.mp hhandles)
      · exact hfine n rfl
    · intro h
      have hnone : w.handles.lookup ino = none := not_not.mp fun hopen => h (.inl hopen)
      exact ⟨erase_eq_self_iff.mpr hnone, rfl, rfl⟩
  · have hfine : ∀ n, fate ≠ .disk n := fun n heq => hdisk ⟨n, heq⟩
    have hremoved : (w.perform (.removeBlob ino) fate).2 = w.setBlob ino none := by
      cases fate
      case disk n => exact absurd rfl (hfine n)
      all_goals rfl
    rw [hremoved]
    constructor
    · rintro ⟨hhandles, -, hblobs⟩ (hopen | ⟨hblob, -⟩)
      · exact hopen (erase_eq_self_iff.mp hhandles)
      · exact hblob (Function.update_eq_self_iff.mp hblobs).symm
    · intro h
      have hnone : w.handles.lookup ino = none := not_not.mp fun hopen => h (.inl hopen)
      have hblob : w.blobs ino = none := not_not.mp fun hblob => h (.inr ⟨hblob, hfine⟩)
      exact ⟨erase_eq_self_iff.mpr hnone, rfl, Function.update_eq_self_iff.mpr hblob.symm⟩

theorem consistent_unlinkRemote_iff (w w' : World) (ino : Option Nat) (path : String) (fate : Fate) :
    Consistent (.unlink ino path) (w'.perform (.unlinkRemote path) fate).1 w (w'.perform (.unlinkRemote path) fate).2 ↔
      ((∃ error, fate = .refused error) → SameLocal w w') := by
  have hsame := sameLocal_unlinkRemote w' path fate
  by_cases hrefused : ∃ error, fate = .refused error
  · obtain ⟨error, rfl⟩ := hrefused
    refine consistent_error_iff.trans ?_
    exact ⟨fun h _ => h.trans hsame.symm, fun h => (h ⟨error, rfl⟩).trans hsame⟩
  · have hok : (w'.perform (.unlinkRemote path) fate).1 = .ok () := by
      cases fate
      case refused error => exact absurd ⟨error, rfl⟩ hrefused
      all_goals rfl
    rw [hok]
    refine iff_of_true ⟨?_, ?_⟩ fun h => absurd h hrefused
    · rintro _ ⟨⟩
    · rintro _ _ ⟨⟩

theorem follows_unlink (w : World) (ino : Option Nat) (path : String) (fates : List Fate) :
    Follows (scripted World.perform)
      (fun result s => Consistent (.unlink ino path) result w s.2 ↔ ¬ DropsUnsaved w ino fates)
      (WritePathService.unlink ino path).run (fates, w) := by
  refine follows_scripted_op.mpr ?_
  have hsame := sameLocal_journalAppend w (.unlink path) fates.headI
  rcases w.journalAppend_cases fates.headI (.unlink path) with ⟨⟨failure, hfate⟩, hans⟩ | ⟨hfate, seq, hans⟩
  · rw [hans]
    exact iff_of_true hsame.consistent fun hdrops => hdrops.1 failure hfate
  · have hjournaled : Journaled fates := fun failure heq => hfate ⟨failure, heq⟩
    rw [hans]
    generalize (w.perform (.journalAppend (.unlink path)) fates.headI).2 = w₁ at hsame
    rcases ino with _ | ino
    · refine follows_scripted_op.mpr ?_
      refine iff_of_true ((consistent_unlinkRemote_iff w w₁ none path _).mpr fun _ => hsame) ?_
      rintro ⟨-, -, _, ⟨⟩, -⟩
    · refine follows_scripted_op.mpr (follows_scripted_op.mpr (follows_scripted_op.mpr ?_))
      refine (consistent_unlinkRemote_iff w _ (some ino) path _).trans ?_
      have hdropped := sameLocal_dropped_iff w₁ ino fates.tail.headI fates.tail.tail.headI
      rw [hsame.handles, hsame.blobs] at hdropped
      constructor
      · rintro hkept ⟨-, hrefused, _, ⟨⟩, hthere⟩
        exact hdropped.mp (hsame.symm.trans (hkept hrefused)) hthere
      · intro hfine hrefused
        refine hsame.trans (hdropped.mpr fun hthere => hfine ⟨hjournaled, hrefused, ino, rfl, hthere⟩)

/-! ## Rename -/

theorem consistent_rename_ok_iff {source target : String} :
    Consistent (.rename source target) (.ok ()) w w' ↔ HandlesRenamed source target w w' := by
  constructor
  · exact fun h => h.2 source target rfl rfl
  · intro h
    constructor
    · rintro _ ⟨⟩
    · rintro _ _ ⟨⟩ -
      exact h

theorem below_ne (source rest : String) : source ++ "/" ++ rest ≠ source := by
  intro h
  have hlength := congrArg String.length h
  simp only [String.length_append] at hlength
  have hslash : ("/" : String).length = 1 := rfl
  omega

theorem below_inj {source target rest : String} (h : source ++ "/" ++ rest = target ++ "/" ++ rest) :
    source = target := by
  have hlist := congrArg String.toList h
  simp only [String.toList_append] at hlist
  exact String.toList_injective (List.append_cancel_right (List.append_cancel_right hlist))

theorem Opened.unique {ino id id' : Nat} {handle handle' : WriteHandle} (h : Opened w ino id handle)
    (h' : Opened w ino id' handle') : handle = handle' := by
  obtain rfl : id = id' := Option.some.inj (h.1.symm.trans h'.1)
  exact Option.some.inj (h.2.symm.trans h'.2)

theorem SameLocal.opened (h : SameLocal w w') {ino id : Nat} {handle : WriteHandle} :
    Opened w' ino id handle ↔ Opened w ino id handle := by
  rw [Opened, Opened, h.handles, h.heap]

theorem SameLocal.handlesRenamed_iff {w'' : World} {source target : String} (h : SameLocal w w') :
    HandlesRenamed source target w w'' ↔ HandlesRenamed source target w' w'' := by
  simp only [HandlesRenamed, h.opened]

theorem Opened.renamePaths {ino id : Nat} {handle : WriteHandle} (h : Opened w ino id handle) (source target : String)
    (fate : Fate) :
    Opened (w.perform (.renamePaths source target) fate).2 ino id
      (if handle.path = source then { handle with path := target } else handle) := by
  refine ⟨h.1, ?_⟩
  have hin : (w.handles.entries.any fun entry => entry.2 = id) = true := by
    rw [List.any_eq_true]
    exact ⟨⟨ino, id⟩, AList.mem_lookup_iff.mp h.1, by simp⟩
  simp only [World.perform, List.getElem?_mapIdx, h.2, Option.map_some, hin, if_true]

theorem handlesRenamed_iff (w : World) (source target : String) (fate : Fate) :
    HandlesRenamed source target w (w.perform (.renamePaths source target) fate).2 ↔
      ¬ (source ≠ target ∧ ∃ ino id handle rest, Opened w ino id handle ∧ handle.path = source ++ "/" ++ rest) := by
  constructor
  · rintro hrenamed ⟨hne, ino, id, handle, rest, hopened, hpath⟩
    obtain ⟨handle', hopened', -, hbelow⟩ := hrenamed ino id handle hopened
    have hmoved := hopened.renamePaths source target fate
    rw [if_neg (by rw [hpath]; exact below_ne source rest)] at hmoved
    obtain rfl := hmoved.unique hopened'
    exact hne (below_inj (hpath.symm.trans (hbelow rest hpath)))
  · intro hnone ino id handle hopened
    refine ⟨_, hopened.renamePaths source target fate, ?_, ?_⟩
    · intro hpath
      rw [if_pos hpath]
    · intro rest hpath
      have hsame : source = target := not_not.mp fun hne => hnone ⟨hne, ino, id, handle, rest, hopened, hpath⟩
      rw [if_neg (by rw [hpath]; exact below_ne source rest), hpath, hsame]

theorem follows_rename (w : World) (source target : String) (fates : List Fate) :
    Follows (scripted World.perform)
      (fun result s => Consistent (.rename source target) result w s.2 ↔ ¬ LeavesBehind w source target fates)
      (WritePathService.rename source target).run (fates, w) := by
  refine follows_scripted_op.mpr ?_
  have hsame := sameLocal_journalAppend w (.rename source target) fates.headI
  rcases w.journalAppend_cases fates.headI (.rename source target) with ⟨⟨failure, hfate⟩, hans⟩ | ⟨hfate, seq, hans⟩
  · rw [hans]
    exact iff_of_true hsame.consistent fun hleaves => hleaves.1 failure hfate
  · have hjournaled : Journaled fates := fun failure heq => hfate ⟨failure, heq⟩
    rw [hans]
    generalize (w.perform (.journalAppend (.rename source target)) fates.headI).2 = w₁ at hsame
    refine follows_scripted_op.mpr ?_
    by_cases hrefused : ∃ error, fates.tail.headI = .refused error
    · obtain ⟨error, hrefused⟩ := hrefused
      rw [hrefused]
      exact iff_of_true hsame.consistent fun hleaves => hleaves.2.1 error hrefused
    · have hgranted : w₁.perform (.renameRemote source target) fates.tail.headI =
          (.ok (), { w₁ with remote := .renamed source target :: w₁.remote }) := by
        rcases hcase : fates.tail.headI
        case refused error => exact absurd ⟨error, hcase⟩ hrefused
        all_goals rfl
      rw [hgranted]
      refine follows_scripted_op.mpr ?_
      have hsame₂ : SameLocal w { w₁ with remote := .renamed source target :: w₁.remote } :=
        hsame.trans ⟨rfl, rfl, rfl⟩
      refine consistent_rename_ok_iff.trans (hsame₂.handlesRenamed_iff.trans ?_)
      refine (handlesRenamed_iff _ source target fates.tail.tail.headI).trans ?_
      simp only [hsame₂.opened, LeavesBehind]
      exact not_congr ⟨fun h => ⟨hjournaled, fun error heq => hrefused ⟨error, heq⟩, h⟩, fun h => h.2.2⟩

/-! ## Any call -/

/-- A call that fails leaves the handles and the blobs alone, and one that renames takes the handles along, but for an
`unlink` that is refused at its end and a `rename` of a directory with open files. -/
theorem consistent_iff (w : World) (call : NamespaceCall) (fates : List Fate) :
    Consistent call (exec World.perform call.program.run fates w).1 w (exec World.perform call.program.run fates w).2 ↔
      ¬ Harms w fates call := by
  cases call with
  | unlink ino path =>
    exact (follows_unlink w ino path fates).exec_scripted fun result w' =>
      Consistent (.unlink ino path) result w w' ↔ ¬ DropsUnsaved w ino fates
  | rename source target =>
    exact (follows_rename w source target fates).exec_scripted fun result w' =>
      Consistent (.rename source target) result w w' ↔ ¬ LeavesBehind w source target fates

/-! ### Data of a file that is written -/

/-- A file that is open, with a byte that is on no server. -/
def oneDirty : World :=
  { handles := (∅ : AList fun _ : Nat => Nat).insert 7 0
    heap := [⟨"/d/f", 7, 1, 0, false⟩]
    blobs := Function.update (fun _ => none) 7 (some [42]) }

/-- The backend refuses the `unlink`. -/
def refusedAtEnd : List Fate := [.fine, .fine, .fine, .refused (.uploadTransient "unlink")]

theorem not_consistent :
    ¬ Consistent (.unlink (some 7) "/d/f")
        (exec World.perform (NamespaceCall.program (.unlink (some 7) "/d/f")).run refusedAtEnd oneDirty).1 oneDirty
        (exec World.perform (NamespaceCall.program (.unlink (some 7) "/d/f")).run refusedAtEnd oneDirty).2 ∧
      ¬ Consistent (.rename "/d" "/e")
        (exec World.perform (NamespaceCall.program (.rename "/d" "/e")).run [] oneDirty).1 oneDirty
        (exec World.perform (NamespaceCall.program (.rename "/d" "/e")).run [] oneDirty).2 := by
  constructor
  · intro h
    have hdrops : DropsUnsaved oneDirty (some 7) refusedAtEnd :=
      ⟨by simp [Journaled, refusedAtEnd], ⟨_, rfl⟩, 7, rfl, .inl (by decide)⟩
    have hiff := (follows_unlink oneDirty (some 7) "/d/f" refusedAtEnd).exec_scripted fun result w' =>
      Consistent (.unlink (some 7) "/d/f") result oneDirty w' ↔ ¬ DropsUnsaved oneDirty (some 7) refusedAtEnd
    exact hiff.mp h hdrops
  · intro h
    have hleaves : LeavesBehind oneDirty "/d" "/e" [] :=
      ⟨by simp [Journaled, default], by simp [default], by decide, 7, 0, ⟨"/d/f", 7, 1, 0, false⟩, "f",
        ⟨by decide, rfl⟩, by decide⟩
    have hiff := (follows_rename oneDirty "/d" "/e" []).exec_scripted fun result w' =>
      Consistent (.rename "/d" "/e") result oneDirty w' ↔ ¬ LeavesBehind oneDirty "/d" "/e" []
    exact hiff.mp h hleaves

end Pcloud.WritePathService
