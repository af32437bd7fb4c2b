import Mathlib.Data.List.Sort
import Pcloud.Model.Sync

/-!
# The planner (`pcloud-engine/src/planner.rs`)

Candidates are sorted by path and side, walked one path at a time, and each path gives
one operation, up to the cap of the tick. What is left over is the overflow.
-/

namespace Pcloud

/-! ## One pair of candidates -/

def basename (path : String) : String :=
  String.ofList ((path.toList.reverse.takeWhile (· ≠ '/')).reverse)

def planSingle (candidate : SyncCandidate) : PlannedOperation :=
  match candidate.source, candidate.entryKind, candidate.changeKind with
  | .Local, .File, .Upsert =>
    .UploadFile candidate.syncId candidate.path candidate.remoteFolderId (basename candidate.path)
  | .Remote, .File, .Upsert =>
    .DownloadFile candidate.syncId candidate.path candidate.remoteFileId
  | .Local, .Folder, .Upsert => .CreateRemoteDirectory candidate.syncId candidate.path
  | .Remote, .Folder, .Upsert =>
    .CreateLocalDirectory candidate.syncId candidate.path candidate.remoteFolderId
  | .Local, _, .Delete => .DeleteRemote candidate.syncId candidate.path
  | .Remote, _, .Delete => .DeleteLocal candidate.syncId candidate.path

def conflict (candidate : SyncCandidate) (kind : ConflictKind) : PlannedOperation :=
  .Conflict candidate.syncId candidate.path kind

def planConflictOrResolution (loc remote : SyncCandidate) : PlannedOperation :=
  if loc.entryKind ≠ remote.entryKind then conflict loc .TypeMismatch
  else match loc.changeKind, remote.changeKind with
    | .Upsert, .Upsert => conflict loc .LocalModifyVsRemoteModify
    | .Delete, .Upsert => conflict loc .LocalDeleteVsRemoteModify
    | .Upsert, .Delete => conflict loc .RemoteDeleteVsLocalModify
    | .Delete, .Delete => .DeleteLocal remote.syncId remote.path

def planPair (loc remote : Option SyncCandidate) : Option PlannedOperation :=
  match loc, remote with
  | some l, some r => some (planConflictOrResolution l r)
  | some l, none => some (planSingle l)
  | none, some r => some (planSingle r)
  | none, none => none

/-! ## The loop -/

/-- The order of the planner's sort: path first, then `Local` before `Remote`. -/
def SyncCandidate.Before (left right : SyncCandidate) : Prop :=
  left.path < right.path ∨
    left.path = right.path ∧ (left.source = .Local ∨ right.source = .Remote)

instance : DecidableRel SyncCandidate.Before :=
  fun left right => inferInstanceAs (Decidable (left.path < right.path ∨
    left.path = right.path ∧ (left.source = .Local ∨ right.source = .Remote)))

/-- The inner loop: walks the candidates at `path` and keeps the last one of each side. -/
def takeGroup (path : String) (loc remote : Option SyncCandidate) :
    List SyncCandidate → Option SyncCandidate × Option SyncCandidate × List SyncCandidate
  | [] => (loc, remote, [])
  | c :: rest =>
    if c.path = path then
      match c.source with
      | .Local => takeGroup path (some c) remote rest
      | .Remote => takeGroup path loc (some c) rest
    else (loc, remote, c :: rest)

theorem takeGroup_rest (path : String) (loc remote : Option SyncCandidate) (l : List SyncCandidate) :
    (takeGroup path loc remote l).2.2 = l.dropWhile (fun c => c.path = path) := by
  induction l generalizing loc remote with
  | nil => rfl
  | cons c l ih =>
    by_cases hc : c.path = path
    · cases hs : c.source <;> simp [takeGroup, hc, hs, ih]
    · simp [takeGroup, hc]

theorem takeGroup_rest_lt (c : SyncCandidate) (rest : List SyncCandidate) :
    (takeGroup c.path none none (c :: rest)).2.2.length < (c :: rest).length := by
  rw [takeGroup_rest, List.dropWhile_cons_of_pos (by simp), List.length_cons]
  exact Nat.lt_succ_of_le (List.dropWhile_sublist _).length_le

/-- The outer loop, over the part of the sorted list that is not yet walked. -/
def planLoop (maxOperationsPerTick : Nat) (operations : List PlannedOperation) :
    List SyncCandidate → List PlannedOperation × List SyncCandidate
  | [] => (operations, [])
  | c :: rest =>
    if operations.length < maxOperationsPerTick then
      let group := takeGroup c.path none none (c :: rest)
      let operations := match planPair group.1 group.2.1 with
        | some operation => operations ++ [operation]
        | none => operations
      planLoop maxOperationsPerTick operations group.2.2
    else (operations, c :: rest)
termination_by sorted => sorted.length
decreasing_by exact takeGroup_rest_lt c rest

structure Planner where
  maxOperationsPerTick : Nat := 1024
  deriving DecidableEq, Repr

def Planner.planWithOverflow (planner : Planner) (candidates : List SyncCandidate) :
    List PlannedOperation × List SyncCandidate :=
  planLoop planner.maxOperationsPerTick [] (candidates.insertionSort SyncCandidate.Before)

def Planner.plan (planner : Planner) (candidates : List SyncCandidate) : List PlannedOperation :=
  (planner.planWithOverflow candidates).1

/-! ## The delete policy -/

structure DeletePolicy where
  allowDeleteRemote : Bool := true
  allowDeleteLocal : Bool := true
  deriving DecidableEq, Repr

def DeletePolicy.forSyncType (syncType : SyncType) (propagateDeletes : Bool) : DeletePolicy :=
  if !propagateDeletes then ⟨false, false⟩
  else match syncType with
    | .Full => ⟨true, true⟩
    | .UploadOnly => ⟨true, false⟩
    | .DownloadOnly => ⟨false, true⟩
    | .BackupArchive => ⟨false, false⟩

def DeletePolicy.suppresses (policy : DeletePolicy) : PlannedOperation → Bool
  | .DeleteRemote .. => !policy.allowDeleteRemote
  | .DeleteLocal .. => !policy.allowDeleteLocal
  | _ => false

def Planner.planFilteredWithOverflow (planner : Planner) (candidates : List SyncCandidate)
    (policy : DeletePolicy) : List PlannedOperation × List SyncCandidate :=
  let (operations, overflow) := planner.planWithOverflow candidates
  (operations.filter (fun op => !policy.suppresses op), overflow)

end Pcloud
