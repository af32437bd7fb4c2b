import Pcloud.Daemon.Crash
import Pcloud.Proto.DiffApi

/-!
# Following the server's cursor

A poll writes the cursor of its answer only if it is ahead of the persisted one. An answer behind
it, which is how the server resets a client, is ingested and the old cursor stays.
-/

open Runs

namespace Pcloud

/-- A call, with the server's response where it asks the server. -/
inductive ServerCall where
  | pollRemoteDiff (root : SyncRootRecord) (response : Except String Value)
  | runLocalScan (root : SyncRootRecord) (input : Runtime.ScanInput)
  | advanceTransfers
  | executeDownloads (outcomes : Runtime.Outcomes)
  | executeUploads (outcomes : Runtime.Outcomes)

def ServerCall.toSyncCall : ServerCall → SyncCall
  | .pollRemoteDiff root response => .pollRemoteDiff root (SyncApi.diff response).toOption
  | .runLocalScan root input => .runLocalScan root input
  | .advanceTransfers => .advanceTransfers
  | .executeDownloads outcomes => .executeDownloads outcomes
  | .executeUploads outcomes => .executeUploads outcomes

namespace Runtime

variable (rt : Runtime) {root : SyncRootRecord} {response : Except String Value} {batch : DiffBatch}

def serverStep (call : ServerCall) : Runtime := rt.step call.toSyncCall

/-- A poll that returns `Ok` leaves the root at the cursor of the response. -/
def FollowsCursor : ServerCall → Prop
  | .pollRemoteDiff root response => ∀ batch, SyncApi.diff response = .ok batch →
    (rt.pollRemoteDiff root (some batch)).1.isSome →
      (rt.serverStep (.pollRemoteDiff root response)).store.cursor root.syncId = batch.diffId
  | _ => True

/-- The server does not go back: the cursor of a response is not behind the persisted one. A
response with an invalid path, or with a deleted id that fits no column, makes the poll fail and may
have any cursor. So may one whose own cursor fits no column, but that one is ahead. -/
def NotBehind : ServerCall → Prop
  | .pollRemoteDiff root response => ∀ batch, SyncApi.diff response = .ok batch →
    (∀ entry ∈ batch.entries, isValidRelativePath entry.metadata.name = true) →
    (∀ id ∈ (convertDiffBatch batch).entries.filterMap deletedId, fitsColumn id = true) →
      rt.store.cursor root.syncId ≤ batch.diffId
  | _ => True

theorem pollRemoteDiff_isSome :
    (rt.pollRemoteDiff root (some batch)).1.isSome ↔
      (∀ entry ∈ batch.entries, isValidRelativePath entry.metadata.name = true) ∧
        Storable rt.store root (convertDiffBatch batch) := by
  cases hnorm : DiffPoller.normalizeBatch (convertDiffBatch batch) with
  | error err =>
    have hfails : (rt.pollRemoteDiff root (some batch)).1 = none := by simp only [pollRemoteDiff, hnorm]
    refine iff_of_false (by simp [hfails]) fun hvalid => ?_
    have hok := normalize_convert_eq_ok.mpr ⟨hvalid.1, rfl⟩
    rw [hnorm] at hok
    cases hok
  | ok candidates =>
    have hcommits : ((rt.ingest root candidates).persistPlannerOverflow.commit root
        (convertDiffBatch batch)).isSome ↔ Storable rt.store root (convertDiffBatch batch) := by
      rw [commit, Option.isSome_map]
      exact commitDiffBatch_isSome
    rw [and_iff_right (normalize_convert_eq_ok.mp hnorm).1, ← hcommits]
    simp only [pollRemoteDiff, hnorm]
    cases (rt.ingest root candidates).persistPlannerOverflow.commit root (convertDiffBatch batch) <;> simp

theorem pollRemoteDiff_cursor
    (hvalid : ∀ entry ∈ batch.entries, isValidRelativePath entry.metadata.name = true)
    (hstorable : Storable rt.store root (convertDiffBatch batch)) :
    (rt.pollRemoteDiff root (some batch)).2.store.cursor root.syncId =
      max (rt.store.cursor root.syncId) batch.diffId := by
  have hpolled := pollCandidates_eq_some.mpr ⟨hvalid, rfl⟩
  rw [rt.pollRemoteDiff_of_some hpolled]
  exact cursor_committed.trans (if_pos ⟨rfl, hstorable⟩)

theorem followsCursor_iff (call : ServerCall) : rt.FollowsCursor call ↔ rt.NotBehind call := by
  cases call with
  | pollRemoteDiff root response =>
    refine forall_congr' fun batch => forall_congr' fun hbatch => ?_
    rw [pollRemoteDiff_isSome, and_imp]
    refine forall_congr' fun hvalid => ?_
    have hstep : rt.serverStep (.pollRemoteDiff root response) = (rt.pollRemoteDiff root (some batch)).2 := by
      simp only [serverStep, ServerCall.toSyncCall, hbatch]
      rfl
    rw [hstep]
    constructor
    · intro hfollows hids
      by_contra hbehind
      -- A cursor that is behind is not written, so nothing refuses it.
      have hstorable : Storable rt.store root (convertDiffBatch batch) :=
        ⟨hids, fun hahead => absurd (Nat.le_of_lt hahead) hbehind⟩
      have hcursor := hfollows hstorable
      rw [pollRemoteDiff_cursor rt hvalid hstorable] at hcursor
      exact hbehind (max_eq_right_iff.mp hcursor)
    · intro hnot hstorable
      rw [pollRemoteDiff_cursor rt hvalid hstorable]
      exact max_eq_right_iff.mpr (hnot hstorable.1)
  | _ => exact Iff.rfl

/-- In a run, each poll that returns `Ok` leaves its root at the cursor of the response, exactly
when no response that does not make its poll fail is behind the cursor it answers. -/
theorem cursor_followed_iff (calls : List ServerCall) :
    AllSteps serverStep FollowsCursor rt calls ↔ AllSteps serverStep NotBehind rt calls :=
  allSteps_congr (I := fun _ => True) trivial (fun rt call _ => rt.followsCursor_iff call)
    fun _ _ _ _ => trivial

/-- The server is at 10, then resets the client to 3. The next request asks from 10 on again, where
the poller of the other client asks from 3 on. -/
theorem reset_not_followed :
    let root : SyncRootRecord := { syncId := ⟨1⟩, syncType := .Full }
    let reset : Value := .hash [("diffid", .number 3), ("reset", .bool true), ("entries", .array [])]
    let calls : List ServerCall :=
      [.pollRemoteDiff root (.ok (.hash [("diffid", .number 10), ("entries", .array [])])),
        .pollRemoteDiff root (.ok reset)]
    let rt := new [root] {} 300 true
    (run serverStep rt calls).store.cursor ⟨1⟩ = 10 ∧
      ((⟨10⟩ : DiffPollerState).pollOnce (.ok reset)).cursor = 3 ∧
      ¬ AllSteps serverStep FollowsCursor rt calls := by
  refine ⟨by decide +kernel, by decide +kernel, ?_⟩
  rintro ⟨-, hfollows, -⟩
  have hcursor := hfollows ⟨3, false, []⟩ (by decide +kernel) (by decide +kernel)
  revert hcursor
  decide +kernel

end Runtime

end Pcloud
