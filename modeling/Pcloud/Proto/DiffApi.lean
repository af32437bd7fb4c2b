import Pcloud.Backends.SyncBackend
import Pcloud.Proto.Response

/-!
# The `diff` response (`pcloud-proto/src/{sync_api,diff_api}.rs`)

Two clients decode the same response. `SyncApi::diff`, which the sync loop uses, has no place for
the server's `reset`. `DiffApi::poll_diff` keeps it, and the poller around it goes to the cursor
of the response, ahead or not.
-/

namespace Pcloud

/-! ## What both clients do -/

/-- `SyncApiError` and `DiffApiError`, which agree but for their names. -/
inductive DiffApiError where
  | Transport (err : String)
  | Result (result : UInt64) (message : Option String)
  | Malformed (what : String)
  deriving DecidableEq, Repr

def orMalformed {α : Type} (what : String) : Option α → Except DiffApiError α
  | some a => .ok a
  | none => .error (.Malformed what)

def expectOkResult (view : HashView) : Except DiffApiError Unit :=
  let result := (view.getNumber "result").getD 0
  if result = 0 then .ok () else .error (.Result result (view.getString "error"))

def parseDiffEntry (value : Value) : Except DiffApiError DiffEntry := do
  let view ← orMalformed "diff entry was not a hash" value.asHash
  let metadata ← orMalformed "diff entry missing metadata" (view.getHash "metadata")
  let name ← orMalformed "diff metadata missing name" (metadata.getString "name")
  return {
    event := (view.getNumber "event").map (·.toNat)
    metadata := {
      name
      isFolder := (metadata.getBool "isfolder").getD false
      fileId := metadata.getNumber "fileid"
      folderId := metadata.getNumber "folderid"
      parentFolderId := metadata.getNumber "parentfolderid"
      deleted := (view.getBool "deleted").getD false || (metadata.getBool "deleted").getD false } }

/-- The fields of an accepted response that both clients read. -/
structure DiffFields where
  view : HashView
  entries : List DiffEntry
  diffId : Nat

def readDiff (response : Except String Value) : Except DiffApiError DiffFields := do
  let value ← response.mapError .Transport
  let view ← orMalformed "diff response was not a hash" value.asHash
  expectOkResult view
  let values ← orMalformed "diff response missing entries" (view.getArray "entries")
  let entries ← values.mapM parseDiffEntry
  let diffId ← orMalformed "diff response missing diffid"
    ((view.getNumber "diffid").or (view.getNumber "diffidfrom"))
  return ⟨view, entries, diffId.toNat⟩

/-! ## The two clients -/

def SyncApi.diff (response : Except String Value) : Except DiffApiError DiffBatch := do
  let fields ← readDiff response
  return {
    diffId := fields.diffId
    hasMore := (fields.view.getBool "hasmore").getD false
    entries := fields.entries }

structure DiffResponse where
  newDiffId : Nat
  reset : Bool
  hasMore : Bool
  entries : List DiffEntry

def DiffApi.pollDiff (cursor : Nat) (response : Except String Value) :
    Except DiffApiError DiffResponse := do
  let fields ← readDiff response
  return {
    newDiffId := fields.diffId
    reset := (fields.view.getBool "reset").getD false || decide (0 < cursor ∧ fields.diffId = 0)
    hasMore := (fields.view.getBool "hasmore").getD false
    entries := fields.entries }

structure DiffPollerState where
  cursor : Nat
  deriving DecidableEq, Repr

def DiffPollerState.pollOnce (state : DiffPollerState) (response : Except String Value) :
    DiffPollerState :=
  match DiffApi.pollDiff state.cursor response with
  | .ok answer => { state with cursor := answer.newDiffId }
  | .error _ => state

theorem DiffPollerState.pollOnce_cursor (state : DiffPollerState) {response : Except String Value}
    {batch : DiffBatch} (h : SyncApi.diff response = .ok batch) :
    (state.pollOnce response).cursor = batch.diffId := by
  unfold SyncApi.diff at h
  unfold pollOnce DiffApi.pollDiff
  cases hfields : readDiff response with
  | error err =>
    rw [hfields] at h
    cases h
  | ok fields =>
    rw [hfields] at h
    obtain rfl := Except.ok.inj h
    rfl

end Pcloud
