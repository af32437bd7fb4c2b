import Mathlib.Data.List.Basic
import Mathlib.Logic.Function.Basic
import Pcloud.Model.Sync

/-!
# From observations to candidates

The path check of `pcloud-engine/src/lib.rs`, the diff poller, the local scanner with its
tracker of watcher events (`diff_poller.rs`, `local_scan.rs`, `fs_events.rs`), and the bridge
from watcher events to scan entries (`pcloud-fs/src/fs_watcher.rs`).
-/

namespace Pcloud

/-! ## Paths -/

/-- The Unicode property `White_Space`, which `str::trim` strips. -/
def isWhiteSpace (c : Char) : Bool :=
  let n := c.toNat
  (9 ≤ n && n ≤ 13) || n = 0x20 || n = 0x85 || n = 0xA0 || n = 0x1680 ||
    (0x2000 ≤ n && n ≤ 0x200A) || n = 0x2028 || n = 0x2029 || n = 0x202F || n = 0x205F || n = 0x3000

def trim (s : List Char) : List Char :=
  ((s.dropWhile isWhiteSpace).reverse.dropWhile isWhiteSpace).reverse

def isValidRelativePath (path : String) : Bool :=
  let trimmed := trim path.toList
  if trimmed.isEmpty || trimmed.head? = some '/' || "./".toList.isPrefixOf trimmed ||
      trimmed.contains (Char.ofNat 92) then false
  else !(trimmed.splitOn '/').any fun segment => segment.isEmpty || segment = ".".toList ||
    segment = "..".toList

def validateRelativePath {ε : Type} (invalidPath : String → ε) (path : String) : Except ε Unit :=
  if isValidRelativePath path then .ok () else .error (invalidPath path)

/-! ## Remote diffs -/

structure RemoteDiffEntry where
  path : String
  entryKind : EntryKind
  changeKind : ChangeKind
  remoteFileId : Option RemoteFileId
  remoteFolderId : Option RemoteFolderId
  event : Option Nat
  deriving DecidableEq, Repr

structure RemoteDiffBatch where
  syncId : SyncId
  cursor : Nat
  hasMore : Bool
  entries : List RemoteDiffEntry
  deriving DecidableEq, Repr

inductive DiffNormalizationError where
  | InvalidPath (path : String)
  deriving DecidableEq, Repr

namespace DiffPoller

def candidateOf (syncId : SyncId) (entry : RemoteDiffEntry) : SyncCandidate where
  syncId := syncId
  source := .Remote
  path := entry.path
  entryKind := entry.entryKind
  changeKind := entry.changeKind
  remoteFileId := entry.remoteFileId
  remoteFolderId := entry.remoteFolderId

def normalizeEntry (syncId : SyncId) (entry : RemoteDiffEntry) :
    Except DiffNormalizationError SyncCandidate := do
  validateRelativePath .InvalidPath entry.path
  return candidateOf syncId entry

def normalizeBatch (batch : RemoteDiffBatch) : Except DiffNormalizationError (List SyncCandidate) :=
  batch.entries.mapM (normalizeEntry batch.syncId)

end DiffPoller

/-! ## Local scans -/

structure LocalScanEntry where
  syncId : SyncId
  path : String
  entryKind : EntryKind
  deleted : Bool
  remoteParentFolderId : Option RemoteFolderId
  deriving DecidableEq, Repr

inductive LocalScanError where
  | InvalidPath (path : String)
  deriving DecidableEq, Repr

namespace LocalScanner

def candidateOf (entry : LocalScanEntry) : SyncCandidate where
  syncId := entry.syncId
  source := .Local
  path := entry.path
  entryKind := entry.entryKind
  changeKind := if entry.deleted then .Delete else .Upsert
  remoteFileId := none
  remoteFolderId := entry.remoteParentFolderId

def normalizeEntry (entry : LocalScanEntry) : Except LocalScanError SyncCandidate := do
  validateRelativePath .InvalidPath entry.path
  return candidateOf entry

def normalizeEntries (entries : List LocalScanEntry) : Except LocalScanError (List SyncCandidate) :=
  entries.mapM normalizeEntry

end LocalScanner

/-! ## Watcher events -/

inductive FsEventKind where
  | Write
  | Create
  | Remove
  deriving DecidableEq, Repr

structure FsEvent where
  syncId : SyncId
  path : String
  entryKind : EntryKind
  kind : FsEventKind
  deriving DecidableEq, Repr

def fsEventsToLocalScanEntries (events : List FsEvent) : List LocalScanEntry :=
  events.map fun event =>
    { syncId := event.syncId
      path := event.path
      entryKind := event.entryKind
      deleted := event.kind = .Remove
      remoteParentFolderId := none }

inductive ScanDecision where
  | FullScan
  | IncrementalOnly (pendingEvents : List FsEvent)
  deriving DecidableEq, Repr

/-- Each root's pending events are events of that root. Instants are numbers on one clock. -/
structure IncrementalScanTracker where
  fullScanInterval : Nat
  lastFullScan : SyncId → Option Nat
  pendingEvents : (syncId : SyncId) → List { event : FsEvent // event.syncId = syncId }

namespace IncrementalScanTracker

def new (fullScanInterval : Nat) : IncrementalScanTracker where
  fullScanInterval := fullScanInterval
  lastFullScan := fun _ => none
  pendingEvents := fun _ => []

variable (t : IncrementalScanTracker)

def pushEvent (event : FsEvent) : IncrementalScanTracker :=
  { t with
    pendingEvents := Function.update t.pendingEvents event.syncId
      (t.pendingEvents event.syncId ++ [⟨event, rfl⟩]) }

/-- The decision at an instant. Either way the root's pending events are gone afterwards. -/
def decide (now : Nat) (syncId : SyncId) : ScanDecision × IncrementalScanTracker :=
  let needsFull := match t.lastFullScan syncId with
    | none => true
    | some last => t.fullScanInterval ≤ now - last
  let drained := { t with pendingEvents := Function.update t.pendingEvents syncId [] }
  if needsFull then (.FullScan, drained)
  else (.IncrementalOnly ((t.pendingEvents syncId).map (·.val)), drained)

def recordFullScan (now : Nat) (syncId : SyncId) : IncrementalScanTracker :=
  { t with lastFullScan := Function.update t.lastFullScan syncId (some now) }

def untrack (syncId : SyncId) : IncrementalScanTracker :=
  { t with
    lastFullScan := Function.update t.lastFullScan syncId none
    pendingEvents := Function.update t.pendingEvents syncId [] }

variable {t}

theorem decide_syncId {now : Nat} {syncId : SyncId} {events : List FsEvent}
    (h : (t.decide now syncId).1 = .IncrementalOnly events) {event : FsEvent} (he : event ∈ events) :
    event.syncId = syncId := by
  unfold decide at h
  simp only at h
  generalize (match t.lastFullScan syncId with
    | none => true
    | some last => Decidable.decide (t.fullScanInterval ≤ now - last)) = needsFull at h
  cases needsFull with
  | false =>
    rw [← ScanDecision.IncrementalOnly.inj h] at he
    obtain ⟨own, -, rfl⟩ := List.mem_map.mp he
    exact own.property
  | true => cases h

end IncrementalScanTracker

/-! ## What comes out -/

theorem toOption_eq_some {ε α : Type*} {x : Except ε α} {a : α} : x.toOption = some a ↔ x = .ok a := by
  cases x <;> simp [Except.toOption]

theorem mapM_validated {ε α β : Type} (invalidPath : String → ε) (pathOf : α → String) (f : α → β)
    (l : List α) (r : List β) :
    l.mapM (fun a => do validateRelativePath invalidPath (pathOf a); return f a) = .ok r ↔
      (∀ a ∈ l, isValidRelativePath (pathOf a) = true) ∧ r = l.map f := by
  induction l generalizing r with
  | nil =>
    simp only [List.mapM_nil, List.not_mem_nil, false_implies, implies_true, true_and, List.map_nil]
    exact ⟨fun h => (Except.ok.inj h).symm, fun h => h ▸ rfl⟩
  | cons a l ih =>
    rw [List.mapM_cons]
    unfold validateRelativePath at ih ⊢
    rcases hv : isValidRelativePath (pathOf a) with _ | _
    · simp [hv, bind, Except.bind]
    · simp only [if_true, hv, List.mem_cons, forall_eq_or_imp, true_and, List.map_cons]
      constructor
      · intro h
        simp only [bind, Except.bind, pure, Except.pure] at h
        split at h
        · cases h
        · rename_i rs hrs
          obtain ⟨hall, rfl⟩ := (ih rs).mp hrs
          exact ⟨hall, (Except.ok.inj h).symm⟩
      · rintro ⟨hall, rfl⟩
        have hrs := (ih (l.map f)).mpr ⟨hall, rfl⟩
        simp only [bind, Except.bind, pure, Except.pure] at hrs ⊢
        rw [hrs]

theorem normalizeBatch_eq_ok {batch : RemoteDiffBatch} {candidates : List SyncCandidate} :
    DiffPoller.normalizeBatch batch = .ok candidates ↔
      (∀ e ∈ batch.entries, isValidRelativePath e.path = true) ∧
        candidates = batch.entries.map (DiffPoller.candidateOf batch.syncId) := by
  unfold DiffPoller.normalizeBatch DiffPoller.normalizeEntry
  exact mapM_validated DiffNormalizationError.InvalidPath RemoteDiffEntry.path _ _ _

theorem normalizeEntries_eq_ok {entries : List LocalScanEntry} {candidates : List SyncCandidate} :
    LocalScanner.normalizeEntries entries = .ok candidates ↔
      (∀ e ∈ entries, isValidRelativePath e.path = true) ∧
        candidates = entries.map LocalScanner.candidateOf := by
  unfold LocalScanner.normalizeEntries LocalScanner.normalizeEntry
  exact mapM_validated LocalScanError.InvalidPath LocalScanEntry.path _ _ _

theorem mem_normalizeEntries {entries : List LocalScanEntry} {candidates : List SyncCandidate}
    (h : LocalScanner.normalizeEntries entries = .ok candidates) {c : SyncCandidate}
    (hc : c ∈ candidates) : c.source = .Local ∧ ∃ e ∈ entries, c.syncId = e.syncId := by
  obtain ⟨-, rfl⟩ := normalizeEntries_eq_ok.mp h
  obtain ⟨e, he, rfl⟩ := List.mem_map.mp hc
  exact ⟨rfl, e, he, rfl⟩

end Pcloud
