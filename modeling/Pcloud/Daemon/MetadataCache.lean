import Pcloud.Daemon.Runtime
import Pcloud.Lib.Runs
import Pcloud.Store.FileMetadata

/-!
# What the metadata cache holds of files and of folders

The `file_metadata` table has one key column for the ids of files and those of folders, which the server
numbers apart. Queries fail where a number does not fit into a column, and a batch is one transaction.
-/

namespace Pcloud

structure FileMetadataRow extends FileMetadataRecord where
  size : UInt64
  hash : String
  modified : Int64
  created : Int64
deriving DecidableEq

/-- The rows, by the primary key. -/
structure FileMetadataTable where
  rows : List FileMetadataRow
  sorted : rows.Pairwise fun row row' => row.fileId < row'.fileId

namespace FileMetadataTable

variable (table : FileMetadataTable)

/-! ## Queries -/

def getById (fileId : UInt64) : Option FileMetadataRow := table.rows.find? (·.fileId = fileId)

def getByParentAndName (parentFolderId : UInt64) (name : String) : Option FileMetadataRow :=
  table.rows.find? fun row => row.parentFolderId = parentFolderId ∧ row.name = name

/-- The loop of `resolve_path` from one folder on. -/
def resolveSegments (currentFolderId : UInt64) : List String → Option FileMetadataRow
  | [] => none
  | [segment] => table.getByParentAndName currentFolderId segment
  | segment :: rest =>
    match table.getByParentAndName currentFolderId segment with
    | some row => if row.isFolder then resolveSegments row.fileId rest else none
    | none => none

def resolvePath (path : String) : Option FileMetadataRow :=
  let trimmed := path.toList.dropWhile (· = '/')
  if trimmed.isEmpty then table.getById 0
  else table.resolveSegments 0 (((trimmed.splitOn '/').filter (!·.isEmpty)).map String.ofList)

/-- The rows that the loop meets. -/
def rowsAlong (currentFolderId : UInt64) : List String → List FileMetadataRow
  | [] => []
  | segment :: rest =>
    match table.getByParentAndName currentFolderId segment with
    | some row => row :: if row.isFolder then rowsAlong row.fileId rest else []
    | none => []

def rowsOnPath (path : String) : List FileMetadataRow :=
  let trimmed := path.toList.dropWhile (· = '/')
  if trimmed.isEmpty then (table.getById 0).toList
  else table.rowsAlong 0 (((trimmed.splitOn '/').filter (!·.isEmpty)).map String.ofList)

/-- The record of a folder. -/
def folder (folderId : UInt64) : Option FileMetadataRow :=
  table.rows.find? fun row => row.fileId = folderId ∧ row.isFolder

/-! ## Updates -/

/-- `INSERT … ON CONFLICT(file_id) DO UPDATE`. -/
def upsert (record : FileMetadataRow) : Option FileMetadataTable :=
  if fitsColumn record.fileId ∧ fitsColumn record.parentFolderId ∧ fitsColumn record.size then
    some
      { rows := table.rows.filter (·.fileId < record.fileId) ++ record :: table.rows.filter (record.fileId < ·.fileId)
        sorted := by
          refine List.pairwise_append.mpr ⟨table.sorted.filter _, ?_, ?_⟩
          · refine List.pairwise_cons.mpr ⟨fun row hrow => ?_, table.sorted.filter _⟩
            simpa using (List.mem_filter.mp hrow).2
          · intro row hrow row' hrow'
            have hless : row.fileId < record.fileId := by simpa using (List.mem_filter.mp hrow).2
            rcases List.mem_cons.mp hrow' with rfl | hrow'
            · exact hless
            · have hmore : record.fileId < row'.fileId := by simpa using (List.mem_filter.mp hrow').2
              exact UInt64.lt_trans hless hmore }
  else none

/-- Whether a row was deleted, and what is left. -/
def delete (fileId : UInt64) : Option (Bool × FileMetadataTable) :=
  if fitsColumn fileId then
    some (table.rows.any (·.fileId = fileId), ⟨table.rows.filter (·.fileId ≠ fileId), table.sorted.filter _⟩)
  else none

/-- The columns that the walk of the local tree reads. -/
def records : FileMetadataRepository := table.rows.map FileMetadataRow.toFileMetadataRecord

theorem getByParentAndName_records (parentFolderId : UInt64) (name : String) :
    table.records.getByParentAndName parentFolderId name =
      (table.getByParentAndName parentFolderId name).map FileMetadataRow.toFileMetadataRecord := by
  unfold FileMetadataRepository.getByParentAndName getByParentAndName records
  rw [List.find?_map]
  rfl

theorem resolveSegments_records (currentFolderId : UInt64) (segments : List String) :
    table.records.resolveSegments currentFolderId segments =
      (table.resolveSegments currentFolderId segments).map FileMetadataRow.toFileMetadataRecord := by
  induction segments generalizing currentFolderId with
  | nil => rfl
  | cons segment rest ih =>
    cases rest with
    | nil => exact table.getByParentAndName_records currentFolderId segment
    | cons segment' rest =>
      unfold FileMetadataRepository.resolveSegments resolveSegments
      rw [getByParentAndName_records]
      rcases table.getByParentAndName currentFolderId segment with _ | row
      · rfl
      · by_cases hfolder : row.isFolder = true
        · simp [hfolder, ih]
        · simp [hfolder]

theorem resolvePath_records (path : String) :
    table.records.resolvePath path = (table.resolvePath path).map FileMetadataRow.toFileMetadataRecord := by
  unfold FileMetadataRepository.resolvePath resolvePath
  dsimp only
  split
  · unfold FileMetadataRepository.getById getById records
    rw [List.find?_map]
    rfl
  · exact table.resolveSegments_records 0 _

end FileMetadataTable

/-! ## Operations -/

/-- An upsert, or a delete that is meant for an entry of a kind. The statement itself has the id alone. -/
inductive MetadataOp
  | upsert (record : FileMetadataRow)
  | delete (kind : EntryKind) (id : UInt64)

/-- The id of the file that an operation is on. -/
def MetadataOp.file : MetadataOp → Option UInt64
  | .upsert record => if record.isFolder then none else some record.fileId
  | .delete .File id => some id
  | .delete .Folder _ => none

def FileMetadataTable.apply (table : FileMetadataTable) : MetadataOp → Option FileMetadataTable
  | .upsert record => table.upsert record
  | .delete _ id => (table.delete id).map Prod.snd

/-- The table after an operation, which a failed one leaves as it was. -/
def FileMetadataTable.next (table : FileMetadataTable) (op : MetadataOp) : FileMetadataTable :=
  (table.apply op).getD table

structure MetadataStore where
  table : FileMetadataTable
  cursors : SyncId → Option Nat

inductive MetadataCall
  | upsert (record : FileMetadataRow)
  | delete (kind : EntryKind) (id : UInt64)
  | commitDiffBatch (syncId : SyncId) (previousCursor : Nat) (batch : RemoteDiffBatch)

namespace MetadataStore

variable (s : MetadataStore)

/-- The delete that is made for an entry. -/
def deleteOp (entry : RemoteDiffEntry) : Option MetadataOp := (deletedId entry).map (.delete entry.entryKind)

/-- `DiffStateRepository::save`. -/
def saveCursor (syncId : SyncId) (diffid : Nat) : Option MetadataStore :=
  if fitsColumn syncId.get ∧ diffid < 2 ^ 63 then
    some { s with cursors := Function.update s.cursors syncId (some diffid) }
  else none

/-- One transaction: the deletes, and the cursor if it is ahead. -/
def commitDiffBatch (syncId : SyncId) (previousCursor : Nat) (batch : RemoteDiffBatch) : Option MetadataStore := do
  let table ← (batch.entries.filterMap deleteOp).foldlM FileMetadataTable.apply s.table
  let s := { s with table }
  if previousCursor < batch.cursor then s.saveCursor syncId batch.cursor else some s

def perform : MetadataCall → Option MetadataStore
  | .upsert record => (s.table.apply (.upsert record)).map fun table => { s with table }
  | .delete kind id => (s.table.apply (.delete kind id)).map fun table => { s with table }
  | .commitDiffBatch syncId previousCursor batch => s.commitDiffBatch syncId previousCursor batch

def step (call : MetadataCall) : MetadataStore := (s.perform call).getD s

/-- The operations that a call makes, which are none where it fails. -/
def made (call : MetadataCall) : List MetadataOp :=
  if (s.perform call).isSome then
    match call with
    | .upsert record => [.upsert record]
    | .delete kind id => [.delete kind id]
    | .commitDiffBatch _ _ batch => batch.entries.filterMap deleteOp
  else []

theorem step_table (call : MetadataCall) :
    (s.step call).table = (s.made call).foldl FileMetadataTable.next s.table := by
  have hfold : ∀ (ops : List MetadataOp) (table table' : FileMetadataTable),
      ops.foldlM FileMetadataTable.apply table = some table' → ops.foldl FileMetadataTable.next table = table' := by
    intro ops table table' h
    induction ops generalizing table with
    | nil => exact Option.some.inj h
    | cons op ops ih =>
      rw [List.foldlM_cons] at h
      obtain ⟨after, hop, hrest⟩ := Option.bind_eq_some_iff.mp h
      rw [List.foldl_cons, FileMetadataTable.next, hop]
      exact ih after hrest
  unfold step made
  rcases hdone : s.perform call with _ | s'
  · rfl
  · cases call with
    | upsert record =>
      obtain ⟨table, htable, rfl⟩ := Option.map_eq_some_iff.mp hdone
      simp [FileMetadataTable.next, htable]
    | delete kind id =>
      obtain ⟨table, htable, rfl⟩ := Option.map_eq_some_iff.mp hdone
      simp [FileMetadataTable.next, htable]
    | commitDiffBatch syncId previousCursor batch =>
      obtain ⟨table, htable, hcursor⟩ := Option.bind_eq_some_iff.mp hdone
      have hsame : s'.table = table := by
        split at hcursor
        · unfold saveCursor at hcursor
          split at hcursor
          · rw [← Option.some.inj hcursor]
          · cases hcursor
        · rw [← Option.some.inj hcursor]
      simp only [Option.getD_some, Option.isSome_some, if_true]
      rw [hsame, hfold _ _ _ htable]

end MetadataStore

/-! ## Files and folders -/

namespace FileMetadataTable

variable {table table' : FileMetadataTable} {x : UInt64}

theorem rowsAlong_subset {currentFolderId : UInt64} {segments : List String} :
    table.rowsAlong currentFolderId segments ⊆ table.rows := by
  induction segments generalizing currentFolderId with
  | nil => simp [rowsAlong]
  | cons segment rest ih =>
    unfold rowsAlong
    rcases hfound : table.getByParentAndName currentFolderId segment with _ | found
    · simp
    · refine List.cons_subset.mpr ⟨List.mem_of_find?_eq_some hfound, ?_⟩
      split
      · exact ih
      · simp

theorem rowsOnPath_subset {path : String} : table.rowsOnPath path ⊆ table.rows := by
  unfold rowsOnPath
  dsimp only
  split
  · intro row hrow
    exact List.mem_of_find?_eq_some (Option.mem_toList.mp hrow)
  · exact rowsAlong_subset

variable (x) in
/-- The record of the folder is the same, and so is what every path through it resolves to. -/
def LeavesFolder (table table' : FileMetadataTable) : Prop :=
  table'.folder x = table.folder x ∧
    ∀ path, (∃ row ∈ table.rowsOnPath path, row.fileId = x ∧ row.isFolder = true) →
      table'.resolvePath path = table.resolvePath path

theorem folder_eq_none : table.folder x = none ↔ ∀ row ∈ table.rows, row.fileId = x → row.isFolder = false := by
  simp [folder]

theorem apply_upsert_rows {record : FileMetadataRow} (h : table.apply (.upsert record) = some table') :
    table'.rows =
      table.rows.filter (·.fileId < record.fileId) ++ record :: table.rows.filter (record.fileId < ·.fileId) := by
  have hrows : table.upsert record = some table' := h
  unfold upsert at hrows
  split at hrows
  · rw [← Option.some.inj hrows]
  · cases hrows

theorem apply_delete_rows {kind : EntryKind} {id : UInt64} (h : table.apply (.delete kind id) = some table') :
    table'.rows = table.rows.filter (·.fileId ≠ id) := by
  obtain ⟨done, hdone, rfl⟩ := Option.map_eq_some_iff.mp h
  unfold delete at hdone
  split at hdone
  · rw [← Option.some.inj hdone]
  · cases hdone

theorem folder_apply {op : MetadataOp} (hfile : op.file = some x) (h : table.apply op = some table') :
    table'.folder x = none := by
  rw [folder_eq_none]
  intro row hrow hid
  cases op with
  | upsert record =>
    have hkind : (if record.isFolder then none else some record.fileId) = some x := hfile
    split_ifs at hkind with hfolder
    rw [apply_upsert_rows h] at hrow
    have hself : record.fileId = x := Option.some.inj hkind
    rcases List.mem_append.mp hrow with hrow | hrow
    · have hless : row.fileId < record.fileId := by simpa using (List.mem_filter.mp hrow).2
      rw [hid, hself] at hless
      exact absurd hless (UInt64.lt_irrefl x)
    · rcases List.mem_cons.mp hrow with rfl | hrow
      · simpa using hfolder
      · have hmore : record.fileId < row.fileId := by simpa using (List.mem_filter.mp hrow).2
        rw [hid, hself] at hmore
        exact absurd hmore (UInt64.lt_irrefl x)
  | delete kind id =>
    have hself : id = x := by
      cases kind with
      | File => exact Option.some.inj hfile
      | Folder => cases hfile
    rw [apply_delete_rows h] at hrow
    have hne : row.fileId ≠ id := by simpa using (List.mem_filter.mp hrow).2
    exact absurd (hid.trans hself.symm) hne

theorem leavesFolder_iff {op : MetadataOp} (hfile : op.file = some x) (h : table.apply op = some table') :
    LeavesFolder x table table' ↔ table.folder x = none := by
  constructor
  · rintro ⟨hsame, -⟩
    rw [← hsame]
    exact folder_apply hfile h
  · intro hnone
    refine ⟨by rw [hnone, folder_apply hfile h], fun path hpath => ?_⟩
    obtain ⟨row, hrow, hid, hfolder⟩ := hpath
    have hfile := folder_eq_none.mp hnone row (rowsOnPath_subset hrow) hid
    rw [hfolder] at hfile
    cases hfile

def ids (table : FileMetadataTable) : Finset UInt64 := (table.rows.map (·.fileId)).toFinset

theorem ids_delete {kind : EntryKind} {id : UInt64} (h : table.apply (.delete kind id) = some table') :
    table'.ids = table.ids \ {id} := by
  ext other
  unfold ids
  rw [apply_delete_rows h]
  simp only [List.mem_toFinset, List.mem_map, List.mem_filter, Finset.mem_sdiff, Finset.mem_singleton,
    decide_eq_true_eq]
  constructor
  · rintro ⟨row, ⟨hrow, hne⟩, rfl⟩
    exact ⟨⟨row, hrow, rfl⟩, hne⟩
  · rintro ⟨⟨row, hrow, rfl⟩, hne⟩
    exact ⟨row, ⟨hrow, hne⟩, rfl⟩

theorem ids_deletes {entries : List RemoteDiffEntry}
    (h : (entries.filterMap MetadataStore.deleteOp).foldlM apply table = some table') :
    table'.ids = table.ids \ (entries.filterMap deletedId).toFinset := by
  induction entries generalizing table with
  | nil =>
    rw [← Option.some.inj h]
    simp
  | cons entry entries ih =>
    rcases hid : deletedId entry with _ | id
    · rw [List.filterMap_cons_none (by simp [MetadataStore.deleteOp, hid])] at h
      rw [List.filterMap_cons_none hid]
      exact ih h
    · have hop : MetadataStore.deleteOp entry = some (.delete entry.entryKind id) := by
        simp [MetadataStore.deleteOp, hid]
      rw [List.filterMap_cons_some hop, List.foldlM_cons] at h
      obtain ⟨after, hafter, hrest⟩ := Option.bind_eq_some_iff.mp h
      rw [List.filterMap_cons_some hid, ih hrest, ids_delete hafter, List.toFinset_cons, sdiff_sdiff_left]
      rfl

theorem deletes_isSome {entries : List RemoteDiffEntry} :
    ((entries.filterMap MetadataStore.deleteOp).foldlM apply table).isSome =
      (entries.filterMap deletedId).all fitsColumn := by
  induction entries generalizing table with
  | nil => rfl
  | cons entry entries ih =>
    rcases hid : deletedId entry with _ | id
    · rw [List.filterMap_cons_none (by simp [MetadataStore.deleteOp, hid]), List.filterMap_cons_none hid]
      exact ih
    · have hop : MetadataStore.deleteOp entry = some (.delete entry.entryKind id) := by
        simp [MetadataStore.deleteOp, hid]
      rw [List.filterMap_cons_some hop, List.filterMap_cons_some hid, List.foldlM_cons, List.all_cons]
      unfold apply delete
      by_cases hfits : fitsColumn id = true
      · simp only [hfits, if_true, Option.map_some, Option.bind_eq_bind, Option.bind_some, Bool.true_and]
        exact ih
      · simp [hfits]

/-- A file operation that is made leaves the folder that has the id of the file. -/
def KeepsFolder (table : FileMetadataTable) (op : MetadataOp) : Prop :=
  ∀ x table', op.file = some x → table.apply op = some table' → LeavesFolder x table table'

/-- A file operation that is made meets no folder. -/
def MeetsNoFolder (table : FileMetadataTable) (op : MetadataOp) : Prop :=
  ∀ x, op.file = some x → (table.apply op).isSome = true → table.folder x = none

theorem keepsFolder_iff {op : MetadataOp} : KeepsFolder table op ↔ MeetsNoFolder table op := by
  constructor
  · intro h x hfile hsome
    obtain ⟨after, hafter⟩ := Option.isSome_iff_exists.mp hsome
    exact (leavesFolder_iff hfile hafter).mp (h x after hfile hafter)
  · intro h x after hfile hafter
    have hnone := h x hfile (Option.isSome_iff_exists.mpr ⟨after, hafter⟩)
    exact (leavesFolder_iff hfile hafter).mpr hnone

end FileMetadataTable

/-! ## Runs -/

namespace MetadataStore

open FileMetadataTable

theorem commitDiffBatch_ids {s : MetadataStore} {store : Store} {syncId : SyncId} {previousCursor : Nat}
    {batch : RemoteDiffBatch} (hids : store.fileMetadata = s.table.ids) (hcursors : store.diffState = s.cursors) :
    (Pcloud.commitDiffBatch store syncId previousCursor batch).map (fun store => (store.fileMetadata, store.diffState)) =
      (s.commitDiffBatch syncId previousCursor batch).map fun s' => (s'.table.ids, s'.cursors) := by
  have hsome : ((batch.entries.filterMap deleteOp).foldlM FileMetadataTable.apply s.table).isSome =
      (batch.entries.filterMap deletedId).all fitsColumn := deletes_isSome
  unfold Pcloud.commitDiffBatch commitDiffBatch
  rcases htable : (batch.entries.filterMap deleteOp).foldlM FileMetadataTable.apply s.table with _ | table
  · rw [htable] at hsome
    simp [← hsome]
  · rw [htable] at hsome
    simp only [← hsome, Option.isSome_some, if_true, Option.bind_eq_bind, Option.bind_some]
    unfold Store.saveCursor saveCursor
    rw [hids, hcursors, ← ids_deletes htable]
    by_cases hahead : previousCursor < batch.cursor
    · by_cases hfits : fitsColumn syncId.get = true ∧ batch.cursor < 2 ^ 63
      · simp [hahead, hfits]
      · simp [hahead]
    · simp [hahead]

/-- Every operation that a call makes satisfies a condition where it is made. -/
def EachOp (ok : FileMetadataTable → MetadataOp → Prop) (s : MetadataStore) (call : MetadataCall) : Prop :=
  Runs.AllSteps next ok s.table (s.made call)

/-- In every run each operation on a file leaves the folder with the same id. -/
def KindsApart : Prop :=
  ∀ (s : MetadataStore) (calls : List MetadataCall), Runs.AllSteps step (EachOp KeepsFolder) s calls

/-- It does so in a run just if no operation on a file meets a folder. -/
theorem keepsFolder_run_iff (s : MetadataStore) (calls : List MetadataCall) :
    Runs.AllSteps step (EachOp KeepsFolder) s calls ↔ Runs.AllSteps step (EachOp MeetsNoFolder) s calls := by
  apply Runs.allSteps_congr (I := fun _ => True) trivial
  · intro s call _
    apply Runs.allSteps_congr (I := fun _ => True) trivial
    · intro table op _
      exact keepsFolder_iff
    · intro _ _ _ _
      trivial
  · intro _ _ _ _
    trivial

/-! ### A file and a folder with one id -/

def docsAndReport : FileMetadataTable where
  rows :=
    [{ fileId := 7, parentFolderId := 0, name := "docs", isFolder := true, size := 0, hash := "", modified := 0,
       created := 0 },
     { fileId := 9, parentFolderId := 7, name := "report", isFolder := false, size := 1, hash := "00", modified := 0,
       created := 0 }]
  sorted := by decide

def fileSevenDeleted : RemoteDiffBatch where
  syncId := ⟨1⟩
  cursor := 1
  hasMore := false
  entries := [⟨"other", .File, .Delete, some ⟨7⟩, none, none⟩]

theorem not_kindsApart : ¬ KindsApart := by
  intro h
  have hrun := h ⟨docsAndReport, fun _ => none⟩ [.commitDiffBatch ⟨1⟩ 0 fileSevenDeleted]
  have hkeeps : KeepsFolder docsAndReport (.delete .File 7) := hrun.1.1
  have hleaves := hkeeps 7 ⟨[docsAndReport.rows[1]], by decide⟩ rfl rfl
  have hfolder := congrArg Option.isSome hleaves.1
  revert hfolder
  decide

end MetadataStore

end Pcloud
