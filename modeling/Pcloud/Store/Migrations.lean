import Pcloud.Lib.Program
import Pcloud.Store.Audit

/-!
# Migrations (`pcloud-store/src/migrations.rs` and `schema.rs`)

Every migration is a program of statements, each of which commits on its own. The process may stop between any
two of them. A statement fails where the schema does not have what it names, or has what it adds. Of the rows of
the tables only those of `audit_events` are read or written.
-/

namespace Pcloud

open BlockChain Program

/-! ## Schemas -/

inductive TableName
  | account | auditEvents | syncRoots | syncRootRecords | preferences | valueKv | uploadResumeState | syncDiffState
  | fileMetadata
deriving DecidableEq, Repr

inductive ColumnName
  | primaryAccount | userId | email | authTokenPresent
  | id | category | createdAt | details | prevHash | entryHash | hmac
  | syncId | localPath | remotePath | paused | syncType
  | name | boolValue | textValue | intValue | kind
  | parentFolderId | fileName | uploadId | offset | totalSize | prefixSha1 | ifHash | ifNew | updatedAt
  | diffid
  | fileId | size | hash | modified | created | isFolder
deriving DecidableEq, Repr

inductive ColumnType
  | integer | text | blob
deriving DecidableEq, Repr

inductive ColumnConstraint
  | primaryKey
  | autoincrement
  | notNull
  | default (n : Nat)
  | defaultEmpty
  | defaultCurrentTimestamp
  | checkEq (n : Nat)
  | checkIn (values : List Nat)
  | checkNonneg
deriving DecidableEq, Repr

structure Column where
  name : ColumnName
  type : ColumnType
  constraints : List ColumnConstraint := []
deriving DecidableEq, Repr

structure Table where
  name : TableName
  columns : List Column
deriving DecidableEq, Repr

inductive IndexName
  | idxFileMetadataParent
deriving DecidableEq, Repr

structure Index where
  name : IndexName
  table : TableName
  columns : List ColumnName
deriving DecidableEq, Repr

structure Schema where
  tables : List Table := []
  indexes : List Index := []
deriving DecidableEq, Repr

namespace Schema

variable (schema : Schema)

def hasTable (table : TableName) : Bool := schema.tables.any (·.name = table)

/-- `PRAGMA table_info`: no columns where there is no table. -/
def tableInfo (table : TableName) : List ColumnName :=
  ((schema.tables.find? (·.name = table)).map fun found => found.columns.map Column.name).getD []

def addColumn (table : TableName) (column : Column) : Schema :=
  { schema with
    tables := schema.tables.map fun old =>
      if old.name = table then { old with columns := old.columns ++ [column] } else old }

end Schema

/-! ## Statements -/

inductive Statement
  | createTableIfNotExists (table : Table)
  | createIndexIfNotExists (index : Index)
  | alterTableAddColumn (table : TableName) (column : Column)
  | pragmaUserVersion (version : Nat)
  | updateAuditHashes (id : Int64) (prevHash entryHash : Bytes)
deriving DecidableEq

inductive StoreError
  | noSuchTable (table : TableName)
  | noSuchColumn (table : TableName)
  | duplicateColumn (column : ColumnName)
  | backwardsMigration (current target : Nat)
deriving DecidableEq

structure Database where
  schema : Schema := {}
  userVersion : Nat := 0
  auditEvents : AuditEvents := .empty

/-- The hashes of one row are replaced. -/
def AuditRow.rehash (id : Int64) (prevHash entryHash : Bytes) (row : AuditRow) : AuditRow :=
  if row.id = id then { row with prevHash := some prevHash, entryHash := some entryHash, hmac := none } else row

theorem AuditRow.rehash_toAuditEvent {id : Int64} {prevHash entryHash : Bytes} {row : AuditRow} :
    (row.rehash id prevHash entryHash).toAuditEvent = row.toAuditEvent := by
  unfold rehash
  split
  · rfl
  · rfl

def AuditEvents.rehash (events : AuditEvents) (id : Int64) (prevHash entryHash : Bytes) : AuditEvents where
  rows := events.rows.map (AuditRow.rehash id prevHash entryHash)
  sorted := by
    refine List.pairwise_map.mpr (events.sorted.imp fun {row row'} h => ?_)
    rw [AuditRow.rehash_toAuditEvent, AuditRow.rehash_toAuditEvent]
    exact h

namespace Database

variable (db : Database)

def execute : Statement → Except StoreError Unit × Database
  | .createTableIfNotExists table =>
    if db.schema.hasTable table.name then (.ok (), db)
    else (.ok (), { db with schema := { db.schema with tables := db.schema.tables ++ [table] } })
  | .createIndexIfNotExists index =>
    if db.schema.indexes.any (·.name = index.name) then (.ok (), db)
    else if !db.schema.hasTable index.table then (.error (.noSuchTable index.table), db)
    else (.ok (), { db with schema := { db.schema with indexes := db.schema.indexes ++ [index] } })
  | .alterTableAddColumn table column =>
    if !db.schema.hasTable table then (.error (.noSuchTable table), db)
    else if column.name ∈ db.schema.tableInfo table then (.error (.duplicateColumn column.name), db)
    else (.ok (), { db with schema := db.schema.addColumn table column })
  | .pragmaUserVersion version => (.ok (), { db with userVersion := version })
  | .updateAuditHashes id prevHash entryHash =>
    if [ColumnName.prevHash, .entryHash, .hmac].all (· ∈ db.schema.tableInfo .auditEvents) then
      (.ok (), { db with auditEvents := db.auditEvents.rehash id prevHash entryHash })
    else (.error (.noSuchColumn .auditEvents), db)

/-- `SELECT id, category, details, created_at FROM audit_events ORDER BY id ASC`. -/
def selectAuditEvents : Except StoreError (List AuditEvent) :=
  if [ColumnName.id, .category, .details, .createdAt].all (· ∈ db.schema.tableInfo .auditEvents) then
    .ok db.auditEvents.events
  else .error (.noSuchColumn .auditEvents)

end Database

inductive SqlEffect
  | tableExists (table : TableName)
  | userVersion
  | tableInfo (table : TableName)
  | selectAuditEvents
  | execute (statement : Statement)
deriving DecidableEq

namespace SqlEffect

abbrev Answer : SqlEffect → Type
  | tableExists _ => Bool
  | userVersion => Nat
  | tableInfo _ => List ColumnName
  | selectAuditEvents => Except StoreError (List AuditEvent)
  | execute _ => Except StoreError Unit

/-- Nothing but the schema decides whether an effect succeeds. -/
def perform (db : Database) : (e : SqlEffect) → Unit → e.Answer × Database
  | tableExists table, _ => (db.schema.hasTable table, db)
  | userVersion, _ => (db.userVersion, db)
  | tableInfo table, _ => (db.schema.tableInfo table, db)
  | selectAuditEvents, _ => (db.selectAuditEvents, db)
  | execute statement, _ => db.execute statement

end SqlEffect

abbrev Sql := Fallible SqlEffect SqlEffect.Answer StoreError

namespace Sql

def ask (e : SqlEffect) : Sql e.Answer := ExceptT.lift (Prog.perform e)

def execute (statement : Statement) : Sql Unit := ExceptT.mk (Prog.perform (SqlEffect.execute statement))

def selectAuditEvents : Sql (List AuditEvent) := ExceptT.mk (Prog.perform SqlEffect.selectAuditEvents)

def executeBatch (statements : List Statement) : Sql Unit := statements.forM execute

/-- What a program returns and leaves where the process does not stop. -/
def exec {α : Type} (p : Sql α) (db : Database) : Except StoreError α × Database :=
  Program.exec SqlEffect.perform p.run [] db

end Sql

/-! ## The versions -/

def columnExists (table : TableName) (column : ColumnName) : Sql Bool := do
  let columns ← Sql.ask (.tableInfo table)
  return column ∈ columns

/-- The guarded `ALTER TABLE`. -/
def addColumnUnless (there : Bool) (table : TableName) (column : Column) : Sql Unit :=
  if !there then Sql.executeBatch [.alterTableAddColumn table column] else pure ()

/-- The loop of `rebuild_hash_chain`. -/
def rehashRows (digests : AuditDigests) (prev : Block 32) : List AuditEvent → Sql Unit
  | [] => pure ()
  | event :: rest => do
    let entryHash := digests.computeEntryHash prev (canonicalEventBytes event)
    Sql.execute (.updateAuditHashes event.id prev.1 entryHash.1)
    rehashRows digests entryHash rest

def rebuildHashChain (digests : AuditDigests) : Sql Unit := do
  let all ← Sql.selectAuditEvents
  rehashRows digests auditZeroPrev all

def applySchemaV1 : Sql Unit := Sql.executeBatch
  [.createTableIfNotExists ⟨.account,
      [⟨.primaryAccount, .integer, [.primaryKey, .checkEq 1]⟩, ⟨.userId, .integer, [.notNull]⟩,
        ⟨.email, .text, [.notNull]⟩, ⟨.authTokenPresent, .integer, [.notNull, .checkIn [0, 1]]⟩]⟩,
    .createTableIfNotExists ⟨.auditEvents,
      [⟨.id, .integer, [.primaryKey, .autoincrement]⟩, ⟨.category, .text, [.notNull]⟩,
        ⟨.createdAt, .text, [.notNull, .defaultCurrentTimestamp]⟩]⟩,
    .createTableIfNotExists ⟨.syncRoots, [⟨.syncId, .integer, [.primaryKey]⟩]⟩,
    .pragmaUserVersion 1]

def applySchemaV2 : Sql Unit := do
  let hasDetails ← columnExists .auditEvents .details
  addColumnUnless hasDetails .auditEvents ⟨.details, .text, []⟩
  Sql.executeBatch [.pragmaUserVersion 2]

def applySchemaV3 : Sql Unit := Sql.executeBatch
  [.createTableIfNotExists ⟨.syncRootRecords,
      [⟨.syncId, .integer, [.primaryKey]⟩, ⟨.localPath, .text, [.notNull]⟩, ⟨.remotePath, .text, [.notNull]⟩,
        ⟨.paused, .integer, [.notNull, .checkIn [0, 1]]⟩]⟩,
    .pragmaUserVersion 3]

def applySchemaV4 : Sql Unit := Sql.executeBatch
  [.createTableIfNotExists ⟨.preferences,
      [⟨.name, .text, [.primaryKey]⟩, ⟨.boolValue, .integer, [.checkIn [0, 1]]⟩]⟩,
    .pragmaUserVersion 4]

def applySchemaV5 : Sql Unit := Sql.executeBatch
  [.alterTableAddColumn .preferences ⟨.textValue, .text, []⟩,
    .alterTableAddColumn .preferences ⟨.intValue, .integer, []⟩,
    .pragmaUserVersion 5]

def applySchemaV6 : Sql Unit := Sql.executeBatch
  [.alterTableAddColumn .syncRootRecords ⟨.syncType, .integer, [.notNull, .default 3, .checkIn [1, 2, 3]]⟩,
    .pragmaUserVersion 6]

def applySchemaV7 : Sql Unit := Sql.executeBatch
  [.createTableIfNotExists ⟨.valueKv,
      [⟨.name, .text, [.primaryKey]⟩, ⟨.kind, .integer, [.notNull, .checkIn [1, 2, 3, 4]]⟩,
        ⟨.intValue, .integer, []⟩, ⟨.textValue, .text, []⟩]⟩,
    .pragmaUserVersion 7]

def applySchemaV8 (digests : AuditDigests) : Sql Unit := do
  let hasPrevHash ← columnExists .auditEvents .prevHash
  let hasEntryHash ← columnExists .auditEvents .entryHash
  let hasHmac ← columnExists .auditEvents .hmac
  addColumnUnless hasPrevHash .auditEvents ⟨.prevHash, .blob, []⟩
  addColumnUnless hasEntryHash .auditEvents ⟨.entryHash, .blob, []⟩
  addColumnUnless hasHmac .auditEvents ⟨.hmac, .blob, []⟩
  rebuildHashChain digests
  Sql.executeBatch [.pragmaUserVersion 8]

def applySchemaV9 : Sql Unit := Sql.executeBatch
  [.createTableIfNotExists ⟨.uploadResumeState,
      [⟨.localPath, .text, [.primaryKey]⟩, ⟨.parentFolderId, .integer, [.notNull]⟩, ⟨.fileName, .text, [.notNull]⟩,
        ⟨.uploadId, .integer, [.notNull]⟩, ⟨.offset, .integer, [.notNull, .checkNonneg]⟩,
        ⟨.totalSize, .integer, [.notNull, .checkNonneg]⟩, ⟨.prefixSha1, .text, []⟩, ⟨.ifHash, .integer, []⟩,
        ⟨.ifNew, .integer, [.notNull, .default 0, .checkIn [0, 1]]⟩, ⟨.updatedAt, .integer, [.notNull]⟩]⟩,
    .pragmaUserVersion 9]

def applySchemaV10 : Sql Unit := Sql.executeBatch
  [.createTableIfNotExists ⟨.syncDiffState,
      [⟨.syncId, .integer, [.primaryKey]⟩, ⟨.diffid, .integer, [.notNull, .checkNonneg]⟩,
        ⟨.updatedAt, .integer, [.notNull]⟩]⟩,
    .pragmaUserVersion 10]

def applySchemaV11 : Sql Unit := Sql.executeBatch
  [.createTableIfNotExists ⟨.fileMetadata,
      [⟨.fileId, .integer, [.primaryKey]⟩, ⟨.parentFolderId, .integer, [.notNull]⟩, ⟨.name, .text, [.notNull]⟩,
        ⟨.size, .integer, [.notNull, .default 0]⟩, ⟨.hash, .text, [.notNull, .defaultEmpty]⟩,
        ⟨.modified, .integer, [.notNull, .default 0]⟩, ⟨.created, .integer, [.notNull, .default 0]⟩,
        ⟨.isFolder, .integer, [.notNull, .checkIn [0, 1]]⟩]⟩,
    .createIndexIfNotExists ⟨.idxFileMetadataParent, .fileMetadata, [.parentFolderId, .name]⟩,
    .pragmaUserVersion 11]

/-! ## The plan -/

def schemaVersionV11 : Nat := 11

/-- The step to a version from the one before. -/
def applySchema (digests : AuditDigests) : Nat → Sql Unit
  | 1 => applySchemaV1
  | 2 => applySchemaV2
  | 3 => applySchemaV3
  | 4 => applySchemaV4
  | 5 => applySchemaV5
  | 6 => applySchemaV6
  | 7 => applySchemaV7
  | 8 => applySchemaV8 digests
  | 9 => applySchemaV9
  | 10 => applySchemaV10
  | 11 => applySchemaV11
  | _ => pure ()

/-- The steps of `apply_plan`, each taken where it is above the version the store had. -/
def applySteps (digests : AuditDigests) (current target : Nat) : List Nat → Sql Unit
  | [] => pure ()
  | version :: rest => do
    if current < version ∧ version ≤ target then applySchema digests version
    applySteps digests current target rest

def applyPlan (digests : AuditDigests) (target : Nat) : Sql Unit := do
  let current ← Sql.ask .userVersion
  applySteps digests current target [1, 2, 3, 4, 5, 6, 7, 8, 9, 10, 11]

def buildPlan (current target : Nat) : Sql Nat :=
  if target < current then throw (.backwardsMigration current target) else pure target

def currentVersion : Sql Nat := do
  let schemaExists ← Sql.ask (.tableExists .account)
  if schemaExists then Sql.ask .userVersion else pure 0

/-- What `bootstrap_profile` does to the store. -/
def bootstrapProfile (digests : AuditDigests) : Sql Unit := do
  let current ← currentVersion
  let target ← buildPlan current schemaVersionV11
  applyPlan digests target

end Pcloud
