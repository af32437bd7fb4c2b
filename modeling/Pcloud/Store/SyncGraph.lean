import Mathlib.Data.List.Pairwise
import Pcloud.Lib.Transaction
import Pcloud.Model.Sync
import Pcloud.Store.MigrationRestart

/-!
# The sync roots of the store (`pcloud-store/src/repositories/sync_graph.rs`, `tx.rs`, `lib.rs`)

The `sync_root_records` table is written anew on every save. Its columns check what is inserted, as the schema has
them. Of the tables of accounts and of preferences, which the same transaction writes, only the statements are
there: they may fail. What SQLite refuses for its own limits of size is left out.
-/

namespace Pcloud

/-! ## The encoding of sync types -/

namespace SyncType

def asU8 : SyncType → UInt8
  | .DownloadOnly => 1
  | .UploadOnly => 2
  | .Full => 3
  | .BackupArchive => 4

def fromU8 (value : UInt8) : Option SyncType :=
  if value = 1 then some .DownloadOnly
  else if value = 2 then some .UploadOnly
  else if value = 3 then some .Full
  else if value = 4 then some .BackupArchive
  else none

theorem fromU8_asU8 (syncType : SyncType) : fromU8 syncType.asU8 = some syncType := by
  cases syncType <;> rfl

end SyncType

/-- `CHECK` of an integer. -/
def ColumnConstraint.allows (value : Int64) : ColumnConstraint → Bool
  | .checkEq n => value.toInt = n
  | .checkIn values => values.any fun n => value.toInt = n
  | .checkNonneg => 0 ≤ value.toInt
  | _ => true

/-- What the columns of that name ask for. -/
def Schema.constraints (schema : Schema) (table : TableName) (column : ColumnName) : List ColumnConstraint :=
  (((schema.tables.filter (·.name = table)).flatMap Table.columns).filter (·.name = column)).flatMap Column.constraints

/-- The integer passes every check of the column. -/
def Schema.allows (schema : Schema) (table : TableName) (column : ColumnName) (value : Int64) : Bool :=
  (schema.constraints table column).all (ColumnConstraint.allows value)

namespace SyncGraph

open Program Transaction

/-! ## The table -/

structure SyncRootRecord where
  syncId : SyncId
  localPath : String
  remotePath : String
  paused : Bool
  syncType : SyncType
deriving DecidableEq, Repr

structure SyncRootRow where
  syncId : Int64
  localPath : String
  remotePath : String
  paused : Int64
  syncType : Int64
deriving DecidableEq, Repr

/-- The rows, by the primary key. -/
structure SyncRootTable where
  rows : List SyncRootRow
  sorted : rows.Pairwise fun row row' => row.syncId < row'.syncId

namespace SyncRootTable

def empty : SyncRootTable := ⟨[], .nil⟩

variable (table : SyncRootTable)

/-- A row at the place of its key. -/
def insert (row : SyncRootRow) : SyncRootTable where
  rows := table.rows.filter (·.syncId < row.syncId) ++ row :: table.rows.filter (row.syncId < ·.syncId)
  sorted := by
    refine List.pairwise_append.mpr ⟨table.sorted.filter _, ?_, ?_⟩
    · refine List.pairwise_cons.mpr ⟨fun row' hrow' => ?_, table.sorted.filter _⟩
      simpa using (List.mem_filter.mp hrow').2
    · intro row' hrow' row'' hrow''
      have hbelow : row'.syncId < row.syncId := by simpa using (List.mem_filter.mp hrow').2
      rcases List.mem_cons.mp hrow'' with rfl | hrow''
      · exact hbelow
      · have habove : row.syncId < row''.syncId := by simpa using (List.mem_filter.mp hrow'').2
        exact Int64.lt_trans hbelow habove

end SyncRootTable

inductive RusqliteError
  | toSqlConversionFailure
  | integralValueOutOfRange (value : Int64)
  | constraintViolation
  | sqliteFailure
deriving DecidableEq, Repr

structure StoreTables where
  schema : Schema
  syncRootRecords : SyncRootTable

inductive PreferenceValue
  | bool (value : Int64)
  | text (value : String)
  | int (value : Int64)
deriving DecidableEq, Repr

inductive StoreStatement
  | deleteSyncRootRecords
  | insertSyncRootRecord (row : SyncRootRow)
  | selectSyncRootRecords
  | deleteAccount
  | insertAccount (userId : Int64) (email : String) (authTokenPresent : Int64)
  | deletePreference (name : String)
  | insertPreference (name : String) (value : PreferenceValue)
deriving DecidableEq, Repr

namespace StoreStatement

abbrev Answer : StoreStatement → Type
  | selectSyncRootRecords => List SyncRootRow
  | _ => Unit

/-- A statement that is refused changes nothing. -/
def execute (tables : StoreTables) : (e : StoreStatement) → Except RusqliteError e.Answer × StoreTables
  | deleteSyncRootRecords => (.ok (), { tables with syncRootRecords := .empty })
  | insertSyncRootRecord row =>
    if row.syncId ∈ tables.syncRootRecords.rows.map SyncRootRow.syncId ∨
        ¬ tables.schema.allows .syncRootRecords .syncId row.syncId ∨
        ¬ tables.schema.allows .syncRootRecords .paused row.paused ∨
        ¬ tables.schema.allows .syncRootRecords .syncType row.syncType then
      (.error .constraintViolation, tables)
    else (.ok (), { tables with syncRootRecords := tables.syncRootRecords.insert row })
  | selectSyncRootRecords => (.ok tables.syncRootRecords.rows, tables)
  | deleteAccount => (.ok (), tables)
  | insertAccount .. => (.ok (), tables)
  | deletePreference _ => (.ok (), tables)
  | insertPreference .. => (.ok (), tables)

end StoreStatement

abbrev StoreSql := Transactional StoreStatement StoreStatement.Answer RusqliteError

def execute (e : StoreStatement) : StoreSql e.Answer := statement e

/-- `ToSql` of a `u64`. -/
def toSql (value : UInt64) : StoreSql Int64 :=
  if value ≤ 0x7FFFFFFFFFFFFFFF then pure value.toInt64 else throw .toSqlConversionFailure

/-- `i64::from` of a `bool`. -/
def ofBool (value : Bool) : Int64 := if value then 1 else 0

/-! ## The repositories -/

structure AccountRecord where
  userId : UInt64
  email : String
  authTokenPresent : Bool
deriving DecidableEq, Repr

def AccountRepository.save (primaryAccount : Option AccountRecord) : StoreSql Unit := do
  execute .deleteAccount
  match primaryAccount with
  | some account =>
    let userId ← toSql account.userId
    execute (.insertAccount userId account.email (ofBool account.authTokenPresent))
  | none => pure ()

structure PreferencesRepository where
  durableAuthTokensEnabled : Option Bool := none
  apiServerBinapi : Option String := none
  apiServerLocationId : Option UInt32 := none
  backupDeviceFolderId : Option UInt64 := none
deriving DecidableEq, Repr

/-- The conditional `INSERT` of one preference. -/
def insertPreferenceOf (name : String) : Option PreferenceValue → StoreSql Unit
  | some value => execute (.insertPreference name value)
  | none => pure ()

def PreferencesRepository.save (preferences : PreferencesRepository) : StoreSql Unit := do
  execute (.deletePreference "durable_auth_tokens_enabled")
  execute (.deletePreference "api_server_binapi")
  execute (.deletePreference "api_server_location_id")
  execute (.deletePreference "backup_device_folder_id")
  insertPreferenceOf "durable_auth_tokens_enabled" (preferences.durableAuthTokensEnabled.map (.bool ∘ ofBool))
  insertPreferenceOf "api_server_binapi" (preferences.apiServerBinapi.map .text)
  insertPreferenceOf "api_server_location_id" (preferences.apiServerLocationId.map fun id => .int id.toUInt64.toInt64)
  insertPreferenceOf "backup_device_folder_id" (preferences.backupDeviceFolderId.map fun id =>
    .int (if id ≤ 0x7FFFFFFFFFFFFFFF then id.toInt64 else Int64.maxValue))

/-- One turn of the loop of `save`. -/
def saveRoot (root : SyncRootRecord) : StoreSql Unit := do
  let syncId ← toSql root.syncId.get
  execute (.insertSyncRootRecord
    ⟨syncId, root.localPath, root.remotePath, ofBool root.paused, root.syncType.asU8.toUInt64.toInt64⟩)

/-- The loop of `save`. -/
def saveRoots : List SyncRootRecord → StoreSql Unit
  | [] => pure ()
  | root :: rest => do
    saveRoot root
    saveRoots rest

def save (trackedSyncRoots : List SyncRootRecord) : StoreSql Unit := do
  execute .deleteSyncRootRecords
  saveRoots trackedSyncRoots

/-- What `load` makes of a row. -/
def loadRow (row : SyncRootRow) : Except RusqliteError SyncRootRecord :=
  if row.syncId < 0 then .error (.integralValueOutOfRange row.syncId)
  else .ok {
    syncId := ⟨row.syncId.toUInt64⟩
    localPath := row.localPath
    remotePath := row.remotePath
    paused := row.paused ≠ 0
    syncType := (SyncType.fromU8 row.syncType.toUInt64.toUInt8).getD .Full }

def load : StoreSql (List SyncRootRecord) := do
  let rows : List SyncRootRow ← execute .selectSyncRootRecords
  ExceptT.mk (pure (rows.mapM loadRow))

structure RepositorySet where
  accounts : Option AccountRecord := none
  preferences : PreferencesRepository := {}
  syncGraph : List SyncRootRecord := []
deriving DecidableEq, Repr

def RepositorySet.save (repositories : RepositorySet) : StoreSql Unit := do
  AccountRepository.save repositories.accounts
  repositories.preferences.save
  SyncGraph.save repositories.syncGraph

/-- The error of a rollback is dropped. -/
def TransactionBoundary.immediate {α : Type} (work : StoreSql α) : StoreSql α := do
  begin
  let result ← ExceptT.lift work.run
  match result with
  | .ok result =>
    commit
    pure result
  | .error err =>
    let _ ← ExceptT.lift rollback.run
    throw err

abbrev perform := Transaction.perform StoreStatement.execute RusqliteError.sqliteFailure

/-- The connection is closed whatever came of the transaction. -/
def persistProfile (repositories : RepositorySet) (fates : List Transaction.Fate) (conn : Connection StoreTables) :
    Except RusqliteError Unit × Connection StoreTables :=
  let (result, conn') := exec perform (TransactionBoundary.immediate repositories.save).run fates conn
  (result, conn'.close)

/-! ## What the migrated schema accepts -/

theorem constraints_syncId (digests : AuditDigests) (events : AuditEvents) :
    (storeAt digests 11 events).schema.constraints .syncRootRecords .syncId = [.primaryKey] := rfl

theorem constraints_paused (digests : AuditDigests) (events : AuditEvents) :
    (storeAt digests 11 events).schema.constraints .syncRootRecords .paused = [.notNull, .checkIn [0, 1]] := rfl

theorem constraints_syncType (digests : AuditDigests) (events : AuditEvents) :
    (storeAt digests 11 events).schema.constraints .syncRootRecords .syncType =
      [.notNull, .default 3, .checkIn [1, 2, 3]] := rfl

/-- The schema of a store that is migrated. -/
def IsMigrated (schema : Schema) : Prop := ∃ digests events, schema = (storeAt digests 11 events).schema

/-- The row of a record, where its id can be bound. -/
def rowOf (root : SyncRootRecord) : SyncRootRow :=
  ⟨root.syncId.get.toInt64, root.localPath, root.remotePath, ofBool root.paused, root.syncType.asU8.toUInt64.toInt64⟩

/-- The record is one that the store takes. -/
def Storable (root : SyncRootRecord) : Prop :=
  root.syncType ≠ .BackupArchive ∧ root.syncId.get ≤ 0x7FFFFFFFFFFFFFFF

variable {schema : Schema} {root : SyncRootRecord}

theorem allows_rowOf (h : IsMigrated schema) (root : SyncRootRecord) :
    schema.allows .syncRootRecords .syncId (rowOf root).syncId = true ∧
    schema.allows .syncRootRecords .paused (rowOf root).paused = true ∧
    (schema.allows .syncRootRecords .syncType (rowOf root).syncType = true ↔ root.syncType ≠ .BackupArchive) := by
  obtain ⟨digests, events, rfl⟩ := h
  have hpaused : ∀ paused, [.notNull, .checkIn [0, 1]].all (ColumnConstraint.allows (ofBool paused)) = true := by decide
  have htype : ∀ syncType : SyncType, [.notNull, .default 3, .checkIn [1, 2, 3]].all
      (ColumnConstraint.allows syncType.asU8.toUInt64.toInt64) = true ↔ syncType ≠ .BackupArchive := by
    intro syncType
    cases syncType <;> decide
  unfold Schema.allows
  rw [constraints_syncId, constraints_paused, constraints_syncType]
  exact ⟨rfl, hpaused root.paused, htype root.syncType⟩

theorem toInt_toInt64 {value : UInt64} (h : value ≤ 0x7FFFFFFFFFFFFFFF) : value.toInt64.toInt = value.toNat := by
  have hnat : value.toNat ≤ 0x7FFFFFFFFFFFFFFF := UInt64.le_iff_toNat_le.mp h
  have hbits : value.toInt64.toInt = value.toBitVec.toInt := rfl
  rw [hbits, BitVec.toInt_eq_toNat_of_lt]
  · rfl
  · show 2 * value.toNat < 2 ^ 64
    omega

theorem rowOf_lt {root' : SyncRootRecord} (h : Storable root) (h' : Storable root')
    (hlt : root.syncId.get < root'.syncId.get) : (rowOf root).syncId < (rowOf root').syncId := by
  rw [Int64.lt_iff_toInt_lt]
  show root.syncId.get.toInt64.toInt < root'.syncId.get.toInt64.toInt
  rw [toInt_toInt64 h.2, toInt_toInt64 h'.2]
  exact Int.ofNat_lt.mpr (UInt64.lt_iff_toNat_lt.mp hlt)

theorem loadRow_rowOf (h : Storable root) : loadRow (rowOf root) = .ok root := by
  have hid : ¬ (rowOf root).syncId < 0 := by
    rw [Int64.lt_iff_toInt_lt]
    show ¬ root.syncId.get.toInt64.toInt < 0
    rw [toInt_toInt64 h.2]
    omega
  rw [loadRow, if_neg hid]
  obtain ⟨syncId, localPath, remotePath, paused, syncType⟩ := root
  cases paused <;> cases syncType <;> rfl

theorem mapM_loadRow {roots : List SyncRootRecord} (h : ∀ root ∈ roots, Storable root) :
    (roots.map rowOf).mapM loadRow = .ok roots := by
  induction roots with
  | nil => rfl
  | cons root roots ih =>
    obtain ⟨hroot, hrest⟩ := List.forall_mem_cons.mp h
    rw [List.map_cons, List.mapM_cons, loadRow_rowOf hroot, ih hrest]
    rfl

/-! ## A save on its own -/

variable {conn : Connection StoreTables} {roots : List SyncRootRecord}

theorem exec_toSql {value : UInt64} (h : value ≤ 0x7FFFFFFFFFFFFFFF) :
    exec perform (toSql value).run [] conn = (.ok value.toInt64, conn) := by
  rw [toSql, if_pos h]
  rfl

theorem exec_toSql_error {value : UInt64} (h : ¬ value ≤ 0x7FFFFFFFFFFFFFFF) :
    exec perform (toSql value).run [] conn = (.error .toSqlConversionFailure, conn) := by
  rw [toSql, if_neg h]
  rfl

theorem exec_saveRoot (hschema : IsMigrated conn.current.schema) (h : Storable root)
    (hbelow : ∀ row ∈ conn.current.syncRootRecords.rows, row.syncId < (rowOf root).syncId) :
    ∃ conn' : Connection StoreTables, exec perform (saveRoot root).run [] conn = (.ok (), conn') ∧
      conn'.current.schema = conn.current.schema ∧
      conn'.current.syncRootRecords.rows = conn.current.syncRootRecords.rows ++ [rowOf root] := by
  obtain ⟨hid, hpaused, htype⟩ := allows_rowOf hschema root
  have hnew : (rowOf root).syncId ∉ conn.current.syncRootRecords.rows.map SyncRootRow.syncId := by
    intro hmem
    obtain ⟨row, hrow, heq⟩ := List.mem_map.mp hmem
    exact Int64.lt_irrefl (heq ▸ hbelow row hrow)
  have hinsert : StoreStatement.execute conn.current (.insertSyncRootRecord (rowOf root)) = (.ok (),
      { conn.current with syncRootRecords := conn.current.syncRootRecords.insert (rowOf root) }) := by
    rw [StoreStatement.execute, if_neg (by simp [hnew, hid, hpaused, htype.mpr h.1])]
  refine ⟨conn.write { conn.current with syncRootRecords := conn.current.syncRootRecords.insert (rowOf root) },
    ?_, ?_, ?_⟩
  · rw [saveRoot, exec_bind_ok (exec_toSql h.2)]
    show conn.run StoreStatement.execute (.insertSyncRootRecord (rowOf root)) = _
    rw [Connection.run, hinsert]
  · rw [Connection.current_write]
  · rw [Connection.current_write]
    show _ ++ rowOf root :: _ = _
    rw [List.filter_eq_self.mpr fun row hrow => by simpa using hbelow row hrow, List.filter_eq_nil_iff.mpr]
    intro row hrow
    simpa using Int64.le_of_lt (hbelow row hrow)

theorem exec_saveRoot_error (hschema : IsMigrated conn.current.schema) (h : ¬ Storable root) :
    ∃ (err : RusqliteError) (conn' : Connection StoreTables),
      exec perform (saveRoot root).run [] conn = (.error err, conn') := by
  by_cases hid : root.syncId.get ≤ 0x7FFFFFFFFFFFFFFF
  · have htype : ¬ conn.current.schema.allows .syncRootRecords .syncType (rowOf root).syncType = true := by
      rw [(allows_rowOf hschema root).2.2, not_ne_iff]
      by_contra hne
      exact h ⟨hne, hid⟩
    have hinsert : StoreStatement.execute conn.current (.insertSyncRootRecord (rowOf root)) =
        (.error .constraintViolation, conn.current) := by
      rw [StoreStatement.execute, if_pos (.inr (.inr (.inr htype)))]
    refine ⟨.constraintViolation, conn.write conn.current, ?_⟩
    rw [saveRoot, exec_bind_ok (exec_toSql hid)]
    show conn.run StoreStatement.execute (.insertSyncRootRecord (rowOf root)) = _
    rw [Connection.run, hinsert]
  · exact ⟨.toSqlConversionFailure, conn, exec_bind_error (exec_toSql_error hid)⟩

theorem exec_saveRoots (hschema : IsMigrated conn.current.schema)
    (hroots : roots.Pairwise fun root root' => root.syncId.get < root'.syncId.get)
    (hbelow : ∀ root ∈ roots, Storable root →
      ∀ row ∈ conn.current.syncRootRecords.rows, row.syncId < (rowOf root).syncId) :
    ∃ (result : Except RusqliteError Unit) (conn' : Connection StoreTables),
      exec perform (saveRoots roots).run [] conn = (result, conn') ∧
      (result = .ok () ↔ ∀ root ∈ roots, Storable root) ∧
      (result = .ok () →
        conn'.current.syncRootRecords.rows = conn.current.syncRootRecords.rows ++ roots.map rowOf) := by
  induction roots generalizing conn with
  | nil => exact ⟨.ok (), conn, rfl, by simp, by simp⟩
  | cons root roots ih =>
    obtain ⟨hfirst, hpairs⟩ := List.pairwise_cons.mp hroots
    obtain ⟨hbelowRoot, hbelowRest⟩ := List.forall_mem_cons.mp hbelow
    by_cases hroot : Storable root
    · obtain ⟨conn', hsave, hschema', hrows'⟩ := exec_saveRoot hschema hroot (hbelowRoot hroot)
      have hbelow' : ∀ root' ∈ roots, Storable root' →
          ∀ row ∈ conn'.current.syncRootRecords.rows, row.syncId < (rowOf root').syncId := by
        intro root' hmem hroot' row hrow
        rw [hrows', List.mem_append, List.mem_singleton] at hrow
        rcases hrow with hrow | rfl
        · exact hbelowRest root' hmem hroot' row hrow
        · exact rowOf_lt hroot hroot' (hfirst root' hmem)
      obtain ⟨result, conn'', hsaves, hok, hrows''⟩ := ih (hschema' ▸ hschema) hpairs hbelow'
      refine ⟨result, conn'', ?_, ?_, fun h => ?_⟩
      · rw [saveRoots, exec_bind_ok hsave, hsaves]
      · rw [hok, List.forall_mem_cons]
        exact (and_iff_right hroot).symm
      · rw [hrows'' h, hrows', List.append_assoc, List.map_cons]
        rfl
    · obtain ⟨err, conn', hsave⟩ := exec_saveRoot_error hschema hroot
      refine ⟨.error err, conn', ?_, ?_, fun h => ?_⟩
      · rw [saveRoots, exec_bind_error hsave]
      · refine iff_of_false (fun h => ?_) fun h => hroot (h root (List.mem_cons_self ..))
        cases h
      · cases h

/-- Where nothing fails, a save ends well and a load then gives the same records. -/
def RoundTrips (roots : List SyncRootRecord) (conn : Connection StoreTables) : Prop :=
  ∃ conn', exec perform (save roots).run [] conn = (.ok (), conn') ∧ (exec perform load.run [] conn').1 = .ok roots

theorem roundTrips_iff (hschema : IsMigrated conn.current.schema)
    (hroots : roots.Pairwise fun root root' => root.syncId.get < root'.syncId.get) :
    RoundTrips roots conn ↔ ∀ root ∈ roots, Storable root := by
  have hdelete : exec perform (execute .deleteSyncRootRecords).run [] conn =
      (.ok (), conn.write { conn.current with syncRootRecords := .empty }) := rfl
  obtain ⟨result, conn', hsaves, hok, hrows⟩ := @exec_saveRoots
    (conn.write { conn.current with syncRootRecords := .empty }) _ (by rwa [Connection.current_write]) hroots (by
      rw [Connection.current_write]
      intro root _ _ row hrow
      cases hrow)
  rw [Connection.current_write] at hrows
  have hsave : exec perform (save roots).run [] conn = (result, conn') := by rw [save, exec_bind_ok hdelete, hsaves]
  have hload : (exec perform load.run [] conn').1 = conn'.current.syncRootRecords.rows.mapM loadRow := rfl
  constructor
  · rintro ⟨_, hsaved, -⟩
    rw [hsave] at hsaved
    exact hok.mp (Prod.mk.inj hsaved).1
  · intro h
    obtain rfl := hok.mpr h
    refine ⟨conn', hsave, ?_⟩
    rw [hload, hrows rfl]
    exact mapM_loadRow h

/-! ## A save in its transaction -/

/-- Whatever fails, a save of the profile that fails leaves the records that were stored. -/
def KeepsStored (roots : List SyncRootRecord) (conn : Connection StoreTables) : Prop :=
  ∀ (repositories : RepositorySet) (fates : List Transaction.Fate), repositories.syncGraph = roots →
    (persistProfile repositories fates conn).1 ≠ .ok () →
    (persistProfile repositories fates conn).2.current.syncRootRecords = conn.stored.syncRootRecords

section Inside

variable {tables : StoreTables}

/-- A program that keeps to the open transaction, wherever it is run. -/
def KeepsInside {α : Type} (p : StoreSql α) : Prop :=
  ∀ (tables : StoreTables) (conn : Connection StoreTables), Live tables conn →
    Inside StoreStatement.execute RusqliteError.sqliteFailure tables p conn

theorem keepsInside_execute (e : StoreStatement) : KeepsInside (execute e) := fun _ _ h => inside_statement h e

theorem keepsInside_pure {α : Type} (a : α) : KeepsInside (pure a) := fun _ _ h => inside_pure h a

theorem KeepsInside.bind {α β : Type} {p : StoreSql α} {f : α → StoreSql β} (hp : KeepsInside p)
    (hf : ∀ a, KeepsInside (f a)) : KeepsInside (p >>= f) :=
  fun tables conn h => inside_bind (hp tables conn h) fun a => hf a tables

theorem keepsInside_toSql (value : UInt64) : KeepsInside (toSql value) := by
  unfold toSql
  split
  · exact keepsInside_pure _
  · exact fun _ _ h => inside_throw h _

theorem keepsInside_insertPreferenceOf (name : String) (value : Option PreferenceValue) :
    KeepsInside (insertPreferenceOf name value) := by
  cases value with
  | none => exact keepsInside_pure ()
  | some value => exact keepsInside_execute _

theorem keepsInside_saveAccounts (primaryAccount : Option AccountRecord) :
    KeepsInside (AccountRepository.save primaryAccount) := by
  refine (keepsInside_execute _).bind fun _ => ?_
  cases primaryAccount with
  | none => exact keepsInside_pure ()
  | some account => exact (keepsInside_toSql _).bind fun _ => keepsInside_execute _

theorem keepsInside_savePreferences (preferences : PreferencesRepository) : KeepsInside preferences.save := by
  unfold PreferencesRepository.save
  refine (keepsInside_execute _).bind fun _ => (keepsInside_execute _).bind fun _ =>
    (keepsInside_execute _).bind fun _ => (keepsInside_execute _).bind fun _ => ?_
  refine (keepsInside_insertPreferenceOf _ _).bind fun _ => (keepsInside_insertPreferenceOf _ _).bind fun _ =>
    (keepsInside_insertPreferenceOf _ _).bind fun _ => keepsInside_insertPreferenceOf _ _

theorem keepsInside_saveRoots (roots : List SyncRootRecord) : KeepsInside (saveRoots roots) := by
  induction roots with
  | nil => exact keepsInside_pure ()
  | cons root roots ih =>
    have hroot : KeepsInside (saveRoot root) := (keepsInside_toSql _).bind fun _ => keepsInside_execute _
    exact hroot.bind fun _ => ih

theorem keepsInside_save (repositories : RepositorySet) : KeepsInside repositories.save :=
  (keepsInside_saveAccounts _).bind fun _ => (keepsInside_savePreferences _).bind fun _ =>
    (keepsInside_execute _).bind fun _ => keepsInside_saveRoots _

theorem follows_immediate {work : StoreSql Unit} (hwork : KeepsInside work) (hstored : conn.stored = tables) :
    Follows (effects perform fun _ => True) (Program.Ends (fun _ _ => True) fun _ conn' => conn'.stored = tables)
      (TransactionBoundary.immediate work).run conn := by
  refine follows_ends_bind (follows_begin hstored) fun _ conn' hlive => ?_
  have hlift : Follows (effects perform fun _ => True)
      (Program.Ends (Program.Ends (fun _ => Live tables) fun _ conn'' => conn''.stored = tables) fun _ conn'' =>
        conn''.stored = tables)
      (ExceptT.lift work.run : StoreSql (Except RusqliteError Unit)).run conn' :=
    follows_lift.mpr (hwork tables conn' hlive)
  refine follows_ends_bind hlift fun result conn'' hresult => ?_
  cases result with
  | ok result => exact follows_ends_bind (follows_commit hresult.1) fun _ _ _ => trivial
  | error err =>
    have hrollback : Follows (effects perform fun _ => True)
        (Program.Ends (fun _ conn'' => conn''.stored = tables) fun _ conn'' => conn''.stored = tables)
        (ExceptT.lift rollback.run : StoreSql (Except RusqliteError Unit)).run conn'' :=
      follows_lift.mpr (follows_rollback hresult)
    exact follows_ends_bind hrollback fun _ conn' h => h

end Inside

theorem keepsStored (roots : List SyncRootRecord) (conn : Connection StoreTables) : KeepsStored roots conn := by
  intro repositories fates _ hfailed
  have hends := (@follows_immediate conn _ _ (keepsInside_save repositories) rfl).exec trivial
    (fun fate (_ : fate ∈ fates) => trivial)
  unfold persistProfile at hfailed ⊢
  cases hresult : (exec perform (TransactionBoundary.immediate repositories.save).run fates conn).1 with
  | ok result => exact absurd hresult hfailed
  | error err =>
    rw [hresult] at hends
    exact congrArg StoreTables.syncRootRecords hends

/-- The records come back, and a save that fails keeps what was stored, exactly where no root is of the type
whose code the column refuses and each id can be bound. -/
theorem syncGraph_roundTrip_iff (hschema : IsMigrated conn.current.schema)
    (hroots : roots.Pairwise fun root root' => root.syncId.get < root'.syncId.get) :
    RoundTrips roots conn ∧ KeepsStored roots conn ↔
      ∀ root ∈ roots, root.syncType ≠ .BackupArchive ∧ root.syncId.get ≤ 0x7FFFFFFFFFFFFFFF := by
  rw [and_iff_left (keepsStored roots conn), roundTrips_iff hschema hroots]
  rfl

def sampleStore : Connection StoreTables := { stored := ⟨(storeAt sha2Digests 11 .empty).schema, .empty⟩ }

def sampleRoot (id : UInt64) (syncType : SyncType) : SyncRootRecord := ⟨⟨id⟩, "/home/docs", "/docs", false, syncType⟩

theorem syncGraph_roundTrip_sample :
    RoundTrips [sampleRoot 11 .UploadOnly, sampleRoot 12 .Full] sampleStore :=
  ((@syncGraph_roundTrip_iff sampleStore _ ⟨sha2Digests, .empty, rfl⟩ (by decide)).mpr (by decide)).1

/-- Every list of records, by ascending ids, survives a save and a load of a migrated store. -/
def SavesRoundTrip : Prop :=
  ∀ (conn : Connection StoreTables) (roots : List SyncRootRecord), IsMigrated conn.current.schema →
    roots.Pairwise (fun root root' => root.syncId.get < root'.syncId.get) →
      RoundTrips roots conn ∧ KeepsStored roots conn

theorem not_savesRoundTrip : ¬ SavesRoundTrip := by
  intro h
  have hmigrated : IsMigrated sampleStore.current.schema := ⟨sha2Digests, .empty, rfl⟩
  have hsorted : [sampleRoot 11 .BackupArchive].Pairwise fun root root' => root.syncId.get < root'.syncId.get :=
    List.pairwise_singleton _ _
  have hstorable := (roundTrips_iff hmigrated hsorted).mp (h _ _ hmigrated hsorted).1
  exact (hstorable _ (List.mem_singleton_self _)).1 rfl

end SyncGraph

end Pcloud
