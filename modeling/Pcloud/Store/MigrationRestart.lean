import Mathlib.Tactic.IntervalCases
import Pcloud.Store.Migrations

/-!
# Migrations that are run again

A store is as some version of the plan left it. The plan stops somewhere, and is run again from the start.
-/

namespace Pcloud

open BlockChain Program

namespace Sql

variable {α β : Type} {db db' : Database}

def stopAt (n : Nat) (p : Sql α) (db : Database) : Prog SqlEffect SqlEffect.Answer (Except StoreError α) × Database :=
  Program.stopAt SqlEffect.perform n p.run [] db

theorem exec_bind_ok {x : Sql α} {f : α → Sql β} {a : α} (h : x.exec db = (.ok a, db')) :
    (x >>= f).exec db = (f a).exec db' := by
  show Program.exec SqlEffect.perform (x.run >>= ExceptT.bindCont f) [] db = _
  have hrun : Program.exec SqlEffect.perform x.run [] db = (.ok a, db') := h
  rw [exec_bind, hrun]
  rfl

end Sql

/-! ## Stores -/

/-- A store that the plan has brought to a version, with the events that are in it. -/
def storeAt (digests : AuditDigests) (version : Nat) (events : AuditEvents) : Database :=
  { ((applyPlan digests version).exec {}).2 with auditEvents := events }

/-- All hashes are made anew, in the order of the events. -/
def rehashAll (digests : AuditDigests) (prev : Block 32) : List AuditEvent → AuditEvents → AuditEvents
  | [], events => events
  | event :: rest, events =>
    let entryHash := digests.computeEntryHash prev (canonicalEventBytes event)
    rehashAll digests entryHash rest (events.rehash event.id prev.1 entryHash.1)

def AuditEvents.rebuilt (digests : AuditDigests) (events : AuditEvents) : AuditEvents :=
  rehashAll digests auditZeroPrev events.events events

/-- The events after the step from a version to the next one. -/
def AuditEvents.stepped (digests : AuditDigests) (version : Nat) (events : AuditEvents) : AuditEvents :=
  if version = 7 then events.rebuilt digests else events

def finished (digests : AuditDigests) (version : Nat) (events : AuditEvents) : Database :=
  storeAt digests 11 (if version ≤ 7 then events.rebuilt digests else events)

section Steps

variable {digests : AuditDigests} {events : AuditEvents} {version current : Nat}

/-! ## The hashes -/

/-- What the updates make of one row. -/
def AuditRow.rehashed (digests : AuditDigests) (prev : Block 32) : List AuditEvent → AuditRow → AuditRow
  | [], row => row
  | event :: rest, row =>
    let entryHash := digests.computeEntryHash prev (canonicalEventBytes event)
    rehashed digests entryHash rest (row.rehash event.id prev.1 entryHash.1)

theorem rehashAll_rows {prev : Block 32} {all : List AuditEvent} :
    (rehashAll digests prev all events).rows = events.rows.map (AuditRow.rehashed digests prev all) := by
  induction all generalizing prev events with
  | nil => exact (List.map_id _).symm
  | cons event rest ih =>
    unfold rehashAll
    rw [ih]
    simp [AuditEvents.rehash, AuditRow.rehashed, Function.comp_def]

theorem AuditRow.rehashed_congr {prev : Block 32} {all : List AuditEvent} {row row' : AuditRow}
    (hsame : row.toAuditEvent = row'.toAuditEvent) (hmem : row.id ∈ all.map AuditEvent.id) :
    row.rehashed digests prev all = row'.rehashed digests prev all := by
  induction all generalizing prev row row' with
  | nil => cases hmem
  | cons event rest ih =>
    unfold rehashed
    have hid : row.id = row'.id := congrArg AuditEvent.id hsame
    by_cases hhere : row.id = event.id
    · have hrow : row.rehash event.id prev.1 (digests.computeEntryHash prev (canonicalEventBytes event)).1 =
          row'.rehash event.id prev.1 (digests.computeEntryHash prev (canonicalEventBytes event)).1 := by
        unfold rehash
        rw [if_pos hhere, if_pos (hid ▸ hhere), hsame]
      simp only [hrow]
    · have hrest : row.id ∈ rest.map AuditEvent.id := (List.mem_cons.mp hmem).resolve_left hhere
      apply ih
      · rw [rehash_toAuditEvent, rehash_toAuditEvent, hsame]
      · rwa [rehash_toAuditEvent]

theorem AuditEvents.ext_rows {events' : AuditEvents} (h : events.rows = events'.rows) : events = events' := by
  obtain ⟨rows, sorted⟩ := events
  obtain ⟨rows', sorted'⟩ := events'
  obtain rfl : rows = rows' := h
  rfl

theorem AuditEvents.rebuilt_congr {events' : AuditEvents} (h : events.events = events'.events) :
    events.rebuilt digests = events'.rebuilt digests := by
  apply AuditEvents.ext_rows
  unfold rebuilt
  rw [rehashAll_rows, rehashAll_rows, ← h]
  have hlength : events.rows.length = events'.rows.length := by simpa [AuditEvents.events] using congrArg List.length h
  apply List.ext_getElem (by simpa using hlength)
  intro i hi hi'
  rw [List.getElem_map, List.getElem_map]
  apply AuditRow.rehashed_congr
  · have hget := congrArg (·[i]?) h
    rw [List.length_map] at hi hi'
    simpa [AuditEvents.events, hi, hi'] using hget
  · exact List.mem_map.mpr ⟨_, List.mem_map.mpr ⟨_, List.getElem_mem _, rfl⟩, rfl⟩

theorem AuditEvents.rehash_events {id : Int64} {prevHash entryHash : Bytes} :
    (events.rehash id prevHash entryHash).events = events.events := by
  simp [AuditEvents.events, AuditEvents.rehash, AuditRow.rehash_toAuditEvent, Function.comp_def]

theorem rehashAll_events {prev : Block 32} {all : List AuditEvent} :
    (rehashAll digests prev all events).events = events.events := by
  induction all generalizing prev events with
  | nil => rfl
  | cons event rest ih => exact ih.trans AuditEvents.rehash_events

/-! ## A rebuild where its columns are there -/

/-- The columns that a rebuild reads and writes. -/
def auditColumns : List ColumnName := [.id, .category, .details, .createdAt, .prevHash, .entryHash, .hmac]

section Rebuild

variable {db : Database}

theorem all_mem_tableInfo (hcolumns : ∀ column ∈ auditColumns, column ∈ db.schema.tableInfo .auditEvents)
    {columns : List ColumnName} (hsubset : ∀ column ∈ columns, column ∈ auditColumns) :
    columns.all (· ∈ db.schema.tableInfo .auditEvents) = true :=
  List.all_eq_true.mpr fun column hcolumn => decide_eq_true (hcolumns column (hsubset column hcolumn))

theorem selectAuditEvents_of_columns
    (hcolumns : ∀ column ∈ auditColumns, column ∈ db.schema.tableInfo .auditEvents) :
    db.selectAuditEvents = .ok db.auditEvents.events := by
  rw [Database.selectAuditEvents, if_pos (all_mem_tableInfo hcolumns (by decide))]

theorem execute_updateAuditHashes (hcolumns : ∀ column ∈ auditColumns, column ∈ db.schema.tableInfo .auditEvents)
    (id : Int64) (prevHash entryHash : Bytes) :
    db.execute (.updateAuditHashes id prevHash entryHash) =
      (.ok (), { db with auditEvents := db.auditEvents.rehash id prevHash entryHash }) := by
  rw [Database.execute, if_pos (all_mem_tableInfo hcolumns (by decide))]

theorem exec_rehashRows {prev : Block 32} {all : List AuditEvent}
    (hcolumns : ∀ column ∈ auditColumns, column ∈ db.schema.tableInfo .auditEvents) :
    (rehashRows digests prev all).exec db =
      (.ok (), { db with auditEvents := rehashAll digests prev all db.auditEvents }) := by
  induction all generalizing prev db with
  | nil => rfl
  | cons event rest ih =>
    have hhead : ∀ entryHash, (Sql.execute (.updateAuditHashes event.id prev.1 entryHash)).exec db =
        (.ok (), { db with auditEvents := db.auditEvents.rehash event.id prev.1 entryHash }) := fun entryHash =>
      execute_updateAuditHashes hcolumns event.id prev.1 entryHash
    unfold rehashRows
    rw [Sql.exec_bind_ok (hhead _)]
    exact @ih { db with auditEvents := db.auditEvents.rehash event.id prev.1 _ } _ hcolumns

theorem exec_rebuild (hcolumns : ∀ column ∈ auditColumns, column ∈ db.schema.tableInfo .auditEvents) :
    (rebuildHashChain digests).exec db = (.ok (), { db with auditEvents := db.auditEvents.rebuilt digests }) := by
  have hselect : Sql.selectAuditEvents.exec db = (.ok db.auditEvents.events, db) :=
    congrArg (·, db) (selectAuditEvents_of_columns hcolumns)
  unfold rebuildHashChain
  rw [Sql.exec_bind_ok hselect]
  exact exec_rehashRows hcolumns

end Rebuild

/-! ## The steps -/

def auditHashColumns : List ColumnName := [.prevHash, .entryHash, .hmac]

/-- A store at version 7 that has got the first columns of version 8. -/
def withAuditColumns (digests : AuditDigests) (n : Nat) (events : AuditEvents) : Database :=
  { storeAt digests 7 events with
    schema := (auditHashColumns.take n).foldl (fun schema column => schema.addColumn .auditEvents ⟨column, .blob, []⟩)
      (storeAt digests 7 events).schema }

theorem exec_columnExists {i n : Nat} {column : ColumnName} (hcolumn : auditHashColumns[i]? = some column)
    (hn : n ≤ 3) :
    (columnExists .auditEvents column).exec (withAuditColumns digests n events) =
      (.ok (decide (i < n)), withAuditColumns digests n events) := by
  obtain ⟨hi, rfl⟩ := List.getElem?_eq_some_iff.mp hcolumn
  have hi' : i < 3 := hi
  interval_cases i
  all_goals interval_cases n
  all_goals rfl

theorem exec_addColumnUnless {i n : Nat} {column : ColumnName} (hcolumn : auditHashColumns[i]? = some column)
    (hn : n ≤ 3) :
    (addColumnUnless (decide (i < n)) .auditEvents ⟨column, .blob, []⟩).exec
        (withAuditColumns digests (max n i) events) =
      (.ok (), withAuditColumns digests (max n (i + 1)) events) := by
  obtain ⟨hi, rfl⟩ := List.getElem?_eq_some_iff.mp hcolumn
  have hi' : i < 3 := hi
  interval_cases i
  all_goals interval_cases n
  all_goals rfl

theorem execute_addColumn {i : Nat} {column : ColumnName} (hcolumn : auditHashColumns[i]? = some column) :
    (withAuditColumns digests i events).execute (.alterTableAddColumn .auditEvents ⟨column, .blob, []⟩) =
      (.ok (), withAuditColumns digests (i + 1) events) := by
  obtain ⟨hi, rfl⟩ := List.getElem?_eq_some_iff.mp hcolumn
  have hi' : i < 3 := hi
  interval_cases i
  all_goals rfl

theorem auditColumns_withAuditColumns :
    ∀ column ∈ auditColumns, column ∈ (withAuditColumns digests 3 events).schema.tableInfo .auditEvents := by
  have hinfo : (withAuditColumns digests 3 events).schema.tableInfo .auditEvents =
      [.id, .category, .createdAt, .details, .prevHash, .entryHash, .hmac] := rfl
  rw [hinfo]
  decide

theorem exec_rebuildHashChain :
    (do rebuildHashChain digests; Sql.executeBatch [.pragmaUserVersion 8]).exec (withAuditColumns digests 3 events) =
      (.ok (), storeAt digests 8 (events.rebuilt digests)) := by
  rw [Sql.exec_bind_ok (exec_rebuild auditColumns_withAuditColumns)]
  rfl

theorem exec_applySchemaV8 {n : Nat} (hn : n ≤ 3) :
    (applySchemaV8 digests).exec (withAuditColumns digests n events) =
      (.ok (), storeAt digests 8 (events.rebuilt digests)) := by
  have hprevHash : auditHashColumns[0]? = some ColumnName.prevHash := rfl
  have hentryHash : auditHashColumns[1]? = some ColumnName.entryHash := rfl
  have hhmac : auditHashColumns[2]? = some ColumnName.hmac := rfl
  have hfirst : (addColumnUnless (decide (0 < n)) .auditEvents ⟨.prevHash, .blob, []⟩).exec
      (withAuditColumns digests n events) = (.ok (), withAuditColumns digests (max n 1) events) := by
    have hzero := @exec_addColumnUnless digests events 0 n .prevHash hprevHash hn
    rwa [Nat.max_zero] at hzero
  unfold applySchemaV8
  rw [Sql.exec_bind_ok (exec_columnExists hprevHash hn), Sql.exec_bind_ok (exec_columnExists hentryHash hn),
    Sql.exec_bind_ok (exec_columnExists hhmac hn), Sql.exec_bind_ok hfirst,
    Sql.exec_bind_ok (exec_addColumnUnless hentryHash hn), Sql.exec_bind_ok (exec_addColumnUnless hhmac hn),
    Nat.max_eq_right hn]
  exact exec_rebuildHashChain

theorem withAuditColumns_zero : withAuditColumns digests 0 events = storeAt digests 7 events := rfl

theorem exec_applySchema (h : version < 11) :
    (applySchema digests (version + 1)).exec (storeAt digests version events) =
      (.ok (), storeAt digests (version + 1) (events.stepped digests version)) := by
  unfold AuditEvents.stepped
  by_cases hv : version = 7
  · subst hv
    rw [if_pos rfl, ← withAuditColumns_zero]
    exact exec_applySchemaV8 (Nat.zero_le 3)
  · rw [if_neg hv]
    interval_cases version
    all_goals first | exact absurd rfl hv | rfl

/-! ## The plan from a version on -/

theorem applySteps_skip {target : Nat} {rest : List Nat} (h : version ≤ current) :
    applySteps digests current target (version :: rest) = applySteps digests current target rest := by
  conv_lhs => unfold applySteps
  rw [if_neg (by omega)]

theorem applySteps_take {target : Nat} {rest : List Nat} (h : current < version) (ht : version ≤ target) :
    applySteps digests current target (version :: rest) =
      (do applySchema digests version; applySteps digests current target rest) := by
  conv_lhs => unfold applySteps
  rw [if_pos ⟨h, ht⟩]

theorem applySteps_from {target : Nat} (h : version ≤ 11) :
    applySteps digests version target [1, 2, 3, 4, 5, 6, 7, 8, 9, 10, 11] =
      applySteps digests version target (List.range' (version + 1) (11 - version)) := by
  have hall : [1, 2, 3, 4, 5, 6, 7, 8, 9, 10, 11] =
      List.range' 1 version ++ List.range' (version + 1) (11 - version) := by
    interval_cases version
    all_goals rfl
  rw [hall]
  generalize List.range' (version + 1) (11 - version) = rest
  have hskip : ∀ versions : List Nat, (∀ v ∈ versions, v ≤ version) →
      applySteps digests version target (versions ++ rest) = applySteps digests version target rest := by
    intro versions hversions
    induction versions with
    | nil => rfl
    | cons v versions ih =>
      obtain ⟨hv, hversions⟩ := List.forall_mem_cons.mp hversions
      rw [List.cons_append, applySteps_skip hv, ih hversions]
  apply hskip
  intro v hv
  have := List.mem_range'_1.mp hv
  omega

theorem finished_stepped :
    finished digests (version + 1) (events.stepped digests version) = finished digests version events := by
  unfold finished AuditEvents.stepped
  rcases Nat.lt_trichotomy version 7 with h | rfl | h
  · rw [if_pos (by omega), if_neg (by omega), if_pos (by omega)]
  · rfl
  · rw [if_neg (by omega), if_neg (by omega), if_neg (by omega)]

theorem exec_applySteps (hcurrent : current ≤ version) (h : version ≤ 11) :
    (applySteps digests current 11 (List.range' (version + 1) (11 - version))).exec (storeAt digests version events) =
      (.ok (), finished digests version events) := by
  induction hn : 11 - version generalizing version events with
  | zero =>
    obtain rfl : version = 11 := by omega
    rfl
  | succ n ih =>
    rw [List.range'_succ, applySteps_take (by omega) (by omega), Sql.exec_bind_ok (exec_applySchema (by omega)),
      ih (by omega) (by omega) (by omega), finished_stepped]

theorem exec_bootstrapProfile {db : Database} (hversion : db.userVersion = version) (h : version ≤ 11)
    (haccount : db.schema.hasTable .account = true ∨ version = 0) :
    (bootstrapProfile digests).exec db =
      (applySteps digests version 11 (List.range' (version + 1) (11 - version))).exec db := by
  have hexists : (Sql.ask (.tableExists .account)).exec db = (.ok (db.schema.hasTable .account), db) := rfl
  have hread : (Sql.ask .userVersion).exec db = (.ok version, db) := hversion ▸ rfl
  have hplan : (buildPlan version schemaVersionV11).exec db = (.ok 11, db) := by
    unfold buildPlan schemaVersionV11
    rw [if_neg (by omega)]
    rfl
  have hcurrent : currentVersion.exec db = (.ok version, db) := by
    unfold currentVersion
    rw [Sql.exec_bind_ok hexists]
    rcases haccount with haccount | rfl
    · rw [if_pos haccount]
      exact hread
    · split
      · exact hread
      · rfl
  unfold bootstrapProfile
  rw [Sql.exec_bind_ok hcurrent, Sql.exec_bind_ok hplan]
  unfold applyPlan
  rw [Sql.exec_bind_ok hread, applySteps_from h]

theorem exec_of_step (version : Nat) {db : Database} (hversion : db.userVersion = version) (h : version < 11)
    (haccount : db.schema.hasTable .account = true ∨ version = 0)
    (hstep : (applySchema digests (version + 1)).exec db =
      (.ok (), storeAt digests (version + 1) (events.stepped digests version))) :
    (bootstrapProfile digests).exec db = (.ok (), finished digests version events) := by
  obtain ⟨n, hn⟩ : ∃ n, 11 - version = n + 1 := ⟨10 - version, by omega⟩
  have hn' : n = 11 - (version + 1) := by omega
  rw [exec_bootstrapProfile hversion h.le haccount, hn, List.range'_succ, applySteps_take (by omega) (by omega),
    Sql.exec_bind_ok hstep, hn', exec_applySteps (by omega) h, finished_stepped]

end Steps

/-! ## Where the process may stop -/

/-- Before these a store already has a column that the version adds without looking. -/
def unguardedGap : List Statement :=
  [.alterTableAddColumn .preferences ⟨.intValue, .integer, []⟩, .pragmaUserVersion 5, .pragmaUserVersion 6]

/-- The statement that is next, where there is one and nothing is read before it. -/
def nextStatement {α : Type} : Prog SqlEffect SqlEffect.Answer α → Option Statement
  | .op (.execute statement) _ => some statement
  | _ => none

def SqlEffect.inGap : SqlEffect → Bool
  | .execute statement => statement ∈ unguardedGap
  | _ => false

/-- Wherever the process stops, bootstrap brings the store to the end, and fails in the gap. -/
def restarts (digests : AuditDigests) (final : Database) : Protocol Database SqlEffect SqlEffect.Answer where
  allowed db e :=
    if e.inGap then ((bootstrapProfile digests).exec db).1.isOk = false
    else (bootstrapProfile digests).exec db = (.ok (), final)
  moves db e ans db' := e.perform db () = (ans, db')

def Ends {α : Type} (a : α) (db : Database) (result : Except StoreError α) (db' : Database) : Prop :=
  result = .ok a ∧ db' = db

namespace Sql

variable {digests : AuditDigests} {final db db' : Database} {α β : Type} {post : Except StoreError β → Database → Prop}

theorem allowed_of_exec {e : SqlEffect} (he : e.inGap = false)
    (h : (bootstrapProfile digests).exec db = (.ok (), final)) : (restarts digests final).allowed db e := by
  simp [restarts, he, h]

theorem follows_seq {x : Sql α} {f : α → Sql β} {a : α}
    (hx : Follows (restarts digests final) (Ends a db') x.run db)
    (hf : Follows (restarts digests final) post (f a).run db') :
    Follows (restarts digests final) post (x >>= f).run db := by
  rw [follows_fallible_bind]
  apply hx.mono
  rintro result db'' ⟨rfl, rfl⟩
  exact hf

theorem follows_stopAt {x : Sql β} (h : Follows (restarts digests final) post x.run db) (n : Nat) :
    Follows (restarts digests final) post (x.stopAt n db).1 (x.stopAt n db).2 := by
  have hmoves : ∀ (db : Database) (e : SqlEffect) (fate : Unit),
      (restarts digests final).moves db e (e.perform db fate).1 (e.perform db fate).2 := fun _ _ _ => rfl
  exact h.stopAt hmoves n []

theorem follows_execute {statement : Statement} (h : (restarts digests final).allowed db (.execute statement))
    (hdone : db.execute statement = (.ok (), db')) :
    Follows (restarts digests final) (Ends () db') (Sql.execute statement).run db := by
  refine ⟨h, fun ans db'' hmove => ?_⟩
  have hans : db.execute statement = (ans, db'') := hmove
  rw [hdone] at hans
  cases hans
  exact ⟨rfl, rfl⟩

theorem follows_answered {e : SqlEffect} {answer : e.Answer} (h : (restarts digests final).allowed db e)
    (hanswer : e.perform db () = (answer, db)) :
    Follows (restarts digests final) (Ends answer db) (Sql.ask e).run db := by
  refine ⟨h, fun ans db' hmove => ?_⟩
  have hans : e.perform db () = (ans, db') := hmove
  rw [hanswer] at hans
  cases hans
  exact ⟨rfl, rfl⟩

theorem follows_columnExists {table : TableName} {column : ColumnName} {there : Bool}
    (h : (restarts digests final).allowed db (.tableInfo table))
    (hthere : decide (column ∈ db.schema.tableInfo table) = there) :
    Follows (restarts digests final) (Ends there db) (columnExists table column).run db := by
  refine ⟨h, fun ans db' hmove => ?_⟩
  have hans : (db.schema.tableInfo table, db) = (ans, db') := hmove
  cases hans
  exact ⟨congrArg Except.ok hthere, rfl⟩

theorem follows_selectAuditEvents {all : List AuditEvent} (h : (restarts digests final).allowed db .selectAuditEvents)
    (hall : db.selectAuditEvents = .ok all) :
    Follows (restarts digests final) (Ends all db) Sql.selectAuditEvents.run db := by
  refine ⟨h, fun ans db' hmove => ?_⟩
  have hans : (db.selectAuditEvents, db) = (ans, db') := hmove
  cases hans
  exact ⟨hall, rfl⟩

theorem follows_executeBatch_nil : Follows (restarts digests final) (Ends () db) (Sql.executeBatch []).run db :=
  ⟨rfl, rfl⟩

theorem follows_executeBatch_cons {statement : Statement} {rest : List Statement} {db'' : Database}
    (h : (restarts digests final).allowed db (.execute statement)) (hdone : db.execute statement = (.ok (), db'))
    (hrest : Follows (restarts digests final) (Ends () db'') (Sql.executeBatch rest).run db') :
    Follows (restarts digests final) (Ends () db'') (Sql.executeBatch (statement :: rest)).run db :=
  follows_seq (follows_execute h hdone) hrest

theorem follows_addColumn {table : TableName} {column : Column}
    (h : (restarts digests final).allowed db (.execute (.alterTableAddColumn table column)))
    (hdone : db.execute (.alterTableAddColumn table column) = (.ok (), db')) :
    Follows (restarts digests final) (Ends () db') (addColumnUnless false table column).run db :=
  follows_executeBatch_cons h hdone follows_executeBatch_nil

theorem follows_batch_cons {events : AuditEvents} (version : Nat) {statement : Statement} {rest : List Statement}
    {db'' : Database} (hgap : (SqlEffect.execute statement).inGap = false) (hversion : db.userVersion = version)
    (h : version < 11) (haccount : db.schema.hasTable .account = true ∨ version = 0)
    (hstep : (applySchema digests (version + 1)).exec db =
      (.ok (), storeAt digests (version + 1) (events.stepped digests version)))
    (hdone : db.execute statement = (.ok (), db'))
    (hrest : Follows (restarts digests (finished digests version events)) (Ends () db'')
      (Sql.executeBatch rest).run db') :
    Follows (restarts digests (finished digests version events)) (Ends () db'')
      (Sql.executeBatch (statement :: rest)).run db :=
  follows_executeBatch_cons (allowed_of_exec hgap (exec_of_step version hversion h haccount hstep)) hdone hrest

theorem follows_gap_cons {statement : Statement} {rest : List Statement} {db'' : Database}
    (hgap : (SqlEffect.execute statement).inGap = true)
    (hfails : ((bootstrapProfile digests).exec db).1.isOk = false) (hdone : db.execute statement = (.ok (), db'))
    (hrest : Follows (restarts digests final) (Ends () db'') (Sql.executeBatch rest).run db') :
    Follows (restarts digests final) (Ends () db'') (Sql.executeBatch (statement :: rest)).run db := by
  refine follows_executeBatch_cons ?_ hdone hrest
  simp [restarts, hgap, hfails]

end Sql

/-! ## The steps with stops -/

section Stops

open Sql

variable {digests : AuditDigests} {events : AuditEvents}

/-- `Stops v` says where the step from version `v` may be stopped. -/
def Stops (digests : AuditDigests) (version : Nat) (events : AuditEvents) : Prop :=
  Follows (restarts digests (finished digests version events))
    (Ends () (storeAt digests (version + 1) (events.stepped digests version))) (applySchema digests (version + 1)).run
    (storeAt digests version events)

theorem stops_zero : Stops digests 0 events := by
  apply follows_batch_cons 0 rfl rfl (by omega) (.inr rfl) rfl rfl
  apply follows_batch_cons 0 rfl rfl (by omega) (.inl rfl) rfl rfl
  apply follows_batch_cons 0 rfl rfl (by omega) (.inl rfl) rfl rfl
  apply follows_batch_cons 0 rfl rfl (by omega) (.inl rfl) rfl rfl
  exact follows_executeBatch_nil

theorem stops_one : Stops digests 1 events := by
  have hstart : (bootstrapProfile digests).exec (storeAt digests 1 events) = (.ok (), finished digests 1 events) :=
    exec_of_step 1 rfl (by omega) (.inl rfl) rfl
  apply follows_seq (follows_columnExists (allowed_of_exec rfl hstart) rfl)
  apply follows_seq (follows_addColumn (allowed_of_exec rfl hstart) rfl)
  apply follows_batch_cons 1 rfl rfl (by omega) (.inl rfl) rfl rfl
  exact follows_executeBatch_nil

theorem stops_two : Stops digests 2 events := by
  apply follows_batch_cons 2 rfl rfl (by omega) (.inl rfl) rfl rfl
  apply follows_batch_cons 2 rfl rfl (by omega) (.inl rfl) rfl rfl
  exact follows_executeBatch_nil

theorem stops_three : Stops digests 3 events := by
  apply follows_batch_cons 3 rfl rfl (by omega) (.inl rfl) rfl rfl
  apply follows_batch_cons 3 rfl rfl (by omega) (.inl rfl) rfl rfl
  exact follows_executeBatch_nil

/-- The step to version 5 adds two columns without looking. -/
theorem stops_four : Stops digests 4 events := by
  apply follows_batch_cons 4 rfl rfl (by omega) (.inl rfl) rfl rfl
  apply follows_gap_cons rfl rfl rfl
  apply follows_gap_cons rfl rfl rfl
  exact follows_executeBatch_nil

theorem stops_five : Stops digests 5 events := by
  apply follows_batch_cons 5 rfl rfl (by omega) (.inl rfl) rfl rfl
  apply follows_gap_cons rfl rfl rfl
  exact follows_executeBatch_nil

theorem stops_six : Stops digests 6 events := by
  apply follows_batch_cons 6 rfl rfl (by omega) (.inl rfl) rfl rfl
  apply follows_batch_cons 6 rfl rfl (by omega) (.inl rfl) rfl rfl
  exact follows_executeBatch_nil

theorem exec_withAuditColumns {n : Nat} {events' : AuditEvents} (hn : n ≤ 3) (h : events'.events = events.events) :
    (bootstrapProfile digests).exec (withAuditColumns digests n events') = (.ok (), finished digests 7 events) := by
  have haccount : (withAuditColumns digests n events').schema.hasTable .account = true := by
    interval_cases n
    all_goals rfl
  apply exec_of_step 7 rfl (by omega) (.inl haccount)
  have hstepped : events.stepped digests 7 = events'.rebuilt digests := (AuditEvents.rebuilt_congr h).symm
  rw [hstepped]
  exact exec_applySchemaV8 hn

theorem follows_rehashRows {prev : Block 32} {all : List AuditEvent} {events' : AuditEvents}
    (h : events'.events = events.events) :
    Follows (restarts digests (finished digests 7 events))
      (Ends () (withAuditColumns digests 3 (rehashAll digests prev all events')))
      (rehashRows digests prev all).run (withAuditColumns digests 3 events') := by
  induction all generalizing prev events' with
  | nil => exact ⟨rfl, rfl⟩
  | cons event rest ih =>
    have hhere : (bootstrapProfile digests).exec (withAuditColumns digests 3 events') =
        (.ok (), finished digests 7 events) := exec_withAuditColumns (le_refl 3) h
    have hdone := execute_updateAuditHashes (@auditColumns_withAuditColumns digests events') event.id prev.1
      (digests.computeEntryHash prev (canonicalEventBytes event)).1
    apply follows_seq (follows_execute (allowed_of_exec rfl hhere) hdone)
    exact ih (AuditEvents.rehash_events.trans h)

theorem stops_seven : Stops digests 7 events := by
  have hat : ∀ n ≤ 3, (bootstrapProfile digests).exec (withAuditColumns digests n events) =
      (.ok (), finished digests 7 events) := fun n hn => exec_withAuditColumns hn rfl
  have hlast : (bootstrapProfile digests).exec (withAuditColumns digests 3 (events.rebuilt digests)) =
      (.ok (), finished digests 7 events) := exec_withAuditColumns (le_refl 3) rehashAll_events
  have hprevHash : auditHashColumns[0]? = some ColumnName.prevHash := rfl
  have hentryHash : auditHashColumns[1]? = some ColumnName.entryHash := rfl
  have hhmac : auditHashColumns[2]? = some ColumnName.hmac := rfl
  have hselect := @follows_selectAuditEvents digests (finished digests 7 events) (withAuditColumns digests 3 events)
    events.events (allowed_of_exec rfl (hat 3 (by omega))) (selectAuditEvents_of_columns auditColumns_withAuditColumns)
  unfold Stops
  rw [← withAuditColumns_zero]
  apply follows_seq (follows_columnExists (allowed_of_exec rfl (hat 0 (by omega))) rfl)
  apply follows_seq (follows_columnExists (allowed_of_exec rfl (hat 0 (by omega))) rfl)
  apply follows_seq (follows_columnExists (allowed_of_exec rfl (hat 0 (by omega))) rfl)
  apply follows_seq (follows_addColumn (allowed_of_exec rfl (hat 0 (by omega))) (execute_addColumn hprevHash))
  apply follows_seq (follows_addColumn (allowed_of_exec rfl (hat 1 (by omega))) (execute_addColumn hentryHash))
  apply follows_seq (follows_addColumn (allowed_of_exec rfl (hat 2 (by omega))) (execute_addColumn hhmac))
  apply follows_seq (follows_seq hselect (follows_rehashRows rfl))
  apply follows_executeBatch_cons (allowed_of_exec rfl hlast) rfl
  exact follows_executeBatch_nil

theorem stops_eight : Stops digests 8 events := by
  apply follows_batch_cons 8 rfl rfl (by omega) (.inl rfl) rfl rfl
  apply follows_batch_cons 8 rfl rfl (by omega) (.inl rfl) rfl rfl
  exact follows_executeBatch_nil

theorem stops_nine : Stops digests 9 events := by
  apply follows_batch_cons 9 rfl rfl (by omega) (.inl rfl) rfl rfl
  apply follows_batch_cons 9 rfl rfl (by omega) (.inl rfl) rfl rfl
  exact follows_executeBatch_nil

theorem stops_ten : Stops digests 10 events := by
  apply follows_batch_cons 10 rfl rfl (by omega) (.inl rfl) rfl rfl
  apply follows_batch_cons 10 rfl rfl (by omega) (.inl rfl) rfl rfl
  apply follows_batch_cons 10 rfl rfl (by omega) (.inl rfl) rfl rfl
  exact follows_executeBatch_nil

theorem stops {version : Nat} (h : version < 11) : Stops digests version events := by
  interval_cases version
  · exact stops_zero
  · exact stops_one
  · exact stops_two
  · exact stops_three
  · exact stops_four
  · exact stops_five
  · exact stops_six
  · exact stops_seven
  · exact stops_eight
  · exact stops_nine
  · exact stops_ten

/-! ## The plan with stops -/

theorem follows_applySteps {current version : Nat} (hcurrent : current ≤ version) (h : version ≤ 11) :
    Follows (restarts digests (finished digests version events)) (Ends () (finished digests version events))
      (applySteps digests current 11 (List.range' (version + 1) (11 - version))).run
      (storeAt digests version events) := by
  induction hn : 11 - version generalizing version events with
  | zero =>
    obtain rfl : version = 11 := by omega
    exact ⟨rfl, rfl⟩
  | succ n ih =>
    rw [List.range'_succ, applySteps_take (by omega) (by omega)]
    apply follows_seq (stops (by omega))
    rw [← finished_stepped]
    exact ih (by omega) (by omega) (by omega)

variable (digests events) in
theorem storeAt_version {version : Nat} (h : version ≤ 11) :
    (storeAt digests version events).userVersion = version ∧
      ((storeAt digests version events).schema.hasTable .account = true ∨ version = 0) := by
  interval_cases version
  · exact ⟨rfl, .inr rfl⟩
  all_goals exact ⟨rfl, .inl rfl⟩

theorem exec_storeAt {version : Nat} (h : version ≤ 11) :
    (bootstrapProfile digests).exec (storeAt digests version events) = (.ok (), finished digests version events) := by
  obtain ⟨hversion, haccount⟩ := storeAt_version digests events h
  rw [exec_bootstrapProfile hversion h haccount, exec_applySteps (le_refl version) h]

variable (digests events) in
theorem follows_bootstrapProfile {version : Nat} (h : version ≤ 11) :
    Follows (restarts digests (finished digests version events)) (Ends () (finished digests version events))
      (bootstrapProfile digests).run (storeAt digests version events) := by
  obtain ⟨hversion, haccount⟩ := storeAt_version digests events h
  have hallowed : ∀ e : SqlEffect, e.inGap = false →
      (restarts digests (finished digests version events)).allowed (storeAt digests version events) e :=
    fun e he => allowed_of_exec he (exec_storeAt h)
  have hread : Follows (restarts digests (finished digests version events))
      (Ends version (storeAt digests version events))
      (Sql.ask .userVersion).run (storeAt digests version events) :=
    follows_answered (hallowed .userVersion rfl) (by rw [SqlEffect.perform, hversion])
  have hcurrent : Follows (restarts digests (finished digests version events))
      (Ends version (storeAt digests version events)) currentVersion.run (storeAt digests version events) := by
    apply follows_seq (follows_answered (hallowed (.tableExists .account) rfl) rfl)
    rcases haccount with haccount | rfl
    · rw [if_pos haccount]
      exact hread
    · split
      · exact hread
      · exact ⟨rfl, rfl⟩
  have hplan : Follows (restarts digests (finished digests version events)) (Ends 11 (storeAt digests version events))
      (buildPlan version schemaVersionV11).run (storeAt digests version events) := by
    unfold buildPlan schemaVersionV11
    rw [if_neg (by omega)]
    exact ⟨rfl, rfl⟩
  apply follows_seq hcurrent
  apply follows_seq hplan
  apply follows_seq hread
  rw [applySteps_from h]
  exact follows_applySteps (le_refl version) h

theorem applySteps_congr {current target target' : Nat} {versions : List Nat}
    (h : ∀ v ∈ versions, v ≤ target ∧ v ≤ target') :
    applySteps digests current target versions = applySteps digests current target' versions := by
  induction versions with
  | nil => rfl
  | cons v versions ih =>
    obtain ⟨⟨hv, hv'⟩, hversions⟩ := List.forall_mem_cons.mp h
    unfold applySteps
    rw [ih hversions]
    simp only [hv, hv']

theorem storeAt_of_le {version : Nat} (h : 11 ≤ version) :
    storeAt digests version events = storeAt digests 11 events := by
  unfold storeAt applyPlan
  have hsteps : ∀ current, applySteps digests current version [1, 2, 3, 4, 5, 6, 7, 8, 9, 10, 11] =
      applySteps digests current 11 [1, 2, 3, 4, 5, 6, 7, 8, 9, 10, 11] := by
    intro current
    apply applySteps_congr
    simp only [List.forall_mem_cons]
    refine ⟨?_, ?_, ?_, ?_, ?_, ?_, ?_, ?_, ?_, ?_, ?_, ?_⟩
    all_goals simp
    all_goals omega
  simp only [hsteps]

end Stops

/-! ## Plans that are run again -/

/-- Bootstrap returns, and leaves the schema and the version that it leaves from the start. -/
def Resumes (digests : AuditDigests) (start stopped : Database) : Prop :=
  ((bootstrapProfile digests).exec stopped).1 = .ok () ∧
    ((bootstrapProfile digests).exec stopped).2.schema = ((bootstrapProfile digests).exec start).2.schema ∧
    ((bootstrapProfile digests).exec stopped).2.userVersion = ((bootstrapProfile digests).exec start).2.userVersion

def MigrationsResume (digests : AuditDigests) : Prop :=
  ∀ (version n : Nat) (events : AuditEvents),
    let start := storeAt digests version events
    Resumes digests start ((bootstrapProfile digests).stopAt n start).2

theorem resumes_of_exec {digests : AuditDigests} {start stopped final : Database}
    (hstart : (bootstrapProfile digests).exec start = (.ok (), final))
    (hstopped : (bootstrapProfile digests).exec stopped = (.ok (), final)) : Resumes digests start stopped := by
  unfold Resumes
  rw [hstart, hstopped]
  exact ⟨rfl, rfl, rfl⟩

theorem mem_unguardedGap_iff {statement : Statement} :
    statement ∈ unguardedGap ↔ (SqlEffect.execute statement).inGap = true := by
  simp [SqlEffect.inGap]

theorem resumes_iff_of_follows {digests : AuditDigests} {start stopped final : Database}
    {rest : Prog SqlEffect SqlEffect.Answer (Except StoreError Unit)}
    (hstart : (bootstrapProfile digests).exec start = (.ok (), final))
    (hfinal : (bootstrapProfile digests).exec final = (.ok (), final))
    (hrest : Follows (restarts digests final) (Ends () final) rest stopped) :
    Resumes digests start stopped ↔ ∀ statement, nextStatement rest = some statement → statement ∉ unguardedGap := by
  rcases rest with result | ⟨e, k⟩
  · obtain ⟨-, rfl⟩ := hrest
    exact iff_of_true (resumes_of_exec hstart hfinal) (by simp [nextStatement])
  · have hallowed : if e.inGap then ((bootstrapProfile digests).exec stopped).1.isOk = false
        else (bootstrapProfile digests).exec stopped = (.ok (), final) := hrest.1
    by_cases hgap : e.inGap = true
    · rw [if_pos hgap] at hallowed
      refine iff_of_false ?_ ?_
      · rintro ⟨hok, -⟩
        rw [hok] at hallowed
        cases hallowed
      · intro hnone
        rcases e with _ | _ | _ | _ | statement
        case execute => exact hnone statement rfl (mem_unguardedGap_iff.mpr hgap)
        all_goals cases hgap
    · rw [if_neg hgap] at hallowed
      refine iff_of_true (resumes_of_exec hstart hallowed) fun statement hnext hmem => ?_
      rcases e with _ | _ | _ | _ | next
      case execute =>
        obtain rfl : next = statement := Option.some.inj hnext
        exact hgap (mem_unguardedGap_iff.mp hmem)
      all_goals cases hnext

/-- The plan is resumed from wherever it stops, but for the three stops in the gap. -/
theorem resumes_iff (digests : AuditDigests) (version n : Nat) (events : AuditEvents) :
    let start := storeAt digests version events
    let stop := (bootstrapProfile digests).stopAt n start
    Resumes digests start stop.2 ↔ ∀ statement, nextStatement stop.1 = some statement → statement ∉ unguardedGap := by
  have hatMost : ∀ version ≤ 11,
      let start := storeAt digests version events
      let stop := (bootstrapProfile digests).stopAt n start
      Resumes digests start stop.2 ↔
        ∀ statement, nextStatement stop.1 = some statement → statement ∉ unguardedGap := by
    intro version h
    have hfollows := Sql.follows_stopAt (follows_bootstrapProfile digests events h) n
    exact resumes_iff_of_follows (exec_storeAt h) (exec_storeAt (le_refl 11)) hfollows
  rcases Nat.le_total version 11 with h | h
  · exact hatMost version h
  · rw [storeAt_of_le h]
    exact hatMost 11 (le_refl 11)

theorem not_migrationsResume : ¬ MigrationsResume sha2Digests := by
  intro h
  have hfails : ((bootstrapProfile sha2Digests).exec
      ((bootstrapProfile sha2Digests).stopAt 4 (storeAt sha2Digests 4 .empty)).2).1 =
        .error (.duplicateColumn .textValue) := rfl
  have hok := (h 4 4 .empty).1
  rw [hfails] at hok
  cases hok

end Pcloud
