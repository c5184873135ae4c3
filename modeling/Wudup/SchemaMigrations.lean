import Wudup.DbSchema
import Wudup.Library.Transaction

/-! Migrations of the database schema, and the runs of `init_schema` that several processes make of them. -/
namespace Wudup
open Library Library.Sql

namespace DbSchema

inductive SchemaError where
  | databaseError (message : String)
  | sqliteError (error : Sql.Error)
  | keyError (version : ℤ)
  /-- The process is stopped, or a statement fails for a reason outside of the schema. -/
  | stopped
  deriving DecidableEq, Repr

def unsupportedVersion (version : ℤ) : SchemaError :=
  .databaseError s!"Unsupported database schema version: {version}"

/-! Checks -/

def formatColumnNames : List String → String
  | [] => "<none>"
  | names => ", ".intercalate names

def validateTableColumns (db : Database) (table : String) (expected : List ColumnSchema) : Except SchemaError Unit :=
  let actual := db.columns table
  let actualNames := actual.map (·.name)
  let expectedNames := expected.map (·.name)
  if actualNames ≠ expectedNames then
    .error (.databaseError (s!"Unexpected columns for table {table}: " ++
      s!"expected {formatColumnNames expectedNames}, found {formatColumnNames actualNames}"))
  else if actual ≠ expected then .error (.databaseError s!"Unexpected column definition for table {table}")
  else .ok ()

def validateTable (db : Database) (table : String) (object : Object) (expected : List ColumnSchema) :
    Except SchemaError Unit :=
  if object.type ≠ "table" then .error (.databaseError s!"Expected {table} to be a table, found {object.type}")
  else validateTableColumns db table expected

/-- A table that may be missing. -/
def validateExisting (db : Database) (table : String) (expected : List ColumnSchema) : Except SchemaError Unit :=
  match db.objects table with
  | none => .ok ()
  | some object => validateTable db table object expected

/-- A table of the schema. -/
def validateExpected (db : Database) (table : String) (expected : List ColumnSchema) : Except SchemaError Unit :=
  match db.objects table with
  | none => .error (.databaseError s!"Missing expected table: {table}")
  | some object => validateTable db table object expected

/-! The body of a migration -/

/-- What a migration does one after the other: checks, and statements that it executes. -/
inductive SchemaStatement where
  | validateExisting (table : String) (expected : List ColumnSchema)
  | validateExpected (table : String) (expected : List ColumnSchema)
  | validateTableColumns (table : String) (expected : List ColumnSchema)
  | ensureSchemaMigrations
  | recordSchemaMigration (version : ℤ)
  | unsupported (version : ℤ)
  | noMigration (version : ℤ)
  | execute (statement : Statement)
  deriving DecidableEq, Repr

def execute (db : Database) (statement : Statement) : Except SchemaError Database :=
  (statement.exec db).mapError .sqliteError

def migrationName (version : ℤ) : String := (migrationNames.lookup version).getD s!"schema version {version}"

def insertMigration (now : String) (version : ℤ) : Statement :=
  .insertOrIgnore "schema_migrations"
    [("version",.integer version),("name",.text (migrationName version)),("applied_at",.text now)]

def SchemaStatement.run (now : String) (statement : SchemaStatement) (db : Database) : Except SchemaError Database :=
  match statement with
  | .validateExisting table expected => (DbSchema.validateExisting db table expected).map fun _ => db
  | .validateExpected table expected => (DbSchema.validateExpected db table expected).map fun _ => db
  | .validateTableColumns table expected => (DbSchema.validateTableColumns db table expected).map fun _ => db
  | .ensureSchemaMigrations =>
    match db.objects "schema_migrations" with
    | some object =>
      (validateTable db "schema_migrations" object (expectedSchema.columns "schema_migrations")).map fun _ => db
    | none => DbSchema.execute db createSchemaMigrations
  | .recordSchemaMigration version => DbSchema.execute db (insertMigration now version)
  | .unsupported version => .error (unsupportedVersion version)
  | .noMigration version => .error (.keyError version)
  | .execute statement => DbSchema.execute db statement

def executeScript (script : List Statement) : List SchemaStatement := script.map .execute

def validateSchema (schema : SchemaDefinition) : List SchemaStatement :=
  schema.map fun entry => .validateExpected entry.1 entry.2

def backfillSchemaMigrations (version : ℤ) : List SchemaStatement :=
  .ensureSchemaMigrations :: (List.range version.toNat).map fun (i : ℕ) => .recordSchemaMigration (i + 1)

/-! Migrations -/

def indexPendingUpdates : List Statement :=
  [.createIndex "idx_pending_updates_run_id" "pending_updates" ["run_id"],
   .createIndex "idx_pending_updates_status" "pending_updates" ["status"],
   .createIndex "idx_pending_updates_service_key_status" "pending_updates" ["service_key","status"]]

def indexTagExclusionRules : Statement :=
  .createIndex "idx_tag_exclusion_rules_lookup" "tag_exclusion_rules"
    ["status","image_repo","service_key","match_type"]

def createWebAuth : List Statement :=
  [createWebUsers,createWebSessions,
   .createIndex "idx_web_sessions_user_id" "web_sessions" ["user_id"],
   .createIndex "idx_web_sessions_expires_at" "web_sessions" ["expires_at"],
   createWebSettings]

def indexReleaseNoteCacheUpdatedAt : Statement :=
  .createIndex "idx_release_note_cache_updated_at" "release_note_cache" ["updated_at"]

def indexReleaseNoteCacheIdentityDigest : Statement :=
  .createIndex "idx_release_note_cache_identity_digest" "release_note_cache"
    ["provider","image_repo","upstream_repo","current_tag","target_tag","target_digest"]

def indexAutoUpdateScheduleRuns : Statement :=
  .createIndex "idx_auto_update_schedule_runs_service" "auto_update_schedule_runs" ["service_key","scheduled_for"]

def indexDependencySnoozes : List Statement :=
  [.createIndex "idx_dependency_snoozes_service_key" "dependency_snoozes" ["service_key","created_at"],
   .createIndex "idx_dependency_snoozes_wait_for_service_key" "dependency_snoozes"
     ["wait_for_service_key","created_at"]]

def securityScanCacheIndexes : List Statement :=
  [.createIndex "idx_security_scan_cache_request" "security_scan_cache" ["request_key","updated_at"],
   .createIndex "idx_security_scan_cache_image_digest_platform" "security_scan_cache"
     ["requested_ref","reported_digest","platform","updated_at"]]

def indexReleaseNotificationHistory : Statement :=
  .createIndex "idx_release_notification_history_status" "release_notification_history" ["status","last_sent_at"]

def indexUpdateEventsServiceLatest : Statement :=
  .createIndex "idx_update_events_service_latest" "update_events" ["stack_name","service_name","id"]

def indexReleaseSkips : Statement :=
  .createIndex "idx_release_skips_service_key" "release_skips" ["service_key","created_at"]

/-- A migration ends with its version. -/
def finishMigration (version : ℤ) : List SchemaStatement :=
  [.execute (.setUserVersion version),.recordSchemaMigration version]

def migrateV1ToV2 : List SchemaStatement :=
  [.validateExisting "pending_updates" (expectedSchema.columns "pending_updates")] ++
    executeScript (createPendingUpdatesV2 :: indexPendingUpdates) ++ finishMigration 2

def migrateV2ToV3 : List SchemaStatement :=
  [.validateExisting "tag_exclusion_rules" (expectedSchema.columns "tag_exclusion_rules")] ++
    executeScript [createTagExclusionRules,indexTagExclusionRules] ++ finishMigration 3

def migrateV3ToV4 : List SchemaStatement :=
  (["web_users","web_sessions","web_settings"].map fun table =>
      .validateExisting table (expectedSchema.columns table)) ++
    executeScript createWebAuth ++ finishMigration 4

def migrateV4ToV5 : List SchemaStatement :=
  [.validateExisting "release_note_cache" (expectedSchemaV11.columns "release_note_cache")] ++
    executeScript [createReleaseNoteCacheV5,indexReleaseNoteCacheUpdatedAt] ++ finishMigration 5

def migrateV5ToV6 : List SchemaStatement :=
  [.validateTableColumns "service_policy" (expectedSchemaV5.columns "service_policy"),
   .validateExisting "auto_update_schedule_runs" (expectedSchema.columns "auto_update_schedule_runs")] ++
    executeScript
      [.addColumn "service_policy" (nullable "auto_update_time" "TEXT"),
       .addColumn "service_policy" (defaulted "auto_update_days_json" "TEXT" "'[]'"),
       createAutoUpdateScheduleRuns,indexAutoUpdateScheduleRuns] ++ finishMigration 6

def migrateV6ToV7 : List SchemaStatement :=
  let tables := ["pending_updates","update_events","known_images"]
  (tables.map fun table => .validateTableColumns table (expectedSchemaV6.columns table)) ++
    (tables.flatMap fun table => digestProvenanceSqlColumns.map fun column =>
      .execute (.addColumn table (defaulted column "TEXT" "''"))) ++ finishMigration 7

def migrateV7ToV8 : List SchemaStatement :=
  [.validateExisting "dependency_snoozes" (expectedSchema.columns "dependency_snoozes")] ++
    executeScript (createDependencySnoozes :: indexDependencySnoozes) ++ finishMigration 8

def migrateV8ToV9 : List SchemaStatement :=
  [.validateExisting "security_scan_cache" (expectedSchemaV9.columns "security_scan_cache")] ++
    executeScript (createSecurityScanCacheV9 :: securityScanCacheIndexes) ++ finishMigration 9

def migrateV9ToV10 : List SchemaStatement :=
  [.validateTableColumns "security_scan_cache" (expectedSchemaV9.columns "security_scan_cache"),
   .execute (.addColumn "security_scan_cache" (defaulted "findings_json" "TEXT" "'[]'"))] ++ finishMigration 10

def migrateV10ToV11 : List SchemaStatement :=
  [.validateExisting "release_notification_history" (expectedSchema.columns "release_notification_history")] ++
    executeScript [createReleaseNotificationHistory,indexReleaseNotificationHistory] ++ finishMigration 11

def migrateV11ToV12 : List SchemaStatement :=
  [.validateTableColumns "release_note_cache" (expectedSchemaV11.columns "release_note_cache"),
   .execute (.addColumn "release_note_cache" (defaulted "body" "TEXT" "''"))] ++ finishMigration 12

def migrateV12ToV13 : List SchemaStatement :=
  [.validateTableColumns "release_note_cache" (expectedSchemaV12.columns "release_note_cache"),
   .execute (.addColumn "release_note_cache" (defaulted "target_digest" "TEXT" "''")),
   .execute indexReleaseNoteCacheIdentityDigest] ++ finishMigration 13

def migrateV13ToV14 : List SchemaStatement :=
  .execute indexUpdateEventsServiceLatest :: finishMigration 14

def migrateV14ToV15 : List SchemaStatement :=
  [.validateExisting "release_skips" (expectedSchema.columns "release_skips")] ++
    executeScript [createReleaseSkips,indexReleaseSkips] ++ finishMigration 15

def migrationsByTargetVersion : List (ℤ × List SchemaStatement) :=
  [(2,migrateV1ToV2),(3,migrateV2ToV3),(4,migrateV3ToV4),(5,migrateV4ToV5),(6,migrateV5ToV6),(7,migrateV6ToV7),
   (8,migrateV7ToV8),(9,migrateV8ToV9),(10,migrateV9ToV10),(11,migrateV10ToV11),(12,migrateV11ToV12),
   (13,migrateV12ToV13),(14,migrateV13ToV14),(15,migrateV14ToV15)]

def migration (target : ℤ) : List SchemaStatement :=
  (migrationsByTargetVersion.lookup target).getD [.noMigration target]

/-- A new database gets the newest schema at once. -/
def createSchema : List SchemaStatement :=
  executeScript
    ([createSchemaMigrations,createUpdateRuns,createUpdateEvents,createSnoozes,createDependencySnoozes,
      createReleaseSkips,createServicePolicy,createAutoUpdateScheduleRuns,createKnownImages,createPendingUpdates,
      .createIndex "idx_update_events_run_id" "update_events" ["run_id"],indexUpdateEventsServiceLatest,
      .createIndex "idx_snoozes_service_key_until" "snoozes" ["service_key","snoozed_until"]] ++
      indexDependencySnoozes ++ [indexReleaseSkips] ++ indexPendingUpdates ++
      [indexAutoUpdateScheduleRuns,createReleaseNoteCache,indexReleaseNoteCacheUpdatedAt,
       indexReleaseNoteCacheIdentityDigest,createReleaseNotificationHistory,indexReleaseNotificationHistory,
       createTagExclusionRules,indexTagExclusionRules] ++
      createWebAuth ++ createSecurityScanCache :: securityScanCacheIndexes) ++
    validateSchema expectedSchema ++ backfillSchemaMigrations schemaVersion ++
    [.execute (.setUserVersion schemaVersion)]

/-! Runs of `init_schema` -/

/-- Where a process is in `init_schema`. -/
inductive Phase where
  | idle
  | called
  /-- The database has a version, which is read again under the write lock. -/
  | opening
  /-- The loop over the target versions. -/
  | migrating (target : ℤ)
  | validating (remaining : SchemaDefinition)
  /-- The database is new; what there is of it is checked before the schema is created. -/
  | creating (remaining : SchemaDefinition)
  | completed
  | raised (error : SchemaError)
  deriving DecidableEq, Repr

/-- The loop from a target version on. -/
def loopFrom (target : ℤ) : Phase :=
  if target ≤ schemaVersion then .migrating target else .validating expectedSchema

/-- The first transaction checks the schema of the version and records its migrations. -/
def openingBody (version : ℤ) : List SchemaStatement :=
  match expectedSchemasByVersion.lookup version with
  | none => [.unsupported version]
  | some schema => validateSchema schema ++ backfillSchemaMigrations version

/-- A migration that another process was faster with is left out. -/
def migrationTransaction (db : Database) (target : ℤ) : Transaction Phase SchemaStatement ℤ :=
  if db.userVersion ≥ target then { body := [], next := loopFrom (target + 1) }
  else { body := migration target, next := loopFrom (target + 1), effect := some target }

def nextPhase (next : Phase) : Except SchemaError Unit → Phase
  | .ok () => next
  | .error error => .raised error

/-- What a process does outside of transactions; one that ended may call `init_schema` again. -/
def reads (phase : Phase) (db : Database) : Option Phase :=
  match phase with
  | .idle | .completed | .raised _ => some .called
  | .called =>
    if db.userVersion > 0 then some .opening
    else if db.userVersion ≠ 0 then some (.raised (unsupportedVersion db.userVersion))
    else some (.creating expectedSchema)
  | .validating ((table,expected) :: rest) => some (nextPhase (.validating rest) (validateExpected db table expected))
  | .validating [] => some .completed
  | .creating ((table,expected) :: rest) => some (nextPhase (.creating rest) (validateExisting db table expected))
  | .opening | .migrating _ | .creating [] => none

def begins (phase : Phase) (db : Database) : Option (Transaction Phase SchemaStatement ℤ) :=
  match phase with
  | .opening => some { body := openingBody db.userVersion, next := loopFrom (db.userVersion + 1) }
  | .migrating target => some (migrationTransaction db target)
  | .creating [] => some { body := createSchema, next := .completed }
  | _ => none

/-- Any number of processes that run `init_schema`; each statement is given the time. -/
def processes : Clients Database Phase SchemaStatement String SchemaError ℤ where
  exec := SchemaStatement.run
  reads := reads
  begins := begins
  fails := .raised
  stops := .raised .stopped

abbrev SchemaStore := Store Database Phase SchemaStatement ℤ

/-- No process has called `init_schema` yet. -/
def unopened (db : Database) : SchemaStore where
  committed := db
  phase := fun _ => .idle

end DbSchema
end Wudup
