import Wudup.Library.Sql

/-! The schemas of the database by version, and the statements that create its tables. -/
namespace Wudup
open Library Library.Sql

namespace DbSchema

def schemaVersion : ℤ := 15

abbrev ColumnSchema := Column
abbrev SchemaDefinition := List (String × List ColumnSchema)

def SchemaDefinition.columns (schema : SchemaDefinition) (table : String) : List ColumnSchema :=
  (schema.lookup table).getD []

def digestProvenanceSqlColumns : List String :=
  ["digest_source_image","digest_resolved_tag","digest_watch_tag","digest_target_digest","digest_final_image",
   "digest_provenance_source","digest_provenance_confidence"]

def securityScanCacheFindingsColumn : ColumnSchema := ⟨"findings_json","TEXT",1,some "'[]'",0⟩
def releaseNoteBodyColumn : ColumnSchema := ⟨"body","TEXT",1,some "''",0⟩
def releaseNoteTargetDigestColumn : ColumnSchema := ⟨"target_digest","TEXT",1,some "''",0⟩

def digestProvenanceColumnSchema : List ColumnSchema :=
  digestProvenanceSqlColumns.map fun column => ⟨column,"TEXT",1,some "''",0⟩

def expectedSchema : SchemaDefinition :=
  [("schema_migrations",
    [⟨"version","INTEGER",0,none,1⟩,⟨"name","TEXT",1,none,0⟩,⟨"applied_at","TEXT",1,none,0⟩]),
   ("update_runs",
    [⟨"id","INTEGER",0,none,1⟩,⟨"started_at","TEXT",1,none,0⟩,⟨"finished_at","TEXT",0,none,0⟩,
     ⟨"status","TEXT",1,none,0⟩,⟨"dry_run","INTEGER",1,some "0",0⟩,⟨"mode","TEXT",1,some "''",0⟩,
     ⟨"wud_file","TEXT",1,some "''",0⟩,⟨"log_file","TEXT",1,some "''",0⟩,
     ⟨"metadata_json","TEXT",1,some "'\x7b\x7d'",0⟩]),
   ("update_events",
    [⟨"id","INTEGER",0,none,1⟩,⟨"run_id","INTEGER",1,none,0⟩,⟨"created_at","TEXT",1,none,0⟩,
     ⟨"service_name","TEXT",1,none,0⟩,⟨"stack_name","TEXT",1,some "''",0⟩,⟨"image","TEXT",1,none,0⟩,
     ⟨"target_image","TEXT",1,some "''",0⟩,⟨"old_image_id","TEXT",1,some "''",0⟩,
     ⟨"new_image_id","TEXT",1,some "''",0⟩,⟨"old_digest","TEXT",1,some "''",0⟩,⟨"new_digest","TEXT",1,some "''",0⟩,
     ⟨"status","TEXT",1,none,0⟩,⟨"metadata_json","TEXT",1,some "'\x7b\x7d'",0⟩] ++
     digestProvenanceColumnSchema),
   ("snoozes",
    [⟨"id","INTEGER",0,none,1⟩,⟨"service_key","TEXT",1,none,0⟩,⟨"snoozed_until","TEXT",1,none,0⟩,
     ⟨"reason","TEXT",1,some "''",0⟩,⟨"created_at","TEXT",1,none,0⟩,⟨"metadata_json","TEXT",1,some "'\x7b\x7d'",0⟩]),
   ("dependency_snoozes",
    [⟨"id","INTEGER",0,none,1⟩,⟨"service_key","TEXT",1,none,0⟩,⟨"wait_for_service_key","TEXT",1,none,0⟩,
     ⟨"reason","TEXT",1,some "''",0⟩,⟨"created_at","TEXT",1,none,0⟩,⟨"metadata_json","TEXT",1,some "'\x7b\x7d'",0⟩]),
   ("release_skips",
    [⟨"id","INTEGER",0,none,1⟩,⟨"service_key","TEXT",1,none,0⟩,⟨"image_repo","TEXT",1,some "''",0⟩,
     ⟨"basis","TEXT",1,none,0⟩,⟨"value","TEXT",1,none,0⟩,⟨"scope","TEXT",1,some "'release'",0⟩,
     ⟨"skipped_tag","TEXT",1,some "''",0⟩,⟨"reason","TEXT",1,some "''",0⟩,⟨"created_at","TEXT",1,none,0⟩,
     ⟨"metadata_json","TEXT",1,some "'\x7b\x7d'",0⟩]),
   ("service_policy",
    [⟨"service_key","TEXT",0,none,1⟩,⟨"update_mode","TEXT",1,some "''",0⟩,⟨"auto_update","INTEGER",1,some "1",0⟩,
     ⟨"snooze_default_seconds","INTEGER",0,none,0⟩,⟨"created_at","TEXT",1,none,0⟩,⟨"updated_at","TEXT",1,none,0⟩,
     ⟨"metadata_json","TEXT",1,some "'\x7b\x7d'",0⟩,⟨"auto_update_time","TEXT",0,none,0⟩,
     ⟨"auto_update_days_json","TEXT",1,some "'[]'",0⟩]),
   ("auto_update_schedule_runs",
    [⟨"schedule_key","TEXT",0,none,1⟩,⟨"service_key","TEXT",1,none,0⟩,⟨"scheduled_for","TEXT",1,none,0⟩,
     ⟨"run_id","INTEGER",0,none,0⟩,⟨"status","TEXT",1,none,0⟩,⟨"created_at","TEXT",1,none,0⟩,
     ⟨"updated_at","TEXT",1,none,0⟩,⟨"metadata_json","TEXT",1,some "'\x7b\x7d'",0⟩]),
   ("known_images",
    [⟨"service_key","TEXT",0,none,1⟩,⟨"image","TEXT",1,none,0⟩,⟨"image_id","TEXT",1,some "''",0⟩,
     ⟨"digest","TEXT",1,some "''",0⟩,⟨"updated_at","TEXT",1,none,0⟩,⟨"metadata_json","TEXT",1,some "'\x7b\x7d'",0⟩] ++
     digestProvenanceColumnSchema),
   ("pending_updates",
    [⟨"id","INTEGER",0,none,1⟩,⟨"run_id","INTEGER",1,none,0⟩,⟨"line_no","INTEGER",1,none,0⟩,⟨"raw","TEXT",1,none,0⟩,
     ⟨"image","TEXT",1,none,0⟩,⟨"target_digest","TEXT",1,some "''",0⟩,⟨"desired_tag","TEXT",1,some "''",0⟩,
     ⟨"service_key","TEXT",1,some "''",0⟩,⟨"stack_name","TEXT",1,some "''",0⟩,⟨"service_name","TEXT",1,some "''",0⟩,
     ⟨"status","TEXT",1,none,0⟩,⟨"status_reason","TEXT",1,some "''",0⟩,⟨"created_at","TEXT",1,none,0⟩,
     ⟨"updated_at","TEXT",1,none,0⟩,⟨"metadata_json","TEXT",1,some "'\x7b\x7d'",0⟩] ++
     digestProvenanceColumnSchema),
   ("release_note_cache",
    [⟨"cache_key","TEXT",0,none,1⟩,⟨"provider","TEXT",1,none,0⟩,⟨"image_repo","TEXT",1,some "''",0⟩,
     ⟨"upstream_repo","TEXT",1,some "''",0⟩,⟨"current_tag","TEXT",1,some "''",0⟩,⟨"target_tag","TEXT",1,some "''",0⟩,
     ⟨"status","TEXT",1,none,0⟩,⟨"release_tag","TEXT",1,some "''",0⟩,⟨"title","TEXT",1,some "''",0⟩,
     ⟨"published_at","TEXT",1,some "''",0⟩,⟨"breaking","INTEGER",1,some "0",0⟩,
     ⟨"breaking_reasons_json","TEXT",1,some "'[]'",0⟩,⟨"links_json","TEXT",1,some "'[]'",0⟩,
     ⟨"error","TEXT",1,some "''",0⟩,⟨"created_at","TEXT",1,none,0⟩,⟨"updated_at","TEXT",1,none,0⟩,
     ⟨"metadata_json","TEXT",1,some "'\x7b\x7d'",0⟩,releaseNoteBodyColumn,releaseNoteTargetDigestColumn]),
   ("release_notification_history",
    [⟨"notification_key","TEXT",0,none,1⟩,⟨"mode","TEXT",1,some "''",0⟩,⟨"status","TEXT",1,none,0⟩,
     ⟨"last_attempted_at","TEXT",1,none,0⟩,⟨"last_sent_at","TEXT",1,some "''",0⟩,
     ⟨"send_count","INTEGER",1,some "0",0⟩,⟨"last_audit_run_id","INTEGER",1,some "0",0⟩,
     ⟨"metadata_json","TEXT",1,some "'\x7b\x7d'",0⟩]),
   ("security_scan_cache",
    [⟨"cache_key","TEXT",0,none,1⟩,⟨"request_key","TEXT",1,none,0⟩,⟨"subject_id","TEXT",1,some "''",0⟩,
     ⟨"canonical_registry","TEXT",1,some "''",0⟩,⟨"canonical_repository","TEXT",1,some "''",0⟩,
     ⟨"requested_ref","TEXT",1,some "''",0⟩,⟨"reported_digest","TEXT",1,some "''",0⟩,
     ⟨"index_digest","TEXT",1,some "''",0⟩,⟨"manifest_digest","TEXT",1,some "''",0⟩,⟨"platform","TEXT",1,some "''",0⟩,
     ⟨"platform_os","TEXT",1,some "''",0⟩,⟨"platform_architecture","TEXT",1,some "''",0⟩,
     ⟨"platform_variant","TEXT",1,some "''",0⟩,⟨"platform_source","TEXT",1,some "''",0⟩,
     ⟨"identity_status","TEXT",1,some "''",0⟩,⟨"state","TEXT",1,none,0⟩,⟨"verdict","TEXT",1,some "''",0⟩,
     ⟨"scanner","TEXT",1,some "''",0⟩,⟨"scanner_version","TEXT",1,some "''",0⟩,
     ⟨"scanner_schema","TEXT",1,some "''",0⟩,⟨"db_revision","TEXT",1,some "''",0⟩,
     ⟨"db_updated_at","TEXT",1,some "''",0⟩,⟨"severity_counts_json","TEXT",1,some "'\x7b\x7d'",0⟩,
     ⟨"fixable_counts_json","TEXT",1,some "'\x7b\x7d'",0⟩,⟨"unfixed_count","INTEGER",1,some "0",0⟩,
     ⟨"warnings_json","TEXT",1,some "'[]'",0⟩,⟨"error_code","TEXT",1,some "''",0⟩,
     ⟨"error_message","TEXT",1,some "''",0⟩,⟨"created_at","TEXT",1,none,0⟩,⟨"updated_at","TEXT",1,none,0⟩,
     ⟨"metadata_json","TEXT",1,some "'\x7b\x7d'",0⟩,securityScanCacheFindingsColumn]),
   ("tag_exclusion_rules",
    [⟨"id","INTEGER",0,none,1⟩,⟨"scope","TEXT",1,none,0⟩,⟨"image_repo","TEXT",1,none,0⟩,
     ⟨"service_key","TEXT",1,some "''",0⟩,⟨"match_type","TEXT",1,none,0⟩,⟨"tag","TEXT",1,none,0⟩,
     ⟨"regex_fragment","TEXT",1,none,0⟩,⟨"status","TEXT",1,some "'active'",0⟩,⟨"created_at","TEXT",1,none,0⟩,
     ⟨"updated_at","TEXT",1,none,0⟩,⟨"metadata_json","TEXT",1,some "'\x7b\x7d'",0⟩]),
   ("web_users",
    [⟨"id","INTEGER",0,none,1⟩,⟨"username","TEXT",1,none,0⟩,⟨"password_hash","TEXT",1,none,0⟩,
     ⟨"role","TEXT",1,some "'admin'",0⟩,⟨"created_at","TEXT",1,none,0⟩,⟨"password_updated_at","TEXT",1,none,0⟩,
     ⟨"disabled_at","TEXT",0,none,0⟩]),
   ("web_sessions",
    [⟨"id_hash","TEXT",0,none,1⟩,⟨"user_id","INTEGER",1,none,0⟩,⟨"created_at","TEXT",1,none,0⟩,
     ⟨"last_seen_at","TEXT",1,none,0⟩,⟨"expires_at","TEXT",1,none,0⟩,⟨"user_agent_hash","TEXT",1,some "''",0⟩,
     ⟨"revoked_at","TEXT",0,none,0⟩]),
   ("web_settings",
    [⟨"key","TEXT",0,none,1⟩,⟨"value","TEXT",1,none,0⟩,⟨"updated_at","TEXT",1,none,0⟩])]

/-! Older schemas, each from the next one -/

def SchemaDefinition.withoutTables (schema : SchemaDefinition) (names : List String) : SchemaDefinition :=
  schema.filter fun entry => entry.1 ∉ names

def SchemaDefinition.withoutColumns (schema : SchemaDefinition) (tables names : List String) : SchemaDefinition :=
  schema.map fun entry =>
    (entry.1,entry.2.filter fun column => entry.1 ∉ tables || column.name ∉ names)

def webSchemaTables : List String := ["schema_migrations","web_users","web_sessions","web_settings"]

def expectedSchemaV14 : SchemaDefinition := expectedSchema.withoutTables ["release_skips"]
def expectedSchemaV12 : SchemaDefinition :=
  expectedSchemaV14.withoutColumns ["release_note_cache"] [releaseNoteTargetDigestColumn.name]
def expectedSchemaV11 : SchemaDefinition :=
  expectedSchemaV12.withoutColumns ["release_note_cache"] [releaseNoteBodyColumn.name]
def expectedSchemaV10 : SchemaDefinition := expectedSchemaV11.withoutTables ["release_notification_history"]
def expectedSchemaV9 : SchemaDefinition :=
  expectedSchemaV10.withoutColumns ["security_scan_cache"] [securityScanCacheFindingsColumn.name]
def expectedSchemaV8 : SchemaDefinition := expectedSchemaV9.withoutTables ["security_scan_cache"]
def expectedSchemaV7 : SchemaDefinition := expectedSchemaV8.withoutTables ["dependency_snoozes"]
def expectedSchemaV6 : SchemaDefinition :=
  expectedSchemaV7.withoutColumns ["pending_updates","update_events","known_images"] digestProvenanceSqlColumns
def expectedSchemaV5 : SchemaDefinition :=
  (expectedSchemaV6.withoutColumns ["service_policy"] ["auto_update_time","auto_update_days_json"]).withoutTables
    ["auto_update_schedule_runs"]
def expectedSchemaV4 : SchemaDefinition := expectedSchemaV5.withoutTables ["release_note_cache"]
def expectedSchemaV3 : SchemaDefinition := expectedSchemaV4.withoutTables webSchemaTables
def expectedSchemaV2 : SchemaDefinition := expectedSchemaV3.withoutTables ["tag_exclusion_rules"]
def expectedSchemaV1 : SchemaDefinition := expectedSchemaV2.withoutTables ["pending_updates"]

def expectedSchemasByVersion : List (ℤ × SchemaDefinition) :=
  [(1,expectedSchemaV1),(2,expectedSchemaV2),(3,expectedSchemaV3),(4,expectedSchemaV4),(5,expectedSchemaV5),
   (6,expectedSchemaV6),(7,expectedSchemaV7),(8,expectedSchemaV8),(9,expectedSchemaV9),(10,expectedSchemaV10),
   (11,expectedSchemaV11),(12,expectedSchemaV12),(13,expectedSchemaV14),(14,expectedSchemaV14),
   (schemaVersion,expectedSchema)]

def migrationNames : List (ℤ × String) :=
  [(1,"create update state tables"),(2,"add pending update records"),(3,"add tag exclusion rules"),
   (4,"add web auth state"),(5,"add release note cache"),(6,"add auto update schedules"),
   (7,"add digest tag provenance columns"),(8,"add dependency snoozes"),(9,"add security scan cache"),
   (10,"add security scan findings"),(11,"add release notification history"),(12,"add release note body cache"),
   (14,"index recent service events"),(15,"add release skips")]

/-! Tables, with the column definitions as the table info shows them -/

/-- `PRIMARY KEY` -/
def primaryKey (name type : String) : ColumnSchema := ⟨name,type,0,none,1⟩

/-- `NOT NULL` -/
def required (name type : String) : ColumnSchema := ⟨name,type,1,none,0⟩

/-- `NOT NULL DEFAULT` -/
def defaulted (name type default : String) : ColumnSchema := ⟨name,type,1,some default,0⟩

def nullable (name type : String) : ColumnSchema := ⟨name,type,0,none,0⟩

def createSchemaMigrations : Statement :=
  .createTable "schema_migrations"
    [primaryKey "version" "INTEGER",required "name" "TEXT",required "applied_at" "TEXT"]

def createUpdateRuns : Statement :=
  .createTable "update_runs"
    [primaryKey "id" "INTEGER",required "started_at" "TEXT",nullable "finished_at" "TEXT",required "status" "TEXT",
     defaulted "dry_run" "INTEGER" "0",defaulted "mode" "TEXT" "''",defaulted "wud_file" "TEXT" "''",
     defaulted "log_file" "TEXT" "''",defaulted "metadata_json" "TEXT" "'\x7b\x7d'"]

def createUpdateEvents : Statement :=
  .createTable "update_events"
    [primaryKey "id" "INTEGER",required "run_id" "INTEGER",required "created_at" "TEXT",
     required "service_name" "TEXT",defaulted "stack_name" "TEXT" "''",required "image" "TEXT",
     defaulted "target_image" "TEXT" "''",defaulted "old_image_id" "TEXT" "''",defaulted "new_image_id" "TEXT" "''",
     defaulted "old_digest" "TEXT" "''",defaulted "new_digest" "TEXT" "''",required "status" "TEXT",
     defaulted "metadata_json" "TEXT" "'\x7b\x7d'",defaulted "digest_source_image" "TEXT" "''",
     defaulted "digest_resolved_tag" "TEXT" "''",defaulted "digest_watch_tag" "TEXT" "''",
     defaulted "digest_target_digest" "TEXT" "''",defaulted "digest_final_image" "TEXT" "''",
     defaulted "digest_provenance_source" "TEXT" "''",defaulted "digest_provenance_confidence" "TEXT" "''"]

def createSnoozes : Statement :=
  .createTable "snoozes"
    [primaryKey "id" "INTEGER",required "service_key" "TEXT",required "snoozed_until" "TEXT",
     defaulted "reason" "TEXT" "''",required "created_at" "TEXT",defaulted "metadata_json" "TEXT" "'\x7b\x7d'"]

def createDependencySnoozes : Statement :=
  .createTable "dependency_snoozes"
    [primaryKey "id" "INTEGER",required "service_key" "TEXT",required "wait_for_service_key" "TEXT",
     defaulted "reason" "TEXT" "''",required "created_at" "TEXT",defaulted "metadata_json" "TEXT" "'\x7b\x7d'"]

def createReleaseSkips : Statement :=
  .createTable "release_skips"
    [primaryKey "id" "INTEGER",required "service_key" "TEXT",defaulted "image_repo" "TEXT" "''",
     required "basis" "TEXT",required "value" "TEXT",defaulted "scope" "TEXT" "'release'",
     defaulted "skipped_tag" "TEXT" "''",defaulted "reason" "TEXT" "''",required "created_at" "TEXT",
     defaulted "metadata_json" "TEXT" "'\x7b\x7d'"]

def createServicePolicy : Statement :=
  .createTable "service_policy"
    [primaryKey "service_key" "TEXT",defaulted "update_mode" "TEXT" "''",defaulted "auto_update" "INTEGER" "1",
     nullable "snooze_default_seconds" "INTEGER",required "created_at" "TEXT",required "updated_at" "TEXT",
     defaulted "metadata_json" "TEXT" "'\x7b\x7d'",nullable "auto_update_time" "TEXT",
     defaulted "auto_update_days_json" "TEXT" "'[]'"]

def createAutoUpdateScheduleRuns : Statement :=
  .createTable "auto_update_schedule_runs"
    [primaryKey "schedule_key" "TEXT",required "service_key" "TEXT",required "scheduled_for" "TEXT",
     nullable "run_id" "INTEGER",required "status" "TEXT",required "created_at" "TEXT",required "updated_at" "TEXT",
     defaulted "metadata_json" "TEXT" "'\x7b\x7d'"]

def createKnownImages : Statement :=
  .createTable "known_images"
    [primaryKey "service_key" "TEXT",required "image" "TEXT",defaulted "image_id" "TEXT" "''",
     defaulted "digest" "TEXT" "''",required "updated_at" "TEXT",defaulted "metadata_json" "TEXT" "'\x7b\x7d'",
     defaulted "digest_source_image" "TEXT" "''",defaulted "digest_resolved_tag" "TEXT" "''",
     defaulted "digest_watch_tag" "TEXT" "''",defaulted "digest_target_digest" "TEXT" "''",
     defaulted "digest_final_image" "TEXT" "''",defaulted "digest_provenance_source" "TEXT" "''",
     defaulted "digest_provenance_confidence" "TEXT" "''"]

def createPendingUpdates : Statement :=
  .createTable "pending_updates"
    [primaryKey "id" "INTEGER",required "run_id" "INTEGER",required "line_no" "INTEGER",required "raw" "TEXT",
     required "image" "TEXT",defaulted "target_digest" "TEXT" "''",defaulted "desired_tag" "TEXT" "''",
     defaulted "service_key" "TEXT" "''",defaulted "stack_name" "TEXT" "''",defaulted "service_name" "TEXT" "''",
     required "status" "TEXT",defaulted "status_reason" "TEXT" "''",required "created_at" "TEXT",
     required "updated_at" "TEXT",defaulted "metadata_json" "TEXT" "'\x7b\x7d'",
     defaulted "digest_source_image" "TEXT" "''",defaulted "digest_resolved_tag" "TEXT" "''",
     defaulted "digest_watch_tag" "TEXT" "''",defaulted "digest_target_digest" "TEXT" "''",
     defaulted "digest_final_image" "TEXT" "''",defaulted "digest_provenance_source" "TEXT" "''",
     defaulted "digest_provenance_confidence" "TEXT" "''"]

def createPendingUpdatesV2 : Statement :=
  .createTable "pending_updates"
    [primaryKey "id" "INTEGER",required "run_id" "INTEGER",required "line_no" "INTEGER",required "raw" "TEXT",
     required "image" "TEXT",defaulted "target_digest" "TEXT" "''",defaulted "desired_tag" "TEXT" "''",
     defaulted "service_key" "TEXT" "''",defaulted "stack_name" "TEXT" "''",defaulted "service_name" "TEXT" "''",
     required "status" "TEXT",defaulted "status_reason" "TEXT" "''",required "created_at" "TEXT",
     required "updated_at" "TEXT",defaulted "metadata_json" "TEXT" "'\x7b\x7d'"]

def createReleaseNoteCache : Statement :=
  .createTable "release_note_cache"
    [primaryKey "cache_key" "TEXT",required "provider" "TEXT",defaulted "image_repo" "TEXT" "''",
     defaulted "upstream_repo" "TEXT" "''",defaulted "current_tag" "TEXT" "''",defaulted "target_tag" "TEXT" "''",
     required "status" "TEXT",defaulted "release_tag" "TEXT" "''",defaulted "title" "TEXT" "''",
     defaulted "published_at" "TEXT" "''",defaulted "breaking" "INTEGER" "0",
     defaulted "breaking_reasons_json" "TEXT" "'[]'",defaulted "links_json" "TEXT" "'[]'",
     defaulted "error" "TEXT" "''",required "created_at" "TEXT",required "updated_at" "TEXT",
     defaulted "metadata_json" "TEXT" "'\x7b\x7d'",defaulted "body" "TEXT" "''",defaulted "target_digest" "TEXT" "''"]

def createReleaseNoteCacheV5 : Statement :=
  .createTable "release_note_cache"
    [primaryKey "cache_key" "TEXT",required "provider" "TEXT",defaulted "image_repo" "TEXT" "''",
     defaulted "upstream_repo" "TEXT" "''",defaulted "current_tag" "TEXT" "''",defaulted "target_tag" "TEXT" "''",
     required "status" "TEXT",defaulted "release_tag" "TEXT" "''",defaulted "title" "TEXT" "''",
     defaulted "published_at" "TEXT" "''",defaulted "breaking" "INTEGER" "0",
     defaulted "breaking_reasons_json" "TEXT" "'[]'",defaulted "links_json" "TEXT" "'[]'",
     defaulted "error" "TEXT" "''",required "created_at" "TEXT",required "updated_at" "TEXT",
     defaulted "metadata_json" "TEXT" "'\x7b\x7d'"]

def createReleaseNotificationHistory : Statement :=
  .createTable "release_notification_history"
    [primaryKey "notification_key" "TEXT",defaulted "mode" "TEXT" "''",required "status" "TEXT",
     required "last_attempted_at" "TEXT",defaulted "last_sent_at" "TEXT" "''",defaulted "send_count" "INTEGER" "0",
     defaulted "last_audit_run_id" "INTEGER" "0",defaulted "metadata_json" "TEXT" "'\x7b\x7d'"]

def createTagExclusionRules : Statement :=
  .createTable "tag_exclusion_rules"
    [primaryKey "id" "INTEGER",required "scope" "TEXT",required "image_repo" "TEXT",
     defaulted "service_key" "TEXT" "''",required "match_type" "TEXT",required "tag" "TEXT",
     required "regex_fragment" "TEXT",defaulted "status" "TEXT" "'active'",required "created_at" "TEXT",
     required "updated_at" "TEXT",defaulted "metadata_json" "TEXT" "'\x7b\x7d'"]

def createWebUsers : Statement :=
  .createTable "web_users"
    [primaryKey "id" "INTEGER",required "username" "TEXT",required "password_hash" "TEXT",
     defaulted "role" "TEXT" "'admin'",required "created_at" "TEXT",required "password_updated_at" "TEXT",
     nullable "disabled_at" "TEXT"]

def createWebSessions : Statement :=
  .createTable "web_sessions"
    [primaryKey "id_hash" "TEXT",required "user_id" "INTEGER",required "created_at" "TEXT",
     required "last_seen_at" "TEXT",required "expires_at" "TEXT",defaulted "user_agent_hash" "TEXT" "''",
     nullable "revoked_at" "TEXT"]

def createWebSettings : Statement :=
  .createTable "web_settings"
    [primaryKey "key" "TEXT",required "value" "TEXT",required "updated_at" "TEXT"]

def createSecurityScanCacheV9 : Statement :=
  .createTable "security_scan_cache"
    [primaryKey "cache_key" "TEXT",required "request_key" "TEXT",defaulted "subject_id" "TEXT" "''",
     defaulted "canonical_registry" "TEXT" "''",defaulted "canonical_repository" "TEXT" "''",
     defaulted "requested_ref" "TEXT" "''",defaulted "reported_digest" "TEXT" "''",
     defaulted "index_digest" "TEXT" "''",defaulted "manifest_digest" "TEXT" "''",defaulted "platform" "TEXT" "''",
     defaulted "platform_os" "TEXT" "''",defaulted "platform_architecture" "TEXT" "''",
     defaulted "platform_variant" "TEXT" "''",defaulted "platform_source" "TEXT" "''",
     defaulted "identity_status" "TEXT" "''",required "state" "TEXT",defaulted "verdict" "TEXT" "''",
     defaulted "scanner" "TEXT" "''",defaulted "scanner_version" "TEXT" "''",defaulted "scanner_schema" "TEXT" "''",
     defaulted "db_revision" "TEXT" "''",defaulted "db_updated_at" "TEXT" "''",
     defaulted "severity_counts_json" "TEXT" "'\x7b\x7d'",defaulted "fixable_counts_json" "TEXT" "'\x7b\x7d'",
     defaulted "unfixed_count" "INTEGER" "0",defaulted "warnings_json" "TEXT" "'[]'",
     defaulted "error_code" "TEXT" "''",defaulted "error_message" "TEXT" "''",required "created_at" "TEXT",
     required "updated_at" "TEXT",defaulted "metadata_json" "TEXT" "'\x7b\x7d'"]

def createSecurityScanCache : Statement :=
  .createTable "security_scan_cache"
    [primaryKey "cache_key" "TEXT",required "request_key" "TEXT",defaulted "subject_id" "TEXT" "''",
     defaulted "canonical_registry" "TEXT" "''",defaulted "canonical_repository" "TEXT" "''",
     defaulted "requested_ref" "TEXT" "''",defaulted "reported_digest" "TEXT" "''",
     defaulted "index_digest" "TEXT" "''",defaulted "manifest_digest" "TEXT" "''",defaulted "platform" "TEXT" "''",
     defaulted "platform_os" "TEXT" "''",defaulted "platform_architecture" "TEXT" "''",
     defaulted "platform_variant" "TEXT" "''",defaulted "platform_source" "TEXT" "''",
     defaulted "identity_status" "TEXT" "''",required "state" "TEXT",defaulted "verdict" "TEXT" "''",
     defaulted "scanner" "TEXT" "''",defaulted "scanner_version" "TEXT" "''",defaulted "scanner_schema" "TEXT" "''",
     defaulted "db_revision" "TEXT" "''",defaulted "db_updated_at" "TEXT" "''",
     defaulted "severity_counts_json" "TEXT" "'\x7b\x7d'",defaulted "fixable_counts_json" "TEXT" "'\x7b\x7d'",
     defaulted "unfixed_count" "INTEGER" "0",defaulted "warnings_json" "TEXT" "'[]'",
     defaulted "error_code" "TEXT" "''",defaulted "error_message" "TEXT" "''",required "created_at" "TEXT",
     required "updated_at" "TEXT",defaulted "metadata_json" "TEXT" "'\x7b\x7d'",
     defaulted "findings_json" "TEXT" "'[]'"]

end DbSchema
end Wudup
