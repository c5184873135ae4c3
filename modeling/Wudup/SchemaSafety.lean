import Wudup.SchemaMigrations

/-! Migrations that several processes run at once reach the newest schema and keep the rows. -/
namespace Wudup
open Library Library.Sql

namespace DbSchema

/-! What is known after a statement -/

def schemaMigrationsTable : Fact := .table "schema_migrations" (expectedSchema.columns "schema_migrations")

namespace SchemaStatement

def after (facts : List Fact) : SchemaStatement → List Fact
  | .validateExisting table expected => learn (.absentOr table expected) facts
  | .validateExpected table expected => learn (.table table expected) facts
  | .validateTableColumns _ _ | .unsupported _ | .noMigration _ => facts
  | .ensureSchemaMigrations => learn schemaMigrationsTable (facts.filterMap (·.after createSchemaMigrations))
  | .recordSchemaMigration version => facts.filterMap (·.after (insertMigration "" version))
  | .execute statement => facts.filterMap (·.after statement)

def versionAfter (version : ℤ) : SchemaStatement → ℤ
  | .execute statement => statement.versionAfter version
  | _ => version

end SchemaStatement

section
variable {db next : Database}

theorem execute_ok {statement : Statement} (h : execute db statement = .ok next) : statement.exec db = .ok next := by
  unfold execute at h
  cases he : statement.exec db with
  | ok result =>
    rw [he] at h
    cases h
    rfl
  | error error =>
    rw [he] at h
    cases h

/-- A check that passes leaves the database as it is. -/
theorem check_ok {check : Except SchemaError Unit} (h : (check.map fun _ => db) = .ok next) :
    check = .ok () ∧ next = db := by
  cases check with
  | ok _ =>
    cases h
    exact ⟨rfl,rfl⟩
  | error error => cases h

theorem validateTable_ok {table : String} {object : Object} {expected : List ColumnSchema}
    (hobject : db.objects table = some object) (h : validateTable db table object expected = .ok ()) :
    db.tableColumns table = some expected := by
  cases object with
  | table columns rows =>
    have hcolumns : db.columns table = columns := by rw [Database.columns,hobject]
    unfold validateTable at h
    split at h
    · cases h
    · simp only [validateTableColumns,hcolumns] at h
      split at h
      · cases h
      · split at h
        · cases h
        · rename_i hsame
          exact Database.tableColumns_eq_some.mpr ⟨rows,by rw [hobject,not_not.mp hsame]⟩
  | view columns => cases h
  | index => cases h

theorem validateExisting_ok {table : String} {expected : List ColumnSchema}
    (h : validateExisting db table expected = .ok ()) : (Fact.absentOr table expected).Holds db := by
  unfold validateExisting at h
  split at h
  · rename_i hnone
    exact .inl hnone
  · rename_i hobject
    exact .inr (validateTable_ok hobject h)

theorem validateExpected_ok {table : String} {expected : List ColumnSchema}
    (h : validateExpected db table expected = .ok ()) : (Fact.table table expected).Holds db := by
  unfold validateExpected at h
  split at h
  · cases h
  · rename_i hobject
    exact validateTable_ok hobject h

theorem ensureSchemaMigrations_cases {now : String} (h : SchemaStatement.ensureSchemaMigrations.run now db = .ok next) :
    schemaMigrationsTable.Holds next ∧ (createSchemaMigrations.exec db = .ok next ∨
      next = db ∧ db.objects "schema_migrations" ≠ none) := by
  simp only [SchemaStatement.run] at h
  split at h
  · rename_i object hobject
    obtain ⟨hok,rfl⟩ := check_ok h
    exact ⟨validateTable_ok hobject hok,.inr ⟨rfl,by simp [hobject]⟩⟩
  · rename_i hnone
    have hexec := execute_ok h
    refine ⟨?_,.inl hexec⟩
    have habsent : (Fact.absent "schema_migrations").Holds db := hnone
    exact Fact.after_holds hexec habsent (by decide)

/-- The table is not changed when it is there, and creating it would not change it either. -/
theorem ensureSchemaMigrations_exec {now : String} (h : SchemaStatement.ensureSchemaMigrations.run now db = .ok next) :
    createSchemaMigrations.exec db = .ok next := by
  obtain ⟨htable,hexec | ⟨rfl,-⟩⟩ := ensureSchemaMigrations_cases h
  · exact hexec
  · obtain ⟨rows,hobject⟩ := Database.tableColumns_eq_some.mp htable
    simp [createSchemaMigrations,Statement.exec,Database.createTable,hobject]

theorem statement_holds {now : String} {statement : SchemaStatement} {facts : List Fact} (hfacts : AllHold db facts)
    (h : statement.run now db = .ok next) : AllHold next (statement.after facts) := by
  cases statement with
  | validateExisting table expected =>
    obtain ⟨hok,rfl⟩ := check_ok h
    exact learn_holds hfacts (validateExisting_ok hok)
  | validateExpected table expected =>
    obtain ⟨hok,rfl⟩ := check_ok h
    exact learn_holds hfacts (validateExpected_ok hok)
  | validateTableColumns table expected =>
    obtain ⟨-,rfl⟩ := check_ok h
    exact hfacts
  | ensureSchemaMigrations =>
    unfold SchemaStatement.after
    exact learn_holds (filterMap_holds (ensureSchemaMigrations_exec h) hfacts) (ensureSchemaMigrations_cases h).1
  | recordSchemaMigration version =>
    have hsame : (fun fact : Fact => fact.after (insertMigration "" version)) =
        fun fact => fact.after (insertMigration now version) := by
      funext fact
      exact Fact.after_insertOrIgnore _ _ _ fact
    change AllHold next (facts.filterMap fun fact => fact.after (insertMigration "" version))
    rw [hsame]
    exact filterMap_holds (execute_ok h) hfacts
  | unsupported version => cases h
  | noMigration version => cases h
  | execute statement => exact filterMap_holds (execute_ok h) hfacts

theorem statement_version {now : String} {statement : SchemaStatement} (h : statement.run now db = .ok next) :
    next.userVersion = statement.versionAfter db.userVersion := by
  cases statement with
  | validateExisting table expected => exact congrArg Database.userVersion (check_ok h).2
  | validateExpected table expected => exact congrArg Database.userVersion (check_ok h).2
  | validateTableColumns table expected => exact congrArg Database.userVersion (check_ok h).2
  | ensureSchemaMigrations => exact exec_version (ensureSchemaMigrations_exec h)
  | recordSchemaMigration version => exact exec_version (execute_ok h)
  | unsupported version => cases h
  | noMigration version => cases h
  | execute statement => exact exec_version (execute_ok h)

theorem statement_extends {now : String} {statement : SchemaStatement} (h : statement.run now db = .ok next) :
    db.Extends next := by
  cases statement with
  | validateExisting table expected =>
    obtain ⟨-,rfl⟩ := check_ok h
    exact .refl _
  | validateExpected table expected =>
    obtain ⟨-,rfl⟩ := check_ok h
    exact .refl _
  | validateTableColumns table expected =>
    obtain ⟨-,rfl⟩ := check_ok h
    exact .refl _
  | ensureSchemaMigrations => exact exec_extends (ensureSchemaMigrations_exec h)
  | recordSchemaMigration version => exact exec_extends (execute_ok h)
  | unsupported version => cases h
  | noMigration version => cases h
  | execute statement => exact exec_extends (execute_ok h)

/-! Whole bodies -/

variable {inputs : List String} {body : List SchemaStatement}

theorem body_holds {facts : List Fact} (hfacts : AllHold db facts)
    (h : processes.runBody inputs body db = some next) : AllHold next (body.foldl SchemaStatement.after facts) := by
  refine Clients.runBody_foldl (R := fun facts db => AllHold db facts) ?_ hfacts h
  intro now statement facts db next hfacts hrun
  exact statement_holds hfacts hrun

theorem body_version (h : processes.runBody inputs body db = some next) :
    next.userVersion = body.foldl SchemaStatement.versionAfter db.userVersion := by
  refine Clients.runBody_foldl (R := fun version db => Database.userVersion db = version) ?_ rfl h
  rintro now statement version db next rfl hrun
  exact statement_version hrun

theorem body_extends (h : processes.runBody inputs body db = some next) : db.Extends next := by
  refine Clients.runBody_keeps (I := db.Extends) ?_ (Database.Extends.refl db) h
  intro now statement mid last hmid hrun
  exact hmid.trans (statement_extends hrun)

end

/-! What the bodies do, version by version -/

/-- What is known of a database of a version. At version 1 the table of pending updates must not be there already with
its newest columns, which the next migration takes for its own. -/
def factsOf (version : ℤ) : List Fact :=
  (((expectedSchemasByVersion.lookup version).getD []).map fun entry => .table entry.1 entry.2) ++
    if version = 1 then [.notTable "pending_updates" (expectedSchema.columns "pending_updates")] else []

/-- A body that starts at a version, knowing the facts, leaves the next version and what is known of it. -/
def Leads (facts : List Fact) (version : ℤ) (body : List SchemaStatement) (next : ℤ) : Prop :=
  body.foldl SchemaStatement.versionAfter version = next ∧
    schemaMigrationsTable :: factsOf next ⊆ body.foldl SchemaStatement.after facts

instance decidableLeads (facts : List Fact) (version : ℤ) (body : List SchemaStatement) (next : ℤ) :
    Decidable (Leads facts version body next) :=
  inferInstanceAs (Decidable (_ ∧ ∀ fact ∈ schemaMigrationsTable :: factsOf next, fact ∈ _))

theorem opening_leads_at : ∀ i < 15, Leads (factsOf (i + 1 : ℕ)) (i + 1 : ℕ) (openingBody (i + 1 : ℕ)) (i + 1 : ℕ) := by
  decide +kernel

theorem migration_leads_at : ∀ i < 14,
    Leads (schemaMigrationsTable :: factsOf (i + 1 : ℕ)) (i + 1 : ℕ) (migration (i + 2 : ℕ)) (i + 2 : ℕ) := by
  decide +kernel

theorem opening_leads {version : ℤ} (hlow : 1 ≤ version) (hhigh : version ≤ schemaVersion) :
    Leads (factsOf version) version (openingBody version) version := by
  have h := opening_leads_at (version - 1).toNat (by simp only [schemaVersion] at hhigh; omega)
  have hversion : (((version - 1).toNat + 1 : ℕ) : ℤ) = version := by omega
  rw [hversion] at h
  exact h

theorem migration_leads {target : ℤ} (hlow : 2 ≤ target) (hhigh : target ≤ schemaVersion) :
    Leads (schemaMigrationsTable :: factsOf (target - 1)) (target - 1) (migration target) target := by
  have h := migration_leads_at (target - 2).toNat (by simp only [schemaVersion] at hhigh; omega)
  have hbefore : (((target - 2).toNat + 1 : ℕ) : ℤ) = target - 1 := by omega
  have htarget : (((target - 2).toNat + 2 : ℕ) : ℤ) = target := by omega
  rw [hbefore,htarget] at h
  exact h

theorem body_leads {facts : List Fact} {db after : Database} {body : List SchemaStatement} {inputs : List String}
    {next : ℤ} (h : Leads facts db.userVersion body next) (hfacts : AllHold db facts)
    (hrun : processes.runBody inputs body db = some after) :
    after.userVersion = next ∧ schemaMigrationsTable.Holds after ∧ AllHold after (factsOf next) := by
  have hall := (body_holds hfacts hrun).mono h.2
  refine ⟨(body_version hrun).trans h.1,hall _ List.mem_cons_self,?_⟩
  exact fun fact hfact => hall fact (List.mem_cons_of_mem _ hfact)

/-! Invariant -/

/-- The target versions above `before`, up to `version`. -/
def versionsAfter (before version : ℤ) : List ℤ :=
  (List.range (version - before).toNat).map fun (i : ℕ) => before + 1 + i

theorem versionsAfter_self (version : ℤ) : versionsAfter version version = [] := by
  simp [versionsAfter]

theorem versionsAfter_succ {before version : ℤ} (h : before ≤ version) :
    versionsAfter before (version + 1) = versionsAfter before version ++ [version + 1] := by
  have hlength : (version + 1 - before).toNat = (version - before).toNat + 1 := by omega
  have hlast : before + 1 + ((version - before).toNat : ℤ) = version + 1 := by omega
  unfold versionsAfter
  rw [hlength,List.range_succ,List.map_append,List.map_singleton,hlast]

/-- What is true of every database that is committed. -/
structure Migrated (start db : Database) : Prop where
  low : 1 ≤ start.userVersion
  since : start.userVersion ≤ db.userVersion
  high : db.userVersion ≤ schemaVersion
  known : AllHold db (factsOf db.userVersion)
  rows : start.Extends db

/-- What a process relies on in each phase. -/
def Phase.Fits (db : Database) : Phase → Prop
  | .migrating target =>
    schemaMigrationsTable.Holds db ∧ 2 ≤ target ∧ target ≤ schemaVersion ∧ target ≤ db.userVersion + 1
  | .validating _ | .completed => db.userVersion = schemaVersion
  | .creating _ => False
  | .idle | .called | .opening | .raised _ => True

theorem loopFrom_fits {db : Database} {target : ℤ} (htable : schemaMigrationsTable.Holds db) (hlow : 2 ≤ target)
    (hbound : target ≤ db.userVersion + 1) (hhigh : db.userVersion ≤ schemaVersion) :
    (loopFrom target).Fits db := by
  unfold loopFrom
  split
  · rename_i hle
    exact ⟨htable,hlow,hle,hbound⟩
  · rename_i hgt
    simp only [Phase.Fits]
    omega

/-- A process that fits goes on fitting when others migrate. -/
theorem Phase.Fits.mono {db next : Database} {phase : Phase} (h : phase.Fits db)
    (hversion : db.userVersion ≤ next.userVersion) (hhigh : next.userVersion ≤ schemaVersion)
    (htable : schemaMigrationsTable.Holds next) : phase.Fits next := by
  cases phase with
  | migrating target =>
    obtain ⟨-,hlow,hle,hbound⟩ := h
    exact ⟨htable,hlow,hle,by omega⟩
  | validating remaining =>
    simp only [Phase.Fits] at h ⊢
    omega
  | completed =>
    simp only [Phase.Fits] at h ⊢
    omega
  | creating remaining => exact h.elim
  | idle => trivial
  | called => trivial
  | opening => trivial
  | raised error => trivial

theorem reads_fits {start db : Database} (hdb : Migrated start db) {phase next : Phase} (h : phase.Fits db)
    (hreads : reads phase db = some next) : next.Fits db := by
  cases phase with
  | called =>
    have hversion : db.userVersion > 0 := by
      have hlow := hdb.low
      have hsince := hdb.since
      omega
    simp only [reads,hversion,if_true] at hreads
    cases hreads
    trivial
  | validating remaining =>
    cases remaining with
    | nil =>
      cases hreads
      exact h
    | cons entry rest =>
      simp only [reads] at hreads
      cases hreads
      cases validateExpected db entry.1 entry.2 with
      | ok _ => exact h
      | error error => trivial
  | creating remaining => exact h.elim
  | idle =>
    cases hreads
    trivial
  | completed =>
    cases hreads
    trivial
  | raised error =>
    cases hreads
    trivial
  | opening => cases hreads
  | migrating target => cases hreads

/-- A whole transaction migrates to the next version, or leaves the version as it is. -/
theorem transaction_migrates {start db after : Database} (hdb : Migrated start db) {phase : Phase} (h : phase.Fits db)
    {t : Transaction Phase SchemaStatement ℤ} (ht : begins phase db = some t) {inputs : List String}
    (hrun : processes.runBody inputs t.body db = some after) :
    Migrated start after ∧ db.userVersion ≤ after.userVersion ∧ schemaMigrationsTable.Holds after ∧
      t.next.Fits after ∧
      versionsAfter start.userVersion after.userVersion =
        versionsAfter start.userVersion db.userVersion ++ t.effect.toList := by
  have hlow := hdb.low
  have hsince := hdb.since
  have hhigh := hdb.high
  have hrows := hdb.rows.trans (body_extends hrun)
  cases phase with
  | opening =>
    cases ht
    have hleads : Leads (factsOf db.userVersion) db.userVersion (openingBody db.userVersion) db.userVersion :=
      opening_leads (by omega) hhigh
    obtain ⟨hversion,htable,hknown⟩ := body_leads hleads hdb.known hrun
    refine ⟨⟨hlow,by omega,by omega,by rw [hversion]; exact hknown,hrows⟩,by omega,htable,?_,?_⟩
    · exact loopFrom_fits htable (by omega) (by omega) (by omega)
    · rw [hversion]
      exact (List.append_nil _).symm
  | migrating target =>
    obtain ⟨htable,htwo,hle,hbound⟩ := h
    simp only [begins,Option.some.injEq] at ht
    subst ht
    by_cases hdone : db.userVersion ≥ target
    · -- Another process migrated to the target.
      rw [migrationTransaction,if_pos hdone] at hrun ⊢
      cases inputs with
      | nil =>
        obtain rfl : db = after := Option.some.inj hrun
        refine ⟨hdb,Int.le_refl _,htable,loopFrom_fits htable (by omega) (by omega) hhigh,?_⟩
        exact (List.append_nil _).symm
      | cons input rest => cases hrun
    · rw [migrationTransaction,if_neg hdone] at hrun ⊢
      have hprevious : target - 1 = db.userVersion := by omega
      have hleads := migration_leads htwo hle
      rw [hprevious] at hleads
      have hfacts : AllHold db (schemaMigrationsTable :: factsOf db.userVersion) :=
        List.forall_mem_cons.mpr ⟨htable,hdb.known⟩
      obtain ⟨hversion,hafter,hknown⟩ := body_leads hleads hfacts hrun
      refine ⟨⟨hlow,by omega,by omega,by rw [hversion]; exact hknown,hrows⟩,by omega,hafter,?_,?_⟩
      · exact loopFrom_fits hafter (by omega) (by omega) (by omega)
      · have hnext : after.userVersion = db.userVersion + 1 := by omega
        have htarget : target = db.userVersion + 1 := by omega
        rw [hnext,versionsAfter_succ hsince,htarget]
        rfl
  | creating remaining => exact h.elim
  | idle => cases ht
  | called => cases ht
  | validating remaining => cases ht
  | completed => cases ht
  | raised error => cases ht

/-- The invariant of the committed database and the processes. -/
structure Invariant (start : Database) (s : Committed Database Phase ℤ) : Prop where
  database : Migrated start s.committed
  phases : ∀ p, (s.phase p).Fits s.committed
  effects : s.effects = versionsAfter start.userVersion s.committed.userVersion

/-- A step of one process keeps the other processes where they are. -/
theorem update_fits {db : Database} {phase : ℕ → Phase} (h : ∀ p, (phase p).Fits db) {client : ℕ} {next : Phase}
    (hnext : next.Fits db) (p : ℕ) : (Function.update phase client next p).Fits db := by
  by_cases hp : p = client
  · rw [hp,Function.update_self]
    exact hnext
  · rw [Function.update_of_ne hp]
    exact h p

theorem step_invariant {start : Database} {s t : Committed Database Phase ℤ}
    {a : CommittedAction String SchemaError} (hs : Invariant start s) (h : processes.committedStep s a = some t) :
    Invariant start t ∧ s.committed.userVersion ≤ t.committed.userVersion := by
  cases a with
  | read client =>
    obtain ⟨next,hnext,rfl⟩ := Option.map_eq_some_iff.mp h
    refine ⟨⟨hs.database,?_,hs.effects⟩,Int.le_refl _⟩
    exact update_fits hs.phases (reads_fits hs.database (hs.phases client) hnext)
  | transact client inputs =>
    obtain ⟨transaction,ht,h⟩ := Option.bind_eq_some_iff.mp h
    obtain ⟨after,hrun,rfl⟩ := Option.map_eq_some_iff.mp h
    obtain ⟨hdatabase,hversion,htable,hnext,heffects⟩ :=
      transaction_migrates hs.database (hs.phases client) ht hrun
    refine ⟨⟨hdatabase,?_,?_⟩,hversion⟩
    · have hothers : ∀ p, (s.phase p).Fits after := fun p => (hs.phases p).mono hversion hdatabase.high htable
      exact update_fits hothers hnext
    · rw [heffects,hs.effects]
  | fail client error =>
    cases h
    exact ⟨⟨hs.database,update_fits hs.phases trivial,hs.effects⟩,Int.le_refl _⟩
  | stop client =>
    cases h
    exact ⟨⟨hs.database,update_fits hs.phases trivial,hs.effects⟩,Int.le_refl _⟩

theorem run_invariant {start : Database} {s t : SchemaStore} {actions : List (StoreAction String)}
    (hprogress : processes.InProgress s) (hs : Invariant start s.view) (h : processes.step.run s actions = some t) :
    processes.InProgress t ∧ Invariant start t.view ∧ s.committed.userVersion ≤ t.committed.userVersion := by
  obtain ⟨hlast,committed,hcommitted⟩ := Clients.run_refines hprogress h
  have hkeeps := System.run_keeps
    (I := fun u => Invariant start u ∧ s.committed.userVersion ≤ u.committed.userVersion)
    (fun u a v hu hstep => by
      obtain ⟨hv,hle⟩ := step_invariant hu.1 hstep
      exact ⟨hv,Int.le_trans hu.2 hle⟩)
    ⟨hs,Int.le_refl _⟩ hcommitted
  exact ⟨hlast,hkeeps⟩

/-! The claim of a version -/

/-- The tables of a schema are there with its columns. -/
def HasSchema (db : Database) (schema : SchemaDefinition) : Prop :=
  ∀ entry ∈ schema, db.tableColumns entry.1 = some entry.2

instance decidableHasSchema (db : Database) (schema : SchemaDefinition) : Decidable (HasSchema db schema) :=
  inferInstanceAs (Decidable (∀ entry ∈ schema, db.tableColumns entry.1 = some entry.2))

/-- A database of version 1 has the table of pending updates already, with the columns that version 7 adds to it. -/
def PendingUpdatesTooNew (db : Database) : Prop :=
  db.userVersion = 1 ∧ db.tableColumns "pending_updates" = some (expectedSchema.columns "pending_updates")

theorem version_of_lookup {version : ℤ} {schema : SchemaDefinition}
    (h : expectedSchemasByVersion.lookup version = some schema) : 1 ≤ version ∧ version ≤ schemaVersion := by
  obtain ⟨before,after,hsplit,-⟩ := List.lookup_eq_some_iff.mp h
  have hmem : version ∈ expectedSchemasByVersion.map (·.1) := by
    rw [hsplit]
    simp
  have hversions : expectedSchemasByVersion.map (·.1) = [1,2,3,4,5,6,7,8,9,10,11,12,13,14,15] := rfl
  rw [hversions] at hmem
  simp only [List.mem_cons,List.not_mem_nil,or_false] at hmem
  simp only [schemaVersion]
  omega

theorem lookup_of_version {version : ℤ} (hlow : 1 ≤ version) (hhigh : version ≤ schemaVersion) :
    ∃ schema, expectedSchemasByVersion.lookup version = some schema := by
  have hsome : ∀ i < 15, (expectedSchemasByVersion.lookup ((i + 1 : ℕ) : ℤ)).isSome = true := by decide +kernel
  have h := hsome (version - 1).toNat (by simp only [schemaVersion] at hhigh; omega)
  have hversion : (((version - 1).toNat + 1 : ℕ) : ℤ) = version := by omega
  rw [hversion] at h
  exact Option.isSome_iff_exists.mp h

theorem allHold_factsOf {db : Database} {schema : SchemaDefinition}
    (hschema : expectedSchemasByVersion.lookup db.userVersion = some schema) :
    AllHold db (factsOf db.userVersion) ↔ HasSchema db schema ∧ ¬ PendingUpdatesTooNew db := by
  unfold factsOf AllHold
  rw [hschema,Option.getD_some,List.forall_mem_append,List.forall_mem_map]
  apply and_congr Iff.rfl
  by_cases hone : db.userVersion = 1
  · simp [hone,PendingUpdatesTooNew,Fact.Holds]
  · simp [hone,PendingUpdatesTooNew]

theorem unopened_invariant {start : Database} {schema : SchemaDefinition}
    (hschema : expectedSchemasByVersion.lookup start.userVersion = some schema) (hhas : HasSchema start schema)
    (hpending : ¬ PendingUpdatesTooNew start) : Invariant start (unopened start).view := by
  obtain ⟨hlow,hhigh⟩ := version_of_lookup hschema
  refine ⟨⟨hlow,Int.le_refl _,hhigh,?_,.refl _⟩,fun p => trivial,(versionsAfter_self _).symm⟩
  exact (allHold_factsOf hschema).mpr ⟨hhas,hpending⟩

/-- Whatever the processes do, and wherever they are stopped: the version never decreases and names a schema that the
database has, a run that completes leaves the newest one, the migrations to the versions in between took effect once
each and in order, and every table keeps its rows, with the defaults in the columns that were added. -/
theorem migrations_reach_schema {start : Database} {schema : SchemaDefinition}
    (hschema : expectedSchemasByVersion.lookup start.userVersion = some schema) (hhas : HasSchema start schema)
    (hpending : ¬ PendingUpdatesTooNew start) {actions : List (StoreAction String)} {s : SchemaStore}
    (h : processes.step.run (unopened start) actions = some s) :
    (∃ schema, expectedSchemasByVersion.lookup s.committed.userVersion = some schema ∧ HasSchema s.committed schema) ∧
    (∀ before after mid, actions = before ++ after → processes.step.run (unopened start) before = some mid →
      mid.committed.userVersion ≤ s.committed.userVersion) ∧
    (∀ p, s.phase p = .completed →
      s.committed.userVersion = schemaVersion ∧ HasSchema s.committed expectedSchema) ∧
    s.effects = versionsAfter start.userVersion s.committed.userVersion ∧
    start.Extends s.committed := by
  have hstart := unopened_invariant hschema hhas hpending
  have hidle : processes.InProgress (unopened start) := fun w hw => by cases hw
  obtain ⟨-,hs,-⟩ := run_invariant hidle hstart h
  have hlow : 1 ≤ s.committed.userVersion := Int.le_trans hs.database.low hs.database.since
  obtain ⟨reached,hreached⟩ := lookup_of_version hlow hs.database.high
  have hknown : HasSchema s.committed reached := ((allHold_factsOf hreached).mp hs.database.known).1
  refine ⟨⟨reached,hreached,hknown⟩,?_,?_,hs.effects,hs.database.rows⟩
  · rintro before after mid rfl hmid
    obtain ⟨hprogress,hinvariant,-⟩ := run_invariant hidle hstart hmid
    rw [System.run_append_of hmid] at h
    exact (run_invariant hprogress hinvariant h).2.2
  · intro p hp
    have hversion : s.committed.userVersion = schemaVersion := by
      have hfits := hs.phases p
      rw [show s.view.phase p = Phase.completed from hp] at hfits
      exact hfits
    refine ⟨hversion,?_⟩
    rw [hversion] at hreached
    cases hreached
    exact hknown

/-- Rows are kept in every run, whatever database it starts with. -/
theorem run_extends {start : Database} {actions : List (StoreAction String)} {s : SchemaStore}
    (h : processes.step.run (unopened start) actions = some s) : start.Extends s.committed := by
  have hidle : processes.InProgress (unopened start) := fun w hw => by cases hw
  obtain ⟨-,committed,hcommitted⟩ := Clients.run_refines hidle h
  refine System.run_keeps (I := fun u : Committed Database Phase ℤ => start.Extends u.committed) ?_ (.refl start)
    hcommitted
  intro u a v hu hstep
  cases a with
  | read client =>
    obtain ⟨next,-,rfl⟩ := Option.map_eq_some_iff.mp hstep
    exact hu
  | transact client inputs =>
    obtain ⟨transaction,-,hstep⟩ := Option.bind_eq_some_iff.mp hstep
    obtain ⟨after,hrun,rfl⟩ := Option.map_eq_some_iff.mp hstep
    exact hu.trans (body_extends hrun)
  | fail client error =>
    cases hstep
    exact hu
  | stop client =>
    cases hstep
    exact hu

theorem pendingUpdates_expected : ∀ i < 5,
    (expectedSchemasByVersion.lookup ((i + 2 : ℕ) : ℤ)).any fun schema =>
      ("pending_updates",expectedSchemaV6.columns "pending_updates") ∈ schema := by
  decide +kernel

/-- With the newer columns, the schema of the versions up to 6 is never there. -/
theorem too_new_never_fits {start : Database} (hpending : PendingUpdatesTooNew start)
    {actions : List (StoreAction String)} {s : SchemaStore}
    (h : processes.step.run (unopened start) actions = some s) {schema : SchemaDefinition}
    (hschema : expectedSchemasByVersion.lookup s.committed.userVersion = some schema)
    (hlow : 2 ≤ s.committed.userVersion) (hhigh : s.committed.userVersion ≤ 6) : ¬ HasSchema s.committed schema := by
  intro hhas
  obtain ⟨rows,hobject⟩ := Database.tableColumns_eq_some.mp hpending.2
  obtain ⟨added,allRows,hnow,-⟩ := run_extends h "pending_updates" _ rows hobject
  have hexpected := pendingUpdates_expected (s.committed.userVersion - 2).toNat (by omega)
  have hversion : (((s.committed.userVersion - 2).toNat + 2 : ℕ) : ℤ) = s.committed.userVersion := by omega
  rw [hversion,hschema,Option.any_some] at hexpected
  have hcolumns := hhas _ (of_decide_eq_true hexpected)
  rw [Database.tableColumns,hnow] at hcolumns
  have hlength := congrArg List.length (Option.some.inj hcolumns)
  have hnewest : (expectedSchema.columns "pending_updates").length = 22 := by decide +kernel
  have holder : (expectedSchemaV6.columns "pending_updates").length = 15 := by decide +kernel
  rw [List.length_append,hnewest,holder] at hlength
  omega

/-! Two databases of version 1 -/

def tablesOf (schema : SchemaDefinition) (rows : String → List Row) : Database where
  objects name := (schema.lookup name).map fun columns => .table columns (rows name)
  userVersion := 1

def transact (client statements : ℕ) : List (StoreAction String) :=
  .start client :: List.replicate statements (.execute "now") ++ [.commit]

/-- The table of pending updates is there already. -/
def tooNew : Database :=
  tablesOf (("pending_updates",expectedSchema.columns "pending_updates") :: expectedSchemaV1) fun _ => []

def toVersion2 : List (StoreAction String) :=
  [.read 0,.read 0] ++ transact 0 (openingBody 1).length ++ transact 0 (migration 2).length

theorem tooNew_runs :
    (processes.step.run (unopened tooNew) toVersion2).any (·.committed.userVersion = 2) = true := by
  decide +kernel

/-- The migration to version 2 takes it for the table that it creates, and commits a version whose schema the database
does not have. -/
theorem too_new_is_taken : expectedSchemasByVersion.lookup tooNew.userVersion = some expectedSchemaV1 ∧
    HasSchema tooNew expectedSchemaV1 ∧
    ∃ s, processes.step.run (unopened tooNew) toVersion2 = some s ∧ s.committed.userVersion = 2 ∧
      ¬ HasSchema s.committed expectedSchemaV2 := by
  refine ⟨rfl,by decide +kernel,?_⟩
  obtain ⟨s,hs,h⟩ := (Option.any_eq_true _ _).mp tooNew_runs
  have hversion : s.committed.userVersion = 2 := of_decide_eq_true h
  refine ⟨s,hs,hversion,?_⟩
  apply too_new_never_fits ⟨rfl,rfl⟩ hs
  · rw [hversion]
    rfl
  · omega
  · omega

def policyRow : Row := [.text "web",.text "",.integer 1,.null,.text "then",.text "then",.text "\x7b\x7d"]

/-- A database of version 1 with a row. -/
def firstVersion : Database :=
  tablesOf expectedSchemaV1 fun table => if table = "service_policy" then [policyRow] else []

/-- One process is stopped in its first transaction and tries again; another one migrates, and is faster. -/
def migrated : List (StoreAction String) :=
  [.read 1,.read 1,.start 1,.execute "now",.stop 1,.read 0,.read 0,.read 1,.read 1] ++
    transact 0 (openingBody 1).length ++ transact 1 (openingBody 1).length ++
    transact 0 (migration 2).length ++ transact 1 0 ++
    (List.range 13).flatMap (fun i => transact 0 (migration (i + 3 : ℕ)).length) ++
    List.replicate (expectedSchema.length + 1) (.read 0)

theorem migrated_runs :
    (processes.step.run (unopened firstVersion) migrated).any (·.phase 0 = .completed) = true := by
  decide +kernel

theorem firstVersion_migrated : ∃ s, processes.step.run (unopened firstVersion) migrated = some s ∧
    HasSchema s.committed expectedSchema ∧ s.effects = [2,3,4,5,6,7,8,9,10,11,12,13,14,15] ∧
    ∃ columns rows, s.committed.objects "service_policy" = some (.table columns rows) ∧
      policyRow ++ [.null,.text "[]"] ∈ rows := by
  obtain ⟨s,hs,hcompleted⟩ := (Option.any_eq_true _ _).mp migrated_runs
  have hversion : expectedSchemasByVersion.lookup firstVersion.userVersion = some expectedSchemaV1 := rfl
  have hfirst : HasSchema firstVersion expectedSchemaV1 := by decide +kernel
  have hpending : ¬ PendingUpdatesTooNew firstVersion := fun h => absurd h.2 (by decide +kernel)
  obtain ⟨-,-,hend,heffects,hrows⟩ := migrations_reach_schema hversion hfirst hpending hs
  obtain ⟨hlast,hschema⟩ := hend 0 (of_decide_eq_true hcompleted)
  refine ⟨s,hs,hschema,?_,?_⟩
  · rw [heffects,hlast]
    decide +kernel
  · obtain ⟨added,rows,hobject,hkept⟩ := hrows "service_policy" (expectedSchemaV1.columns "service_policy")
      [policyRow] rfl
    refine ⟨_,rows,hobject,?_⟩
    have hcolumns := hschema ("service_policy",expectedSchema.columns "service_policy") (by decide +kernel)
    rw [Database.tableColumns,hobject] at hcolumns
    have happended : expectedSchemaV1.columns "service_policy" ++ added = expectedSchema.columns "service_policy" :=
      Option.some.inj hcolumns
    have hadded : added = (expectedSchema.columns "service_policy").drop 7 := by
      rw [← happended]
      exact (List.drop_left' (by decide +kernel)).symm
    have hrow := hkept.subset (List.mem_map_of_mem List.mem_cons_self)
    have hdefaults : added.map Column.defaultValue = [.null,.text "[]"] := by
      rw [hadded]
      decide +kernel
    rw [hdefaults] at hrow
    exact hrow

end DbSchema
end Wudup
