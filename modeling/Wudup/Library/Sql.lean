import Mathlib.Data.Int.Notation
import Mathlib.Data.List.Basic
import Mathlib.Data.Nat.Notation
import Mathlib.Logic.Function.Basic

/-! Statements on the tables of a database, what they keep, and what is known of the tables after them. -/
namespace Library
namespace Sql

inductive Value where
  | null
  | integer (n : ℤ)
  | real (bits : BitVec 64)
  | text (value : String)
  | blob (bytes : List UInt8)
  deriving DecidableEq, Repr

/-- A column as the table info gives it, with the type in upper case. -/
structure Column where
  name : String
  type : String
  notNull : ℕ
  default : Option String
  key : ℕ
  deriving DecidableEq, Repr

def quote : Char := Char.ofNat 39

/-- The text up to the closing quote; a quote in it is written twice. -/
def unquote : List Char → List Char
  | [] | [_] => []
  | c :: d :: rest => if c = quote && d = quote then quote :: unquote rest else c :: unquote (d :: rest)

/-- The value of a text or integer literal. -/
def literalValue (literal : String) : Value :=
  match literal.toList with
  | [] => .null
  | c :: rest =>
    if c = quote then .text (String.ofList (unquote rest))
    else match literal.toInt? with
      | some n => .integer n
      | none => .null

/-- What a row has in the column when no value is given. -/
def Column.defaultValue (column : Column) : Value :=
  match column.default with
  | none => .null
  | some literal => literalValue literal

abbrev Row := List Value

inductive Object where
  | table (columns : List Column) (rows : List Row)
  | view (columns : List Column)
  | index
  deriving DecidableEq, Repr

def Object.type : Object → String
  | .table _ _ => "table"
  | .view _ => "view"
  | .index => "index"

inductive Error where
  | noSuchTable (name : String)
  | noSuchColumn (name : String)
  | alreadyExists (name : String)
  | duplicateColumn (name : String)
  | nullDefault (name : String)
  deriving DecidableEq, Repr

structure Database where
  objects : String → Option Object
  userVersion : ℤ

namespace Database
variable (db : Database)

def put (name : String) (object : Object) : Database :=
  { db with objects := Function.update db.objects name (some object) }

@[simp] theorem put_same (name : String) (object : Object) : (db.put name object).objects name = some object := by
  simp [put]

@[simp] theorem put_other {name other : String} (h : other ≠ name) (object : Object) :
    (db.put name object).objects other = db.objects other := by
  simp [put,h]

@[simp] theorem put_userVersion (name : String) (object : Object) :
    (db.put name object).userVersion = db.userVersion := rfl

/-- The table info of an object. -/
def columns (name : String) : List Column :=
  match db.objects name with
  | some (.table columns _) | some (.view columns) => columns
  | some .index | none => []

/-- The columns of a table, and nothing for other objects. -/
def tableColumns (name : String) : Option (List Column) :=
  match db.objects name with
  | some (.table columns _) => some columns
  | _ => none

theorem tableColumns_eq_some {db : Database} {name : String} {columns : List Column} :
    db.tableColumns name = some columns ↔ ∃ rows, db.objects name = some (.table columns rows) := by
  unfold tableColumns
  constructor
  · intro h
    split at h
    · rename_i rows hobject
      cases h
      exact ⟨rows,hobject⟩
    · cases h
  · rintro ⟨rows,hobject⟩
    rw [hobject]

/-! Statements -/

/-- A table is only created if there is none. -/
def createTable (name : String) (columns : List Column) : Except Error Database :=
  match db.objects name with
  | none => .ok (db.put name (.table columns []))
  | some .index => .error (.alreadyExists name)
  | some _ => .ok db

/-- An index is only created if there is none. -/
def createIndex (name table : String) (columns : List String) : Except Error Database :=
  match db.objects table with
  | some (.table tableColumns _) =>
    match db.objects name with
    | some .index => .ok db
    | some _ => .error (.alreadyExists name)
    | none =>
      match columns.find? fun column => !tableColumns.any (·.name = column) with
      | some column => .error (.noSuchColumn column)
      | none => .ok (db.put name .index)
  | _ => .error (.noSuchTable table)

/-- The rows that are there get the default of the new column. -/
def addColumn (table : String) (column : Column) : Except Error Database :=
  match db.objects table with
  | some (.table columns rows) =>
    if columns.any (·.name = column.name) then .error (.duplicateColumn column.name)
    else if column.notNull ≠ 0 && column.defaultValue = .null && rows ≠ [] then .error (.nullDefault column.name)
    else .ok (db.put table (.table (columns ++ [column]) (rows.map (· ++ [column.defaultValue]))))
  | _ => .error (.noSuchTable table)

/-- The values of a row in the columns of the primary key. -/
def keyValues (columns : List Column) (row : Row) : List Value :=
  ((columns.zip row).filter fun entry => entry.1.key ≠ 0).map (·.2)

/-- Whether a row is ignored, for its key or for a missing value. -/
def ignored (columns : List Column) (rows : List Row) (row : Row) : Bool :=
  (keyValues columns row ≠ [] && rows.any fun other => keyValues columns other = keyValues columns row) ||
    (columns.zip row).any fun entry => entry.1.notNull ≠ 0 && entry.2 = .null

def insertOrIgnore (table : String) (values : List (String × Value)) : Except Error Database :=
  match db.objects table with
  | some (.table columns rows) =>
    match values.find? fun value => !columns.any (·.name = value.1) with
    | some value => .error (.noSuchColumn value.1)
    | none =>
      let row := columns.map fun column => (values.lookup column.name).getD column.defaultValue
      if ignored columns rows row then .ok db else .ok (db.put table (.table columns (rows ++ [row])))
  | _ => .error (.noSuchTable table)

end Database

inductive Statement where
  | createTable (name : String) (columns : List Column)
  | createIndex (name table : String) (columns : List String)
  | addColumn (table : String) (column : Column)
  | insertOrIgnore (table : String) (values : List (String × Value))
  | setUserVersion (version : ℤ)
  deriving DecidableEq, Repr

def Statement.exec (db : Database) : Statement → Except Error Database
  | .createTable name columns => db.createTable name columns
  | .createIndex name table columns => db.createIndex name table columns
  | .addColumn table column => db.addColumn table column
  | .insertOrIgnore table values => db.insertOrIgnore table values
  | .setUserVersion version => .ok { db with userVersion := version }

/-- The object that a statement may change. -/
def Statement.target : Statement → Option String
  | .createTable name _ | .createIndex name _ _ | .addColumn name _ | .insertOrIgnore name _ => some name
  | .setUserVersion _ => none

/-! What a statement can do -/

section
variable {db after : Database}

theorem createTable_cases {name : String} {columns : List Column} (h : db.createTable name columns = .ok after) :
    (db.objects name = none ∧ after = db.put name (.table columns [])) ∨ db.objects name ≠ none ∧ after = db := by
  unfold Database.createTable at h
  split at h
  · rename_i hnone
    exact .inl ⟨hnone,(Except.ok.inj h).symm⟩
  · cases h
  · rename_i hobject
    exact .inr ⟨by rw [hobject]; exact Option.some_ne_none _,(Except.ok.inj h).symm⟩

theorem createIndex_cases {name table : String} {columns : List String}
    (h : db.createIndex name table columns = .ok after) :
    (db.objects name = none ∧ after = db.put name .index) ∨ db.objects name = some .index ∧ after = db := by
  unfold Database.createIndex at h
  split at h
  · split at h
    · rename_i hobject
      exact .inr ⟨hobject,(Except.ok.inj h).symm⟩
    · cases h
    · rename_i hnone
      split at h
      · cases h
      · exact .inl ⟨hnone,(Except.ok.inj h).symm⟩
  · cases h

theorem addColumn_cases {table : String} {column : Column} (h : db.addColumn table column = .ok after) :
    ∃ columns rows, db.objects table = some (.table columns rows) ∧
      after = db.put table (.table (columns ++ [column]) (rows.map (· ++ [column.defaultValue]))) := by
  unfold Database.addColumn at h
  split at h
  · rename_i columns rows hobject
    split at h
    · cases h
    · split at h
      · cases h
      · exact ⟨columns,rows,hobject,(Except.ok.inj h).symm⟩
  · cases h

theorem insertOrIgnore_cases {table : String} {values : List (String × Value)}
    (h : db.insertOrIgnore table values = .ok after) :
    ∃ columns rows, db.objects table = some (.table columns rows) ∧
      (after = db ∨ ∃ row, after = db.put table (.table columns (rows ++ [row]))) := by
  unfold Database.insertOrIgnore at h
  split at h
  · rename_i columns rows hobject
    refine ⟨columns,rows,hobject,?_⟩
    split at h
    · cases h
    · dsimp only at h
      split at h
      · exact .inl (Except.ok.inj h).symm
      · exact .inr ⟨_,(Except.ok.inj h).symm⟩
  · cases h

/-- Other objects stay as they are. -/
theorem exec_frame {statement : Statement} (h : statement.exec db = .ok after) {name : String}
    (hname : statement.target ≠ some name) : after.objects name = db.objects name := by
  cases statement with
  | createTable other columns =>
    have hne : name ≠ other := fun he => hname (congrArg some he.symm)
    rcases createTable_cases h with ⟨-,rfl⟩ | ⟨-,rfl⟩
    · simp [hne]
    · rfl
  | createIndex other table columns =>
    have hne : name ≠ other := fun he => hname (congrArg some he.symm)
    rcases createIndex_cases h with ⟨-,rfl⟩ | ⟨-,rfl⟩
    · simp [hne]
    · rfl
  | addColumn other column =>
    have hne : name ≠ other := fun he => hname (congrArg some he.symm)
    obtain ⟨columns,rows,-,rfl⟩ := addColumn_cases h
    simp [hne]
  | insertOrIgnore other values =>
    have hne : name ≠ other := fun he => hname (congrArg some he.symm)
    obtain ⟨columns,rows,-,rfl | ⟨row,rfl⟩⟩ := insertOrIgnore_cases h
    · rfl
    · simp [hne]
  | setUserVersion version =>
    cases h
    rfl

end

/-- The version after a statement. -/
def Statement.versionAfter (version : ℤ) : Statement → ℤ
  | .setUserVersion next => next
  | _ => version

theorem exec_version {db after : Database} {statement : Statement} (h : statement.exec db = .ok after) :
    after.userVersion = statement.versionAfter db.userVersion := by
  cases statement with
  | createTable name columns => rcases createTable_cases h with ⟨-,rfl⟩ | ⟨-,rfl⟩ <;> rfl
  | createIndex name table columns => rcases createIndex_cases h with ⟨-,rfl⟩ | ⟨-,rfl⟩ <;> rfl
  | addColumn table column =>
    obtain ⟨columns,rows,-,rfl⟩ := addColumn_cases h
    rfl
  | insertOrIgnore table values => obtain ⟨columns,rows,-,rfl | ⟨row,rfl⟩⟩ := insertOrIgnore_cases h <;> rfl
  | setUserVersion version =>
    cases h
    rfl

/-! Rows are kept -/

namespace Database

/-- Every table is still there, with its rows in their places and the defaults in the columns that were added. -/
def Extends (old new : Database) : Prop :=
  ∀ name columns rows, old.objects name = some (.table columns rows) →
    ∃ added allRows, new.objects name = some (.table (columns ++ added) allRows) ∧
      rows.map (· ++ added.map Column.defaultValue) <+: allRows

theorem Extends.refl (db : Database) : db.Extends db := by
  intro name columns rows h
  refine ⟨[],rows,by simpa using h,?_⟩
  simp

theorem Extends.trans {old mid new : Database} (h : old.Extends mid) (hnew : mid.Extends new) : old.Extends new := by
  intro name columns rows hobject
  obtain ⟨added,midRows,hmid,hrows⟩ := h name columns rows hobject
  obtain ⟨more,allRows,hall,hmore⟩ := hnew name (columns ++ added) midRows hmid
  refine ⟨added ++ more,allRows,by rw [← List.append_assoc]; exact hall,?_⟩
  have hmapped := hrows.map (· ++ more.map Column.defaultValue)
  rw [List.map_map] at hmapped
  have hrow : ((· ++ more.map Column.defaultValue) ∘ (· ++ added.map Column.defaultValue) : Row → Row) =
      (· ++ (added ++ more).map Column.defaultValue) := by
    funext row
    simp
  rw [hrow] at hmapped
  exact hmapped.trans hmore

/-- Replacing an object extends the database when it extends the object. -/
theorem extends_put {db : Database} {name : String} {object : Object}
    (h : ∀ columns rows, db.objects name = some (.table columns rows) →
      ∃ added allRows, object = .table (columns ++ added) allRows ∧
        rows.map (· ++ added.map Column.defaultValue) <+: allRows) : db.Extends (db.put name object) := by
  intro other columns rows hobject
  by_cases hname : other = name
  · subst hname
    obtain ⟨added,allRows,rfl,hrows⟩ := h columns rows hobject
    exact ⟨added,allRows,put_same db other _,hrows⟩
  · rw [put_other db hname]
    exact Extends.refl db other columns rows hobject

end Database

theorem exec_extends {db after : Database} {statement : Statement} (h : statement.exec db = .ok after) :
    db.Extends after := by
  cases statement with
  | createTable name columns =>
    rcases createTable_cases h with ⟨hnone,rfl⟩ | ⟨-,rfl⟩
    · apply Database.extends_put
      intro others rows hobject
      rw [hnone] at hobject
      cases hobject
    · exact .refl _
  | createIndex name table columns =>
    rcases createIndex_cases h with ⟨hnone,rfl⟩ | ⟨-,rfl⟩
    · apply Database.extends_put
      intro others rows hobject
      rw [hnone] at hobject
      cases hobject
    · exact .refl _
  | addColumn table column =>
    obtain ⟨columns,rows,hobject,rfl⟩ := addColumn_cases h
    apply Database.extends_put
    intro others oldRows hold
    rw [hobject] at hold
    cases hold
    exact ⟨[column],_,rfl,by simp⟩
  | insertOrIgnore table values =>
    obtain ⟨columns,rows,hobject,rfl | ⟨row,rfl⟩⟩ := insertOrIgnore_cases h
    · exact .refl _
    · apply Database.extends_put
      intro others oldRows hold
      rw [hobject] at hold
      cases hold
      exact ⟨[],_,by rw [List.append_nil],by simp⟩
  | setUserVersion version =>
    cases h
    exact fun name columns rows hobject => Database.Extends.refl db name columns rows hobject

/-! What is known of the tables -/

inductive Fact where
  | table (name : String) (columns : List Column)
  | absent (name : String)
  | absentOr (name : String) (columns : List Column)
  | notTable (name : String) (columns : List Column)
  deriving DecidableEq, Repr

namespace Fact

def name : Fact → String
  | .table name _ | .absent name | .absentOr name _ | .notTable name _ => name

def Holds (db : Database) : Fact → Prop
  | .table name columns => db.tableColumns name = some columns
  | .absent name => db.objects name = none
  | .absentOr name columns => db.objects name = none ∨ db.tableColumns name = some columns
  | .notTable name columns => db.tableColumns name ≠ some columns

instance decidableHolds (db : Database) : (fact : Fact) → Decidable (fact.Holds db)
  | .table name columns => inferInstanceAs (Decidable (db.tableColumns name = some columns))
  | .absent name => inferInstanceAs (Decidable (db.objects name = none))
  | .absentOr name columns =>
    inferInstanceAs (Decidable (db.objects name = none ∨ db.tableColumns name = some columns))
  | .notTable name columns => inferInstanceAs (Decidable (db.tableColumns name ≠ some columns))

/-- A fact only depends on the object it names. -/
theorem holds_congr {db after : Database} {fact : Fact} (h : after.objects fact.name = db.objects fact.name)
    (hfact : fact.Holds db) : fact.Holds after := by
  cases fact <;>
  · simp only [name] at h
    simpa only [Holds,Database.tableColumns,h] using hfact

/-- What a fact about the changed object becomes. -/
def afterOn : Statement → Fact → Option Fact
  | .createTable _ _, .table name columns => some (.table name columns)
  | .createTable _ columns, .absent name => some (.table name columns)
  | .createTable _ columns, .absentOr name expected => if expected = columns then some (.table name columns) else none
  | .createIndex _ _ _, .table name columns => some (.table name columns)
  | .addColumn _ column, .table name columns => some (.table name (columns ++ [column]))
  | .insertOrIgnore _ _, .table name columns => some (.table name columns)
  | _, _ => none

/-- What is known of an object after a statement. -/
def after (statement : Statement) (fact : Fact) : Option Fact :=
  if statement.target = some fact.name then fact.afterOn statement else some fact

/-- What is known after an insertion does not depend on the values. -/
theorem after_insertOrIgnore (table : String) (values others : List (String × Value)) (fact : Fact) :
    fact.after (.insertOrIgnore table values) = fact.after (.insertOrIgnore table others) := by
  cases fact <;> rfl

theorem table_of_extended {db after : Database} {name : String} {columns : List Column}
    (h : db.tableColumns name = some columns) (hsame : after = db ∨ db.objects name = none) :
    after.tableColumns name = some columns := by
  rcases hsame with rfl | hnone
  · exact h
  · obtain ⟨rows,hobject⟩ := Database.tableColumns_eq_some.mp h
    rw [hnone] at hobject
    cases hobject

theorem afterOn_holds {db next : Database} {statement : Statement} {fact known : Fact}
    (hexec : statement.exec db = .ok next) (hfact : fact.Holds db) (htarget : statement.target = some fact.name)
    (h : fact.afterOn statement = some known) : known.Holds next := by
  cases statement with
  | createTable name columns =>
    obtain rfl : name = fact.name := Option.some.inj htarget
    have hcases := createTable_cases hexec
    cases fact with
    | table name expected =>
      cases h
      exact table_of_extended hfact (hcases.symm.imp And.right And.left)
    | absent name =>
      cases h
      rcases hcases with ⟨-,rfl⟩ | ⟨hsome,-⟩
      · exact Database.tableColumns_eq_some.mpr ⟨[],Database.put_same db name _⟩
      · exact absurd hfact hsome
    | absentOr name expected =>
      simp only [afterOn] at h
      split at h
      · rename_i hcolumns
        cases h
        rcases hcases with ⟨-,rfl⟩ | ⟨hsome,rfl⟩
        · exact Database.tableColumns_eq_some.mpr ⟨[],Database.put_same db name _⟩
        · exact hcolumns ▸ hfact.resolve_left hsome
      · cases h
    | notTable name expected => cases h
  | createIndex name table columns =>
    obtain rfl : name = fact.name := Option.some.inj htarget
    cases fact with
    | table name expected =>
      cases h
      exact table_of_extended hfact ((createIndex_cases hexec).symm.imp And.right And.left)
    | absent name => cases h
    | absentOr name expected => cases h
    | notTable name expected => cases h
  | addColumn table column =>
    obtain rfl : table = fact.name := Option.some.inj htarget
    cases fact with
    | table name expected =>
      cases h
      obtain ⟨columns,rows,hobject,rfl⟩ := addColumn_cases hexec
      obtain ⟨others,hother⟩ := Database.tableColumns_eq_some.mp hfact
      simp only [Fact.name] at hobject
      rw [hobject] at hother
      cases hother
      exact Database.tableColumns_eq_some.mpr ⟨_,Database.put_same db name _⟩
    | absent name => cases h
    | absentOr name expected => cases h
    | notTable name expected => cases h
  | insertOrIgnore table values =>
    obtain rfl : table = fact.name := Option.some.inj htarget
    cases fact with
    | table name expected =>
      cases h
      obtain ⟨columns,rows,hobject,hnext⟩ := insertOrIgnore_cases hexec
      obtain ⟨others,hother⟩ := Database.tableColumns_eq_some.mp hfact
      simp only [Fact.name] at hobject
      rw [hobject] at hother
      cases hother
      rcases hnext with rfl | ⟨row,rfl⟩
      · exact hfact
      · exact Database.tableColumns_eq_some.mpr ⟨_,Database.put_same db name _⟩
    | absent name => cases h
    | absentOr name expected => cases h
    | notTable name expected => cases h
  | setUserVersion version => cases htarget

theorem after_holds {db next : Database} {statement : Statement} {fact known : Fact}
    (hexec : statement.exec db = .ok next) (hfact : fact.Holds db) (h : fact.after statement = some known) :
    known.Holds next := by
  unfold after at h
  split at h
  · rename_i htarget
    exact afterOn_holds hexec hfact htarget h
  · rename_i htarget
    cases h
    exact holds_congr (exec_frame hexec htarget) hfact

end Fact

def AllHold (db : Database) (facts : List Fact) : Prop := ∀ fact ∈ facts, fact.Holds db

theorem AllHold.mono {db : Database} {facts fewer : List Fact} (h : AllHold db facts) (hsub : fewer ⊆ facts) :
    AllHold db fewer := fun fact hfact => h fact (hsub hfact)

/-- A check adds a fact, and two facts can exclude that there is an object. -/
def learn (fact : Fact) (facts : List Fact) : List Fact :=
  match fact with
  | .absentOr name columns => if .notTable name columns ∈ facts then .absent name :: facts else fact :: facts
  | _ => fact :: facts

theorem learn_holds {db : Database} {fact : Fact} {facts : List Fact} (h : AllHold db facts) (hfact : fact.Holds db) :
    AllHold db (learn fact facts) := by
  unfold learn
  split
  · rename_i name columns
    split
    · rename_i hnot
      exact List.forall_mem_cons.mpr ⟨hfact.resolve_right (h _ hnot),h⟩
    · exact List.forall_mem_cons.mpr ⟨hfact,h⟩
  · exact List.forall_mem_cons.mpr ⟨hfact,h⟩

theorem filterMap_holds {db next : Database} {statement : Statement} {facts : List Fact}
    (hexec : statement.exec db = .ok next) (h : AllHold db facts) :
    AllHold next (facts.filterMap (·.after statement)) := by
  intro known hknown
  obtain ⟨fact,hfact,hafter⟩ := List.mem_filterMap.mp hknown
  exact Fact.after_holds hexec (h fact hfact) hafter

end Sql
end Library
