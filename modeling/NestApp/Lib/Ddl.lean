import Mathlib.Data.Finset.Basic
import Mathlib.Data.Finset.Union
import Mathlib.Data.List.Basic

/-!
# `Lib.Ddl` — statements that change a schema, and how they are undone

A database is a schema and the rows of each table. The statements are those of a migration: tables,
indexes and constraints are created and dropped, each under the conditions PostgreSQL checks, and a
statement whose conditions fail leaves nothing behind. What a schema says of its rows is `Holds`: keys,
checks, foreign keys and unique indexes, partial ones included.

* `exec_wellFormed` — a statement keeps a database well formed: everything belongs to a table, the
  foreign keys resolve, names are used once, and the rows are as the schema says;
* `run_undo` — statements that create are undone by dropping what they created, in the reverse order;
* `run_drops` — whether something can be dropped depends on the schema alone, not on the rows;
* `addConstraint_back` — a constraint that was dropped can be added again iff the rows are as it says.

The second and the third together say when a migration can be reverted in a database that has been used
since.
-/

namespace Ddl

/-! ## Schemas

Columns with their types and defaults, constraints with their names, and indexes. A unique constraint
comes with an index of the same name, so tables, indexes and constraints share one space of names. -/

/-- The types of columns that occur in the migrations, with the length of a `varchar`. -/
inductive ColumnType where
  | uuid
  | varchar (length : Nat)
  | text
  | citext
  | boolean
  | timestamptz
deriving DecidableEq

structure Column where
  name    : String
  type    : ColumnType
  notNull : Bool
  default : Option String
deriving DecidableEq

/-- `ON DELETE` and `ON UPDATE` -/
inductive ReferentialAction where
  | noAction
  | cascade
deriving DecidableEq

/-- What a table says of its rows: primary key, uniqueness, a check of a text column against a list, and
    a reference to a column of a table. -/
inductive Constraint where
  | primaryKey (columns : List String)
  | unique (columns : List String)
  /-- `CHECK (column IN (…))` -/
  | check (column : String) (values : List String)
  | foreignKey (column refTable refColumn : String) (onDelete onUpdate : ReferentialAction)
deriving DecidableEq

/-- The columns of the index a constraint comes with. -/
def Constraint.key : Constraint → Option (List String)
  | .primaryKey columns | .unique columns => some columns
  | .check .. | .foreignKey ..          => none

/-- The table a foreign key refers to. -/
def Constraint.refersTo : Constraint → Option String
  | .foreignKey _ refTable _ _ _ => some refTable
  | _                            => none

def Constraint.columns : Constraint → List String
  | .primaryKey columns | .unique columns        => columns
  | .check column _ | .foreignKey column _ _ _ _ => [column]

structure NamedConstraint where
  table      : String
  name       : String
  constraint : Constraint
deriving DecidableEq

structure Index where
  name      : String
  table     : String
  columns   : List String
  unique    : Bool
  /-- `WHERE column IS NULL` -/
  whereNull : Option String
deriving DecidableEq

structure TableDef where
  name    : String
  columns : List Column
deriving DecidableEq

/-- Tables, named constraints and indexes, each with the table it belongs to, and the extensions that
    were created. -/
structure Schema where
  extensions  : Finset String
  tables      : Finset TableDef
  constraints : Finset NamedConstraint
  indexes     : Finset Index
deriving DecidableEq

namespace Schema

/-- Tables and indexes share their names, the indexes of constraints included. -/
def taken (sc : Schema) (name : String) : Prop :=
  (∃ t ∈ sc.tables, t.name = name) ∨ (∃ i ∈ sc.indexes, i.name = name) ∨
    ∃ c ∈ sc.constraints, c.constraint.key.isSome ∧ c.name = name

instance (sc : Schema) (name : String) : Decidable (sc.taken name) :=
  inferInstanceAs (Decidable (_ ∨ _ ∨ _))

def hasTable (sc : Schema) (table : String) : Prop := ∃ t ∈ sc.tables, t.name = table

instance (sc : Schema) (table : String) : Decidable (sc.hasTable table) :=
  inferInstanceAs (Decidable (∃ t ∈ sc.tables, _))

def hasColumns (sc : Schema) (table : String) (columns : List String) : Prop :=
  ∃ t ∈ sc.tables, t.name = table ∧ ∀ column ∈ columns, column ∈ t.columns.map Column.name

instance (sc : Schema) (table : String) (columns : List String) :
    Decidable (sc.hasColumns table columns) :=
  inferInstanceAs (Decidable (∃ t ∈ sc.tables, _))

/-- A column is compared without regard to case. -/
def isCitext (sc : Schema) (table column : String) : Prop :=
  ∃ t ∈ sc.tables, t.name = table ∧ ∃ c ∈ t.columns, c.name = column ∧ c.type = .citext

instance (sc : Schema) (table column : String) : Decidable (sc.isCitext table column) :=
  inferInstanceAs (Decidable (∃ t ∈ sc.tables, _))

/-- A foreign key may refer to the column: there is a unique index on it, for all rows. -/
def provides (sc : Schema) (table column : String) : Prop :=
  (∃ c ∈ sc.constraints, c.table = table ∧ c.constraint.key = some [column]) ∨
    ∃ i ∈ sc.indexes, i.table = table ∧ i.unique = true ∧ i.whereNull = none ∧ i.columns = [column]

instance (sc : Schema) (table column : String) : Decidable (sc.provides table column) :=
  inferInstanceAs (Decidable (_ ∨ _))

def resolves (sc : Schema) : Constraint → Prop
  | .foreignKey _ refTable refColumn _ _ => sc.provides refTable refColumn
  | _                                    => True

instance (sc : Schema) (c : Constraint) : Decidable (sc.resolves c) := by
  cases c with
  | foreignKey _ refTable refColumn _ _ =>
      exact inferInstanceAs (Decidable (sc.provides refTable refColumn))
  | primaryKey | unique | check => exact isTrue trivial

/-- Every foreign key resolves. -/
def Resolved (sc : Schema) : Prop := ∀ c ∈ sc.constraints, sc.resolves c.constraint

instance (sc : Schema) : Decidable sc.Resolved := inferInstanceAs (Decidable (∀ c ∈ sc.constraints, _))

end Schema

/-! ## Rows

What a schema promises about rows: no two rows clash on a key, a check holds of every row, a reference
has a target. `NULL` clashes with nothing and refers to nothing. Values of a `citext` column are
compared after `lower`. -/

/-- The values of a row; `none` is `NULL`. -/
abbrev Row := String → Option String

/-- A schema and the rows of every table. A table that is not in the schema has rows nobody can see. -/
structure Database where
  schema : Schema
  rows   : String → List Row

/-- Two rows have the same values in the columns, none of them `NULL`. -/
def Clash (fold : String → String → String) (columns : List String) (r r' : Row) : Prop :=
  ∀ column ∈ columns, ((r column).map (fold column)).isSome ∧
    (r column).map (fold column) = (r' column).map (fold column)

instance (fold : String → String → String) (columns : List String) (r r' : Row) :
    Decidable (Clash fold columns r r') :=
  inferInstanceAs (Decidable (∀ column ∈ columns, _))

/-- No two rows clash. -/
def Distinct (fold : String → String → String) (columns : List String) (rows : List Row) : Prop :=
  rows.Pairwise fun r r' => ¬ Clash fold columns r r'

instance (fold : String → String → String) (columns : List String) (rows : List Row) :
    Decidable (Distinct fold columns rows) :=
  inferInstanceAs (Decidable (List.Pairwise _ rows))

namespace Database

/-- How the values of a column are compared. `lower` is what `citext` goes by. -/
def fold (lower : String → String) (db : Database) (table column : String) : String → String :=
  if db.schema.isCitext table column then lower else id

def holds (lower : String → String) (db : Database) (table : String) : Constraint → Prop
  | .primaryKey columns =>
      (∀ r ∈ db.rows table, ∀ column ∈ columns, (r column).isSome) ∧
        Distinct (db.fold lower table) columns (db.rows table)
  | .unique columns => Distinct (db.fold lower table) columns (db.rows table)
  | .check column values => ∀ r ∈ db.rows table, ∀ v ∈ r column, v ∈ values
  | .foreignKey column refTable refColumn _ _ =>
      ∀ r ∈ db.rows table, ∀ v ∈ r column, ∃ r' ∈ db.rows refTable, r' refColumn = some v

instance (lower : String → String) (db : Database) (table : String) (c : Constraint) :
    Decidable (db.holds lower table c) := by
  cases c with
  | primaryKey columns => exact inferInstanceAs (Decidable (_ ∧ _))
  | unique columns => exact inferInstanceAs (Decidable (Distinct _ _ _))
  | check column values => exact inferInstanceAs (Decidable (∀ r ∈ db.rows table, ∀ v ∈ r column, _))
  | foreignKey column refTable refColumn =>
      exact inferInstanceAs (Decidable (∀ r ∈ db.rows table, ∀ v ∈ r column, _))

def indexHolds (lower : String → String) (db : Database) (i : Index) : Prop :=
  i.unique = true → Distinct (db.fold lower i.table) i.columns
    ((db.rows i.table).filter fun r => i.whereNull.all fun column => (r column).isNone)

instance (lower : String → String) (db : Database) (i : Index) : Decidable (db.indexHolds lower i) :=
  inferInstanceAs (Decidable (_ → _))

end Database

/-! ## Statements

Each statement has its conditions and its effect; where a condition fails the statement fails, and
nothing has changed. `run` stops at the first statement that fails, as a migration in a transaction
does. -/

/-- The statements of a migration, as the driver sends them. -/
inductive Statement where
  /-- `CREATE EXTENSION IF NOT EXISTS` -/
  | createExtension (name : String)
  | createTable (table : TableDef) (constraints : List (String × Constraint))
  | dropTable (name : String)
  | createIndex (index : Index)
  | dropIndex (name : String)
  | addConstraint (c : NamedConstraint)
  | dropConstraint (table name : String)
deriving DecidableEq

/-- What a column takes from an extension. -/
def Column.needs (c : Column) : List String :=
  (if c.type = .citext then ["citext"] else []) ++ if c.default = some "uuid_generate_v4()" then
    ["uuid-ossp"] else []

namespace Schema

/-- A table can be created. Its foreign keys are added later. -/
structure Creatable (sc : Schema) (table : TableDef)
    (constraints : List (String × Constraint)) : Prop where
  free       : ¬ sc.taken table.name
  extensions : ∀ c ∈ table.columns, ∀ e ∈ c.needs, e ∈ sc.extensions
  columns    : (table.columns.map Column.name).Nodup
  names      : (table.name :: constraints.map Prod.fst).Nodup
  keys       : ∀ c ∈ constraints, c.2.key.isSome → ¬ sc.taken c.1
  fits       : ∀ c ∈ constraints, c.2.refersTo = none ∧ ∀ column ∈ c.2.columns,
    column ∈ table.columns.map Column.name

instance (sc : Schema) (table : TableDef) (constraints : List (String × Constraint)) :
    Decidable (sc.Creatable table constraints) :=
  decidable_of_iff
    (¬ sc.taken table.name ∧ (∀ c ∈ table.columns, ∀ e ∈ c.needs, e ∈ sc.extensions) ∧
      (table.columns.map Column.name).Nodup ∧ (table.name :: constraints.map Prod.fst).Nodup ∧
      (∀ c ∈ constraints, c.2.key.isSome → ¬ sc.taken c.1) ∧
      ∀ c ∈ constraints, c.2.refersTo = none ∧ ∀ column ∈ c.2.columns,
        column ∈ table.columns.map Column.name)
    ⟨fun ⟨h₁, h₂, h₃, h₄, h₅, h₆⟩ => ⟨h₁, h₂, h₃, h₄, h₅, h₆⟩, fun h => ⟨h.1, h.2, h.3, h.4, h.5, h.6⟩⟩

/-- A constraint can be added, as far as the schema goes. -/
structure Addable (sc : Schema) (c : NamedConstraint) : Prop where
  columns  : sc.hasColumns c.table c.constraint.columns
  new      : ∀ c' ∈ sc.constraints, c'.table = c.table → c'.name ≠ c.name
  key      : c.constraint.key.isSome → ¬ sc.taken c.name
  resolves : sc.resolves c.constraint

instance (sc : Schema) (c : NamedConstraint) : Decidable (sc.Addable c) :=
  decidable_of_iff
    (sc.hasColumns c.table c.constraint.columns ∧
      (∀ c' ∈ sc.constraints, c'.table = c.table → c'.name ≠ c.name) ∧
      (c.constraint.key.isSome → ¬ sc.taken c.name) ∧ sc.resolves c.constraint)
    ⟨fun ⟨h₁, h₂, h₃, h₄⟩ => ⟨h₁, h₂, h₃, h₄⟩, fun h => ⟨h.1, h.2, h.3, h.4⟩⟩

def withTable (sc : Schema) (table : TableDef) (constraints : List (String × Constraint)) : Schema :=
  { sc with
    tables      := insert table sc.tables
    constraints := sc.constraints ∪ (constraints.map fun c => ⟨table.name, c.1, c.2⟩).toFinset }

def withoutTable (sc : Schema) (name : String) : Schema :=
  { sc with
    tables      := sc.tables.filter (·.name ≠ name)
    constraints := sc.constraints.filter (·.table ≠ name)
    indexes     := sc.indexes.filter (·.table ≠ name) }

def withoutIndex (sc : Schema) (name : String) : Schema :=
  { sc with indexes := sc.indexes.filter (·.name ≠ name) }

def withoutConstraint (sc : Schema) (table name : String) : Schema :=
  { sc with constraints := sc.constraints.filter fun c => ¬ (c.table = table ∧ c.name = name) }

end Schema

/-- A statement, or `none` where it fails. -/
def exec (lower : String → String) (db : Database) : Statement → Option Database
  | .createExtension name =>
      some { db with schema := { db.schema with extensions := insert name db.schema.extensions } }
  | .createTable table constraints =>
      if db.schema.Creatable table constraints then
        some ⟨db.schema.withTable table constraints, Function.update db.rows table.name []⟩
      else none
  | .dropTable name =>
      if db.schema.hasTable name ∧ ∀ c ∈ db.schema.constraints, c.table ≠ name →
        c.constraint.refersTo ≠ some name then
        some ⟨db.schema.withoutTable name, Function.update db.rows name []⟩
      else none
  | .createIndex index =>
      if db.schema.hasColumns index.table (index.columns ++ index.whereNull.toList) ∧
        ¬ db.schema.taken index.name ∧
          db.indexHolds lower index then
        some { db with schema := { db.schema with indexes := insert index db.schema.indexes } }
      else none
  | .dropIndex name =>
      if (∃ i ∈ db.schema.indexes, i.name = name) ∧ (db.schema.withoutIndex name).Resolved then
        some { db with schema := db.schema.withoutIndex name }
      else none
  | .addConstraint c =>
      if db.schema.Addable c ∧ db.holds lower c.table c.constraint then
        some { db with schema := { db.schema with constraints := insert c db.schema.constraints } }
      else none
  | .dropConstraint table name =>
      if (∃ c ∈ db.schema.constraints, c.table = table ∧ c.name = name) ∧
        (db.schema.withoutConstraint table name).Resolved then
        some { db with schema := db.schema.withoutConstraint table name }
      else none

/-- One statement after the other, up to the first that fails. -/
def run (lower : String → String) : Database → List Statement → Option Database
  | db, []       => some db
  | db, st :: sts => (exec lower db st).bind fun db' => run lower db' sts

variable {lower : String → String} {sc sc' : Schema} {db db' db'' : Database}
  {table name column : String} {c : Constraint}
  {st : Statement}

/-! ## Well-formed databases

The invariant of all statements. It is what makes a later statement predictable: a name that was free
stays free unless a statement takes it, and a foreign key that resolved resolves until its target goes.
-/

/-- The name of a constraint with an index is the name of nothing else. -/
def Schema.Named (sc : Schema) (c : NamedConstraint) : Prop :=
  (∀ t ∈ sc.tables, t.name ≠ c.name) ∧ (∀ i ∈ sc.indexes, i.name ≠ c.name) ∧
    ∀ c' ∈ sc.constraints, c'.constraint.key.isSome → c'.name = c.name → c' = c

instance (sc : Schema) (c : NamedConstraint) : Decidable (sc.Named c) :=
  inferInstanceAs (Decidable (_ ∧ _ ∧ _))

/-- Everything belongs to a table, the foreign keys resolve, names are used once, and the rows are as
    the schema says. A database made by statements alone is like this (`run_wellFormed`). -/
structure WellFormed (lower : String → String) (db : Database) : Prop where
  columns     : ∀ c ∈ db.schema.constraints, db.schema.hasColumns c.table c.constraint.columns
  indexes     : ∀ i ∈ db.schema.indexes, db.schema.hasTable i.table
  rows        : ∀ table, ¬ db.schema.hasTable table → db.rows table = []
  resolved    : db.schema.Resolved
  names       : ∀ c ∈ db.schema.constraints, ∀ c' ∈ db.schema.constraints, c.table = c'.table →
    c.name = c'.name → c = c'
  keys        : ∀ c ∈ db.schema.constraints, c.constraint.key.isSome → db.schema.Named c
  holds       : ∀ c ∈ db.schema.constraints, db.holds lower c.table c.constraint
  indexed     : ∀ i ∈ db.schema.indexes, db.indexHolds lower i

theorem hasTable_of_hasColumns {columns : List String} (h : sc.hasColumns table columns) :
    sc.hasTable table := by
  obtain ⟨t, ht, hname, -⟩ := h
  exact ⟨t, ht, hname⟩

theorem WellFormed.constraints (hwf : WellFormed lower db) {c : NamedConstraint}
    (hc : c ∈ db.schema.constraints) :
    db.schema.hasTable c.table := hasTable_of_hasColumns (hwf.columns c hc)

/-- A name that is free is none of a table, an index or a key. -/
theorem not_taken_iff : ¬ sc.taken name ↔ (∀ t ∈ sc.tables, t.name ≠ name) ∧
    (∀ i ∈ sc.indexes, i.name ≠ name) ∧
    ∀ c ∈ sc.constraints, c.constraint.key.isSome → c.name ≠ name := by
  simp [Schema.taken]

/-- A part of the schema has the name no more often. -/
theorem Schema.Named.mono {c : NamedConstraint} (h : sc.Named c) (htables : sc'.tables ⊆ sc.tables)
    (hindexes : sc'.indexes ⊆ sc.indexes) (hconstraints : sc'.constraints ⊆ sc.constraints) :
      sc'.Named c :=
  ⟨fun t ht => h.1 t (htables ht), fun i hi => h.2.1 i (hindexes hi),
    fun c' hc' => h.2.2 c' (hconstraints hc')⟩

theorem not_hasTable_of_free (h : ¬ sc.taken name) : ¬ sc.hasTable name := fun ht => h (.inl ht)

theorem resolves_foreignKey {refTable : String} (h : sc.resolves c) (href : c.refersTo = some refTable) :
    ∃ refColumn, sc.provides refTable refColumn := by
  cases c with
  | foreignKey column refTable' refColumn =>
      obtain rfl : refTable' = refTable := Option.some.inj href
      exact ⟨refColumn, h⟩
  | primaryKey | unique | check => cases href

theorem resolves_of_refersTo_none (h : c.refersTo = none) : sc.resolves c := by
  cases c with
  | foreignKey => cases h
  | primaryKey | unique | check => trivial

/-- A foreign key refers to a table that is there. -/
theorem WellFormed.target (hwf : WellFormed lower db) {c : NamedConstraint}
    (hc : c ∈ db.schema.constraints)
    (href : c.constraint.refersTo = some table) : db.schema.hasTable table := by
  obtain ⟨column, ⟨c', hc', rfl, -⟩ | ⟨i, hi, rfl, -⟩⟩ := resolves_foreignKey (hwf.resolved c hc) href
  · exact hwf.constraints hc'
  · exact hwf.indexes i hi

/-- The larger schema resolves what the smaller one does. -/
theorem resolves_mono (hconstraints : sc.constraints ⊆ sc'.constraints)
    (hindexes : sc.indexes ⊆ sc'.indexes)
    (h : sc.resolves c) : sc'.resolves c := by
  cases c with
  | foreignKey column refTable refColumn =>
      obtain ⟨c', hc', hrest⟩ | ⟨i, hi, hrest⟩ := h
      · exact .inl ⟨c', hconstraints hc', hrest⟩
      · exact .inr ⟨i, hindexes hi, hrest⟩
  | primaryKey | unique | check => trivial

theorem hasColumns_mono {columns : List String} (htables : sc.tables ⊆ sc'.tables)
    (h : sc.hasColumns table columns) :
    sc'.hasColumns table columns := by
  obtain ⟨t, ht, hrest⟩ := h
  exact ⟨t, htables ht, hrest⟩

/-- What is said of a table goes by its rows and its columns, and by the rows of the tables it refers
    to. -/
theorem holds_congr (hrows : db'.rows table = db.rows table)
    (hfold : db'.fold lower table = db.fold lower table)
    (href : ∀ refTable, c.refersTo = some refTable → db'.rows refTable = db.rows refTable) :
    db'.holds lower table c ↔ db.holds lower table c := by
  cases c with
  | primaryKey | unique | check => simp only [Database.holds, hrows, hfold]
  | foreignKey column refTable refColumn => simp only [Database.holds, hrows, href refTable rfl]

theorem indexHolds_congr {i : Index} (hrows : db'.rows i.table = db.rows i.table)
    (hfold : db'.fold lower i.table = db.fold lower i.table) : db'.indexHolds lower i ↔
      db.indexHolds lower i := by
  simp only [Database.indexHolds, hrows, hfold]

/-- Of a table without rows everything is true. -/
theorem holds_nil (hrows : db.rows table = []) : db.holds lower table c := by
  cases c with
  | primaryKey => simp [Database.holds, Distinct, hrows]
  | unique => simp [Database.holds, Distinct, hrows]
  | check => simp [Database.holds, hrows]
  | foreignKey => simp [Database.holds, hrows]

theorem fold_congr (h : ∀ column, db'.schema.isCitext table column ↔ db.schema.isCitext table column) :
    db'.fold lower table = db.fold lower table := by
  funext column
  simp only [Database.fold, h column]

section WithTable

variable {t : TableDef} {constraints : List (String × Constraint)}

theorem hasTable_withTable : (sc.withTable t constraints).hasTable name ↔ t.name = name ∨
    sc.hasTable name := by
  simp [Schema.hasTable, Schema.withTable]

theorem isCitext_withTable (hne : table ≠ t.name) :
    (sc.withTable t constraints).isCitext table column ↔ sc.isCitext table column := by
  simp [Schema.isCitext, Schema.withTable, Ne.symm hne]

theorem mem_constraints_withTable {c : NamedConstraint} : c ∈ (sc.withTable t constraints).constraints ↔
    c ∈ sc.constraints ∨ c.table = t.name ∧ (c.name, c.constraint) ∈ constraints := by
  obtain ⟨table, name, constraint⟩ := c
  simp only [Schema.withTable, Finset.mem_union, List.mem_toFinset, List.mem_map, Prod.exists,
    NamedConstraint.mk.injEq]
  constructor
  · rintro (h | ⟨n, con, h, rfl, rfl, rfl⟩)
    · exact .inl h
    · exact .inr ⟨rfl, h⟩
  · rintro (h | ⟨rfl, h⟩)
    · exact .inl h
    · exact .inr ⟨name, constraint, h, rfl, rfl, rfl⟩

end WithTable

theorem hasTable_withoutTable : (sc.withoutTable name).hasTable table ↔ sc.hasTable table ∧
    table ≠ name := by
  constructor
  · rintro ⟨t, ht, rfl⟩
    obtain ⟨ht, hne⟩ := Finset.mem_filter.mp ht
    exact ⟨⟨t, ht, rfl⟩, hne⟩
  · rintro ⟨⟨t, ht, rfl⟩, hne⟩
    exact ⟨t, Finset.mem_filter.mpr ⟨ht, hne⟩, rfl⟩

theorem hasColumns_withoutTable {columns : List String} (hne : table ≠ name)
    (h : sc.hasColumns table columns) :
    (sc.withoutTable name).hasColumns table columns := by
  obtain ⟨t, ht, rfl, hcolumns⟩ := h
  exact ⟨t, Finset.mem_filter.mpr ⟨ht, hne⟩, rfl, hcolumns⟩

theorem isCitext_withoutTable (hne : table ≠ name) :
    (sc.withoutTable name).isCitext table column ↔ sc.isCitext table column := by
  constructor
  · rintro ⟨t, ht, hrest⟩
    exact ⟨t, (Finset.mem_filter.mp ht).1, hrest⟩
  · rintro ⟨t, ht, rfl, hrest⟩
    exact ⟨t, Finset.mem_filter.mpr ⟨ht, hne⟩, rfl, hrest⟩

/-- Without a table that nothing else refers to, the foreign keys resolve as before. -/
theorem resolves_withoutTable (hother : c.refersTo ≠ some name) (h : sc.resolves c) :
    (sc.withoutTable name).resolves c := by
  cases c with
  | foreignKey column refTable refColumn =>
      have hne : refTable ≠ name := fun heq => hother (congrArg some heq)
      obtain ⟨c', hc', htable, hkey⟩ | ⟨i, hi, htable, hrest⟩ := h
      · exact .inl ⟨c', Finset.mem_filter.mpr ⟨hc', by simpa [htable] using hne⟩, htable, hkey⟩
      · exact .inr ⟨i, Finset.mem_filter.mpr ⟨hi, by simpa [htable] using hne⟩, htable, hrest⟩
  | primaryKey | unique | check => trivial

/-! ## Statements keep databases well formed

One lemma for each statement. Those that create have to show that the new thing is resolved and that
the rows are as it says; those that drop, that nothing that is left needed what is gone. -/

theorem wellFormed_createExtension (hwf : WellFormed lower db) :
    WellFormed lower { db with
      schema := { db.schema with extensions := insert name db.schema.extensions } } :=
  ⟨hwf.columns, hwf.indexes, hwf.rows, hwf.resolved, hwf.names, hwf.keys, hwf.holds, hwf.indexed⟩

theorem wellFormed_createTable {t : TableDef} {constraints : List (String × Constraint)}
    (hwf : WellFormed lower db)
    (hcreatable : db.schema.Creatable t constraints) :
    WellFormed lower ⟨db.schema.withTable t constraints, Function.update db.rows t.name []⟩ := by
  have hfree : ¬ db.schema.hasTable t.name := not_hasTable_of_free hcreatable.free
  have hne : ∀ {table}, db.schema.hasTable table → table ≠ t.name := by
    rintro table htable rfl
    exact hfree htable
  have hrows : ∀ {table}, db.schema.hasTable table →
    Function.update db.rows t.name [] table = db.rows table :=
    fun htable => Function.update_of_ne (hne htable) _ _
  have hsub : db.schema.tables ⊆ (db.schema.withTable t constraints).tables := Finset.subset_insert _ _
  -- two constraints of the new table with one name are one
  have hsame : ∀ {c c' : NamedConstraint}, c.table = t.name → (c.name, c.constraint) ∈ constraints →
    c'.table = t.name →
      (c'.name, c'.constraint) ∈ constraints → c.name = c'.name → c = c' := by
    intro c c' htable hc htable' hc' hname
    have heq := List.inj_on_of_nodup_map (List.nodup_cons.mp hcreatable.names).2 hc hc' hname
    obtain ⟨table, name, constraint⟩ := c
    obtain ⟨table', name', constraint'⟩ := c'
    cases heq
    obtain rfl : table = table' := Eq.trans htable (Eq.symm htable')
    rfl
  refine ⟨?_, ?_, ?_, ?_, ?_, ?_, ?_, ?_⟩
  · intro c hc
    rcases mem_constraints_withTable.mp hc with hc | ⟨htable, hnew⟩
    · exact hasColumns_mono hsub (hwf.columns c hc)
    · exact ⟨t, Finset.mem_insert_self _ _, htable.symm, (hcreatable.fits _ hnew).2⟩
  · intro i hi
    exact hasTable_withTable.mpr (.inr (hwf.indexes i hi))
  · intro table htable
    rw [hasTable_withTable, not_or] at htable
    show Function.update db.rows t.name [] table = []
    rw [Function.update_of_ne (Ne.symm htable.1), hwf.rows table htable.2]
  · intro c hc
    rcases mem_constraints_withTable.mp hc with hc | ⟨-, hnew⟩
    · exact resolves_mono Finset.subset_union_left (fun _ hi => hi) (hwf.resolved c hc)
    · exact resolves_of_refersTo_none (hcreatable.fits _ hnew).1
  · intro c hc c' hc' htable hname
    rcases mem_constraints_withTable.mp hc with hold | ⟨hthere, hnew⟩
    · rcases mem_constraints_withTable.mp hc' with hold' | ⟨hthere', -⟩
      · exact hwf.names c hold c' hold' htable hname
      · exact absurd (htable.trans hthere') (hne (hwf.constraints hold))
    · rcases mem_constraints_withTable.mp hc' with hold' | ⟨hthere', hnew'⟩
      · exact absurd (htable.symm.trans hthere) (hne (hwf.constraints hold'))
      · exact hsame hthere hnew hthere' hnew' hname
  · intro c hc hkey
    rcases mem_constraints_withTable.mp hc with hold | ⟨hthere, hnew⟩
    · obtain ⟨htables, hindexes, hothers⟩ := hwf.keys c hold hkey
      refine ⟨fun t' ht' => ?_, hindexes, fun c' hc' hkey' hname => ?_⟩
      · rcases Finset.mem_insert.mp ht' with rfl | ht'
        · exact ((not_taken_iff.mp hcreatable.free).2.2 c hold hkey).symm
        · exact htables t' ht'
      · rcases mem_constraints_withTable.mp hc' with hold' | ⟨-, hnew'⟩
        · exact hothers c' hold' hkey' hname
        · exact absurd hname.symm ((not_taken_iff.mp (hcreatable.keys _ hnew' hkey')).2.2 c hold hkey)
    · obtain ⟨htables, hindexes, hothers⟩ := not_taken_iff.mp (hcreatable.keys _ hnew hkey)
      refine ⟨fun t' ht' => ?_, hindexes, fun c' hc' hkey' hname => ?_⟩
      · rcases Finset.mem_insert.mp ht' with rfl | ht'
        · intro heq
          exact (List.nodup_cons.mp hcreatable.names).1 (List.mem_map.mpr ⟨_, hnew, heq.symm⟩)
        · exact htables t' ht'
      · rcases mem_constraints_withTable.mp hc' with hold' | ⟨hthere', hnew'⟩
        · exact absurd hname (hothers c' hold' hkey')
        · exact hsame hthere' hnew' hthere hnew hname
  · intro c hc
    rcases mem_constraints_withTable.mp hc with hold | ⟨htable, -⟩
    · have hthere := hwf.constraints hold
      refine (holds_congr (hrows hthere)
        (fold_congr fun column => isCitext_withTable (hne hthere)) ?_).mpr (hwf.holds c hold)
      exact fun refTable href => hrows (hwf.target hold href)
    · apply holds_nil
      rw [htable]
      exact Function.update_self ..
  · intro i hi
    have hthere := hwf.indexes i hi
    exact (indexHolds_congr (hrows hthere)
      (fold_congr fun column => isCitext_withTable (hne hthere))).mpr (hwf.indexed i hi)

theorem wellFormed_dropTable (hwf : WellFormed lower db)
    (hother : ∀ c ∈ db.schema.constraints, c.table ≠ name → c.constraint.refersTo ≠ some name) :
    WellFormed lower ⟨db.schema.withoutTable name, Function.update db.rows name []⟩ := by
  have hrows : ∀ {table}, table ≠ name → Function.update db.rows name [] table = db.rows table :=
    fun hne => Function.update_of_ne hne _ _
  refine ⟨?_, ?_, ?_, ?_, ?_, ?_, ?_, ?_⟩
  · intro c hc
    obtain ⟨hc, hne⟩ := Finset.mem_filter.mp hc
    exact hasColumns_withoutTable (by simpa using hne) (hwf.columns c hc)
  · intro i hi
    obtain ⟨hi, hne⟩ := Finset.mem_filter.mp hi
    exact hasTable_withoutTable.mpr ⟨hwf.indexes i hi, hne⟩
  · intro table htable
    by_cases hne : table = name
    · subst hne
      exact Function.update_self ..
    · show Function.update db.rows name [] table = []
      rw [hrows hne]
      exact hwf.rows table fun hthere => htable (hasTable_withoutTable.mpr ⟨hthere, hne⟩)
  · intro c hc
    obtain ⟨hc, hne⟩ := Finset.mem_filter.mp hc
    exact resolves_withoutTable (hother c hc hne) (hwf.resolved c hc)
  · intro c hc c' hc'
    exact hwf.names c (Finset.mem_filter.mp hc).1 c' (Finset.mem_filter.mp hc').1
  · intro c hc hkey
    exact (hwf.keys c (Finset.mem_filter.mp hc).1 hkey).mono (Finset.filter_subset _ _)
      (Finset.filter_subset _ _)
      (Finset.filter_subset _ _)
  · intro c hc
    obtain ⟨hc, hne⟩ := Finset.mem_filter.mp hc
    refine (holds_congr (hrows hne) (fold_congr fun column => isCitext_withoutTable hne) ?_).mpr
      (hwf.holds c hc)
    intro refTable href
    exact hrows fun heq => hother c hc hne (heq ▸ href)
  · intro i hi
    obtain ⟨hi, hne⟩ := Finset.mem_filter.mp hi
    exact (indexHolds_congr (hrows hne) (fold_congr fun column => isCitext_withoutTable hne)).mpr
      (hwf.indexed i hi)

theorem wellFormed_createIndex {index : Index} (hwf : WellFormed lower db)
    (hcolumns : db.schema.hasColumns index.table (index.columns ++ index.whereNull.toList))
    (hfree : ¬ db.schema.taken index.name) (hholds : db.indexHolds lower index) :
    WellFormed lower { db with
      schema := { db.schema with indexes := insert index db.schema.indexes } } := by
  have hmono : ∀ {con : Constraint}, db.schema.resolves con →
      Schema.resolves { db.schema with indexes := insert index db.schema.indexes } con :=
    fun h => resolves_mono (Finset.Subset.refl db.schema.constraints)
      (Finset.subset_insert index db.schema.indexes) h
  refine ⟨hwf.columns, fun i hi => ?_, hwf.rows, fun c hc => hmono (hwf.resolved c hc),
    hwf.names, fun c hc hkey => ?_,
    hwf.holds, fun i hi => ?_⟩
  · rcases Finset.mem_insert.mp hi with rfl | hi
    · exact hasTable_of_hasColumns hcolumns
    · exact hwf.indexes i hi
  · obtain ⟨htables, hindexes, hothers⟩ := hwf.keys c hc hkey
    refine ⟨htables, fun i hi => ?_, hothers⟩
    rcases Finset.mem_insert.mp hi with rfl | hi
    · exact ((not_taken_iff.mp hfree).2.2 c hc hkey).symm
    · exact hindexes i hi
  · rcases Finset.mem_insert.mp hi with rfl | hi
    · exact hholds
    · exact hwf.indexed i hi

theorem wellFormed_dropIndex (hwf : WellFormed lower db)
    (hresolved : (db.schema.withoutIndex name).Resolved) :
    WellFormed lower { db with schema := db.schema.withoutIndex name } :=
  ⟨hwf.columns, fun i hi => hwf.indexes i (Finset.mem_filter.mp hi).1, hwf.rows, hresolved, hwf.names,
    fun c hc hkey => (hwf.keys c hc hkey).mono (Finset.Subset.refl _) (Finset.filter_subset _ _)
      (Finset.Subset.refl _),
    hwf.holds, fun i hi => hwf.indexed i (Finset.mem_filter.mp hi).1⟩

theorem wellFormed_addConstraint {c : NamedConstraint} (hwf : WellFormed lower db)
    (haddable : db.schema.Addable c)
    (hholds : db.holds lower c.table c.constraint) :
    WellFormed lower { db with
      schema := { db.schema with constraints := insert c db.schema.constraints } } := by
  have hmono : ∀ {con : Constraint}, db.schema.resolves con →
      Schema.resolves { db.schema with constraints := insert c db.schema.constraints } con :=
    fun h => resolves_mono (Finset.subset_insert c _) (fun _ hi => hi) h
  refine ⟨fun c' hc' => ?_, hwf.indexes, hwf.rows, fun c' hc' => ?_,
    fun c' hc' c'' hc'' htable hname => ?_,
    fun c' hc' hkey => ?_, fun c' hc' => ?_, hwf.indexed⟩
  · rcases Finset.mem_insert.mp hc' with rfl | hc'
    · exact haddable.columns
    · exact hwf.columns c' hc'
  · rcases Finset.mem_insert.mp hc' with rfl | hc'
    · exact hmono haddable.resolves
    · exact hmono (hwf.resolved c' hc')
  · rcases Finset.mem_insert.mp hc' with rfl | hold
    · rcases Finset.mem_insert.mp hc'' with rfl | hold'
      · rfl
      · exact absurd hname.symm (haddable.new c'' hold' htable.symm)
    · rcases Finset.mem_insert.mp hc'' with rfl | hold'
      · exact absurd hname (haddable.new c' hold htable)
      · exact hwf.names c' hold c'' hold' htable hname
  · rcases Finset.mem_insert.mp hc' with rfl | hold
    · obtain ⟨htables, hindexes, hothers⟩ := not_taken_iff.mp (haddable.key hkey)
      refine ⟨htables, hindexes, fun c'' hc'' hkey' hname => ?_⟩
      rcases Finset.mem_insert.mp hc'' with rfl | hold'
      · rfl
      · exact absurd hname (hothers c'' hold' hkey')
    · obtain ⟨htables, hindexes, hothers⟩ := hwf.keys c' hold hkey
      refine ⟨htables, hindexes, fun c'' hc'' hkey' hname => ?_⟩
      rcases Finset.mem_insert.mp hc'' with rfl | hold'
      · exact absurd hname.symm ((not_taken_iff.mp (haddable.key hkey')).2.2 c' hold hkey)
      · exact hothers c'' hold' hkey' hname
  · rcases Finset.mem_insert.mp hc' with rfl | hc'
    · exact hholds
    · exact hwf.holds c' hc'

theorem wellFormed_dropConstraint (hwf : WellFormed lower db)
    (hresolved : (db.schema.withoutConstraint table name).Resolved) :
    WellFormed lower { db with schema := db.schema.withoutConstraint table name } :=
  ⟨fun c hc => hwf.columns c (Finset.mem_filter.mp hc).1, hwf.indexes, hwf.rows, hresolved,
    fun c hc c' hc' => hwf.names c (Finset.mem_filter.mp hc).1 c' (Finset.mem_filter.mp hc').1,
    fun c hc hkey => (hwf.keys c (Finset.mem_filter.mp hc).1 hkey).mono (Finset.Subset.refl _)
      (Finset.Subset.refl _)
      (Finset.filter_subset _ _),
    fun c hc => hwf.holds c (Finset.mem_filter.mp hc).1, hwf.indexed⟩

/-- **One statement** keeps a database well formed. -/
theorem exec_wellFormed (hwf : WellFormed lower db) (h : exec lower db st = some db') :
    WellFormed lower db' := by
  cases st with
  | createExtension name =>
      cases h
      exact wellFormed_createExtension hwf
  | createTable t constraints =>
      obtain ⟨hcreatable, heq⟩ := Option.ite_none_right_eq_some.mp h
      cases heq
      exact wellFormed_createTable hwf hcreatable
  | dropTable name =>
      obtain ⟨⟨-, hother⟩, heq⟩ := Option.ite_none_right_eq_some.mp h
      cases heq
      exact wellFormed_dropTable hwf hother
  | createIndex index =>
      obtain ⟨⟨hcolumns, hfree, hholds⟩, heq⟩ := Option.ite_none_right_eq_some.mp h
      cases heq
      exact wellFormed_createIndex hwf hcolumns hfree hholds
  | dropIndex name =>
      obtain ⟨⟨-, hresolved⟩, heq⟩ := Option.ite_none_right_eq_some.mp h
      cases heq
      exact wellFormed_dropIndex hwf hresolved
  | addConstraint c =>
      obtain ⟨⟨haddable, hholds⟩, heq⟩ := Option.ite_none_right_eq_some.mp h
      cases heq
      exact wellFormed_addConstraint hwf haddable hholds
  | dropConstraint table name =>
      obtain ⟨⟨-, hresolved⟩, heq⟩ := Option.ite_none_right_eq_some.mp h
      cases heq
      exact wellFormed_dropConstraint hwf hresolved

theorem run_wellFormed {sts : List Statement} (hwf : WellFormed lower db)
    (h : run lower db sts = some db') :
    WellFormed lower db' := by
  induction sts generalizing db with
  | nil =>
      cases h
      exact hwf
  | cons st sts ih =>
      obtain ⟨db₁, hexec, hrest⟩ := Option.bind_eq_some_iff.mp h
      exact ih (exec_wellFormed hwf hexec) hrest

theorem run_append (sts sts' : List Statement) :
    run lower db (sts ++ sts') = (run lower db sts).bind fun db' => run lower db' sts' := by
  induction sts generalizing db with
  | nil => rfl
  | cons st sts ih =>
      simp only [List.cons_append, run]
      cases exec lower db st with
      | none => rfl
      | some db₁ => exact ih

/-! ## Undoing what was created

A statement that creates is undone by the statement that drops its result, in the database it left. A
list of them is undone from its end: each `drop` finds the database just as its `create` left it. -/

/-- The statement that drops what this one creates. -/
def Statement.undo : Statement → Statement
  | .createTable table _ => .dropTable table.name
  | .createIndex index   => .dropIndex index.name
  | .addConstraint c     => .dropConstraint c.table c.name
  | st                   => st

def Statement.creates : Statement → Bool
  | .createTable _ _ | .createIndex _ | .addConstraint _ => true
  | _                                                    => false

theorem withoutTable_withTable {t : TableDef} {constraints : List (String × Constraint)}
    (hwf : WellFormed lower db)
    (hfree : ¬ db.schema.hasTable t.name) :
      (db.schema.withTable t constraints).withoutTable t.name = db.schema := by
  have htables : (insert t db.schema.tables).filter (·.name ≠ t.name) = db.schema.tables := by
    rw [Finset.filter_insert, if_neg (by simp)]
    exact Finset.filter_true_of_mem fun t' ht' heq => hfree ⟨t', ht', heq⟩
  have hindexes : db.schema.indexes.filter (·.table ≠ t.name) = db.schema.indexes :=
    Finset.filter_true_of_mem fun i hi heq => hfree (heq ▸ hwf.indexes i hi)
  have hconstraints : (db.schema.withTable t constraints).constraints.filter (·.table ≠ t.name) =
    db.schema.constraints := by
    ext c
    rw [Finset.mem_filter, mem_constraints_withTable]
    constructor
    · rintro ⟨hc | ⟨htable, -⟩, hne⟩
      · exact hc
      · exact absurd htable hne
    · intro hc
      exact ⟨.inl hc, fun heq => hfree (heq ▸ hwf.constraints hc)⟩
  rw [Schema.withoutTable, hconstraints]
  show Schema.mk db.schema.extensions ((insert t db.schema.tables).filter (·.name ≠ t.name))
    db.schema.constraints
    (db.schema.indexes.filter (·.table ≠ t.name)) = db.schema
  rw [htables, hindexes]

theorem withoutIndex_insert {i : Index} (hfree : ¬ sc.taken i.name) :
    Schema.withoutIndex { sc with indexes := insert i sc.indexes } i.name = sc := by
  have hindexes : (insert i sc.indexes).filter (·.name ≠ i.name) = sc.indexes := by
    rw [Finset.filter_insert, if_neg (by simp)]
    exact Finset.filter_true_of_mem fun i' hi' heq => hfree (.inr (.inl ⟨i', hi', heq⟩))
  rw [Schema.withoutIndex, hindexes]

theorem withoutConstraint_insert {c : NamedConstraint}
    (hnew : ∀ c' ∈ sc.constraints, c'.table = c.table → c'.name ≠ c.name) :
    Schema.withoutConstraint { sc with constraints := insert c sc.constraints } c.table c.name = sc := by
  have hconstraints : (insert c sc.constraints).filter
    (fun c' => ¬ (c'.table = c.table ∧ c'.name = c.name)) =
      sc.constraints := by
    rw [Finset.filter_insert, if_neg (by simp)]
    exact Finset.filter_true_of_mem fun c' hc' heq => hnew c' hc' heq.1 heq.2
  rw [Schema.withoutConstraint, hconstraints]

/-- **What a statement creates can be dropped**, and all is as before. -/
theorem exec_undo (hwf : WellFormed lower db) (hcreates : st.creates = true)
    (h : exec lower db st = some db') :
    exec lower db' st.undo = some db := by
  cases st with
  | createTable t constraints =>
      obtain ⟨hcreatable, heq⟩ := Option.ite_none_right_eq_some.mp h
      cases heq
      have hfree := not_hasTable_of_free hcreatable.free
      have hother : ∀ c ∈ (db.schema.withTable t constraints).constraints, c.table ≠ t.name →
          c.constraint.refersTo ≠ some t.name := by
        intro c hc hne href
        rcases mem_constraints_withTable.mp hc with hc | ⟨htable, -⟩
        · exact hfree (hwf.target hc href)
        · exact hne htable
      apply (if_pos ⟨hasTable_withTable.mpr (.inl rfl), hother⟩).trans
      show some (Database.mk ((db.schema.withTable t constraints).withoutTable t.name)
        (Function.update (Function.update db.rows t.name []) t.name [])) = some db
      rw [withoutTable_withTable hwf hfree, Function.update_idem, ← hwf.rows t.name hfree,
        Function.update_eq_self]
  | createIndex index =>
      obtain ⟨⟨-, hfree, -⟩, heq⟩ := Option.ite_none_right_eq_some.mp h
      cases heq
      have hback := withoutIndex_insert hfree
      apply (if_pos ⟨⟨index, Finset.mem_insert_self _ _, rfl⟩, hback.symm ▸ hwf.resolved⟩).trans
      rw [hback]
  | addConstraint c =>
      obtain ⟨⟨haddable, -⟩, heq⟩ := Option.ite_none_right_eq_some.mp h
      cases heq
      have hback := withoutConstraint_insert haddable.new
      apply (if_pos ⟨⟨c, Finset.mem_insert_self _ _, rfl, rfl⟩, hback.symm ▸ hwf.resolved⟩).trans
      rw [hback]
  | createExtension | dropTable | dropIndex | dropConstraint => cases hcreates

/-- **Creations are undone** in the reverse order: each statement by its own, the last one first. -/
theorem run_undo {sts : List Statement} (hwf : WellFormed lower db)
    (hcreates : ∀ st ∈ sts, st.creates = true)
    (h : run lower db sts = some db') : run lower db' (sts.reverse.map Statement.undo) = some db := by
  induction sts generalizing db with
  | nil =>
      cases h
      rfl
  | cons st sts ih =>
      obtain ⟨db₁, hexec, hrest⟩ := Option.bind_eq_some_iff.mp h
      have hundone := exec_undo hwf (hcreates st List.mem_cons_self) hexec
      have hlater := ih (exec_wellFormed hwf hexec)
        (fun st' hst' => hcreates st' (List.mem_cons_of_mem _ hst')) hrest
      rw [List.reverse_cons, List.map_append, run_append, hlater]
      simp [run, hundone]

/-! ## Dropping

Between `up` and `down` the rows have changed, and the schema has not. So what matters is that `drop`
asks only the schema: where it was possible over some rows it is possible over any. -/

variable {other : Database}

def Statement.drops : Statement → Bool
  | .dropTable _ | .dropIndex _ | .dropConstraint _ _ => true
  | _                                                 => false

/-- A statement that drops asks the schema only, and leaves the rows of the other tables. -/
theorem exec_drops (hdrops : st.drops = true) (hschema : other.schema = db.schema)
    (h : exec lower db st = some db') :
    ∃ other', exec lower other st = some other' ∧ other'.schema = db'.schema ∧
      ∀ table, db'.schema.hasTable table → other'.rows table = other.rows table := by
  cases st with
  | dropTable name =>
      obtain ⟨hcan, heq⟩ := Option.ite_none_right_eq_some.mp h
      cases heq
      rw [← hschema] at hcan ⊢
      exact ⟨_, if_pos hcan, rfl,
        fun table htable => Function.update_of_ne (hasTable_withoutTable.mp htable).2 _ _⟩
  | dropIndex name =>
      obtain ⟨hcan, heq⟩ := Option.ite_none_right_eq_some.mp h
      cases heq
      rw [← hschema] at hcan ⊢
      exact ⟨_, if_pos hcan, rfl, fun _ _ => rfl⟩
  | dropConstraint table name =>
      obtain ⟨hcan, heq⟩ := Option.ite_none_right_eq_some.mp h
      cases heq
      rw [← hschema] at hcan ⊢
      exact ⟨_, if_pos hcan, rfl, fun _ _ => rfl⟩
  | createExtension | createTable | createIndex | addConstraint => cases hdrops

/-- A table left by a statement that drops was there before. -/
theorem hasTable_of_drops (hdrops : st.drops = true) (h : exec lower db st = some db')
    (htable : db'.schema.hasTable table) :
    db.schema.hasTable table := by
  cases st with
  | dropTable name =>
      obtain ⟨-, heq⟩ := Option.ite_none_right_eq_some.mp h
      cases heq
      exact (hasTable_withoutTable.mp htable).1
  | dropIndex | dropConstraint =>
      obtain ⟨-, heq⟩ := Option.ite_none_right_eq_some.mp h
      cases heq
      exact htable
  | createExtension | createTable | createIndex | addConstraint => cases hdrops

theorem hasTable_of_run_drops {sts : List Statement} (hdrops : ∀ st ∈ sts, st.drops = true)
    (h : run lower db sts = some db') (htable : db'.schema.hasTable table) :
      db.schema.hasTable table := by
  induction sts generalizing db with
  | nil =>
      cases h
      exact htable
  | cons st sts ih =>
      obtain ⟨db₁, hexec, hrest⟩ := Option.bind_eq_some_iff.mp h
      exact hasTable_of_drops (hdrops st List.mem_cons_self) hexec
        (ih (fun st' hst' => hdrops st' (List.mem_cons_of_mem _ hst')) hrest)

/-- **Where things were dropped once, they can be dropped with any rows.** -/
theorem run_drops {sts : List Statement} (hdrops : ∀ st ∈ sts, st.drops = true)
    (hschema : other.schema = db.schema)
    (h : run lower db sts = some db') : ∃ other', run lower other sts = some other' ∧
      other'.schema = db'.schema ∧
      ∀ table, db'.schema.hasTable table → other'.rows table = other.rows table := by
  induction sts generalizing db other with
  | nil =>
      cases h
      exact ⟨other, rfl, hschema, fun _ _ => rfl⟩
  | cons st sts ih =>
      obtain ⟨db₁, hexec, hrest⟩ := Option.bind_eq_some_iff.mp h
      have hlater : ∀ st' ∈ sts, st'.drops = true :=
        fun st' hst' => hdrops st' (List.mem_cons_of_mem _ hst')
      obtain ⟨other₁, hexec₁, hschema₁, hrows₁⟩ :=
        exec_drops (hdrops st List.mem_cons_self) hschema hexec
      obtain ⟨other', hrun, hschema', hrows⟩ := ih hlater hschema₁ hrest
      refine ⟨other', ?_, hschema', fun table htable => ?_⟩
      · simp only [run, hexec₁, Option.bind_some, hrun]
      · rw [hrows table htable, hrows₁ table (hasTable_of_run_drops hlater hrest htable)]

/-- What a dropped index leaves. -/
theorem exec_dropIndex (h : exec lower db (.dropIndex name) = some db') :
    db' = ⟨db.schema.withoutIndex name, db.rows⟩ :=
  (Option.some.inj (Option.ite_none_right_eq_some.mp h).2).symm

/-- What a dropped constraint leaves. -/
theorem exec_dropConstraint (h : exec lower db (.dropConstraint table name) = some db') :
    db' = ⟨db.schema.withoutConstraint table name, db.rows⟩ :=
  (Option.some.inj (Option.ite_none_right_eq_some.mp h).2).symm

/-- An index created once can be created over any rows that are as it says. -/
theorem exec_createIndex_of_holds {index : Index} (h : exec lower db (.createIndex index) = some db')
    (hschema : other.schema = db.schema) (hholds : other.indexHolds lower index) :
    exec lower other (.createIndex index) = some ⟨db'.schema, other.rows⟩ := by
  obtain ⟨⟨hcolumns, hfree, -⟩, heq⟩ := Option.ite_none_right_eq_some.mp h
  cases heq
  rw [← hschema] at hcolumns hfree ⊢
  exact if_pos ⟨hcolumns, hfree, hholds⟩

/-! ## What is there after all was created

The lemmas by which a proof about the last statement of a list finds the table the first one created,
without running the list. -/

theorem exec_creates_mono (hcreates : st.creates = true) (h : exec lower db st = some db') :
    db.schema.tables ⊆ db'.schema.tables ∧ db.schema.constraints ⊆ db'.schema.constraints := by
  cases st with
  | createTable t constraints =>
      obtain ⟨-, heq⟩ := Option.ite_none_right_eq_some.mp h
      cases heq
      exact ⟨Finset.subset_insert _ _, Finset.subset_union_left⟩
  | createIndex index =>
      obtain ⟨-, heq⟩ := Option.ite_none_right_eq_some.mp h
      cases heq
      exact ⟨Finset.Subset.refl _, Finset.Subset.refl _⟩
  | addConstraint c =>
      obtain ⟨-, heq⟩ := Option.ite_none_right_eq_some.mp h
      cases heq
      exact ⟨Finset.Subset.refl _, Finset.subset_insert _ _⟩
  | createExtension | dropTable | dropIndex | dropConstraint => cases hcreates

theorem run_creates_mono {sts : List Statement} (hcreates : ∀ st ∈ sts, st.creates = true)
    (h : run lower db sts = some db') :
    db.schema.tables ⊆ db'.schema.tables ∧ db.schema.constraints ⊆ db'.schema.constraints := by
  induction sts generalizing db with
  | nil =>
      cases h
      exact ⟨Finset.Subset.refl _, Finset.Subset.refl _⟩
  | cons st sts ih =>
      obtain ⟨db₁, hexec, hrest⟩ := Option.bind_eq_some_iff.mp h
      obtain ⟨htables, hconstraints⟩ := exec_creates_mono (hcreates st List.mem_cons_self) hexec
      obtain ⟨htables', hconstraints'⟩ :=
        ih (fun st' hst' => hcreates st' (List.mem_cons_of_mem _ hst')) hrest
      exact ⟨htables.trans htables', hconstraints.trans hconstraints'⟩

/-- **A table that was created** is there in the end, with its constraints. -/
theorem run_created {sts : List Statement} {t : TableDef} {constraints : List (String × Constraint)}
    (hcreates : ∀ st ∈ sts, st.creates = true) (ht : .createTable t constraints ∈ sts)
    (h : run lower db sts = some db') :
    t ∈ db'.schema.tables ∧ ∀ c ∈ constraints, ⟨t.name, c.1, c.2⟩ ∈ db'.schema.constraints := by
  induction sts generalizing db with
  | nil => cases ht
  | cons st sts ih =>
      obtain ⟨db₁, hexec, hrest⟩ := Option.bind_eq_some_iff.mp h
      have hlater : ∀ st' ∈ sts, st'.creates = true :=
        fun st' hst' => hcreates st' (List.mem_cons_of_mem _ hst')
      rcases List.mem_cons.mp ht with rfl | hthere
      · obtain ⟨-, heq⟩ := Option.ite_none_right_eq_some.mp hexec
        cases heq
        obtain ⟨htables, hconstraints⟩ := run_creates_mono hlater hrest
        refine ⟨htables (Finset.mem_insert_self _ _), fun c hc => hconstraints ?_⟩
        exact mem_constraints_withTable.mpr (.inr ⟨rfl, hc⟩)
      · exact ih hlater hthere hrest

/-! ## Adding a constraint again

The one way back that depends on the rows: `ADD CONSTRAINT` checks all of them, those that were written
after the constraint had been dropped included. -/

/-- A constraint that was dropped is no part of the schema, and with it the schema is as before. -/
theorem insert_withoutConstraint (hwf : WellFormed lower db) {c : NamedConstraint}
    (hc : c ∈ db.schema.constraints) :
    insert c (db.schema.withoutConstraint c.table c.name).constraints = db.schema.constraints := by
  ext c'
  rw [Finset.mem_insert]
  constructor
  · rintro (rfl | hc')
    · exact hc
    · exact (Finset.mem_filter.mp hc').1
  · intro hc'
    by_cases hsame : c'.table = c.table ∧ c'.name = c.name
    · exact .inl (hwf.names c' hc' c hc hsame.1 hsame.2)
    · exact .inr (Finset.mem_filter.mpr ⟨hc', hsame⟩)

theorem addable_back (hwf : WellFormed lower db) {c : NamedConstraint} (hc : c ∈ db.schema.constraints)
    (href : c.constraint.refersTo = none) : (db.schema.withoutConstraint c.table c.name).Addable c := by
  refine ⟨hwf.columns c hc, fun c' hc' htable hname => ?_, fun hkey => ?_,
    resolves_of_refersTo_none href⟩
  · exact (Finset.mem_filter.mp hc').2 ⟨htable, hname⟩
  · obtain ⟨htables, hindexes, hothers⟩ := hwf.keys c hc hkey
    refine not_taken_iff.mpr ⟨htables, hindexes, fun c' hc' hkey' hname => ?_⟩
    obtain ⟨hold, hne⟩ := Finset.mem_filter.mp hc'
    rw [hothers c' hold hkey' hname] at hne
    exact hne ⟨rfl, rfl⟩

/-- **A constraint that was dropped can be added again** iff the rows are as it says by then. -/
theorem addConstraint_back (hwf : WellFormed lower db) {c : NamedConstraint}
    (hc : c ∈ db.schema.constraints)
    (href : c.constraint.refersTo = none)
    (hschema : other.schema = db.schema.withoutConstraint c.table c.name) :
    exec lower other (.addConstraint c) =
      if other.holds lower c.table c.constraint then some ⟨db.schema, other.rows⟩ else none := by
  have haddable : other.schema.Addable c := hschema ▸ addable_back hwf hc href
  have hback : Schema.mk other.schema.extensions other.schema.tables (insert c other.schema.constraints)
      other.schema.indexes = db.schema := by
    rw [hschema, insert_withoutConstraint hwf hc]
    rfl
  by_cases hholds : other.holds lower c.table c.constraint
  · rw [if_pos hholds]
    apply (if_pos ⟨haddable, hholds⟩).trans
    rw [hback]
  · rw [if_neg hholds]
    exact if_neg fun h => hholds h.2

end Ddl
