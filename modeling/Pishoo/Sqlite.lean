import Pishoo.Result
import Mathlib.Data.List.Basic

namespace Pishoo.Sqlite

variable {V : Type}

/-- A table with its rows in the order of the columns. `none` is `NULL`. -/
structure Table (V : Type) where
  columns : List String
  rows : List (List (Option V))
  width : ∀ r ∈ rows, r.length = columns.length

namespace Table

def blank (columns : List String) : Table V := ⟨columns, [], nofun⟩

/-- `ALTER TABLE … ADD COLUMN` without a default. -/
def addColumn (t : Table V) (column : String) : Table V where
  columns := t.columns ++ [column]
  rows := t.rows.map (· ++ [none])
  width := by
    intro r hr
    obtain ⟨q, hq, rfl⟩ := List.mem_map.mp hr
    simp [t.width q hq]

/-- The rows are the same, up to columns that they have got since. -/
def Extends (t t' : Table V) : Prop := ∃ added : List String, t'.columns = t.columns ++ added ∧
  t'.rows = t.rows.map (· ++ List.replicate added.length none)

theorem Extends.refl (t : Table V) : t.Extends t := ⟨[], by simp, by simp⟩

theorem Extends.trans {t t' t'' : Table V} (h : t.Extends t') (h' : t'.Extends t'') :
    t.Extends t'' := by
  obtain ⟨added, hcolumns, hrows⟩ := h
  obtain ⟨added', hcolumns', hrows'⟩ := h'
  refine ⟨added ++ added', ?_, ?_⟩
  · rw [hcolumns', hcolumns, List.append_assoc]
  · rw [hrows', hrows, List.map_map, List.length_append]
    refine List.map_congr_left fun r _ => ?_
    rw [Function.comp_apply, List.append_assoc, List.replicate_append_replicate]

theorem extends_addColumn (t : Table V) (column : String) : t.Extends (t.addColumn column) :=
  ⟨[column], rfl, rfl⟩

end Table

/-- One database file. `check` is what `PRAGMA quick_check` answers. -/
structure Database (V : Type) where
  version : Int
  tables : List (String × Table V)
  check : String

namespace Database

/-- What SQLite reads from an empty file. -/
def empty : Database V := ⟨0, [], "ok"⟩

def table (d : Database V) (name : String) : Option (Table V) := d.tables.lookup name

/-- `name LIKE 'sqlite_%'`. -/
def systemName (name : String) : Bool :=
  name.toLower.toList.take 6 == "sqlite".toList && decide (6 < name.length)

/-- The file has an object of its own. -/
def occupied (d : Database V) : Bool := d.tables.any (fun e => !systemName e.1)

def setVersion (d : Database V) (version : Int) : Database V := { d with version }

/-- `CREATE TABLE IF NOT EXISTS`. -/
def create (d : Database V) (name : String) (columns : List String) : Database V :=
  if (d.table name).isSome then d else { d with tables := d.tables ++ [(name, .blank columns)] }

def createAll (d : Database V) (tables : List (String × List String)) : Database V :=
  tables.foldl (fun d e => d.create e.1 e.2) d

def alter (d : Database V) (name column : String) : Except String (Database V) :=
  match d.table name with
  | none => .error ("no such table: " ++ name)
  | some t =>
      if column ∈ t.columns then .error ("duplicate column name: " ++ column)
      else .ok { d with tables := d.tables.map (fun e =>
        if e.1 = name then (e.1, e.2.addColumn column) else e) }

def Extends (d d' : Database V) : Prop :=
  ∀ name t, d.table name = some t → ∃ t', d'.table name = some t' ∧ t.Extends t'

section

variable {d d' d'' : Database V} {name other column : String} {columns : List String} {t : Table V}

@[simp] theorem table_setVersion (version : Int) :
    (d.setVersion version).table name = d.table name := rfl

@[simp] theorem version_setVersion (version : Int) : (d.setVersion version).version = version := rfl

theorem create_of_some (h : d.table name = some t) : d.create name columns = d := by
  rw [create, h]
  rfl

@[simp] theorem check_create : (d.create name columns).check = d.check := by
  unfold create
  split <;> rfl

theorem table_create : (d.create name columns).table other =
    (d.table other).or (if other = name then some (.blank columns) else none) := by
  unfold create
  split
  · rename_i h
    obtain ⟨t, ht⟩ := Option.isSome_iff_exists.mp h
    split
    · rename_i he
      rw [he, ht]
      rfl
    · rw [Option.or_none]
  · rw [table, List.lookup_append]
    congr 1
    by_cases he : other = name
    · simp [he]
    · simp [he, List.lookup_cons, beq_false_of_ne he]

theorem table_create_self (h : d.table name = none) :
    (d.create name columns).table name = some (.blank columns) := by
  simp [table_create, h]

theorem table_create_of_some (h : d.table other = some t) :
    (d.create name columns).table other = some t := by
  simp [table_create, h]

theorem Extends.refl (d : Database V) : d.Extends d := fun _ t h => ⟨t, h, .refl t⟩

theorem Extends.trans (h : d.Extends d') (h' : d'.Extends d'') : d.Extends d'' := by
  intro name t ht
  obtain ⟨t', ht', hextends⟩ := h name t ht
  obtain ⟨t'', ht'', hextends'⟩ := h' name t' ht'
  exact ⟨t'', ht'', hextends.trans hextends'⟩

theorem extends_create : d.Extends (d.create name columns) :=
  fun _ t h => ⟨t, table_create_of_some h, .refl t⟩

theorem extends_setVersion (version : Int) : d.Extends (d.setVersion version) :=
  fun _ t h => ⟨t, h, .refl t⟩

section

variable (tables : List (String × List String))

theorem check_createAll : (d.createAll tables).check = d.check := by
  induction tables generalizing d with
  | nil => rfl
  | cons e tables ih => exact ih.trans check_create

theorem table_createAll_of_some (h : d.table other = some t) :
    (d.createAll tables).table other = some t := by
  induction tables generalizing d with
  | nil => exact h
  | cons e tables ih => exact ih (table_create_of_some h)

theorem extends_createAll : d.Extends (d.createAll tables) :=
  fun _ t h => ⟨t, table_createAll_of_some tables h, .refl t⟩

theorem table_createAll_of_mem {tables : List (String × List String)} (h : (name, columns) ∈ tables) :
    ∃ t, (d.createAll tables).table name = some t := by
  induction tables generalizing d with
  | nil => cases h
  | cons e tables ih =>
      obtain rfl | h := List.mem_cons.mp h
      · cases ht : d.table name with
        | none => exact ⟨_, table_createAll_of_some tables (table_create_self ht)⟩
        | some t => exact ⟨t, table_createAll_of_some tables (table_create_of_some ht)⟩
      · exact ih h

end

/-- A column can be added to a table that exists and does not have it. -/
theorem alter_ok : d.alter name column = .ok d' ↔ ∃ t, d.table name = some t ∧
    column ∉ t.columns ∧ d' = { d with tables := d.tables.map (fun e =>
      if e.1 = name then (e.1, e.2.addColumn column) else e) } := by
  unfold alter
  cases d.table name with
  | none => simp
  | some t => by_cases hc : column ∈ t.columns <;> simp [hc, eq_comm]

theorem lookup_alter (tables : List (String × Table V)) :
    (tables.map (fun e => if e.1 = name then (e.1, e.2.addColumn column) else e)).lookup other =
      (tables.lookup other).map (fun t => if other = name then t.addColumn column else t) := by
  induction tables with
  | nil => rfl
  | cons e tables ih =>
      obtain ⟨key, t⟩ := e
      by_cases ho : other = key
      · subst ho
        by_cases hn : other = name <;> simp [hn]
      · have hkey : (if key = name then (key, t.addColumn column) else (key, t)).1 = key := by
          split <;> rfl
        rw [List.map_cons, List.lookup_cons, List.lookup_cons, hkey, beq_false_of_ne ho]
        exact ih

theorem table_alter (h : d.alter name column = .ok d') : d'.table other =
    (d.table other).map (fun t => if other = name then t.addColumn column else t) := by
  obtain ⟨t, -, -, rfl⟩ := alter_ok.mp h
  exact lookup_alter d.tables

theorem extends_alter (h : d.alter name column = .ok d') : d.Extends d' := by
  intro other t ht
  rw [table_alter h, ht]
  refine ⟨_, rfl, ?_⟩
  split
  · exact t.extends_addColumn column
  · exact .refl t

theorem check_alter (h : d.alter name column = .ok d') : d'.check = d.check := by
  obtain ⟨t, -, -, rfl⟩ := alter_ok.mp h
  rfl

end

end Database

end Pishoo.Sqlite
