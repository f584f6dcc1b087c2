import Mathlib.Data.List.Nodup
import Ncro.Foundation.RelyGuarantee
import Ncro.Foundation.Table

/-!
# Tables with named columns

A `Sheet` has a list of rows under columns with names of their own, and a `Catalog` has sheets and
indexes. The statements of `SchemaOp` make sheets, indexes and columns, each of them at once: a new
column has the same value in all rows that are there. What they make stays, and what was there
before keeps its place: `Catalog.Extends`. So a thread may rely on every `Fact` that it has seen to
hold, whatever statements others execute beside it.
-/

namespace Foundation

variable {κ V : Type}

/-- A column, with its value in the rows that are older than it. -/
structure Column (κ V : Type) where
  name : κ
  default : V
  deriving DecidableEq

/-- The rows of a table, each with a value for every column. -/
structure Sheet (κ V : Type) where
  name : κ
  columns : List (Column κ V)
  rows : List (List V)
  nodup : (columns.map Column.name).Nodup
  length_eq : ∀ row ∈ rows, row.length = columns.length

namespace Sheet

/-- The names of the columns. -/
def names (sheet : Sheet κ V) : List κ :=
  sheet.columns.map Column.name

def empty (name : κ) (columns : List (Column κ V)) (nodup : (columns.map Column.name).Nodup) :
    Sheet κ V where
  name := name
  columns := columns
  rows := []
  nodup := nodup
  length_eq := by simp

def addColumn (sheet : Sheet κ V) (column : Column κ V) (h : column.name ∉ sheet.names) :
    Sheet κ V where
  name := sheet.name
  columns := sheet.columns ++ [column]
  rows := sheet.rows.map (· ++ [column.default])
  nodup := by
    rw [List.map_append, List.nodup_append']
    refine ⟨sheet.nodup, List.nodup_singleton _, ?_⟩
    simpa [names] using h
  length_eq row hrow := by
    rcases List.mem_map.1 hrow with ⟨older, holder, rfl⟩
    rw [List.length_append, List.length_append, sheet.length_eq older holder]
    rfl

/-- The value of a row in a column. -/
def cell [DecidableEq κ] (sheet : Sheet κ V) (row : List V) (column : κ) : Option V :=
  (sheet.names.zip row).lookup column

/-- A sheet goes on as another one, with some of the columns that may be added. -/
def Extends (allowed : Column κ V → Prop) (sheet sheet' : Sheet κ V) : Prop :=
  ∃ more, (∀ column ∈ more, allowed column) ∧ sheet'.columns = sheet.columns ++ more ∧
    sheet'.rows = sheet.rows.map (· ++ more.map Column.default)

section

variable {allowed : Column κ V → Prop} {sheet sheet' sheet'' : Sheet κ V}

theorem Extends.refl (sheet : Sheet κ V) : sheet.Extends allowed sheet :=
  ⟨[], by simp, by simp, by simp⟩

theorem Extends.trans (h : sheet.Extends allowed sheet') (h' : sheet'.Extends allowed sheet'') :
    sheet.Extends allowed sheet'' := by
  rcases h with ⟨more, hmore, hcolumns, hrows⟩
  rcases h' with ⟨more', hmore', hcolumns', hrows'⟩
  refine ⟨more ++ more', fun column hcolumn => ?_, ?_, ?_⟩
  · rcases List.mem_append.1 hcolumn with hcolumn | hcolumn
    · exact hmore column hcolumn
    · exact hmore' column hcolumn
  · rw [hcolumns', hcolumns, List.append_assoc]
  · rw [hrows', hrows, List.map_map, List.map_append]
    exact List.map_congr_left fun row _ => List.append_assoc _ _ _

theorem extends_addColumn {column : Column κ V} (h : column.name ∉ sheet.names)
    (hallowed : allowed column) : sheet.Extends allowed (sheet.addColumn column h) :=
  ⟨[column], by simpa using hallowed, rfl, rfl⟩

theorem Extends.names_subset (h : sheet.Extends allowed sheet') : sheet.names ⊆ sheet'.names := by
  rcases h with ⟨more, -, hcolumns, -⟩
  intro column hcolumn
  rw [names, hcolumns, List.map_append]
  exact List.mem_append_left _ hcolumn

variable [DecidableEq κ]

theorem lookup_zip_default (more : List (Column κ V)) (column : κ) :
    ((more.map Column.name).zip (more.map Column.default)).lookup column =
      (more.find? fun c => c.name = column).map Column.default := by
  induction more with
  | nil => rfl
  | cons c more ih =>
      by_cases hname : c.name = column
      · simp [hname]
      · have hne : (column == c.name) = false := by simpa using Ne.symm hname
        simp [hname, List.lookup_cons, hne, ih]

/-- The cells of the rows stay as they are, and in a new column they have its default. -/
theorem Extends.map_cell {β : Type*} (h : sheet.Extends allowed sheet')
    (read : (κ → Option V) → β) :
    ∃ more : List (Column κ V), (∀ column ∈ more, allowed column) ∧
      sheet'.names = sheet.names ++ more.map Column.name ∧
      sheet'.rows.map (fun row => read (sheet'.cell row)) = sheet.rows.map fun row =>
        read fun column => (sheet.cell row column).or
          ((more.find? fun c => c.name = column).map Column.default) := by
  rcases h with ⟨more, hmore, hcolumns, hrows⟩
  refine ⟨more, hmore, by rw [names, hcolumns, List.map_append, names], ?_⟩
  rw [hrows, List.map_map]
  apply List.map_congr_left
  intro row hrow
  have hlength : sheet.names.length = row.length := by
    rw [names, List.length_map, sheet.length_eq row hrow]
  have hcell : sheet'.cell (row ++ more.map Column.default) = fun column =>
      (sheet.cell row column).or ((more.find? fun c => c.name = column).map Column.default) := by
    funext column
    rw [cell, names, hcolumns, List.map_append, ← names, List.zip_append hlength,
      List.lookup_append, lookup_zip_default, ← cell]
  exact congrArg read hcell

/-- The value of a row in a column that is there, or is to be added. -/
def cellOr (sheet : Sheet κ V) (added : List (Column κ V)) (row : List V) (column : κ) : Option V :=
  (sheet.cell row column).or ((added.find? fun c => c.name = column).map Column.default)

theorem isSome_cell {row : List V} (hrow : row ∈ sheet.rows) {column : κ}
    (hcolumn : column ∈ sheet.names) : (sheet.cell row column).isSome = true := by
  have hlength : row.length = sheet.names.length := by
    rw [sheet.length_eq row hrow, names, List.length_map]
  rcases List.mem_iff_getElem.1 hcolumn with ⟨i, hi, rfl⟩
  have hmem : (sheet.names[i], row[i]) ∈ sheet.names.zip row := by
    apply List.mem_iff_getElem.2
    exact ⟨i, by simp [hlength, hi], List.getElem_zip⟩
  cases hcell : sheet.cell row sheet.names[i] with
  | some value => rfl
  | none =>
      have hno := List.lookup_eq_none_iff.1 hcell _ hmem
      simp at hno

/-- When all columns are there, the cells are what they were, or the defaults. -/
theorem Extends.map_cell_of_added {β : Type*} {added : List (Column κ V)}
    (h : sheet.Extends (· ∈ added) sheet') (hadded : (added.map Column.name).Nodup)
    (hall : ∀ column ∈ added, column.name ∈ sheet'.names) (read : (κ → Option V) → β) :
    sheet'.rows.map (fun row => read (sheet'.cell row)) =
      sheet.rows.map fun row => read (sheet.cellOr added row) := by
  rcases h.map_cell read with ⟨more, hmore, hnames, hrows⟩
  rw [hrows]
  refine List.map_congr_left fun row hrow => congrArg read (funext fun column => ?_)
  by_cases hold : column ∈ sheet.names
  · rcases Option.isSome_iff_exists.1 (isSome_cell hrow hold) with ⟨value, hvalue⟩
    rw [cellOr, hvalue]
    rfl
  · have hfind : (more.find? fun c => c.name = column) = added.find? fun c => c.name = column := by
      cases hnew : added.find? fun c => c.name = column with
      | none =>
          apply List.find?_eq_none.2
          exact fun c hc => List.find?_eq_none.1 hnew c (hmore c hc)
      | some c =>
          have hname : c.name = column := by simpa using List.find?_some hnew
          have hmem : column ∈ sheet.names ++ more.map Column.name := by
            rw [← hnames, ← hname]
            exact hall c (List.mem_of_find?_eq_some hnew)
          rcases List.mem_map.1 ((List.mem_append.1 hmem).resolve_left hold) with ⟨c', hc', hname'⟩
          have hsome : (more.find? fun c => c.name = column).isSome = true :=
            List.find?_isSome.2 ⟨c', hc', decide_eq_true hname'⟩
          rcases Option.isSome_iff_exists.1 hsome with ⟨c'', hfound⟩
          have hname'' : c''.name = column := by simpa using List.find?_some hfound
          rw [hfound, List.inj_on_of_nodup_map hadded (hmore c'' (List.mem_of_find?_eq_some hfound))
            (List.mem_of_find?_eq_some hnew) (hname''.trans hname.symm)]
    rw [cellOr, hfind]

end

end Sheet

/-! ## Statements -/

structure Catalog (κ V : Type) [DecidableEq κ] where
  sheets : Table (Sheet.name : Sheet κ V → κ)
  indexes : List κ

inductive SchemaError (κ : Type)
  | noSuchTable (table : κ)
  | noSuchColumn (column : κ)
  | duplicateColumn (column : κ)
  /-- The statement has failed for another reason, without effect. -/
  | failed
  deriving DecidableEq

inductive SchemaOp (κ V : Type)
  /-- `CREATE TABLE IF NOT EXISTS`. -/
  | createTable (name : κ) (columns : List (Column κ V)) (nodup : (columns.map Column.name).Nodup)
  /-- `CREATE INDEX IF NOT EXISTS`. -/
  | createIndex (name table column : κ)
  /-- `PRAGMA table_info`, for the names of the columns. -/
  | tableInfo (table : κ)
  /-- `ALTER TABLE ADD COLUMN`. -/
  | addColumn (table : κ) (column : Column κ V)

abbrev SchemaOp.Result : SchemaOp κ V → Type
  | .tableInfo _ => List κ
  | _ => Unit

abbrev SchemaOp.Reply (op : SchemaOp κ V) : Type := Except (SchemaError κ) op.Result

section

variable [DecidableEq κ]

/-- The effect of a statement that is not hindered. -/
def SchemaOp.exec (db : Catalog κ V) : (op : SchemaOp κ V) → op.Reply × Catalog κ V
  | .createTable name columns nodup =>
      (.ok (), if (db.sheets.get name).isSome then db
        else { db with sheets := db.sheets.upsert (.empty name columns nodup) })
  | .createIndex name table column =>
      if name ∈ db.indexes then (.ok (), db)
      else
        match db.sheets.get table with
        | none => (.error (.noSuchTable table), db)
        | some sheet =>
            if column ∈ sheet.names then (.ok (), { db with indexes := name :: db.indexes })
            else (.error (.noSuchColumn column), db)
  | .tableInfo table => (.ok ((db.sheets.get table).elim [] Sheet.names), db)
  | .addColumn table column =>
      match db.sheets.get table with
      | none => (.error (.noSuchTable table), db)
      | some sheet =>
          if h : column.name ∈ sheet.names then (.error (.duplicateColumn column.name), db)
          else (.ok (), { db with sheets := db.sheets.upsert (sheet.addColumn column h) })

/-- The effect of a statement, which may fail for reasons of its own. -/
def schemaSem (mayFail : Prop) : Process.Semantics (SchemaOp κ V) SchemaOp.Reply (Catalog κ V) :=
  fun op db reply db' =>
    (reply, db') = op.exec db ∨ mayFail ∧ reply = .error .failed ∧ db' = db

/-- Statements that are not hindered come to an end. -/
theorem exists_execution {α : Type} (p : Process (SchemaOp κ V) SchemaOp.Reply α)
    (db : Catalog κ V) : ∃ a db', Process.Execution (schemaSem False) p db a db' := by
  induction p generalizing db with
  | ret a => exact ⟨a, db, .ret a db⟩
  | perform op next ih =>
      rcases ih (op.exec db).1 (op.exec db).2 with ⟨a, db', hexec⟩
      exact ⟨a, db', .perform (.inl rfl) hexec⟩

/-! ## What stays -/

/-- What a statement makes. -/
inductive Fact (κ : Type)
  | table (name : κ)
  | index (name : κ)
  | column (table column : κ)
  deriving DecidableEq

namespace Catalog

def Has (db : Catalog κ V) : Fact κ → Prop
  | .table name => ∃ sheet, db.sheets.get name = some sheet
  | .index name => name ∈ db.indexes
  | .column table column => ∃ sheet, db.sheets.get table = some sheet ∧ column ∈ sheet.names

/-- The sheets have at least the columns that those of their names should have. -/
def Conforms (base : κ → List κ) (db : Catalog κ V) : Prop :=
  ∀ sheet ∈ db.sheets.rows, base sheet.name ⊆ sheet.names

/-- A catalog goes on as another one: its sheets are extended, new ones are empty, and its
indexes are there. -/
structure Extends (allowed : Column κ V → Prop) (db db' : Catalog κ V) : Prop where
  sheets : ∀ name sheet, db.sheets.get name = some sheet →
    ∃ sheet', db'.sheets.get name = some sheet' ∧ sheet.Extends allowed sheet'
  new : ∀ name sheet', db.sheets.get name = none → db'.sheets.get name = some sheet' →
    sheet'.rows = []
  indexes : db.indexes ⊆ db'.indexes

variable {allowed : Column κ V → Prop} {db db' db'' : Catalog κ V}

theorem Extends.refl (db : Catalog κ V) : db.Extends allowed db where
  sheets _ sheet h := ⟨sheet, h, .refl sheet⟩
  new name sheet hnone hget := by
    rw [hnone] at hget
    cases hget
  indexes := List.Subset.refl _

theorem Extends.trans (h : db.Extends allowed db') (h' : db'.Extends allowed db'') :
    db.Extends allowed db'' where
  sheets name sheet hget := by
    rcases h.sheets name sheet hget with ⟨sheet', hget', hextends⟩
    rcases h'.sheets name sheet' hget' with ⟨sheet'', hget'', hextends'⟩
    exact ⟨sheet'', hget'', hextends.trans hextends'⟩
  new name sheet'' hnone hget'' := by
    cases hget' : db'.sheets.get name with
    | none => exact h'.new name sheet'' hget' hget''
    | some sheet' =>
        rcases h'.sheets name sheet' hget' with ⟨sheet, hget, more, -, -, hrows⟩
        rw [hget''] at hget
        cases hget
        rw [hrows, h.new name sheet' hnone hget']
        rfl
  indexes := List.Subset.trans h.indexes h'.indexes

/-- What a catalog has, it has ever after. -/
theorem Extends.has (h : db.Extends allowed db') {fact : Fact κ} (hfact : db.Has fact) :
    db'.Has fact := by
  cases fact with
  | table name =>
      rcases hfact with ⟨sheet, hget⟩
      rcases h.sheets name sheet hget with ⟨sheet', hget', -⟩
      exact ⟨sheet', hget'⟩
  | index name => exact h.indexes hfact
  | column table column =>
      rcases hfact with ⟨sheet, hget, hcolumn⟩
      rcases h.sheets table sheet hget with ⟨sheet', hget', hextends⟩
      exact ⟨sheet', hget', hextends.names_subset hcolumn⟩

theorem extends_createTable {name : κ} {columns : List (Column κ V)}
    {nodup : (columns.map Column.name).Nodup} (hnone : ¬(db.sheets.get name).isSome = true) :
    db.Extends allowed { db with sheets := db.sheets.upsert (.empty name columns nodup) } where
  sheets name' sheet hget := by
    refine ⟨sheet, ?_, .refl sheet⟩
    rw [Table.get_upsert_of_ne, hget]
    rintro rfl
    exact hnone (Option.isSome_iff_exists.2 ⟨sheet, hget⟩)
  new name' sheet' hnone' hget' := by
    by_cases hname : name' = name
    · rw [hname, show (db.sheets.upsert (.empty name columns nodup)).get name = _ from
        Table.get_upsert_self _ _] at hget'
      cases hget'
      rfl
    · rw [show (db.sheets.upsert (.empty name columns nodup)).get name' = _ from
        Table.get_upsert_of_ne hname, hnone'] at hget'
      cases hget'
  indexes := List.Subset.refl _

theorem extends_createIndex (name : κ) :
    db.Extends allowed { db with indexes := name :: db.indexes } :=
  ⟨(Extends.refl db).sheets, (@Extends.refl _ _ _ allowed db).new,
    List.subset_cons_self _ _⟩

theorem extends_addColumn {table : κ} {column : Column κ V} {sheet : Sheet κ V}
    (hget : db.sheets.get table = some sheet) (hnew : column.name ∉ sheet.names)
    (hallowed : allowed column) :
    db.Extends allowed { db with sheets := db.sheets.upsert (sheet.addColumn column hnew) } where
  sheets name sheet' hget' := by
    by_cases hname : name = sheet.name
    · have htable : sheet.name = table := Table.key_of_get hget
      rw [hname, htable, hget] at hget'
      cases hget'
      exact ⟨_, hname ▸ Table.get_upsert_self db.sheets (sheet.addColumn column hnew),
        Sheet.extends_addColumn hnew hallowed⟩
    · have hother : (db.sheets.upsert (sheet.addColumn column hnew)).get name =
          db.sheets.get name := Table.get_upsert_of_ne hname
      exact ⟨sheet', hother.trans hget', .refl sheet'⟩
  new name sheet' hnone hget' := by
    have hother : (db.sheets.upsert (sheet.addColumn column hnew)).get name =
        db.sheets.get name := by
      apply Table.get_upsert_of_ne
      rintro rfl
      have htable : sheet.name = table := Table.key_of_get hget
      rw [show (sheet.addColumn column hnew).name = table from htable, hget] at hnone
      cases hnone
    rw [hother, hnone] at hget'
    cases hget'
  indexes := List.Subset.refl _

end Catalog

/-! ## Effects -/

/-- What a statement makes, if anything. -/
def SchemaOp.fact : SchemaOp κ V → Option (Fact κ)
  | .createTable name _ _ => some (.table name)
  | .createIndex name _ _ => some (.index name)
  | .tableInfo _ => none
  | .addColumn table column => some (.column table column.name)

/-- The columns that a statement adds are among the allowed ones. -/
def SchemaOp.Adds (allowed : Column κ V → Prop) : SchemaOp κ V → Prop
  | .addColumn _ column => allowed column
  | _ => True

/-- A table that a statement makes has the columns that it should have. -/
def SchemaOp.Makes (base : κ → List κ) : SchemaOp κ V → Prop
  | .createTable name columns _ => base name ⊆ columns.map Column.name
  | _ => True

section

variable {mayFail : Prop} {allowed : Column κ V → Prop} {base : κ → List κ}
  {db db' : Catalog κ V} {op : SchemaOp κ V} {reply : op.Reply}

/-- Each statement extends the catalog, and keeps it conforming. -/
theorem schemaSem_extends (hadds : op.Adds allowed) (hmakes : op.Makes base)
    (hconforms : db.Conforms base) (h : schemaSem mayFail op db reply db') :
    db.Extends allowed db' ∧ db'.Conforms base := by
  have hsame : db.Extends allowed db ∧ db.Conforms base := ⟨.refl db, hconforms⟩
  rcases h with h | ⟨-, -, rfl⟩
  · cases op with
    | createTable name columns nodup =>
        rcases Prod.mk.inj h with ⟨-, rfl⟩
        split
        · exact hsame
        · next hnone =>
          refine ⟨Catalog.extends_createTable hnone, fun sheet hsheet => ?_⟩
          rcases Table.mem_of_mem_upsert hsheet with rfl | hsheet
          · exact hmakes
          · exact hconforms sheet hsheet
    | createIndex name table column =>
        simp only [SchemaOp.exec] at h
        split at h
        · rcases Prod.mk.inj h with ⟨-, rfl⟩
          exact hsame
        · split at h
          · rcases Prod.mk.inj h with ⟨-, rfl⟩
            exact hsame
          · split at h
            · rcases Prod.mk.inj h with ⟨-, rfl⟩
              exact ⟨Catalog.extends_createIndex name, hconforms⟩
            · rcases Prod.mk.inj h with ⟨-, rfl⟩
              exact hsame
    | tableInfo table =>
        rcases Prod.mk.inj h with ⟨-, rfl⟩
        exact hsame
    | addColumn table column =>
        simp only [SchemaOp.exec] at h
        split at h
        · rcases Prod.mk.inj h with ⟨-, rfl⟩
          exact hsame
        · next sheet hget =>
          split at h
          · rcases Prod.mk.inj h with ⟨-, rfl⟩
            exact hsame
          · next hnew =>
            rcases Prod.mk.inj h with ⟨-, rfl⟩
            refine ⟨Catalog.extends_addColumn hget hnew hadds, fun sheet' hsheet' => ?_⟩
            rcases Table.mem_of_mem_upsert hsheet' with rfl | hsheet'
            · have hextends : sheet.Extends allowed (sheet.addColumn column hnew) :=
                Sheet.extends_addColumn hnew hadds
              exact List.Subset.trans (hconforms sheet (Table.mem_of_get hget)) hextends.names_subset
            · exact hconforms sheet' hsheet'
  · exact hsame

/-- A statement changes nothing when there is what it makes. -/
theorem eq_of_schemaSem_of_has (hfact : ∀ fact, op.fact = some fact → db.Has fact)
    (h : schemaSem mayFail op db reply db') : db' = db := by
  rcases h with h | ⟨-, -, rfl⟩
  · cases op with
    | createTable name columns nodup =>
        rcases hfact _ rfl with ⟨sheet, hget⟩
        rcases Prod.mk.inj h with ⟨-, rfl⟩
        rw [hget]
        rfl
    | createIndex name table column =>
        have hmem : name ∈ db.indexes := hfact _ rfl
        rw [SchemaOp.exec, if_pos hmem] at h
        exact (Prod.mk.inj h).2
    | tableInfo table => exact (Prod.mk.inj h).2
    | addColumn table column =>
        rcases hfact _ rfl with ⟨sheet, hget, hmem⟩
        simp only [SchemaOp.exec, hget, dif_pos hmem] at h
        exact (Prod.mk.inj h).2
  · rfl

end

/-! ## Rules -/

namespace Catalog

def HasAll (facts : List (Fact κ)) (db : Catalog κ V) : Prop :=
  ∀ fact ∈ facts, db.Has fact

/-- What a statement makes of a catalog: it goes on, and stays as it is if it has everything. -/
structure Grows (allowed : Column κ V → Prop) (current : List (Fact κ)) (db db' : Catalog κ V) :
    Prop where
  extends' : db.Extends allowed db'
  eq : db.HasAll current → db' = db

theorem Grows.refl {allowed : Column κ V → Prop} {current : List (Fact κ)} (db : Catalog κ V) :
    db.Grows allowed current db :=
  ⟨.refl db, fun _ => rfl⟩

theorem Grows.trans {allowed : Column κ V → Prop} {current : List (Fact κ)}
    {db db' db'' : Catalog κ V} (h : db.Grows allowed current db')
    (h' : db'.Grows allowed current db'') : db.Grows allowed current db'' where
  extends' := h.extends'.trans h'.extends'
  eq hall := by
    have heq := h.eq hall
    rw [h'.eq (heq ▸ hall), heq]

end Catalog

/-- Others execute statements, unless there are none. -/
def schemaContract (allowed : Column κ V → Prop) (current : List (Fact κ)) (alone : Prop) :
    Contract (Catalog κ V) where
  rely db db' := db.Grows allowed current db' ∧ (alone → db' = db)
  guar := Catalog.Grows allowed current
  rely_refl db := ⟨.refl db, fun _ => rfl⟩
  rely_trans h h' := ⟨h.1.trans h'.1, fun halone => (h'.2 halone).trans (h.2 halone)⟩

/-- Why statements fail: for a reason of their own, or, beside others, on a column that they have
added meanwhile. -/
def Hindered (mayFail alone : Prop) : SchemaError κ → Catalog κ V → Prop
  | .failed, _ => mayFail
  | .duplicateColumn column, db => ¬alone ∧ ∃ table, db.Has (.column table column)
  | _, _ => False

/-- The execution of one statement. -/
def executeStatement (op : SchemaOp κ V) :
    ExceptT (SchemaError κ) (Process (SchemaOp κ V) SchemaOp.Reply) op.Result :=
  ExceptT.mk (Process.call op)

section

variable {mayFail alone : Prop} {allowed : Column κ V → Prop} {base : κ → List κ}
  {current facts : List (Fact κ)} {name table column : κ}

theorem stable_hasAll : (schemaContract allowed current alone).Stable
    (Catalog.Conforms base) (Catalog.HasAll facts) :=
  fun _ _ _ _ hrely hall fact hfact => hrely.1.extends'.has (hall fact hfact)

theorem stable_hindered (error : SchemaError κ) :
    (schemaContract allowed current alone).Stable (Catalog.Conforms base)
      (Hindered mayFail alone error) := by
  intro db db' _ _ hrely h
  cases error with
  | duplicateColumn column =>
      rcases h with ⟨halone, table, hhas⟩
      exact ⟨halone, table, hrely.1.extends'.has hhas⟩
  | _ => exact h

/-- The rule for a statement: it suffices to know its reply where it is not hindered. -/
theorem triple_executeStatement {op : SchemaOp κ V} {P : Catalog κ V → Prop}
    {Q : op.Result → Catalog κ V → Prop} (hadds : op.Adds allowed) (hmakes : op.Makes base)
    (hcurrent : ∀ fact, op.fact = some fact → fact ∈ current)
    (hP : (schemaContract allowed current alone).Stable (Catalog.Conforms base) P)
    (hQ : ∀ a, (schemaContract allowed current alone).Stable (Catalog.Conforms base) (Q a))
    (hexec : ∀ db reply db', db.Conforms base → P db → (reply, db') = op.exec db →
      Outcome Q (Hindered mayFail alone) reply db') :
    Triple (schemaSem mayFail) (Catalog.Conforms base) (schemaContract allowed current alone) P
      (executeStatement op).run (Outcome Q (Hindered mayFail alone)) := by
  intro db hconforms hpre db₁ hconforms₁ hrely reply db₂ hsem
  have hpre₁ := hP hconforms hconforms₁ hrely hpre
  rcases schemaSem_extends hadds hmakes hconforms₁ hsem with ⟨hextends, hconforms₂⟩
  refine ⟨hconforms₂, ⟨hextends, fun hall => ?_⟩, fun db₃ hconforms₃ hrely₃ => ?_⟩
  · exact eq_of_schemaSem_of_has (fun fact hfact => hall fact (hcurrent fact hfact)) hsem
  · have hpost : Outcome Q (Hindered mayFail alone) reply db₂ := by
      rcases hsem with hsem | ⟨hmay, rfl, rfl⟩
      · exact hexec db₁ reply db₂ hconforms₁ hpre₁ hsem
      · exact hmay
    cases reply with
    | ok a => exact hQ a hconforms₂ hconforms₃ hrely₃ hpost
    | error error => exact stable_hindered error hconforms₂ hconforms₃ hrely₃ hpost

theorem hasAll_cons {fact : Fact κ} {db : Catalog κ V} (hfact : db.Has fact)
    (hall : db.HasAll facts) : db.HasAll (fact :: facts) := by
  intro fact' hmem
  rcases List.mem_cons.1 hmem with rfl | hmem
  · exact hfact
  · exact hall fact' hmem

theorem triple_createTable {columns : List (Column κ V)}
    {nodup : (columns.map Column.name).Nodup} (hmakes : base name ⊆ columns.map Column.name)
    (hcurrent : .table name ∈ current) :
    Triple (schemaSem mayFail) (Catalog.Conforms base) (schemaContract allowed current alone)
      (Catalog.HasAll facts) (executeStatement (.createTable name columns nodup)).run
      (Outcome (fun _ => Catalog.HasAll (.table name :: facts)) (Hindered mayFail alone)) := by
  refine triple_executeStatement (by trivial) hmakes ?_ stable_hasAll (fun _ => stable_hasAll) ?_
  · intro fact hfact
    cases hfact
    exact hcurrent
  · intro db reply db' _ hall hexec
    rcases Prod.mk.inj hexec with ⟨rfl, rfl⟩
    split
    · next hsome =>
      exact hasAll_cons (Option.isSome_iff_exists.1 hsome) hall
    · next hnone =>
      have hextends : db.Extends allowed
          { db with sheets := db.sheets.upsert (.empty name columns nodup) } :=
        Catalog.extends_createTable hnone
      exact hasAll_cons (Exists.intro _ (Table.get_upsert_self _ _))
        fun fact hfact => hextends.has (hall fact hfact)

theorem triple_createIndex (htable : .table table ∈ facts) (hcolumn : column ∈ base table)
    (hcurrent : .index name ∈ current) :
    Triple (schemaSem mayFail) (Catalog.Conforms base)
      (schemaContract allowed current alone) (Catalog.HasAll facts)
      (executeStatement (.createIndex name table column)).run
      (Outcome (fun _ => Catalog.HasAll (.index name :: facts)) (Hindered mayFail alone)) := by
  refine triple_executeStatement (by trivial) (by trivial) ?_ stable_hasAll
    (fun _ => stable_hasAll) ?_
  · intro fact hfact
    cases hfact
    exact hcurrent
  · intro db reply db' hconforms hall hexec
    rcases hall _ htable with ⟨sheet, hget⟩
    have hmem : column ∈ sheet.names := by
      apply hconforms sheet (Table.mem_of_get hget)
      rwa [Table.key_of_get hget]
    simp only [SchemaOp.exec, hget, if_pos hmem] at hexec
    split at hexec
    · next hindex =>
      rcases Prod.mk.inj hexec with ⟨rfl, rfl⟩
      exact hasAll_cons hindex hall
    · rcases Prod.mk.inj hexec with ⟨rfl, rfl⟩
      apply hasAll_cons List.mem_cons_self
      intro fact hfact
      have hextends : db.Extends allowed { db with indexes := name :: db.indexes } :=
        Catalog.extends_createIndex name
      exact hextends.has (hall fact hfact)

end

end

end Foundation
