import Ncro.Db
import Ncro.Foundation.Relational

/-!
# The schema of the database

`migrate` makes the tables and indexes that are missing, and adds the columns that older versions
did not have. It is not a transaction: each statement takes effect by itself, the program may be
stopped between any two of them, and several instances may open the same file. A column is added
after a look at whether it is there, so an instance may find it added meanwhile and fail. But what
a statement makes stays, so `migrate` can be started again at any time.
-/

namespace Ncro

open Foundation Foundation.Process

inductive SqlValue
  | null
  | integer (n : ℤ)
  | real (x : Double)
  | text (s : Str)
  | blob (bytes : Octets)
  deriving DecidableEq

abbrev SqlColumn := Column Str SqlValue

abbrev SqlCatalog := Catalog Str SqlValue

abbrev MigrateM := ExceptT (SchemaError Str) (Process (SchemaOp Str SqlValue) SchemaOp.Reply)

/-! ## The program -/

/-- The columns of the statement that makes the table `routes`. -/
def routesColumns : List SqlColumn :=
  [⟨"store_path".toList, .null⟩, ⟨"upstream_url".toList, .null⟩,
    ⟨"latency_ms".toList, .real (.fin 0)⟩, ⟨"latency_ema".toList, .real (.fin 0)⟩,
    ⟨"query_count".toList, .integer 1⟩, ⟨"failure_count".toList, .integer 0⟩,
    ⟨"last_verified".toList, .integer 0⟩, ⟨"ttl".toList, .null⟩, ⟨"nar_hash".toList, .text []⟩,
    ⟨"nar_size".toList, .integer 0⟩, ⟨"nar_url".toList, .text []⟩, ⟨"created_at".toList, .null⟩]

def upstreamHealthColumns : List SqlColumn :=
  [⟨"url".toList, .null⟩, ⟨"ema_latency".toList, .real (.fin 0)⟩,
    ⟨"consecutive_fails".toList, .integer 0⟩, ⟨"total_queries".toList, .integer 0⟩]

def negativeCacheColumns : List SqlColumn :=
  [⟨"store_path".toList, .null⟩, ⟨"expires_at".toList, .null⟩]

/-- `BLOB`. -/
def narinfoBytesColumn : SqlColumn := ⟨"narinfo_bytes".toList, .null⟩

/-- `TEXT NOT NULL DEFAULT ''`. -/
def upstreamNarUrlColumn : SqlColumn := ⟨"upstream_nar_url".toList, .text []⟩

def addColumnIfMissing (table : Str) (column : SqlColumn) : MigrateM Unit := do
  let names ← executeStatement (.tableInfo table)
  if names.contains column.name then return
  executeStatement (.addColumn table column)

def migrate : MigrateM Unit := do
  executeStatement (.createTable "routes".toList routesColumns (by decide))
  executeStatement (.createIndex "idx_routes_ttl".toList "routes".toList "ttl".toList)
  executeStatement
    (.createIndex "idx_routes_last_verified".toList "routes".toList "last_verified".toList)
  executeStatement (.createIndex "idx_routes_nar_url".toList "routes".toList "nar_url".toList)
  executeStatement (.createTable "upstream_health".toList upstreamHealthColumns (by decide))
  executeStatement (.createTable "negative_cache".toList negativeCacheColumns (by decide))
  executeStatement
    (.createIndex "idx_negative_expires".toList "negative_cache".toList "expires_at".toList)
  addColumnIfMissing "routes".toList narinfoBytesColumn
  addColumnIfMissing "routes".toList upstreamNarUrlColumn

/-! ## The schema -/

/-- The columns of a table in every version. -/
def baseColumns (table : Str) : List Str :=
  if table = "routes".toList then routesColumns.map Column.name
  else if table = "upstream_health".toList then upstreamHealthColumns.map Column.name
  else if table = "negative_cache".toList then negativeCacheColumns.map Column.name
  else []

/-- The columns that a version has added. -/
def addedColumns : List SqlColumn :=
  [narinfoBytesColumn, upstreamNarUrlColumn]

/-- What the database of this version has. -/
def currentSchema : List (Fact Str) :=
  [.column "routes".toList upstreamNarUrlColumn.name,
    .column "routes".toList narinfoBytesColumn.name, .index "idx_negative_expires".toList,
    .table "negative_cache".toList, .table "upstream_health".toList,
    .index "idx_routes_nar_url".toList, .index "idx_routes_last_verified".toList,
    .index "idx_routes_ttl".toList, .table "routes".toList]

/-- A database of some version: the tables that it has are those of the program. -/
abbrev SqlCatalog.OfSomeVersion (db : SqlCatalog) : Prop :=
  db.Conforms baseColumns

/-- What `migrate` makes of a database. No row is lost, and no cell is changed. -/
abbrev SqlCatalog.MigratesTo (db db' : SqlCatalog) : Prop :=
  db.Grows (· ∈ addedColumns) currentSchema db'

/-! ## Verification -/

/-- Instances that migrate, beside others or alone. -/
abbrev migrateContract (alone : Prop) : Contract SqlCatalog :=
  schemaContract (· ∈ addedColumns) currentSchema alone

section

variable {mayFail alone : Prop} {facts : List (Fact Str)}

theorem triple_addColumnIfMissing {column : SqlColumn} (hadded : column ∈ addedColumns)
    (htable : .table "routes".toList ∈ facts)
    (hcurrent : .column "routes".toList column.name ∈ currentSchema) :
    Triple (schemaSem mayFail) (Catalog.Conforms baseColumns) (migrateContract alone)
      (Catalog.HasAll facts) (addColumnIfMissing "routes".toList column).run
      (Outcome (fun _ => Catalog.HasAll (.column "routes".toList column.name :: facts))
        (Hindered mayFail alone)) := by
  -- what the look at the columns has shown
  let Seen (names : List Str) (db : SqlCatalog) : Prop := db.HasAll facts ∧
    (column.name ∈ names → db.Has (.column "routes".toList column.name)) ∧
    (alone → column.name ∉ names → ¬db.Has (.column "routes".toList column.name))
  have hseen : ∀ names, (migrateContract alone).Stable (Catalog.Conforms baseColumns)
      (Seen names) := by
    rintro names db db' _ _ hrely ⟨hall, hthere, hmissing⟩
    refine ⟨fun fact hfact => hrely.1.extends'.has (hall fact hfact),
      fun hmem => hrely.1.extends'.has (hthere hmem), fun halone hnot => ?_⟩
    rw [hrely.2 halone]
    exact hmissing halone hnot
  apply triple_exceptT_bind (M := Seen) stable_hindered
  · refine triple_executeStatement (by trivial) (by trivial) (fun fact hfact => by cases hfact)
      stable_hasAll hseen ?_
    intro db reply db' _ hall hexec
    rcases Prod.mk.inj hexec with ⟨rfl, rfl⟩
    rcases hall _ htable with ⟨sheet, hget⟩
    rw [hget]
    refine ⟨hall, fun hmem => ⟨sheet, hget, hmem⟩, ?_⟩
    rintro - hnot ⟨sheet', hget', hmem⟩
    rw [hget] at hget'
    cases hget'
    exact hnot hmem
  · intro names
    split
    · next hcontains =>
      have hmem := List.contains_iff_mem.1 hcontains
      exact triple_ret stable_hasAll fun db _ h => hasAll_cons (h.2.1 hmem) h.1
    · next hcontains =>
      have hnot := mt List.contains_iff_mem.2 hcontains
      refine triple_executeStatement hadded (by trivial) ?_ (hseen names)
        (fun _ => stable_hasAll) ?_
      · intro fact hfact
        cases hfact
        exact hcurrent
      · rintro db reply db' _ ⟨hall, -, hmissing⟩ hexec
        rcases hall _ htable with ⟨sheet, hget⟩
        simp only [SchemaOp.exec, hget] at hexec
        split at hexec
        · next hduplicate =>
          rcases Prod.mk.inj hexec with ⟨rfl, hsame⟩
          rw [hsame]
          have hhas : db.Has (.column "routes".toList column.name) := ⟨sheet, hget, hduplicate⟩
          exact ⟨fun halone => hmissing halone hnot hhas, _, hhas⟩
        · next hnew =>
          rcases Prod.mk.inj hexec with ⟨rfl, rfl⟩
          have hname : sheet.name = "routes".toList := Table.key_of_get hget
          have hextends : db.Extends (· ∈ addedColumns)
              { db with sheets := db.sheets.upsert (sheet.addColumn column hnew) } :=
            Catalog.extends_addColumn hget hnew hadded
          refine hasAll_cons ⟨sheet.addColumn column hnew, ?_, ?_⟩
            fun fact hfact => hextends.has (hall fact hfact)
          · rw [← hname]
            exact Table.get_upsert_self _ _
          · simp [Sheet.names, Sheet.addColumn]

theorem triple_migrate :
    Triple (schemaSem mayFail) (Catalog.Conforms baseColumns) (migrateContract alone)
      (fun _ => True) migrate.run
      (Outcome (fun _ => Catalog.HasAll currentSchema) (Hindered mayFail alone)) := by
  have hstart : Triple (schemaSem mayFail) (Catalog.Conforms baseColumns) (migrateContract alone)
      (Catalog.HasAll []) migrate.run
      (Outcome (fun _ => Catalog.HasAll currentSchema) (Hindered mayFail alone)) := by
    apply triple_exceptT_bind stable_hindered (triple_createTable (by decide) (by decide))
    intro _
    apply triple_exceptT_bind stable_hindered
      (triple_createIndex (by decide) (by decide) (by decide))
    intro _
    apply triple_exceptT_bind stable_hindered
      (triple_createIndex (by decide) (by decide) (by decide))
    intro _
    apply triple_exceptT_bind stable_hindered
      (triple_createIndex (by decide) (by decide) (by decide))
    intro _
    apply triple_exceptT_bind stable_hindered (triple_createTable (by decide) (by decide))
    intro _
    apply triple_exceptT_bind stable_hindered (triple_createTable (by decide) (by decide))
    intro _
    apply triple_exceptT_bind stable_hindered
      (triple_createIndex (by decide) (by decide) (by decide))
    intro _
    apply triple_exceptT_bind stable_hindered
      (triple_addColumnIfMissing (by decide) (by decide) (by decide))
    intro _
    exact triple_addColumnIfMissing (by decide) (by decide) (by decide)
  exact hstart.weaken fun db _ _ => by simp [Catalog.HasAll]

end

/-! ## Instances that open one database -/

/-- Instances that migrate a database, each of them at its own pace. -/
def opening (ι : Type) (db : SqlCatalog) :
    Threads ι (SchemaOp Str SqlValue) SchemaOp.Reply (Except (SchemaError Str) Unit) SqlCatalog where
  shared := db
  threads _ := some migrate.run

section

variable {ι : Type} [DecidableEq ι] {db₀ : SqlCatalog}
  {t : Threads ι (SchemaOp Str SqlValue) SchemaOp.Reply (Except (SchemaError Str) Unit) SqlCatalog}

omit [DecidableEq ι] in
theorem compatible_migrateContract :
    Threads.Compatible (Catalog.Conforms baseColumns) (fun _ : ι => migrateContract False)
      fun _ _ => False where
  rely_of_guar _ _ _ _ _ _ _ hguar := ⟨hguar, False.elim⟩
  inv_of_env _ _ _ henv := henv.elim
  rely_of_env _ _ _ _ henv := henv.elim

omit [DecidableEq ι] in
theorem good_opening (holder : db₀.OfSomeVersion) :
    Threads.Good (fun _ : ι => schemaSem True) (Catalog.Conforms baseColumns)
      (fun _ => migrateContract False)
      (fun _ => Outcome (fun _ => Catalog.HasAll currentSchema) (Hindered True False))
      (opening ι db₀) := by
  apply Threads.good_of_triple (P := fun _ => True) holder trivial
  intro i p hi
  cases hi
  exact triple_migrate

theorem good_of_opening (holder : db₀.OfSomeVersion)
    (h : Threads.Reachable (fun _ : ι => schemaSem True) (fun _ _ => False) (opening ι db₀) t) :
    Threads.Good (fun _ : ι => schemaSem True) (Catalog.Conforms baseColumns)
      (fun _ => migrateContract False)
      (fun _ => Outcome (fun _ => Catalog.HasAll currentSchema) (Hindered True False)) t :=
  Threads.good_of_reachable compatible_migrateContract h (good_opening holder)

theorem migratesTo_of_opening (holder : db₀.OfSomeVersion)
    (h : Threads.Reachable (fun _ : ι => schemaSem True) (fun _ _ => False) (opening ι db₀) t) :
    db₀.MigratesTo t.shared :=
  Threads.related_of_reachable compatible_migrateContract Catalog.Grows.refl
    (fun _ _ _ => Catalog.Grows.trans) (fun _ _ _ _ _ hguar => hguar)
    (fun _ _ _ henv => henv.elim) h (good_opening holder)

/-- What an instance does that is alone and that nothing hinders. -/
theorem migrate_alone {db db' : SqlCatalog} {result : Except (SchemaError Str) Unit}
    (holder : db.OfSomeVersion) (hexec : Execution (schemaSem False) migrate.run db result db') :
    result = .ok () ∧ db'.HasAll currentSchema ∧ db.MigratesTo db' := by
  have hspec : Triple (schemaSem False) (Catalog.Conforms baseColumns) (migrateContract True)
      (fun _ => True) migrate.run
      (Outcome (fun _ => Catalog.HasAll currentSchema) (Hindered False True)) := triple_migrate
  have hmigrates := hspec db holder trivial
  rcases hmigrates.execution holder hexec with ⟨hpost, hsteps⟩
  have hgrows : db.MigratesTo db' := by
    clear hpost hexec
    induction hsteps with
    | refl => exact .refl db
    | tail _ hstep ih => exact ih.trans hstep
  cases result with
  | ok _ => exact ⟨rfl, hpost, hgrows⟩
  | error error =>
      cases error with
      | duplicateColumn column => exact absurd trivial hpost.1
      | _ => exact hpost.elim

end

/-! ## Routes -/

namespace SqlValue

def asText : SqlValue → Option Str
  | .text s => some s
  | _ => none

def asInteger : SqlValue → Option ℤ
  | .integer n => some n
  | _ => none

def asReal : SqlValue → Option Double
  | .real x => some x
  | _ => none

/-- A column that may be null. -/
def asBlob : SqlValue → Option (Option Octets)
  | .null => some none
  | .blob bytes => some (some bytes)
  | _ => none

end SqlValue

/-- The columns that `row_to_route` reads. -/
def routeRow (get : Str → Option SqlValue) : Option RouteRow := do
  let storePath ← (get "store_path".toList).bind SqlValue.asText
  let upstreamUrl ← (get "upstream_url".toList).bind SqlValue.asText
  let latencyMs ← (get "latency_ms".toList).bind SqlValue.asReal
  let latencyEma ← (get "latency_ema".toList).bind SqlValue.asReal
  let queryCount ← (get "query_count".toList).bind SqlValue.asInteger
  let failureCount ← (get "failure_count".toList).bind SqlValue.asInteger
  let lastVerified ← (get "last_verified".toList).bind SqlValue.asInteger
  let ttl ← (get "ttl".toList).bind SqlValue.asInteger
  let narHash ← (get "nar_hash".toList).bind SqlValue.asText
  let narSize ← (get "nar_size".toList).bind SqlValue.asInteger
  let narUrl ← (get "nar_url".toList).bind SqlValue.asText
  let upstreamNarUrl ← (get upstreamNarUrlColumn.name).bind SqlValue.asText
  let narinfoBytes ← (get narinfoBytesColumn.name).bind SqlValue.asBlob
  return {
    storePath, upstreamUrl, latencyMs, latencyEma, queryCount, failureCount, lastVerified, ttl,
    narHash, narSize, narUrl, upstreamNarUrl, narinfoBytes }

/-- The rows of the table `routes`, as they are read. -/
def readRoutes (db : SqlCatalog) : List (Option RouteRow) :=
  (db.sheets.get "routes".toList).elim [] fun sheet =>
    sheet.rows.map fun row => routeRow (sheet.cell row)

/-- The rows of the table `routes`, read with the defaults for the columns that are not there. -/
def readOldRoutes (db : SqlCatalog) : List (Option RouteRow) :=
  (db.sheets.get "routes".toList).elim [] fun sheet =>
    sheet.rows.map fun row => routeRow (sheet.cellOr addedColumns row)

theorem readRoutes_of_migratesTo {db db' : SqlCatalog} (h : db.MigratesTo db')
    (hcurrent : db'.HasAll currentSchema) : readRoutes db' = readOldRoutes db := by
  rcases hcurrent (.table "routes".toList) (by decide) with ⟨sheet', hget'⟩
  cases hget : db.sheets.get "routes".toList with
  | none =>
      rw [readRoutes, readOldRoutes, hget, hget']
      have hrows : sheet'.rows = [] := h.extends'.new _ _ hget hget'
      simp [hrows]
  | some sheet =>
      rcases h.extends'.sheets _ _ hget with ⟨sheet₁, hget₁, hextends⟩
      rw [hget'] at hget₁
      cases hget₁
      rw [readRoutes, readOldRoutes, hget, hget']
      refine hextends.map_cell_of_added (by decide) (fun column hcolumn => ?_) routeRow
      have hhas : ∀ fact, fact ∈ currentSchema → db'.Has fact := hcurrent
      have hfact : Fact.column "routes".toList column.name ∈ currentSchema := by
        rcases List.mem_cons.1 hcolumn with rfl | hcolumn
        · decide
        · obtain rfl := List.mem_singleton.1 hcolumn
          decide
      rcases hhas _ hfact with ⟨sheet₂, hget₂, hmem⟩
      rw [hget'] at hget₂
      cases hget₂
      exact hmem

/-! ## Conclusion -/

/-- A database of some version survives its migration. Let any number of instances open it, let
their statements interleave and fail, and let any of them crash anywhere. Then what has been in
the database is there, and nothing changes once it is current. An instance that succeeds finds
the schema of this version, and reads each route as it was, with the defaults in the columns that
it did not have. One that fails was hindered, and at any time the next one that is not hindered
succeeds. -/
theorem migrate_survives {ι : Type} [DecidableEq ι] {db₀ : SqlCatalog} (holder : db₀.OfSomeVersion)
    {t : Threads ι (SchemaOp Str SqlValue) SchemaOp.Reply (Except (SchemaError Str) Unit) SqlCatalog}
    (h : Threads.Reachable (fun _ : ι => schemaSem True) (fun _ _ => False) (opening ι db₀) t) :
    db₀.MigratesTo t.shared ∧
      (∀ i, t.threads i = some (.ret (.ok ())) →
        t.shared.HasAll currentSchema ∧ readRoutes t.shared = readOldRoutes db₀) ∧
      (∀ i error, t.threads i = some (.ret (.error error)) → Hindered True False error t.shared) ∧
      ∃ db, Execution (schemaSem False) migrate.run t.shared (.ok ()) db ∧
        db.HasAll currentSchema ∧ readRoutes db = readOldRoutes db₀ := by
  have hgood := good_of_opening holder h
  have hgrows := migratesTo_of_opening holder h
  refine ⟨hgrows, fun i hi => ?_, fun i error hi => hgood.returned hi, ?_⟩
  · have hcurrent : t.shared.HasAll currentSchema := hgood.returned hi
    exact ⟨hcurrent, readRoutes_of_migratesTo hgrows hcurrent⟩
  · rcases exists_execution migrate.run t.shared with ⟨result, db, hexec⟩
    rcases migrate_alone hgood.invariant hexec with ⟨rfl, hcurrent, hnext⟩
    exact ⟨db, hexec, hcurrent, readRoutes_of_migratesTo (hgrows.trans hnext) hcurrent⟩

/-- A database of the first version, with one route. -/
def firstVersion : SqlCatalog where
  sheets := Table.upsert ∅
    { name := "routes".toList
      columns := routesColumns
      rows := [[.text "h".toList, .text "u".toList, .real (.fin 1), .real (.fin 2), .integer 3,
        .integer 0, .integer 5, .integer 6, .text [], .integer 0, .text "nar/x".toList, .integer 4]]
      nodup := by decide
      length_eq := by decide }
  indexes := []

/-- One of two instances migrates a database of the first version. -/
theorem migrate_survives_firstVersion :
    ∃ db : SqlCatalog, db.HasAll currentSchema ∧ readRoutes db =
      [some ⟨"h".toList, "u".toList, .fin 1, .fin 2, 3, 0, 5, 6, [], 0, "nar/x".toList, [],
        none⟩] := by
  have holder : firstVersion.OfSomeVersion := by
    intro sheet hsheet
    obtain rfl := List.mem_singleton.1 hsheet
    decide
  rcases exists_execution migrate.run firstVersion with ⟨result, db, hexec⟩
  rcases migrate_alone holder hexec with ⟨rfl, -, -⟩
  have hmay : Execution (schemaSem True) migrate.run firstVersion (.ok ()) db := by
    apply hexec.mono
    rintro op s r s' (hsem | ⟨hmay, -⟩)
    · exact .inl hsem
    · exact hmay.elim
  have hthread : (opening Bool firstVersion).threads true = some migrate.run := rfl
  have hends : ∃ db', Threads.Reachable (fun _ : Bool => schemaSem True) (fun _ _ => False)
      (opening Bool firstVersion)
      ⟨db', Function.update (opening Bool firstVersion).threads true (some (.ret (.ok ())))⟩ ∧
        db' = db := Threads.reachable_of_canReturn hthread ⟨db, hmay, rfl⟩
  rcases hends with ⟨db', hreached, heq⟩
  have hboth := (migrate_survives holder hreached).2.1 true rfl
  rw [heq] at hboth
  refine ⟨db, hboth.1, hboth.2.trans ?_⟩
  decide

end Ncro
