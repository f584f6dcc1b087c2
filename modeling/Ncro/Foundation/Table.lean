import Mathlib.Data.List.Nodup

/-!
# Keyed tables

A table holds rows that differ in their key. The newest row stands first, which
is the order a least-recently-used cache needs and which a database table is
free to have. The key of a row is read off the row itself, so a lookup and a
row of the table are the same thing: `mem_rows_iff`.
-/

namespace Foundation

universe u v

/-- Rows with pairwise different keys. -/
structure Table {ρ : Type u} {κ : Type v} (key : ρ → κ) where
  rows : List ρ
  nodup : (rows.map key).Nodup

namespace Table

variable {ρ : Type u} {κ : Type v} {key : ρ → κ}

instance : EmptyCollection (Table key) := ⟨⟨[], List.nodup_nil⟩⟩

instance [DecidableEq ρ] : DecidableEq (Table key) := fun s t =>
  decidable_of_iff (s.rows = t.rows) (by cases s; cases t; simp)

@[simp] theorem rows_empty : (∅ : Table key).rows = [] := rfl

/-- The rows that satisfy `p`. -/
def filter (p : ρ → Bool) (t : Table key) : Table key where
  rows := t.rows.filter p
  nodup := t.nodup.sublist (List.filter_sublist.map key)

@[simp] theorem mem_filter {p : ρ → Bool} {t : Table key} {r : ρ} :
    r ∈ (t.filter p).rows ↔ r ∈ t.rows ∧ p r = true := List.mem_filter

/-- All rows but the last one. -/
def dropLast (t : Table key) : Table key where
  rows := t.rows.dropLast
  nodup := t.nodup.sublist ((List.dropLast_sublist t.rows).map key)

theorem mem_of_mem_dropLast {t : Table key} {r : ρ} (h : r ∈ t.dropLast.rows) : r ∈ t.rows :=
  (List.dropLast_sublist t.rows).subset h

variable [DecidableEq κ]

/-- The row with key `k`. -/
def get (t : Table key) (k : κ) : Option ρ :=
  t.rows.find? fun r => key r = k

/-- The table without the row of key `k`. -/
def erase (t : Table key) (k : κ) : Table key :=
  t.filter fun r => key r ≠ k

/-- Insert a row, replacing the one with the same key. -/
def upsert (t : Table key) (r : ρ) : Table key where
  rows := r :: (t.erase (key r)).rows
  nodup := by
    rw [List.map_cons, List.nodup_cons]
    refine ⟨?_, (t.erase (key r)).nodup⟩
    simp [erase]

theorem mem_rows_iff {t : Table key} {r : ρ} : r ∈ t.rows ↔ t.get (key r) = some r := by
  constructor
  · intro h
    cases hget : t.get (key r) with
    | none =>
        have hno := List.find?_eq_none.1 hget r h
        simp at hno
    | some r' =>
        have hkey : key r' = key r := by simpa using List.find?_some hget
        have hmem : r' ∈ t.rows := List.mem_of_find?_eq_some hget
        rw [List.inj_on_of_nodup_map t.nodup hmem h hkey]
  · exact List.mem_of_find?_eq_some

theorem mem_of_get {t : Table key} {k : κ} {r : ρ} (h : t.get k = some r) : r ∈ t.rows :=
  List.mem_of_find?_eq_some h

theorem key_of_get {t : Table key} {k : κ} {r : ρ} (h : t.get k = some r) : key r = k := by
  simpa using List.find?_some h

@[simp] theorem get_empty (k : κ) : (∅ : Table key).get k = none := rfl

@[simp] theorem mem_erase {t : Table key} {k : κ} {r : ρ} :
    r ∈ (t.erase k).rows ↔ r ∈ t.rows ∧ key r ≠ k := by
  simp [erase]

theorem mem_upsert {t : Table key} {r r' : ρ} :
    r' ∈ (t.upsert r).rows ↔ r' = r ∨ r' ∈ t.rows ∧ key r' ≠ key r := by
  rw [upsert, List.mem_cons, mem_erase]

theorem mem_of_mem_upsert {t : Table key} {r r' : ρ} (h : r' ∈ (t.upsert r).rows) :
    r' = r ∨ r' ∈ t.rows := by
  rcases mem_upsert.1 h with rfl | ⟨h, -⟩
  · exact .inl rfl
  · exact .inr h

@[simp] theorem get_upsert_self (t : Table key) (r : ρ) : (t.upsert r).get (key r) = some r :=
  mem_rows_iff.1 (mem_upsert.2 (.inl rfl))

theorem get_upsert_of_ne {t : Table key} {r : ρ} {k : κ} (h : k ≠ key r) :
    (t.upsert r).get k = t.get k := by
  rw [get, upsert, List.find?_cons_of_neg (by simpa using h.symm), erase, filter,
    List.find?_filter, get]
  congr 1
  funext r'
  by_cases hk : key r' = k
  · simp [hk, h]
  · simp [hk]

theorem isSome_get_iff {t : Table key} {k : κ} :
    (t.get k).isSome = true ↔ ∃ r ∈ t.rows, key r = k := by
  simp [get, List.find?_isSome]

/-- Insert some rows, one after the other. -/
def extend (t : Table key) (rows : List ρ) : Table key :=
  rows.foldl upsert t

@[simp] theorem extend_nil (t : Table key) : t.extend [] = t := rfl

@[simp] theorem extend_cons (t : Table key) (r : ρ) (rows : List ρ) :
    t.extend (r :: rows) = (t.upsert r).extend rows := rfl

theorem get_upsert (t : Table key) (r : ρ) (k : κ) :
    (t.upsert r).get k = if key r = k then some r else t.get k := by
  by_cases hk : key r = k
  · rw [if_pos hk, ← hk, get_upsert_self]
  · rw [if_neg hk, get_upsert_of_ne (Ne.symm hk)]

theorem mem_of_mem_extend {t : Table key} {rows : List ρ} {r : ρ} (h : r ∈ (t.extend rows).rows) :
    r ∈ rows ∨ r ∈ t.rows := by
  induction rows generalizing t with
  | nil => exact .inr h
  | cons r' rows ih =>
      rcases ih h with hmem | hmem
      · exact .inl (.tail _ hmem)
      · rcases mem_of_mem_upsert hmem with rfl | hold
        · exact .inl (.head _)
        · exact .inr hold

/-- The row that was inserted last for a key is found. -/
theorem get_extend (t : Table key) (rows : List ρ) (k : κ) :
    (t.extend rows).get k = (rows.reverse.find? fun r => key r = k).or (t.get k) := by
  induction rows generalizing t with
  | nil => rfl
  | cons r rows ih =>
      rw [extend_cons, ih, get_upsert, List.reverse_cons, List.find?_append, Option.or_assoc]
      by_cases hk : key r = k <;> simp [hk]

/-- The rows of another table come before what is there. -/
theorem get_extend_rows (t u : Table key) (k : κ) :
    (t.extend u.rows).get k = (u.get k).or (t.get k) := by
  rw [get_extend]
  congr 1
  cases hget : u.get k with
  | none =>
      apply List.find?_eq_none.2
      intro r hr
      exact List.find?_eq_none.1 hget r (List.mem_reverse.1 hr)
  | some r =>
      have hsome : (u.rows.reverse.find? fun r => key r = k).isSome :=
        List.find?_isSome.2 ⟨r, List.mem_reverse.2 (mem_of_get hget),
          decide_eq_true (key_of_get hget)⟩
      obtain ⟨r', hr'⟩ := Option.isSome_iff_exists.1 hsome
      have hkey : key r' = k := by simpa using List.find?_some hr'
      have hmem : r' ∈ u.rows := List.mem_reverse.1 (List.mem_of_find?_eq_some hr')
      have hget' : u.get k = some r' := by rw [← hkey, mem_rows_iff.1 hmem]
      rw [hr', ← hget', hget]

theorem get_eq_some_iff {t : Table key} {k : κ} {r : ρ} :
    t.get k = some r ↔ r ∈ t.rows ∧ key r = k := by
  constructor
  · intro h
    exact ⟨mem_of_get h, key_of_get h⟩
  · rintro ⟨hmem, rfl⟩
    exact mem_rows_iff.1 hmem

theorem get_erase (t : Table key) (k k' : κ) :
    (t.erase k).get k' = if k = k' then none else t.get k' := by
  ext r
  rw [get_eq_some_iff, mem_erase]
  by_cases hk : k = k'
  · subst hk
    simp
  · rw [if_neg hk, get_eq_some_iff]
    constructor
    · rintro ⟨⟨hmem, -⟩, hkey⟩
      exact ⟨hmem, hkey⟩
    · rintro ⟨hmem, rfl⟩
      exact ⟨⟨hmem, Ne.symm hk⟩, rfl⟩

/-- The order of the rows does not matter for a lookup. -/
theorem get_eq_of_perm {t u : Table key} (h : t.rows.Perm u.rows) (k : κ) : t.get k = u.get k := by
  ext r
  rw [get_eq_some_iff, get_eq_some_iff, h.mem_iff]

/-- The rows of another table come before what is there, in whatever order they are inserted. -/
theorem get_extend_of_perm (t : Table key) {u : Table key} {rows : List ρ} (h : rows.Perm u.rows)
    (k : κ) : (t.extend rows).get k = (u.get k).or (t.get k) := by
  let v : Table key := ⟨rows, (h.map key).nodup_iff.2 u.nodup⟩
  have hv : v.rows.Perm u.rows := h
  rw [← get_eq_of_perm hv k, ← get_extend_rows t v k]

end Table

end Foundation
