import Ncro.Foundation.Table

/-!
# Tables in the order of use

A past lists what has happened, the newest first. The age of a key is how long ago something
used it. A table whose newest row stands first keeps its rows in the order of their ages, as
long as a use of a key upserts its row or finds none: `Recent.upsert`, `Recent.cons_unused`. The
last row is then the one that was used least recently: `Recent.age_lt_of_dropped`.
-/

namespace Foundation

universe u v w

section

variable {ε : Type u} {κ : Type v} {uses : ε → κ → Bool} {past : List ε} {e : ε} {k : κ}

/-- How many things have happened since the last one that used a key. -/
def age (uses : ε → κ → Bool) (past : List ε) (k : κ) : ℕ :=
  past.findIdx fun e => uses e k

theorem age_cons_of_uses (h : uses e k = true) : age uses (e :: past) k = 0 := by
  rw [age, List.findIdx_cons, h]
  rfl

theorem age_cons_of_not_uses (h : uses e k = false) :
    age uses (e :: past) k = age uses past k + 1 := by
  rw [age, List.findIdx_cons, h]
  rfl

end

namespace Table

variable {ε : Type u} {ρ : Type v} {κ : Type w} {key : ρ → κ} {uses : ε → κ → Bool}
  {past : List ε} {e : ε} {t : Table key} {r r' : ρ}

/-- The rows stand in the order in which they were used, the newest one first. -/
def Recent (uses : ε → κ → Bool) (past : List ε) (t : Table key) : Prop :=
  t.rows.Pairwise fun r r' => age uses past (key r) < age uses past (key r')

theorem recent_empty (uses : ε → κ → Bool) (past : List ε) :
    (∅ : Table key).Recent uses past := List.Pairwise.nil

theorem Recent.filter (h : t.Recent uses past) (p : ρ → Bool) :
    (t.filter p).Recent uses past := List.Pairwise.filter p h

theorem Recent.dropLast (h : t.Recent uses past) : t.dropLast.Recent uses past :=
  List.Pairwise.sublist (List.dropLast_sublist t.rows) h

/-- All rows grow older when none of them is used. -/
theorem Recent.cons_unused (h : t.Recent uses past)
    (hunused : ∀ r ∈ t.rows, uses e (key r) = false) : t.Recent uses (e :: past) := by
  apply List.Pairwise.imp_of_mem _ h
  intro r r' hr hr' hlt
  rw [age_cons_of_not_uses (hunused r hr), age_cons_of_not_uses (hunused r' hr')]
  exact Nat.succ_lt_succ hlt

/-- The row that is used comes first. -/
theorem Recent.upsert [DecidableEq κ] (h : t.Recent uses past)
    (huses : ∀ k, uses e k = decide (key r = k)) : (t.upsert r).Recent uses (e :: past) := by
  have hothers : (t.erase (key r)).Recent uses (e :: past) := by
    apply Recent.cons_unused (h.filter _)
    intro r' hr'
    rw [huses, decide_eq_false_iff_not]
    exact Ne.symm (mem_erase.1 hr').2
  apply List.pairwise_cons.2
  constructor
  · intro r' hr'
    have hne : uses e (key r') = false := by
      rw [huses, decide_eq_false_iff_not]
      exact Ne.symm (mem_erase.1 hr').2
    rw [age_cons_of_uses (by simp [huses]), age_cons_of_not_uses hne]
    exact Nat.succ_pos _
  · exact hothers

/-! ## The last row -/

/-- A row that goes with the last one is the last one. -/
theorem getLast_of_dropped (hr : r ∈ t.rows) (hdropped : r ∉ t.dropLast.rows) :
    t.rows = t.dropLast.rows ++ [r] := by
  have hne : t.rows ≠ [] := List.ne_nil_of_mem hr
  have hsplit := List.dropLast_append_getLast hne
  have hlast : r = t.rows.getLast hne := by
    rw [← hsplit] at hr
    rcases List.mem_append.1 hr with hr | hr
    · exact absurd hr hdropped
    · exact List.mem_singleton.1 hr
  rw [hlast]
  exact hsplit.symm

theorem eq_of_dropped (hr : r ∈ t.rows) (hdropped : r ∉ t.dropLast.rows) (hr' : r' ∈ t.rows)
    (hdropped' : r' ∉ t.dropLast.rows) : r = r' := by
  have hsame := (getLast_of_dropped hr hdropped).symm.trans (getLast_of_dropped hr' hdropped')
  exact List.singleton_inj.1 (List.append_cancel_left hsame)

/-- Every row that stays was used after the one that goes. -/
theorem Recent.age_lt_of_dropped (h : t.Recent uses past) (hr : r ∈ t.rows)
    (hdropped : r ∉ t.dropLast.rows) (hr' : r' ∈ t.dropLast.rows) :
    age uses past (key r') < age uses past (key r) := by
  rw [Recent, getLast_of_dropped hr hdropped] at h
  exact (List.pairwise_append.1 h).2.2 r' hr' r (List.mem_singleton_self r)

/-- What is found without the last row is found with it. -/
theorem get_of_get_dropLast [DecidableEq κ] {k : κ} (h : t.dropLast.get k = some r) :
    t.get k = some r :=
  get_eq_some_iff.2 ⟨mem_of_mem_dropLast (mem_of_get h), key_of_get h⟩

/-! ## Lengths -/

theorem length_dropLast (t : Table key) : t.dropLast.rows.length = t.rows.length - 1 :=
  List.length_dropLast

variable [DecidableEq κ]

theorem length_erase_le (t : Table key) (k : κ) : (t.erase k).rows.length ≤ t.rows.length :=
  List.length_filter_le _ _

theorem length_upsert_le (t : Table key) (r : ρ) :
    (t.upsert r).rows.length ≤ t.rows.length + 1 :=
  Nat.succ_le_succ (t.length_erase_le (key r))

/-- A row that replaces another one makes the table no longer. -/
theorem length_upsert_of_get {k : κ} (h : t.get k = some r) :
    (t.upsert r).rows.length ≤ t.rows.length := by
  apply List.length_filter_lt_length_iff_exists.2
  exact ⟨r, mem_of_get h, by simp⟩

/-- A row that has just been inserted is not the last one of several. -/
theorem get_dropLast_upsert_self (h : 1 < (t.upsert r).rows.length) :
    (t.upsert r).dropLast.get (key r) = some r := by
  apply get_eq_some_iff.2
  have hrest : (t.erase (key r)).rows ≠ [] := by
    intro hnil
    have hone : (t.upsert r).rows = [r] := congrArg (List.cons r) hnil
    rw [hone] at h
    exact absurd h (Nat.lt_irrefl 1)
  have hrows : (t.upsert r).dropLast.rows = r :: (t.erase (key r)).rows.dropLast :=
    List.dropLast_cons_of_ne_nil hrest
  rw [hrows]
  exact ⟨List.mem_cons_self, rfl⟩

end Table

end Foundation
