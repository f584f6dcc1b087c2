import Ncro.Foundation.Recency
import Ncro.TtlCache

/-!
# The life of a cache

The calls that a cache has seen, the newest first, say what it holds: the newest
insertion under a key is found until it expires, until the key is invalidated,
or until an insertion under another key evicts it, and what is evicted is the
entry whose key was used least recently.
-/

namespace Ncro

open Foundation

universe u

/-- What a cache is asked to do. -/
inductive CacheOp (α : Type u)
  | get (key : Str)
  | insert (key : Str) (value : α)
  | invalidate (key : Str)

/-- An operation and the time it happens at. -/
structure CacheCall (α : Type u) where
  now : Instant
  op : CacheOp α

variable {α : Type u}

/-- A lookup and an insertion make their key the newest one. -/
def CacheCall.uses (call : CacheCall α) (key : Str) : Bool :=
  match call.op with
  | .get key' => key' = key
  | .insert key' _ => key' = key
  | .invalidate _ => false

namespace TtlCache

def apply (cache : TtlCache α) (call : CacheCall α) : TtlCache α :=
  match call.op with
  | .get key => (cache.get call.now key).2
  | .insert key value => cache.insert call.now key value
  | .invalidate key => cache.invalidate key

/-- The cache after the calls of `past`. -/
def after (capacity : ℕ) (ttl : Duration) (past : List (CacheCall α)) : TtlCache α :=
  past.foldr (fun call cache => cache.apply call) (new capacity ttl)

/-- The newest insertion under `key` and its time, unless the key was
invalidated after it. -/
def current : List (CacheCall α) → Str → Option (Instant × α)
  | [], _ => none
  | ⟨_, .get _⟩ :: past, key => current past key
  | ⟨now, .insert key' value⟩ :: past, key =>
      if key' = key then some (now, value) else current past key
  | ⟨_, .invalidate key'⟩ :: past, key => if key' = key then none else current past key

/-- An insertion under another key has taken the entry of `key` out since `key`
was inserted or invalidated for the last time. -/
def evicted (capacity : ℕ) (ttl : Duration) : List (CacheCall α) → Str → Bool
  | [], _ => false
  | ⟨_, .get _⟩ :: past, key => evicted capacity ttl past key
  | ⟨now, .insert key' value⟩ :: past, key =>
      let cache := after capacity ttl past
      if key' = key then false
      else
        evicted capacity ttl past key ||
          (cache.entries.get key).isSome && ((cache.insert now key' value).entries.get key).isNone
  | ⟨_, .invalidate key'⟩ :: past, key =>
      if key' = key then false else evicted capacity ttl past key

/-! ## What a single call does -/

@[simp] theorem get_capacity (cache : TtlCache α) (now : Instant) (key : Str) :
    (cache.get now key).2.capacity = cache.capacity := by
  unfold get
  split
  · rfl
  · split <;> rfl

theorem apply_ttl (cache : TtlCache α) (call : CacheCall α) :
    (cache.apply call).ttl = cache.ttl := by
  unfold apply
  split <;> simp

theorem apply_capacity (cache : TtlCache α) (call : CacheCall α) :
    (cache.apply call).capacity = cache.capacity := by
  unfold apply
  split
  · simp
  · rfl
  · rfl

/-- A lookup keeps all entries but an expired one of its own key. -/
theorem find_get (cache : TtlCache α) (now : Instant) (key k : Str) :
    (cache.get now key).2.entries.get k = cache.entries.get k ∨
      (cache.get now key).2.entries.get k = none ∧
        ∃ entry, cache.entries.get k = some entry ∧ cache.ttl ≤ now - entry.inserted := by
  unfold get
  split
  · exact .inl rfl
  · next entry hsome =>
    have hkey := Table.key_of_get hsome
    split
    · left
      rw [Table.get_upsert, hkey]
      split
      · next heq => rw [← heq, hsome]
      · rfl
    · next hexpired =>
      rw [Table.get_erase]
      by_cases heq : key = k
      · right
        subst heq
        exact ⟨if_pos rfl, entry, hsome, Nat.le_of_not_lt hexpired⟩
      · exact .inl (if_neg heq)

/-- What was inserted is there. -/
theorem find_insert_self {cache : TtlCache α} (hcapacity : 0 < cache.capacity) (now : Instant)
    (key : Str) (value : α) :
    (cache.insert now key value).entries.get key = some ⟨key, now, value⟩ := by
  unfold insert
  simp only
  split
  · next hfull => exact Table.get_dropLast_upsert_self (Nat.lt_of_le_of_lt hcapacity hfull)
  · exact Table.get_upsert_self cache.entries ⟨key, now, value⟩

/-- An insertion brings nothing in under another key. -/
theorem find_of_find_insert {cache : TtlCache α} {now : Instant} {key k : Str} {value : α}
    {entry : TtlEntry α} (hne : key ≠ k)
    (h : (cache.insert now key value).entries.get k = some entry) :
    cache.entries.get k = some entry := by
  have hupsert : (cache.entries.upsert ⟨key, now, value⟩).get k = some entry := by
    unfold insert at h
    simp only at h
    split at h
    · exact Table.get_of_get_dropLast h
    · exact h
  rwa [Table.get_upsert_of_ne (Ne.symm hne)] at hupsert

theorem find_invalidate (cache : TtlCache α) (key k : Str) :
    (cache.invalidate key).entries.get k = if key = k then none else cache.entries.get k :=
  Table.get_erase cache.entries key k

/-- No call makes a cache longer than its capacity. -/
theorem length_apply_le {cache : TtlCache α} (h : cache.entries.rows.length ≤ cache.capacity)
    (call : CacheCall α) :
    (cache.apply call).entries.rows.length ≤ cache.capacity := by
  rcases call with ⟨now, key | ⟨key, value⟩ | key⟩
  · apply le_trans _ h
    unfold apply get
    simp only
    split
    · exact le_rfl
    · next entry hsome =>
      split
      · rw [← Table.key_of_get hsome] at hsome
        exact Table.length_upsert_of_get hsome
      · exact Table.length_erase_le cache.entries key
  · have hupsert := Table.length_upsert_le cache.entries ⟨key, now, value⟩
    unfold apply insert
    simp only
    split
    · rw [Table.length_dropLast]
      omega
    · next hroom => exact Nat.le_of_not_lt hroom
  · exact le_trans (Table.length_erase_le cache.entries key) h

/-- Every call keeps the entries in the order in which their keys were used. -/
theorem recent_apply {cache : TtlCache α} {past : List (CacheCall α)}
    (h : cache.entries.Recent CacheCall.uses past) (call : CacheCall α) :
    (cache.apply call).entries.Recent CacheCall.uses (call :: past) := by
  rcases call with ⟨now, key | ⟨key, value⟩ | key⟩
  · unfold apply get
    simp only
    split
    · next hnone =>
      -- The key that is used has no entry.
      apply h.cons_unused
      intro entry hentry
      apply decide_eq_false
      rintro rfl
      rw [Table.mem_rows_iff.1 hentry] at hnone
      cases hnone
    · next entry hsome =>
      have hkey := Table.key_of_get hsome
      split
      · apply h.upsert
        intro k
        rw [hkey]
        rfl
      · apply (h.filter _).cons_unused
        intro entry hentry
        exact decide_eq_false (Ne.symm (Table.mem_erase.1 hentry).2)
  · have hupsert : (cache.entries.upsert ⟨key, now, value⟩).Recent CacheCall.uses
        (⟨now, .insert key value⟩ :: past) := h.upsert fun _ => rfl
    unfold apply insert
    simp only
    split
    · exact hupsert.dropLast
    · exact hupsert
  · apply (h.filter _).cons_unused
    intro entry _
    rfl

/-! ## What a whole life of calls leaves -/

variable {capacity : ℕ} {ttl : Duration} {past : List (CacheCall α)}

theorem after_cons (call : CacheCall α) :
    after capacity ttl (call :: past) = (after capacity ttl past).apply call := rfl

@[simp] theorem after_ttl : (after capacity ttl past).ttl = ttl := by
  induction past with
  | nil => rfl
  | cons call past ih => rw [after_cons, apply_ttl, ih]

@[simp] theorem after_capacity : (after capacity ttl past).capacity = max capacity 1 := by
  induction past with
  | nil => rfl
  | cons call past ih => rw [after_cons, apply_capacity, ih]

theorem length_after_le :
    (after capacity ttl past).entries.rows.length ≤ (after capacity ttl past).capacity := by
  induction past with
  | nil => exact Nat.zero_le _
  | cons call past ih =>
    rw [after_cons, apply_capacity]
    exact length_apply_le ih call

theorem recent_after : (after capacity ttl past).entries.Recent CacheCall.uses past := by
  induction past with
  | nil => exact Table.recent_empty _ _
  | cons call past ih => exact recent_apply ih call

/-- What was inserted last is there. -/
theorem find_after_insert (now : Instant) (key : Str) (value : α) :
    ((after capacity ttl past).insert now key value).entries.get key = some ⟨key, now, value⟩ := by
  apply find_insert_self
  rw [after_capacity]
  exact Nat.lt_of_lt_of_le Nat.one_pos (le_max_right _ _)

/-- What is found was inserted last, and it has not been evicted since. -/
theorem current_of_find {key : Str} {entry : TtlEntry α}
    (h : (after capacity ttl past).entries.get key = some entry) :
    current past key = some (entry.inserted, entry.value) ∧
      evicted capacity ttl past key = false := by
  induction past with
  | nil => cases h
  | cons call past ih =>
    rcases call with ⟨now, key' | ⟨key', value⟩ | key'⟩
    · apply ih
      rcases find_get (after capacity ttl past) now key' key with hsame | ⟨hnone, -⟩
      · exact hsame.symm.trans h
      · exact absurd (hnone.symm.trans h) (Option.some_ne_none entry).symm
    · by_cases heq : key' = key
      · subst heq
        cases (find_after_insert now key' value).symm.trans h
        simp [current, evicted]
      · have hinsert : ((after capacity ttl past).insert now key' value).entries.get key =
            some entry := h
        have hbefore := ih (find_of_find_insert heq hinsert)
        simp [current, evicted, heq, hbefore, hinsert]
    · have hinvalidate := (find_invalidate (after capacity ttl past) key' key).symm.trans h
      by_cases heq : key' = key
      · rw [if_pos heq] at hinvalidate
        cases hinvalidate
      · rw [if_neg heq] at hinvalidate
        have hbefore := ih hinvalidate
        simp [current, evicted, heq, hbefore]

/-- The newest insertion is found, unless it has been evicted or a call has come
after its expiry. -/
theorem find_or_expired {key : Str} {inserted : Instant} {value : α}
    (hcurrent : current past key = some (inserted, value))
    (hkept : evicted capacity ttl past key = false) :
    (after capacity ttl past).entries.get key = some ⟨key, inserted, value⟩ ∨
      ∃ call ∈ past, ttl ≤ call.now - inserted := by
  induction past with
  | nil => cases hcurrent
  | cons call past ih =>
    rcases call with ⟨now, key' | ⟨key', value'⟩ | key'⟩
    · rcases ih hcurrent hkept with hfind | ⟨call, hcall, hexpired⟩
      · rcases find_get (after capacity ttl past) now key' key with hsame | ⟨-, entry, hentry, hle⟩
        · exact .inl (hsame.trans hfind)
        · cases hentry.symm.trans hfind
          rw [after_ttl] at hle
          exact .inr ⟨_, List.mem_cons_self, hle⟩
      · exact .inr ⟨call, List.mem_cons_of_mem _ hcall, hexpired⟩
    · by_cases heq : key' = key
      · subst heq
        left
        have hnow : (now, value') = (inserted, value) := by simpa [current] using hcurrent
        cases hnow
        exact find_after_insert inserted key' value
      · simp only [current, evicted, heq, if_false, Bool.or_eq_false_iff] at hcurrent hkept
        rcases ih hcurrent hkept.1 with hfind | ⟨call, hcall, hexpired⟩
        · left
          have hsome : (((after capacity ttl past).insert now key' value').entries.get key).isSome := by
            simpa [hfind] using hkept.2
          rcases Option.isSome_iff_exists.1 hsome with ⟨entry, hentry⟩
          have hold := find_of_find_insert heq hentry
          exact hentry.trans (hold.symm.trans hfind)
        · exact .inr ⟨call, List.mem_cons_of_mem _ hcall, hexpired⟩
    · by_cases heq : key' = key
      · simp [current, heq] at hcurrent
      · simp only [current, evicted, heq, if_false] at hcurrent hkept
        rcases ih hcurrent hkept with hfind | ⟨call, hcall, hexpired⟩
        · left
          have hinvalidate := find_invalidate (after capacity ttl past) key' key
          rw [if_neg heq, hfind] at hinvalidate
          exact hinvalidate
        · exact .inr ⟨call, List.mem_cons_of_mem _ hcall, hexpired⟩

/-- A lookup that is not older than the calls before it answers with the newest
insertion, if that is alive and has not been evicted. -/
theorem get_after_iff {now : Instant} (hpast : ∀ call ∈ past, call.now ≤ now) {key : Str}
    {value : α} :
    ((after capacity ttl past).get now key).1 = some value ↔
      ∃ inserted, current past key = some (inserted, value) ∧ now - inserted < ttl ∧
        evicted capacity ttl past key = false := by
  rw [get_eq_some_iff, after_ttl]
  constructor
  · rintro ⟨entry, hfind, rfl, hlive⟩
    have hcurrent := current_of_find hfind
    exact ⟨entry.inserted, hcurrent.1, hlive, hcurrent.2⟩
  · rintro ⟨inserted, hcurrent, hlive, hkept⟩
    rcases find_or_expired hcurrent hkept with hfind | ⟨call, hcall, hexpired⟩
    · exact ⟨⟨key, inserted, value⟩, hfind, rfl, hlive⟩
    · have hle : ttl ≤ now - inserted :=
        le_trans hexpired (Nat.sub_le_sub_right (hpast call hcall) inserted)
      exact absurd hlive (Nat.not_lt_of_le hle)

/-- The entry that an insertion takes out from under another key is the only
one, and its key was used before the keys of all entries that stay. -/
theorem least_recent_of_lost {now : Instant} {key : Str} {value : α} {lost : TtlEntry α}
    (hlost : lost ∈ (after capacity ttl past).entries.rows) (hne : lost.key ≠ key)
    (hgone : lost ∉ (after capacity ttl (⟨now, .insert key value⟩ :: past)).entries.rows) :
    (∀ entry ∈ (after capacity ttl past).entries.rows, entry.key ≠ key →
        entry ∉ (after capacity ttl (⟨now, .insert key value⟩ :: past)).entries.rows →
          entry = lost) ∧
      ∀ entry ∈ (after capacity ttl (⟨now, .insert key value⟩ :: past)).entries.rows,
        age CacheCall.uses (⟨now, .insert key value⟩ :: past) entry.key <
          age CacheCall.uses (⟨now, .insert key value⟩ :: past) lost.key := by
  have hinsert : after capacity ttl (⟨now, .insert key value⟩ :: past) =
      (after capacity ttl past).insert now key value := rfl
  have hrecent : ((after capacity ttl past).entries.upsert ⟨key, now, value⟩).Recent
      CacheCall.uses (⟨now, .insert key value⟩ :: past) := recent_after.upsert fun _ => rfl
  have hupsert : lost ∈ ((after capacity ttl past).entries.upsert ⟨key, now, value⟩).rows :=
    Table.mem_upsert.2 (.inr ⟨hlost, hne⟩)
  rw [hinsert] at hgone ⊢
  unfold insert at hgone ⊢
  simp only at hgone ⊢
  split at hgone
  · next hfull =>
    rw [if_pos hfull]
    constructor
    · intro entry hentry hother hdropped
      exact Table.eq_of_dropped (Table.mem_upsert.2 (.inr ⟨hentry, hother⟩)) hdropped hupsert hgone
    · intro entry hentry
      exact hrecent.age_lt_of_dropped hupsert hgone hentry
  · exact absurd hupsert hgone

/-- A cache is a bounded LRU with expiry. It holds no more than its capacity. A
lookup finds the newest insertion of its key exactly if that is not older than
`ttl` and neither was invalidated nor evicted. An insertion evicts at most one
entry, which is not its own and whose key was used least recently. -/
theorem after_bounded_lru (capacity : ℕ) (ttl : Duration) (past : List (CacheCall α)) :
    (after capacity ttl past).entries.rows.length ≤ max capacity 1 ∧
      (∀ (now : Instant) (key : Str) (value : α), (∀ call ∈ past, call.now ≤ now) →
        (((after capacity ttl past).get now key).1 = some value ↔
          ∃ inserted, current past key = some (inserted, value) ∧ now - inserted < ttl ∧
            evicted capacity ttl past key = false)) ∧
      ∀ (now : Instant) (key : Str) (value : α),
        let insertion : CacheCall α := ⟨now, .insert key value⟩
        let next := after capacity ttl (insertion :: past)
        next.entries.get key = some ⟨key, now, value⟩ ∧
          ∀ lost ∈ (after capacity ttl past).entries.rows, lost.key ≠ key →
            lost ∉ next.entries.rows →
              (∀ entry ∈ (after capacity ttl past).entries.rows, entry.key ≠ key →
                entry ∉ next.entries.rows → entry = lost) ∧
              ∀ entry ∈ next.entries.rows,
                age CacheCall.uses (insertion :: past) entry.key <
                  age CacheCall.uses (insertion :: past) lost.key := by
  constructor
  · have hlength : (after capacity ttl past).entries.rows.length ≤
        (after capacity ttl past).capacity := length_after_le
    rwa [after_capacity] at hlength
  constructor
  · intro now key value hpast
    exact get_after_iff hpast
  · intro now key value insertion next
    constructor
    · exact find_after_insert now key value
    · intro lost hlost hne hgone
      exact least_recent_of_lost hlost hne hgone

/-- Two insertions, the newer one under `b`. -/
def insertions : List (CacheCall ℕ) := [⟨3, .insert "b".toList 2⟩, ⟨0, .insert "a".toList 1⟩]

/-- A cache of capacity 0 keeps the newer one of two entries, and the other one
is not found although it is alive. -/
theorem after_bounded_lru_insertions :
    ((after 0 10 insertions).get 5 "b".toList).1 = some 2 ∧
      ((after 0 10 insertions).get 5 "a".toList).1 ≠ some 1 ∧
      (after 0 10 insertions).entries.rows.length ≤ 1 := by
  have hall := after_bounded_lru 0 10 insertions
  have hpast : ∀ call ∈ insertions, call.now ≤ 5 := by decide
  constructor
  · exact (hall.2.1 5 "b".toList 2 hpast).2 ⟨3, by decide⟩
  constructor
  · intro hfound
    rcases (hall.2.1 5 "a".toList 1 hpast).1 hfound with ⟨inserted, -, -, hkept⟩
    exact absurd hkept (by decide)
  · exact hall.1

end TtlCache

end Ncro
