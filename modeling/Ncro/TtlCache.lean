import Ncro.Clock
import Ncro.Foundation.Table
import Ncro.Narinfo

/-!
# The in-memory caches

`TtlCache` is a bounded LRU whose entries expire `ttl` after insertion. The
most recently used entry stands first.
-/

namespace Ncro

open Foundation

universe u

/-- An entry of a cache and when it was inserted. -/
structure TtlEntry (α : Type u) where
  key : Str
  inserted : Instant
  value : α
  deriving DecidableEq

/-- A bounded LRU whose entries expire `ttl` after insertion. -/
structure TtlCache (α : Type u) where
  entries : Table (TtlEntry.key (α := α))
  capacity : ℕ
  ttl : Duration

namespace TtlCache

variable {α : Type u}

/-- `TtlCache::new`. -/
def new (capacity : ℕ) (ttl : Duration) : TtlCache α where
  entries := ∅
  capacity := max capacity 1
  ttl := ttl

/-- A lookup at `now` marks a live entry as used and drops an expired one. -/
def get (cache : TtlCache α) (now : Instant) (key : Str) : Option α × TtlCache α :=
  match cache.entries.get key with
  | none => (none, cache)
  | some entry =>
      if now - entry.inserted < cache.ttl then
        (some entry.value, { cache with entries := cache.entries.upsert entry })
      else (none, { cache with entries := cache.entries.erase key })

/-- An insertion at `now` evicts the least recently used entry when there is no
room left. -/
def insert (cache : TtlCache α) (now : Instant) (key : Str) (value : α) : TtlCache α :=
  let entries := cache.entries.upsert ⟨key, now, value⟩
  { cache with
    entries := if cache.capacity < entries.rows.length then entries.dropLast else entries }

def invalidate (cache : TtlCache α) (key : Str) : TtlCache α :=
  { cache with entries := cache.entries.erase key }

@[simp] theorem get_ttl (cache : TtlCache α) (now : Instant) (key : Str) :
    (cache.get now key).2.ttl = cache.ttl := by
  unfold get
  split
  · rfl
  · split <;> rfl

@[simp] theorem insert_ttl (cache : TtlCache α) (now : Instant) (key : Str) (value : α) :
    (cache.insert now key value).ttl = cache.ttl := rfl

@[simp] theorem invalidate_ttl (cache : TtlCache α) (key : Str) :
    (cache.invalidate key).ttl = cache.ttl := rfl

/-- A lookup moves or drops an entry. -/
theorem get_subset (cache : TtlCache α) (now : Instant) (key : Str) :
    (cache.get now key).2.entries.rows ⊆ cache.entries.rows := by
  intro entry hentry
  unfold get at hentry
  split at hentry
  · exact hentry
  · next found hget =>
    split at hentry
    · rcases Table.mem_of_mem_upsert hentry with rfl | hentry
      · exact Table.mem_of_get hget
      · exact hentry
    · exact (Table.mem_erase.1 hentry).1

theorem invalidate_subset (cache : TtlCache α) (key : Str) :
    (cache.invalidate key).entries.rows ⊆ cache.entries.rows :=
  fun _ hentry => (Table.mem_erase.1 hentry).1

/-- An entry is the inserted one or was there before. -/
theorem mem_of_mem_insert {cache : TtlCache α} {now : Instant} {key : Str} {value : α}
    {entry : TtlEntry α} (h : entry ∈ (cache.insert now key value).entries.rows) :
    entry = ⟨key, now, value⟩ ∨ entry ∈ cache.entries.rows := by
  have hupsert : entry ∈ (cache.entries.upsert ⟨key, now, value⟩).rows := by
    unfold insert at h
    simp only at h
    split at h
    · exact Table.mem_of_mem_dropLast h
    · exact h
  exact Table.mem_of_mem_upsert hupsert

/-- A lookup answers with the entry it finds, unless that has expired. -/
theorem get_eq_some_iff {cache : TtlCache α} {now : Instant} {key : Str} {value : α} :
    (cache.get now key).1 = some value ↔
      ∃ entry, cache.entries.get key = some entry ∧ entry.value = value ∧
        now - entry.inserted < cache.ttl := by
  unfold get
  split
  · next hnone => simp [hnone]
  · next entry hsome =>
    split
    · next hlive => simp [hsome, hlive]
    · next hexpired => simp [hsome, hexpired]

/-- A hit comes from an entry that is not older than the cache's `ttl`. -/
theorem exists_of_get_eq_some {cache : TtlCache α} {now : Instant} {key : Str} {value : α}
    (h : (cache.get now key).1 = some value) :
    ∃ entry ∈ cache.entries.rows, entry.key = key ∧ entry.value = value ∧
      now - entry.inserted < cache.ttl := by
  rcases get_eq_some_iff.1 h with ⟨entry, hget, hvalue, hlive⟩
  exact ⟨entry, Table.mem_of_get hget, Table.key_of_get hget, hvalue, hlive⟩

/-- Every value held satisfies `p`, given the key it is held under. -/
def Forall (p : Str → α → Prop) (cache : TtlCache α) : Prop :=
  ∀ entry ∈ cache.entries.rows, p entry.key entry.value

variable {p : Str → α → Prop} {cache : TtlCache α}

theorem forall_new (capacity : ℕ) (ttl : Duration) :
    (new capacity ttl : TtlCache α).Forall p := by
  intro entry h
  cases h

theorem Forall.get (h : cache.Forall p) (now : Instant) (key : Str) :
    (cache.get now key).2.Forall p ∧ ∀ value, (cache.get now key).1 = some value → p key value := by
  unfold TtlCache.get
  split
  · exact ⟨h, by simp⟩
  · next entry hget =>
    have hmem := Table.mem_of_get hget
    split
    · refine ⟨fun e he => ?_, fun value hvalue => ?_⟩
      · rcases Table.mem_of_mem_upsert he with rfl | he
        · exact h _ hmem
        · exact h e he
      · obtain rfl : entry.value = value := by simpa using hvalue
        rw [← Table.key_of_get hget]
        exact h entry hmem
    · exact ⟨fun e he => h e (Table.mem_erase.1 he).1, by simp⟩

theorem Forall.insert (h : cache.Forall p) (now : Instant) {key : Str} {value : α}
    (hp : p key value) : (cache.insert now key value).Forall p := by
  intro e he
  rcases mem_of_mem_insert he with rfl | he
  · exact hp
  · exact h e he

theorem Forall.invalidate (h : cache.Forall p) (key : Str) : (cache.invalidate key).Forall p :=
  fun e he => h e (Table.mem_erase.1 he).1

end TtlCache

end Ncro
