import Ncro.Instance
import Ncro.Router.Phases

/-!
# Single flight

`Flights` is an instance with its lookups under way. Lookups of one hash are
meant to share a race: a client's lookup races only while it holds the lock that
the inflight map has for the hash. The map forgets the lock as soon as the first
lookup is through, however, so a lookup that waited for it and still finds the
caches empty races under a lock that nobody else will meet.
-/

namespace Ncro

open Foundation Foundation.Process

/-! ## Lookups of one instance -/

/-- An instance and its lookups under way. -/
structure Flights where
  inst : Instance
  lookups : List Lookup

/-- Two states of an instance with the same locks and the same inflight map. -/
structure Instance.SameLocks (s s' : Instance) : Prop where
  inflight : s'.inflight = s.inflight
  nextLock : s'.nextLock = s.nextLock
  held : s'.held = s.held

namespace Flights

/-- A step of the lookups of an instance, labelled by the lookup that goes on, as
it was before. Whatever else the instance does leaves the locks alone, and a
dropped lookup runs its guards if it has any. -/
inductive Step (crypto : Crypto) (reg : Registry) : Flights → Option Lookup → Flights → Prop
  | start (s : Flights) (storeHash : Str) (candidates : List Str) (hop : Hop) :
      Step crypto reg s none { s with
        lookups := ⟨storeHash, candidates, hop,
          .firstCheck ⟨resolveCached crypto reg storeHash hop, performs_resolveCached⟩⟩ ::
            s.lookups }
  | pass {inst : Instance} {before after : List Lookup} {storeHash : Str} {candidates : List Str}
      {hop : Hop} {φ φ' : Phase hop} (h : φ.Step crypto reg storeHash candidates none φ') :
      Step crypto reg ⟨inst, before ++ ⟨storeHash, candidates, hop, φ⟩ :: after⟩
        (some ⟨storeHash, candidates, hop, φ⟩)
        ⟨inst, before ++ ⟨storeHash, candidates, hop, φ'⟩ :: after⟩
  | perform {inst inst' : Instance} {before after : List Lookup} {storeHash : Str}
      {candidates : List Str} {hop : Hop} {φ φ' : Phase hop} {op : Op} {reply : op.Reply}
      (h : φ.Step crypto reg storeHash candidates (some ⟨op, reply⟩) φ')
      (hexec : Instance.exec reg op inst reply inst') :
      Step crypto reg ⟨inst, before ++ ⟨storeHash, candidates, hop, φ⟩ :: after⟩
        (some ⟨storeHash, candidates, hop, φ⟩)
        ⟨inst', before ++ ⟨storeHash, candidates, hop, φ'⟩ :: after⟩
  | drop {inst : Instance} {before after : List Lookup} {lookup : Lookup}
      (h : lookup.phase.lock? = none) :
      Step crypto reg ⟨inst, before ++ lookup :: after⟩ none ⟨inst, before ++ after⟩
  | dropLocked {inst inst' : Instance} {before after : List Lookup} {storeHash : Str}
      {candidates : List Str} {φ : Phase .client} {lock : LockId} (h : φ.lock? = some lock)
      (result : Except RouterError ResolveResult) (hsame : inst.SameLocks inst') :
      Step crypto reg ⟨inst, before ++ ⟨storeHash, candidates, .client, φ⟩ :: after⟩ none
        ⟨inst', before ++ ⟨storeHash, candidates, .client, .cleanup lock result⟩ :: after⟩
  | other {s : Flights} {inst : Instance} (h : s.inst.SameLocks inst) :
      Step crypto reg s none { s with inst := inst }

/-- The states a run from `s₀` leads to, all of whose steps meet a condition. -/
inductive Reached (crypto : Crypto) (reg : Registry) (meets : Flights → Option Lookup → Prop)
    (s₀ : Flights) : Flights → Prop
  | refl : Reached crypto reg meets s₀ s₀
  | step {s s' : Flights} {label : Option Lookup} (h : Reached crypto reg meets s₀ s)
      (hmeets : meets s label) (hstep : Step crypto reg s label s') :
      Reached crypto reg meets s₀ s'

/-- The condition on a step: a lookup whose second check misses still has the
lock that the inflight map has for its hash. -/
def missesUnderEntry (s : Flights) (label : Option Lookup) : Prop :=
  ∀ storeHash candidates lock,
    label = some ⟨storeHash, candidates, .client, .secondCheck lock ⟨.ret (.ok none), trivial⟩⟩ →
    s.inst.inflight.get storeHash = some (storeHash, lock)

/-- The lookups of a hash between their second check and the end of their race. -/
def racing (s : Flights) (storeHash : Str) : List Lookup :=
  s.lookups.filter fun lookup =>
    lookup.storeHash = storeHash && lookup.phase.raceLock?.isSome

end Flights

/-! ## What a step does to the locks -/

/-- The operations on the inflight map and its locks. -/
def Op.onLocks : Op → Prop
  | .inflightEntry _ | .lock _ | .inflightRemoveIf _ _ | .unlock _ => True
  | _ => False

theorem LookupOp.not_onLocks {hop : Hop} {op : Op} (h : LookupOp hop op) : ¬op.onLocks := by
  cases op <;> first | exact h.elim | exact not_false

theorem Instance.exec_sameLocks {reg : Registry} {op : Op} {s s' : Instance} {reply : op.Reply}
    (h : Instance.exec reg op s reply s') (hop : ¬op.onLocks) : s.SameLocks s' := by
  have hrefl : s.SameLocks s := ⟨rfl, rfl, rfl⟩
  cases op with
  | inflightEntry _ => exact (hop trivial).elim
  | lock _ => exact (hop trivial).elim
  | inflightRemoveIf _ _ => exact (hop trivial).elim
  | unlock _ => exact (hop trivial).elim
  | inCooldown url =>
      obtain ⟨-, rfl⟩ := h
      unfold dropExpiredCooldown
      split
      · exact hrefl
      · exact ⟨rfl, rfl, rfl⟩
  | dbSetNegative storePath ttl =>
      obtain ⟨-, rfl⟩ | ⟨-, rfl⟩ := h
      · exact hrefl
      · exact ⟨rfl, rfl, rfl⟩
  | dbUpsertRoute entry =>
      obtain ⟨-, rfl⟩ | ⟨-, rfl⟩ := h
      · exact hrefl
      · exact ⟨rfl, rfl, rfl⟩
  | dbEvictIfNeeded =>
      obtain ⟨-, rfl⟩ | ⟨-, _, -, rfl⟩ := h
      · exact hrefl
      · exact ⟨rfl, rfl, rfl⟩
  | _ =>
      simp only [exec, Prod.mk.injEq] at h
      first
        | obtain rfl := h; exact ⟨rfl, rfl, rfl⟩
        | obtain ⟨-, rfl⟩ := h; exact ⟨rfl, rfl, rfl⟩
        | obtain ⟨-, -, rfl⟩ := h; exact ⟨rfl, rfl, rfl⟩

/-- What an operation of a lookup does to the locks, by the phases before and
after it. An entry of the map goes only when the lookup that holds its lock
removes it, and then the lookup is not racing. -/
structure LockEffect {hop : Hop} (storeHash : Str) (φ φ' : Phase hop) (s s' : Instance) :
    Prop where
  held : φ'.lock? = φ.lock? ∧ s'.held = s.held ∨
    (∃ lock, φ.lock? = none ∧ φ'.lock? = some lock ∧ lock ∉ s.held ∧ s'.held = lock :: s.held) ∨
    ∃ lock, φ.lock? = some lock ∧ φ'.lock? = none ∧ s'.held = s.held.erase lock
  entries : ∀ entry ∈ s.inflight.rows, entry ∈ s'.inflight.rows ∨
    φ.raceLock? = none ∧ ∃ lock, entry = (storeHash, lock) ∧ φ.lock? = some lock

theorem Instance.SameLocks.lockEffect {hop : Hop} {s s' : Instance} (h : s.SameLocks s')
    (storeHash : Str) {φ φ' : Phase hop} (hlock : φ'.lock? = φ.lock?) :
    LockEffect storeHash φ φ' s s' :=
  ⟨.inl ⟨hlock, h.held⟩, fun entry hentry => .inl (by rwa [h.inflight])⟩

namespace Phase

variable {crypto : Crypto} {reg : Registry} {storeHash : Str} {candidates : List Str} {hop : Hop}
  {φ φ' : Phase hop}

theorem lock?_missed : (missed crypto reg storeHash candidates hop).lock? = none := by
  cases hop with
  | client => rfl
  | peerOfPeer => rfl
  | peer =>
      unfold missed
      split <;> rfl

theorem lock?_afterFirstCheck (checked : Except RouterError (Option ResolveResult)) :
    (afterFirstCheck crypto reg storeHash candidates checked : Phase hop).lock? = none := by
  match checked with
  | .error err => rfl
  | .ok (some result) => rfl
  | .ok none => exact lock?_missed

theorem lock?_afterSecondCheck (lock : LockId)
    (checked : Except RouterError (Option ResolveResult)) :
    (afterSecondCheck storeHash candidates lock checked).lock? = some lock := by
  match checked with
  | .error err => rfl
  | .ok (some result) => rfl
  | .ok none =>
      show (ite _ _ _ : Phase .client).lock? = some lock
      split <;> rfl

theorem lock?_afterRace (lock : LockId) (result : Except RouterError ResolveResult) :
    (afterRace lock result).lock? = some lock := by
  unfold afterRace
  split <;> rfl

/-- Passing a result on keeps the lock. -/
theorem Step.lock?_eq (h : φ.Step crypto reg storeHash candidates none φ') :
    φ'.lock? = φ.lock? := by
  cases h with
  | checked checked => exact lock?_afterFirstCheck checked
  | rechecked lock checked => exact lock?_afterSecondCheck lock checked
  | raced lock result => rfl
  | unguardedRaced result => rfl

/-- What an operation of a lookup does to the locks. -/
theorem Step.lockEffect {op : Op} {reply : op.Reply} {s s' : Instance}
    (h : φ.Step crypto reg storeHash candidates (some ⟨op, reply⟩) φ')
    (hexec : Instance.exec reg op s reply s') :
    LockEffect storeHash φ φ' s s' := by
  cases h with
  | checking h reply =>
      exact (Instance.exec_sameLocks hexec h.1.lookupOp.not_onLocks).lockEffect _ rfl
  | rechecking lock h reply =>
      exact (Instance.exec_sameLocks hexec h.1.lookupOp.not_onLocks).lockEffect _ rfl
  | racing lock h reply =>
      exact (Instance.exec_sameLocks hexec h.1.not_onLocks).lockEffect _ rfl
  | unguarded h reply =>
      exact (Instance.exec_sameLocks hexec h.1.not_onLocks).lockEffect _ rfl
  | remember lock => exact (Instance.exec_sameLocks hexec not_false).lockEffect _ rfl
  | recordNegative lock reply => exact (Instance.exec_sameLocks hexec not_false).lockEffect _ rfl
  | permit lock granted =>
      cases granted <;> exact (Instance.exec_sameLocks hexec not_false).lockEffect _ rfl
  | release lock result =>
      exact (Instance.exec_sameLocks hexec not_false).lockEffect _ (lock?_afterRace lock result)
  | entry lock =>
      cases hget : s.inflight.get storeHash with
      | some entry =>
          simp only [Instance.exec, hget] at hexec
          obtain ⟨-, rfl⟩ := hexec
          exact ⟨.inl ⟨rfl, rfl⟩, fun _ => .inl⟩
      | none =>
          simp only [Instance.exec, hget] at hexec
          obtain ⟨-, rfl⟩ := hexec
          refine ⟨.inl ⟨rfl, rfl⟩, fun entry hentry =>
            .inl (Table.mem_upsert.2 (.inr ⟨hentry, fun heq => ?_⟩))⟩
          rw [Table.mem_rows_iff, heq, hget] at hentry
          cases hentry
  | lock lock =>
      obtain ⟨hfree, rfl⟩ := hexec
      exact ⟨.inr (.inl ⟨lock, rfl, rfl, hfree, rfl⟩), fun _ => .inl⟩
  | cleanup lock result =>
      simp only [Instance.exec] at hexec
      split at hexec
      · rename_i hget
        subst hexec
        refine ⟨.inl ⟨rfl, rfl⟩, fun entry hentry => ?_⟩
        by_cases heq : entry.1 = storeHash
        · refine .inr ⟨rfl, lock, ?_, rfl⟩
          rw [← heq, Table.mem_rows_iff.1 hentry] at hget
          rw [← heq]
          exact Option.some.inj hget
        · exact .inl (Table.mem_erase.2 ⟨hentry, heq⟩)
      · subst hexec
        exact ⟨.inl ⟨rfl, rfl⟩, fun _ => .inl⟩
  | unlocking lock result =>
      obtain rfl := hexec
      exact ⟨.inr (.inr ⟨lock, rfl, rfl, rfl⟩), fun _ => .inl⟩

/-- A lookup comes to race only when its second check misses. -/
theorem Step.raceLock?_eq {e : Option HandlerEvent} {lock : LockId}
    (h : φ.Step crypto reg storeHash candidates e φ') (hrace : φ'.raceLock? = some lock) :
    φ.raceLock? = some lock ∨
      (⟨storeHash, candidates, hop, φ⟩ : Lookup) =
        ⟨storeHash, candidates, .client, .secondCheck lock ⟨.ret (.ok none), trivial⟩⟩ := by
  cases h with
  | racing lock h reply => exact .inl hrace
  | raced lock result => exact .inl hrace
  | permit lock granted =>
      cases granted with
      | false => cases hrace
      | true => exact .inl hrace
  | rechecked lock checked =>
      rcases checked with err | result | result
      · cases hrace
      · simp only [afterSecondCheck] at hrace
        split at hrace
        · cases hrace
        · cases hrace
          exact .inr rfl
      · cases hrace
  | checked checked =>
      rcases checked with err | result | result
      · cases hrace
      · cases hop with
        | client => cases hrace
        | peerOfPeer => cases hrace
        | peer =>
            simp only [afterFirstCheck, missed] at hrace
            split at hrace <;> cases hrace
      · cases hrace
  | release lock result =>
      unfold afterRace at hrace
      split at hrace <;> cases hrace
  | _ => cases hrace

end Phase

/-! ## The invariant -/

namespace Flights

/-- Every held lock has one holder, and a lookup that races does so under the
lock that the inflight map has for its hash. -/
structure Inv (s : Flights) : Prop where
  nodup : s.inst.held.Nodup
  holders : ∀ lock,
    s.lookups.countP (fun lookup => lookup.phase.lock? = some lock) = s.inst.held.count lock
  current : ∀ lookup ∈ s.lookups, ∀ lock, lookup.phase.raceLock? = some lock →
    (lookup.storeHash, lock) ∈ s.inst.inflight.rows

section

variable {crypto : Crypto} {reg : Registry} {inst inst' : Instance} {before after : List Lookup}
  {storeHash : Str} {candidates : List Str} {hop : Hop} {φ φ' : Phase hop}

/-- No other lookup holds the lock that a lookup holds. -/
theorem Inv.lock?_ne (h : Inv ⟨inst, before ++ ⟨storeHash, candidates, hop, φ⟩ :: after⟩)
    {lock : LockId} (hlock : φ.lock? = some lock) {lookup : Lookup}
    (hlookup : lookup ∈ before ++ after) : lookup.phase.lock? ≠ some lock := by
  intro hother
  have hcount := h.holders lock
  have hle : inst.held.count lock ≤ 1 := List.nodup_iff_count_le_one.1 h.nodup lock
  have hpos : 0 < (before ++ after).countP (fun lookup => lookup.phase.lock? = some lock) :=
    List.countP_pos_iff.2 ⟨lookup, hlookup, by simpa using hother⟩
  simp only [List.countP_append, List.countP_cons, hlock, decide_true, if_true] at hcount hpos
  omega

/-- A lookup going on keeps the invariant, if it races only under an entry of the
map. -/
theorem Inv.update (h : Inv ⟨inst, before ++ ⟨storeHash, candidates, hop, φ⟩ :: after⟩)
    (heffect : LockEffect storeHash φ φ' inst inst')
    (hrace : ∀ lock, φ'.raceLock? = some lock → (storeHash, lock) ∈ inst'.inflight.rows) :
    Inv ⟨inst', before ++ ⟨storeHash, candidates, hop, φ'⟩ :: after⟩ := by
  refine ⟨?_, fun lock => ?_, fun lookup hlookup lock hlock => ?_⟩
  · obtain ⟨-, heq⟩ | ⟨lock, -, -, hfree, heq⟩ | ⟨lock, -, -, heq⟩ := heffect.held
    · exact heq ▸ h.nodup
    · exact heq ▸ List.nodup_cons.2 ⟨hfree, h.nodup⟩
    · exact heq ▸ h.nodup.erase lock
  · have hcount := h.holders lock
    simp only [List.countP_append, List.countP_cons] at hcount ⊢
    obtain ⟨hlock, heq⟩ | ⟨taken, hφ, hφ', hfree, heq⟩ | ⟨given, hφ, hφ', heq⟩ := heffect.held
    · rw [hlock, heq]
      exact hcount
    · rw [hφ', heq, List.count_cons]
      rw [hφ] at hcount
      by_cases hl : taken = lock
      · simp [hl] at hcount ⊢
        omega
      · simp [hl] at hcount ⊢
        omega
    · rw [hφ', heq, List.count_erase]
      rw [hφ] at hcount
      by_cases hl : given = lock
      · simp [hl] at hcount ⊢
        omega
      · simp [hl] at hcount ⊢
        omega
  · have hothers : ∀ lookup ∈ before ++ after, lookup.phase.raceLock? = some lock →
        (lookup.storeHash, lock) ∈ inst'.inflight.rows := by
      intro other hother hlock
      have hmem : other ∈ before ++ ⟨storeHash, candidates, hop, φ⟩ :: after := by
        rw [List.mem_append] at hother
        rw [List.mem_append, List.mem_cons]
        exact hother.imp_right .inr
      rcases heffect.entries _ (h.current other hmem lock hlock) with hkept | ⟨-, own, heq, hown⟩
      · exact hkept
      · obtain ⟨-, rfl⟩ := Prod.mk.inj heq
        exact absurd (Phase.lock?_of_raceLock? hlock) (h.lock?_ne hown hother)
    rw [List.mem_append, List.mem_cons] at hlookup
    rcases hlookup with hlookup | rfl | hlookup
    · exact hothers lookup (List.mem_append_left _ hlookup) hlock
    · exact hrace lock hlock
    · exact hothers lookup (List.mem_append_right _ hlookup) hlock

/-- One step keeps the invariant. -/
theorem Inv.step {s s' : Flights} {label : Option Lookup} (h : Inv s)
    (hmeets : missesUnderEntry s label) (hstep : Step crypto reg s label s') : Inv s' := by
  cases hstep with
  | start _ storeHash candidates hop =>
      refine ⟨h.nodup, fun lock => ?_, fun lookup hlookup lock hlock => ?_⟩
      · rw [List.countP_cons_of_neg (by simp [Phase.lock?])]
        exact h.holders lock
      · rcases List.mem_cons.1 hlookup with rfl | hlookup
        · cases hlock
        · exact h.current lookup hlookup lock hlock
  | @pass inst before after storeHash candidates hop φ φ' hφ =>
      refine h.update ⟨.inl ⟨hφ.lock?_eq, rfl⟩, fun _ => .inl⟩ fun lock hlock => ?_
      rcases hφ.raceLock?_eq hlock with hlock | heq
      · exact h.current ⟨storeHash, candidates, hop, φ⟩ (by simp) lock hlock
      · exact Table.mem_rows_iff.2 (hmeets storeHash candidates lock (congrArg some heq))
  | @perform inst inst' before after storeHash candidates hop φ φ' op reply hφ hexec =>
      have heffect := hφ.lockEffect hexec
      refine h.update heffect fun lock hlock => ?_
      rcases hφ.raceLock?_eq hlock with hlock | heq
      · have hentry := h.current ⟨storeHash, candidates, hop, φ⟩ (by simp) lock hlock
        rcases heffect.entries _ hentry with hkept | ⟨hnone, -⟩
        · exact hkept
        · rw [hlock] at hnone
          cases hnone
      · cases heq
        cases hφ
  | @drop inst before after lookup hlock =>
      refine ⟨h.nodup, fun lock => ?_, fun other hother => h.current other ?_⟩
      · have hholders := h.holders lock
        simpa [hlock] using hholders
      · rcases List.mem_append.1 hother with hother | hother <;> simp [hother]
  | @dropLocked inst inst' before after storeHash candidates φ lock hlock result hsame =>
      exact h.update (hsame.lockEffect storeHash hlock.symm) nofun
  | @other s inst hsame =>
      refine ⟨hsame.held ▸ h.nodup, fun lock => hsame.held ▸ h.holders lock,
        fun lookup hlookup lock hlock => ?_⟩
      rw [hsame.inflight]
      exact h.current lookup hlookup lock hlock

/-- The invariant in every state reached. -/
theorem Reached.inv {s₀ s : Flights} (h : Reached crypto reg missesUnderEntry s₀ s)
    (h₀ : Inv s₀) : Inv s := by
  induction h with
  | refl => exact h₀
  | step _ hmeets hstep ih => exact ih.step hmeets hstep

/-- Lookups of a hash that race hold the same lock, so there is only one. -/
theorem Inv.length_racing_le_one {s : Flights} (h : Inv s) (storeHash : Str) :
    (s.racing storeHash).length ≤ 1 := by
  by_cases hnil : s.racing storeHash = []
  · simp [hnil]
  have hracing : ∀ lookup ∈ s.racing storeHash, ∃ lock, lookup.phase.raceLock? = some lock ∧
      s.inst.inflight.get storeHash = some (storeHash, lock) := by
    intro lookup hlookup
    obtain ⟨hmem, hrace⟩ := List.mem_filter.1 hlookup
    rw [Bool.and_eq_true, decide_eq_true_eq, Option.isSome_iff_exists] at hrace
    obtain ⟨rfl, lock, hlock⟩ := hrace
    exact ⟨lock, hlock, Table.mem_rows_iff.1 (h.current lookup hmem lock hlock)⟩
  obtain ⟨first, hfirst⟩ := List.exists_mem_of_ne_nil _ hnil
  obtain ⟨lock, -, hentry⟩ := hracing first hfirst
  have hholds : ∀ lookup ∈ s.racing storeHash, lookup.phase.lock? = some lock := by
    intro lookup hlookup
    obtain ⟨lock', hlock', hentry'⟩ := hracing lookup hlookup
    rw [hentry] at hentry'
    cases hentry'
    exact Phase.lock?_of_raceLock? hlock'
  calc (s.racing storeHash).length
      = (s.racing storeHash).countP (fun lookup => lookup.phase.lock? = some lock) :=
        (List.countP_eq_length.2 (by simpa using hholds)).symm
    _ ≤ s.lookups.countP (fun lookup => lookup.phase.lock? = some lock) :=
        (List.filter_sublist).countP_le
    _ = s.inst.held.count lock := h.holders lock
    _ ≤ 1 := List.nodup_iff_count_le_one.1 h.nodup lock

/-- Single flight. When every lookup whose second check misses still has the
lock that the inflight map has for its hash, then in every state reached at most
one client's lookup of a hash is between its second check and the end of its
race. -/
theorem single_flight (crypto : Crypto) (reg : Registry) {s₀ s : Flights}
    (hlookups : s₀.lookups = []) (hheld : s₀.inst.held = [])
    (hreached : Reached crypto reg missesUnderEntry s₀ s) (storeHash : Str) :
    (s.racing storeHash).length ≤ 1 := by
  have h₀ : Inv s₀ :=
    ⟨by simp [hheld], fun lock => by simp [hlookups, hheld], by simp [hlookups]⟩
  exact (hreached.inv h₀).length_racing_le_one storeHash

/-! ## Three lookups -/

/-- No cache knows the hash. -/
structure CachesMiss (s : Instance) (storeHash : Str) : Prop where
  missLru : s.missLru.get s.clock storeHash = (none, s.missLru)
  negatives : s.negatives.isNegative s.wallClock storeHash = false
  lru : s.lru.get s.clock storeHash = (none, s.lru)
  routes : s.routes.getRoute storeHash = .ok none

/-- The events of a look at caches that do not know the hash. -/
def missedEvents (storeHash : Str) : List HandlerEvent :=
  [⟨.missLruGet storeHash, none⟩, ⟨.dbIsNegative storeHash, .ok false⟩,
    ⟨.lruGet storeHash, none⟩, ⟨.dbGetRoute storeHash, .ok none⟩]

theorem CachesMiss.replay (h : CachesMiss inst storeHash) :
    Replay (Instance.exec reg) (resolveCached crypto reg storeHash hop) inst
      (missedEvents storeHash) (.ok none) inst := by
  have hmiss : Instance.exec reg (.missLruGet storeHash) inst none inst := by
    rw [Instance.exec, h.missLru]
  have hnegative : Instance.exec reg (.dbIsNegative storeHash) inst (.ok false) inst :=
    ⟨.inr (by rw [h.negatives]), rfl⟩
  have hlru : Instance.exec reg (.lruGet storeHash) inst none inst := by rw [Instance.exec, h.lru]
  have hread : Instance.exec reg (.dbGetRoute storeHash) inst (.ok none) inst :=
    ⟨.inr h.routes.symm, rfl⟩
  exact .call_bind hmiss (.call_bind hnegative (.call_bind hlru (.call_bind hread (.ret _ _))))

variable {s₀ : Flights} {meets : Flights → Option Lookup → Prop}

variable (before after)

theorem Reached.perform {op : Op} {reply : op.Reply}
    (hmeets : ∀ s label, missesUnderEntry s label → meets s label)
    (h : Reached crypto reg meets s₀ ⟨inst, before ++ ⟨storeHash, candidates, hop, φ⟩ :: after⟩)
    (hstep : φ.Step crypto reg storeHash candidates (some ⟨op, reply⟩) φ')
    (hexec : Instance.exec reg op inst reply inst') :
    Reached crypto reg meets s₀
      ⟨inst', before ++ ⟨storeHash, candidates, hop, φ'⟩ :: after⟩ := by
  refine h.step (hmeets _ _ fun _ _ _ heq => ?_) (.perform hstep hexec)
  cases heq
  cases hstep

theorem Reached.pass
    (hmeets : meets ⟨inst, before ++ ⟨storeHash, candidates, hop, φ⟩ :: after⟩
      (some ⟨storeHash, candidates, hop, φ⟩))
    (h : Reached crypto reg meets s₀ ⟨inst, before ++ ⟨storeHash, candidates, hop, φ⟩ :: after⟩)
    (hstep : φ.Step crypto reg storeHash candidates none φ') :
    Reached crypto reg meets s₀ ⟨inst, before ++ ⟨storeHash, candidates, hop, φ'⟩ :: after⟩ :=
  h.step hmeets (.pass hstep)

/-- A part of a lookup that runs on its own is reached at its end. -/
theorem Reached.part {α : Type} {P : Op → Prop} {wrap : {p : Handler α // Performs P p} → Phase hop}
    {p : Handler α} {a : α} (hmeets : ∀ s label, missesUnderEntry s label → meets s label)
    (hwrap : ∀ op next (h : Performs P (.perform op next)) reply,
      (wrap ⟨.perform op next, h⟩).Step crypto reg storeHash candidates (some ⟨op, reply⟩)
        (wrap ⟨next reply, h.2 reply⟩))
    (hexec : Execution (Instance.exec reg) p inst a inst') (hp : Performs P p)
    (h : Reached crypto reg meets s₀
      ⟨inst, before ++ ⟨storeHash, candidates, hop, wrap ⟨p, hp⟩⟩ :: after⟩) :
    Reached crypto reg meets s₀
      ⟨inst', before ++ ⟨storeHash, candidates, hop, wrap ⟨.ret a, trivial⟩⟩ :: after⟩ := by
  induction hexec with
  | ret a s => exact h
  | perform hsem _ ih => exact ih (hp.2 _) (h.perform before after hmeets (hwrap _ _ hp _) hsem)

/-- A client's lookup whose first check misses is about to take its lock. -/
theorem Reached.entry (hmeets : ∀ s label, missesUnderEntry s label → meets s label)
    (hmiss : CachesMiss inst storeHash)
    (h : Reached crypto reg meets s₀ ⟨inst, before ++ ⟨storeHash, candidates, .client,
      .firstCheck ⟨resolveCached crypto reg storeHash .client, performs_resolveCached⟩⟩ :: after⟩) :
    Reached crypto reg meets s₀
      ⟨inst, before ++ ⟨storeHash, candidates, .client, .entry⟩ :: after⟩ :=
  (h.part before after hmeets (fun _ _ hp reply => .checking hp reply) hmiss.replay.execution _).pass
    before after (hmeets _ _ fun _ _ _ heq => by cases heq) (.checked (.ok none))

/-- A lookup that gets a free lock, and whose second check misses, races. -/
theorem Reached.racing (hmeets : ∀ s label, missesUnderEntry s label → meets s label)
    (hmiss : CachesMiss inst storeHash) (hne : candidates ≠ []) {lock : LockId}
    (hfree : lock ∉ inst.held) (hpermit : 0 < inst.racePermits)
    (hmeets' : meets ⟨{ inst with held := lock :: inst.held }, before ++ ⟨storeHash, candidates,
      .client, .secondCheck lock ⟨.ret (.ok none), trivial⟩⟩ :: after⟩
      (some ⟨storeHash, candidates, .client, .secondCheck lock ⟨.ret (.ok none), trivial⟩⟩))
    (h : Reached crypto reg meets s₀
      ⟨inst, before ++ ⟨storeHash, candidates, .client, .waiting lock⟩ :: after⟩) :
    Reached crypto reg meets s₀
      ⟨{ inst with held := lock :: inst.held, racePermits := inst.racePermits - 1 },
        before ++ ⟨storeHash, candidates, .client, .racing lock
          ⟨raceCandidates crypto reg storeHash candidates .client,
            performs_raceCandidates candidates⟩⟩ :: after⟩ := by
  have hmiss' : CachesMiss { inst with held := lock :: inst.held } storeHash :=
    ⟨hmiss.missLru, hmiss.negatives, hmiss.lru, hmiss.routes⟩
  have hlocked := h.perform before after hmeets (.lock lock) ⟨hfree, rfl⟩
  have hchecked := (hlocked.part before after hmeets
    (fun _ _ hp reply => .rechecking lock hp reply) hmiss'.replay.execution _).pass before after hmeets'
    (.rechecked lock (.ok none))
  rw [Phase.afterSecondCheck, if_neg hne] at hchecked
  exact hchecked.perform before after hmeets (.permit lock true) ⟨hpermit, rfl, rfl⟩

end

/-- An instance with empty caches and two race permits. -/
def emptyCaches : Instance := .start default ∅ ∅ ∅ 100000 0 0 2 default 0

/-- A race whose only upstream cannot be reached leaves nothing in the caches. -/
theorem execution_unreachable {inst : Instance} (hcool : inst.inCooldown ['u'] = false)
    (hhealth : inst.health.get ['u'] = none) :
    Execution (Instance.exec default) (raceCandidates default default ['h'] [['u']] .client) inst
      (.error .upstreamUnavailable) ((inst.dropExpiredCooldown ['u']).markCooldown ['u']) := by
  have hhealth' : (inst.dropExpiredCooldown ['u']).health.get ['u'] = none := by
    rwa [Instance.dropExpiredCooldown, hcool]
  let requests := [headRequest default ['h'] .client ['u']]
  have hjoin : Instance.exec default (.joinHead requests) (inst.dropExpiredCooldown ['u'])
      (some (0, .networkError)) (inst.dropExpiredCooldown ['u']) := rfl
  refine .call_bind (r := false) ⟨hcool.symm, rfl⟩ (.call_bind (r := none) ⟨hhealth'.symm, rfl⟩ ?_)
  show Execution _ (raceWithinGroup _ _ _ _ _ _ >>= _) _ _ _
  rw [raceWithinGroup, if_neg (by decide)]
  refine .call_bind (r := ()) rfl ?_
  show Execution _ (joinHeads _ _ _ _ _ >>= _ >>= _) _ _ _
  rw [joinHeads, if_neg (by decide)]
  refine .call_bind hjoin (.call_bind (r := ()) rfl ?_)
  show Execution _ (joinHeads _ _ _ _ _ >>= _ >>= _) _ _ _
  rw [joinHeads, if_pos (by decide)]
  exact .ret _ _

/-- A lookup on its own comes to race, under the entry that it made. -/
theorem single_flight_one :
    ∃ s, Reached default default missesUnderEntry ⟨emptyCaches, []⟩ s ∧
      s.racing ['h'] ≠ [] ∧ (s.racing ['h']).length ≤ 1 := by
  have hrefl : Reached default default missesUnderEntry ⟨emptyCaches, []⟩ _ := .refl
  have hstart := hrefl.step (fun _ _ _ heq => by cases heq) (.start _ ['h'] [['u']] .client)
  have hfirst := hstart.entry [] [] (fun _ _ h => h) ⟨rfl, rfl, rfl, rfl⟩
  have hwaiting := hfirst.perform [] [] (fun _ _ h => h) (.entry 0) ⟨rfl, rfl⟩
  have hracing := hwaiting.racing [] [] (fun _ _ h => h) ⟨rfl, rfl, rfl, rfl⟩ (by decide)
    (by decide) (by decide) (fun _ _ _ heq => by cases heq; rfl)
  exact ⟨_, hracing, nofun, single_flight default default rfl rfl hracing ['h']⟩

/-- A first lookup races in vain while a second one waits for its lock. The
second then races too, and so does a third that came when the map no longer had
the lock. -/
theorem two_racing :
    ∃ s, Reached default default (fun _ _ => True) ⟨emptyCaches, []⟩ s ∧
      (s.racing ['h']).length = 2 := by
  have hmeets : ∀ s label, missesUnderEntry s label → True := fun _ _ _ => trivial
  have hrefl : Reached default default (fun _ _ => True) ⟨emptyCaches, []⟩ _ := .refl
  have hfirst := (hrefl.step trivial (.start _ ['h'] [['u']] .client)).entry [] [] hmeets
    ⟨rfl, rfl, rfl, rfl⟩
  have hwaiting := hfirst.perform [] [] hmeets (.entry 0) ⟨rfl, rfl⟩
  have hracing := hwaiting.racing [] [] hmeets ⟨rfl, rfl, rfl, rfl⟩ (by decide) (by decide)
    (by decide) trivial
  have hsecond := (hracing.step trivial (.start _ ['h'] [['u']] .client)).entry [] _ hmeets
    ⟨rfl, rfl, rfl, rfl⟩
  have hblocked := hsecond.perform [] _ hmeets (.entry 0) ⟨rfl, rfl⟩
  have hraced := (Reached.part [_] [] hmeets (fun _ _ hp reply => .racing 0 hp reply)
    (execution_unreachable (by decide) rfl) _ hblocked).pass [_] [] trivial (.raced 0 _)
  have hreleased := hraced.perform [_] [] hmeets (.release 0 _) rfl
  have hcleaned := hreleased.perform [_] [] hmeets (.cleanup 0 _) rfl
  have hdone := hcleaned.perform [_] [] hmeets (.unlocking 0 _) rfl
  have hstale := hdone.racing [] _ hmeets ⟨rfl, rfl, rfl, rfl⟩ (by decide) (by decide) (by decide)
    trivial
  have hthird := (hstale.step trivial (.start _ ['h'] [['u']] .client)).entry [] _ hmeets
    ⟨rfl, rfl, rfl, rfl⟩
  have hfresh := hthird.perform [] _ hmeets (.entry 1) ⟨rfl, rfl⟩
  have hboth := hfresh.racing [] _ hmeets ⟨rfl, rfl, rfl, rfl⟩ (by decide) (by decide) (by decide)
    trivial
  exact ⟨_, hboth, rfl⟩

end Flights

end Ncro
