import Ncro.Router.SingleFlight

/-!
# The entries of the inflight map

An entry of the inflight map belongs to the lookup that inserted its lock. A
lookup that waits for a lock may outlive the entry, and another lookup may then
have made a new one, so a guard compares the lock of the entry with its own
before it removes anything. `InflightMap` is an instance with its lookups, each
of which remembers what it has inserted; forgetting that leaves the steps of
`Flights`, and the steps it lacks are those that drop a lookup between taking
its lock from the map and getting it.
-/

namespace Ncro

open Foundation Foundation.Process

/-- A lookup with the lock that it has inserted into the inflight map, until it
drops its `InflightGuard`. -/
structure Caller where
  lookup : Lookup
  inserted : Option LockId

/-- An instance and its lookups under way. -/
structure InflightMap where
  inst : Instance
  callers : List Caller

namespace Phase

variable {hop : Hop}

/-- The lock that a lookup has taken from the inflight map, until it drops its
`InflightGuard`. -/
def handle? : Phase hop → Option LockId
  | .waiting lock | .secondCheck lock _ | .permit lock | .racing lock _ | .release lock _
  | .remember lock | .recordNegative lock | .cleanup lock _ => some lock
  | _ => none

def isDone : Phase hop → Bool
  | .done _ => true
  | _ => false

/-- Only the lookups of clients take a lock. -/
theorem hop_of_handle? {φ : Phase hop} {lock : LockId} (h : φ.handle? = some lock) :
    hop = .client ∧ φ.isDone = false := by
  cases φ with
  | firstCheck check => cases h
  | unguarded race => cases h
  | done result => cases h
  | _ => exact ⟨rfl, rfl⟩

/-- A lookup that holds its lock has no other one. -/
theorem eq_of_handle? {φ : Phase hop} {lock own : LockId} (h : φ.lock? = some lock)
    (hown : φ.handle? = some own) : own = lock := by
  cases φ with
  | waiting lock => cases h
  | _ => first | exact Option.some.inj (hown.symm.trans h) | cases hown

end Phase

namespace InflightMap

/-- What a lookup has inserted after an event. -/
def insertedAfter (inst : Instance) (own : Option LockId) : HandlerEvent → Option LockId
  | ⟨.inflightEntry storeHash, lock⟩ =>
      if inst.inflight.get storeHash = none then some lock else own
  | ⟨.inflightRemoveIf _ _, _⟩ => none
  | _ => own

/-- The steps of `Flights`. A lookup that has taken a lock from the map and has
not got it yet is not dropped. -/
inductive Step (crypto : Crypto) (reg : Registry) :
    InflightMap → Option Lookup → InflightMap → Prop
  | start (s : InflightMap) (storeHash : Str) (candidates : List Str) (hop : Hop) :
      Step crypto reg s none { s with
        callers := ⟨⟨storeHash, candidates, hop,
          .firstCheck ⟨resolveCached crypto reg storeHash hop, performs_resolveCached⟩⟩, none⟩ ::
            s.callers }
  | pass {inst : Instance} {before after : List Caller} {storeHash : Str} {candidates : List Str}
      {hop : Hop} {φ φ' : Phase hop} {own : Option LockId}
      (h : φ.Step crypto reg storeHash candidates none φ') :
      Step crypto reg ⟨inst, before ++ ⟨⟨storeHash, candidates, hop, φ⟩, own⟩ :: after⟩
        (some ⟨storeHash, candidates, hop, φ⟩)
        ⟨inst, before ++ ⟨⟨storeHash, candidates, hop, φ'⟩, own⟩ :: after⟩
  | perform {inst inst' : Instance} {before after : List Caller} {storeHash : Str}
      {candidates : List Str} {hop : Hop} {φ φ' : Phase hop} {own : Option LockId} {op : Op}
      {reply : op.Reply} (h : φ.Step crypto reg storeHash candidates (some ⟨op, reply⟩) φ')
      (hexec : Instance.exec reg op inst reply inst') :
      Step crypto reg ⟨inst, before ++ ⟨⟨storeHash, candidates, hop, φ⟩, own⟩ :: after⟩
        (some ⟨storeHash, candidates, hop, φ⟩)
        ⟨inst', before ++ ⟨⟨storeHash, candidates, hop, φ'⟩,
          insertedAfter inst own ⟨op, reply⟩⟩ :: after⟩
  | drop {inst : Instance} {before after : List Caller} {caller : Caller}
      (h : caller.lookup.phase.lock? = none) (hhandle : caller.lookup.phase.handle? = none) :
      Step crypto reg ⟨inst, before ++ caller :: after⟩ none ⟨inst, before ++ after⟩
  | dropLocked {inst inst' : Instance} {before after : List Caller} {storeHash : Str}
      {candidates : List Str} {φ : Phase .client} {own : Option LockId} {lock : LockId}
      (h : φ.lock? = some lock) (result : Except RouterError ResolveResult)
      (hsame : inst.SameLocks inst') :
      Step crypto reg ⟨inst, before ++ ⟨⟨storeHash, candidates, .client, φ⟩, own⟩ :: after⟩ none
        ⟨inst', before ++ ⟨⟨storeHash, candidates, .client, .cleanup lock result⟩, own⟩ :: after⟩
  | other {s : InflightMap} {inst : Instance} (h : s.inst.SameLocks inst) :
      Step crypto reg s none { s with inst := inst }

/-- The states a run from `s₀` leads to. -/
inductive Reached (crypto : Crypto) (reg : Registry) (s₀ : InflightMap) : InflightMap → Prop
  | refl : Reached crypto reg s₀ s₀
  | step {s s' : InflightMap} {label : Option Lookup} (h : Reached crypto reg s₀ s)
      (hstep : Step crypto reg s label s') : Reached crypto reg s₀ s'

/-! ## The steps of `Flights` -/

/-- The lookups without what they have inserted. -/
def flights (s : InflightMap) : Flights :=
  ⟨s.inst, s.callers.map Caller.lookup⟩

section

variable {crypto : Crypto} {reg : Registry} {s s' : InflightMap} {label : Option Lookup}

theorem flights_append_cons (inst : Instance) (before after : List Caller)
    (caller : Caller) :
    flights ⟨inst, before ++ caller :: after⟩ =
      ⟨inst, before.map Caller.lookup ++ caller.lookup :: after.map Caller.lookup⟩ := by
  simp [InflightMap.flights]

theorem flights_append (inst : Instance) (before after : List Caller) :
    flights ⟨inst, before ++ after⟩ =
      ⟨inst, before.map Caller.lookup ++ after.map Caller.lookup⟩ := by
  simp [InflightMap.flights]

theorem Step.flights (h : Step crypto reg s label s') :
    Flights.Step crypto reg s.flights label s'.flights := by
  cases h with
  | start _ storeHash candidates hop => exact .start _ storeHash candidates hop
  | pass h =>
    rw [flights_append_cons, flights_append_cons]
    exact .pass h
  | perform h hexec =>
    rw [flights_append_cons, flights_append_cons]
    exact .perform h hexec
  | drop h _ =>
    rw [flights_append_cons, flights_append]
    exact .drop h
  | dropLocked h result hsame =>
    rw [flights_append_cons, flights_append_cons]
    exact .dropLocked h result hsame
  | other h => exact .other h

/-- A lookup of `Flights` is one of the callers. -/
theorem exists_callers {inst : Instance} {before after : List Lookup} {lookup : Lookup}
    (h : s.flights = ⟨inst, before ++ lookup :: after⟩) :
    ∃ earlier own later, s = ⟨inst, earlier ++ ⟨lookup, own⟩ :: later⟩ ∧
      earlier.map Caller.lookup = before ∧ later.map Caller.lookup = after := by
  rcases s with ⟨inst', callers⟩
  rcases Flights.mk.inj h with ⟨rfl, hcallers⟩
  rcases List.map_eq_append_iff.1 hcallers with ⟨earlier, rest, rfl, hearlier, hrest⟩
  rcases List.map_eq_cons_iff.1 hrest with ⟨⟨caller, own⟩, later, rfl, rfl, hlater⟩
  exact ⟨earlier, own, later, rfl, hearlier, hlater⟩

/-- The steps of `Flights` that are not steps here drop a lookup that waits for
its lock. -/
theorem exists_step_of_flights {f : Flights} (h : Flights.Step crypto reg s.flights label f) :
    (∃ s', Step crypto reg s label s' ∧ s'.flights = f) ∨
      ∃ before after storeHash candidates lock,
        s.flights.lookups = before ++ ⟨storeHash, candidates, .client, .waiting lock⟩ :: after ∧
          f = ⟨s.inst, before ++ after⟩ := by
  generalize hs : s.flights = t at h
  cases h with
  | start _ storeHash candidates hop =>
    left
    subst hs
    exact ⟨_, .start s storeHash candidates hop, rfl⟩
  | pass h =>
    left
    rcases exists_callers hs with ⟨earlier, own, later, rfl, rfl, rfl⟩
    exact ⟨_, .pass h, flights_append_cons _ _ _ _⟩
  | perform h hexec =>
    left
    rcases exists_callers hs with ⟨earlier, own, later, rfl, rfl, rfl⟩
    exact ⟨_, .perform h hexec, flights_append_cons _ _ _ _⟩
  | @drop inst before after lookup h =>
    rcases exists_callers hs with ⟨earlier, own, later, rfl, rfl, rfl⟩
    cases hhandle : lookup.phase.handle? with
    | none =>
      left
      exact ⟨_, .drop h hhandle, flights_append _ _ _⟩
    | some lock =>
      right
      rcases lookup with ⟨storeHash, candidates, hop, φ⟩
      cases φ with
      | waiting lock => exact ⟨_, _, storeHash, candidates, lock, rfl, rfl⟩
      | firstCheck check => cases hhandle
      | entry => cases hhandle
      | unguarded race => cases hhandle
      | done result => cases hhandle
      | _ => cases h
  | dropLocked h result hsame =>
    left
    rcases exists_callers hs with ⟨earlier, own, later, rfl, rfl, rfl⟩
    exact ⟨_, .dropLocked h result hsame, flights_append_cons _ _ _ _⟩
  | other h =>
    left
    subst hs
    exact ⟨_, .other h, rfl⟩

end

end InflightMap

/-! ## What a step does to the map -/

namespace Phase

variable {crypto : Crypto} {reg : Registry} {storeHash : Str} {candidates : List Str} {hop : Hop}
  {φ φ' : Phase hop} {inst inst' : Instance}

/-- A first check takes no lock from the map. -/
theorem handle?_afterFirstCheck (checked : Except RouterError (Option ResolveResult)) :
    (afterFirstCheck crypto reg storeHash candidates checked : Phase hop).handle? = none := by
  match hop, checked with
  | _, .error err => rfl
  | _, .ok (some result) => rfl
  | .client, .ok none => rfl
  | .peerOfPeer, .ok none => rfl
  | .peer, .ok none =>
    show (ite _ _ _ : Phase .peer).handle? = none
    split <;> rfl

theorem handle?_afterSecondCheck (lock : LockId)
    (checked : Except RouterError (Option ResolveResult)) :
    (afterSecondCheck storeHash candidates lock checked).handle? = some lock := by
  match checked with
  | .error err => rfl
  | .ok (some result) => rfl
  | .ok none =>
    show (ite _ _ _ : Phase .client).handle? = some lock
    split <;> rfl

theorem handle?_afterRace (lock : LockId) (result : Except RouterError ResolveResult) :
    (afterRace lock result).handle? = some lock := by
  unfold afterRace
  split <;> rfl

/-- Passing a result on takes no lock and drops no guard. -/
theorem Step.handle?_eq (h : φ.Step crypto reg storeHash candidates none φ') :
    φ'.handle? = φ.handle? := by
  cases h with
  | checked checked => exact handle?_afterFirstCheck checked
  | rechecked lock checked => exact handle?_afterSecondCheck lock checked
  | raced lock result => rfl
  | unguardedRaced result => rfl

end Phase

namespace InflightMap

/-- What an operation of a lookup does to the map, and to what the lookup has
inserted. Only an operation on an entry is more than none at all. -/
inductive MapEffect (storeHash : Str) : {hop : Hop} → Phase hop → Phase hop →
    Option LockId → Option LockId → Instance → Instance → Prop
  | keep {hop : Hop} {φ φ' : Phase hop} {inst inst' : Instance} (own : Option LockId)
      (hhandle : φ'.handle? = φ.handle?) (hsame : inst'.inflight = inst.inflight) :
      MapEffect storeHash φ φ' own own inst inst'
  | find {inst : Instance} (own : Option LockId) (lock : LockId)
      (hget : inst.inflight.get storeHash ≠ none) :
      MapEffect storeHash .entry (.waiting lock) own own inst inst
  | insert {inst inst' : Instance} (own : Option LockId) (lock : LockId)
      (hget : inst.inflight.get storeHash = none)
      (hnew : inst'.inflight = inst.inflight.upsert (storeHash, lock)) :
      MapEffect storeHash .entry (.waiting lock) own (some lock) inst inst'
  | remove {inst inst' : Instance} (own : Option LockId) (lock : LockId)
      (result : Except RouterError ResolveResult)
      (hget : inst.inflight.get storeHash = some (storeHash, lock))
      (hnew : inst'.inflight = inst.inflight.erase storeHash) :
      MapEffect storeHash (.cleanup lock result) (.unlocking lock result) own none inst inst'
  | leave {inst : Instance} (own : Option LockId) (lock : LockId)
      (result : Except RouterError ResolveResult)
      (hget : inst.inflight.get storeHash ≠ some (storeHash, lock)) :
      MapEffect storeHash (.cleanup lock result) (.unlocking lock result) own none inst inst

theorem insertedAfter_of_not_onLocks {op : Op} {reply : op.Reply} (h : ¬op.onLocks)
    (inst : Instance) (own : Option LockId) : insertedAfter inst own ⟨op, reply⟩ = own := by
  cases op with
  | inflightEntry storeHash => exact absurd trivial h
  | inflightRemoveIf storeHash lock => exact absurd trivial h
  | _ => rfl

section

variable {crypto : Crypto} {reg : Registry} {inst inst' : Instance} {storeHash : Str}
  {candidates : List Str} {hop : Hop} {φ φ' : Phase hop} {op : Op} {reply : op.Reply}

/-- An operation that is not one on locks does nothing to the map. -/
theorem MapEffect.of_not_onLocks (hexec : Instance.exec reg op inst reply inst')
    (hop : ¬op.onLocks) (hhandle : φ'.handle? = φ.handle?) (own : Option LockId) :
    MapEffect storeHash φ φ' own (insertedAfter inst own ⟨op, reply⟩) inst inst' := by
  rw [insertedAfter_of_not_onLocks hop]
  exact .keep own hhandle (Instance.exec_sameLocks hexec hop).inflight

theorem mapEffect_of_step (h : φ.Step crypto reg storeHash candidates (some ⟨op, reply⟩) φ')
    (hexec : Instance.exec reg op inst reply inst') (own : Option LockId) :
    MapEffect storeHash φ φ' own (insertedAfter inst own ⟨op, reply⟩) inst inst' := by
  cases h with
  | checking h reply => exact .of_not_onLocks hexec h.1.lookupOp.not_onLocks (by rfl) own
  | rechecking lock h reply => exact .of_not_onLocks hexec h.1.lookupOp.not_onLocks (by rfl) own
  | racing lock h reply => exact .of_not_onLocks hexec h.1.not_onLocks (by rfl) own
  | unguarded h reply => exact .of_not_onLocks hexec h.1.not_onLocks (by rfl) own
  | remember lock => exact .of_not_onLocks hexec not_false (by rfl) own
  | recordNegative lock reply => exact .of_not_onLocks hexec not_false (by rfl) own
  | permit lock granted =>
    cases granted with
    | false => exact .of_not_onLocks hexec not_false (by rfl) own
    | true => exact .of_not_onLocks hexec not_false (by rfl) own
  | release lock result =>
    exact .of_not_onLocks hexec not_false (Phase.handle?_afterRace lock result) own
  | lock lock =>
    rcases hexec with ⟨-, rfl⟩
    exact .keep own rfl rfl
  | unlocking lock result =>
    cases hexec
    exact .keep own rfl rfl
  | entry lock =>
    cases hget : inst.inflight.get storeHash with
    | some entry =>
      have hne : inst.inflight.get storeHash ≠ none := by simp [hget]
      simp only [Instance.exec, hget] at hexec
      rw [insertedAfter, if_neg hne, hexec.2]
      exact .find own lock hne
    | none =>
      simp only [Instance.exec, hget] at hexec
      rcases hexec with ⟨rfl, rfl⟩
      rw [insertedAfter, if_pos hget]
      exact .insert own _ hget rfl
  | cleanup lock result =>
    simp only [Instance.exec] at hexec
    split at hexec
    · next hget =>
      cases hexec
      exact .remove own lock result hget rfl
    · next hget =>
      cases hexec
      exact .leave own lock result hget

/-- A guard removes the entry that has its own lock, and nothing else removes an
entry. -/
theorem MapEffect.removed {own own' : Option LockId} {entry : Str × LockId}
    (h : MapEffect storeHash φ φ' own own' inst inst') (candidates : List Str)
    (hentry : entry ∈ inst.inflight.rows) (hgone : entry ∉ inst'.inflight.rows) :
    ∃ lock result, (⟨storeHash, candidates, hop, φ⟩ : Lookup) =
        ⟨storeHash, candidates, .client, .cleanup lock result⟩ ∧ entry = (storeHash, lock) := by
  cases h with
  | keep own hhandle hsame =>
    rw [hsame] at hgone
    exact absurd hentry hgone
  | find own lock hget => exact absurd hentry hgone
  | leave own lock result hget => exact absurd hentry hgone
  | insert own lock hget hnew =>
    have hne : entry.1 ≠ storeHash := by
      rintro rfl
      rw [Table.mem_rows_iff.1 hentry] at hget
      cases hget
    rw [hnew] at hgone
    exact absurd (Table.mem_upsert.2 (.inr ⟨hentry, hne⟩)) hgone
  | remove own lock result hget hnew =>
    have heq : entry.1 = storeHash := by
      by_contra hne
      rw [hnew] at hgone
      exact hgone (Table.mem_erase.2 ⟨hentry, hne⟩)
    have hfound := Table.mem_rows_iff.1 hentry
    rw [heq, hget] at hfound
    exact ⟨lock, result, rfl, (Option.some.inj hfound).symm⟩

end

/-! ## The invariant -/

/-- A lookup that has inserted a lock still holds its handle, and every entry of
the map has been inserted by such a lookup. -/
structure Inv (s : InflightMap) : Prop where
  handles : ∀ caller ∈ s.callers, ∀ lock,
    caller.inserted = some lock → caller.lookup.phase.handle? = some lock
  entries : ∀ entry ∈ s.inst.inflight.rows, ∃ caller ∈ s.callers,
    caller.lookup.storeHash = entry.1 ∧ caller.inserted = some entry.2

section

variable {crypto : Crypto} {reg : Registry} {inst inst' : Instance} {before after : List Caller}
  {storeHash : Str} {candidates : List Str} {hop : Hop} {φ φ' : Phase hop}
  {own own' : Option LockId}

/-- A lookup still holds the handle of the lock that it has inserted. -/
theorem MapEffect.handle (h : MapEffect storeHash φ φ' own own' inst inst')
    (hown : ∀ lock, own = some lock → φ.handle? = some lock) :
    ∀ lock, own' = some lock → φ'.handle? = some lock := by
  intro lock hlock
  cases h with
  | keep own hhandle hsame => exact hhandle.trans (hown lock hlock)
  | find own lock' hget => cases hown lock hlock
  | insert own lock' hget hnew => exact hlock
  | remove own lock' result hget hnew => cases hlock
  | leave own lock' result hget => cases hlock

/-- An entry is the lookup's own one, or it was there before, and then the
lookup has not given it up. -/
theorem MapEffect.entries (h : MapEffect storeHash φ φ' own own' inst inst')
    (hown : ∀ lock, own = some lock → φ.handle? = some lock) {entry : Str × LockId}
    (hentry : entry ∈ inst'.inflight.rows) :
    storeHash = entry.1 ∧ own' = some entry.2 ∨
      entry ∈ inst.inflight.rows ∧
        (storeHash = entry.1 → own = some entry.2 → own' = some entry.2) := by
  cases h with
  | keep own hhandle hsame =>
    rw [hsame] at hentry
    exact .inr ⟨hentry, fun _ heq => heq⟩
  | find own lock hget => exact .inr ⟨hentry, fun _ heq => heq⟩
  | insert own lock hget hnew =>
    rw [hnew] at hentry
    rcases Table.mem_upsert.1 hentry with rfl | ⟨hentry, hne⟩
    · exact .inl ⟨rfl, rfl⟩
    · exact .inr ⟨hentry, fun heq => absurd heq.symm hne⟩
  | remove own lock result hget hnew =>
    rw [hnew] at hentry
    rcases Table.mem_erase.1 hentry with ⟨hentry, hne⟩
    exact .inr ⟨hentry, fun heq => absurd heq.symm hne⟩
  | leave own lock result hget =>
    right
    constructor
    · exact hentry
    · intro heq hinserted
      -- The guard would have found its own lock.
      have hlock : lock = entry.2 := Option.some.inj (hown entry.2 hinserted)
      have hfound := Table.mem_rows_iff.1 hentry
      rw [← heq, show entry = (storeHash, lock) from Prod.ext heq.symm hlock.symm] at hfound
      exact absurd hfound hget

/-- A lookup going on keeps the invariant. -/
theorem Inv.update (h : Inv ⟨inst, before ++ ⟨⟨storeHash, candidates, hop, φ⟩, own⟩ :: after⟩)
    (hhandle : ∀ lock, own' = some lock → φ'.handle? = some lock)
    (hentries : ∀ entry ∈ inst'.inflight.rows, storeHash = entry.1 ∧ own' = some entry.2 ∨
      entry ∈ inst.inflight.rows ∧
        (storeHash = entry.1 → own = some entry.2 → own' = some entry.2)) :
    Inv ⟨inst', before ++ ⟨⟨storeHash, candidates, hop, φ'⟩, own'⟩ :: after⟩ := by
  constructor
  · intro caller hcaller lock hlock
    rcases List.mem_append.1 hcaller with hbefore | hrest
    · exact h.handles caller (List.mem_append_left _ hbefore) lock hlock
    · rcases List.mem_cons.1 hrest with rfl | hafter
      · exact hhandle lock hlock
      · exact h.handles caller (List.mem_append_right _ (List.mem_cons_of_mem _ hafter)) lock hlock
  · intro entry hentry
    rcases hentries entry hentry with hown | ⟨hold, hkept⟩
    · exact ⟨_, List.mem_append_right _ List.mem_cons_self, hown⟩
    · rcases h.entries entry hold with ⟨caller, hcaller, hhash, hinserted⟩
      rcases List.mem_append.1 hcaller with hbefore | hrest
      · exact ⟨caller, List.mem_append_left _ hbefore, hhash, hinserted⟩
      · rcases List.mem_cons.1 hrest with rfl | hafter
        · exact ⟨_, List.mem_append_right _ List.mem_cons_self, hhash, hkept hhash hinserted⟩
        · exact ⟨caller, List.mem_append_right _ (List.mem_cons_of_mem _ hafter), hhash, hinserted⟩

/-- A lookup that changes neither the map nor its own insertion keeps the
invariant, if it keeps its handle. -/
theorem Inv.update_same
    (h : Inv ⟨inst, before ++ ⟨⟨storeHash, candidates, hop, φ⟩, own⟩ :: after⟩)
    (hhandle : ∀ lock, own = some lock → φ'.handle? = some lock)
    (hsame : inst'.inflight = inst.inflight) :
    Inv ⟨inst', before ++ ⟨⟨storeHash, candidates, hop, φ'⟩, own⟩ :: after⟩ := by
  apply h.update hhandle
  intro entry hentry
  rw [hsame] at hentry
  exact .inr ⟨hentry, fun _ heq => heq⟩

/-- One step keeps the invariant. -/
theorem Inv.step {s s' : InflightMap} {label : Option Lookup} (h : Inv s)
    (hstep : Step crypto reg s label s') : Inv s' := by
  cases hstep with
  | start _ storeHash candidates hop =>
    constructor
    · intro caller hcaller lock hlock
      rcases List.mem_cons.1 hcaller with rfl | hcaller
      · cases hlock
      · exact h.handles caller hcaller lock hlock
    · intro entry hentry
      rcases h.entries entry hentry with ⟨caller, hcaller, howns⟩
      exact ⟨caller, List.mem_cons_of_mem _ hcaller, howns⟩
  | @pass inst before after storeHash candidates hop φ φ' own hφ =>
    apply h.update_same
    · intro lock hlock
      rw [hφ.handle?_eq]
      exact h.handles ⟨⟨storeHash, candidates, hop, φ⟩, own⟩ (by simp) lock hlock
    · rfl
  | @perform inst inst' before after storeHash candidates hop φ φ' own op reply hφ hexec =>
    have heffect := mapEffect_of_step hφ hexec own
    have hown := h.handles ⟨⟨storeHash, candidates, hop, φ⟩, own⟩ (by simp)
    exact h.update (heffect.handle hown) fun entry hentry => heffect.entries hown hentry
  | @drop inst before after caller hlock hhandle =>
    constructor
    · intro other hother
      apply h.handles other
      rcases List.mem_append.1 hother with hother | hother <;> simp [hother]
    · intro entry hentry
      rcases h.entries entry hentry with ⟨other, hother, hhash, hinserted⟩
      -- Who has inserted a lock has a handle, so it is not the one that is dropped.
      have hne : other ≠ caller := by
        rintro rfl
        rw [h.handles other hother entry.2 hinserted] at hhandle
        cases hhandle
      have hrest : other ∈ before ++ after := by simpa [hne] using hother
      exact ⟨other, hrest, hhash, hinserted⟩
  | @dropLocked inst inst' before after storeHash candidates φ own lock hlock result hsame =>
    apply h.update_same
    · intro inserted hinserted
      have hown := h.handles ⟨⟨storeHash, candidates, .client, φ⟩, own⟩ (by simp) inserted hinserted
      rw [Phase.eq_of_handle? hlock hown]
      rfl
    · exact hsame.inflight
  | @other s inst hsame =>
    constructor
    · exact h.handles
    · intro entry hentry
      apply h.entries entry
      rwa [← hsame.inflight]

/-- The invariant in every state reached. -/
theorem Reached.inv {s₀ s : InflightMap} (h : Reached crypto reg s₀ s) (h₀ : Inv s₀) : Inv s := by
  induction h with
  | refl => exact h₀
  | step _ hstep ih => exact ih.step hstep

/-- Nothing but a guard removes an entry, and a guard removes none but its own. -/
theorem Step.removed {s s' : InflightMap} {label : Option Lookup}
    (hstep : Step crypto reg s label s') {entry : Str × LockId}
    (hentry : entry ∈ s.inst.inflight.rows) (hgone : entry ∉ s'.inst.inflight.rows) :
    ∃ storeHash candidates lock result,
      label = some ⟨storeHash, candidates, .client, .cleanup lock result⟩ ∧
        entry = (storeHash, lock) := by
  cases hstep with
  | start _ storeHash candidates hop => exact absurd hentry hgone
  | pass h => exact absurd hentry hgone
  | @perform inst inst' before after storeHash candidates hop φ φ' own op reply hφ hexec =>
    have heffect := mapEffect_of_step hφ hexec own
    rcases heffect.removed candidates hentry hgone with ⟨lock, result, hlookup, heq⟩
    exact ⟨storeHash, candidates, lock, result, congrArg some hlookup, heq⟩
  | drop h hhandle => exact absurd hentry hgone
  | dropLocked h result hsame => exact absurd (hsame.inflight ▸ hentry) hgone
  | other hsame => exact absurd (hsame.inflight ▸ hentry) hgone

/-- The inflight map does not leak. When no lookup is dropped between taking its
lock from the map and getting it, then in every state reached an entry has the
lock of a client's lookup that inserted it and has not dropped its guard. Only
a guard removes an entry, and only the one that has its own lock. So there is no
entry for a hash that no client is looking up. -/
theorem inflight_owned (crypto : Crypto) (reg : Registry) {s₀ s : InflightMap}
    (hcallers : s₀.callers = []) (hinflight : s₀.inst.inflight = ∅)
    (hreached : Reached crypto reg s₀ s) :
    (∀ storeHash lock, (storeHash, lock) ∈ s.inst.inflight.rows →
      ∃ caller ∈ s.callers, caller.lookup.storeHash = storeHash ∧ caller.lookup.hop = .client ∧
        caller.inserted = some lock ∧ caller.lookup.phase.handle? = some lock) ∧
      (∀ label s', Step crypto reg s label s' → ∀ entry ∈ s.inst.inflight.rows,
        entry ∉ s'.inst.inflight.rows → ∃ storeHash candidates lock result,
          label = some ⟨storeHash, candidates, .client, .cleanup lock result⟩ ∧
            entry = (storeHash, lock)) ∧
      ∀ storeHash, (∀ caller ∈ s.callers, caller.lookup.storeHash = storeHash →
          caller.lookup.hop = .client → caller.lookup.phase.isDone = true) →
        s.inst.inflight.get storeHash = none := by
  have h₀ : Inv s₀ := by
    constructor
    · simp [hcallers]
    · simp [hinflight]
  have h := hreached.inv h₀
  constructor
  · intro storeHash lock hentry
    rcases h.entries _ hentry with ⟨caller, hcaller, hhash, hinserted⟩
    have hhandle := h.handles caller hcaller lock hinserted
    exact ⟨caller, hcaller, hhash, (Phase.hop_of_handle? hhandle).1, hinserted, hhandle⟩
  constructor
  · intro label s' hstep entry hentry hgone
    exact hstep.removed hentry hgone
  · intro storeHash hdone
    cases hget : s.inst.inflight.get storeHash with
    | none => rfl
    | some entry =>
      rcases h.entries entry (Table.mem_of_get hget) with ⟨caller, hcaller, hhash, hinserted⟩
      have hhandle := h.handles caller hcaller entry.2 hinserted
      rcases Phase.hop_of_handle? hhandle with ⟨hclient, hunfinished⟩
      have hfinished := hdone caller hcaller (hhash.trans (Table.key_of_get hget)) hclient
      rw [hunfinished] at hfinished
      cases hfinished

variable {s₀ : InflightMap} (before after)

theorem Reached.pass
    (h : Reached crypto reg s₀
      ⟨inst, before ++ ⟨⟨storeHash, candidates, hop, φ⟩, own⟩ :: after⟩)
    (hstep : φ.Step crypto reg storeHash candidates none φ') :
    Reached crypto reg s₀ ⟨inst, before ++ ⟨⟨storeHash, candidates, hop, φ'⟩, own⟩ :: after⟩ :=
  h.step (.pass hstep)

theorem Reached.perform {op : Op} {reply : op.Reply}
    (h : Reached crypto reg s₀
      ⟨inst, before ++ ⟨⟨storeHash, candidates, hop, φ⟩, own⟩ :: after⟩)
    (hstep : φ.Step crypto reg storeHash candidates (some ⟨op, reply⟩) φ')
    (hexec : Instance.exec reg op inst reply inst') :
    Reached crypto reg s₀ ⟨inst', before ++
      ⟨⟨storeHash, candidates, hop, φ'⟩, insertedAfter inst own ⟨op, reply⟩⟩ :: after⟩ :=
  h.step (.perform hstep hexec)

/-- A first check that runs on its own is reached at its end. -/
theorem Reached.firstCheck {p : Handler (Except RouterError (Option ResolveResult))}
    {checked : Except RouterError (Option ResolveResult)}
    (hexec : Execution (Instance.exec reg) p inst checked inst') (hp : Performs (CachedOp hop) p)
    (h : Reached crypto reg s₀
      ⟨inst, before ++ ⟨⟨storeHash, candidates, hop, .firstCheck ⟨p, hp⟩⟩, own⟩ :: after⟩) :
    Reached crypto reg s₀
      ⟨inst', before ++ ⟨⟨storeHash, candidates, hop,
        .firstCheck ⟨.ret checked, trivial⟩⟩, own⟩ :: after⟩ := by
  induction hexec with
  | ret checked s => exact h
  | @perform op next reply s s' a s'' hsem hnext ih =>
    have hperform := h.perform before after (.checking hp reply) hsem
    rw [insertedAfter_of_not_onLocks hp.1.lookupOp.not_onLocks] at hperform
    exact ih (hp.2 reply) hperform

end

/-- A lookup on its own inserts the lock that it then waits for. -/
theorem inflight_owned_one :
    ∃ s, Reached default default ⟨Flights.emptyCaches, []⟩ s ∧
      (['h'], 0) ∈ s.inst.inflight.rows ∧
        ∃ caller ∈ s.callers, caller.inserted = some 0 ∧
          caller.lookup.phase.handle? = some 0 := by
  have hmiss : Flights.CachesMiss Flights.emptyCaches ['h'] := ⟨rfl, rfl, rfl, rfl⟩
  have hrefl : Reached default default ⟨Flights.emptyCaches, []⟩ _ := .refl
  have hstart := hrefl.step (.start _ ['h'] [['u']] .client)
  have hchecked := hstart.firstCheck [] [] hmiss.replay.execution performs_resolveCached
  have hentry := hchecked.pass [] [] (.checked (.ok none))
  have hwaiting := hentry.perform [] [] (.entry 0) ⟨rfl, rfl⟩
  have howned := (inflight_owned default default rfl rfl hwaiting).1 ['h'] 0 (.head _)
  rcases howned with ⟨caller, hcaller, -, -, howns⟩
  exact ⟨_, hwaiting, .head _, caller, hcaller, howns⟩

end InflightMap

end Ncro
