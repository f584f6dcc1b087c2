import Ncro.Health.Persistence

/-!
# Recording latencies and failures

A call changes the entry of its upstream and no other one, so a run of calls changes an
entry by the calls for its upstream: `get_records`. The counter of failures has 32 bits
and is incremented without a check. A failure therefore makes an upstream look worse,
or as bad, at every count but the last one: `recordFailure_not_better_iff`.
-/

namespace Ncro

open Foundation

/-- What a call makes of the entry of its upstream. -/
def UpstreamHealth.recorded (alpha : Double) (h : UpstreamHealth) : RecordCall → UpstreamHealth
  | .latency now _ ms =>
      { h with
        emaLatency := if h.totalQueries = 0 then ms else nextEma alpha ms h.emaLatency
        consecutiveFails := 0
        totalQueries := (h.totalQueries + 1) % 2 ^ 64
        status := .active
        lastProbe := some now }
  | .failure _ =>
      { h with
        consecutiveFails := (h.consecutiveFails + 1) % 2 ^ 32
        status := computeStatus ((h.consecutiveFails + 1) % 2 ^ 32) }

@[simp] theorem UpstreamHealth.recorded_url (alpha : Double) (h : UpstreamHealth)
    (call : RecordCall) : (h.recorded alpha call).url = h.url := by
  cases call <;> rfl

theorem RecordCall.apply_of_get_none {alpha : Double} {health : HealthTable} {call : RecordCall}
    (hold : health.get call.url = none) : call.apply alpha health = health := by
  cases call with
  | latency now url ms =>
      replace hold : health.get url = none := hold
      rw [apply, HealthTable.recordLatency, hold]
  | failure url =>
      replace hold : health.get url = none := hold
      rw [apply, HealthTable.recordFailure, hold]

/-- A call for an upstream that has an entry records itself there. -/
theorem RecordCall.apply_of_get {alpha : Double} {health : HealthTable} {call : RecordCall}
    {h : UpstreamHealth} (hold : health.get call.url = some h) :
    call.apply alpha health = health.upsert (h.recorded alpha call) := by
  cases call with
  | latency now url ms =>
      replace hold : health.get url = some h := hold
      rw [apply, HealthTable.recordLatency, hold]
      rfl
  | failure url =>
      replace hold : health.get url = some h := hold
      rw [apply, HealthTable.recordFailure, hold]
      rfl

theorem RecordCall.get_apply (alpha : Double) (health : HealthTable) (call : RecordCall)
    (url : Str) :
    (call.apply alpha health).get url =
      if call.url = url then (health.get url).map (·.recorded alpha call) else health.get url := by
  cases hold : health.get call.url with
  | none =>
      rw [RecordCall.apply_of_get_none hold]
      by_cases hurl : call.url = url
      · rw [if_pos hurl, ← hurl, hold]
        rfl
      · rw [if_neg hurl]
  | some h =>
      have hkey : (h.recorded alpha call).url = call.url :=
        (h.recorded_url alpha call).trans (Table.key_of_get hold)
      rw [RecordCall.apply_of_get hold, Table.get_upsert, hkey]
      by_cases hurl : call.url = url
      · rw [if_pos hurl, if_pos hurl, ← hurl, hold]
        rfl
      · rw [if_neg hurl, if_neg hurl]

/-- The calls for an upstream. -/
def callsFor (url : Str) (calls : List RecordCall) : List RecordCall :=
  calls.filter fun call => call.url = url

theorem url_of_mem_callsFor {url : Str} {calls : List RecordCall} {call : RecordCall}
    (h : call ∈ callsFor url calls) : call ∈ calls ∧ call.url = url := by
  simpa [callsFor] using h

namespace HealthTable

/-- The table after some calls. -/
def records (alpha : Double) (health : HealthTable) (calls : List RecordCall) : HealthTable :=
  calls.foldl (RecordCall.apply alpha) health

@[simp] theorem records_nil (alpha : Double) (health : HealthTable) :
    health.records alpha [] = health := rfl

@[simp] theorem records_cons (alpha : Double) (health : HealthTable) (call : RecordCall)
    (calls : List RecordCall) :
    health.records alpha (call :: calls) = (call.apply alpha health).records alpha calls := rfl

theorem records_append (alpha : Double) (health : HealthTable) (calls calls' : List RecordCall) :
    health.records alpha (calls ++ calls') = (health.records alpha calls).records alpha calls' :=
  List.foldl_append

/-- An entry after some calls is what the calls for its upstream make of it. -/
theorem get_records (alpha : Double) (health : HealthTable) (calls : List RecordCall) (url : Str) :
    (health.records alpha calls).get url =
      (health.get url).map fun h => (callsFor url calls).foldl (UpstreamHealth.recorded alpha) h := by
  induction calls generalizing health with
  | nil => simp [callsFor]
  | cons call calls ih =>
      rw [records_cons, ih, RecordCall.get_apply, callsFor, callsFor]
      by_cases hurl : call.url = url
      · rw [if_pos hurl, List.filter_cons_of_pos (by simpa using hurl), Option.map_map]
        rfl
      · rw [if_neg hurl, List.filter_cons_of_neg (by simpa using hurl)]

/-! ## The entries at a start -/

/-- The rows that are seeded one after the other leave what the last of them says. -/
theorem get_seedAll {start health : HealthTable} {held : HealthRows} {url : Str}
    (hget : health.get url = (start.get url).map fun h => (held.get url).elim h h.seeded)
    (rows : List HealthRow) :
    (rows.foldl seed health).get url =
      (start.get url).map fun h => ((held.extend rows).get url).elim h h.seeded := by
  induction rows generalizing health held with
  | nil => exact hget
  | cons row rows ih =>
      apply ih
      rw [get_seed, hget, Table.get_upsert]
      by_cases hurl : row.url = url
      · rw [if_pos hurl, if_pos hurl, Option.map_map]
        congr 1
        funext h
        cases held.get url <;> rfl
      · rw [if_neg hurl, if_neg hurl]

/-- After a start an entry has what its saved row says, if there is one. -/
theorem get_atStart (upstreams : List UpstreamConfig) (saved : HealthRows) (url : Str) :
    (atStart upstreams saved).get url =
      ((initUpstreams ∅ upstreams).get url).map fun h => (saved.get url).elim h h.seeded := by
  have hinit : (initUpstreams ∅ upstreams).get url =
      ((initUpstreams ∅ upstreams).get url).map fun h =>
        ((∅ : HealthRows).get url).elim h h.seeded := by
    simp
  rw [atStart, get_seedAll hinit, Table.get_extend_rows, Table.get_empty, Option.or_none]

/-- A configured upstream has an entry. -/
theorem isSome_get_initUpstreams {upstreams : List UpstreamConfig} {upstream : UpstreamConfig}
    (hmem : upstream ∈ upstreams) (health : HealthTable) :
    ((health.initUpstreams upstreams).get upstream.url).isSome := by
  have hinit : ∀ (health : HealthTable) (other : UpstreamConfig),
      ((health.initUpstream other).get other.url).isSome := by
    intro health other
    rw [initUpstream]
    split
    · assumption
    · exact Option.isSome_iff_exists.2 ⟨_, Table.get_upsert_self health (.new other.url other.priority)⟩
  have hkeeps : ∀ (health : HealthTable) (other : UpstreamConfig) (url : Str),
      (health.get url).isSome → ((health.initUpstream other).get url).isSome := by
    intro health other url hsome
    rw [initUpstream]
    split
    · exact hsome
    · rw [Table.get_upsert]
      split
      · rfl
      · exact hsome
  have hall : ∀ (others : List UpstreamConfig) (health : HealthTable) (url : Str),
      (health.get url).isSome → ((health.initUpstreams others).get url).isSome := by
    intro others
    induction others with
    | nil => exact fun health url hsome => hsome
    | cons other others ih => exact fun health url hsome => ih _ url (hkeeps health other url hsome)
  induction upstreams generalizing health with
  | nil => cases hmem
  | cons other others ih =>
      rcases List.mem_cons.1 hmem with rfl | hmem
      · exact hall others _ _ (hinit health upstream)
      · exact ih hmem _

end HealthTable

/-! ## The counter of failures -/

/-- The status is that of the counter, which has 32 bits. -/
structure UpstreamHealth.Counted (h : UpstreamHealth) : Prop where
  consecutiveFails : h.consecutiveFails < 2 ^ 32
  status : h.status = computeStatus h.consecutiveFails

namespace UpstreamHealth

theorem counted_new (url : Str) (priority : ℤ) : (new url priority).Counted where
  consecutiveFails := Nat.two_pow_pos 32
  status := rfl

theorem counted_seeded (h : UpstreamHealth) (row : HealthRow) : (h.seeded row).Counted where
  consecutiveFails := Nat.lt_of_le_of_lt (Nat.min_le_right _ _) (Nat.sub_one_lt (by norm_num))
  status := rfl

theorem counted_recorded (alpha : Double) (h : UpstreamHealth) (call : RecordCall) :
    (h.recorded alpha call).Counted := by
  cases call with
  | latency now url ms => exact ⟨Nat.two_pow_pos 32, rfl⟩
  | failure url => exact ⟨Nat.mod_lt _ (Nat.two_pow_pos 32), rfl⟩

theorem Counted.foldl_recorded {alpha : Double} {h : UpstreamHealth} (hcounted : h.Counted)
    (calls : List RecordCall) : (calls.foldl (recorded alpha) h).Counted := by
  induction calls generalizing h with
  | nil => exact hcounted
  | cons call calls ih => exact ih (counted_recorded alpha h call)

end UpstreamHealth

namespace HealthTable

theorem counted_atStart {upstreams : List UpstreamConfig} {saved : HealthRows} {url : Str}
    {h : UpstreamHealth} (hget : (atStart upstreams saved).get url = some h) : h.Counted := by
  rw [get_atStart] at hget
  rcases Option.map_eq_some_iff.1 hget with ⟨old, hold, rfl⟩
  cases saved.get url with
  | none =>
      have hnone : ∀ h ∈ (∅ : HealthTable).rows, h = .new h.url h.priority := nofun
      rw [initUpstreams_new hnone old (Table.mem_of_get hold)]
      exact UpstreamHealth.counted_new _ _
  | some row => exact old.counted_seeded row

/-- Whatever was saved and recorded, the status is that of the counter. -/
theorem counted_records {alpha : Double} {upstreams : List UpstreamConfig} {saved : HealthRows}
    {calls : List RecordCall} {url : Str} {h : UpstreamHealth}
    (hget : ((atStart upstreams saved).records alpha calls).get url = some h) : h.Counted := by
  rw [get_records] at hget
  rcases Option.map_eq_some_iff.1 hget with ⟨old, hold, rfl⟩
  exact (counted_atStart hold).foldl_recorded _

end HealthTable

/-! ## A failure -/

/-- How far a status is from `active`. -/
def Status.rank : Status → ℕ
  | .active => 0
  | .degraded => 1
  | .down => 2

/-- More failures in a row do not bring the status closer to `active`. -/
theorem rank_computeStatus_mono {m n : ℕ} (h : m ≤ n) :
    (computeStatus m).rank ≤ (computeStatus n).rank := by
  by_cases hdown : 10 ≤ n
  · have hn : computeStatus n = .down := if_pos hdown
    rw [hn]
    cases computeStatus m <;> decide
  · have hm : computeStatus m = if 3 ≤ m then .degraded else .active := if_neg (by omega)
    have hn : computeStatus n = if 3 ≤ n then .degraded else .active := if_neg hdown
    rw [hm, hn]
    split
    · rw [if_pos (by omega)]
    · exact Nat.zero_le _

/-- `h'` has no fewer failures in a row than `h`, and its status is no closer to `active`. -/
structure UpstreamHealth.NotBetter (h h' : UpstreamHealth) : Prop where
  consecutiveFails : h.consecutiveFails ≤ h'.consecutiveFails
  status : h.status.rank ≤ h'.status.rank

namespace UpstreamHealth

variable {alpha : Double} {h h' : UpstreamHealth}

theorem Counted.notBetter (hcounted : h.Counted) (hcounted' : h'.Counted)
    (hfails : h.consecutiveFails ≤ h'.consecutiveFails) : h.NotBetter h' where
  consecutiveFails := hfails
  status := by
    rw [hcounted.status, hcounted'.status]
    exact rank_computeStatus_mono hfails

/-- One failure leaves the entry no better, unless the counter is at its end. -/
theorem Counted.notBetter_recorded_iff (hcounted : h.Counted) (url : Str) :
    h.NotBetter (h.recorded alpha (.failure url)) ↔ h.consecutiveFails ≠ 2 ^ 32 - 1 := by
  have hrange := hcounted.consecutiveFails
  constructor
  · intro hworse hlast
    have hle : h.consecutiveFails ≤ (h.consecutiveFails + 1) % 2 ^ 32 := hworse.consecutiveFails
    rw [hlast] at hle
    exact absurd hle (by decide)
  · intro hlast
    apply hcounted.notBetter (counted_recorded alpha h _)
    show h.consecutiveFails ≤ (h.consecutiveFails + 1) % 2 ^ 32
    rw [Nat.mod_eq_of_lt (by omega)]
    exact Nat.le_succ _

/-- Failures add up as long as the counter does not come to its end. -/
theorem consecutiveFails_foldl_failures {calls : List RecordCall} {url : Str}
    (hfailures : ∀ call ∈ calls, call = .failure url)
    (hroom : h.consecutiveFails + calls.length < 2 ^ 32) :
    (calls.foldl (recorded alpha) h).consecutiveFails = h.consecutiveFails + calls.length := by
  induction calls generalizing h with
  | nil => rfl
  | cons call calls ih =>
      rw [List.length_cons] at hroom
      have hcall := hfailures call (.head _)
      subst hcall
      have hnext : (h.recorded alpha (.failure url)).consecutiveFails = h.consecutiveFails + 1 :=
        Nat.mod_eq_of_lt (by omega)
      rw [List.foldl_cons, ih (fun call hmem => hfailures call (.tail _ hmem)) (by omega), hnext,
        List.length_cons]
      omega

end UpstreamHealth

namespace HealthTable

/-- Whatever was saved and recorded before, a failure does not decrease the failures in a
row of an upstream and does not move its status towards `active` if and only if the counter
is not at its end. Until then no number of failures does, whatever happens to other
upstreams. -/
theorem recordFailure_not_better_iff (alpha : Double) (upstreams : List UpstreamConfig)
    (saved : HealthRows) (calls : List RecordCall) (url : Str) (h : UpstreamHealth)
    (hget : ((atStart upstreams saved).records alpha calls).get url = some h) :
    ((∃ h', (((atStart upstreams saved).records alpha calls).recordFailure url).get url = some h' ∧
        h.NotBetter h') ↔ h.consecutiveFails ≠ 2 ^ 32 - 1) ∧
      ∀ later : List RecordCall, (∀ call ∈ later, call.url = url → call = .failure url) →
        h.consecutiveFails + (callsFor url later).length < 2 ^ 32 →
        ∃ h', ((atStart upstreams saved).records alpha (calls ++ later)).get url = some h' ∧
          h.NotBetter h' := by
  have hcounted := counted_records hget
  constructor
  · have hnext : (((atStart upstreams saved).records alpha calls).recordFailure url).get url =
        some (h.recorded alpha (.failure url)) := by
      apply (RecordCall.get_apply alpha _ (.failure url) url).trans
      have hurl : (RecordCall.failure url).url = url := rfl
      rw [if_pos hurl, hget]
      rfl
    rw [← hcounted.notBetter_recorded_iff url, hnext]
    constructor
    · rintro ⟨h', heq, hworse⟩
      cases heq
      exact hworse
    · intro hworse
      exact ⟨_, rfl, hworse⟩
  · intro later hfailures hroom
    have hown : ∀ call ∈ callsFor url later, call = .failure url := by
      intro call hmem
      rcases url_of_mem_callsFor hmem with ⟨hmem, hurl⟩
      exact hfailures call hmem hurl
    have hsum : ((callsFor url later).foldl (UpstreamHealth.recorded alpha) h).consecutiveFails = _ :=
      UpstreamHealth.consecutiveFails_foldl_failures hown hroom
    have hget' : ((atStart upstreams saved).records alpha (calls ++ later)).get url =
        some ((callsFor url later).foldl (UpstreamHealth.recorded alpha) h) := by
      rw [records_append, get_records, hget]
      rfl
    refine ⟨_, hget', hcounted.notBetter (hcounted.foldl_recorded _) ?_⟩
    rw [hsum]
    exact Nat.le_add_right _ _

open HealthStore (upstreamU failedU)

/-- Two failures of an upstream that is not saved, the first one of them recorded. -/
theorem recordFailure_not_better_upstreamU :
    ((∃ h', (((atStart [upstreamU] ∅).records (.fin (3 / 10)) [.failure upstreamU.url]).recordFailure
        upstreamU.url).get upstreamU.url = some h' ∧ (failedU 1).NotBetter h') ↔ 1 ≠ 2 ^ 32 - 1) ∧
      ∃ h', ((atStart [upstreamU] ∅).records (.fin (3 / 10))
        ([.failure upstreamU.url] ++ [.failure upstreamU.url])).get upstreamU.url = some h' ∧
          (failedU 1).NotBetter h' := by
  have hboth := recordFailure_not_better_iff (.fin (3 / 10)) [upstreamU] ∅
    [.failure upstreamU.url] upstreamU.url (failedU 1) rfl
  exact ⟨hboth.1, hboth.2 [.failure upstreamU.url] (by simp) (by decide)⟩

/-- A saved row with the largest counter there is. -/
def lastRowU : HealthRow where
  url := upstreamU.url
  emaLatency := .fin 0
  consecutiveFails := 4294967295
  totalQueries := 0

/-- A failure after the last one that is counted makes the upstream active again. -/
theorem recordFailure_better_lastRowU :
    ¬∀ (alpha : Double) (upstreams : List UpstreamConfig) (saved : HealthRows)
      (calls : List RecordCall) (url : Str) (h : UpstreamHealth),
      ((atStart upstreams saved).records alpha calls).get url = some h →
      ∃ h', (((atStart upstreams saved).records alpha calls).recordFailure url).get url = some h' ∧
        h.NotBetter h' := by
  intro hclaim
  have hget : ((atStart [upstreamU] (Table.upsert ∅ lastRowU)).records (.fin (3 / 10)) []).get
      upstreamU.url = some (failedU 4294967295) := rfl
  have hnext : (((atStart [upstreamU] (Table.upsert ∅ lastRowU)).records (.fin (3 / 10))
      []).recordFailure upstreamU.url).get upstreamU.url = some (failedU 0) := rfl
  rcases hclaim _ _ _ _ _ _ hget with ⟨h', hget', hworse⟩
  rw [hnext] at hget'
  cases hget'
  exact absurd hworse.status (by decide : ¬Status.down.rank ≤ Status.active.rank)

end HealthTable

end Ncro
