import Mathlib.Tactic.Linarith
import Ncro.Health.Records

/-!
# Health as a summary of what was recorded

The entry of an upstream summarises the calls for it: `records_summary`. Its counter of
failures is that of the failures since the last success, its latency lies between those that
were recorded, and a start that reads its saved row has the same entry again. The counter of
successes has 64 bits and wraps.
-/

namespace Ncro

open Foundation

/-! ## What the calls say -/

/-- The latency that a call records. -/
def RecordCall.latency? : RecordCall → Option Double
  | .latency _ _ ms => some ms
  | .failure _ => none

/-- The latencies of the successes. -/
def latencies (calls : List RecordCall) : List Double :=
  calls.filterMap RecordCall.latency?

/-- The failures since the last success. -/
def failuresInARow (calls : List RecordCall) : ℕ :=
  (calls.reverse.takeWhile fun call => call.latency?.isNone).length

theorem latencies_append_latency (calls : List RecordCall) (now : Instant) (url : Str)
    (ms : Double) : latencies (calls ++ [.latency now url ms]) = latencies calls ++ [ms] :=
  List.filterMap_append

theorem latencies_append_failure (calls : List RecordCall) (url : Str) :
    latencies (calls ++ [.failure url]) = latencies calls := by
  rw [latencies, List.filterMap_append]
  exact List.append_nil _

theorem failuresInARow_append_latency (calls : List RecordCall) (now : Instant) (url : Str)
    (ms : Double) : failuresInARow (calls ++ [.latency now url ms]) = 0 := by
  simp [failuresInARow, RecordCall.latency?]

theorem failuresInARow_append_failure (calls : List RecordCall) (url : Str) :
    failuresInARow (calls ++ [.failure url]) = failuresInARow calls + 1 := by
  simp [failuresInARow, RecordCall.latency?]

/-! ## The moving average -/

theorem nextEma_fin {a : ℚ} (hpos : 0 < a) (hlt : a < 1) (q e : ℚ) :
    nextEma (.fin a) (.fin q) (.fin e) = .fin (a * q + (1 - a) * e) := by
  rw [nextEma, Double.mulAdd, Double.fin_sub_fin 1 hpos.ne', Double.fin_mul_fin hpos,
    Double.fin_mul_fin (sub_pos.2 hlt)]
  rfl

/-- A latency lies between the smallest and the largest one of a list. -/
structure Between (q : ℚ) (recorded : List Double) : Prop where
  above : ∃ lo, .fin lo ∈ recorded ∧ lo ≤ q
  below : ∃ hi, .fin hi ∈ recorded ∧ q ≤ hi

theorem between_append_self (recorded : List Double) (q : ℚ) :
    Between q (recorded ++ [.fin q]) := by
  have hmem : Double.fin q ∈ recorded ++ [.fin q] := by simp
  exact ⟨⟨q, hmem, le_refl q⟩, ⟨q, hmem, le_refl q⟩⟩

/-- The average moves towards the latency that is recorded, and not past it. -/
theorem Between.next {a e : ℚ} {recorded : List Double} (h : Between e recorded) (hpos : 0 < a)
    (hlt : a < 1) (q : ℚ) : Between (a * q + (1 - a) * e) (recorded ++ [.fin q]) := by
  rcases h with ⟨⟨lo, hlo, hle⟩, ⟨hi, hhi, hge⟩⟩
  have hq : Double.fin q ∈ recorded ++ [.fin q] := by simp
  rcases le_total q e with hqe | heq
  · constructor
    · exact ⟨q, hq, by nlinarith [mul_nonneg (sub_nonneg.2 hlt.le) (sub_nonneg.2 hqe)]⟩
    · exact ⟨hi, List.mem_append_left _ hhi, by nlinarith [mul_nonneg hpos.le (sub_nonneg.2 hqe)]⟩
  · constructor
    · exact ⟨lo, List.mem_append_left _ hlo, by nlinarith [mul_nonneg hpos.le (sub_nonneg.2 heq)]⟩
    · exact ⟨q, hq, by nlinarith [mul_nonneg (sub_nonneg.2 hlt.le) (sub_nonneg.2 heq)]⟩

/-! ## The entry of an upstream -/

/-- What an entry says about the calls for its upstream. -/
structure UpstreamHealth.Summarises (h : UpstreamHealth) (calls : List RecordCall) : Prop where
  consecutiveFails : h.consecutiveFails = failuresInARow calls % 2 ^ 32
  status : h.status = computeStatus h.consecutiveFails
  totalQueries : h.totalQueries = (latencies calls).length % 2 ^ 64
  emaLatency : latencies calls ≠ [] → ∃ q, h.emaLatency = .fin q ∧ Between q (latencies calls)

namespace UpstreamHealth

variable {a : ℚ} {h : UpstreamHealth} {calls : List RecordCall}

theorem Summarises.latency (hsum : h.Summarises calls) (hpos : 0 < a) (hlt : a < 1)
    (now : Instant) (url : Str) (q : ℚ) :
    (h.recorded (.fin a) (.latency now url (.fin q))).Summarises
      (calls ++ [.latency now url (.fin q)]) where
  consecutiveFails := by
    rw [failuresInARow_append_latency]
    rfl
  status := rfl
  totalQueries := by
    rw [latencies_append_latency, List.length_append]
    show (h.totalQueries + 1) % 2 ^ 64 = _
    rw [hsum.totalQueries, Nat.mod_add_mod]
    rfl
  emaLatency := by
    intro _
    rw [latencies_append_latency]
    by_cases hfirst : h.totalQueries = 0
    · -- the first sample, or the first one after the counter has wrapped
      exact ⟨q, if_pos hfirst, between_append_self _ _⟩
    · have hsome : latencies calls ≠ [] := by
        intro hnil
        apply hfirst
        rw [hsum.totalQueries, hnil]
        rfl
      rcases hsum.emaLatency hsome with ⟨e, hema, hbetween⟩
      refine ⟨_, ?_, hbetween.next hpos hlt q⟩
      apply (if_neg hfirst).trans
      rw [hema, nextEma_fin hpos hlt]

theorem Summarises.failure (hsum : h.Summarises calls) (alpha : Double) (url : Str) :
    (h.recorded alpha (.failure url)).Summarises (calls ++ [.failure url]) where
  consecutiveFails := by
    rw [failuresInARow_append_failure]
    show (h.consecutiveFails + 1) % 2 ^ 32 = _
    rw [hsum.consecutiveFails, Nat.mod_add_mod]
  status := rfl
  totalQueries := by
    rw [latencies_append_failure]
    exact hsum.totalQueries
  emaLatency := by
    rw [latencies_append_failure]
    exact hsum.emaLatency

/-- By induction on the calls, an entry that was added fresh summarises them. -/
theorem summarises_foldl (hpos : 0 < a) (hlt : a < 1) (url : Str) (priority : ℤ)
    (hrational : ∀ ms ∈ latencies calls, ∃ q, ms = .fin q) :
    (calls.foldl (recorded (.fin a)) (new url priority)).Summarises calls := by
  induction calls using List.reverseRecOn with
  | nil => exact ⟨rfl, rfl, rfl, fun hsome => absurd rfl hsome⟩
  | append_singleton calls call ih =>
      rw [List.foldl_append, List.foldl_cons, List.foldl_nil]
      cases call with
      | latency now url ms =>
          rw [latencies_append_latency] at hrational
          rcases hrational ms (by simp) with ⟨q, rfl⟩
          exact (ih fun ms hmem => hrational ms (List.mem_append_left _ hmem)).latency hpos hlt
            now url q
      | failure url =>
          rw [latencies_append_failure] at hrational
          exact (ih hrational).failure (.fin a) url

/-- `h'` says the same about its upstream as `h`. -/
structure SameHistory (h h' : UpstreamHealth) : Prop where
  emaLatency : h'.emaLatency = h.emaLatency
  consecutiveFails : h'.consecutiveFails = h.consecutiveFails
  totalQueries : h'.totalQueries = h.totalQueries
  status : h'.status = h.status

/-- An entry is seeded from the row of an entry with the same history. -/
theorem Counted.sameHistory_seeded (hcounted : h.Counted) (hqueries : h.totalQueries < 2 ^ 63)
    (other : UpstreamHealth) : h.SameHistory (other.seeded h.row) := by
  have hrange := hcounted.consecutiveFails
  have hfails : (other.seeded h.row).consecutiveFails = h.consecutiveFails := by
    show min (h.consecutiveFails : ℤ).toNat (2 ^ 32 - 1) = h.consecutiveFails
    omega
  constructor
  · rfl
  · exact hfails
  · show (min (h.totalQueries : ℤ) (2 ^ 63 - 1)).toNat = h.totalQueries
    omega
  · show computeStatus (other.seeded h.row).consecutiveFails = h.status
    rw [hfails, hcounted.status]

end UpstreamHealth

namespace HealthTable

/-- Whatever calls follow the one that added an upstream fresh, the entry has the failures
since the last success, the status of this count, the number of successes modulo `2 ^ 64` and,
after a success, a latency between the smallest and the largest one that was recorded. While
the number of queries fits its column, a start that tracks the upstream and reads the row of
the entry has an entry that says the same. -/
theorem records_summary {a : ℚ} (hpos : 0 < a) (hlt : a < 1) (health : HealthTable) (url : Str)
    (priority : ℤ) (hfresh : health.get url = some (.new url priority)) (calls : List RecordCall)
    (hrational : ∀ ms ∈ latencies (callsFor url calls), ∃ q, ms = .fin q)
    (hfails : failuresInARow (callsFor url calls) < 2 ^ 32) :
    ∃ h, (health.records (.fin a) calls).get url = some h ∧
      h.consecutiveFails = failuresInARow (callsFor url calls) ∧
      h.status = computeStatus (failuresInARow (callsFor url calls)) ∧
      h.totalQueries = (latencies (callsFor url calls)).length % 2 ^ 64 ∧
      (latencies (callsFor url calls) ≠ [] →
        ∃ q, h.emaLatency = .fin q ∧ Between q (latencies (callsFor url calls))) ∧
      (h.totalQueries < 2 ^ 63 → ∀ (upstreams : List UpstreamConfig) (saved : HealthRows),
        (∃ upstream ∈ upstreams, upstream.url = url) → saved.get url = some h.row →
        ∃ h', (atStart upstreams saved).get url = some h' ∧ h.SameHistory h') := by
  have hsum := UpstreamHealth.summarises_foldl hpos hlt url priority hrational
  have hcounted : ((callsFor url calls).foldl (UpstreamHealth.recorded (.fin a))
      (.new url priority)).Counted :=
    (UpstreamHealth.counted_new url priority).foldl_recorded (callsFor url calls)
  have hcount : _ = failuresInARow (callsFor url calls) :=
    hsum.consecutiveFails.trans (Nat.mod_eq_of_lt hfails)
  refine ⟨_, by rw [get_records, hfresh]; rfl, hcount, ?_, hsum.totalQueries, hsum.emaLatency, ?_⟩
  · rw [← hcount]
    exact hsum.status
  · intro hqueries upstreams saved htracked hsaved
    rcases htracked with ⟨upstream, hmem, rfl⟩
    rcases Option.isSome_iff_exists.1 (isSome_get_initUpstreams hmem ∅) with ⟨other, hother⟩
    refine ⟨_, ?_, hcounted.sameHistory_seeded hqueries other⟩
    rw [get_atStart, hother, hsaved]
    rfl

open HealthStore (upstreamU)

/-- A success, a failure and a success. -/
def callsU : List RecordCall :=
  [.latency 0 upstreamU.url (.fin 42), .failure upstreamU.url, .latency 1 upstreamU.url (.fin 10)]

theorem records_summary_callsU :
    ∃ h, ((atStart [upstreamU] ∅).records (.fin (3 / 10)) callsU).get upstreamU.url = some h ∧
      h.consecutiveFails = 0 ∧ h.status = .active ∧ h.totalQueries = 2 ∧
      (∃ q, h.emaLatency = .fin q ∧ Between q [.fin 42, .fin 10]) ∧
      ∃ h', (atStart [upstreamU] (Table.upsert ∅ h.row)).get upstreamU.url = some h' ∧
        h.SameHistory h' := by
  have hrational : ∀ ms ∈ latencies (callsFor upstreamU.url callsU), ∃ q, ms = .fin q := by
    intro ms hmem
    have hlatencies : latencies (callsFor upstreamU.url callsU) = [.fin 42, .fin 10] := rfl
    rw [hlatencies] at hmem
    rcases List.mem_pair.1 hmem with rfl | rfl
    · exact ⟨42, rfl⟩
    · exact ⟨10, rfl⟩
  rcases records_summary (by norm_num : (0 : ℚ) < 3 / 10) (by norm_num) (atStart [upstreamU] ∅)
    upstreamU.url 0 rfl callsU hrational (by decide) with
    ⟨h, hget, hfails, hstatus, hqueries, hema, hstart⟩
  have hurl : h.url = upstreamU.url := Table.key_of_get hget
  have hkey : h.row.url = upstreamU.url := hurl
  have hsaved : (Table.upsert (∅ : HealthRows) h.row).get upstreamU.url = some h.row := by
    rw [← hkey, Table.get_upsert_self]
  refine ⟨h, hget, hfails, hstatus, hqueries, hema nofun, ?_⟩
  refine hstart ?_ [upstreamU] (Table.upsert ∅ h.row) ⟨upstreamU, .head _, rfl⟩ hsaved
  rw [hqueries]
  decide

/-- The calls of `n` successes in a row. -/
def successesU (n : ℕ) : List RecordCall :=
  List.replicate n (.latency 0 upstreamU.url (.fin 1))

theorem callsFor_successesU (n : ℕ) : callsFor upstreamU.url (successesU n) = successesU n :=
  List.filter_eq_self.2 fun call hmem => by
    rw [List.eq_of_mem_replicate hmem]
    rfl

theorem latencies_successesU (n : ℕ) : latencies (successesU n) = List.replicate n (.fin 1) :=
  List.filterMap_replicate_of_some rfl

theorem failuresInARow_successesU (n : ℕ) : failuresInARow (successesU n) = 0 := by
  cases n with
  | zero => rfl
  | succ n =>
      rw [successesU, List.replicate_succ']
      exact failuresInARow_append_latency _ _ _ _

/-- The counter of successes wraps: after `2 ^ 64` of them it is zero. -/
theorem totalQueries_wraps :
    ¬∀ (a : ℚ), 0 < a → a < 1 → ∀ (health : HealthTable) (url : Str) (priority : ℤ),
      health.get url = some (.new url priority) → ∀ calls : List RecordCall,
      (∀ ms ∈ latencies (callsFor url calls), ∃ q, ms = .fin q) →
      failuresInARow (callsFor url calls) < 2 ^ 32 →
      ∀ h, (health.records (.fin a) calls).get url = some h →
      h.totalQueries = (latencies (callsFor url calls)).length := by
  intro hclaim
  have hpos : (0 : ℚ) < 3 / 10 := by norm_num
  have hlt : (3 / 10 : ℚ) < 1 := by norm_num
  have hcalls := callsFor_successesU (2 ^ 64)
  have hlatencies := latencies_successesU (2 ^ 64)
  have hrational : ∀ ms ∈ latencies (successesU (2 ^ 64)), ∃ q, ms = .fin q := by
    intro ms hmem
    rw [hlatencies] at hmem
    exact ⟨1, List.eq_of_mem_replicate hmem⟩
  have hsum := UpstreamHealth.summarises_foldl hpos hlt upstreamU.url 0 hrational
  have hget : ((atStart [upstreamU] ∅).records (.fin (3 / 10)) (successesU (2 ^ 64))).get
      upstreamU.url = some ((successesU (2 ^ 64)).foldl
        (UpstreamHealth.recorded (.fin (3 / 10))) (.new upstreamU.url 0)) := by
    rw [get_records, hcalls]
    rfl
  have hcount := hclaim _ hpos hlt _ upstreamU.url 0 rfl (successesU (2 ^ 64))
    (by rwa [hcalls]) (by rw [hcalls, failuresInARow_successesU]; exact Nat.two_pow_pos 32) _ hget
  rw [hsum.totalQueries, hcalls, hlatencies, List.length_replicate] at hcount
  exact absurd hcount (by decide)

end HealthTable

end Ncro
