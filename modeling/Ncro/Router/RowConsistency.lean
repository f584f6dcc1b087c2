import Ncro.Router.Replays
import Ncro.Router.Writes

/-!
# Rows and the narinfos they keep

A row repeats what the narinfo it keeps says about the NAR: its hash, its size and
where the upstream has it. `commit_winner` writes all of them from one narinfo. The
refreshes of `valid_cached_route` replace the bytes alone, so a row stays
consistent as long as the upstream replies to them with a narinfo of the same
NAR.
-/

namespace Ncro

open Foundation Foundation.Process

/-- An entry says what a narinfo says about the NAR. -/
structure RouteEntry.Describes (entry : RouteEntry) (narinfo : NarInfo) : Prop where
  narHash : entry.narHash = narinfo.narHash
  narSize : entry.narSize = narinfo.narSize
  upstreamNarUrl : entry.upstreamNarUrl = '/' :: relativeNarUrl narinfo.url

/-- A row agrees with the narinfo it keeps, if it keeps one. -/
def RouteRow.Consistent (row : RouteRow) : Prop :=
  ∀ bytes, row.narinfoBytes = some bytes → ∃ narinfo, NarInfo.parse bytes = .ok narinfo ∧
    row.narHash = narinfo.narHash ∧ row.narSize = narinfo.narSize ∧
    row.upstreamNarUrl = '/' :: relativeNarUrl narinfo.url

/-- A narinfo that is fetched to refresh a row, and accepted, is one of the row's
NAR. -/
def RefetchesSameNar (crypto : Crypto) (reg : Registry) : HistoryLabel → Prop
  | .perform _ (.resolve storeHash _ hop) past ⟨.getBytes request, .ok (some bytes)⟩ =>
      ∀ row health now earlier narinfo,
        request = narinfoRequest reg row.upstreamUrl storeHash.val hop →
        past = ⟨.getHealth row.upstreamUrl, health⟩ :: ⟨.timestampNow, now⟩ ::
          ⟨.dbGetRoute storeHash.val, .ok (some row)⟩ :: earlier →
        Verified crypto reg row.upstreamUrl bytes narinfo →
        reg.allows row.upstreamUrl narinfo = true → row.Describes narinfo
  | _ => True

/-- The sizes that are written fit into a column. -/
def WritesSmallNar : HistoryLabel → Prop
  | .perform _ _ _ ⟨.dbUpsertRoute written, _⟩ => written.narSize < 2 ^ 63
  | _ => True

/-- What keeps rows consistent in a run without mesh. -/
def KeepsNar (crypto : Crypto) (s : History) (label : HistoryLabel) (_ : History) : Prop :=
  History.WithoutMesh label ∧ RefetchesSameNar crypto s.registry label ∧ WritesSmallNar label

/-- The row written for an entry that describes the narinfo it keeps. -/
theorem RouteEntry.Describes.consistent {entry : RouteEntry} {bytes : Octets} {narinfo : NarInfo}
    (h : entry.Describes narinfo) (hbytes : entry.narinfoBytes = some bytes)
    (hparse : NarInfo.parse bytes = .ok narinfo) (hsize : entry.narSize < 2 ^ 63) :
    (routeToRow entry).Consistent := by
  intro bytes' hbytes'
  have heq : bytes' = bytes := Option.some.inj (hbytes'.symm.trans hbytes)
  subst heq
  refine ⟨narinfo, hparse, h.narHash, ?_, h.upstreamNarUrl⟩
  have hmin : (routeToRow entry).narSize = entry.narSize := by
    show min (entry.narSize : ℤ) (2 ^ 63 - 1) = entry.narSize
    omega
  rw [hmin, h.narSize]

section

variable {crypto : Crypto} {reg : Registry} {storeHash : Str} {hop : Hop}
  {past : List HandlerEvent} {written : RouteEntry}

theorem CommitWrite.consistent (h : CommitWrite crypto reg storeHash past written)
    (hsize : written.narSize < 2 ^ 63) : (routeToRow written).Consistent := by
  obtain ⟨winner, body, parsed, ema, now, earlier, -, hverified, -, rfl⟩ := h
  have hdescribes : (winnerRoute reg winner storeHash (some body) parsed ema now).Describes parsed :=
    ⟨rfl, rfl, rfl⟩
  exact hdescribes.consistent rfl hverified.1 hsize

/-- The bytes a lookup has just fetched for a row are of the row's NAR. -/
def RefreshAgrees (crypto : Crypto) (reg : Registry) (task : LoggedTask) : Prop :=
  ∀ storeHash candidates hop written, task.kind = .resolve storeHash candidates hop →
    RefreshWrite crypto reg storeHash.val hop task.past written →
    written.narSize < 2 ^ 63 → (routeToRow written).Consistent

/-- After a fetch for a row, what would be written is consistent. -/
theorem refreshAgrees_cons {number : ℕ} {kind : TaskKind} {event : HandlerEvent}
    {process : Handler TaskResult}
    (h : RefetchesSameNar crypto reg (.perform number kind past event)) :
    RefreshAgrees crypto reg ⟨number, kind, event :: past, process⟩ := by
  intro storeHash candidates hop written hkind hwrite hsize
  obtain rfl : kind = .resolve storeHash candidates hop := hkind
  obtain ⟨row, bytes, parsed, health, now, earlier, hpast, hverified, hallows, rfl⟩ := hwrite
  obtain ⟨rfl, rfl⟩ := List.cons.inj hpast
  have hrow : row.Describes parsed := h row health now earlier parsed rfl rfl hverified hallows
  have hdescribes : ({ row with narinfoBytes := some bytes } : RouteEntry).Describes parsed :=
    ⟨hrow.narHash, hrow.narSize, hrow.upstreamNarUrl⟩
  exact hdescribes.consistent rfl hverified.1 hsize

end

namespace History

variable {crypto : Crypto} {s₀ s s' : History} {label : HistoryLabel}

/-- In every state reached, what a refresh would write is consistent. -/
theorem Reached.refreshAgrees (h₀ : s₀.Fresh) (h : Reached crypto (KeepsNar crypto) s₀ s) :
    ∀ task ∈ s.tasks, RefreshAgrees crypto s.registry task := by
  have hstart : ∀ task ∈ s₀.tasks, RefreshAgrees crypto s₀.registry task := by
    simp [h₀.tasks]
  refine h.invariant (I := fun s => ∀ task ∈ s.tasks, RefreshAgrees crypto s.registry task) hstart
    fun {s label s'} _ hagrees hmeets hstep => ?_
  refine hstep.tasks (T := RefreshAgrees crypto) hagrees (fun kind _ => ?_)
    fun number kind past op next reply heq _ => ?_
  · rintro storeHash candidates hop written - ⟨row, bytes, parsed, health, now, earlier, hpast, -⟩
    cases hpast
  · have hsame := hmeets.2.1
    rw [heq] at hsame
    exact refreshAgrees_cons hsame

end History

/-- Route rows are consistent. In every run without mesh in which upstreams reply to
refreshes with narinfos of the same NAR, and no size is written that a column
cannot hold, each row agrees with the narinfo it keeps in every state reached. -/
theorem rows_consistent (crypto : Crypto) (s₀ s : History) (h₀ : s₀.Fresh)
    (hrows : ∀ row ∈ s₀.inst.routes.rows, row.Consistent)
    (h : History.Reached crypto (KeepsNar crypto) s₀ s) :
    ∀ row ∈ s.inst.routes.rows, row.Consistent := by
  refine h.invariant (I := fun s => ∀ row ∈ s.inst.routes.rows, row.Consistent) hrows
    fun {s label s'} hreached hall hmeets hstep => ?_
  rcases hstep.routes with ⟨number, kind, past, written, rfl, hroutes⟩ | hsub
  · intro row hrow
    rw [hroutes] at hrow
    rcases Table.mem_of_mem_upsert hrow with rfl | hrow
    · have hsize : written.narSize < 2 ^ 63 := hmeets.2.2
      obtain ⟨storeHash, candidates, hop, rfl, hcommit | hrefresh⟩ :=
        hreached.lookupWrites (fun _ _ _ hmeets => hmeets.1) h₀ hstep
      · exact hcommit.consistent hsize
      · obtain ⟨process, htask⟩ := hstep.mem_tasks
        exact hreached.refreshAgrees h₀ _ htask _ _ _ _ rfl hrefresh hsize
    · exact hall row hrow
  · exact fun row hrow => hall row (hsub.subset hrow)

/-! ## A committed row and a refreshed one -/

namespace History

/-- The first commit keeps rows consistent. -/
theorem rows_consistent_committedOfU :
    committedOfU.routes.rows ≠ [] ∧ ∀ row ∈ committedOfU.routes.rows, row.Consistent := by
  have hwrites : ∀ event ∈ firstEvents, ∀ written reply,
      event = ⟨.dbUpsertRoute written, reply⟩ → written.narSize < 2 ^ 63 := by
    simp [firstEvents, Instance.wonEvents, Flights.missedEvents, Instance.commitEvents,
      winnerRoute]
    decide
  have hreads : ∀ event ∈ firstEvents, ∀ storeHash row,
      event ≠ ⟨.dbGetRoute storeHash, .ok (some row)⟩ := by
    simp [firstEvents, Instance.wonEvents, Flights.missedEvents, Instance.commitEvents]
  obtain ⟨log, hreached, -⟩ := reached_committedOfU (KeepsNar default)
    (fun t => ⟨trivial, trivial, trivial⟩)
    fun t before event after t' hsplit _ _ => by
      have hmem : event ∈ firstEvents := by rw [hsplit]; simp
      refine ⟨trivial, ?_, ?_⟩
      · unfold RefetchesSameNar
        split
        · next heq =>
          cases heq
          intro row health now earlier narinfo _ hpast
          have hread : (⟨.dbGetRoute zeroHash.val, .ok (some row)⟩ : HandlerEvent) ∈ firstEvents := by
            have hbefore : (⟨.dbGetRoute zeroHash.val, .ok (some row)⟩ : HandlerEvent) ∈
                before.reverse := by rw [hpast]; simp
            rw [hsplit]
            exact List.mem_append_left _ (List.mem_reverse.1 hbefore)
          exact absurd rfl (hreads _ hread _ _)
        · trivial
      · unfold WritesSmallNar
        split
        · next heq =>
          cases heq
          exact hwrites _ hmem _ _ rfl
        · trivial
  exact ⟨nofun, rows_consistent default _ _ fresh_empty (fun row hrow => by cases hrow) hreached⟩

/-- Upstream `u` may serve what was built from derivations that start with `d`. -/
def derivedFromD : Registry :=
  { (default : Registry) with
    upstreamFilters := fun url =>
      if url = ['u'] then some [⟨.allow, .deriver, ['d', '*']⟩] else none }

/-- What upstream `u` serves after it has built the path again. -/
def rebuiltBody : Octets :=
  toUtf8 "StorePath: /nix/store/x-a\nNarHash: s\nDeriver: d".toList

def rebuiltNarinfo : NarInfo :=
  { storePath := "/nix/store/x-a".toList, narHash := ['s'], deriver := ['d'] }

theorem not_consistent_refreshed :
    ¬(routeToRow (Instance.refreshed rowOfWinner rebuiltBody)).Consistent := by
  intro h
  obtain ⟨narinfo, hparse, hhash, -⟩ := h rebuiltBody rfl
  have hrebuilt : NarInfo.parse rebuiltBody = .ok rebuiltNarinfo := by decide
  obtain rfl : rebuiltNarinfo = narinfo := Except.ok.inj (hrebuilt.symm.trans hparse)
  cases hhash

/-- A row loses its consistency: it is committed, the instance restarts with filters
that its bytes do not pass, and a lookup replaces the bytes by those of another NAR
that the upstream serves by now. -/
theorem refreshed_row_inconsistent :
    ∃ s, Reached default (fun _ label _ => WithoutMesh label) empty s ∧
      ∃ row ∈ s.inst.routes.rows, ¬row.Consistent := by
  obtain ⟨log, hcommitted, -⟩ := reached_committedOfU (fun _ label _ => WithoutMesh label)
    (fun _ => trivial) fun _ _ _ _ _ _ _ _ => trivial
  let inst : Instance := .start derivedFromD committedOfU.routes ∅ ∅ 100000 0 0 2 default 0
  have hrestarted : Reached default (fun _ label _ => WithoutMesh label) empty
      ⟨derivedFromD, inst, [], 1, 1, log⟩ :=
    hcommitted.restart derivedFromD ∅ 100000 0 0 2 default 0 rfl trivial
  have hrow : inst.routes.getRoute zeroHash.val = .ok (some rowOfWinner) := by decide
  have hfails : cachedPasses derivedFromD ['u'] (some bodyOfU) = false := by decide
  have hcheck : checkNarinfo default derivedFromD ['u'] (.ok (some rebuiltBody)) =
      .ok (some rebuiltBody, rebuiltNarinfo) := by decide
  have hallows : derivedFromD.allows ['u'] rebuiltNarinfo = true := by decide
  have hvalid : rowOfWinner.isValid inst.wallClock = true := by decide
  have hcount : inst.writeCount % 100 ≠ 99 := by decide
  have hresolve : ∃ result inst', Execution (Instance.exec derivedFromD)
      (resolve default derivedFromD zeroHash.val [] .client) inst (.ok result) inst' ∧
      inst'.routes = (inst.stored (Instance.refreshed rowOfWinner rebuiltBody)).routes :=
    Instance.execution_resolve_refreshed rfl rfl rfl hrow hvalid rfl hfails hcheck hallows hcount
  obtain ⟨result, inst', hexecution, hroutes⟩ := hresolve
  obtain ⟨events, hreplay⟩ := hexecution.exists_replay
  have htask : Replay (Instance.exec derivedFromD)
      ((TaskKind.resolve zeroHash [] .client).process default derivedFromD) inst events
      (.lookup (.ok result)) inst' := hreplay.bind_ret rfl
  obtain ⟨newer, hreached, -⟩ := hrestarted.task htask (fun _ => trivial)
    fun _ _ _ _ _ _ _ _ => trivial
  refine ⟨_, hreached, _, ?_, not_consistent_refreshed⟩
  rw [hroutes]
  exact List.mem_cons_self

end History

end Ncro
