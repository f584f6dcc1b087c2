import Ncro.Router.Replays
import Ncro.Router.Writes
import Ncro.Server.Nar

/-!
# Paths of NARs on their upstreams

The URL of a NAR request is the URL of the upstream followed by a path, without
anything between them. It names the upstream only as long as the path begins with a
slash. The paths that `commit_winner` stores do, a refresh writes back what was read,
and a column added by a migration is empty. A merge stores what was announced as it is,
so the paths of a table are `Rooted` in every run in which the announced ones are.
-/

namespace Ncro

open Foundation Foundation.Process

/-- A path that is empty or begins with a slash. -/
def Rooted (path : Str) : Prop :=
  path = [] ∨ ∃ rest, path = '/' :: rest

/-- The URL that `HttpBackend::send` builds. Every backend is registered for its own URL. -/
def UpstreamRequest.httpUrl (request : UpstreamRequest) : Str :=
  request.upstream ++ request.path

/-- `add_column_if_missing` for the column `upstream_nar_url`, which is empty in older rows. -/
def RouteTable.migrate (hasColumn : Bool) (routes : RouteTable) : RouteTable :=
  if hasColumn then routes
  else
    { rows := routes.rows.map fun row => { row with upstreamNarUrl := [] }
      nodup := by simpa [Function.comp_def] using routes.nodup }

theorem RouteTable.rooted_migrate {hasColumn : Bool} {routes : RouteTable}
    (h : hasColumn = true → ∀ row ∈ routes.rows, Rooted row.upstreamNarUrl) :
    ∀ row ∈ (routes.migrate hasColumn).rows, Rooted row.upstreamNarUrl := by
  cases hasColumn with
  | true => exact h rfl
  | false =>
      intro row hrow
      obtain ⟨older, -, rfl⟩ := List.mem_map.1 hrow
      exact .inl rfl

/-! ## Writers -/

/-- What a merge stores is rooted. -/
def MergesRooted : HistoryLabel → Prop
  | .perform _ (.merge _) _ ⟨.dbUpsertRoute written, _⟩ => Rooted written.upstreamNarUrl
  | _ => True

/-- The rows that a task has read by their hash were rooted. -/
def ReadsRooted (past : List HandlerEvent) : Prop :=
  ∀ storeHash entry, (⟨.dbGetRoute storeHash, .ok (some entry)⟩ : HandlerEvent) ∈ past →
    Rooted entry.upstreamNarUrl

section

variable {crypto : Crypto} {reg : Registry} {storeHash : Str} {hop : Hop}
  {past : List HandlerEvent} {written : RouteEntry}

theorem CommitWrite.rooted (h : CommitWrite crypto reg storeHash past written) :
    Rooted written.upstreamNarUrl := by
  obtain ⟨winner, body, parsed, ema, now, earlier, -, -, -, rfl⟩ := h
  exact .inr ⟨_, rfl⟩

/-- A refresh writes back the path it has read. -/
theorem RefreshWrite.rooted (h : RefreshWrite crypto reg storeHash hop past written)
    (hreads : ReadsRooted past) : Rooted written.upstreamNarUrl := by
  obtain ⟨row, bytes, parsed, health, now, earlier, rfl, -, -, rfl⟩ := h
  exact hreads storeHash row (by simp)

end

namespace History

variable {crypto : Crypto} {s₀ s s' : History} {label : HistoryLabel}

/-- Every row is rooted, and so is every row that a task has read. -/
structure AllRooted (s : History) : Prop where
  rows : ∀ row ∈ s.inst.routes.rows, Rooted row.upstreamNarUrl
  reads : ∀ task ∈ s.tasks, ReadsRooted task.past

/-- What is read from a table of rooted rows. -/
theorem AllRooted.of_exec (h : s.AllRooted) {op : Op} {reply : op.Reply} {inst : Instance}
    {past : List HandlerEvent} (hreads : ReadsRooted past)
    (hexec : Instance.exec s.registry op s.inst reply inst) : ReadsRooted (⟨op, reply⟩ :: past) := by
  intro storeHash entry hmem
  rcases List.mem_cons.1 hmem with heq | hmem
  · cases heq
    rcases hexec.1 with hreply | hreply
    · cases hreply
    · obtain ⟨row, hrow, hread⟩ := RouteTable.exists_row_of_getRoute hreply.symm
      rw [hread.upstreamNarUrl]
      exact h.rows row (Table.mem_of_get hrow)
  · exact hreads storeHash entry hmem

/-- A task writes rooted rows only, when the merges do. -/
theorem AllRooted.written (h : s.AllRooted) (hfollow : s.TasksFollow crypto) {number : ℕ}
    {kind : TaskKind} {past : List HandlerEvent} {written : RouteEntry}
    {reply : Except DbError Unit}
    (hmerge : MergesRooted (.perform number kind past ⟨.dbUpsertRoute written, reply⟩))
    (hstep : Step crypto s (.perform number kind past ⟨.dbUpsertRoute written, reply⟩) s') :
    Rooted written.upstreamNarUrl := by
  have hop := hfollow.taskOp hstep
  obtain ⟨process, htask⟩ := hstep.mem_tasks
  cases kind with
  | resolve storeHash candidates hop' =>
      rcases hop with hcommit | hrefresh
      · exact hcommit.rooted
      · exact hrefresh.rooted (h.reads _ htask)
  | fallback storeHash upstream hop' => exact hop.elim
  | merge incoming => exact hmerge

theorem AllRooted.step (h : s.AllRooted) (hfollow : s.TasksFollow crypto)
    (hmerge : MergesRooted label) (hstep : Step crypto s label s') : s'.AllRooted := by
  constructor
  · rcases hstep.routes with ⟨number, kind, past, written, rfl, hroutes⟩ | hsub
    · intro row hrow
      rw [hroutes] at hrow
      rcases Table.mem_of_mem_upsert hrow with rfl | hrow
      · exact h.written hfollow hmerge hstep
      · exact h.rows row hrow
    · exact fun row hrow => h.rows row (hsub.subset hrow)
  · refine hstep.tasks (T := fun _ task => ReadsRooted task.past) h.reads ?_ ?_
    · intro kind _ storeHash entry hmem
      cases hmem
    · intro number kind past op next reply heq hreads
      rw [heq] at hstep
      exact h.of_exec hreads hstep.perform_effect.1

theorem Reached.allRooted (h₀ : s₀.Fresh)
    (hrows : ∀ row ∈ s₀.inst.routes.rows, Rooted row.upstreamNarUrl)
    (h : Reached crypto (fun _ label _ => MergesRooted label) s₀ s) : s.AllRooted := by
  have hstart : s₀.AllRooted := ⟨hrows, by simp [h₀.tasks]⟩
  refine h.invariant hstart fun {s label s'} hreached hall hmeets hstep => ?_
  exact hall.step (hreached.tasksFollow h₀) hmeets hstep

end History

/-! ## Requests -/

section Requests

variable {crypto : Crypto} {app : AppState}

/-- A request to an upstream of a URL that begins with the upstream's own and a slash. -/
def StaysOnUpstream : Op → Prop
  | .spawnNar candidate request =>
      ∃ rest, request.httpUrl = candidate.upstream ++ '/' :: rest
  | _ => True

theorem staysOnUpstream_spawnNar {method : Method} {headers : HeaderMap}
    {candidate : NarCandidate} (h : ∃ rest, candidate.path = '/' :: rest) :
    StaysOnUpstream (.spawnNar candidate (narRequest app method headers candidate)) := by
  obtain ⟨rest, hpath⟩ := h
  exact ⟨rest, congrArg (candidate.upstream ++ ·) hpath⟩

theorem returns_candidatePath {storeHash : Option Str} {path : Str}
    {expectedNarinfo : Option NarInfo} {url : Str} (hpath : ∃ rest, path = '/' :: rest) :
    Returns (fun found : Except RouterError Str =>
        ∀ candidatePath, found = .ok candidatePath → ∃ rest, candidatePath = '/' :: rest)
      (candidatePath crypto app storeHash path expectedNarinfo url) := by
  cases storeHash with
  | none =>
      rintro candidatePath ⟨⟩
      exact hpath
  | some storeHash =>
      refine returns_bind fun fetched => ?_
      match fetched with
      | .error err => exact nofun
      | .ok (body, parsed) =>
          show Returns _ (ite _ _ (ite _ _ (ite _ _ _)))
          split
          · exact nofun
          split
          · exact nofun
          split
          · exact nofun
          · rintro candidatePath ⟨⟩
            exact ⟨_, rfl⟩

/-- Every candidate is asked for a path that begins with a slash. -/
theorem returns_candidatesAmong {storeHash : Option Str} {path : Str}
    {expectedNarinfo : Option NarInfo} (hpath : ∃ rest, path = '/' :: rest)
    (healths : List UpstreamHealth) :
    Returns (fun candidates : List NarCandidate =>
        ∀ candidate ∈ candidates, ∃ rest, candidate.path = '/' :: rest)
      (candidatesAmong crypto app storeHash path expectedNarinfo healths) := by
  induction healths with
  | nil => exact fun candidate hmem => by cases hmem
  | cons health healths ih =>
      refine (returns_candidatePath hpath).bind fun found hfound => ih.bind fun candidates hall => ?_
      match found with
      | .error err => exact hall
      | .ok candidatePath =>
          intro candidate hmem
          rcases List.mem_cons.1 hmem with rfl | hmem
          · exact hfound candidatePath rfl
          · exact hall candidate hmem

theorem returns_hedgeCandidates {storeHash : Option Str} {path skip : Str}
    {includeHedgingOptOuts : Bool} {expectedNarinfo : Option NarInfo}
    (hpath : ∃ rest, path = '/' :: rest) :
    Returns (fun candidates : List NarCandidate =>
        ∀ candidate ∈ candidates, ∃ rest, candidate.path = '/' :: rest)
      (hedgeCandidates crypto app storeHash path skip includeHedgingOptOuts expectedNarinfo) := by
  refine returns_bind fun sorted => (returns_candidatesAmong hpath _).bind fun candidates hall => ?_
  exact fun candidate hmem => hall candidate (List.mem_reverse.1 hmem)

/-- The requests for a routed path stay on their upstreams. -/
theorem performs_tryRouted {request : ClientRequest} {entry : RouteEntry}
    (hrequest : ∃ rest, request.path = '/' :: rest) (hentry : Rooted entry.upstreamNarUrl) :
    Performs StaysOnUpstream (tryRouted crypto app request entry) := by
  have hpath : ∃ rest, request.path ++ request.query = '/' :: rest := by
    obtain ⟨rest, hrest⟩ := hrequest
    exact ⟨rest ++ request.query, by rw [hrest, List.cons_append]⟩
  have hinitial : ∃ rest,
      (if entry.upstreamNarUrl = [] then request.path ++ request.query
        else entry.upstreamNarUrl) = '/' :: rest := by
    rcases hentry with hempty | ⟨rest, hrest⟩
    · rwa [if_pos hempty]
    · rw [if_neg (by simp [hrest])]
      exact ⟨rest, hrest⟩
  have hnar : ∀ candidates : List NarCandidate,
      (∀ candidate ∈ candidates, ∃ rest, candidate.path = '/' :: rest) →
      Performs StaysOnUpstream (hedgedNar app request.method request.headers
        ⟨entry.upstreamUrl,
          if entry.upstreamNarUrl = [] then request.path ++ request.query
          else entry.upstreamNarUrl, .cacheHit⟩ candidates) := by
    intro candidates hall
    apply performs_hedgedNar
    · exact fun _ _ => trivial
    · exact staysOnUpstream_spawnNar hinitial
    · exact fun candidate hmem => staysOnUpstream_spawnNar (hall candidate hmem)
  unfold tryRouted
  split
  · apply Performs.bind_returns _ (returns_hedgeCandidates hpath) hnar
    exact performs_hedgeCandidates trivial fun _ _ _ => trivial
  · exact hnar [] (by simp)

end Requests

/-- NAR paths stay on their upstreams. In every run over a migrated database in which merges
store rooted paths, each row's path is rooted in every state reached, and so a request for a
routed NAR has a URL that begins with the URL of its upstream and a slash. -/
theorem routed_paths_rooted (crypto : Crypto) (app : AppState) (s₀ s : History) (h₀ : s₀.Fresh)
    (hasColumn : Bool) (older : RouteTable) (hopened : s₀.inst.routes = older.migrate hasColumn)
    (holder : hasColumn = true → ∀ row ∈ older.rows, Rooted row.upstreamNarUrl)
    (h : History.Reached crypto (fun _ label _ => MergesRooted label) s₀ s) :
    (∀ row ∈ s.inst.routes.rows, Rooted row.upstreamNarUrl) ∧
      ∀ now narUrl entry, s.inst.routes.GetRouteByNarUrl now narUrl (.ok (some entry)) →
        ∀ request : ClientRequest, (∃ rest, request.path = '/' :: rest) →
          Performs StaysOnUpstream (tryRouted crypto app request entry) := by
  have hall := h.allRooted h₀ (hopened ▸ RouteTable.rooted_migrate holder)
  refine ⟨hall.rows, fun now narUrl entry hget request hrequest => ?_⟩
  apply performs_tryRouted hrequest
  rcases hget with ⟨row, hrow, -, -, hread⟩ | ⟨-, hnone⟩
  · cases hentry : rowToRoute row with
    | error err =>
        rw [hentry] at hread
        cases hread
    | ok read =>
        rw [hentry] at hread
        cases hread
        rw [(readFrom_of_rowToRoute hentry).upstreamNarUrl]
        exact hall.rows row hrow
  · cases hnone

/-! ## Two announced routes -/

namespace History

/-- An announced route is merged into an empty table. -/
theorem reached_merged (meets : History → HistoryLabel → History → Prop) (route : RouteEntry)
    (husable : usableRoute default route = true)
    (hstart : ∀ t, meets empty (.start (.merge [route])) t)
    (hmeets : ∀ t past written reply t', written = route →
      meets t (.perform 0 (.merge [route]) past ⟨.dbUpsertRoute written, reply⟩) t')
    (hother : ∀ t past event t', (∀ written, event.1 ≠ .dbUpsertRoute written) →
      meets t (.perform 0 (.merge [route]) past event) t') :
    ∃ s, Reached default meets empty s ∧ s.inst.routes.rows = [routeToRow route] := by
  have hmerge : Replay (Instance.exec default) (mergeRoutes [route]) empty.inst _ ()
      (empty.inst.stored route) :=
    Instance.replay_mergeRoutes husable rfl (by decide)
  have htask : Replay (Instance.exec default) ((TaskKind.merge [route]).process default default)
      empty.inst _ .merged (empty.inst.stored route) := hmerge.bind_ret rfl
  have hempty : Reached default meets empty empty := .refl
  obtain ⟨newer, hreached, -⟩ := hempty.task htask hstart
    fun t before event after t' hsplit _ _ => by
      have hmem : event ∈ before ++ event :: after := by simp
      rw [← hsplit] at hmem
      simp only [List.mem_cons, List.not_mem_nil, or_false] at hmem
      rcases hmem with rfl | rfl | rfl | rfl
      · exact hother _ _ _ _ fun _ heq => by cases heq
      · exact hother _ _ _ _ fun _ heq => by cases heq
      · exact hmeets _ _ _ _ _ rfl
      · exact hother _ _ _ _ fun _ heq => by cases heq
  exact ⟨_, hreached, rfl⟩

/-- A route of the upstream at `https://u` with a path. -/
def announcedFor (path : Str) : RouteEntry :=
  { rowOfU with
    upstreamUrl := "https://u".toList
    narUrl := "nar/x.nar".toList
    upstreamNarUrl := path }

theorem routed_paths_rooted_announced :
    ∃ s, Reached default (fun _ label _ => MergesRooted label) empty s ∧
      s.inst.routes.rows = [routeToRow (announcedFor "/x.nar".toList)] ∧
      ∀ row ∈ s.inst.routes.rows, Rooted row.upstreamNarUrl := by
  obtain ⟨s, hreached, hrows⟩ := reached_merged (fun _ label _ => MergesRooted label)
    (announcedFor "/x.nar".toList) (by decide) (fun t => trivial)
    (fun t past written reply t' hwritten => by rw [hwritten]; exact .inr ⟨_, rfl⟩)
    fun t past event t' hevent => by
      obtain ⟨op, reply⟩ := event
      cases op with
      | dbUpsertRoute written => exact absurd rfl (hevent written)
      | _ => trivial
  exact ⟨s, hreached, hrows, (routed_paths_rooted default default empty s fresh_empty false ∅ rfl
    (fun h => by cases h) hreached).1⟩

/-- An allowed peer announces a path that begins with `@`. It is stored as it is, and the
request for the NAR goes to another host. -/
theorem announced_path_leaves_upstream :
    ∃ s, Reached default (fun _ _ _ => True) empty s ∧
      ∃ row ∈ s.inst.routes.rows, ¬Rooted row.upstreamNarUrl ∧
        row.upstreamUrl = "https://u".toList ∧
        (narRequest default .get [] ⟨row.upstreamUrl, row.upstreamNarUrl, .cacheHit⟩).httpUrl =
          "https://u@evil/x.nar".toList := by
  obtain ⟨s, hreached, hrows⟩ := reached_merged (fun _ _ _ => True)
    (announcedFor "@evil/x.nar".toList) (by decide) (fun t => trivial)
    (fun t past written reply t' hwritten => trivial) fun t past event t' hevent => trivial
  refine ⟨s, hreached, routeToRow (announcedFor "@evil/x.nar".toList), ?_, ?_, rfl, rfl⟩
  · rw [hrows]
    exact List.mem_singleton_self _
  · rintro (h | ⟨rest, h⟩)
    · cases h
    · cases h

end History

end Ncro
