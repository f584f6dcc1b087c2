import Ncro.Foundation.Selection
import Ncro.Instance
import Ncro.Mesh

/-!
# Convergence of merges

Announcements travel over UDP, which may reorder and repeat them. A merge keeps
the better of the stored and the announced route of each path, so the order and
the repetition do not matter as long as every two different routes of a path are
ranked: by their latencies, or for the same latency by when they were verified.
Two routes that tie on both are kept in the order of their arrival.
-/

namespace Ncro

open Foundation Foundation.Process

/-! ## One path -/

/-- What a merge makes of the row of an announced route's path. -/
def mergeRow (held : Option RouteRow) (route : RouteEntry) : Option RouteRow :=
  match held with
  | none => some (routeToRow route)
  | some row =>
      match rowToRoute row with
      | .error _ => some row
      | .ok existing =>
          if shouldSetRoute route (some existing) then some (routeToRow route) else some row

/-- The comparison of a merge, as one of rows. -/
def rowSupersedes (row held : RouteRow) : Bool :=
  match rowToRoute held with
  | .error _ => false
  | .ok existing =>
      !(existing.latencyEma.lt row.latencyEma) &&
        !(row.latencyEma.totalCmp existing.latencyEma = .eq &&
          row.lastVerified ≤ existing.lastVerified.asSecond)

/-- A route as the gossip loop sends it: the numbers fit their types, and the
time of the verification is a whole second. -/
structure RouteEntry.AsSent (route : RouteEntry) : Prop where
  queryCount : route.queryCount < 2 ^ 32
  failureCount : route.failureCount < 2 ^ 32
  narSize : route.narSize < 2 ^ 64
  lastVerified : route.lastVerified.asNanosecond = route.lastVerified.asSecond * 10 ^ 9

/-- Of two routes of a path one is better: faster, or as fast and verified later. -/
def RouteEntry.Ranked (route other : RouteEntry) : Prop :=
  route.latencyEma.lt other.latencyEma = true ∨ other.latencyEma.lt route.latencyEma = true ∨
    route.latencyEma = other.latencyEma ∧
      route.lastVerified.asSecond ≠ other.lastVerified.asSecond

/-- A stored route is read back with its latency and its whole seconds. -/
theorem RouteEntry.AsSent.rowToRoute {route : RouteEntry} (h : route.AsSent) :
    ∃ existing, rowToRoute (routeToRow route) = .ok existing ∧
      existing.latencyEma = route.latencyEma ∧
      existing.lastVerified.asSecond = route.lastVerified.asSecond := by
  obtain ⟨lastVerified, hverified⟩ := route.lastVerified.exists_fromSecond_asSecond
  obtain ⟨ttl, httl⟩ := route.ttl.exists_fromSecond_asSecond
  have hquery := h.queryCount
  have hfailure := h.failureCount
  have hcolumn : ∀ what (n : ℕ), n < 2 ^ 32 → unsignedColumn 32 what (n : ℤ) = .ok n := by
    intro what n hn
    rw [unsignedColumn, if_pos (by constructor <;> omega), Int.toNat_natCast]
  have hsize : unsignedColumn 64 "nar_size" (routeToRow route).narSize
      = .ok (routeToRow route).narSize.toNat := by
    rw [unsignedColumn, if_pos]
    show 0 ≤ min (route.narSize : ℤ) (2 ^ 63 - 1) ∧ min (route.narSize : ℤ) (2 ^ 63 - 1) < 2 ^ 64
    omega
  refine ⟨{ route with lastVerified, ttl, narSize := (routeToRow route).narSize.toNat }, ?_, rfl,
    (Timestamp.asNanosecond_of_fromSecond hverified).2⟩
  unfold Ncro.rowToRoute timestampColumn
  rw [hsize]
  simp only [routeToRow, hcolumn _ _ hquery, hcolumn _ _ hfailure, hverified, httl]
  rfl

/-- A merge of a path adopts what supersedes its row. -/
theorem mergeRow_eq_adopt {route : RouteEntry} (h : route.AsSent) (held : Option RouteRow) :
    mergeRow held route = adopt rowSupersedes held (routeToRow route) := by
  cases held with
  | none => rfl
  | some row =>
      unfold mergeRow adopt rowSupersedes
      cases hread : Ncro.rowToRoute row with
      | error err => simp only [hread]; rfl
      | ok existing =>
          have htime : (route.lastVerified ≤ existing.lastVerified) ↔
              route.lastVerified.asSecond ≤ existing.lastVerified.asSecond := by
            show route.lastVerified.asNanosecond ≤ existing.lastVerified.asNanosecond ↔ _
            have hwhole := h.lastVerified
            obtain ⟨hstored, hsecond⟩ := Timestamp.asNanosecond_of_fromSecond
              (readFrom_of_rowToRoute hread).lastVerified
            omega
          simp only [hread, shouldSetRoute, htime]
          rfl

/-! ## Ranked routes -/

theorem rowSupersedes_eq {held : RouteRow} {existing : RouteEntry}
    (h : rowToRoute held = .ok existing) (row : RouteRow) :
    rowSupersedes row held =
      (!(existing.latencyEma.lt row.latencyEma) &&
        !(row.latencyEma.totalCmp existing.latencyEma = .eq &&
          row.lastVerified ≤ existing.lastVerified.asSecond)) := by
  rw [rowSupersedes, h]

/-- Superseding the row of a route. -/
theorem rowSupersedes_routeToRow {route other : RouteEntry} (h : other.AsSent) :
    rowSupersedes (routeToRow route) (routeToRow other) =
      (!(other.latencyEma.lt route.latencyEma) &&
        !(route.latencyEma.totalCmp other.latencyEma = .eq &&
          route.lastVerified.asSecond ≤ other.lastVerified.asSecond)) := by
  obtain ⟨existing, hread, hema, htime⟩ := h.rowToRoute
  rw [rowSupersedes_eq hread, hema, htime, routeToRow_latencyEma, routeToRow_lastVerified]

/-- What makes the announced routes of a path mergeable in any order. -/
structure Mergeable (routes : RouteEntry → Prop) : Prop where
  asSent : ∀ route, routes route → route.AsSent
  finite : ∀ route, routes route → route.latencyEma.isFinite = true
  ranked : ∀ route other, routes route → routes other → route.storePath = other.storePath →
    route ≠ other → route.Ranked other

theorem Mergeable.decisive {routes : RouteEntry → Prop} (h : Mergeable routes) (path : Str) :
    Decisive rowSupersedes fun row =>
      ∃ route, routes route ∧ route.storePath = path ∧ routeToRow route = row := by
  refine ⟨?_, ?_, ?_⟩
  · rintro _ ⟨route, hroute, -, rfl⟩
    rw [rowSupersedes_routeToRow (h.asSent route hroute)]
    simp [Double.totalCmp_self]
  · rintro _ _ ⟨route, hroute, hpath, rfl⟩ ⟨other, hother, rfl, rfl⟩ hne
    have hranked := h.ranked route other hroute hother hpath fun heq => hne (heq ▸ rfl)
    rw [rowSupersedes_routeToRow (h.asSent other hother),
      rowSupersedes_routeToRow (h.asSent route hroute)]
    rcases hranked with hlt | hlt | ⟨hema, htime⟩
    · simp [hlt, Double.lt_asymm hlt, Double.totalCmp_of_lt hlt]
    · simp [hlt, Double.lt_asymm hlt, Double.totalCmp_of_lt hlt]
    · simp only [hema, Double.lt_irrefl, Double.totalCmp_self]
      by_cases hle : route.lastVerified.asSecond ≤ other.lastVerified.asSecond
      · have hge : ¬other.lastVerified.asSecond ≤ route.lastVerified.asSecond := by omega
        simp [hle, hge]
      · have hge : other.lastVerified.asSecond ≤ route.lastVerified.asSecond := by omega
        simp [hle, hge]
  · rintro _ _ held ⟨route, hroute, hpath, rfl⟩ ⟨other, hother, rfl, rfl⟩ hsup hheld
    rw [rowSupersedes_routeToRow (h.asSent other hother)] at hsup
    unfold rowSupersedes at hheld ⊢
    split at hheld
    · cases hheld
    next existing _ =>
    simp only [routeToRow_latencyEma, routeToRow_lastVerified, Bool.and_eq_true,
      Bool.not_eq_true', Bool.and_eq_false_iff] at hsup hheld ⊢
    obtain ⟨hslower, htie⟩ := hsup
    obtain ⟨hslower', htie'⟩ := hheld
    have hfinite := h.finite route hroute
    have hfinite' := h.finite other hother
    refine ⟨?_, ?_⟩
    · by_contra hlt
      rw [Bool.not_eq_false] at hlt
      rw [Double.lt_of_lt_of_not_lt hfinite hfinite' hlt hslower] at hslower'
      cases hslower'
    · by_contra htied
      rw [not_or, Bool.not_eq_false, Bool.not_eq_false] at htied
      have heq := of_decide_eq_true htied.1
      have htime := of_decide_eq_true htied.2
      have hexisting := Double.eq_of_totalCmp hfinite heq
      rw [← hexisting] at hslower' htie'
      by_cases hsame : route = other
      · subst hsame
        simp [Double.totalCmp_self] at htie
      · rcases h.ranked route other hroute hother hpath hsame with hlt | hlt | ⟨hema, hne⟩
        · rw [hlt] at hslower'
          cases hslower'
        · rw [hlt] at hslower
          cases hslower
        · have htie : ¬route.lastVerified.asSecond ≤ other.lastVerified.asSecond := by
            simpa [hema] using htie
          have htie' : ¬other.lastVerified.asSecond ≤ existing.lastVerified.asSecond := by
            rcases htie' with htie' | htie'
            · exact absurd (hema ▸ Double.totalCmp_self _) (of_decide_eq_false htie')
            · exact of_decide_eq_false htie'
          exact htie' (le_trans (le_of_not_ge htie) htime)

/-! ## The table -/

/-- The operations of a merge succeed. -/
def MergeSucceeds : (op : Op) → op.Reply → Prop
  | .dbGetRoute _, reply => reply ≠ .error .sqlx
  | .dbUpsertRoute _, reply => reply = .ok ()
  | .dbEvictIfNeeded, reply => reply = .ok ()
  | _, _ => True

/-- The effect of the operations of a merge whose database works. -/
def merging (reg : Registry) : Semantics Op Op.Reply Instance :=
  fun op s reply s' => Instance.exec reg op s reply s' ∧ MergeSucceeds op reply

/-- The rows of a table, and the routes still to come, are of some paths, for all
of which the table has room. -/
structure Room (paths : List Str) (s : Instance) : Prop where
  rows : ∀ row ∈ s.routes.rows, row.storePath ∈ paths
  bound : (paths.length : ℤ) ≤ s.maxEntries

section

variable {reg : Registry} {s s' : Instance} {paths : List Str}

theorem Room.excess_eq (h : Room paths s) : s.routes.excess s.maxEntries = 0 := by
  have hsub : s.routes.rows.map RouteRow.storePath ⊆ paths := by
    intro path hpath
    obtain ⟨row, hrow, rfl⟩ := List.mem_map.1 hpath
    exact h.rows row hrow
  have hlength := (s.routes.nodup.subperm hsub).length_le
  have hbound := h.bound
  rw [List.length_map] at hlength
  unfold RouteTable.excess
  omega

/-- A table with room is not cut. -/
theorem Room.evicts (h : Room paths s) {routes : RouteTable}
    (hevicts : s.routes.Evicts s.maxEntries routes) : routes = s.routes := by
  have hlength := hevicts.length
  rw [h.excess_eq] at hlength
  have hrows := hevicts.sublist.eq_of_length (by omega)
  cases routes
  cases hroutes : s.routes
  rw [hroutes] at hrows
  simpa using hrows

/-- Storing a route in a table with room. -/
theorem execution_setRoute {route : RouteEntry} {result : Except DbError Unit}
    (h : Execution (merging reg) (setRoute route) s result s') (hroom : Room paths s)
    (hpath : route.storePath ∈ paths) :
    s'.routes = s.routes.upsert (routeToRow route) ∧ Room paths s' ∧
      s'.wallClock = s.wallClock := by
  obtain ⟨reply, s₁, ⟨hexec, hreply⟩, h⟩ := execution_call_bind_iff.1 h
  obtain rfl : reply = .ok () := hreply
  obtain ⟨heq, -⟩ | ⟨-, rfl⟩ := hexec
  · cases heq
  obtain ⟨count, s₂, ⟨⟨-, rfl⟩, -⟩, h⟩ := execution_call_bind_iff.1 h
  have hroom' : Room paths { s with
      routes := s.routes.upsert (routeToRow route)
      writeCount := (s.writeCount + 1) % 2 ^ 64 } := by
    refine ⟨fun row hrow => ?_, hroom.bound⟩
    rcases Table.mem_of_mem_upsert hrow with rfl | hrow
    · exact hpath
    · exact hroom.rows row hrow
  split at h
  · obtain ⟨reply, s₃, ⟨hexec, -⟩, h⟩ := execution_call_bind_iff.1 h
    obtain ⟨-, rfl⟩ := execution_ret_iff.1 h
    obtain ⟨-, rfl⟩ | ⟨-, routes, hevicts, rfl⟩ := hexec
    · exact ⟨rfl, hroom', rfl⟩
    · rw [hroom'.evicts hevicts]
      exact ⟨rfl, hroom', rfl⟩
  · obtain ⟨-, rfl⟩ := execution_ret_iff.1 h
    exact ⟨rfl, hroom', rfl⟩

/-- The routes of a path, in their order. -/
def routesFor (path : Str) (routes : List RouteEntry) : List RouteEntry :=
  routes.filter fun route => route.storePath = path

theorem foldl_routesFor_self (held : Option RouteRow) (route : RouteEntry)
    (routes : List RouteEntry) :
    (routesFor route.storePath (route :: routes)).foldl mergeRow held =
      (routesFor route.storePath routes).foldl mergeRow (mergeRow held route) := by
  rw [routesFor, routesFor, List.filter_cons_of_pos (by simp), List.foldl_cons]

theorem foldl_routesFor_of_ne {path : Str} {route : RouteEntry} (h : path ≠ route.storePath)
    (held : Option RouteRow) (routes : List RouteEntry) :
    (routesFor path (route :: routes)).foldl mergeRow held =
      (routesFor path routes).foldl mergeRow held := by
  rw [routesFor, routesFor, List.filter_cons_of_neg (by simpa using h.symm)]

/-- Whether a route is stored is what a merge of it with the row of its path decides. -/
theorem execution_mergeEach_cons {route : RouteEntry} {routes : List RouteEntry}
    (h : Execution (merging reg) (mergeEach (route :: routes)) s () s') :
    mergeRow (s.routes.get route.storePath) route = s.routes.get route.storePath ∧
        Execution (merging reg) (mergeEach routes) s () s' ∨
      mergeRow (s.routes.get route.storePath) route = some (routeToRow route) ∧
        Execution (merging reg) (setRoute route >>= fun _ => mergeEach routes) s () s' := by
  obtain ⟨existing, s₁, ⟨⟨hread, rfl⟩, hsucceeds⟩, h⟩ := execution_call_bind_iff.1 h
  rcases hread with hfailed | hread
  · exact absurd hfailed hsucceeds
  cases hget : s₁.routes.get route.storePath with
  | none =>
      rw [RouteTable.getRoute, hget] at hread
      subst hread
      exact .inr ⟨rfl, h⟩
  | some row =>
      rw [RouteTable.getRoute, hget] at hread
      replace hread : existing = (rowToRoute row).map some := hread
      cases hrow : rowToRoute row with
      | error err =>
          rw [hrow] at hread
          subst hread
          exact .inl ⟨by simp only [mergeRow, hrow], h⟩
      | ok entry =>
          rw [hrow] at hread
          subst hread
          by_cases hshould : shouldSetRoute route (some entry) = true
          · refine .inr ⟨by simp only [mergeRow, hrow, hshould, if_true], ?_⟩
            simpa [Except.map, hshould] using h
          · refine .inl ⟨by simp only [mergeRow, hrow]; rw [if_neg hshould], ?_⟩
            simpa [Except.map, hshould] using h

/-- A merge handles each path by itself. -/
theorem execution_mergeEach {routes : List RouteEntry}
    (h : Execution (merging reg) (mergeEach routes) s () s') (hroom : Room paths s)
    (hpaths : ∀ route ∈ routes, route.storePath ∈ paths) :
    Room paths s' ∧ ∀ path, s'.routes.get path =
      (routesFor path routes).foldl mergeRow (s.routes.get path) := by
  induction routes generalizing s with
  | nil =>
      obtain ⟨-, rfl⟩ := execution_ret_iff.1 h
      exact ⟨hroom, fun _ => rfl⟩
  | cons route routes ih =>
      have hrest : ∀ other ∈ routes, other.storePath ∈ paths := fun other hother =>
        hpaths other (List.mem_cons_of_mem _ hother)
      rcases execution_mergeEach_cons h with ⟨hsame, h⟩ | ⟨hsome, h⟩
      · obtain ⟨hroom', hget⟩ := ih h hroom hrest
        refine ⟨hroom', fun path => ?_⟩
        rw [hget]
        by_cases hpath : path = route.storePath
        · rw [hpath, foldl_routesFor_self, hsame]
        · rw [foldl_routesFor_of_ne hpath]
      · obtain ⟨_, s₁, hstored, h⟩ := execution_bind_iff.1 h
        obtain ⟨hroutes, hroom', -⟩ :=
          execution_setRoute hstored hroom (hpaths route List.mem_cons_self)
        obtain ⟨hroom'', hget⟩ := ih h hroom' hrest
        refine ⟨hroom'', fun path => ?_⟩
        rw [hget, hroutes]
        by_cases hpath : path = route.storePath
        · rw [hpath, foldl_routesFor_self, hsome]
          exact congrArg (fun held => (routesFor route.storePath routes).foldl mergeRow held)
            (Table.get_upsert_self s.routes (routeToRow route))
        · have hrow : path ≠ (routeToRow route).storePath := hpath
          rw [foldl_routesFor_of_ne hpath, Table.get_upsert_of_ne hrow]

end

/-! ## Deliveries -/

/-- The announcements arrive one after the other, each with the time at which it
is merged, and every merge succeeds. -/
inductive Delivered (reg : Registry) :
    List (Timestamp × List RouteEntry) → Instance → Instance → Prop
  | nil (s : Instance) : Delivered reg [] s s
  | cons {now : Timestamp} {packet : List RouteEntry}
      {packets : List (Timestamp × List RouteEntry)} {s s' s'' : Instance}
      (h : Execution (merging reg) (mergeRoutes packet) { s with wallClock := now } () s')
      (hrest : Delivered reg packets s' s'') : Delivered reg ((now, packet) :: packets) s s''

/-- The routes of some deliveries, in the order of their arrival. -/
def deliveredRoutes (deliveries : List (Timestamp × List RouteEntry)) : List RouteEntry :=
  deliveries.flatMap Prod.snd

section

variable {reg : Registry} {s s' : Instance} {paths : List Str}
  {deliveries : List (Timestamp × List RouteEntry)}

theorem Delivered.get (h : Delivered reg deliveries s s') (hroom : Room paths s)
    (hpaths : ∀ route ∈ deliveredRoutes deliveries, route.storePath ∈ paths)
    (husable : ∀ delivery ∈ deliveries, ∀ route ∈ delivery.2, usableRoute delivery.1 route = true)
    (path : Str) :
    s'.routes.get path =
      (routesFor path (deliveredRoutes deliveries)).foldl mergeRow (s.routes.get path) := by
  induction h with
  | nil s => rfl
  | @cons now packet packets s s₁ s' hmerge hrest ih =>
      obtain ⟨clock, s₂, ⟨⟨hclock, rfl⟩, -⟩, hmerge⟩ := execution_call_bind_iff.1 hmerge
      have hall : packet.filter (usableRoute now) = packet :=
        List.filter_eq_self.2 (husable (now, packet) List.mem_cons_self)
      have hpacket : ∀ route ∈ packet, route.storePath ∈ paths := fun route hroute =>
        hpaths route (by simp [deliveredRoutes, hroute])
      have hlater : ∀ route ∈ deliveredRoutes packets, route.storePath ∈ paths :=
        fun route hroute => hpaths route (by
          rw [deliveredRoutes, List.flatMap_cons]
          exact List.mem_append_right _ hroute)
      rw [show clock = now from hclock, hall] at hmerge
      obtain ⟨hroom', hget⟩ := execution_mergeEach hmerge ⟨hroom.rows, hroom.bound⟩ hpacket
      have husable' := fun delivery hdelivery =>
        husable delivery (List.mem_cons_of_mem _ hdelivery)
      have hroutes : routesFor path (deliveredRoutes ((now, packet) :: packets))
          = routesFor path packet ++ routesFor path (deliveredRoutes packets) := by
        simp [deliveredRoutes, routesFor]
      rw [ih hroom' hlater husable', hget, hroutes, List.foldl_append]

/-- The row that a path ends up with is the best of those offered. -/
theorem foldl_mergeRow_eq {routes : RouteEntry → Prop} (hmergeable : Mergeable routes)
    {offers offers' : List RouteEntry} (hoffers : ∀ route ∈ offers, routes route)
    (hmem : ∀ route, route ∈ offers ↔ route ∈ offers') (path : Str) (held : Option RouteRow) :
    (routesFor path offers).foldl mergeRow held
      = (routesFor path offers').foldl mergeRow held := by
  have hrows : ∀ {list : List RouteEntry}, (∀ route ∈ list, route.AsSent) → ∀ held,
      list.foldl mergeRow held = (list.map routeToRow).foldl (adopt rowSupersedes) held := by
    intro list hsent
    induction list with
    | nil => exact fun _ => rfl
    | cons route list ih =>
        intro held
        rw [List.foldl_cons, mergeRow_eq_adopt (hsent route List.mem_cons_self), List.map_cons,
          List.foldl_cons]
        exact ih (fun other h => hsent other (List.mem_cons_of_mem _ h)) _
  have hsent : ∀ route ∈ routesFor path offers, route.AsSent := fun route hroute =>
    hmergeable.asSent route (hoffers route (List.mem_filter.1 hroute).1)
  have hsent' : ∀ route ∈ routesFor path offers', route.AsSent := fun route hroute =>
    hmergeable.asSent route (hoffers route ((hmem route).2 (List.mem_filter.1 hroute).1))
  rw [hrows hsent, hrows hsent']
  refine foldl_adopt_eq (hmergeable.decisive path) (fun row hrow => ?_) fun row => ?_
  · obtain ⟨route, hroute, rfl⟩ := List.mem_map.1 hrow
    obtain ⟨hmem, hpath⟩ := List.mem_filter.1 hroute
    exact ⟨route, hoffers route hmem, by simpa using hpath, rfl⟩
  · simp only [routesFor, List.mem_map, List.mem_filter, hmem]

end

/-! ## Two deliveries of two routes -/

/-- A route to an upstream, verified at the epoch. -/
def epochRoute (upstream : Str) (latency : ℚ) : RouteEntry where
  storePath := ['h']
  upstreamUrl := upstream
  latencyMs := .fin latency
  latencyEma := .fin latency
  lastVerified := default
  queryCount := 1
  failureCount := 0
  ttl := .max
  narHash := []
  narSize := 0
  narUrl := []
  upstreamNarUrl := []
  narinfoBytes := none

theorem epochRoute_asSent (upstream : Str) (latency : ℚ) : (epochRoute upstream latency).AsSent :=
  ⟨by norm_num [epochRoute], by norm_num [epochRoute], by norm_num [epochRoute], rfl⟩

/-- An instance with an empty database. -/
def emptyDatabase : Instance := .start default ∅ ∅ ∅ 100000 0 0 2 default 0

theorem execution_storeRoute (s : Instance) (route : RouteEntry)
    (hcount : s.writeCount % 100 ≠ 99) :
    Execution (merging default) (setRoute route) s (.ok ()) (s.stored route) := by
  refine .call_bind ⟨.inr ⟨rfl, rfl⟩, rfl⟩ (.call_bind ⟨⟨rfl, rfl⟩, trivial⟩ ?_)
  rw [if_neg hcount]
  exact .ret _ _

/-- Two routes of one path can be delivered to an instance that has none. -/
theorem exists_delivered (first second : RouteEntry)
    (hfirst : usableRoute default first = true) (hsecond : usableRoute default second = true)
    (hsent : first.AsSent) (hpath : second.storePath = first.storePath) :
    ∃ s, Delivered default [(default, [first, second])] emptyDatabase s := by
  obtain ⟨existing, hread, -, -⟩ := hsent.rowToRoute
  let stored := emptyDatabase.stored first
  have hget : stored.routes.getRoute second.storePath = .ok (some existing) := by
    have hself : stored.routes.get first.storePath = some (routeToRow first) :=
      Table.get_upsert_self emptyDatabase.routes (routeToRow first)
    rw [RouteTable.getRoute, hpath, hself]
    show (rowToRoute (routeToRow first)).map some = _
    rw [hread]
    rfl
  have hcount : stored.writeCount % 100 ≠ 99 := by
    show (0 + 1) % 2 ^ 64 % 100 ≠ 99
    decide
  obtain ⟨s, hrest⟩ : ∃ s, Execution (merging default)
      (if shouldSetRoute second (some existing) then setRoute second >>= fun _ => mergeEach []
        else mergeEach []) stored () s := by
    split
    · exact ⟨_, .bind (execution_storeRoute stored second hcount) (.ret _ _)⟩
    · exact ⟨_, .ret _ _⟩
  have hstored : Execution (merging default) (mergeEach [second]) stored () s :=
    .call_bind ⟨⟨.inr hget.symm, rfl⟩, nofun⟩ hrest
  have hmerge : Execution (merging default) (mergeEach [first, second]) emptyDatabase () s := by
    refine .call_bind (r := .ok none) ⟨⟨.inr rfl, rfl⟩, nofun⟩ ?_
    exact .bind (execution_storeRoute emptyDatabase first (by decide)) hstored
  refine ⟨s, .cons (.call_bind (r := default) ⟨⟨rfl, rfl⟩, trivial⟩ ?_) (.nil s)⟩
  rw [List.filter_cons_of_pos hfirst, List.filter_cons_of_pos hsecond, List.filter_nil]
  exact hmerge

theorem usableRoute_epochRoute (upstream : Str) {latency : ℚ} (h : 0 ≤ latency) :
    usableRoute default (epochRoute upstream latency) = true := by
  have hlive : (default : Timestamp) < .max := by decide
  have hle : Double.le (.fin 0) (.fin latency) = true := by
    have hlt : Double.lt (.fin latency) (.fin 0) = false :=
      decide_eq_false (not_lt.2 h)
    simp [Double.le, hlt]
  simp [usableRoute, epochRoute, hlive, hle, Double.isFinite]

end Ncro
