import Ncro.Mesh.Convergence

/-!
# Expired rows in a merge

A row stays in the table after its time until it is swept, and a merge compares
an announced route with it as with any other row. So a path whose row has
expired gets a new one only from an announced route that would have replaced
the row while it was valid.
-/

namespace Ncro

open Foundation Foundation.Process

/-- Whether the time of a row is still to come. -/
def RouteRow.unexpired (row : RouteRow) (now : Timestamp) : Bool :=
  now.asNanosecond < row.ttl * 10 ^ 9

/-- An unexpired row is read back as a valid route. -/
theorem RouteRow.unexpired_eq_isValid {row : RouteRow} {entry : RouteEntry}
    (h : rowToRoute row = .ok entry) (now : Timestamp) :
    row.unexpired now = entry.isValid now := by
  have httl := (Timestamp.asNanosecond_of_fromSecond (readFrom_of_rowToRoute h).ttl).1
  have hlt : (now < entry.ttl) = (now.asNanosecond < entry.ttl.asNanosecond) := rfl
  simp only [unexpired, RouteEntry.isValid, hlt, httl]

/-- The comparison of a merge, with the columns of the row. -/
def routeBeats (route : RouteEntry) (row : RouteRow) : Bool :=
  !(row.latencyEma.lt route.latencyEma) &&
    !(route.latencyEma.totalCmp row.latencyEma = .eq &&
      route.lastVerified.asNanosecond ≤ row.lastVerified * 10 ^ 9)

theorem routeBeats_iff {route : RouteEntry} {row : RouteRow} :
    routeBeats route row = true ↔ row.latencyEma.lt route.latencyEma = false ∧
      ¬ (route.latencyEma.totalCmp row.latencyEma = .eq ∧
        route.lastVerified.asNanosecond ≤ row.lastVerified * 10 ^ 9) := by
  simp [routeBeats, imp_iff_not_or]

theorem shouldSetRoute_eq_routeBeats {row : RouteRow} {existing : RouteEntry}
    (h : rowToRoute row = .ok existing) (route : RouteEntry) :
    shouldSetRoute route (some existing) = routeBeats route row := by
  have hread := readFrom_of_rowToRoute h
  have htime := (Timestamp.asNanosecond_of_fromSecond hread.lastVerified).1
  have hle : (route.lastVerified ≤ existing.lastVerified) =
      (route.lastVerified.asNanosecond ≤ existing.lastVerified.asNanosecond) := rfl
  simp only [shouldSetRoute, routeBeats, hread.latencyEma, hle, htime]

/-- A route that does not beat a row is weaker than the routes that do. -/
theorem routeBeats_weaker {route other : RouteEntry} {row : RouteRow}
    (hroute : route.latencyEma.isFinite = true) (hother : other.latencyEma.isFinite = true)
    (h : routeBeats route row = false) (hbeats : routeBeats other row = true) :
    routeBeats other (routeToRow route) = true := by
  rcases routeBeats_iff.1 hbeats with ⟨hfaster, hlater⟩
  rw [Bool.eq_false_iff, ne_eq, routeBeats_iff, not_and_not_right] at h
  apply routeBeats_iff.2
  rw [routeToRow_latencyEma, routeToRow_lastVerified]
  cases hslower : row.latencyEma.lt route.latencyEma with
  | true =>
      -- the route is slower than the row, the other one is not
      constructor
      · by_contra hlt
        rw [Bool.not_eq_false] at hlt
        rw [Double.lt_of_lt_of_not_lt hroute hother hslower (Double.lt_asymm hlt)] at hfaster
        cases hfaster
      · rintro ⟨heq, -⟩
        rw [Double.eq_of_totalCmp hother heq, hslower] at hfaster
        cases hfaster
  | false =>
      rcases h hslower with ⟨htie, hearlier⟩
      have hsame := Double.eq_of_totalCmp hroute htie
      have hsecond := Timestamp.asSecond_le_of_le hearlier
      rw [hsame]
      refine ⟨hfaster, ?_⟩
      rintro ⟨heq, htime⟩
      exact hlater ⟨heq, by omega⟩

/-! ## The rows that a merge leaves -/

/-- The database works, and no eviction takes a row away. -/
def Undisturbed : (op : Op) → op.Reply → Instance → Instance → Prop
  | .dbGetRoute _, reply, _, _ => ∃ found, reply = .ok found
  | .dbUpsertRoute _, reply, _, _ => reply = .ok ()
  | .dbEvictIfNeeded, _, s, s' => s'.routes = s.routes
  | _, _, _, _ => True

/-- The effect of the operations of an undisturbed merge. -/
def undisturbed (reg : Registry) : Semantics Op Op.Reply Instance :=
  fun op s reply s' => Instance.exec reg op s reply s' ∧ Undisturbed op reply s s'

section

variable {reg : Registry} {s s' : Instance} {route : RouteEntry} {routes : List RouteEntry}

/-- An undisturbed write stores its route. -/
theorem execution_setRoute_undisturbed {result : Except DbError Unit}
    (h : Execution (undisturbed reg) (setRoute route) s result s') :
    s'.routes = s.routes.upsert (routeToRow route) := by
  rcases execution_call_bind_iff.1 h with ⟨reply, s₁, ⟨hexec, hreply⟩, h⟩
  replace hreply : reply = .ok () := hreply
  subst hreply
  rcases hexec with ⟨heq, -⟩ | ⟨-, rfl⟩
  · cases heq
  rcases execution_call_bind_iff.1 h with ⟨count, s₂, ⟨⟨-, rfl⟩, -⟩, h⟩
  split at h
  · rcases execution_call_bind_iff.1 h with ⟨reply, s₃, ⟨-, hroutes⟩, h⟩
    rcases execution_ret_iff.1 h with ⟨-, rfl⟩
    exact hroutes
  · rcases execution_ret_iff.1 h with ⟨-, rfl⟩
    rfl

/-- One route of an undisturbed merge is adopted or not, and no other path is touched. -/
theorem execution_mergeEach_undisturbed_cons
    (h : Execution (undisturbed reg) (mergeEach (route :: routes)) s () s') :
    ∃ s₁, Execution (undisturbed reg) (mergeEach routes) s₁ () s' ∧
      s₁.routes.get route.storePath =
        adoptStored routeToRow routeBeats (s.routes.get route.storePath) route ∧
      ∀ path ≠ route.storePath, s₁.routes.get path = s.routes.get path := by
  rcases execution_call_bind_iff.1 h with ⟨existing, s₁, ⟨⟨hread, rfl⟩, found, rfl⟩, h⟩
  have hget : .ok found = s₁.routes.getRoute route.storePath := by
    rcases hread with hfailed | hread
    · cases hfailed
    · exact hread
  have hstored :
      Execution (undisturbed reg) (setRoute route >>= fun _ => mergeEach routes) s₁ () s' →
      adoptStored routeToRow routeBeats (s₁.routes.get route.storePath) route =
        some (routeToRow route) →
      ∃ s₂, Execution (undisturbed reg) (mergeEach routes) s₂ () s' ∧
        s₂.routes.get route.storePath =
          adoptStored routeToRow routeBeats (s₁.routes.get route.storePath) route ∧
        ∀ path ≠ route.storePath, s₂.routes.get path = s₁.routes.get path := by
    intro h hadopted
    rcases execution_bind_iff.1 h with ⟨_, s₂, hset, h⟩
    have hroutes := execution_setRoute_undisturbed hset
    refine ⟨s₂, h, ?_, ?_⟩
    · rw [hroutes, hadopted]
      exact Table.get_upsert_self s₁.routes (routeToRow route)
    · intro path hpath
      have hne : path ≠ (routeToRow route).storePath := hpath
      rw [hroutes, Table.get_upsert_of_ne hne]
  rw [RouteTable.getRoute] at hget
  cases hrow : s₁.routes.get route.storePath with
  | none =>
      rw [hrow] at hget hstored
      cases hget
      exact hstored h rfl
  | some row =>
      rw [hrow] at hget hstored
      dsimp only at hget
      cases hentry : rowToRoute row with
      | error err =>
          rw [hentry] at hget
          cases hget
      | ok entry =>
          rw [hentry] at hget
          cases hget
          dsimp only at h
          rw [shouldSetRoute_eq_routeBeats hentry] at h
          split at h
          · next hbeats => exact hstored h (if_pos hbeats)
          · next hbeats =>
            refine ⟨s₁, h, ?_, fun _ _ => rfl⟩
            rw [hrow, adoptStored, if_neg hbeats]

/-- An undisturbed merge treats each path by itself. -/
theorem execution_mergeEach_undisturbed
    (h : Execution (undisturbed reg) (mergeEach routes) s () s') (path : Str) :
    s'.routes.get path =
      (routesFor path routes).foldl (adoptStored routeToRow routeBeats) (s.routes.get path) := by
  induction routes generalizing s with
  | nil =>
      rcases execution_ret_iff.1 h with ⟨-, rfl⟩
      rfl
  | cons route routes ih =>
      rcases execution_mergeEach_undisturbed_cons h with ⟨s₁, hrest, hself, hother⟩
      rw [ih hrest]
      by_cases hpath : path = route.storePath
      · rw [hpath, hself, routesFor, routesFor, List.filter_cons_of_pos (by simp), List.foldl_cons]
      · rw [hother path hpath, routesFor, routesFor,
          List.filter_cons_of_neg (by simpa using Ne.symm hpath)]

end

/-! ## Paths without a valid row -/

/-- The announced routes of a path that can be used, in their order. -/
def usableRoutesFor (now : Timestamp) (path : Str) (incoming : List RouteEntry) :
    List RouteEntry :=
  routesFor path (incoming.filter (usableRoute now))

/-- What a path without a valid row needs to get one: a usable route that replaces the expired
row, if there is one, and, as a table keeps whole seconds only, that the usable route which no
later one replaces is valid beyond this second. -/
def Revives (now : Timestamp) (held : Option RouteRow) (usable : List RouteEntry) : Prop :=
  (∀ row, held = some row → ∃ route ∈ usable, routeBeats route row = true) ∧
    ∃ route, lasting routeToRow routeBeats usable = some route ∧
      (routeToRow route).unexpired now = true

/-- Where no usable route is about to expire, the expired row alone decides. -/
theorem revives_iff_beats {now : Timestamp} {held : Option RouteRow} {usable : List RouteEntry}
    (hne : usable ≠ []) (hlive : ∀ route ∈ usable, (routeToRow route).unexpired now = true) :
    Revives now held usable ↔
      ∀ row, held = some row → ∃ route ∈ usable, routeBeats route row = true := by
  constructor
  · exact And.left
  · intro hbeats
    rcases exists_lasting hne with ⟨route, hmem, hlasting⟩
    exact ⟨hbeats, route, hlasting, hlive route hmem⟩

theorem unexpired_foldl_iff {now : Timestamp} {held : Option RouteRow} {usable : List RouteEntry}
    (hfinite : ∀ route ∈ usable, route.latencyEma.isFinite = true)
    (hexpired : ∀ row, held = some row → row.unexpired now = false) :
    (∃ row, usable.foldl (adoptStored routeToRow routeBeats) held = some row ∧
      row.unexpired now = true) ↔ Revives now held usable := by
  have hweaker : ∀ offer ∈ usable, ∀ other ∈ usable, ∀ value, routeBeats offer value = false →
      routeBeats other value = true → routeBeats other (routeToRow offer) = true :=
    fun offer hoffer other hother value =>
      routeBeats_weaker (hfinite offer hoffer) (hfinite other hother)
  unfold Revives
  cases held with
  | none =>
      rw [foldl_adoptStored_none hweaker]
      simp
  | some row =>
      have hrow := hexpired row rfl
      rw [foldl_adoptStored_some hweaker]
      split
      · next hany =>
        have hbeaten : ∃ route ∈ usable, routeBeats route row = true := List.any_eq_true.1 hany
        simp [hbeaten]
      · next hany =>
        have hkept : ¬ ∃ route ∈ usable, routeBeats route row = true :=
          fun h => hany (List.any_eq_true.2 h)
        simp [hkept, hrow]

/-- A merge of one route that can be used. -/
theorem execution_mergeRoutes_singleton (reg : Registry) {s : Instance} {route : RouteEntry}
    {found : Option RouteEntry} (husable : usableRoute s.wallClock route = true)
    (hfound : s.routes.getRoute route.storePath = .ok found) (hcount : s.writeCount % 100 ≠ 99) :
    Execution (undisturbed reg) (mergeRoutes [route]) s ()
      (if shouldSetRoute route found then s.stored route else s) := by
  apply Execution.call_bind (r := s.wallClock) ⟨⟨rfl, rfl⟩, trivial⟩
  rw [List.filter_cons_of_pos husable, List.filter_nil]
  apply Execution.call_bind (r := .ok found) ⟨⟨Or.inr hfound.symm, rfl⟩, found, rfl⟩
  dsimp only
  split
  · apply Execution.bind (a := .ok ())
    · apply Execution.call_bind (r := .ok ()) ⟨Or.inr ⟨rfl, rfl⟩, rfl⟩
      apply Execution.call_bind (r := s.writeCount) ⟨⟨rfl, rfl⟩, trivial⟩
      rw [if_neg hcount]
      exact Execution.ret _ _
    · exact Execution.ret _ _
  · exact Execution.ret _ _

/-- A route that was valid until the epoch. -/
def pastRoute (latency : ℚ) : RouteEntry :=
  { epochRoute ['u'] latency with ttl := default }

/-- An instance that still has the row of a past route. -/
def pastInstance (latency : ℚ) : Instance := emptyDatabase.stored (pastRoute latency)

theorem get_pastInstance (latency : ℚ) :
    (pastInstance latency).routes.get ['h'] = some (routeToRow (pastRoute latency)) :=
  Table.get_upsert_self emptyDatabase.routes (routeToRow (pastRoute latency))

/-- The row of the past route decides whether a route with another latency is stored. -/
theorem execution_mergeRoutes_past (past : ℚ) {latency : ℚ} (hlatency : 0 ≤ latency) :
    Execution (undisturbed default) (mergeRoutes [epochRoute ['v'] latency]) (pastInstance past) ()
      (if routeBeats (epochRoute ['v'] latency) (routeToRow (pastRoute past)) then
        (pastInstance past).stored (epochRoute ['v'] latency)
      else pastInstance past) := by
  have hsent : (pastRoute past).AsSent :=
    ⟨by norm_num [pastRoute, epochRoute], by norm_num [pastRoute, epochRoute],
      by norm_num [pastRoute, epochRoute], rfl⟩
  rcases hsent.rowToRoute with ⟨existing, hread, -, -⟩
  have hfound : (pastInstance past).routes.getRoute ['h'] = .ok (some existing) := by
    rw [RouteTable.getRoute, get_pastInstance]
    dsimp only
    rw [hread]
    rfl
  rw [← shouldSetRoute_eq_routeBeats hread]
  apply execution_mergeRoutes_singleton default
  · exact usableRoute_epochRoute ['v'] hlatency
  · exact hfound
  · change (0 + 1) % 2 ^ 64 % 100 ≠ 99
    decide

end Ncro
