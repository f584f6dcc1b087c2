import Ncro.Router.Operations

/-!
# Merging announced routes

A peer announces the routes of its own table. `mergeRoutes` stores those that
are still valid and better than what the table has: faster, or as fast and
verified later.
-/

namespace Ncro

open Foundation

/-- Whether an announced route can be used at all. -/
def usableRoute (now : Timestamp) (route : RouteEntry) : Bool :=
  now < route.ttl && route.latencyEma.isFinite && Double.le (.fin 0) route.latencyEma

/-- Whether an announced route replaces the stored one. -/
def shouldSetRoute (route : RouteEntry) : Option RouteEntry → Bool
  | none => true
  | some existing =>
      !(existing.latencyEma.lt route.latencyEma) &&
        !(route.latencyEma.totalCmp existing.latencyEma = .eq &&
          route.lastVerified ≤ existing.lastVerified)

/-- Merge the usable routes one after the other. A failing database access skips
its route. -/
def mergeEach : List RouteEntry → Handler Unit
  | [] => return ()
  | route :: routes => do
      match ← ask (.dbGetRoute route.storePath) with
      | .error _ => mergeEach routes
      | .ok existing =>
          if shouldSetRoute route existing then
            let _ ← setRoute route
            mergeEach routes
          else mergeEach routes

def mergeRoutes (incoming : List RouteEntry) : Handler Unit := do
  let now ← ask .timestampNow
  mergeEach (incoming.filter (usableRoute now))

end Ncro
