import Mathlib.Data.Fin.VecNotation
import Ncro.Config.Settings
import Ncro.Discovery

/-!
# The loop of discovery

`Discovery::run` is told of services that appear, and makes upstreams of their addresses. It is
not told when they disappear: a service that is silent for too long expires at a tick. The
tracked upstreams are therefore the ones that were announced lately: `tracks_lately`.

A state of the loop has a clock, and a log of the announcements that were handled.
-/

namespace Ncro

open Foundation
open Foundation.Process

/-! ## Addresses -/

/-- `std::net::IpAddr`. -/
inductive IpAddr
  | v4 (octets : Fin 4 → UInt8)
  | v6 (segments : Fin 8 → UInt16)
  deriving DecidableEq

namespace IpAddr

def isLoopback : IpAddr → Bool
  | v4 octets => octets 0 = 127
  | v6 segments => segments = ![0, 0, 0, 0, 0, 0, 0, 1]

def isUnspecified : IpAddr → Bool
  | v4 octets => octets = ![0, 0, 0, 0]
  | v6 segments => segments = ![0, 0, 0, 0, 0, 0, 0, 0]

def isIpv4 : IpAddr → Bool
  | v4 _ => true
  | v6 _ => false

/-- The start and the length of the first longest run of zeros, and of the one that is going on
at an index. -/
def zeroRuns : (ℕ × ℕ) × (ℕ × ℕ) → UInt16 × ℕ → (ℕ × ℕ) × (ℕ × ℕ)
  | (longest, current), (segment, i) =>
      if segment = 0 then
        let current := if current.2 = 0 then (i, 1) else (current.1, current.2 + 1)
        (if longest.2 < current.2 then current else longest, current)
      else (longest, (0, 0))

def decimal (n : ℕ) : Str :=
  Nat.toDigits 10 n

def dotted (octets : List UInt8) : Str :=
  List.intercalate ['.'] (octets.map fun octet => decimal octet.toNat)

def coloned (segments : List UInt16) : Str :=
  List.intercalate [':'] (segments.map fun segment => Nat.toDigits 16 segment.toNat)

/-- `Display`, which writes the first longest run of zero segments as `::`. -/
def display : IpAddr → Str
  | v4 octets => dotted (List.ofFn octets)
  | v6 segments =>
      let segments := List.ofFn segments
      if segments.take 6 = [0, 0, 0, 0, 0, 0xffff] then
        "::ffff:".toList ++ dotted ((segments.drop 6).flatMap fun segment : UInt16 =>
          [(segment >>> 8).toUInt8, segment.toUInt8])
      else
        let zeros := (segments.zipIdx.foldl zeroRuns ((0, 0), (0, 0))).1
        if 1 < zeros.2 then
          coloned (segments.take zeros.1) ++ "::".toList ++
            coloned (segments.drop (zeros.1 + zeros.2))
        else coloned segments

/-- `Display` of a `SocketAddr`. -/
def displaySocket (addr : IpAddr) (port : UInt16) : Str :=
  match addr with
  | v4 _ => addr.display ++ ":".toList ++ decimal port.toNat
  | v6 _ => "[".toList ++ addr.display ++ "]:".toList ++ decimal port.toNat

example : (v6 ![0x2001, 0xdb8, 0, 0, 1, 0, 0, 1]).displaySocket 80 =
    "[2001:db8::1:0:0:1]:80".toList := by decide

end IpAddr

def AddressFamily.admits : AddressFamily → IpAddr → Bool
  | .any, _ => true
  | .ipv4, addr => addr.isIpv4
  | .ipv6, addr => !addr.isIpv4

/-! ## Services -/

/-- What `ServiceResolved` tells of a service, with its addresses in the order in which the set
of them is walked. -/
structure ServiceInfo where
  fullname : Str
  addresses : List IpAddr
  port : UInt16
  deriving DecidableEq

/-- Whether an address is registered. Avahi publishes all addresses, also those of the loopback
interface. -/
def routable (family : AddressFamily) (addr : IpAddr) : Bool :=
  !addr.isLoopback && !addr.isUnspecified && family.admits addr

/-- The upstreams of a service, one for each address. -/
def serviceUrls (family : AddressFamily) (info : ServiceInfo) : List Str :=
  (info.addresses.filter (routable family)).map fun addr =>
    "http://".toList ++ addr.displaySocket info.port

/-- How often stale peers are looked for. -/
def cleanupInterval : Duration := 10 * 10 ^ 9

namespace DiscoveryConfig

/-- How long a peer is kept that is not seen. -/
def expiration (config : DiscoveryConfig) : Duration :=
  if config.discoveryTime = 0 then 30 * 10 ^ 9 else config.discoveryTime * 3

end DiscoveryConfig

/-! ## The loop -/

/-- An announcement that was handled, and when. -/
structure Announcement where
  info : ServiceInfo
  seen : Instant
  deriving DecidableEq

/-- The state of the loop, and of the prober whose table it shares. -/
structure DiscoveryState where
  now : Instant
  /-- The deadline of the `cleanup` ticker. -/
  nextTick : Instant
  peers : Peers
  health : HealthTable
  /-- The newest announcement first. -/
  announced : List Announcement

/-- An operation takes some time, and the instant that it reads is within this time. -/
def DiscoveryOp.Reads (before after : Instant) : (op : DiscoveryOp) → DiscoveryReply op → Prop
  | .now, reading => before ≤ reading ∧ reading ≤ after
  | _, _ => before ≤ after

/-- The operations on the table and on the clock. -/
def timedDiscovery (alpha : Double) :
    Semantics DiscoveryOp DiscoveryReply (HealthTable × Instant) :=
  fun op s reply s' => discoverySem alpha op s.1 reply s'.1 ∧ op.Reads s.2 s'.2 reply

/-- What happens to the loop. Other events about services than that they are resolved, their
removal among them, are ignored like services without routable addresses. -/
inductive LoopEvent
  /-- Time passes, and other tasks record what they find. -/
  | wait
  | serviceResolved (info : ServiceInfo)
  | ignored
  | cleanup

namespace DiscoveryState

/-- Nothing is discovered, and the first tick is due at once. -/
def start (configured : HealthTable) (now : Instant) : DiscoveryState where
  now := now
  nextTick := now
  peers := .empty
  health := configured
  announced := []

/-- A step of the loop. -/
inductive Step (alpha : Double) (config : DiscoveryConfig) :
    DiscoveryState → LoopEvent → DiscoveryState → Prop
  | wait {s : DiscoveryState} {time : Instant} {health : HealthTable} (hnow : s.now ≤ time)
      (hrecorded : s.health.Recorded alpha health) :
      Step alpha config s .wait { s with now := time, health := health }
  | serviceResolved {s : DiscoveryState} {info : ServiceInfo} {peers : Peers}
      {health : HealthTable} {time seen : Instant}
      {log : List (Event DiscoveryOp DiscoveryReply)}
      (hurls : serviceUrls config.addressFamily info ≠ [])
      (hrun : Replay (timedDiscovery alpha)
        (s.peers.resolved info.fullname (serviceUrls config.addressFamily info) config.priority)
        (s.health, s.now) log peers (health, time))
      (hseen : (⟨.now, seen⟩ : Event DiscoveryOp DiscoveryReply) ∈ log) :
      Step alpha config s (.serviceResolved info)
        { s with
          now := time
          peers := peers
          health := health
          announced := ⟨info, seen⟩ :: s.announced }
  | withoutUrls {s : DiscoveryState} {info : ServiceInfo}
      (hurls : serviceUrls config.addressFamily info = []) :
      Step alpha config s (.serviceResolved info) s
  | ignored {s : DiscoveryState} : Step alpha config s .ignored s
  | cleanup {s : DiscoveryState} {peers : Peers} {health : HealthTable} {time : Instant}
      {log : List (Event DiscoveryOp DiscoveryReply)} (hdue : s.nextTick ≤ s.now)
      (hrun : Replay (timedDiscovery alpha) (s.peers.expire config.expiration) (s.health, s.now)
        log peers (health, time)) :
      Step alpha config s .cleanup
        { s with
          now := time
          nextTick := s.nextTick + cleanupInterval
          peers := peers
          health := health }

/-- The last announcement of a service. -/
def latest (s : DiscoveryState) (name : Str) : Option Announcement :=
  s.announced.find? fun announcement => announcement.info.fullname = name

end DiscoveryState

/-! ## What a round does to the peers -/

section

variable {alpha : Double} {peers peers' : Peers} {s s' : HealthTable × Instant}
  {log : List (Event DiscoveryOp DiscoveryReply)}

theorem DiscoveryOp.Reads.le {op : DiscoveryOp} {reply : DiscoveryReply op}
    {before after : Instant} (h : op.Reads before after reply) : before ≤ after := by
  cases op with
  | now => exact h.1.trans h.2
  | addUpstream | removeUpstream | extract => exact h

/-- Without the clock. -/
theorem replay_untimed {α : Type} {p : DiscoveryM α} {a : α}
    (h : Replay (timedDiscovery alpha) p s log a s') :
    Replay (discoverySem alpha) p s.1 log a s'.1 :=
  h.map (f := Prod.fst) fun _ _ _ _ hop => hop.1

/-- Operations that do not read the clock. -/
def DiscoveryOp.Untimed (op : DiscoveryOp) : Prop :=
  op ≠ .now

theorem clock_le {α : Type} {p : DiscoveryM α} {a : α}
    (h : Replay (timedDiscovery alpha) p s log a s') : s.2 ≤ s'.2 := by
  induction h with
  | ret a s => exact le_refl s.2
  | perform hop _ ih => exact hop.2.le.trans ih

theorem untimed_of_performs {α : Type} {p : DiscoveryM α} {a : α}
    (hp : Performs DiscoveryOp.Untimed p) (h : Replay (timedDiscovery alpha) p s log a s') :
    ∀ reading, (⟨.now, reading⟩ : Event DiscoveryOp DiscoveryReply) ∉ log := by
  have hlog := (h.rel_of_performs (R := fun _ _ => True) (fun _ => trivial)
    (fun _ _ => trivial) (fun _ _ _ _ _ _ => trivial) hp).2
  intro reading hmem
  exact hlog _ hmem rfl

theorem performs_foldlM {f : Peers → Str → DiscoveryM Peers} {urls : List Str}
    (hf : ∀ peers url, Performs DiscoveryOp.Untimed (f peers url)) (peers : Peers) :
    Performs DiscoveryOp.Untimed (urls.foldlM f peers) := by
  induction urls generalizing peers with
  | nil => trivial
  | cons url urls ih => exact (hf peers url).bind fun peers' => ih peers'

theorem returns_foldlM {f : Peers → Str → DiscoveryM Peers} {urls : List Str}
    (hf : ∀ peers url, Returns (fun peers' => peers'.byName = peers.byName) (f peers url))
    (peers : Peers) :
    Returns (fun peers' => peers'.byName = peers.byName) (urls.foldlM f peers) := by
  induction urls generalizing peers with
  | nil => rfl
  | cons url urls ih =>
      refine (hf peers url).bind fun peers' hsame => (ih peers').mono ?_
      intro peers'' hrest
      exact hrest.trans hsame

theorem performs_release (peers : Peers) (url : Str) :
    Performs DiscoveryOp.Untimed (peers.release url) := by
  unfold Peers.release
  split
  · trivial
  · exact (performs_call (by simp [DiscoveryOp.Untimed])).bind fun _ => trivial

theorem returns_release (peers : Peers) (url : Str) :
    Returns (fun peers' => peers'.byName = peers.byName) (peers.release url) := by
  unfold Peers.release
  split
  · rfl
  · exact returns_bind fun _ => rfl

theorem performs_add (priority : ℤ) (peers : Peers) (url : Str) :
    Performs DiscoveryOp.Untimed (peers.add priority url) :=
  (performs_call (by simp [DiscoveryOp.Untimed])).bind fun _ => trivial

theorem returns_add (priority : ℤ) (peers : Peers) (url : Str) :
    Returns (fun peers' => peers'.byName = peers.byName) (peers.add priority url) := by
  apply returns_bind
  intro added
  cases added with
  | true => rfl
  | false => rfl

/-- A service that is resolved is seen at the one instant that is read meanwhile. -/
theorem replay_resolved {name : Str} {urls : List Str} {priority : ℤ}
    (h : Replay (timedDiscovery alpha) (peers.resolved name urls priority) s log peers' s')
    {seen : Instant} (hseen : (⟨.now, seen⟩ : Event DiscoveryOp DiscoveryReply) ∈ log) :
    s.2 ≤ seen ∧ seen ≤ s'.2 ∧
      peers'.byName = (peers.byName.erase name).upsert ⟨name, urls, seen⟩ := by
  obtain ⟨log₁, peers₁, s₁, log₂, rfl, hadd, h⟩ := replay_bind_iff.1 h
  obtain ⟨reading, s₂, log₂, rfl, hreads, hrelease⟩ := replay_call_bind_iff.1 h
  have hreading : s₁.2 ≤ reading ∧ reading ≤ s₂.2 := hreads.2
  have hadded := untimed_of_performs (performs_foldlM (performs_add priority) _) hadd seen
  have hreleased := untimed_of_performs (performs_foldlM performs_release _) hrelease seen
  obtain rfl : seen = reading := by
    rcases List.mem_append.1 hseen with hseen | hseen
    · exact absurd hseen hadded
    · rcases List.mem_cons.1 hseen with heq | hseen
      · cases heq
        rfl
      · exact absurd hseen hreleased
  refine ⟨(clock_le hadd).trans hreading.1, hreading.2.trans (clock_le hrelease), ?_⟩
  have hsame := hadd.execution.returns (returns_foldlM (returns_add priority) _)
  have hsame' := hrelease.execution.returns (returns_foldlM returns_release _)
  rw [hsame', hsame]

/-- What has expired at the instant that is read goes. -/
theorem replay_expire {expiration : Duration}
    (h : Replay (timedDiscovery alpha) (peers.expire expiration) s log peers' s') :
    ∃ reading, s.2 ≤ reading ∧ reading ≤ s'.2 ∧
      peers'.byName = peers.byName.filter fun peer => ¬expiration < reading - peer.seen := by
  obtain ⟨reading, s₁, log, rfl, hreads, h⟩ := replay_call_bind_iff.1 h
  obtain ⟨stale, s₂, log, rfl, hextracts, hrelease⟩ := replay_call_bind_iff.1 h
  have hreading : s.2 ≤ reading ∧ reading ≤ s₁.2 := hreads.2
  have hextracted : s₁.2 ≤ s₂.2 := hextracts.2.le
  refine ⟨reading, hreading.1, (hreading.2.trans hextracted).trans (clock_le hrelease), ?_⟩
  exact hrelease.execution.returns (returns_foldlM returns_release _)

end

/-! ## The invariant -/

/-- What is remembered of an announcement. -/
def Announcement.peer (config : DiscoveryConfig) (announcement : Announcement) : Peer :=
  ⟨announcement.info.fullname, serviceUrls config.addressFamily announcement.info,
    announcement.seen⟩

/-- The peers are the services that were announced lately. -/
structure Lately (config : DiscoveryConfig) (configured : Set Str) (s : DiscoveryState) :
    Prop where
  tick : s.nextTick ≤ s.now + cleanupInterval
  tracked : TracksExactly configured s.peers s.health
  /-- A peer is as its service was announced last. -/
  announced : ∀ peer ∈ s.peers.byName.rows, ∃ announcement,
    s.latest peer.name = some announcement ∧ announcement.peer config = peer
  /-- The next tick comes in time for it. -/
  due : ∀ peer ∈ s.peers.byName.rows, s.nextTick ≤ peer.seen + config.expiration + cleanupInterval
  kept : ∀ name announcement, s.latest name = some announcement →
    s.now ≤ announcement.seen + config.expiration →
      announcement.peer config ∈ s.peers.byName.rows

section

variable {alpha : Double} {config : DiscoveryConfig} {configured : Set Str}
  {s s' : DiscoveryState} {event : LoopEvent}

theorem DiscoveryState.fullname_of_latest {name : Str} {announcement : Announcement}
    (h : s.latest name = some announcement) : announcement.info.fullname = name := by
  simpa using List.find?_some h

theorem lately_start (configured : HealthTable) (now : Instant) :
    Lately config {url | configured.Tracks url} (.start configured now) where
  tick := Nat.le_add_right _ _
  tracked := by
    constructor
    · intro url
      apply (or_iff_left _).symm
      rintro ⟨peer, hpeer, -⟩
      cases hpeer
    · intro url
      apply iff_of_false
      · exact Finset.notMem_empty url
      · rintro ⟨⟨peer, hpeer, -⟩, -⟩
        cases hpeer
  announced peer hpeer := by cases hpeer
  due peer hpeer := by cases hpeer
  kept name announcement hlatest := by cases hlatest

theorem Lately.step (h : Lately config configured s)
    (hstep : DiscoveryState.Step alpha config s event s') : Lately config configured s' := by
  have htick := h.tick
  cases hstep with
  | @wait time health hnow hrecorded =>
      refine ⟨?_, ?_, h.announced, h.due, ?_⟩
      · exact htick.trans (Nat.add_le_add_right hnow _)
      · refine ⟨fun url => ?_, h.tracked.owned⟩
        exact (hrecorded.tracks_iff url).trans (h.tracked.tracked url)
      · intro name announcement hlatest hlate
        exact h.kept name announcement hlatest (hnow.trans hlate)
  | withoutUrls | ignored => exact h
  | @serviceResolved info peers health time seen log hurls hrun hseen =>
      obtain ⟨hbefore, hafter, hpeers⟩ := replay_resolved hrun hseen
      have htracked := (h.tracked.resolved (replay_untimed hrun)).1
      have hother : ∀ name, info.fullname ≠ name →
          DiscoveryState.latest { s with
            now := time
            peers := peers
            health := health
            announced := ⟨info, seen⟩ :: s.announced } name = s.latest name := by
        intro name hne
        exact List.find?_cons_of_neg (by simpa using hne)
      have hmem : ∀ peer, peer ∈ peers.byName.rows ↔
          peer = Announcement.peer config ⟨info, seen⟩ ∨
            peer ∈ s.peers.byName.rows ∧ peer.name ≠ info.fullname := by
        intro peer
        rw [hpeers, Table.mem_upsert, Table.mem_erase, and_assoc, and_self]
        rfl
      refine ⟨?_, htracked, fun peer hpeer => ?_, fun peer hpeer => ?_, ?_⟩
      · simp only [Instant, Duration] at *
        omega
      · rcases (hmem peer).1 hpeer with rfl | ⟨hpeer, hne⟩
        · exact ⟨_, List.find?_cons_of_pos (by simp [Announcement.peer]), rfl⟩
        · rw [hother peer.name (Ne.symm hne)]
          exact h.announced peer hpeer
      · rcases (hmem peer).1 hpeer with rfl | ⟨hpeer, hne⟩
        · simp only [Announcement.peer, Instant, Duration] at *
          omega
        · exact h.due peer hpeer
      · intro name announcement hlatest hlate
        apply (hmem _).2
        by_cases hname : info.fullname = name
        · left
          have hsame : some ⟨info, seen⟩ = some announcement := by
            rw [← hlatest]
            exact (List.find?_cons_of_pos (by simpa using hname)).symm
          cases hsame
          rfl
        · right
          rw [hother name hname] at hlatest
          have hfullname := DiscoveryState.fullname_of_latest hlatest
          refine ⟨h.kept name announcement hlatest ?_, ?_⟩
          · exact (hbefore.trans hafter).trans hlate
          · rw [Announcement.peer, hfullname]
            exact Ne.symm hname
  | @cleanup peers health time log hdue hrun =>
      obtain ⟨reading, hbefore, hafter, hpeers⟩ := replay_expire hrun
      have htracked := (h.tracked.expire (replay_untimed hrun)).1
      have hmem : ∀ peer, peer ∈ peers.byName.rows ↔
          peer ∈ s.peers.byName.rows ∧ reading ≤ peer.seen + config.expiration := by
        intro peer
        rw [hpeers, Table.mem_filter, decide_eq_true_eq, Nat.not_lt, Nat.sub_le_iff_le_add,
          Nat.add_comm]
      refine ⟨?_, htracked, fun peer hpeer => ?_, fun peer hpeer => ?_, ?_⟩
      · simp only [Instant, Duration] at *
        omega
      · exact h.announced peer ((hmem peer).1 hpeer).1
      · have hfresh := ((hmem peer).1 hpeer).2
        simp only [Instant, Duration] at *
        omega
      · intro name announcement hlatest hlate
        apply (hmem _).2
        constructor
        · exact h.kept name announcement hlatest ((hbefore.trans hafter).trans hlate)
        · exact hafter.trans hlate

end

/-! ## Conclusion -/

/-- The upstreams that are tracked were configured, or announced lately. In every state that the
loop reaches, whatever is announced when, and however long the operations take: what a service
has announced last stays tracked until it expires; and what is tracked without being configured
is the URL of an address of the right family, not of the loopback interface, in the last
announcement of some service, which was not longer ago than the expiration, the interval of the
ticks, and what the next tick is late by. -/
theorem tracks_lately {alpha : Double} {config : DiscoveryConfig} {configured : HealthTable}
    {now : Instant} {s : DiscoveryState}
    (h : Reachable (DiscoveryState.Step alpha config) (fun _ _ => True) (.start configured now) s)
    (url : Str) :
    ((configured.Tracks url ∨ ∃ name announcement, s.latest name = some announcement ∧
        url ∈ serviceUrls config.addressFamily announcement.info ∧
        s.now ≤ announcement.seen + config.expiration) → s.health.Tracks url) ∧
      ∀ ε, s.now ≤ s.nextTick + ε → s.health.Tracks url →
        configured.Tracks url ∨ ∃ name announcement, s.latest name = some announcement ∧
          (∃ addr ∈ announcement.info.addresses, routable config.addressFamily addr = true ∧
            url = "http://".toList ++ addr.displaySocket announcement.info.port) ∧
          s.now ≤ announcement.seen + config.expiration + cleanupInterval + ε := by
  have hlately : Lately config {url | configured.Tracks url} s :=
    h.invariant (lately_start configured now) fun _ _ _ hlately _ hstep => hlately.step hstep
  constructor
  · rintro (hconfigured | ⟨name, announcement, hlatest, hurl, hlate⟩)
    · exact (hlately.tracked.tracked url).2 (.inl hconfigured)
    · have hpeer := hlately.kept name announcement hlatest hlate
      exact (hlately.tracked.tracked url).2 (.inr ⟨_, hpeer, hurl⟩)
  · intro ε hpunctual htracks
    rcases (hlately.tracked.tracked url).1 htracks with hconfigured | ⟨peer, hpeer, hurl⟩
    · exact .inl hconfigured
    · right
      obtain ⟨announcement, hlatest, rfl⟩ := hlately.announced peer hpeer
      have hdue := hlately.due _ hpeer
      obtain ⟨addr, haddr, hurl⟩ := List.mem_map.1 hurl
      obtain ⟨haddr, hroutable⟩ := List.mem_filter.1 haddr
      refine ⟨_, announcement, hlatest, ⟨addr, haddr, hroutable, hurl.symm⟩, ?_⟩
      simp only [Announcement.peer, Instant, Duration] at *
      omega

/-- A peer that publishes its loopback address as well. -/
def peerA : ServiceInfo where
  fullname := "peer".toList
  addresses := [.v4 ![127, 0, 0, 1], .v4 ![10, 0, 0, 1]]
  port := 5000

def urlOfA : Str := "http://10.0.0.1:5000".toList

/-- The peer is announced once, and is tracked seven seconds later. -/
theorem tracks_lately_peerA :
    ∃ s : DiscoveryState, s.now = 7 * 10 ^ 9 ∧ s.health.Tracks urlOfA := by
  have hurls : serviceUrls AddressFamily.any peerA = [urlOfA] := by decide
  have hrecorded : ∀ health : HealthTable, health.Recorded (.fin 0) health := fun _ => .refl
  let tracked : HealthTable × Instant := ((∅ : HealthTable).upsert (.new urlOfA 20), 0)
  have hadd : timedDiscovery (.fin 0) (.addUpstream urlOfA 20) (∅, 0) true tracked :=
    ⟨⟨∅, hrecorded ∅, rfl, rfl⟩, le_refl (0 : ℕ)⟩
  have hnow : timedDiscovery (.fin 0) .now tracked (0 : ℕ) tracked :=
    ⟨⟨tracked.1, hrecorded _, rfl⟩, le_refl (0 : ℕ), le_refl (0 : ℕ)⟩
  have hrun : Replay (timedDiscovery (.fin 0)) (Peers.empty.resolved peerA.fullname
      (serviceUrls AddressFamily.any peerA) 20) (∅, 0)
      [⟨.addUpstream urlOfA 20, true⟩, ⟨.now, (0 : ℕ)⟩]
      ⟨(∅ : Table Peer.name).upsert ⟨peerA.fullname, [urlOfA], 0⟩, {urlOfA}⟩ tracked := by
    rw [hurls]
    exact .perform hadd (.perform hnow (.ret _ _))
  have hstart : Reachable (DiscoveryState.Step (.fin 0) {}) (fun _ _ => True) (.start ∅ 0)
    (.start ∅ 0) := .start
  have hresolved := hstart.step trivial
    (.serviceResolved (by rw [hurls]; simp) hrun (List.mem_cons_of_mem _ List.mem_cons_self))
  have hlater := hresolved.step trivial (.wait (by decide : 0 ≤ 7 * 10 ^ 9) (hrecorded _))
  refine ⟨_, rfl, (tracks_lately hlater urlOfA).1 (.inr ⟨peerA.fullname, ⟨peerA, 0⟩, rfl, ?_, ?_⟩)⟩
  · rw [hurls]
    exact List.mem_singleton_self _
  · decide

end Ncro
