import Mathlib.Data.Finset.Insert
import Mathlib.Data.Finset.Erase
import Mathlib.Logic.Relation
import Ncro.Foundation.Machine
import Ncro.Foundation.Trace
import Ncro.Health.Persistence

/-!
# Discovered peers

Discovery tells the prober which upstreams appear and disappear on the local network.
A peer advertises the URLs of all its addresses, and several peers may advertise the
same URL, which may be configured as well. `Peers` remembers who advertises what, and
which of the URLs it has added itself.

Other tasks record probes meanwhile. They change what is known of a tracked upstream,
but not which upstreams are tracked.
-/

namespace Ncro

open Foundation
open Foundation.Process

/-- A discovered peer, with the upstream URLs of its addresses. -/
structure Peer where
  name : Str
  urls : List Str
  seen : Instant

/-- Discovered peers and the upstreams they registered with the prober. -/
structure Peers where
  byName : Table Peer.name
  /-- URLs discovery added, so a configured upstream is never removed. -/
  owned : Finset Str

/-! ## Operations -/

inductive DiscoveryOp
  | addUpstream (url : Str) (priority : ℤ)
  | removeUpstream (url : Str)
  /-- `Instant::now`. -/
  | now
  /-- The order in which a hash map yields the entries taken out of it. -/
  | extract (peers : List Peer)

abbrev DiscoveryReply : DiscoveryOp → Type
  | .addUpstream _ _ => Bool
  | .removeUpstream _ => Unit
  | .now => Instant
  | .extract _ => List Peer

abbrev DiscoveryM := Process DiscoveryOp DiscoveryReply

def addUpstream (url : Str) (priority : ℤ) : DiscoveryM Bool :=
  call (DiscoveryOp.addUpstream url priority)

def removeUpstream (url : Str) : DiscoveryM Unit :=
  call (DiscoveryOp.removeUpstream url)

def instantNow : DiscoveryM Instant :=
  call DiscoveryOp.now

def extractPeers (peers : List Peer) : DiscoveryM (List Peer) :=
  call (DiscoveryOp.extract peers)

namespace HealthTable

/-- Whether the prober tracks an upstream. -/
def Tracks (health : HealthTable) (url : Str) : Prop :=
  (health.get url).isSome = true

/-- What other tasks make of the table between two operations. -/
def Recorded (alpha : Double) : HealthTable → HealthTable → Prop :=
  Relation.ReflTransGen fun health health' => ∃ call : RecordCall, health' = call.apply alpha health

end HealthTable

/-- The effect of an operation on the table of the prober. -/
def DiscoveryOp.Effect (health : HealthTable) :
    (op : DiscoveryOp) → DiscoveryReply op → HealthTable → Prop
  | .addUpstream url priority, added, health' =>
      added = (health.get url).isNone ∧
        health' = if (health.get url).isSome then health else health.upsert (.new url priority)
  | .removeUpstream url, _, health' => health' = health.erase url
  | .now, _, health' => health' = health
  | .extract peers, extracted, health' => extracted.Perm peers ∧ health' = health

def discoverySem (alpha : Double) : Semantics DiscoveryOp DiscoveryReply HealthTable :=
  fun op health reply health' =>
    ∃ between, health.Recorded alpha between ∧ op.Effect between reply health'

namespace Peers

/-- Nothing is discovered yet. -/
def empty : Peers := ⟨∅, ∅⟩

def Advertised (peers : Peers) (url : Str) : Prop :=
  ∃ peer ∈ peers.byName.rows, url ∈ peer.urls

instance (peers : Peers) (url : Str) : Decidable (peers.Advertised url) :=
  inferInstanceAs (Decidable (∃ peer ∈ peers.byName.rows, url ∈ peer.urls))

/-- Stops probing `url` once no live peer advertises it. -/
def release (peers : Peers) (url : Str) : DiscoveryM Peers :=
  if peers.Advertised url ∨ url ∉ peers.owned then return peers
  else do
    removeUpstream url
    return { peers with owned := peers.owned.erase url }

/-- One round of the loop of `resolved` over new URLs. -/
def add (priority : ℤ) (peers : Peers) (url : Str) : DiscoveryM Peers := do
  let added ← addUpstream url priority
  return if added then { peers with owned := insert url peers.owned } else peers

def resolved (peers : Peers) (name : Str) (urls : List Str) (priority : ℤ) : DiscoveryM Peers := do
  let previous := (peers.byName.get name).elim [] Peer.urls
  let peers := { peers with byName := peers.byName.erase name }
  let peers ← (urls.filter (· ∉ previous)).foldlM (add priority) peers
  let dropped := previous.filter (· ∉ urls)
  let now ← instantNow
  let peers := { peers with byName := peers.byName.upsert ⟨name, urls, now⟩ }
  dropped.foldlM release peers

def expire (peers : Peers) (expiration : Duration) : DiscoveryM Peers := do
  let now ← instantNow
  let stale ← extractPeers (peers.byName.rows.filter (expiration < now - ·.seen))
  let peers := { peers with byName := peers.byName.filter fun peer => ¬expiration < now - peer.seen }
  (stale.flatMap Peer.urls).foldlM release peers

end Peers

/-- What the loop of `Discovery::run` reacts to: a service with the URLs of its addresses
of the right family, and the ticks that clean up. -/
inductive DiscoveryEvent
  | serviceResolved (name : Str) (urls : List Str)
  | cleanup

/-- One round of the loop of `Discovery::run`. -/
def DiscoveryEvent.handle (priority : ℤ) (expiration : Duration) (peers : Peers) :
    DiscoveryEvent → DiscoveryM Peers
  | .serviceResolved name urls =>
      if urls.isEmpty then return peers else peers.resolved name urls priority
  | .cleanup => peers.expire expiration

/-! ## Tracked upstreams -/

namespace HealthTable

theorem tracks_iff {health : HealthTable} {url : Str} :
    health.Tracks url ↔ ∃ h ∈ health.rows, h.url = url :=
  Table.isSome_get_iff

theorem tracks_upsert {health : HealthTable} {h : UpstreamHealth} {url : Str} :
    Tracks (health.upsert h) url ↔ url = h.url ∨ health.Tracks url := by
  rw [Tracks, Table.get_upsert]
  by_cases hurl : h.url = url
  · simp [hurl]
  · simp [hurl, Ne.symm hurl, Tracks]

theorem tracks_erase {health : HealthTable} {url url' : Str} :
    Tracks (health.erase url) url' ↔ health.Tracks url' ∧ url' ≠ url := by
  rw [tracks_iff, tracks_iff]
  constructor
  · rintro ⟨h, hmem, rfl⟩
    have hmem := Table.mem_erase.1 hmem
    exact ⟨⟨h, hmem.1, rfl⟩, hmem.2⟩
  · rintro ⟨⟨h, hmem, rfl⟩, hne⟩
    exact ⟨h, Table.mem_erase.2 ⟨hmem, hne⟩, rfl⟩

theorem tracks_apply {alpha : Double} {health : HealthTable} {call : RecordCall} {url : Str} :
    (call.apply alpha health).Tracks url ↔ health.Tracks url := by
  have hupsert : ∀ h h' : UpstreamHealth, health.get h.url = some h → h'.url = h.url →
      (Tracks (health.upsert h') url ↔ health.Tracks url) := by
    intro h h' hget heq
    rw [tracks_upsert, heq]
    apply or_iff_right_of_imp
    rintro rfl
    simp [Tracks, hget]
  cases call with
  | latency now url' ms =>
      simp only [RecordCall.apply, recordLatency]
      cases hget : health.get url' with
      | none => rfl
      | some h => exact hupsert h _ (Table.key_of_get hget ▸ hget) rfl
  | failure url' =>
      simp only [RecordCall.apply, recordFailure]
      cases hget : health.get url' with
      | none => rfl
      | some h => exact hupsert h _ (Table.key_of_get hget ▸ hget) rfl

/-- What other tasks record leaves the tracked upstreams as they are. -/
theorem Recorded.tracks_iff {alpha : Double} {health health' : HealthTable}
    (h : health.Recorded alpha health') (url : Str) :
    health'.Tracks url ↔ health.Tracks url := by
  induction h with
  | refl => rfl
  | tail _ hcall ih =>
      obtain ⟨call, rfl⟩ := hcall
      exact tracks_apply.trans ih

end HealthTable

/-! ## The invariant -/

/-- Discovery tracks what is configured and what is advertised, and owns the difference. -/
structure TracksExactly (configured : Set Str) (peers : Peers) (health : HealthTable) : Prop where
  tracked : ∀ url, health.Tracks url ↔ url ∈ configured ∨ peers.Advertised url
  owned : ∀ url, url ∈ peers.owned ↔ peers.Advertised url ∧ url ∉ configured

/-- What holds between the steps of an event, while the URLs in `pending` may be owned
although nobody advertises them any more. -/
structure Tracking (configured pending : Set Str) (peers : Peers) (health : HealthTable) :
    Prop where
  tracked : ∀ url, health.Tracks url ↔ url ∈ configured ∨ url ∈ peers.owned
  not_configured : ∀ url ∈ peers.owned, url ∉ configured
  advertised : ∀ url, peers.Advertised url → health.Tracks url
  owned : ∀ url ∈ peers.owned, peers.Advertised url ∨ url ∈ pending

section Invariant

variable {configured pending : Set Str} {peers peers' : Peers} {health health' : HealthTable}
  {alpha : Double} {log : List (Event DiscoveryOp DiscoveryReply)}

theorem TracksExactly.tracking (h : TracksExactly configured peers health) :
    Tracking configured ∅ peers health where
  tracked url := by
    rw [h.tracked, h.owned]
    by_cases hurl : url ∈ configured <;> simp [hurl]
  not_configured url hurl := ((h.owned url).1 hurl).2
  advertised url hurl := (h.tracked url).2 (.inr hurl)
  owned url hurl := .inl ((h.owned url).1 hurl).1

theorem Tracking.tracksExactly (h : Tracking configured ∅ peers health) :
    TracksExactly configured peers health := by
  have howned : ∀ url, url ∈ peers.owned ↔ peers.Advertised url ∧ url ∉ configured := by
    intro url
    constructor
    · intro hurl
      exact ⟨(h.owned url hurl).resolve_right id, h.not_configured url hurl⟩
    · rintro ⟨hurl, hnot⟩
      exact ((h.tracked url).1 (h.advertised url hurl)).resolve_left hnot
  refine ⟨fun url => ?_, howned⟩
  rw [h.tracked, howned]
  by_cases hurl : url ∈ configured <;> simp [hurl]

theorem Tracking.recorded (h : Tracking configured pending peers health)
    (hrecorded : health.Recorded alpha health') : Tracking configured pending peers health' where
  tracked url := (hrecorded.tracks_iff url).trans (h.tracked url)
  not_configured := h.not_configured
  advertised url hurl := (hrecorded.tracks_iff url).2 (h.advertised url hurl)
  owned := h.owned

/-- A removal is of a URL that is not configured, and that none of the peers advertises. -/
def RemovesUnused (configured : Set Str) (byName : Table Peer.name)
    (e : Event DiscoveryOp DiscoveryReply) : Prop :=
  ∀ url, e.1 = .removeUpstream url →
    url ∉ configured ∧ ∀ peer ∈ byName.rows, url ∉ peer.urls

theorem Tracking.release {url : Str} {urls : List Str}
    (h : Tracking configured {url' | url' ∈ url :: urls} peers health)
    (hrun : Replay (discoverySem alpha) (peers.release url) health log peers' health') :
    (peers'.byName = peers.byName ∧ Tracking configured {url' | url' ∈ urls} peers' health') ∧
      ∀ e ∈ log, RemovesUnused configured peers.byName e := by
  unfold Peers.release at hrun
  split at hrun
  · next hkeep =>
    obtain ⟨rfl, rfl, rfl⟩ := replay_ret_iff.1 hrun
    refine ⟨⟨rfl, ?_⟩, by simp⟩
    refine { h with owned := fun url' hurl' => ?_ }
    rcases h.owned url' hurl' with hadv | hpending
    · exact .inl hadv
    · rcases List.mem_cons.1 hpending with rfl | hrest
      · exact hkeep.imp_right fun hnot => absurd hurl' hnot
      · exact .inr hrest
  · next hdrop =>
    rw [not_or, not_not] at hdrop
    obtain ⟨_, health₁, log, rfl, ⟨between, hrecorded, rfl⟩, hret⟩ := replay_call_bind_iff.1 hrun
    obtain ⟨rfl, rfl, rfl⟩ := replay_ret_iff.1 hret
    have hnot := h.not_configured url hdrop.2
    replace h := h.recorded hrecorded
    refine ⟨⟨rfl, ?_⟩, ?_⟩
    · constructor
      · intro url'
        rw [HealthTable.tracks_erase, h.tracked, Finset.mem_erase]
        constructor
        · exact fun ⟨htracked, hne⟩ => htracked.imp_right fun howned => ⟨hne, howned⟩
        · rintro (hconfigured | ⟨hne, howned⟩)
          · exact ⟨.inl hconfigured, fun heq => hnot (heq ▸ hconfigured)⟩
          · exact ⟨.inr howned, hne⟩
      · exact fun url' hurl' => h.not_configured url' (Finset.mem_of_mem_erase hurl')
      · intro url' hadv
        refine HealthTable.tracks_erase.2 ⟨h.advertised url' hadv, ?_⟩
        rintro rfl
        exact hdrop.1 hadv
      · intro url' hurl'
        obtain ⟨hne, howned⟩ := Finset.mem_erase.1 hurl'
        exact (h.owned url' howned).imp_right fun hmem => (List.mem_cons.1 hmem).resolve_left hne
    · intro e he url' hremoves
      rw [List.mem_singleton.1 he] at hremoves
      cases hremoves
      exact ⟨hnot, fun peer hpeer hurl => hdrop.1 ⟨peer, hpeer, hurl⟩⟩

/-- After the URLs of an event are released, nothing is pending. -/
theorem Tracking.releaseAll {urls : List Str}
    (h : Tracking configured {url | url ∈ urls} peers health)
    (hrun : Replay (discoverySem alpha) (urls.foldlM Peers.release peers) health log peers'
      health') :
    TracksExactly configured peers' health' ∧
      ∀ e ∈ log, RemovesUnused configured peers'.byName e := by
  let I (urls : List Str) (peers₁ : Peers) (health₁ : HealthTable) : Prop :=
    peers₁.byName = peers.byName ∧ Tracking configured {url | url ∈ urls} peers₁ health₁
  have hloop : I [] peers' health' ∧ ∀ e ∈ log, RemovesUnused configured peers.byName e := by
    apply Replay.foldlM (I := I) _ ⟨rfl, h⟩ hrun
    rintro url urls peers₁ health₁ log₁ peers₂ health₂ ⟨hsame, htracking⟩ hrelease
    rw [← hsame]
    have hspec := htracking.release hrelease
    exact ⟨⟨hspec.1.1.trans hsame, hspec.1.2⟩, hspec.2⟩
  obtain ⟨⟨hsame, htracking⟩, hlog⟩ := hloop
  rw [hsame]
  refine ⟨Tracking.tracksExactly ?_, hlog⟩
  simpa using htracking

theorem Tracking.add {priority : ℤ} {url : Str} (hpending : url ∈ pending)
    (h : Tracking configured pending peers health)
    (hrun : Replay (discoverySem alpha) (peers.add priority url) health log peers' health') :
    (peers'.byName = peers.byName ∧ Tracking configured pending peers' health' ∧
        ∀ url', health'.Tracks url' ↔ url' = url ∨ health.Tracks url') ∧
      ∀ e ∈ log, ∀ url', e.1 ≠ .removeUpstream url' := by
  obtain ⟨added, health₁, log, rfl, ⟨between, hrecorded, rfl, rfl⟩, hret⟩ :=
    replay_call_bind_iff.1 hrun
  obtain ⟨rfl, rfl, rfl⟩ := replay_ret_iff.1 hret
  have hbetween := hrecorded.tracks_iff
  replace h := h.recorded hrecorded
  have hlog : ∀ e ∈ [(⟨.addUpstream url priority, (between.get url).isNone⟩ :
      Event DiscoveryOp DiscoveryReply)], ∀ url', e.1 ≠ .removeUpstream url' := by
    simp
  refine ⟨?_, hlog⟩
  by_cases htracks : (between.get url).isSome = true
  · have hnone : (between.get url).isNone = false := by
      rw [← Option.not_isSome, htracks]
      rfl
    simp only [hnone, htracks, if_true, Bool.false_eq_true, if_false]
    refine ⟨trivial, h, fun url' => ?_⟩
    rw [hbetween]
    apply (or_iff_right_of_imp _).symm
    rintro rfl
    exact (hbetween _).1 htracks
  · have hnone : (between.get url).isNone = true := by
      rwa [← Option.not_isSome, Bool.not_eq_true', ← Bool.not_eq_true]
    simp only [hnone, htracks, if_true, Bool.false_eq_true, if_false]
    have hnot : ¬between.Tracks url := htracks
    rw [h.tracked, not_or] at hnot
    refine ⟨trivial, ?_, fun url' => ?_⟩
    · constructor
      · intro url'
        rw [HealthTable.tracks_upsert, h.tracked, Finset.mem_insert]
        exact or_left_comm
      · intro url' hurl'
        rcases Finset.mem_insert.1 hurl' with rfl | howned
        · exact hnot.1
        · exact h.not_configured url' howned
      · exact fun url' hadv => HealthTable.tracks_upsert.2 (.inr (h.advertised url' hadv))
      · intro url' hurl'
        rcases Finset.mem_insert.1 hurl' with rfl | howned
        · exact .inr hpending
        · exact h.owned url' howned
    · rw [HealthTable.tracks_upsert, hbetween]
      rfl

/-- After the loop over new URLs they are tracked, like all that was tracked before. -/
theorem Tracking.addAll {priority : ℤ} {urls : List Str} (hpending : ∀ url ∈ urls, url ∈ pending)
    (h : Tracking configured pending peers health)
    (hrun : Replay (discoverySem alpha) (urls.foldlM (Peers.add priority) peers) health log peers'
      health') :
    (peers'.byName = peers.byName ∧ Tracking configured pending peers' health' ∧
        ∀ url, health'.Tracks url ↔ url ∈ urls ∨ health.Tracks url) ∧
      ∀ e ∈ log, ∀ url, e.1 ≠ .removeUpstream url := by
  let I (rest : List Str) (peers₁ : Peers) (health₁ : HealthTable) : Prop :=
    (∀ url ∈ rest, url ∈ pending) ∧ peers₁.byName = peers.byName ∧
      Tracking configured pending peers₁ health₁ ∧
      ∀ url, url ∈ rest ∨ health₁.Tracks url ↔ url ∈ urls ∨ health.Tracks url
  have hloop : I [] peers' health' ∧ ∀ e ∈ log, ∀ url, e.1 ≠ .removeUpstream url := by
    apply Replay.foldlM (I := I) _ ⟨hpending, rfl, h, fun _ => Iff.rfl⟩ hrun
    rintro url rest peers₁ health₁ log₁ peers₂ health₂ ⟨hrest, hsame, htracking, htracks⟩ hadd
    have hspec := htracking.add (hrest url (.head _)) hadd
    refine ⟨⟨fun url' hurl' => hrest url' (.tail _ hurl'), hspec.1.1.trans hsame, hspec.1.2.1,
      fun url' => ?_⟩, hspec.2⟩
    rw [hspec.1.2.2, ← htracks, List.mem_cons, or_left_comm, or_assoc]
  obtain ⟨⟨-, hsame, htracking, htracks⟩, hlog⟩ := hloop
  refine ⟨⟨hsame, htracking, fun url => ?_⟩, hlog⟩
  simpa using htracks url

theorem Peers.advertised_iff_erase {name url : Str} :
    peers.Advertised url ↔ url ∈ (peers.byName.get name).elim [] Peer.urls ∨
      Advertised { peers with byName := peers.byName.erase name } url := by
  constructor
  · rintro ⟨peer, hpeer, hurl⟩
    by_cases hname : peer.name = name
    · left
      rw [← hname, Table.mem_rows_iff.1 hpeer]
      exact hurl
    · exact .inr ⟨peer, Table.mem_erase.2 ⟨hpeer, hname⟩, hurl⟩
  · rintro (hurl | ⟨peer, hpeer, hurl⟩)
    · cases hget : peers.byName.get name with
      | none => simp [hget] at hurl
      | some peer =>
          rw [hget] at hurl
          exact ⟨peer, Table.mem_of_get hget, hurl⟩
    · exact ⟨peer, (Table.mem_erase.1 hpeer).1, hurl⟩

theorem Peers.advertised_upsert {byName : Table Peer.name} {owned owned' : Finset Str}
    {name url : Str} {urls : List Str} {now : Instant} :
    Advertised ⟨(byName.erase name).upsert ⟨name, urls, now⟩, owned⟩ url ↔
      url ∈ urls ∨ Advertised ⟨byName.erase name, owned'⟩ url := by
  constructor
  · rintro ⟨peer, hpeer, hurl⟩
    rcases Table.mem_of_mem_upsert hpeer with rfl | hpeer
    · exact .inl hurl
    · exact .inr ⟨peer, hpeer, hurl⟩
  · rintro (hurl | ⟨peer, hpeer, hurl⟩)
    · exact ⟨_, Table.mem_upsert.2 (.inl rfl), hurl⟩
    · exact ⟨peer, Table.mem_upsert.2 (.inr ⟨hpeer, (Table.mem_erase.1 hpeer).2⟩), hurl⟩

/-- While an announcement is handled, what its service advertised before and what it advertises
now is pending. -/
theorem Tracking.erase (h : Tracking configured ∅ peers health) (name : Str) (urls : List Str) :
    Tracking configured {url | url ∈ (peers.byName.get name).elim [] Peer.urls ∨ url ∈ urls}
      { peers with byName := peers.byName.erase name } health where
  tracked := h.tracked
  not_configured := h.not_configured
  advertised url hurl := h.advertised url (Peers.advertised_iff_erase.2 (.inr hurl))
  owned url hurl := by
    rcases Peers.advertised_iff_erase.1 ((h.owned url hurl).resolve_right id) with hurl | hurl
    · exact .inr (.inl hurl)
    · exact .inl hurl

theorem TracksExactly.resolved {name : Str} {urls : List Str} {priority : ℤ}
    (h : TracksExactly configured peers health)
    (hrun : Replay (discoverySem alpha) (peers.resolved name urls priority) health log peers'
      health') :
    TracksExactly configured peers' health' ∧
      ∀ e ∈ log, RemovesUnused configured peers'.byName e := by
  replace h := h.tracking
  obtain ⟨log₁, peers₁, health₁, log₂, rfl, hadd, hrest⟩ := replay_bind_iff.1 hrun
  obtain ⟨now, health₂, log₂, rfl, ⟨between, hrecorded, rfl⟩, hrelease⟩ :=
    replay_call_bind_iff.1 hrest
  set previous := (peers.byName.get name).elim [] Peer.urls with hprevious
  obtain ⟨⟨hsame, htracking, htracks⟩, hlog⟩ :=
    (h.erase name urls).addAll (fun url hurl => .inr (List.mem_filter.1 hurl).1) hadd
  replace htracking := htracking.recorded hrecorded
  have hpending : Tracking configured {url | url ∈ previous.filter (· ∉ urls)}
      { peers₁ with byName := peers₁.byName.upsert ⟨name, urls, now⟩ } health₂ := by
    have hadv₂ : ∀ url,
        Peers.Advertised { peers₁ with byName := peers₁.byName.upsert ⟨name, urls, now⟩ } url ↔
          url ∈ urls ∨ peers₁.Advertised url := by
      intro url
      rw [hsame]
      exact Peers.advertised_upsert.trans (by rw [Peers.Advertised, Peers.Advertised, hsame])
    refine { htracking with advertised := fun url hurl => ?_, owned := fun url hurl => ?_ }
    · rcases (hadv₂ url).1 hurl with hurl | hurl
      · apply (hrecorded.tracks_iff url).2
        apply (htracks url).2
        by_cases hold : url ∈ previous
        · exact .inr (h.advertised url (Peers.advertised_iff_erase.2 (.inl hold)))
        · exact .inl (List.mem_filter.2 ⟨hurl, decide_eq_true hold⟩)
      · exact htracking.advertised url hurl
    · rcases htracking.owned url hurl with hurl' | hurl' | hurl'
      · exact .inl ((hadv₂ url).2 (.inr hurl'))
      · by_cases hlive : url ∈ urls
        · exact .inl ((hadv₂ url).2 (.inl hlive))
        · exact .inr (List.mem_filter.2 ⟨hurl', decide_eq_true hlive⟩)
      · exact .inl ((hadv₂ url).2 (.inl hurl'))
  obtain ⟨hexact, hlog'⟩ := hpending.releaseAll hrelease
  refine ⟨hexact, fun e he => ?_⟩
  rcases List.mem_append.1 he with he | he
  · exact fun url hremoves => absurd hremoves (hlog e he url)
  · rcases List.mem_cons.1 he with rfl | he
    · exact nofun
    · exact hlog' e he

theorem TracksExactly.expire {expiration : Duration} (h : TracksExactly configured peers health)
    (hrun : Replay (discoverySem alpha) (peers.expire expiration) health log peers' health') :
    TracksExactly configured peers' health' ∧
      ∀ e ∈ log, RemovesUnused configured peers'.byName e := by
  replace h := h.tracking
  obtain ⟨now, health₁, log, rfl, ⟨between, hrecorded, rfl⟩, hrest⟩ := replay_call_bind_iff.1 hrun
  obtain ⟨stale, health₂, log, rfl, ⟨between', hrecorded', hperm, rfl⟩, hrelease⟩ :=
    replay_call_bind_iff.1 hrest
  replace h := (h.recorded hrecorded).recorded hrecorded'
  have hpending : Tracking configured {url | url ∈ stale.flatMap Peer.urls}
      { peers with byName := peers.byName.filter fun peer => ¬expiration < now - peer.seen }
      health₂ := by
    refine { h with advertised := fun url hurl => ?_, owned := fun url hurl => ?_ }
    · obtain ⟨peer, hpeer, hurl⟩ := hurl
      exact h.advertised url ⟨peer, (Table.mem_filter.1 hpeer).1, hurl⟩
    · obtain ⟨peer, hpeer, hurl⟩ := (h.owned url hurl).resolve_right id
      by_cases hstale : expiration < now - peer.seen
      · right
        apply List.mem_flatMap.2
        exact ⟨peer, hperm.mem_iff.2 (List.mem_filter.2 ⟨hpeer, decide_eq_true hstale⟩), hurl⟩
      · exact .inl ⟨peer, Table.mem_filter.2 ⟨hpeer, decide_eq_true hstale⟩, hurl⟩
  obtain ⟨hexact, hlog⟩ := hpending.releaseAll hrelease
  refine ⟨hexact, fun e he => ?_⟩
  rcases List.mem_cons.1 he with rfl | he
  · exact nofun
  · rcases List.mem_cons.1 he with rfl | he
    · exact nofun
    · exact hlog e he

end Invariant

/-! ## Runs -/

/-- Discovery reacts to an event, and performs the operations in `log`. -/
def Reacts (alpha : Double) (priority : ℤ) (expiration : Duration) (s : Peers × HealthTable)
    (e : DiscoveryEvent × List (Event DiscoveryOp DiscoveryReply)) (s' : Peers × HealthTable) :
    Prop :=
  Replay (discoverySem alpha) (e.1.handle priority expiration s.1) s.2 e.2 s'.1 s'.2

theorem TracksExactly.reacts {alpha : Double} {priority : ℤ} {expiration : Duration}
    {configured : Set Str} {s s' : Peers × HealthTable}
    {e : DiscoveryEvent × List (Event DiscoveryOp DiscoveryReply)}
    (h : TracksExactly configured s.1 s.2) (hreacts : Reacts alpha priority expiration s e s') :
    TracksExactly configured s'.1 s'.2 ∧ ∀ op ∈ e.2, RemovesUnused configured s'.1.byName op := by
  obtain ⟨event, log⟩ := e
  cases event with
  | serviceResolved name urls =>
      change Replay _ (ite _ _ _) _ _ _ _ at hreacts
      split at hreacts
      · obtain ⟨rfl, hpeers, hhealth⟩ := replay_ret_iff.1 hreacts
        rw [← hpeers, ← hhealth]
        exact ⟨h, by simp⟩
      · exact h.resolved hreacts
  | cleanup => exact h.expire hreacts

/-- Whatever appears and disappears, the upstreams that were configured at the start and the
ones that live peers advertise are tracked, and no other. None of these is ever removed. -/
theorem discovery_tracksExactly (alpha : Double) (priority : ℤ) (expiration : Duration)
    (configured : HealthTable) (s : Peers × HealthTable)
    (hreached : Reachable (Reacts alpha priority expiration) (fun _ _ => True)
      (Peers.empty, configured) s) :
    TracksExactly {url | configured.Tracks url} s.1 s.2 ∧
      ∀ e s', Reacts alpha priority expiration s e s' →
        ∀ op ∈ e.2, ∀ url, op.1 = .removeUpstream url →
          ¬configured.Tracks url ∧ ¬s'.1.Advertised url := by
  have hexact : TracksExactly {url | configured.Tracks url} s.1 s.2 := by
    apply hreached.invariant
    · constructor
      · intro url
        exact (or_iff_left (by rintro ⟨peer, hpeer, -⟩; cases hpeer)).symm
      · intro url
        exact iff_of_false (by simp [Peers.empty]) (by rintro ⟨⟨peer, hpeer, -⟩, -⟩; cases hpeer)
    · exact fun s e s' h _ hreacts => (h.reacts hreacts).1
  refine ⟨hexact, fun e s' hreacts op hop url hremoves => ?_⟩
  obtain ⟨hnot, hunused⟩ := (hexact.reacts hreacts).2 op hop url hremoves
  exact ⟨hnot, fun ⟨peer, hpeer, hurl⟩ => hunused peer hpeer hurl⟩

/-- A configured upstream. -/
def configuredA : HealthTable :=
  (∅ : HealthTable).upsert (.new "http://a".toList 0)

/-- What is known after a peer has advertised it together with another one. -/
def discoveredB : Peers × HealthTable :=
  (⟨(∅ : Table Peer.name).upsert ⟨"peer".toList, ["http://a".toList, "http://b".toList], 0⟩,
    {"http://b".toList}⟩, configuredA.upsert (.new "http://b".toList 0))

theorem discovery_tracksExactly_peer :
    TracksExactly {url | configuredA.Tracks url} discoveredB.1 discoveredB.2 := by
  refine (discovery_tracksExactly (.fin 0) 0 0 configuredA discoveredB ?_).1
  apply Reachable.step (e := (.serviceResolved "peer".toList ["http://a".toList, "http://b".toList],
    [⟨.addUpstream "http://a".toList 0, false⟩, ⟨.addUpstream "http://b".toList 0, true⟩,
      ⟨.now, (0 : ℕ)⟩])) .start trivial
  have hbetween : ∀ health : HealthTable, health.Recorded (.fin 0) health := fun _ => .refl
  apply Replay.perform ⟨configuredA, hbetween _, rfl, rfl⟩
  apply Replay.perform ⟨configuredA, hbetween _, rfl, rfl⟩
  apply Replay.perform ⟨discoveredB.2, hbetween _, rfl⟩
  exact .ret _ _

end Ncro
