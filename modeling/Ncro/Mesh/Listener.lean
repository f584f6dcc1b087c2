import Ncro.Mesh.Announce
import Ncro.System

/-!
# Listening for announcements

A listener takes one datagram after the other into the same buffer. What it reads of a
datagram is decoded before it is authenticated, but nothing is done with the message unless a
node that is allowed has signed exactly the bytes it was decoded from:
`only_authentic_gossip`. A datagram that does not fit into the buffer is cut, and
is judged by what is left of it.
-/

namespace Ncro

open Foundation Foundation.Process

section

variable (codec : Codec) (verify : Octets → Octets → Octets → Bool) (allowedKeys : List Octets)

/-- `recv_from`: the buffer with a datagram in front of what was there before, and how many
bytes were read. -/
def recvFrom (buf datagram : Octets) : Octets × ℕ :=
  let n := min datagram.length buf.length
  (datagram.take n ++ buf.drop n, n)

/-- What a listener does about the bytes it has read. -/
def handlePacket (packet : Octets) : Handler Unit :=
  match receive codec verify allowedKeys packet with
  | .merges routes => mergeRoutes routes
  | _ => return ()

/-- The loop of `listen_and_serve` over what arrives: datagrams, and failures to receive. -/
def listenLoop (buf : Octets) : List (Option Octets) → Handler Unit
  | [] => return ()
  | none :: arrivals => listenLoop buf arrivals
  | some datagram :: arrivals => do
      let received := recvFrom buf datagram
      handlePacket codec verify allowedKeys (received.1.take received.2)
      listenLoop received.1 arrivals

def listenAndServe (arrivals : List (Option Octets)) : Handler Unit :=
  listenLoop codec verify allowedKeys (List.replicate maxPacketSize 0) arrivals

/-! ## Authentic bytes -/

/-- The bytes are the key of a node that is allowed, its signature of a body, and this body,
which is an announcement of some routes. -/
def Authentic (bytes : Octets) (routes : List RouteEntry) : Prop :=
  ∃ pubkey sig body msg, bytes = pubkey ++ (sig ++ body) ∧ pubkey.length = 32 ∧ sig.length = 64 ∧
    pubkey ∈ allowedKeys ∧ verify pubkey body sig = true ∧ codec.fromSlice body = some msg ∧
    msg.type = .announce ∧ msg.routes = routes ∧ routes ≠ []

/-- The routes that are to be merged for what arrives, packet by packet. -/
inductive GossipOf : List (Option Octets) → List (List RouteEntry) → Prop
  | nil : GossipOf [] []
  | failed {arrivals : List (Option Octets)} {merged : List (List RouteEntry)}
      (h : GossipOf arrivals merged) : GossipOf (none :: arrivals) merged
  | dropped {datagram : Octets} {arrivals : List (Option Octets)}
      {merged : List (List RouteEntry)}
      (hnot : ∀ routes, ¬Authentic codec verify allowedKeys (readDatagram datagram) routes)
      (h : GossipOf arrivals merged) : GossipOf (some datagram :: arrivals) merged
  | accepted {datagram : Octets} {routes : List RouteEntry} {arrivals : List (Option Octets)}
      {merged : List (List RouteEntry)}
      (hauthentic : Authentic codec verify allowedKeys (readDatagram datagram) routes)
      (h : GossipOf arrivals merged) : GossipOf (some datagram :: arrivals) (routes :: merged)

end

section

variable {codec : Codec} {verify : Octets → Octets → Octets → Bool} {allowedKeys : List Octets}
  {arrivals : List (Option Octets)}

/-! ## Merged routes -/

/-- The routes of a datagram are merged exactly when what is read of it is authentic. -/
theorem receive_eq_merges_iff {datagram : Octets} {routes : List RouteEntry} :
    receive codec verify allowedKeys datagram = .merges routes ↔
      Authentic codec verify allowedKeys (readDatagram datagram) routes := by
  unfold receive
  constructor
  · intro h
    split at h
    · cases h
    next pubkey sig body msg hdecode =>
    obtain ⟨hpacket, hpubkey, hsig, hmsg⟩ := decodePacket_eq_ok_iff.1 hdecode
    split at h
    · cases h
    next hallowed =>
    split at h
    · cases h
    next hverified =>
    split at h
    · next hannounce =>
      cases h
      exact ⟨pubkey, sig, body, msg, hpacket, hpubkey, hsig, by simpa using hallowed,
        by simpa using hverified, hmsg, hannounce.1, rfl, hannounce.2⟩
    · cases h
  · rintro ⟨pubkey, sig, body, msg, hpacket, hpubkey, hsig, hallowed, hverified, hmsg, htype, rfl,
      hroutes⟩
    have hcontains : allowedKeys.contains pubkey = true := by simpa using hallowed
    rw [decodePacket_eq_ok_iff.2 ⟨hpacket, hpubkey, hsig, hmsg⟩]
    simp only [hcontains, hverified, Bool.not_true, Bool.false_eq_true, if_false]
    exact if_pos ⟨trivial, hroutes⟩

theorem readDatagram_readDatagram (datagram : Octets) :
    readDatagram (readDatagram datagram) = readDatagram datagram := by
  simp [readDatagram]

/-- An authentic packet has its routes merged. -/
theorem handlePacket_of_authentic {datagram : Octets} {routes : List RouteEntry}
    (h : Authentic codec verify allowedKeys (readDatagram datagram) routes) :
    handlePacket codec verify allowedKeys (readDatagram datagram) = mergeRoutes routes := by
  rw [← readDatagram_readDatagram] at h
  rw [handlePacket, receive_eq_merges_iff.2 h]

/-- Nothing is done about any other packet. -/
theorem handlePacket_of_not_authentic {datagram : Octets}
    (h : ∀ routes, ¬Authentic codec verify allowedKeys (readDatagram datagram) routes) :
    handlePacket codec verify allowedKeys (readDatagram datagram) = .ret () := by
  unfold handlePacket
  split
  · next routes hreceive =>
    rw [receive_eq_merges_iff, readDatagram_readDatagram] at hreceive
    exact absurd hreceive (h routes)
  · rfl

/-! ## The loop -/

/-- What was in the buffer before is not read again. -/
theorem recvFrom_read {buf : Octets} (hbuf : buf.length = maxPacketSize) (datagram : Octets) :
    (recvFrom buf datagram).1.take (recvFrom buf datagram).2 = readDatagram datagram := by
  have hlength : (datagram.take (min datagram.length buf.length)).length =
      min datagram.length buf.length := by simp
  rw [recvFrom, List.take_left' hlength, readDatagram, ← hbuf]
  rcases le_total datagram.length buf.length with hle | hle
  · rw [Nat.min_eq_left hle, List.take_length, List.take_of_length_le hle]
  · rw [Nat.min_eq_right hle]

theorem length_recvFrom {buf : Octets} (datagram : Octets) :
    (recvFrom buf datagram).1.length = buf.length := by
  simp [recvFrom]

/-- The loop does the merges of the authentic packets one after the other, and nothing else. -/
theorem listenLoop_eq {merged : List (List RouteEntry)}
    (h : GossipOf codec verify allowedKeys arrivals merged) {buf : Octets}
    (hbuf : buf.length = maxPacketSize) :
    listenLoop codec verify allowedKeys buf arrivals = merged.forM mergeRoutes := by
  induction h generalizing buf with
  | nil => rfl
  | failed h ih => exact ih hbuf
  | @dropped datagram arrivals merged hnot h ih =>
      have hrest := ih ((length_recvFrom datagram).trans hbuf)
      rw [listenLoop]
      rw [recvFrom_read hbuf, handlePacket_of_not_authentic hnot, hrest, ret_bind]
  | @accepted datagram routes arrivals merged hauthentic h ih =>
      have hrest := ih ((length_recvFrom datagram).trans hbuf)
      rw [listenLoop]
      rw [recvFrom_read hbuf, handlePacket_of_authentic hauthentic, hrest]
      rfl

theorem listenAndServe_eq {merged : List (List RouteEntry)}
    (h : GossipOf codec verify allowedKeys arrivals merged) :
    listenAndServe codec verify allowedKeys arrivals = merged.forM mergeRoutes :=
  listenLoop_eq h List.length_replicate

variable (codec verify allowedKeys arrivals) in
/-- Whatever arrives, it is clear which routes are to be merged. -/
theorem exists_gossipOf : ∃ merged, GossipOf codec verify allowedKeys arrivals merged := by
  induction arrivals with
  | nil => exact ⟨[], .nil⟩
  | cons arrival arrivals ih =>
      obtain ⟨merged, h⟩ := ih
      cases arrival with
      | none => exact ⟨merged, .failed h⟩
      | some datagram =>
          by_cases hauthentic : ∃ routes,
              Authentic codec verify allowedKeys (readDatagram datagram) routes
          · obtain ⟨routes, hauthentic⟩ := hauthentic
            exact ⟨routes :: merged, .accepted hauthentic h⟩
          · exact ⟨merged, .dropped (not_exists.1 hauthentic) h⟩

/-- What is merged was in an authentic packet. -/
theorem GossipOf.exists_authentic {merged : List (List RouteEntry)}
    (h : GossipOf codec verify allowedKeys arrivals merged) {routes : List RouteEntry}
    (hmem : routes ∈ merged) :
    ∃ datagram, some datagram ∈ arrivals ∧
      Authentic codec verify allowedKeys (readDatagram datagram) routes := by
  induction h with
  | nil => cases hmem
  | failed h ih =>
      obtain ⟨datagram, hdatagram, hauthentic⟩ := ih hmem
      exact ⟨datagram, List.mem_cons_of_mem _ hdatagram, hauthentic⟩
  | dropped hnot h ih =>
      obtain ⟨datagram, hdatagram, hauthentic⟩ := ih hmem
      exact ⟨datagram, List.mem_cons_of_mem _ hdatagram, hauthentic⟩
  | @accepted datagram routes' arrivals merged hauthentic h ih =>
      rcases List.mem_cons.1 hmem with rfl | hmem
      · exact ⟨datagram, List.mem_cons_self, hauthentic⟩
      · obtain ⟨other, hother, hauthentic⟩ := ih hmem
        exact ⟨other, List.mem_cons_of_mem _ hother, hauthentic⟩

/-- A datagram whose packet is not authentic makes no difference. -/
theorem GossipOf.without {before after : List (Option Octets)} {datagram : Octets}
    {merged : List (List RouteEntry)}
    (h : GossipOf codec verify allowedKeys (before ++ some datagram :: after) merged)
    (hnot : ∀ routes, ¬Authentic codec verify allowedKeys (readDatagram datagram) routes) :
    GossipOf codec verify allowedKeys (before ++ after) merged := by
  induction before generalizing merged with
  | nil =>
      cases h with
      | dropped _ h => exact h
      | accepted hauthentic h => exact absurd hauthentic (hnot _)
  | cons arrival before ih =>
      cases h with
      | failed h => exact .failed (ih h)
      | dropped hother h => exact .dropped hother (ih h)
      | accepted hauthentic h => exact .accepted hauthentic (ih h)

/-! ## Writes -/

/-- An operation writes only routes with a property. -/
def WritesOnly (P : RouteEntry → Prop) : Op → Prop
  | .dbUpsertRoute entry => P entry
  | _ => True

theorem writesOnly_mergeRoutes {P : RouteEntry → Prop} {routes : List RouteEntry}
    (h : ∀ route ∈ routes, P route) : Performs (WritesOnly P) (mergeRoutes routes) := by
  have hset : ∀ route, P route → Performs (WritesOnly P) (setRoute route) := by
    refine fun route hroute => ⟨hroute, fun written => ?_⟩
    match written with
    | .error err => trivial
    | .ok () =>
        refine ⟨trivial, fun count => ?_⟩
        change Performs _ (ite _ _ _)
        split
        · exact ⟨trivial, fun _ => trivial⟩
        · trivial
  have heach : ∀ routes : List RouteEntry, (∀ route ∈ routes, P route) →
      Performs (WritesOnly P) (mergeEach routes) := by
    intro routes hroutes
    induction routes with
    | nil => trivial
    | cons route routes ih =>
        have hrest := ih fun other hother => hroutes other (List.mem_cons_of_mem _ hother)
        refine ⟨trivial, fun existing => ?_⟩
        match existing with
        | .error err => exact hrest
        | .ok existing =>
            change Performs _ (ite _ _ _)
            split
            · exact (hset route (hroutes route List.mem_cons_self)).bind fun _ => hrest
            · exact hrest
  exact ⟨trivial, fun now => heach _ fun route hmem => h route (List.mem_filter.1 hmem).1⟩

/-- Every route that a listener writes was in an authentic packet. -/
theorem writesOnly_listenAndServe :
    Performs (WritesOnly fun route => ∃ datagram routes, some datagram ∈ arrivals ∧
        Authentic codec verify allowedKeys (readDatagram datagram) routes ∧ route ∈ routes)
      (listenAndServe codec verify allowedKeys arrivals) := by
  obtain ⟨merged, hgossip⟩ := exists_gossipOf codec verify allowedKeys arrivals
  rw [listenAndServe_eq hgossip]
  have hall : ∀ routes ∈ merged, ∃ datagram, some datagram ∈ arrivals ∧
      Authentic codec verify allowedKeys (readDatagram datagram) routes :=
    fun routes => hgossip.exists_authentic
  clear hgossip
  induction merged with
  | nil => trivial
  | cons routes merged ih =>
      obtain ⟨datagram, hdatagram, hauthentic⟩ := hall routes List.mem_cons_self
      apply Performs.bind
      · apply writesOnly_mergeRoutes
        exact fun route hroute => ⟨datagram, routes, hdatagram, hauthentic, hroute⟩
      · exact fun _ => ih fun other hother => hall other (List.mem_cons_of_mem _ hother)

/-! ## Conclusion -/

/-- Only authentic gossip changes routes. Whatever arrives, a listener does exactly the merges of
the authentic packets, in order, where a packet is what is read of a datagram. So each route
that it writes was in an authentic packet; a datagram whose packet is not authentic makes no
difference to it; and if there is no authentic packet, the instance stays as it is. -/
theorem only_authentic_gossip (codec : Codec) (verify : Octets → Octets → Octets → Bool)
    (allowedKeys : List Octets) (arrivals : List (Option Octets)) :
    (∃ merged, GossipOf codec verify allowedKeys arrivals merged ∧
      listenAndServe codec verify allowedKeys arrivals = merged.forM mergeRoutes) ∧
    (∀ allowed events, Run allowed (listenAndServe codec verify allowedKeys arrivals) events () →
      ∀ route written, (⟨.dbUpsertRoute route, written⟩ : HandlerEvent) ∈ events →
        ∃ datagram routes, some datagram ∈ arrivals ∧
          Authentic codec verify allowedKeys (readDatagram datagram) routes ∧ route ∈ routes) ∧
    (∀ before datagram after, arrivals = before ++ some datagram :: after →
      (∀ routes, ¬Authentic codec verify allowedKeys (readDatagram datagram) routes) →
        listenAndServe codec verify allowedKeys arrivals =
          listenAndServe codec verify allowedKeys (before ++ after)) ∧
    ∀ reg s s', Execution (Instance.exec reg) (listenAndServe codec verify allowedKeys arrivals)
      s () s' → s' ≠ s → ∃ datagram routes, some datagram ∈ arrivals ∧
        Authentic codec verify allowedKeys (readDatagram datagram) routes := by
  obtain ⟨merged, hgossip⟩ := exists_gossipOf codec verify allowedKeys arrivals
  refine ⟨⟨merged, hgossip, listenAndServe_eq hgossip⟩, ?_, ?_, ?_⟩
  · intro allowed events hrun route written hmem
    exact hrun.performs writesOnly_listenAndServe _ hmem
  · rintro before datagram after rfl hnot
    rw [listenAndServe_eq hgossip, listenAndServe_eq (hgossip.without hnot)]
  · intro reg s s' hexec hne
    cases merged with
    | nil =>
        rw [listenAndServe_eq hgossip] at hexec
        exact absurd (execution_ret_iff.1 hexec).2.symm hne
    | cons routes merged =>
        obtain ⟨datagram, hdatagram, hauthentic⟩ := hgossip.exists_authentic List.mem_cons_self
        exact ⟨datagram, routes, hdatagram, hauthentic⟩

end

/-- A datagram without a header makes no difference. -/
theorem only_authentic_gossip_empty (codec : Codec) :
    listenAndServe codec verifiesZero [zeroNode.publicKey.val] [some []] =
      listenAndServe codec verifiesZero [zeroNode.publicKey.val] [] := by
  have hnot : ∀ routes, ¬Authentic codec verifiesZero [zeroNode.publicKey.val]
      (readDatagram []) routes := by
    rintro routes ⟨pubkey, sig, body, msg, hbytes, hpubkey, -⟩
    have hlength := congrArg List.length hbytes
    rw [List.length_append, hpubkey] at hlength
    simp [readDatagram] at hlength
    omega
  exact (only_authentic_gossip codec verifiesZero [zeroNode.publicKey.val] [some []]).2.2.1
    [] [] [] rfl hnot

/-! ## A datagram that is cut -/

/-- A narinfo of a length that makes the packet of its row fill the buffer. -/
def fillingNarinfo : Octets :=
  toUtf8 "StorePath: /nix/store/x-a\nDeriver: ".toList ++ List.replicate 1134 0x78

/-- The encoding of the announcement of the row with this narinfo. -/
def fillingBody : Octets := encodedWith fillingNarinfo

theorem length_fillingBody : fillingBody.length = 1304 := by
  have hprefix : (toUtf8 "StorePath: /nix/store/x-a\nDeriver: ".toList).length = 35 := by decide
  rw [fillingBody, length_encodedWith, fillingNarinfo, List.length_append, List.length_replicate,
    hprefix]

/-- The routines on this announcement. -/
def fillingCodec : Codec :=
  codecOf (announcement zeroNode default [rowWith fillingNarinfo]) fillingBody

/-- The node has signed this encoding, and nothing else. -/
def verifiesFilling (_ body sig : Octets) : Bool :=
  body = fillingBody && sig = List.replicate 64 0

/-- The packet of the announcement, and one byte more. -/
def cutDatagram : Octets :=
  zeroNode.publicKey.val ++ (List.replicate 64 0 ++ fillingBody) ++ [0]

/-- The key in the datagram has not signed the rest of it. Still the listener merges the
routes, as it does not read the last byte. -/
theorem cut_datagram_merged :
    (∀ routes, ¬Authentic fillingCodec verifiesFilling [zeroNode.publicKey.val] cutDatagram
      routes) ∧
    ∃ s s', Execution (Instance.exec default)
      (listenAndServe fillingCodec verifiesFilling [zeroNode.publicKey.val] [some cutDatagram])
      s () s' ∧ s'.routes ≠ s.routes := by
  have hkey := zeroNode.publicKey.property
  have hsigLength : (List.replicate 64 (0 : UInt8)).length = 64 := List.length_replicate
  have hbody := length_fillingBody
  have hlength : (zeroNode.publicKey.val ++ (List.replicate 64 0 ++ fillingBody)).length =
      maxPacketSize := by
    rw [List.length_append, List.length_append, hkey, hsigLength, hbody]
    rfl
  constructor
  · rintro routes ⟨pubkey, sig, body, msg, hbytes, hpubkey, hsig, -, hverified, -⟩
    simp only [verifiesFilling, Bool.and_eq_true, decide_eq_true_eq] at hverified
    have hlong := congrArg List.length hbytes
    rw [cutDatagram, List.length_append, hlength, List.length_append, List.length_append, hpubkey,
      hsig, hverified.1, hbody] at hlong
    simp [maxPacketSize] at hlong
  · have hread : readDatagram cutDatagram =
        zeroNode.publicKey.val ++ (List.replicate 64 0 ++ fillingBody) := by
      rw [readDatagram, cutDatagram, List.take_left' hlength]
    have hauthentic : Authentic fillingCodec verifiesFilling [zeroNode.publicKey.val]
        (readDatagram cutDatagram) [rowWith fillingNarinfo] := by
      have hmsg : fillingCodec.fromSlice fillingBody =
          some (announcement zeroNode default [rowWith fillingNarinfo]) := codecOf_fromSlice _ _
      have hverified : verifiesFilling zeroNode.publicKey.val fillingBody (List.replicate 64 0) =
          true := by
        simp [verifiesFilling]
      exact ⟨_, _, _, _, hread, hkey, hsigLength, List.mem_singleton_self _, hverified, hmsg, rfl,
        rfl, by simp⟩
    let s := Instance.start default ∅ ∅ ∅ 100000 0 0 1 default 0
    have husable : usableRoute s.wallClock (rowWith fillingNarinfo) = true := by
      change usableRoute default rowOfU = true
      decide
    have hmerge : Execution (Instance.exec default) (mergeRoutes [rowWith fillingNarinfo]) s ()
        (s.stored (rowWith fillingNarinfo)) :=
      (Instance.replay_mergeRoutes husable rfl (by decide)).execution
    refine ⟨s, s.stored (rowWith fillingNarinfo), ?_, ?_⟩
    · rw [listenAndServe_eq (.accepted hauthentic .nil)]
      exact hmerge.bind (.ret _ _)
    · intro heq
      have hrows := congrArg (fun table : RouteTable => table.rows.length) heq
      cases hrows

end Ncro
