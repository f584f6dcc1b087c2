import Ncro.Router.FilterGate

/-!
# Announcements

A node announces the routes it has verified last to its peers, in one signed
datagram. The sender bounds the number of routes, the receiver the number of
bytes it reads: `announcement_arrives` says exactly which announcements pass both.
The serializer and the signatures belong to other libraries, and are parameters.
-/

namespace Ncro

open Foundation

/-- How much of a datagram a listener reads. -/
def maxPacketSize : ℕ := 1400

/-- The key and the signature before the body of a packet. -/
def headerSize : ℕ := 96

def maxGossipRoutes : ℕ := 25

/-! ## Listing routes -/

/-- Whether `list_recent_routes` may reply so: the live rows that were verified last,
at most `n` of them. Rows verified in the same second come in any order. -/
def RouteTable.ListRecentRoutes (routes : RouteTable) (now : Timestamp) (n : ℕ)
    (reply : Except DbError (List RouteEntry)) : Prop :=
  ∃ sorted : List RouteRow, sorted.Perm (routes.rows.filter fun row => now.asSecond < row.ttl) ∧
    sorted.Pairwise (fun row row' => row'.lastVerified ≤ row.lastVerified) ∧
    reply = (sorted.take n).mapM rowToRoute

/-! ## Messages and packets -/

inductive MsgType
  | announce
  deriving DecidableEq, Repr

structure Message where
  type : MsgType
  nodeId : Str
  timestamp : ℤ
  routes : List RouteEntry
  deriving DecidableEq

inductive MeshError
  | encode
  | decode
  | packetTooShort (length : ℕ)
  | invalidSignature
  deriving DecidableEq, Repr

/-- The MessagePack routines, `to_vec` and `from_slice`. -/
structure Codec where
  toVec : Message → Option Octets
  fromSlice : Octets → Option Message

/-- A node: the public key of its pair, and the signatures made with the other one. -/
structure Node where
  publicKey : {key : Octets // key.length = 32}
  signature : Octets → {sig : Octets // sig.length = 64}

/-- `HEXLOWER.encode`. -/
def hexLower (bytes : Octets) : Str :=
  bytes.flatMap fun byte => [Nat.digitChar (byte.toNat / 16), Nat.digitChar (byte.toNat % 16)]

def Node.id (node : Node) : Str := hexLower (node.publicKey.val.take 8)

section

variable (codec : Codec)

def Node.sign (node : Node) (msg : Message) : Except MeshError (Octets × Octets) :=
  match codec.toVec msg with
  | none => .error .encode
  | some body => .ok (body, (node.signature body).val)

def encodePacket (node : Node) (msg : Message) : Except MeshError Octets :=
  match node.sign codec msg with
  | .error err => .error err
  | .ok (body, sig) => .ok (node.publicKey.val ++ sig ++ body)

/-- The key, the signature, the body and the message of a packet. -/
def decodePacket (packet : Octets) : Except MeshError (Octets × Octets × Octets × Message) :=
  if packet.length < headerSize then .error (.packetTooShort packet.length)
  else
    let pubkey := packet.take 32
    let sig := (packet.take headerSize).drop 32
    let body := packet.drop headerSize
    match codec.fromSlice body with
    | none => .error .decode
    | some msg => .ok (pubkey, sig, body, msg)

/-- The nanoseconds since the epoch, when they fit. -/
def announcedTime (now : Timestamp) : ℤ :=
  if -2 ^ 63 ≤ now.asNanosecond ∧ now.asNanosecond < 2 ^ 63 then now.asNanosecond else 0

/-- The message `announce` sends. -/
def announcement (node : Node) (now : Timestamp) (routes : List RouteEntry) : Message where
  type := .announce
  nodeId := node.id
  timestamp := announcedTime now
  routes := routes

/-! ## Sending and receiving -/

/-- A round of the gossip loop that sends a packet: the routes are listed, and
announced a while later. -/
structure Gossips (node : Node) (routes : RouteTable) (listedAt now : Timestamp)
    (listed : List RouteEntry) (packet : Octets) : Prop where
  lists : routes.ListRecentRoutes listedAt maxGossipRoutes (.ok listed)
  nonempty : listed ≠ []
  sends : encodePacket codec node (announcement node now listed) = .ok packet

/-- What a listener does with a packet. -/
inductive Received
  | malformed (err : MeshError)
  | unknownSender
  | invalidSignature
  | ignored
  | merges (routes : List RouteEntry)
  deriving DecidableEq

variable (verify : Octets → Octets → Octets → Bool)

/-- `recv_from` reads as much of a datagram as its buffer holds. -/
def readDatagram (datagram : Octets) : Octets :=
  datagram.take maxPacketSize

/-- One round of `listen_and_serve`. -/
def receive (allowedKeys : List Octets) (datagram : Octets) : Received :=
  match decodePacket codec (readDatagram datagram) with
  | .error err => .malformed err
  | .ok (pubkey, sig, body, msg) =>
      if !allowedKeys.contains pubkey then .unknownSender
      else if !verify pubkey body sig then .invalidSignature
      else if msg.type = .announce ∧ msg.routes ≠ [] then .merges msg.routes
      else .ignored

/-! ## Packets that arrive -/

/-- A packet arrives whole: the listener reads all of it, and finds the message in
it with a good signature of the node. -/
def ArrivesWhole (node : Node) (msg : Message) (packet : Octets) : Prop :=
  packet.length ≤ maxPacketSize ∧ ∃ sig body,
    decodePacket codec (readDatagram packet) = .ok (node.publicKey.val, sig, body, msg) ∧
    verify node.publicKey.val body sig = true

/-- The encoding of a message leaves room for the header. -/
def Message.Fits (msg : Message) : Prop :=
  ∀ body, codec.toVec msg = some body → body.length ≤ maxPacketSize - headerSize

/-- Decoding inverts encoding. -/
def Codec.Inverts : Prop :=
  ∀ msg body, codec.toVec msg = some body → codec.fromSlice body = some msg

/-- How many octets of strings and byte vectors a route carries. -/
def RouteEntry.carried (route : RouteEntry) : ℕ :=
  (toUtf8 route.storePath).length + (toUtf8 route.upstreamUrl).length +
    (toUtf8 route.narHash).length + (toUtf8 route.narUrl).length +
    (toUtf8 route.upstreamNarUrl).length + (route.narinfoBytes.getD []).length

def Message.carried (msg : Message) : ℕ :=
  (toUtf8 msg.nodeId).length + (msg.routes.map RouteEntry.carried).sum

/-- An encoding is not shorter than what it carries. -/
def Codec.Carries : Prop :=
  ∀ msg body, codec.toVec msg = some body → msg.carried ≤ body.length

end

section

variable {codec : Codec} {verify : Octets → Octets → Octets → Bool} {node : Node} {msg : Message}
  {packet : Octets}

/-- A packet is the key, a signature of the body, and the body. -/
theorem exists_of_encodePacket (h : encodePacket codec node msg = .ok packet) :
    ∃ body, codec.toVec msg = some body ∧
      packet = node.publicKey.val ++ (node.signature body).val ++ body := by
  unfold encodePacket Node.sign at h
  cases hbody : codec.toVec msg with
  | none =>
      rw [hbody] at h
      cases h
  | some body =>
      rw [hbody] at h
      exact ⟨body, rfl, (Except.ok.inj h).symm⟩

theorem length_header (node : Node) (body : Octets) :
    (node.publicKey.val ++ (node.signature body).val).length = headerSize := by
  rw [List.length_append, node.publicKey.property, (node.signature body).property]
  rfl

theorem length_encodePacket {body : Octets} :
    (node.publicKey.val ++ (node.signature body).val ++ body).length = headerSize + body.length := by
  rw [List.length_append, length_header]

/-- A packet is decoded into its parts. -/
theorem decodePacket_eq_ok_iff {packet pubkey sig body : Octets} {msg : Message} :
    decodePacket codec packet = .ok (pubkey, sig, body, msg) ↔
      packet = pubkey ++ (sig ++ body) ∧ pubkey.length = 32 ∧ sig.length = 64 ∧
        codec.fromSlice body = some msg := by
  unfold decodePacket
  constructor
  · intro h
    split at h
    · cases h
    next hlong =>
    have hlength : headerSize ≤ packet.length := Nat.not_lt.1 hlong
    dsimp only at h
    split at h
    · cases h
    next msg' hmsg =>
    cases h
    have hpubkey : (packet.take headerSize).take 32 = packet.take 32 := List.take_take ..
    refine ⟨?_, ?_, ?_, hmsg⟩
    · rw [← List.append_assoc, ← hpubkey, List.take_append_drop, List.take_append_drop]
    · rw [List.length_take]
      exact Nat.min_eq_left (le_trans (by decide) hlength)
    · rw [List.length_drop, List.length_take, Nat.min_eq_left hlength]
      rfl
  · rintro ⟨rfl, hpubkey, hsig, hmsg⟩
    have hheader : (pubkey ++ sig).length = headerSize := by
      rw [List.length_append, hpubkey, hsig]
      rfl
    have htake : (pubkey ++ (sig ++ body)).take headerSize = pubkey ++ sig := by
      rw [← List.append_assoc, List.take_left' hheader]
    have hdrop : (pubkey ++ (sig ++ body)).drop headerSize = body := by
      rw [← List.append_assoc, List.drop_left' hheader]
    have hlong : ¬(pubkey ++ (sig ++ body)).length < headerSize := by
      rw [← List.append_assoc, List.length_append, hheader]
      omega
    rw [if_neg hlong]
    simp only [htake, hdrop, List.take_left' hpubkey, List.drop_left' hpubkey, hmsg]

/-- The parts of a packet are found again. -/
theorem decodePacket_append {body : Octets} (hmsg : codec.fromSlice body = some msg) :
    decodePacket codec (node.publicKey.val ++ (node.signature body).val ++ body)
      = .ok (node.publicKey.val, (node.signature body).val, body, msg) := by
  apply decodePacket_eq_ok_iff.2
  exact ⟨List.append_assoc _ _ _, node.publicKey.property, (node.signature body).property, hmsg⟩

/-- A packet that fits into the buffer is read whole. -/
theorem readDatagram_of_length_le (h : packet.length ≤ maxPacketSize) :
    readDatagram packet = packet := List.take_of_length_le h

/-- A peer that allows the node's key merges exactly the routes of an announcement
that arrives. -/
theorem receive_of_arrivesWhole {allowedKeys : List Octets}
    (hallowed : node.publicKey.val ∈ allowedKeys) {now : Timestamp} {listed : List RouteEntry}
    (hne : listed ≠ []) (h : ArrivesWhole codec verify node (announcement node now listed) packet) :
    receive codec verify allowedKeys packet = .merges listed := by
  obtain ⟨-, sig, body, hdecode, hverified⟩ := h
  have hcontains : allowedKeys.contains node.publicKey.val = true := by simpa using hallowed
  unfold receive
  simp only [hdecode, hcontains, hverified, Bool.not_true, Bool.false_eq_true, if_false]
  exact if_pos ⟨trivial, hne⟩

/-- Routes that carry too much do not fit. -/
theorem not_fits_of_carried (hcodec : codec.Carries) {body : Octets}
    (hbody : codec.toVec msg = some body) (h : maxPacketSize - headerSize < msg.carried) :
    ¬msg.Fits codec := by
  intro hfits
  have hle := hfits body hbody
  have hcarried := hcodec msg body hbody
  omega

end

/-! ## A short row and a long one -/

/-- A node whose key and signatures are all zeros. -/
def zeroNode : Node where
  publicKey := ⟨List.replicate 32 0, List.length_replicate⟩
  signature := fun _ => ⟨List.replicate 64 0, List.length_replicate⟩

/-- The signatures of this node are the good ones. -/
def verifiesZero (_ _ sig : Octets) : Bool :=
  sig = List.replicate 64 0

/-- A row of upstream `u` with a narinfo. -/
def rowWith (bytes : Octets) : RouteEntry :=
  { rowOfU with narinfoBytes := some bytes }

def tableWith (bytes : Octets) : RouteTable :=
  ⟨[routeToRow (rowWith bytes)], List.nodup_singleton _⟩

/-- The MessagePack encoding of the number 1.0. -/
def encodedOne : Octets := [0xcb, 0x3f, 0xf0, 0, 0, 0, 0, 0, 0]

/-- The MessagePack encoding of an announcement of this row at the epoch, when its
narinfo is an ASCII text of at least 16 and less than 65536 characters. -/
def encodedWith (bytes : Octets) : Octets :=
  0x94 :: 0xa8 :: toUtf8 "Announce".toList ++ 0xb0 :: toUtf8 zeroNode.id ++
    [0x00, 0x91, 0x9d, 0xd9, 0x20] ++ toUtf8 zeroHash.val ++ [0xa1, 0x75] ++ encodedOne ++
    encodedOne ++ 0xb4 :: toUtf8 "1970-01-01T00:00:00Z".toList ++
    0x01 :: 0x00 :: 0xb4 :: toUtf8 "1970-01-01T00:00:01Z".toList ++
    [0xa0, 0x00, 0xa0, 0xa0, 0xdc, .ofNat (bytes.length / 256), .ofNat (bytes.length % 256)] ++ bytes

/-- The routines on a single message. -/
def codecOf (msg : Message) (body : Octets) : Codec where
  toVec other := if other = msg then some body else none
  fromSlice bytes := if bytes = body then some msg else none

theorem codecOf_toVec (msg : Message) (body : Octets) :
    (codecOf msg body).toVec msg = some body := if_pos rfl

theorem codecOf_fromSlice (msg : Message) (body : Octets) :
    (codecOf msg body).fromSlice body = some msg := if_pos rfl

theorem codecOf_inverts (msg : Message) (body : Octets) : (codecOf msg body).Inverts := by
  intro other bytes h
  simp only [codecOf, ite_eq_iff] at h
  obtain ⟨rfl, hbody⟩ | ⟨-, hnone⟩ := h
  · obtain rfl := Option.some.inj hbody
    exact if_pos rfl
  · cases hnone

theorem codecOf_carries {msg : Message} {body : Octets} (h : msg.carried ≤ body.length) :
    (codecOf msg body).Carries := by
  intro other bytes hother
  simp only [codecOf, ite_eq_iff] at hother
  obtain ⟨rfl, hbody⟩ | ⟨-, hnone⟩ := hother
  · obtain rfl := Option.some.inj hbody
    exact h
  · cases hnone

theorem rowToRoute_rowWith (bytes : Octets) :
    rowToRoute (routeToRow (rowWith bytes)) = .ok (rowWith bytes) := by
  have hrow : rowToRoute (routeToRow rowOfU) = .ok rowOfU := by decide
  have hread := rowToRoute_narinfoBytes (routeToRow rowOfU) (some bytes)
  rw [hrow] at hread
  exact hread

/-- The row is announced. -/
theorem gossips_rowWith (bytes : Octets) :
    Gossips (codecOf (announcement zeroNode default [rowWith bytes]) (encodedWith bytes)) zeroNode
      (tableWith bytes) default default [rowWith bytes]
      (zeroNode.publicKey.val ++ (zeroNode.signature (encodedWith bytes)).val ++
        encodedWith bytes) where
  lists := by
    refine ⟨[routeToRow (rowWith bytes)], .refl _, List.pairwise_singleton _ _, ?_⟩
    show _ = [routeToRow (rowWith bytes)].mapM rowToRoute
    rw [List.mapM_cons, rowToRoute_rowWith]
    rfl
  nonempty := nofun
  sends := by
    unfold encodePacket Node.sign
    rw [codecOf_toVec]

theorem length_encodedWith (bytes : Octets) : (encodedWith bytes).length = 135 + bytes.length := by
  have hnode : (toUtf8 zeroNode.id).length = 16 := by decide
  have hhash : (toUtf8 zeroHash.val).length = 32 := by decide
  have hword : (toUtf8 "Announce".toList).length = 8 := by decide
  have hepoch : (toUtf8 "1970-01-01T00:00:00Z".toList).length = 20 := by decide
  have hlater : (toUtf8 "1970-01-01T00:00:01Z".toList).length = 20 := by decide
  simp only [encodedWith, encodedOne, List.length_append, List.length_cons, List.length_nil, hnode,
    hhash, hword, hepoch, hlater]

theorem carried_rowWith (bytes : Octets) :
    (announcement zeroNode default [rowWith bytes]).carried = 49 + bytes.length := by
  have hnode : (toUtf8 zeroNode.id).length = 16 := by decide
  have hhash : (toUtf8 zeroHash.val).length = 32 := by decide
  have hurl : (toUtf8 ['u']).length = 1 := by decide
  show (toUtf8 zeroNode.id).length + ((toUtf8 zeroHash.val).length + (toUtf8 ['u']).length + 0 + 0 + 0
    + bytes.length + 0) = _
  omega

/-- A narinfo with a derivation of a long name. -/
def longNarinfo : Octets :=
  toUtf8 "StorePath: /nix/store/x-a\nDeriver: ".toList ++ List.replicate 1400 0x78

end Ncro
