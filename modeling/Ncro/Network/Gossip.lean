import Mathlib.Logic.Function.Basic
import Ncro.Foundation.Machine
import Ncro.RouteStore

/-!
# Gossip in a mesh

The members of a mesh serve lookups, list the rows of their tables for each other and merge
what reaches them. Datagrams are lost, repeated, reordered and made up by others, who cannot
sign for a member. A row is passed on as it is, over any number of members: in every column
but the bytes of its narinfo it is a route that some member's lookup has committed, and the
bytes are its own or some member has fetched and verified them: `rows_travel_unchanged`.
-/

namespace Ncro

open Foundation Foundation.Process

/-! ## The mesh -/

/-- The key pair of a member, and the keys it listens to. -/
structure MeshMember where
  node : Node
  allowedKeys : List Octets

/-- What the members of a mesh do not change. -/
structure Mesh (ι : Type) where
  crypto : Crypto
  codec : Codec
  verify : Octets → Octets → Octets → Bool
  member : ι → MeshMember
  /-- The routes that others than the members may announce with a key of their own. -/
  stranger : RouteEntry → Prop

structure MeshState (ι : Type) where
  histories : ι → History
  /-- The routes that the gossip loops have listed for an announcement. -/
  listed : ι → List (List RouteEntry)
  /-- The messages that the members have signed. -/
  signed : ι → List Message

inductive MeshLabel (ι : Type)
  | work (i : ι) (label : HistoryLabel)
  | list (i : ι)
  | announce (i : ι)
  | deliver (i : ι)

namespace Mesh

variable {ι : Type}

/-- Whether a datagram may exist. The signature of a member is on a message of that member,
and other senders announce the routes of strangers. -/
def Genuine (mesh : Mesh ι) (s : MeshState ι) (datagram : Octets) : Prop :=
  ∀ pubkey sig body msg,
    decodePacket mesh.codec (readDatagram datagram) = .ok (pubkey, sig, body, msg) →
    mesh.verify pubkey body sig = true →
      (∃ i, (mesh.member i).node.publicKey.val = pubkey ∧
        ∃ sent ∈ s.signed i, mesh.codec.toVec sent = some body) ∨
      (∀ i, (mesh.member i).node.publicKey.val ≠ pubkey) ∧
        ∀ route ∈ msg.routes, mesh.stranger route

variable [DecidableEq ι]

/-- One step of a mesh. -/
inductive Step (mesh : Mesh ι) : MeshState ι → MeshLabel ι → MeshState ι → Prop
  /-- A member does anything but merging. -/
  | work {s : MeshState ι} {i : ι} {label : HistoryLabel} {history : History}
      (hmesh : History.WithoutMesh label)
      (h : History.Step mesh.crypto (s.histories i) label history) :
      Step mesh s (.work i label)
        { s with histories := Function.update s.histories i history }
  /-- The gossip loop lists the routes for its announcements. -/
  | list {s : MeshState ι} {i : ι} {routes : List RouteEntry}
      (h : (s.histories i).inst.routes.ListRecentRoutes (s.histories i).inst.wallClock
        maxGossipRoutes (.ok routes)) (hne : routes ≠ []) :
      Step mesh s (.list i) { s with listed := Function.update s.listed i (routes :: s.listed i) }
  /-- `announce` signs a message and sends it. -/
  | announce {s : MeshState ι} {i : ι} {routes : List RouteEntry} {now : Timestamp}
      {packet : Octets} (hlisted : routes ∈ s.listed i)
      (h : encodePacket mesh.codec (mesh.member i).node
        (announcement (mesh.member i).node now routes) = .ok packet) :
      Step mesh s (.announce i)
        { s with
          signed := Function.update s.signed i
            (announcement (mesh.member i).node now routes :: s.signed i) }
  /-- A listener starts to merge the routes of a datagram. -/
  | deliver {s : MeshState ι} {i : ι} {datagram : Octets} {routes : List RouteEntry}
      {history : History} (hgenuine : mesh.Genuine s datagram)
      (hreceive : receive mesh.codec mesh.verify (mesh.member i).allowedKeys datagram =
        .merges routes)
      (h : History.Step mesh.crypto (s.histories i) (.start (.merge routes)) history) :
      Step mesh s (.deliver i)
        { s with histories := Function.update s.histories i history }

/-- A mesh that has just been started: no announcements are under way. -/
structure Fresh (s : MeshState ι) : Prop where
  histories : ∀ i, (s.histories i).Fresh
  listed : ∀ i, s.listed i = []
  signed : ∀ i, s.signed i = []

section

variable {mesh : Mesh ι} {s s' : MeshState ι} {label : MeshLabel ι}

/-! ## What a step does -/

/-- What can be delivered: routes of a signed message, or of strangers. -/
def Delivers (mesh : Mesh ι) (s : MeshState ι) (routes : List RouteEntry) : Prop :=
  (∃ i, ∃ sent ∈ s.signed i, sent.routes = routes) ∨ ∀ route ∈ routes, mesh.stranger route

omit [DecidableEq ι] in
theorem delivers_of_receive (hcodec : mesh.codec.Inverts) {datagram : Octets}
    {allowedKeys : List Octets} {routes : List RouteEntry} (hgenuine : mesh.Genuine s datagram)
    (hreceive : receive mesh.codec mesh.verify allowedKeys datagram = .merges routes) :
    mesh.Delivers s routes := by
  rcases receive_eq_merges_iff.1 hreceive with
    ⟨pubkey, sig, body, msg, hpacket, hpubkey, hsig, -, hverified, hmsg, -, rfl, -⟩
  have hdecode := decodePacket_eq_ok_iff.2 ⟨hpacket, hpubkey, hsig, hmsg⟩
  rcases hgenuine pubkey sig body msg hdecode hverified with
    ⟨i, -, sent, hsent, hbody⟩ | ⟨-, hstranger⟩
  · have hsame := hcodec sent body hbody
    rw [hmsg] at hsame
    exact .inl ⟨i, sent, hsent, by rw [Option.some.inj hsame]⟩
  · exact .inr hstranger

/-- What a step does to a member: nothing, a step of its own, or the start of a merge. -/
theorem Step.history (hcodec : mesh.codec.Inverts) (h : mesh.Step s label s') (i : ι) :
    s'.histories i = s.histories i ∨
      ∃ own, History.Step mesh.crypto (s.histories i) own (s'.histories i) ∧
        (History.WithoutMesh own ∧ label = .work i own ∨
          ∃ routes, own = .start (.merge routes) ∧ mesh.Delivers s routes) := by
  cases h with
  | @work j own history hmesh h =>
      by_cases hj : i = j
      · subst hj
        refine .inr ⟨own, ?_, .inl ⟨hmesh, rfl⟩⟩
        simpa using h
      · exact .inl (by simp [hj])
  | list h hne => exact .inl rfl
  | announce hlisted h => exact .inl rfl
  | @deliver j datagram routes history hgenuine hreceive h =>
      by_cases hj : i = j
      · subst hj
        refine .inr ⟨_, ?_, .inr ⟨routes, rfl, delivers_of_receive hcodec hgenuine hreceive⟩⟩
        simpa using h
      · exact .inl (by simp [hj])

/-- What is listed was listed before, or is in the table. -/
theorem Step.listed (h : mesh.Step s label s') {i : ι} {routes : List RouteEntry}
    (hmem : routes ∈ s'.listed i) : routes ∈ s.listed i ∨
      (s.histories i).inst.routes.ListRecentRoutes (s.histories i).inst.wallClock maxGossipRoutes
        (.ok routes) := by
  cases h with
  | @list j listed h hne =>
      by_cases hj : i = j
      · subst hj
        rcases List.mem_cons.1 (by simpa using hmem) with rfl | hmem
        · exact .inr h
        · exact .inl hmem
      · exact .inl (by simpa [hj] using hmem)
  | _ => exact .inl hmem

/-- What is signed was signed before, or its routes were listed. -/
theorem Step.signed (h : mesh.Step s label s') {i : ι} {sent : Message}
    (hmem : sent ∈ s'.signed i) : sent ∈ s.signed i ∨ sent.routes ∈ s.listed i := by
  cases h with
  | @announce j routes now packet hlisted h =>
      by_cases hj : i = j
      · subst hj
        rcases List.mem_cons.1 (by simpa using hmem) with rfl | hmem
        · exact .inr hlisted
        · exact .inl hmem
      · exact .inl (by simpa [hj] using hmem)
  | _ => exact .inl hmem

/-- The logs only grow. -/
theorem Step.log_subset (hcodec : mesh.codec.Inverts) (h : mesh.Step s label s') (i : ι) :
    (s.histories i).log ⊆ (s'.histories i).log := by
  rcases h.history hcodec i with heq | ⟨own, hstep, -⟩
  · rw [heq]
    exact List.Subset.refl _
  · exact hstep.log_suffix.subset

/-- Each member goes through a history of its own. -/
theorem reached_history {meets : MeshState ι → MeshLabel ι → Prop} {s₀ : MeshState ι}
    (hcodec : mesh.codec.Inverts) (h : Reachable mesh.Step meets s₀ s) (i : ι) :
    History.Reached mesh.crypto (fun _ _ _ => True) (s₀.histories i) (s.histories i) := by
  induction h with
  | start => exact .refl
  | step _ _ hstep ih =>
      rcases hstep.history hcodec i with heq | ⟨own, hown, -⟩
      · rw [heq]
        exact ih
      · exact ih.step trivial hown

end

end Mesh

/-! ## Where rows come from -/

/-- A lookup has committed the route of a winner. -/
def LogEntry.CommitsRoute (crypto : Crypto) (entry : LogEntry) (route : RouteEntry) : Prop :=
  entry.event = ⟨.dbUpsertRoute route, .ok ()⟩ ∧ ∃ storeHash candidates hop,
    entry.kind = .resolve storeHash candidates hop ∧
      CommitWrite crypto entry.registry storeHash.val entry.past route

/-- A lookup has stored a route again with the bytes that it has fetched and verified. -/
def LogEntry.RefreshesRoute (crypto : Crypto) (entry : LogEntry) (route : RouteEntry) : Prop :=
  entry.event = ⟨.dbUpsertRoute route, .ok ()⟩ ∧ ∃ storeHash candidates hop,
    entry.kind = .resolve storeHash candidates hop ∧
      RefreshWrite crypto entry.registry storeHash.val hop entry.past route

namespace Mesh

variable {ι : Type} (mesh : Mesh ι) (s₀ s : MeshState ι)

/-- A row that did not come by gossip, or came from a stranger. -/
def Origin (row : RouteRow) : Prop :=
  (∃ i, row ∈ (s₀.histories i).inst.routes.rows) ∨
  ∃ route, routeToRow route = row ∧ (mesh.stranger route ∨
    ∃ i, ∃ entry ∈ (s.histories i).log, entry.CommitsRoute mesh.crypto route)

/-- A row is its origin, up to the bytes of its narinfo, and these are the origin's or were
fetched for the row by a lookup of some member. -/
def Accounted (row : RouteRow) : Prop :=
  ∃ origin, mesh.Origin s₀ s origin ∧ row = { origin with narinfoBytes := row.narinfoBytes } ∧
    (row.narinfoBytes = origin.narinfoBytes ∨
      ∃ i, ∃ entry ∈ (s.histories i).log, ∃ route, entry.RefreshesRoute mesh.crypto route ∧
        routeToRow route = row)

section

variable {mesh : Mesh ι} {s₀ s s' : MeshState ι} {row : RouteRow} {route : RouteEntry}

theorem Accounted.mono (h : mesh.Accounted s₀ s row)
    (hsub : ∀ i, (s.histories i).log ⊆ (s'.histories i).log) : mesh.Accounted s₀ s' row := by
  rcases h with ⟨origin, horigin, hrow, hbytes⟩
  refine ⟨origin, ?_, hrow, ?_⟩
  · rcases horigin with hstart | ⟨route, hroute, hstranger | ⟨i, entry, hentry, hcommits⟩⟩
    · exact .inl hstart
    · exact .inr ⟨route, hroute, .inl hstranger⟩
    · exact .inr ⟨route, hroute, .inr ⟨i, entry, hsub i hentry, hcommits⟩⟩
  · rcases hbytes with hsame | ⟨i, entry, hentry, hrefreshed⟩
    · exact .inl hsame
    · exact .inr ⟨i, entry, hsub i hentry, hrefreshed⟩

theorem Origin.accounted (h : mesh.Origin s₀ s row) : mesh.Accounted s₀ s row :=
  ⟨row, h, rfl, .inl rfl⟩

/-- A lookup that stores a route again changes the bytes of its row. -/
theorem Accounted.refresh {i : ι} {entry : LogEntry} {bytes : Option Octets}
    (h : mesh.Accounted s₀ s (routeToRow route)) (hentry : entry ∈ (s.histories i).log)
    (hrefreshes : entry.RefreshesRoute mesh.crypto { route with narinfoBytes := bytes }) :
    mesh.Accounted s₀ s (routeToRow { route with narinfoBytes := bytes }) := by
  rcases h with ⟨origin, horigin, hrow, -⟩
  refine ⟨origin, horigin, ?_, .inr ⟨i, entry, hentry, _, hrefreshes, rfl⟩⟩
  have hcolumns : routeToRow { route with narinfoBytes := bytes } =
      { routeToRow route with narinfoBytes := bytes } := rfl
  rw [hcolumns, hrow]

/-- The sizes fit into their column. -/
theorem Accounted.narSize_lt (h : mesh.Accounted s₀ s row)
    (hsize : ∀ i, ∀ row ∈ (s₀.histories i).inst.routes.rows, row.narSize < 2 ^ 63) :
    row.narSize < 2 ^ 63 := by
  rcases h with ⟨origin, horigin, hrow, -⟩
  rw [hrow]
  rcases horigin with ⟨i, hstart⟩ | ⟨route, rfl, -⟩
  · exact hsize i origin hstart
  · show min (route.narSize : ℤ) (2 ^ 63 - 1) < 2 ^ 63
    omega

/-! ## The invariant -/

/-- All rows are accounted for: those of the tables, those that tasks have read or are to merge,
and those that are announced. -/
structure Traced (mesh : Mesh ι) (s₀ s : MeshState ι) : Prop where
  rows : ∀ i, ∀ row ∈ (s.histories i).inst.routes.rows, mesh.Accounted s₀ s row
  read : ∀ i, ∀ task ∈ (s.histories i).tasks, ∀ path route,
    (⟨.dbGetRoute path, .ok (some route)⟩ : HandlerEvent) ∈ task.past →
      mesh.Accounted s₀ s (routeToRow route)
  merging : ∀ i, ∀ task ∈ (s.histories i).tasks, ∀ incoming, task.kind = .merge incoming →
    ∀ route ∈ incoming, mesh.Accounted s₀ s (routeToRow route)
  listed : ∀ i, ∀ routes ∈ s.listed i, ∀ route ∈ routes, mesh.Accounted s₀ s (routeToRow route)
  signed : ∀ i, ∀ sent ∈ s.signed i, ∀ route ∈ sent.routes,
    mesh.Accounted s₀ s (routeToRow route)

theorem Fresh.traced (h : Fresh s₀) : mesh.Traced s₀ s₀ where
  rows i row hrow := Origin.accounted (.inl ⟨i, hrow⟩)
  read i task htask := by
    rw [(h.histories i).tasks] at htask
    cases htask
  merging i task htask := by
    rw [(h.histories i).tasks] at htask
    cases htask
  listed i routes hroutes := by
    rw [h.listed i] at hroutes
    cases hroutes
  signed i sent hsent := by
    rw [h.signed i] at hsent
    cases hsent

/-- Routes that can be delivered are accounted for. -/
theorem Traced.delivers (h : mesh.Traced s₀ s) {routes : List RouteEntry}
    (hdelivers : mesh.Delivers s routes) (hroute : route ∈ routes) :
    mesh.Accounted s₀ s (routeToRow route) := by
  rcases hdelivers with ⟨i, sent, hsent, rfl⟩ | hstranger
  · exact h.signed i sent hsent route hroute
  · exact Origin.accounted (.inr ⟨route, rfl, .inl (hstranger route hroute)⟩)

/-- A route that is read from a row is written as this row again. -/
theorem Traced.readRow (h : mesh.Traced s₀ s)
    (hsize : ∀ i, ∀ row ∈ (s₀.histories i).inst.routes.rows, row.narSize < 2 ^ 63) {i : ι}
    (hrow : row ∈ (s.histories i).inst.routes.rows) (hread : rowToRoute row = .ok route) :
    mesh.Accounted s₀ s (routeToRow route) := by
  have haccounted := h.rows i row hrow
  rw [routeToRow_of_rowToRoute hread (haccounted.narSize_lt hsize)]
  exact haccounted

theorem Traced.getRoute (h : mesh.Traced s₀ s)
    (hsize : ∀ i, ∀ row ∈ (s₀.histories i).inst.routes.rows, row.narSize < 2 ^ 63) {i : ι}
    {path : Str} (hget : (s.histories i).inst.routes.getRoute path = .ok (some route)) :
    mesh.Accounted s₀ s (routeToRow route) := by
  unfold RouteTable.getRoute at hget
  split at hget
  · cases hget
  · next row hrow =>
    cases hread : rowToRoute row with
    | error err =>
        rw [hread] at hget
        cases hget
    | ok read =>
        rw [hread] at hget
        cases hget
        exact h.readRow hsize (Table.mem_of_get hrow) hread

variable [DecidableEq ι] {meets : MeshState ι → MeshLabel ι → Prop} {label : MeshLabel ι}

/-- What a member writes is accounted for, once the write is in its log. -/
theorem Traced.written (hfresh : Fresh s₀) (hcodec : mesh.codec.Inverts)
    (hreached : Reachable mesh.Step meets s₀ s) (h : mesh.Traced s₀ s)
    (hsub : ∀ i, (s.histories i).log ⊆ (s'.histories i).log) {i : ι} {number : ℕ} {kind : TaskKind}
    {past : List HandlerEvent}
    (hstep : History.Step mesh.crypto (s.histories i)
      (.perform number kind past ⟨.dbUpsertRoute route, .ok ()⟩) (s'.histories i)) :
    mesh.Accounted s₀ s' (routeToRow route) := by
  have hhistory := reached_history hcodec hreached i
  rcases hstep.mem_tasks with ⟨process, htask⟩
  have hop := (hhistory.tasksFollow (hfresh.histories i)).taskOp hstep
  have hlogged : (s.histories i).entry number kind past ⟨.dbUpsertRoute route, .ok ()⟩ ∈
      (s'.histories i).log := by
    rw [hstep.perform_effect.2.2.2]
    exact List.mem_cons_self
  cases kind with
  | resolve storeHash candidates hop' =>
      rcases hop with hcommit | hrefresh
      · apply Origin.accounted
        exact .inr ⟨route, rfl, .inr ⟨i, _, hlogged, rfl, storeHash, candidates, hop', rfl, hcommit⟩⟩
      · have hwrite := hrefresh
        rcases hrefresh with ⟨read, bytes, parsed, health, now, earlier, hpast, -, -, rfl⟩
        have hread := h.read i _ htask storeHash.val read (by rw [hpast]; simp)
        exact (hread.mono hsub).refresh hlogged ⟨rfl, storeHash, candidates, hop', rfl, hwrite⟩
  | fallback storeHash upstream hop' => exact hop.elim
  | merge incoming =>
      have hmem := hhistory.mem_incoming (hfresh.histories i) hstep
      exact (h.merging i _ htask incoming rfl route hmem).mono hsub

/-- One step keeps all rows accounted for. -/
theorem Traced.step (hfresh : Fresh s₀) (hcodec : mesh.codec.Inverts)
    (hsize : ∀ i, ∀ row ∈ (s₀.histories i).inst.routes.rows, row.narSize < 2 ^ 63)
    (hreached : Reachable mesh.Step meets s₀ s) (h : mesh.Traced s₀ s)
    (hstep : mesh.Step s label s') : mesh.Traced s₀ s' := by
  have hsub := hstep.log_subset hcodec
  refine ⟨fun i => ?_, fun i => ?_, fun i => ?_, fun i routes hroutes route hroute => ?_,
    fun i sent hsent route hroute => ?_⟩
  · rcases hstep.history hcodec i with heq | ⟨own, hown, -⟩
    · rw [heq]
      exact fun row hrow => (h.rows i row hrow).mono hsub
    · intro row hrow
      rcases hown.routes with ⟨number, kind, past, route, rfl, hroutes⟩ | hrows
      · rw [hroutes] at hrow
        rcases Table.mem_of_mem_upsert hrow with rfl | hrow
        · exact h.written hfresh hcodec hreached hsub hown
        · exact (h.rows i row hrow).mono hsub
      · exact (h.rows i row (hrows.subset hrow)).mono hsub
  · rcases hstep.history hcodec i with heq | ⟨own, hown, -⟩
    · rw [heq]
      exact fun task htask path route hmem => (h.read i task htask path route hmem).mono hsub
    · refine hown.tasks (T := fun _ task => ∀ path route,
          (⟨.dbGetRoute path, .ok (some route)⟩ : HandlerEvent) ∈ task.past →
            mesh.Accounted s₀ s' (routeToRow route))
        (fun task htask path route hmem => (h.read i task htask path route hmem).mono hsub)
        (fun kind _ path route hmem => by cases hmem)
        fun number kind past op next reply heq hself path route hmem => ?_
      rcases List.mem_cons.1 hmem with hhead | hmem
      · subst heq
        cases hhead
        rcases hown.perform_effect.1.1 with herror | hget
        · cases herror
        · exact (h.getRoute hsize hget.symm).mono hsub
      · exact hself path route hmem
  · rcases hstep.history hcodec i with heq | ⟨own, hown, hkind⟩
    · rw [heq]
      exact fun task htask incoming hmerge route hroute =>
        (h.merging i task htask incoming hmerge route hroute).mono hsub
    · refine hown.tasks (T := fun _ task => ∀ incoming, task.kind = .merge incoming →
          ∀ route ∈ incoming, mesh.Accounted s₀ s' (routeToRow route))
        (fun task htask incoming hmerge route hroute =>
          (h.merging i task htask incoming hmerge route hroute).mono hsub)
        (fun kind heq incoming hmerge route hroute => ?_)
        fun number kind past op next reply _ hself => hself
      obtain rfl : kind = .merge incoming := hmerge
      rcases hkind with ⟨hmesh, -⟩ | ⟨routes, rfl, hdelivers⟩
      · subst heq
        exact hmesh.elim
      · cases heq
        exact (h.delivers hdelivers hroute).mono hsub
  · rcases hstep.listed hroutes with hold | ⟨sorted, hperm, -, hlisted⟩
    · exact (h.listed i routes hold route hroute).mono hsub
    · rcases (mem_of_mapM_eq_ok hlisted.symm).1 hroute with ⟨row, hrow, hread⟩
      have hmem := (List.mem_filter.1 (hperm.subset (List.mem_of_mem_take hrow))).1
      exact (h.readRow hsize hmem hread).mono hsub
  · rcases hstep.signed hsent with hold | hlisted
    · exact (h.signed i sent hold route hroute).mono hsub
    · exact (h.listed i sent.routes hlisted route hroute).mono hsub

theorem traced_of_reachable (hfresh : Fresh s₀) (hcodec : mesh.codec.Inverts)
    (hsize : ∀ i, ∀ row ∈ (s₀.histories i).inst.routes.rows, row.narSize < 2 ^ 63)
    (h : Reachable mesh.Step meets s₀ s) : mesh.Traced s₀ s := by
  induction h with
  | start => exact hfresh.traced
  | step h _ hstep ih => exact ih.step hfresh hcodec hsize h hstep

/-- What a member does by itself, it does in the mesh. -/
theorem reachable_work {i : ι} {history : History}
    {allowed : History → HistoryLabel → History → Prop} (h : Reachable mesh.Step meets s₀ s)
    (hwork : History.Reached mesh.crypto allowed (s.histories i) history)
    (hallowed : ∀ t own t', allowed t own t' →
      History.WithoutMesh own ∧ ∀ s, meets s (.work i own)) :
    Reachable mesh.Step meets s₀
      { s with histories := Function.update s.histories i history } := by
  induction hwork with
  | refl => rwa [Function.update_eq_self]
  | @step before after own _ hown hstep ih =>
      let t : MeshState ι := { s with histories := Function.update s.histories i before }
      have hself : History.Step mesh.crypto (t.histories i) own after := by
        show History.Step mesh.crypto (Function.update s.histories i before i) own after
        rwa [Function.update_self]
      rcases hallowed _ _ _ hown with ⟨hmesh, hmeets⟩
      have hnext : mesh.Step t (.work i own)
          { t with histories := Function.update t.histories i after } := .work hmesh hself
      have hreached := ih.step (hmeets t) hnext
      rwa [show Function.update t.histories i after = Function.update s.histories i after from
        Function.update_idem _ _ _] at hreached

end

end Mesh

/-! ## Conclusion -/

namespace Mesh

/-- A node whose key is all ones. -/
def oneNode : Node where
  publicKey := ⟨List.replicate 32 1, List.length_replicate⟩
  signature := fun _ => ⟨List.replicate 64 1, List.length_replicate⟩

section

variable (crypto : Crypto) (reg : Registry) (bytes : Octets)

/-- The second member listens to the first one, which announces a row with these bytes. -/
def twoMembers : Mesh Bool where
  crypto := crypto
  codec := codecOf (announcement zeroNode default [rowWith bytes]) (encodedWith bytes)
  verify := verifiesZero
  member second := if second then ⟨oneNode, [zeroNode.publicKey.val]⟩ else ⟨zeroNode, []⟩
  stranger _ := False

/-- The first member has the row, the second one has none. -/
def oneRow : MeshState Bool where
  histories second :=
    ⟨reg, .start reg (if second then ∅ else tableWith bytes) ∅ ∅ 100000 0 0 1 default 0, [], 0, 0,
      []⟩
  listed _ := []
  signed _ := []

/-- The second member after it has received the announcement. -/
def receivedRow : History :=
  ⟨reg, .start reg ∅ ∅ ∅ 100000 0 0 1 default 0,
    [⟨0, .merge [rowWith bytes], [], (TaskKind.merge [rowWith bytes]).process crypto reg⟩], 1, 0, []⟩

/-- The announcement has reached the second member. -/
def delivered : MeshState Bool where
  histories := Function.update (oneRow reg bytes).histories true (receivedRow crypto reg bytes)
  listed := Function.update (oneRow reg bytes).listed false [[rowWith bytes]]
  signed := Function.update (oneRow reg bytes).signed false
    [announcement zeroNode default [rowWith bytes]]

theorem oneRow_fresh : Fresh (oneRow reg bytes) where
  histories _ := ⟨⟨100000, 0, 0, 1, rfl⟩, rfl, rfl⟩
  listed _ := rfl
  signed _ := rfl

theorem narSize_oneRow : ∀ second, ∀ row ∈ ((oneRow reg bytes).histories second).inst.routes.rows,
    row.narSize < 2 ^ 63 := by
  intro second row hrow
  cases second with
  | false =>
      obtain rfl := List.mem_singleton.1 hrow
      show min (0 : ℤ) (2 ^ 63 - 1) < 2 ^ 63
      decide
  | true => cases hrow

/-- A short announcement reaches the second member. -/
theorem reachable_delivered (hshort : bytes.length ≤ 1000)
    {meets : MeshState Bool → MeshLabel Bool → Prop}
    (hmeets : ∀ s label, (∀ i own, label ≠ .work i own) → meets s label) :
    Reachable (twoMembers crypto bytes).Step meets (oneRow reg bytes)
      (delivered crypto reg bytes) := by
  let packet := zeroNode.publicKey.val ++ (zeroNode.signature (encodedWith bytes)).val ++
    encodedWith bytes
  have hgossips : Gossips (twoMembers crypto bytes).codec zeroNode (tableWith bytes) default default
      [rowWith bytes] packet := gossips_rowWith bytes
  -- the first member lists its row and signs the announcement
  let listed : MeshState Bool :=
    { oneRow reg bytes with
      listed := Function.update (oneRow reg bytes).listed false [[rowWith bytes]] }
  have hlisted : Reachable (twoMembers crypto bytes).Step meets (oneRow reg bytes) listed :=
    .step .start (hmeets _ _ (by simp)) (.list (i := false) hgossips.lists hgossips.nonempty)
  let signed : MeshState Bool :=
    { listed with
      signed := Function.update listed.signed false
        [announcement zeroNode default [rowWith bytes]] }
  have hsigned : Reachable (twoMembers crypto bytes).Step meets (oneRow reg bytes) signed :=
    hlisted.step (hmeets _ _ (by simp))
      (.announce (i := false) (List.mem_singleton_self [rowWith bytes]) hgossips.sends)
  -- the packet is read whole
  have hread : readDatagram packet = packet := by
    have hbody := length_encodedWith bytes
    apply readDatagram_of_length_le
    rw [show packet.length = _ from length_encodePacket, hbody, headerSize, maxPacketSize]
    omega
  have hdecode : decodePacket (twoMembers crypto bytes).codec packet =
      .ok (zeroNode.publicKey.val, (zeroNode.signature (encodedWith bytes)).val, encodedWith bytes,
        announcement zeroNode default [rowWith bytes]) := decodePacket_append (codecOf_fromSlice _ _)
  have hreceive : receive (twoMembers crypto bytes).codec (twoMembers crypto bytes).verify
      ((twoMembers crypto bytes).member true).allowedKeys packet = .merges [rowWith bytes] := by
    unfold receive
    rw [hread, hdecode]
    rfl
  have hgenuine : (twoMembers crypto bytes).Genuine signed packet := by
    intro pubkey sig body msg hpacket _
    rw [hread, hdecode] at hpacket
    cases hpacket
    exact .inl ⟨false, rfl, announcement zeroNode default [rowWith bytes],
      List.mem_singleton_self _, codecOf_toVec _ _⟩
  exact hsigned.step (hmeets _ _ (by simp)) (.deliver (i := true) hgenuine hreceive (.start _ _))

/-- The second member merges the row. -/
theorem exists_replay_merge_rowWith :
    ∃ events, Replay (Instance.exec reg) ((TaskKind.merge [rowWith bytes]).process crypto reg)
      (receivedRow crypto reg bytes).inst events .merged
      ((receivedRow crypto reg bytes).inst.stored (rowWith bytes)) := by
  have husable : usableRoute default (rowWith bytes) = true := by
    change usableRoute default rowOfU = true
    decide
  have hcount : (receivedRow crypto reg bytes).inst.writeCount % 100 ≠ 99 := by
    show (0 : ℕ) % 100 ≠ 99
    decide
  exact ⟨_, (Instance.replay_mergeRoutes husable rfl hcount).bind_ret rfl⟩

/-- The row is in the table of the second member. -/
theorem exists_history_merged {allowed : History → HistoryLabel → History → Prop}
    (hallowed : ∀ t number kind past event t', allowed t (.perform number kind past event) t') :
    ∃ task newer, History.Reached crypto allowed (receivedRow crypto reg bytes)
      ⟨reg, (receivedRow crypto reg bytes).inst.stored (rowWith bytes), [task], 1, 0, newer⟩ := by
  rcases exists_replay_merge_rowWith crypto reg bytes with ⟨events, hmerge⟩
  have hstart : History.Reached crypto allowed (receivedRow crypto reg bytes)
      (receivedRow crypto reg bytes) := .refl
  rcases hstart.replay hmerge fun _ _ _ _ _ _ _ _ => hallowed _ _ _ _ _ _ with
    ⟨newer, hmerged, -⟩
  exact ⟨_, _, hmerged⟩

/-- The second member merges the row and then answers a lookup from it. -/
theorem exists_reachable_answer (hshort : bytes.length ≤ 1000)
    (hpasses : cachedPasses reg ['u'] (some bytes) = true)
    {meets : MeshState Bool → MeshLabel Bool → Prop}
    (hmeets : ∀ s label, (∀ i reg', label ≠ .work i (.restart reg')) → meets s label) :
    ∃ s task, Reachable (twoMembers crypto bytes).Step meets (oneRow reg bytes) s ∧
      task ∈ (s.histories true).tasks ∧ (s.histories true).registry = reg ∧
      task.kind = .resolve zeroHash [] .client ∧
      task.process = .ret (.lookup (.ok
        (Instance.rowAnswer reg zeroHash.val (rowWith bytes) bytes))) := by
  have hdelivered : Reachable (twoMembers crypto bytes).Step meets (oneRow reg bytes)
      (delivered crypto reg bytes) :=
    reachable_delivered _ _ _ hshort fun s label hlabel =>
      hmeets s label fun i reg' => hlabel i (.restart reg')
  let allowed : History → HistoryLabel → History → Prop := fun _ own _ =>
    History.WithoutMesh own ∧ ∀ reg', own ≠ .restart reg'
  have hallowed : ∀ t number kind past event t', allowed t (.perform number kind past event) t' :=
    fun _ _ _ _ _ _ => ⟨trivial, by simp⟩
  rcases exists_history_merged crypto reg bytes hallowed with ⟨merge, newer, hmerged⟩
  let inst := (receivedRow crypto reg bytes).inst.stored (rowWith bytes)
  have hrow : inst.routes.getRoute zeroHash.val = .ok (some (rowWith bytes)) := by
    have hget : inst.routes.get zeroHash.val = some (routeToRow (rowWith bytes)) :=
      Table.get_upsert_self _ _
    rw [RouteTable.getRoute, hget]
    simp only [rowToRoute_rowWith]
    rfl
  have hvalid : (rowWith bytes).isValid inst.wallClock = true := by
    change rowOfU.isValid default = true
    decide
  have hresolve : Replay (Instance.exec reg)
      ((TaskKind.resolve zeroHash [] .client).process crypto reg) inst _ _ _ :=
    (Instance.replay_resolve_of_row rfl rfl rfl hrow hvalid rfl rfl hpasses).bind_ret rfl
  rcases hmerged.task hresolve (fun _ => ⟨trivial, by simp⟩)
    (fun _ _ _ _ _ _ _ _ => ⟨trivial, by simp⟩) with ⟨answers, hanswered, -⟩
  have hreached := reachable_work (i := true) hdelivered hanswered fun _ own _ hown => by
    refine ⟨hown.1, fun s => hmeets s _ fun i reg' heq => ?_⟩
    cases heq
    exact hown.2 reg' rfl
  exact ⟨_, _, hreached, List.mem_cons_self, rfl, rfl, rfl⟩

end

end Mesh

end Ncro
