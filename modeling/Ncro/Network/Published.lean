import Ncro.Network.Gossip
import Ncro.Router.Sources

/-!
# Answers were published

A mesh keeps narinfos in LRU caches, in rows and in announcements, and writes them back when
they are fetched again. Whatever way an answer has come, its bytes are those that the upstream
it names has once replied with, to a request of some member for the narinfo of the same
hash, with no more than the URL rewritten: `mesh_answers_published`. No signatures are needed
for it, but it says nothing about the rows that were there at the start and about strangers.
-/

namespace Ncro

open Foundation Foundation.Process

/-- The hash that a lookup is about. -/
def TaskKind.storeHash : TaskKind → Option StoreHash
  | .resolve storeHash _ _ | .fallback storeHash _ _ => some storeHash
  | .merge _ => none

namespace Mesh

variable {ι : Type} (mesh : Mesh ι) (s₀ s : MeshState ι)

/-- The bytes are the upstream's narinfo for the hash: it has replied with them to some member,
or they did not come by a request, but with a row of the start or of a stranger. -/
def Published (storeHash upstream : Str) (body : Octets) : Prop :=
  (∃ i, FetchedInLog (s.histories i).log storeHash upstream body) ∨
  (∃ i, ∃ row ∈ (s₀.histories i).inst.routes.rows, row.storePath = storeHash ∧
    row.upstreamUrl = upstream ∧ row.narinfoBytes = some body) ∨
  ∃ route, mesh.stranger route ∧ route.storePath = storeHash ∧ route.upstreamUrl = upstream ∧
    route.narinfoBytes = some body

/-- The bytes of an answer are published ones, as `reg` rewrites them. -/
def AnswerPublished (reg : Registry) (storeHash : Str) (result : ResolveResult) : Prop :=
  ∃ body, result.narinfoBytes = reg.responseNarinfoBytes result.url storeHash (some body) ∧
    mesh.Published s₀ s storeHash result.url body

/-- What the members have in their LRU, and what their tasks have found there. -/
structure AnswersPublished : Prop where
  lru : ∀ i, (s.histories i).inst.lru.Forall
    (mesh.AnswerPublished s₀ s (s.histories i).registry)
  found : ∀ i, ∀ task ∈ (s.histories i).tasks, ∀ storeHash value,
    (⟨.lruGet storeHash, some value⟩ : HandlerEvent) ∈ task.past →
      mesh.AnswerPublished s₀ s (s.histories i).registry storeHash value

variable {mesh} {s₀ s} {s' : MeshState ι} {storeHash upstream : Str} {body : Octets}

theorem Published.mono (h : mesh.Published s₀ s storeHash upstream body)
    (hsub : ∀ i, (s.histories i).log ⊆ (s'.histories i).log) :
    mesh.Published s₀ s' storeHash upstream body := by
  rcases h with ⟨i, entry, hentry, hreplied⟩ | hother
  · exact .inl ⟨i, entry, hsub i hentry, hreplied⟩
  · exact .inr hother

theorem AnswerPublished.mono {reg : Registry} {result : ResolveResult}
    (h : mesh.AnswerPublished s₀ s reg storeHash result)
    (hsub : ∀ i, (s.histories i).log ⊆ (s'.histories i).log) :
    mesh.AnswerPublished s₀ s' reg storeHash result := by
  rcases h with ⟨body, hbytes, hpublished⟩
  exact ⟨body, hbytes, hpublished.mono hsub⟩

theorem Fresh.answersPublished (h : Fresh s₀) : mesh.AnswersPublished s₀ s₀ := by
  constructor
  · intro i
    rcases (h.histories i).inst with
      ⟨maxEntries, inMemoryNegativeTtl, cooldownWindow, maxConcurrentRaces, hinst⟩
    rw [hinst]
    exact TtlCache.forall_new _ _
  · intro i task htask
    rw [(h.histories i).tasks] at htask
    cases htask

variable [DecidableEq ι] {meets : MeshState ι → MeshLabel ι → Prop} {label : MeshLabel ι}

/-- The bytes of a row that is accounted for are published. -/
theorem Accounted.published (hfresh : Fresh s₀) (hcodec : mesh.codec.Inverts)
    (hreached : Reachable mesh.Step meets s₀ s) {row : RouteRow} (h : mesh.Accounted s₀ s row)
    (hbody : row.narinfoBytes = some body) :
    mesh.Published s₀ s row.storePath row.upstreamUrl body := by
  -- a route that some lookup has written
  have hwritten : ∀ i, ∀ entry ∈ (s.histories i).log, ∀ route : RouteEntry, ∀ storeHash candidates hop,
      entry.event = ⟨.dbUpsertRoute route, .ok ()⟩ →
      entry.kind = .resolve storeHash candidates hop → route.narinfoBytes = some body →
        mesh.Published s₀ s route.storePath route.upstreamUrl body := by
    intro i entry hentry route storeHash candidates hop hevent hkind hbytes
    have hhistory := reached_history hcodec hreached i
    rcases hhistory.fetchedInLog (hfresh.histories i) hentry hevent hkind with
      ⟨bytes, hroute, hfetched⟩
    rw [hroute] at hbytes
    cases hbytes
    exact .inl ⟨i, hfetched⟩
  rcases h with ⟨origin, horigin, hrow, hsame | ⟨i, entry, hentry, route, hrefreshes, rfl⟩⟩
  · rw [hsame] at hbody
    rw [hrow]
    rcases horigin with ⟨i, hstart⟩ | ⟨route, rfl, hstranger | ⟨i, entry, hentry, hcommits⟩⟩
    · exact .inr (.inl ⟨i, origin, hstart, rfl, rfl, hbody⟩)
    · exact .inr (.inr ⟨route, hstranger, rfl, rfl, hbody⟩)
    · rcases hcommits with ⟨hevent, storeHash, candidates, hop, hkind, -⟩
      exact hwritten i entry hentry route storeHash candidates hop hevent hkind hbody
  · rcases hrefreshes with ⟨hevent, storeHash, candidates, hop, hkind, -⟩
    exact hwritten i entry hentry route storeHash candidates hop hevent hkind hbody

/-- What a task has got is published. -/
theorem published_of_obtained (hfresh : Fresh s₀) (hcodec : mesh.codec.Inverts)
    (hreached : Reachable mesh.Step meets s₀ s) (htraced : mesh.Traced s₀ s) {i : ι}
    {task : LoggedTask} (htask : task ∈ (s.histories i).tasks)
    (h : Obtained storeHash upstream body task.past) :
    mesh.Published s₀ s storeHash upstream body := by
  have hhistory := reached_history hcodec hreached i
  have hpast := (hhistory.accounted (hfresh.histories i)).past_eq task htask
  rcases h with ⟨event, hevent, hreplied⟩ | ⟨row, hrow, rfl, hbody⟩
  · rw [hpast] at hevent
    rcases History.exists_entry_of_mem_eventsOf hevent with ⟨entry, hentry, rfl⟩
    exact .inl ⟨i, entry, hentry, hreplied⟩
  · have haccounted := htraced.read i task htask storeHash row hrow
    rw [hpast] at hrow
    rcases History.exists_entry_of_mem_eventsOf hrow with ⟨entry, hentry, hread⟩
    have hpath := (hhistory.sourced (hfresh.histories i)).read entry hentry storeHash row hread
    have hpublished := haccounted.published hfresh hcodec hreached hbody
    rw [← hpath]
    exact hpublished

theorem answerPublished_of_obtained (hfresh : Fresh s₀) (hcodec : mesh.codec.Inverts)
    (hreached : Reachable mesh.Step meets s₀ s) (htraced : mesh.Traced s₀ s) {i : ι}
    {task : LoggedTask} (htask : task ∈ (s.histories i).tasks) {reg : Registry}
    {result : ResolveResult} (h : AnswerObtained reg storeHash task.past result) :
    mesh.AnswerPublished s₀ s reg storeHash result := by
  rcases h with ⟨body, hbytes, hobtained⟩
  exact ⟨body, hbytes, published_of_obtained hfresh hcodec hreached htraced htask hobtained⟩

/-- What a task puts into the LRU is published. -/
theorem answerPublished_of_insert (hfresh : Fresh s₀) (hcodec : mesh.codec.Inverts)
    (hreached : Reachable mesh.Step meets s₀ s) (htraced : mesh.Traced s₀ s) {i : ι} {number : ℕ}
    {kind : TaskKind} {past : List HandlerEvent} {key : Str} {value : ResolveResult}
    {history : History}
    (hstep : History.Step mesh.crypto (s.histories i)
      (.perform number kind past ⟨.lruInsert key value, ()⟩) history) :
    mesh.AnswerPublished s₀ s (s.histories i).registry key value := by
  have hsourced := (reached_history hcodec hreached i).sourced (hfresh.histories i)
  have hop := hsourced.taskSourceOp hstep
  rcases hstep.mem_tasks with ⟨process, htask⟩
  cases kind with
  | resolve storeHash candidates hop' =>
      rcases hop with ⟨rfl, hobtained⟩
      exact answerPublished_of_obtained hfresh hcodec hreached htraced htask hobtained
  | fallback storeHash upstream hop' =>
      rcases hop with ⟨rfl, hobtained⟩
      exact answerPublished_of_obtained hfresh hcodec hreached htraced htask hobtained
  | merge incoming => exact hop.elim

/-- One step keeps the answers published. -/
theorem AnswersPublished.step (hfresh : Fresh s₀) (hcodec : mesh.codec.Inverts)
    (hreached : Reachable mesh.Step meets s₀ s) (htraced : mesh.Traced s₀ s)
    (h : mesh.AnswersPublished s₀ s) (hstep : mesh.Step s label s') :
    mesh.AnswersPublished s₀ s' := by
  have hsub := hstep.log_subset hcodec
  constructor
  · intro i
    rcases hstep.history hcodec i with heq | ⟨own, hown, -⟩
    · rw [heq]
      exact fun entry hentry => (h.lru i entry hentry).mono hsub
    · rcases hown.registry_eq_or_lru_empty with hreg | hempty
      · rw [hreg]
        rcases hown.lru with ⟨number, kind, past, key, value, rfl, hlru⟩ | hrows
        · rw [hlru]
          apply TtlCache.Forall.insert
          · exact fun entry hentry => (h.lru i entry hentry).mono hsub
          · exact (answerPublished_of_insert hfresh hcodec hreached htraced hown).mono hsub
        · exact fun entry hentry => (h.lru i entry (hrows hentry)).mono hsub
      · intro entry hentry
        rw [hempty] at hentry
        cases hentry
  · intro i
    rcases hstep.history hcodec i with heq | ⟨own, hown, -⟩
    · rw [heq]
      exact fun task htask storeHash value hmem => (h.found i task htask storeHash value hmem).mono hsub
    · apply hown.tasks (T := fun reg task => ∀ storeHash value,
          (⟨.lruGet storeHash, some value⟩ : HandlerEvent) ∈ task.past →
            mesh.AnswerPublished s₀ s' reg storeHash value)
      · exact fun task htask storeHash value hmem =>
          (h.found i task htask storeHash value hmem).mono hsub
      · intro kind _ storeHash value hmem
        cases hmem
      · intro number kind past op next reply heq hself storeHash value hmem
        rcases List.mem_cons.1 hmem with hhead | hmem
        · subst heq
          cases hhead
          rcases Prod.mk.inj hown.perform_effect.1 with ⟨hget, -⟩
          exact (((h.lru i).get _ _).2 value hget.symm).mono hsub
        · exact hself storeHash value hmem

theorem answersPublished_of_reachable (hfresh : Fresh s₀) (hcodec : mesh.codec.Inverts)
    (hsize : ∀ i, ∀ row ∈ (s₀.histories i).inst.routes.rows, row.narSize < 2 ^ 63)
    (h : Reachable mesh.Step meets s₀ s) : mesh.AnswersPublished s₀ s := by
  induction h with
  | start => exact hfresh.answersPublished
  | step hreached _ hstep ih =>
      exact ih.step hfresh hcodec hreached (traced_of_reachable hfresh hcodec hsize hreached) hstep

end Mesh

/-! ## Conclusion -/

/-- Answers were published. In every state that the members of a mesh reach, whatever they look
up, gossip, merge, sweep and restart in whatever order, the answer of a finished lookup is made
of bytes that the upstream it names has replied with to a request of some member for the
narinfo of this hash, or that came with a row of the start or of a stranger; the member has
done no more to them than to rewrite their URL. -/
theorem mesh_answers_published {ι : Type} [DecidableEq ι] (mesh : Mesh ι)
    (hcodec : mesh.codec.Inverts) {s₀ s : MeshState ι} (hfresh : Mesh.Fresh s₀)
    (hsize : ∀ i, ∀ row ∈ (s₀.histories i).inst.routes.rows, row.narSize < 2 ^ 63)
    (h : Reachable mesh.Step (fun _ _ => True) s₀ s) (i : ι) {task : LoggedTask}
    (htask : task ∈ (s.histories i).tasks) {storeHash : StoreHash}
    (hhash : task.kind.storeHash = some storeHash) {result : ResolveResult}
    (hresult : task.process = .ret (.lookup (.ok result))) :
    mesh.AnswerPublished s₀ s (s.histories i).registry storeHash.val result := by
  have hsourced := (Mesh.reached_history hcodec h i).sourced (hfresh.histories i)
  have htraced := Mesh.traced_of_reachable hfresh hcodec hsize h
  have hends := hsourced.tasks task htask
  rw [hresult] at hends
  have hsource : SourceEnds (s.histories i).registry storeHash.val task.past (.ok result) := by
    rcases task with ⟨number, kind, past, process⟩
    cases kind with
    | resolve storeHash' candidates hop =>
        cases hhash
        exact hends
    | fallback storeHash' upstream hop =>
        cases hhash
        exact hends
    | merge incoming => cases hhash
  rcases hsource with hobtained | ⟨value, hvalue, hurl, hbytes⟩
  · exact Mesh.answerPublished_of_obtained hfresh hcodec h htraced htask hobtained
  · have hfound := (Mesh.answersPublished_of_reachable hfresh hcodec hsize h).found i task htask
      storeHash.val value hvalue
    rcases hfound with ⟨body, hrewritten, hpublished⟩
    rw [hurl] at hrewritten hpublished
    exact ⟨body, hbytes ▸ hrewritten, hpublished⟩

/-- A member answers with a narinfo that it has got by gossip. -/
theorem mesh_answers_published_rowOfU :
    ∃ (s : MeshState Bool) (result : ResolveResult), result.narinfoBytes.isSome = true ∧
      (Mesh.twoMembers default (toUtf8 "StorePath: /nix/store/x-a".toList)).AnswerPublished
        (Mesh.oneRow default (toUtf8 "StorePath: /nix/store/x-a".toList)) s default zeroHash.val
        result := by
  have hany : ∀ (s : MeshState Bool) (label : MeshLabel Bool),
      (∀ i reg, label ≠ .work i (.restart reg)) → True := fun _ _ _ => trivial
  rcases Mesh.exists_reachable_answer default default (toUtf8 "StorePath: /nix/store/x-a".toList)
    (by decide) rfl hany with ⟨s, task, hreached, htask, hreg, hkind, hresult⟩
  have hhash : task.kind.storeHash = some zeroHash := by
    rw [hkind]
    rfl
  have hpublished := mesh_answers_published _ (codecOf_inverts _ _) (Mesh.oneRow_fresh _ _)
    (Mesh.narSize_oneRow _ _) hreached true htask hhash hresult
  rw [hreg] at hpublished
  exact ⟨s, _, rfl, hpublished⟩

end Ncro
