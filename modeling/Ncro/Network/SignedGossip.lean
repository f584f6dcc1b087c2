import Ncro.Network.Gossip
import Ncro.Router.SignatureGate

/-!
# Signatures in a mesh

A merge does not check the narinfos of the routes it stores. Between members that agree on the
keys of the upstreams that is made up for: every row was verified by the member that fetched its
narinfo, and travels unchanged. So no member of such a mesh answers with an unverified
narinfo: `mesh_answers_verified`.
-/

namespace Ncro

open Foundation Foundation.Process

/-- What is verified depends on nothing but the keys. -/
theorem BytesVerified.of_keys {crypto : Crypto} {reg reg' : Registry} {upstream : Str}
    {bytes : Option Octets} (h : BytesVerified crypto reg upstream bytes)
    (hkeys : reg'.upstreamKeys = reg.upstreamKeys) : BytesVerified crypto reg' upstream bytes := by
  intro body keys hbody hupstream
  rw [hkeys] at hupstream
  exact h body keys hbody hupstream

namespace Mesh

variable {ι : Type}

/-- The condition on a run: members are restarted with the keys that are agreed on. -/
def KeepsKeys (reg : Registry) (_ : MeshState ι) : MeshLabel ι → Prop
  | .work _ (.restart reg') => reg'.NoLineFeed ∧ reg'.upstreamKeys = reg.upstreamKeys
  | _ => True

/-- The members have these keys, and have had them whenever they did something. -/
structure AgreeOnKeys (reg : Registry) (s : MeshState ι) : Prop where
  noLineFeed : ∀ i, (s.histories i).registry.NoLineFeed
  registry : ∀ i, (s.histories i).registry.upstreamKeys = reg.upstreamKeys
  log : ∀ i, ∀ entry ∈ (s.histories i).log, entry.registry.upstreamKeys = reg.upstreamKeys

section

variable {mesh : Mesh ι} {reg : Registry} {s₀ s s' : MeshState ι}

/-- Every row that is accounted for is verified. -/
theorem Accounted.bytesVerified (hagree : AgreeOnKeys reg s)
    (hrows : ∀ i, TableVerified mesh.crypto reg (s₀.histories i).inst.routes)
    (hstranger : ∀ route, mesh.stranger route →
      BytesVerified mesh.crypto reg route.upstreamUrl route.narinfoBytes)
    {row : RouteRow} (h : mesh.Accounted s₀ s row) :
    BytesVerified mesh.crypto reg row.upstreamUrl row.narinfoBytes := by
  rcases h with ⟨origin, horigin, hrow, hsame | ⟨i, entry, hentry, route, hrefreshed, rfl⟩⟩
  · have horiginVerified :
        BytesVerified mesh.crypto reg origin.upstreamUrl origin.narinfoBytes := by
      rcases horigin with ⟨i, hstart⟩ | ⟨route, rfl, hroute | ⟨i, entry, hentry, hcommits⟩⟩
      · exact hrows i origin hstart
      · exact hstranger route hroute
      · rcases hcommits with ⟨-, storeHash, candidates, hop, -, hcommit⟩
        rcases hcommit with ⟨winner, body, parsed, ema, now, earlier, -, hverified, -, rfl⟩
        exact hverified.bytesVerified.of_keys (hagree.log i entry hentry).symm
    rw [hsame, hrow]
    exact horiginVerified
  · rcases hrefreshed with ⟨-, storeHash, candidates, hop, -, hrefresh⟩
    rcases hrefresh with ⟨read, bytes, parsed, health, now, earlier, -, hverified, -, rfl⟩
    exact hverified.bytesVerified.of_keys (hagree.log i entry hentry).symm

variable [DecidableEq ι] {label : MeshLabel ι}

/-- A step that keeps to the condition keeps the keys. -/
theorem AgreeOnKeys.step (h : AgreeOnKeys reg s) (hcodec : mesh.codec.Inverts)
    (hkeeps : KeepsKeys reg s label) (hstep : mesh.Step s label s') : AgreeOnKeys reg s' := by
  have hmember : ∀ i, ((s'.histories i).registry.NoLineFeed ∧
      (s'.histories i).registry.upstreamKeys = reg.upstreamKeys) ∧
      ∀ entry ∈ (s'.histories i).log, entry.registry.upstreamKeys = reg.upstreamKeys := by
    intro i
    have hold := And.intro (h.noLineFeed i) (h.registry i)
    rcases hstep.history hcodec i with heq | ⟨own, hown, hkind⟩
    · rw [heq]
      exact ⟨hold, h.log i⟩
    · have hlog : ∀ entry ∈ (s'.histories i).log,
          entry.registry.upstreamKeys = reg.upstreamKeys := by
        intro entry hentry
        rcases hown.log_eq with ⟨number, kind, past, event, -, hlog⟩ | hlog
        · rw [hlog] at hentry
          rcases List.mem_cons.1 hentry with rfl | hentry
          · exact h.registry i
          · exact h.log i entry hentry
        · rw [hlog] at hentry
          exact h.log i entry hentry
      refine ⟨?_, hlog⟩
      generalize s'.histories i = after at hown
      cases hown with
      | restart reg' health maxEntries inMemoryNegativeTtl cooldownWindow maxConcurrentRaces
          wallClock clock =>
          rcases hkind with ⟨-, rfl⟩ | ⟨routes, heq, -⟩
          · exact hkeeps
          · cases heq
      | _ => exact hold
  exact ⟨fun i => (hmember i).1.1, fun i => (hmember i).1.2, fun i => (hmember i).2⟩

theorem agreeOnKeys_of_reachable (hcodec : mesh.codec.Inverts) (h₀ : AgreeOnKeys reg s₀)
    (h : Reachable mesh.Step (KeepsKeys reg) s₀ s) : AgreeOnKeys reg s :=
  h.invariant h₀ fun _ _ _ hagree hkeeps hstep => hagree.step hcodec hkeeps hstep

/-! ## The members -/

/-- A member is safe for the signatures. -/
abbrev MemberHolds (crypto : Crypto) (history : History) : Prop :=
  System.Holds (SignatureInv crypto) (SignatureGuard crypto)
    (fun reg _ => SignaturePromise crypto reg) history.toSystem

/-- A member whose rows, with those that it is to merge, are verified keeps its table verified. -/
theorem keepsTableVerified_of_step {history history' s₀ : History} {own : HistoryLabel}
    {crypto : Crypto} {meets : History → HistoryLabel → History → Prop} (h₀ : s₀.Fresh)
    (hreached : History.Reached crypto meets s₀ history)
    (hmerging : ∀ task ∈ history.tasks, ∀ incoming, task.kind = .merge incoming →
      ∀ route ∈ incoming,
        BytesVerified crypto history.registry route.upstreamUrl route.narinfoBytes)
    (hrestart : ∀ reg', own = .restart reg' →
      reg'.NoLineFeed ∧ TableVerified crypto reg' history.inst.routes)
    (hown : History.Step crypto history own history') :
    keepsTableVerified crypto history.toSystem (History.toLabel own) := by
  cases own with
  | start kind => trivial
  | perform number kind past event =>
      rcases event with ⟨op, reply⟩
      cases kind with
      | merge incoming =>
          cases op with
          | dbUpsertRoute route =>
              rcases hown.mem_tasks with ⟨process, htask⟩
              have hmem := hreached.mem_incoming h₀ hown
              exact hmerging _ htask incoming rfl route hmem
          | _ => trivial
      | _ => trivial
  | background => trivial
  | drop => trivial
  | restart reg' => exact hrestart reg' rfl

/-- Every member stays safe. -/
theorem memberHolds_of_reachable (hfresh : Fresh s₀) (hcodec : mesh.codec.Inverts)
    (hsize : ∀ i, ∀ row ∈ (s₀.histories i).inst.routes.rows, row.narSize < 2 ^ 63)
    (hagree : AgreeOnKeys reg s₀)
    (hrows : ∀ i, TableVerified mesh.crypto reg (s₀.histories i).inst.routes)
    (hstranger : ∀ route, mesh.stranger route →
      BytesVerified mesh.crypto reg route.upstreamUrl route.narinfoBytes)
    (h : Reachable mesh.Step (KeepsKeys reg) s₀ s) (i : ι) :
    MemberHolds mesh.crypto (s.histories i) := by
  induction h with
  | start =>
      rcases (hfresh.histories i).inst with
        ⟨maxEntries, inMemoryNegativeTtl, cooldownWindow, maxConcurrentRaces, hinst⟩
      constructor
      · refine ⟨hagree.noLineFeed i, ?_⟩
        rw [show (s₀.histories i).toSystem.inst = _ from hinst]
        apply Gate.Inv.start
        exact fun row hrow => (hrows i row hrow).of_keys (hagree.registry i)
      · intro task htask
        simp [History.toSystem, (hfresh.histories i).tasks] at htask
  | @step s s' label hreached hkeeps hstep ih =>
      have hkeys := agreeOnKeys_of_reachable hcodec hagree hreached
      have htraced := traced_of_reachable hfresh hcodec hsize hreached
      rcases hstep.history hcodec i with heq | ⟨own, hown, hkind⟩
      · rw [heq]
        exact ih
      · refine ih.step (signatureInvariant mesh.crypto) ?_ hown.toSystem
        apply keepsTableVerified_of_step (hfresh.histories i) (reached_history hcodec hreached i) _ _
          hown
        · intro task htask incoming hmerge route hroute
          have haccounted := htraced.merging i task htask incoming hmerge route hroute
          exact (haccounted.bytesVerified hkeys hrows hstranger).of_keys (hkeys.registry i)
        · rintro reg' rfl
          rcases hkind with ⟨-, rfl⟩ | ⟨routes, heq, -⟩
          · refine ⟨hkeeps.1, fun row hrow => ?_⟩
            have haccounted := htraced.rows i row hrow
            exact (haccounted.bytesVerified hkeys hrows hstranger).of_keys hkeeps.2
          · cases heq

end

end Mesh

/-! ## Conclusion -/

/-- The members of a mesh answer with verified narinfos. Let the members agree on the keys of the
upstreams, also when they are restarted, let the rows they start with be verified, and let
strangers announce only verified routes, if any are listened to. Then in every state that they
reach, whatever is merged, the bytes of each answer verify under a key of the upstream they are
attributed to, if it has keys. -/
theorem mesh_answers_verified {ι : Type} [DecidableEq ι] (mesh : Mesh ι) (reg : Registry)
    (hcodec : mesh.codec.Inverts) {s₀ s : MeshState ι} (hfresh : Mesh.Fresh s₀)
    (hsize : ∀ i, ∀ row ∈ (s₀.histories i).inst.routes.rows, row.narSize < 2 ^ 63)
    (hkeys : ∀ i, (s₀.histories i).registry.NoLineFeed ∧
      (s₀.histories i).registry.upstreamKeys = reg.upstreamKeys)
    (hrows : ∀ i, TableVerified mesh.crypto reg (s₀.histories i).inst.routes)
    (hstranger : ∀ route, mesh.stranger route →
      BytesVerified mesh.crypto reg route.upstreamUrl route.narinfoBytes)
    (h : Reachable mesh.Step (Mesh.KeepsKeys reg) s₀ s) (i : ι) {task : LoggedTask}
    (htask : task ∈ (s.histories i).tasks) {result : ResolveResult}
    (hresult : task.process = .ret (.lookup (.ok result))) :
    BytesVerified mesh.crypto reg result.url result.narinfoBytes := by
  have hagree : Mesh.AgreeOnKeys reg s₀ := by
    refine ⟨fun i => (hkeys i).1, fun i => (hkeys i).2, fun i entry hentry => ?_⟩
    rw [(hfresh.histories i).log] at hentry
    cases hentry
  have hholds := Mesh.memberHolds_of_reachable hfresh hcodec hsize hagree hrows hstranger h i
  have hmember : ⟨task.kind, .ret (.lookup (.ok result))⟩ ∈ (s.histories i).toSystem.tasks := by
    rw [← hresult]
    exact List.mem_map_of_mem htask
  have hverified : BytesVerified mesh.crypto (s.histories i).registry result.url
      result.narinfoBytes := hholds.finished hmember
  exact hverified.of_keys
    ((Mesh.agreeOnKeys_of_reachable hcodec hagree h).registry i).symm

/-- A member answers with a signed narinfo that it has got by gossip. -/
theorem mesh_answers_verified_signedRow :
    ∃ result : ResolveResult, result.narinfoBytes.isSome = true ∧
      keyOfU.upstreamKeys result.url ≠ none ∧
      BytesVerified trustingCrypto keyOfU result.url result.narinfoBytes := by
  have hkeeps : ∀ (s : MeshState Bool) label, (∀ i reg, label ≠ .work i (.restart reg)) →
      Mesh.KeepsKeys keyOfU s label := by
    intro s label hlabel
    cases label with
    | work i own =>
        cases own with
        | restart reg => exact absurd rfl (hlabel i reg)
        | _ => trivial
    | _ => trivial
  rcases Mesh.exists_reachable_answer trustingCrypto keyOfU signedBody (by decide) (by decide)
    hkeeps with ⟨s, task, hreached, htask, -, -, hresult⟩
  have htable : ∀ second, TableVerified trustingCrypto keyOfU
      ((Mesh.oneRow keyOfU signedBody).histories second).inst.routes := by
    intro second row hrow body keys hbody hkeys
    cases second with
    | false =>
        obtain rfl := List.mem_singleton.1 hrow
        obtain rfl := Option.some.inj hbody
        obtain rfl := Option.some.inj hkeys
        exact ⟨{ storePath := "/nix/store/x-a".toList, sig := [['k', ':', 'x']] }, by decide,
          by decide⟩
    | true => cases hrow
  have hverified := mesh_answers_verified (Mesh.twoMembers trustingCrypto signedBody) keyOfU
    (codecOf_inverts _ _) (Mesh.oneRow_fresh _ _) (Mesh.narSize_oneRow _ _)
    (fun _ => ⟨keyOfU_noLineFeed, rfl⟩) htable (fun _ h => h.elim) hreached true htask hresult
  exact ⟨_, rfl, by decide, hverified⟩

end Ncro
