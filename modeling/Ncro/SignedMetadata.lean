import Ncro.Filter
import Ncro.NarHash

/-!
# What a signature binds

The signatures of a narinfo cover its fingerprint, which joins the signed
fields without quoting their separators. When the fields of a narinfo have none
of these in them, its fingerprint determines the store path, the normal form of
the hash, the size and the text of the joined references. Where that text is
cut into references, and whether each of them is written with the store
directory, is up to whoever serves the narinfo; the filters look at the
references as they are served.
-/

namespace Ncro

open Foundation

/-- A reference as it is signed. -/
def signedReference (reference : Str) : Str :=
  if NarInfo.storePrefix.isPrefixOf reference then reference
  else NarInfo.storePrefix ++ reference

namespace NarInfo

def signedReferences (n : NarInfo) : List Str :=
  n.references.map signedReference

/-- The parts that are joined by semicolons. -/
def signedParts (n : NarInfo) : List Str :=
  ["1".toList, n.storePath, normalizeNarHash n.narHash, (Nat.repr n.narSize).toList,
    List.intercalate [','] n.signedReferences]

theorem fingerprint_eq_intercalate (n : NarInfo) :
    n.fingerprint = List.intercalate [';'] n.signedParts := by
  have hjoin : ∀ a b c d e : Str, List.intercalate [';'] [a, b, c, d, e] =
      a ++ ';' :: b ++ ';' :: c ++ ';' :: d ++ ';' :: e := by
    simp [List.intercalate]
  rw [signedParts, hjoin]
  rfl

/-- No field that is signed has a separator in it. -/
structure Separable (n : NarInfo) : Prop where
  storePath : ';' ∉ n.storePath ∧ ',' ∉ n.storePath
  narHash : ';' ∉ n.narHash ∧ ',' ∉ n.narHash
  references : ∀ reference ∈ n.references, ';' ∉ reference ∧ ',' ∉ reference

end NarInfo

/-! ## Separators -/

theorem notMem_signedReference {reference : Str} {c : Char} (hc : c ∉ NarInfo.storePrefix)
    (h : c ∉ reference) : c ∉ signedReference reference := by
  unfold signedReference
  split
  · exact h
  · rw [List.mem_append, not_or]
    exact ⟨hc, h⟩

theorem signedReference_ne_nil (reference : Str) : signedReference reference ≠ [] := by
  unfold signedReference
  split
  · next hstored =>
    rintro rfl
    revert hstored
    decide
  · exact List.append_ne_nil_of_left_ne_nil (by decide) _

/-- Whether the store directory is written is all that a signed reference leaves open. -/
theorem signedReference_inj {a b : Str}
    (hstored : NarInfo.storePrefix.isPrefixOf a = NarInfo.storePrefix.isPrefixOf b)
    (h : signedReference a = signedReference b) : a = b := by
  unfold signedReference at h
  rw [hstored] at h
  split at h
  · exact h
  · exact List.append_cancel_left h

theorem notMem_normalizeNarHash {s : Str} (h : ';' ∉ s) : ';' ∉ normalizeNarHash s := by
  rcases normalizeNarHash_cases s with hself | ⟨digest, -, hbase32⟩
  · rwa [hself]
  · rw [hbase32, List.mem_append, not_or]
    refine ⟨by decide, fun hmem => ?_⟩
    exact absurd (mem_nixBase32Encode hmem) (by decide)

theorem notMem_repr {n : ℕ} {c : Char} (hc : c.isDigit = false) : c ∉ (Nat.repr n).toList := by
  rw [Nat.toList_repr]
  intro hmem
  rw [Nat.isDigit_of_mem_toDigits (by decide) (by decide) hmem] at hc
  cases hc

theorem repr_toList_inj {m n : ℕ} (h : (Nat.repr m).toList = (Nat.repr n).toList) : m = n := by
  rw [Nat.toList_repr, Nat.toList_repr] at h
  have hvalue := congrArg (fun digits => Nat.ofDigitChars 10 digits 0) h
  simpa [Nat.ofDigitChars_ten_toDigits] using hvalue

namespace NarInfo

variable {n₁ n₂ : NarInfo}

theorem Separable.notMem_signedParts (h : n₁.Separable) : ∀ part ∈ n₁.signedParts, ';' ∉ part := by
  have hreferences : ';' ∉ List.intercalate [','] n₁.signedReferences := by
    apply notMem_intercalate (by decide : ';' ≠ ',')
    intro text htext
    rcases List.mem_map.1 htext with ⟨reference, hreference, rfl⟩
    exact notMem_signedReference (by decide) (h.references reference hreference).1
  simp only [signedParts, List.forall_mem_cons]
  exact ⟨by decide, h.storePath.1, notMem_normalizeNarHash h.narHash.1, notMem_repr (by decide),
    hreferences, by simp⟩

theorem Separable.signedParts_eq (h : n₁.Separable) (heq : n₂.fingerprint = n₁.fingerprint) :
    n₂.signedParts = n₁.signedParts := by
  rw [fingerprint_eq_intercalate, fingerprint_eq_intercalate] at heq
  exact intercalate_inj (List.cons_ne_nil _ _) h.notMem_signedParts rfl heq

/-- The references are what stands between the commas of the references with the same
signature. -/
theorem Separable.signedReferences_eq (h : n₁.Separable)
    (heq : n₂.fingerprint = n₁.fingerprint) :
    n₁.signedReferences = n₂.signedReferences.flatMap (List.splitOn ',') := by
  have hnot : ∀ text ∈ n₁.signedReferences, ',' ∉ text := by
    intro text htext
    rcases List.mem_map.1 htext with ⟨reference, hreference, rfl⟩
    exact notMem_signedReference (by decide) (h.references reference hreference).2
  have hnil : ∀ n : NarInfo, List.intercalate [','] n.signedReferences = [] →
      n.signedReferences = [] := by
    intro n hjoined
    cases hreferences : n.references with
    | nil => rw [signedReferences, hreferences, List.map_nil]
    | cons reference references =>
        rw [signedReferences, hreferences, List.map_cons] at hjoined
        exact absurd (eq_nil_of_intercalate_eq_nil hjoined) (signedReference_ne_nil reference)
  have hjoined : List.intercalate [','] n₂.signedReferences =
      List.intercalate [','] n₁.signedReferences := by
    have hparts := h.signedParts_eq heq
    simp only [signedParts, List.cons.injEq] at hparts
    exact hparts.2.2.2.2.1
  by_cases h₁ : n₁.signedReferences = []
  · rw [h₁] at hjoined
    rw [h₁, hnil n₂ hjoined]
    rfl
  · have h₂ : n₂.signedReferences ≠ [] := by
      intro hempty
      rw [hempty] at hjoined
      exact h₁ (hnil n₁ hjoined.symm)
    have hcut := congrArg (List.splitOn ',') hjoined
    rwa [splitOn_intercalate_eq_flatMap h₁, splitOn_intercalate_eq_flatMap h₂,
      flatMap_splitOn_of_notMem hnot, eq_comm] at hcut

/-- References without commas are the same up to the store directory. -/
theorem Separable.signedReferences_eq_of_notMem (h : n₁.Separable)
    (heq : n₂.fingerprint = n₁.fingerprint) (hcomma : ∀ reference ∈ n₂.references, ',' ∉ reference) :
    n₂.signedReferences = n₁.signedReferences := by
  rw [h.signedReferences_eq heq, flatMap_splitOn_of_notMem]
  intro text htext
  rcases List.mem_map.1 htext with ⟨reference, hreference, rfl⟩
  exact notMem_signedReference (by decide) (hcomma reference hreference)

/-- References that are all written with the store directory, or all without, are the same when
they are signed as the same. -/
theorem references_eq_of_signedReferences_eq
    (hstored : n₂.references.map storePrefix.isPrefixOf =
      n₁.references.map storePrefix.isPrefixOf)
    (h : n₂.signedReferences = n₁.signedReferences) : n₂.references = n₁.references := by
  unfold signedReferences at h
  generalize n₁.references = references₁ at h hstored ⊢
  generalize n₂.references = references₂ at h hstored ⊢
  induction references₂ generalizing references₁ with
  | nil =>
      rw [List.map_nil, eq_comm, List.map_eq_nil_iff] at h
      exact h.symm
  | cons reference₂ references₂ ih =>
      cases references₁ with
      | nil => simp at h
      | cons reference₁ references₁ =>
          simp only [List.map_cons, List.cons.injEq] at h hstored
          rw [signedReference_inj hstored.1 h.1, ih references₁ h.2 hstored.2]

end NarInfo

/-! ## What the filters make of it -/

/-- A signature binds the store path, the normal form of the hash, the size and the joined
references, and with them the rules on store paths and names. It binds the references, and the
rules on them, as far as they are served as they were signed. -/
theorem fingerprint_binds (n₁ n₂ : NarInfo) (h : n₁.Separable)
    (heq : n₂.fingerprint = n₁.fingerprint) :
    n₂.storePath = n₁.storePath ∧ normalizeNarHash n₂.narHash = normalizeNarHash n₁.narHash ∧
    n₂.narSize = n₁.narSize ∧
    n₁.signedReferences = n₂.signedReferences.flatMap (List.splitOn ',') ∧
    (∀ rule : FilterRule, rule.field = .storePath ∨ rule.field = .name →
      filterRuleMatches rule n₂ = filterRuleMatches rule n₁) ∧
    ((∀ reference ∈ n₂.references, ',' ∉ reference) →
      n₂.signedReferences = n₁.signedReferences ∧
      (n₂.references.map NarInfo.storePrefix.isPrefixOf =
          n₁.references.map NarInfo.storePrefix.isPrefixOf →
        n₂.references = n₁.references ∧
        ∀ rule : FilterRule, rule.field = .reference →
          filterRuleMatches rule n₂ = filterRuleMatches rule n₁)) := by
  have hparts := h.signedParts_eq heq
  simp only [NarInfo.signedParts, List.cons.injEq, true_and, and_true] at hparts
  rcases hparts with ⟨hpath, hhash, hsize, -⟩
  refine ⟨hpath, hhash, repr_toList_inj hsize, h.signedReferences_eq heq, ?_, ?_⟩
  · rintro rule (hfield | hfield)
    · simp only [filterRuleMatches, hfield, hpath]
    · simp only [filterRuleMatches, hfield, hpath]
  · intro hcomma
    have hsigned := h.signedReferences_eq_of_notMem heq hcomma
    refine ⟨hsigned, fun hstored => ?_⟩
    have hreferences := NarInfo.references_eq_of_signedReferences_eq hstored hsigned
    refine ⟨hreferences, fun rule hfield => ?_⟩
    simp only [filterRuleMatches, hfield, hreferences]

/-! ## References as they are served -/

/-- A narinfo with two references, as it is signed. -/
def servedApart : NarInfo :=
  { storePath := "/nix/store/p-x".toList, narHash := "sha256:h".toList,
    references := ["a-x".toList, "b-y".toList] }

/-- The same with a comma between the references. -/
def servedJoined : NarInfo :=
  { servedApart with references := ["a-x,/nix/store/b-y".toList] }

/-- The same with the store directory before each reference. -/
def servedInStore : NarInfo :=
  { servedApart with references := ["/nix/store/a-x".toList, "/nix/store/b-y".toList] }

theorem servedApart_separable : servedApart.Separable where
  storePath := by decide
  narHash := by decide
  references := by decide

theorem fingerprint_binds_in_store :
    servedInStore.narSize = servedApart.narSize ∧
      servedInStore.signedReferences = servedApart.signedReferences := by
  have h := fingerprint_binds servedApart servedInStore servedApart_separable (by decide)
  exact ⟨h.2.2.1, (h.2.2.2.2.2 (by decide)).1⟩

/-- A rule on references that fires on a narinfo as it is signed, and on neither of two others
with the same fingerprint. -/
theorem fingerprint_leaves_references_open :
    servedApart.Separable ∧
      NarInfo.parse (toUtf8 ("StorePath: /nix/store/p-x\nNarHash: sha256:h\n" ++
        "References: a-x,/nix/store/b-y").toList) = .ok servedJoined ∧
      servedJoined.fingerprint = servedApart.fingerprint ∧
      servedJoined.signedReferences ≠ servedApart.signedReferences ∧
      NarInfo.parse (toUtf8 ("StorePath: /nix/store/p-x\nNarHash: sha256:h\n" ++
        "References: /nix/store/a-x /nix/store/b-y").toList) = .ok servedInStore ∧
      servedInStore.fingerprint = servedApart.fingerprint ∧
      filterRuleMatches ⟨.deny, .reference, "b-*".toList⟩ servedApart = true ∧
      filterRuleMatches ⟨.deny, .reference, "b-*".toList⟩ servedJoined = false ∧
      filterRuleMatches ⟨.deny, .reference, "b-*".toList⟩ servedInStore = false := by
  refine ⟨servedApart_separable, by decide, by decide, by decide, by decide, by decide, by decide,
    by decide, by decide⟩

end Ncro
