import Ncro.NarUrl

/-!
# Canonical URLs

A canonical URL keeps the store hash and the extension of the URL it is made
from, and nothing else. The extension is found at the last `.nar` of the file
name, and the store hash before the first `.nar`; since a store hash has no dot
and an extension no slash, both are found again in every canonical URL.
-/

namespace Ncro

open Foundation

/-! ## Extensions -/

theorem suffixFromLast_append {pat s found : Str} (h : suffixFromLast pat s = some found)
    (before : Str) : suffixFromLast pat (before ++ s) = some found := by
  induction before with
  | nil => exact h
  | cons c before ih => rw [List.cons_append, suffixFromLast, ih]

theorem suffixFromLast_self {pat s found : Str} (h : suffixFromLast pat s = some found) :
    suffixFromLast pat found = some found := by
  induction s with
  | nil =>
      have hfound := h
      simp only [suffixFromLast, Option.ite_none_right_eq_some, Option.some.injEq] at hfound
      rw [← hfound.2] at h ⊢
      exact h
  | cons c s ih =>
      cases hs : suffixFromLast pat s with
      | some found' =>
          rw [suffixFromLast, hs] at h
          cases h
          exact ih hs
      | none =>
          have hfound := h
          simp only [suffixFromLast, hs, Option.ite_none_right_eq_some, Option.some.injEq] at hfound
          rw [← hfound.2] at h ⊢
          exact h

/-- A text without the first character of a pattern does not contain the pattern. -/
theorem suffixFromLast_eq_none {c : Char} {pat s : Str} (h : c ∉ s) :
    suffixFromLast (c :: pat) s = none := by
  induction s with
  | nil => rfl
  | cons d s ih =>
      rw [List.mem_cons, not_or] at h
      rw [suffixFromLast, ih h.2]
      simp [List.isPrefixOf, h.1]

theorem notMem_withoutQuery (path : Str) : '?' ∉ withoutQuery path := by
  by_cases hmem : '?' ∈ path
  · obtain ⟨before, after, rfl, hnot⟩ := List.eq_append_cons_of_mem hmem
    rwa [withoutQuery, dropInfix?_singleton hnot]
  · rwa [withoutQuery, dropInfix?_singleton_eq_none hmem]

/-- An extension is part of a file name without its query. -/
theorem notMem_narExtension (url : Str) : '/' ∉ narExtension url ∧ '?' ∉ narExtension url := by
  unfold narExtension
  simp only
  split
  · next found hfound =>
    have hfile := mem_of_mem_suffixFromLast hfound
    constructor
    · intro hmem
      have hslash := List.mem_rtakeWhile_imp (hfile _ hmem)
      simp at hslash
    · intro hmem
      exact notMem_withoutQuery _ ((List.rtakeWhile_suffix _ _).subset (hfile _ hmem))
  · simp

/-- A path whose colons all come after its slashes has no host. -/
theorem dropInfix?_scheme_eq_none {before after : Str} (hbefore : ':' ∉ before)
    (hafter : '/' ∉ after) : (before ++ after).dropInfix? "://".toList = none := by
  cases hdrop : (before ++ after).dropInfix? "://".toList with
  | none => rfl
  | some parts =>
      rcases List.dropInfix?_eq_some_iff.1 hdrop with ⟨⟨sep, hsplit, hsep⟩, -⟩
      rw [beq_iff_eq] at hsep
      rw [hsep, List.append_assoc] at hsplit
      rcases List.append_eq_append_iff.1 hsplit with ⟨gap, -, hgap⟩ | ⟨gap, hgap, hlate⟩
      · exact absurd (by rw [hgap]; simp) hafter
      · cases gap with
        | nil => exact absurd (by rw [← List.nil_append after, ← hlate]; simp) hafter
        | cons c gap =>
            have hc : c = ':' := (List.cons.inj hlate).1.symm
            exact absurd (by rw [hgap, hc]; simp) hbefore

theorem rtakeWhile_append_of_all {p : Char → Bool} {before after : Str} {c : Char}
    (hc : p c = false) (hafter : ∀ d ∈ after, p d = true) :
    (before ++ c :: after).rtakeWhile p = after := by
  have hreverse : ∀ d ∈ after.reverse, p d = true := fun d hd => hafter d (List.mem_reverse.1 hd)
  rw [List.rtakeWhile, List.reverse_append, List.reverse_cons, List.append_assoc,
    List.takeWhile_append_of_pos hreverse]
  simp [hc]

/-- Neither a store hash nor an extension has a slash or a question mark. -/
theorem notMem_hash_append_narExtension (url : Str) (storeHash : StoreHash) :
    '/' ∉ storeHash.val ++ narExtension url ∧ '?' ∉ storeHash.val ++ narExtension url := by
  have hext := notMem_narExtension url
  simp only [List.mem_append, not_or]
  exact ⟨⟨notMem_of_isStoreHash storeHash.property (by decide), hext.1⟩,
    notMem_of_isStoreHash storeHash.property (by decide), hext.2⟩

theorem dropWhile_slashes_canonicalNarUrl (slashes : ℕ) (url storeHash : Str) :
    (List.replicate slashes '/' ++ canonicalNarUrl url storeHash).dropWhile (· = '/') =
      canonicalNarUrl url storeHash := by
  rw [List.dropWhile_append_of_pos (by simp)]
  rfl

/-- A canonical URL is a path already, whatever slashes are put before it. -/
theorem relativeNarUrl_canonicalNarUrl (slashes : ℕ) (url : Str) (storeHash : StoreHash) :
    relativeNarUrl (List.replicate slashes '/' ++ canonicalNarUrl url storeHash.val) =
      canonicalNarUrl url storeHash.val := by
  have hsplit : List.replicate slashes '/' ++ canonicalNarUrl url storeHash.val =
      (List.replicate slashes '/' ++ "nar/".toList) ++ (storeHash.val ++ narExtension url) := by
    simp [canonicalNarUrl]
  have hnone : (List.replicate slashes '/' ++ canonicalNarUrl url storeHash.val).dropInfix?
      "://".toList = none := by
    rw [hsplit]
    apply dropInfix?_scheme_eq_none
    · simp
    · exact (notMem_hash_append_narExtension url storeHash).1
  rw [relativeNarUrl, hnone]
  exact dropWhile_slashes_canonicalNarUrl slashes url storeHash.val

/-- A canonical URL has the extension of the URL it was minted from. -/
theorem narExtension_slashes_canonicalNarUrl (slashes : ℕ) (url : Str) (storeHash : StoreHash) :
    narExtension (List.replicate slashes '/' ++ canonicalNarUrl url storeHash.val) =
      narExtension url := by
  have hnot := notMem_hash_append_narExtension url storeHash
  have hcanonical : canonicalNarUrl url storeHash.val =
      "nar".toList ++ '/' :: (storeHash.val ++ narExtension url) := rfl
  have hquery : withoutQuery (canonicalNarUrl url storeHash.val) =
      canonicalNarUrl url storeHash.val := by
    rw [withoutQuery, dropInfix?_singleton_eq_none]
    rw [hcanonical]
    simpa using hnot.2
  have hfile : (canonicalNarUrl url storeHash.val).rtakeWhile (· ≠ '/') =
      storeHash.val ++ narExtension url := by
    rw [hcanonical]
    apply rtakeWhile_append_of_all (by simp)
    intro c hc
    exact decide_eq_true fun heq => hnot.1 (heq ▸ hc)
  have hlast : suffixFromLast ".nar".toList (storeHash.val ++ narExtension url) =
      suffixFromLast ".nar".toList (withoutQuery (relativeNarUrl url) |>.rtakeWhile (· ≠ '/')) := by
    unfold narExtension
    simp only
    split
    · next found hfound =>
      rw [hfound]
      exact suffixFromLast_append (suffixFromLast_self hfound) storeHash.val
    · next hnone =>
      rw [hnone, List.append_nil]
      exact suffixFromLast_eq_none (notMem_of_isStoreHash storeHash.property (by decide))
  rw [narExtension, relativeNarUrl_canonicalNarUrl, hquery, hfile, hlast]
  rfl

theorem narExtension_canonicalNarUrl (url : Str) (storeHash : StoreHash) :
    narExtension (canonicalNarUrl url storeHash.val) = narExtension url :=
  narExtension_slashes_canonicalNarUrl 0 url storeHash

/-- A canonical URL promises the compression that the URL it was minted from does. -/
theorem compressionForNarUrl_canonicalNarUrl (url : Str) (storeHash : StoreHash) :
    compressionForNarUrl (canonicalNarUrl url storeHash.val) = compressionForNarUrl url := by
  simp only [compressionForNarUrl, narExtension_canonicalNarUrl]

/-! ## Store hashes -/

theorem exists_rest_of_suffixFromLast {pat s found : Str} (h : suffixFromLast pat s = some found) :
    ∃ rest, found = pat ++ rest := by
  induction s with
  | nil =>
      simp only [suffixFromLast, Option.ite_none_right_eq_some, Option.some.injEq] at h
      exact ⟨[], by rw [h.1, ← h.2, List.append_nil]⟩
  | cons c s ih =>
      rw [suffixFromLast] at h
      cases hs : suffixFromLast pat s with
      | some found' =>
          rw [hs] at h
          cases h
          exact ih hs
      | none =>
          simp only [hs, Option.ite_none_right_eq_some, Option.some.injEq] at h
          rcases List.isPrefixOf_iff_prefix.1 h.1 with ⟨rest, hrest⟩
          exact ⟨rest, by rw [hrest, h.2]⟩

/-- An extension is empty or begins with `.nar`. -/
theorem narExtension_cases (url : Str) :
    narExtension url = [] ∨ ∃ rest, narExtension url = ".nar".toList ++ rest := by
  unfold narExtension
  simp only
  split
  · next found hfound => exact Or.inr (exists_rest_of_suffixFromLast hfound)
  · exact Or.inl rfl

/-- The store hash of a canonical URL is found again. -/
theorem storeHashFromCanonicalNarUrl_canonicalNarUrl (slashes : ℕ) (url : Str)
    (storeHash : StoreHash) :
    storeHashFromCanonicalNarUrl
      (List.replicate slashes '/' ++ canonicalNarUrl url storeHash.val) = some storeHash.val := by
  have hdot : '.' ∉ storeHash.val := notMem_of_isStoreHash storeHash.property (by decide)
  have hprefix : (canonicalNarUrl url storeHash.val).dropPrefix? "nar/".toList =
      some (storeHash.val ++ narExtension url) := by
    rw [canonicalNarUrl, List.append_assoc]
    exact List.dropPrefix?_append_of_beq _ (beq_self_eq_true _)
  rw [storeHashFromCanonicalNarUrl, dropWhile_slashes_canonicalNarUrl, hprefix]
  rcases narExtension_cases url with hext | ⟨rest, hext⟩
  · rw [hext, List.append_nil]
    have hnone : storeHash.val.dropInfix? ".nar".toList = none := dropInfix?_cons_eq_none hdot
    dsimp only
    rw [hnone]
    exact if_pos storeHash.property
  · rw [hext]
    have hsome : (storeHash.val ++ (".nar".toList ++ rest)).dropInfix? ".nar".toList =
        some (storeHash.val, rest) := dropInfix?_cons hdot
    dsimp only
    rw [hsome]
    exact if_pos storeHash.property

/-- Canonical URLs round-trip: a path with any number of slashes before a canonical URL gives
back its store hash, its extension with the compression this promises, and the canonical URL
with any other hash. -/
theorem canonicalNarUrl_round_trip (url : Str) (storeHash : StoreHash) (slashes : ℕ) :
    storeHashFromCanonicalNarUrl
        (List.replicate slashes '/' ++ canonicalNarUrl url storeHash.val) = some storeHash.val ∧
      narExtension (List.replicate slashes '/' ++ canonicalNarUrl url storeHash.val) =
        narExtension url ∧
      compressionForNarUrl (List.replicate slashes '/' ++ canonicalNarUrl url storeHash.val) =
        compressionForNarUrl url ∧
      ∀ storeHash₂ : StoreHash,
        canonicalNarUrl (List.replicate slashes '/' ++ canonicalNarUrl url storeHash.val)
          storeHash₂.val = canonicalNarUrl url storeHash₂.val := by
  have hext := narExtension_slashes_canonicalNarUrl slashes url storeHash
  refine ⟨storeHashFromCanonicalNarUrl_canonicalNarUrl slashes url storeHash, hext, ?_, ?_⟩
  · simp only [compressionForNarUrl, hext]
  · intro storeHash₂
    simp only [canonicalNarUrl] at hext ⊢
    rw [hext]

end Ncro
