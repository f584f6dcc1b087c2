import Ncro.Filter
import Ncro.Foundation.Glob

/-!
# What a filter pattern matches

The pattern of a filter rule is a glob: each star stands for any text. The
matcher goes through the value once and takes every part between two stars
where it first occurs, so that it finds the shortest beginning of the value
that the pattern denotes. With a star at the end that is enough. A pattern that
ends in a literal part has to denote the whole value, and the matcher misses
this when a shorter beginning is denoted as well.
-/

namespace Ncro

open Foundation (Glob Cut cutParts)

/-- The matcher would have to pass over an occurrence of the last part. -/
def EndsTooEarly (pattern value : Str) : Prop :=
  pattern.getLast? ≠ some '*' ∧ Glob '*' pattern value ∧
    ∃ shorter, shorter <+: value ∧ shorter ≠ value ∧ Glob '*' pattern shorter

/-- The texts of a narinfo that a rule looks at. -/
def filterValues (field : FilterField) (n : NarInfo) : List Str :=
  match field with
  | .storePath => [n.storePath]
  | .name => [storePathName n.storePath]
  | .reference => n.references
  | .deriver => [n.deriver]

theorem filterRuleMatches_eq_any (rule : FilterRule) (n : NarInfo) :
    filterRuleMatches rule n =
      (filterValues rule.field n).any (wildcardMatch rule.pattern) := by
  unfold filterRuleMatches filterValues
  cases rule.field <;> simp

/-- Without the start anchor the parts are looked for one after the other. -/
theorem wildcardParts_eq_cutParts {anchoredStart first : Bool} (parts : List Str) (value : Str)
    (h : (first && anchoredStart) = false) :
    wildcardParts anchoredStart first parts value = cutParts parts value := by
  induction parts generalizing first value with
  | nil => rfl
  | cons part parts ih =>
      rw [wildcardParts, cutParts]
      by_cases hpart : part = []
      · simp [hpart, ih value h]
      · simp only [if_neg hpart, h, Bool.false_eq_true, if_false]
        cases value.dropInfix? part with
        | none => rfl
        | some found => exact ih found.2 (Bool.false_and _)

theorem cut_dropPrefix? {part pattern value : Str} {parts : List Str} (hpart : '*' ∉ part)
    (h : ∀ next, Cut '*' pattern next (cutParts parts next)) :
    Cut '*' (part ++ pattern) value ((value.dropPrefix? part).bind (cutParts parts)) := by
  cases hdrop : value.dropPrefix? part with
  | none =>
      apply Cut.of_not_prefix hpart
      rintro ⟨next, rfl⟩
      rw [List.dropPrefix?_append_of_beq next (beq_self_eq_true part)] at hdrop
      cases hdrop
  | some next =>
      rcases List.dropPrefix?_eq_some_iff.1 hdrop with ⟨found, rfl, hfound⟩
      rw [beq_iff_eq] at hfound
      rw [hfound]
      exact Cut.part hpart (h next)

theorem wildcardParts_anchored {part : Str} {parts : List Str} (hne : part ≠ []) (value : Str) :
    wildcardParts true true (part :: parts) value =
      (value.dropPrefix? part).bind (cutParts parts) := by
  rw [wildcardParts]
  simp only [if_neg hne, Bool.and_self, if_true]
  cases value.dropPrefix? part with
  | none => rfl
  | some next => exact wildcardParts_eq_cutParts parts next (Bool.false_and _)

/-- A pattern that does not begin with a star is cut off from the start. -/
theorem wildcardParts_cut_anchored {c : Char} {rest : Str} (hc : c ≠ '*') (value : Str) :
    Cut '*' (c :: rest) value (wildcardParts true true ((c :: rest).splitOn '*') value) := by
  by_cases hstar : '*' ∈ c :: rest
  · rcases List.eq_append_cons_of_mem hstar with ⟨part, tail, hpattern, hpart⟩
    have hne : part ≠ [] := by
      rintro rfl
      rw [List.nil_append, List.cons.injEq] at hpattern
      exact hc hpattern.1
    rw [hpattern, List.splitOn_append_cons_self_of_not_mem hpart, wildcardParts_anchored hne]
    exact cut_dropPrefix? hpart (Foundation.cutParts_cut tail)
  · rw [List.splitOn_eq_singleton hstar, wildcardParts_anchored (List.cons_ne_nil c rest)]
    have h : Cut '*' (c :: rest ++ []) value
        ((value.dropPrefix? (c :: rest)).bind (cutParts [])) :=
      cut_dropPrefix? hstar fun _ => Foundation.cut_nil
    rwa [List.append_nil] at h

/-- The loop over the parts cuts off the shortest beginning that the pattern
denotes. -/
theorem wildcardParts_cut (pattern value : Str) :
    Cut '*' pattern value
      (wildcardParts (pattern.head? ≠ some '*') true (pattern.splitOn '*') value) := by
  cases pattern with
  | nil => exact Foundation.cut_nil
  | cons c rest =>
      by_cases hc : c = '*'
      · subst hc
        have hsplit : ('*' :: rest).splitOn '*' = [] :: rest.splitOn '*' :=
          List.splitOn_append_cons_self_of_not_mem List.not_mem_nil rest
        rw [hsplit, wildcardParts, if_pos rfl, wildcardParts_eq_cutParts _ _ (by simp)]
        exact Foundation.cutParts_cut rest value
      · have hanchored : decide ((c :: rest).head? ≠ some '*') = true := by simp [hc]
        rw [hanchored]
        exact wildcardParts_cut_anchored hc value

theorem wildcardMatch_of_ne {pattern : Str} (h : pattern ≠ ['*']) (value : Str) :
    wildcardMatch pattern value =
      (wildcardParts (pattern.head? ≠ some '*') true (pattern.splitOn '*') value).any
        fun remainder => pattern.getLast? = some '*' || remainder.isEmpty := by
  unfold wildcardMatch
  rw [if_neg h]
  dsimp only
  cases wildcardParts (pattern.head? ≠ some '*') true (pattern.splitOn '*') value with
  | none => rfl
  | some remainder => simp

/-- What is left after the last part decides. -/
theorem wildcardMatch_iff (pattern value : Str) :
    wildcardMatch pattern value = true ↔
      Glob '*' pattern value ∧ ¬ EndsTooEarly pattern value := by
  have hcut := wildcardParts_cut pattern value
  unfold EndsTooEarly
  by_cases hstar : pattern = ['*']
  · rw [hstar]
    simp [wildcardMatch, Foundation.glob_star_nil]
  · rw [wildcardMatch_of_ne hstar]
    cases hparts : wildcardParts (pattern.head? ≠ some '*') true (pattern.splitOn '*') value with
    | none =>
        rw [hparts] at hcut
        cases hcut with
        | missing hnone => simp [hnone value [] (List.append_nil _)]
    | some rest =>
        rw [hparts] at hcut
        by_cases hlast : pattern.getLast? = some '*'
        · have hglob : Glob '*' pattern value := by
            rcases List.getLast?_eq_some_iff.1 hlast with ⟨front, rfl⟩
            cases hcut with
            | found cut _ heq hcut _ => exact heq ▸ hcut.absorb_end rest
          simp [hlast, hglob]
        · simp only [Option.any_some, hlast, decide_false, Bool.false_or, List.isEmpty_iff, ne_eq,
            not_false_eq_true, true_and]
          rw [hcut.eq_nil_iff]
          simp only [not_and]
          constructor
          · rintro ⟨hglob, hnone⟩
            exact ⟨hglob, fun _ => hnone⟩
          · rintro ⟨hglob, hnone⟩
            exact ⟨hglob, hnone hglob⟩

/-- The patterns that the matcher reads as globs on every value. -/
theorem forall_not_endsTooEarly_iff (pattern : Str) :
    (∀ value, ¬ EndsTooEarly pattern value) ↔ pattern.getLast? = some '*' ∨ '*' ∉ pattern := by
  constructor
  · intro h
    by_contra hno
    rw [not_or, not_not] at hno
    rcases List.eq_nil_or_concat' pattern with rfl | ⟨begin, c, rfl⟩
    · simp at hno
    · have hc : c ≠ '*' := by simpa using hno.1
      have hmem : '*' ∈ begin := by simpa [hc.symm] using hno.2
      rcases List.append_of_mem hmem with ⟨front, part, rfl⟩
      rcases Foundation.exists_glob_shorter front part hc with
        ⟨value, shorter, hvalue, hshorter⟩
      rw [List.append_assoc, List.cons_append] at h hno
      exact h value ⟨hno.1, hvalue, shorter, hshorter⟩
  · rintro (hlast | hstar) value ⟨hend, hvalue, shorter, -, hne, hshorter⟩
    · exact hend hlast
    · rw [Foundation.glob_part hstar] at hvalue hshorter
      exact hne (hshorter.trans hvalue.symm)

/-- When a pattern is matched as a glob: on one value, on every value, and by a
rule that looks at the values of one field. -/
theorem wildcardMatch_glob_iff (pattern value : Str) (rule : FilterRule) (n : NarInfo) :
    ((wildcardMatch pattern value = true ↔ Glob '*' pattern value) ↔
      ¬ EndsTooEarly pattern value) ∧
    ((∀ value, wildcardMatch pattern value = true ↔ Glob '*' pattern value) ↔
      pattern.getLast? = some '*' ∨ '*' ∉ pattern) ∧
    ((filterRuleMatches rule n = true ↔
        ∃ value ∈ filterValues rule.field n, Glob '*' rule.pattern value) ↔
      (∃ value ∈ filterValues rule.field n,
        Glob '*' rule.pattern value ∧ ¬ EndsTooEarly rule.pattern value) ∨
      ∀ value ∈ filterValues rule.field n, ¬ EndsTooEarly rule.pattern value) := by
  have hvalue : ∀ value, (wildcardMatch pattern value = true ↔ Glob '*' pattern value) ↔
      ¬ EndsTooEarly pattern value := by
    intro value
    rw [wildcardMatch_iff]
    constructor
    · intro h hearly
      exact (h.2 hearly.2.1).2 hearly
    · intro hearly
      exact ⟨And.left, fun h => ⟨h, hearly⟩⟩
  refine ⟨hvalue value, ?_, ?_⟩
  · rw [← forall_not_endsTooEarly_iff]
    exact forall_congr' hvalue
  · rw [filterRuleMatches_eq_any, List.any_eq_true]
    simp only [wildcardMatch_iff]
    constructor
    · intro h
      by_cases hsome : ∃ value ∈ filterValues rule.field n, Glob '*' rule.pattern value
      · exact Or.inl (h.2 hsome)
      · exact Or.inr fun value hmem hearly => hsome ⟨value, hmem, hearly.2.1⟩
    · rintro (⟨value, hmem, hglob, hearly⟩ | hnone)
      · exact ⟨fun _ => ⟨value, hmem, hglob⟩, fun _ => ⟨value, hmem, hglob, hearly⟩⟩
      · constructor
        · rintro ⟨value, hmem, hglob, -⟩
          exact ⟨value, hmem, hglob⟩
        · rintro ⟨value, hmem, hglob⟩
          exact ⟨value, hmem, hglob, hnone value hmem⟩

/-- A deny rule for the names ending in `-source` lets one of them pass. -/
theorem wildcardMatch_misses_source :
    ¬ (wildcardMatch "*-source".toList "open-source-source".toList = true ↔
      Glob '*' "*-source".toList "open-source-source".toList) ∧
    upstreamAllowsNarinfo
      (fun _ => some [{ action := .deny, field := .name, pattern := "*-source".toList }])
      "https://cache.example.org".toList
      { storePath := "/nix/store/abc-open-source-source".toList } = true := by
  have hglob : Glob '*' "*-source".toList "open-source-source".toList :=
    Foundation.Glob.star "open-source".toList ((Foundation.glob_part (by decide)).2 rfl)
  have hmatch : wildcardMatch "*-source".toList "open-source-source".toList = false := by decide
  constructor
  · rw [hmatch]
    exact fun h => Bool.false_ne_true (h.2 hglob)
  · decide

end Ncro
