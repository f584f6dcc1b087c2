import Ncro.Narinfo
import Mathlib.Data.List.DropRight

/-!
# Path filters

The filters of an upstream are an ordered list of allow and deny rules over
four fields of the narinfo. A matching deny rule rejects; when there is any
allow rule, one of them has to match.
-/

namespace Ncro

inductive FilterAction
  | allow
  | deny
  deriving DecidableEq, Repr

inductive FilterField
  | name
  | storePath
  | reference
  | deriver
  deriving DecidableEq, Repr

structure FilterRule where
  action : FilterAction := .allow
  field : FilterField := .name
  pattern : Str := []
  deriving DecidableEq, Repr

/-- The loop of `wildcardMatch` over the parts between the stars: what is left
of the value, or `none` when a part is not found. -/
def wildcardParts (anchoredStart : Bool) : Bool → List Str → Str → Option Str
  | _, [], remainder => some remainder
  | first, part :: parts, remainder =>
      if part = [] then wildcardParts anchoredStart first parts remainder
      else if first && anchoredStart then
        match remainder.dropPrefix? part with
        | some next => wildcardParts anchoredStart false parts next
        | none => none
      else match remainder.dropInfix? part with
        | some (_, next) => wildcardParts anchoredStart false parts next
        | none => none

def wildcardMatch (pattern value : Str) : Bool :=
  if pattern = ['*'] then true
  else
    let anchoredStart := pattern.head? ≠ some '*'
    let anchoredEnd := pattern.getLast? ≠ some '*'
    match wildcardParts anchoredStart true (pattern.splitOn '*') value with
    | some remainder => !anchoredEnd || remainder.isEmpty
    | none => false

/-- The name in a store path, after the hash. -/
def storePathName (storePath : Str) : Str :=
  let base := storePath.rtakeWhile (· ≠ '/')
  match base.dropInfix? ['-'] with
  | some (_, name) => name
  | none => base

def filterRuleMatches (rule : FilterRule) (n : NarInfo) : Bool :=
  match rule.field with
  | .storePath => wildcardMatch rule.pattern n.storePath
  | .name => wildcardMatch rule.pattern (storePathName n.storePath)
  | .reference => n.references.any (wildcardMatch rule.pattern)
  | .deriver => wildcardMatch rule.pattern n.deriver

/-- The loop over the rules; `allowMatched` says whether an allow rule has
matched so far. -/
def rulesAllow (hasAllow : Bool) (n : NarInfo) : Bool → List FilterRule → Bool
  | allowMatched, [] => !hasAllow || allowMatched
  | allowMatched, rule :: rules =>
      if !filterRuleMatches rule n then rulesAllow hasAllow n allowMatched rules
      else match rule.action with
        | .deny => false
        | .allow => rulesAllow hasAllow n true rules

/-- The filters registered for each upstream that has any. -/
abbrev UpstreamFilters := Str → Option (List FilterRule)

def upstreamAllowsNarinfo (filters : UpstreamFilters) (upstream : Str) (n : NarInfo) : Bool :=
  match filters upstream with
  | none => true
  | some rules =>
      if rules.isEmpty then true
      else rulesAllow (rules.any fun rule => rule.action = .allow) n false rules

/-! ## Fields the filters look at -/

@[simp] theorem filterRuleMatches_url (rule : FilterRule) (n : NarInfo) (url : Str) :
    filterRuleMatches rule { n with url := url } = filterRuleMatches rule n := rfl

@[simp] theorem rulesAllow_url (hasAllow : Bool) (n : NarInfo) (url : Str)
    (allowMatched : Bool) (rules : List FilterRule) :
    rulesAllow hasAllow { n with url := url } allowMatched rules =
      rulesAllow hasAllow n allowMatched rules := by
  induction rules generalizing allowMatched with
  | nil => rfl
  | cons rule rules ih => simp only [rulesAllow, filterRuleMatches_url, ih]

/-- No filter looks at the `url` field. -/
@[simp] theorem upstreamAllowsNarinfo_url (filters : UpstreamFilters) (upstream : Str)
    (n : NarInfo) (url : Str) :
    upstreamAllowsNarinfo filters upstream { n with url := url } =
      upstreamAllowsNarinfo filters upstream n := by
  simp only [upstreamAllowsNarinfo, rulesAllow_url]

/-- An upstream without filters is allowed everything. -/
theorem upstreamAllowsNarinfo_of_none {filters : UpstreamFilters} {upstream : Str}
    (h : filters upstream = none) (n : NarInfo) :
    upstreamAllowsNarinfo filters upstream n = true := by
  simp [upstreamAllowsNarinfo, h]

example : wildcardMatch "zedless*".toList "zedless-0.1.0".toList = true := by decide

example : wildcardMatch "zedless".toList "zedless-0.1.0".toList = false := by decide

end Ncro
