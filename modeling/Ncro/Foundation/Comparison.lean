import Mathlib.Order.Compare
import Mathlib.Order.Basic
import Mathlib.Data.Set.Basic

/-!
# Comparisons to sort with

A sort promises an order only when its comparison is one: `LegalOrder`. Two ways of
building comparisons are looked at. A class may be compared before anything else, and
then the comparison is legal when it is legal within each class. A key may give way to
a rank wherever two keys are near each other, and then it is legal exactly when
nearness is the same seen from both sides, and overtaking is transitive.
-/

namespace Foundation

universe u v w

variable {α : Type u}

/-- What a sort requires of its comparison, on some elements. -/
structure LegalOrder (cmp : α → α → Ordering) (s : Set α) : Prop where
  swap : ∀ a ∈ s, ∀ b ∈ s, cmp b a = (cmp a b).swap
  lt_trans : ∀ a ∈ s, ∀ b ∈ s, ∀ c ∈ s, cmp a b = .lt → cmp b c = .lt → cmp a c = .lt
  eq_trans : ∀ a ∈ s, ∀ b ∈ s, ∀ c ∈ s, cmp a b = .eq → cmp b c = .eq → cmp a c = .eq

/-- A comparison that tells nothing apart is legal. -/
theorem legalOrder_of_eq {cmp : α → α → Ordering} {s : Set α}
    (h : ∀ a ∈ s, ∀ b ∈ s, cmp a b = .eq) : LegalOrder cmp s where
  swap a ha b hb := by rw [h a ha b hb, h b hb a ha, Ordering.swap_eq]
  lt_trans a ha b hb c hc hab _ := by simp [h a ha b hb] at hab
  eq_trans a ha b hb c hc _ _ := h a ha c hc

/-! ## Classes -/

section Classes

variable {κ : Type v} [LinearOrder κ] {class' : α → κ} {cmp within : α → α → Ordering}
  {s : Set α}

/-- A comparison that puts classes first, and compares within a class only. -/
def ClassesFirst (class' : α → κ) (cmp within : α → α → Ordering) (s : Set α) : Prop :=
  ∀ a ∈ s, ∀ b ∈ s, cmp a b = (compare (class' a) (class' b)).then (within a b)

section

variable {a b : α} (h : ClassesFirst class' cmp within s) (ha : a ∈ s) (hb : b ∈ s)

include h ha hb

theorem ClassesFirst.of_class_eq (hclass : class' a = class' b) : cmp a b = within a b := by
  rw [h a ha b hb, hclass, compare_eq_iff_eq.2 rfl]
  rfl

theorem ClassesFirst.of_class_lt (hclass : class' a < class' b) : cmp a b = .lt := by
  rw [h a ha b hb, compare_lt_iff_lt.2 hclass]
  rfl

theorem ClassesFirst.of_class_gt (hclass : class' b < class' a) : cmp a b = .gt := by
  rw [h a ha b hb, compare_gt_iff_gt.2 hclass]
  rfl

theorem ClassesFirst.class_le (hne : cmp a b ≠ .gt) : class' a ≤ class' b := by
  by_contra hnot
  exact hne (h.of_class_gt ha hb (not_le.1 hnot))

theorem ClassesFirst.class_eq (heq : cmp a b = .eq) : class' a = class' b := by
  apply le_antisymm (h.class_le ha hb (by simp [heq]))
  by_contra hnot
  rw [h.of_class_lt ha hb (not_le.1 hnot)] at heq
  cases heq

end

/-- A legal comparison is legal within each class. -/
theorem ClassesFirst.legalOrder_class (h : ClassesFirst class' cmp within s)
    (hlegal : LegalOrder cmp s) (k : κ) : LegalOrder within {a | a ∈ s ∧ class' a = k} := by
  constructor
  · rintro a ⟨ha, rfl⟩ b ⟨hb, hk⟩
    rw [← h.of_class_eq ha hb hk.symm, ← h.of_class_eq hb ha hk]
    exact hlegal.swap a ha b hb
  · rintro a ⟨ha, rfl⟩ b ⟨hb, hb'⟩ c ⟨hc, hc'⟩ hab hbc
    rw [← h.of_class_eq ha hb hb'.symm] at hab
    rw [← h.of_class_eq hb hc (hb'.trans hc'.symm)] at hbc
    rw [← h.of_class_eq ha hc hc'.symm]
    exact hlegal.lt_trans a ha b hb c hc hab hbc
  · rintro a ⟨ha, rfl⟩ b ⟨hb, hb'⟩ c ⟨hc, hc'⟩ hab hbc
    rw [← h.of_class_eq ha hb hb'.symm] at hab
    rw [← h.of_class_eq hb hc (hb'.trans hc'.symm)] at hbc
    rw [← h.of_class_eq ha hc hc'.symm]
    exact hlegal.eq_trans a ha b hb c hc hab hbc

/-- Classes in order keep a comparison legal that is so within each of them. -/
theorem ClassesFirst.legalOrder (h : ClassesFirst class' cmp within s)
    (hwithin : ∀ k, LegalOrder within {a | a ∈ s ∧ class' a = k}) : LegalOrder cmp s := by
  constructor
  · intro a ha b hb
    rcases lt_trichotomy (class' a) (class' b) with hclass | hclass | hclass
    · rw [h.of_class_lt ha hb hclass, h.of_class_gt hb ha hclass]
      rfl
    · rw [h.of_class_eq ha hb hclass, h.of_class_eq hb ha hclass.symm]
      exact (hwithin (class' b)).swap a ⟨ha, hclass⟩ b ⟨hb, rfl⟩
    · rw [h.of_class_gt ha hb hclass, h.of_class_lt hb ha hclass]
      rfl
  · intro a ha b hb c hc hab hbc
    have hab' := h.class_le ha hb (by simp [hab])
    have hbc' := h.class_le hb hc (by simp [hbc])
    rcases (hab'.trans hbc').lt_or_eq with hclass | hclass
    · exact h.of_class_lt ha hc hclass
    · have hb' : class' b = class' c := le_antisymm hbc' (hclass ▸ hab')
      rw [h.of_class_eq ha hb (hclass.trans hb'.symm)] at hab
      rw [h.of_class_eq hb hc hb'] at hbc
      rw [h.of_class_eq ha hc hclass]
      exact (hwithin (class' c)).lt_trans a ⟨ha, hclass⟩ b ⟨hb, hb'⟩ c ⟨hc, rfl⟩ hab hbc
  · intro a ha b hb c hc hab hbc
    have hab' := h.class_eq ha hb hab
    have hbc' := h.class_eq hb hc hbc
    rw [h.of_class_eq ha hb hab'] at hab
    rw [h.of_class_eq hb hc hbc'] at hbc
    rw [h.of_class_eq ha hc (hab'.trans hbc')]
    exact (hwithin (class' c)).eq_trans a ⟨ha, hab'.trans hbc'⟩ b ⟨hb, hbc'⟩ c ⟨hc, rfl⟩ hab hbc

/-- A comparison that puts classes first is legal when it is so within each class. -/
theorem legalOrder_then_iff (h : ClassesFirst class' cmp within s) :
    LegalOrder cmp s ↔ ∀ k, LegalOrder within {a | a ∈ s ∧ class' a = k} :=
  ⟨h.legalOrder_class, h.legalOrder⟩

end Classes

/-! ## Windows -/

section Windows

variable {L : Type v} {P : Type w} [LinearOrder L] [LinearOrder P]
  (key : α → L) (rank : α → P) (near : α → α → Prop)

/-- Compare by key, but by rank where the second element has the first one near. -/
def windowCompare [DecidableRel near] (a b : α) : Ordering :=
  if near a b ∧ rank a ≠ rank b then compare (rank a) (rank b) else compare (key a) (key b)

/-- An element with the greater key comes first for its rank. -/
structure Overtaken (a b : α) : Prop where
  key_lt : key a < key b
  rank_lt : rank b < rank a
  near : near a b

/-- What makes a comparison with windows legal. -/
structure WindowsAgree (s : Set α) : Prop where
  /-- A window is seen from both sides. -/
  near_comm : ∀ a ∈ s, ∀ b ∈ s, key a < key b → rank b < rank a → (near a b ↔ near b a)
  trans : ∀ a ∈ s, ∀ b ∈ s, ∀ c ∈ s, Overtaken key rank near a b → Overtaken key rank near b c →
    Overtaken key rank near a c

/-- Windows hold equal keys and all that lies between. -/
structure Windows (s : Set α) : Prop where
  of_eq : ∀ a ∈ s, ∀ b ∈ s, key a = key b → near a b
  between : ∀ a ∈ s, ∀ b ∈ s, ∀ c ∈ s, key a ≤ key b → key b ≤ key c →
    (near a c → near a b ∧ near b c) ∧ (near c a → near c b ∧ near b a)

variable {key rank near} [DecidableRel near] {s : Set α}

theorem windowCompare_of_near {a b : α} (hnear : near a b) (hne : rank a ≠ rank b) :
    windowCompare key rank near a b = compare (rank a) (rank b) :=
  if_pos ⟨hnear, hne⟩

theorem windowCompare_of_not_near {a b : α} (hnear : ¬near a b) :
    windowCompare key rank near a b = compare (key a) (key b) :=
  if_neg fun h => hnear h.1

theorem windowCompare_of_rank_eq {a b : α} (heq : rank a = rank b) :
    windowCompare key rank near a b = compare (key a) (key b) :=
  if_neg fun h => h.2 heq

/-- A smaller key with a rank that is not greater comes first. -/
theorem windowCompare_eq_lt {a b : α} (hkey : key a < key b) (hrank : rank a ≤ rank b) :
    windowCompare key rank near a b = .lt ∧ windowCompare key rank near b a = .gt := by
  rcases hrank.lt_or_eq with hlt | heq
  · constructor
    · unfold windowCompare
      split
      · exact compare_lt_iff_lt.2 hlt
      · exact compare_lt_iff_lt.2 hkey
    · unfold windowCompare
      split
      · exact compare_gt_iff_gt.2 hlt
      · exact compare_gt_iff_gt.2 hkey
  · rw [windowCompare_of_rank_eq heq, windowCompare_of_rank_eq heq.symm]
    exact ⟨compare_lt_iff_lt.2 hkey, compare_gt_iff_gt.2 hkey⟩

/-- Of equal keys the ranks decide. -/
theorem windowCompare_of_key_eq (hwindows : Windows key near s) {a b : α} (ha : a ∈ s) (hb : b ∈ s)
    (heq : key a = key b) :
    windowCompare key rank near a b = compare (rank a) (rank b) := by
  by_cases hrank : rank a = rank b
  · rw [windowCompare_of_rank_eq hrank, heq, hrank, compare_eq_iff_eq.2 rfl, compare_eq_iff_eq.2 rfl]
  · exact windowCompare_of_near (hwindows.of_eq a ha b hb heq) hrank

/-- Elements are equal for their keys and ranks only. -/
theorem windowCompare_eq_eq_iff (hwindows : Windows key near s) {a b : α} (ha : a ∈ s)
    (hb : b ∈ s) :
    windowCompare key rank near a b = .eq ↔ key a = key b ∧ rank a = rank b := by
  constructor
  · intro h
    unfold windowCompare at h
    split at h
    · next hnear => exact absurd (compare_eq_iff_eq.1 h) hnear.2
    · next hnot =>
      have hkey := compare_eq_iff_eq.1 h
      refine ⟨hkey, ?_⟩
      by_contra hne
      exact hnot ⟨hwindows.of_eq a ha b hb hkey, hne⟩
  · rintro ⟨hkey, hrank⟩
    rw [windowCompare_of_rank_eq hrank]
    exact compare_eq_iff_eq.2 hkey

/-- Legal windows are seen from both sides, and overtaking is transitive. -/
theorem LegalOrder.windowsAgree (h : LegalOrder (windowCompare key rank near) s) :
    WindowsAgree key rank near s := by
  have hcomm : ∀ a ∈ s, ∀ b ∈ s, key a < key b → rank b < rank a → (near a b ↔ near b a) := by
    intro a ha b hb hkey hrank
    have hswap := h.swap a ha b hb
    by_cases hab : near a b <;> by_cases hba : near b a
    · exact iff_of_true hab hba
    · rw [windowCompare_of_near hab hrank.ne', windowCompare_of_not_near hba,
        compare_gt_iff_gt.2 hkey, compare_gt_iff_gt.2 hrank] at hswap
      cases hswap
    · rw [windowCompare_of_near hba hrank.ne, windowCompare_of_not_near hab,
        compare_lt_iff_lt.2 hkey, compare_lt_iff_lt.2 hrank] at hswap
      cases hswap
    · exact iff_of_false hab hba
  refine ⟨hcomm, fun a ha b hb c hc hab hbc => ?_⟩
  have hba : windowCompare key rank near b a = .lt := by
    rw [windowCompare_of_near ((hcomm a ha b hb hab.key_lt hab.rank_lt).1 hab.near) hab.rank_lt.ne]
    exact compare_lt_iff_lt.2 hab.rank_lt
  have hcb : windowCompare key rank near c b = .lt := by
    rw [windowCompare_of_near ((hcomm b hb c hc hbc.key_lt hbc.rank_lt).1 hbc.near) hbc.rank_lt.ne]
    exact compare_lt_iff_lt.2 hbc.rank_lt
  have hca := h.lt_trans c hc b hb a ha hcb hba
  have hkey := hab.key_lt.trans hbc.key_lt
  have hrank := hbc.rank_lt.trans hab.rank_lt
  refine ⟨hkey, hrank, (hcomm a ha c hc hkey hrank).2 ?_⟩
  by_contra hnot
  rw [windowCompare_of_not_near hnot, compare_gt_iff_gt.2 hkey] at hca
  cases hca

/-- When windows agree, an element comes first for its key, unless it is overtaken, or because
it overtakes. -/
theorem WindowsAgree.windowCompare_eq_lt_iff (hagree : WindowsAgree key rank near s)
    (hwindows : Windows key near s) {a b : α} (ha : a ∈ s) (hb : b ∈ s) :
    windowCompare key rank near a b = .lt ↔
      (key a < key b ∨ key a = key b ∧ rank a < rank b) ∧ ¬Overtaken key rank near a b ∨
        Overtaken key rank near b a := by
  rcases lt_trichotomy (key a) (key b) with hkey | hkey | hkey
  · have hnot : ¬Overtaken key rank near b a := fun h => lt_asymm hkey h.key_lt
    rcases le_or_gt (rank a) (rank b) with hrank | hrank
    · have hnot' : ¬Overtaken key rank near a b := fun h => not_lt.2 hrank h.rank_lt
      exact iff_of_true (windowCompare_eq_lt hkey hrank).1 (.inl ⟨.inl hkey, hnot'⟩)
    · by_cases hnear : near a b
      · rw [windowCompare_of_near hnear hrank.ne', compare_gt_iff_gt.2 hrank]
        refine iff_of_false nofun ?_
        rintro (⟨-, h⟩ | h)
        · exact h ⟨hkey, hrank, hnear⟩
        · exact hnot h
      · rw [windowCompare_of_not_near hnear]
        exact iff_of_true (compare_lt_iff_lt.2 hkey) (.inl ⟨.inl hkey, fun h => hnear h.near⟩)
  · rw [windowCompare_of_key_eq hwindows ha hb hkey, compare_lt_iff_lt]
    constructor
    · exact fun hrank => .inl ⟨.inr ⟨hkey, hrank⟩, fun h => h.key_lt.ne hkey⟩
    · rintro (⟨h | h, -⟩ | h)
      · exact absurd hkey h.ne
      · exact h.2
      · exact absurd hkey.symm h.key_lt.ne
  · have hfirst : ¬(key a < key b ∨ key a = key b ∧ rank a < rank b) := by
      rintro (h | h)
      · exact lt_asymm hkey h
      · exact hkey.ne h.1.symm
    rcases le_or_gt (rank b) (rank a) with hrank | hrank
    · rw [(windowCompare_eq_lt hkey hrank).2]
      refine iff_of_false nofun ?_
      rintro (h | h)
      · exact hfirst h.1
      · exact not_lt.2 hrank h.rank_lt
    · have hcomm := hagree.near_comm b hb a ha hkey hrank
      by_cases hnear : near a b
      · rw [windowCompare_of_near hnear hrank.ne, compare_lt_iff_lt]
        exact iff_of_true hrank (.inr ⟨hkey, hrank, hcomm.2 hnear⟩)
      · rw [windowCompare_of_not_near hnear, compare_gt_iff_gt.2 hkey]
        refine iff_of_false nofun ?_
        rintro (h | h)
        · exact hfirst h.1
        · exact hnear (hcomm.1 h.near)

theorem WindowsAgree.swap_of_key_lt (hagree : WindowsAgree key rank near s) {a b : α}
    (ha : a ∈ s) (hb : b ∈ s) (hkey : key a < key b) :
    windowCompare key rank near b a = (windowCompare key rank near a b).swap := by
  rcases le_or_gt (rank a) (rank b) with hrank | hrank
  · rw [(windowCompare_eq_lt hkey hrank).1, (windowCompare_eq_lt hkey hrank).2]
    rfl
  · have hcomm := hagree.near_comm a ha b hb hkey hrank
    by_cases hnear : near a b
    · rw [windowCompare_of_near hnear hrank.ne', windowCompare_of_near (hcomm.1 hnear) hrank.ne,
        compare_gt_iff_gt.2 hrank, compare_lt_iff_lt.2 hrank]
      rfl
    · rw [windowCompare_of_not_near hnear, windowCompare_of_not_near (mt hcomm.2 hnear),
        compare_gt_iff_gt.2 hkey, compare_lt_iff_lt.2 hkey]
      rfl

theorem WindowsAgree.swap (hagree : WindowsAgree key rank near s) (hwindows : Windows key near s)
    {a b : α} (ha : a ∈ s) (hb : b ∈ s) :
    windowCompare key rank near b a = (windowCompare key rank near a b).swap := by
  rcases lt_trichotomy (key a) (key b) with hkey | hkey | hkey
  · exact hagree.swap_of_key_lt ha hb hkey
  · rw [windowCompare_of_key_eq hwindows ha hb hkey, windowCompare_of_key_eq hwindows hb ha hkey.symm]
    exact Std.OrientedCmp.eq_swap
  · rw [hagree.swap_of_key_lt hb ha hkey, Ordering.swap_swap]

omit [DecidableRel near] in
/-- What stands between an element and one that it does not overtake. -/
theorem rank_le_of_not_overtaken {a b : α}
    (hfirst : key a < key b ∨ key a = key b ∧ rank a < rank b)
    (hnot : ¬Overtaken key rank near a b) (hnear : near a b) : rank a ≤ rank b := by
  rcases hfirst with hkey | ⟨-, hrank⟩
  · by_contra hlt
    exact hnot ⟨hkey, not_le.1 hlt, hnear⟩
  · exact hrank.le

theorem WindowsAgree.lt_trans (hagree : WindowsAgree key rank near s)
    (hwindows : Windows key near s) {a b c : α} (ha : a ∈ s) (hb : b ∈ s) (hc : c ∈ s)
    (hab : windowCompare key rank near a b = .lt) (hbc : windowCompare key rank near b c = .lt) :
    windowCompare key rank near a c = .lt := by
  rw [hagree.windowCompare_eq_lt_iff hwindows ha hb] at hab
  rw [hagree.windowCompare_eq_lt_iff hwindows hb hc] at hbc
  rw [hagree.windowCompare_eq_lt_iff hwindows ha hc]
  have hle : ∀ {a b : α}, key a < key b ∨ key a = key b ∧ rank a < rank b → key a ≤ key b :=
    fun h => h.elim le_of_lt fun h => h.1.le
  -- whether `c` comes after `a` by key and rank
  by_cases hac : key a < key c ∨ key a = key c ∧ rank a < rank c
  · refine .inl ⟨hac, fun hover => ?_⟩
    rcases hab with ⟨hab, hnot⟩ | hba <;> rcases hbc with ⟨hbc, hnot'⟩ | hcb
    · obtain ⟨hnear, hnear'⟩ := (hwindows.between a ha b hb c hc (hle hab) (hle hbc)).1 hover.near
      have hrank := rank_le_of_not_overtaken hab hnot hnear
      have hrank' := rank_le_of_not_overtaken hbc hnot' hnear'
      exact not_lt.2 (hrank.trans hrank') hover.rank_lt
    · exact hnot (hagree.trans a ha c hc b hb hover hcb)
    · exact hnot' (hagree.trans b hb a ha c hc hba hover)
    · have hca := hagree.trans c hc b hb a ha hcb hba
      exact lt_asymm hover.key_lt hca.key_lt
  · have hca : key c ≤ key a := not_lt.1 fun h => hac (.inl h)
    have hrank : key c = key a → rank c ≤ rank a := fun heq =>
      not_lt.1 fun h => hac (.inr ⟨heq.symm, h⟩)
    right
    rcases hab with ⟨hab, hnot⟩ | hba <;> rcases hbc with ⟨hbc, hnot'⟩ | hcb
    · have hkey : key a = key b := le_antisymm (hle hab) ((hle hbc).trans hca)
      have hkey' : key b = key c := le_antisymm (hle hbc) (hca.trans (hle hab))
      have hrank₁ := hab.resolve_left hkey.not_lt
      have hrank₂ := hbc.resolve_left hkey'.not_lt
      have := hrank (hkey.trans hkey').symm
      exact absurd (hrank₁.2.trans hrank₂.2) (not_lt.2 this)
    · obtain ⟨hnear, hnear'⟩ := (hwindows.between c hc a ha b hb hca (hle hab)).1 hcb.near
      have hlt : rank a < rank c :=
        (rank_le_of_not_overtaken hab hnot hnear').trans_lt hcb.rank_lt
      refine ⟨hca.lt_of_ne fun heq => ?_, hlt, hnear⟩
      exact not_lt.2 (hrank heq) hlt
    · obtain ⟨hnear, hnear'⟩ := (hwindows.between b hb c hc a ha (hle hbc) hca).1 hba.near
      have hlt : rank a < rank c :=
        hba.rank_lt.trans_le (rank_le_of_not_overtaken hbc hnot' hnear)
      refine ⟨hca.lt_of_ne fun heq => ?_, hlt, hnear'⟩
      exact not_lt.2 (hrank heq) hlt
    · exact hagree.trans c hc b hb a ha hcb hba

/-- A comparison with windows is legal exactly when they agree. -/
theorem legalOrder_windowCompare_iff (hwindows : Windows key near s) :
    LegalOrder (windowCompare key rank near) s ↔ WindowsAgree key rank near s := by
  constructor
  · exact LegalOrder.windowsAgree
  · intro hagree
    constructor
    · exact fun a ha b hb => hagree.swap hwindows ha hb
    · exact fun a ha b hb c hc => hagree.lt_trans hwindows ha hb hc
    · intro a ha b hb c hc hab hbc
      rw [windowCompare_eq_eq_iff hwindows ha hb] at hab
      rw [windowCompare_eq_eq_iff hwindows hb hc] at hbc
      rw [windowCompare_eq_eq_iff hwindows ha hc]
      exact ⟨hab.1.trans hbc.1, hab.2.trans hbc.2⟩

end Windows

end Foundation
