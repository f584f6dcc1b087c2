import Mathlib.Data.List.Basic
import Mathlib.Data.List.Perm.Basic
import Mathlib.Data.Nat.Basic
import Mathlib.Order.Basic
import Mathlib.Order.Defs.LinearOrder
import Mathlib.Order.Lattice

/-!
# Grouping by an ordered key

`pushGroup k a groups` appends `a` to the group of key `k`, in a list of groups
kept in ascending order of their keys. Pushing the elements of a list one by
one gives `Grouped`: the keys ascend strictly, and the group of a key holds the
elements with that key in the order of the list.
-/

namespace Foundation

universe u v

variable {α : Type u} {κ : Type v} [LinearOrder κ]

/-- Append `a` to the group of key `k`, opening the group when there is none. -/
def pushGroup (k : κ) (a : α) : List (κ × List α) → List (κ × List α)
  | [] => [(k, [a])]
  | (k', group) :: rest =>
      if k < k' then (k, [a]) :: (k', group) :: rest
      else if k = k' then (k', group ++ [a]) :: rest
      else (k', group) :: pushGroup k a rest

/-- The groups of a list under a key. -/
def groupByKey (key : α → κ) (xs : List α) : List (κ × List α) :=
  xs.foldl (fun groups a => pushGroup (key a) a groups) []

theorem mem_pushGroup_key {k k' : κ} {a : α} {groups : List (κ × List α)} :
    k' ∈ (pushGroup k a groups).map Prod.fst ↔ k' = k ∨ k' ∈ groups.map Prod.fst := by
  induction groups with
  | nil => simp [pushGroup]
  | cons head rest ih =>
      obtain ⟨k₁, group⟩ := head
      rw [pushGroup]
      split
      · simp
      · split
        · next heq =>
          subst heq
          simp
        · rw [List.map_cons, List.mem_cons, ih, List.map_cons, List.mem_cons]
          tauto

/-- A pushed element is the only one added. -/
theorem pushGroup_perm (k : κ) (a : α) (groups : List (κ × List α)) :
    ((pushGroup k a groups).flatMap Prod.snd).Perm (groups.flatMap Prod.snd ++ [a]) := by
  induction groups with
  | nil => simp [pushGroup]
  | cons head rest ih =>
      obtain ⟨k₁, group⟩ := head
      rw [pushGroup]
      split
      · simpa using (List.perm_append_singleton a (group ++ rest.flatMap Prod.snd)).symm
      · split
        · simpa using (List.perm_append_singleton a (rest.flatMap Prod.snd)).symm.append_left group
        · simpa using ih.append_left group

theorem pushGroup_ne_nil {k : κ} {a : α} {groups : List (κ × List α)}
    (h : ∀ g ∈ groups, g.2 ≠ []) : ∀ g ∈ pushGroup k a groups, g.2 ≠ [] := by
  induction groups with
  | nil => simp [pushGroup]
  | cons head rest ih =>
      obtain ⟨k₁, group⟩ := head
      have hrest := ih fun g hg => h g (List.mem_cons_of_mem _ hg)
      rw [pushGroup]
      split
      · simpa using h
      · split
        · intro g hg
          rcases List.mem_cons.1 hg with rfl | hg
          · simp
          · exact h g (List.mem_cons_of_mem _ hg)
        · intro g hg
          rcases List.mem_cons.1 hg with rfl | hg
          · exact h _ List.mem_cons_self
          · exact hrest g hg

/-- `groups` are the groups of `xs`: the keys ascend strictly, no group is
empty, each group is the sublist of `xs` with its key, every key of `xs` has a
group, and no element is lost. -/
structure Grouped (key : α → κ) (xs : List α) (groups : List (κ × List α)) : Prop where
  ascending : groups.Pairwise fun g g' => g.1 < g'.1
  group_eq : ∀ g ∈ groups, g.2 = xs.filter fun a => key a = g.1
  ne_nil : ∀ g ∈ groups, g.2 ≠ []
  covers : ∀ a ∈ xs, key a ∈ groups.map Prod.fst
  perm : (groups.flatMap Prod.snd).Perm xs

theorem pushGroup_ascending {k : κ} {a : α} {groups : List (κ × List α)}
    (h : groups.Pairwise fun g g' => g.1 < g'.1) :
    (pushGroup k a groups).Pairwise fun g g' => g.1 < g'.1 := by
  induction groups with
  | nil => simp [pushGroup]
  | cons head rest ih =>
      obtain ⟨k₁, group⟩ := head
      obtain ⟨hhead, hrest⟩ := List.pairwise_cons.1 h
      rw [pushGroup]
      split
      · next hlt =>
        refine List.pairwise_cons.2 ⟨fun g hg => ?_, h⟩
        rcases List.mem_cons.1 hg with rfl | hg
        · exact hlt
        · exact hlt.trans (hhead g hg)
      · next hnot =>
        split
        · exact List.pairwise_cons.2 ⟨hhead, hrest⟩
        · next hne =>
          refine List.pairwise_cons.2 ⟨fun g hg => ?_, ih hrest⟩
          have hkey : g.1 ∈ (pushGroup k a rest).map Prod.fst := List.mem_map_of_mem hg
          rcases mem_pushGroup_key.1 hkey with heq | hin
          · rw [heq]
            exact lt_of_le_of_ne (not_lt.1 hnot) (Ne.symm hne)
          · obtain ⟨g', hg', heq⟩ := List.mem_map.1 hin
            rw [← heq]
            exact hhead g' hg'

/-- A pushed element joins the group of its key and no other. -/
theorem mem_pushGroup {k : κ} {a : α} {groups : List (κ × List α)}
    (hasc : groups.Pairwise fun g g' => g.1 < g'.1) {g : κ × List α}
    (hg : g ∈ pushGroup k a groups) :
    g.1 ≠ k ∧ g ∈ groups ∨
      g.1 = k ∧ ((∃ group, (k, group) ∈ groups ∧ g.2 = group ++ [a]) ∨
        k ∉ groups.map Prod.fst ∧ g.2 = [a]) := by
  induction groups with
  | nil =>
      obtain rfl := List.mem_singleton.1 hg
      exact .inr ⟨rfl, .inr ⟨by simp, rfl⟩⟩
  | cons head rest ih =>
      obtain ⟨k₁, group⟩ := head
      obtain ⟨hhead, hrest⟩ := List.pairwise_cons.1 hasc
      rw [pushGroup] at hg
      split at hg
      · next hlt =>
        have hnew : ∀ g' ∈ (k₁, group) :: rest, k < g'.1 := by
          intro g' hg'
          rcases List.mem_cons.1 hg' with rfl | hg'
          · exact hlt
          · exact hlt.trans (hhead g' hg')
        rcases List.mem_cons.1 hg with rfl | hg
        · refine .inr ⟨rfl, .inr ⟨?_, rfl⟩⟩
          intro hin
          obtain ⟨g', hg', heq⟩ := List.mem_map.1 hin
          exact (hnew g' hg').ne heq.symm
        · exact .inl ⟨(hnew g hg).ne', hg⟩
      · next hnot =>
        split at hg
        · next heq =>
          subst heq
          rcases List.mem_cons.1 hg with rfl | hg
          · exact .inr ⟨rfl, .inl ⟨group, List.mem_cons_self, rfl⟩⟩
          · exact .inl ⟨(hhead g hg).ne', List.mem_cons_of_mem _ hg⟩
        · next hne =>
          rcases List.mem_cons.1 hg with rfl | hg
          · exact .inl ⟨Ne.symm hne, List.mem_cons_self⟩
          · rcases ih hrest hg with ⟨hk, hin⟩ | ⟨hk, ⟨group', hin, heq⟩ | ⟨hno, heq⟩⟩
            · exact .inl ⟨hk, List.mem_cons_of_mem _ hin⟩
            · exact .inr ⟨hk, .inl ⟨group', List.mem_cons_of_mem _ hin, heq⟩⟩
            · refine .inr ⟨hk, .inr ⟨?_, heq⟩⟩
              simp only [List.map_cons, List.mem_cons, not_or]
              exact ⟨hne, hno⟩

theorem Grouped.push {key : α → κ} {xs : List α} {groups : List (κ × List α)}
    (h : Grouped key xs groups) (a : α) :
    Grouped key (xs ++ [a]) (pushGroup (key a) a groups) where
  ascending := pushGroup_ascending h.ascending
  ne_nil := pushGroup_ne_nil h.ne_nil
  group_eq := by
    intro g hg
    rw [List.filter_append]
    rcases mem_pushGroup h.ascending hg with ⟨hk, hin⟩ | ⟨hk, ⟨group, hin, heq⟩ | ⟨hno, heq⟩⟩
    · rw [h.group_eq g hin, List.filter_singleton]
      simp [Ne.symm hk]
    · have hgroup : group = xs.filter fun b => key b = key a := h.group_eq _ hin
      rw [heq, hk, hgroup, List.filter_singleton]
      simp
    · have hnone : (xs.filter fun b => key b = g.1) = [] := by
        rw [List.filter_eq_nil_iff]
        intro b hb hkey
        have hb' := h.covers b hb
        rw [of_decide_eq_true hkey, hk] at hb'
        exact hno hb'
      rw [heq, hnone, List.filter_singleton]
      simp [hk]
  covers := by
    intro b hb
    rw [mem_pushGroup_key]
    rcases List.mem_append.1 hb with hb | hb
    · exact .inr (h.covers b hb)
    · rw [List.mem_singleton.1 hb]
      exact .inl rfl
  perm := (pushGroup_perm (key a) a groups).trans (h.perm.append_right [a])

theorem grouped_nil (key : α → κ) : Grouped key [] ([] : List (κ × List α)) :=
  ⟨.nil, by simp, by simp, by simp, .nil⟩

theorem Grouped.foldl {key : α → κ} {xs : List α} {groups : List (κ × List α)}
    (h : Grouped key xs groups) (ys : List α) :
    Grouped key (xs ++ ys) (ys.foldl (fun groups a => pushGroup (key a) a groups) groups) := by
  induction ys generalizing xs groups with
  | nil => simpa using h
  | cons a ys ih => simpa using ih (h.push a)

theorem grouped_groupByKey (key : α → κ) (xs : List α) : Grouped key xs (groupByKey key xs) := by
  simpa only [groupByKey, List.nil_append] using (grouped_nil key).foldl xs

namespace Grouped

variable {key : α → κ} {xs : List α} {groups : List (κ × List α)}

theorem mem_iff (h : Grouped key xs groups) {a : α} :
    a ∈ xs ↔ ∃ g ∈ groups, a ∈ g.2 := by
  rw [← h.perm.mem_iff, List.mem_flatMap]

theorem key_eq (h : Grouped key xs groups) {g : κ × List α} (hg : g ∈ groups) {a : α}
    (ha : a ∈ g.2) : key a = g.1 := by
  rw [h.group_eq g hg] at ha
  simpa using (List.mem_filter.1 ha).2

/-- The elements in the order of their groups ascend in their keys. -/
theorem flatMap_ascending (h : Grouped key xs groups) :
    (groups.flatMap Prod.snd).Pairwise fun a b => key a ≤ key b := by
  have hkey : ∀ g ∈ groups, ∀ a ∈ g.2, key a = g.1 := fun g hg a ha => h.key_eq hg ha
  have hasc := h.ascending
  clear h
  induction groups with
  | nil => exact .nil
  | cons g groups ih =>
      obtain ⟨hhead, hrest⟩ := List.pairwise_cons.1 hasc
      rw [List.flatMap_cons, List.pairwise_append]
      refine ⟨?_, ih (fun g' hg' => hkey g' (List.mem_cons_of_mem _ hg')) hrest, ?_⟩
      · refine List.Pairwise.imp_of_mem (R := fun _ _ => True) ?_ (List.pairwise_of_forall (by simp))
        intro a b ha hb _
        rw [hkey g List.mem_cons_self a ha, hkey g List.mem_cons_self b hb]
      · intro a ha b hb
        obtain ⟨g', hg', hb⟩ := List.mem_flatMap.1 hb
        rw [hkey g List.mem_cons_self a ha, hkey g' (List.mem_cons_of_mem _ hg') b hb]
        exact (hhead g' hg').le

/-- Elements with one key keep their order. -/
theorem filter_flatMap (h : Grouped key xs groups) (k : κ) :
    (groups.flatMap Prod.snd).filter (fun a => key a = k) = xs.filter fun a => key a = k := by
  by_cases hk : k ∈ groups.map Prod.fst
  · obtain ⟨g, hg, rfl⟩ := List.mem_map.1 hk
    rw [← h.group_eq g hg]
    obtain ⟨before, after, rfl⟩ := List.append_of_mem hg
    have hother : ∀ g' ∈ before ++ after, g'.2.filter (fun a => key a = g.1) = [] := by
      intro g' hg'
      rw [List.filter_eq_nil_iff]
      intro a ha hkey
      have hmem : g' ∈ before ++ g :: after := by
        rcases List.mem_append.1 hg' with hb | hb
        · exact List.mem_append_left _ hb
        · exact List.mem_append_right _ (List.mem_cons_of_mem _ hb)
      have heq : g'.1 = g.1 := (h.key_eq hmem ha).symm.trans (of_decide_eq_true hkey)
      obtain ⟨-, hafter, hbefore⟩ := List.pairwise_append.1 h.ascending
      rcases List.mem_append.1 hg' with hb | hb
      · exact (hbefore g' hb g List.mem_cons_self).ne heq
      · exact ((List.pairwise_cons.1 hafter).1 g' hb).ne heq.symm
    have hnil : ∀ gs : List (κ × List α), (∀ g' ∈ gs, g' ∈ before ++ after) →
        (gs.flatMap Prod.snd).filter (fun a => key a = g.1) = [] := by
      intro gs hgs
      rw [List.filter_flatMap, List.flatMap_eq_nil_iff]
      exact fun g' hg' => hother g' (hgs g' hg')
    rw [List.flatMap_append, List.filter_append, List.flatMap_cons, List.filter_append,
      hnil before (fun g' => List.mem_append_left _), hnil after (fun g' => List.mem_append_right _),
      List.append_nil, List.nil_append, List.filter_eq_self]
    intro a ha
    simpa using h.key_eq hg ha
  · rw [List.filter_eq_nil_iff.2, List.filter_eq_nil_iff.2]
    · intro a ha hkey
      have hcov := h.covers a ha
      rw [of_decide_eq_true hkey] at hcov
      exact hk hcov
    · intro a ha hkey
      obtain ⟨g, hg, ha⟩ := List.mem_flatMap.1 ha
      refine hk (List.mem_map.2 ⟨g, hg, ?_⟩)
      rw [← h.key_eq hg ha]
      exact of_decide_eq_true hkey

end Grouped

example : groupByKey (· % 3) [5, 3, 4, 2, 1] = [(0, [3]), (1, [4, 1]), (2, [5, 2])] := by decide

end Foundation
