import Mathlib.Data.Fintype.Card
import Mathlib.Data.Fintype.EquivFin
import Mathlib.Data.List.Chain
import Mathlib.Logic.Relation

/-!
# Relations without cycles

A relation is acyclic when no element is related to itself by one or more steps.
This follows from a rank that rises with every step, and it means that no chain
of steps comes back to where it has been. On a finite type the chains of an
acyclic relation are no longer than the type has elements.
-/

namespace Foundation

universe u v

variable {α : Type u} {r : α → α → Prop}

/-- No element is reached from itself. -/
def Acyclic (r : α → α → Prop) : Prop :=
  ∀ a, ¬Relation.TransGen r a a

theorem rank_lt_of_transGen {β : Type v} [Preorder β] {rank : α → β}
    (h : ∀ a b, r a b → rank a < rank b) {a b : α} (hab : Relation.TransGen r a b) :
    rank a < rank b := by
  induction hab with
  | single hstep => exact h _ _ hstep
  | tail _ hstep ih => exact ih.trans (h _ _ hstep)

/-- A relation along which a rank rises has no cycles. -/
theorem acyclic_of_rank {β : Type v} [Preorder β] (rank : α → β)
    (h : ∀ a b, r a b → rank a < rank b) : Acyclic r :=
  fun _ ha => lt_irrefl _ (rank_lt_of_transGen h ha)

/-- A chain along which a rank rises is no longer than the ranks it passes. -/
theorem rank_add_length_le {rank : α → ℕ} (h : ∀ a b, r a b → rank a < rank b) {n : ℕ}
    (hbound : ∀ a, rank a ≤ n) {a : α} {chain : List α} (hchain : (a :: chain).IsChain r) :
    rank a + chain.length ≤ n := by
  induction chain generalizing a with
  | nil => exact hbound a
  | cons b chain ih =>
      obtain ⟨hab, hrest⟩ := List.isChain_cons_cons.1 hchain
      have hlt := h a b hab
      have hle := ih hrest
      rw [List.length_cons]
      omega

theorem transGen_pairwise {chain : List α} (hchain : chain.IsChain r) :
    chain.Pairwise (Relation.TransGen r) :=
  (hchain.imp fun _ _ => Relation.TransGen.single).pairwise

/-- A chain of an acyclic relation never comes back. -/
theorem Acyclic.nodup (h : Acyclic r) {chain : List α} (hchain : chain.IsChain r) :
    chain.Nodup := by
  refine (transGen_pairwise hchain).imp fun {a b} hab heq => ?_
  subst heq
  exact h a hab

/-- A cycle is a chain that comes back. -/
theorem exists_chain_of_transGen {a b : α} (h : Relation.TransGen r a b) :
    ∃ chain, (a :: (chain ++ [b])).IsChain r := by
  induction h with
  | single hstep => exact ⟨[], by simpa using hstep⟩
  | @tail b c _ hstep ih =>
      obtain ⟨chain, hchain⟩ := ih
      refine ⟨chain ++ [b], ?_⟩
      rw [← List.cons_append]
      refine List.isChain_append.2 ⟨hchain, by simp, ?_⟩
      intro x hx y hy
      rw [← List.cons_append, List.getLast?_append_cons] at hx
      simp only [List.getLast?_singleton, Option.mem_def, Option.some.injEq, List.head?_cons]
        at hx hy
      rw [← hx, ← hy]
      exact hstep

theorem Acyclic.length_le_card [Fintype α] (h : Acyclic r) {chain : List α}
    (hchain : chain.IsChain r) : chain.length ≤ Fintype.card α :=
  (h.nodup hchain).length_le_card

end Foundation
