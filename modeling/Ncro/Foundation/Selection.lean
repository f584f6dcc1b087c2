import Mathlib.Data.List.Induction

/-!
# Keeping the best of a sequence of offers

A cell holds at most one value. An offered value is adopted when the cell is
empty or the value supersedes the one held. Offers may arrive in any order and
more than once; `foldl_adopt_eq` says that the cell then ends up with the same
value, if superseding decides between any two different offers and is
transitive.
-/

namespace Foundation

universe u

variable {α : Type u}

/-- The held value after an offer. -/
def adopt (supersedes : α → α → Bool) (held : Option α) (offer : α) : Option α :=
  match held with
  | none => some offer
  | some value => if supersedes offer value then some offer else some value

/-- What makes the outcome independent of the order of the offers in `S`. -/
structure Decisive (supersedes : α → α → Bool) (S : α → Prop) : Prop where
  irrefl : ∀ x, S x → supersedes x x = false
  decides : ∀ x y, S x → S y → x ≠ y → supersedes x y = !supersedes y x
  trans : ∀ x y z, S x → S y → supersedes x y = true → supersedes y z = true →
    supersedes x z = true

/-- `result` is the best of the offers, or what was held when none of them is
better. -/
inductive Best (supersedes : α → α → Bool) (held : Option α) (offers : List α) : Option α → Prop
  | kept (h : ∀ offer ∈ offers, ∃ value, held = some value ∧ supersedes offer value = false) :
      Best supersedes held offers held
  | adopted (best : α) (hmem : best ∈ offers)
      (hheld : ∀ value, held = some value → supersedes best value = true)
      (hbest : ∀ offer ∈ offers, supersedes offer best = false) :
      Best supersedes held offers (some best)

variable {supersedes : α → α → Bool} {S : α → Prop} {held : Option α} {offers : List α}

/-- What supersedes a value that no offer supersedes is superseded by no offer. -/
theorem Decisive.not_supersedes (hS : Decisive supersedes S) {offer best : α} (hoffer : S offer)
    (hsup : supersedes offer best = true) (hbefore : ∀ other ∈ offers, S other)
    (hbest : ∀ other ∈ offers, supersedes other best = false) :
    ∀ other ∈ offers ++ [offer], supersedes other offer = false := by
  intro other hother
  rcases List.mem_append.1 hother with hother | hother
  · by_contra hyes
    rw [Bool.not_eq_false] at hyes
    have hno := hbest other hother
    rw [hS.trans other offer best (hbefore other hother) hoffer hyes hsup] at hno
    cases hno
  · rw [List.mem_singleton.1 hother]
    exact hS.irrefl offer hoffer

/-- The best of some offers gives way to one that supersedes it. -/
theorem Best.superseded (hS : Decisive supersedes S) {offer best : α} (hoffer : S offer)
    (hbefore : ∀ other ∈ offers, S other) (h : Best supersedes held offers (some best))
    (hsup : supersedes offer best = true) :
    Best supersedes held (offers ++ [offer]) (some offer) := by
  generalize hresult : some best = result at h
  cases h with
  | kept h =>
      have hbest : ∀ other ∈ offers, supersedes other best = false := by
        intro other hother
        obtain ⟨value, heq, hno⟩ := h other hother
        cases hresult.trans heq
        exact hno
      refine .adopted offer (by simp) (fun value hvalue => ?_)
        (hS.not_supersedes hoffer hsup hbefore hbest)
      cases hresult.trans hvalue
      exact hsup
  | adopted best' hmem hheld hbest =>
      cases hresult
      refine .adopted offer (by simp) (fun value hvalue => ?_)
        (hS.not_supersedes hoffer hsup hbefore hbest)
      exact hS.trans offer best value hoffer (hbefore best hmem) hsup (hheld value hvalue)

/-- The best of some offers stays the best one when another does not supersede it. -/
theorem Best.append {offer best : α} (h : Best supersedes held offers (some best))
    (hsup : supersedes offer best = false) :
    Best supersedes held (offers ++ [offer]) (some best) := by
  generalize hresult : some best = result at h ⊢
  cases h with
  | kept h =>
      refine .kept fun other hother => ?_
      rcases List.mem_append.1 hother with hother | hother
      · exact h other hother
      · rw [List.mem_singleton.1 hother]
        exact ⟨best, hresult.symm, hsup⟩
  | adopted best' hmem hheld hbest =>
      cases hresult
      refine .adopted best (by simp [hmem]) hheld fun other hother => ?_
      rcases List.mem_append.1 hother with hother | hother
      · exact hbest other hother
      · rw [List.mem_singleton.1 hother]
        exact hsup

/-- Adopting one offer after the other finds the best one. -/
theorem best_foldl_adopt (hS : Decisive supersedes S) (hoffers : ∀ offer ∈ offers, S offer) :
    Best supersedes held offers (offers.foldl (adopt supersedes) held) := by
  induction offers using List.reverseRecOn with
  | nil => exact .kept (by simp)
  | append_singleton offers offer ih =>
      have hoffer : S offer := hoffers offer (by simp)
      have hbefore : ∀ other ∈ offers, S other := fun other h => hoffers other (by simp [h])
      have hbest := ih hbefore
      rw [List.foldl_append, List.foldl_cons, List.foldl_nil]
      generalize offers.foldl (adopt supersedes) held = result at hbest ⊢
      cases result with
      | none =>
          cases hbest with
          | kept h =>
              have hnil : offers = [] := by
                refine List.eq_nil_iff_forall_not_mem.2 fun other hother => ?_
                obtain ⟨value, heq, -⟩ := h other hother
                cases heq
              subst hnil
              exact .adopted offer (by simp) (by simp) (by simp [hS.irrefl offer hoffer])
      | some best =>
          simp only [adopt]
          cases hsup : supersedes offer best with
          | true => exact hbest.superseded hS hoffer hbefore hsup
          | false => exact hbest.append hsup

/-- There is only one best value. -/
theorem Best.unique (hS : Decisive supersedes S) {offers' : List α}
    (hoffers : ∀ offer ∈ offers, S offer) (hmem : ∀ offer, offer ∈ offers ↔ offer ∈ offers')
    {result result' : Option α} (h : Best supersedes held offers result)
    (h' : Best supersedes held offers' result') : result = result' := by
  cases h with
  | kept hkept =>
      cases h' with
      | kept => rfl
      | adopted best hbest hheld hmax =>
          obtain ⟨value, heq, hno⟩ := hkept best ((hmem best).2 hbest)
          rw [hheld value heq] at hno
          cases hno
  | adopted best hbest hheld hmax =>
      cases h' with
      | kept hkept =>
          obtain ⟨value, heq, hno⟩ := hkept best ((hmem best).1 hbest)
          rw [hheld value heq] at hno
          cases hno
      | adopted best' hbest' hheld' hmax' =>
          congr 1
          by_contra hne
          have hdecides := hS.decides best best' (hoffers best hbest)
            (hoffers best' ((hmem best').2 hbest')) hne
          rw [hmax' best ((hmem best).1 hbest), hmax best' ((hmem best').2 hbest')] at hdecides
          cases hdecides

/-- The order and the repetition of the offers do not matter. -/
theorem foldl_adopt_eq (hS : Decisive supersedes S) {offers' : List α}
    (hoffers : ∀ offer ∈ offers, S offer) (hmem : ∀ offer, offer ∈ offers ↔ offer ∈ offers') :
    offers.foldl (adopt supersedes) held = offers'.foldl (adopt supersedes) held :=
  (best_foldl_adopt hS hoffers).unique hS hoffers hmem
    (best_foldl_adopt hS fun offer h => hoffers offer ((hmem offer).2 h))

/-! ## Offers that are stored in another form -/

section Stored

variable {β : Type u} (store : β → α) (beats : β → α → Bool)

/-- The held value after an offer of another type, which is stored when it is adopted. -/
def adoptStored (held : Option α) (offer : β) : Option α :=
  match held with
  | none => some (store offer)
  | some value => if beats offer value then some (store offer) else some value

/-- The first offer that no later one beats. -/
def lasting : List β → Option β
  | [] => none
  | offer :: offers =>
      if offers.any fun other => beats other (store offer) then lasting offers else some offer

variable {store beats}

/-- A value gives way once an offer beats it, and then the offer that lasts is held. An offer that
does not beat the held value has to be beaten by all the offers that do. -/
theorem foldl_adoptStored_some {offers : List β}
    (hweaker : ∀ offer ∈ offers, ∀ other ∈ offers, ∀ value, beats offer value = false →
      beats other value = true → beats other (store offer) = true) (value : α) :
    offers.foldl (adoptStored store beats) (some value) =
      if offers.any fun offer => beats offer value then (lasting store beats offers).map store
      else some value := by
  induction offers generalizing value with
  | nil => rfl
  | cons offer offers ih =>
      have hrest := ih fun offer hoffer other hother =>
        hweaker offer (List.mem_cons_of_mem _ hoffer) other (List.mem_cons_of_mem _ hother)
      rw [List.foldl_cons, adoptStored, List.any_cons, lasting]
      cases hbeats : beats offer value with
      | true =>
          rw [if_pos rfl, hrest, Bool.true_or, if_pos rfl]
          split
          · rfl
          · rfl
      | false =>
          rw [if_neg Bool.false_ne_true, hrest, Bool.false_or]
          split
          · next hany =>
            rcases List.any_eq_true.1 hany with ⟨other, hother, hbeaten⟩
            have hlater : (offers.any fun other => beats other (store offer)) = true :=
              List.any_eq_true.2 ⟨other, hother, hweaker offer List.mem_cons_self other
                (List.mem_cons_of_mem _ hother) value hbeats hbeaten⟩
            rw [if_pos hlater]
          · rfl

/-- With nothing held before, the offer that lasts is held. -/
theorem foldl_adoptStored_none {offers : List β}
    (hweaker : ∀ offer ∈ offers, ∀ other ∈ offers, ∀ value, beats offer value = false →
      beats other value = true → beats other (store offer) = true) :
    offers.foldl (adoptStored store beats) none = (lasting store beats offers).map store := by
  cases offers with
  | nil => rfl
  | cons offer offers =>
      rw [List.foldl_cons, adoptStored, foldl_adoptStored_some, lasting]
      · split
        · rfl
        · rfl
      · exact fun offer hoffer other hother =>
          hweaker offer (List.mem_cons_of_mem _ hoffer) other (List.mem_cons_of_mem _ hother)

/-- Some offer lasts. -/
theorem exists_lasting {offers : List β} (hne : offers ≠ []) :
    ∃ offer ∈ offers, lasting store beats offers = some offer := by
  induction offers with
  | nil => exact absurd rfl hne
  | cons offer offers ih =>
      rw [lasting]
      split
      · next hany =>
        rcases List.any_eq_true.1 hany with ⟨other, hother, -⟩
        rcases ih (List.ne_nil_of_mem hother) with ⟨last, hlast, hlasting⟩
        exact ⟨last, List.mem_cons_of_mem _ hlast, hlasting⟩
      · exact ⟨offer, List.mem_cons_self, rfl⟩

end Stored

end Foundation
