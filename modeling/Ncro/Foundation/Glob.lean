import Ncro.Foundation.Text

/-!
# Glob patterns

A pattern is a list in which one symbol, the star, stands for any list. `Glob`
says which values a pattern denotes. A pattern is the list of the parts between
its stars, and `cutParts` looks for them one after the other, each at its first
occurrence; `cutParts_cut` says what this finds: the shortest beginning of the
value that the pattern denotes, and nothing exactly when there is none.
-/

namespace Foundation

variable {α : Type*} {star c : α} {pattern rest value : List α}

/-- The value comes from the pattern by putting some list, possibly empty, in
the place of each star. -/
inductive Glob (star : α) : List α → List α → Prop
  | nil : Glob star [] []
  | literal {c : α} {pattern value : List α} (hc : c ≠ star) (h : Glob star pattern value) :
      Glob star (c :: pattern) (c :: value)
  | star {pattern value : List α} (filling : List α) (h : Glob star pattern value) :
      Glob star (star :: pattern) (filling ++ value)

@[simp] theorem glob_nil : Glob star [] value ↔ value = [] := by
  constructor
  · intro h
    cases h
    rfl
  · intro h
    rw [h]
    exact Glob.nil

theorem glob_star_cons :
    Glob star (star :: pattern) value ↔
      ∃ filling tail, filling ++ tail = value ∧ Glob star pattern tail := by
  constructor
  · intro h
    cases h with
    | literal hc => exact absurd rfl hc
    | star filling h => exact ⟨filling, _, rfl, h⟩
  · rintro ⟨filling, tail, rfl, h⟩
    exact Glob.star filling h

theorem glob_literal_cons (hc : c ≠ star) :
    Glob star (c :: pattern) value ↔ ∃ tail, c :: tail = value ∧ Glob star pattern tail := by
  constructor
  · intro h
    cases h with
    | literal _ h => exact ⟨_, rfl, h⟩
    | star => exact absurd rfl hc
  · rintro ⟨tail, rfl, h⟩
    exact Glob.literal hc h

/-- A part without stars stands for itself. -/
theorem glob_part_append {part : List α} (hpart : star ∉ part) :
    Glob star (part ++ pattern) value ↔ ∃ tail, part ++ tail = value ∧ Glob star pattern tail := by
  induction part generalizing value with
  | nil => simp
  | cons c part ih =>
      have hc : c ≠ star := fun h => hpart (h ▸ List.mem_cons_self)
      have hrest : star ∉ part := fun h => hpart (List.mem_cons_of_mem _ h)
      rw [List.cons_append, glob_literal_cons hc]
      constructor
      · rintro ⟨_, rfl, hvalue⟩
        rcases (ih hrest).1 hvalue with ⟨tail, rfl, htail⟩
        exact ⟨tail, rfl, htail⟩
      · rintro ⟨tail, rfl, htail⟩
        exact ⟨part ++ tail, rfl, (ih hrest).2 ⟨tail, rfl, htail⟩⟩

theorem glob_part {part : List α} (hpart : star ∉ part) :
    Glob star part value ↔ value = part := by
  have h : Glob star (part ++ []) value ↔ _ := glob_part_append hpart
  rw [List.append_nil] at h
  rw [h]
  constructor
  · rintro ⟨tail, rfl, htail⟩
    rw [glob_nil.1 htail, List.append_nil]
  · rintro rfl
    exact ⟨[], List.append_nil _, Glob.nil⟩

/-- A star in front takes in whatever is put before the value. -/
theorem Glob.absorb (h : Glob star (star :: pattern) value) (front : List α) :
    Glob star (star :: pattern) (front ++ value) := by
  rcases glob_star_cons.1 h with ⟨filling, tail, rfl, htail⟩
  rw [← List.append_assoc]
  exact Glob.star (front ++ filling) htail

/-- What two patterns denote together is what they denote one after the other. -/
theorem glob_append {first second : List α} :
    Glob star (first ++ second) value ↔
      ∃ front tail, front ++ tail = value ∧ Glob star first front ∧ Glob star second tail := by
  induction first generalizing value with
  | nil => simp
  | cons c first ih =>
      by_cases hc : c = star
      · subst hc
        simp only [List.cons_append, glob_star_cons, ih]
        constructor
        · rintro ⟨filling, _, rfl, front, tail, rfl, hfront, htail⟩
          exact ⟨filling ++ front, tail, by simp, ⟨filling, front, rfl, hfront⟩, htail⟩
        · rintro ⟨_, tail, rfl, ⟨filling, front, rfl, hfront⟩, htail⟩
          exact ⟨filling, front ++ tail, by simp, front, tail, rfl, hfront, htail⟩
      · simp only [List.cons_append, glob_literal_cons hc, ih]
        constructor
        · rintro ⟨_, rfl, front, tail, rfl, hfront, htail⟩
          exact ⟨c :: front, tail, rfl, ⟨front, rfl, hfront⟩, htail⟩
        · rintro ⟨_, tail, rfl, ⟨front, rfl, hfront⟩, htail⟩
          exact ⟨front ++ tail, rfl, front, tail, rfl, hfront, htail⟩

theorem glob_star_nil : Glob star [star] value :=
  glob_star_cons.2 ⟨value, [], List.append_nil _, Glob.nil⟩

theorem exists_glob (star : α) (pattern : List α) : ∃ value, Glob star pattern value := by
  induction pattern with
  | nil => exact ⟨[], Glob.nil⟩
  | cons c pattern ih =>
      rcases ih with ⟨value, hvalue⟩
      by_cases hc : c = star
      · subst hc
        exact ⟨value, Glob.star [] hvalue⟩
      · exact ⟨c :: value, Glob.literal hc hvalue⟩

/-- A star at the end takes in whatever follows the value. -/
theorem Glob.absorb_end (h : Glob star (pattern ++ [star]) value) (after : List α) :
    Glob star (pattern ++ [star]) (value ++ after) := by
  rcases glob_append.1 h with ⟨front, tail, rfl, hfront, -⟩
  exact glob_append.2 ⟨front, tail ++ after, by simp, hfront, glob_star_nil⟩

/-- A pattern with a star that ends in a literal denotes some value together
with a shorter beginning of it: the last star takes in what follows it. -/
theorem exists_glob_shorter (front part : List α) (hc : c ≠ star) :
    ∃ value shorter, Glob star (front ++ star :: (part ++ [c])) value ∧ shorter <+: value ∧
      shorter ≠ value ∧ Glob star (front ++ star :: (part ++ [c])) shorter := by
  rcases exists_glob star front with ⟨before, hbefore⟩
  rcases exists_glob star part with ⟨last, hlast⟩
  have hpart : Glob star (part ++ [c]) (last ++ [c]) :=
    glob_append.2 ⟨last, [c], rfl, hlast, Glob.literal hc Glob.nil⟩
  refine ⟨before ++ (last ++ [c] ++ (last ++ [c])), before ++ (last ++ [c]), ?_, ?_, ?_, ?_⟩
  · exact glob_append.2 ⟨before, _, rfl, hbefore, Glob.star (last ++ [c]) hpart⟩
  · exact ⟨last ++ [c], by simp⟩
  · intro hsame
    have hlen := congrArg List.length hsame
    simp at hlen
  · exact glob_append.2 ⟨before, _, rfl, hbefore, Glob.star [] hpart⟩

/-! ## Looking for the parts -/

/-- Look for each part in what the parts before it have left, and return what
the last one leaves. -/
def cutParts [BEq α] : List (List α) → List α → Option (List α)
  | [], value => some value
  | part :: parts, value =>
      match value.dropInfix? part with
      | some (_, next) => cutParts parts next
      | none => none

/-- What is left of a value when the shortest beginning that the pattern
denotes is cut off. -/
inductive Cut (star : α) (pattern value : List α) : Option (List α) → Prop
  | found (cut rest : List α) (heq : cut ++ rest = value) (hcut : Glob star pattern cut)
      (hleast : ∀ other after, other ++ after = value → Glob star pattern other →
        cut.length ≤ other.length) :
      Cut star pattern value (some rest)
  | missing (h : ∀ other after, other ++ after = value → ¬ Glob star pattern other) :
      Cut star pattern value none

/-- Nothing is left exactly when the pattern denotes the value and no shorter
beginning of it. -/
theorem Cut.eq_nil_iff (h : Cut star pattern value (some rest)) :
    rest = [] ↔ Glob star pattern value ∧
      ¬ ∃ shorter, shorter <+: value ∧ shorter ≠ value ∧ Glob star pattern shorter := by
  cases h with
  | found cut _ heq hcut hleast =>
      constructor
      · rintro rfl
        rw [List.append_nil] at heq
        subst heq
        refine ⟨hcut, ?_⟩
        rintro ⟨shorter, ⟨after, hafter⟩, hne, hshorter⟩
        have hlen := congrArg List.length hafter
        rw [List.length_append] at hlen
        have hle := hleast shorter after hafter hshorter
        have hnil : after = [] := List.eq_nil_of_length_eq_zero (by omega)
        rw [hnil, List.append_nil] at hafter
        exact hne hafter
      · rintro ⟨-, hnone⟩
        by_contra hrest
        apply hnone
        refine ⟨cut, ⟨rest, heq⟩, ?_, hcut⟩
        intro hsame
        rw [hsame] at heq
        exact hrest (List.append_right_eq_self.1 heq)

/-- A part without stars in front is cut off literally. -/
theorem Cut.part {part next : List α} {result : Option (List α)} (hpart : star ∉ part)
    (h : Cut star pattern next result) : Cut star (part ++ pattern) (part ++ next) result := by
  cases h with
  | found cut rest heq hcut hleast =>
      apply Cut.found (part ++ cut) rest
      · rw [List.append_assoc, heq]
      · exact (glob_part_append hpart).2 ⟨cut, rfl, hcut⟩
      · intro other after hother hglob
        rcases (glob_part_append hpart).1 hglob with ⟨tail, rfl, htail⟩
        rw [List.append_assoc, List.append_cancel_left_eq] at hother
        have hle := hleast tail after hother htail
        simp only [List.length_append]
        omega
  | missing hnone =>
      apply Cut.missing
      intro other after hother hglob
      rcases (glob_part_append hpart).1 hglob with ⟨tail, rfl, htail⟩
      rw [List.append_assoc, List.append_cancel_left_eq] at hother
      exact hnone tail after hother htail

/-- A value that does not begin with the first part cannot be cut. -/
theorem Cut.of_not_prefix {part : List α} (hpart : star ∉ part) (h : ¬ part <+: value) :
    Cut star (part ++ pattern) value none := by
  apply Cut.missing
  intro other after hother hglob
  rcases (glob_part_append hpart).1 hglob with ⟨tail, rfl, -⟩
  rw [List.append_assoc] at hother
  exact h ⟨tail ++ after, hother⟩

theorem cut_nil : Cut star [] value (some value) := by
  apply Cut.found [] value rfl Glob.nil
  intro other after _ _
  exact Nat.zero_le _

section Search

variable [DecidableEq α]

/-- A part that occurs nowhere in the value cannot be found after a star. -/
theorem Cut.of_dropInfix?_eq_none {part : List α} (hpart : star ∉ part)
    (h : value.dropInfix? part = none) : Cut star (star :: (part ++ pattern)) value none := by
  apply Cut.missing
  intro other after hother hglob
  rcases glob_star_cons.1 hglob with ⟨filling, _, rfl, hvalue⟩
  rcases (glob_part_append hpart).1 hvalue with ⟨tail, rfl, -⟩
  apply ne_of_dropInfix?_eq_none h filling (tail ++ after)
  simpa using hother

/-- After a star, the part is best taken where it first occurs: a later
occurrence leaves less to the patterns that follow, and a star that follows
takes in the difference. -/
theorem Cut.of_dropInfix? {part early next : List α} {result : Option (List α)}
    (hpart : star ∉ part) (hdrop : value.dropInfix? part = some (early, next))
    (hpattern : pattern = [] ∨ ∃ tail, pattern = star :: tail)
    (h : Cut star pattern next result) :
    Cut star (star :: (part ++ pattern)) value result := by
  rcases List.dropInfix?_eq_some_iff.1 hdrop with ⟨⟨found, hvalue, hfound⟩, hfirst⟩
  rw [beq_iff_eq] at hfound
  subst hfound
  -- what another such beginning goes on with after the first occurrence
  have hbeyond : ∀ other after, other ++ after = value →
      Glob star (star :: (found ++ pattern)) other →
      ∃ beyond, early ++ found ++ beyond = other ∧ beyond ++ after = next ∧
        (pattern = [] ∨ Glob star pattern beyond) := by
    intro other after hother hglob
    rcases glob_star_cons.1 hglob with ⟨filling, _, rfl, hpart'⟩
    rcases (glob_part_append hpart).1 hpart' with ⟨tail, rfl, htail⟩
    have hle := hfirst filling found (tail ++ after) (by simp [← hother])
      (beq_self_eq_true found)
    have hsame : early ++ found ++ next = filling ++ found ++ (tail ++ after) := by
      simp [← hvalue, ← hother]
    rcases List.append_eq_append_iff.1 hsame with ⟨gap, hgap, hnext⟩ | ⟨gap, hgap, hnext⟩
    · refine ⟨gap ++ tail, ?_, by simp [hnext], ?_⟩
      · rw [← List.append_assoc, ← hgap, List.append_assoc]
      · rcases hpattern with hnil | ⟨tail', rfl⟩
        · exact Or.inl hnil
        · exact Or.inr (htail.absorb gap)
    · have hlen := congrArg List.length hgap
      simp only [List.length_append] at hlen
      have hgapnil : gap = [] := List.eq_nil_of_length_eq_zero (by omega)
      subst hgapnil
      rw [List.append_nil] at hgap
      rw [List.nil_append] at hnext
      exact ⟨tail, by simp [hgap], hnext, Or.inr htail⟩
  cases h with
  | found cut rest heq hcut hleast =>
      apply Cut.found (early ++ found ++ cut) rest
      · rw [hvalue, ← heq, List.append_assoc]
      · rw [List.append_assoc]
        exact Glob.star early ((glob_part_append hpart).2 ⟨cut, rfl, hcut⟩)
      · intro other after hother hglob
        rcases hbeyond other after hother hglob with ⟨beyond, rfl, hnext, hbeyond⟩
        simp only [List.length_append]
        apply Nat.add_le_add_left
        rcases hbeyond with rfl | hbeyond
        · rw [glob_nil.1 hcut]
          exact Nat.zero_le _
        · exact hleast beyond after hnext hbeyond
  | missing hnone =>
      apply Cut.missing
      intro other after hother hglob
      rcases hbeyond other after hother hglob with ⟨beyond, -, hnext, rfl | hbeyond⟩
      · exact hnone [] next rfl Glob.nil
      · exact hnone beyond after hnext hbeyond

theorem Cut.cutParts_cons {part : List α} {parts : List (List α)} (hpart : star ∉ part)
    (hpattern : pattern = [] ∨ ∃ tail, pattern = star :: tail)
    (h : ∀ next, Cut star pattern next (cutParts parts next)) :
    Cut star (star :: (part ++ pattern)) value (cutParts (part :: parts) value) := by
  rw [cutParts]
  cases hdrop : value.dropInfix? part with
  | none => exact Cut.of_dropInfix?_eq_none hpart hdrop
  | some found => exact Cut.of_dropInfix? hpart hdrop hpattern (h found.2)

/-- Looking for the parts of a pattern one after the other, each at its first
occurrence, cuts off the shortest beginning that the pattern denotes behind a
star. -/
theorem cutParts_cut (pattern value : List α) :
    Cut star (star :: pattern) value (cutParts (pattern.splitOn star) value) := by
  induction pattern using lines_induction star generalizing value with
  | nil => exact Cut.cutParts_cons List.not_mem_nil (Or.inl rfl) fun _ => cut_nil
  | last part hne hpart =>
      rw [List.splitOn_eq_singleton hpart]
      have h : Cut star (star :: (part ++ [])) value (cutParts [part] value) :=
        Cut.cutParts_cons hpart (Or.inl rfl) fun _ => cut_nil
      rwa [List.append_nil] at h
  | line part rest hpart ih =>
      rw [List.splitOn_append_cons_self_of_not_mem hpart]
      exact Cut.cutParts_cons hpart (Or.inr ⟨rest, rfl⟩) ih

end Search

end Foundation
