import Mathlib.Data.List.Basic

/-!
# Text, octets and lines

A text is a list of characters and a body a list of octets; `toUtf8` and
`fromUtf8` pass between them. `splitInclusive c` cuts a list after every
occurrence of `c` and keeps the terminator in its piece, and `lines_induction`
is the induction that follows such a cut: a list is empty, or a last piece
without terminator, or a terminated piece followed by a list. Cutting the
octets of a text at the newline octet is the same as cutting the text at the
newline character.
-/

namespace Foundation

/-! ## Encoding -/

/-- The UTF-8 octets of a text. -/
def toUtf8 (text : List Char) : List UInt8 :=
  text.flatMap String.utf8EncodeChar

/-- The text whose UTF-8 octets are `octets`, when there is one. -/
def fromUtf8 (octets : List UInt8) : Option (List Char) :=
  octets.toByteArray.utf8Decode?.map Array.toList

@[simp] theorem toUtf8_nil : toUtf8 [] = [] := rfl

@[simp] theorem toUtf8_append (s t : List Char) :
    toUtf8 (s ++ t) = toUtf8 s ++ toUtf8 t := by
  simp [toUtf8]

theorem toUtf8_flatten (texts : List (List Char)) :
    toUtf8 texts.flatten = (texts.map toUtf8).flatten := by
  induction texts with
  | nil => rfl
  | cons text texts ih => simp [ih]

theorem toUtf8_cons (c : Char) (t : List Char) :
    toUtf8 (c :: t) = String.utf8EncodeChar c ++ toUtf8 t := by
  simp [toUtf8]

@[simp] theorem fromUtf8_toUtf8 (text : List Char) : fromUtf8 (toUtf8 text) = some text := by
  have h : (toUtf8 text).toByteArray.utf8Decode? = some text.toArray :=
    List.utf8Decode?_utf8Encode
  simp [fromUtf8, h]

theorem toUtf8_of_fromUtf8 {octets : List UInt8} {text : List Char}
    (h : fromUtf8 octets = some text) : toUtf8 text = octets := by
  obtain ⟨chars, hchars, rfl⟩ := Option.map_eq_some_iff.1 h
  have hget : octets.toByteArray.utf8Decode?.get (by simp [hchars]) = chars := by
    simp [hchars]
  have henc := ByteArray.utf8Encode_get_utf8Decode? (b := octets.toByteArray)
    (h := by simp [hchars])
  rw [hget] at henc
  have hdata : (toUtf8 chars.toList).toByteArray = octets.toByteArray := henc
  simpa using congrArg (fun b => b.data.toList) hdata

theorem ofNat_ne_ofNat {m n : ℕ} (hm : m < 256) (hn : n < 256) (h : n ≠ m) :
    UInt8.ofNat m ≠ UInt8.ofNat n := by
  intro heq
  have hnat := congrArg UInt8.toNat heq
  rw [UInt8.toNat_ofNat', UInt8.toNat_ofNat', Nat.mod_eq_of_lt hm, Nat.mod_eq_of_lt hn] at hnat
  exact h hnat.symm

/-- A character has no octet of another character below 128. -/
theorem ascii_notMem_utf8EncodeChar {c d : Char} (hd : d.toNat < 128) (hc : c ≠ d) :
    UInt8.ofNat d.toNat ∉ String.utf8EncodeChar c := by
  have hval : c.val.toNat ≠ d.toNat := fun h => hc (Char.ext (UInt32.toNat_inj.1 h))
  unfold String.utf8EncodeChar
  generalize c.val.toNat = v at hval
  generalize d.toNat = w at hd hval
  have hw : w < 256 := by omega
  intro hmem
  -- only the one-octet encoding can reach below 128, and there it is `v` itself
  simp only at hmem
  split at hmem
  · exact ofNat_ne_ofNat hw (by omega) hval (List.mem_singleton.1 hmem)
  · split at hmem
    · simp only [List.mem_cons, List.not_mem_nil, or_false] at hmem
      rcases hmem with h | h <;> exact ofNat_ne_ofNat hw (by omega) (by omega) h
    · split at hmem
      · simp only [List.mem_cons, List.not_mem_nil, or_false] at hmem
        rcases hmem with h | h | h <;> exact ofNat_ne_ofNat hw (by omega) (by omega) h
      · simp only [List.mem_cons, List.not_mem_nil, or_false] at hmem
        rcases hmem with h | h | h | h <;> exact ofNat_ne_ofNat hw (by omega) (by omega) h

theorem ascii_notMem_toUtf8 {text : List Char} {d : Char} (hd : d.toNat < 128) (h : d ∉ text) :
    UInt8.ofNat d.toNat ∉ toUtf8 text := by
  intro hmem
  obtain ⟨c, hc, hoctet⟩ := List.mem_flatMap.1 hmem
  exact ascii_notMem_utf8EncodeChar hd (fun hn => h (hn ▸ hc)) hoctet

theorem newline_notMem_toUtf8 {text : List Char} (h : '\n' ∉ text) :
    (10 : UInt8) ∉ toUtf8 text :=
  ascii_notMem_toUtf8 (by decide) h

@[simp] theorem toUtf8_newline_cons (t : List Char) :
    toUtf8 ('\n' :: t) = 10 :: toUtf8 t := by
  rw [toUtf8_cons]
  rfl

theorem toUtf8_eq_nil_iff {text : List Char} : toUtf8 text = [] ↔ text = [] := by
  constructor
  · intro h
    have := fromUtf8_toUtf8 text
    rw [h] at this
    simpa [fromUtf8] using this.symm
  · rintro rfl
    rfl

/-! ## Lines -/

section Lines

variable {α : Type*} [DecidableEq α]

/-- Cut a list after every `c`, keeping each `c` at the end of its piece. -/
def splitInclusive (c : α) : List α → List (List α)
  | [] => []
  | x :: xs =>
      if x = c then [x] :: splitInclusive c xs
      else match splitInclusive c xs with
        | [] => [[x]]
        | l :: ls => (x :: l) :: ls

@[simp] theorem splitInclusive_nil (c : α) : splitInclusive c [] = [] := rfl

/-- A terminated piece followed by more. -/
theorem splitInclusive_append_cons {c : α} {l : List α} (hl : c ∉ l) (xs : List α) :
    splitInclusive c (l ++ c :: xs) = (l ++ [c]) :: splitInclusive c xs := by
  induction l with
  | nil => simp [splitInclusive]
  | cons x l ih =>
      have hx : x ≠ c := fun h => hl (h ▸ List.mem_cons_self)
      have hl' : c ∉ l := fun h => hl (List.mem_cons_of_mem _ h)
      rw [List.cons_append, splitInclusive, if_neg hx, ih hl']
      rfl

/-- A last piece without terminator. -/
theorem splitInclusive_of_notMem {c : α} {l : List α} (hne : l ≠ []) (hl : c ∉ l) :
    splitInclusive c l = [l] := by
  induction l with
  | nil => exact absurd rfl hne
  | cons x l ih =>
      have hx : x ≠ c := fun h => hl (h ▸ List.mem_cons_self)
      have hl' : c ∉ l := fun h => hl (List.mem_cons_of_mem _ h)
      rw [splitInclusive, if_neg hx]
      by_cases hnil : l = []
      · simp [hnil]
      · rw [ih hnil hl']

/-- Induction along the lines of a list. -/
@[elab_as_elim]
theorem lines_induction (c : α) {motive : List α → Prop} (nil : motive [])
    (last : ∀ l, l ≠ [] → c ∉ l → motive l)
    (line : ∀ l xs, c ∉ l → motive xs → motive (l ++ c :: xs)) (xs : List α) :
    motive xs := by
  induction hn : xs.length using Nat.strongRecOn generalizing xs with
  | ind n ih =>
      by_cases hc : c ∈ xs
      · obtain ⟨l, t, rfl, hl⟩ := List.eq_append_cons_of_mem hc
        refine line l t hl (ih t.length ?_ t rfl)
        rw [List.length_append, List.length_cons] at hn
        omega
      · by_cases hne : xs = []
        · exact hne ▸ nil
        · exact last xs hne hc

/-- Putting the pieces together again gives the list back. -/
theorem flatten_splitInclusive (c : α) (xs : List α) :
    (splitInclusive c xs).flatten = xs := by
  induction xs using lines_induction c with
  | nil => rfl
  | last l hne hl => simp [splitInclusive_of_notMem hne hl]
  | line l xs hl ih => simp [splitInclusive_append_cons hl, ih]

end Lines

/-- Cutting the octets of a text into lines is cutting the text into lines. -/
theorem splitInclusive_toUtf8 (text : List Char) :
    splitInclusive 10 (toUtf8 text) = (splitInclusive '\n' text).map toUtf8 := by
  induction text using lines_induction '\n' with
  | nil => rfl
  | last l hne hl =>
      have hne' : toUtf8 l ≠ [] := fun h => hne (toUtf8_eq_nil_iff.1 h)
      rw [splitInclusive_of_notMem hne hl,
        splitInclusive_of_notMem hne' (newline_notMem_toUtf8 hl)]
      rfl
  | line l xs hl ih =>
      rw [toUtf8_append, toUtf8_newline_cons,
        splitInclusive_append_cons (newline_notMem_toUtf8 hl),
        splitInclusive_append_cons hl, ih]
      simp

/-! ## Cutting once -/

section Cutting

variable {α : Type*} [BEq α] [LawfulBEq α]

/-- A part is not found in a list without its first element. -/
theorem dropInfix?_cons_eq_none {s part : List α} {c : α} (h : c ∉ s) :
    s.dropInfix? (c :: part) = none := by
  cases hdrop : s.dropInfix? (c :: part) with
  | none => rfl
  | some parts =>
      obtain ⟨⟨sep, rfl, hsep⟩, -⟩ := List.dropInfix?_eq_some_iff.1 hdrop
      rw [beq_iff_eq] at hsep
      simp [hsep] at h

/-- A part is found where its first element first occurs, if it is there. -/
theorem dropInfix?_cons {before part after : List α} {c : α} (h : c ∉ before) :
    (before ++ (c :: part ++ after)).dropInfix? (c :: part) = some (before, after) := by
  apply List.dropInfix?_eq_some_iff.2
  refine ⟨⟨c :: part, by simp, beq_self_eq_true _⟩, fun early sep late heq hsep => ?_⟩
  rw [beq_iff_eq] at hsep
  by_contra hlt
  have hget : (before ++ (c :: part ++ after))[early.length]? = some c := by
    rw [heq, hsep]
    simp
  rw [List.getElem?_append_left (Nat.not_le.1 hlt)] at hget
  exact h (List.mem_of_getElem? hget)

theorem dropInfix?_singleton_eq_none {s : List α} {c : α} (h : c ∉ s) :
    s.dropInfix? [c] = none :=
  dropInfix?_cons_eq_none h

/-- A list is cut at the first occurrence of an element. -/
theorem dropInfix?_singleton {before after : List α} {c : α} (h : c ∉ before) :
    (before ++ c :: after).dropInfix? [c] = some (before, after) :=
  dropInfix?_cons h

theorem dropInfix?_go_eq_none {part s acc : List α} (h : List.dropInfix?.go part s acc = none)
    (early late : List α) : early ++ part ++ late ≠ s := by
  induction s generalizing acc early with
  | nil =>
      intro heq
      have hpart : part = [] := by
        simp only [List.append_eq_nil_iff] at heq
        exact heq.1.2
      simp [hpart, List.dropInfix?.go] at h
  | cons a s ih =>
      rw [List.dropInfix?.go] at h
      cases hdrop : (a :: s).dropPrefix? part with
      | some rest => simp [hdrop] at h
      | none =>
          rw [hdrop] at h
          intro heq
          cases early with
          | nil =>
              rw [List.nil_append] at heq
              rw [← heq, List.dropPrefix?_append_of_beq late (beq_self_eq_true part)] at hdrop
              cases hdrop
          | cons b early =>
              rw [List.cons_append, List.cons_append, List.cons.injEq] at heq
              exact ih h early heq.2

/-- A part that is not found does not occur. -/
theorem ne_of_dropInfix?_eq_none {s part : List α} (h : s.dropInfix? part = none)
    (early late : List α) : early ++ part ++ late ≠ s :=
  dropInfix?_go_eq_none h early late

theorem eq_append_of_dropInfix?_singleton {s before after : List α} {c : α}
    (h : s.dropInfix? [c] = some (before, after)) : s = before ++ c :: after := by
  obtain ⟨⟨sep, rfl, hsep⟩, -⟩ := List.dropInfix?_eq_some_iff.1 h
  rw [beq_iff_eq] at hsep
  simp [hsep]

/-- The cut is at the first occurrence. -/
theorem notMem_of_dropInfix?_singleton {s before after : List α} {c : α}
    (h : s.dropInfix? [c] = some (before, after)) : c ∉ before := by
  intro hmem
  rcases List.append_of_mem hmem with ⟨early, late, rfl⟩
  rcases List.dropInfix?_eq_some_iff.1 h with ⟨-, hfirst⟩
  have hle := hfirst early [c] (late ++ c :: after)
    (by rw [eq_append_of_dropInfix?_singleton h]; simp) (beq_self_eq_true [c])
  rw [List.length_append, List.length_cons] at hle
  omega

end Cutting

/-! ## Joining -/

section Joining

theorem intercalate_cons_cons {α : Type*} (c : α) (text next : List α) (rest : List (List α)) :
    List.intercalate [c] (text :: next :: rest) =
      text ++ c :: List.intercalate [c] (next :: rest) := by
  simp [List.intercalate]

theorem eq_nil_of_intercalate_eq_nil {α : Type*} {c : α} {text : List α} {rest : List (List α)}
    (h : List.intercalate [c] (text :: rest) = []) : text = [] := by
  cases rest with
  | nil => simpa [List.intercalate] using h
  | cons next rest =>
      rw [intercalate_cons_cons] at h
      simp at h

theorem notMem_intercalate {α : Type*} {c d : α} {texts : List (List α)} (hne : d ≠ c)
    (h : ∀ text ∈ texts, d ∉ text) : d ∉ List.intercalate [c] texts := by
  induction texts with
  | nil => simp [List.intercalate]
  | cons text texts ih =>
      have hrest := ih fun other hother => h other (List.mem_cons_of_mem _ hother)
      have htext := h text List.mem_cons_self
      cases texts with
      | nil => simpa [List.intercalate] using htext
      | cons next rest =>
          rw [intercalate_cons_cons]
          simp only [List.mem_append, List.mem_cons, not_or]
          exact ⟨htext, hne, hrest⟩

variable {α : Type*} [BEq α] [LawfulBEq α] {c : α}

/-- Cutting joined texts cuts each of them. -/
theorem splitOn_intercalate_eq_flatMap {texts : List (List α)} (hne : texts ≠ []) :
    (List.intercalate [c] texts).splitOn c = texts.flatMap (List.splitOn c) := by
  induction texts with
  | nil => exact absurd rfl hne
  | cons text texts ih =>
      cases texts with
      | nil => simp [List.intercalate]
      | cons next rest =>
          rw [intercalate_cons_cons, List.splitOn_append_cons_self, ih (List.cons_ne_nil _ _)]
          rfl

theorem flatMap_splitOn_of_notMem {texts : List (List α)} (h : ∀ text ∈ texts, c ∉ text) :
    texts.flatMap (List.splitOn c) = texts := by
  induction texts with
  | nil => rfl
  | cons text texts ih =>
      rw [List.flatMap_cons, List.splitOn_eq_singleton (h text List.mem_cons_self),
        ih fun other hother => h other (List.mem_cons_of_mem _ hother)]
      rfl

omit [LawfulBEq α] in
theorem length_le_flatMap_splitOn (texts : List (List α)) :
    texts.length ≤ (texts.flatMap (List.splitOn c)).length := by
  induction texts with
  | nil => exact Nat.le_refl _
  | cons text texts ih =>
      have hpos := List.length_pos_iff.2 (List.splitOn_ne_nil c text)
      rw [List.flatMap_cons, List.length_append, List.length_cons]
      omega

/-- Texts that cutting leaves as many have nothing to be cut at. -/
theorem notMem_of_length_flatMap_splitOn {texts : List (List α)}
    (h : (texts.flatMap (List.splitOn c)).length = texts.length) : ∀ text ∈ texts, c ∉ text := by
  induction texts with
  | nil => simp
  | cons text texts ih =>
      have hpos := List.length_pos_iff.2 (List.splitOn_ne_nil c text)
      have hrest := length_le_flatMap_splitOn (c := c) texts
      rw [List.flatMap_cons, List.length_append, List.length_cons] at h
      intro other hother
      rcases List.mem_cons.1 hother with rfl | hother
      · intro hmem
        rcases List.append_of_mem hmem with ⟨before, after, rfl⟩
        have hbefore := List.length_pos_iff.2 (List.splitOn_ne_nil c before)
        have hafter := List.length_pos_iff.2 (List.splitOn_ne_nil c after)
        rw [List.splitOn_append_cons_self, List.length_append] at h
        omega
      · exact ih (by omega) other hother

/-- As many texts, one of the lists without the separator, are determined by how they are
joined. -/
theorem intercalate_inj {texts others : List (List α)} (hne : texts ≠ [])
    (hnot : ∀ text ∈ texts, c ∉ text) (hlength : others.length = texts.length)
    (h : List.intercalate [c] others = List.intercalate [c] texts) : others = texts := by
  have hne' : others ≠ [] := by
    rintro rfl
    exact hne (List.eq_nil_of_length_eq_zero hlength.symm)
  have hcut := congrArg (List.splitOn c) h
  rw [splitOn_intercalate_eq_flatMap hne, splitOn_intercalate_eq_flatMap hne',
    flatMap_splitOn_of_notMem hnot] at hcut
  rw [← hcut]
  symm
  apply flatMap_splitOn_of_notMem
  apply notMem_of_length_flatMap_splitOn
  rw [hcut, hlength]

end Joining

end Foundation
