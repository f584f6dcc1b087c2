import Mathlib.Data.List.Basic

/-!
# JSON texts

A JSON value is a tree, in which an object keeps its fields in order, and a number the text
it is written as. `Json.print` writes a tree without white space. The texts of strings are a
prefix code: `quote_append_inj` says that a string and what follows it can be read back from
a text, whatever the string contains.
-/

namespace Foundation

/-- The tree of a JSON text. -/
inductive Json
  | null
  | bool (b : Bool)
  | number (text : List Char)
  | string (s : List Char)
  | array (values : List Json)
  | object (fields : List (List Char × Json))

/-! ## Strings -/

def hexLower (n : ℕ) : Char :=
  "0123456789abcdef".toList.getD n '0'

/-- What a character is written as inside of a string. -/
def escapeChar (c : Char) : List Char :=
  if c = '"' then ['\\', '"']
  else if c = '\\' then ['\\', '\\']
  else if c = '\n' then ['\\', 'n']
  else if c = '\r' then ['\\', 'r']
  else if c = '\t' then ['\\', 't']
  else if c.toNat = 8 then ['\\', 'b']
  else if c.toNat = 12 then ['\\', 'f']
  else if c.toNat < 32 then ['\\', 'u', '0', '0', hexLower (c.toNat / 16), hexLower (c.toNat % 16)]
  else [c]

/-- A string between its quotation marks. -/
def quote (s : List Char) : List Char :=
  '"' :: s.flatMap escapeChar ++ ['"']

def hexValue (c : Char) : ℕ :=
  "0123456789abcdef".toList.idxOf c

/-- Read one character of a string back. -/
def unescape : List Char → Option (Char × List Char)
  | '"' :: _ => none
  | '\\' :: 'n' :: rest => some ('\n', rest)
  | '\\' :: 'r' :: rest => some ('\r', rest)
  | '\\' :: 't' :: rest => some ('\t', rest)
  | '\\' :: 'b' :: rest => some (Char.ofNat 8, rest)
  | '\\' :: 'f' :: rest => some (Char.ofNat 12, rest)
  | '\\' :: 'u' :: '0' :: '0' :: high :: low :: rest =>
      some (Char.ofNat (16 * hexValue high + hexValue low), rest)
  | '\\' :: c :: rest => some (c, rest)
  | c :: rest => some (c, rest)
  | [] => none

theorem hexValue_hexLower {n : ℕ} (h : n < 16) : hexValue (hexLower n) = n := by
  revert n
  decide

/-- The text of one character determines it. -/
theorem unescape_escapeChar (c : Char) (rest : List Char) :
    unescape (escapeChar c ++ rest) = some (c, rest) := by
  unfold escapeChar
  split_ifs with hquote hslash hn hr ht hb hf hcontrol
  · subst hquote; rfl
  · subst hslash; rfl
  · subst hn; rfl
  · subst hr; rfl
  · subst ht; rfl
  · have hc : Char.ofNat 8 = c := by rw [← hb, Char.ofNat_toNat]
    change some (Char.ofNat 8, rest) = some (c, rest)
    rw [hc]
  · have hc : Char.ofNat 12 = c := by rw [← hf, Char.ofNat_toNat]
    change some (Char.ofNat 12, rest) = some (c, rest)
    rw [hc]
  · have hhigh : hexValue (hexLower (c.toNat / 16)) = c.toNat / 16 :=
      hexValue_hexLower (by omega)
    have hlow : hexValue (hexLower (c.toNat % 16)) = c.toNat % 16 :=
      hexValue_hexLower (by omega)
    have hc : Char.ofNat (16 * (c.toNat / 16) + c.toNat % 16) = c := by
      rw [Nat.div_add_mod, Char.ofNat_toNat]
    simp only [List.cons_append, List.nil_append, unescape, hhigh, hlow, hc]
  · rw [List.singleton_append, unescape.eq_def]
    split <;> simp_all

/-- A string and what follows it are determined by their text. -/
theorem quote_append_inj {s t rest rest' : List Char}
    (h : quote s ++ rest = quote t ++ rest') : s = t ∧ rest = rest' := by
  simp only [quote, List.cons_append, List.append_assoc, List.nil_append, List.cons.injEq,
    true_and] at h
  induction s generalizing t with
  | nil =>
      cases t with
      | nil => exact ⟨rfl, (List.cons.inj h).2⟩
      | cons d t =>
          have hread := congrArg unescape h
          rw [List.flatMap_cons, List.append_assoc, unescape_escapeChar] at hread
          cases hread
  | cons c s ih =>
      cases t with
      | nil =>
          have hread := congrArg unescape h
          rw [List.flatMap_cons, List.append_assoc, unescape_escapeChar] at hread
          cases hread
      | cons d t =>
          have hread := congrArg unescape h
          simp only [List.flatMap_cons, List.append_assoc, unescape_escapeChar,
            Option.some.injEq, Prod.mk.injEq] at hread
          obtain ⟨rfl, hrest⟩ := ih hread.2
          exact ⟨by rw [hread.1], hrest⟩

/-! ## Trees -/

namespace Json

mutual

/-- A tree as a text without white space. -/
def print : Json → List Char
  | .null => "null".toList
  | .bool b => if b then "true".toList else "false".toList
  | .number text => text
  | .string s => quote s
  | .array values => '[' :: printValues values ++ [']']
  | .object fields => '{' :: printFields fields ++ ['}']

def printValues : List Json → List Char
  | [] => []
  | [value] => print value
  | value :: values => print value ++ ',' :: printValues values

def printFields : List (List Char × Json) → List Char
  | [] => []
  | [(name, value)] => quote name ++ ':' :: print value
  | (name, value) :: fields => quote name ++ ':' :: print value ++ ',' :: printFields fields

end

end Json

end Foundation
