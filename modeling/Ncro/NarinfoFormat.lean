import Ncro.Foundation.Checks
import Ncro.RewrittenNarinfo
import Ncro.SignedMetadata

/-!
# Narinfos as lists of fields

The parser keeps one narinfo and overwrites its fields line by line. Seen as a
whole, a body is a list of fields `key: value`, and what is parsed from it has
for each key the last value given, for `Sig` all of them. Every narinfo whose
texts fit on lines, whose references have no white space and whose sizes fit in
64 bits is parsed from its own fields, and no other narinfo is ever parsed.
-/

namespace Ncro

open Foundation

/-- The key and the value of a line. -/
abbrev Field := Str × Str

/-- The keys the parser knows. -/
def fieldKeys : List String :=
  ["StorePath", "URL", "Compression", "FileHash", "FileSize", "NarHash", "NarSize", "References",
    "Deriver", "Sig", "CA"]

/-- The lines of a text that are not empty, without their terminators. -/
def textLines (text : Str) : List Str :=
  ((splitInclusive '\n' text).map fun chunk => (splitLineEnding chunk).1).filter (· ≠ [])

/-- A line is cut at its first colon that is followed by a space. -/
def fieldOfLine (line : Str) : Option Field :=
  line.dropInfix? ": ".toList

/-- The fields of a text, when every line has one. -/
def textFields (text : Str) : Option (List Field) :=
  (textLines text).mapM fieldOfLine

/-- What some fields say of a key. -/
def valuesOf (key : String) (fields : List Field) : List Str :=
  fields.filterMap fun field => if field.1 = key.toList then some field.2 else none

/-- The sizes that some fields give a key. -/
def sizesOf (key : String) (fields : List Field) : List ℕ :=
  (valuesOf key fields).filterMap fun value => (parseU64 value).toOption

/-- Every size that is given can be read. -/
def SizesReadable (fields : List Field) : Prop :=
  ∀ key ∈ ["FileSize", "NarSize"], ∀ value ∈ valuesOf key fields,
    ∃ size, parseU64 value = .ok size

namespace NarInfo

/-- A narinfo after some fields: of each key the last value counts, of `Sig` all
of them, and of `References` the last one that is not empty. -/
def updated (n : NarInfo) (fields : List Field) : NarInfo where
  storePath := (valuesOf "StorePath" fields).getLast?.getD n.storePath
  url := (valuesOf "URL" fields).getLast?.getD n.url
  compression := (valuesOf "Compression" fields).getLast?.getD n.compression
  fileHash := (valuesOf "FileHash" fields).getLast?.getD n.fileHash
  fileSize := (sizesOf "FileSize" fields).getLast?.getD n.fileSize
  narHash := (valuesOf "NarHash" fields).getLast?.getD n.narHash
  narSize := (sizesOf "NarSize" fields).getLast?.getD n.narSize
  references := ((valuesOf "References" fields).filter (· ≠ [])).getLast?.elim n.references
    splitWhitespace
  deriver := (valuesOf "Deriver" fields).getLast?.getD n.deriver
  sig := n.sig ++ valuesOf "Sig" fields
  ca := (valuesOf "CA" fields).getLast?.getD n.ca

end NarInfo

/-! ## Writing -/

/-- A text of some fields, a line each. -/
def writeFields (fields : List Field) : Str :=
  fields.flatMap fun field => field.1 ++ ": ".toList ++ field.2 ++ ['\r', '\n']

namespace NarInfo

/-- The fields of a narinfo. -/
def fields (n : NarInfo) : List Field :=
  [("StorePath".toList, n.storePath), ("URL".toList, n.url),
    ("Compression".toList, n.compression), ("FileHash".toList, n.fileHash),
    ("FileSize".toList, (Nat.repr n.fileSize).toList), ("NarHash".toList, n.narHash),
    ("NarSize".toList, (Nat.repr n.narSize).toList),
    ("References".toList, List.intercalate [' '] n.references), ("Deriver".toList, n.deriver)] ++
    n.sig.map (fun sigLine => ("Sig".toList, sigLine)) ++ [("CA".toList, n.ca)]

def write (n : NarInfo) : Octets :=
  toUtf8 (writeFields n.fields)

/-- A narinfo that can be written: every text fits on a line, no reference has
white space, sizes have 64 bits, and there is a store path. -/
structure Writable (n : NarInfo) : Prop where
  storePath : n.storePath ≠ []
  line : ∀ text ∈ [n.storePath, n.url, n.compression, n.fileHash, n.narHash, n.deriver, n.ca] ++
    n.sig, '\n' ∉ text
  references : ∀ reference ∈ n.references,
    reference ≠ [] ∧ ∀ c ∈ reference, isWhitespace c = false
  fileSize : n.fileSize < 2 ^ 64
  narSize : n.narSize < 2 ^ 64

end NarInfo

/-! ## Fields -/

@[simp] theorem valuesOf_nil (key : String) : valuesOf key [] = [] := rfl

@[simp] theorem sizesOf_nil (key : String) : sizesOf key [] = [] := rfl

theorem valuesOf_append (key : String) (fields more : List Field) :
    valuesOf key (fields ++ more) = valuesOf key fields ++ valuesOf key more :=
  List.filterMap_append

theorem sizesOf_append (key : String) (fields more : List Field) :
    sizesOf key (fields ++ more) = sizesOf key fields ++ sizesOf key more := by
  rw [sizesOf, valuesOf_append, List.filterMap_append]
  rfl

theorem valuesOf_singleton (key : String) (field : Field) :
    valuesOf key [field] = if field.1 = key.toList then [field.2] else [] := by
  by_cases hkey : field.1 = key.toList
  · simp [valuesOf, hkey]
  · simp [valuesOf, hkey]

theorem mem_of_mem_valuesOf {key : String} {fields : List Field} {value : Str}
    (h : value ∈ valuesOf key fields) : (key.toList, value) ∈ fields := by
  rcases List.mem_filterMap.1 h with ⟨⟨fieldKey, fieldValue⟩, hfield, hvalue⟩
  split at hvalue
  · next hkey =>
    cases hvalue
    exact hkey ▸ hfield
  · cases hvalue

theorem sizesReadable_append {fields more : List Field} :
    SizesReadable (fields ++ more) ↔ SizesReadable fields ∧ SizesReadable more := by
  simp only [SizesReadable, valuesOf_append, List.forall_mem_append]
  constructor
  · exact fun h => ⟨fun key hkey => (h key hkey).1, fun key hkey => (h key hkey).2⟩
  · exact fun h key hkey => ⟨h.1 key hkey, h.2 key hkey⟩

namespace NarInfo

@[simp] theorem updated_nil (n : NarInfo) : n.updated [] = n := by
  simp [updated]

theorem updated_append (n : NarInfo) (fields more : List Field) :
    n.updated (fields ++ more) = (n.updated fields).updated more := by
  have hlast : ∀ {α : Type} (values others : List α) (start : α),
      (values ++ others).getLast?.getD start = others.getLast?.getD (values.getLast?.getD start) := by
    intro α values others start
    rw [List.getLast?_append]
    cases others.getLast? with
    | none => rfl
    | some value => rfl
  have helim : ∀ (values others : List Str) (start : List Str),
      (values ++ others).getLast?.elim start splitWhitespace =
        others.getLast?.elim (values.getLast?.elim start splitWhitespace) splitWhitespace := by
    intro values others start
    rw [List.getLast?_append]
    cases others.getLast? with
    | none => rfl
    | some value => rfl
  simp only [updated, valuesOf_append, sizesOf_append, List.filter_append, hlast, helim,
    List.append_assoc]

/-- A key that the parser does not know says nothing. -/
theorem valuesOf_unknown {key : Str} (h : key ∉ fieldKeys.map String.toList) (value : Str) :
    ∀ known ∈ fieldKeys, valuesOf known [(key, value)] = [] := by
  intro known hmem
  rw [valuesOf_singleton, if_neg]
  exact fun heq => h (List.mem_map.2 ⟨known, hmem, heq.symm⟩)

theorem setField_unknown {n : NarInfo} {key : Str} (h : key ∉ fieldKeys.map String.toList)
    (value : Str) : n.setField key value = .ok n := by
  simp only [fieldKeys, List.map_cons, List.map_nil, List.mem_cons, List.not_mem_nil, or_false,
    not_or] at h
  rcases h with ⟨hpath, hurl, hcompression, hfileHash, hfileSize, hnarHash, hnarSize, hreferences,
    hderiver, hsig, hca⟩
  rw [setField, if_neg hpath, if_neg hurl, if_neg hcompression, if_neg hfileHash,
    if_neg hfileSize, if_neg hnarHash, if_neg hnarSize, if_neg fun hboth => hreferences hboth.1,
    if_neg hderiver, if_neg hsig, if_neg hca]

/-- One field, which is refused only as a size that cannot be read. -/
theorem setField_eq_ok_iff {n m : NarInfo} {key value : Str} :
    n.setField key value = .ok m ↔
      SizesReadable [(key, value)] ∧ n.updated [(key, value)] = m := by
  by_cases hknown : key ∈ fieldKeys.map String.toList
  · simp only [fieldKeys, List.map_cons, List.map_nil, List.mem_cons, List.not_mem_nil,
      or_false] at hknown
    rcases hknown with rfl | rfl | rfl | rfl | rfl | rfl | rfl | rfl | rfl | rfl | rfl
    -- the sizes
    case inr.inr.inr.inr.inl | inr.inr.inr.inr.inr.inr.inl =>
      cases hsize : parseU64 value with
      | ok size =>
          simp [setField, updated, SizesReadable, sizesOf, valuesOf_singleton, hsize,
            Except.toOption]
      | error err => simp [setField, SizesReadable, valuesOf_singleton, hsize]
    -- the references
    case inr.inr.inr.inr.inr.inr.inr.inl =>
      by_cases hvalue : value = []
      · simp [setField, updated, SizesReadable, sizesOf, valuesOf_singleton, hvalue]
      · simp [setField, updated, SizesReadable, sizesOf, valuesOf_singleton, hvalue]
    all_goals simp [setField, updated, SizesReadable, sizesOf, valuesOf_singleton]
  · have hvalues := valuesOf_unknown hknown value
    have hreadable : SizesReadable [(key, value)] := by
      intro known hmem given hgiven
      rw [hvalues known] at hgiven
      · cases hgiven
      · simp only [List.mem_cons, List.not_mem_nil, or_false] at hmem
        rcases hmem with rfl | rfl
        · simp [fieldKeys]
        · simp [fieldKeys]
    have hupdated : n.updated [(key, value)] = n := by
      simp only [fieldKeys, List.forall_mem_cons] at hvalues
      simp [updated, sizesOf, hvalues]
    rw [setField_unknown hknown, hupdated, Except.ok.injEq]
    exact (and_iff_right hreadable).symm

/-- Field after field is what the fields say together. -/
theorem foldlM_setField_eq_ok_iff {fields : List Field} {n m : NarInfo} :
    fields.foldlM (fun n field => n.setField field.1 field.2) n = .ok m ↔
      SizesReadable fields ∧ n.updated fields = m := by
  induction fields generalizing n with
  | nil => simp [pure, Except.pure, SizesReadable]
  | cons field fields ih =>
      rw [List.foldlM_cons, ← List.singleton_append, sizesReadable_append, updated_append,
        bind_eq_ok_iff]
      constructor
      · rintro ⟨after, hset, hrest⟩
        rcases setField_eq_ok_iff.1 hset with ⟨hreadable, rfl⟩
        rcases ih.1 hrest with ⟨hfields, hm⟩
        exact ⟨⟨hreadable, hfields⟩, hm⟩
      · rintro ⟨⟨hreadable, hfields⟩, hm⟩
        exact ⟨n.updated [field], setField_eq_ok_iff.2 ⟨hreadable, rfl⟩, ih.2 ⟨hfields, hm⟩⟩

theorem parseLine_eq_ok_iff {n m : NarInfo} {line : Str} (h : line ≠ []) :
    n.parseLine line = .ok m ↔
      ∃ field, fieldOfLine line = some field ∧ n.setField field.1 field.2 = .ok m := by
  rw [parseLine, if_neg h, fieldOfLine]
  cases line.dropInfix? ": ".toList with
  | none => simp
  | some field => simp

/-- Line after line is the fields of the lines. -/
theorem foldlM_parseLine_eq_ok_iff {lines : List Str} {n m : NarInfo} :
    lines.foldlM parseLine n = .ok m ↔
      ∃ fields, (lines.filter (· ≠ [])).mapM fieldOfLine = some fields ∧
        fields.foldlM (fun n field => n.setField field.1 field.2) n = .ok m := by
  induction lines generalizing n with
  | nil => simp
  | cons line lines ih =>
      rw [List.foldlM_cons, bind_eq_ok_iff]
      by_cases hempty : line = []
      · simp [hempty, parseLine, ih]
      · rw [List.filter_cons_of_pos (by simpa using hempty)]
        simp only [List.mapM_cons, parseLine_eq_ok_iff hempty, ih, Option.bind_eq_bind,
          Option.bind_eq_some_iff, Option.pure_def, Option.some.injEq]
        constructor
        · rintro ⟨after, ⟨field, hfield, hset⟩, fields, hfields, hrest⟩
          refine ⟨field :: fields, ⟨field, hfield, fields, hfields, rfl⟩, ?_⟩
          rw [List.foldlM_cons, hset]
          exact hrest
        · rintro ⟨all, ⟨field, hfield, fields, hfields, rfl⟩, hrest⟩
          rw [List.foldlM_cons, bind_eq_ok_iff] at hrest
          rcases hrest with ⟨after, hset, hrest⟩
          exact ⟨after, ⟨field, hfield, hset⟩, fields, hfields, hrest⟩

theorem parseText_eq_foldlM (n : NarInfo) (text : Str) :
    n.parseText text =
      ((splitInclusive '\n' text).map fun chunk => (splitLineEnding chunk).1).foldlM parseLine n := by
  rw [parseText, List.foldlM_map]

end NarInfo

/-! ## Sizes and references -/

theorem le_ofDigitChars (digits : Str) (start : ℕ) : start ≤ Nat.ofDigitChars 10 digits start := by
  rw [Nat.ofDigitChars_eq_ofDigitChars_zero]
  have hpow : 1 * start ≤ 10 ^ digits.length * start :=
    Nat.mul_le_mul_right start (Nat.one_le_pow _ _ (by decide))
  omega

theorem parseDigits_of_isDigit {digits : Str} {start : ℕ}
    (hdigits : ∀ c ∈ digits, c.isDigit = true) (hlt : Nat.ofDigitChars 10 digits start < 2 ^ 64) :
    parseDigits start digits = .ok (Nat.ofDigitChars 10 digits start) := by
  induction digits generalizing start with
  | nil => rw [Nat.ofDigitChars_nil, parseDigits]
  | cons c digits ih =>
      rw [Nat.ofDigitChars_cons, mul_comm] at hlt ⊢
      have hdigit : '0' ≤ c ∧ c ≤ '9' := by
        have hc := hdigits c List.mem_cons_self
        simpa [Char.isDigit, Char.le_def] using hc
      have hnext := lt_of_le_of_lt (le_ofDigitChars digits _) hlt
      simp only [parseDigits, if_pos hdigit, if_pos hnext]
      exact ih (fun d hd => hdigits d (List.mem_cons_of_mem _ hd)) hlt

/-- A size is read back from its decimal digits. -/
theorem parseU64_repr {size : ℕ} (h : size < 2 ^ 64) :
    parseU64 (Nat.repr size).toList = .ok size := by
  have hdigits : ∀ c ∈ Nat.toDigits 10 size, c.isDigit = true := fun c hc =>
    Nat.isDigit_of_mem_toDigits (by decide) (by decide) hc
  have hread : parseDigits 0 (Nat.toDigits 10 size) = .ok size := by
    rw [parseDigits_of_isDigit hdigits (by rwa [Nat.ofDigitChars_ten_toDigits]),
      Nat.ofDigitChars_ten_toDigits]
  rw [Nat.toList_repr]
  unfold parseU64
  split
  · next hnil => exact absurd hnil Nat.toDigits_ne_nil
  · next hplus =>
    rw [hplus] at hdigits
    exact absurd (hdigits '+' List.mem_cons_self) (by decide)
  · next hplus =>
    rw [hplus] at hdigits
    exact absurd (hdigits '+' List.mem_cons_self) (by decide)
  · exact hread

theorem lt_of_parseDigits_eq_ok {digits : Str} {start size : ℕ} (hstart : start < 2 ^ 64)
    (h : parseDigits start digits = .ok size) : size < 2 ^ 64 := by
  induction digits generalizing start with
  | nil =>
      cases h
      exact hstart
  | cons c digits ih =>
      rw [parseDigits] at h
      split at h
      · simp only at h
        split at h
        · next hnext => exact ih hnext h
        · cases h
      · cases h

theorem lt_of_parseU64_eq_ok {value : Str} {size : ℕ} (h : parseU64 value = .ok size) :
    size < 2 ^ 64 := by
  unfold parseU64 at h
  split at h
  · cases h
  · cases h
  · exact lt_of_parseDigits_eq_ok (by decide) h
  · exact lt_of_parseDigits_eq_ok (by decide) h

theorem notMem_of_mem_splitOnP {α : Type*} {p : α → Bool} {xs part : List α}
    (h : part ∈ xs.splitOnP p) : ∀ x ∈ part, p x = false := by
  induction xs generalizing part with
  | nil =>
      simp only [List.splitOnP_nil, List.mem_singleton] at h
      simp [h]
  | cons x xs ih =>
      rw [List.splitOnP_cons_eq_if_modifyHead] at h
      split at h
      · rcases List.mem_cons.1 h with rfl | h
        · simp
        · exact ih h
      · next hx =>
        cases hparts : xs.splitOnP p with
        | nil => exact absurd hparts (List.splitOnP_ne_nil p xs)
        | cons head parts =>
            rw [hparts] at h ih
            rcases List.mem_cons.1 h with rfl | h
            · intro y hy
              rcases List.mem_cons.1 hy with rfl | hy
              · simpa using hx
              · exact ih List.mem_cons_self y hy
            · exact ih (List.mem_cons_of_mem _ h)

theorem of_mem_splitWhitespace {value reference : Str}
    (hreference : reference ∈ splitWhitespace value) :
    reference ≠ [] ∧ ∀ c ∈ reference, isWhitespace c = false := by
  rcases List.mem_filter.1 hreference with ⟨hmem, hne⟩
  exact ⟨by simpa using hne, notMem_of_mem_splitOnP hmem⟩

/-- References are read back from the text that joins them with blanks. -/
theorem splitWhitespace_intercalate {references : List Str}
    (h : ∀ reference ∈ references, reference ≠ [] ∧ ∀ c ∈ reference, isWhitespace c = false) :
    splitWhitespace (List.intercalate [' '] references) = references := by
  induction references with
  | nil => rfl
  | cons reference references ih =>
      have hfirst := h reference List.mem_cons_self
      have hrest := ih fun other hother => h other (List.mem_cons_of_mem _ hother)
      have hkept : (!reference.isEmpty) = true := by simpa using hfirst.1
      cases references with
      | nil =>
          rw [List.intercalate_singleton, splitWhitespace, List.splitOnP_eq_singleton hfirst.2,
            List.filter_cons_of_pos (p := fun part : Str => !part.isEmpty) hkept, List.filter_nil]
      | cons next rest =>
          rw [intercalate_cons_cons, splitWhitespace,
            List.splitOnP_append_cons_of_forall_mem hfirst.2 ' ' (by decide),
            List.filter_cons_of_pos (p := fun part : Str => !part.isEmpty) hkept]
          exact congrArg (reference :: ·) hrest

/-- What a body is accepted as: its lines are fields, its sizes can be read, and the narinfo is
what the fields say, which must name a store path. -/
theorem parse_eq_ok_iff {body : Octets} {n : NarInfo} :
    NarInfo.parse body = .ok n ↔
      ∃ text fields, body = toUtf8 text ∧ textFields text = some fields ∧
        SizesReadable fields ∧ NarInfo.updated {} fields = n ∧ n.storePath ≠ [] := by
  have htext : ∀ text : Str, NarInfo.parse (toUtf8 text) = .ok n ↔
      ∃ fields, textFields text = some fields ∧
        SizesReadable fields ∧ NarInfo.updated {} fields = n ∧ n.storePath ≠ [] := by
    intro text
    rw [parse_toUtf8_eq_ok_iff, NarInfo.parseText_eq_foldlM, NarInfo.foldlM_parseLine_eq_ok_iff]
    simp only [NarInfo.foldlM_setField_eq_ok_iff]
    constructor
    · rintro ⟨⟨fields, hfields, hreadable, hn⟩, hpath⟩
      exact ⟨fields, hfields, hreadable, hn, hpath⟩
    · rintro ⟨fields, hfields, hreadable, hn, hpath⟩
      exact ⟨⟨fields, hfields, hreadable, hn⟩, hpath⟩
  constructor
  · intro h
    rcases exists_text_of_parse h with ⟨text, rfl⟩
    rcases (htext text).1 h with ⟨fields, hfields⟩
    exact ⟨text, fields, rfl, hfields⟩
  · rintro ⟨text, fields, rfl, hfields⟩
    exact (htext text).2 ⟨fields, hfields⟩

/-! ## Reading back -/

/-- Fields that fit on lines are read back from their text. -/
theorem textFields_writeFields {fields : List Field}
    (h : ∀ field ∈ fields, ':' ∉ field.1 ∧ '\n' ∉ field.1 ∧ '\n' ∉ field.2) :
    textFields (writeFields fields) = some fields := by
  induction fields with
  | nil => rfl
  | cons field fields ih =>
      rcases h field List.mem_cons_self with ⟨hcolon, hkey, hvalue⟩
      have hline : '\n' ∉ field.1 ++ ": ".toList ++ field.2 ++ ['\r'] := by
        simp [hkey, hvalue]
      have hfield : fieldOfLine (field.1 ++ ": ".toList ++ field.2) = some field := by
        rw [List.append_assoc]
        exact dropInfix?_cons hcolon
      have hlines : textLines (writeFields (field :: fields)) =
          (field.1 ++ ": ".toList ++ field.2) :: textLines (writeFields fields) := by
        have htext : writeFields (field :: fields) =
            field.1 ++ ": ".toList ++ field.2 ++ ['\r'] ++ '\n' :: writeFields fields := by
          simp [writeFields]
        rw [htext, textLines, splitInclusive_append_cons hline, List.map_cons, List.append_assoc,
          List.singleton_append, splitLineEnding_crlf, List.filter_cons_of_pos (by simp)]
        rfl
      rw [textFields, hlines, List.mapM_cons, hfield]
      have hrest := ih fun other hother => h other (List.mem_cons_of_mem _ hother)
      rw [textFields] at hrest
      rw [hrest]
      rfl

/-- The text of the fields stands on lines of the body. -/
theorem newline_notMem_of_mem_textLines {text line : Str} (h : line ∈ textLines text) :
    '\n' ∉ line := by
  rcases List.mem_map.1 (List.mem_filter.1 h).1 with ⟨chunk, hchunk, rfl⟩
  rcases mem_splitInclusive_cases hchunk with ⟨line, ending, -, hcut, hline, -⟩
  rwa [hcut]

theorem newline_notMem_of_mapM_fieldOfLine {lines : List Str} {fields : List Field}
    (h : lines.mapM fieldOfLine = some fields) (hlines : ∀ line ∈ lines, '\n' ∉ line) :
    ∀ field ∈ fields, '\n' ∉ field.2 := by
  induction lines generalizing fields with
  | nil =>
      cases h
      simp
  | cons line lines ih =>
      simp only [List.mapM_cons, Option.bind_eq_bind, Option.bind_eq_some_iff, Option.pure_def,
        Option.some.injEq] at h
      rcases h with ⟨first, hfirst, rest, hrest, rfl⟩
      rcases List.dropInfix?_eq_some_iff.1 hfirst with ⟨⟨sep, hline, -⟩, -⟩
      have hvalue : '\n' ∉ first.2 := by
        intro hmem
        apply hlines line List.mem_cons_self
        rw [hline]
        exact List.mem_append_right _ hmem
      exact List.forall_mem_cons.2 ⟨hvalue, ih hrest fun other hother =>
        hlines other (List.mem_cons_of_mem _ hother)⟩

theorem valuesOf_cons (key : String) (field : Field) (fields : List Field) :
    valuesOf key (field :: fields) =
      if field.1 = key.toList then field.2 :: valuesOf key fields else valuesOf key fields := by
  rw [← List.singleton_append, valuesOf_append, valuesOf_singleton]
  split
  · rfl
  · rfl

theorem valuesOf_map (key : String) (name : Str) (values : List Str) :
    valuesOf key (values.map fun value => (name, value)) =
      if name = key.toList then values else [] := by
  induction values with
  | nil => simp
  | cons value values ih =>
      rw [List.map_cons, valuesOf_cons, ih]
      split
      · rfl
      · rfl

namespace NarInfo

variable {n : NarInfo}

theorem updated_fields (h : n.Writable) : updated {} n.fields = n := by
  have hfileSize := parseU64_repr h.fileSize
  have hnarSize := parseU64_repr h.narSize
  have hreferences := splitWhitespace_intercalate h.references
  -- a narinfo without references has a line that says nothing
  have hjoined : (if List.intercalate [' '] n.references = [] then none
      else some (List.intercalate [' '] n.references)).elim [] splitWhitespace = n.references := by
    split
    · next hnil =>
      rw [hnil] at hreferences
      exact hreferences
    · exact hreferences
  rw [Nat.toList_repr] at hfileSize hnarSize
  simp [updated, fields, sizesOf, valuesOf_append, valuesOf_cons, valuesOf_map, hfileSize, hnarSize,
    Except.toOption, hjoined]

theorem sizesReadable_fields (h : n.Writable) : SizesReadable n.fields := by
  have hfileSize := parseU64_repr h.fileSize
  have hnarSize := parseU64_repr h.narSize
  rw [Nat.toList_repr] at hfileSize hnarSize
  simp [SizesReadable, fields, valuesOf_append, valuesOf_cons, valuesOf_map, hfileSize, hnarSize]

/-- A narinfo that can be written is read back from what is written. -/
theorem parse_write (h : n.Writable) : parse n.write = .ok n := by
  have hdigits : ∀ size : ℕ, '\n' ∉ Nat.toDigits 10 size := fun size => by
    rw [← Nat.toList_repr]
    exact notMem_repr (by decide)
  have hreferences : '\n' ∉ List.intercalate [' '] n.references := by
    apply notMem_intercalate (by decide)
    intro reference hreference hmem
    exact absurd ((h.references reference hreference).2 '\n' hmem) (by decide)
  have hline := h.line
  simp only [List.forall_mem_append, List.forall_mem_cons] at hline
  rcases hline with ⟨⟨hpath, hurl, hcompression, hfileHash, hnarHash, hderiver, hca, -⟩, hsig⟩
  apply parse_eq_ok_iff.2
  refine ⟨_, n.fields, rfl, textFields_writeFields ?_, sizesReadable_fields h, updated_fields h,
    h.storePath⟩
  simp only [fields, List.forall_mem_append, List.forall_mem_cons, List.forall_mem_map]
  simp [hdigits, hreferences, hpath, hurl, hcompression, hfileHash, hnarHash, hderiver, hca]
  exact hsig

/-- What is parsed can be written. -/
theorem writable_of_parse {body : Octets} (h : parse body = .ok n) : n.Writable := by
  rcases parse_eq_ok_iff.1 h with ⟨text, fields, rfl, hfields, hreadable, rfl, hpath⟩
  have hvalues : ∀ key, ∀ value ∈ valuesOf key fields, '\n' ∉ value := by
    intro key value hvalue
    exact newline_notMem_of_mapM_fieldOfLine hfields
      (fun line => newline_notMem_of_mem_textLines) _ (mem_of_mem_valuesOf hvalue)
  have hlast : ∀ key, '\n' ∉ (valuesOf key fields).getLast?.getD [] := by
    intro key
    cases hvalue : (valuesOf key fields).getLast? with
    | none => exact List.not_mem_nil
    | some value => exact hvalues key value (List.mem_of_getLast? hvalue)
  have hsizes : ∀ key, (sizesOf key fields).getLast?.getD 0 < 2 ^ 64 := by
    intro key
    cases hsize : (sizesOf key fields).getLast? with
    | none => decide
    | some size =>
        rcases List.mem_filterMap.1 (List.mem_of_getLast? hsize) with ⟨value, -, hread⟩
        cases hparse : parseU64 value with
        | error err =>
            rw [hparse] at hread
            cases hread
        | ok read =>
            rw [hparse] at hread
            cases hread
            exact lt_of_parseU64_eq_ok hparse
  constructor
  · exact hpath
  · simp only [List.forall_mem_append, List.forall_mem_cons]
    exact ⟨⟨hlast _, hlast _, hlast _, hlast _, hlast _, hlast _, hlast _, by simp⟩, hvalues _⟩
  · intro reference hreference
    cases hvalue : ((valuesOf "References" fields).filter (· ≠ [])).getLast? with
    | none =>
        rw [updated, hvalue] at hreference
        cases hreference
    | some value =>
        rw [updated, hvalue] at hreference
        exact of_mem_splitWhitespace hreference
  · exact hsizes _
  · exact hsizes _

end NarInfo

/-- The parser returns the narinfos that can be written, and no others; these are the ones that
are read back from what is written of them. -/
theorem exists_parse_eq_ok_iff {n : NarInfo} :
    ((∃ body, NarInfo.parse body = .ok n) ↔ n.Writable) ∧
      (NarInfo.parse n.write = .ok n ↔ n.Writable) := by
  constructor
  · constructor
    · rintro ⟨body, hbody⟩
      exact NarInfo.writable_of_parse hbody
    · exact fun h => ⟨n.write, NarInfo.parse_write h⟩
  · constructor
    · exact NarInfo.writable_of_parse
    · exact NarInfo.parse_write

end Ncro
