import Ncro.Narinfo
import Mathlib.Data.List.DropRight

/-!
# NAR URLs and their rewriting

`relativeNarUrl` strips the host of a published NAR URL, `canonicalNarUrl`
builds the `nar/<store-hash>` path that ncro serves itself, and
`rewriteNarinfoUrl` replaces the `URL:` lines of a narinfo body according to
the mode of its upstream. The result of the module is that rewriting changes
the parsed narinfo in its `url` field only, so that nothing a signature covers
and nothing a filter looks at is changed by it.
-/

namespace Ncro

open Foundation

/-- How the narinfo `URL:` field is returned to clients. -/
inductive NarUrlMode
  | keep
  | toSelf
  | toUpstream
  deriving DecidableEq, Repr

instance : Inhabited NarUrlMode := ⟨.toSelf⟩

def relativeNarUrl (url : Str) : Str :=
  match url.dropInfix? "://".toList with
  | some (_, rest) =>
      match rest.dropInfix? ['/'] with
      | some (_, path) => path
      | none => url.dropWhile (· = '/')
  | none => url.dropWhile (· = '/')

/-- The part of `s` from the last occurrence of `pat` on. -/
def suffixFromLast (pat : Str) : Str → Option Str
  | [] => if pat = [] then some [] else none
  | c :: rest =>
      match suffixFromLast pat rest with
      | some found => some found
      | none => if pat.isPrefixOf (c :: rest) then some (c :: rest) else none

/-- The part of a URL before its query. -/
def withoutQuery (path : Str) : Str :=
  match path.dropInfix? ['?'] with
  | some (before, _) => before
  | none => path

def narExtension (url : Str) : Str :=
  let file := (withoutQuery (relativeNarUrl url)).rtakeWhile (· ≠ '/')
  match suffixFromLast ".nar".toList file with
  | some ext => ext
  | none => []

/-- The `nar/<store-hash>` path ncro serves for a NAR body. -/
def canonicalNarUrl (url storeHash : Str) : Str :=
  "nar/".toList ++ storeHash ++ narExtension url

/-- The `Compression:` value a NAR URL's extension promises. -/
def compressionForNarUrl (url : Str) : Option Str :=
  let ext := narExtension url
  if ext = ".nar".toList then some "none".toList
  else if ext = ".nar.xz".toList then some "xz".toList
  else if ext = ".nar.bz2".toList then some "bzip2".toList
  else if ext = ".nar.gz".toList then some "gzip".toList
  else if ext = ".nar.zst".toList then some "zstd".toList
  else if ext = ".nar.br".toList then some "br".toList
  else none

/-- Recover the store hash from a `canonicalNarUrl` path. -/
def storeHashFromCanonicalNarUrl (path : Str) : Option Str :=
  match (path.dropWhile (· = '/')).dropPrefix? "nar/".toList with
  | none => none
  | some rest =>
      let hash := match rest.dropInfix? ".nar".toList with
        | some (hash, _) => hash
        | none => rest
      if isStoreHash hash then some hash else none

def rewriteNarUrlValue (url upstream storeHash : Str) : NarUrlMode → Str
  | .keep => url
  | .toSelf => canonicalNarUrl url storeHash
  | .toUpstream =>
      upstream.rdropWhile (· = '/') ++ '/' :: (relativeNarUrl url).dropWhile (· = '/')

/-- The line a rewritten narinfo has in the place of `line`. -/
def rewriteLine (upstream storeHash : Str) (mode : NarUrlMode) (line : Str) : Str :=
  match line.dropPrefix? "URL: ".toList with
  | some url => "URL: ".toList ++ rewriteNarUrlValue url upstream storeHash mode
  | none => line

/-- Rewrite one line, given with its terminator. -/
def rewriteChunk (upstream storeHash : Str) (mode : NarUrlMode) (chunk : Str) : Str :=
  rewriteLine upstream storeHash mode (splitLineEnding chunk).1 ++ (splitLineEnding chunk).2

def rewriteText (upstream storeHash : Str) (mode : NarUrlMode) (text : Str) : Str :=
  (splitInclusive '\n' text).flatMap (rewriteChunk upstream storeHash mode)

def rewriteNarinfoUrl (body : Octets) (upstream storeHash : Str) (mode : NarUrlMode) : Octets :=
  if mode = .keep then body
  else match fromUtf8 body with
    | none => body
    | some text => toUtf8 (rewriteText upstream storeHash mode text)

/-! ## Line breaks in URLs -/

theorem mem_of_dropInfix? {s i p t : Str} (h : s.dropInfix? i = some (p, t)) :
    (∀ c ∈ p, c ∈ s) ∧ ∀ c ∈ t, c ∈ s := by
  obtain ⟨⟨i', rfl, -⟩, -⟩ := List.dropInfix?_eq_some_iff.1 h
  exact ⟨fun c hc => by simp [hc], fun c hc => by simp [hc]⟩

theorem mem_of_mem_relativeNarUrl {url : Str} {c : Char} (h : c ∈ relativeNarUrl url) :
    c ∈ url := by
  have htrim : ∀ c ∈ url.dropWhile (· = '/'), c ∈ url :=
    fun c hc => (List.dropWhile_sublist _).subset hc
  unfold relativeNarUrl at h
  split at h
  · next rest hurl =>
    split at h
    · next hrest => exact (mem_of_dropInfix? hurl).2 _ ((mem_of_dropInfix? hrest).2 _ h)
    · exact htrim c h
  · exact htrim c h

theorem mem_of_mem_suffixFromLast {pat s found : Str} (h : suffixFromLast pat s = some found) :
    ∀ c ∈ found, c ∈ s := by
  induction s with
  | nil =>
      simp only [suffixFromLast, Option.ite_none_right_eq_some, Option.some.injEq] at h
      simp [← h.2]
  | cons x s ih =>
      rw [suffixFromLast] at h
      cases hs : suffixFromLast pat s with
      | some found' =>
          rw [hs] at h
          cases h
          exact fun c hc => List.mem_cons_of_mem _ (ih hs c hc)
      | none =>
          simp only [hs, Option.ite_none_right_eq_some, Option.some.injEq] at h
          exact fun c hc => h.2 ▸ hc

theorem mem_of_mem_withoutQuery {path : Str} {c : Char} (h : c ∈ withoutQuery path) :
    c ∈ path := by
  unfold withoutQuery at h
  split at h
  · next hpath => exact (mem_of_dropInfix? hpath).1 c h
  · exact h

theorem mem_of_mem_narExtension {url : Str} {c : Char} (h : c ∈ narExtension url) : c ∈ url := by
  unfold narExtension at h
  simp only at h
  split at h
  · next hfile =>
    have hc := mem_of_mem_suffixFromLast hfile c h
    have hpath : c ∈ withoutQuery (relativeNarUrl url) :=
      (List.rtakeWhile_suffix _ _).subset hc
    exact mem_of_mem_relativeNarUrl (mem_of_mem_withoutQuery hpath)
  · simp at h

/-- A rewritten URL value has no character that is not in the value, the
upstream URL, the store hash or the path ncro serves. -/
theorem notMem_rewriteNarUrlValue {url upstream storeHash : Str} {mode : NarUrlMode} {c : Char}
    (hc : c ∉ "nar/".toList) (hurl : c ∉ url) (hhash : c ∉ storeHash)
    (hupstream : mode = .toUpstream → c ∉ upstream) :
    c ∉ rewriteNarUrlValue url upstream storeHash mode := by
  cases mode with
  | keep => exact hurl
  | toSelf =>
      have hext : c ∉ narExtension url := fun h => hurl (mem_of_mem_narExtension h)
      simp only [rewriteNarUrlValue, canonicalNarUrl, List.mem_append, not_or]
      exact ⟨⟨hc, hhash⟩, hext⟩
  | toUpstream =>
      have hslash : c ≠ '/' := fun h => hc (h ▸ by decide)
      have hup : c ∉ upstream.rdropWhile (· = '/') :=
        fun h => hupstream rfl ((List.rdropWhile_prefix _ _).subset h)
      have hrel : c ∉ (relativeNarUrl url).dropWhile (· = '/') :=
        fun h => hurl (mem_of_mem_relativeNarUrl ((List.dropWhile_sublist _).subset h))
      simp only [rewriteNarUrlValue, List.mem_append, List.mem_cons, not_or]
      exact ⟨hup, hslash, hrel⟩

/-! ## Line endings -/

theorem splitLineEnding_of_notMem {l : Str} (h : '\n' ∉ l) : splitLineEnding l = (l, []) := by
  have hnone : l.dropSuffix? ['\n'] = none := by
    cases hs : l.dropSuffix? ['\n'] with
    | none => rfl
    | some body =>
        obtain ⟨s', rfl, hs'⟩ := List.dropSuffix?_eq_some_iff.1 hs
        rw [beq_iff_eq] at hs'
        simp [hs'] at h
  simp [splitLineEnding, hnone]

theorem splitLineEnding_crlf (l : Str) :
    splitLineEnding (l ++ ['\r', '\n']) = (l, ['\r', '\n']) := by
  have h₁ : (l ++ ['\r', '\n']).dropSuffix? ['\n'] = some (l ++ ['\r']) :=
    List.dropSuffix?_eq_some_iff.2 ⟨['\n'], by simp, by simp⟩
  have h₂ : (l ++ ['\r']).dropSuffix? ['\r'] = some l :=
    List.dropSuffix?_eq_some_iff.2 ⟨['\r'], rfl, by simp⟩
  simp [splitLineEnding, h₁, h₂]

theorem splitLineEnding_lf {l : Str} (h : ∀ l', l ≠ l' ++ ['\r']) :
    splitLineEnding (l ++ ['\n']) = (l, ['\n']) := by
  have h₁ : (l ++ ['\n']).dropSuffix? ['\n'] = some l :=
    List.dropSuffix?_eq_some_iff.2 ⟨['\n'], rfl, by simp⟩
  have h₂ : l.dropSuffix? ['\r'] = none := by
    cases hs : l.dropSuffix? ['\r'] with
    | none => rfl
    | some body =>
        obtain ⟨s', hl, hs'⟩ := List.dropSuffix?_eq_some_iff.1 hs
        rw [beq_iff_eq.1 hs'] at hl
        exact absurd hl (h body)
  simp [splitLineEnding, h₁, h₂]

/-- What is left of a line that is terminated by a newline alone. -/
theorem splitLineEnding_lf_fst (l : Str) :
    (splitLineEnding (l ++ ['\n'])).1 = l ∨
      ∃ l', l = l' ++ ['\r'] ∧ (splitLineEnding (l ++ ['\n'])).1 = l' := by
  by_cases h : ∃ l', l = l' ++ ['\r']
  · obtain ⟨l', rfl⟩ := h
    right
    refine ⟨l', rfl, ?_⟩
    rw [List.append_assoc]
    exact congrArg Prod.fst (splitLineEnding_crlf l')
  · left
    rw [splitLineEnding_lf fun l' hl' => h ⟨l', hl'⟩]

/-! ## Rewriting and parsing -/

/-- `NarInfo.parse` on a body that is known to be text. -/
def NarInfo.parseText (n : NarInfo) (text : Str) : Except NarInfoError NarInfo :=
  (splitInclusive '\n' text).foldlM (fun n chunk => n.parseLine (splitLineEnding chunk).1) n

theorem foldlM_parseChunk_toUtf8 (chunks : List Str) (n : NarInfo) :
    (chunks.map toUtf8).foldlM NarInfo.parseChunk n =
      chunks.foldlM (fun n chunk => n.parseLine (splitLineEnding chunk).1) n := by
  induction chunks generalizing n with
  | nil => rfl
  | cons chunk chunks ih =>
      simp only [List.map_cons, List.foldlM_cons, NarInfo.parseChunk, fromUtf8_toUtf8]
      congr 1
      funext n'
      exact ih n'

theorem NarInfo.parse_toUtf8 (text : Str) :
    NarInfo.parse (toUtf8 text) = (do
      let n ← NarInfo.parseText {} text
      if n.storePath = [] then .error .missingStorePath else .ok n) := by
  rw [NarInfo.parse, splitInclusive_toUtf8, foldlM_parseChunk_toUtf8]
  rfl

theorem exists_text_of_foldlM_parseChunk {chunks : List Octets} {n n' : NarInfo}
    (h : chunks.foldlM NarInfo.parseChunk n = .ok n') :
    ∃ texts : List Str, chunks = texts.map toUtf8 := by
  induction chunks generalizing n with
  | nil => exact ⟨[], rfl⟩
  | cons chunk chunks ih =>
      rw [List.foldlM_cons] at h
      cases hchunk : n.parseChunk chunk with
      | error err => simp [hchunk, bind, Except.bind] at h
      | ok m =>
          obtain ⟨texts, htexts⟩ := ih (n := m) (by simpa [hchunk, bind, Except.bind] using h)
          unfold NarInfo.parseChunk at hchunk
          split at hchunk
          · cases hchunk
          · next text htext =>
            refine ⟨text :: texts, ?_⟩
            rw [List.map_cons, toUtf8_of_fromUtf8 htext, ← htexts]

/-- A body that parses is text. -/
theorem exists_text_of_parse {body : Octets} {n : NarInfo} (h : NarInfo.parse body = .ok n) :
    ∃ text : Str, body = toUtf8 text := by
  unfold NarInfo.parse at h
  cases hfold : (splitInclusive 10 body).foldlM NarInfo.parseChunk {} with
  | error err => simp [hfold, bind, Except.bind] at h
  | ok m =>
      obtain ⟨texts, htexts⟩ := exists_text_of_foldlM_parseChunk hfold
      refine ⟨texts.flatten, ?_⟩
      rw [← flatten_splitInclusive 10 body, htexts, toUtf8_flatten]

namespace NarInfo

/-- Only a `URL` line looks at the `url` field. -/
theorem setField_url_comm {n : NarInfo} {key value : Str} (hkey : key ≠ "URL".toList)
    (url : Str) :
    setField { n with url := url } key value =
      (n.setField key value).map fun m => { m with url := url } := by
  cases hsize : parseU64 value <;>
    simp only [setField, if_neg hkey, hsize,
      apply_ite (Except.map fun m : NarInfo => { m with url := url })] <;>
    rfl

theorem parseLine_url (n : NarInfo) (value : Str) :
    n.parseLine ("URL: ".toList ++ value) = .ok { n with url := value } := by
  have hsplit : ("URL: ".toList ++ value).dropInfix? ": ".toList = some ("URL".toList, value) := by
    simp [List.dropInfix?, List.dropInfix?.go, List.dropPrefix?]
  rw [parseLine, if_neg (by simp), hsplit]
  rfl

/-- A line that is not a `URL` line does not look at the `url` field. -/
theorem parseLine_url_comm {n : NarInfo} {line : Str}
    (hline : line.dropPrefix? "URL: ".toList = none) (url : Str) :
    parseLine { n with url := url } line =
      (n.parseLine line).map fun m => { m with url := url } := by
  unfold parseLine
  split
  · rfl
  · cases hsplit : line.dropInfix? ": ".toList with
    | none => rfl
    | some kv =>
        obtain ⟨key, value⟩ := kv
        obtain ⟨⟨sep, rfl, hsep⟩, -⟩ := List.dropInfix?_eq_some_iff.1 hsplit
        rw [beq_iff_eq] at hsep
        refine setField_url_comm ?_ url
        rintro rfl
        rw [hsep] at hline
        simp [List.dropPrefix?] at hline

end NarInfo

section Rewriting

variable {upstream storeHash : Str} {mode : NarUrlMode}

/-- A rewritten line has no line break of its own. -/
theorem newline_notMem_rewriteLine {line : Str} (hline : '\n' ∉ line)
    (hhash : '\n' ∉ storeHash) (hupstream : mode = .toUpstream → '\n' ∉ upstream) :
    '\n' ∉ rewriteLine upstream storeHash mode line := by
  unfold rewriteLine
  split
  · next value hvalue =>
    obtain ⟨p, rfl, -⟩ := List.dropPrefix?_eq_some_iff.1 hvalue
    have hv : '\n' ∉ value := fun h => hline (by simp [h])
    have := notMem_rewriteNarUrlValue (by decide) hv hhash hupstream
    simp [this]
  · exact hline

theorem rewriteLine_ne_nil {line : Str} (h : line ≠ []) :
    rewriteLine upstream storeHash mode line ≠ [] := by
  unfold rewriteLine
  split
  · simp
  · exact h

/-- Parsing a rewritten line, terminated or not, gives the same narinfo up to
its `url`. -/
theorem parseLine_rewriteLine {n m : NarInfo} {line ending : Str}
    (hline : '\n' ∉ line) (hhash : '\n' ∉ storeHash)
    (hupstream : mode = .toUpstream → '\n' ∉ upstream)
    (hending : ending = [] ∨ ending = ['\r', '\n'] ∨
      ending = ['\n'] ∧ ∀ l', line ≠ l' ++ ['\r'])
    (h : n.parseLine line = .ok m) (url : Str) :
    ∃ url', NarInfo.parseLine { n with url := url }
      (splitLineEnding (rewriteLine upstream storeHash mode line ++ ending)).1 =
        .ok { m with url := url' } := by
  have hnew := newline_notMem_rewriteLine hline hhash hupstream
  cases hprefix : line.dropPrefix? "URL: ".toList with
  | none =>
      have hsame : rewriteLine upstream storeHash mode line = line := by
        simp only [rewriteLine, hprefix]
      have hcut : (splitLineEnding (line ++ ending)).1 = line := by
        rcases hending with rfl | rfl | ⟨rfl, hcr⟩
        · simp [splitLineEnding_of_notMem hline]
        · simp [splitLineEnding_crlf]
        · simp [splitLineEnding_lf hcr]
      refine ⟨url, ?_⟩
      rw [hsame, hcut, NarInfo.parseLine_url_comm hprefix, h]
      rfl
  | some value =>
      obtain ⟨p, rfl, hp⟩ := List.dropPrefix?_eq_some_iff.1 hprefix
      rw [beq_iff_eq] at hp
      subst hp
      rw [NarInfo.parseLine_url] at h
      cases h
      have hrw : rewriteLine upstream storeHash mode ("URL: ".toList ++ value) =
          "URL: ".toList ++ rewriteNarUrlValue value upstream storeHash mode := by
        simp only [rewriteLine, hprefix]
      rw [hrw] at hnew ⊢
      generalize hv : rewriteNarUrlValue value upstream storeHash mode = v at hnew ⊢
      rcases hending with rfl | rfl | ⟨rfl, -⟩
      · rw [List.append_nil, splitLineEnding_of_notMem hnew]
        exact ⟨v, by rw [NarInfo.parseLine_url]⟩
      · rw [splitLineEnding_crlf]
        exact ⟨v, by rw [NarInfo.parseLine_url]⟩
      -- a carriage return at the end of the new value is read as part of the terminator
      · rcases splitLineEnding_lf_fst ("URL: ".toList ++ v) with hcut | ⟨l', hl', hcut⟩
        · exact ⟨v, by rw [hcut, NarInfo.parseLine_url]⟩
        · rcases List.eq_nil_or_concat v with rfl | ⟨v', c, rfl⟩
          · have := congrArg List.getLast? hl'
            simp at this
          · rw [List.concat_eq_append, ← List.append_assoc] at hl'
            have hl'' := List.append_inj_left' hl' rfl
            exact ⟨v', by rw [hcut, ← hl'', NarInfo.parseLine_url]⟩

/-- The shape of a line and its terminator. -/
theorem splitLineEnding_cases {l : Str} (hl : '\n' ∉ l) :
    ∃ line ending, splitLineEnding (l ++ ['\n']) = (line, ending ++ ['\n']) ∧
      l = line ++ ending ∧ '\n' ∉ line ∧ '\n' ∉ ending ∧
      (ending ++ ['\n'] = ['\r', '\n'] ∨
        ending ++ ['\n'] = ['\n'] ∧ ∀ l', line ≠ l' ++ ['\r']) := by
  by_cases h : ∃ l', l = l' ++ ['\r']
  · obtain ⟨l', rfl⟩ := h
    refine ⟨l', ['\r'], ?_, rfl, fun hm => hl (by simp [hm]), by decide, .inl rfl⟩
    rw [List.append_assoc]
    exact splitLineEnding_crlf l'
  · have hcr : ∀ l', l ≠ l' ++ ['\r'] := fun l' hl' => h ⟨l', hl'⟩
    exact ⟨l, [], splitLineEnding_lf hcr, by simp, hl, by simp, .inr ⟨rfl, hcr⟩⟩

theorem rewriteText_append_cons {l : Str} (hl : '\n' ∉ l) (xs : Str) :
    rewriteText upstream storeHash mode (l ++ '\n' :: xs) =
      rewriteChunk upstream storeHash mode (l ++ ['\n']) ++
        rewriteText upstream storeHash mode xs := by
  rw [rewriteText, splitInclusive_append_cons hl, List.flatMap_cons, rewriteText]

/-- Rewriting a text changes what is parsed from it in the `url` only. -/
theorem parseText_rewriteText (hhash : '\n' ∉ storeHash)
    (hupstream : mode = .toUpstream → '\n' ∉ upstream) {text : Str} {n m : NarInfo}
    (h : n.parseText text = .ok m) (url : Str) :
    ∃ url', NarInfo.parseText { n with url := url } (rewriteText upstream storeHash mode text) =
      .ok { m with url := url' } := by
  induction text using lines_induction '\n' generalizing n url with
  | nil =>
      cases h
      exact ⟨url, rfl⟩
  | last l hne hl =>
      simp only [NarInfo.parseText, splitInclusive_of_notMem hne hl, List.foldlM_cons,
        splitLineEnding_of_notMem hl] at h
      have hline : n.parseLine l = .ok m := by
        cases hn : n.parseLine l with
        | error err => simp [hn, bind, Except.bind] at h
        | ok m' => simpa [hn, bind, Except.bind, pure, Except.pure] using h
      obtain ⟨url', hurl'⟩ := parseLine_rewriteLine hl hhash hupstream (.inl rfl) hline url
      have hnew := newline_notMem_rewriteLine hl hhash hupstream
      refine ⟨url', ?_⟩
      rw [rewriteText, splitInclusive_of_notMem hne hl]
      simp only [List.flatMap_cons, List.flatMap_nil, List.append_nil, rewriteChunk,
        splitLineEnding_of_notMem hl]
      rw [NarInfo.parseText, splitInclusive_of_notMem (rewriteLine_ne_nil hne) hnew]
      rw [List.append_nil] at hurl'
      simp [hurl', bind, Except.bind, pure, Except.pure]
  | line l xs hl ih =>
      obtain ⟨line, ending, hcut, rfl, hline, hend, hshape⟩ := splitLineEnding_cases hl
      simp only [NarInfo.parseText, splitInclusive_append_cons hl, List.foldlM_cons, hcut] at h
      cases hn : n.parseLine line with
      | error err => simp [hn, bind, Except.bind] at h
      | ok m' =>
          have htail : m'.parseText xs = .ok m := by
            simpa [hn, bind, Except.bind, NarInfo.parseText] using h
          obtain ⟨url₁, hurl₁⟩ := parseLine_rewriteLine hline hhash hupstream (.inr hshape) hn url
          obtain ⟨url₂, hurl₂⟩ := ih htail url₁
          have hnew := newline_notMem_rewriteLine hline hhash hupstream
          have hbody : '\n' ∉ rewriteLine upstream storeHash mode line ++ ending := by
            simp [hnew, hend]
          refine ⟨url₂, ?_⟩
          rw [rewriteText_append_cons hl, rewriteChunk, hcut, NarInfo.parseText]
          simp only [List.append_assoc, List.singleton_append]
          rw [← List.append_assoc, splitInclusive_append_cons hbody, List.foldlM_cons,
            List.append_assoc, hurl₁]
          exact hurl₂

/-- Rewriting a narinfo body that parses gives one that parses to the same
narinfo up to its `url`. -/
theorem parse_rewriteNarinfoUrl {body : Octets} {n : NarInfo}
    (h : NarInfo.parse body = .ok n) (hhash : '\n' ∉ storeHash)
    (hupstream : mode = .toUpstream → '\n' ∉ upstream) :
    ∃ url, NarInfo.parse (rewriteNarinfoUrl body upstream storeHash mode) =
      .ok { n with url := url } := by
  unfold rewriteNarinfoUrl
  split
  · exact ⟨n.url, h⟩
  · obtain ⟨text, rfl⟩ := exists_text_of_parse h
    rw [fromUtf8_toUtf8]
    rw [NarInfo.parse_toUtf8] at h
    cases htext : NarInfo.parseText {} text with
    | error err => simp [htext, bind, Except.bind] at h
    | ok m =>
        obtain ⟨url, hurl⟩ := parseText_rewriteText hhash hupstream htext ([] : Str)
        refine ⟨url, ?_⟩
        simp only [htext, bind, Except.bind] at h
        split at h
        · cases h
        · next hpath =>
          cases h
          have hurl' : NarInfo.parseText {} (rewriteText upstream storeHash mode text) =
              .ok { n with url := url } := hurl
          simp [NarInfo.parse_toUtf8, hurl', bind, Except.bind, hpath]

end Rewriting

end Ncro
