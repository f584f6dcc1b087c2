import Ncro.NarUrl

/-!
# What rewriting keeps of a narinfo

Rewriting cuts a body into the lines that the parser reads and touches the
value of the `URL:` lines only. A carriage return in such a value could become
the last character of the rewritten line and would then be read as a part of
the terminator; without one, every other line and every terminator of the body
stays as it is, and the rewritten value is the one that is parsed.
-/

namespace Ncro

open Foundation

/-- The values of the `URL:` lines of a text. -/
def urlValues (text : Str) : List Str :=
  (splitInclusive '\n' text).filterMap fun chunk =>
    (splitLineEnding chunk).1.dropPrefix? "URL: ".toList

/-- The values of the `URL:` lines of a narinfo body. -/
def bodyUrlValues (body : Octets) : List Str :=
  match fromUtf8 body with
  | none => []
  | some text => urlValues text

/-- A line of a body and the line in its place: the terminators are the same,
and so is everything else unless it is a `URL:` line. -/
inductive LineKept : Octets → Octets → Prop
  | mk (line line' ending : Str) (hcut : splitLineEnding (line ++ ending) = (line, ending))
      (hcut' : splitLineEnding (line' ++ ending) = (line', ending))
      (hkept : ¬ "URL: ".toList <+: line → line' = line) :
      LineKept (toUtf8 (line ++ ending)) (toUtf8 (line' ++ ending))

/-- The second narinfo is the first one with its URL rewritten. -/
structure NarInfo.Rewritten (upstream storeHash : Str) (mode : NarUrlMode) (n n' : NarInfo) :
    Prop where
  kept : n' = { n with url := n'.url }
  url : n.url ≠ [] → n'.url = rewriteNarUrlValue n.url upstream storeHash mode

/-! ## Lines -/

/-- A line as it is cut from a text: it ends in a terminator, or it is the last
one. -/
theorem mem_splitInclusive_cases {text chunk : Str} (h : chunk ∈ splitInclusive '\n' text) :
    ∃ line ending, chunk = line ++ ending ∧ splitLineEnding chunk = (line, ending) ∧
      '\n' ∉ line ∧
      (ending = [] ∨ ending = ['\r', '\n'] ∨ ending = ['\n'] ∧ ∀ l', line ≠ l' ++ ['\r']) := by
  induction text using lines_induction '\n' with
  | nil => simp at h
  | last l hne hl =>
      rw [splitInclusive_of_notMem hne hl, List.mem_singleton] at h
      subst h
      exact ⟨chunk, [], by simp, splitLineEnding_of_notMem hl, hl, Or.inl rfl⟩
  | line l xs hl ih =>
      rw [splitInclusive_append_cons hl, List.mem_cons] at h
      rcases h with rfl | h
      · rcases splitLineEnding_cases hl with ⟨line, ending, hcut, rfl, hline, -, hshape⟩
        exact ⟨line, ending ++ ['\n'], by simp, hcut, hline, Or.inr hshape⟩
      · exact ih h

section Rewriting

variable {upstream storeHash : Str} {mode : NarUrlMode}

theorem rewriteLine_of_not_url {line : Str} (h : ¬ "URL: ".toList <+: line) :
    rewriteLine upstream storeHash mode line = line := by
  unfold rewriteLine
  split
  · next value hvalue =>
    rcases List.dropPrefix?_eq_some_iff.1 hvalue with ⟨found, rfl, hfound⟩
    rw [beq_iff_eq] at hfound
    exact absurd ⟨value, by rw [hfound]⟩ h
  · rfl

theorem rewriteLine_url (value : Str) :
    rewriteLine upstream storeHash mode ("URL: ".toList ++ value) =
      "URL: ".toList ++ rewriteNarUrlValue value upstream storeHash mode := by
  rw [rewriteLine, List.dropPrefix?_append_of_beq value (beq_self_eq_true "URL: ".toList)]

/-- Without a carriage return in the URL value, a rewritten line is cut where
the line was. -/
theorem splitLineEnding_rewriteLine {line ending : Str} (hline : '\n' ∉ line)
    (hending : ending = [] ∨ ending = ['\r', '\n'] ∨ ending = ['\n'] ∧ ∀ l', line ≠ l' ++ ['\r'])
    (hreturn : ∀ value, line = "URL: ".toList ++ value → '\r' ∉ value)
    (hhash : isStoreHash storeHash = true) (hnewline : '\n' ∉ upstream)
    (hupstream : '\r' ∉ upstream) :
    splitLineEnding (rewriteLine upstream storeHash mode line ++ ending) =
      (rewriteLine upstream storeHash mode line, ending) := by
  have hnew : '\n' ∉ rewriteLine upstream storeHash mode line :=
    newline_notMem_rewriteLine hline (newline_notMem_of_isStoreHash hhash) fun _ => hnewline
  rcases hending with rfl | rfl | ⟨rfl, hend⟩
  · rw [List.append_nil]
    exact splitLineEnding_of_notMem hnew
  · exact splitLineEnding_crlf _
  · apply splitLineEnding_lf
    intro l' hl'
    by_cases hurl : "URL: ".toList <+: line
    · rcases hurl with ⟨value, rfl⟩
      have hvalue : '\r' ∉ rewriteNarUrlValue value upstream storeHash mode :=
        notMem_rewriteNarUrlValue (by decide) (hreturn value rfl) 
          (notMem_of_isStoreHash hhash (by decide))
          fun _ => hupstream
      have hmem : '\r' ∈ rewriteLine upstream storeHash mode ("URL: ".toList ++ value) := by
        rw [hl']
        simp
      rw [rewriteLine_url, List.mem_append] at hmem
      rcases hmem with hmem | hmem
      · exact absurd hmem (by decide)
      · exact hvalue hmem
    · rw [rewriteLine_of_not_url hurl] at hl'
      exact hend l' hl'

/-- The lines of a rewritten text are the rewritten lines of the text. -/
theorem splitInclusive_rewriteText (hhash : '\n' ∉ storeHash)
    (hupstream : mode = .toUpstream → '\n' ∉ upstream) (text : Str) :
    splitInclusive '\n' (rewriteText upstream storeHash mode text) =
      (splitInclusive '\n' text).map (rewriteChunk upstream storeHash mode) := by
  induction text using lines_induction '\n' with
  | nil => rfl
  | last l hne hl =>
      rw [rewriteText, splitInclusive_of_notMem hne hl]
      simp only [List.flatMap_cons, List.flatMap_nil, List.append_nil, List.map_cons, List.map_nil,
        rewriteChunk, splitLineEnding_of_notMem hl]
      exact splitInclusive_of_notMem (rewriteLine_ne_nil hne)
        (newline_notMem_rewriteLine hl hhash hupstream)
  | line l xs hl ih =>
      rcases splitLineEnding_cases hl with ⟨line, ending, hcut, rfl, hline, hend, -⟩
      have hbody : '\n' ∉ rewriteLine upstream storeHash mode line ++ ending := by
        simp [newline_notMem_rewriteLine hline hhash hupstream, hend]
      rw [rewriteText_append_cons hl, splitInclusive_append_cons hl, List.map_cons, rewriteChunk,
        hcut]
      simp only [List.append_assoc, List.singleton_append]
      rw [← List.append_assoc, splitInclusive_append_cons hbody, ih, List.append_assoc]

/-- A rewritten line ends like the line and differs from it in a URL only. -/
theorem lineKept_rewriteChunk (mode : NarUrlMode) {text chunk : Str}
    (hmem : chunk ∈ splitInclusive '\n' text)
    (hreturn : ∀ value ∈ urlValues text, '\r' ∉ value) (hhash : isStoreHash storeHash = true)
    (hnewline : '\n' ∉ upstream) (hupstream : '\r' ∉ upstream) :
    splitLineEnding (rewriteChunk upstream storeHash mode chunk) =
        (rewriteLine upstream storeHash mode (splitLineEnding chunk).1,
          (splitLineEnding chunk).2) ∧
      LineKept (toUtf8 chunk) (toUtf8 (rewriteChunk upstream storeHash mode chunk)) := by
  rcases mem_splitInclusive_cases hmem with ⟨line, ending, hchunk, hcut, hline, hending⟩
  have hvalue : ∀ value, line = "URL: ".toList ++ value → '\r' ∉ value := by
    intro value hvalue
    apply hreturn
    apply List.mem_filterMap.2
    refine ⟨chunk, hmem, ?_⟩
    rw [hcut, hvalue]
    exact List.dropPrefix?_append_of_beq value (beq_self_eq_true _)
  have hnew : splitLineEnding (rewriteLine upstream storeHash mode line ++ ending) = _ :=
    splitLineEnding_rewriteLine hline hending hvalue hhash hnewline hupstream
  rw [rewriteChunk, hcut]
  refine ⟨hnew, ?_⟩
  rw [hchunk] at hcut ⊢
  exact LineKept.mk line _ ending hcut hnew rewriteLine_of_not_url

/-- Rewriting a URL and parsing it gives the rewritten URL. -/
theorem parseLine_rewritten {n n' m : NarInfo} {line : Str}
    (hn : NarInfo.Rewritten upstream storeHash mode n n') (h : n.parseLine line = .ok m) :
    ∃ m', n'.parseLine (rewriteLine upstream storeHash mode line) = .ok m' ∧
      NarInfo.Rewritten upstream storeHash mode m m' := by
  by_cases hurl : "URL: ".toList <+: line
  · rcases hurl with ⟨value, rfl⟩
    rw [NarInfo.parseLine_url] at h
    cases h
    rw [rewriteLine_url, NarInfo.parseLine_url]
    refine ⟨_, rfl, ?_, fun _ => rfl⟩
    rw [hn.kept]
  · have hline : line.dropPrefix? "URL: ".toList = none := by
      cases hdrop : line.dropPrefix? "URL: ".toList with
      | none => rfl
      | some value =>
          rcases List.dropPrefix?_eq_some_iff.1 hdrop with ⟨found, rfl, hfound⟩
          rw [beq_iff_eq] at hfound
          exact absurd ⟨value, by rw [hfound]⟩ hurl
    have hm : m.url = n.url := by
      have hself : n.parseLine line = (n.parseLine line).map fun m => { m with url := n.url } :=
        NarInfo.parseLine_url_comm hline n.url
      rw [h] at hself
      exact (congrArg NarInfo.url (Except.ok.inj hself)).trans rfl
    rw [rewriteLine_of_not_url hurl, hn.kept, NarInfo.parseLine_url_comm hline, h]
    refine ⟨{ m with url := n'.url }, rfl, rfl, ?_⟩
    rw [hm]
    exact hn.url

theorem foldlM_rewritten {chunks : List Str} {n n' m : NarInfo}
    (hcut : ∀ chunk ∈ chunks, (splitLineEnding (rewriteChunk upstream storeHash mode chunk)).1 =
      rewriteLine upstream storeHash mode (splitLineEnding chunk).1)
    (hn : NarInfo.Rewritten upstream storeHash mode n n')
    (h : chunks.foldlM (fun n chunk => n.parseLine (splitLineEnding chunk).1) n = .ok m) :
    ∃ m', (chunks.map (rewriteChunk upstream storeHash mode)).foldlM
        (fun n chunk => n.parseLine (splitLineEnding chunk).1) n' = .ok m' ∧
      NarInfo.Rewritten upstream storeHash mode m m' := by
  induction chunks generalizing n n' with
  | nil =>
      cases h
      exact ⟨n', rfl, hn⟩
  | cons chunk chunks ih =>
      rw [List.foldlM_cons] at h
      cases hline : n.parseLine (splitLineEnding chunk).1 with
      | error err => simp [hline, bind, Except.bind] at h
      | ok n₁ =>
          rw [hline] at h
          rcases parseLine_rewritten hn hline with ⟨n₁', hline', hn₁⟩
          rw [List.map_cons, List.foldlM_cons, hcut chunk List.mem_cons_self, hline']
          exact ih (fun c hc => hcut c (List.mem_cons_of_mem _ hc)) hn₁ h

theorem rewriteText_keep (text : Str) : rewriteText upstream storeHash .keep text = text := by
  have hline : ∀ line, rewriteLine upstream storeHash .keep line = line := by
    intro line
    by_cases hurl : "URL: ".toList <+: line
    · rcases hurl with ⟨value, rfl⟩
      exact rewriteLine_url value
    · exact rewriteLine_of_not_url hurl
  have hchunk : ∀ chunk ∈ splitInclusive '\n' text,
      rewriteChunk upstream storeHash .keep chunk = chunk := by
    intro chunk hmem
    rcases mem_splitInclusive_cases hmem with ⟨line, ending, hchunk, hcut, -⟩
    rw [rewriteChunk, hcut, hline, hchunk]
  rw [rewriteText, List.flatMap_def, List.map_congr_left hchunk, List.map_id',
    flatten_splitInclusive]

theorem rewriteNarinfoUrl_toUtf8 (text : Str) :
    rewriteNarinfoUrl (toUtf8 text) upstream storeHash mode =
      toUtf8 (rewriteText upstream storeHash mode text) := by
  unfold rewriteNarinfoUrl
  split
  · next hmode => rw [hmode, rewriteText_keep]
  · rw [fromUtf8_toUtf8]

end Rewriting

theorem parse_toUtf8_eq_ok_iff {text : Str} {n : NarInfo} :
    NarInfo.parse (toUtf8 text) = .ok n ↔ NarInfo.parseText {} text = .ok n ∧ n.storePath ≠ [] := by
  rw [NarInfo.parse_toUtf8]
  cases NarInfo.parseText {} text with
  | error err => simp [bind, Except.bind]
  | ok m =>
      simp only [bind, Except.bind, Except.ok.injEq]
      by_cases hpath : m.storePath = []
      · rw [if_pos hpath]
        constructor
        · intro h
          cases h
        · rintro ⟨rfl, hne⟩
          exact absurd hpath hne
      · rw [if_neg hpath, Except.ok.injEq]
        constructor
        · rintro rfl
          exact ⟨rfl, hpath⟩
        · exact And.left

/-- Rewriting keeps what is signed. A body that parses is still parsed, to the same narinfo up
to its URL; without a carriage return in a URL value the lines are kept too, and the URL is the
rewritten one. -/
theorem rewriteNarinfoUrl_preserves (body : Octets) (n : NarInfo) (mode : NarUrlMode)
    (storeHash : StoreHash) (upstream : Str) (h : NarInfo.parse body = .ok n)
    (hreturn : '\r' ∉ upstream) (hnewline : '\n' ∉ upstream) :
    ∃ n', NarInfo.parse (rewriteNarinfoUrl body upstream storeHash.val mode) = .ok n' ∧
      n' = { n with url := n'.url } ∧ n'.fingerprint = n.fingerprint ∧
      (∀ crypto publicKey, n'.verify crypto publicKey = n.verify crypto publicKey) ∧
      ((∀ value ∈ bodyUrlValues body, '\r' ∉ value) →
        List.Forall₂ LineKept (splitInclusive 10 body)
          (splitInclusive 10 (rewriteNarinfoUrl body upstream storeHash.val mode)) ∧
        (n.url ≠ [] →
          n'.url = rewriteNarUrlValue n.url upstream storeHash.val mode)) := by
  rcases parse_rewriteNarinfoUrl h (newline_notMem_of_isStoreHash storeHash.property)
    (fun _ => hnewline) with ⟨url, hurl⟩
  refine ⟨{ n with url := url }, hurl, rfl, rfl, fun _ _ => rfl, ?_⟩
  intro hvalues
  rcases exists_text_of_parse h with ⟨text, rfl⟩
  rw [bodyUrlValues, fromUtf8_toUtf8] at hvalues
  rw [rewriteNarinfoUrl_toUtf8] at hurl ⊢
  have hlines := splitInclusive_rewriteText (newline_notMem_of_isStoreHash storeHash.property)
    (fun _ : mode = .toUpstream => hnewline) text
  have hkept := fun chunk (hmem : chunk ∈ splitInclusive '\n' text) =>
    lineKept_rewriteChunk mode hmem hvalues storeHash.property hnewline hreturn
  constructor
  · rw [splitInclusive_toUtf8, splitInclusive_toUtf8, hlines]
    simp only [List.forall₂_map_left_iff, List.forall₂_map_right_iff, List.forall₂_same]
    exact fun chunk hmem => (hkept chunk hmem).2
  · have hstart : NarInfo.Rewritten upstream storeHash.val mode {} {} := ⟨rfl, fun h => absurd rfl h⟩
    rcases foldlM_rewritten (fun chunk hmem => congrArg Prod.fst (hkept chunk hmem).1) hstart
      (parse_toUtf8_eq_ok_iff.1 h).1 with ⟨n', hn', hrewritten⟩
    have hsame := (parse_toUtf8_eq_ok_iff.1 hurl).1
    rw [NarInfo.parseText, hlines, hn', Except.ok.injEq] at hsame
    rw [← hsame]
    exact hrewritten.url

theorem rewriteNarinfoUrl_preserves_crlf :
    ∃ n', NarInfo.parse (rewriteNarinfoUrl
        (toUtf8 "StorePath: /nix/store/x-a\r\nURL: nar/x.nar.xz\nSig: URL: y".toList)
        "http://u".toList zeroHash.val .toUpstream) = .ok n' ∧
      n'.url = "http://u/nar/x.nar.xz".toList := by
  rcases rewriteNarinfoUrl_preserves
    (toUtf8 "StorePath: /nix/store/x-a\r\nURL: nar/x.nar.xz\nSig: URL: y".toList)
    { storePath := "/nix/store/x-a".toList, url := "nar/x.nar.xz".toList,
      sig := ["URL: y".toList] }
    .toUpstream zeroHash "http://u".toList (by decide) (by decide) (by decide) with
    ⟨n', hn', -, -, -, hkept⟩
  refine ⟨n', hn', ?_⟩
  rw [(hkept (by rw [bodyUrlValues, fromUtf8_toUtf8]; decide)).2 (by decide)]
  decide

end Ncro
