import Ncro.Router.RootedPaths

/-!
# Where a NAR is fetched

A narinfo names its NAR by a path below the base URL of its upstream, or by an
absolute URL. The NAR is requested from the base URL followed by what
`relativeNarUrl` leaves of the narinfo's URL, and `relativeNarUrl` strips a
host, not a base: `fetchedWherePublished_iff` says when the two agree.
-/

namespace Ncro

open Foundation

/-- The base URL of an HTTP upstream. -/
structure HttpBase where
  scheme : Str
  authority : Str
  path : Str
  http : scheme = "http".toList ∨ scheme = "https".toList
  authority_ne_nil : authority ≠ []
  slash_notMem : '/' ∉ authority
  rooted : Rooted path

def HttpBase.url (base : HttpBase) : Str :=
  base.scheme ++ ("://".toList ++ (base.authority ++ base.path))

/-- The URL of a path below a base URL: one slash stands between them. -/
def underBase (upstream path : Str) : Str :=
  upstream.rdropWhile (· = '/') ++ '/' :: path

/-- The URL a NAR is requested from when its narinfo has the given URL. -/
def requestedUrl (upstream url : Str) : Str :=
  upstream ++ '/' :: relativeNarUrl url

/-- A path that is not a URL of its own: a colon would make its first segment a scheme. -/
def IsRelativePath (path : Str) : Prop :=
  path.head? ≠ some '/' ∧ ':' ∉ path.takeWhile fun c => c ≠ '/' ∧ c ≠ '?' ∧ c ≠ '#'

/-- The path after the host that a text seems to have, wherever the text has its first `://`. -/
def HasHostBefore (path url : Str) : Prop :=
  ∃ before host, url.dropInfix? "://".toList = some (before, host ++ '/' :: path) ∧ '/' ∉ host

/-- The NAR is fetched from where the narinfo says it is, and the URL that clients are given for
it in the mode `toUpstream` is the same one. -/
structure FetchedWherePublished (base : HttpBase) (url : Str) : Prop where
  relative : ∀ path, IsRelativePath path → url = path ∨ url = '/' :: path →
    requestedUrl base.url url = underBase base.url path
  absolute : ∀ path, url = underBase base.url path → requestedUrl base.url url = url
  toUpstream : ∀ storeHash,
    rewriteNarUrlValue url base.url storeHash .toUpstream = requestedUrl base.url url

/-- The request for the NAR of a committed route. -/
theorem httpUrl_winnerRoute (reg : Registry) (app : AppState) (winner : RaceResult)
    (storeHash : Str) (body : Option Octets) (parsed : NarInfo) (ema : Double) (now : Timestamp)
    (method : Method) (headers : HeaderMap) (route : RouteKind) :
    (narRequest app method headers ⟨winner.url,
      (winnerRoute reg winner storeHash body parsed ema now).upstreamNarUrl, route⟩).httpUrl =
        requestedUrl winner.url parsed.url := rfl

/-! ## Paths -/

theorem relativeNarUrl_of_host {path url : Str} (h : HasHostBefore path url) :
    relativeNarUrl url = path := by
  rcases h with ⟨before, host, hdrop, hhost⟩
  rw [relativeNarUrl, hdrop]
  dsimp only
  rw [dropInfix?_singleton hhost]

theorem relativeNarUrl_of_no_host {url : Str} (h : ∀ path, ¬ HasHostBefore path url) :
    relativeNarUrl url = url.dropWhile (· = '/') := by
  unfold relativeNarUrl
  split
  · next before rest hdrop =>
    by_cases hslash : '/' ∈ rest
    · rcases List.eq_append_cons_of_mem hslash with ⟨host, path, rfl, hhost⟩
      exact absurd ⟨before, host, hdrop, hhost⟩ (h path)
    · rw [dropInfix?_singleton_eq_none hslash]
  · rfl

theorem length_lt_of_host {path url : Str} (h : HasHostBefore path url) :
    path.length + 4 ≤ url.length := by
  rcases h with ⟨before, host, hdrop, -⟩
  rcases List.dropInfix?_eq_some_iff.1 hdrop with ⟨⟨sep, rfl, hsep⟩, -⟩
  rw [beq_iff_eq] at hsep
  subst hsep
  simp only [List.length_append, List.length_cons]
  have hlength : "://".toList.length = 3 := by decide
  omega

/-- Only a path after a host may begin with a slash. -/
theorem head?_relativeNarUrl_eq_slash {url : Str} (h : (relativeNarUrl url).head? = some '/') :
    HasHostBefore (relativeNarUrl url) url := by
  by_contra hnone
  have hno : ∀ path, ¬ HasHostBefore path url := by
    intro path hpath
    rw [relativeNarUrl_of_host hpath] at hnone
    exact hnone hpath
  rw [relativeNarUrl_of_no_host hno] at h
  have hhead := List.head?_dropWhile_not (fun c => decide (c = '/')) url
  rw [h] at hhead
  simp at hhead

theorem dropWhile_slash_eq_self_iff {path : Str} :
    path.dropWhile (· = '/') = path ↔ path.head? ≠ some '/' := by
  cases path with
  | nil => simp
  | cons c path =>
      by_cases hc : c = '/'
      · have hshorter : (path.dropWhile (· = '/')).length ≤ path.length :=
          (List.dropWhile_sublist _).length_le
        constructor
        · intro hself
          rw [List.dropWhile_cons_of_pos (by simpa using hc)] at hself
          have hsame := congrArg List.length hself
          rw [List.length_cons] at hsame
          omega
        · intro hne
          exact absurd (congrArg some hc) hne
      · simp [hc]

theorem rdropWhile_slash_eq_self_iff {path : Str} :
    path.rdropWhile (· = '/') = path ↔ path.getLast? ≠ some '/' := by
  rw [← List.head?_reverse, ← dropWhile_slash_eq_self_iff, List.rdropWhile, List.reverse_eq_iff]

theorem rdropWhile_append {before : Str} (hbefore : before.getLast? ≠ some '/') (path : Str) :
    (before ++ path).rdropWhile (· = '/') = before ++ path.rdropWhile (· = '/') := by
  induction path using List.reverseRecOn with
  | nil => simpa using rdropWhile_slash_eq_self_iff.2 hbefore
  | append_singleton path c ih =>
      rw [← List.append_assoc, List.rdropWhile_concat, List.rdropWhile_concat]
      by_cases hc : c = '/'
      · simpa [hc] using ih
      · simp [hc]

/-- The scheme and the host of a base URL. -/
def HttpBase.origin (base : HttpBase) : Str :=
  base.scheme ++ ("://".toList ++ base.authority)

theorem HttpBase.url_eq (base : HttpBase) : base.url = base.origin ++ base.path := by
  simp [HttpBase.url, HttpBase.origin]

theorem HttpBase.rdropWhile_url (base : HttpBase) :
    base.url.rdropWhile (· = '/') = base.origin ++ base.path.rdropWhile (· = '/') := by
  rw [base.url_eq]
  apply rdropWhile_append
  rw [HttpBase.origin, List.getLast?_append_of_ne_nil, List.getLast?_append_of_ne_nil]
  · intro hlast
    exact base.slash_notMem (List.mem_of_getLast? hlast)
  · exact base.authority_ne_nil
  · simp

/-- What `relativeNarUrl` leaves of a URL on the host of the base URL. -/
theorem HttpBase.hasHostBefore (base : HttpBase) (path : Str) :
    HasHostBefore path (base.origin ++ '/' :: path) := by
  refine ⟨base.scheme, base.authority, ?_, base.slash_notMem⟩
  have hscheme : ':' ∉ base.scheme := by
    rcases base.http with h | h <;> rw [h] <;> decide
  rw [HttpBase.origin, List.append_assoc, List.append_assoc]
  exact dropInfix?_cons hscheme

/-! ## The three cases -/

/-- One slash stands between the parts of a URL below a base URL. -/
theorem underBase_eq_iff {upstream path rest : Str} (hpath : path.head? ≠ some '/') :
    upstream ++ '/' :: rest = underBase upstream path ↔
      upstream.rdropWhile (· = '/') = upstream ∧ rest = path := by
  constructor
  · intro h
    have hsplit : upstream.rdropWhile (· = '/') ++ upstream.rtakeWhile (· = '/') = upstream :=
      List.rdropWhile_append_rtakeWhile
    rw [underBase] at h
    nth_rewrite 1 [← hsplit] at h
    rw [List.append_assoc, List.append_cancel_left_eq] at h
    cases htrimmed : upstream.rtakeWhile (· = '/') with
    | nil =>
        rw [htrimmed, List.append_nil] at hsplit
        rw [htrimmed] at h
        exact ⟨hsplit, (List.cons.inj h).2⟩
    | cons c trimmed =>
        rw [htrimmed, List.cons_append, List.cons.injEq] at h
        apply absurd _ hpath
        rw [← h.2]
        cases trimmed with
        | nil => rfl
        | cons d trimmed =>
            have hd : d = '/' := by
              have hmem : d ∈ upstream.rtakeWhile (· = '/') := by simp [htrimmed]
              simpa using List.mem_rtakeWhile_imp hmem
            exact congrArg some hd
  · rintro ⟨htrim, rfl⟩
    rw [underBase, htrim]

/-- The URL that is asked for a relative path is below the base URL, unless the base URL ends in
a slash or the path is taken for a URL with a host. -/
theorem requestedUrl_relative_iff {base : HttpBase} {path url : Str} (hpath : IsRelativePath path)
    (hurl : url = path ∨ url = '/' :: path) :
    requestedUrl base.url url = underBase base.url path ↔
      base.url.getLast? ≠ some '/' ∧ ∀ rest, ¬ HasHostBefore rest url := by
  have htrim : url.dropWhile (· = '/') = path := by
    have hself := dropWhile_slash_eq_self_iff.2 hpath.1
    rcases hurl with rfl | rfl
    · exact hself
    · rwa [List.dropWhile_cons_of_pos (by simp)]
  have hrelative : relativeNarUrl url = path ↔ ∀ rest, ¬ HasHostBefore rest url := by
    constructor
    · intro hsame rest hhost
      rw [relativeNarUrl_of_host hhost] at hsame
      have hshorter := length_lt_of_host hhost
      rw [hsame] at hshorter
      rcases hurl with rfl | rfl
      · omega
      · rw [List.length_cons] at hshorter
        omega
    · intro hnone
      rw [relativeNarUrl_of_no_host hnone, htrim]
  rw [requestedUrl, underBase_eq_iff hpath.1, rdropWhile_slash_eq_self_iff, hrelative]

theorem Rooted.rdropWhile_append {path : Str} (h : Rooted path) (rest : Str) :
    ∃ more, path.rdropWhile (· = '/') ++ '/' :: rest = '/' :: more := by
  cases htrim : path.rdropWhile (· = '/') with
  | nil => exact ⟨rest, rfl⟩
  | cons c trimmed =>
      have hhead : c :: trimmed <+: path := htrim ▸ List.rdropWhile_prefix _ _
      rcases h with rfl | ⟨tail, rfl⟩
      · simp at hhead
      · rw [List.cons_prefix_cons] at hhead
        exact ⟨trimmed ++ '/' :: rest, by rw [hhead.1]; rfl⟩

/-- An absolute URL below the base URL is asked for exactly when the base URL has no path. -/
theorem requestedUrl_underBase_iff {base : HttpBase} {path : Str} :
    requestedUrl base.url (underBase base.url path) = underBase base.url path ↔
      base.path = [] := by
  rcases base.rooted.rdropWhile_append path with ⟨more, hmore⟩
  have hunder : underBase base.url path = base.origin ++ '/' :: more := by
    rw [underBase, base.rdropWhile_url, List.append_assoc, hmore]
  rw [hunder, requestedUrl, relativeNarUrl_of_host (base.hasHostBefore more), base.url_eq,
    List.append_cancel_right_eq, List.append_right_eq_self]

/-- Clients are given the URL that is asked for unless its two parts bring a slash each. -/
theorem rewriteNarUrlValue_toUpstream_iff {upstream url storeHash : Str} :
    rewriteNarUrlValue url upstream storeHash .toUpstream = requestedUrl upstream url ↔
      upstream.getLast? ≠ some '/' ∧
        ∀ path, HasHostBefore path url → path.head? ≠ some '/' := by
  have hupstream : (upstream.rdropWhile (· = '/')).length ≤ upstream.length :=
    (List.rdropWhile_prefix _ _).length_le
  have hrelative : ((relativeNarUrl url).dropWhile (· = '/')).length ≤
      (relativeNarUrl url).length := (List.dropWhile_sublist _).length_le
  have hhead : (∀ path, HasHostBefore path url → path.head? ≠ some '/') ↔
      (relativeNarUrl url).head? ≠ some '/' := by
    constructor
    · intro h hslash
      exact h _ (head?_relativeNarUrl_eq_slash hslash) hslash
    · intro h path hpath
      rwa [relativeNarUrl_of_host hpath] at h
  rw [hhead, ← rdropWhile_slash_eq_self_iff, ← dropWhile_slash_eq_self_iff, rewriteNarUrlValue,
    requestedUrl]
  constructor
  · intro hsame
    have hlength := congrArg List.length hsame
    simp only [List.length_append, List.length_cons] at hlength
    have hleft := List.append_inj hsame (by omega)
    exact ⟨hleft.1, (List.cons.inj hleft.2).2⟩
  · rintro ⟨hleft, hright⟩
    rw [hleft, hright]

/-- A cache below the path `/cache` of its host. -/
def cacheBelowPath : HttpBase where
  scheme := "https".toList
  authority := "example.org".toList
  path := "/cache".toList
  http := Or.inr rfl
  authority_ne_nil := by decide
  slash_notMem := by decide
  rooted := Or.inr ⟨"cache".toList, rfl⟩

end Ncro
