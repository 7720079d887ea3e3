import TokenStation.Library.TextCuts

/-!
# Counting endpoints

A family may declare how the path of its generation URL becomes the path of
its counting URL: the end of the path is replaced. The host sends the same
credential to both.
-/

namespace TokenStation.Manifest

open Library.TextCuts

def maxCountTokensPathSuffixBytes : Nat := 64

/-- A path suffix replacement. -/
structure PathSuffixV1 where
  fromText : List Char
  toText : List Char
deriving DecidableEq, Repr

def isSuffixChar (c : Char) : Bool := c.isAlphanum || c ∈ ['.', '_', '~', ':', '/', '-']

def sideOk (side : List Char) : Bool :=
  !side.isEmpty && utf8Len side ≤ maxCountTokensPathSuffixBytes && side.all isSuffixChar

def PathSuffixV1.isValid (suffix : PathSuffixV1) : Bool :=
  sideOk suffix.fromText && sideOk suffix.toText && suffix.fromText != suffix.toText

/-- What separates a scheme from the rest. -/
def schemeMark : List Char := [':', '/', '/']

/-- The characters that end a path. -/
def endsPath (c : Char) : Bool := c == '?' || c == '#'

/-- The counting URL for a generation URL. -/
def rewriteCountTokensPath (url : List Char) (suffix : PathSuffixV1) : Option (List Char) := do
  let (scheme, rest) ← url.dropInfix? schemeMark
  if scheme.isEmpty then none
  else if '/' ∉ rest then none
  else
    let authority := rest.takeWhile fun c => !isSlash c
    let after := rest.dropWhile fun c => !isSlash c
    if authority.isEmpty || authority.any endsPath then none
    else
      let path := after.takeWhile fun c => !endsPath c
      let tail := after.dropWhile fun c => !endsPath c
      let stem ← path.dropSuffix? suffix.fromText
      return scheme ++ schemeMark ++ (authority ++ (stem ++ suffix.toText ++ tail))

/-! ## What a URL names -/

/-- The characters that end an authority. -/
def endsAuthority (c : Char) : Bool := isSlash c || endsPath c

/-- Scheme and authority, with the mark between them. -/
def origin (url : List Char) : List Char :=
  match url.dropInfix? schemeMark with
  | some (scheme, rest) => scheme ++ schemeMark ++ rest.takeWhile fun c => !endsAuthority c
  | none => url

/-- The path, up to a query or a fragment. -/
def urlPath (url : List Char) : List Char :=
  match url.dropInfix? schemeMark with
  | some (_, rest) =>
      (rest.dropWhile fun c => !endsAuthority c).takeWhile fun c => !endsPath c
  | none => []

/-- The text from the first question or number sign. -/
def urlTail (url : List Char) : List Char := url.dropWhile fun c => !endsPath c

/-- The text before the mark, if there is a mark. -/
def urlScheme (url : List Char) : List Char :=
  match url.dropInfix? schemeMark with
  | some (scheme, _) => scheme
  | none => []

/-- Nothing but the end of the path has changed. -/
structure KeepsOrigin (suffix : PathSuffixV1) (url counting : List Char) : Prop where
  origin : origin counting = origin url
  tail : urlTail counting = urlTail url
  path : ∃ stem, urlPath url = stem ++ suffix.fromText ∧ urlPath counting = stem ++ suffix.toText

/-- The pieces of a URL. -/
structure Pieces (scheme authority path tail : List Char) : Prop where
  marked : ∀ rest, (scheme ++ schemeMark ++ rest).dropInfix? schemeMark = some (scheme, rest)
  authorityEnds : ∀ c ∈ authority, endsAuthority c = false
  pathEnds : ∀ c ∈ path, endsPath c = false
  slash : path.head? = some '/'
  tailStarts : StopsAt endsPath tail

/-- A URL in pieces. -/
def joined (scheme authority path tail : List Char) : List Char :=
  scheme ++ schemeMark ++ (authority ++ (path ++ tail))

section Pieces

variable {scheme authority path tail : List Char}

theorem Pieces.stopsAt (h : Pieces scheme authority path tail) :
    StopsAt endsAuthority (path ++ tail) := by
  intro c hc
  rw [Option.mem_def, List.head?_append, h.slash] at hc
  obtain rfl := Option.some.inj hc
  rfl

theorem Pieces.origin_eq (h : Pieces scheme authority path tail) :
    origin (joined scheme authority path tail) = scheme ++ schemeMark ++ authority := by
  rw [origin, joined, h.marked]
  exact congrArg _ (takeWhile_append_stop h.authorityEnds h.stopsAt)

theorem Pieces.urlPath_eq (h : Pieces scheme authority path tail) :
    urlPath (joined scheme authority path tail) = path := by
  rw [urlPath, joined, h.marked]
  dsimp only
  rw [dropWhile_append_stop h.authorityEnds h.stopsAt, takeWhile_append_stop h.pathEnds h.tailStarts]

theorem Pieces.urlScheme_eq (h : Pieces scheme authority path tail) :
    urlScheme (joined scheme authority path tail) = scheme := by
  rw [urlScheme, joined, h.marked]

theorem Pieces.authority_plain (h : Pieces scheme authority path tail) :
    ∀ c ∈ authority, endsPath c = false := by
  intro c hc
  have hends := h.authorityEnds c hc
  rw [endsAuthority, Bool.or_eq_false_iff] at hends
  exact hends.2

theorem schemeMark_plain : ∀ c ∈ schemeMark, endsPath c = false := by
  simp [schemeMark, endsPath]

theorem Pieces.urlTail_eq (h : Pieces scheme authority path tail)
    (hscheme : ∀ c ∈ scheme, endsPath c = false) :
    urlTail (joined scheme authority path tail) = tail := by
  have hfront : ∀ c ∈ scheme ++ schemeMark ++ (authority ++ path), endsPath c = false := by
    intro c hc
    simp only [List.mem_append] at hc
    rcases hc with (hc | hc) | hc | hc
    · exact hscheme c hc
    · exact schemeMark_plain c hc
    · exact h.authority_plain c hc
    · exact h.pathEnds c hc
  rw [urlTail, joined, ← List.append_assoc authority, ← List.append_assoc]
  exact dropWhile_append_stop hfront h.tailStarts

end Pieces

/-- A text with a slash, cut at its first slash. -/
theorem exists_slash {text : List Char} (h : '/' ∈ text) :
    ∃ more, (text.dropWhile fun c => !isSlash c) = '/' :: more := by
  cases hcut : text.dropWhile fun c => !isSlash c with
  | nil =>
      have hplain := List.dropWhile_eq_nil_iff.mp hcut '/' h
      cases hplain
  | cons c more =>
      have hc : isSlash c = true := stopsAt_dropWhile isSlash text c (by rw [hcut]; rfl)
      rw [isSlash, beq_iff_eq] at hc
      exact ⟨more, by rw [hc]⟩

theorem rewrite_pieces {url counting : List Char} {suffix : PathSuffixV1}
    (h : rewriteCountTokensPath url suffix = some counting) :
    ∃ scheme authority stem tail, Pieces scheme authority (stem ++ suffix.fromText) tail ∧
      url = joined scheme authority (stem ++ suffix.fromText) tail ∧
      counting = joined scheme authority (stem ++ suffix.toText) tail := by
  unfold rewriteCountTokensPath at h
  obtain ⟨⟨scheme, rest⟩, hurl, h⟩ := Option.bind_eq_some_iff.mp h
  dsimp only at h
  split at h
  · cases h
  split at h
  · cases h
  rename_i hslash
  split at h
  · cases h
  rename_i hauthority
  obtain ⟨stem, hstem, h⟩ := Option.bind_eq_some_iff.mp h
  obtain rfl := Option.some.inj h
  have hpath := dropSuffix?_eq hstem
  set authority := rest.takeWhile fun c => !isSlash c with hauthorityEq
  set after := rest.dropWhile fun c => !isSlash c with hafterEq
  set tail := after.dropWhile fun c => !endsPath c with htailEq
  have hrest : rest = authority ++ after := (takeWhile_append_dropWhile_not isSlash rest).symm
  have hafter : after = stem ++ suffix.fromText ++ tail := by
    rw [← hpath]
    exact (takeWhile_append_dropWhile_not endsPath after).symm
  refine ⟨scheme, authority, stem, tail, ⟨?_, ?_, ?_, ?_, ?_⟩, ?_, rfl⟩
  · exact dropInfix?_replace hurl
  · intro c hc
    simp only [Bool.or_eq_true, not_or, Bool.not_eq_true] at hauthority
    rw [endsAuthority, mem_takeWhile_not c hc, Bool.false_or]
    simpa using List.any_eq_false.mp hauthority.2 c hc
  · rw [← hpath]
    exact mem_takeWhile_not
  · obtain ⟨more, hmore⟩ := exists_slash (not_not.mp hslash)
    rw [← hpath, hafterEq, hmore, List.takeWhile_cons]
    rfl
  · exact stopsAt_dropWhile endsPath after
  · rw [dropInfix?_eq hurl, hrest, hafter]
    rfl

/-- The end of a path is replaced by something that still starts the path. -/
theorem Pieces.replace {scheme authority stem tail : List Char} {suffix : PathSuffixV1}
    (h : Pieces scheme authority (stem ++ suffix.fromText) tail)
    (hto : ∀ c ∈ suffix.toText, endsPath c = false)
    (hslash : stem ≠ [] ∨ suffix.toText.head? = some '/') :
    Pieces scheme authority (stem ++ suffix.toText) tail where
  marked := h.marked
  authorityEnds := h.authorityEnds
  pathEnds c hc := by
    rcases List.mem_append.mp hc with hc | hc
    · exact h.pathEnds c (List.mem_append_left _ hc)
    · exact hto c hc
  slash := by
    have hpath := h.slash
    cases stem with
    | nil => exact hslash.resolve_left (· rfl)
    | cons c stem => exact hpath
  tailStarts := h.tailStarts

/-- The characters of a valid suffix end no path. -/
theorem isSuffixChar_plain {c : Char} (h : isSuffixChar c = true) : endsPath c = false := by
  rw [endsPath, Bool.or_eq_false_iff, beq_eq_false_iff_ne, beq_eq_false_iff_ne]
  constructor
  · rintro rfl
    cases h
  · rintro rfl
    cases h

theorem PathSuffixV1.toText_plain {suffix : PathSuffixV1} (h : suffix.isValid = true) :
    ∀ c ∈ suffix.toText, endsPath c = false := by
  intro c hc
  simp only [PathSuffixV1.isValid, sideOk, Bool.and_eq_true, List.all_eq_true] at h
  exact isSuffixChar_plain (h.1.2.2 c hc)

theorem PathSuffixV1.toText_ne_nil {suffix : PathSuffixV1} (h : suffix.isValid = true) :
    suffix.toText ≠ [] := by
  simp only [PathSuffixV1.isValid, sideOk, Bool.and_eq_true, Bool.not_eq_true',
    List.isEmpty_eq_false_iff] at h
  exact h.1.2.1.1

theorem PathSuffixV1.texts_ne {suffix : PathSuffixV1} (h : suffix.isValid = true) :
    suffix.fromText ≠ suffix.toText := by
  simp only [PathSuffixV1.isValid, Bool.and_eq_true, bne_iff_ne] at h
  exact h.2

/-- A query or fragment sign in the scheme leaves the replaced end in the tail. -/
theorem scheme_plain_of_tail {scheme authority stem tail before after : List Char}
    (htail : urlTail (joined scheme authority (stem ++ before) tail) =
      urlTail (joined scheme authority (stem ++ after) tail)) (hne : before ≠ after) :
    ∀ c ∈ scheme, endsPath c = false := by
  intro c hc
  by_contra hends
  have hcut (path : List Char) : urlTail (joined scheme authority path tail) =
      (scheme.dropWhile fun c => !endsPath c) ++ (schemeMark ++ (authority ++ (path ++ tail))) := by
    rw [urlTail, joined, List.append_assoc, List.dropWhile_append, if_neg]
    rw [List.isEmpty_iff, List.dropWhile_eq_nil_iff]
    intro hall
    have hplain := hall c hc
    simp only [Bool.not_eq_true'] at hplain
    exact hends hplain
  rw [hcut, hcut] at htail
  have hpath := List.append_cancel_right (List.append_cancel_left (List.append_cancel_left
    (List.append_cancel_left htail)))
  exact hne (List.append_cancel_left hpath)

/-- A replacement that starts with no slash runs into an authority left bare. -/
theorem origin_bare {scheme authority suffixText tail : List Char} {c : Char}
    (hmark : ∀ rest, (scheme ++ schemeMark ++ rest).dropInfix? schemeMark = some (scheme, rest))
    (hauthority : ∀ c ∈ authority, endsAuthority c = false) (hc : endsAuthority c = false) :
    origin (joined scheme authority (c :: suffixText) tail) ≠
      scheme ++ schemeMark ++ authority := by
  intro h
  rw [origin, joined, hmark] at h
  dsimp only at h
  rw [List.takeWhile_append_of_pos fun c hc => by rw [hauthority c hc]; rfl, List.cons_append, List.takeWhile_cons, hc] at h
  have hlength := congrArg List.length h
  simp at hlength

/-- The counting URL keeps the origin, the tail and the stem of the path, except
where the suffix is the whole path and its replacement starts with no slash. -/
theorem rewrite_keeps_origin_iff {url counting : List Char} {suffix : PathSuffixV1}
    (hvalid : suffix.isValid = true)
    (h : rewriteCountTokensPath url suffix = some counting) :
    KeepsOrigin suffix url counting ↔
      (∀ c ∈ urlScheme url, endsPath c = false) ∧
        (urlPath url ≠ suffix.fromText ∨ suffix.toText.head? = some '/') := by
  obtain ⟨scheme, authority, stem, tail, hpieces, rfl, rfl⟩ := rewrite_pieces h
  rw [hpieces.urlScheme_eq, hpieces.urlPath_eq]
  have hstem : stem ++ suffix.fromText ≠ suffix.fromText ↔ stem ≠ [] := by
    rw [Ne, List.append_left_eq_self]
  rw [hstem]
  constructor
  · intro hkeeps
    refine ⟨scheme_plain_of_tail hkeeps.tail.symm (PathSuffixV1.texts_ne hvalid), ?_⟩
    by_contra hnot
    obtain ⟨hempty, hslash⟩ := not_or.mp hnot
    obtain rfl := not_not.mp hempty
    obtain ⟨c, more, hto⟩ := List.exists_cons_of_ne_nil (PathSuffixV1.toText_ne_nil hvalid)
    have hends : endsAuthority c = false := by
      rw [endsAuthority, Bool.or_eq_false_iff, isSlash, beq_eq_false_iff_ne]
      refine ⟨?_, PathSuffixV1.toText_plain hvalid c (by rw [hto]; exact List.mem_cons_self)⟩
      rintro rfl
      exact hslash (by rw [hto]; rfl)
    have horigin := hkeeps.origin
    rw [hpieces.origin_eq, List.nil_append, hto] at horigin
    exact origin_bare hpieces.marked hpieces.authorityEnds hends horigin
  · rintro ⟨hscheme, hslash⟩
    have hreplaced := hpieces.replace (PathSuffixV1.toText_plain hvalid) hslash
    refine ⟨?_, ?_, stem, hpieces.urlPath_eq, hreplaced.urlPath_eq⟩
    · rw [hreplaced.origin_eq, hpieces.origin_eq]
    · rw [hreplaced.urlTail_eq hscheme, hpieces.urlTail_eq hscheme]

/-- `:generate` becomes `:count` on a model's path. -/
def modelUrl : List Char := "https://api.test/models/a:generate?alt=sse".toList
def modelCountingUrl : List Char := "https://api.test/models/a:count?alt=sse".toList
def modelSuffix : PathSuffixV1 := ⟨":generate".toList, ":count".toList⟩

theorem model_keeps_origin :
    KeepsOrigin modelSuffix modelUrl modelCountingUrl ↔
      (∀ c ∈ urlScheme modelUrl, endsPath c = false) ∧
        (urlPath modelUrl ≠ modelSuffix.fromText ∨ modelSuffix.toText.head? = some '/') :=
  rewrite_keeps_origin_iff (by decide) (by decide)

/-- The suffix takes the whole path, and the replacement names another host. -/
theorem counting_origin_changes :
    ∃ url suffix counting, suffix.isValid = true ∧
      rewriteCountTokensPath url suffix = some counting ∧
      ¬ KeepsOrigin suffix url counting := by
  refine ⟨"https://api.test/generate".toList, ⟨"/generate".toList, ".example/count".toList⟩,
    "https://api.test.example/count".toList, by decide, by decide, ?_⟩
  intro h
  have horigin := h.origin
  revert horigin
  decide

end TokenStation.Manifest
