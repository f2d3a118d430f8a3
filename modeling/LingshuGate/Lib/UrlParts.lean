import LingshuGate.Lib.Percent
import LingshuGate.Lib.PyText

/-!
# URLs and their queries (`urllib.parse`)

`urlsplit`, `urlunsplit`, `parse_qsl` and `urlencode` over lists of characters. What `ipaddress` says of a bracketed host
and Unicode normalisation of another is the parameter `hosts`.

* `parseQsl_urlencode`: what is encoded is read back, blank values too;
* `urlsplit_rebuilt`: a split URL with another query, joined and split again.
-/

namespace Lib.Url

open Percent Py

/-- `text.partition(sep)`, without the separator. -/
def cut (sep : Char) : List Char → List Char × List Char
  | [] => ([], [])
  | c :: text => if c = sep then ([], text) else (c :: (cut sep text).1, (cut sep text).2)

variable {sep : Char}

theorem cut_append {a b : List Char} (h : sep ∉ a) : cut sep (a ++ sep :: b) = (a, b) := by
  induction a with
  | nil => simp [cut]
  | cons c a ih =>
    rw [List.mem_cons, not_or] at h
    rw [List.cons_append, cut, if_neg (Ne.symm h.1), ih h.2]

theorem cut_of_not_mem {a : List Char} (h : sep ∉ a) : cut sep a = (a, []) := by
  induction a with
  | nil => rfl
  | cons c a ih =>
    rw [List.mem_cons, not_or] at h
    rw [cut, if_neg (Ne.symm h.1), ih h.2]

/-- The part before the separator has none, and both parts are parts of the text. -/
theorem cut_parts (sep : Char) (text : List Char) :
    sep ∉ (cut sep text).1 ∧ (∀ c ∈ (cut sep text).1, c ∈ text) ∧ ∀ c ∈ (cut sep text).2, c ∈ text := by
  induction text with
  | nil => simp [cut]
  | cons c text ih =>
    rw [cut]
    split
    · exact ⟨List.not_mem_nil, fun _ h => absurd h List.not_mem_nil, fun d hd => List.mem_cons_of_mem _ hd⟩
    rename_i hc
    refine ⟨?_, ?_, fun d hd => List.mem_cons_of_mem _ (ih.2.2 d hd)⟩
    · rw [List.mem_cons, not_or]
      exact ⟨Ne.symm hc, ih.1⟩
    · intro d hd
      rcases List.mem_cons.mp hd with rfl | hd
      · exact List.mem_cons_self
      · exact List.mem_cons_of_mem _ (ih.2.1 d hd)

/-! ## Queries -/

/-- `parse_qsl(query, keep_blank_values=keepBlank)`. -/
def parseQsl (keepBlank : Bool) (query : List Char) : List (List Char × List Char) :=
  (splitChars '&' query).filterMap fun nameValue =>
    if nameValue = [] then none
    else
      let (name, value) := cut '=' nameValue
      if value ≠ [] || keepBlank then some (unquote (plusToSpace name), unquote (plusToSpace value)) else none

/-- `urlencode(params)`. -/
def urlencode (params : List (List Char × List Char)) : List Char :=
  List.intercalate ['&'] (params.map fun (name, value) => quotePlus name ++ '=' :: quotePlus value)

theorem splitChars_intercalate {parts : List (List Char)} (hne : parts ≠ []) (h : ∀ p ∈ parts, sep ∉ p) :
    splitChars sep (List.intercalate [sep] parts) = parts := by
  induction parts with
  | nil => exact absurd rfl hne
  | cons p parts ih =>
    have hp := h p List.mem_cons_self
    cases parts with
    | nil => simpa using splitChars_eq_singleton.mpr ⟨rfl, hp⟩
    | cons q parts =>
      have hrest := ih (List.cons_ne_nil _ _) fun r hr => h r (List.mem_cons_of_mem _ hr)
      rw [List.intercalate_cons_cons, List.append_assoc, List.singleton_append, splitChars_append hp, hrest]

/-- **What is encoded is read back**, blank values too. -/
theorem parseQsl_urlencode (params : List (List Char × List Char)) : parseQsl true (urlencode params) = params := by
  by_cases hempty : params = []
  · subst hempty
    rfl
  have hsplit : splitChars '&' (urlencode params) = params.map fun (name, value) => quotePlus name ++ '=' :: quotePlus value := by
    refine splitChars_intercalate (by simpa using hempty) ?_
    intro p hp hmem
    obtain ⟨⟨name, value⟩, -, rfl⟩ := List.mem_map.mp hp
    rcases List.mem_append.mp hmem with hname | hvalue
    · exact (mem_quotePlus hname).2.2.1 rfl
    · rcases List.mem_cons.mp hvalue with heq | hvalue
      · exact absurd heq (by decide)
      · exact (mem_quotePlus hvalue).2.2.1 rfl
  rw [parseQsl, hsplit, List.filterMap_map]
  refine (List.filterMap_congr ?_).trans List.filterMap_some
  rintro ⟨name, value⟩ -
  have hname : '=' ∉ quotePlus name := fun hmem => (mem_quotePlus hmem).2.2.2.1 rfl
  simp [cut_append hname, unquote_quotePlus]

/-! ## Splitting a URL -/

/-- What else is read from the result of `urlsplit`; reading `port` may raise `ValueError`, which is `none`. -/
structure SplitUrl where
  scheme : String
  netloc : String
  path : String := ""
  query : String := ""
  fragment : String := ""
  username : Option String := none
  password : Option String := none
  hostname : Option String
  port : Option (Option ℕ) := some none

structure SplitResult where
  scheme : List Char
  netloc : List Char
  path : List Char
  query : List Char
  fragment : List Char
  deriving DecidableEq

/-- Leading controls and spaces, and every tab and line break, are dropped. -/
def cleaned (url : List Char) : List Char :=
  (url.dropWhile (·.toNat ≤ 32)).filter fun c => !(c = '\t' || c = '\r' || c = '\n')

/-- ASCII letters. -/
def letter (c : Char) : Bool := (65 ≤ c.toNat && c.toNat ≤ 90) || (97 ≤ c.toNat && c.toNat ≤ 122)

/-- `scheme_chars` -/
def schemeChar (c : Char) : Bool := letter c || (48 ≤ c.toNat && c.toNat ≤ 57) || c = '+' || c = '-' || c = '.'

/-- The scheme in lower case and the text after it, where there is one. -/
def splitScheme (url : List Char) : List Char × List Char :=
  if url.contains ':' && url.head?.any letter && (cut ':' url).1.all schemeChar then
    ((cut ':' url).1.map Char.toLower, (cut ':' url).2)
  else ([], url)

def netlocEnd (c : Char) : Bool := c = '/' || c = '?' || c = '#'

/-- The authority and the text after it, where the text begins with `//`. -/
def splitNetloc : List Char → List Char × List Char
  | '/' :: '/' :: rest => (rest.takeWhile (!netlocEnd ·), rest.dropWhile (!netlocEnd ·))
  | url => ([], url)

/-- Brackets come in pairs, and `ipaddress` and the normalisation check have nothing against the host. -/
def netlocAllowed (hosts : List Char → Bool) (netloc : List Char) : Bool :=
  (netloc.contains '[' == netloc.contains ']') && ((!netloc.contains '[' && netloc.all ascii) || hosts netloc)

/-- `urlsplit(url)`; `none` is `ValueError`. -/
def urlsplit (hosts : List Char → Bool) (url : List Char) : Option SplitResult :=
  let (scheme, rest) := splitScheme (cleaned url)
  let (netloc, rest) := splitNetloc rest
  let (rest, fragment) := cut '#' rest
  let (path, query) := cut '?' rest
  if netlocAllowed hosts netloc then some ⟨scheme, netloc, path, query, fragment⟩ else none

/-- `uses_netloc` -/
def usesNetloc : List String :=
  ["", "ftp", "http", "gopher", "nntp", "telnet", "imap", "wais", "file", "mms", "https", "shttp", "snews", "prospero",
    "rtsp", "rtspu", "rsync", "svn", "svn+ssh", "sftp", "nfs", "git", "git+ssh", "ws", "wss"]

/-- `urlunsplit(parts)`. -/
def urlunsplit (parts : SplitResult) : List Char :=
  let url :=
    if parts.netloc ≠ [] || (usesNetloc.contains (String.ofList parts.scheme) && parts.scheme ≠ [] && parts.path.take 2 ≠ ['/', '/']) then
      '/' :: '/' :: parts.netloc ++ (if parts.path ≠ [] && parts.path.take 1 ≠ ['/'] then '/' :: parts.path else parts.path)
    else parts.path
  let url := if parts.scheme ≠ [] then parts.scheme ++ ':' :: url else url
  let url := if parts.query ≠ [] then url ++ '?' :: parts.query else url
  if parts.fragment ≠ [] then url ++ '#' :: parts.fragment else url

/-! ## A URL with another query -/

variable {url : List Char}

theorem cleaned_eq (h : ∀ c ∈ url, 32 < c.toNat) : cleaned url = url := by
  have hdrop : url.dropWhile (fun c => decide (c.toNat ≤ 32)) = url := by
    cases url with
    | nil => rfl
    | cons c url =>
      have := h c List.mem_cons_self
      exact List.dropWhile_cons_of_neg (by simpa using this)
  rw [cleaned, hdrop, List.filter_eq_self]
  intro c hc
  have hlt := h c hc
  simp only [Bool.not_eq_true', Bool.or_eq_false_iff, decide_eq_false_iff_not]
  refine ⟨⟨?_, ?_⟩, ?_⟩ <;>
  · rintro rfl
    exact absurd hlt (by decide)

/-- What a letter or another character of a scheme is in lower case. -/
theorem schemeChar_lower {c : Char} (h : schemeChar c = true) :
    schemeChar c.toLower = true ∧ c.toLower.toLower = c.toLower ∧ c.toLower ≠ ':' ∧ 32 < c.toLower.toNat ∧
      (letter c = true → letter c.toLower = true) := by
  have hsmall : ∀ n < 128, schemeChar (Char.ofNat n) = true →
      schemeChar (Char.ofNat n).toLower = true ∧ (Char.ofNat n).toLower.toLower = (Char.ofNat n).toLower ∧
        (Char.ofNat n).toLower ≠ ':' ∧ 32 < (Char.ofNat n).toLower.toNat ∧
        (letter (Char.ofNat n) = true → letter (Char.ofNat n).toLower = true) := by decide +kernel
  have hlt : c.toNat < 128 := by
    simp only [schemeChar, letter, Bool.or_eq_true, Bool.and_eq_true, decide_eq_true_eq] at h
    rcases h with ((((h | h) | h) | h) | h) | h
    · omega
    · omega
    · omega
    all_goals
      subst h
      decide
  have hc := hsmall c.toNat hlt
  rw [Char.ofNat_toNat] at hc
  exact hc h

/-- A scheme as `urlsplit` returns it. -/
structure LowerScheme (scheme : List Char) : Prop where
  head : scheme.head?.any letter = true
  chars : scheme.all schemeChar = true
  lower : scheme.map Char.toLower = scheme
  colon : ':' ∉ scheme
  plain : ∀ c ∈ scheme, 32 < c.toNat

theorem splitScheme_shape (h : (splitScheme url).1 ≠ []) : LowerScheme (splitScheme url).1 := by
  unfold splitScheme at h ⊢
  split
  · rename_i hscheme
    simp only [Bool.and_eq_true] at hscheme
    obtain ⟨⟨-, hhead⟩, hall⟩ := hscheme
    have hchar : ∀ c ∈ (cut ':' url).1, schemeChar c = true := fun c hc => List.all_eq_true.mp hall c hc
    refine ⟨?_, ?_, ?_, ?_, ?_⟩
    · cases url with
      | nil => simp at hhead
      | cons c url =>
        rw [cut] at hchar h ⊢
        split
        · rename_i hc
          subst hc
          have hcolon : letter ':' = false := by decide
          simp [hcolon] at hhead
        · rename_i hc
          simp only [if_neg hc] at hchar
          have hletter : letter c = true := by simpa using hhead
          simpa using (schemeChar_lower (hchar c List.mem_cons_self)).2.2.2.2 hletter
    · rw [List.all_map, List.all_eq_true]
      exact fun c hc => (schemeChar_lower (hchar c hc)).1
    · rw [List.map_map]
      exact List.map_congr_left fun c hc => (schemeChar_lower (hchar c hc)).2.1
    · intro hmem
      obtain ⟨c, hc, heq⟩ := List.mem_map.mp hmem
      exact (schemeChar_lower (hchar c hc)).2.2.1 heq
    · intro c hc
      obtain ⟨d, hd, rfl⟩ := List.mem_map.mp hc
      exact (schemeChar_lower (hchar d hd)).2.2.2.1
  · rename_i hscheme
    rw [if_neg hscheme] at h
    exact absurd rfl h

theorem splitScheme_append {scheme rest : List Char} (h : LowerScheme scheme) : splitScheme (scheme ++ ':' :: rest) = (scheme, rest) := by
  have hcut := cut_append (b := rest) h.colon
  have hhead : (scheme ++ ':' :: rest).head?.any letter = true := by
    have := h.head
    cases scheme with
    | nil => simp at this
    | cons c scheme => simpa using this
  have hcolon : (scheme ++ ':' :: rest).contains ':' = true := by simp
  rw [splitScheme, hcolon, hhead, hcut, h.chars]
  simp only [Bool.and_self, if_true, h.lower]

theorem splitScheme_rest (url : List Char) : ∀ c ∈ (splitScheme url).2, c ∈ url := by
  unfold splitScheme
  split
  · exact (cut_parts ':' url).2.2
  · exact fun c hc => hc

theorem splitNetloc_parts (url : List Char) :
    (∀ c ∈ (splitNetloc url).1, netlocEnd c = false ∧ c ∈ url) ∧ ∀ c ∈ (splitNetloc url).2, c ∈ url := by
  unfold splitNetloc
  split
  · rename_i rest
    refine ⟨?_, ?_⟩
    · intro c hc
      have hall := List.all_eq_true.mp (List.all_takeWhile (p := fun c => !netlocEnd c) (l := rest)) c hc
      exact ⟨by simpa using hall, List.mem_cons_of_mem _ (List.mem_cons_of_mem _ ((List.takeWhile_prefix _).subset hc))⟩
    · intro c hc
      exact List.mem_cons_of_mem _ (List.mem_cons_of_mem _ ((List.dropWhile_suffix _).subset hc))
  · exact ⟨fun c hc => absurd hc List.not_mem_nil, fun c hc => hc⟩

/-- What follows an authority begins with one of its end marks. -/
theorem splitNetloc_rest (h : (splitNetloc url).1 ≠ []) : ∀ c rest, (splitNetloc url).2 = c :: rest → netlocEnd c = true := by
  unfold splitNetloc at h ⊢
  split
  · rename_i rest
    intro c tail heq
    by_contra hc
    have hhead := List.head?_dropWhile_not (!netlocEnd ·) rest
    simp only at heq
    rw [heq] at hhead
    simp [hc] at hhead
  · simp at h

/-- What `urlsplit` says of the parts of a URL with a scheme and an authority. -/
structure Parsed (hosts : List Char → Bool) (parts : SplitResult) : Prop where
  scheme : LowerScheme parts.scheme
  netloc : ∀ c ∈ parts.netloc, netlocEnd c = false
  allowed : netlocAllowed hosts parts.netloc = true
  path : ∀ c ∈ parts.path, c ≠ '?' ∧ c ≠ '#'
  root : ∀ c rest, parts.path = c :: rest → c = '/'
  plain : ∀ c ∈ parts.netloc ++ parts.path, 32 < c.toNat

theorem urlsplit_parsed {hosts : List Char → Bool} {parts : SplitResult} (h : urlsplit hosts url = some parts)
    (hchars : ∀ c ∈ url, 32 < c.toNat) (hscheme : parts.scheme ≠ []) (hnetloc : parts.netloc ≠ []) : Parsed hosts parts := by
  unfold urlsplit at h
  rw [cleaned_eq hchars] at h
  simp only [Option.ite_none_right_eq_some, Option.some.injEq] at h
  obtain ⟨hallowed, rfl⟩ := h
  have hrest := splitScheme_rest url
  have hauthority := splitNetloc_parts (splitScheme url).2
  have hfragment := cut_parts '#' (splitNetloc (splitScheme url).2).2
  have hquery := cut_parts '?' (cut '#' (splitNetloc (splitScheme url).2).2).1
  refine ⟨splitScheme_shape hscheme, fun c hc => (hauthority.1 c hc).1, hallowed, ?_, ?_, ?_⟩
  · intro c hc
    exact ⟨fun heq => hquery.1 (heq ▸ hc), fun heq => hfragment.1 (heq ▸ hquery.2.1 c hc)⟩
  · -- the text after the authority begins with an end mark, and neither `?` nor `#` is left in the path
    intro c rest heq
    simp only at heq
    have hmem : c ∈ (cut '?' (cut '#' (splitNetloc (splitScheme url).2).2).1).1 := heq ▸ List.mem_cons_self
    cases hafter : (splitNetloc (splitScheme url).2).2 with
    | nil => simp [hafter, cut] at heq
    | cons d tail =>
      have hend := splitNetloc_rest hnetloc d tail hafter
      rw [hafter] at heq
      rw [cut] at heq
      split at heq
      · simp [cut] at heq
      rw [cut] at heq
      split at heq
      · simp at heq
      obtain rfl : d = c := by simpa using (List.cons.inj heq).1
      simp only [netlocEnd, Bool.or_eq_true, decide_eq_true_eq] at hend
      rcases hend with (hend | hend) | hend
      · exact hend
      · contradiction
      · contradiction
  · intro c hc
    rcases List.mem_append.mp hc with hc | hc
    · exact hchars c (hrest c (hauthority.1 c hc).2)
    · exact hchars c (hrest c (hauthority.2 c (hfragment.2.1 c (hquery.2.1 c hc))))

theorem splitNetloc_append {netloc rest : List Char} (h : ∀ c ∈ netloc, netlocEnd c = false)
    (hrest : ∀ c tail, rest = c :: tail → netlocEnd c = true) : splitNetloc ('/' :: '/' :: netloc ++ rest) = (netloc, rest) := by
  have hkeep : ∀ c ∈ netloc, (!netlocEnd c) = true := fun c hc => by simp [h c hc]
  have hstop : rest.takeWhile (!netlocEnd ·) = [] ∧ rest.dropWhile (!netlocEnd ·) = rest := by
    cases rest with
    | nil => exact ⟨rfl, rfl⟩
    | cons c tail => simp [hrest c tail rfl]
  show (List.takeWhile _ (netloc ++ rest), List.dropWhile _ (netloc ++ rest)) = _
  rw [List.takeWhile_append_of_pos hkeep, List.dropWhile_append_of_pos hkeep, hstop.1, hstop.2, List.append_nil]

/-- **A URL with another query.** The parts of a URL with a scheme and an authority, joined with a query of plain characters
and without a fragment, are split into the same parts again. -/
theorem urlsplit_rebuilt {hosts : List Char → Bool} {parts : SplitResult} {query : List Char} (h : Parsed hosts parts)
    (hscheme : parts.scheme ≠ []) (hnetloc : parts.netloc ≠ []) (hquery : ∀ c ∈ query, 32 < c.toNat ∧ c ≠ '#') :
    urlsplit hosts (urlunsplit { parts with query := query, fragment := [] }) =
      some { parts with query := query, fragment := [] } := by
  obtain ⟨scheme, netloc, path, old, fragment⟩ := parts
  simp only at hscheme hnetloc ⊢
  have hroot : ¬(path ≠ [] ∧ path.take 1 ≠ ['/']) := by
    rintro ⟨hne, htake⟩
    obtain ⟨c, rest, rfl⟩ := List.exists_cons_of_ne_nil hne
    exact htake (by rw [List.take_succ_cons, List.take_zero, h.root c rest rfl])
  let tail := if query ≠ [] then '?' :: query else []
  have htail : ∀ c ∈ tail, 32 < c.toNat ∧ c ≠ '#' := by
    intro c hc
    simp only [tail] at hc
    split at hc
    · rcases List.mem_cons.mp hc with rfl | hc
      · decide
      · exact hquery c hc
    · exact absurd hc List.not_mem_nil
  have hurl : urlunsplit ⟨scheme, netloc, path, query, []⟩ = scheme ++ ':' :: ('/' :: '/' :: netloc ++ (path ++ tail)) := by
    have hkept : (if path ≠ [] ∧ path.take 1 ≠ ['/'] then '/' :: path else path) = path := if_neg hroot
    simp only [urlunsplit, tail]
    by_cases hempty : query = []
    · simp_all
    · simp_all
  have hplain : ∀ c ∈ urlunsplit ⟨scheme, netloc, path, query, []⟩, 32 < c.toNat := by
    rw [hurl]
    intro c hc
    rcases List.mem_append.mp hc with hc | hc
    · exact h.scheme.plain c hc
    simp only [List.cons_append, List.mem_cons, List.mem_append] at hc
    rcases hc with rfl | rfl | rfl | hc | hc | hc
    · decide
    · decide
    · decide
    · exact h.plain c (List.mem_append_left _ hc)
    · exact h.plain c (List.mem_append_right _ hc)
    · exact (htail c hc).1
  have hstop : ∀ c rest, path ++ tail = c :: rest → netlocEnd c = true := by
    intro c rest heq
    cases hpath : path with
    | cons d path' =>
      rw [hpath] at heq
      obtain rfl := (List.cons.inj heq).1
      rw [h.root d path' hpath]
      rfl
    | nil =>
      rw [hpath, List.nil_append] at heq
      simp only [tail] at heq
      split at heq
      · obtain rfl := (List.cons.inj heq).1
        rfl
      · cases heq
  have hhash : '#' ∉ path ++ tail := by
    intro hmem
    rcases List.mem_append.mp hmem with hmem | hmem
    · exact (h.path '#' hmem).2 rfl
    · exact (htail '#' hmem).2 rfl
  have hmark : '?' ∉ path := fun hmem => (h.path '?' hmem).1 rfl
  have hpath : cut '?' (path ++ tail) = (path, query) := by
    simp only [tail]
    split
    · exact cut_append hmark
    · rename_i hempty
      obtain rfl : query = [] := by simpa using hempty
      rw [List.append_nil]
      exact cut_of_not_mem hmark
  unfold urlsplit
  rw [cleaned_eq hplain, hurl, splitScheme_append h.scheme]
  simp only [splitNetloc_append h.netloc hstop, cut_of_not_mem hhash, hpath, h.allowed, if_true]

theorem urlencode_plain (params : List (List Char × List Char)) : ∀ c ∈ urlencode params, 32 < c.toNat ∧ c ≠ '#' := by
  have hquoted : ∀ text, ∀ c ∈ quotePlus text, 32 < c.toNat ∧ c ≠ '#' := by
    intro text c hc
    have hfacts := mem_quotePlus hc
    exact ⟨hfacts.2.1, hfacts.2.2.2.2⟩
  have hpair : ∀ p ∈ params.map (fun (name, value) => quotePlus name ++ '=' :: quotePlus value), ∀ c ∈ p, 32 < c.toNat ∧ c ≠ '#' := by
    intro p hp c hc
    obtain ⟨⟨name, value⟩, -, rfl⟩ := List.mem_map.mp hp
    rcases List.mem_append.mp hc with hc | hc
    · exact hquoted name c hc
    · rcases List.mem_cons.mp hc with rfl | hc
      · decide
      · exact hquoted value c hc
  intro c hc
  unfold urlencode at hc
  generalize params.map (fun (name, value) => quotePlus name ++ '=' :: quotePlus value) = parts at hc hpair
  induction parts with
  | nil => exact absurd hc List.not_mem_nil
  | cons p parts ih =>
    have hp := hpair p List.mem_cons_self
    have hrest := fun q hq => hpair q (List.mem_cons_of_mem _ hq)
    cases parts with
    | nil => exact hp c (by simpa using hc)
    | cons q parts =>
      rw [List.intercalate_cons_cons] at hc
      rcases List.mem_append.mp hc with hc | hc
      · rcases List.mem_append.mp hc with hc | hc
        · exact hp c hc
        · rw [List.mem_singleton] at hc
          subst hc
          decide
      · exact ih hc hrest

end Lib.Url
