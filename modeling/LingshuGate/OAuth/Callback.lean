import LingshuGate.Lib.UrlParts
import LingshuGate.OAuth.Script

/-!
# Callback URLs (`oauth_server.py`)

| here | there |
| --- | --- |
| `splitUrl`     | `urlsplit` and the properties of its result (urllib.parse) |
| `validCallback` over `splitUrl` | `valid_callback` (oauth_server.py:85) |
| `callback`     | `callback` (oauth_server.py:103) |

The check reads the query without blank values, the builder with them. So a redirect URI may bring its own `code=`, and the
answer then has two.
-/

namespace LingshuGate.OAuth

open Lib Lib.Url

variable {D : Type} (P : Params D) (hosts : List Char → Bool)

/-! ## The URL of a redirect -/

/-- `netloc.rpartition("@")`. -/
def splitUserInfo (netloc : List Char) : Option (List Char) × List Char :=
  if '@' ∈ netloc then (some (cut '@' netloc.reverse).2.reverse, (cut '@' netloc.reverse).1.reverse) else (none, netloc)

/-- `_hostinfo`: the host and the text of the port. -/
def hostInfo (netloc : List Char) : List Char × List Char :=
  let info := (splitUserInfo netloc).2
  if '[' ∈ info then
    let (host, port) := cut ']' (cut '[' info).2
    (host, (cut ':' port).2)
  else cut ':' info

/-- `hostname`, in lower case up to the zone. -/
def hostName (netloc : List Char) : Option String :=
  let host := (hostInfo netloc).1
  if host = [] then none else some (String.ofList ((cut '%' host).1.map Char.toLower ++ host.drop (cut '%' host).1.length))

/-- `port`; the outer `none` is `ValueError`. -/
def readPort (text : List Char) : Option (Option Nat) :=
  if text = [] then some none
  else if text.all Char.isDigit then
    let port := text.foldl (fun n c => 10 * n + (c.toNat - 48)) 0
    if port ≤ 65535 then some (some port) else none
  else none

/-- `urlsplit(value)`, its port read. -/
def splitUrl (value : String) : Option OAuth.Url := do
  let parsed ← urlsplit hosts value.toList
  let port ← readPort (hostInfo parsed.netloc).2
  let info := (splitUserInfo parsed.netloc).1
  return {
    scheme := String.ofList parsed.scheme
    hostname := hostName parsed.netloc
    username := info.map fun text => String.ofList (cut ':' text).1
    password := (info.filter (·.contains ':')).map fun text => String.ofList (cut ':' text).2
    port := port
    path := String.ofList parsed.path
    query := String.ofList parsed.query
    queryKeys := (parseQsl false parsed.query).map fun param => String.ofList param.1
    fragment := String.ofList parsed.fragment }

/-! ## The answer -/

/-- The keyword argument of `callback`. -/
inductive CallbackResult where
  | code (value : String)
  | error (value : String)
  deriving DecidableEq

def CallbackResult.param : CallbackResult → String × String
  | .code value => ("code", value)
  | .error value => ("error", value)

/-- The parameters the server appends. -/
def supplied (issuer : String) (state : Option String) (result : CallbackResult) : List (String × String) :=
  [result.param, ("iss", issuer)] ++ (state.filter (· ≠ "")).toList.map fun text => ("state", text)

/-- `callback`; `none` is the `ValueError` of `urlsplit`. -/
def callback (redirectUri issuer : String) (state : Option String) (result : CallbackResult) : Option String := do
  let parsed ← urlsplit hosts redirectUri.toList
  let params := parseQsl true parsed.query ++ (supplied issuer state result).map fun (name, value) => (name.toList, value.toList)
  return String.ofList (urlunsplit { parsed with query := urlencode params, fragment := [] })

/-- The parameters a client reads from a URL, blank values too. -/
def paramsOf (url : String) : List (String × String) :=
  match urlsplit hosts url.toList with
  | none => []
  | some parsed => (parseQsl true parsed.query).map fun (name, value) => (String.ofList name, String.ofList value)

/-- Each appended name is there once, with the server's value; the rest are the redirect URI's own, in order. -/
structure Unambiguous (own appended read : List (String × String)) : Prop where
  once : ∀ name value, (name, value) ∈ appended → read.filter (·.1 = name) = [(name, value)]
  rest : read.filter (fun param => param.1 ∉ appended.map Prod.fst) = own

/-! ## Reading the answer back -/

variable {hosts}

/-- A parameter with a value is among those that `valid_callback` looks at. -/
theorem parseQsl_nonblank {query : List Char} {param : List Char × List Char} (h : param ∈ parseQsl true query)
    (hvalue : param.2 ≠ []) : param ∈ parseQsl false query := by
  unfold parseQsl at h ⊢
  obtain ⟨text, hmem, hsome⟩ := List.mem_filterMap.mp h
  refine List.mem_filterMap.mpr ⟨text, hmem, ?_⟩
  split at hsome
  · cases hsome
  rename_i hne
  simp only [Bool.or_true, if_true, Option.some.injEq] at hsome
  have hraw : (cut '=' text).2 ≠ [] := by
    intro hnil
    rw [← hsome] at hvalue
    rw [hnil] at hvalue
    exact hvalue rfl
  rw [if_neg hne]
  simp only [hraw, ne_eq, not_false_eq_true, decide_true, Bool.true_or, if_true, hsome]

/-- What `valid_callback` says of the parts of the URL. -/
theorem validCallback_parts {uri : String} (h : validCallback { P with urlsplit := splitUrl hosts } uri = true) :
    ∃ parsed, urlsplit hosts uri.toList = some parsed ∧ Parsed hosts parsed ∧ parsed.scheme ≠ [] ∧ parsed.netloc ≠ [] ∧
      ∀ param ∈ parseQsl false parsed.query, String.ofList param.1 ∉ ["code", "state", "iss", "error"] := by
  unfold validCallback splitUrl at h
  cases hparsed : urlsplit hosts uri.toList with
  | none => simp [hparsed] at h
  | some parsed =>
    cases hport : readPort (hostInfo parsed.netloc).2 with
    | none => simp [hparsed, hport] at h
    | some port =>
      simp only [hparsed, hport, Option.bind_eq_bind, Option.bind_some, Option.pure_def, Bool.and_eq_true, Bool.not_eq_true',
        decide_eq_true_eq, List.any_eq_false, List.contains_eq_mem, Bool.or_eq_true] at h
      obtain ⟨⟨⟨⟨⟨⟨⟨⟨-, hscheme⟩, hhost⟩, -⟩, -⟩, -⟩, -⟩, hchars⟩, hkeys⟩ := h
      have hplain : ∀ c ∈ uri.toList, 32 < c.toNat := by
        intro c hc
        have := hchars c hc
        omega
      have hscheme' : parsed.scheme ≠ [] := by
        intro hnil
        rw [hnil] at hscheme
        exact absurd hscheme (by decide)
      have hnetloc : parsed.netloc ≠ [] := by
        intro hnil
        rw [hnil] at hhost
        exact absurd hhost (by decide)
      refine ⟨parsed, rfl, urlsplit_parsed hparsed hplain hscheme' hnetloc, hscheme', hnetloc, ?_⟩
      intro param hparam
      exact hkeys _ (List.mem_map_of_mem hparam)

/-- The query of the answer holds the URI's own parameters and then the appended ones. -/
theorem callback_params {uri : String} (issuer : String) (state : Option String) (result : CallbackResult)
    (h : validCallback { P with urlsplit := splitUrl hosts } uri = true) :
    ∃ url, callback hosts uri issuer state result = some url ∧
      paramsOf hosts url = paramsOf hosts uri ++ supplied issuer state result := by
  obtain ⟨parsed, hparsed, hshape, hscheme, hnetloc, -⟩ := validCallback_parts P h
  refine ⟨_, by simp only [callback, hparsed]; rfl, ?_⟩
  have hagain := urlsplit_rebuilt hshape hscheme hnetloc (urlencode_plain
    (parseQsl true parsed.query ++ (supplied issuer state result).map fun (name, value) => (name.toList, value.toList)))
  have htexts : ∀ params : List (String × String),
      (params.map fun (name, value) => (name.toList, value.toList)).map (fun (name, value) => (String.ofList name, String.ofList value)) =
        params := by
    intro params
    simp [List.map_map, Function.comp_def]
  unfold paramsOf
  rw [hparsed, String.toList_ofList, hagain]
  simp only [parseQsl_urlencode, List.map_append, htexts]

theorem supplied_names (issuer : String) (state : Option String) (result : CallbackResult) :
    ((supplied issuer state result).map Prod.fst).Nodup ∧
      ∀ name ∈ (supplied issuer state result).map Prod.fst, name ∈ ["code", "state", "iss", "error"] := by
  have hnames : (supplied issuer state result).map Prod.fst = [result.param.1, "iss"] ∨
      (supplied issuer state result).map Prod.fst = [result.param.1, "iss", "state"] := by
    unfold supplied
    cases state.filter (· ≠ "") with
    | none => exact .inl rfl
    | some text => exact .inr rfl
  rcases hnames with hnames | hnames <;> rw [hnames] <;> cases result <;> simp [CallbackResult.param]

/-- In a list of parameters with different names each name has one. -/
theorem filter_name {params : List (String × String)} (h : (params.map Prod.fst).Nodup) {name value : String}
    (hmem : (name, value) ∈ params) : params.filter (·.1 = name) = [(name, value)] := by
  induction params with
  | nil => exact absurd hmem List.not_mem_nil
  | cons param params ih =>
    rw [List.map_cons, List.nodup_cons] at h
    rcases List.mem_cons.mp hmem with heq | hrest
    · subst heq
      have hnone : params.filter (·.1 = name) = [] := by
        rw [List.filter_eq_nil_iff]
        intro other hother heq
        exact h.1 (List.mem_map.mpr ⟨other, hother, of_decide_eq_true heq⟩)
      rw [List.filter_cons_of_pos (by simp), hnone]
    · have hne : param.1 ≠ name := fun heq => h.1 (heq ▸ List.mem_map.mpr ⟨_, hrest, rfl⟩)
      rw [List.filter_cons_of_neg (by simpa using hne), ih h.2 hrest]

/-- **Callback URLs are unambiguous unless the URI brings a blank parameter of its own.** For every accepted redirect URI,
issuer, state and result the answer has each appended parameter once and otherwise the URI's own ones, if and only if no
own parameter with a blank value has the name of an appended one. -/
theorem callback_unambiguous_iff {uri : String} (issuer : String) (state : Option String) (result : CallbackResult)
    (h : validCallback { P with urlsplit := splitUrl hosts } uri = true) :
    ∃ url, callback hosts uri issuer state result = some url ∧
      (Unambiguous (paramsOf hosts uri) (supplied issuer state result) (paramsOf hosts url) ↔
        ∀ param ∈ paramsOf hosts uri, param.2 = "" → param.1 ∉ (supplied issuer state result).map Prod.fst) := by
  obtain ⟨url, hurl, hparams⟩ := callback_params P issuer state result h
  obtain ⟨hnodup, hnames⟩ := supplied_names issuer state result
  refine ⟨url, hurl, ?_⟩
  rw [hparams]
  constructor
  · -- a blank parameter of the URI would be a second one of its name
    rintro hclear ⟨name, value⟩ hown - hname
    obtain ⟨⟨name', answer⟩, hanswer, rfl⟩ := List.mem_map.mp hname
    have honce := hclear.once _ _ hanswer
    have htwo := congrArg List.length honce
    rw [List.filter_append, filter_name hnodup hanswer, List.length_append] at htwo
    have hpos : 0 < ((paramsOf hosts uri).filter (·.1 = name')).length :=
      List.length_pos_of_mem (List.mem_filter.mpr ⟨hown, by simp⟩)
    simp only [List.length_singleton] at htwo
    omega
  intro hblank
  have hown : ∀ param ∈ paramsOf hosts uri, param.1 ∉ (supplied issuer state result).map Prod.fst := by
    intro param hparam hname
    by_cases hvalue : param.2 = ""
    · exact hblank param hparam hvalue hname
    · obtain ⟨parsed, hparsed, -, -, -, hchecked⟩ := validCallback_parts P h
      simp only [paramsOf, hparsed] at hparam
      obtain ⟨raw, hraw, rfl⟩ := List.mem_map.mp hparam
      have hne : raw.2 ≠ [] := fun hnil => hvalue (by simp [hnil])
      exact hchecked raw (parseQsl_nonblank hraw hne) (hnames _ hname)
  constructor
  · intro name value hmem
    have hnone : (paramsOf hosts uri).filter (·.1 = name) = [] := by
      rw [List.filter_eq_nil_iff]
      intro param hparam heq
      exact hown param hparam (of_decide_eq_true heq ▸ List.mem_map.mpr ⟨_, hmem, rfl⟩)
    rw [List.filter_append, hnone, List.nil_append, filter_name hnodup hmem]
  have hkept : (paramsOf hosts uri).filter (fun param => param.1 ∉ (supplied issuer state result).map Prod.fst) = paramsOf hosts uri :=
    List.filter_eq_self.mpr fun param hparam => decide_eq_true (hown param hparam)
  have hgone : (supplied issuer state result).filter (fun param => param.1 ∉ (supplied issuer state result).map Prod.fst) = [] := by
    rw [List.filter_eq_nil_iff]
    intro param hparam
    simpa using ⟨param.2, hparam⟩
  rw [List.filter_append, hkept, hgone, List.append_nil]

/-- A redirect URI with a parameter of its own. -/
theorem callback_unambiguous_iff_own : ∃ url,
    callback (fun _ => false) "https://client.example.test/callback?tenant=1" "https://gate.example.test" (some "s 1") (.code "c+1") =
      some url ∧
    (Unambiguous (paramsOf (fun _ => false) "https://client.example.test/callback?tenant=1")
        (supplied "https://gate.example.test" (some "s 1") (.code "c+1")) (paramsOf (fun _ => false) url) ↔
      ∀ param ∈ paramsOf (fun _ => false) "https://client.example.test/callback?tenant=1", param.2 = "" →
        param.1 ∉ (supplied "https://gate.example.test" (some "s 1") (.code "c+1")).map Prod.fst) :=
  callback_unambiguous_iff demo "https://gate.example.test" (some "s 1") (.code "c+1") (by decide +kernel)

/-- The redirect URI with a blank `code` is accepted, and the answer to it has two codes. -/
theorem blank_code_accepted :
    validCallback { demo with urlsplit := splitUrl fun _ => false } "https://client.example.test/callback?code=" = true ∧
      ∃ url, callback (fun _ => false) "https://client.example.test/callback?code=" "https://gate.example.test" none (.code "secret") =
          some url ∧
        paramsOf (fun _ => false) url = [("code", ""), ("code", "secret"), ("iss", "https://gate.example.test")] ∧
        ¬ Unambiguous (paramsOf (fun _ => false) "https://client.example.test/callback?code=")
          (supplied "https://gate.example.test" none (.code "secret")) (paramsOf (fun _ => false) url) := by
  refine ⟨by decide +kernel, _, rfl, by decide +kernel, ?_⟩
  intro hclear
  have honce := hclear.once "code" "secret" (by decide)
  revert honce
  decide +kernel

end LingshuGate.OAuth
