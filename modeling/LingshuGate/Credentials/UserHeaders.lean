import LingshuGate.Credentials.HttpScopes
import LingshuGate.Credentials.References
import LingshuGate.Lib.Casing

/-!
# A user's own credentials in the headers of a call (`mcp_runtime.py`, `mcp_http_client.py`)

| here | there |
| --- | --- |
| `Slot`, `UserManifest` | `UserCredentialSlot`, `McpServerManifest` and their validators (mcp_manifest.py:268, 288, 327) |
| `missingSlots`         | `resolve_slots` (user_credential_store.py:132) |
| `callHeaders`          | the copied manifest of `_invoke_mcp_tool_for_user` (mcp_runtime.py:1663) |
| `resolvedHeaders`      | `_resolve_headers` (mcp_http_client.py:439) |
| `httpHeaders`          | `_http_headers` (426) |
| `wireHeaders`          | `Request.add_header` and `do_open` of urllib: a dictionary of capitalized names, then one of titles |
| `send`                 | the preparation of a POST or DELETE (561, 410) |

The headers of a user's call go through the resolver of the shared credentials once more, user values included. So a value
with the text of a reference reads a shared credential. Headers that urllib adds only where they are absent are left out,
and so is the order in which the set of references is walked: it decides which refusal comes first.

The names of static headers are any text, so `lower`, `capitalize` and `title` are those of Unicode: two names can differ in more
than the case of ASCII letters and still be sent as one.
-/

namespace LingshuGate.UserHeaders

open Lib Py Text CredentialRefs
open SharedCredentials (Urls Credentials CredentialError assertHttpBinding resolveValue)

/-! ## The manifest -/

/-- `PROTECTED_HTTP_HEADERS` -/
def protectedHeaders : List String := ["content-type", "accept", "mcp-session-id", "mcp-protocol-version"]

/-- `\x7bvalue\x7d` -/
def placeholder : List Char := '\x7b' :: "value".toList ++ ['\x7d']

structure Slot where
  id : String
  /-- `injection.name` -/
  name : String
  /-- `injection.template` -/
  template : String
  required : Bool
  /-- `[A-Za-z0-9-]+`, and no protected header -/
  nameValid : name ≠ "" ∧ name.length ≤ 128 ∧ (name.toList.all fun c => c.isAlphanum || c = '-') ∧ name.toLower ∉ protectedHeaders
  /-- exactly one place for the value, and no line break -/
  templateValid : 7 ≤ template.length ∧ template.length ≤ 512 ∧ count placeholder template.toList = 1 ∧ '\r' ∉ template.toList ∧
    '\n' ∉ template.toList

structure UserManifest where
  id : String
  endpoint : String
  /-- `transport.headers`, a dictionary -/
  headers : List (String × String)
  headersNodup : (headers.map Prod.fst).Nodup
  slots : List Slot
  slotsNodup : (slots.map Slot.id).Nodup ∧ (slots.map fun slot => slot.name.toLower).Nodup

/-- `slot.injection.template.replace("\x7bvalue\x7d", value)`. -/
def Slot.literal (slot : Slot) (value : String) : String := String.ofList (replace placeholder value.toList slot.template.toList)

variable (m : UserManifest) (values : String → Option String)

/-- The required slots without a value; the call is refused where there is one. -/
def missingSlots : List String := (m.slots.filter fun slot => slot.required && (values slot.id).isNone).map Slot.id

/-- The headers of the copied manifest. -/
def callHeaders : List (String × String) :=
  m.slots.foldl (fun headers slot =>
    match values slot.id with
    | none => headers
    | some value => dictSet headers slot.name (slot.literal value)) m.headers

/-- The references of a dictionary of headers. -/
def refsOf (headers : List (String × String)) : List String := headers.flatMap fun header => extractCredentialRefs header.2

/-! ## A request -/

/-- Python's functions of text. A letter outside ASCII is never brought to a letter that one of these names begins with, or to
another one in it; only a title has the I of `X-Correlation-Id` also from one. -/
structure Names extends Casing where
  own : ∀ own ∈ ["mcp-method", "mcp-name", "traceparent", "tracestate", "baggage", "connection"], ∀ name,
    toCasing.headline name = toCasing.headline own → Ascii name
  correlation : ∀ name, capitalize name = capitalize "x-correlation-id" → Ascii name

/-- What a send finds: the shared credentials, the identity of the service, the headers of the protocol and of the trace. -/
structure Surroundings where
  urls : Urls
  credentials : Credentials
  /-- `server_binding`; `none` where the saved identity is not that of the client -/
  binding : Option Nat
  protocolVersion : Option String := none
  method : Option String := none
  name : Option String := none
  correlation : Option String := none
  traceparent : Option String := none
  session : Option String := none

variable (env : Surroundings)

/-- What a send raises before the request is there. -/
inductive SendError where
  | missing (slots : List String)
  | credential (error : CredentialError)
  | resolve (error : ResolveError)
  deriving DecidableEq

/-- `resolve_value` as the resolver sees it: without a revision to keep. -/
def readShared (ref : String) : Except ReadError (Option String) :=
  match resolveValue env.credentials ref none with
  | .ok secret => .ok (some secret)
  | .error .notFound => .error .missing
  | .error _ => .error .refused

/-- `assert_http_binding` of the saved service. -/
def assertBound (binding : Nat) (ref : String) : Except CredentialError Unit :=
  assertHttpBinding env.urls env.credentials ref m.id m.endpoint (some binding) none false

/-- The identity and the approval of every reference. -/
def checkReferences (refs : List String) : Except SendError Unit :=
  if refs = [] then .ok ()
  else match env.binding with
    | none => .error (.credential (.usageDenied "Saved HTTP service identity is unavailable for credential use."))
    | some binding => (each (assertBound m env binding) refs).mapError .credential

/-- `_resolve_headers`. -/
def resolvedHeaders (headers : List (String × String)) : Except SendError (List (String × String)) := do
  checkReferences m env (refsOf headers).eraseDups
  let (resolved, _) ← (resolveEnv (readShared env) headers).mapError .resolve
  return resolved

/-- The shared credentials that a send looks at: up to the first that is refused. -/
def sharedRead (headers : List (String × String)) : List String :=
  match env.binding with
  | none => []
  | some binding =>
    let refs := (refsOf headers).eraseDups
    refs.take ((refs.takeWhile fun ref => (assertBound m env binding ref).toOption.isSome).length + 1)

variable (py : Names)

/-- The names that the configuration cannot set. -/
def reserved : List String :=
  ["content-type", "accept", "mcp-session-id", "mcp-protocol-version", "mcp-method", "mcp-name", "traceparent", "tracestate",
    "baggage", "x-correlation-id"]

/-- `dict.update`. -/
def update (headers : List (String × String)) (name : String) : Option String → List (String × String)
  | none => headers
  | some value => dictSet headers name value

/-- `_http_headers`. -/
def httpHeaders (resolved : List (String × String)) : List (String × String) :=
  let headers := resolved.filter fun header => !reserved.contains (py.lower header.1)
  let headers := update (update headers "Content-Type" (some "application/json")) "Accept"
    (some "application/json, text/event-stream")
  let headers := update (update (update headers "MCP-Protocol-Version" env.protocolVersion) "Mcp-Method" env.method) "Mcp-Name" env.name
  let headers := update (update headers "X-Correlation-ID" env.correlation) "traceparent" env.traceparent
  update headers "Mcp-Session-Id" env.session

/-- The headers of the request under the names they are sent with; `do_open` closes every connection. -/
def wireHeaders (headers : List (String × String)) : List (String × String) :=
  rekey py.title (dictSet (rekey py.capitalize headers) "Connection" "close")

/-- The headers of a request of the user's call. -/
def send : Except SendError (List (String × String)) := do
  require (missingSlots m values = []) (.missing (missingSlots m values))
  let resolved ← resolvedHeaders m env (callHeaders m values)
  return wireHeaders py (httpHeaders env py resolved)

/-! ## The property and its condition -/

/-- In every request each slot with a value is its template with the value put in, and the shared credentials that are read
are those of the manifest's own headers: no other in any send, and all of them where there is a request. -/
structure SentLiterally : Prop where
  header : ∀ env wire, send m values env py = .ok wire → ∀ slot ∈ m.slots, ∀ value, values slot.id = some value →
    dictGet wire (py.headline slot.name) = some (slot.literal value)
  reads : missingSlots m values = [] → ∀ env, ∀ ref ∈ sharedRead m env (callHeaders m values), ref ∈ refsOf m.headers
  all : ∀ env wire, send m values env py = .ok wire → ∀ ref ∈ refsOf m.headers, ref ∈ sharedRead m env (callHeaders m values)

/-- The slot is filled and its header is called `name`. -/
def Injected (name : String) : Prop := ∃ slot ∈ m.slots, values slot.id ≠ none ∧ slot.name = name

/-- Of headers that are sent under one name the one that counts: of their capitalized names the one that comes in last, and of
the headers with it the last. -/
def counting (headers : List (String × String)) : Option (String × String) :=
  (headers.map fun header => py.capitalize header.1).eraseDups.getLast?.bind fun name =>
    headers.reverse.find? fun header => py.capitalize header.1 = name

/-- The configuration may set the header, and it is sent under the name of the slot. -/
def sharesName (slot : Slot) (name : String) : Bool := py.headline name = py.headline slot.name && !reserved.contains (py.lower name)

/-- Among the manifest's own headers that share the name of the slot, with the slot's put in, the one that counts is the slot's
or has the same text. -/
def TakesName (slot : Slot) (text : String) : Prop :=
  ∀ header, counting py (dictSet (m.headers.filter (sharesName py slot ·.1)) slot.name text) = some header →
    header.1 = slot.name ∨ header.2 = text

/-- For every slot with a value: no reference in the injected text, no other header that takes its name, no name that the
client sets itself; and every reference of the manifest's headers is in one that no slot replaces. -/
structure PlainValues : Prop where
  slots : ∀ slot ∈ m.slots, ∀ value, values slot.id = some value → extractCredentialRefs (slot.literal value) = [] ∧
      if slot.name.toLower = "connection" then slot.literal value = "close"
      else slot.name.toLower ∉ reserved ∧ TakesName m py slot (slot.literal value)
  refs : ∀ ref ∈ refsOf m.headers, ∃ header ∈ m.headers, ref ∈ extractCredentialRefs header.2 ∧ ¬ Injected m values header.1

/-! ## The headers of a request -/

variable {m values env py}

theorem Slot.ascii (slot : Slot) : Ascii slot.name := by
  intro c hc
  have hchar := List.all_eq_true.mp slot.nameValid.2.2.1 c hc
  simp only [Bool.or_eq_true, decide_eq_true_eq, Char.isAlphanum, Char.isAlpha, Char.isUpper, Char.isLower, Char.isDigit,
    Bool.and_eq_true, Bool.decide_and, UInt32.le_iff_toNat_le] at hchar
  rcases hchar with ((h | h) | h) | rfl
  · exact Nat.lt_of_le_of_lt h.2 (by decide)
  · exact Nat.lt_of_le_of_lt h.2 (by decide)
  · exact Nat.lt_of_le_of_lt h.2 (by decide)
  · decide

variable {headers : List (String × String)}

theorem find_eq_getLast {q : String → Bool} :
    headers.reverse.find? (fun header => q header.1) = (headers.filter fun header => q header.1).getLast? := by
  rw [List.getLast?_eq_head?_reverse, ← List.filter_reverse, List.head?_filter]

theorem counting_mem {header : String × String} (h : counting py headers = some header) : header ∈ headers := by
  obtain ⟨name, -, hfind⟩ := Option.bind_eq_some_iff.mp h
  exact List.mem_reverse.mp (List.mem_of_find?_eq_some hfind)

theorem exists_counting (h : headers ≠ []) : ∃ header, counting py headers = some header := by
  have hnames : (headers.map fun header => py.capitalize header.1).eraseDups ≠ [] := by
    obtain ⟨header, hheader⟩ := List.exists_mem_of_ne_nil _ h
    exact List.ne_nil_of_mem (List.mem_eraseDups.mpr (List.mem_map_of_mem hheader))
  have hlast := List.mem_eraseDups.mp (List.getLast_mem hnames)
  obtain ⟨header, hheader, hname⟩ := List.mem_map.mp hlast
  have hfound : (headers.reverse.find? fun header => py.capitalize header.1 = (headers.map fun header =>
      py.capitalize header.1).eraseDups.getLast hnames).isSome := by
    rw [List.find?_isSome]
    exact ⟨header, List.mem_reverse.mpr hheader, by simpa using hname⟩
  obtain ⟨found, hfind⟩ := Option.isSome_iff_exists.mp hfound
  refine ⟨found, ?_⟩
  rw [counting, List.getLast?_eq_some_getLast hnames, Option.bind_some]
  exact hfind

theorem counting_map (g : String → String) (headers : List (String × String)) :
    counting py (headers.map fun header => (header.1, g header.2)) = (counting py headers).map fun header => (header.1, g header.2) := by
  unfold counting
  rw [List.map_map, Option.map_bind]
  congr 1
  funext name
  rw [← List.map_reverse, List.find?_map]
  rfl

/-- A header with a new capitalized name counts where it comes last. -/
theorem counting_append {key : String} (value : String)
    (h : ∀ header ∈ headers, py.capitalize header.1 ≠ py.capitalize key) : counting py (headers ++ [(key, value)]) = some (key, value) := by
  have hnew : py.capitalize key ∉ headers.map fun header => py.capitalize header.1 := by
    intro hmem
    obtain ⟨header, hheader, heq⟩ := List.mem_map.mp hmem
    exact h header hheader heq
  have hall : [py.capitalize key].removeAll (headers.map fun header => py.capitalize header.1) = [py.capitalize key] := by
    simpa [List.removeAll] using hnew
  have hlast : [py.capitalize key].eraseDups = [py.capitalize key] := rfl
  rw [counting, List.map_append, List.map_singleton, List.eraseDups_append, hall, hlast, List.getLast?_concat, Option.bind_some,
    List.reverse_append, List.reverse_singleton, List.singleton_append, List.find?_cons_of_pos (by simp)]

/-- The names that the client and urllib set. -/
def ownNames : List String :=
  ["Content-Type", "Accept", "MCP-Protocol-Version", "Mcp-Method", "Mcp-Name", "X-Correlation-ID", "traceparent", "Mcp-Session-Id"]

/-- What is decided of these names by looking at their letters. -/
structure Spelled : Prop where
  own : ∀ key ∈ ownNames, Ascii key ∧ key.toLower ∈ reserved
  always : ∀ key ∈ ["Content-Type", "Accept"], Ascii key ∧ key.toLower ∈ protectedHeaders
  connection : Ascii "connection" ∧ Ascii "Connection" ∧ "connection".toLower = "connection" ∧ "connection" ∉ reserved ∧
    Casing.capitalizeAscii "connection" = "Connection" ∧ Casing.titleAscii "Connection" = "Connection"
  correlation : Ascii "X-Correlation-ID" ∧ Ascii "x-correlation-id" ∧ "X-Correlation-ID".toLower = "x-correlation-id" ∧
    "x-correlation-id".toLower = "x-correlation-id"
  unprotected : ∀ own ∈ reserved, own ≠ "x-correlation-id" → own ∉ protectedHeaders →
    own ∈ ["mcp-method", "mcp-name", "traceparent", "tracestate", "baggage", "connection"] ∧ Ascii own ∧ own.toLower = own

theorem spelled : Spelled :=
  ⟨by decide +kernel, by decide +kernel, by decide +kernel, by decide +kernel, by decide +kernel⟩

theorem title_connection : py.title "Connection" = "Connection" := by
  obtain ⟨-, hascii, -, -, -, htitle⟩ := Spelled.connection spelled
  rw [py.title_ascii _ hascii, htitle]

theorem capitalize_connection : py.capitalize "connection" = "Connection" := by
  obtain ⟨hascii, -, -, -, hcapitalize, -⟩ := Spelled.connection spelled
  rw [py.capitalize_ascii _ hascii, hcapitalize]

theorem headline_connection : py.headline "connection" = "Connection" := by
  rw [Casing.headline, capitalize_connection, title_connection]

variable {slot : Slot}

theorem headline_connection_iff : py.headline slot.name = "Connection" ↔ slot.name.toLower = "connection" := by
  obtain ⟨hascii, -, hlower, -⟩ := Spelled.connection spelled
  have hline : py.headline "connection" = "Connection" := headline_connection
  rw [← hline, py.headline_eq_iff slot.ascii hascii, hlower]

/-- Under a name the header that counts is sent. -/
theorem dictGet_wireHeaders (headers : List (String × String)) {name : String} (h : name ≠ "Connection") :
    dictGet (wireHeaders py headers) name = (counting py (headers.filter (py.headline ·.1 = name))).map (·.2) := by
  have hconnection : decide (py.title "Connection" = name) = false := by
    rw [title_connection]
    exact decide_eq_false (Ne.symm h)
  unfold wireHeaders
  rw [dictGet_rekey, find_eq_getLast (q := fun key => decide (py.title key = name)),
    filter_dictSet fun key => decide (py.title key = name), hconnection, if_neg Bool.false_ne_true,
    filter_rekey fun key => decide (py.title key = name), getLast?_rekey]
  rfl

/-- Only ASCII names are sent as `Connection`, and these are all one. -/
theorem dictGet_connection (headers : List (String × String)) : dictGet (wireHeaders py headers) "Connection" = some "close" := by
  unfold wireHeaders
  rw [dictGet_rekey, find_eq_getLast (q := fun key => decide (py.title key = "Connection")),
    filter_dictSet fun key => decide (py.title key = "Connection"), if_pos (by simpa using title_connection),
    filter_rekey fun key => decide (py.title key = "Connection")]
  have hkeys : ∀ pair ∈ rekey py.capitalize (headers.filter fun header => decide (py.title (py.capitalize header.1) = "Connection")),
      pair.1 = "Connection" := by
    intro pair hpair
    have hkey := List.mem_map_of_mem (f := Prod.fst) hpair
    rw [keys_rekey, List.mem_eraseDups] at hkey
    obtain ⟨header, hheader, hname⟩ := List.mem_map.mp hkey
    have hline : py.headline header.1 = py.headline "connection" := by
      rw [headline_connection]
      exact of_decide_eq_true (List.mem_filter.mp hheader).2
    have hascii := py.own "connection" (by decide) header.1 hline
    have hconnection := (Spelled.connection spelled).1
    rw [← hname, py.capitalize_eq hascii hconnection ((py.headline_eq_iff hascii hconnection).mp hline), capitalize_connection]
  cases hlast : (dictSet (rekey py.capitalize (headers.filter fun header =>
      decide (py.title (py.capitalize header.1) = "Connection"))) "Connection" "close").getLast? with
  | none =>
    have hmem : ("Connection", "close") ∈ dictSet (rekey py.capitalize (headers.filter fun header =>
        decide (py.title (py.capitalize header.1) = "Connection"))) "Connection" "close" := mem_dictSet.mpr (.inr rfl)
    rw [List.getLast?_eq_none_iff.mp hlast] at hmem
    exact absurd hmem List.not_mem_nil
  | some pair =>
    rcases mem_dictSet.mp (List.mem_of_getLast? hlast) with ⟨hpair, hne⟩ | rfl
    · exact absurd (hkeys pair hpair) hne
    · rfl

theorem named_update {key name : String} {value : Option String} (h : py.headline key ≠ name) :
    (update headers key value).filter (py.headline ·.1 = name) = headers.filter (py.headline ·.1 = name) := by
  cases value with
  | none => rfl
  | some value =>
    rw [update, filter_dictSet fun key => decide (py.headline key = name), if_neg (by simpa using h)]

/-- The client's own headers all have reserved names. -/
theorem named_httpHeaders (env : Surroundings) (resolved : List (String × String)) (h : slot.name.toLower ∉ reserved) :
    (httpHeaders env py resolved).filter (py.headline ·.1 = py.headline slot.name) = resolved.filter (sharesName py slot ·.1) := by
  have hne : ∀ key ∈ ownNames, py.headline key ≠ py.headline slot.name := by
    intro key hkey heq
    obtain ⟨hascii, hlower⟩ := Spelled.own spelled key hkey
    exact h ((py.headline_eq_iff hascii slot.ascii).mp heq ▸ hlower)
  simp only [ownNames, List.forall_mem_cons, List.not_mem_nil, false_imp_iff, implies_true, and_true] at hne
  obtain ⟨h₁, h₂, h₃, h₄, h₅, h₆, h₇, h₈⟩ := hne
  simp only [httpHeaders, named_update h₁, named_update h₂, named_update h₃, named_update h₄, named_update h₅,
    named_update h₆, named_update h₇, named_update h₈, List.filter_filter]
  rfl

/-! ## What a send reads -/

/-- One slot, put in where it has a value. -/
def inject (values : String → Option String) (headers : List (String × String)) (slot : Slot) : List (String × String) :=
  match values slot.id with
  | none => headers
  | some value => dictSet headers slot.name (slot.literal value)

theorem callHeaders_eq : callHeaders m values = m.slots.foldl (inject values) m.headers := rfl

/-- A header of the call is one of the manifest that no slot replaces, or injected. -/
theorem mem_callHeaders {header : String × String} : header ∈ callHeaders m values ↔
    header ∈ m.headers ∧ ¬ Injected m values header.1 ∨
      ∃ slot ∈ m.slots, ∃ value, values slot.id = some value ∧ header = (slot.name, slot.literal value) := by
  have hnames : (m.slots.map Slot.name).Nodup := by
    have h : ((m.slots.map Slot.name).map String.toLower).Nodup := by
      rw [List.map_map]
      exact m.slotsNodup.2
    exact h.of_map
  rw [callHeaders_eq]
  unfold Injected
  generalize m.slots = slots at hnames ⊢
  induction slots using List.reverseRecOn with
  | nil => simp
  | append_singleton slots slot ih =>
    rw [List.map_append, List.map_singleton, List.nodup_append] at hnames
    rw [List.foldl_append, List.foldl_cons, List.foldl_nil]
    have hlast : ∀ s ∈ slots, s.name ≠ slot.name := by
      intro s hs heq
      exact hnames.2.2 s.name (List.mem_map_of_mem hs) slot.name (List.mem_singleton_self _) heq
    have hbefore := ih hnames.1
    unfold inject
    split
    · rename_i hvalue
      refine Iff.trans hbefore ?_
      simp [or_and_right, exists_or, hvalue]
    rename_i value hvalue
    rw [mem_dictSet]
    refine (or_congr_left (and_congr_left' hbefore)).trans ?_
    constructor
    · rintro (⟨hold | ⟨s, hs, rest⟩, hne⟩ | rfl)
      · refine .inl ⟨hold.1, ?_⟩
        rintro ⟨s, hs, hfilled, hname⟩
        rcases List.mem_append.mp hs with hs | hs
        · exact hold.2 ⟨s, hs, hfilled, hname⟩
        · rw [List.mem_singleton.mp hs] at hname
          exact hne hname.symm
      · exact .inr ⟨s, List.mem_append_left _ hs, rest⟩
      · exact .inr ⟨slot, List.mem_append_right _ (List.mem_singleton_self slot), value, hvalue, rfl⟩
    rintro (⟨hown, hnot⟩ | ⟨s, hs, v, hv, rfl⟩)
    · refine .inl ⟨.inl ⟨hown, fun ⟨s, hs, rest⟩ => hnot ⟨s, List.mem_append_left _ hs, rest⟩⟩, ?_⟩
      exact fun heq => hnot ⟨slot, List.mem_append_right _ (List.mem_singleton_self slot), by simp [hvalue], heq.symm⟩
    rcases List.mem_append.mp hs with hs | hs
    · exact .inl ⟨.inr ⟨s, hs, v, hv, rfl⟩, hlast s hs⟩
    · obtain rfl := List.mem_singleton.mp hs
      rw [hvalue] at hv
      cases hv
      exact .inr rfl

theorem sharesName_self (h : slot.name.toLower ∉ reserved) : sharesName py slot slot.name = true := by
  rw [sharesName, py.lower_ascii _ slot.ascii]
  simpa using h

variable {value : String}

/-- The other slots have other names. -/
theorem sharing_callHeaders (hslot : slot ∈ m.slots) (hvalue : values slot.id = some value)
    (h : slot.name.toLower ∉ reserved) : (callHeaders m values).filter (sharesName py slot ·.1) =
      dictSet (m.headers.filter (sharesName py slot ·.1)) slot.name (slot.literal value) := by
  have hother : ∀ (slots : List Slot) (headers : List (String × String)), (∀ s ∈ slots, s.name.toLower ≠ slot.name.toLower) →
      (slots.foldl (inject values) headers).filter (sharesName py slot ·.1) = headers.filter (sharesName py slot ·.1) := by
    intro slots
    induction slots with
    | nil => exact fun _ _ => rfl
    | cons s slots ih =>
      intro headers hne
      have hname : sharesName py slot s.name = false := by
        have hline := (not_congr (py.headline_eq_iff s.ascii slot.ascii)).mpr (hne s List.mem_cons_self)
        rw [sharesName, decide_eq_false hline, Bool.false_and]
      rw [List.foldl_cons, ih _ fun t ht => hne t (List.mem_cons_of_mem _ ht)]
      unfold inject
      split
      · rfl
      · rw [filter_dictSet, hname, if_neg Bool.false_ne_true]
  obtain ⟨before, after, hsplit⟩ := List.append_of_mem hslot
  have hnames := m.slotsNodup.2
  rw [hsplit, List.map_append, List.map_cons, List.nodup_append, List.nodup_cons] at hnames
  have hbefore : ∀ s ∈ before, s.name.toLower ≠ slot.name.toLower :=
    fun s hs heq => hnames.2.2 _ (List.mem_map_of_mem hs) _ List.mem_cons_self heq
  have hafter : ∀ s ∈ after, s.name.toLower ≠ slot.name.toLower :=
    fun s hs heq => hnames.2.1.1 (heq ▸ List.mem_map_of_mem hs)
  have hinject : ∀ headers, inject values headers slot = dictSet headers slot.name (slot.literal value) := by
    intro headers
    rw [inject, hvalue]
  rw [callHeaders_eq, hsplit, List.foldl_append, List.foldl_cons, hother after _ hafter, hinject, filter_dictSet, sharesName_self h,
    if_pos rfl, hother before _ hbefore]

variable {ref : String}

theorem mem_refsOf : ref ∈ refsOf headers ↔ ∃ header ∈ headers, ref ∈ extractCredentialRefs header.2 := List.mem_flatMap

theorem sharedRead_subset (h : ref ∈ sharedRead m env headers) : ref ∈ refsOf headers := by
  unfold sharedRead at h
  split at h
  · exact absurd h List.not_mem_nil
  · exact List.mem_eraseDups.mp (List.take_subset _ _ h)

/-- Once every reference is approved, every one of them is read. -/
theorem sharedRead_all (h : checkReferences m env (refsOf headers).eraseDups = .ok ())
    (href : ref ∈ refsOf headers) : ref ∈ sharedRead m env headers := by
  have hmem : ref ∈ (refsOf headers).eraseDups := List.mem_eraseDups.mpr href
  unfold checkReferences at h
  rw [if_neg (List.ne_nil_of_mem hmem)] at h
  unfold sharedRead
  cases hbinding : env.binding with
  | none => simp [hbinding] at h
  | some binding =>
    simp only [hbinding] at h ⊢
    have heach : each (assertBound m env binding) (refsOf headers).eraseDups = .ok () := mapError_eq_ok.mp h
    have hall : (refsOf headers).eraseDups.takeWhile (fun ref => (assertBound m env binding ref).toOption.isSome) =
        (refsOf headers).eraseDups := by
      rw [List.takeWhile_eq_self_iff]
      intro r hr
      rw [each_eq_ok.mp heach r hr]
      rfl
    rw [hall, List.take_of_length_le (by omega)]
    exact hmem

/-- The header texts as the resolver leaves them, where everything is found. -/
def resolvedBy (env : Surroundings) (headers : List (String × String)) : List (String × String) :=
  headers.map fun header => (header.1, String.ofList (resolvedText (readShared env) header.2.toList))

theorem readShared_of_find {item : SharedCredentials.Credential} (h : env.credentials.find ref = some item) :
    readShared env ref = .ok (some item.secret) := by
  have hvalue : resolveValue env.credentials ref none = .ok item.secret := by
    simp only [resolveValue, bind_eq_ok, expect_eq_ok, require_eq_ok, pure_eq_ok]
    exact ⟨item, h, (), rfl, rfl⟩
  rw [readShared, hvalue]

/-- What is approved is there. -/
theorem readShared_of_bound {binding : Nat} (h : assertBound m env binding ref = .ok ()) :
    ∃ secret, readShared env ref = .ok secret := by
  simp only [assertBound, assertHttpBinding, bind_eq_ok, expect_eq_ok] at h
  obtain ⟨_, -, item, hitem, -⟩ := h
  exact ⟨some item.secret, readShared_of_find hitem⟩

theorem allExist_of_check (h : checkReferences m env (refsOf headers).eraseDups = .ok ()) : AllExist (readShared env) headers := by
  intro header hheader ref href
  have hmem : String.ofList ref ∈ (refsOf headers).eraseDups :=
    List.mem_eraseDups.mpr (mem_refsOf.mpr ⟨header, hheader, List.mem_map_of_mem href⟩)
  unfold checkReferences at h
  rw [if_neg (List.ne_nil_of_mem hmem)] at h
  cases hbinding : env.binding with
  | none => simp [hbinding] at h
  | some binding =>
    simp only [hbinding] at h
    exact readShared_of_bound (each_eq_ok.mp (mapError_eq_ok.mp h) _ hmem)

/-- A request is made where nothing is missing and every reference is approved, of the texts with the secrets in them. -/
theorem send_eq_ok {wire : List (String × String)} : send m values env py = .ok wire ↔ missingSlots m values = [] ∧
      checkReferences m env (refsOf (callHeaders m values)).eraseDups = .ok () ∧
      wire = wireHeaders py (httpHeaders env py (resolvedBy env (callHeaders m values))) := by
  have hresolve : checkReferences m env (refsOf (callHeaders m values)).eraseDups = .ok () →
      ∃ metadata, resolveEnv (readShared env) (callHeaders m values) = .ok (resolvedBy env (callHeaders m values), metadata) := by
    intro hcheck
    obtain ⟨count, heq⟩ := resolveEnv_eq (allExist_of_check hcheck)
    exact ⟨_, heq⟩
  unfold send resolvedHeaders
  constructor
  · intro h
    simp only [bind_eq_ok, require_eq_ok, decide_eq_true_eq] at h
    obtain ⟨_, hmissing, resolved, ⟨_, hcheck, pair, hpair, hresolved⟩, hwire⟩ := h
    obtain ⟨metadata, heq⟩ := hresolve hcheck
    rw [heq] at hpair
    cases hpair
    cases hresolved
    cases hwire
    exact ⟨hmissing, hcheck, rfl⟩
  rintro ⟨hmissing, hcheck, rfl⟩
  obtain ⟨metadata, heq⟩ := hresolve hcheck
  simp only [bind_eq_ok, require_eq_ok, decide_eq_true_eq]
  refine ⟨(), hmissing, resolvedBy env (callHeaders m values), ⟨(), hcheck, (resolvedBy env (callHeaders m values), metadata), ?_, rfl⟩, rfl⟩
  rw [heq]
  rfl

theorem resolvedText_plain {read : String → Except ReadError (Option String)} {text : List Char} (h : extract text = []) :
    resolvedText read text = text := by
  rw [resolvedText, h]
  rfl

theorem extractCredentialRefs_eq_nil : extractCredentialRefs value = [] ↔ extract value.toList = [] := List.map_eq_nil_iff

/-! ## Secrets that show -/

/-- Every reference of the call is approved and reads the same secret; of the headers of the protocol only the correlation is
set, to the secret too. -/
def openEnv (m : UserManifest) (headers : List (String × String)) (secret : String) : Surroundings where
  urls := ⟨fun _ => some "https://host", fun _ => ""⟩
  credentials := ⟨(refsOf headers).eraseDups.map fun id => ⟨id, secret, "", [⟨m.id, "https://host", some 0⟩]⟩, by
    have hids : (((refsOf headers).eraseDups.map fun id =>
        (⟨id, secret, "", [⟨m.id, "https://host", some 0⟩]⟩ : SharedCredentials.Credential)).map SharedCredentials.Credential.id) =
          (refsOf headers).eraseDups := by
      rw [List.map_map]
      exact List.map_id _
    rw [hids]
    exact nodup_eraseDups _⟩
  binding := some 0
  correlation := some secret

theorem find_openEnv {secret ref : String} (h : ref ∈ refsOf headers) :
    (openEnv m headers secret).credentials.find ref = some ⟨ref, secret, "", [⟨m.id, "https://host", some 0⟩]⟩ :=
  Table.find_eq_some.mpr ⟨List.mem_map.mpr ⟨ref, List.mem_eraseDups.mpr h, rfl⟩, rfl⟩

theorem check_openEnv (headers : List (String × String)) (secret : String) :
    checkReferences m (openEnv m headers secret) (refsOf headers).eraseDups = .ok () := by
  unfold checkReferences
  split
  · rfl
  have heach : each (assertBound m (openEnv m headers secret) 0) (refsOf headers).eraseDups = .ok () := by
    refine each_eq_ok.mpr ?_
    intro ref href
    have hfind := @find_openEnv m headers secret ref (List.mem_eraseDups.mp href)
    simp [assertBound, assertHttpBinding, hfind, expect, require, SharedCredentials.HttpScope.permits]
    simp [openEnv]
  show (each (assertBound m (openEnv m headers secret) 0) (refsOf headers).eraseDups).mapError _ = _
  rw [heach]
  rfl

theorem bang_not_mem {id : List Char} (h : ValidId id) : '!' ∉ reference id := by
  intro hmem
  rcases List.mem_cons.mp hmem with heq | hmem
  · exact absurd heq (by decide)
  · rcases List.mem_append.mp hmem with hmem | hmem
    · rcases List.mem_append.mp hmem with hmem | hmem
      · exact absurd hmem (by decide)
      · exact absurd (h.chars _ hmem) (by decide)
    · exact absurd hmem (by decide)

theorem infix_reference {text id : List Char} (h : id ∈ extract text) : reference id <:+: text := by
  obtain ⟨before, after, hsplit⟩ := List.append_of_mem (mem_extract.mp h)
  have htext := pieces_text 0 text
  rw [hsplit, List.flatMap_append, List.flatMap_cons, List.drop_zero] at htext
  exact ⟨before.flatMap Piece.text, after.flatMap Piece.text, by rw [List.append_assoc]; exact htext⟩

/-- A secret of exclamation marks stays in the text of every reference to it. -/
theorem resolvedText_shows {read : String → Except ReadError (Option String)} {text : List Char} {count : Nat}
    (hread : ∀ ref ∈ extract text, secretOf read ref = List.replicate (count + 1) '!') (h : extract text ≠ []) :
    count < (resolvedText read text).length := by
  have hvalid : ∀ ref ∈ extract text, ValidId ref := fun ref hmem => pieces_valid (mem_extract.mp hmem)
  have hkept : ∀ refs : List (List Char), (∀ ref ∈ refs, ValidId ref) → ∀ next, List.replicate (count + 1) '!' <:+: next →
      List.replicate (count + 1) '!' <:+: refs.foldl (fun next ref => replace (reference ref) (secretOf read ref) next) next := by
    intro refs
    induction refs with
    | nil => exact fun _ next hnext => hnext
    | cons ref refs ih =>
      intro hrefs next hnext
      refine ih (fun r hr => hrefs r (List.mem_cons_of_mem _ hr)) _ (infix_kept (List.cons_ne_nil _ _) ?_ (by simp) hnext)
      intro c hc
      rw [List.eq_of_mem_replicate hc]
      exact bang_not_mem (hrefs ref List.mem_cons_self)
  obtain ⟨first, rest, hrefs⟩ := List.exists_cons_of_ne_nil h
  have hfirst : first ∈ extract text := hrefs ▸ List.mem_cons_self
  have hput : List.replicate (count + 1) '!' <:+: replace (reference first) (secretOf read first) text := by
    rw [← hread first hfirst]
    exact infix_replace (infix_reference hfirst) (List.cons_ne_nil _ _)
  have hshown := hkept rest (fun ref hmem => hvalid ref (hrefs ▸ List.mem_cons_of_mem _ hmem)) _ hput
  have hlength := hshown.length_le
  rw [List.length_replicate] at hlength
  unfold resolvedText
  rw [hrefs]
  exact hlength

/-- In open surroundings only a text without references comes out as short as it was asked for. -/
theorem plain_of_resolved {text target : String} (hrefs : ∀ ref ∈ extractCredentialRefs text, ref ∈ refsOf headers)
    (h : String.ofList (resolvedText
      (readShared (openEnv m headers (String.ofList (List.replicate (target.toList.length + 1) '!')))) text.toList) = target) :
    extractCredentialRefs text = [] ∧ text = target := by
  have hread : ∀ ref ∈ extract text.toList, secretOf
      (readShared (openEnv m headers (String.ofList (List.replicate (target.toList.length + 1) '!')))) ref =
        List.replicate (target.toList.length + 1) '!' := by
    intro ref href
    have hfind := @find_openEnv m headers (String.ofList (List.replicate (target.toList.length + 1) '!')) _
      (hrefs _ (List.mem_map_of_mem href))
    simp only [secretOf, readShared_of_find hfind, Option.getD_some, String.toList_ofList]
  have hplain : extract text.toList = [] := by
    by_contra hne
    have hlong := resolvedText_shows hread hne
    have hlength := congrArg (fun s : String => s.toList.length) h
    simp only [String.toList_ofList] at hlength
    omega
  refine ⟨extractCredentialRefs_eq_nil.mpr hplain, ?_⟩
  rw [resolvedText_plain hplain, String.ofList_toList] at h
  exact h

/-! ## When a value is sent literally -/

/-- The header of a slot, with the texts as the resolver leaves them. -/
theorem header_of_slot (env : Surroundings) (hslot : slot ∈ m.slots) (hvalue : values slot.id = some value)
    (hname : slot.name.toLower ≠ "connection") (h : slot.name.toLower ∉ reserved) :
    dictGet (wireHeaders py (httpHeaders env py (resolvedBy env (callHeaders m values)))) (py.headline slot.name) =
      (counting py (dictSet (m.headers.filter (sharesName py slot ·.1)) slot.name (slot.literal value))).map fun header =>
        String.ofList (resolvedText (readShared env) header.2.toList) := by
  have hline : py.headline slot.name ≠ "Connection" := mt headline_connection_iff.mp hname
  have hresolved : (resolvedBy env (callHeaders m values)).filter (sharesName py slot ·.1) =
      ((callHeaders m values).filter (sharesName py slot ·.1)).map fun header =>
        (header.1, String.ofList (resolvedText (readShared env) header.2.toList)) := List.filter_map
  rw [dictGet_wireHeaders _ hline, named_httpHeaders env _ h, hresolved, sharing_callHeaders hslot hvalue h,
    counting_map fun text => String.ofList (resolvedText (readShared env) text.toList), Option.map_map]
  rfl

theorem httpHeaders_openEnv (headers resolved : List (String × String)) (secret : String) :
    httpHeaders (openEnv m headers secret) py resolved =
      update (update (update (resolved.filter fun header => !reserved.contains (py.lower header.1)) "Content-Type"
        (some "application/json")) "Accept" (some "application/json, text/event-stream")) "X-Correlation-ID" (some secret) := rfl

theorem not_reserved_of_sharesName {name : String} (hname : Ascii name) (h : sharesName py slot name = true) :
    slot.name.toLower ∉ reserved := by
  rw [sharesName, Bool.and_eq_true, decide_eq_true_eq] at h
  have hsame := (py.headline_eq_iff hname slot.ascii).mp h.1
  rw [py.lower_ascii _ hname, hsame] at h
  simpa using h.2

/-- Under a name of the client's own no static header is sent, but for the correlation. -/
theorem not_sharesName (h : slot.name.toLower ∈ reserved) (hcorrelation : slot.name.toLower ≠ "x-correlation-id")
    (name : String) : sharesName py slot name = false := by
  have hown : ∃ own ∈ ["mcp-method", "mcp-name", "traceparent", "tracestate", "baggage", "connection"], Ascii own ∧
      own.toLower = slot.name.toLower := by
    obtain ⟨hmem, hascii, hlower⟩ := Spelled.unprotected spelled _ h hcorrelation slot.nameValid.2.2.2
    exact ⟨slot.name.toLower, hmem, hascii, hlower⟩
  obtain ⟨own, hmem, hascii, hlower⟩ := hown
  by_contra htrue
  rw [Bool.not_eq_false] at htrue
  have hshares : py.headline name = py.headline slot.name := of_decide_eq_true (Bool.and_eq_true_iff.mp htrue).1
  have hline : py.headline name = py.headline own := hshares.trans ((py.headline_eq_iff slot.ascii hascii).mpr hlower.symm)
  exact not_reserved_of_sharesName (py.own own hmem name hline) htrue h

/-- A slot with a name of the client's own: the client's header is sent, or none. -/
theorem header_reserved (headers resolved : List (String × String)) (secret : String) (hreserved : slot.name.toLower ∈ reserved)
    {text : String} (h : dictGet (wireHeaders py (httpHeaders (openEnv m headers secret) py resolved)) (py.headline slot.name) = some text) :
    text = secret := by
  have hline : py.headline slot.name ≠ "Connection" := by
    intro heq
    rw [headline_connection_iff.mp heq] at hreserved
    exact (Spelled.connection spelled).2.2.2.1 hreserved
  have hne : ∀ key ∈ ["Content-Type", "Accept"], py.headline key ≠ py.headline slot.name := by
    intro key hkey heq
    obtain ⟨hascii, hlower⟩ := Spelled.always spelled key hkey
    exact slot.nameValid.2.2.2 ((py.headline_eq_iff hascii slot.ascii).mp heq ▸ hlower)
  simp only [List.forall_mem_cons, List.not_mem_nil, false_imp_iff, implies_true, and_true] at hne
  have hstatic : (resolved.filter fun header => !reserved.contains (py.lower header.1)).filter
      (py.headline ·.1 = py.headline slot.name) = resolved.filter (sharesName py slot ·.1) := by
    rw [List.filter_filter]
    rfl
  rw [dictGet_wireHeaders _ hline, httpHeaders_openEnv] at h
  obtain ⟨hascii, hascii', hupper, hlower⟩ := Spelled.correlation spelled
  have hsame := py.headline_eq_iff hascii slot.ascii
  rw [hupper] at hsame
  by_cases hcorrelation : slot.name.toLower = "x-correlation-id"
  · have hkey : py.headline "X-Correlation-ID" = py.headline slot.name := hsame.mpr hcorrelation.symm
    have hcapitalize : py.capitalize "X-Correlation-ID" = py.capitalize "x-correlation-id" :=
      py.capitalize_eq hascii hascii' (hupper.trans hlower.symm)
    have hnew : ∀ header ∈ resolved.filter (sharesName py slot ·.1), py.capitalize header.1 ≠ py.capitalize "X-Correlation-ID" := by
      intro header hheader heq
      exact not_reserved_of_sharesName (py.correlation header.1 (heq.trans hcapitalize)) (List.mem_filter.mp hheader).2 hreserved
    have hany : (resolved.filter (sharesName py slot ·.1)).any (·.1 = "X-Correlation-ID") = false := by
      rw [List.any_eq_false]
      intro header hheader heq
      exact hnew header hheader (congrArg py.capitalize (of_decide_eq_true heq))
    rw [update, filter_dictSet fun key => decide (py.headline key = py.headline slot.name), if_pos (decide_eq_true hkey),
      named_update hne.2, named_update hne.1, hstatic, dictSet, hany, if_neg Bool.false_ne_true, counting_append _ hnew] at h
    exact (Option.some.inj h).symm
  have hkey : py.headline "X-Correlation-ID" ≠ py.headline slot.name := fun heq => hcorrelation (hsame.mp heq).symm
  have hnone : resolved.filter (sharesName py slot ·.1) = [] := by
    rw [List.filter_eq_nil_iff]
    intro header _
    rw [not_sharesName hreserved hcorrelation]
    exact Bool.false_ne_true
  rw [named_update hkey, named_update hne.2, named_update hne.1, hstatic, hnone] at h
  simp [counting] at h

theorem plainSlots_of_literal (h : SentLiterally m values py) (hmissing : missingSlots m values = []) :
    ∀ slot ∈ m.slots, ∀ value, values slot.id = some value → extractCredentialRefs (slot.literal value) = [] ∧
        if slot.name.toLower = "connection" then slot.literal value = "close"
        else slot.name.toLower ∉ reserved ∧ TakesName m py slot (slot.literal value) := by
  intro slot hslot value hvalue
  let target := slot.literal value
  let secret := String.ofList (List.replicate (target.toList.length + 1) '!')
  let env := openEnv m (callHeaders m values) secret
  have hget := h.header env _ (send_eq_ok.mpr ⟨hmissing, check_openEnv _ _, rfl⟩) slot hslot value hvalue
  by_cases hname : slot.name.toLower = "connection"
  · rw [headline_connection_iff.mpr hname, dictGet_connection] at hget
    rw [if_pos hname, ← Option.some.inj hget]
    exact ⟨by decide +kernel, rfl⟩
  rw [if_neg hname]
  by_cases hreserved : slot.name.toLower ∈ reserved
  · have hsecret : target = secret := header_reserved _ _ _ hreserved hget
    have hlength := congrArg (fun s : String => s.toList.length) hsecret
    simp [secret] at hlength
  rw [header_of_slot env hslot hvalue hname hreserved] at hget
  obtain ⟨header, hcounting, hresolved⟩ := Option.map_eq_some_iff.mp hget
  have hown : ∀ ref ∈ extractCredentialRefs header.2, ref ∈ refsOf (callHeaders m values) := by
    intro ref href
    have hmem := counting_mem hcounting
    rw [← sharing_callHeaders hslot hvalue hreserved] at hmem
    exact mem_refsOf.mpr ⟨header, (List.mem_filter.mp hmem).1, href⟩
  obtain ⟨hrefs, heq⟩ := plain_of_resolved hown hresolved
  rw [heq] at hrefs
  refine ⟨hrefs, hreserved, ?_⟩
  intro other hother
  rw [hcounting] at hother
  cases hother
  exact .inr heq

theorem plainValues_of_literal (h : SentLiterally m values py) (hmissing : missingSlots m values = []) : PlainValues m values py where
  slots := plainSlots_of_literal h hmissing
  refs := by
    intro ref href
    have hwire : send m values (openEnv m (callHeaders m values) "") py = .ok _ := send_eq_ok.mpr ⟨hmissing, check_openEnv _ _, rfl⟩
    obtain ⟨header, hheader, hin⟩ := mem_refsOf.mp (sharedRead_subset (h.all _ _ hwire ref href))
    rcases mem_callHeaders.mp hheader with ⟨hown, hnot⟩ | ⟨slot, hslot, value, hvalue, rfl⟩
    · exact ⟨header, hown, hin, hnot⟩
    · rw [(plainSlots_of_literal h hmissing slot hslot value hvalue).1] at hin
      cases hin

theorem literal_of_plainValues (h : missingSlots m values = [] → PlainValues m values py) : SentLiterally m values py where
  header := by
    intro env wire hsend slot hslot value hvalue
    obtain ⟨hmissing, -, rfl⟩ := send_eq_ok.mp hsend
    obtain ⟨hrefs, hname⟩ := (h hmissing).slots slot hslot value hvalue
    by_cases hconnection : slot.name.toLower = "connection"
    · rw [if_pos hconnection] at hname
      rw [headline_connection_iff.mpr hconnection, dictGet_connection, hname]
    rw [if_neg hconnection] at hname
    have hput : (slot.name, slot.literal value) ∈
        dictSet (m.headers.filter (sharesName py slot ·.1)) slot.name (slot.literal value) := mem_dictSet.mpr (.inr rfl)
    obtain ⟨header, hcounting⟩ := @exists_counting py _ (List.ne_nil_of_mem hput)
    have htext : header.2 = slot.literal value := by
      rcases hname.2 header hcounting with hslotName | htext
      · rcases mem_dictSet.mp (counting_mem hcounting) with ⟨-, hne⟩ | rfl
        · exact absurd hslotName hne
        · rfl
      · exact htext
    rw [header_of_slot env hslot hvalue hconnection hname.1, hcounting, Option.map_some, htext,
      resolvedText_plain (extractCredentialRefs_eq_nil.mp hrefs), String.ofList_toList]
  reads := by
    intro hmissing env ref href
    obtain ⟨header, hheader, hin⟩ := mem_refsOf.mp (sharedRead_subset href)
    rcases mem_callHeaders.mp hheader with ⟨hown, -⟩ | ⟨slot, hslot, value, hvalue, rfl⟩
    · exact mem_refsOf.mpr ⟨header, hown, hin⟩
    · rw [((h hmissing).slots slot hslot value hvalue).1] at hin
      cases hin
  all := by
    intro env wire hsend ref href
    obtain ⟨hmissing, hcheck, -⟩ := send_eq_ok.mp hsend
    obtain ⟨header, hheader, hin, hnot⟩ := (h hmissing).refs ref href
    exact sharedRead_all hcheck (mem_refsOf.mpr ⟨header, mem_callHeaders.mpr (.inl ⟨hheader, hnot⟩), hin⟩)

/-- **A user's values are sent literally, and only the shared credentials of the manifest are read, exactly where the
injected headers have no reference, no name of the client's own and no header after them that takes their name, and hide no
reference of the manifest; or where no call is made at all.** -/
theorem sent_literally_iff (py : Names) (m : UserManifest) (values : String → Option String) :
    SentLiterally m values py ↔ (missingSlots m values = [] → PlainValues m values py) :=
  ⟨plainValues_of_literal, literal_of_plainValues⟩

/-- The letters outside ASCII stay as they are. -/
def asciiNames : Names where
  toCasing := Casing.ascii
  own := by
    have hascii : ∀ own ∈ ["mcp-method", "mcp-name", "traceparent", "tracestate", "baggage", "connection"], Ascii own := by decide +kernel
    exact fun own hown _ h => Casing.ascii_of_headline (hascii own hown) h
  correlation := fun _ h => Casing.ascii_of_capitalize (by decide +kernel) h

/-- A service with the token of each user and a shared key. -/
def perUser : UserManifest where
  id := "crm"
  endpoint := "https://host/mcp"
  headers := [("X-Api-Key", String.ofList (reference "shared".toList))]
  headersNodup := by decide
  slots := [⟨"token", "Authorization", String.ofList ("Bearer ".toList ++ placeholder), true, by decide +kernel, by decide +kernel⟩]
  slotsNodup := by decide +kernel

/-- The user's value is the text of a reference to a credential that the manifest does not use. -/
def referring : String → Option String
  | "token" => some (String.ofList (reference "other".toList))
  | _ => none

def referringEnv : Surroundings := openEnv perUser (callHeaders perUser referring) "hunter2"

/-- The secret of the other credential is read and sent in the place of the user's value. -/
theorem reference_in_value_resolved :
    (send perUser referring referringEnv asciiNames).toOption.map (dictGet · "Authorization") = some (some "Bearer hunter2") ∧
    "other" ∈ sharedRead perUser referringEnv (callHeaders perUser referring) ∧
    "other" ∉ refsOf perUser.headers ∧ ¬ SentLiterally perUser referring asciiNames := by
  refine ⟨by decide +kernel, by decide +kernel, by decide +kernel, ?_⟩
  intro h
  have hplain := ((plainValues_of_literal h (by decide +kernel)).slots perUser.slots[0] List.mem_cons_self
    (String.ofList (reference "other".toList)) rfl).1
  exact absurd hplain (by decide +kernel)

end LingshuGate.UserHeaders
