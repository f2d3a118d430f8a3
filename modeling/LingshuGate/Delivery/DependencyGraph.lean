import Mathlib.Data.List.Perm.Basic
import Mathlib.Data.List.Sort
import Mathlib.Data.String.Basic
import LingshuGate.Lib.Base64
import LingshuGate.Lib.Check
import LingshuGate.Lib.JsonRead
import LingshuGate.Lib.UrlParts
import LingshuGate.Lib.Worklist

/-!
# Dependency graphs (`offline_build_contract.py`)

| here | there |
| --- | --- |
| `validateEndpoint`        | `validate_endpoint` (network_settings.py:99); `none` is its `ValueError` |
| `parseStrongSri`          | `parse_strong_sri` (offline_build_contract.py:33) |
| `consume`                 | one turn of the loop over `nodes` in `validate_dependency_graph` (71) |
| `validateDependencyGraph` | `validate_dependency_graph` |
| `digestJson`              | `digest_json` (git_source.py:172) |

`urlsplit` and SHA-256 are parameters. A text has an encoding: lone surrogates are left out. The members of the origin policy come in
the order of its iteration.
-/

namespace LingshuGate.OfflineBuild

open Lib

structure ToolExecutionError where
  code : String
  message : String
  nextAction : String

inductive Failure
  | denied (error : ToolExecutionError)
  | keyError

def deny (message : String) : Failure :=
  .denied ⟨"offline_contract_invalid", message,
    "Prepare a complete reviewed source/tool/dependency inventory; online fallback is prohibited."⟩

/-! ## Fields -/

def alnum (c : Char) : Bool := ('A' ≤ c ∧ c ≤ 'Z') || ('a' ≤ c ∧ c ≤ 'z') || ('0' ≤ c ∧ c ≤ '9')

/-- `DEPENDENCY_ID.fullmatch` -/
def dependencyId (key : String) : Bool :=
  match key.toList with
  | [] => false
  | c :: cs => (alnum c || c = '@') && cs.length ≤ 199 && cs.all fun c => alnum c || "._/@()+:-".toList.contains c

/-- The algorithms of `parse_strong_sri`, with the bytes of their digests. -/
def algorithms : List (String × ℕ) := [("sha256", 32), ("sha384", 48), ("sha512", 64)]

/-- `[A-Za-z0-9+/]+={0,2}` -/
def sriEncoding (text : List Char) : Bool :=
  let padding := text.dropWhile fun c => (Base64.sextet c).isSome
  text.takeWhile (fun c => (Base64.sextet c).isSome) ≠ [] && padding.length ≤ 2 && padding.all (· = '=')

def parseStrongSri (value : String) : Except Failure (String × List UInt8) := do
  require (value.length ≤ 128) (deny "Dependency integrity exceeds its bounded SRI field")
  let weak := deny "Dependency integrity must be one explicit SHA-256/384/512 SRI; missing, weak or alternative algorithms are unsupported"
  let algorithm ← expect (algorithms.find? fun a => (a.1 ++ "-").toList.isPrefixOf value.toList) weak
  require (sriEncoding (value.toList.drop 7)) weak
  let decoded ← expect (Base64.decode (value.toList.drop 7)) (deny "Dependency SRI encoding is invalid")
  require (decoded.length = algorithm.2 && Base64.encode decoded = value.toList.drop 7)
    (deny "Dependency SRI length or canonical encoding is invalid")
  return (algorithm.1, decoded)

section Origins

variable (urlsplit : String → Option Url.SplitUrl)

def validateEndpoint (value : String) (schemes : List String) (proxy : Bool) : Option String := do
  guard (!value.toList.any fun c => c.toNat ≤ 32 || c.toNat = 127 || c = '\\' || c = '%')
  let parsed ← urlsplit value
  let hostname ← parsed.hostname
  guard (parsed.scheme ∈ schemes ∧ hostname ≠ "" ∧ parsed.username = none ∧ parsed.password = none)
  guard (parsed.query = "" ∧ parsed.fragment = "")
  let port ← parsed.port
  guard ¬(port.getD 0 = 0 ∧ value.toList.getLast? = some ':')
  guard ¬(proxy ∧ (parsed.path ∉ ["", "/"] ∨ port = none))
  guard (hostname.toList.getLast? ≠ some '.' ∧ hostname.toList.all (·.toNat < 128))
  return parsed.scheme

/-- The origin of a URL that `validate_endpoint` accepts. -/
def sourceOrigin (url : String) : Option String := do
  let _ ← validateEndpoint urlsplit url ["https"] false
  let parts ← urlsplit url
  return parts.scheme ++ "://" ++ parts.netloc

/-- An exact HTTPS origin. -/
def exactOrigin (origin : String) : Bool :=
  match urlsplit origin with
  | some parts => parts.path = "" && sourceOrigin urlsplit origin = some origin
  | none => false

end Origins

/-! ## The graph -/

structure DependencyNode where
  key : String
  sourceUrl : String
  integrity : String
  dependencies : List String := []

structure VerifiedDependencyGraph where
  nodes : List DependencyNode
  roots : List String
  sha256 : String

structure GraphLimits where
  nodes : ℕ
  edges : ℕ
  metadataBytes : ℕ

/-- `GRAPH_LIMITS` -/
def graphLimits : GraphLimits := ⟨5000, 20000, 4 * 1024 * 1024⟩

/-- `len(text.encode())` -/
def encodedLength (text : String) : ℕ := (text.toList.map Char.utf8Size).sum

def DependencyNode.metadataBytes (node : DependencyNode) : ℕ :=
  encodedLength node.key + encodedLength node.sourceUrl + encodedLength node.integrity + (node.dependencies.map encodedLength).sum

/-- The records that were consumed, and their totals. -/
structure Consumed where
  indexed : List DependencyNode := []
  edges : ℕ := 0
  metadataBytes : ℕ := 0

section Validation

variable (urlsplit : String → Option Url.SplitUrl) (sha256 : String → String)

def consume (allowedOrigins : List String) (c : Consumed) (node : DependencyNode) : Except Failure Consumed := do
  require (c.indexed.length < graphLimits.nodes) (deny "Dependency graph exceeds its node limit")
  require (dependencyId node.key && node.key ∉ c.indexed.map (·.key))
    (deny "Dependency graph contains an invalid or duplicate content key")
  require (node.sourceUrl.length ≤ 2048 && node.integrity.length ≤ 128)
    (deny "Dependency graph record exceeds its metadata field limits")
  require (c.edges + node.dependencies.length ≤ graphLimits.edges) (deny "Dependency graph exceeds its edge limit")
  require (node.dependencies.all dependencyId && node.dependencies.Nodup)
    (deny "Dependency edges must use distinct normalized content keys")
  require (c.metadataBytes + node.metadataBytes ≤ graphLimits.metadataBytes)
    (deny "Dependency graph exceeds its metadata byte limit")
  let _ ← parseStrongSri node.integrity
  require ((sourceOrigin urlsplit node.sourceUrl).any (· ∈ allowedOrigins))
    (deny "Dependency source is outside the exact HTTPS origin policy; Git/file/link sources need separate review")
  return ⟨c.indexed ++ [node], c.edges + node.dependencies.length, c.metadataBytes + node.metadataBytes⟩

/-- `indexed[key].dependencies` -/
def dependenciesOf (indexed : List DependencyNode) (key : String) : List String :=
  ((indexed.find? fun node => node.key = key).map (·.dependencies)).getD []

/-- `sorted(texts)` -/
def sorted (texts : List String) : List String := texts.insertionSort (· ≤ ·)

def DependencyNode.json (node : DependencyNode) : Json :=
  .obj [("key", .str node.key), ("source_url", .str node.sourceUrl), ("integrity", .str node.integrity),
    ("dependencies", .arr ((sorted node.dependencies).map .str))]

def digestJson (value : Json) : String := sha256 value.dumps

def validateDependencyGraph (nodes : List DependencyNode) (roots allowedOrigins : List String) :
    Except Failure VerifiedDependencyGraph := do
  require (roots ≠ [] && roots.length ≤ graphLimits.nodes && roots.all dependencyId && roots.Nodup)
    (deny "Dependency graph requires bounded, distinct importer roots")
  require (allowedOrigins ≠ [] && allowedOrigins.length ≤ 32) (deny "Dependency origin policy must be bounded and explicit")
  each (fun origin => do
    require (origin.length ≤ 2048) (deny "Dependency origin policy requires bounded HTTPS origins")
    require (exactOrigin urlsplit origin) (deny "Dependency origin policy requires exact HTTPS origins")) allowedOrigins
  let c ← nodes.foldlM (consume urlsplit allowedOrigins) {}
  let keys := c.indexed.map (·.key)
  require (roots.all (· ∈ keys) && c.indexed.all fun node => node.dependencies.all (· ∈ keys))
    (deny "Dependency graph is incomplete: importer root or transitive content is missing")
  let reachable ← expect (Worklist.closure keys (dependenciesOf c.indexed) [] roots.reverse) .keyError
  require (reachable.all (· ∈ keys) && keys.all (· ∈ reachable))
    (deny "Dependency graph contains content outside the selected importer closure")
  let ordered := c.indexed.insertionSort (·.key ≤ ·.key)
  let orderedRoots := sorted roots
  return ⟨ordered, orderedRoots,
    digestJson sha256 (.obj [("roots", .arr (orderedRoots.map .str)), ("nodes", .arr (ordered.map DependencyNode.json))])⟩

end Validation

/-! ## What is accepted -/

/-- One strong algorithm and the canonical encoding of a digest of its size. -/
def StrongSri (value : String) : Prop :=
  ∃ a ∈ algorithms, ∃ digest : List UInt8, digest.length = a.2 ∧ value = a.1 ++ "-" ++ String.ofList (Base64.encode digest)

/-- One record by itself. -/
structure RecordOk (urlsplit : String → Option Url.SplitUrl) (allowedOrigins : List String) (node : DependencyNode) : Prop where
  key : dependencyId node.key = true
  sourceUrl : node.sourceUrl.length ≤ 2048
  edges : ∀ d ∈ node.dependencies, dependencyId d = true
  distinct : node.dependencies.Nodup
  integrity : StrongSri node.integrity
  source : ∃ origin ∈ allowedOrigins, sourceOrigin urlsplit node.sourceUrl = some origin

/-- The record of key `a` has an edge to `b`. -/
def Edge (nodes : List DependencyNode) (a b : String) : Prop := ∃ node ∈ nodes, node.key = a ∧ b ∈ node.dependencies

def totalEdges (nodes : List DependencyNode) : ℕ := (nodes.map fun node => node.dependencies.length).sum

def totalBytes (nodes : List DependencyNode) : ℕ := (nodes.map DependencyNode.metadataBytes).sum

/-- A bounded graph of sound records, closed, and all of it reached from its roots. -/
structure Valid (urlsplit : String → Option Url.SplitUrl) (nodes : List DependencyNode) (roots allowedOrigins : List String) : Prop where
  rooted : roots ≠ []
  roots_le : roots.length ≤ graphLimits.nodes
  rootIds : ∀ root ∈ roots, dependencyId root = true
  distinctRoots : roots.Nodup
  policy : allowedOrigins ≠ [] ∧ allowedOrigins.length ≤ 32
  origins : ∀ origin ∈ allowedOrigins, origin.length ≤ 2048 ∧ exactOrigin urlsplit origin = true
  nodes_le : nodes.length ≤ graphLimits.nodes
  edges_le : totalEdges nodes ≤ graphLimits.edges
  bytes_le : totalBytes nodes ≤ graphLimits.metadataBytes
  distinctKeys : (nodes.map (·.key)).Nodup
  records : ∀ node ∈ nodes, RecordOk urlsplit allowedOrigins node
  closedRoots : ∀ root ∈ roots, ∃ node ∈ nodes, node.key = root
  closedEdges : ∀ a b, Edge nodes a b → ∃ node ∈ nodes, node.key = b
  reached : ∀ node ∈ nodes, ∃ root ∈ roots, Relation.ReflTransGen (Edge nodes) root node.key

section Accepted

variable {urlsplit : String → Option Url.SplitUrl} {sha256 : String → String} {allowedOrigins roots : List String} {c c' : Consumed}
  {node : DependencyNode} {nodes : List DependencyNode} {value : String}

theorem sriEncoding_encode {digest : List UInt8} (h : digest ≠ []) : sriEncoding (Base64.encode digest) = true := by
  obtain ⟨digits, k, hshape, hsmall, hlength, hk⟩ := Base64.encode_shape digest
  have hdigit : ∀ c ∈ digits.map Base64.digit, (Base64.sextet c).isSome = true := by
    intro c hc
    obtain ⟨d, hd, rfl⟩ := List.mem_map.mp hc
    rw [Base64.sextet_digit (hsmall d hd)]
    rfl
  have hpad : (List.replicate k '=').takeWhile (fun c => (Base64.sextet c).isSome) = [] ∧
      (List.replicate k '=').dropWhile (fun c => (Base64.sextet c).isSome) = List.replicate k '=' := by
    cases k with
    | zero | succ k => exact ⟨rfl, rfl⟩
  have hne : digits ≠ [] := by
    rintro rfl
    have hnil := Base64.length_encode digest
    have hpos := List.length_pos_iff.mpr h
    rw [hshape] at hnil
    simp only [List.map_nil, List.nil_append, List.length_replicate] at hnil
    omega
  simp only [sriEncoding, hshape, List.takeWhile_append_of_pos hdigit, List.dropWhile_append_of_pos hdigit, hpad.1, hpad.2,
    List.append_nil, List.length_replicate, Bool.and_eq_true, decide_eq_true_eq]
  refine ⟨⟨by simpa using hne, by omega⟩, ?_⟩
  rw [List.all_eq_true]
  intro c hc
  rw [List.eq_of_mem_replicate hc]
  rfl

theorem StrongSri.length_le (h : StrongSri value) : value.length ≤ 128 := by
  obtain ⟨a, ha, digest, hdigest, rfl⟩ := h
  have hencode := Base64.length_encode digest
  have hname : ∀ a ∈ algorithms, a.1.length = 6 ∧ a.2 ≤ 64 := by decide
  obtain ⟨hsix, hsize⟩ := hname a ha
  have hdash : "-".length = 1 := by decide
  rw [String.length_append, String.length_append, hdash, String.length_ofList, hencode, hsix]
  omega

theorem parseStrongSri_ok : (∃ parsed, parseStrongSri value = .ok parsed) ↔ StrongSri value := by
  have hnames : ∀ a ∈ algorithms, (a.1 ++ "-").toList.length = 7 ∧ 0 < a.2 ∧
      ∀ b ∈ algorithms, (b.1 ++ "-").toList = (a.1 ++ "-").toList → b = a := by decide
  constructor
  · rintro ⟨parsed, h⟩
    simp only [parseStrongSri, bind_eq_ok, require_eq_ok, expect_eq_ok, pure_eq_ok, Bool.and_eq_true, decide_eq_true_eq] at h
    obtain ⟨-, -, a, hfind, -, -, decoded, -, -, ⟨hlength, hencode⟩, -⟩ := h
    have ha := List.mem_of_find?_eq_some hfind
    have hprefix := List.find?_some hfind
    rw [List.isPrefixOf_iff_prefix] at hprefix
    refine ⟨a, ha, decoded, hlength, ?_⟩
    rw [hencode, ← String.toList_inj, String.toList_append, String.toList_ofList, ← (hnames a ha).1]
    obtain ⟨rest, hrest⟩ := hprefix
    rw [← hrest, List.drop_left]
  intro h
  have hle := h.length_le
  obtain ⟨a, ha, digest, hdigest, rfl⟩ := h
  obtain ⟨hseven, hpos, hinj⟩ := hnames a ha
  have htext : (a.1 ++ "-" ++ String.ofList (Base64.encode digest)).toList = (a.1 ++ "-").toList ++ Base64.encode digest := by
    rw [String.toList_append, String.toList_ofList]
  have hdrop : (a.1 ++ "-" ++ String.ofList (Base64.encode digest)).toList.drop 7 = Base64.encode digest := by
    rw [htext, ← hseven, List.drop_left]
  have hfind : algorithms.find? (fun b => (b.1 ++ "-").toList.isPrefixOf (a.1 ++ "-" ++ String.ofList (Base64.encode digest)).toList) =
      some a := by
    obtain ⟨b, hb⟩ : ∃ b, algorithms.find? (fun b => (b.1 ++ "-").toList.isPrefixOf
        (a.1 ++ "-" ++ String.ofList (Base64.encode digest)).toList) = some b := by
      rw [← Option.isSome_iff_exists, List.find?_isSome]
      refine ⟨a, ha, List.isPrefixOf_iff_prefix.mpr ?_⟩
      rw [htext]
      exact List.prefix_append _ _
    have hmem := List.mem_of_find?_eq_some hb
    have hprefix : (b.1 ++ "-").toList <+: (a.1 ++ "-").toList ++ Base64.encode digest := by
      have hfound := List.find?_some hb
      rwa [List.isPrefixOf_iff_prefix, htext] at hfound
    have hlength := (hnames b hmem).1.trans hseven.symm
    have heq := (List.prefix_of_prefix_length_le hprefix (List.prefix_append _ _) hlength.le).eq_of_length hlength
    rw [hb, hinj b hmem heq]
  refine ⟨(a.1, digest), ?_⟩
  simp only [parseStrongSri, bind_eq_ok, require_eq_ok, expect_eq_ok, pure_eq_ok, Bool.and_eq_true, decide_eq_true_eq, hdrop]
  have hne : digest ≠ [] := List.length_pos_iff.mp (by omega)
  exact ⟨(), hle, a, hfind, (), sriEncoding_encode hne, digest, Base64.decode_encode digest, (), ⟨hdigest, rfl⟩, rfl⟩

/-! ## One record, and all of them -/

/-- The totals after some records. -/
def Consumed.after (c : Consumed) (nodes : List DependencyNode) : Consumed :=
  ⟨c.indexed ++ nodes, c.edges + totalEdges nodes, c.metadataBytes + totalBytes nodes⟩

structure Consumed.Within (c : Consumed) : Prop where
  nodes : c.indexed.length ≤ graphLimits.nodes
  edges : c.edges ≤ graphLimits.edges
  bytes : c.metadataBytes ≤ graphLimits.metadataBytes

theorem Consumed.after_cons (c : Consumed) (node : DependencyNode) (nodes : List DependencyNode) :
    c.after (node :: nodes) = (c.after [node]).after nodes := by
  simp [Consumed.after, totalEdges, totalBytes, Nat.add_assoc]

theorem Consumed.Within.of_after (h : (c.after nodes).Within) : c.Within := by
  have hnodes := h.nodes
  have hedges := h.edges
  have hbytes := h.bytes
  simp only [Consumed.after, List.length_append] at hnodes hedges hbytes
  exact ⟨by omega, by omega, by omega⟩

theorem sourceOrigin_any {url : String} : (sourceOrigin urlsplit url).any (· ∈ allowedOrigins) = true ↔
    ∃ origin ∈ allowedOrigins, sourceOrigin urlsplit url = some origin := by
  cases sourceOrigin urlsplit url with
  | none | some origin => simp

theorem consume_ok : consume urlsplit allowedOrigins c node = .ok c' ↔
    c' = c.after [node] ∧ c.indexed.length < graphLimits.nodes ∧ c.edges + node.dependencies.length ≤ graphLimits.edges ∧
      c.metadataBytes + node.metadataBytes ≤ graphLimits.metadataBytes ∧ RecordOk urlsplit allowedOrigins node ∧
      node.key ∉ c.indexed.map (·.key) := by
  have hafter : c.after [node] = ⟨c.indexed ++ [node], c.edges + node.dependencies.length, c.metadataBytes + node.metadataBytes⟩ := by
    simp [Consumed.after, totalEdges, totalBytes]
  simp only [consume, bind_eq_ok, require_eq_ok, pure_eq_ok, Bool.and_eq_true, decide_eq_true_eq, List.all_eq_true, sourceOrigin_any,
    hafter]
  constructor
  · rintro ⟨_, hnodes, _, ⟨hkey, hnew⟩, _, ⟨hurl, -⟩, _, hedges, _, ⟨hids, hdistinct⟩, _, hbytes, parsed, hsri, _, hsource, rfl⟩
    exact ⟨rfl, hnodes, hedges, hbytes, ⟨hkey, hurl, hids, hdistinct, parseStrongSri_ok.mp ⟨parsed, hsri⟩, hsource⟩, hnew⟩
  · rintro ⟨rfl, hnodes, hedges, hbytes, hok, hnew⟩
    obtain ⟨parsed, hsri⟩ := parseStrongSri_ok.mpr hok.integrity
    exact ⟨(), hnodes, (), ⟨hok.key, hnew⟩, (), ⟨hok.sourceUrl, hok.integrity.length_le⟩, (), hedges, (), ⟨hok.edges, hok.distinct⟩, (),
      hbytes, parsed, hsri, (), hok.source, rfl⟩

/-- The limits are looked at one record at a time; the totals only grow. -/
theorem consume_all : nodes.foldlM (consume urlsplit allowedOrigins) c = .ok c' ↔
    c' = c.after nodes ∧ (nodes ≠ [] → (c.after nodes).Within) ∧ (∀ node ∈ nodes, RecordOk urlsplit allowedOrigins node) ∧
      (nodes.map (·.key)).Nodup ∧ ∀ node ∈ nodes, node.key ∉ c.indexed.map (·.key) := by
  induction nodes generalizing c with
  | nil =>
    have hafter : c.after [] = c := by simp [Consumed.after, totalEdges, totalBytes]
    simp only [List.foldlM_nil, pure_eq_ok, hafter]
    exact ⟨fun h => ⟨h.symm, absurd rfl, List.forall_mem_nil _, List.nodup_nil, List.forall_mem_nil _⟩, fun h => h.1.symm⟩
  | cons node nodes ih =>
    simp only [List.foldlM_cons, bind_eq_ok, consume_ok]
    have hkeys : (c.after [node]).indexed.map (·.key) = c.indexed.map (·.key) ++ [node.key] := by simp [Consumed.after]
    have hone : (c.after [node]).Within ↔ c.indexed.length < graphLimits.nodes ∧ c.edges + node.dependencies.length ≤ graphLimits.edges ∧
        c.metadataBytes + node.metadataBytes ≤ graphLimits.metadataBytes := by
      constructor
      · intro h
        have hnodes := h.nodes
        have hedges := h.edges
        have hbytes := h.bytes
        simp only [Consumed.after, totalEdges, totalBytes, List.length_append, List.length_singleton, List.map_singleton,
          List.sum_singleton] at hnodes hedges hbytes
        exact ⟨by omega, hedges, hbytes⟩
      · rintro ⟨hnodes, hedges, hbytes⟩
        refine ⟨?_, ?_, ?_⟩ <;> simp [Consumed.after, totalEdges, totalBytes] <;> omega
    constructor
    · rintro ⟨c₁, ⟨rfl, hnodes, hedges, hbytes, hok, hnew⟩, hrest⟩
      obtain ⟨rfl, hwithin, hrecords, hdistinct, hfresh⟩ := ih.mp hrest
      rw [hkeys] at hfresh
      refine ⟨(c.after_cons node nodes).symm, fun _ => ?_, ?_, ?_, ?_⟩
      · rw [c.after_cons]
        by_cases hnil : nodes = []
        · subst hnil
          have hafter : (c.after [node]).after [] = c.after [node] := by simp [Consumed.after, totalEdges, totalBytes]
          rw [hafter]
          exact hone.mpr ⟨hnodes, hedges, hbytes⟩
        · exact hwithin hnil
      · exact List.forall_mem_cons.mpr ⟨hok, hrecords⟩
      · refine List.nodup_cons.mpr ⟨fun hmem => ?_, hdistinct⟩
        obtain ⟨other, hother, heq⟩ := List.mem_map.mp hmem
        exact hfresh other hother (List.mem_append_right _ (List.mem_singleton.mpr heq))
      · refine List.forall_mem_cons.mpr ⟨hnew, fun other hother hmem => ?_⟩
        exact hfresh other hother (List.mem_append_left _ hmem)
    rintro ⟨rfl, hwithin, hrecords, hdistinct, hfresh⟩
    have hall := hwithin (List.cons_ne_nil _ _)
    rw [c.after_cons] at hall
    obtain ⟨hnodes, hedges, hbytes⟩ := hone.mp hall.of_after
    obtain ⟨hok, hrecords⟩ := List.forall_mem_cons.mp hrecords
    obtain ⟨hnew, hfresh⟩ := List.forall_mem_cons.mp hfresh
    obtain ⟨hother, hdistinct⟩ := List.nodup_cons.mp hdistinct
    refine ⟨_, ⟨rfl, hnodes, hedges, hbytes, hok, hnew⟩, ih.mpr ⟨c.after_cons node nodes, fun _ => hall, hrecords, hdistinct, ?_⟩⟩
    intro other hmem
    rw [hkeys, List.mem_append, List.mem_singleton, not_or]
    exact ⟨hfresh other hmem, fun heq => hother (List.mem_map.mpr ⟨other, hmem, heq⟩)⟩

/-! ## The closure -/

theorem dependenciesOf_key (hdistinct : (nodes.map (·.key)).Nodup) (hnode : node ∈ nodes) :
    dependenciesOf nodes node.key = node.dependencies := by
  have hfind : nodes.find? (fun other => other.key = node.key) = some node := by
    cases h : nodes.find? fun other => other.key = node.key with
    | none =>
      have := List.find?_eq_none.mp h node hnode
      simp at this
    | some other =>
      have hkey : other.key = node.key := by simpa using List.find?_some h
      rw [List.inj_on_of_nodup_map hdistinct (List.mem_of_find?_eq_some h) hnode hkey]
  rw [dependenciesOf, hfind]
  rfl

theorem mem_dependenciesOf (hdistinct : (nodes.map (·.key)).Nodup) {a b : String} : b ∈ dependenciesOf nodes a ↔ Edge nodes a b := by
  constructor
  · intro h
    rw [dependenciesOf] at h
    cases hfind : nodes.find? fun node => node.key = a with
    | none =>
      rw [hfind] at h
      cases h
    | some node =>
      rw [hfind] at h
      exact ⟨node, List.mem_of_find?_eq_some hfind, by simpa using List.find?_some hfind, h⟩
  · rintro ⟨node, hnode, rfl, hb⟩
    rwa [dependenciesOf_key hdistinct hnode]

/-- **The closure check.** On a closed graph the loop raises nothing, and it passes when every record is reached. -/
theorem closure_checked (hdistinct : (nodes.map (·.key)).Nodup) (hroots : ∀ root ∈ roots, root ∈ nodes.map (·.key))
    (hedges : ∀ a b, Edge nodes a b → b ∈ nodes.map (·.key)) :
    ∃ reachable, Worklist.closure (nodes.map (·.key)) (dependenciesOf nodes) [] roots.reverse = some reachable ∧
      ((∀ key ∈ reachable, key ∈ nodes.map (·.key)) ∧ (∀ key ∈ nodes.map (·.key), key ∈ reachable) ↔
        ∀ node ∈ nodes, ∃ root ∈ roots, Relation.ReflTransGen (Edge nodes) root node.key) := by
  have hrel : (fun a b => b ∈ dependenciesOf nodes a) = Edge nodes := by
    funext a b
    exact propext (mem_dependenciesOf hdistinct)
  have hsome : (Worklist.closure (nodes.map (·.key)) (dependenciesOf nodes) [] roots.reverse).isSome = true := by
    refine Worklist.closure_isSome (fun k _ d hd => ?_) fun p hp => hroots p (List.mem_reverse.mp hp)
    exact hedges k d ((mem_dependenciesOf hdistinct).mp hd)
  obtain ⟨reachable, hclosure⟩ := Option.isSome_iff_exists.mp hsome
  have hmem : ∀ x, x ∈ reachable ↔ ∃ root ∈ roots, Relation.ReflTransGen (Edge nodes) root x := by
    intro x
    rw [Worklist.mem_closure hclosure, hrel]
    simp only [List.mem_reverse]
  refine ⟨reachable, hclosure, ?_, fun hreached => ⟨fun key hkey => ?_, fun key hkey => ?_⟩⟩
  · rintro ⟨-, hall⟩ node hnode
    exact (hmem _).mp (hall node.key (List.mem_map_of_mem hnode))
  · obtain ⟨root, hroot, hpath⟩ := (hmem key).mp hkey
    rcases hpath.cases_tail with rfl | ⟨a, -, hstep⟩
    · exact hroots _ hroot
    · exact hedges a key hstep
  · obtain ⟨node, hnode, rfl⟩ := List.mem_map.mp hkey
    exact (hmem _).mpr (hreached node hnode)

/-- The graph that is returned. -/
def verified (sha256 : String → String) (nodes : List DependencyNode) (roots : List String) : VerifiedDependencyGraph :=
  ⟨nodes.insertionSort (·.key ≤ ·.key), sorted roots, digestJson sha256 (.obj [("roots", .arr ((sorted roots).map .str)),
      ("nodes", .arr ((nodes.insertionSort (·.key ≤ ·.key)).map DependencyNode.json))])⟩

theorem validateDependencyGraph_ok {graph : VerifiedDependencyGraph} :
    validateDependencyGraph urlsplit sha256 nodes roots allowedOrigins = .ok graph ↔
      Valid urlsplit nodes roots allowedOrigins ∧ graph = verified sha256 nodes roots := by
  have hafter : (Consumed.after {} nodes).indexed = nodes := rfl
  simp only [validateDependencyGraph, bind_eq_ok, require_eq_ok, expect_eq_ok, pure_eq_ok, each_eq_ok, consume_all, Bool.and_eq_true,
    decide_eq_true_eq, List.all_eq_true]
  have hmem : ∀ key, key ∈ nodes.map (·.key) ↔ ∃ node ∈ nodes, node.key = key := fun key => List.mem_map
  constructor
  · rintro ⟨_, ⟨⟨⟨hrooted, hrootsle⟩, hrootids⟩, hrootsnodup⟩, _, hpolicy, _, horigins, c, ⟨rfl, hwithin, hrecords, hdistinct, -⟩, _,
      ⟨hroots, hdeps⟩, reachable, hclosure, _, hreached, rfl⟩
    rw [hafter] at hroots hdeps hclosure hreached
    have hedges : ∀ a b, Edge nodes a b → b ∈ nodes.map (·.key) := by
      rintro a b ⟨node, hnode, -, hb⟩
      exact hdeps node hnode b hb
    obtain ⟨reachable', hclosure', hiff⟩ := closure_checked hdistinct hroots hedges
    obtain rfl := Option.some.inj (hclosure.symm.trans hclosure')
    have hne : nodes ≠ [] := by
      rintro rfl
      obtain ⟨root, hroot⟩ := List.exists_mem_of_ne_nil roots hrooted
      exact absurd (hroots root hroot) List.not_mem_nil
    have hall := hwithin hne
    refine ⟨⟨hrooted, hrootsle, hrootids, hrootsnodup, hpolicy, ?_, hall.nodes, ?_, ?_, hdistinct, hrecords,
      fun root hroot => (hmem root).mp (hroots root hroot), fun a b hab => (hmem b).mp (hedges a b hab), hiff.mp hreached⟩, rfl⟩
    · intro origin horigin
      obtain ⟨_, hle, hexact⟩ := horigins origin horigin
      exact ⟨hle, hexact⟩
    · exact (Nat.zero_add _).symm.trans_le hall.edges
    · exact (Nat.zero_add _).symm.trans_le hall.bytes
  rintro ⟨hvalid, rfl⟩
  have hroots : ∀ root ∈ roots, root ∈ nodes.map (·.key) := fun root hroot => (hmem root).mpr (hvalid.closedRoots root hroot)
  have hedges : ∀ a b, Edge nodes a b → b ∈ nodes.map (·.key) := fun a b hab => (hmem b).mpr (hvalid.closedEdges a b hab)
  obtain ⟨reachable, hclosure, hiff⟩ := closure_checked hvalid.distinctKeys hroots hedges
  refine ⟨(), ⟨⟨⟨hvalid.rooted, hvalid.roots_le⟩, hvalid.rootIds⟩, hvalid.distinctRoots⟩, (), hvalid.policy, (), ?_, _,
    ⟨rfl, fun _ => ⟨hvalid.nodes_le, ?_, ?_⟩, hvalid.records, hvalid.distinctKeys, fun _ _ => List.not_mem_nil⟩, (),
    ⟨hroots, fun node hnode d hd => hedges node.key d ⟨node, hnode, rfl, hd⟩⟩, reachable, hclosure, (),
    hiff.mpr hvalid.reached, rfl⟩
  · intro origin horigin
    exact ⟨(), (hvalid.origins origin horigin).1, (hvalid.origins origin horigin).2⟩
  · exact (Nat.zero_add _).trans_le hvalid.edges_le
  · exact (Nat.zero_add _).trans_le hvalid.bytes_le

/-! ## The order of the records -/

/-- A record whose edges are sorted. -/
def DependencyNode.normal (node : DependencyNode) : DependencyNode := { node with dependencies := sorted node.dependencies }

/-- The same record, its edges in another order. -/
structure SameRecord (node node' : DependencyNode) : Prop where
  key : node.key = node'.key
  sourceUrl : node.sourceUrl = node'.sourceUrl
  integrity : node.integrity = node'.integrity
  dependencies : node.dependencies.Perm node'.dependencies

/-- The same records in another order, each with its edges in any order. -/
def Reordered (nodes nodes' : List DependencyNode) : Prop := ∃ middle, nodes.Perm middle ∧ List.Forall₂ SameRecord middle nodes'

variable {node' : DependencyNode} {nodes' : List DependencyNode} {roots' allowedOrigins' : List String}

theorem sorted_eq_iff {texts texts' : List String} : sorted texts = sorted texts' ↔ texts.Perm texts' := by
  constructor
  · intro h
    have hsame : (sorted texts).Perm (sorted texts') := h ▸ List.Perm.refl _
    exact ((List.perm_insertionSort _ texts).symm.trans hsame).trans (List.perm_insertionSort _ texts')
  · intro h
    have hsorted : ∀ texts : List String, (sorted texts).Pairwise (· ≤ ·) := fun texts => List.pairwise_insertionSort _ texts
    have hperm : (sorted texts).Perm (sorted texts') :=
      ((List.perm_insertionSort _ texts).trans h).trans (List.perm_insertionSort _ texts').symm
    exact hperm.eq_of_pairwise (fun a b _ _ => le_antisymm) (hsorted texts) (hsorted texts')

theorem sameRecord_iff : SameRecord node node' ↔ node.normal = node'.normal := by
  obtain ⟨key, url, integrity, deps⟩ := node
  obtain ⟨key', url', integrity', deps'⟩ := node'
  simp only [DependencyNode.normal, DependencyNode.mk.injEq, sorted_eq_iff]
  exact ⟨fun h => ⟨h.key, h.sourceUrl, h.integrity, h.dependencies⟩, fun h => ⟨h.1, h.2.1, h.2.2.1, h.2.2.2⟩⟩

theorem reordered_iff : Reordered nodes nodes' ↔ (nodes.map DependencyNode.normal).Perm (nodes'.map DependencyNode.normal) := by
  have hsame : ∀ middle, List.Forall₂ SameRecord middle nodes' ↔
      middle.map DependencyNode.normal = nodes'.map DependencyNode.normal := by
    intro middle
    have hrel : SameRecord = fun node other => node.normal = other.normal := by
      funext node other
      exact propext sameRecord_iff
    rw [← List.forall₂_eq_eq_eq, List.forall₂_map_left_iff, List.forall₂_map_right_iff, hrel]
  simp only [Reordered, hsame]
  constructor
  · rintro ⟨middle, hperm, hmap⟩
    rw [← hmap]
    exact hperm.map _
  intro h
  have hcomp : Relation.Comp (List.Forall₂ fun node other => DependencyNode.normal node = other) List.Perm nodes
      (nodes'.map DependencyNode.normal) := by
    refine ⟨nodes.map DependencyNode.normal, ?_, h⟩
    rw [List.forall₂_map_right_iff]
    exact List.forall₂_same.mpr fun _ _ => rfl
  rw [List.forall₂_comp_perm_eq_perm_comp_forall₂] at hcomp
  obtain ⟨middle, hperm, hmap⟩ := hcomp
  refine ⟨middle, hperm, ?_⟩
  rw [← List.forall₂_eq_eq_eq, List.forall₂_map_left_iff]
  exact hmap

theorem RecordOk.normal_iff : RecordOk urlsplit allowedOrigins node.normal ↔ RecordOk urlsplit allowedOrigins node := by
  have hperm : (sorted node.dependencies).Perm node.dependencies := List.perm_insertionSort _ _
  constructor
  · intro h
    exact ⟨h.key, h.sourceUrl, fun d hd => h.edges d (hperm.mem_iff.mpr hd), hperm.nodup_iff.mp h.distinct, h.integrity, h.source⟩
  · intro h
    exact ⟨h.key, h.sourceUrl, fun d hd => h.edges d (hperm.mem_iff.mp hd), hperm.nodup_iff.mpr h.distinct, h.integrity, h.source⟩

theorem edge_normal {a b : String} : Edge (nodes.map DependencyNode.normal) a b ↔ Edge nodes a b := by
  have hperm : ∀ node : DependencyNode, b ∈ node.normal.dependencies ↔ b ∈ node.dependencies := fun node =>
    (List.perm_insertionSort _ node.dependencies).mem_iff
  constructor
  · rintro ⟨other, hother, hkey, hb⟩
    obtain ⟨node, hnode, rfl⟩ := List.mem_map.mp hother
    exact ⟨node, hnode, hkey, (hperm node).mp hb⟩
  · rintro ⟨node, hnode, rfl, hb⟩
    exact ⟨node.normal, List.mem_map_of_mem hnode, rfl, (hperm node).mpr hb⟩

/-- Nothing in `Valid` looks at an order. -/
theorem Valid.of_perm (h : Valid urlsplit nodes roots allowedOrigins) (hnodes : nodes.Perm nodes') (hroots : roots.Perm roots') :
    Valid urlsplit nodes' roots' allowedOrigins := by
  have hedge : Edge nodes' = Edge nodes := by
    funext a b
    exact propext ⟨fun ⟨n, hn, hab⟩ => ⟨n, hnodes.mem_iff.mpr hn, hab⟩, fun ⟨n, hn, hab⟩ => ⟨n, hnodes.mem_iff.mp hn, hab⟩⟩
  have hkey : ∀ key, (∃ n ∈ nodes, n.key = key) → ∃ n ∈ nodes', n.key = key := fun _ ⟨n, hn, hkey⟩ => ⟨n, hnodes.mem_iff.mp hn, hkey⟩
  refine ⟨?_, hroots.length_eq ▸ h.roots_le, fun r hr => h.rootIds r (hroots.mem_iff.mpr hr), hroots.nodup_iff.mp h.distinctRoots,
    h.policy, h.origins, hnodes.length_eq ▸ h.nodes_le, ?_, ?_, (hnodes.map _).nodup_iff.mp h.distinctKeys,
    fun n hn => h.records n (hnodes.mem_iff.mpr hn), fun r hr => hkey r (h.closedRoots r (hroots.mem_iff.mpr hr)), ?_, ?_⟩
  · rintro rfl
    exact h.rooted hroots.eq_nil
  · exact ((hnodes.map fun node => node.dependencies.length).sum_nat).symm.trans_le h.edges_le
  · exact ((hnodes.map DependencyNode.metadataBytes).sum_nat).symm.trans_le h.bytes_le
  · intro a b hab
    exact hkey b (h.closedEdges a b (hedge ▸ hab))
  · intro n hn
    obtain ⟨root, hroot, hpath⟩ := h.reached n (hnodes.mem_iff.mpr hn)
    exact ⟨root, hroots.mem_iff.mp hroot, hedge ▸ hpath⟩

theorem valid_normal : Valid urlsplit (nodes.map DependencyNode.normal) roots allowedOrigins ↔ Valid urlsplit nodes roots allowedOrigins := by
  have hlength : totalEdges (nodes.map DependencyNode.normal) = totalEdges nodes := by
    simp only [totalEdges, List.map_map, Function.comp_def, DependencyNode.normal, sorted, List.length_insertionSort]
  have hbytes : totalBytes (nodes.map DependencyNode.normal) = totalBytes nodes := by
    have hone : ∀ node : DependencyNode, node.normal.metadataBytes = node.metadataBytes := by
      intro node
      exact congrArg (_ + ·) ((List.perm_insertionSort _ node.dependencies).map encodedLength).sum_nat
    simp only [totalBytes, List.map_map, Function.comp_def, hone]
  have hkeys : (nodes.map DependencyNode.normal).map (·.key) = nodes.map (·.key) := by simp [DependencyNode.normal]
  have hedge : Edge (nodes.map DependencyNode.normal) = Edge nodes := by
    funext a b
    exact propext edge_normal
  have hkey : ∀ key, (∃ n ∈ nodes.map DependencyNode.normal, n.key = key) ↔ ∃ n ∈ nodes, n.key = key := by
    intro key
    simp [DependencyNode.normal]
  constructor
  · intro h
    refine ⟨h.rooted, h.roots_le, h.rootIds, h.distinctRoots, h.policy, h.origins, List.length_map _ ▸ h.nodes_le, hlength ▸ h.edges_le,
      hbytes ▸ h.bytes_le, hkeys ▸ h.distinctKeys, fun n hn => RecordOk.normal_iff.mp (h.records _ (List.mem_map_of_mem hn)),
      fun r hr => (hkey r).mp (h.closedRoots r hr), fun a b hab => (hkey b).mp (h.closedEdges a b (edge_normal.mpr hab)), ?_⟩
    intro n hn
    have hreached := h.reached n.normal (List.mem_map_of_mem hn)
    rwa [hedge] at hreached
  intro h
  refine ⟨h.rooted, h.roots_le, h.rootIds, h.distinctRoots, h.policy, h.origins, (List.length_map _).trans_le h.nodes_le,
    hlength.trans_le h.edges_le, hbytes.trans_le h.bytes_le, hkeys.symm ▸ h.distinctKeys, ?_, fun r hr => (hkey r).mpr (h.closedRoots r hr),
    fun a b hab => (hkey b).mpr (h.closedEdges a b (edge_normal.mp hab)), ?_⟩
  · intro n hn
    obtain ⟨node, hnode, rfl⟩ := List.mem_map.mp hn
    exact RecordOk.normal_iff.mpr (h.records node hnode)
  · intro n hn
    obtain ⟨node, hnode, rfl⟩ := List.mem_map.mp hn
    rw [hedge]
    exact h.reached node hnode

theorem Valid.reorder (h : Valid urlsplit nodes roots allowedOrigins) (hnodes : Reordered nodes nodes') (hroots : roots.Perm roots') :
    Valid urlsplit nodes' roots' allowedOrigins :=
  valid_normal.mp ((valid_normal.mpr h).of_perm (reordered_iff.mp hnodes) hroots)

/-! ## The digest -/

/-- The document that is hashed, its keys as `sort_keys` leaves them. -/
def sortedRecord (node : DependencyNode) : Json :=
  .obj [("dependencies", .arr ((sorted node.dependencies).map .str)), ("integrity", .str node.integrity), ("key", .str node.key),
    ("source_url", .str node.sourceUrl)]

def sortedDocument (graph : VerifiedDependencyGraph) : Json :=
  .obj [("nodes", .arr (graph.nodes.map sortedRecord)), ("roots", .arr (graph.roots.map .str))]

/-- `charsAll` of values that are written alike. -/
theorem charsAll_map {α : Type} {f g : α → Json} (h : ∀ a, (f a).chars = (g a).compactChars) (items : List α) :
    Json.charsAll (items.map f) = Json.compactItems (items.map g) := by
  induction items with
  | nil => rfl
  | cons a items ih => rw [List.map_cons, List.map_cons, Json.charsAll, Json.compactItems, h, ih]

theorem chars_record (node : DependencyNode) : node.json.chars = (sortedRecord node).compactChars := by
  have hitems := charsAll_map (f := Json.str) (g := Json.str) (fun _ => rfl) (sorted node.dependencies)
  have hsorted : ∀ a b c d : List Char, [("key", a), ("source_url", b), ("integrity", c), ("dependencies", d)].insertionSort
      (fun x y => x.1 ≤ y.1) = [("dependencies", d), ("integrity", c), ("key", a), ("source_url", b)] := by
    intro a b c d
    simp [List.insertionSort, List.orderedInsert]
  simp only [DependencyNode.json, sortedRecord, Json.chars, Json.charsFields, hsorted, Json.compactChars, Json.compactFields, hitems,
    List.map_cons, List.map_nil]

theorem dumps_verified (nodes : List DependencyNode) (roots : List String) :
    (verified sha256 nodes roots).sha256 = sha256 (String.ofList (sortedDocument (verified sha256 nodes roots)).compactChars) := by
  have hroots := charsAll_map (f := Json.str) (g := Json.str) (fun _ => rfl) (sorted roots)
  have hnodes := charsAll_map chars_record (nodes.insertionSort (·.key ≤ ·.key))
  have hsorted : ∀ a b : List Char, [("roots", a), ("nodes", b)].insertionSort (fun x y => x.1 ≤ y.1) = [("nodes", b), ("roots", a)] := by
    intro a b
    simp [List.insertionSort, List.orderedInsert]
  refine congrArg (fun text => sha256 (String.ofList text)) ?_
  simp only [verified, sortedDocument, Json.chars, Json.charsFields, hsorted, Json.compactChars, Json.compactFields, hroots, hnodes,
    List.map_cons, List.map_nil]

/-- A reader of texts without floats. -/
def documentReader : JsonRead.Reader := ⟨id, some⟩

theorem stable_items {α : Type} {f : α → Json} (h : ∀ a, JsonRead.Stable documentReader (f a)) (items : List α) :
    JsonRead.StableItems documentReader (items.map f) := by
  induction items with
  | nil => trivial
  | cons a items ih => exact ⟨h a, ih⟩

theorem stable_document (graph : VerifiedDependencyGraph) : JsonRead.Stable documentReader (sortedDocument graph) := by
  have hrecord : ∀ node, JsonRead.Stable documentReader (sortedRecord node) := fun node =>
    ⟨rfl, stable_items (f := Json.str) (fun _ => trivial) _, trivial, trivial, trivial, trivial⟩
  exact ⟨rfl, stable_items hrecord _, stable_items (f := Json.str) (fun _ => trivial) _, trivial⟩

theorem sortedRecord_inj (h : sortedRecord node = sortedRecord node') : node.normal = node'.normal := by
  obtain ⟨key, url, integrity, deps⟩ := node
  obtain ⟨key', url', integrity', deps'⟩ := node'
  simp only [sortedRecord, Json.obj.injEq, List.cons.injEq, Prod.mk.injEq, Json.arr.injEq, Json.str.injEq, true_and, and_true] at h
  obtain ⟨hdeps, rfl, rfl, rfl⟩ := h
  have hsorted : sorted deps = sorted deps' := List.map_injective_iff.mpr (fun _ _ => Json.str.inj) hdeps
  simp only [DependencyNode.normal, hsorted]

/-- One digest, one graph. -/
theorem digest_inj (hsha256 : Function.Injective sha256)
    (h : (verified sha256 nodes roots).sha256 = (verified sha256 nodes' roots').sha256) : Reordered nodes nodes' ∧ roots.Perm roots' := by
  rw [dumps_verified, dumps_verified] at h
  have htext := String.ofList_injective (hsha256 h)
  have hread := JsonRead.loads_compact (stable_document (verified sha256 nodes roots))
  rw [htext, JsonRead.loads_compact (stable_document (verified sha256 nodes' roots')), Option.some.injEq] at hread
  simp only [sortedDocument, verified, Json.obj.injEq, List.cons.injEq, Prod.mk.injEq, Json.arr.injEq, true_and, and_true] at hread
  obtain ⟨hnodes, hroots⟩ := hread
  constructor
  · rw [reordered_iff]
    have hnormal : (nodes'.insertionSort (·.key ≤ ·.key)).map DependencyNode.normal =
        (nodes.insertionSort (·.key ≤ ·.key)).map DependencyNode.normal := by
      rw [← List.forall₂_eq_eq_eq, List.forall₂_map_left_iff, List.forall₂_map_right_iff] at hnodes ⊢
      exact hnodes.imp fun _ _ => sortedRecord_inj
    have hperm := (List.perm_insertionSort (·.key ≤ ·.key) nodes).map DependencyNode.normal
    rw [← hnormal] at hperm
    exact hperm.symm.trans ((List.perm_insertionSort _ nodes').map _)
  · exact sorted_eq_iff.mp (List.map_injective_iff.mpr (fun _ _ => Json.str.inj) hroots).symm

/-- One graph, one digest. -/
theorem digest_reordered (hdistinct : (nodes.map (·.key)).Nodup) (hnodes : Reordered nodes nodes') (hroots : roots.Perm roots') :
    (verified sha256 nodes roots).sha256 = (verified sha256 nodes' roots').sha256 := by
  have hperm := reordered_iff.mp hnodes
  have hkeys : ∀ nodes : List DependencyNode, (nodes.map DependencyNode.normal).map (·.key) = nodes.map (·.key) := by
    intro nodes
    simp [DependencyNode.normal]
  have hpairwise : ∀ nodes : List DependencyNode,
      ((nodes.insertionSort (·.key ≤ ·.key)).map DependencyNode.normal).Pairwise (·.key ≤ ·.key) := by
    intro nodes
    rw [List.pairwise_map]
    exact List.pairwise_insertionSort _ nodes
  have hsorted : ∀ nodes : List DependencyNode, ((nodes.insertionSort (·.key ≤ ·.key)).map DependencyNode.normal).Perm
      (nodes.map DependencyNode.normal) := fun nodes => (List.perm_insertionSort _ nodes).map _
  have hnormal : (nodes.insertionSort (·.key ≤ ·.key)).map DependencyNode.normal =
      (nodes'.insertionSort (·.key ≤ ·.key)).map DependencyNode.normal := by
    refine List.Perm.eq_of_pairwise ?_ (hpairwise nodes) (hpairwise nodes') (((hsorted nodes).trans hperm).trans (hsorted nodes').symm)
    intro a b ha hb hab hba
    have hdistinct' : ((nodes.map DependencyNode.normal).map (·.key)).Nodup := hkeys nodes ▸ hdistinct
    exact List.inj_on_of_nodup_map hdistinct' ((hsorted nodes).mem_iff.mp ha)
      (hperm.mem_iff.mpr ((hsorted nodes').mem_iff.mp hb)) (le_antisymm hab hba)
  have hrecords : (nodes.insertionSort (·.key ≤ ·.key)).map sortedRecord = (nodes'.insertionSort (·.key ≤ ·.key)).map sortedRecord := by
    rw [← List.forall₂_eq_eq_eq, List.forall₂_map_left_iff, List.forall₂_map_right_iff] at hnormal ⊢
    refine hnormal.imp fun node other h => ?_
    have hsame := sameRecord_iff.mpr h
    rw [sortedRecord, sortedRecord, sorted_eq_iff.mpr hsame.dependencies, hsame.integrity, hsame.key, hsame.sourceUrl]
  have hdocument : sortedDocument (verified sha256 nodes roots) = sortedDocument (verified sha256 nodes' roots') := by
    simp only [sortedDocument, verified, hrecords, sorted_eq_iff.mpr hroots]
  rw [dumps_verified, dumps_verified, hdocument]

end Accepted

/-- **A graph is accepted for what it is.** The answer is the closure check with its limits, it does not depend on any order, and the
digest names the graph up to order. -/
theorem dependency_graphs (urlsplit : String → Option Url.SplitUrl) (sha256 : String → String) : (∀ nodes roots allowedOrigins,
      (∃ graph, validateDependencyGraph urlsplit sha256 nodes roots allowedOrigins = .ok graph) ↔
        Valid urlsplit nodes roots allowedOrigins) ∧
    (∀ nodes nodes' roots roots' allowedOrigins, Reordered nodes nodes' → roots.Perm roots' →
      ((∃ graph, validateDependencyGraph urlsplit sha256 nodes roots allowedOrigins = .ok graph) ↔
        ∃ graph, validateDependencyGraph urlsplit sha256 nodes' roots' allowedOrigins = .ok graph) ∧
      ∀ graph graph', validateDependencyGraph urlsplit sha256 nodes roots allowedOrigins = .ok graph →
        validateDependencyGraph urlsplit sha256 nodes' roots' allowedOrigins = .ok graph' → graph.sha256 = graph'.sha256) ∧
    (Function.Injective sha256 → ∀ nodes nodes' roots roots' allowedOrigins allowedOrigins' graph graph',
      validateDependencyGraph urlsplit sha256 nodes roots allowedOrigins = .ok graph →
        validateDependencyGraph urlsplit sha256 nodes' roots' allowedOrigins' = .ok graph' → graph.sha256 = graph'.sha256 →
          Reordered nodes nodes' ∧ roots.Perm roots') := by
  have haccepts : ∀ nodes roots allowedOrigins,
      (∃ graph, validateDependencyGraph urlsplit sha256 nodes roots allowedOrigins = .ok graph) ↔
        Valid urlsplit nodes roots allowedOrigins := by
    intro nodes roots allowedOrigins
    simp only [validateDependencyGraph_ok]
    exact ⟨fun ⟨_, h, _⟩ => h, fun h => ⟨_, h, rfl⟩⟩
  refine ⟨haccepts, ?_, ?_⟩
  · intro nodes nodes' roots roots' allowedOrigins hnodes hroots
    constructor
    · rw [haccepts, haccepts]
      constructor
      · intro h
        exact h.reorder hnodes hroots
      · intro h
        exact h.reorder (reordered_iff.mpr (reordered_iff.mp hnodes).symm) hroots.symm
    · intro graph graph' h h'
      obtain ⟨hvalid, rfl⟩ := validateDependencyGraph_ok.mp h
      obtain ⟨-, rfl⟩ := validateDependencyGraph_ok.mp h'
      exact digest_reordered hvalid.distinctKeys hnodes hroots
  · intro hsha256 nodes nodes' roots roots' allowedOrigins allowedOrigins' graph graph' h h' hdigest
    obtain ⟨-, rfl⟩ := validateDependencyGraph_ok.mp h
    obtain ⟨-, rfl⟩ := validateDependencyGraph_ok.mp h'
    exact digest_inj hsha256 hdigest

/-- A package and one that it depends on; both hold nothing. -/
def pairNodes : List DependencyNode :=
  [⟨"a@1", "https://registry/a.tgz", "sha256-47DEQpj8HBSa+/TImW+5JCeuQeRkm5NMpJWZG3hSuFU=", ["b@1"]⟩,
    ⟨"b@1", "https://registry/b.tgz", "sha256-47DEQpj8HBSa+/TImW+5JCeuQeRkm5NMpJWZG3hSuFU=", []⟩]

def registrySplit (url : String) : Option Url.SplitUrl :=
  let path := if url = "https://registry" then "" else if url = "https://registry/a.tgz" then "/a.tgz" else "/b.tgz"
  some { scheme := "https", netloc := "registry", hostname := some "registry", path }

theorem pairNodes_valid : Valid registrySplit pairNodes ["a@1"] ["https://registry"] := by
  cases hloop : pairNodes.foldlM (consume registrySplit ["https://registry"]) {} with
  | error e =>
    have hok : (pairNodes.foldlM (consume registrySplit ["https://registry"]) {}).isOk = true := by decide +kernel
    rw [hloop] at hok
    cases hok
  | ok c =>
    obtain ⟨-, hwithin, hrecords, hdistinct, -⟩ := consume_all.mp hloop
    have hall := hwithin (List.cons_ne_nil _ _)
    have hedge : Edge pairNodes "a@1" "b@1" := ⟨_, List.mem_cons_self, rfl, List.mem_cons_self⟩
    refine ⟨by decide, by decide, by decide +kernel, by decide, by decide, by decide +kernel, hall.nodes, (Nat.zero_add _).symm.trans_le hall.edges,
      (Nat.zero_add _).symm.trans_le hall.bytes, hdistinct, hrecords, by simp [pairNodes], by simp [Edge, pairNodes], ?_⟩
    simp only [pairNodes, List.forall_mem_cons, List.mem_singleton, exists_eq_left]
    refine ⟨.refl, ?_⟩
    rintro _ rfl
    exact .single hedge

theorem dependency_graphs_pair : ∃ graph graph', validateDependencyGraph registrySplit id pairNodes ["a@1"] ["https://registry"] = .ok graph ∧
    validateDependencyGraph registrySplit id pairNodes.reverse ["a@1"] ["https://registry"] = .ok graph' ∧ graph.sha256 = graph'.sha256 ∧
      Reordered pairNodes pairNodes.reverse := by
  obtain ⟨haccepts, hreorders, hdigests⟩ := dependency_graphs registrySplit id
  have hreordered : Reordered pairNodes pairNodes.reverse :=
    reordered_iff.mpr ((List.reverse_perm pairNodes).symm.map DependencyNode.normal)
  obtain ⟨hboth, hdigest⟩ := hreorders _ _ ["a@1"] _ ["https://registry"] hreordered (.refl _)
  obtain ⟨graph, hgraph⟩ := (haccepts _ _ _).mpr pairNodes_valid
  obtain ⟨graph', hgraph'⟩ := hboth.mp ⟨graph, hgraph⟩
  have hsame : graph.sha256 = graph'.sha256 := hdigest _ _ hgraph hgraph'
  exact ⟨graph, graph', hgraph, hgraph', hsame, (hdigests Function.injective_id _ _ _ _ _ _ _ _ hgraph hgraph' hsame).1⟩

end LingshuGate.OfflineBuild
