import LingshuGate.Runtime.ToolRecords

/-!
# Whose tool an id names (`mcp_runtime.py`, `registry.py`)

| here | there |
| --- | --- |
| `serverIdPattern`  | `MCP_SERVER_ID_PATTERN` (mcp_manifest.py:23) |
| `toolId`           | `f"mcp.{manifest.id}.{normalized_name}"` (mcp_runtime.py:1357) |
| `Origin.start`     | `_register_mcp_tools` (1222): `_mcp_tool_records`, then `replace_by_metadata` |
| `Reached`          | the registries after any starts, refreshes and stops |

A server id may have dots in it (`MCP_SERVER_ID_PATTERN`), and a name is whatever the server says. So the id
`mcp.git.hub.list` is the tool `hub.list` of `git` and the tool `list` of `git.hub`: `toolId_eq`. The registry
refuses the second of the two servers that publishes it, and then every other tool of that server with it.
-/

namespace LingshuGate.Manifests

/-- `^[a-zA-Z0-9_.-]+$`, of servers and of slots. -/
def serverIdPattern (s : String) : Bool := s ≠ "" && s.toList.all Lib.Py.idChar

end LingshuGate.Manifests

namespace LingshuGate.Runtime

open Lib Groups

def toolId (serverId name : String) : String := "mcp." ++ serverId ++ "." ++ name

/-! ## The names of the records -/

variable {admits : Tool → Bool} {o o' : Origin} {strict strict' : Bool}

/-- A server of this id can have a tool of this name. -/
def Offers (admits : Tool → Bool) (serverId name : String) : Prop :=
  ∃ o : Origin, o.serverId = serverId ∧ ∃ strict tool, toolName tool = some name ∧ (describe o admits strict name tool).isSome

theorem describe_some {name : String} {tool : Json} {t : Tool} (h : describe o admits strict name tool = some t) :
    t.id = toolId o.serverId name ∧ ofServer o.serverId t = true ∧ admits t = true := by
  unfold describe at h
  obtain ⟨schema, -, h⟩ := Option.bind_eq_some_iff.mp h
  obtain ⟨annotations, -, h⟩ := Option.bind_eq_some_iff.mp h
  obtain ⟨output, -, h⟩ := Option.bind_eq_some_iff.mp h
  obtain ⟨title, -, h⟩ := Option.bind_eq_some_iff.mp h
  obtain ⟨description, -, h⟩ := Option.bind_eq_some_iff.mp h
  simp only at h
  split at h
  · next hadmits =>
    obtain rfl := Option.some.inj h
    exact ⟨rfl, by simp [ofServer, Tool.serverId, Tool.text?, Tool.meta?, Json.get?], hadmits⟩
  · cases h

/-- The records of a server: every id is the server's with a name that it offers. -/
structure RecordsOf (admits : Tool → Bool) (serverId : String) (records : List Tool) : Prop where
  named : ∀ t ∈ records, ∃ name, t.id = toolId serverId name ∧ Offers admits serverId name
  ofServer : ∀ t ∈ records, ofServer serverId t = true

theorem readTool_recordsOf {r r' : Reading} {tool : Json} (h : readTool o admits strict r tool = some r')
    (hr : RecordsOf admits o.serverId r.records) : RecordsOf admits o.serverId r'.records := by
  unfold readTool at h
  split at h
  · split at h
    · cases h
    · obtain rfl := Option.some.inj h
      exact hr
  rename_i name hname
  obtain ⟨records, hforget, h⟩ := Option.bind_eq_some_iff.mp h
  obtain ⟨definition, hdefinition, h⟩ := Option.bind_eq_some_iff.mp h
  obtain rfl := Option.some.inj h
  have hkept : ∀ t ∈ records, t ∈ r.records := by
    unfold Reading.forget at hforget
    split at hforget
    · split at hforget
      · cases hforget
      · obtain rfl := Option.some.inj hforget
        exact fun t ht => List.mem_of_mem_filter ht
    · obtain rfl := Option.some.inj hforget
      exact fun t ht => ht
  obtain ⟨hid, hserver, -⟩ := describe_some hdefinition
  constructor
  · intro t ht
    rcases List.mem_append.mp ht with hold | hnew
    · exact hr.named t (hkept t hold)
    · obtain rfl := List.mem_singleton.mp hnew
      exact ⟨name, hid, o, rfl, strict, tool, hname, by rw [hdefinition]; rfl⟩
  · intro t ht
    rcases List.mem_append.mp ht with hold | hnew
    · exact hr.ofServer t (hkept t hold)
    · obtain rfl := List.mem_singleton.mp hnew
      exact hserver

theorem recordsOf {tools : List Json} {records : List Tool} (h : mcpToolRecords o admits strict tools = some records) :
    RecordsOf admits o.serverId records := by
  unfold mcpToolRecords at h
  obtain ⟨r, hr, rfl⟩ := Option.map_eq_some_iff.mp h
  suffices hall : ∀ (tools : List Json) (r₀ : Reading), tools.foldlM (readTool o admits strict) r₀ = some r →
      RecordsOf admits o.serverId r₀.records → RecordsOf admits o.serverId r.records from hall tools {} hr ⟨nofun, nofun⟩
  intro tools
  induction tools with
  | nil =>
    intro r₀ h hr₀
    obtain rfl := Option.some.inj h
    exact hr₀
  | cons tool tools ih =>
    intro r₀ h hr₀
    rw [List.foldlM_cons] at h
    obtain ⟨r₁, hstep, h⟩ := Option.bind_eq_some_iff.mp h
    exact ih r₁ h (readTool_recordsOf hstep hr₀)

/-- A tool that a server offers is a list of its own. -/
theorem single_record {name : String} {tool : Json} {t : Tool} (hname : toolName tool = some name)
    (h : describe o admits strict name tool = some t) : mcpToolRecords o admits strict [tool] = some [t] := by
  have hforget : Reading.forget strict {} name = some [] := rfl
  simp [mcpToolRecords, readTool, hname, hforget, h]

/-! ## When two ids are one -/

/-- An id is split at any of its dots. -/
theorem toolId_eq {a b n m : String} : toolId a n = toolId b m ↔ (a = b ∧ n = m) ∨
    (∃ rest, b = a ++ "." ++ rest ∧ n = rest ++ "." ++ m) ∨ ∃ rest, a = b ++ "." ++ rest ∧ m = rest ++ "." ++ n := by
  have hchars : toolId a n = toolId b m ↔ a.toList ++ '.' :: n.toList = b.toList ++ '.' :: m.toList := by
    rw [← String.toList_inj]
    simp [toolId]
  have hjoin {a b rest : String} : b = a ++ "." ++ rest ↔ b.toList = a.toList ++ '.' :: rest.toList := by
    rw [← String.toList_inj]
    simp
  rw [hchars, List.append_eq_append_iff]
  constructor
  · rintro (⟨c, hb, hn⟩ | ⟨c, ha, hm⟩)
    · cases c with
      | nil =>
        rw [List.append_nil] at hb
        exact .inl ⟨(String.toList_inj.mp hb).symm, String.toList_inj.mp (List.cons.inj hn).2⟩
      | cons d c =>
        obtain ⟨rfl, hn'⟩ := List.cons.inj hn
        refine .inr (.inl ⟨String.ofList c, hjoin.mpr ?_, hjoin.mpr ?_⟩)
        · rw [hb, String.toList_ofList]
        · rw [hn', String.toList_ofList]
          rfl
    cases c with
    | nil =>
      rw [List.append_nil] at ha
      exact .inl ⟨String.toList_inj.mp ha, (String.toList_inj.mp (List.cons.inj hm).2).symm⟩
    | cons d c =>
      obtain ⟨rfl, hm'⟩ := List.cons.inj hm
      refine .inr (.inr ⟨String.ofList c, hjoin.mpr ?_, hjoin.mpr ?_⟩)
      · rw [ha, String.toList_ofList]
      · rw [hm', String.toList_ofList]
        rfl
  · rintro (⟨rfl, rfl⟩ | ⟨rest, hb, hn⟩ | ⟨rest, ha, hm⟩)
    · exact .inl ⟨[], by simp⟩
    · exact .inl ⟨'.' :: rest.toList, hjoin.mp hb, by rw [hjoin.mp hn]; rfl⟩
    · exact .inr ⟨'.' :: rest.toList, hjoin.mp ha, by rw [hjoin.mp hm]; rfl⟩

/-- The id of the second server goes on with a dot where the first one's ends, and each can have a tool of the one id. -/
def Continues (admits : Tool → Bool) (a b : String) : Prop :=
  ∃ rest name, b = a ++ "." ++ rest ∧ Offers admits a (rest ++ "." ++ name) ∧ Offers admits b name

theorem ids_apart {a b : String} (hne : a ≠ b) (hab : ¬Continues admits a b) (hba : ¬Continues admits b a) {records records' : List Tool}
    (h : RecordsOf admits a records) (h' : RecordsOf admits b records') {t t' : Tool} (ht : t ∈ records) (ht' : t' ∈ records') :
    t.id ≠ t'.id := by
  obtain ⟨n, hid, hn⟩ := h.named t ht
  obtain ⟨m, hid', hm⟩ := h'.named t' ht'
  rw [hid, hid']
  intro heq
  rcases toolId_eq.mp heq with ⟨rfl, -⟩ | ⟨rest, hb, rfl⟩ | ⟨rest, ha, rfl⟩
  · exact hne rfl
  · exact hab ⟨rest, m, hb, hn, hm⟩
  · exact hba ⟨rest, n, ha, hm, hn⟩

/-! ## The registry over a run -/

/-- A start or a refresh of the server with what it listed; what is refused leaves the registry as it is. -/
def Origin.start (o : Origin) (admits : Tool → Bool) (strict : Bool) (tools : List Json) (reg : Registry) : Option Registry :=
  (mcpToolRecords o admits strict tools).bind (reg.replace admits o.serverId)

def Origin.attempt (o : Origin) (admits : Tool → Bool) (strict : Bool) (tools : List Json) (reg : Registry) : Registry :=
  (o.start admits strict tools reg).getD reg

/-- The registries of the application: what it registers itself, and servers that start, are refreshed and stop. -/
inductive Reached (admits : Tool → Bool) : Registry → Prop
  | empty : Reached admits {}
  | builtin {reg reg' : Registry} {t : Tool} : Reached admits reg → t.source ≠ "mcp" → reg.register admits t = some reg' → Reached admits reg'
  | start {reg reg' : Registry} (o : Origin) (strict : Bool) (tools : List Json) :
      Reached admits reg → o.start admits strict tools reg = some reg' → Reached admits reg'
  | stop {reg : Registry} (serverId : String) : Reached admits reg → Reached admits (reg.unregister serverId)

namespace Registry

variable {reg reg' : Registry} {serverId : String} {records : List Tool}

/-- What the registry knows of a server, online or not, are names that a server of this id offers. -/
def Published (admits : Tool → Bool) (reg : Registry) : Prop :=
  ∀ t ∈ reg.tools ++ reg.unavailable, ∀ serverId, Runtime.ofServer serverId t = true → ∃ name, t.id = toolId serverId name ∧ Offers admits serverId name

theorem published_register {t : Tool} (hreg : reg.Published admits) (ht : t.source ≠ "mcp") (h : reg.register admits t = some reg') :
    reg'.Published admits := by
  unfold register at h
  split at h
  · obtain rfl := Option.some.inj h
    intro t' ht'
    simp only [List.mem_append, List.mem_singleton, List.mem_filter] at ht'
    rcases ht' with (hold | rfl) | ⟨hold, -⟩
    · exact hreg t' (List.mem_append_left _ hold)
    · intro serverId hserver
      simp [Runtime.ofServer, ht] at hserver
    · exact hreg t' (List.mem_append_right _ hold)
  · cases h

theorem replace_some (h : reg.replace admits serverId records = some reg') :
    reg' = ⟨reg.tools.filter (fun t => !Runtime.ofServer serverId t) ++ records, reg.unavailable.filter fun t => !Runtime.ofServer serverId t⟩ := by
  unfold replace at h
  split at h
  · exact (Option.some.inj h).symm
  · cases h

theorem published_replace (hreg : reg.Published admits) (hrecords : RecordsOf admits serverId records)
    (h : reg.replace admits serverId records = some reg') : reg'.Published admits := by
  obtain rfl := replace_some h
  intro t ht
  simp only [List.mem_append, List.mem_filter] at ht
  rcases ht with (⟨hold, -⟩ | hnew) | ⟨hold, -⟩
  · exact hreg t (List.mem_append_left _ hold)
  · intro other hother
    have heq : other = serverId := by
      by_contra hne
      have hfalse := ofServer_other hne (hrecords.ofServer t hnew)
      rw [hother] at hfalse
      cases hfalse
    exact heq ▸ hrecords.named t hnew
  · exact hreg t (List.mem_append_right _ hold)

theorem published_unregister (hreg : reg.Published admits) (serverId : String) : (reg.unregister serverId).Published admits := by
  intro t ht
  simp only [unregister, toolsOf, List.mem_append, List.mem_filter] at ht
  rcases ht with ⟨hold, -⟩ | ⟨hold, -⟩ | ⟨hold, -⟩
  · exact hreg t (List.mem_append_left _ hold)
  · exact hreg t (List.mem_append_right _ hold)
  · exact hreg t (List.mem_append_left _ hold)

end Registry

variable {reg : Registry}

theorem Reached.published (h : Reached admits reg) : reg.Published admits := by
  induction h with
  | empty => exact nofun
  | builtin _ hsource hregister ih => exact Registry.published_register ih hsource hregister
  | start o strict tools _ hstart ih =>
    obtain ⟨records, hrecords, hreplace⟩ := Option.bind_eq_some_iff.mp hstart
    exact Registry.published_replace ih (recordsOf hrecords) hreplace
  | stop serverId _ ih => exact Registry.published_unregister ih serverId

/-! ## Two servers -/

/-- A tool that is to be published for `a` has the id of a tool of `b`. -/
def Registry.conflictsWith (reg : Registry) (b : String) (records : List Tool) : Prop :=
  ∃ t ∈ records, ∃ t' ∈ reg.tools ++ reg.unavailable, ofServer b t' = true ∧ t'.id = t.id

/-- The two registries are one up to the order of the tools. -/
structure Registry.Same (reg reg' : Registry) : Prop where
  tools : reg.tools.Perm reg'.tools
  unavailable : reg.unavailable.Perm reg'.unavailable

/-- Servers of these ids never come between each other. -/
structure KeptApart (admits : Tool → Bool) (a b : String) : Prop where
  disjoint : ∀ o o' : Origin, o.serverId = a → o'.serverId = b → ∀ strict strict' tools tools' records records',
    mcpToolRecords o admits strict tools = some records → mcpToolRecords o' admits strict' tools' = some records' →
      List.Disjoint (Registry.ids records) (Registry.ids records')
  no_conflict : ∀ reg, Reached admits reg → ∀ o : Origin, o.serverId = a → ∀ strict tools records,
    mcpToolRecords o admits strict tools = some records → ¬reg.conflictsWith b records
  any_order : ∀ reg, Reached admits reg → ∀ o o' : Origin, o.serverId = a → o'.serverId = b → ∀ strict strict' tools tools',
    ((o.start admits strict tools (o'.attempt admits strict' tools' reg)).isSome = (o.start admits strict tools reg).isSome) ∧
    ((o'.start admits strict' tools' (o.attempt admits strict tools reg)).isSome = (o'.start admits strict' tools' reg).isSome) ∧
    (o.attempt admits strict tools (o'.attempt admits strict' tools' reg)).Same (o'.attempt admits strict' tools' (o.attempt admits strict tools reg))

theorem start_some {strict : Bool} {tools : List Json} {reg reg' : Registry} : o.start admits strict tools reg = some reg' ↔
      ∃ records, mcpToolRecords o admits strict tools = some records ∧ reg.replace admits o.serverId records = some reg' :=
  Option.bind_eq_some_iff

namespace Registry

variable {reg reg' : Registry} {a b : String} {records records' : List Tool}

theorem conflicts_iff : reg.conflicts a records = true ↔
    ∃ t ∈ records, ∃ t' ∈ reg.tools ++ reg.unavailable, t'.id = t.id ∧ Runtime.ofServer a t' = false := by
  simp [conflicts, or_and_right, exists_or]

/-- What another server publishes decides nothing, where the ids are apart. -/
theorem conflicts_replace_other (h : reg.replace admits b records' = some reg') (hold : ¬reg.conflictsWith b records) (hnew : ∀ t ∈ records, ∀ t' ∈ records', t.id ≠ t'.id) :
    reg'.conflicts a records = reg.conflicts a records := by
  obtain rfl := replace_some h
  rw [Bool.eq_iff_iff, conflicts_iff, conflicts_iff]
  constructor
  · rintro ⟨t, ht, t', ht', hid, hother⟩
    simp only [List.mem_append, List.mem_filter] at ht'
    rcases ht' with (⟨hmem, -⟩ | hmem) | ⟨hmem, -⟩
    · exact ⟨t, ht, t', List.mem_append_left _ hmem, hid, hother⟩
    · exact (hnew t ht t' hmem hid.symm).elim
    · exact ⟨t, ht, t', List.mem_append_right _ hmem, hid, hother⟩
  rintro ⟨t, ht, t', ht', hid, hother⟩
  have hb : Runtime.ofServer b t' = false := by
    by_contra hb
    exact hold ⟨t, ht, t', ht', by simpa using hb, hid⟩
  refine ⟨t, ht, t', ?_, hid, hother⟩
  simp only [List.mem_append, List.mem_filter]
  rcases List.mem_append.mp ht' with hmem | hmem
  · exact .inl (.inl ⟨hmem, by rw [hb]; rfl⟩)
  · exact .inr ⟨hmem, by rw [hb]; rfl⟩

theorem replace_isSome : (reg.replace admits a records).isSome = (replaceable admits a records && !reg.conflicts a records) := by
  unfold replace
  split
  · next h => rw [h]; rfl
  · next h => simp only [Bool.not_eq_true] at h; rw [h]; rfl

theorem Same.refl (reg : Registry) : reg.Same reg := ⟨.refl _, .refl _⟩

/-- Each replaces its own tools only. -/
theorem same_replace (hne : a ≠ b) (hrecords : ∀ t ∈ records, Runtime.ofServer a t = true) (hrecords' : ∀ t ∈ records', Runtime.ofServer b t = true)
    {reg₁ reg₂ reg₁₂ reg₂₁ : Registry} (h₁ : reg.replace admits a records = some reg₁) (h₁₂ : reg₁.replace admits b records' = some reg₁₂)
    (h₂ : reg.replace admits b records' = some reg₂) (h₂₁ : reg₂.replace admits a records = some reg₂₁) : reg₂₁.Same reg₁₂ := by
  obtain rfl := replace_some h₁
  obtain rfl := replace_some h₂
  obtain rfl := replace_some h₁₂
  obtain rfl := replace_some h₂₁
  have hkeepA : records.filter (fun t => !Runtime.ofServer b t) = records :=
    List.filter_eq_self.mpr fun t ht => by rw [ofServer_other hne.symm (hrecords t ht)]; rfl
  have hkeepB : records'.filter (fun t => !Runtime.ofServer a t) = records' :=
    List.filter_eq_self.mpr fun t ht => by rw [ofServer_other hne (hrecords' t ht)]; rfl
  constructor
  · simp only [List.filter_append, hkeepA, hkeepB, List.append_assoc]
    rw [List.filter_comm]
    exact List.Perm.append_left _ List.perm_append_comm
  · simp only
    rw [List.filter_comm]

end Registry

section Apart

variable {a b : String} (hne : a ≠ b) (hab : ¬Continues admits a b) (hba : ¬Continues admits b a)

include hne hab hba in
theorem not_conflictsWith (hreg : Reached admits reg) {records : List Tool} (h : RecordsOf admits a records) :
    ¬reg.conflictsWith b records := by
  rintro ⟨t, ht, t', ht', hserver, hid⟩
  have hb : RecordsOf admits b [t'] := by
    constructor
    · intro u hu
      obtain rfl := List.mem_singleton.mp hu
      exact hreg.published u ht' b hserver
    · intro u hu
      obtain rfl := List.mem_singleton.mp hu
      exact hserver
  exact ids_apart hne hab hba h hb ht (List.mem_singleton_self t') hid.symm

include hne hab hba in
theorem start_after (hreg : Reached admits reg) (ha : o.serverId = a) (hb : o'.serverId = b) (tools tools' : List Json) :
    (o.start admits strict tools (o'.attempt admits strict' tools' reg)).isSome = (o.start admits strict tools reg).isSome := by
  unfold Origin.attempt
  cases hother : o'.start admits strict' tools' reg with
  | none => rfl
  | some reg' =>
    obtain ⟨records', hrecords', hreplace⟩ := start_some.mp hother
    unfold Origin.start
    cases hrecords : mcpToolRecords o admits strict tools with
    | none => rfl
    | some records =>
      have hR : RecordsOf admits a records := ha ▸ recordsOf hrecords
      have hR' : RecordsOf admits b records' := hb ▸ recordsOf hrecords'
      show (reg'.replace admits o.serverId records).isSome = (reg.replace admits o.serverId records).isSome
      rw [hb] at hreplace
      rw [Registry.replace_isSome, Registry.replace_isSome, Registry.conflicts_replace_other hreplace
        (not_conflictsWith hne hab hba hreg hR) fun t ht t' ht' => ids_apart hne hab hba hR hR' ht ht']

include hne hab hba in
theorem same_attempts (hreg : Reached admits reg) (ha : o.serverId = a) (hb : o'.serverId = b) (tools tools' : List Json) :
    (o.attempt admits strict tools (o'.attempt admits strict' tools' reg)).Same (o'.attempt admits strict' tools' (o.attempt admits strict tools reg)) := by
  have hfirst : (o.start admits strict tools (o'.attempt admits strict' tools' reg)).isSome = (o.start admits strict tools reg).isSome :=
    start_after hne hab hba hreg ha hb tools tools'
  have hsecond : (o'.start admits strict' tools' (o.attempt admits strict tools reg)).isSome = (o'.start admits strict' tools' reg).isSome :=
    start_after hne.symm hba hab hreg hb ha tools' tools
  -- either start goes through or is refused whatever the other does
  cases h₁ : o.start admits strict tools reg with
  | none =>
    rw [h₁] at hfirst
    have hnone := Option.isSome_eq_false_iff.mp hfirst
    have hleft : o.attempt admits strict tools (o'.attempt admits strict' tools' reg) = o'.attempt admits strict' tools' reg := by
      rw [Origin.attempt, Option.isNone_iff_eq_none.mp hnone]
      rfl
    have hright : o.attempt admits strict tools reg = reg := by
      rw [Origin.attempt, h₁]
      rfl
    rw [hleft, hright]
    exact .refl _
  | some reg₁ =>
    cases h₂ : o'.start admits strict' tools' reg with
    | none =>
      rw [h₂] at hsecond
      have hnone := Option.isSome_eq_false_iff.mp hsecond
      have hright : o'.attempt admits strict' tools' (o.attempt admits strict tools reg) = o.attempt admits strict tools reg := by
        rw [Origin.attempt, Option.isNone_iff_eq_none.mp hnone]
        rfl
      have hleft : o'.attempt admits strict' tools' reg = reg := by
        rw [Origin.attempt, h₂]
        rfl
      rw [hleft, hright]
      exact .refl _
    | some reg₂ =>
      have hleft : o'.attempt admits strict' tools' reg = reg₂ := by
        rw [Origin.attempt, h₂]
        rfl
      have hright : o.attempt admits strict tools reg = reg₁ := by
        rw [Origin.attempt, h₁]
        rfl
      rw [hleft, h₁] at hfirst
      rw [hright, h₂] at hsecond
      obtain ⟨reg₂₁, h₂₁⟩ := Option.isSome_iff_exists.mp hfirst
      obtain ⟨reg₁₂, h₁₂⟩ := Option.isSome_iff_exists.mp hsecond
      rw [hleft, hright, Origin.attempt, Origin.attempt, h₂₁, h₁₂]
      obtain ⟨records, hrecords, hr₁⟩ := start_some.mp h₁
      obtain ⟨records', hrecords', hr₂⟩ := start_some.mp h₂
      obtain ⟨_, hrecords₂₁, hr₂₁⟩ := start_some.mp h₂₁
      obtain ⟨_, hrecords₁₂, hr₁₂⟩ := start_some.mp h₁₂
      obtain rfl := Option.some.inj (hrecords.symm.trans hrecords₂₁)
      obtain rfl := Option.some.inj (hrecords'.symm.trans hrecords₁₂)
      have hservers : o.serverId ≠ o'.serverId := by
        rw [ha, hb]
        exact hne
      exact Registry.same_replace hservers (recordsOf hrecords).ofServer (recordsOf hrecords').ofServer hr₁ hr₁₂ hr₂ hr₂₁

end Apart

/-- **Servers of two ids never come between each other unless one id goes on with a dot where the other ends.** Where it does, the rest
of the longer id before a name of its server is a name for the other one, and both tools have one id. -/
theorem kept_apart_iff (admits : Tool → Bool) {a b : String} (hne : a ≠ b) :
    KeptApart admits a b ↔ ¬Continues admits a b ∧ ¬Continues admits b a := by
  constructor
  · intro h
    have hclash {n m : String} (hid : toolId a n = toolId b m) (hn : Offers admits a n) (hm : Offers admits b m) : False := by
      obtain ⟨o, ha, strict, tool, hname, hdescribe⟩ := hn
      obtain ⟨o', hb, strict', tool', hname', hdescribe'⟩ := hm
      obtain ⟨t, ht⟩ := Option.isSome_iff_exists.mp hdescribe
      obtain ⟨t', ht'⟩ := Option.isSome_iff_exists.mp hdescribe'
      have hsame : t.id = t'.id := by
        rw [(describe_some ht).1, (describe_some ht').1, ha, hb]
        exact hid
      exact h.disjoint o o' ha hb strict strict' [tool] [tool'] [t] [t'] (single_record hname ht) (single_record hname' ht')
        (List.mem_singleton_self t.id) (List.mem_singleton.mpr hsame)
    constructor
    · rintro ⟨rest, name, hb, hn, hm⟩
      exact hclash (toolId_eq.mpr (.inr (.inl ⟨rest, hb, rfl⟩))) hn hm
    · rintro ⟨rest, name, ha, hm, hn⟩
      exact hclash (toolId_eq.mpr (.inr (.inr ⟨rest, ha, rfl⟩))) hn hm
  rintro ⟨hab, hba⟩
  constructor
  · intro o o' ha hb strict strict' tools tools' records records' h h' id hid hid'
    obtain ⟨t, ht, rfl⟩ := List.mem_map.mp hid
    obtain ⟨t', ht', heq⟩ := List.mem_map.mp hid'
    exact ids_apart hne hab hba (ha ▸ recordsOf h) (hb ▸ recordsOf h') ht ht' heq.symm
  · intro reg hreg o ha strict tools records h
    exact not_conflictsWith hne hab hba hreg (ha ▸ recordsOf h)
  · intro reg hreg o o' ha hb strict strict' tools tools'
    exact ⟨start_after hne hab hba hreg ha hb tools tools', start_after hne.symm hba hab hreg hb ha tools' tools,
      same_attempts hne hab hba hreg ha hb tools tools'⟩

theorem kept_apart_git_files : "git" ≠ "files" ∧ KeptApart (fun _ => true) "git" "files" := by
  refine ⟨by decide, (kept_apart_iff (fun _ => true) (by decide)).mpr ⟨?_, ?_⟩⟩
  · rintro ⟨rest, name, hid, -⟩
    have hchars := congrArg String.toList hid
    simp at hchars
  · rintro ⟨rest, name, hid, -⟩
    have hchars := congrArg String.toList hid
    simp at hchars

def gitOrigin (serverId : String) : Origin := ⟨serverId, serverId, "external", "streamable_http", "read"⟩

/-- Two accepted ids, and one tool of each server. Whichever server is the second to start is refused. -/
theorem git_hub_conflict : let github (name : String) : List Json := [.obj [("name", .str name)]]
    let started (o : Origin) (name : String) (reg : Registry) := o.start (fun _ => true) true (github name) reg
    Manifests.serverIdPattern "git" = true ∧ Manifests.serverIdPattern "git.hub" = true ∧
    (started (gitOrigin "git") "hub.list" {}).isSome = true ∧ (started (gitOrigin "git.hub") "list" {}).isSome = true ∧
    ((started (gitOrigin "git") "hub.list" {}).bind (started (gitOrigin "git.hub") "list")).isSome = false ∧
    ((started (gitOrigin "git.hub") "list" {}).bind (started (gitOrigin "git") "hub.list")).isSome = false ∧
    ¬KeptApart (fun _ => true) "git" "git.hub" := by
  refine ⟨by decide +kernel, by decide +kernel, by decide +kernel, by decide +kernel, by decide +kernel, by decide +kernel, ?_⟩
  intro h
  obtain ⟨t, ht⟩ := Option.isSome_iff_exists.mp
    (show (mcpToolRecords (gitOrigin "git") (fun _ => true) true [.obj [("name", .str "hub.list")]]).isSome from by decide +kernel)
  obtain ⟨t', ht'⟩ := Option.isSome_iff_exists.mp
    (show (mcpToolRecords (gitOrigin "git.hub") (fun _ => true) true [.obj [("name", .str "list")]]).isSome from by decide +kernel)
  have hid : Registry.ids t = ["mcp.git.hub.list"] := by
    have hids : (mcpToolRecords (gitOrigin "git") (fun _ => true) true [.obj [("name", .str "hub.list")]]).map Registry.ids =
      some ["mcp.git.hub.list"] := by decide +kernel
    rw [ht] at hids
    exact Option.some.inj hids
  have hid' : Registry.ids t' = ["mcp.git.hub.list"] := by
    have hids : (mcpToolRecords (gitOrigin "git.hub") (fun _ => true) true [.obj [("name", .str "list")]]).map Registry.ids =
      some ["mcp.git.hub.list"] := by decide +kernel
    rw [ht'] at hids
    exact Option.some.inj hids
  have hdisjoint := h.disjoint _ _ rfl rfl true true _ _ t t' ht ht'
  rw [hid, hid'] at hdisjoint
  exact hdisjoint (List.mem_singleton_self _) (List.mem_singleton_self _)

end LingshuGate.Runtime
