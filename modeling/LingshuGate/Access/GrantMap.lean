import LingshuGate.Lib.Batches
import LingshuGate.Lib.Dict
import LingshuGate.Access.Catalog

/-!
# Grants of many tools in one read (`access_control.py`)

| here | there |
| --- | --- |
| `grantRows`          | the `SELECT` of one batch (access_control.py:1665-1683) |
| `Gathered.row`       | the body of the loop over its rows (access_control.py:1684-1690) |
| `gather`             | the loop over the batches (access_control.py:1659-1690) |
| `resolve`            | one key of the second loop (access_control.py:1692-1708) |
| `effectiveAccessMap` | `_effective_access_map` (access_control.py:1650) |

`reference` says what the function is for: the user's own grant on the tool, else on the server, else the highest of its
roles, each of which has its grant on the tool, else on the server. The rows of a `SELECT` and the elements of the set
`role_ids` come in any order (`Reading`); a call reads one database at one instant.
-/

namespace LingshuGate.AccessControl

open Lib

/-! ## The code -/

abbrev GrantKey := SubjectType × String × String × String

/-- The joined rows of the servers of a batch. -/
def grantRows (db : AccessDb) (userId : String) (batch : List String) : List (ResourceGrant × Access) :=
  (db.resourceGrants.filter fun g => g.appliesTo db userId && batch.contains g.serverId).filterMap fun g =>
    (permissionLevel db g.permissionTypeId).map fun level => (g, level)

/-- `grants` and `role_ids`. -/
structure Gathered where
  grants : Dict GrantKey Access := ∅
  roleIds : List String := []

def Gathered.row (now : Int) (acc : Gathered) (row : ResourceGrant × Access) : Gathered :=
  if row.1.expiresAt.isExpired now then acc
  else
    { grants := acc.grants.set row.1.key row.2
      roleIds := if row.1.subjectType = .role then acc.roleIds.insert row.1.subjectId else acc.roleIds }

/-- The orders of one call: of the rows of a `SELECT`, and of `role_ids`. -/
structure Reading where
  rows : Order (ResourceGrant × Access)
  roles : Order String

def gather (o : Reading) (db : AccessDb) (now : Int) (userId : String) (serverIds : List String) : Gathered :=
  (batches 250 serverIds).foldl
    (fun acc batch => (o.rows.of (grantRows db userId batch)).foldl (Gathered.row now) acc) {}

/-- What a role holds: its grant on the tool, else the one on the server. -/
def Gathered.role (acc : Gathered) (key : String × String) (roleId : String) : Option Access :=
  (acc.grants.get (.role, roleId, key.1, key.2)).or (acc.grants.get (.role, roleId, key.1, ""))

def resolve (o : Reading) (acc : Gathered) (userId : String) (key : String × String) : Access :=
  match (acc.grants.get (.user, userId, key.1, key.2)).or (acc.grants.get (.user, userId, key.1, "")) with
  | some direct => direct
  | none => maxLevel ((o.roles.of acc.roleIds).filterMap (acc.role key))

/-- `_effective_access_map`. -/
def effectiveAccessMap (o : Reading) (db : AccessDb) (now : Int) (p : AuthPrincipal) (toolKeys : List (String × String)) :
    Dict (String × String) Access :=
  let keys := (Dict.fromKeys toolKeys ()).keys
  if p.isAdmin then Dict.fromKeys keys .write
  else
    let serverIds := ((keys.map Prod.fst).dedup).insertionSort (· ≤ ·)
    let gathered := gather o db now p.id serverIds
    keys.foldl (fun result key => result.set key (resolve o gathered p.id key)) ∅

/-! ## What it is for -/

/-- The unexpired grant of a subject on a resource, of an enabled permission type. -/
def grantOn (db : AccessDb) (now : Int) (subjectType : SubjectType) (subjectId serverId toolId : String) : Option Access :=
  (db.resourceGrants.find? fun g => g.key = (subjectType, subjectId, serverId, toolId)).bind fun g =>
    if g.expiresAt.isExpired now then none else permissionLevel db g.permissionTypeId

/-- A role's grant on the tool, else on the server. -/
def roleGrantOn (db : AccessDb) (now : Int) (serverId toolId roleId : String) : Option Access :=
  (grantOn db now .role roleId serverId toolId).or (grantOn db now .role roleId serverId "")

/-- A role's grant on the tool, else on the server, else none. -/
def roleLevel (db : AccessDb) (now : Int) (serverId toolId roleId : String) : Access :=
  (roleGrantOn db now serverId toolId roleId).getD .none

/-- The maximum by rank; `none` of no levels. -/
def highest (levels : List Access) : Access := levels.foldr (fun a b => if b.rank < a.rank then a else b) .none

def reference (db : AccessDb) (now : Int) (p : AuthPrincipal) (serverId toolId : String) : Access :=
  match grantOn db now .user p.id serverId toolId with
  | some level => level
  | none =>
    match grantOn db now .user p.id serverId "" with
    | some level => level
    | none => highest ((enabledRoleIds db p.id).map (roleLevel db now serverId toolId))

/-! ## One row at a time -/

variable {db : AccessDb} {now : Int} {userId : String} {o o' : Reading}

/-- The rows of a database are known by their keys. -/
theorem grant_unique {g g' : ResourceGrant} (hg : g ∈ db.resourceGrants) (hg' : g' ∈ db.resourceGrants) (h : g.key = g'.key) :
    g = g' :=
  List.inj_on_of_nodup_map db.grants_unique hg hg' h

/-- A row that the `SELECT` of some server gives. -/
structure Selected (db : AccessDb) (userId : String) (row : ResourceGrant × Access) : Prop where
  stored : row.1 ∈ db.resourceGrants
  applies : row.1.appliesTo db userId = true
  level : permissionLevel db row.1.permissionTypeId = some row.2

theorem mem_grantRows {batch : List String} {row : ResourceGrant × Access} :
    row ∈ grantRows db userId batch ↔ Selected db userId row ∧ row.1.serverId ∈ batch := by
  obtain ⟨g, level⟩ := row
  simp only [grantRows, List.mem_filterMap, List.mem_filter, Bool.and_eq_true, List.contains_iff_mem, Option.map_eq_some_iff,
    Prod.mk.injEq]
  constructor
  · rintro ⟨g', ⟨hg, happlies, hbatch⟩, level', hlevel, rfl, rfl⟩
    exact ⟨⟨hg, happlies, hlevel⟩, hbatch⟩
  · rintro ⟨⟨hg, happlies, hlevel⟩, hbatch⟩
    exact ⟨g, ⟨hg, happlies, hbatch⟩, level, hlevel, rfl, rfl⟩

/-- What the accumulators say after some rows. -/
structure Says (now : Int) (rows : List (ResourceGrant × Access)) (acc : Gathered) : Prop where
  grants : ∀ key level, acc.grants.get key = some level ↔
    ∃ row ∈ rows, row.1.expiresAt.isExpired now = false ∧ row.1.key = key ∧ row.2 = level
  roles : ∀ roleId, roleId ∈ acc.roleIds ↔
    ∃ row ∈ rows, row.1.expiresAt.isExpired now = false ∧ row.1.subjectType = .role ∧ row.1.subjectId = roleId

theorem Says.nil : Says now [] {} := by
  constructor
  · simp
  · simp

/-- The rows with one key have one level. -/
def Consistent (rows : List (ResourceGrant × Access)) : Prop :=
  ∀ row ∈ rows, ∀ row' ∈ rows, row.1.key = row'.1.key → row.2 = row'.2

theorem Says.row {rows : List (ResourceGrant × Access)} {acc : Gathered} {row : ResourceGrant × Access} (h : Says now rows acc)
    (hone : Consistent (rows ++ [row])) : Says now (rows ++ [row]) (acc.row now row) := by
  unfold Gathered.row
  split
  · next hexpired =>
    constructor
    · intro key level
      rw [h.grants]
      simp [hexpired]
    · intro roleId
      rw [h.roles]
      simp [hexpired]
  rename_i hlive
  have hlive : row.1.expiresAt.isExpired now = false := by simpa using hlive
  constructor
  · intro key level
    rw [Dict.get_set]
    by_cases hkey : key = row.1.key
    · -- an earlier row with this key has the same level
      subst hkey
      simp only [if_true, Option.some.injEq]
      constructor
      · rintro rfl
        exact ⟨row, by simp, hlive, rfl, rfl⟩
      · rintro ⟨row', hrow', -, hsame, rfl⟩
        exact hone row (by simp) row' hrow' hsame.symm
    rw [if_neg hkey, h.grants]
    constructor
    · rintro ⟨row', hrow', hrest⟩
      exact ⟨row', List.mem_append_left _ hrow', hrest⟩
    rintro ⟨row', hrow', hlive', hsame, hlevel⟩
    rcases List.mem_append.mp hrow' with hrow' | hrow'
    · exact ⟨row', hrow', hlive', hsame, hlevel⟩
    · obtain rfl := List.mem_singleton.mp hrow'
      exact absurd hsame.symm hkey
  intro roleId
  by_cases hrole : row.1.subjectType = .role
  · simp only [if_pos hrole, List.mem_insert_iff, h.roles]
    constructor
    · rintro (rfl | ⟨row', hrow', hrest⟩)
      · exact ⟨row, by simp, hlive, hrole, rfl⟩
      · exact ⟨row', List.mem_append_left _ hrow', hrest⟩
    rintro ⟨row', hrow', hlive', hrole', hid⟩
    rcases List.mem_append.mp hrow' with hrow' | hrow'
    · exact .inr ⟨row', hrow', hlive', hrole', hid⟩
    · obtain rfl := List.mem_singleton.mp hrow'
      exact .inl hid.symm
  simp only [if_neg hrole, h.roles]
  constructor
  · rintro ⟨row', hrow', hrest⟩
    exact ⟨row', List.mem_append_left _ hrow', hrest⟩
  rintro ⟨row', hrow', hlive', hrole', hid⟩
  rcases List.mem_append.mp hrow' with hrow' | hrow'
  · exact ⟨row', hrow', hlive', hrole', hid⟩
  · obtain rfl := List.mem_singleton.mp hrow'
    exact absurd hrole' hrole

theorem Says.foldl {rows more : List (ResourceGrant × Access)} {acc : Gathered} (h : Says now rows acc)
    (hone : Consistent (rows ++ more)) : Says now (rows ++ more) (more.foldl (Gathered.row now) acc) := by
  induction more generalizing rows acc with
  | nil => simpa using h
  | cons row more ih =>
    rw [List.foldl_cons, ← List.singleton_append, ← List.append_assoc]
    rw [← List.singleton_append, ← List.append_assoc] at hone
    refine ih (h.row ?_) hone
    intro a ha b hb
    exact hone a (List.mem_append_left _ ha) b (List.mem_append_left _ hb)

/-! ## All rows -/

theorem Selected.consistent {rows : List (ResourceGrant × Access)} (h : ∀ row ∈ rows, Selected db userId row) : Consistent rows := by
  intro row hrow row' hrow' hkey
  have hsame : row.1 = row'.1 := grant_unique (h row hrow).stored (h row' hrow').stored hkey
  have hlevel : some row.2 = some row'.2 := by
    rw [← (h row hrow).level, ← (h row' hrow').level, hsame]
  exact Option.some.inj hlevel

/-- The accumulators after every batch, whatever the orders. -/
theorem gather_says (db : AccessDb) (now : Int) (userId : String) (o : Reading) (serverIds : List String) :
    ∃ rows, Says now rows (gather o db now userId serverIds) ∧
      ∀ row, row ∈ rows ↔ Selected db userId row ∧ row.1.serverId ∈ serverIds := by
  refine ⟨(batches 250 serverIds).flatMap fun batch => o.rows.of (grantRows db userId batch), ?_, ?_⟩
  · have hone : Consistent ((batches 250 serverIds).flatMap fun batch => o.rows.of (grantRows db userId batch)) := by
      refine @Selected.consistent db userId _ ?_
      intro row hrow
      obtain ⟨batch, -, hrow⟩ := List.mem_flatMap.mp hrow
      exact (mem_grantRows.mp (o.rows.mem_of.mp hrow)).1
    have htells := @Says.foldl now _ _ _ .nil hone
    rw [List.nil_append, List.foldl_flatten, List.foldl_map] at htells
    exact htells
  intro row
  simp only [List.mem_flatMap, Order.mem_of, mem_grantRows]
  constructor
  · rintro ⟨batch, hbatch, hselected, hserver⟩
    exact ⟨hselected, (mem_batches (by decide)).mp ⟨batch, hbatch, hserver⟩⟩
  · rintro ⟨hselected, hserver⟩
    obtain ⟨batch, hbatch, hmem⟩ := (@mem_batches _ 250 (by decide) _ _).mpr hserver
    exact ⟨batch, hbatch, hselected, hmem⟩

variable {subjectType : SubjectType} {level : Access}

theorem grantOn_eq_some {subjectId serverId toolId : String} : grantOn db now subjectType subjectId serverId toolId = some level ↔
      ∃ g ∈ db.resourceGrants, g.key = (subjectType, subjectId, serverId, toolId) ∧ g.expiresAt.isExpired now = false ∧
        permissionLevel db g.permissionTypeId = some level := by
  unfold grantOn
  rw [Option.bind_eq_some_iff]
  constructor
  · rintro ⟨g, hfind, hlevel⟩
    have hkey : g.key = (subjectType, subjectId, serverId, toolId) := by simpa using List.find?_some hfind
    split at hlevel
    · cases hlevel
    · next hlive => exact ⟨g, List.mem_of_find?_eq_some hfind, hkey, by simpa using hlive, hlevel⟩
  rintro ⟨g, hg, hkey, hlive, hlevel⟩
  have hsome : (db.resourceGrants.find? fun g => g.key = (subjectType, subjectId, serverId, toolId)).isSome :=
    List.find?_isSome.mpr ⟨g, hg, by simpa using hkey⟩
  obtain ⟨g', hfind⟩ := Option.isSome_iff_exists.mp hsome
  have hkey' : g'.key = (subjectType, subjectId, serverId, toolId) := by simpa using List.find?_some hfind
  obtain rfl := grant_unique (List.mem_of_find?_eq_some hfind) hg (hkey'.trans hkey.symm)
  refine ⟨g', hfind, ?_⟩
  rw [if_neg (by simp [hlive])]
  exact hlevel

/-- The subjects whose grants are read: the user, and its enabled roles. -/
def Subject (db : AccessDb) (userId : String) (subjectType : SubjectType) (subjectId : String) : Prop :=
  (subjectType = .user ∧ subjectId = userId) ∨ (subjectType = .role ∧ subjectId ∈ enabledRoleIds db userId)

theorem appliesTo_iff {g : ResourceGrant} : g.appliesTo db userId = true ↔ Subject db userId g.subjectType g.subjectId := by
  simp [ResourceGrant.appliesTo, Subject]

variable {serverIds : List String} {serverId toolId : String}

variable {subjectId : String}

/-- `grants.get` is the grant of the table. -/
theorem gather_get (hserver : serverId ∈ serverIds) (hsubject : Subject db userId subjectType subjectId) :
    (gather o db now userId serverIds).grants.get (subjectType, subjectId, serverId, toolId) =
      grantOn db now subjectType subjectId serverId toolId := by
  obtain ⟨rows, htells, hrows⟩ := gather_says db now userId o serverIds
  apply Option.ext
  intro level
  rw [htells.grants, grantOn_eq_some]
  constructor
  · rintro ⟨row, hrow, hlive, hkey, rfl⟩
    have hselected := ((hrows row).mp hrow).1
    exact ⟨row.1, hselected.stored, hkey, hlive, hselected.level⟩
  rintro ⟨g, hg, hkey, hlive, hlevel⟩
  obtain ⟨htype, hid, hgserver, -⟩ : g.subjectType = subjectType ∧ g.subjectId = subjectId ∧ g.serverId = serverId ∧
      g.toolId = toolId := by simpa [ResourceGrant.key] using hkey
  refine ⟨(g, level), (hrows _).mpr ⟨⟨hg, ?_, hlevel⟩, hgserver ▸ hserver⟩, hlive, hkey, rfl⟩
  rw [appliesTo_iff, htype, hid]
  exact hsubject

variable {roleId : String}

theorem gather_role (hserver : serverId ∈ serverIds) (hrole : roleId ∈ enabledRoleIds db userId) :
    (gather o db now userId serverIds).role (serverId, toolId) roleId = roleGrantOn db now serverId toolId roleId := by
  unfold Gathered.role roleGrantOn
  rw [gather_get hserver (.inr ⟨rfl, hrole⟩), gather_get hserver (.inr ⟨rfl, hrole⟩)]

theorem roleIds_enabled (h : roleId ∈ (gather o db now userId serverIds).roleIds) : roleId ∈ enabledRoleIds db userId := by
  obtain ⟨rows, htells, hrows⟩ := gather_says db now userId o serverIds
  obtain ⟨row, hrow, -, hrole, rfl⟩ := (htells.roles roleId).mp h
  rcases appliesTo_iff.mp ((hrows row).mp hrow).1.applies with ⟨huser, -⟩ | ⟨-, henabled⟩
  · rw [hrole] at huser
    cases huser
  · exact henabled

/-- A role with a grant on the server is among `role_ids`. -/
theorem mem_roleIds {roleId tool : String} (hserver : serverId ∈ serverIds)
    (hrole : roleId ∈ enabledRoleIds db userId) (h : grantOn db now .role roleId serverId tool = some level) :
    roleId ∈ (gather o db now userId serverIds).roleIds := by
  obtain ⟨rows, htells, hrows⟩ := gather_says db now userId o serverIds
  obtain ⟨g, hg, hkey, hlive, hlevel⟩ := grantOn_eq_some.mp h
  obtain ⟨htype, hid, hgserver, -⟩ : g.subjectType = .role ∧ g.subjectId = roleId ∧ g.serverId = serverId ∧ g.toolId = tool := by
    simpa [ResourceGrant.key] using hkey
  refine (htells.roles roleId).mpr ⟨(g, level), (hrows _).mpr ⟨⟨hg, ?_, hlevel⟩, hgserver ▸ hserver⟩, hlive, htype, hid⟩
  rw [appliesTo_iff, htype, hid]
  exact .inr ⟨rfl, hrole⟩

theorem roleGrantOn_cases (h : roleGrantOn db now serverId toolId roleId = some level) :
    ∃ tool, grantOn db now .role roleId serverId tool = some level := by
  rcases Option.or_eq_some_iff.mp h with h | ⟨-, h⟩
  · exact ⟨toolId, h⟩
  · exact ⟨"", h⟩

/-! ## The maximum -/

theorem highest_eq {levels : List Access} (h : .unknown ∉ levels) :
    highest levels = if .write ∈ levels then .write else if .read ∈ levels then .read else .none := by
  induction levels with
  | nil => rfl
  | cons level levels ih =>
    simp only [List.mem_cons, not_or] at h
    have hcons : highest (level :: levels) = if (highest levels).rank < level.rank then level else highest levels := rfl
    rw [hcons, ih h.2]
    cases level with
    | unknown => exact absurd rfl h.1
    | none | read | write =>
      by_cases hwrite : Access.write ∈ levels
      · simp [hwrite, Access.rank]
      · by_cases hread : Access.read ∈ levels
        · simp [hwrite, hread, Access.rank]
        · simp [hwrite, hread, Access.rank]

theorem grantOn_level (h : grantOn db now subjectType subjectId serverId toolId = some level) : level ≠ .unknown := by
  obtain ⟨g, -, -, -, hlevel⟩ := grantOn_eq_some.mp h
  obtain ⟨t, ht, rfl⟩ := Option.map_eq_some_iff.mp hlevel
  exact db.base_level t (List.mem_of_find?_eq_some ht)

/-- The levels of the enabled roles, collected from any list of them that misses no role with a grant on the server. -/
theorem maxLevel_roles {roleIds : List String} {f : String → Option Access} (henabled : ∀ r ∈ roleIds, r ∈ enabledRoleIds db userId)
    (hf : ∀ r ∈ enabledRoleIds db userId, f r = roleGrantOn db now serverId toolId r)
    (hmem : ∀ r ∈ enabledRoleIds db userId, ∀ level, roleGrantOn db now serverId toolId r = some level → r ∈ roleIds) :
    maxLevel (roleIds.filterMap f) = highest ((enabledRoleIds db userId).map (roleLevel db now serverId toolId)) := by
  have hlevels : ∀ level, level ≠ .none → (level ∈ roleIds.filterMap f ↔
      level ∈ (enabledRoleIds db userId).map (roleLevel db now serverId toolId)) := by
    intro level hlevel
    simp only [List.mem_filterMap, List.mem_map, roleLevel]
    constructor
    · rintro ⟨roleId, hrole, hget⟩
      rw [hf roleId (henabled roleId hrole)] at hget
      exact ⟨roleId, henabled roleId hrole, by rw [hget]; rfl⟩
    rintro ⟨roleId, hrole, hget⟩
    cases hgrant : roleGrantOn db now serverId toolId roleId with
    | none =>
      rw [hgrant] at hget
      exact absurd hget.symm hlevel
    | some level' =>
      rw [hgrant] at hget
      obtain rfl : level' = level := hget
      exact ⟨roleId, hmem roleId hrole _ hgrant, by rw [hf roleId hrole, hgrant]⟩
  have hunknown : Access.unknown ∉ (enabledRoleIds db userId).map (roleLevel db now serverId toolId) := by
    intro h
    obtain ⟨roleId, -, hget⟩ := List.mem_map.mp h
    unfold roleLevel at hget
    cases hgrant : roleGrantOn db now serverId toolId roleId with
    | none =>
      rw [hgrant] at hget
      cases hget
    | some level =>
      rw [hgrant] at hget
      obtain ⟨tool, hon⟩ := roleGrantOn_cases hgrant
      exact grantOn_level hon hget
  rw [highest_eq hunknown, maxLevel_eq (mt (hlevels _ (by decide)).mp hunknown)]
  simp only [hlevels .write (by decide), hlevels .read (by decide)]

/-- One key of the loop is the reference. -/
theorem resolve_eq {p : AuthPrincipal} (hserver : serverId ∈ serverIds) :
    resolve o (gather o db now p.id serverIds) p.id (serverId, toolId) = reference db now p serverId toolId := by
  have huser : Subject db p.id .user p.id := .inl ⟨rfl, rfl⟩
  unfold resolve reference
  rw [gather_get hserver huser, gather_get hserver huser]
  cases grantOn db now .user p.id serverId toolId with
  | some level => rfl
  | none =>
    cases grantOn db now .user p.id serverId "" with
    | some level => rfl
    | none =>
      refine maxLevel_roles ?_ ?_ ?_
      · intro roleId hrole
        exact roleIds_enabled (o.roles.mem_of.mp hrole)
      · intro roleId hrole
        exact gather_role hserver hrole
      · intro roleId hrole level hlevel
        obtain ⟨tool, hon⟩ := roleGrantOn_cases hlevel
        exact o.roles.mem_of.mpr (mem_roleIds hserver hrole hon)

/-! ## All keys -/

theorem mem_fromKeys {α : Type} [DecidableEq α] {ks : List α} {k : α} : k ∈ (Dict.fromKeys ks ()).keys ↔ k ∈ ks := by
  rw [Dict.mem_keys, Dict.get_fromKeys]
  by_cases h : k ∈ ks
  · simp [h]
  · simp [h]

theorem get_foldl_resolve (keys : List (String × String)) (f : String × String → Access) (result : Dict (String × String) Access)
    (k : String × String) :
    (keys.foldl (fun result key => result.set key (f key)) result).get k = if k ∈ keys then some (f k) else result.get k := by
  induction keys generalizing result with
  | nil => simp
  | cons key keys ih =>
    rw [List.foldl_cons, ih, Dict.get_set]
    by_cases hmem : k ∈ keys
    · simp [hmem]
    · by_cases hk : k = key
      · simp [hk]
      · simp [hmem, hk]

/-- What the map holds under each key it was asked for. -/
theorem effectiveAccessMap_get (p : AuthPrincipal) {keys : List (String × String)} {k : String × String} (hk : k ∈ keys) :
    (effectiveAccessMap o db now p keys).get k = some (if p.isAdmin then .write else reference db now p k.1 k.2) := by
  unfold effectiveAccessMap
  by_cases hadmin : p.isAdmin = true
  · simp only [hadmin, if_true]
    rw [Dict.get_fromKeys, if_pos (mem_fromKeys.mpr hk)]
  simp only [if_neg hadmin]
  rw [get_foldl_resolve, if_pos (mem_fromKeys.mpr hk)]
  have hserver : k.1 ∈ (((Dict.fromKeys keys ()).keys.map Prod.fst).dedup).insertionSort (· ≤ ·) := by
    rw [List.mem_insertionSort, List.mem_dedup]
    exact List.mem_map_of_mem (mem_fromKeys.mpr hk)
  rw [resolve_eq hserver]

/-! ## The map at one key, as the evaluator reads it -/

theorem mem_liveGrants {key : GrantKey} :
    (key, level) ∈ liveGrants db now userId ↔ ∃ row, Selected db userId row ∧ row.1.expiresAt.isExpired now = false ∧
      row.1.key = key ∧ row.2 = level := by
  simp only [liveGrants, List.mem_filterMap]
  constructor
  · rintro ⟨g, hg, hsome⟩
    split at hsome
    · next hkeep =>
      simp only [Bool.and_eq_true, Bool.not_eq_true'] at hkeep
      obtain ⟨level', hlevel, heq⟩ := Option.map_eq_some_iff.mp hsome
      obtain ⟨rfl, rfl⟩ := Prod.mk.inj heq
      exact ⟨(g, level'), ⟨hg, hkeep.1, hlevel⟩, hkeep.2, rfl, rfl⟩
    · cases hsome
  · rintro ⟨⟨g, level'⟩, hselected, hlive, rfl, rfl⟩
    refine ⟨g, hselected.stored, ?_⟩
    simp [hselected.applies, hlive, hselected.level]

theorem dictGet_liveGrants (hsubject : Subject db userId subjectType subjectId) :
    Py.dictGet (liveGrants db now userId) (subjectType, subjectId, serverId, toolId) =
      grantOn db now subjectType subjectId serverId toolId := by
  have hmem : ∀ level, ((subjectType, subjectId, serverId, toolId), level) ∈ liveGrants db now userId ↔
      grantOn db now subjectType subjectId serverId toolId = some level := by
    intro level
    rw [mem_liveGrants, grantOn_eq_some]
    constructor
    · rintro ⟨row, hselected, hlive, hkey, rfl⟩
      exact ⟨row.1, hselected.stored, hkey, hlive, hselected.level⟩
    rintro ⟨g, hg, hkey, hlive, hlevel⟩
    obtain ⟨htype, hid, -, -⟩ : g.subjectType = subjectType ∧ g.subjectId = subjectId ∧ g.serverId = serverId ∧
        g.toolId = toolId := by simpa [ResourceGrant.key] using hkey
    refine ⟨(g, level), ⟨hg, ?_, hlevel⟩, hlive, hkey, rfl⟩
    rw [appliesTo_iff, htype, hid]
    exact hsubject
  cases hget : Py.dictGet (liveGrants db now userId) (subjectType, subjectId, serverId, toolId) with
  | some level => exact ((hmem level).mp (Py.mem_of_dictGet hget)).symm
  | none =>
    symm
    apply Option.eq_none_iff_forall_ne_some.mpr
    intro level hlevel
    -- a row under the key would have been found
    simp only [Py.dictGet, Option.map_eq_none_iff, List.find?_eq_none, List.mem_reverse, decide_eq_true_eq] at hget
    exact hget _ ((hmem level).mpr hlevel) rfl

/-- `_effective_access_map(principal, [key])[key]`. -/
theorem effectiveAccess_eq (p : AuthPrincipal) (serverId toolId : String) :
    effectiveAccess db now p serverId toolId = if p.isAdmin then .write else reference db now p serverId toolId := by
  unfold effectiveAccess
  by_cases hadmin : p.isAdmin = true
  · rw [if_pos hadmin, if_pos hadmin]
  rw [if_neg hadmin, if_neg hadmin]
  have hget : ∀ st id tool, Subject db p.id st id →
      Py.dictGet ((liveGrants db now p.id).filter fun g => g.1.2.2.1 = serverId) (st, id, serverId, tool) =
        grantOn db now st id serverId tool := by
    intro st id tool hsubject
    rw [Py.dictGet_filter (by simp), dictGet_liveGrants hsubject]
  have huser : Subject db p.id .user p.id := .inl ⟨rfl, rfl⟩
  simp only [directGrant, hget _ _ _ huser, reference]
  cases grantOn db now .user p.id serverId toolId with
  | some level => rfl
  | none =>
    cases grantOn db now .user p.id serverId "" with
    | some level => rfl
    | none =>
      refine maxLevel_roles ?_ ?_ ?_
      · intro roleId hrole
        simp only [grantRoleIds, List.mem_dedup, List.mem_map, List.mem_filter] at hrole
        obtain ⟨⟨key, level⟩, ⟨⟨hlive, -⟩, htype⟩, rfl⟩ := hrole
        obtain ⟨row, hselected, -, rfl, -⟩ := mem_liveGrants.mp hlive
        rcases appliesTo_iff.mp hselected.applies with ⟨huser, -⟩ | ⟨-, henabled⟩
        · simp [ResourceGrant.key, huser] at htype
        · exact henabled
      · intro roleId hrole
        unfold roleGrant roleGrantOn
        rw [hget _ _ _ (.inr ⟨rfl, hrole⟩), hget _ _ _ (.inr ⟨rfl, hrole⟩)]
      · intro roleId hrole level hlevel
        obtain ⟨tool, hon⟩ := roleGrantOn_cases hlevel
        rw [← hget _ _ _ (.inr ⟨rfl, hrole⟩)] at hon
        exact mem_grantRoleIds (Py.mem_of_dictGet hon)

/-- **Grants of many tools are resolved one by one.** In any orders of the rows and the roles, `_effective_access_map` holds
under each key it is asked for what it holds when it is asked for that key alone. Of a principal that is no administrator
this is the user's grant on the tool, else the user's grant on the server, else the maximum over its enabled roles of the
role's grant on the tool, else on the server, else none. -/
theorem accessMap_resolves (o o' : Reading) (db : AccessDb) (now : Int) (p : AuthPrincipal) (keys : List (String × String))
    (k : String × String) (hk : k ∈ keys) :
    (effectiveAccessMap o db now p keys).get k = (effectiveAccessMap o' db now p [k]).get k ∧ (p.isAdmin = false →
        (effectiveAccessMap o db now p keys).get k = some (reference db now p k.1 k.2) ∧
        (∀ level, grantOn db now .user p.id k.1 k.2 = some level → (effectiveAccessMap o db now p keys).get k = some level) ∧
        ∀ level, grantOn db now .user p.id k.1 k.2 = none → grantOn db now .user p.id k.1 "" = some level →
          (effectiveAccessMap o db now p keys).get k = some level) := by
  refine ⟨?_, ?_⟩
  · rw [effectiveAccessMap_get p hk, effectiveAccessMap_get p (List.mem_singleton_self k)]
  intro hmember
  have hget : (effectiveAccessMap o db now p keys).get k = some (reference db now p k.1 k.2) := by
    rw [effectiveAccessMap_get p hk, hmember]
    simp
  refine ⟨hget, ?_, ?_⟩
  · intro level hlevel
    rw [hget, reference, hlevel]
  · intro level hnone hlevel
    rw [hget, reference, hnone, hlevel]

/-- Alice is denied one tool of a server her role may write. -/
def deniedTool : AccessDb where
  roles := [⟨"r1", "dev", false, true⟩]
  userRoles := [("alice", "r1")]
  permissionTypes := [⟨"none", .none, true⟩, ⟨"write", .write, true⟩]
  resourceGrants := [⟨.role, "r1", "files", "", "write", .absent⟩, ⟨.user, "alice", "files", "delete", "none", .absent⟩]

def alice : AuthPrincipal := { id := "alice", role := "dev", roles := ["dev"] }

theorem accessMap_resolves_denied :
    (effectiveAccessMap ⟨.reversed, .kept⟩ deniedTool 0 alice [("files", "list"), ("files", "delete")]).get ("files", "delete") =
        some .none ∧
      (effectiveAccessMap ⟨.reversed, .kept⟩ deniedTool 0 alice [("files", "list"), ("files", "delete")]).get ("files", "list") =
        some .write := by
  have hdelete := (accessMap_resolves ⟨.reversed, .kept⟩ ⟨.kept, .kept⟩ deniedTool 0 alice
    [("files", "list"), ("files", "delete")] ("files", "delete") (by decide)).2 (by decide)
  have hlist := (accessMap_resolves ⟨.reversed, .kept⟩ ⟨.kept, .kept⟩ deniedTool 0 alice
    [("files", "list"), ("files", "delete")] ("files", "list") (by decide)).2 (by decide)
  refine ⟨hdelete.2.1 .none (by decide), ?_⟩
  rw [hlist.1]
  decide

end LingshuGate.AccessControl
