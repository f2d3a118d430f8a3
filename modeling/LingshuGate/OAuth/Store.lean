import LingshuGate.OAuth.Policy

/-!
# The statements of the OAuth transactions and what they can change

| here | there |
| --- | --- |
| `Db.revokeFamilies`, `Db.deleteCodes`, … | the `UPDATE`, `DELETE`, `INSERT` statements of oauth_server.py |
| `Db.deleteFamilies`       | with `ON DELETE CASCADE` of `gate_oauth_refresh` (oauth_store.py:58) |
| `Db.cleanupInteractions`  | `_cleanup_interactions` (oauth_server.py:374) |

A transaction is a composition of these, and two preorders say what any composition does:

* `Evolves`: revisions only rise and an equal revision is an equal row; no client or grant is lost; a grant's
  scopes and expiry only shrink, its owner, client and resource stay, a revocation stays;
* `Follows used`: a code, family or refresh row under a used key continues the row it was: consumption and
  revocation stay, a family's scopes only shrink.
-/

namespace LingshuGate.OAuth

open Lib

namespace Db

variable (db : Db)

/-- `UPDATE gate_oauth_families SET revoked_at=? WHERE …`. -/
def revokeFamilies (cond : Family → Bool) (now : Int) : Db :=
  { db with families := db.families.update cond (fun f => { f with revokedAt := some now }) fun _ => rfl }

/-- `UPDATE gate_oauth_families SET scopes_json=? WHERE id=?`. -/
def setFamilyScopes (id : String) (scopes : Finset Scope) : Db :=
  { db with families := db.families.update (·.id = id) (fun f => { f with scopes := scopes }) fun _ => rfl }

/-- `DELETE FROM gate_oauth_families WHERE …`; the refresh rows of a deleted family go with it. -/
def deleteFamilies (cond : Family → Bool) : Db :=
  { db with
    families := db.families.delete cond
    refresh := db.refresh.delete fun r => (db.families.find r.familyId).any cond }

def deleteCodes (cond : Code → Bool) : Db := { db with codes := db.codes.delete cond }

def deleteInteractions (cond : Interaction → Bool) : Db := { db with interactions := db.interactions.delete cond }

def deleteConfirmations (cond : Confirmation → Bool) : Db :=
  { db with confirmations := db.confirmations.delete cond }

/-- `UPDATE gate_oauth_codes SET consumed_at=? WHERE code_hash=? AND consumed_at IS NULL`. -/
def consumeCode (codeHash : String) (now : Int) : Db :=
  { db with
    codes := db.codes.update (fun c => c.codeHash = codeHash && c.consumedAt = none)
      (fun c => { c with consumedAt := some now }) fun _ => rfl }

/-- `UPDATE gate_oauth_refresh SET consumed_at=? WHERE token_hash=?`. -/
def consumeRefresh (tokenHash : String) (now : Int) : Db :=
  { db with
    refresh := db.refresh.update (·.tokenHash = tokenHash) (fun r => { r with consumedAt := some now }) fun _ => rfl }

/-- `UPDATE gate_oauth_grants SET … WHERE id=?`. -/
def updateGrant (id : String) (f : Grant → Grant) (hf : ∀ g, (f g).id = g.id) : Db :=
  { db with grants := db.grants.update (·.id = id) f hf }

/-- `UPDATE gate_oauth_clients SET … WHERE id=?`. -/
def updateClientRow (id : String) (f : Client → Client) (hf : ∀ c, (f c).id = c.id) : Db :=
  { db with clients := db.clients.update (·.id = id) f hf }

def insertClient (row : Client) : Except Error Db := do
  return { db with clients := ← expect (db.clients.insert row) .integrity }

def insertKey (row : Key) : Except Error Db := do
  return { db with keys := ← expect (db.keys.insert row) .integrity }

def insertInteraction (row : Interaction) : Except Error Db := do
  return { db with interactions := ← expect (db.interactions.insert row) .integrity }

def insertGrant (row : Grant) : Except Error Db := do
  return { db with grants := ← expect (db.grants.insert row) .integrity }

def insertCode (row : Code) : Except Error Db := do
  return { db with codes := ← expect (db.codes.insert row) .integrity }

def insertFamily (row : Family) : Except Error Db := do
  return { db with families := ← expect (db.families.insert row) .integrity }

def insertRefresh (row : Refresh) : Except Error Db := do
  return { db with refresh := ← expect (db.refresh.insert row) .integrity }

/-- `_cleanup_interactions`. -/
def cleanupInteractions (now : Int) : Db :=
  ((db.deleteInteractions fun i => i.expiresAt ≤ now).deleteCodes fun c => c.expiresAt < now - 600).deleteFamilies
    fun f => f.expiresAt < now - 600

end Db

section Inserts

variable {db db' : Db}

theorem insertInteraction_ok {row : Interaction} :
    db.insertInteraction row = .ok db' ↔ ∃ t, db.interactions.insert row = some t ∧ { db with interactions := t } = db' := by
  simp only [Db.insertInteraction, bind_eq_ok, expect_eq_ok, pure_eq_ok]

theorem insertGrant_ok {row : Grant} :
    db.insertGrant row = .ok db' ↔ ∃ t, db.grants.insert row = some t ∧ { db with grants := t } = db' := by
  simp only [Db.insertGrant, bind_eq_ok, expect_eq_ok, pure_eq_ok]

theorem insertCode_ok {row : Code} :
    db.insertCode row = .ok db' ↔ ∃ t, db.codes.insert row = some t ∧ { db with codes := t } = db' := by
  simp only [Db.insertCode, bind_eq_ok, expect_eq_ok, pure_eq_ok]

theorem insertFamily_ok {row : Family} :
    db.insertFamily row = .ok db' ↔ ∃ t, db.families.insert row = some t ∧ { db with families := t } = db' := by
  simp only [Db.insertFamily, bind_eq_ok, expect_eq_ok, pure_eq_ok]

theorem insertRefresh_ok {row : Refresh} :
    db.insertRefresh row = .ok db' ↔ ∃ t, db.refresh.insert row = some t ∧ { db with refresh := t } = db' := by
  simp only [Db.insertRefresh, bind_eq_ok, expect_eq_ok, pure_eq_ok]

end Inserts

/-! ## Rows -/

structure ClientLe (c c' : Client) : Prop where
  id : c'.id = c.id
  revision : c.revision < c'.revision ∨ c = c'

structure GrantLe (g g' : Grant) : Prop where
  id : g'.id = g.id
  userId : g'.userId = g.userId
  clientId : g'.clientId = g.clientId
  resource : g'.resource = g.resource
  scopes : g'.scopes ⊆ g.scopes
  expiresAt : g'.expiresAt ≤ g.expiresAt
  revokedAt : g.revokedAt ≠ none → g'.revokedAt ≠ none
  revision : g.revision < g'.revision ∨ g = g'

/-- A code never changes but for its consumption. -/
structure CodeLe (c c' : Code) : Prop where
  codeHash : c'.codeHash = c.codeHash
  grantId : c'.grantId = c.grantId
  clientId : c'.clientId = c.clientId
  resource : c'.resource = c.resource
  consumedAt : c.consumedAt ≠ none → c'.consumedAt ≠ none

structure FamilyLe (f f' : Family) : Prop where
  id : f'.id = f.id
  grantId : f'.grantId = f.grantId
  scopes : f'.scopes ⊆ f.scopes
  expiresAt : f'.expiresAt = f.expiresAt
  revokedAt : f.revokedAt ≠ none → f'.revokedAt ≠ none

structure RefreshLe (r r' : Refresh) : Prop where
  tokenHash : r'.tokenHash = r.tokenHash
  familyId : r'.familyId = r.familyId
  consumedAt : r.consumedAt ≠ none → r'.consumedAt ≠ none

theorem ClientLe.refl (c : Client) : ClientLe c c := ⟨rfl, .inr rfl⟩

theorem ClientLe.revision_le {c c' : Client} (h : ClientLe c c') : c.revision ≤ c'.revision := by
  rcases h.revision with hlt | rfl
  · exact hlt.le
  · exact le_refl _

theorem ClientLe.trans (a b c : Client) (h : ClientLe a b) (h' : ClientLe b c) : ClientLe a c := by
  refine ⟨h'.id.trans h.id, ?_⟩
  rcases h'.revision with hlt | rfl
  · exact .inl (lt_of_le_of_lt h.revision_le hlt)
  · exact h.revision

theorem GrantLe.refl (g : Grant) : GrantLe g g := ⟨rfl, rfl, rfl, rfl, fun _ h => h, le_refl _, fun h => h, .inr rfl⟩

theorem GrantLe.revision_le {g g' : Grant} (h : GrantLe g g') : g.revision ≤ g'.revision := by
  rcases h.revision with hlt | rfl
  · exact hlt.le
  · exact le_refl _

theorem GrantLe.trans (a b c : Grant) (h : GrantLe a b) (h' : GrantLe b c) : GrantLe a c := by
  refine ⟨h'.id.trans h.id, h'.userId.trans h.userId, h'.clientId.trans h.clientId, h'.resource.trans h.resource,
    h'.scopes.trans h.scopes, h'.expiresAt.trans h.expiresAt, h'.revokedAt ∘ h.revokedAt, ?_⟩
  rcases h'.revision with hlt | rfl
  · exact .inl (lt_of_le_of_lt h.revision_le hlt)
  · exact h.revision

theorem CodeLe.refl (c : Code) : CodeLe c c := ⟨rfl, rfl, rfl, rfl, id⟩

theorem CodeLe.trans (a b c : Code) (h : CodeLe a b) (h' : CodeLe b c) : CodeLe a c :=
  ⟨h'.codeHash.trans h.codeHash, h'.grantId.trans h.grantId, h'.clientId.trans h.clientId,
    h'.resource.trans h.resource, h'.consumedAt ∘ h.consumedAt⟩

theorem FamilyLe.refl (f : Family) : FamilyLe f f := ⟨rfl, rfl, fun _ h => h, rfl, fun h => h⟩

theorem FamilyLe.trans (a b c : Family) (h : FamilyLe a b) (h' : FamilyLe b c) : FamilyLe a c :=
  ⟨h'.id.trans h.id, h'.grantId.trans h.grantId, h'.scopes.trans h.scopes, h'.expiresAt.trans h.expiresAt,
    h'.revokedAt ∘ h.revokedAt⟩

theorem RefreshLe.refl (r : Refresh) : RefreshLe r r := ⟨rfl, rfl, id⟩

theorem RefreshLe.trans (a b c : Refresh) (h : RefreshLe a b) (h' : RefreshLe b c) : RefreshLe a c :=
  ⟨h'.tokenHash.trans h.tokenHash, h'.familyId.trans h.familyId, h'.consumedAt ∘ h.consumedAt⟩

/-! ## Databases -/

structure Evolves (a b : Db) : Prop where
  config : a.config.revision < b.config.revision ∨ a.config = b.config
  management : a.management.revision < b.management.revision ∨ a.management = b.management
  clients : Table.Persists ClientLe a.clients b.clients
  grants : Table.Persists GrantLe a.grants b.grants

structure Follows (used : String → Prop) (a b : Db) : Prop where
  codes : Table.Continues CodeLe used a.codes b.codes
  families : Table.Continues FamilyLe used a.families b.families
  refresh : Table.Continues RefreshLe used a.refresh b.refresh

variable {used used' : String → Prop} {a b c : Db}

theorem Evolves.of_eq (hconfig : a.config = b.config) (hmanagement : a.management = b.management)
    (hclients : a.clients = b.clients) (hgrants : a.grants = b.grants) : Evolves a b :=
  ⟨.inr hconfig, .inr hmanagement, hclients ▸ .refl ClientLe.refl _, hgrants ▸ .refl GrantLe.refl _⟩

theorem Evolves.refl (a : Db) : Evolves a a := .of_eq rfl rfl rfl rfl

theorem Evolves.config_le (h : Evolves a b) : a.config.revision ≤ b.config.revision := by
  rcases h.config with hlt | heq
  · exact hlt.le
  · rw [heq]

theorem Evolves.management_le (h : Evolves a b) : a.management.revision ≤ b.management.revision := by
  rcases h.management with hlt | heq
  · exact hlt.le
  · rw [heq]

theorem Evolves.trans (h : Evolves a b) (h' : Evolves b c) : Evolves a c where
  config := by
    rcases h'.config with hlt | heq
    · exact .inl (lt_of_le_of_lt h.config_le hlt)
    · rw [← heq]
      exact h.config
  management := by
    rcases h'.management with hlt | heq
    · exact .inl (lt_of_le_of_lt h.management_le hlt)
    · rw [← heq]
      exact h.management
  clients := h.clients.trans ClientLe.trans h'.clients
  grants := h.grants.trans GrantLe.trans h'.grants

/-- Between two readings of one configuration revision the configuration did not change. -/
theorem Evolves.config_between (h : Evolves a b) (h' : Evolves b c) (heq : a.config.revision = c.config.revision) :
    a.config = b.config ∧ b.config = c.config := by
  have hle := h.config_le
  have hle' := h'.config_le
  constructor
  · rcases h.config with hlt | h
    · omega
    · exact h
  · rcases h'.config with hlt | h
    · omega
    · exact h

/-- The row a client id has later. -/
theorem Evolves.client (h : Evolves a b) {x y : Client} (hx : x ∈ a.clients) (hy : y ∈ b.clients) (hid : y.id = x.id) :
    ClientLe x y := by
  obtain ⟨y', hy', hle⟩ := h.clients x hx
  rwa [Table.eq_of_key hy hy' (hid.trans hle.id.symm)]

/-- The row a grant id has later. -/
theorem Evolves.grant (h : Evolves a b) {x y : Grant} (hx : x ∈ a.grants) (hy : y ∈ b.grants) (hid : y.id = x.id) :
    GrantLe x y := by
  obtain ⟨y', hy', hle⟩ := h.grants x hx
  rwa [Table.eq_of_key hy hy' (hid.trans hle.id.symm)]

theorem Follows.of_eq (hcodes : a.codes = b.codes) (hfamilies : a.families = b.families) (hrefresh : a.refresh = b.refresh) :
    Follows used a b :=
  ⟨hcodes ▸ .refl CodeLe.refl _, hfamilies ▸ .refl FamilyLe.refl _, hrefresh ▸ .refl RefreshLe.refl _⟩

theorem Follows.refl (a : Db) : Follows used a a := .of_eq rfl rfl rfl

theorem Follows.trans (hused : ∀ k, used k → used' k) (h : Follows used a b) (h' : Follows used' b c) : Follows used a c where
  codes := h.codes.trans CodeLe.trans (fun _ _ => CodeLe.codeHash) hused h'.codes
  families := h.families.trans FamilyLe.trans (fun _ _ => FamilyLe.id) hused h'.families
  refresh := h.refresh.trans RefreshLe.trans (fun _ _ => RefreshLe.tokenHash) hused h'.refresh

theorem Follows.andThen (h : Follows used a b) (h' : Follows used b c) : Follows used a c :=
  h.trans (fun _ => id) h'

/-- A used code continues the code it was. -/
theorem Follows.code (h : Follows used a b) {y : Code} (hy : y ∈ b.codes) (hu : used y.codeHash) : ∃ x ∈ a.codes, CodeLe x y :=
  (h.codes y hy).resolve_right fun hn => hn hu

/-- The row a used family id has later. -/
theorem Follows.family (h : Follows used a b) {x y : Family} (hx : x ∈ a.families) (hy : y ∈ b.families)
    (hid : y.id = x.id) (hu : used x.id) : FamilyLe x y := by
  obtain ⟨x', hx', hle⟩ := (h.families y hy).resolve_right fun hn => hn (hid ▸ hu)
  rwa [Table.eq_of_key hx hx' (hid.symm.trans hle.id)]

/-! ## What each statement does -/

variable {f : Grant → Grant} {id : String}

theorem Evolves.updateGrant {hf : ∀ g, (f g).id = g.id}
    (h : ∀ g ∈ a.grants, g.id = id → GrantLe g (f g)) : Evolves a (a.updateGrant id f hf) where
  config := .inr rfl
  management := .inr rfl
  clients := .refl ClientLe.refl _
  grants := by
    refine .update hf GrantLe.refl ?_
    intro g hg hid
    exact h g hg (by simpa using hid)

theorem updateGrant_mem (hf : ∀ g, (f g).id = g.id) {g : Grant} (hg : g ∈ a.grants)
    (hid : g.id = id) : f g ∈ (a.updateGrant id f hf).grants := by
  exact Table.mem_update_of_mem hf hg (by simp [hid])

theorem updateGrant_old {hf : ∀ g, (f g).id = g.id} {g : Grant}
    (hg : g ∈ (a.updateGrant id f hf).grants) : ∃ g₀ ∈ a.grants, g₀.id = g.id := by
  simp only [Db.updateGrant, Table.mem_update] at hg
  obtain ⟨g₀, hg₀, rfl⟩ := hg
  refine ⟨g₀, hg₀, ?_⟩
  split
  · exact (hf g₀).symm
  · rfl

variable {cond : Family → Bool} {now : Int}

theorem Follows.revokeFamilies : Follows used a (a.revokeFamilies cond now) where
  codes := .refl CodeLe.refl _
  families := by
    refine .update ?_ FamilyLe.refl ?_
    · intro f
      rfl
    · intro f _ _
      exact ⟨rfl, rfl, fun _ h => h, rfl, fun _ => by simp⟩
  refresh := .refl RefreshLe.refl _

theorem revokeFamilies_mem {f : Family} (hf : f ∈ a.families) (hcond : cond f = true) :
    { f with revokedAt := some now } ∈ (a.revokeFamilies cond now).families := by
  refine Table.mem_update_of_mem ?_ hf hcond
  intro x
  rfl

theorem Follows.setFamilyScopes {scopes : Finset Scope}
    (h : ∀ f ∈ a.families, f.id = id → scopes ⊆ f.scopes) : Follows used a (a.setFamilyScopes id scopes) where
  codes := .refl CodeLe.refl _
  families := by
    refine .update ?_ FamilyLe.refl ?_
    · intro f
      rfl
    · intro f hf hid
      exact ⟨rfl, rfl, h f hf (by simpa using hid), rfl, fun hr => hr⟩
  refresh := .refl RefreshLe.refl _

theorem Follows.deleteFamilies : Follows used a (a.deleteFamilies cond) where
  codes := .refl CodeLe.refl _
  families := .delete FamilyLe.refl
  refresh := .delete RefreshLe.refl

theorem Follows.deleteCodes {cond : Code → Bool} : Follows used a (a.deleteCodes cond) where
  codes := .delete CodeLe.refl
  families := .refl FamilyLe.refl _
  refresh := .refl RefreshLe.refl _

theorem Follows.consumeCode {codeHash : String} : Follows used a (a.consumeCode codeHash now) where
  codes := by
    refine .update ?_ CodeLe.refl ?_
    · intro c
      rfl
    · intro c _ _
      exact ⟨rfl, rfl, rfl, rfl, fun _ => by simp⟩
  families := .refl FamilyLe.refl _
  refresh := .refl RefreshLe.refl _

theorem Follows.consumeRefresh {tokenHash : String} : Follows used a (a.consumeRefresh tokenHash now) where
  codes := .refl CodeLe.refl _
  families := .refl FamilyLe.refl _
  refresh := by
    refine .update ?_ RefreshLe.refl ?_
    · intro r
      rfl
    · intro r _ _
      exact ⟨rfl, rfl, fun _ => by simp⟩

theorem Follows.insertCode {row : Code} (h : a.insertCode row = .ok b) (hnew : ¬ used row.codeHash) : Follows used a b := by
  obtain ⟨t, ht, rfl⟩ := insertCode_ok.mp h
  exact ⟨.insert CodeLe.refl ht hnew, .refl FamilyLe.refl _, .refl RefreshLe.refl _⟩

theorem Follows.insertFamily {row : Family} (h : a.insertFamily row = .ok b) (hnew : ¬ used row.id) : Follows used a b := by
  obtain ⟨t, ht, rfl⟩ := insertFamily_ok.mp h
  exact ⟨.refl CodeLe.refl _, .insert FamilyLe.refl ht hnew, .refl RefreshLe.refl _⟩

theorem Follows.insertRefresh {row : Refresh} (h : a.insertRefresh row = .ok b) (hnew : ¬ used row.tokenHash) :
    Follows used a b := by
  obtain ⟨t, ht, rfl⟩ := insertRefresh_ok.mp h
  exact ⟨.refl CodeLe.refl _, .refl FamilyLe.refl _, .insert RefreshLe.refl ht hnew⟩

theorem Follows.deleteInteractions {cond : Interaction → Bool} : Follows used a (a.deleteInteractions cond) :=
  .of_eq rfl rfl rfl

theorem Follows.cleanupInteractions : Follows used a (a.cleanupInteractions now) :=
  Follows.deleteInteractions.andThen (Follows.deleteCodes.andThen Follows.deleteFamilies)

end LingshuGate.OAuth
