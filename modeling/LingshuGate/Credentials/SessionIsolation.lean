import LingshuGate.Lib.Since
import LingshuGate.Credentials.BrowserSessions

/-!
# Managed browser sessions are isolated

What makes it true is the lock: the credential and the binding that a task has read are still there, as they were, when
it sends (`TaskOk`), so the versions that its guard compares are the ones the session was checked against. An edit cannot
delete the binding of a session that is not closed, because it looks at the rows (`Linked`).
-/

namespace LingshuGate.Credentials.Browser

open Lib

variable {S : Site} {w w' : World} {rows : Rows} {st st' : Store}

/-! ## Rows -/

/-- A row but for its status. -/
def SessionRow.core (r : SessionRow) : SessionRow := { r with status := .unknown }

theorem core_columns {r r' : SessionRow} (h : r.core = r'.core) : r.id = r'.id ∧ r.place = r'.place ∧
    r.credentialId = r'.credentialId ∧ r.bindingId = r'.bindingId ∧ r.serverId = r'.serverId := by
  simp only [SessionRow.core, SessionRow.mk.injEq] at h
  obtain ⟨hid, hconnection, hserver, hlogical, hcredential, hbinding, -⟩ := h
  refine ⟨hid, ?_, hcredential, hbinding, hserver⟩
  simp only [SessionRow.place, hconnection, hserver, hlogical]

variable {status : SessionStatus}

theorem mem_setStatus {id : String} {r' : SessionRow} (h : r' ∈ setStatus rows id status) :
    ∃ r ∈ rows, r'.core = r.core ∧ if r.id = id then r'.status = status else r' = r := by
  obtain ⟨r, hr, rfl⟩ := List.mem_map.mp h
  refine ⟨r, hr, ?_⟩
  by_cases hid : r.id = id
  · simp [hid, SessionRow.core]
  · simp [hid]

theorem setStatus_mem {id : String} {r : SessionRow} (h : r ∈ rows) :
    ∃ r' ∈ setStatus rows id status, r'.core = r.core ∧ if r.id = id then r'.status = status else r' = r := by
  refine ⟨_, List.mem_map.mpr ⟨r, h, rfl⟩, ?_⟩
  by_cases hid : r.id = id
  · simp [hid, SessionRow.core]
  · simp [hid]

variable {row : SessionRow} {rows' : Rows}

theorem insertSession_some (h : insertSession rows row = some rows') :
    (∀ r, r ∈ rows' ↔ r ∈ rows ∨ r = row) ∧ ∀ r ∈ rows, r.place ≠ row.place := by
  unfold insertSession at h
  split at h
  · cases h
  · next hplace =>
    refine ⟨fun r => Table.mem_insert h, ?_⟩
    intro r hr heq
    exact hplace (List.any_eq_true.mpr ⟨r, hr, by simpa using heq⟩)

theorem findSession_some {place : String × String × String} {r : SessionRow} (h : findSession rows place = some r) :
    r ∈ rows ∧ r.place = place :=
  ⟨List.mem_of_find?_eq_some h, by simpa using List.find?_some h⟩

theorem mem_openOf {r : SessionRow} (hr : r ∈ rows) (hopen : r.status ≠ .closed) : ⟨r.credentialId, r.bindingId⟩ ∈ openOf rows :=
  List.mem_map.mpr ⟨r, List.mem_filter.mpr ⟨hr, by simpa using hopen⟩, rfl⟩

/-! ## Edits and the rows -/

/-- Every open session has its binding, of its credential and its server. -/
def Linked (st : Store) (rows : Rows) : Prop := ∀ r ∈ rows, r.status ≠ .closed →
  ∃ b ∈ st.bindings, b.id = r.bindingId ∧ b.credentialId = r.credentialId ∧ b.serverId = r.serverId

/-- Bindings stay where they are, unless no open session needs them. -/
structure Spares (st st' : Store) : Prop where
  sessions : st'.sessions = st.sessions
  bindings : ∀ b ∈ st.bindings, (∃ b' ∈ st'.bindings, b'.id = b.id ∧ b'.credentialId = b.credentialId ∧ b'.serverId = b.serverId) ∨
    ∀ s ∈ st.sessions, ¬ (s.credentialId = b.credentialId ∧ s.bindingId = b.id)

theorem Spares.refl (st : Store) : Spares st st := ⟨rfl, fun b hb => .inl ⟨b, hb, rfl, rfl, rfl⟩⟩

theorem Spares.linked (h : Spares st st') (hlinked : Linked st rows) (hsessions : st.sessions = openOf rows) : Linked st' rows := by
  intro r hr hopen
  obtain ⟨b, hb, hid, hcredential, hserver⟩ := hlinked r hr hopen
  rcases h.bindings b hb with ⟨b', hb', hid', hcredential', hserver'⟩ | hnone
  · exact ⟨b', hb', hid'.trans hid, hcredential'.trans hcredential, hserver'.trans hserver⟩
  · exact absurd ⟨hcredential.symm, hid.symm⟩ (hnone _ (hsessions ▸ mem_openOf hr hopen))

/-- An update that leaves the identity of a binding alone. -/
theorem Spares.update {cond : Binding → Bool} {f : Binding → Binding} (hsessions : st'.sessions = st.sessions)
    (hbindings : st'.bindings.rows = st.bindings.rows.map fun b => if cond b then f b else b)
    (hf : ∀ b, (f b).id = b.id ∧ (f b).credentialId = b.credentialId ∧ (f b).serverId = b.serverId) : Spares st st' := by
  refine ⟨hsessions, ?_⟩
  intro b hb
  refine .inl ⟨if cond b then f b else b, ?_, ?_⟩
  · rw [Table.mem_def, hbindings]
    exact List.mem_map_of_mem hb
  · split
    · exact hf b
    · exact ⟨rfl, rfl, rfl⟩

theorem Spares.markSync {bindingId : String} {expectedRevision expectedVersion : Nat} {status : SyncStatus} {b : Binding}
    (h : markSync st bindingId expectedRevision expectedVersion status = .ok (st', b)) : Spares st st' := by
  simp only [Credentials.markSync, bind_eq_ok, pure_eq_ok, expect_eq_ok, checkVersion_eq_ok, require_eq_ok, Prod.mk.injEq] at h
  obtain ⟨row, -, -, -, c, -, -, -, -, -, rfl, rfl⟩ := h
  exact .update rfl rfl fun _ => ⟨rfl, rfl, rfl⟩

theorem Spares.perform {o : Op} {sync : Option Sync} (h : perform st o = .ok (st', sync)) : Spares st st' := by
  cases o with
  | create refusal ownerExists encrypts row =>
    simp only [Credentials.perform, createCredential, bind_eq_ok, pure_eq_ok, allowed_eq_ok, expect_eq_ok, require_eq_ok,
      Prod.mk.injEq] at h
    obtain ⟨-, -, _, ⟨-, -, -, -, t, -, rfl⟩, rfl, rfl⟩ := h
    exact ⟨rfl, fun b hb => .inl ⟨b, hb, rfl, rfl, rfl⟩⟩
  | update refusal decrypts credentialId r =>
    simp only [Credentials.perform, updateCredential, bind_eq_ok, pure_eq_ok, allowed_eq_ok, expect_eq_ok, require_eq_ok,
      checkVersion_eq_ok, Prod.mk.injEq] at h
    obtain ⟨-, -, _, ⟨row, -, -, -, -, -, -, -, rfl⟩, rfl, rfl⟩ := h
    exact .update rfl rfl fun _ => ⟨rfl, rfl, rfl⟩
  | delete refusal credentialId expectedVersion =>
    simp only [Credentials.perform, deleteCredential, bind_eq_ok, pure_eq_ok, allowed_eq_ok, expect_eq_ok, require_eq_ok,
      checkVersion_eq_ok, Prod.mk.injEq] at h
    obtain ⟨-, -, _, ⟨row, -, -, -, -, -, -, hsessions, rfl⟩, rfl, rfl⟩ := h
    refine ⟨rfl, ?_⟩
    intro b hb
    by_cases hid : b.credentialId = credentialId
    · right
      rintro s hs ⟨hcredential, -⟩
      simp only [Bool.not_eq_true', List.any_eq_false, decide_eq_true_eq] at hsessions
      exact hsessions s hs (hcredential.trans hid)
    · exact .inl ⟨b, Table.mem_delete.mpr ⟨hb, by simpa using hid⟩, rfl, rfl, rfl⟩
  | bind refusal validContract row expectedVersion =>
    simp only [Credentials.perform, createBinding, bind_eq_ok, pure_eq_ok, allowed_eq_ok, expect_eq_ok, require_eq_ok,
      checkVersion_eq_ok, Prod.mk.injEq] at h
    obtain ⟨-, -, -, -, -, -, _, ⟨-, -, -, -, -, -, -, -, t, hinsert, rfl⟩, rfl, rfl⟩ := h
    exact ⟨rfl, fun b hb => .inl ⟨b, (Table.mem_insert hinsert).mpr (.inl hb), rfl, rfl, rfl⟩⟩
  | updateBinding refusal credentialId bindingId r =>
    simp only [Credentials.perform, Credentials.updateBinding, bind_eq_ok, pure_eq_ok, allowed_eq_ok, expect_eq_ok, require_eq_ok,
      checkVersion_eq_ok, Prod.mk.injEq] at h
    obtain ⟨-, -, ⟨record, binding⟩, -, _, ⟨row, -, -, -, c, -, -, -, -, -, rfl⟩, rfl, rfl⟩ := h
    exact .update rfl rfl fun _ => ⟨rfl, rfl, rfl⟩
  | unbind refusal credentialId bindingId expectedRevision =>
    simp only [Credentials.perform, deleteBinding, bind_eq_ok, pure_eq_ok, allowed_eq_ok, expect_eq_ok, require_eq_ok,
      checkVersion_eq_ok, Prod.mk.injEq] at h
    obtain ⟨-, -, -, -, _, ⟨row, -, -, -, -, -, -, hsessions, rfl⟩, rfl, rfl⟩ := h
    refine ⟨rfl, ?_⟩
    intro b hb
    by_cases hid : b.id = bindingId
    · right
      rintro s hs ⟨-, hbinding⟩
      simp only [Bool.not_eq_true', List.any_eq_false, decide_eq_true_eq] at hsessions
      exact hsessions s hs (hbinding.trans hid)
    · exact .inl ⟨b, Table.mem_delete.mpr ⟨hb, by simpa using hid⟩, rfl, rfl, rfl⟩
  | synchronize refusal decrypts credentialId bindingId expectedVersion expectedRevision deleteRemote =>
    obtain ⟨_, _, -, -, -, -, -, ⟨rfl, -⟩ | ⟨_, -, hmark, -⟩⟩ := beginSync_ok h
    · exact .refl _
    · exact .markSync hmark

/-- An edit or a step of a synchronization. -/
theorem Spares.next {b : Credentials.World} {e : Credentials.Event} (hnot : ∀ l, e ≠ .sessions l) :
    Spares b.store (Credentials.next b e).store := by
  cases e with
  | op o =>
    simp only [Credentials.next]
    split
    · exact .refl _
    · next hok => exact .perform hok
  | dispatch refusal | receipt verified =>
    simp only [Credentials.next]
    split
    · exact .refl _
    · split <;> exact .refl _
  | finish =>
    simp only [Credentials.next]
    split
    · exact .refl _
    · split
      · exact .refl _
      · next hfinish =>
        obtain ⟨_, _, hmark, -⟩ := finishSync_ok hfinish
        exact .markSync hmark
  | interrupt => exact .refl _
  | sessions l => exact absurd rfl (hnot l)

/-! ## What a task holds on to -/

/-- The credential and the binding as they are stored, usable on the server. -/
structure Usable (st : Store) (serverId : String) (record : Credential) (binding : Binding) : Prop where
  credential : record ∈ st.credentials
  bound : binding ∈ st.bindings
  owner : binding.credentialId = record.id
  server : binding.serverId = serverId
  enabled : record.enabled = true ∧ binding.enabled = true
  synchronized : binding.syncStatus = .synced ∧ binding.syncedVersion = some record.version

variable {record : Credential}

theorem synchronized_iff {binding : Binding} : synchronized record binding = true ↔
    binding.syncStatus = .synced ∧ binding.syncedVersion = some record.version := by
  simp [Browser.synchronized]

/-- An action fits its session: the place it asked for, the versions of the login, the native id among the arguments. -/
structure Suits (rows : Rows) (place : String × String × String) (row : SessionRow) (record : Credential) (binding : Binding)
    (arguments : List (String × Json)) : Prop where
  stored : row ∈ rows
  at_place : row.place = place
  credentialId : row.credentialId = record.id
  bindingId : row.bindingId = binding.id
  status : row.status = .active
  versions : record.version = row.credentialVersion ∧ binding.revision = row.bindingRevision
  native : Py.dictGet arguments "session" = some (.str row.id)

def TaskOk (st : Store) (rows : Rows) : Task → Prop
  | .login connection serverId logical native record binding stage =>
    Usable st serverId record binding ∧ (stage ≠ .cleared → loginRow connection serverId logical native record binding ∈ rows)
  | .action connection serverId logical _ row record binding arguments _ =>
    Usable st serverId record binding ∧ Suits rows (connection, serverId, logical) row record binding arguments
  | .closing row _ _ _ => ∃ r ∈ rows, r.core = row.core ∧ r.status ≠ .closed

variable {refusal : Option BusinessError}

theorem recordOf_ok {credentialId : String} {active : Bool} (h : recordOf st refusal credentialId active = .ok record) :
    record ∈ st.credentials ∧ record.id = credentialId ∧ (active = true → record.enabled = true) := by
  simp only [recordOf, bind_eq_ok, expect_eq_ok, require_eq_ok, pure_eq_ok] at h
  obtain ⟨record, hrecord, -, -, -, henabled, rfl⟩ := h
  obtain ⟨hmem, hid⟩ := Table.find_eq_some.mp hrecord
  refine ⟨hmem, hid, ?_⟩
  rintro rfl
  simpa using henabled

variable {task : Task}

theorem startLogin_ok {req : Request} {logical native : String}
    (h : startLogin st rows refusal req logical native = .ok (rows', task)) :
    ∃ record binding, task = .login req.connection req.serverId logical native record binding .cleared ∧
      Usable st req.serverId record binding ∧ (∀ r ∈ rows', r ∈ rows) ∧ ∀ r ∈ rows, r.status ≠ .closed → r ∈ rows' := by
  simp only [startLogin, bind_eq_ok, expect_eq_ok, require_eq_ok, pure_eq_ok, Prod.mk.injEq] at h
  obtain ⟨reference, -, record, hrecord, binding, hbinding, -, hsync, -, -, rfl, rfl⟩ := h
  obtain ⟨hmem, -, hactive⟩ := recordOf_ok hrecord
  obtain ⟨hfind, henabled⟩ := Option.filter_eq_some_iff.mp hbinding
  have hcond := List.find?_some hfind
  simp only [Bool.and_eq_true, decide_eq_true_eq] at hcond
  refine ⟨record, binding, rfl, ⟨hmem, List.mem_of_find?_eq_some hfind, hcond.1, hcond.2, ⟨hactive rfl, henabled⟩,
    synchronized_iff.mp hsync⟩, ?_, ?_⟩
  · intro r hr
    exact (Table.mem_delete.mp hr).1
  · intro r hr hopen
    refine Table.mem_delete.mpr ⟨hr, ?_⟩
    simp [hopen]

theorem startAction_ok {req : Request} {action logical : String}
    (hlinked : Linked st rows) (h : startAction S st rows refusal req action logical = .ok task) : TaskOk st rows task := by
  simp only [startAction, bind_eq_ok, expect_eq_ok, require_eq_ok] at h
  obtain ⟨-, -, row, hrow, record, hrecord, binding, hbinding, effective, heffective, h⟩ := h
  obtain ⟨hfind, hopen⟩ := Option.filter_eq_some_iff.mp hrow
  obtain ⟨hmem, hplace⟩ := findSession_some hfind
  have hopen : row.status ≠ .closed := by simpa using hopen
  split at h
  · cases h
    exact ⟨row, hmem, rfl, hopen⟩
  rename_i hclose
  simp only [bind_eq_ok, require_eq_ok, pure_eq_ok] at h
  obtain ⟨-, hcurrent, rfl⟩ := h
  simp only [sessionCurrent, Bool.and_eq_true, decide_eq_true_eq] at hcurrent
  obtain ⟨⟨⟨⟨hactive, hversion⟩, henabled⟩, hrevision⟩, hsync⟩ := hcurrent
  obtain ⟨hrecordMem, hrecordId, hrecordEnabled⟩ := recordOf_ok hrecord
  obtain ⟨hbindingMem, hbindingId⟩ := Table.find_eq_some.mp hbinding
  obtain ⟨b, hb, hid, hcredential, hserver⟩ := hlinked row hmem hopen
  obtain rfl : b = binding := Table.eq_of_key hb hbindingMem (hid.trans hbindingId.symm)
  have hserverId : row.serverId = req.serverId := congrArg (·.2.1) hplace
  refine ⟨⟨hrecordMem, hb, hcredential.trans hrecordId.symm, hserver.trans hserverId, ⟨hrecordEnabled (by simpa using hclose),
    henabled⟩, synchronized_iff.mp hsync⟩, ⟨hmem, hplace, hrecordId.symm, hid.symm, hactive, ⟨hversion, hrevision⟩, ?_⟩⟩
  simp only [browserArguments, bind_eq_ok, pure_eq_ok] at heffective
  obtain ⟨-, -, -, -, -, -, -, -, -, -, rfl⟩ := heffective
  exact Py.dictGet_dictSet _ _ _

/-! ## The invariant -/

structure Inv (w : World) : Prop where
  places : ∀ r ∈ w.rows, ∀ r' ∈ w.rows, r.place = r'.place → r = r'
  linked : Linked w.base.store w.rows
  sessions : w.base.store.sessions = openOf w.rows
  task : ∀ t, w.task = some t → TaskOk w.base.store w.rows t

/-- How the rows may move: a row that is not closed stays, a closed row is left alone or deleted, and a new row takes a
place that is free. -/
structure Moves (rows rows' : Rows) : Prop where
  stays : ∀ r ∈ rows, (∃ r' ∈ rows', r'.core = r.core ∧ (r.status = .closed → r' = r)) ∨ r.status = .closed
  comes : ∀ r' ∈ rows', (∃ r ∈ rows, r.core = r'.core) ∨ ∀ r ∈ rows, r.place ≠ r'.place

theorem Moves.refl (rows : Rows) : Moves rows rows :=
  ⟨fun r hr => .inl ⟨r, hr, rfl, fun _ => rfl⟩, fun r hr => .inl ⟨r, hr, rfl⟩⟩

theorem Moves.setStatus {id : String} (h : ∀ r ∈ rows, r.id = id → r.status ≠ .closed) : Moves rows (setStatus rows id status) := by
  constructor
  · intro r hr
    obtain ⟨r', hr', hcore, hstatus⟩ := @setStatus_mem rows status id r hr
    refine .inl ⟨r', hr', hcore, ?_⟩
    intro hclosed
    split at hstatus
    · next hid => exact absurd hclosed (h r hr hid)
    · exact hstatus
  · intro r' hr'
    obtain ⟨r, hr, hcore, -⟩ := mem_setStatus hr'
    exact .inl ⟨r, hr, hcore.symm⟩

/-- Every row was there, and an open one was open. -/
def From (rows rows' : Rows) : Prop := ∀ r' ∈ rows', ∃ r ∈ rows, r'.core = r.core ∧ (r'.status ≠ .closed → r.status ≠ .closed)

theorem From.setStatus {id : String} (h : ∀ r ∈ rows, r.id = id → r.status ≠ .closed) : From rows (setStatus rows id status) := by
  intro r' hr'
  obtain ⟨r, hr, hcore, hstatus⟩ := mem_setStatus hr'
  refine ⟨r, hr, hcore, ?_⟩
  split at hstatus
  · next hid => exact fun _ => h r hr hid
  · rw [hstatus]
    exact fun h => h

/-- The invariant of a world whose rows were there; a task it holds is checked apart. -/
theorem Inv.setRows {task : Option Task} (hI : Inv w) (hfrom : From w.rows rows')
    (htask : ∀ t, task = some t → TaskOk w.base.store rows' t) : Inv { w.setRows rows' with task := task } where
  places r hr r' hr' hplace := by
    obtain ⟨r₀, hr₀, hcore, -⟩ := hfrom r hr
    obtain ⟨r₁, hr₁, hcore', -⟩ := hfrom r' hr'
    obtain ⟨hid, hp, -⟩ := core_columns hcore
    obtain ⟨hid', hp', -⟩ := core_columns hcore'
    obtain rfl := hI.places r₀ hr₀ r₁ hr₁ (hp.symm.trans (hplace.trans hp'))
    exact Table.eq_of_key hr hr' (hid.trans hid'.symm)
  linked r hr hopen := by
    obtain ⟨r₀, hr₀, hcore, hstatus⟩ := hfrom r hr
    obtain ⟨-, -, hcredential, hbinding, hserver⟩ := core_columns hcore
    obtain ⟨b, hb, hid, howner, hbserver⟩ := hI.linked r₀ hr₀ (hstatus hopen)
    exact ⟨b, hb, hid.trans hbinding.symm, howner.trans hcredential.symm, hbserver.trans hserver.symm⟩
  sessions := rfl
  task t ht := by
    have h := htask t ht
    cases t with
    | login connection serverId logical native record binding stage =>
      exact ⟨⟨h.1.credential, h.1.bound, h.1.owner, h.1.server, h.1.enabled, h.1.synchronized⟩, h.2⟩
    | action connection serverId logical action row record binding arguments sent =>
      exact ⟨⟨h.1.credential, h.1.bound, h.1.owner, h.1.server, h.1.enabled, h.1.synchronized⟩, h.2⟩
    | closing row record binding stage => exact h

/-- Only the task moves. -/
theorem Inv.setTask {task : Option Task} {log : List Dispatch} (hI : Inv w)
    (htask : ∀ t, task = some t → TaskOk w.base.store w.rows t) : Inv { w with task := task, log := log } :=
  ⟨hI.places, hI.linked, hI.sessions, htask⟩

theorem no_task {P : Task → Prop} : ∀ t, (none : Option Task) = some t → P t := by
  intro t ht
  cases ht

theorem Inv.drop {log : List Dispatch} (hI : Inv w) : Inv { w with task := none, log := log } := hI.setTask no_task

/-! ## Steps -/

theorem sendTask_inv (hI : Inv w) (htask : w.task = some task) : Inv (sendTask S w task) ∧ (sendTask S w task).rows = w.rows := by
  have hok := hI.task task htask
  cases task with
  | login connection serverId logical native record binding stage =>
    cases stage with
    | inserted | opened =>
      simp only [sendTask]
      split
      · refine ⟨hI.setTask ?_, rfl⟩
        rintro t ⟨⟩
        exact ⟨hok.1, fun _ => hok.2 nofun⟩
      · exact ⟨hI.drop, rfl⟩
    | cleared | openSent | loginSent | loggedIn => exact ⟨hI, rfl⟩
  | action connection serverId logical action row record binding arguments sent =>
    cases sent with
    | false =>
      simp only [sendTask]
      split
      · refine ⟨hI.setTask ?_, rfl⟩
        rintro t ⟨⟩
        exact hok
      · exact ⟨hI.drop, rfl⟩
    | true => exact ⟨hI, rfl⟩
  | closing row record binding stage =>
    cases stage with
    | marked =>
      refine ⟨hI.setTask ?_, rfl⟩
      rintro t ⟨⟩
      exact hok
    | ready | sent => exact ⟨hI, rfl⟩

/-- The row a task works on is not closed. -/
theorem open_of_id (hopen : ∃ r ∈ w.rows, r.core = row.core ∧ r.status ≠ .closed) :
    ∀ r ∈ w.rows, r.id = row.id → r.status ≠ .closed := by
  obtain ⟨r₀, hr₀, hcore, hstatus⟩ := hopen
  intro r hr hid
  rw [Table.eq_of_key hr hr₀ (hid.trans (core_columns hcore).1.symm)]
  exact hstatus

theorem receiveTask_inv {verified : Bool} (hI : Inv w) (htask : w.task = some task) :
    Inv (receiveTask w verified task) ∧ Moves w.rows (receiveTask w verified task).rows := by
  have hok := hI.task task htask
  have hsame : Inv w ∧ Moves w.rows w.rows := ⟨hI, .refl _⟩
  cases task with
  | login connection serverId logical native record binding stage =>
    cases stage with
    | openSent | loginSent =>
      simp only [receiveTask]
      split
      · refine ⟨hI.setTask ?_, .refl _⟩
        rintro t ⟨⟩
        exact ⟨hok.1, fun _ => hok.2 nofun⟩
      · exact ⟨hI.drop, .refl _⟩
    | cleared | inserted | opened | loggedIn => exact hsame
  | action connection serverId logical action row record binding arguments sent =>
    cases sent with
    | true => exact ⟨hI.drop, .refl _⟩
    | false => exact hsame
  | closing row record binding stage =>
    cases stage with
    | sent =>
      simp only [receiveTask]
      split
      · exact ⟨hI.setRows (.setStatus (open_of_id hok)) no_task, .setStatus (open_of_id hok)⟩
      · exact ⟨hI.drop, .refl _⟩
    | ready | marked => exact hsame

theorem invoke_inv {current refusal : Option BusinessError} {req : Request} {native : String}
    (hI : Inv w) (h : startInvoke S w.base.store w.rows current refusal req native = .ok (rows', task)) :
    Inv { w.setRows rows' with task := some task } ∧ Moves w.rows rows' := by
  simp only [startInvoke, bind_eq_ok, expect_eq_ok] at h
  obtain ⟨-, -, target, -, logical, -, h⟩ := h
  split at h
  · obtain ⟨record, binding, rfl, husable, hsub, hkept⟩ := startLogin_ok h
    refine ⟨hI.setRows ?_ ?_, ?_, ?_⟩
    · intro r' hr'
      exact ⟨r', hsub r' hr', rfl, id⟩
    · rintro t ⟨⟩
      exact ⟨husable, fun hne => absurd rfl hne⟩
    · intro r hr
      by_cases hclosed : r.status = .closed
      · exact .inr hclosed
      · exact .inl ⟨r, hkept r hr hclosed, rfl, fun _ => rfl⟩
    · intro r' hr'
      exact .inl ⟨r', hsub r' hr', rfl⟩
  simp only [bind_eq_ok, pure_eq_ok, Prod.mk.injEq] at h
  obtain ⟨_, haction, rfl, rfl⟩ := h
  refine ⟨hI.setRows ?_ ?_, .refl _⟩
  · intro r hr
    exact ⟨r, hr, rfl, id⟩
  · rintro t ⟨⟩
    exact startAction_ok hI.linked haction

theorem startClose_ok {credentialId sessionId : String}
    (h : startClose st rows refusal credentialId sessionId = .ok (some task)) : TaskOk st rows task := by
  simp only [startClose, bind_eq_ok, expect_eq_ok] at h
  obtain ⟨record, -, row, hrow, h⟩ := h
  split at h
  · cases h
  · next hopen =>
    simp only [bind_eq_ok, expect_eq_ok, pure_eq_ok, Option.some.injEq] at h
    obtain ⟨binding, -, rfl⟩ := h
    exact ⟨row, (Table.find_eq_some.mp (Option.filter_eq_some_iff.mp hrow).1).1, rfl, hopen⟩

theorem insert_inv {connection serverId logical native : String} {binding : Binding}
    (hI : Inv w) (htask : w.task = some (.login connection serverId logical native record binding .cleared))
    (h : insertSession w.rows (loginRow connection serverId logical native record binding) = some rows') :
    Inv { w.setRows rows' with task := some (.login connection serverId logical native record binding .inserted) } ∧
      Moves w.rows rows' := by
  obtain ⟨husable, -⟩ := hI.task _ htask
  obtain ⟨hmem, hfree⟩ := insertSession_some h
  refine ⟨⟨?_, ?_, rfl, ?_⟩, ?_, ?_⟩
  · intro r hr r' hr' hplace
    rcases (hmem r).mp hr with hr | rfl <;> rcases (hmem r').mp hr' with hr' | rfl
    · exact hI.places r hr r' hr' hplace
    · exact absurd hplace (hfree r hr)
    · exact absurd hplace.symm (hfree r' hr')
    · rfl
  · intro r hr hopen
    rcases (hmem r).mp hr with hr | rfl
    · exact hI.linked r hr hopen
    · exact ⟨binding, husable.bound, rfl, husable.owner, husable.server⟩
  · rintro t ⟨⟩
    exact ⟨⟨husable.credential, husable.bound, husable.owner, husable.server, husable.enabled, husable.synchronized⟩,
      fun _ => (hmem _).mpr (.inr rfl)⟩
  · intro r hr
    exact .inl ⟨r, (hmem r).mpr (.inl hr), rfl, fun _ => rfl⟩
  · intro r' hr'
    rcases (hmem r').mp hr' with hr' | rfl
    · exact .inl ⟨r', hr', rfl⟩
    · exact .inr hfree

theorem Step.inv {e : Event} (hI : Inv w) (h : Step S w e w') : Inv w' ∧ Moves w.rows w'.rows := by
  obtain ⟨hpossible, rfl⟩ := h
  have hsame : Inv w ∧ Moves w.rows w.rows := ⟨hI, .refl _⟩
  cases e with
  | base e =>
    have hnot : ∀ l, e ≠ .sessions l := by
      rintro l rfl
      cases hpossible
    have hfree : w.task = none := by
      cases e <;> simp only [possible, Bool.and_eq_true, Option.isNone_iff_eq_none, Bool.false_eq_true] at hpossible <;>
        exact hpossible.1
    have hspares := Spares.next (b := w.base) hnot
    refine ⟨⟨hI.places, hspares.linked hI.linked hI.sessions, hspares.sessions.trans hI.sessions, ?_⟩, .refl _⟩
    intro t ht
    rw [show (next S w (.base e)).task = w.task from rfl, hfree] at ht
    cases ht
  | invoke current refusal req native =>
    simp only [next]
    split
    · exact hsame
    · next hstart => exact invoke_inv hI hstart
  | closeSession refusal credentialId sessionId =>
    simp only [next]
    split
    · exact hsame
    · next task hstart =>
      refine ⟨hI.setTask ?_, .refl _⟩
      rintro t rfl
      exact startClose_ok hstart
  | insert =>
    simp only [next]
    split
    · next htask =>
      split
      · exact ⟨hI.drop, .refl _⟩
      · next hinsert => exact insert_inv hI htask hinsert
    · exact hsame
  | dispatch refusal =>
    simp only [next]
    split
    · next task htask =>
      split
      · obtain ⟨hinv, hrows⟩ := @sendTask_inv S w task hI htask
        exact ⟨hinv, hrows ▸ .refl _⟩
      · exact ⟨hI.drop, .refl _⟩
    · exact hsame
  | mark refusal =>
    simp only [next]
    split
    · next row record binding htask =>
      have hopen := open_of_id (hI.task _ htask)
      split
      · refine ⟨hI.setRows (.setStatus hopen) ?_, .setStatus hopen⟩
        rintro t ⟨⟩
        obtain ⟨r, hr, hcore, hstatus⟩ := hI.task _ htask
        obtain ⟨r', hr', hcore', hstatus'⟩ := @setStatus_mem w.rows .unknown row.id r hr
        refine ⟨r', hr', hcore'.trans hcore, ?_⟩
        rw [if_pos (core_columns hcore).1] at hstatus'
        rw [hstatus']
        decide
      · exact ⟨hI.drop, .refl _⟩
    · exact hsame
  | receipt verified =>
    simp only [next]
    split
    · next task htask => exact receiveTask_inv hI htask
    · exact hsame
  | finish =>
    simp only [next]
    split
    · next connection serverId logical native record binding htask =>
      have hrow := (hI.task _ htask).2 nofun
      have hopen : ∀ r ∈ w.rows, r.id = native → r.status ≠ .closed := by
        intro r hr hid
        rw [Table.eq_of_key hr hrow hid]
        exact nofun
      exact ⟨hI.setRows (.setStatus hopen) no_task, .setStatus hopen⟩
    · exact hsame
  | interrupt => exact ⟨hI.drop, .refl _⟩

theorem Inv.empty : Inv {} where
  places r hr := by cases hr
  linked r hr := by cases hr
  sessions := rfl
  task := no_task

theorem Inv.run {tr : List Event} (h : Run (Step S) {} tr w) : Inv w :=
  h.invariant Inv.empty fun _ _ _ hI hs => (Step.inv hI hs).1

/-! ## What is sent -/

/-- The credential and the binding of a session, enabled, synchronized and of the versions it was opened with. -/
def Authorized (st : Store) (row : SessionRow) : Prop := ∃ c ∈ st.credentials, ∃ b ∈ st.bindings,
  c.id = row.credentialId ∧ b.id = row.bindingId ∧ b.credentialId = c.id ∧ b.serverId = row.serverId ∧
    c.enabled = true ∧ b.enabled = true ∧ c.version = row.credentialVersion ∧ b.revision = row.bindingRevision ∧
    b.syncStatus = .synced ∧ b.syncedVersion = some c.version

theorem Usable.authorized {serverId : String} {binding : Binding}
    (h : Usable st serverId record binding) (hcredential : row.credentialId = record.id) (hbinding : row.bindingId = binding.id)
    (hserver : row.serverId = serverId) (hversion : record.version = row.credentialVersion)
    (hrevision : binding.revision = row.bindingRevision) : Authorized st row :=
  ⟨record, h.credential, binding, h.bound, hcredential.symm, hbinding.symm, h.owner, h.server.trans hserver.symm, h.enabled.1,
    h.enabled.2, hversion, hrevision, h.synchronized.1, h.synchronized.2⟩

/-- A call sent under a row: the native id, the place, and what authorizes it now. -/
structure Sends (w : World) (place : String × String × String) (arguments : List (String × Json)) (row : SessionRow) : Prop where
  stored : row ∈ w.rows
  at_place : row.place = place
  native : Py.dictGet arguments "session" = some (.str row.id)
  authorized : Authorized w.base.store row

variable {connection serverId logical tool : String}

theorem sendTask_sends (hI : Inv w) (htask : w.task = some task)
    {arguments : List (String × Json)}
    (h : (sendTask S w task).log = .browser connection serverId logical tool arguments :: w.log) :
    ∃ row, Sends w (connection, serverId, logical) arguments row := by
  have hok := hI.task task htask
  have hnone : ∀ {d : Dispatch} {log : List Dispatch}, log ≠ d :: log := fun h => by simpa using congrArg List.length h
  cases task with
  | login connection' serverId' logical' native record binding stage =>
    have hrow : ∀ hne : stage ≠ .cleared, ∀ arguments, Py.dictGet arguments "session" = some (.str native) →
        Sends w (connection', binding.serverId, logical') arguments
          (loginRow connection' serverId' logical' native record binding) := by
      intro hne arguments hnative
      refine ⟨hok.2 hne, ?_, hnative, hok.1.authorized rfl rfl rfl rfl rfl⟩
      rw [hok.1.server]
      rfl
    cases stage with
    | inserted | opened =>
      simp only [sendTask] at h
      split at h
      · injection h with hd
        injection hd with hconnection hserver hlogical _ harguments
        subst hconnection hserver hlogical harguments
        exact ⟨_, hrow nofun _ rfl⟩
      · exact absurd h hnone
    | cleared | openSent | loginSent | loggedIn => exact absurd h hnone
  | action connection' serverId' logical' action row record binding arguments' sent =>
    obtain ⟨husable, hsuits⟩ := hok
    cases sent with
    | false =>
      simp only [sendTask] at h
      split at h
      · injection h with hd
        injection hd with hconnection hserver hlogical _ harguments
        subst hconnection hserver hlogical harguments
        have hserverId : row.serverId = serverId' := congrArg (·.2.1) hsuits.at_place
        refine ⟨row, hsuits.stored, ?_, hsuits.native, ?_⟩
        · rw [husable.server]
          exact hsuits.at_place
        · exact husable.authorized hsuits.credentialId hsuits.bindingId hserverId hsuits.versions.1 hsuits.versions.2
      · exact absurd h hnone
    | true => exact absurd h hnone
  | closing row record binding stage =>
    cases stage with
    | marked =>
      injection h with hd
      cases hd
    | ready | sent => exact absurd h hnone

/-- What a step adds to the log is sent by the task that holds the lock. -/
theorem step_sends {e : Event} (hI : Inv w) (h : Step S w e w')
    {arguments : List (String × Json)} (hlog : w'.log = .browser connection serverId logical tool arguments :: w.log) :
    ∃ row, Sends w (connection, serverId, logical) arguments row := by
  obtain ⟨-, rfl⟩ := h
  have hnone : ∀ {d : Dispatch} {log : List Dispatch}, log ≠ d :: log := fun h => by simpa using congrArg List.length h
  cases e with
  | base e => exact absurd hlog hnone
  | invoke current refusal req native | closeSession refusal credentialId sessionId =>
    simp only [next] at hlog
    split at hlog
    · exact absurd hlog hnone
    · exact absurd hlog hnone
  | insert =>
    simp only [next] at hlog
    split at hlog
    · split at hlog
      · exact absurd hlog hnone
      · exact absurd hlog hnone
    · exact absurd hlog hnone
  | dispatch refusal =>
    simp only [next] at hlog
    split at hlog
    · next task htask =>
      split at hlog
      · exact sendTask_sends hI htask hlog
      · exact absurd hlog hnone
    · exact absurd hlog hnone
  | mark refusal =>
    simp only [next] at hlog
    split at hlog
    · split at hlog
      · exact absurd hlog hnone
      · exact absurd hlog hnone
    · exact absurd hlog hnone
  | receipt verified =>
    have hlogs : ∀ task, (receiveTask w verified task).log = w.log := by
      intro task
      unfold receiveTask
      split
      · rfl
      · rfl
      · rfl
      · split <;> rfl
      · rfl
    simp only [next] at hlog
    split at hlog
    · rw [hlogs] at hlog
      exact absurd hlog hnone
    · exact absurd hlog hnone
  | finish =>
    simp only [next] at hlog
    split at hlog
    · exact absurd hlog hnone
    · exact absurd hlog hnone
  | interrupt => exact absurd hlog hnone

/-! ## Where a row comes from -/

/-- The INSERT of a login of this place, with the versions as they are stored. -/
structure Inserts (w : World) (e : Event) (row : SessionRow) : Prop where
  event : e = .insert
  login : ∃ record binding, w.task = some (.login row.connectionKey row.serverId row.logicalSession row.id record binding .cleared) ∧
    Usable w.base.store row.serverId record binding ∧ row.credentialId = record.id ∧ row.bindingId = binding.id ∧
    row.credentialVersion = record.version ∧ row.bindingRevision = binding.revision

theorem Inserts.of_core {e : Event} {r r' : SessionRow} (h : Inserts w e r) (hcore : r.core = r'.core) : Inserts w e r' := by
  simp only [SessionRow.core, SessionRow.mk.injEq] at hcore
  obtain ⟨hid, hconnection, hserver, hlogical, hcredential, hbinding, hversion, hrevision, -⟩ := hcore
  obtain ⟨hevent, record, binding, hlogin⟩ := h
  rw [hid, hconnection, hserver, hlogical, hcredential, hbinding, hversion, hrevision] at hlogin
  exact ⟨hevent, record, binding, hlogin⟩

/-- A row was there before the step, or the step is its INSERT. -/
theorem row_back {e : Event} (hI : Inv w) (h : Step S w e w') {r' : SessionRow} (hr' : r' ∈ w'.rows) :
    Inserts w e r' ∨ ∃ r ∈ w.rows, r.core = r'.core := by
  obtain ⟨-, rfl⟩ := h
  have hsame : ∀ {rows}, r' ∈ rows → rows = w.rows → Inserts w e r' ∨ ∃ r ∈ w.rows, r.core = r'.core := by
    rintro rows hr rfl
    exact .inr ⟨r', hr, rfl⟩
  have hset : ∀ {id status}, r' ∈ setStatus w.rows id status → Inserts w e r' ∨ ∃ r ∈ w.rows, r.core = r'.core := by
    intro id status hr
    obtain ⟨r, hr, hcore, -⟩ := mem_setStatus hr
    exact .inr ⟨r, hr, hcore.symm⟩
  cases e with
  | base e => exact hsame hr' rfl
  | invoke current refusal req native =>
    simp only [next] at hr'
    split at hr'
    · exact hsame hr' rfl
    rename_i rows' task hstart
    rcases (invoke_inv hI hstart).2.comes r' hr' with hthere | hfree
    · exact .inr hthere
    -- the start of a login only deletes
    simp only [startInvoke, bind_eq_ok, expect_eq_ok] at hstart
    obtain ⟨-, -, target, -, logical, -, hstart⟩ := hstart
    split at hstart
    · obtain ⟨_, _, -, -, hsub, -⟩ := startLogin_ok hstart
      exact .inr ⟨r', hsub r' hr', rfl⟩
    · simp only [bind_eq_ok, pure_eq_ok, Prod.mk.injEq] at hstart
      obtain ⟨_, -, rfl, -⟩ := hstart
      exact hsame hr' rfl
  | closeSession refusal credentialId sessionId =>
    simp only [next] at hr'
    split at hr'
    · exact hsame hr' rfl
    · exact hsame hr' rfl
  | insert =>
    simp only [next] at hr'
    split at hr'
    · next connection serverId logical native record binding htask =>
      split at hr'
      · exact hsame hr' rfl
      · next rows' hinsert =>
        rcases ((insertSession_some hinsert).1 r').mp hr' with hr' | rfl
        · exact hsame hr' rfl
        · exact .inl ⟨rfl, record, binding, htask, (hI.task _ htask).1, rfl, rfl, rfl, rfl⟩
    · exact hsame hr' rfl
  | dispatch refusal =>
    simp only [next] at hr'
    split at hr'
    · next task htask =>
      split at hr'
      · exact hsame hr' (sendTask_inv hI htask).2
      · exact hsame hr' rfl
    · exact hsame hr' rfl
  | mark refusal =>
    simp only [next] at hr'
    split at hr'
    · split at hr'
      · exact hset hr'
      · exact hsame hr' rfl
    · exact hsame hr' rfl
  | receipt verified =>
    simp only [next] at hr'
    split at hr'
    · next task htask =>
      unfold receiveTask at hr'
      split at hr'
      · exact hsame hr' rfl
      · exact hsame hr' rfl
      · exact hsame hr' rfl
      · split at hr'
        · exact hset hr'
        · exact hsame hr' rfl
      · exact hsame hr' rfl
    · exact hsame hr' rfl
  | finish =>
    simp only [next] at hr'
    split at hr'
    · exact hset hr'
    · exact hsame hr' rfl
  | interrupt => exact hsame hr' rfl

theorem row_history {tr : List Event} (h : Run (Step S) {} tr w) (hrow : row ∈ w.rows) :
    ∃ pre e post t v, tr = pre ++ e :: post ∧ Run (Step S) {} pre t ∧ Step S t e v ∧ Inserts t e row ∧ Run (Step S) v post w := by
  have hsince := @Run.since _ _ (Step S) (fun _ t e _ => Inserts t e row) (fun _ _ _ => True) Inv
    (fun v => ∃ r ∈ v.rows, r.core = row.core) {} w tr h Inv.empty (fun _ _ _ hI hs => (Step.inv hI hs).1)
    (by
      rintro ⟨r, hr, -⟩
      cases hr)
    (fun _ t e v _ hI hs hv => by
      obtain ⟨r', hr', hcore⟩ := hv
      rcases row_back hI hs hr' with hinserts | ⟨r, hr, hcore'⟩
      · exact .inl (hinserts.of_core hcore)
      · exact .inr ⟨⟨r, hr, hcore'.trans hcore⟩, trivial⟩) ⟨row, hrow, rfl⟩
  obtain ⟨pre, e, post, t, v, rfl, hpre, hstep, hinserts, hpost⟩ := hsince.split
  exact ⟨pre, e, post, t, v, rfl, hpre, hstep, hinserts, hpost.mono fun _ _ _ hs => hs.1⟩

/-! ## Isolation -/

/-- **Managed browser sessions are isolated.** In every run: a browser call that is sent, other than a close, carries the
native id of a row that a login of the same connection, server and logical session inserted, with the versions of the
credential and the binding as they were then; they are the same now, both are enabled, and the binding is synchronized
with that version. There is one row for a connection, server and logical session; a row keeps all its columns but the
status, stays until it is closed, is left alone from then on, and a new row takes a place no row has. -/
theorem sessions_isolated (S : Site) (w : World) (tr : List Event) (h : Run (Step S) {} tr w) :
    (∀ e w' connection serverId logical tool arguments, Step S w e w' →
      w'.log = .browser connection serverId logical tool arguments :: w.log →
      ∃ row, Sends w (connection, serverId, logical) arguments row ∧
        ∃ pre e₀ post t v, tr = pre ++ e₀ :: post ∧ Run (Step S) {} pre t ∧ Step S t e₀ v ∧ Inserts t e₀ row ∧
          Run (Step S) v post w) ∧
    (∀ r ∈ w.rows, ∀ r' ∈ w.rows, r.place = r'.place → r = r') ∧
    ∀ e w', Step S w e w' → Moves w.rows w'.rows := by
  have hI := Inv.run h
  refine ⟨?_, hI.places, fun _ _ hs => (Step.inv hI hs).2⟩
  intro e w' connection serverId logical tool arguments hs hlog
  obtain ⟨row, hsends⟩ := step_sends hI hs hlog
  exact ⟨row, hsends, row_history h hsends.stored⟩

/-- One HTTPS host, and a login URL on it. -/
def portal : Site where
  urlsplit _ := some { scheme := "https", netloc := "portal.example", hostname := some "portal.example" }
  loginUrl _ := "https://portal.example/login"

/-- A credential is created, bound and synchronized; alice's connection logs in and goes back. -/
def loginAndBack : List Event :=
  [.base (.op (.create none true true
      { id := "0123456789abcdef0123456789abcdef", ownerId := "alice", secret := ⟨"alice", "s3cret"⟩ })),
    .base (.op (.bind none true
      { id := "b1", credentialId := "0123456789abcdef0123456789abcdef", serverId := "browser", contract := ⟨"digest", []⟩ } 1)),
    .base (.op (.synchronize none true "0123456789abcdef0123456789abcdef" "b1" 1 1 false)),
    .base (.dispatch none), .base (.receipt true), .base .finish,
    .invoke none none ⟨"alice-1", "browser", "agent_browser_auth_login",
      [("name", .str "gate:0123456789abcdef0123456789abcdef"), ("session", .str "work")]⟩ "gate_n1",
    .insert, .dispatch none, .receipt true, .dispatch none, .receipt true, .finish,
    .invoke none none ⟨"alice-1", "browser", "agent_browser_back", [("session", .str "work")]⟩ "gate_n2"]

theorem loginAndBack_possible : guarded (next portal) possible {} loginAndBack = true := by decide +kernel

/-- The log after the call of `back`: the logical session is replaced by the native one. -/
theorem loginAndBack_sends : ∃ log, (next portal (loginAndBack.foldl (next portal) {}) (.dispatch none)).log =
    .browser "alice-1" "browser" "work" "agent_browser_back" [("session", .str "gate_n1")] :: log ∧
    (loginAndBack.foldl (next portal) {}).log = log := ⟨_, rfl, rfl⟩

/-- In that run the call of `back` has the row of the login behind it. -/
theorem sessions_isolated_back : ∃ w tr row, Run (Step portal) {} tr w ∧
    Sends w ("alice-1", "browser", "work") [("session", .str "gate_n1")] row := by
  have hrun : Run (Step portal) {} loginAndBack (loginAndBack.foldl (next portal) {}) :=
    Run.of_guarded (fun _ _ h => ⟨h, rfl⟩) loginAndBack_possible
  obtain ⟨log, hsends, hlog⟩ := loginAndBack_sends
  obtain ⟨row, hrow, -⟩ := (sessions_isolated portal _ _ hrun).1 (.dispatch none) _ "alice-1" "browser" "work"
    "agent_browser_back" [("session", .str "gate_n1")] ⟨rfl, rfl⟩ (hlog ▸ hsends)
  exact ⟨_, _, row, hrun, hrow⟩

end LingshuGate.Credentials.Browser
