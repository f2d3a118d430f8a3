import LingshuGate.Lib.Json
import LingshuGate.Lib.UrlParts
import LingshuGate.Credentials.RemoteCopies

/-!
# Managed browser sessions (`application/business_credentials.py:353`, `business_credential_adapters.py`)

| here | there |
| --- | --- |
| `SessionRow`        | a row of `business_credential_sessions` (business_credentials_migration.py:52) |
| `browserArguments`  | `browser_arguments` (business_credential_adapters.py:100) |
| `startInvoke`       | `_invoke` up to the DELETE of a login or the call of an action (business_credentials.py:413) |
| `startClose`        | `close_session` (business_credentials.py:364) |
| `taskGuard`         | the guard inside `_raw` (business_credentials.py:299) |
| `next`              | what follows while the lock is held: the INSERT, the calls, their receipts |

`invoke` and `close_session` hold the lock of the store from their first read to their last write, as every edit does
(business_credentials.py:404): so while a `Task` is under way nothing else is written. An exception or the end of the
process releases the lock and leaves the rows as they are (`interrupt`). Edits and synchronizations are those of
`RemoteCopies`, whose list of open sessions is read off the rows.
-/

namespace LingshuGate.Credentials.Browser

open Lib

/-! ## Rows -/

inductive SessionStatus
  | active | unknown | closed
  deriving DecidableEq

structure SessionRow where
  id : String
  connectionKey : String
  serverId : String
  logicalSession : String
  credentialId : String
  bindingId : String
  credentialVersion : Nat
  bindingRevision : Nat
  status : SessionStatus
  deriving DecidableEq

abbrev Rows := Table SessionRow SessionRow.id

/-- `UNIQUE(connection_key,server_id,logical_session)`. -/
def SessionRow.place (r : SessionRow) : String × String × String := (r.connectionKey, r.serverId, r.logicalSession)

/-- The sessions an edit looks at: those that are not closed. -/
def openOf (rows : Rows) : List OpenSession :=
  (rows.rows.filter (·.status ≠ .closed)).map fun r => ⟨r.credentialId, r.bindingId⟩

/-- `_session`. -/
def findSession (rows : Rows) (place : String × String × String) : Option SessionRow :=
  rows.rows.find? (·.place = place)

/-- `INSERT INTO business_credential_sessions`; `none` is a violated key. -/
def insertSession (rows : Rows) (row : SessionRow) : Option Rows :=
  if rows.rows.any (·.place = row.place) then none else rows.insert row

/-- `UPDATE business_credential_sessions SET status=? WHERE id=?`. -/
def setStatus (rows : Rows) (id : String) (status : SessionStatus) : Rows :=
  rows.update (·.id = id) (fun r => { r with status := status }) fun _ => rfl

/-! ## Arguments -/

/-- The parts that come from elsewhere: `urlsplit`, and the login URL in the metadata of a credential. -/
structure Site where
  urlsplit : String → Option Url.SplitUrl
  loginUrl : String → String

def internalError : BusinessError := ⟨"internal", "", 500⟩

def invalidBrowserUrl : BusinessError := ⟨"invalid_browser_url", "Use an HTTP(S) URL without embedded credentials.", 422⟩

/-- `origin` of a URL that is a string. -/
def origin (S : Site) (url : String) : Except BusinessError (String × String × Nat) :=
  match S.urlsplit url with
  | none => .error invalidBrowserUrl
  | some v =>
    match v.hostname, v.port with
    | some hostname, some port =>
      if (v.scheme = "http" || v.scheme = "https") && hostname ≠ "" && v.username.isNone && v.password.isNone &&
          !url.toList.any (·.toNat ≤ 32) then
        .ok (v.scheme, hostname.toLower, match port with
          | some (port + 1) => port + 1
          | _ => if v.scheme = "https" then 443 else 80)
      else .error invalidBrowserUrl
    | _, _ => .error invalidBrowserUrl

/-- `values.get("url", "")`. What is no text `urlsplit` takes for an empty one where it is false, and it keeps a cache, which a
list or a dictionary cannot be in; any other value has no `decode`. -/
def argumentOrigin (S : Site) (values : List (String × Json)) : Except BusinessError (String × String × Nat) :=
  match Py.dictGet values "url" with
  | none => origin S ""
  | some (.str url) => origin S url
  | some (.arr _) | some (.obj _) => .error invalidBrowserUrl
  | some value => .error (if value.truthy then internalError else invalidBrowserUrl)

/-- `BROWSER_FIELDS`. -/
def browserFields : List (String × List String) :=
  [("open", ["url"]), ("back", []), ("forward", []), ("reload", []),
    ("snapshot", ["interactive", "compact", "depth", "selector", "includeUrls", "delta", "full"]),
    ("click", ["selector", "newTab", "human"]), ("fill", ["selector", "text"]),
    ("type", ["selector", "text", "clear", "delayMs"]), ("press", ["key"]), ("hover", ["selector"]), ("focus", ["selector"]),
    ("check", ["selector"]), ("uncheck", ["selector"]), ("select", ["selector", "values"]),
    ("scroll", ["direction", "amount", "selector"]), ("wait_ms", ["ms"]), ("wait_for_selector", ["selector", "waitTimeoutMs"]),
    ("wait_for_text", ["text", "waitTimeoutMs"]), ("wait_for_url", ["url", "waitTimeoutMs"]),
    ("wait_for_load", ["state", "waitTimeoutMs"]), ("get_text", ["selector"]), ("get_count", ["selector"]),
    ("is_visible", ["selector"]), ("is_enabled", ["selector"]), ("is_checked", ["selector"]), ("get_url", []),
    ("get_title", []), ("close", [])]

mutual

/-- `reject_cli_options` raises: some text in the value starts with a hyphen. -/
def hasOption : Json → Bool
  | .str s => Py.startsWith s "-"
  | .arr items => hasOptionAll items
  | .obj fields => hasOptionFields fields
  | _ => false

def hasOptionAll : List Json → Bool
  | [] => false
  | item :: items => hasOption item || hasOptionAll items

def hasOptionFields : List (String × Json) → Bool
  | [] => false
  | (_, value) :: fields => hasOption value || hasOptionFields fields

end

/-- `type(timeout) is int and 1 <= timeout <= 120000`, when it is there. -/
def timeoutValid (values : List (String × Json)) : Bool :=
  match Py.dictGet values "timeoutMs" with
  | none => true
  | some (.int n) => 1 ≤ n && n ≤ 120000
  | some _ => false

/-- The URL of an `open` or a `wait_for_url` is of the login origin. -/
def checkOrigin (S : Site) (action : String) (values : List (String × Json)) (loginUrl : String) : Except BusinessError Unit :=
  if action = "open" || action = "wait_for_url" then do
    let asked ← argumentOrigin S values
    let bound ← origin S loginUrl
    require (asked = bound)
      ⟨"credential_origin_mismatch", "This session is bound to the configured login origin.", 403⟩
  else return ()

/-- `browser_arguments`. -/
def browserArguments (S : Site) (action : String) (values : List (String × Json)) (nativeSession loginUrl : String) :
    Except BusinessError (List (String × Json)) := do
  let fields ← expect (Py.dictGet browserFields action) ⟨"managed_browser_tool_denied",
    "This tool is unavailable on a credential-managed browser instance.", 403⟩
  require (values.all fun kv => fields.contains kv.1 || kv.1 = "session" || kv.1 = "timeoutMs")
    ⟨"managed_browser_arguments_denied",
      "Use only reviewed browser fields and an explicit logical session; process overrides are prohibited.", 422⟩
  require (timeoutValid values) ⟨"invalid_browser_timeout", "timeoutMs must be between 1 and 120000.", 422⟩
  require (!hasOptionFields values) ⟨"browser_option_value_denied",
    "Browser argument values starting with a hyphen are unsupported by this adapter.", 422⟩
  checkOrigin S action values loginUrl
  return Py.dictSet values "session" (.str nativeSession)

/-! ## Starting -/

/-- A call of a tool: the connection of the actor, the server and the name of the tool, and the arguments. -/
structure Request where
  connection : String
  serverId : String
  toolName : String
  arguments : List (String × Json)

inductive LoginStage
  /-- a closed row of the same place is deleted -/
  | cleared
  | inserted | openSent | opened | loginSent | loggedIn
  deriving DecidableEq

inductive CloseStage
  | ready
  /-- the guard has passed and the row is `unknown` -/
  | marked
  | sent
  deriving DecidableEq

/-- What holds the lock. The credential and the binding are as they were read. -/
inductive Task
  | login (connection serverId logical native : String) (record : Credential) (binding : Binding) (stage : LoginStage)
  | action (connection serverId logical action : String) (row : SessionRow) (record : Credential) (binding : Binding)
      (arguments : List (String × Json)) (sent : Bool)
  | closing (row : SessionRow) (record : Credential) (binding : Binding) (stage : CloseStage)

/-- `[A-Za-z0-9][A-Za-z0-9_.-]{0,63}`. -/
def logicalValid (s : String) : Bool :=
  match s.toList with
  | [] => false
  | c :: rest => c.isAlphanum && rest.length ≤ 63 && rest.all fun c => c.isAlphanum || c = '_' || c = '.' || c = '-'

def hexChar (c : Char) : Bool := c.isDigit || ('a' ≤ c && c ≤ 'f')

/-- `arguments["name"][5:]` of `gate:` and 32 hexadecimal digits. -/
def credentialReference (name : String) : Option String :=
  let id := name.toList.drop 5
  if Py.startsWith name "gate:" && id.length = 32 && id.all hexChar then some (String.ofList id) else none

/-- `name[len(prefix):] if name.startswith(prefix) else ""`. -/
def actionOf (toolPrefix name : String) : String :=
  if Py.startsWith name toolPrefix then String.ofList (name.toList.drop toolPrefix.length) else ""

/-- The logical session among the arguments. -/
def logicalOf (arguments : List (String × Json)) : Option String :=
  match Py.dictGet arguments "session" with
  | some (.str s) => if logicalValid s then some s else none
  | _ => none

/-- The reference among the arguments of a login, which are `name` and `session`. -/
def loginReference (arguments : List (String × Json)) : Option String :=
  if arguments.all (fun kv => kv.1 = "name" || kv.1 = "session") then
    match Py.dictGet arguments "name", Py.dictGet arguments "session" with
    | some (.str name), some _ => credentialReference name
    | _, _ => none
  else none

/-- `_record`; `refusal` is what the authority of the actor raises. -/
def recordOf (st : Store) (refusal : Option BusinessError) (credentialId : String) (active : Bool) :
    Except BusinessError Credential := do
  let record ← expect (st.credentials.find credentialId) credentialNotFound
  allowed refusal
  require (!active || record.enabled)
    ⟨"credential_disabled", "This credential is disabled; existing website sessions are not revoked.", 403⟩
  return record

/-- `binding["sync_status"] == "synced" and binding["synced_version"] == record["version"]`. -/
def synchronized (record : Credential) (binding : Binding) : Bool :=
  binding.syncStatus = .synced && binding.syncedVersion = some record.version

/-- The login of `_invoke`, up to its DELETE. -/
def startLogin (st : Store) (rows : Rows) (refusal : Option BusinessError) (req : Request) (logical native : String) :
    Except BusinessError (Rows × Task) := do
  let reference ← expect (loginReference req.arguments) ⟨"credential_reference_required",
    "Use only name=gate:<credential ID> and an explicit session.", 422⟩
  let record ← recordOf st refusal reference true
  let binding ← expect ((st.bindings.rows.find? fun b => b.credentialId = record.id && b.serverId = req.serverId).filter
    Binding.enabled) ⟨"credential_binding_unavailable", "No enabled binding authorizes this credential at this instance.", 403⟩
  require (synchronized record binding) ⟨"credential_sync_required",
    "Synchronize the current credential version in Gate before login.", 409⟩
  let session := findSession rows (req.connection, req.serverId, logical)
  require (session.all (·.status = .closed)) ⟨"browser_session_in_use",
    "Close this logical session or choose a fresh one before another login.", 409⟩
  return (rows.delete fun r => session.any (·.id = r.id) && r.status = .closed,
    .login req.connection req.serverId logical native record binding .cleared)

/-- The checks of an action on its session. -/
def sessionCurrent (row : SessionRow) (record : Credential) (binding : Binding) : Bool :=
  row.status = .active && record.version = row.credentialVersion && binding.enabled &&
    binding.revision = row.bindingRevision && synchronized record binding

/-- An action of `_invoke`, up to its call. -/
def startAction (S : Site) (st : Store) (rows : Rows) (refusal : Option BusinessError) (req : Request) (action logical : String) :
    Except BusinessError Task := do
  require (Py.dictGet browserFields action).isSome ⟨"managed_browser_tool_denied",
    "Use Gate credential management for vault operations; this browser tool is restricted.", 403⟩
  let session ← expect ((findSession rows (req.connection, req.serverId, logical)).filter (·.status ≠ .closed))
    ⟨"browser_session_unavailable", "Start this logical session with the authorized credential reference.", 403⟩
  let record ← recordOf st refusal session.credentialId (action ≠ "close")
  let binding ← expect (st.bindings.find session.bindingId) bindingNotFound
  let effective ← browserArguments S action req.arguments session.id (S.loginUrl record.metadata)
  if action = "close" then return .closing session record binding .ready
  else
    require (sessionCurrent session record binding) ⟨"browser_session_stale",
      "The credential or binding changed; close this session and start a new one.", 409⟩
    return .action req.connection req.serverId logical action session record binding effective false

/-- `_invoke`; `current` is what `_current` raises, `native` is `"gate_" + uuid4().hex`. -/
def startInvoke (S : Site) (st : Store) (rows : Rows) (current refusal : Option BusinessError) (req : Request) (native : String) :
    Except BusinessError (Rows × Task) := do
  allowed current
  let target ← expect (st.targets.find? (·.1 = req.serverId))
    ⟨"credential_target_unavailable", "The managed target is unavailable.", 403⟩
  let logical ← expect (logicalOf req.arguments) ⟨"browser_session_required",
    "Use an explicit logical session of 1–64 letters, digits, dots, underscores or hyphens.", 422⟩
  if actionOf target.2 req.toolName = "auth_login" then startLogin st rows refusal req logical native
  else
    let task ← startAction S st rows refusal req (actionOf target.2 req.toolName) logical
    return (rows, task)

/-- `close_session`; nothing is done for a session that is closed. -/
def startClose (st : Store) (rows : Rows) (refusal : Option BusinessError) (credentialId sessionId : String) :
    Except BusinessError (Option Task) := do
  let record ← recordOf st refusal credentialId false
  let row ← expect ((rows.find sessionId).filter (·.credentialId = credentialId))
    ⟨"browser_session_not_found", "The browser session is unavailable.", 404⟩
  if row.status = .closed then return none
  else
    let binding ← expect (st.bindings.find row.bindingId) bindingNotFound
    return some (.closing row record binding .ready)

/-! ## Under the lock -/

/-- What was sent to a browser. -/
inductive Dispatch
  | browser (connection serverId logical : String) (tool : String) (arguments : List (String × Json))
  | close (serverId native : String)

structure World where
  base : Credentials.World := {}
  rows : Rows := ∅
  task : Option Task := none
  log : List Dispatch := []

/-- The guard inside `_raw`: the rows are still the ones that were read, and enabled where that is asked for. -/
def taskGuard (st : Store) (record : Credential) (binding : Binding) (active : Bool) : Bool :=
  match st.credentials.find record.id, st.bindings.find binding.id with
  | some c, some b => c.version = record.version && b.revision = binding.revision && (!active || (c.enabled && b.enabled))
  | _, _ => false

inductive Event
  /-- an edit, or a step of a synchronization -/
  | base (e : Credentials.Event)
  | invoke (current refusal : Option BusinessError) (req : Request) (native : String)
  | closeSession (refusal : Option BusinessError) (credentialId sessionId : String)
  /-- the INSERT of a login -/
  | insert
  /-- a call: its guard passes, or something raises before it is sent -/
  | dispatch (refusal : Option BusinessError)
  /-- the mark of a close, written by its guard -/
  | mark (refusal : Option BusinessError)
  | receipt (verified : Bool)
  | finish
  | interrupt

def World.setRows (w : World) (rows : Rows) : World :=
  { w with rows := rows, base := Credentials.next w.base (.sessions (openOf rows)) }

/-- The row a login inserts. -/
def loginRow (connection serverId logical native : String) (record : Credential) (binding : Binding) : SessionRow where
  id := native
  connectionKey := connection
  serverId := serverId
  logicalSession := logical
  credentialId := record.id
  bindingId := binding.id
  credentialVersion := record.version
  bindingRevision := binding.revision
  status := .unknown

/-- `{"url": record["login_url"], "session": session_id}`. -/
def openArguments (S : Site) (record : Credential) (native : String) : List (String × Json) :=
  [("url", .str (S.loginUrl record.metadata)), ("session", .str native)]

/-- `{"name": binding["profile_name"], "session": session_id, "noNavigate": True}`. -/
def loginArguments (binding : Binding) (native : String) : List (String × Json) :=
  [("name", .str ("gate_" ++ binding.id)), ("session", .str native), ("noNavigate", .bool true)]

/-- A call of the task that holds the lock. -/
def sendTask (S : Site) (w : World) : Task → World
  | .login connection serverId logical native record binding .inserted =>
    if taskGuard w.base.store record binding true then
      { w with
        task := some (.login connection serverId logical native record binding .openSent)
        log := .browser connection binding.serverId logical (binding.toolPrefix ++ "open") (openArguments S record native) :: w.log }
    else { w with task := none }
  | .login connection serverId logical native record binding .opened =>
    if taskGuard w.base.store record binding true then
      { w with
        task := some (.login connection serverId logical native record binding .loginSent)
        log := .browser connection binding.serverId logical (binding.toolPrefix ++ "auth_login") (loginArguments binding native) ::
          w.log }
    else { w with task := none }
  | .action connection serverId logical action row record binding arguments false =>
    if taskGuard w.base.store record binding true then
      { w with
        task := some (.action connection serverId logical action row record binding arguments true)
        log := .browser connection binding.serverId logical (binding.toolPrefix ++ action) arguments :: w.log }
    else { w with task := none }
  | .closing row record binding .marked =>
    { w with task := some (.closing row record binding .sent), log := .close binding.serverId row.id :: w.log }
  | _ => w

/-- What the answer to a call makes of the task. -/
def receiveTask (w : World) (verified : Bool) : Task → World
  | .login connection serverId logical native record binding .openSent =>
    { w with task := if verified then some (.login connection serverId logical native record binding .opened) else none }
  | .login connection serverId logical native record binding .loginSent =>
    { w with task := if verified then some (.login connection serverId logical native record binding .loggedIn) else none }
  | .action _ _ _ _ _ _ _ _ true => { w with task := none }
  | .closing row _ _ .sent =>
    if verified then { w.setRows (setStatus w.rows row.id .closed) with task := none } else { w with task := none }
  | _ => w

def next (S : Site) (w : World) : Event → World
  | .base e => { w with base := Credentials.next w.base e }
  | .invoke current refusal req native =>
    match startInvoke S w.base.store w.rows current refusal req native with
    | .error _ => w
    | .ok (rows, task) => { w.setRows rows with task := some task }
  | .closeSession refusal credentialId sessionId =>
    match startClose w.base.store w.rows refusal credentialId sessionId with
    | .error _ => w
    | .ok task => { w with task := task }
  | .insert => match w.task with
    | some (.login connection serverId logical native record binding .cleared) =>
      match insertSession w.rows (loginRow connection serverId logical native record binding) with
      | none => { w with task := none }
      | some rows =>
        { w.setRows rows with task := some (.login connection serverId logical native record binding .inserted) }
    | _ => w
  | .dispatch refusal => match w.task with
    | some task => if refusal.isNone then sendTask S w task else { w with task := none }
    | none => w
  | .mark refusal => match w.task with
    | some (.closing row record binding .ready) =>
      if refusal.isNone && taskGuard w.base.store record binding false then
        { w.setRows (setStatus w.rows row.id .unknown) with task := some (.closing row record binding .marked) }
      else { w with task := none }
    | _ => w
  | .receipt verified => match w.task with
    | some task => receiveTask w verified task
    | none => w
  | .finish => match w.task with
    | some (.login _ _ _ native _ _ .loggedIn) => { w.setRows (setStatus w.rows native .active) with task := none }
    | _ => w
  | .interrupt => { w with task := none }

/-- Edits, synchronizations and requests start while the lock is free; the ids of sessions are read off the rows. -/
def possible (w : World) : Event → Bool
  | .base (.sessions _) => false
  | .base e => w.task.isNone && Credentials.possible w.base e
  | .invoke .. => w.task.isNone && w.base.sync.isNone
  | .closeSession .. => w.task.isNone && w.base.sync.isNone
  | _ => true

def Step (S : Site) (w : World) (e : Event) (w' : World) : Prop := possible w e = true ∧ next S w e = w'

end LingshuGate.Credentials.Browser
