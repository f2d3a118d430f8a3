import LingshuGate.OAuth.System

/-!
# Scripts: runs that can be evaluated

A script is a list of calls whose earlier readings are the database they find. `playable` evaluates the boundary
assumptions of every step, and `play_run` turns a playable script into a run. `demoScript` is a whole authorization
over concrete tables: configuration, client, consent of a viewer to one tool, code exchange, one refresh.
-/

namespace LingshuGate.OAuth

open Lib AccessControl AuthStore

variable {D : Type}

/-! ## Scripts -/

theorem nothing_read : ∀ s : Snapshot, ∀ db ∈ ([] : List Db), db = s.db := fun _ => List.forall_mem_nil _

theorem read_twice : ∀ s : Snapshot, ∀ db ∈ [s.db, s.db], db = s.db := by simp

structure Entry (D : Type) where
  out : Outside
  call : Snapshot → Call D
  /-- what it reads before its last transaction is what it finds there -/
  reads : ∀ s, ∀ db ∈ (call s).reads, db = s.db := by first | exact nothing_read | exact read_twice | simp [Call.reads]

theorem inOrder_current {db : Db} {older reads : List Db} (h : ∀ x ∈ reads, x = db) : InOrder (db :: older) reads := by
  induction reads with
  | nil => trivial
  | cons x reads ih =>
    obtain rfl := h x List.mem_cons_self
    exact ⟨older, List.suffix_refl _, ih fun y hy => h y (List.mem_cons_of_mem _ hy)⟩

variable [DecidableEq D] (P : Params D)

def Entry.event (w : World D) (c : Entry D) : Event D :=
  let s : Snapshot := ⟨w.db, c.out⟩
  ⟨c.call s, c.out, (exec P s (c.call s)).map Prod.snd⟩

/-- The tickets an answer seals are what the cipher decrypts. -/
def sealsAll (now : Int) : Except Error (Db × Answer D) → Bool
  | .error _ => true
  | .ok (_, answer) => (answer.issues now).all fun x => P.decrypt x.1 = some x.2

/-- The assumptions of a step, evaluated. -/
def admissible (w : World D) (e : Event D) : Bool :=
  w.now ≤ e.out.now && (e.call.fresh P).all (fun k => !w.used.contains k) &&
    (e.call.presents.all fun text => (P.decrypt text).all fun t => w.issued.contains (text, t)) &&
    sealsAll P e.out.now (exec P (e.snapshot w) e.call)

def play : World D → List (Entry D) → World D
  | w, [] => w
  | w, c :: script => play (w.next P (c.event P w)) script

def trace : World D → List (Entry D) → List (Event D)
  | _, [] => []
  | w, c :: script => c.event P w :: trace (w.next P (c.event P w)) script

def playable : World D → List (Entry D) → Bool
  | _, [] => true
  | w, c :: script => admissible P w (c.event P w) && playable (w.next P (c.event P w)) script

variable {P} {w : World D}

theorem Entry.step (c : Entry D) (hw : Ordered w) (h : admissible P w (c.event P w) = true) :
    Step P w (c.event P w) (w.next P (c.event P w)) := by
  simp only [admissible, Bool.and_eq_true, decide_eq_true_eq, List.all_eq_true, Bool.not_eq_true',
    List.contains_eq_mem, decide_eq_false_iff_not, Option.all_eq_true] at h
  obtain ⟨⟨⟨htime, hfresh⟩, hpresents⟩, hseals⟩ := h
  refine ⟨htime, hfresh, ?_, hpresents, ?_, rfl, rfl⟩
  · obtain ⟨older, hhead⟩ := hw.head
    rw [hhead]
    exact inOrder_current (c.reads _)
  · intro db answer hexec x hx
    rw [hexec] at hseals
    simpa using List.all_eq_true.mp hseals x hx

/-- **A playable script is a run.** -/
theorem play_run {script : List (Entry D)} (hw : Ordered w) (h : playable P w script = true) :
    Run (Step P) w (trace P w script) (play P w script) := by
  induction script generalizing w with
  | nil => exact .nil w
  | cons c script ih =>
    simp only [playable, Bool.and_eq_true] at h
    have hstep := c.step hw h.1
    exact .cons hstep (ih (hw.step hstep) h.2)

/-! ## One authorization -/

/-- Digests that do not collide. -/
inductive Digest where
  | target (toolIds : List String) (serverPolicies : List ServerPolicy) (expiresAt ratePerMinute concurrency : Int)
      (toolBindings : Digest)
  | bindings (tools : Finset (String × Option String))
  | targets (targets : List (String × List String))
  | tools (tools : List Tool)
  | catalog (entries : Finset (String × String × Access × String))
  | candidates (marker : Nat × Nat × Nat) (roles permissions : List String) (grantScopes clientScopes : Finset Scope)
      (clientResources : List Kind) (expiresAt ratePerMinute concurrency : Int) (tools : Digest)
      (serverPolicies : List ServerPolicy)
  deriving DecidableEq

def demoIssuer : String := "https://gate.example.test"

def demoResource : String := "https://gate.example.test/mcp"

def demoCallback : String := "https://client.example.test/callback"

/-- `urlsplit` of the three URLs. -/
def demoUrl (value : String) : Option Url :=
  if value = demoIssuer then some { scheme := "https", hostname := some "gate.example.test", path := "" }
  else if value = demoResource then some { scheme := "https", hostname := some "gate.example.test", path := "/mcp" }
  else if value = demoCallback then some { scheme := "https", hostname := some "client.example.test", path := "/callback" }
  else none

def demoVerifier : String := "verifier-verifier-verifier-verifier-verifie"

def demoTicketText : String := "ticket-ticket-ticket-ticket-ticket-ticket"

def demoRequest : AuthorizationRequest where
  clientId := "client"
  redirectUri := demoCallback
  resource := demoResource
  codeChallenge := demoVerifier
  scopes := {.toolsRead}
  clientRevision := 1
  configurationRevision := 1
  issuer := demoIssuer
  managementRevision := none

/-- The ticket of the authorization started at 4; `seals` are other tickets. -/
def demoParams (seals : String → Option (Sealed Digest)) : Params Digest where
  hash := plainHash
  challenge := id
  urlsplit := demoUrl
  managementResource resource := resource ++ "/manage"
  decrypt text :=
    if text = demoTicketText then some ⟨.authorization "#browser" "csrf" demoRequest 604, 4⟩ else seals text
  jwt _ := none
  signed _ _ := false
  targetDigest t := .target t.toolIds t.serverPolicies t.expiresAt t.ratePerMinute t.concurrency t.toolBindingDigest
  bindingDigest := .bindings
  managementDigest := .targets
  toolsDigest := .tools
  catalogDigest := .catalog
  candidateDigest t := .candidates t.marker t.roles t.permissions t.grantScopes t.clientScopes t.clientResources t.expiresAt
    t.ratePerMinute t.concurrency t.toolsDigest t.serverPolicies
  candidateRevision binding := binding.catalogDigest

/-- The viewer of `files`, signed in at the consent page and at the console. -/
def demoAuth : AuthDb :=
  { viewerAuthDb with
    access := { viewerAuthDb.access with identities := [⟨"files", "files-1", "", ""⟩] }
    sessions := [⟨"s1", "u1", "#consent", .instant 100000, .oauthConsent⟩, ⟨"s2", "u1", "#console", .instant 100000, .console⟩] }

def demoOut (now : Int) : Outside where
  now := now
  auth := demoAuth
  env := plainEnv
  registry := [listTool]

def demoViewer : AuthPrincipal := { accountCaller with authType := .session, tokenId := none, scopes := [] }

def demoCode : TokenFields where
  grantType := some "authorization_code"
  resource := demoResource
  code := "code"
  codeVerifier := demoVerifier
  redirectUri := some demoCallback

def demoRefresh (token : String) : TokenFields where
  grantType := some "refresh_token"
  resource := demoResource
  refreshToken := token

/-- The viewer consents to `files.list` for 30 days; the client exchanges the code and refreshes once. -/
def demoScript : List (Entry Digest) :=
  [{ out := demoOut 1, call := fun _ => .rotateKey "kid" },
    { out := demoOut 2, call := fun _ => .saveConfig ⟨true, demoIssuer, demoResource⟩ 0 },
    { out := demoOut 3
      call := fun _ => .createClient ⟨"cli", [demoCallback], ["tools.read"], ["business"]⟩ "client" "secret" },
    { out := demoOut 4
      call := fun s => .startAuthorization s s ⟨"client", some demoCallback, none, some "code", some "S256", demoVerifier,
        demoResource⟩ "browser" "csrf" demoTicketText },
    { out := demoOut 5, call := fun s => .consentContext s s demoTicketText "browser" (some "consent") },
    { out := demoOut 6
      call := fun s => .consent s s demoTicketText "browser" "csrf" (some demoViewer)
        { toolIds := ["files.list"], grantDays := 30, ratePerMinute := 60, concurrency := 2 } "code" "grant" },
    { out := demoOut 7, call := fun _ => .token demoCode "client" "secret" ⟨"refresh-1", "family", "jti-1"⟩ },
    { out := demoOut 8
      call := fun _ => .token (demoRefresh "refresh-1") "client" "secret" ⟨"refresh-2", "family-2", "jti-2"⟩ }]

def demo : Params Digest := demoParams fun _ => none

def demoWorld : World Digest := play demo {} demoScript

theorem demo_played : playable demo {} demoScript = true ∧ ∃ f ∈ demoWorld.db.families.rows, f.id = "family" ∧ f.revokedAt = none ∧
    ∃ g ∈ demoWorld.db.grants.rows, g.id = f.grantId ∧ g.clientId = "client" := by
  decide +kernel

theorem demo_run : Run (Step demo) {} (trace demo {} demoScript) demoWorld := play_run .init demo_played.1

/-- The client has one family, of the viewer's grant. -/
theorem demo_family : ∃ f ∈ demoWorld.db.families, f.id = "family" ∧ f.revokedAt = none ∧
    ∃ g ∈ demoWorld.db.grants, g.id = f.grantId ∧ g.clientId = "client" := demo_played.2

end LingshuGate.OAuth
