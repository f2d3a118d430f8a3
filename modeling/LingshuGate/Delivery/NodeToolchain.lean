import LingshuGate.Runtime.ToolRecords
import LingshuGate.Lib.Scan

/-!
# The toolchain of a Node project (`node_toolchain.py`, `build_preflight.py`)

| here | there |
| --- | --- |
| `supportedVersion`       | `supported_version` (node_toolchain.py:28) |
| `nodeRequirement`        | `node_requirement` (35) |
| `NodeToolchainOverride`  | `NodeToolchainOverride` (46) |
| `toolPreparation`        | `tool_preparation` (61) |
| `nodeBinEntrypoint`      | `node_bin_entrypoint` (83) |
| `inspectNodeToolchain`   | `inspect_node_toolchain` (94) |
| `readLockfile`           | `_read_lockfile` (176) |
| `nodeInstallMetadata`    | `_node_install_metadata` (build_preflight.py:481) |
| `runBuildPreflight`      | `run_build_preflight` (156): what it leaves for the plan |

Nothing is downloaded here: the inspection looks at the declaration, the lockfiles and the probed tools, and says which manager and
version a plan may use. Whatever they are, an inspection without errors has a supported version, and the preparation that it shows
is the one of that version: `inspect_supported`.

The decimal digits of Unicode, SHA-256, `str` of what is no text and the reading of JSON and YAML are parameters.
-/

namespace LingshuGate.Plans

open Lib

abbrev Bytes := List UInt8

/-- What an expression raises: what `_read_lockfile` is expected to raise, or anything else. -/
inductive Raised
  | format
  | other
  deriving DecidableEq

inductive Manager
  | npm | pnpm | yarn
  deriving DecidableEq

def Manager.name : Manager → String
  | .npm => "npm"
  | .pnpm => "pnpm"
  | .yarn => "yarn"

def Manager.all : List Manager := [.npm, .pnpm, .yarn]

/-- In the order of their names. -/
inductive Lock
  | npmShrinkwrap | packageLock | pnpmLock | yarnLock
  deriving DecidableEq

def Lock.all : List Lock := [.npmShrinkwrap, .packageLock, .pnpmLock, .yarnLock]

def Lock.file : Lock → String
  | .npmShrinkwrap => "npm-shrinkwrap.json"
  | .packageLock => "package-lock.json"
  | .pnpmLock => "pnpm-lock.yaml"
  | .yarnLock => "yarn.lock"

/-- `LOCKS` -/
def Lock.manager : Lock → Manager
  | .npmShrinkwrap => .npm
  | .packageLock => .npm
  | .pnpmLock => .pnpm
  | .yarnLock => .yarn

/-- `SUPPORTED_MAJORS` -/
def supportedMajors : Manager → List Nat
  | .npm => [9, 10, 11]
  | .pnpm => [8, 9, 10, 11]
  | .yarn => [1]

/-- `DEFAULT_VERSIONS` -/
def defaultVersion : Manager → String
  | .npm => "11.6.0"
  | .pnpm => "9.15.4"
  | .yarn => "1.22.22"

/-- `INSTALL_COMMANDS` -/
def installCommand : Manager → List String
  | .npm => ["npm", "ci"]
  | .pnpm => ["pnpm", "install", "--frozen-lockfile"]
  | .yarn => ["yarn", "install", "--frozen-lockfile"]

structure Python where
  /-- `\d`, and what it counts. -/
  digit : Char → Option Nat
  sha256 : Bytes → String
  /-- `str` of what is no text. -/
  repr : Json → String
  /-- `str(json.loads(content).get("lockfileVersion", ""))` -/
  jsonLockVersion : Bytes → Except Raised String
  yamlLockVersion : Bytes → Except Raised String

variable (py : Python)

def Python.str : Json → String
  | .str s => s
  | v => py.repr v

/-! ## Versions -/

/-- `int(text)` of digits, which raises from 4301 of them on. -/
def Python.int (text : List Char) : Except Raised Nat := do
  require (text.length ≤ 4300) .format
  return text.foldl (fun n c => n * 10 + (py.digit c).getD 0) 0

/-- The groups of `^(\d+)\.(\d+)\.(\d+)$`. -/
def versionParts (version : String) : Option (List Char × List Char × List Char) :=
  match Py.splitChars '.' version.toList with
  | [major, minor, patch] =>
    if [major, minor, patch].all fun part => part ≠ [] && part.all fun c => (py.digit c).isSome then some (major, minor, patch) else none
  | _ => none

def supportedVersion (name version : String) : Except Raised Bool :=
  match versionParts py version, Manager.all.find? (·.name = name) with
  | none, _ => .ok false
  | some (major, _, _), none => do
    let _ ← py.int major
    return false
  | some (major, minor, _), some manager => do
    let n ← py.int major
    if n ∉ supportedMajors manager then return false
    if manager ≠ .yarn then return true
    return (← py.int minor) = 22

def nodeRequirement (name version : String) : String :=
  if name = "pnpm" && (versionParts py version).isSome && Py.startsWith version "11." then ">=22.13" else "verify_official_engines"

def removePrefix (text start : String) : String :=
  if Py.startsWith text start then String.ofList (text.toList.drop start.length) else text

/-- `tuple(…) >= (22, 13, 0)` -/
def nodeVersionSupported (name version nodeVersion : String) : Except Raised Bool :=
  if nodeRequirement py name version ≠ ">=22.13" then .ok true
  else match versionParts py (removePrefix nodeVersion "v") with
    | none => .ok false
    | some (major, minor, patch) => do
      let (a, b, _) := (← py.int major, ← py.int minor, ← py.int patch)
      return 22 < a || (a = 22 && 13 ≤ b)

/-- `sha(224|256|384|512)\.([a-fA-F0-9]+)`, of the length that it says. -/
def integritySupported (integrity : String) : Bool :=
  [("sha224.", 56), ("sha256.", 64), ("sha384.", 96), ("sha512.", 128)].any fun (start, length) =>
    Py.startsWith integrity start && integrity.length = start.length + length &&
      (integrity.toList.drop start.length).all fun c => c.isDigit || ('a' ≤ c && c ≤ 'f') || ('A' ≤ c && c ≤ 'F')

def optional (text : Option String) : Json := (text.map Json.str).getD .null

/-- `if declared_integrity:` and its check, which asks for a text. -/
def checkIntegrity (declaredIntegrity : Json) : Except Raised Unit :=
  if Json.truthy declaredIntegrity then match declaredIntegrity with
    | .str integrity => require (integritySupported integrity) .format
    | _ => .error .other
  else .ok ()

def toolPreparation (name version : String) (declaredIntegrity : Json) : Except Raised Json := do
  require (← supportedVersion py name version) .format
  checkIntegrity declaredIntegrity
  return .obj [("name", .str name), ("version", .str version), ("method", .str "official_distribution"),
    ("official_metadata_url", .str s!"https://registry.npmjs.org/{name}/{version}"),
    ("integrity_policy", .str "verify_official_sha512_before_extract"), ("declared_integrity", declaredIntegrity),
    ("cache_key_fields", .arr [.str "name", .str "version", .str "source_integrity"]),
    ("node_engine_policy", .str "verify_official_engines"), ("node_requirement", .str (nodeRequirement py name version)),
    ("unplanned_tool_downloads", .bool false), ("corepack_required", .bool false), ("execute_lifecycle", .bool false),
    ("limits", .obj [("timeout_seconds", .int 120), ("metadata_bytes", .int (1024 * 1024)), ("archive_bytes", .int (50 * 1024 * 1024)),
      ("expanded_bytes", .int (200 * 1024 * 1024)), ("files", .int 4000), ("retries", .int 0)])]

/-! ## The inspection -/

structure NodeToolchainOverride where
  name : Manager
  version : String
  lockfile : Option Lock
  deriving DecidableEq

/-- What was probed. -/
structure Tool where
  available : Bool
  version : String

structure LockFile where
  symlink : Bool
  content : Except Raised Bytes

def readLockfile (lockfiles : Lock → LockFile) (lock : Lock) (name : Manager) (version : String) : Except Raised (String × String) := do
  let file := lockfiles lock
  require (!file.symlink) .format
  let content ← file.content
  require (content.length ≤ 4 * 1024 * 1024) .format
  let lockVersion ← match name with
    | .npm => do
      let lockVersion ← py.jsonLockVersion content
      require (["2", "3"].contains lockVersion) .format
      pure lockVersion
    | .pnpm => do
      let lockVersion ← py.yamlLockVersion content
      let major ← py.int (version.toList.takeWhile (· ≠ '.'))
      require ((major = 8 && ["6", "6.0"].contains lockVersion) || ([9, 10, 11].contains major && ["9", "9.0"].contains lockVersion)) .format
      pure lockVersion
    | .yarn => do
      let marked := (Pattern.literal "# yarn lockfile v1".toUTF8.toList).occursIn (content.take 2048)
      let berry := (Pattern.literal "__metadata:".toUTF8.toList).occursIn content
      require (marked && !berry) .format
      pure "1"
  return (py.sha256 content, lockVersion)

/-- The groups of `DECLARATION`, and what is behind the first `+`. -/
structure Declaration where
  name : Manager
  version : String
  integrity : Option String

def declarationOf (text : String) : Option Declaration :=
  let head := text.toList.takeWhile (· ≠ '+')
  let tail := text.toList.dropWhile (· ≠ '+')
  let name := String.ofList (head.takeWhile (· ≠ '@'))
  let version := String.ofList ((head.dropWhile (· ≠ '@')).drop 1)
  let integrity := String.ofList (tail.drop 1)
  match Manager.all.find? (·.name = name) with
  | none => none
  | some manager =>
    if head.contains '@' && (versionParts py version).isSome && (tail = [] || pinned integrity) then
      some ⟨manager, version, if tail = [] then none else some integrity⟩
    else none
where
  /-- `sha(?:224|256|384|512)\.[A-Za-z0-9+/=]+` -/
  pinned (integrity : String) : Bool := ["sha224.", "sha256.", "sha384.", "sha512."].any fun start =>
    Py.startsWith integrity start && start.length < integrity.length &&
      (integrity.toList.drop start.length).all fun c => c.isAlphanum || ['+', '/', '='].contains c

/-- What the inspection has found. -/
structure Inspection where
  name : Manager
  version : String
  expectedVersion : String
  observedVersion : String
  selectedBy : String
  isolated : Bool
  override : Option NodeToolchainOverride
  requiresPrepare : Bool
  declaredIntegrity : Option String
  preparation : Option Json
  lockfile : Option Lock
  lockfileVersion : String
  lockfileSha256 : String
  detected : List Lock
  errors : List String
  warnings : List String
  choices : List (Manager × String × Lock)

def when (condition : Bool) (message : String) : List String := if condition then [message] else []

/-- `str(tool.get("version") or "").strip().removeprefix("v")` -/
def installedVersion (isolated : Bool) (tool : Tool) : String := if isolated then "" else removePrefix (Py.strip tool.version) "v"

/-- `pnpm 11` on this host, where it is not prepared. -/
def nodeTooOld (name : Manager) (version : String) (isolated requiresPrepare : Bool) (node : Tool) : Except Raised Bool := do
  if nodeRequirement py name.name version = ">=22.13" && !isolated && !requiresPrepare then
    return !(← nodeVersionSupported py name.name version node.version)
  return false

/-- The digest and the version of the selected lockfile, and whether it can be read. -/
def lockMetadata (lockfiles : Lock → LockFile) (detected : List Lock) (lockfile : Option Lock) (name : Manager) (version : String) :
    Except Raised (String × String × Bool) :=
  match lockfile with
  | none => .ok ("", "", true)
  | some lock =>
    if detected.contains lock then
      match readLockfile py lockfiles lock name version with
      | .ok (digest, lockVersion) => .ok (digest, lockVersion, true)
      | .error .format => .ok ("", "", false)
      | .error .other => .error .other
    else .ok ("", "", true)

/-- The first version that is supported and reads the lockfile. -/
def chooseVersion (lockfiles : Lock → LockFile) (lock : Lock) : List String → Except Raised (Option String)
  | [] => .ok none
  | candidate :: candidates => do
    if !(← supportedVersion py lock.manager.name candidate) then chooseVersion lockfiles lock candidates
    else match readLockfile py lockfiles lock lock.manager candidate with
      | .ok _ => return some candidate
      | .error .format => chooseVersion lockfiles lock candidates
      | .error .other => .error .other

def recommendedChoices (lockfiles : Lock → LockFile) (tools : Manager → Tool) (isolated : Bool) (detected : List Lock) :
    Except Raised (List (Manager × String × Lock)) := do
  let choices ← detected.mapM fun lock => do
    if lock = .packageLock && detected.contains .npmShrinkwrap then return none
    let installed := installedVersion isolated (tools lock.manager)
    let candidates := [installed, defaultVersion lock.manager] ++ if lock.manager = .pnpm then ["8.15.9"] else []
    return (← chooseVersion py lockfiles lock candidates.eraseDups).map fun version => (lock.manager, version, lock)
  return choices.reduceOption

structure Probe where
  manager : Manager → Tool
  node : Tool

/-- What is selected before a version is looked at. -/
structure Selection where
  detected : List Lock
  matched : Option Declaration
  declaredIntegrity : Option String
  name : Manager
  selectedBy : String
  lockfile : Option Lock
  errors : List String
  warnings : List String

/-- `package.get(key)`, where `None` is nothing. -/
def declared (package : List (String × Json)) (key : String) : Option Json :=
  match Py.dictGet package key with
  | some .null => none
  | value => value

/-- Only files immediately inside the selected project root participate. -/
def selectManager (package : List (String × Json)) (files : List String) (override : Option NodeToolchainOverride) : Selection :=
  let detected := Lock.all.filter fun lock => files.contains lock.file
  let declaration := declared package "packageManager"
  let matched := declaration.bind fun value => declarationOf py (py.str value)
  let declaredIntegrity := if override.isNone then matched.bind (·.integrity) else none
  let managers := (detected.map Lock.manager).eraseDups
  let name := (override.map (·.name)).getD ((matched.map (·.name)).getD (match managers with
    | [only] => only
    | _ => .npm))
  let selectedBy := if override.isSome then "project_override" else if matched.isSome then "packageManager"
    else if detected ≠ [] then "lockfile" else "default_policy"
  let undeclared := "packageManager is not an exact supported declaration; an explicit project override is required"
  let errors := when (declaredIntegrity.any fun integrity => !integritySupported integrity)
      "packageManager integrity must be a supported exact hexadecimal digest" ++
    when (declaration.isSome && matched.isNone && override.isNone) undeclared ++
    when (override.isNone && matched.isNone && 1 < managers.length)
      "Ambiguous dependency lockfiles: select a recommended project override"
  let warnings := when (declaration.isSome && matched.isNone && override.isSome) undeclared ++
    when (override.any fun o => matched.any fun m => (o.name, o.version) ≠ (m.name, m.version))
      "Explicit saved project override takes precedence over packageManager" ++
    when (override.isSome && matched.any (·.integrity.isSome))
      "Explicit project override replaces the declared integrity pin; official distribution verification remains required"
  let matching := detected.filter (·.manager = name)
  let lockfile := (override.bind (·.lockfile)).or (if matching.contains .npmShrinkwrap then some .npmShrinkwrap else matching.head?)
  let errors := errors ++
    when (lockfile.any fun lock => !detected.contains lock) "Selected dependency lockfile does not exist in this project root" ++
    when (name = .npm && lockfile = some .packageLock && matching.contains .npmShrinkwrap)
      "npm uses npm-shrinkwrap.json when present; select its native precedence" ++
    when (detected ≠ [] && matching = [])
      "packageManager conflicts with the dependency lockfile; select an explicit project override"
  let warnings := warnings ++ when (1 < detected.length && errors = [])
    ("Selected " ++ (lockfile.map Lock.file).getD "" ++ "; other lockfiles are preserved and are not consumed by this build")
  { detected, matched, declaredIntegrity, name, selectedBy, lockfile, errors, warnings }

/-- The version that was asked for, or the installed one if it is supported. -/
def selectedVersion (override : Option NodeToolchainOverride) (s : Selection) (observed : String) : Except Raised String :=
  match override, s.matched with
  | some o, _ => .ok o.version
  | none, some m => .ok m.version
  | none, none => do
    if ← supportedVersion py s.name.name observed then return observed else return defaultVersion s.name

/-- `tool_preparation(…) if requires_prepare and not errors else None` -/
def preparationOf (name : Manager) (version : String) (declaredIntegrity : Option String) (needed : Bool) : Except Raised (Option Json) :=
  if needed then some <$> toolPreparation py name.name version (optional declaredIntegrity) else .ok none

def inspectNodeToolchain (lockfiles : Lock → LockFile) (package : List (String × Json)) (files : List String) (tools : Probe)
    (override : Option NodeToolchainOverride) (isolated : Bool) : Except Raised Inspection := do
  let s := selectManager py package files override
  let tool := tools.manager s.name
  let observed := installedVersion isolated tool
  let version ← selectedVersion py override s observed
  let supported ← supportedVersion py s.name.name version
  let unsupported := when (!supported)
    "Requested packageManager version is unknown or outside the supported range; no replacement is permitted"
  let moved := when (supported && override.isNone && s.matched.isNone && version ≠ observed)
    s!"No exact packageManager version is declared; the confirmed plan pins policy version {s.name.name}@{version}"
  let requiresPrepare := isolated || s.declaredIntegrity.isSome || !tool.available || observed ≠ version
  let old ← nodeTooOld py s.name version isolated requiresPrepare tools.node
  let needsNode := when (nodeRequirement py s.name.name version = ">=22.13")
    "pnpm 11 requires actual executor Node >=22.13; Node is not automatically upgraded"
  let tooOld := when old
    "pnpm 11 requires Node >=22.13; provision a reviewed execution environment or explicitly select a compatible project override"
  let prepared := when (requiresPrepare && s.errors ++ unsupported ++ tooOld = [])
    s!"Prepare {s.name.name}@{version} from its verified official distribution in the isolated executor; no host installation"
  let (digest, lockVersion, readable) ← lockMetadata py lockfiles s.detected s.lockfile s.name version
  let unreadable := when (!readable) "Dependency lockfile format is invalid or unsupported for this manager version"
  let errors := s.errors ++ unsupported ++ tooOld ++ unreadable
  let choices ← recommendedChoices py lockfiles tools.manager isolated s.detected
  let preparation ← preparationOf py s.name version s.declaredIntegrity (requiresPrepare && errors = [])
  return {
    version, isolated, override, requiresPrepare, preparation, errors
    name := s.name
    selectedBy := s.selectedBy
    declaredIntegrity := s.declaredIntegrity
    lockfile := s.lockfile
    detected := s.detected
    warnings := s.warnings ++ moved ++ needsNode ++ prepared
    expectedVersion := (s.matched.map (·.version)).getD ""
    observedVersion := if (versionParts py observed).isSome then observed else ""
    lockfileVersion := lockVersion
    lockfileSha256 := digest
    choices := if errors = [] then [] else choices }

/-- `recommended_actions` -/
def Inspection.actions (i : Inspection) : List String :=
  if i.errors = [] then []
  else if nodeRequirement py i.name.name i.version = ">=22.13" then
    ["Provision actual Node >=22.13 in the reviewed executor; do not automatically change the pnpm 11 pin"]
  else ["Select a supported exact manager and a matching committed lockfile; unsupported Yarn Berry is never converted to Classic"]

def texts (items : List String) : Json := .arr (items.map .str)

/-- `model_dump()` -/
def NodeToolchainOverride.json (o : NodeToolchainOverride) : Json :=
  .obj [("name", .str o.name.name), ("version", .str o.version), ("lockfile", optional (o.lockfile.map Lock.file))]

/-- The dictionary that the inspection returns. -/
def Inspection.json (i : Inspection) : Json :=
  .obj [("name", .str i.name.name), ("version", .str i.version), ("expected_version", .str i.expectedVersion),
    ("observed_version", .str i.observedVersion), ("selected_by", .str i.selectedBy),
    ("observation_scope", .str (if i.isolated then "executor_cache_pending" else "local_host")),
    ("node_requirement", .str (nodeRequirement py i.name.name i.version)),
    ("project_override", (i.override.map NodeToolchainOverride.json).getD .null), ("requires_prepare", .bool i.requiresPrepare),
    ("declared_integrity", optional i.declaredIntegrity), ("preparation", i.preparation.getD .null),
    ("lockfile", .str ((i.lockfile.map Lock.file).getD "")), ("lockfile_version", .str i.lockfileVersion),
    ("lockfile_sha256", .str i.lockfileSha256), ("detected_lockfiles", texts (i.detected.map Lock.file)), ("errors", texts i.errors),
    ("warnings", texts i.warnings),
    ("recommended_choices", .arr (i.choices.map fun choice =>
      .obj [("name", .str choice.1.name), ("version", .str choice.2.1), ("lockfile", .str choice.2.2.file)])),
    ("supported", .bool (i.errors = [])), ("recommended_actions", texts (i.actions py))]

/-! ## The preflight -/

/-- `str(name).strip()` of a value of a dependency group. -/
def named (value : Json) : Bool := Py.strip (py.str value) ≠ ""

def nodeDependencyFields : List String :=
  ["dependencies", "optionalDependencies", "devDependencies", "peerDependencies", "bundledDependencies", "bundleDependencies"]

def nodeInstallLifecycleScripts : List String := ["preinstall", "install", "postinstall", "prepare"]

def hasEntries : Option Json → Bool
  | some (.obj fields) => fields.any fun kv => Py.strip kv.1 ≠ ""
  | some (.arr items) => items.any (named py)
  | _ => false

/-- `str(value or "").strip()` of a script. -/
def scripted (scripts : List (String × Json)) (name : String) : Bool :=
  match Py.dictGet scripts name with
  | some value => Json.truthy value && named py value
  | none => false

/-- Whether dependencies are to be installed, and why. -/
def nodeInstallMetadata (package scripts : List (String × Json)) : Bool × String :=
  let groups := nodeDependencyFields.filter fun field => hasEntries py (Py.dictGet package field)
  let lifecycle := nodeInstallLifecycleScripts.filter (scripted py scripts)
  let reason := if groups ≠ [] then "Node dependency groups present: " ++ ", ".intercalate groups
    else if lifecycle ≠ [] then "Node install lifecycle scripts present: " ++ ", ".intercalate lifecycle
    else "No Node dependencies or install lifecycle scripts detected"
  (groups ≠ [] || lifecycle ≠ [], reason)

/-- `PurePosixPath(text).parts` without the root. -/
def pathParts (text : String) : List String :=
  ((Py.splitChars '/' text.toList).filter fun part => part ≠ [] && part ≠ ['.']).map String.ofList

/-- The path is relative and spelled as `as_posix` spells it, in the directory, and names a script. -/
def entrypointPath (value : String) : Bool :=
  !Py.startsWith value "/" && !Py.startsWith value "-" && (if pathParts value = [] then "." else "/".intercalate (pathParts value)) = value &&
    !(pathParts value).contains ".." && !(pathParts value).contains ".git" &&
    value.toList.all (fun c => c ≠ ':' && c ≠ '\\' && 32 ≤ c.toNat) &&
    [".js", ".cjs", ".mjs"].any fun suffix => (pathParts value).getLast?.any fun last => last ≠ suffix && Py.endsWith last suffix

def text? : Json → Option String
  | .str s => some s
  | _ => none

def nodeBinEntrypoint (package : List (String × Json)) : String :=
  let values : List Json := match Py.dictGet package "bin" with
    | some (.str s) => [.str s]
    | some (.obj fields) => fields.map (·.2)
    | _ => []
  match values.mapM text? with
  | some (first :: rest) =>
    if rest.all (· = first) then
      let value := removePrefix first "./"
      if entrypointPath value then value else ""
    else ""
  | _ => ""

/-- What the plan reads of a preflight. -/
structure Metadata where
  packageScripts : List String
  hasPackageLock : Bool
  nodeInstallRequired : Bool
  nodeInstallReason : String
  /-- The empty dictionary, where there is no `package.json`. -/
  nodePackageManager : Option Inspection
  nodeBinEntrypoint : String
  hasRequirements : Bool
  pythonEntrypoint : String

structure Preflight where
  runtime : String
  projectRootDir : String
  metadata : Metadata

def inferRuntime (candidates : List String) : String :=
  match candidates.filter fun runtime => runtime = "node" || runtime = "python" with
  | [only] => only
  | _ :: _ => "ambiguous"
  | [] => if candidates.contains "docker" then "docker" else "unknown"

/-- The project as it is on the disk. -/
structure Project where
  root : String
  files : List String
  /-- What `package.json` parses to, if it does. -/
  package : Option Json
  lockfiles : Lock → LockFile

/-- `_first_existing` in the root. -/
def Project.firstExisting (p : Project) (candidates : List String) : Option String := candidates.find? p.files.contains

/-- `_read_json`, of a file that is there. -/
def Project.packageJson (p : Project) : List (String × Json) :=
  match p.package with
  | some (.obj fields) => if p.files.contains "package.json" then fields else []
  | _ => []

/-- `inspect_node_toolchain(…) if package_json else {}` -/
def Project.packageManager (p : Project) (tools : Probe) (override : Option NodeToolchainOverride) (isolated : Bool) :
    Except Raised (Option Inspection) :=
  if p.packageJson.isEmpty then .ok none
  else some <$> inspectNodeToolchain py p.lockfiles p.packageJson p.files tools override isolated

/-- `runtimeOverride` without blanks, in lower case. -/
def runBuildPreflight (p : Project) (tools : Probe) (runtimeOverride : Option String) (override : Option NodeToolchainOverride)
    (isolated : Bool) : Except Raised Preflight := do
  let package := p.packageJson
  let scripts : List (String × Json) := match Py.dictGet package "scripts" with
    | some (.obj fields) => fields
    | _ => []
  let install := nodeInstallMetadata py package scripts
  let manager ← p.packageManager py tools override isolated
  let pythonEntrypoint := p.firstExisting ["server.py", "main.py", "app.py"]
  let candidates := when (p.files.contains "package.json") "node" ++
    when (p.files.contains "pyproject.toml" || p.files.contains "requirements.txt" || pythonEntrypoint.isSome) "python" ++
    when (p.files.contains "Dockerfile") "docker"
  let runtime := match runtimeOverride with
    | some runtime => if runtime = "node" || runtime = "python" then runtime else inferRuntime candidates
    | none => inferRuntime candidates
  return ⟨runtime, p.root, {
    packageScripts := (scripts.map (·.1)).insertionSort (· ≤ ·)
    hasPackageLock := p.files.contains "package-lock.json"
    nodeInstallRequired := install.1
    nodeInstallReason := install.2
    nodePackageManager := manager
    nodeBinEntrypoint := nodeBinEntrypoint package
    hasRequirements := p.files.contains "requirements.txt"
    pythonEntrypoint := pythonEntrypoint.getD "" }⟩

/-! ## What an inspection without errors has found -/

variable {py}

theorem when_eq_nil {condition : Bool} {message : String} : when condition message = [] ↔ condition = false := by
  cases condition <;> simp [when]

theorem inspect_supported {lockfiles : Lock → LockFile} {package : List (String × Json)} {files : List String} {tools : Probe}
    {override : Option NodeToolchainOverride} {isolated : Bool} {i : Inspection}
    (h : inspectNodeToolchain py lockfiles package files tools override isolated = .ok i) (herrors : i.errors = []) :
    supportedVersion py i.name.name i.version = .ok true ∧ (i.requiresPrepare = true → ∃ preparation,
      i.preparation = some preparation ∧ toolPreparation py i.name.name i.version (optional i.declaredIntegrity) = .ok preparation) := by
  unfold inspectNodeToolchain at h
  simp only [bind_eq_ok, pure_eq_ok, Prod.exists] at h
  obtain ⟨version, -, supported, hsupported, old, -, digest, lockVersion, readable, -, choices, -, preparation, hpreparation, rfl⟩ := h
  have hnone := herrors
  simp only [List.append_eq_nil_iff, when_eq_nil] at hnone
  obtain ⟨⟨⟨-, hunsupported⟩, -⟩, -⟩ := hnone
  obtain rfl : supported = true := by simpa using hunsupported
  refine ⟨hsupported, ?_⟩
  intro hprepare
  simp only at herrors hprepare
  rw [preparationOf, if_pos (by rw [hprepare, herrors]; rfl)] at hpreparation
  cases hresult : toolPreparation py (selectManager py package files override).name.name version
      (optional (selectManager py package files override).declaredIntegrity) with
  | error e =>
    rw [hresult] at hpreparation
    cases hpreparation
  | ok value =>
    rw [hresult] at hpreparation
    cases hpreparation
    exact ⟨value, rfl, rfl⟩

end LingshuGate.Plans
