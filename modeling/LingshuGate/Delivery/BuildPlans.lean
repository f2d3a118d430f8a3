import LingshuGate.Delivery.NodeToolchain

/-!
# Build plans (`build_plan.py`)

| here | there |
| --- | --- |
| `buildPlan`    | `build_plan` (27), with `_blocked` and `_step` |
| `validatePlan` | `validate_plan` (162) |
| `planWaves`    | `plan_waves` (321) |

A plan is a dictionary that is stored and shown before it is run. The validator reads it as any dictionary: what is there under a
key may be of any kind, and reading it may raise. It derives the steps, their commands and their dependencies again, from tables
of its own: `plans_agree` is that what the builder compiles is what the validator derives.
-/

namespace LingshuGate.Plans

open Lib

/-- How numbers of different kinds compare. -/
structure Floats where
  same : String → String → Bool
  sameInt : String → Int → Bool

section Equality

variable (floats : Floats)

mutual

/-- `==` -/
def same : Json → Json → Bool
  | .null, .null => true
  | .str a, .str b => a = b
  | .float a, .float b => floats.same a b
  | .float a, .int n => floats.sameInt a n
  | .float a, .bool b => floats.sameInt a b.toNat
  | .int n, .float b => floats.sameInt b n
  | .bool a, .float b => floats.sameInt b a.toNat
  | .int n, .int m => n = m
  | .int n, .bool b => n = b.toNat
  | .bool a, .int m => a.toNat = m
  | .bool a, .bool b => a = b
  | .arr xs, .arr ys => sameItems xs ys
  | .obj xs, .obj ys => xs.length = ys.length && sameFields xs ys
  | _, _ => false

def sameItems : List Json → List Json → Bool
  | [], [] => true
  | x :: xs, y :: ys => same x y && sameItems xs ys
  | _, _ => false

def sameFields : List (String × Json) → List (String × Json) → Bool
  | [], _ => true
  | (key, x) :: xs, ys => (match ys.find? fun kv => kv.1 = key with
    | some (_, y) => same x y
    | none => false) && sameFields xs ys

end

end Equality

/-! ## The builder -/

def step (id phase : String) (command : List String) (reason : String) (dependsOn : List String) : Json :=
  .obj [("id", .str id), ("phase", .str phase), ("command", texts command), ("reason", .str reason), ("depends_on", texts dependsOn)]

def blocked (runtime projectRootDir : String) (messages : List String) : List (String × Json) :=
  [("ir_version", .int 1), ("runtime", .str runtime), ("buildable", .bool false), ("project_root_dir", .str projectRootDir),
    ("steps", .arr []), ("artifact", .null), ("manifest", .null), ("warnings", texts messages), ("notes", .arr [])]

def nodeEntrypoints : List String := ["dist/index.js", "index.js", "src/index.js"]

def pythonEntrypoints : List String := ["server.py", "main.py", "app.py"]

/-- The plan of a project that can be built. -/
def compiled (runtime projectRootDir : String) (steps : List Json) (manifest packageManager : Json) (warnings : List String) : Json :=
  .obj [("ir_version", .int 1), ("runtime", .str runtime), ("buildable", .bool true), ("project_root_dir", .str projectRootDir),
    ("steps", .arr steps),
    ("artifact", .obj [("strategy", .str "copy_tree"), ("ignore", texts [".git", ".venv", "venv", "target", "__pycache__"])]),
    ("manifest", manifest), ("package_manager", packageManager),
    ("warnings", texts (warnings ++ when steps.isEmpty "No install/build step required for this project.")),
    ("notes", .arr [.str (s!"{steps.length} build step(s); manifest entrypoint resolved " ++
      if steps.isEmpty then "after artifact packaging." else "after build.")])]

section Build

variable (py : Python)

/-- The manager that a plan names. -/
def managerOf (m : Metadata) : Manager := (m.nodePackageManager.map (·.name)).getD .npm

def managerErrors (m : Metadata) : List String := (m.nodePackageManager.map (·.errors)).getD []

/-- `manager.get("requires_prepare")`, with its version. -/
def preparedVersion (m : Metadata) : Option String := (m.nodePackageManager.filter (·.requiresPrepare)).map (·.version)

def hasLockfile (m : Metadata) : Bool := m.nodePackageManager.any (·.lockfile.isSome)

/-- `commands_required` -/
def commandsRequired (m : Metadata) (runInstall runBuild : Bool) : Bool :=
  (runInstall && m.nodeInstallRequired) || (runBuild && m.packageScripts.contains "build") || m.packageScripts.contains "start"

def installStep (manager : Manager) (reason : String) (previous : List String) : Json :=
  step "node-install" "install" (installCommand manager) reason previous

def nodeSteps (m : Metadata) (runInstall runBuild : Bool) : List Json :=
  let manager := managerOf m
  let toolchain := (if commandsRequired m runInstall runBuild then preparedVersion m else none).toList.map fun version =>
    step "node-toolchain" "prepare" ["gate-package-manager", "prepare", manager.name, version]
      "Prepare the exact official tool in an executor-owned version/integrity cache; no lifecycle or global installation" []
  let prepared := if toolchain.isEmpty then [] else ["node-toolchain"]
  let reason := Py.strip m.nodeInstallReason
  let reason := if reason ≠ "" then reason else if m.hasPackageLock then "package-lock.json present"
    else "Node dependencies or install lifecycle scripts present"
  let install := if runInstall && m.nodeInstallRequired then [installStep manager reason prepared] else []
  let previous := if install.isEmpty then prepared else ["node-install"]
  let build := if runBuild && m.packageScripts.contains "build" then
    [step "node-build" "build" [manager.name, "run", "build"] "scripts.build present" previous] else []
  toolchain ++ install ++ build

def nodeWarnings (m : Metadata) (runInstall : Bool) : List String :=
  let reason := Py.strip m.nodeInstallReason
  (m.nodePackageManager.map (·.warnings)).getD [] ++ if runInstall && m.nodeInstallRequired then
      ["Dependency installation and scripts.build may execute project/dependency lifecycle code; confirmation authorizes these listed steps in the selected executor."]
    else if runInstall then
      [if reason ≠ "" then reason else "No Node dependencies or install lifecycle scripts detected; skipping dependency install."]
    else []

/-- `metadata.get("node_package_manager")` -/
def packageManager (m : Metadata) : Json := (m.nodePackageManager.map (·.json py)).getD (.obj [])

def nodeManifest (m : Metadata) (steps : List Json) : Json :=
  .obj [("launch_type", .str "managed_process"), ("transport", .str "stdio"), ("runtime", .str "node"),
    ("start_script", .bool (m.packageScripts.contains "start")), ("package_manager", .str (managerOf m).name),
    ("entrypoint_candidates", texts ((if m.nodeBinEntrypoint = "" then [] else [m.nodeBinEntrypoint]) ++ nodeEntrypoints)),
    ("resolve_after_build", .bool !steps.isEmpty)]

def recommended (m : Metadata) : List (String × Json) :=
  match m.nodePackageManager with
  | some i => [("package_manager", i.json py), ("recommended_choices", ((i.json py).get? "recommended_choices").getD (.arr []))]
  | none => [("package_manager", .obj []), ("recommended_choices", .arr [])]

def pythonSteps (m : Metadata) (runInstall : Bool) : List Json :=
  if runInstall && m.hasRequirements then
    [step "python-install" "install" ["python", "-m", "pip", "install", "-r", "requirements.txt"] "requirements.txt present" []]
  else []

def pythonManifest (m : Metadata) (steps : List Json) : Json :=
  .obj [("launch_type", .str "managed_process"), ("transport", .str "stdio"), ("runtime", .str "python"),
    ("entrypoint_candidates", texts pythonEntrypoints), ("python_entrypoint", .str m.pythonEntrypoint),
    ("resolve_after_build", .bool !steps.isEmpty)]

def buildPlan (p : Preflight) (runInstall runBuild : Bool) : Json :=
  let m := p.metadata
  let runtime := if p.runtime = "" then "unknown" else p.runtime
  if runtime = "node" then
    if commandsRequired m runInstall runBuild && managerErrors m ≠ [] then
      .obj (blocked runtime p.projectRootDir (managerErrors m) ++ recommended py m)
    else if runInstall && m.nodeInstallRequired && !hasLockfile m then
      .obj (blocked runtime p.projectRootDir ["Deterministic Node installation requires one supported lockfile."])
    else
      let steps := nodeSteps m runInstall runBuild
      compiled runtime p.projectRootDir steps (nodeManifest m steps) (packageManager py m) (nodeWarnings m runInstall)
  else if runtime = "python" then
    let steps := pythonSteps m runInstall
    compiled runtime p.projectRootDir steps (pythonManifest m steps) .null
      (when (runInstall && !m.hasRequirements) "No requirements.txt found; skipping dependency install.")
  else
    .obj (blocked runtime p.projectRootDir
      [s!"Runtime '{runtime}' is not buildable by the local executor. Select runtime=node or runtime=python."])

end Build

/-! ## The validator -/

/-- `value.get(key)` of a dictionary. -/
def field (value : Json) (key : String) : Json := (value.get? key).getD .null

/-- `value.get(key)`, which raises where there is no dictionary. -/
def read (value : Json) (key : String) : Except Raised Json := if value.isObject then .ok (field value key) else .error .other

/-- `value or {}` -/
def orEmpty (value : Json) : Json := if Json.truthy value then value else .obj []

/-- The items of what is iterated. -/
def items : Json → Except Raised (List Json)
  | .arr xs => .ok xs
  | .str s => .ok (s.toList.map fun c => .str (String.singleton c))
  | .obj fields => .ok (fields.map fun kv => .str kv.1)
  | _ => .error .other

/-- `command[0]` of what is not empty. -/
def firstItem : Json → Except Raised Json
  | .arr (x :: _) => .ok x
  | .str s => Lib.expect (s.toList.head?.map fun c => .str (String.singleton c)) .other
  | _ => .error .other

/-- `value in {…}` of texts, which raises where the value has no hash. -/
def inSet (value : Json) (names : List String) : Except Raised Bool :=
  match value with
  | .str s => .ok (names.contains s)
  | .arr _ | .obj _ => .error .other
  | _ => .ok false

def isList : Json → Bool
  | .arr _ => true
  | _ => false

def isNull : Json → Bool
  | .null => true
  | _ => false

def list : Json → List Json
  | .arr xs => xs
  | _ => []

/-- `DETERMINISTIC_STEPS[runtime][step_id]`: the phase, and the commands. -/
def deterministicStep (runtime stepId : String) : Option (String × List (List String)) :=
  if runtime = "node" then
    if stepId = "node-toolchain" then some ("prepare", [])
    else if stepId = "node-install" then
      some ("install", [["npm", "ci"], ["pnpm", "install", "--frozen-lockfile"], ["yarn", "install", "--frozen-lockfile"]])
    else if stepId = "node-build" then some ("build", [["npm", "run", "build"], ["pnpm", "run", "build"], ["yarn", "run", "build"]])
    else none
  else if runtime = "python" && stepId = "python-install" then
    some ("install", [["python", "-m", "pip", "install", "-r", "requirements.txt"]])
  else none

/-- `DETERMINISTIC_STEP_SEQUENCES[runtime]` -/
def deterministicSequences (runtime : String) : List (List String) :=
  if runtime = "node" then
    [[], ["node-install"], ["node-build"], ["node-install", "node-build"], ["node-toolchain"], ["node-toolchain", "node-install"],
      ["node-toolchain", "node-build"], ["node-toolchain", "node-install", "node-build"]]
  else if runtime = "python" then [[], ["python-install"]]
  else []

section Validate

variable (py : Python) (floats : Floats)

/-- `str(value or "")` -/
def strOr (value : Json) : String := if Json.truthy value then py.str value else ""

def versionErrors (plan : Json) : List String :=
  match field plan "ir_version" with
  | .int n => when (n ≠ 1) s!"ir_version {n} is unsupported; expected 1"
  | .bool b => when (!b) "ir_version False is unsupported; expected 1"
  | _ => ["ir_version missing or not an integer"]

/-- `supported_version(str(manager.get("name") or ""), str(manager.get("version") or ""))` -/
def managerSupported (manager : Json) : Except Raised Bool := do
  supportedVersion py (strOr py (← read manager "name")) (strOr py (← read manager "version"))

/-- The manifest, or the empty dictionary. -/
def dictionary (value : Json) : Json := if value.isObject then value else .obj []

def startErrors (plan : Json) (runtime : String) : Except Raised (List String) := do
  let manifest := dictionary (field plan "manifest")
  if runtime = "node" && Json.truthy (field manifest "start_script") then
    let manager := dictionary (field plan "package_manager")
    let supported ← managerSupported py manager
    return when (!(supported && same floats (field manifest "package_manager") (field manager "name")))
      "Node start script requires a matching supported exact runtime toolchain"
  return []

def strategyErrors (plan : Json) (runtime : String) : Except Raised (List String) := do
  let artifact := field plan "artifact"
  let start ← startErrors py floats plan runtime
  return when (!(["node", "python"].contains runtime)) s!"buildable plan has unsupported runtime: {runtime}" ++
    when (!(field plan "manifest").isObject) "buildable plan requires a manifest strategy" ++
    when (!(artifact.isObject && Json.truthy (field artifact "strategy"))) "buildable plan requires artifact.strategy" ++ start

/-- `tool_preparation(…)`, where a `ValueError` gives `None`. -/
def expectedPreparation (manager : Json) : Except Raised Json :=
  match toolPreparation py (strOr py (field manager "name")) (strOr py (field manager "version")) (field manager "declared_integrity") with
  | .ok preparation => .ok preparation
  | .error .format => .ok .null
  | .error .other => .error .other

/-- What a command of a Node plan must be. -/
def nodeErrors (index : Nat) (stepId : String) (command manager : Json) : Except Raised (List String) := do
  let commands ←
    if stepId = "node-toolchain" then do
      let name ← read manager "name"
      let version ← read manager "version"
      let preparation ← expectedPreparation py manager
      pure (when (!same floats command (.arr [.str "gate-package-manager", .str "prepare", name, version]))
          "Tool preparation must match the selected exact manager/version" ++
        when (!(Json.truthy (field manager "requires_prepare") && same floats (field manager "preparation") preparation))
          "Tool preparation does not match the generated official distribution policy")
    else if Json.truthy command then do
      let first ← firstItem command
      let name ← read manager "name"
      pure (when (!same floats first name) s!"step[{index}] conflicts with the selected package manager")
    else pure []
  let supported ← managerSupported py manager
  let claimed ← read manager "supported"
  return commands ++ when (!(supported && Json.truthy claimed)) "Node command requires a supported exact package manager"

def stepErrors (plan : Json) (runtime : String) (index : Nat) (step : Json) : Except Raised (List String) := do
  if !step.isObject then return [s!"step[{index}] is not an object"]
  let id := field step "id"
  let phase := field step "phase"
  let command := field step "command"
  let stepId := strOr py id
  let known ← inSet phase ["prepare", "install", "build"]
  let generated := match deterministicStep runtime stepId with
    | none => [s!"step[{index}] is not generated for runtime {runtime}: {stepId}"]
    | some (allowed, commands) =>
      when (!(same floats phase (.str allowed) &&
          (stepId = "node-toolchain" || commands.any fun expected => same floats command (texts expected))))
        s!"step[{index}] does not match the generated command for {stepId}"
  let node ← if runtime = "node" then
      nodeErrors py floats index stepId (if Json.truthy command then command else .arr []) (orEmpty (field plan "package_manager"))
    else pure []
  return when (!Json.truthy id) s!"step[{index}] missing id" ++ when (!known) s!"step[{index}] has invalid phase: {py.str phase}" ++
    when (!(isList command && Json.truthy command)) s!"step[{index}] command must be a non-empty list" ++
    when (!(isNull (field step "depends_on") || isList (field step "depends_on"))) s!"step[{index}] depends_on must be a list" ++
    generated ++ node

def expectedDependencies (stepIds : List String) (id : Json) : Except Raised (List String) := do
  if same floats id (.str "node-build") && stepIds.contains "node-install" then return ["node-install"]
  if (← inSet id ["node-install", "node-build"]) && stepIds.contains "node-toolchain" then return ["node-toolchain"]
  return []

def dependencyErrors (stepIds : List String) (index : Nat) (step : Json) : Except Raised (List String) := do
  let id := field step "id"
  let expected ← expectedDependencies floats stepIds id
  return when (!same floats (field step "depends_on") (texts expected))
    s!"step[{index}] has unexpected dependencies for {py.str id}"

/-! ### Waves -/

/-- The steps that a step waits for, by their number: the last one with the name. A `ValueError` is a text. -/
def resolvedDependencies (steps : List Json) (step : Json) : Except Raised (Except String (List Nat)) := do
  let names ← items (if Json.truthy (field step "depends_on") then field step "depends_on" else .arr [])
  let ids := steps.map fun step => py.str (field step "id")
  return names.mapM fun dep =>
    match (List.range ids.length).reverse.find? fun index => ids[index]? = some (py.str dep) with
    | some index => .ok index
    | none => .error ("step '" ++ py.str (field step "id") ++ "' depends on unknown step '" ++ py.str dep ++ "'")

/-- The steps whose dependencies are done, again and again; `fuel` waves at most. -/
def waves (deps : List (List Nat)) : Nat → List Nat → List Nat → Except String (List (List Nat))
  | _, _, [] => .ok []
  | 0, _, _ :: _ => .error "dependency cycle detected in build plan steps"
  | fuel + 1, done, index :: rest =>
    let remaining := index :: rest
    let ready := remaining.filter fun index => (deps[index]?.getD []).all done.contains
    if ready = [] then .error "dependency cycle detected in build plan steps"
    else (ready :: ·) <$> waves deps fuel (done ++ ready) (remaining.filter fun index => !ready.contains index)

/-- Up to the first step that waits for an unknown one. -/
def allDependencies (steps : List Json) : List Json → Except Raised (Except String (List (List Nat)))
  | [] => .ok (.ok [])
  | step :: rest => do
    match ← resolvedDependencies py steps step with
    | .error message => return .error message
    | .ok found => return (found :: ·) <$> (← allDependencies steps rest)

def planWaves (steps : List Json) : Except Raised (Except String (List (List Nat))) := do
  return (← allDependencies py steps steps) >>= fun deps => waves deps steps.length [] (List.range steps.length)

def sequenceErrors (plan : Json) (runtime : String) (buildable : Bool) (steps : List Json) : Except Raised (List String) := do
  let stepIds := steps.map fun step => strOr py (field step "id")
  let dependencies ← steps.zipIdx.mapM fun (step, index) => dependencyErrors py floats stepIds index step
  let unprepared ← if runtime = "node" && !steps.isEmpty then do
      let required ← read (orEmpty (field plan "package_manager")) "requires_prepare"
      pure (Json.truthy required && !stepIds.contains "node-toolchain")
    else pure false
  let waves ← planWaves py steps
  return when (buildable && !(deterministicSequences runtime).contains stepIds)
      (s!"step sequence is not generated for runtime {runtime}: " ++ ", ".intercalate stepIds) ++
    dependencies.flatten ++ when unprepared "Required tool preparation is missing" ++
    match waves with
    | .ok _ => []
    | .error message => [message]

structure Verdict where
  errors : List String
  normalized : Option Json

def validatePlan (plan : Json) : Except Raised Verdict := do
  if !plan.isObject then return ⟨["plan is not an object"], none⟩
  let buildable := Json.truthy (field plan "buildable")
  let runtime := strOr py (field plan "runtime")
  let steps := list (field plan "steps")
  let strategy ← if buildable then strategyErrors py floats plan runtime else pure []
  let each ← steps.zipIdx.mapM fun (step, index) => stepErrors py floats plan runtime index step
  let sequence ← if steps.all Json.isObject then sequenceErrors py floats plan runtime buildable steps else pure []
  let errors := versionErrors plan ++ when (!isList (field plan "steps")) "steps must be a list" ++ strategy ++ each.flatten ++ sequence
  return ⟨errors, if errors.isEmpty then some plan else none⟩

end Validate

/-! ## Values that are themselves -/

variable {py : Python} {floats : Floats}

mutual

/-- No number with a fraction, and each key once. -/
def plain : Json → Bool
  | .float _ => false
  | .arr xs => plainItems xs
  | .obj fields => plainFields fields && (fields.map (·.1)).Nodup
  | _ => true

def plainItems : List Json → Bool
  | [] => true
  | x :: xs => plain x && plainItems xs

def plainFields : List (String × Json) → Bool
  | [] => true
  | (_, x) :: xs => plain x && plainFields xs

end

theorem find_of_nodup {fields : List (String × Json)} (hnodup : (fields.map (·.1)).Nodup) {kv : String × Json} (h : kv ∈ fields) :
    fields.find? (fun other => other.1 = kv.1) = some kv := by
  induction fields with
  | nil => cases h
  | cons first fields ih =>
    obtain ⟨hfirst, hrest⟩ := List.nodup_cons.mp hnodup
    rcases List.mem_cons.mp h with rfl | hmem
    · simp
    have hne : first.1 ≠ kv.1 := by
      intro heq
      exact hfirst (List.mem_map.mpr ⟨kv, hmem, heq.symm⟩)
    rw [List.find?_cons_of_neg (by simpa using hne)]
    exact ih hrest hmem

mutual

theorem same_self {v : Json} (h : plain v = true) : same floats v v = true := by
  match v with
  | .null | .bool _ | .int _ | .str _ => simp [same]
  | .float _ => cases h
  | .arr xs => exact sameItems_self h
  | .obj fields =>
    rw [plain, Bool.and_eq_true, decide_eq_true_eq] at h
    rw [same, sameFields_self h.1 h.2 (fun _ hkv => hkv)]
    simp

theorem sameItems_self {xs : List Json} (h : plainItems xs = true) : sameItems floats xs xs = true := by
  match xs with
  | [] => rfl
  | x :: xs =>
    rw [plainItems, Bool.and_eq_true] at h
    rw [sameItems, same_self h.1, sameItems_self h.2]
    rfl

theorem sameFields_self {xs fields : List (String × Json)} (h : plainFields xs = true) (hnodup : (fields.map (·.1)).Nodup)
    (hsub : ∀ kv ∈ xs, kv ∈ fields) : sameFields floats xs fields = true := by
  match xs with
  | [] => rfl
  | (key, x) :: xs =>
    rw [plainFields, Bool.and_eq_true] at h
    have hfind : fields.find? (fun kv => kv.1 = key) = some (key, x) := find_of_nodup hnodup (hsub _ List.mem_cons_self)
    rw [sameFields, hfind, sameFields_self h.2 hnodup fun kv hkv => hsub kv (List.mem_cons_of_mem _ hkv)]
    simp [same_self h.1]

end

theorem plain_toolPreparation {name version : String} {integrity : Option String} {preparation : Json}
    (h : toolPreparation py name version (optional integrity) = .ok preparation) : plain preparation = true := by
  simp only [toolPreparation, bind_eq_ok, pure_eq_ok] at h
  obtain ⟨-, -, -, -, -, -, rfl⟩ := h
  cases integrity <;> rfl

theorem texts_same (xs : List String) : same floats (texts xs) (texts xs) = true := by
  refine same_self ?_
  induction xs with
  | nil => rfl
  | cons x xs ih => exact ih

/-! ## What the validator reads of a compiled plan -/

theorem strOr_str (s : String) : strOr py (.str s) = s := by
  by_cases h : s = ""
  · simp [strOr, Json.truthy, h]
  · simp [strOr, Json.truthy, h, Python.str]

@[simp] theorem field_step {id phase reason : String} {command dependsOn : List String} :
    field (step id phase command reason dependsOn) "id" = .str id ∧ field (step id phase command reason dependsOn) "phase" = .str phase ∧
    field (step id phase command reason dependsOn) "command" = texts command ∧
    field (step id phase command reason dependsOn) "depends_on" = texts dependsOn := ⟨rfl, rfl, rfl, rfl⟩

theorem managerSupported_json (i : Inspection) : managerSupported py (i.json py) = supportedVersion py i.name.name i.version := by
  have hname : read (i.json py) "name" = .ok (.str i.name.name) := rfl
  have hversion : read (i.json py) "version" = .ok (.str i.version) := rfl
  rw [managerSupported, hname, hversion]
  show supportedVersion py (strOr py (.str i.name.name)) (strOr py (.str i.version)) = _
  rw [strOr_str, strOr_str]

/-- The command of a step is one of a manager that may be used. -/
theorem nodeErrors_command {i : Inspection} {index : Nat} {stepId : String} {arguments : List String}
    (hsupported : supportedVersion py i.name.name i.version = .ok true) (herrors : i.errors = []) (hid : stepId ≠ "node-toolchain") :
    nodeErrors py floats index stepId (texts (i.name.name :: arguments)) (i.json py) = .ok [] := by
  have hfirst : firstItem (texts (i.name.name :: arguments)) = .ok (.str i.name.name) := rfl
  have hname : read (i.json py) "name" = .ok (.str i.name.name) := rfl
  have hclaimed : read (i.json py) "supported" = .ok (.bool (i.errors = [])) := rfl
  have hsame : same floats (.str i.name.name) (.str i.name.name) = true := same_self rfl
  simp [nodeErrors, hid, hfirst, hname, hclaimed, managerSupported_json, hsupported, herrors, hsame, Json.truthy, when,
    bind, Except.bind, pure, Except.pure]

theorem nodeErrors_toolchain {i : Inspection} {index : Nat} (hsupported : supportedVersion py i.name.name i.version = .ok true)
    (herrors : i.errors = []) (hprepare : i.requiresPrepare = true) {preparation : Json} (hfound : i.preparation = some preparation)
    (hpreparation : toolPreparation py i.name.name i.version (optional i.declaredIntegrity) = .ok preparation) :
    nodeErrors py floats index "node-toolchain" (texts ["gate-package-manager", "prepare", i.name.name, i.version]) (i.json py) =
      .ok [] := by
  have hname : read (i.json py) "name" = .ok (.str i.name.name) := rfl
  have hversion : read (i.json py) "version" = .ok (.str i.version) := rfl
  have hclaimed : read (i.json py) "supported" = .ok (.bool (i.errors = [])) := rfl
  have hrequired : field (i.json py) "requires_prepare" = .bool i.requiresPrepare := rfl
  have hcarried : field (i.json py) "preparation" = i.preparation.getD .null := rfl
  have hexpected : expectedPreparation py (i.json py) = .ok preparation := by
    have hread : expectedPreparation py (i.json py) = match toolPreparation py (strOr py (.str i.name.name)) (strOr py (.str i.version))
        (optional i.declaredIntegrity) with
      | .ok preparation => .ok preparation
      | .error .format => .ok .null
      | .error .other => .error .other := rfl
    rw [hread, strOr_str, strOr_str, hpreparation]
  have hcommand : same floats (texts ["gate-package-manager", "prepare", i.name.name, i.version])
      (.arr [.str "gate-package-manager", .str "prepare", .str i.name.name, .str i.version]) = true := texts_same _
  have hsame : same floats preparation preparation = true := same_self (plain_toolPreparation hpreparation)
  simp [nodeErrors, hname, hversion, hclaimed, hrequired, hcarried, hexpected, hcommand, hsame, hprepare, hfound, managerSupported_json,
    hsupported, herrors, Json.truthy, when, bind, Except.bind, pure, Except.pure]

theorem stepErrors_generated {plan : Json} {runtime id phase reason : String} {command dependsOn : List String} {index : Nat}
    {commands : List (List String)} (hid : id ≠ "") (hphase : ["prepare", "install", "build"].contains phase = true)
    (hcommand : command ≠ []) (hgenerated : deterministicStep runtime id = some (phase, commands))
    (hmatches : id = "node-toolchain" ∨ command ∈ commands)
    (hnode : runtime = "node" → nodeErrors py floats index id (texts command) (orEmpty (field plan "package_manager")) = .ok []) :
    stepErrors py floats plan runtime index (step id phase command reason dependsOn) = .ok [] := by
  obtain ⟨hfieldId, hfieldPhase, hfieldCommand, hfieldDepends⟩ := @field_step id phase reason command dependsOn
  have hobject : (step id phase command reason dependsOn).isObject = true := rfl
  have htruthy : Json.truthy (texts command) = true := by
    cases command with
    | nil => exact absurd rfl hcommand
    | cons _ _ => rfl
  have hlists (xs : List String) : isList (texts xs) = true := rfl
  have hidTruthy : Json.truthy (.str id) = true := by simp [Json.truthy, hid]
  have hsamePhase : same floats (.str phase) (.str phase) = true := same_self rfl
  have hcommands : (id = "node-toolchain" || commands.any fun expected => same floats (texts command) (texts expected)) = true := by
    rcases hmatches with htoolchain | hmem
    · simp [htoolchain]
    · rw [Bool.or_eq_true]
      exact .inr (List.any_eq_true.mpr ⟨command, hmem, texts_same command⟩)
  simp only [stepErrors, hobject, hfieldId, hfieldPhase, hfieldCommand, hfieldDepends, strOr_str, hgenerated, hlists, htruthy, hidTruthy,
    hsamePhase, hcommands, inSet, hphase]
  by_cases hruntime : runtime = "node"
  · simp [hruntime, hnode hruntime, when, bind, Except.bind, pure, Except.pure]
  · simp [hruntime, when, bind, Except.bind, pure, Except.pure]

/-! ## What the builder compiles for Node -/

/-- What a preflight says of a manager is so, and without `package.json` nothing is to be run. -/
structure Inspected (py : Python) (m : Metadata) : Prop where
  supported : ∀ i, m.nodePackageManager = some i → i.errors = [] →
    supportedVersion py i.name.name i.version = .ok true ∧ (i.requiresPrepare = true → ∃ preparation,
      i.preparation = some preparation ∧ toolPreparation py i.name.name i.version (optional i.declaredIntegrity) = .ok preparation)
  bare : m.nodePackageManager = none → m.packageScripts = [] ∧ m.nodeInstallRequired = false

theorem nodeInstallMetadata_nil : (nodeInstallMetadata py [] []).1 = false := by
  simp [nodeInstallMetadata, nodeDependencyFields, nodeInstallLifecycleScripts, hasEntries, scripted, Py.dictGet]

theorem runBuildPreflight_inspected {project : Project} {tools : Probe} {runtimeOverride : Option String}
    {override : Option NodeToolchainOverride} {isolated : Bool} {p : Preflight}
    (h : runBuildPreflight py project tools runtimeOverride override isolated = .ok p) : Inspected py p.metadata := by
  simp only [runBuildPreflight, bind_eq_ok, pure_eq_ok] at h
  obtain ⟨manager, hmanager, rfl⟩ := h
  rw [Project.packageManager] at hmanager
  split at hmanager
  · rename_i hempty
    have hbare : project.packageJson = [] := List.isEmpty_iff.mp hempty
    cases hmanager
    refine ⟨?_, ?_⟩
    · intro i hi
      simp only [reduceCtorEq] at hi
    · intro _
      simp only [hbare]
      exact ⟨rfl, nodeInstallMetadata_nil⟩
  cases hinspect : inspectNodeToolchain py project.lockfiles project.packageJson project.files tools override isolated with
  | error e =>
    rw [hinspect] at hmanager
    cases hmanager
  | ok i =>
    rw [hinspect] at hmanager
    cases hmanager
    refine ⟨?_, ?_⟩
    · intro i' hi' herrors
      simp only [Option.some.injEq] at hi'
      subst hi'
      exact inspect_supported hinspect herrors
    · intro hnone
      simp only [reduceCtorEq] at hnone

variable {m : Metadata} {runInstall runBuild : Bool}

/-- The three steps that a Node plan may have. -/
theorem mem_nodeSteps {s : Json} (h : s ∈ nodeSteps m runInstall runBuild) : commandsRequired m runInstall runBuild = true ∧
    ((∃ i reason, m.nodePackageManager = some i ∧ i.requiresPrepare = true ∧
        s = step "node-toolchain" "prepare" ["gate-package-manager", "prepare", (managerOf m).name, i.version] reason []) ∨
      (∃ reason previous, s = installStep (managerOf m) reason previous) ∨
      ∃ reason previous, s = step "node-build" "build" [(managerOf m).name, "run", "build"] reason previous) := by
  simp only [nodeSteps, List.mem_append, List.mem_map, Option.mem_toList] at h
  rcases h with (⟨version, hversion, rfl⟩ | hinstall) | hbuild
  · split at hversion
    · rename_i hrequired
      refine ⟨hrequired, .inl ?_⟩
      simp only [preparedVersion, Option.map_eq_some_iff, Option.filter_eq_some_iff] at hversion
      obtain ⟨i, ⟨hi, hprepare⟩, rfl⟩ := hversion
      exact ⟨i, _, hi, hprepare, rfl⟩
    · cases hversion
  · split at hinstall
    · rename_i hrequired
      refine ⟨by simp [commandsRequired, hrequired], .inr (.inl ⟨_, _, List.mem_singleton.mp hinstall⟩)⟩
    · cases hinstall
  · split at hbuild
    · rename_i hrequired
      refine ⟨by simp only [commandsRequired, hrequired, Bool.or_true, Bool.true_or], .inr (.inr ⟨_, _, List.mem_singleton.mp hbuild⟩)⟩
    · cases hbuild

theorem flatten_mapM {α β : Type} {f : α → Except Raised (List β)} {xs : List α} (h : ∀ x ∈ xs, f x = .ok []) :
    ∃ ys, xs.mapM f = .ok ys ∧ ys.flatten = [] := by
  induction xs with
  | nil => exact ⟨[], rfl, rfl⟩
  | cons x xs ih =>
    obtain ⟨ys, hys, hflatten⟩ := ih fun y hy => h y (List.mem_cons_of_mem _ hy)
    refine ⟨[] :: ys, ?_, by simpa using hflatten⟩
    rw [List.mapM_cons, h x List.mem_cons_self, hys]
    rfl

/-- Each step of a Node plan is one that the validator generates. -/
theorem stepErrors_node {i : Inspection} {plan s : Json} {index : Nat} (hm : Inspected py m) (hi : m.nodePackageManager = some i)
    (herrors : i.errors = []) (hplan : field plan "package_manager" = i.json py) (hs : s ∈ nodeSteps m runInstall runBuild) :
    stepErrors py floats plan "node" index s = .ok [] := by
  obtain ⟨hsupported, hprepared⟩ := hm.supported i hi herrors
  have hname : managerOf m = i.name := by rw [managerOf, hi]; rfl
  have hmanager : orEmpty (field plan "package_manager") = i.json py := by rw [hplan]; rfl
  obtain ⟨-, hsteps⟩ := mem_nodeSteps hs
  rw [hname] at hsteps
  rcases hsteps with ⟨i', reason, hi', hprepare, rfl⟩ | ⟨reason, previous, rfl⟩ | ⟨reason, previous, rfl⟩
  · rw [hi] at hi'
    cases hi'
    obtain ⟨preparation, hfound, hpreparation⟩ := hprepared hprepare
    refine stepErrors_generated (by decide) (by decide) (by simp) rfl (.inl rfl) ?_
    intro _
    rw [hmanager]
    exact nodeErrors_toolchain hsupported herrors hprepare hfound hpreparation
  · have hcommand : ∃ arguments, installCommand i.name = i.name.name :: arguments := by
      cases i.name with
      | npm => exact ⟨["ci"], rfl⟩
      | pnpm | yarn => exact ⟨["install", "--frozen-lockfile"], rfl⟩
    obtain ⟨arguments, harguments⟩ := hcommand
    refine stepErrors_generated (by decide) (by decide) (by simp [harguments]) rfl (.inr ?_) ?_
    · cases i.name <;> decide
    · intro _
      rw [hmanager, harguments]
      exact nodeErrors_command hsupported herrors (by decide)
  refine stepErrors_generated (by decide) (by decide) (by simp) rfl (.inr ?_) ?_
  · cases i.name <;> decide
  · intro _
    rw [hmanager]
    exact nodeErrors_command hsupported herrors (by decide)

/-! ### The order of the steps -/

/-- The toolchain, the installation and the build, each if it is there. -/
def chain (toolchain install build : Option (List String × String)) : List Json :=
  let prepared := if toolchain.isNone then [] else ["node-toolchain"]
  let previous := if install.isNone then prepared else ["node-install"]
  (toolchain.toList.map fun s => step "node-toolchain" "prepare" s.1 s.2 []) ++
    (install.toList.map fun s => step "node-install" "install" s.1 s.2 prepared) ++
    build.toList.map fun s => step "node-build" "build" s.1 s.2 previous

theorem nodeSteps_chain (m : Metadata) (runInstall runBuild : Bool) : ∃ toolchain install build,
    nodeSteps m runInstall runBuild = chain toolchain install build ∧
      toolchain.isSome = (commandsRequired m runInstall runBuild && (preparedVersion m).isSome) := by
  let prepare (version : String) : List String × String := (["gate-package-manager", "prepare", (managerOf m).name, version],
    "Prepare the exact official tool in an executor-owned version/integrity cache; no lifecycle or global installation")
  let reason := Py.strip m.nodeInstallReason
  let because := if reason ≠ "" then reason else if m.hasPackageLock then "package-lock.json present"
    else "Node dependencies or install lifecycle scripts present"
  refine ⟨(if commandsRequired m runInstall runBuild then preparedVersion m else none).map prepare,
    if runInstall && m.nodeInstallRequired then some (installCommand (managerOf m), because) else none,
    if runBuild && m.packageScripts.contains "build" then some ([(managerOf m).name, "run", "build"], "scripts.build present") else none,
    ?_, ?_⟩
  · rw [nodeSteps, chain]
    generalize (if commandsRequired m runInstall runBuild then preparedVersion m else none) = toolchain
    cases toolchain <;> cases (runInstall && m.nodeInstallRequired) <;> cases (runBuild && m.packageScripts.contains "build") <;> rfl
  · cases commandsRequired m runInstall runBuild <;> simp

theorem chain_waves (toolchain install build : Option (List String × String)) : planWaves py (chain toolchain install build) =
      .ok (.ok ((List.range (chain toolchain install build).length).map fun index => [index])) := by
  rcases toolchain with _ | ⟨c₁, r₁⟩ <;> rcases install with _ | ⟨c₂, r₂⟩ <;> rcases build with _ | ⟨c₃, r₃⟩ <;> rfl

theorem chain_dependencies (toolchain install build : Option (List String × String)) :
    ∃ errors, (chain toolchain install build).zipIdx.mapM (fun (s, index) =>
      dependencyErrors py floats ((chain toolchain install build).map fun s => strOr py (field s "id")) index s) = .ok errors ∧
      errors.flatten = [] := by
  rcases toolchain with _ | ⟨c₁, r₁⟩ <;> rcases install with _ | ⟨c₂, r₂⟩ <;> rcases build with _ | ⟨c₃, r₃⟩ <;>
    exact ⟨_, rfl, rfl⟩

theorem chain_ids (toolchain install build : Option (List String × String)) :
    (deterministicSequences "node").contains ((chain toolchain install build).map fun s => strOr py (field s "id")) = true ∧
      ((chain toolchain install build).map fun s => strOr py (field s "id")).contains "node-toolchain" = toolchain.isSome := by
  rcases toolchain with _ | ⟨c₁, r₁⟩ <;> rcases install with _ | ⟨c₂, r₂⟩ <;> rcases build with _ | ⟨c₃, r₃⟩ <;>
    exact ⟨rfl, rfl⟩

theorem chain_sequence {plan : Json} (toolchain install build : Option (List String × String))
    (hprepared : chain toolchain install build ≠ [] →
      read (orEmpty (field plan "package_manager")) "requires_prepare" = .ok (.bool toolchain.isSome)) :
    sequenceErrors py floats plan "node" true (chain toolchain install build) = .ok [] := by
  obtain ⟨errors, hdependencies, hflatten⟩ := @chain_dependencies py floats toolchain install build
  obtain ⟨hids, htoolchain⟩ := @chain_ids py toolchain install build
  simp only [sequenceErrors, hdependencies, chain_waves, hids, htoolchain]
  by_cases hempty : chain toolchain install build = []
  · simp [hempty, hflatten, when, bind, Except.bind, pure, Except.pure]
  · have hnot : (chain toolchain install build).isEmpty = false := by simpa using hempty
    cases toolchain <;> simp [hnot, hprepared hempty, hflatten, when, bind, Except.bind, pure, Except.pure, Json.truthy]

/-! ## Builder and validator -/

/-- An accepted plan is returned as it is. -/
theorem validatePlan_compiled {runtime root : String} {steps : List Json} {manifest packageManager : Json} {warnings : List String}
    {plan : Json} (hplan : plan = compiled runtime root steps manifest packageManager warnings)
    (hstrategy : strategyErrors py floats plan runtime = .ok []) (hobjects : ∀ s ∈ steps, s.isObject = true)
    (hsteps : ∀ s ∈ steps, ∀ index, stepErrors py floats plan runtime index s = .ok [])
    (hsequence : sequenceErrors py floats plan runtime true steps = .ok []) :
    validatePlan py floats plan = .ok ⟨[], some plan⟩ := by
  have hobject : plan.isObject = true := by rw [hplan]; rfl
  have hbuildable : field plan "buildable" = .bool true := by rw [hplan]; rfl
  have hruntime : field plan "runtime" = .str runtime := by rw [hplan]; rfl
  have hlist : field plan "steps" = .arr steps := by rw [hplan]; rfl
  have hversion : versionErrors plan = [] := by rw [hplan]; rfl
  have hall : steps.all Json.isObject = true := List.all_eq_true.mpr hobjects
  have heach : ∀ x ∈ steps.zipIdx, (fun (s, index) => stepErrors py floats plan runtime index s) x = .ok [] := by
    intro x hx
    exact hsteps x.1 (List.fst_mem_of_mem_zipIdx hx) x.2
  obtain ⟨errors, herrors, hflatten⟩ := flatten_mapM heach
  simp [validatePlan, hobject, hbuildable, hruntime, hlist, hversion, hall, herrors, hflatten, hstrategy, hsequence, strOr_str, list,
    isList, Json.truthy, when, bind, Except.bind, pure, Except.pure]

/-- The start script is run by a manager without errors. -/
theorem startErrors_node {plan : Json} (hm : Inspected py m)
    (hinspection : commandsRequired m runInstall runBuild = true → ∃ i, m.nodePackageManager = some i ∧ i.errors = [])
    (hmanifest : field plan "manifest" = nodeManifest m (nodeSteps m runInstall runBuild))
    (hmanager : field plan "package_manager" = packageManager py m) : startErrors py floats plan "node" = .ok [] := by
  have hobject : (nodeManifest m (nodeSteps m runInstall runBuild)).isObject = true := rfl
  have hscript : field (nodeManifest m (nodeSteps m runInstall runBuild)) "start_script" =
      .bool (m.packageScripts.contains "start") := rfl
  have hnamed : field (nodeManifest m (nodeSteps m runInstall runBuild)) "package_manager" = .str (managerOf m).name := rfl
  simp only [startErrors, hmanifest, hmanager, dictionary, hobject, if_true, hscript, hnamed, Json.truthy]
  cases hcontains : m.packageScripts.contains "start" with
  | false => rfl
  | true =>
    obtain ⟨i, hi, hnone⟩ := hinspection (by simp only [commandsRequired, hcontains, Bool.or_true])
    have hpackage : packageManager py m = i.json py := by rw [packageManager, hi]; rfl
    have hisObject : (i.json py).isObject = true := rfl
    have hname : field (i.json py) "name" = .str (managerOf m).name := by rw [managerOf, hi]; rfl
    have hsame : same floats (.str (managerOf m).name) (.str (managerOf m).name) = true := same_self rfl
    simp [hpackage, hisObject, managerSupported_json, (hm.supported i hi hnone).1, hname, hsame, when, bind, Except.bind, pure,
      Except.pure]

/-- A Node plan that is not blocked. -/
theorem node_accepted {root : String} {plan : Json} (hm : Inspected py m)
    (herrors : commandsRequired m runInstall runBuild = true → managerErrors m = [])
    (hplan : plan = compiled "node" root (nodeSteps m runInstall runBuild) (nodeManifest m (nodeSteps m runInstall runBuild))
      (packageManager py m) (nodeWarnings m runInstall)) :
    validatePlan py floats plan = .ok ⟨[], some plan⟩ ∧ planWaves py (nodeSteps m runInstall runBuild) =
      .ok (.ok ((List.range (nodeSteps m runInstall runBuild).length).map fun index => [index])) := by
  obtain ⟨toolchain, install, build, hchain, htoolchain⟩ := nodeSteps_chain m runInstall runBuild
  have hmanager : field plan "package_manager" = packageManager py m := by rw [hplan]; rfl
  have hmanifest : field plan "manifest" = nodeManifest m (nodeSteps m runInstall runBuild) := by rw [hplan]; rfl
  have hartifact : ∃ ignored, field plan "artifact" = .obj [("strategy", .str "copy_tree"), ("ignore", ignored)] := by
    rw [hplan]
    exact ⟨_, rfl⟩
  obtain ⟨ignored, hartifact⟩ := hartifact
  -- something is to be run only where there is a `package.json`
  have hinspection : commandsRequired m runInstall runBuild = true → ∃ i, m.nodePackageManager = some i ∧ i.errors = [] := by
    intro hrequired
    cases hi : m.nodePackageManager with
    | none =>
      obtain ⟨hscripts, hinstall⟩ := hm.bare hi
      simp [commandsRequired, hscripts, hinstall] at hrequired
    | some i =>
      have := herrors hrequired
      rw [managerErrors, hi] at this
      exact ⟨i, rfl, this⟩
  refine ⟨validatePlan_compiled hplan ?_ ?_ ?_ ?_, by rw [hchain]; exact chain_waves toolchain install build⟩
  · have hstart := @startErrors_node py floats m runInstall runBuild plan hm hinspection hmanifest hmanager
    have hobject : (nodeManifest m (nodeSteps m runInstall runBuild)).isObject = true := rfl
    have hpacked : (Json.obj [("strategy", .str "copy_tree"), ("ignore", ignored)]).isObject = true := rfl
    have hstrategy : field (.obj [("strategy", .str "copy_tree"), ("ignore", ignored)]) "strategy" = .str "copy_tree" := rfl
    simp [strategyErrors, hstart, hmanifest, hobject, hartifact, hpacked, hstrategy, Json.truthy, when, bind, Except.bind, pure,
      Except.pure]
  · intro s hs
    obtain ⟨-, ⟨i, reason, -, -, rfl⟩ | ⟨reason, previous, rfl⟩ | ⟨reason, previous, rfl⟩⟩ := mem_nodeSteps hs <;> rfl
  · intro s hs index
    obtain ⟨i, hi, hnone⟩ := hinspection (mem_nodeSteps hs).1
    exact stepErrors_node hm hi hnone (by rw [hmanager, packageManager, hi]; rfl) hs
  rw [hchain]
  refine chain_sequence toolchain install build ?_
  intro hne
  obtain ⟨s, hs⟩ := List.exists_mem_of_ne_nil _ (hchain ▸ hne)
  obtain ⟨hrequired, -⟩ := mem_nodeSteps hs
  obtain ⟨i, hi, -⟩ := hinspection hrequired
  have hread : read (orEmpty (i.json py)) "requires_prepare" = .ok (.bool i.requiresPrepare) := rfl
  have hpackage : packageManager py m = i.json py := by rw [packageManager, hi]; rfl
  rw [hmanager, hpackage, hread, htoolchain, hrequired, preparedVersion, hi]
  cases hprepare : i.requiresPrepare <;> simp [hprepare]

theorem python_accepted {root : String} {warnings : List String} {plan : Json}
    (hplan : plan = compiled "python" root (pythonSteps m runInstall) (pythonManifest m (pythonSteps m runInstall)) .null warnings) :
    validatePlan py floats plan = .ok ⟨[], some plan⟩ ∧ planWaves py (pythonSteps m runInstall) =
      .ok (.ok ((List.range (pythonSteps m runInstall).length).map fun index => [index])) := by
  have hsteps : pythonSteps m runInstall = [] ∨ pythonSteps m runInstall =
      [step "python-install" "install" ["python", "-m", "pip", "install", "-r", "requirements.txt"] "requirements.txt present" []] := by
    rw [pythonSteps]
    split
    · exact .inr rfl
    · exact .inl rfl
  refine ⟨validatePlan_compiled hplan ?_ ?_ ?_ ?_, ?_⟩
  · rw [hplan]
    rfl
  · intro s hs
    rcases hsteps with hnone | hone
    · rw [hnone] at hs
      cases hs
    · rw [hone] at hs
      rw [List.mem_singleton.mp hs]
      rfl
  · intro s hs index
    rcases hsteps with hnone | hone
    · rw [hnone] at hs
      cases hs
    · rw [hone] at hs
      rw [List.mem_singleton.mp hs]
      exact stepErrors_generated (by decide) (by decide) (by simp) rfl (.inr (by simp)) (by simp)
  · rcases hsteps with hnone | hone
    · rw [hnone]
      rfl
    · rw [hone]
      rfl
  rcases hsteps with hnone | hone
  · rw [hnone]
    rfl
  · rw [hone]
    rfl

/-- **Builder and validator agree.** Whatever the project, the tools and the flags: a plan that can be built is accepted and
returned unchanged, and its steps are one wave each, in their order. A Node project cannot be built exactly where a command is
required of a manager with errors, or an installation without a lockfile. -/
theorem plans_agree {py : Python} (floats : Floats) {project : Project} {tools : Probe} {runtimeOverride : Option String}
    {override : Option NodeToolchainOverride} {isolated : Bool} {p : Preflight}
    (h : runBuildPreflight py project tools runtimeOverride override isolated = .ok p) (runInstall runBuild : Bool) :
    (Json.truthy (field (buildPlan py p runInstall runBuild) "buildable") = true →
      validatePlan py floats (buildPlan py p runInstall runBuild) = .ok ⟨[], some (buildPlan py p runInstall runBuild)⟩ ∧
      planWaves py (list (field (buildPlan py p runInstall runBuild) "steps")) =
        .ok (.ok ((List.range (list (field (buildPlan py p runInstall runBuild) "steps")).length).map fun index => [index]))) ∧
    (p.runtime = "node" → (Json.truthy (field (buildPlan py p runInstall runBuild) "buildable") = false ↔
      (commandsRequired p.metadata runInstall runBuild = true ∧ managerErrors p.metadata ≠ []) ∨
      (runInstall = true ∧ p.metadata.nodeInstallRequired = true ∧ hasLockfile p.metadata = false))) := by
  have hm := runBuildPreflight_inspected h
  have hcompiled (runtime root : String) (steps : List Json) (manifest manager : Json) (warnings : List String) :
      field (compiled runtime root steps manifest manager warnings) "buildable" = .bool true := rfl
  by_cases hnode : p.runtime = "node"
  · have hplan : buildPlan py p runInstall runBuild =
        if commandsRequired p.metadata runInstall runBuild && managerErrors p.metadata ≠ [] then
          .obj (blocked "node" p.projectRootDir (managerErrors p.metadata) ++ recommended py p.metadata)
        else if runInstall && p.metadata.nodeInstallRequired && !hasLockfile p.metadata then
          .obj (blocked "node" p.projectRootDir ["Deterministic Node installation requires one supported lockfile."])
        else compiled "node" p.projectRootDir (nodeSteps p.metadata runInstall runBuild)
          (nodeManifest p.metadata (nodeSteps p.metadata runInstall runBuild)) (packageManager py p.metadata)
          (nodeWarnings p.metadata runInstall) := by simp [buildPlan, hnode]
    by_cases hbad : commandsRequired p.metadata runInstall runBuild = true ∧ managerErrors p.metadata ≠ []
    · rw [if_pos (by simpa using hbad)] at hplan
      have hfield : field (buildPlan py p runInstall runBuild) "buildable" = .bool false := by rw [hplan]; rfl
      rw [hfield]
      exact ⟨nofun, fun _ => ⟨fun _ => .inl hbad, fun _ => rfl⟩⟩
    rw [if_neg (by simpa using hbad)] at hplan
    by_cases hlock : runInstall = true ∧ p.metadata.nodeInstallRequired = true ∧ hasLockfile p.metadata = false
    · rw [if_pos (by simpa [and_assoc] using hlock)] at hplan
      have hfield : field (buildPlan py p runInstall runBuild) "buildable" = .bool false := by rw [hplan]; rfl
      rw [hfield]
      exact ⟨nofun, fun _ => ⟨fun _ => .inr hlock, fun _ => rfl⟩⟩
    rw [if_neg (by simpa [and_assoc] using hlock)] at hplan
    have hnone : commandsRequired p.metadata runInstall runBuild = true → managerErrors p.metadata = [] := by
      intro hrequired
      by_contra herrors
      exact hbad ⟨hrequired, herrors⟩
    obtain ⟨haccepted, hwaves⟩ := @node_accepted py floats p.metadata runInstall runBuild _ _ hm hnone hplan
    have hfield : field (buildPlan py p runInstall runBuild) "buildable" = .bool true := by rw [hplan, hcompiled]
    have hsteps : list (field (buildPlan py p runInstall runBuild) "steps") = nodeSteps p.metadata runInstall runBuild := by
      rw [hplan]
      rfl
    rw [hfield, hsteps]
    refine ⟨fun _ => ⟨haccepted, hwaves⟩, fun _ => ⟨nofun, ?_⟩⟩
    rintro (h | h)
    · exact absurd h hbad
    · exact absurd h hlock
  refine ⟨?_, fun h => absurd h hnode⟩
  intro hbuildable
  by_cases hpython : p.runtime = "python"
  · have hplan : buildPlan py p runInstall runBuild = compiled "python" p.projectRootDir (pythonSteps p.metadata runInstall)
        (pythonManifest p.metadata (pythonSteps p.metadata runInstall)) .null
        (when (runInstall && !p.metadata.hasRequirements) "No requirements.txt found; skipping dependency install.") := by
      simp [buildPlan, hpython]
    have hsteps : list (field (buildPlan py p runInstall runBuild) "steps") = pythonSteps p.metadata runInstall := by
      rw [hplan]
      rfl
    rw [hsteps]
    exact @python_accepted py floats p.metadata runInstall _ _ _ hplan
  have hfield : field (buildPlan py p runInstall runBuild) "buildable" = .bool false := by
    by_cases hempty : p.runtime = ""
    · simp [buildPlan, hempty, field, Json.get?, blocked]
    · simp [buildPlan, hempty, hnode, hpython, field, Json.get?, blocked]
  rw [hfield] at hbuildable
  cases hbuildable

/-! ## A project with a lockfile -/

def asciiPython : Python where
  digit c := if c.isDigit then some (c.toNat - 48) else none
  sha256 _ := "4355a46b19d348dc2f57c046f8ef63d4538ebb936000f3c9ee954a27460dd865"
  repr _ := ""
  jsonLockVersion _ := .ok "3"
  yamlLockVersion _ := .error .format

def project : Project where
  root := "/data/uploads/u/extracted"
  files := ["package.json", "package-lock.json", "index.js"]
  package := some (.obj [("scripts", .obj [("start", .str "node index.js"), ("build", .str "tsc")]),
    ("dependencies", .obj [("zod", .str "3")])])
  lockfiles _ := ⟨false, .ok "\x7b\"lockfileVersion\":3\x7d".toUTF8.toList⟩

def probe : Probe := ⟨fun _ => ⟨true, "10.9.2\n"⟩, ⟨true, "v22.14.0"⟩⟩

def prepared : Except Raised Preflight := runBuildPreflight asciiPython project probe none none true

theorem plans_agree_project : ∃ p, prepared = .ok p ∧
    Json.truthy (field (buildPlan asciiPython p true true) "buildable") = true ∧ ∀ floats,
    validatePlan asciiPython floats (buildPlan asciiPython p true true) = .ok ⟨[], some (buildPlan asciiPython p true true)⟩ := by
  have hchecked : (match prepared with
      | .ok p => Json.truthy (field (buildPlan asciiPython p true true) "buildable")
      | .error _ => false) = true := by decide +kernel
  cases hprepared : prepared with
  | error e =>
    rw [hprepared] at hchecked
    cases hchecked
  | ok p =>
    rw [hprepared] at hchecked
    exact ⟨p, rfl, hchecked, fun floats => ((plans_agree floats hprepared true true).1 hchecked).1⟩

end LingshuGate.Plans
