import LingshuGate.Delivery.BuildPlans
import Mathlib.Data.List.ReduceOption

/-!
# Recommended toolchain choices (`node_toolchain.py`)

| here | there |
| --- | --- |
| `NodeToolchainOverride.accepted`  | the fields and `validate_selection` of `NodeToolchainOverride` (node_toolchain.py:46) |
| `choiceOverride`                  | `NodeToolchainOverride(**choice)` |

An inspection with errors recommends, for every lockfile, the first version that is supported and reads it: the installed one, or a
policy pin. The pins always work. The installed one is recommended by two rules fewer than an override is held to: its length, and the
Node of `pnpm 11`, which is the very error that asked for a choice where `pnpm 11` is installed next to an older Node.
-/

namespace LingshuGate.Plans

open Lib

section Choices

variable (py : Python)

/-- What pydantic and `validate_selection` admit of an override whose name and lockfile are known ones. -/
def NodeToolchainOverride.accepted (o : NodeToolchainOverride) : Except Raised Bool := do
  if !(versionParts py o.version).isSome || 32 < o.version.length then return false
  if !(← supportedVersion py o.name.name o.version) then return false
  return o.lockfile.all fun lock => lock.manager = o.name

def choiceOverride (choice : Manager × String × Lock) : NodeToolchainOverride := ⟨choice.1, choice.2.1, some choice.2.2⟩

variable {py} {lockfiles : Lock → LockFile} {package : List (String × Json)} {files : List String} {tools : Probe}
  {override : Option NodeToolchainOverride} {isolated : Bool} {i : Inspection} {lock : Lock} {version : String}

/-! ## What is recommended -/

theorem chooseVersion_some {candidates : List String} (h : chooseVersion py lockfiles lock candidates = .ok (some version)) :
    version ∈ candidates ∧ supportedVersion py lock.manager.name version = .ok true ∧
      ∃ read, readLockfile py lockfiles lock lock.manager version = .ok read := by
  induction candidates with
  | nil => cases h
  | cons candidate candidates ih =>
    rw [chooseVersion, bind_eq_ok] at h
    obtain ⟨supported, hsupported, h⟩ := h
    have hlater (hlater : chooseVersion py lockfiles lock candidates = .ok (some version)) :=
      And.imp_left (List.mem_cons_of_mem candidate) (ih hlater)
    cases supported with
    | false => exact hlater h
    | true =>
      simp only [Bool.not_true, Bool.false_eq_true, if_false] at h
      split at h
      · next read hread =>
        obtain rfl := Option.some.inj (Except.ok.inj h)
        exact ⟨List.mem_cons_self, hsupported, read, hread⟩
      · exact hlater h
      · cases h

/-- A candidate that is supported and reads the lockfile is taken before any other. -/
theorem chooseVersion_head {candidates : List String} {read : String × String} (hsupported : supportedVersion py lock.manager.name version = .ok true)
    (hread : readLockfile py lockfiles lock lock.manager version = .ok read) :
    chooseVersion py lockfiles lock (version :: candidates) = .ok (some version) := by
  rw [chooseVersion, bind_eq_ok]
  refine ⟨true, hsupported, ?_⟩
  simp only [Bool.not_true, Bool.false_eq_true, if_false, hread]
  rfl

/-- The installed version of the manager of a lockfile, and the policy pins. -/
def candidatesOf (tools : Manager → Tool) (isolated : Bool) (lock : Lock) : List String :=
  ([installedVersion isolated (tools lock.manager), defaultVersion lock.manager] ++ if lock.manager = .pnpm then ["8.15.9"] else []).eraseDups

/-- A lockfile that npm does not read is not recommended. -/
def shadowed (detected : List Lock) (lock : Lock) : Bool := lock = .packageLock && detected.contains .npmShrinkwrap

theorem mem_recommendedChoices {detected : List Lock} {choices : List (Manager × String × Lock)} {manager : Manager}
    (h : recommendedChoices py lockfiles tools.manager isolated detected = .ok choices) :
    (manager, version, lock) ∈ choices ↔ lock ∈ detected ∧ shadowed detected lock = false ∧ manager = lock.manager ∧
      chooseVersion py lockfiles lock (candidatesOf tools.manager isolated lock) = .ok (some version) := by
  unfold recommendedChoices at h
  rw [bind_eq_ok] at h
  obtain ⟨found, hfound, hchoices⟩ := h
  obtain rfl := pure_eq_ok.mp hchoices
  rw [List.reduceOption_mem_iff]
  constructor
  · intro hmem
    obtain ⟨l, hl, hrow⟩ := mem_mapM_ok hfound hmem
    split at hrow
    · cases pure_eq_ok.mp hrow
    · next hshadowed =>
      obtain ⟨chosen, hchosen, hrow⟩ := bind_eq_ok.mp hrow
      obtain ⟨v, rfl, heq⟩ := Option.map_eq_some_iff.mp (pure_eq_ok.mp hrow)
      obtain ⟨rfl, rfl, rfl⟩ : l.manager = manager ∧ v = version ∧ l = lock := by simpa using heq
      exact ⟨hl, by simpa [shadowed] using hshadowed, rfl, hchosen⟩
  rintro ⟨hlock, hshadowed, rfl, hchosen⟩
  obtain ⟨row, hmem, hrow⟩ := mapM_ok_mem hfound hlock
  rw [if_neg (by simpa [shadowed] using hshadowed)] at hrow
  obtain ⟨chosen, hchosen', hrow⟩ := bind_eq_ok.mp hrow
  obtain rfl := Except.ok.inj (hchosen.symm.trans hchosen')
  obtain rfl := pure_eq_ok.mp hrow
  exact hmem

/-! ## An override of a choice -/

variable (py package version) in
/-- The override of a recommended choice selects it, and none of the checks of the selection speaks. -/
theorem selectManager_choice (hlock : lock ∈ Lock.all.filter fun l => files.contains l.file)
    (hshadowed : shadowed (Lock.all.filter fun l => files.contains l.file) lock = false) :
    let s := selectManager py package files (some (choiceOverride (lock.manager, version, lock)))
    s.detected = Lock.all.filter (fun l => files.contains l.file) ∧ s.name = lock.manager ∧ s.lockfile = some lock ∧
      s.declaredIntegrity = none ∧ s.errors = [] := by
  have hmatching : lock ∈ (Lock.all.filter fun l => files.contains l.file).filter (·.manager = lock.manager) :=
    List.mem_filter.mpr ⟨hlock, by simp⟩
  have hnative : (lock.manager = .npm && some lock = some Lock.packageLock &&
      ((Lock.all.filter fun l => files.contains l.file).filter (·.manager = lock.manager)).contains Lock.npmShrinkwrap) = false := by
    by_contra hnative
    simp only [Bool.not_eq_false, Bool.and_eq_true, decide_eq_true_eq, Option.some.injEq, List.contains_iff_mem] at hnative
    obtain ⟨⟨-, rfl⟩, hshrinkwrap⟩ := hnative
    have hpresent : shadowed (Lock.all.filter fun l => files.contains l.file) .packageLock = true := by
      simp only [shadowed, decide_true, Bool.true_and, List.contains_iff_mem]
      exact (List.mem_filter.mp hshrinkwrap).1
    rw [hpresent] at hshadowed
    cases hshadowed
  refine ⟨rfl, rfl, rfl, rfl, ?_⟩
  have hpresent : (Lock.all.filter fun l => files.contains l.file).contains lock = true := List.contains_iff_mem.mpr hlock
  show (_ ++ _ ++ _) ++ _ ++ _ ++ _ = []
  simp only [List.append_eq_nil_iff, when_eq_nil, choiceOverride]
  refine ⟨⟨⟨⟨⟨rfl, by simp⟩, rfl⟩, ?_⟩, hnative⟩, ?_⟩
  · show (!List.contains _ lock) = false
    rw [hpresent]
    rfl
  · have hne : (Lock.all.filter fun l => files.contains l.file).filter (·.manager = lock.manager) ≠ [] := List.ne_nil_of_mem hmatching
    rw [Bool.and_eq_false_iff]
    exact .inr (decide_eq_false hne)

/-- Whether the version has to be prepared, where nothing is pinned. -/
def prepares (tools : Probe) (isolated : Bool) (lock : Lock) (version : String) : Bool :=
  isolated || !(tools.manager lock.manager).available || installedVersion isolated (tools.manager lock.manager) ≠ version

theorem nodeTooOld_false {manager : Manager} {requiresPrepare : Bool} {node : Tool} :
    nodeTooOld py manager version isolated requiresPrepare node = .ok false ↔
      (nodeRequirement py manager.name version = ">=22.13" → isolated = false → requiresPrepare = false →
        nodeVersionSupported py manager.name version node.version = .ok true) := by
  unfold nodeTooOld
  split
  · next hneeded =>
    simp only [Bool.and_eq_true, decide_eq_true_eq, Bool.not_eq_true'] at hneeded
    obtain ⟨⟨hrequirement, hisolated⟩, hprepared⟩ := hneeded
    simp only [bind_eq_ok, pure_eq_ok, Bool.not_eq_false', exists_eq_right]
    exact ⟨fun h _ _ _ => h, fun h => h hrequirement hisolated hprepared⟩
  · next hfree =>
    refine iff_of_true rfl fun hrequirement hisolated hprepared => ?_
    rw [hrequirement, hisolated, hprepared] at hfree
    exact (hfree rfl).elim

variable (py lockfiles package files tools isolated) in
/-- The choice is a valid override, and the inspection with it finds nothing wrong and selects it. -/
def Works (choice : Manager × String × Lock) : Prop :=
  (choiceOverride choice).accepted py = .ok true ∧ ∃ i, inspectNodeToolchain py lockfiles package files tools (some (choiceOverride choice)) isolated = .ok i ∧
    i.errors = [] ∧ i.name = choice.1 ∧ i.version = choice.2.1 ∧ i.lockfile = some choice.2.2

theorem versionParts_of_supported {name : String} (h : supportedVersion py name version = .ok true) : (versionParts py version).isSome := by
  unfold supportedVersion at h
  split at h
  · cases h
  · next hparts _ =>
    rw [hparts]
    rfl
  · next hparts _ =>
    rw [hparts]
    rfl

theorem accepted_choice (h : supportedVersion py lock.manager.name version = .ok true) :
    (choiceOverride (lock.manager, version, lock)).accepted py = .ok true ↔ version.length ≤ 32 := by
  have hparts := versionParts_of_supported h
  unfold NodeToolchainOverride.accepted
  show (if !(versionParts py version).isSome || decide (32 < version.length) then _ else _) = _ ↔ _
  rw [hparts]
  by_cases hlength : 32 < version.length
  · rw [if_pos (by simpa using hlength)]
    refine iff_of_false ?_ (Nat.not_le_of_lt hlength)
    intro hfalse
    cases hfalse
  · rw [if_neg (by simpa using hlength)]
    refine iff_of_true ?_ (Nat.le_of_not_lt hlength)
    refine bind_eq_ok.mpr ⟨true, h, ?_⟩
    simp [choiceOverride, pure, Except.pure]

theorem preparationOf_unpinned (h : supportedVersion py lock.manager.name version = .ok true) (needed : Bool) :
    ∃ preparation, preparationOf py lock.manager version none needed = .ok preparation := by
  cases needed with
  | false => exact ⟨none, rfl⟩
  | true =>
    have hprepared : ∃ value, toolPreparation py lock.manager.name version .null = .ok value := by
      unfold toolPreparation
      rw [h]
      exact ⟨_, rfl⟩
    obtain ⟨value, hvalue⟩ := hprepared
    refine ⟨some value, ?_⟩
    show some <$> toolPreparation py lock.manager.name version .null = _
    rw [hvalue]
    rfl

theorem inspect_choice_iff {choices : List (Manager × String × Lock)} {read : String × String}
    (hlock : lock ∈ Lock.all.filter fun l => files.contains l.file)
    (hshadowed : shadowed (Lock.all.filter fun l => files.contains l.file) lock = false)
    (hsupported : supportedVersion py lock.manager.name version = .ok true)
    (hread : readLockfile py lockfiles lock lock.manager version = .ok read)
    (hchoices : recommendedChoices py lockfiles tools.manager isolated (Lock.all.filter fun l => files.contains l.file) = .ok choices) :
    (∃ i, inspectNodeToolchain py lockfiles package files tools (some (choiceOverride (lock.manager, version, lock))) isolated = .ok i ∧
      i.errors = [] ∧ i.name = lock.manager ∧ i.version = version ∧ i.lockfile = some lock) ↔
    nodeTooOld py lock.manager version isolated (prepares tools isolated lock version) tools.node = .ok false := by
  obtain ⟨hdetected, hname, hlockfile, hintegrity, hnone⟩ :=
    selectManager_choice py package version hlock hshadowed
  have hprepares : (isolated || (selectManager py package files (some (choiceOverride (lock.manager, version, lock)))).declaredIntegrity.isSome ||
      !(tools.manager lock.manager).available || decide (installedVersion isolated (tools.manager lock.manager) ≠ version)) =
      prepares tools isolated lock version := by
    rw [hintegrity]
    simp [prepares]
  have hmetadata : lockMetadata py lockfiles (Lock.all.filter fun l => files.contains l.file) (some lock) lock.manager version =
      .ok (read.1, read.2, true) := by
    simp only [lockMetadata]
    rw [if_pos (List.contains_iff_mem.mpr hlock), hread]
  unfold inspectNodeToolchain
  simp only [hdetected, hname, hlockfile, hnone, bind_eq_ok, pure_eq_ok, Prod.exists]
  constructor
  · rintro ⟨i, ⟨v, hversion, supported, -, old, hold, digest, lockVersion, readable, -, choices', -, preparation, -, rfl⟩, herrors, -⟩
    obtain rfl : version = v := Except.ok.inj hversion
    simp only [List.append_eq_nil_iff, when_eq_nil] at herrors
    rw [hprepares, herrors.1.2] at hold
    exact hold
  intro hold
  obtain ⟨preparation, hpreparation⟩ := preparationOf_unpinned hsupported (prepares tools isolated lock version && true)
  refine ⟨_, ⟨version, rfl, true, hsupported, false, ?_, read.1, read.2, true, hmetadata, choices, hchoices, preparation, ?_, rfl⟩,
    rfl, rfl, rfl, rfl⟩
  · rw [hprepares]
    exact hold
  · rw [hprepares, hintegrity]
    exact hpreparation

/-! ## When every choice works -/

/-- The installed version of the manager of `lock`, where it would be recommended: short enough for an override, and on a new enough
Node where it is `pnpm 11` and runs as it is. -/
def InstalledUsable (py : Python) (lockfiles : Lock → LockFile) (tools : Probe) (isolated : Bool) (lock : Lock) : Prop :=
  let version := installedVersion isolated (tools.manager lock.manager)
  supportedVersion py lock.manager.name version = .ok true → (∃ read, readLockfile py lockfiles lock lock.manager version = .ok read) →
    version.length ≤ 32 ∧ (nodeRequirement py lock.manager.name version = ">=22.13" → (tools.manager lock.manager).available = true →
      nodeVersionSupported py lock.manager.name version tools.node.version = .ok true)

/-- A policy pin is never too long, and never `pnpm 11`. -/
theorem pin_usable {pin : String} (hpin : pin ∈ candidatesOf tools.manager isolated lock)
    (hother : pin ≠ installedVersion isolated (tools.manager lock.manager)) :
    pin.length ≤ 32 ∧ nodeRequirement py lock.manager.name pin ≠ ">=22.13" := by
  have hpins : pin = defaultVersion lock.manager ∨ lock.manager = .pnpm ∧ pin = "8.15.9" := by
    rw [candidatesOf, List.mem_eraseDups] at hpin
    simp only [List.cons_append, List.nil_append, List.mem_cons] at hpin
    rcases hpin with heq | heq | hmem
    · exact (hother heq).elim
    · exact .inl heq
    · split at hmem
      · next hpnpm => exact .inr ⟨hpnpm, List.mem_singleton.mp hmem⟩
      · cases hmem
  have hrequirement {name version : String} (h : name ≠ "pnpm" ∨ Py.startsWith version "11." = false) : nodeRequirement py name version ≠ ">=22.13" := by
    unfold nodeRequirement
    rw [if_neg]
    · decide
    · rcases h with hname | hversion
      · simp [hname]
      · simp [hversion]
  rcases hpins with rfl | ⟨hpnpm, rfl⟩
  · cases lock.manager with
    | npm => exact ⟨by decide, hrequirement (.inl (by decide))⟩
    | pnpm => exact ⟨by decide, hrequirement (.inr (by decide))⟩
    | yarn => exact ⟨by decide, hrequirement (.inl (by decide))⟩
  · exact ⟨by decide, hrequirement (.inr (by decide))⟩

theorem recommended_of_inspect (h : inspectNodeToolchain py lockfiles package files tools override isolated = .ok i) (herrors : i.errors ≠ []) :
    recommendedChoices py lockfiles tools.manager isolated (Lock.all.filter fun l => files.contains l.file) = .ok i.choices := by
  unfold inspectNodeToolchain at h
  simp only [bind_eq_ok, pure_eq_ok, Prod.exists] at h
  obtain ⟨version, -, supported, -, old, -, digest, lockVersion, readable, -, choices, hchoices, preparation, -, rfl⟩ := h
  simp only [if_neg herrors]
  exact hchoices

/-- Nothing is installed in an isolated executor. -/
theorem not_isolated_of_supported (h : supportedVersion py lock.manager.name (installedVersion isolated (tools.manager lock.manager)) = .ok true) :
    isolated = false := by
  cases isolated with
  | false => rfl
  | true =>
    have hparts := versionParts_of_supported h
    cases hparts

/-- **Every recommended choice works exactly where the installed versions that are recommended do.** -/
theorem choices_work_iff (h : inspectNodeToolchain py lockfiles package files tools override isolated = .ok i) (herrors : i.errors ≠ []) :
    (∀ choice ∈ i.choices, Works py lockfiles package files tools isolated choice) ↔
      ∀ lock ∈ Lock.all.filter (fun l => files.contains l.file), shadowed (Lock.all.filter fun l => files.contains l.file) lock = false →
        InstalledUsable py lockfiles tools isolated lock := by
  have hchoices := recommended_of_inspect h herrors
  constructor
  · intro hworks lock hlock hshadowed hsupported hread
    obtain ⟨read, hread⟩ := hread
    have hhead : ∃ pins, candidatesOf tools.manager isolated lock = installedVersion isolated (tools.manager lock.manager) :: pins :=
      ⟨_, List.eraseDups_cons⟩
    obtain ⟨pins, hpins⟩ := hhead
    have hmem : (lock.manager, installedVersion isolated (tools.manager lock.manager), lock) ∈ i.choices := by
      refine (mem_recommendedChoices hchoices).mpr ⟨hlock, hshadowed, rfl, ?_⟩
      rw [hpins]
      exact chooseVersion_head hsupported hread
    obtain ⟨haccepted, hinspect⟩ := hworks _ hmem
    refine ⟨(accepted_choice hsupported).mp haccepted, fun hrequirement havailable => ?_⟩
    have hold := nodeTooOld_false.mp ((inspect_choice_iff hlock hshadowed hsupported hread hchoices).mp hinspect)
    have hisolated := not_isolated_of_supported hsupported
    refine hold hrequirement hisolated ?_
    simp [prepares, hisolated, havailable]
  rintro husable ⟨manager, version, lock⟩ hmem
  obtain ⟨hlock, hshadowed, rfl, hchosen⟩ := (mem_recommendedChoices hchoices).mp hmem
  obtain ⟨hcandidate, hsupported, read, hread⟩ := chooseVersion_some hchosen
  have hfine : version.length ≤ 32 ∧ nodeTooOld py lock.manager version isolated (prepares tools isolated lock version) tools.node = .ok false := by
    by_cases hinstalled : version = installedVersion isolated (tools.manager lock.manager)
    · subst hinstalled
      obtain ⟨hlength, hnode⟩ := husable lock hlock hshadowed hsupported ⟨read, hread⟩
      refine ⟨hlength, nodeTooOld_false.mpr fun hrequirement _ hprepared => hnode hrequirement ?_⟩
      simp only [prepares, Bool.or_eq_false_iff, Bool.not_eq_false'] at hprepared
      exact hprepared.1.2
    · obtain ⟨hlength, hrequirement⟩ := pin_usable hcandidate hinstalled
      exact ⟨hlength, nodeTooOld_false.mpr fun h => (hrequirement h).elim⟩
  exact ⟨(accepted_choice hsupported).mpr hfine.1, (inspect_choice_iff hlock hshadowed hsupported hread hchoices).mpr hfine.2⟩

/-- Two lockfiles and nothing installed: both choices are pins. -/
theorem choices_work_two_locks : let lockfiles : Lock → LockFile := fun lock => match lock with
      | .yarnLock => ⟨false, .ok "# yarn lockfile v1".toUTF8.toList⟩
      | _ => ⟨false, .ok "\x7b\"lockfileVersion\":3\x7d".toUTF8.toList⟩
    let files := ["package.json", "package-lock.json", "yarn.lock"]
    let tools : Probe := ⟨fun _ => ⟨false, ""⟩, ⟨true, "v22.14.0"⟩⟩
    ∃ i, inspectNodeToolchain asciiPython lockfiles [] files tools none false = .ok i ∧ i.choices.length = 2 ∧
      ∀ choice ∈ i.choices, Works asciiPython lockfiles [] files tools false choice := by
  intro lockfiles files tools
  have hchecked : (match inspectNodeToolchain asciiPython lockfiles [] files tools none false with
      | .ok i => i.errors ≠ [] && i.choices.length = 2
      | .error _ => false) = true := by decide +kernel
  cases hi : inspectNodeToolchain asciiPython lockfiles [] files tools none false with
  | error e =>
    rw [hi] at hchecked
    cases hchecked
  | ok i =>
    rw [hi] at hchecked
    obtain ⟨herrors, hlength⟩ : i.errors ≠ [] ∧ i.choices.length = 2 := by simpa using hchecked
    refine ⟨i, rfl, hlength, (choices_work_iff hi herrors).mpr ?_⟩
    intro lock _ _ hsupported
    have hnone : supportedVersion asciiPython lock.manager.name (installedVersion false ⟨false, ""⟩) = .ok false := by
      cases lock <;> decide +kernel
    cases hnone.symm.trans hsupported

def pnpmPython : Python := { asciiPython with yamlLockVersion := fun _ => .ok "9.0" }

/-- `pnpm 11` next to Node 20. The choice that is recommended for the error is the installed `pnpm 11` once more. -/
theorem pnpm11_choice_fails : let lockfiles : Lock → LockFile := fun _ => ⟨false, .ok "lockfileVersion: '9.0'".toUTF8.toList⟩
    let files := ["package.json", "pnpm-lock.yaml"]
    let tools : Probe := ⟨fun _ => ⟨true, "11.5.0"⟩, ⟨true, "v20.19.0"⟩⟩
    ∃ i, inspectNodeToolchain pnpmPython lockfiles [] files tools none false = .ok i ∧ i.errors ≠ [] ∧
      (.pnpm, "11.5.0", .pnpmLock) ∈ i.choices ∧ (choiceOverride (.pnpm, "11.5.0", .pnpmLock)).accepted pnpmPython = .ok true ∧
      ¬∀ choice ∈ i.choices, Works pnpmPython lockfiles [] files tools false choice := by
  intro lockfiles files tools
  have hchecked : (match inspectNodeToolchain pnpmPython lockfiles [] files tools none false with
      | .ok i => i.errors ≠ [] && i.choices = [(.pnpm, "11.5.0", .pnpmLock)]
      | .error _ => false) = true := by decide +kernel
  have hagain : (match inspectNodeToolchain pnpmPython lockfiles [] files tools (some (choiceOverride (.pnpm, "11.5.0", .pnpmLock))) false with
      | .ok i => i.errors ≠ []
      | .error _ => false) = true := by decide +kernel
  cases hi : inspectNodeToolchain pnpmPython lockfiles [] files tools none false with
  | error e =>
    rw [hi] at hchecked
    cases hchecked
  | ok i =>
    rw [hi] at hchecked
    obtain ⟨herrors, hchoices⟩ : i.errors ≠ [] ∧ i.choices = [(.pnpm, "11.5.0", .pnpmLock)] := by simpa using hchecked
    have hmem : (Manager.pnpm, "11.5.0", Lock.pnpmLock) ∈ i.choices := hchoices ▸ List.mem_singleton_self _
    refine ⟨i, rfl, herrors, hmem, by decide +kernel, fun hworks => ?_⟩
    obtain ⟨-, i', hi', hnone, -⟩ := hworks _ hmem
    rw [hi'] at hagain
    exact (of_decide_eq_true hagain) hnone

end Choices

end LingshuGate.Plans
