import Mathlib.Tactic.SplitIfs
import LingshuGate.Lib.Run
import LingshuGate.Tools.Registry

/-!
# What the registry keeps (`registry.py:201-423`)

`Built reg₀ s D` is the state inside an operation that began at `reg₀`: the structures and the index are those of the definitions
`D`, and what has been touched has a revision that `reg₀` has not seen. Each turn of a loop takes one definition out of `D` or puts
one in (`Built.unindex`, `Built.index`), so that an operation is a list of such moves. `Inv` is the state between operations.
-/

namespace LingshuGate.Tools

open Lib Groups

namespace ToolRegistry

variable {η Λ : Type} {reg reg' s : ToolRegistry η Λ} {D : String → Option Tool}

def revisionOf (reg : ToolRegistry η Λ) (instance' : String) : Nat := (reg.mcpRevisions.get instance').getD 0

/-- The structure that the index holds of a tool. -/
def held (reg : ToolRegistry η Λ) (instance' id : String) : Option Tool := ((reg.bucket instance').get id).map (·.structure')

/-! ## One bucket -/

section Touch

variable {i : String} {f : Dict String ToolSnapshot → Dict String ToolSnapshot}

theorem touch_index (j : String) : (reg.touch i f).mcpIndex.get j =
    if j = i then (if (f (reg.bucket i)).rows.isEmpty then none else some (f (reg.bucket i))) else reg.mcpIndex.get j := by
  simp only [touch]
  split
  · rw [Dict.get_pop]
  · rw [Dict.get_set]

theorem touch_revisionOf (j : String) : (reg.touch i f).revisionOf j = if j = i then reg.revision else reg.revisionOf j := by
  simp only [revisionOf, touch, Dict.get_set]
  split
  · rfl
  · rfl

theorem touch_held (j id : String) : (reg.touch i f).held j id =
    if j = i then ((f (reg.bucket i)).get id).map (·.structure') else reg.held j id := by
  show ((((reg.touch i f).mcpIndex.get j).getD ∅).get id).map (·.structure') = _
  rw [touch_index]
  by_cases hj : j = i
  · rw [if_pos hj, if_pos hj]
    by_cases hempty : (f (reg.bucket i)).rows.isEmpty = true
    · rw [if_pos hempty, Dict.get_eq_none_of_nil (List.isEmpty_iff.mp hempty)]
      rfl
    · rw [if_neg hempty]
      rfl
  · rw [if_neg hj, if_neg hj]
    rfl

end Touch

section Frame

variable {t : Tool}

theorem unindex_eq : reg.unindex t = (instanceOf t).elim reg fun i => reg.touch i (·.pop t.id) := by
  unfold unindex
  split <;> simp_all

theorem index_eq : reg.index t = (instanceOf t).elim reg fun i => reg.touch i (·.set t.id ⟨t, reg.revision⟩) := by
  unfold index
  split <;> simp_all

/-- A move of the index changes the index and its revisions only. -/
structure Moved (reg reg' : ToolRegistry η Λ) : Prop where
  tools : reg'.tools = reg.tools
  structures : reg'.structures = reg.structures
  unavailable : reg'.unavailable = reg.unavailable
  heard : reg'.heard = reg.heard
  revision : reg'.revision = reg.revision

theorem unindex_moved : Moved reg (reg.unindex t) := by
  rw [unindex_eq]
  cases instanceOf t <;> exact ⟨rfl, rfl, rfl, rfl, rfl⟩

theorem index_moved : Moved reg (reg.index t) := by
  rw [index_eq]
  cases instanceOf t <;> exact ⟨rfl, rfl, rfl, rfl, rfl⟩

end Frame

/-! ## Inside an operation -/

structure Built (reg₀ s : ToolRegistry η Λ) (D : String → Option Tool) : Prop where
  held : ∀ i id, s.held i id = (D id).filter fun t => instanceOf t = some i
  nonempty : ∀ i b, s.mcpIndex.get i = some b → b.rows ≠ []
  keyed : ∀ id t, D id = some t → t.id = id
  bounded : ∀ i, s.revisionOf i ≤ s.revision
  newer : reg₀.revision < s.revision
  touched : ∀ i, (s.revisionOf i = reg₀.revisionOf i ∧ s.mcpIndex.get i = reg₀.mcpIndex.get i) ∨ reg₀.revision < s.revisionOf i

/-- Between operations. -/
structure Inv (reg : ToolRegistry η Λ) : Prop where
  structures : ∀ id, reg.structures.get id = reg.definition id
  held : ∀ i id, reg.held i id = (reg.definition id).filter fun t => instanceOf t = some i
  nonempty : ∀ i b, reg.mcpIndex.get i = some b → b.rows ≠ []
  keyed : ∀ id t, reg.definition id = some t → t.id = id
  bounded : ∀ i, reg.revisionOf i ≤ reg.revision
  disjoint : ∀ id, (reg.unavailable.get id).isSome = true → reg.tools.get id = none

theorem Inv.empty (heard : Λ) : Inv ({ heard := heard } : ToolRegistry η Λ) where
  structures _ := rfl
  held _ _ := rfl
  nonempty _ _ h := nomatch h
  keyed _ _ h := nomatch h
  bounded _ := Nat.zero_le _
  disjoint _ h := nomatch h

theorem Inv.bump (h : Inv reg) : Built reg reg.bump reg.definition where
  held := h.held
  nonempty := h.nonempty
  keyed := h.keyed
  bounded i := Nat.le_succ_of_le (h.bounded i)
  newer := Nat.lt_succ_self _
  touched _ := .inl ⟨rfl, rfl⟩

variable {reg₀ : ToolRegistry η Λ}

theorem Built.congr (h : Built reg₀ s D) {s' : ToolRegistry η Λ} (hindex : s'.mcpIndex = s.mcpIndex)
    (hrevisions : s'.mcpRevisions = s.mcpRevisions) (hrevision : s'.revision = s.revision) : Built reg₀ s' D := by
  obtain ⟨hheld, hnonempty, hkeyed, hbounded, hnewer, htouched⟩ := h
  simp only [ToolRegistry.held, bucket, revisionOf] at *
  refine ⟨?_, ?_, hkeyed, ?_, ?_, ?_⟩
  · simpa only [ToolRegistry.held, bucket, hindex] using hheld
  · simpa only [hindex] using hnonempty
  · simpa only [revisionOf, hrevisions, hrevision] using hbounded
  · simpa only [hrevision] using hnewer
  · simpa only [revisionOf, hindex, hrevisions] using htouched

variable {f : Dict String ToolSnapshot → Dict String ToolSnapshot}

/-- A bucket changes as the definitions do. -/
theorem Built.touch (h : Built reg₀ s D) {i : String}
    {D' : String → Option Tool} (hkeyed : ∀ id t, D' id = some t → t.id = id)
    (hbucket : ∀ id, ((f (s.bucket i)).get id).map (·.structure') = (D' id).filter fun t => instanceOf t = some i)
    (hothers : ∀ j, j ≠ i → ∀ id, (D' id).filter (fun t => instanceOf t = some j) = (D id).filter fun t => instanceOf t = some j) :
    Built reg₀ (s.touch i f) D' where
  held j id := by
    rw [touch_held]
    split
    · rename_i hj
      rw [hj]
      exact hbucket id
    · rename_i hj
      rw [h.held, hothers j hj]
  nonempty j b hb := by
    rw [touch_index] at hb
    split_ifs at hb with hj hempty
    · cases hb
      exact fun hnil => hempty (by simp [hnil])
    · exact h.nonempty j b hb
  keyed := hkeyed
  bounded j := by
    rw [touch_revisionOf]
    split
    · exact Nat.le_refl _
    · exact h.bounded j
  newer := h.newer
  touched j := by
    rw [touch_revisionOf, touch_index]
    by_cases hj : j = i
    · rw [if_pos hj]
      exact .inr h.newer
    · rw [if_neg hj, if_neg hj]
      exact h.touched j

variable {t : Tool}

/-- Only the bucket of the tool changes. -/
theorem Built.rebucket {v : Option Tool} (h : Built reg₀ s D)
    (hold : ∀ t' ∈ D t.id, t' = t) (hnew : ∀ t' ∈ v, t' = t)
    (hf : ∀ i, instanceOf t = some i → ∀ id, ((f (s.bucket i)).get id).map (·.structure') =
      (Function.update D t.id v id).filter fun t => instanceOf t = some i) :
    Built reg₀ ((instanceOf t).elim s fun i => s.touch i f) (Function.update D t.id v) := by
  have hkeyed (id : String) (t' : Tool) (ht' : Function.update D t.id v id = some t') : t'.id = id := by
    rw [Function.update_apply] at ht'
    split at ht'
    · rename_i hid
      rw [hnew t' ht', hid]
    · exact h.keyed id t' ht'
  have hothers (j : String) (hj : instanceOf t ≠ some j) (id : String) :
      (Function.update D t.id v id).filter (fun t => instanceOf t = some j) = (D id).filter fun t => instanceOf t = some j := by
    have hnone (v : Option Tool) (hv : ∀ t' ∈ v, t' = t) : v.filter (fun t => instanceOf t = some j) = none := by
      rw [Option.filter_eq_none_iff]
      intro t' ht'
      simpa [hv t' ht'] using hj
    rw [Function.update_apply]
    split
    · rename_i hid
      rw [hid, hnone _ hnew, hnone _ hold]
    · rfl
  cases hi : instanceOf t with
  | none =>
    refine ⟨fun j id => ?_, h.nonempty, hkeyed, h.bounded, h.newer, h.touched⟩
    rw [hothers j (by simp [hi])]
    exact h.held j id
  | some i =>
    rw [Option.elim_some]
    exact h.touch hkeyed (hf i hi) fun j hj => hothers j (by simpa [hi] using Ne.symm hj)

theorem Built.unindex (h : Built reg₀ s D) (ht : D t.id = some t) : Built reg₀ (s.unindex t) (Function.update D t.id none) := by
  rw [unindex_eq]
  refine h.rebucket (by simp [ht]) (by simp) fun i _ id => ?_
  rw [Dict.get_pop, Function.update_apply]
  split
  · rfl
  · exact h.held i id

theorem Built.index (h : Built reg₀ s D) (ht : D t.id = none) : Built reg₀ (s.index t) (Function.update D t.id (some t)) := by
  rw [index_eq]
  refine h.rebucket (by simp [ht]) (by simp) fun i hi id => ?_
  rw [Dict.get_set, Function.update_apply]
  split
  · rw [Option.filter_some, if_pos (by simpa using hi)]
    rfl
  · exact h.held i id

/-! ## What an operation does -/

/-- What the listeners are told is what has changed. -/
structure Tells (notice : Notice) (reg reg' : ToolRegistry η Λ) : Prop where
  told : ∀ id v, notice.changes.get id = some v → reg'.definition id = v
  untold : ∀ id, notice.changes.get id = none → reg'.definition id = reg.definition id
  retired : ∀ id ∈ notice.retired, notice.changes.get id = some none

/-- An operation that has not raised. -/
structure Done (listener : Λ → Notice → Λ) (reg reg' : ToolRegistry η Λ) : Prop where
  inv : Inv reg'
  revision : reg.revision ≤ reg'.revision
  touched : ∀ i, (reg'.revisionOf i = reg.revisionOf i ∧ reg'.mcpIndex.get i = reg.mcpIndex.get i) ∨
    reg.revision < reg'.revisionOf i
  heard : (reg'.heard = reg.heard ∧ ∀ id, reg'.definition id = reg.definition id) ∨
    ∃ notice, reg'.heard = listener reg.heard notice ∧ Tells notice reg reg'

variable {listener : Λ → Notice → Λ} {freeze : Tool → Except Failure Tool} {same : Option Json → Option Json → Bool}

theorem Built.done (h : Built reg s D) (hstructures : ∀ id, s.structures.get id = D id) (hdefinition : ∀ id, s.definition id = D id)
    (hdisjoint : ∀ id, (s.unavailable.get id).isSome = true → s.tools.get id = none) {notice : Notice}
    (hheard : s.heard = listener reg.heard notice) (htells : Tells notice reg s) : Done listener reg s where
  inv := {
    structures := fun id => (hstructures id).trans (hdefinition id).symm
    held := fun i id => by rw [h.held, hdefinition]
    nonempty := h.nonempty
    keyed := fun id t ht => h.keyed id t (hdefinition id ▸ ht)
    bounded := h.bounded
    disjoint := hdisjoint }
  revision := Nat.le_of_lt h.newer
  touched := h.touched
  heard := .inr ⟨notice, hheard, htells⟩

/-- The contract of an operation: it is done, or it has raised and changed nothing. -/
def Meets (listener : Λ → Notice → Λ) {α : Type} (op : Op η Λ α) : Prop :=
  ∀ reg, Inv reg → Act.Ends (Done listener reg) (fun _ s => s = reg) (op reg)

/-- One definition takes the place of another. -/
theorem Built.change (h : Built reg₀ s D) (t : Tool) :
    Built reg₀ (s.indexChange (D t.id) (some t)) (Function.update D t.id (some t)) := by
  cases hprevious : D t.id with
  | none => exact h.index hprevious
  | some previous =>
    have hid : previous.id = t.id := h.keyed _ _ hprevious
    have hremoved := h.unindex (t := previous) (by rw [hid, hprevious])
    have hindexed := hremoved.index (t := t) (by rw [hid, Function.update_self])
    rwa [hid, Function.update_idem] at hindexed

theorem indexChange_moved {previous current : Option Tool} : Moved reg (reg.indexChange previous current) := by
  unfold indexChange
  have hfirst : Moved reg (previous.elim reg reg.unindex) := by
    cases previous with
    | none => exact ⟨rfl, rfl, rfl, rfl, rfl⟩
    | some t => exact unindex_moved
  generalize previous.elim reg reg.unindex = s at hfirst
  cases current with
  | none => exact hfirst
  | some t =>
    have hsecond : Moved s (s.index t) := index_moved
    exact ⟨hsecond.tools.trans hfirst.tools, hsecond.structures.trans hfirst.structures,
      hsecond.unavailable.trans hfirst.unavailable, hsecond.heard.trans hfirst.heard, hsecond.revision.trans hfirst.revision⟩

/-- The registry after `publish`. -/
def published (reg : ToolRegistry η Λ) (record : ToolRecord η) : ToolRegistry η Λ :=
  let s := reg.bump.indexChange (reg.definition record.definition.id) (some record.definition)
  { s with
    structures := s.structures.set record.definition.id record.definition
    tools := s.tools.set record.definition.id record }

theorem Inv.published (h : Inv reg) (record : ToolRecord η) :
    Built reg (reg.published record) (Function.update reg.definition record.definition.id (some record.definition)) :=
  (h.bump.change record.definition).congr rfl rfl rfl

theorem published_structures (h : Inv reg) (record : ToolRecord η) (id : String) : (reg.published record).structures.get id =
    Function.update reg.definition record.definition.id (some record.definition) id := by
  have hmoved : Moved reg.bump (reg.bump.indexChange (reg.definition record.definition.id) (some record.definition)) :=
    indexChange_moved
  simp only [ToolRegistry.published, Dict.get_set, hmoved.structures, Function.update_apply]
  split
  · rfl
  · exact h.structures id

theorem published_tools (record : ToolRecord η) (id : String) : (reg.published record).tools.get id =
    if id = record.definition.id then some record else reg.tools.get id := by
  have hmoved : Moved reg.bump (reg.bump.indexChange (reg.definition record.definition.id) (some record.definition)) :=
    indexChange_moved
  simp only [ToolRegistry.published, Dict.get_set, hmoved.tools]
  rfl

theorem published_definition (record : ToolRecord η) (id : String) : (reg.published record).definition id =
    Function.update reg.definition record.definition.id (some record.definition) id := by
  rw [definition, published_tools, Function.update_apply]
  split
  · rfl
  · rfl

theorem published_frame (record : ToolRecord η) :
    (reg.published record).unavailable = reg.unavailable ∧ (reg.published record).heard = reg.heard := by
  have hmoved : Moved reg.bump (reg.bump.indexChange (reg.definition record.definition.id) (some record.definition)) :=
    indexChange_moved
  exact ⟨hmoved.unavailable, hmoved.heard⟩

/-- What is told where one tool is published. -/
theorem tells_published (record : ToolRecord η) (hdefinition : ∀ id, s.definition id = (reg.published record).definition id) :
    Tells ⟨Dict.fromKeys [record.definition.id] (some record.definition), []⟩ reg s where
  told id v hv := by
    simp only [Dict.get_fromKeys, List.mem_singleton] at hv
    rw [hdefinition, published_definition, Function.update_apply]
    split_ifs at hv ⊢ with hid
    exact Option.some.inj hv
  untold id hnone := by
    simp only [Dict.get_fromKeys, List.mem_singleton] at hnone
    rw [hdefinition, published_definition, Function.update_apply]
    split_ifs at hnone ⊢ with hid
    rfl
  retired id hid := nomatch hid

theorem register_meets (t : Tool) (handler : η) (replace : Bool) : Meets listener (register listener freeze t handler replace) := by
  intro reg hinv
  unfold register
  cases freeze t with
  | error e => exact rfl
  | ok owned =>
    rw [Act.ofExcept_run, Act.get_run]
    cases !reg.tools.has owned.id || replace with
    | false => exact rfl
    | true =>
      obtain ⟨hunavailable, hheard⟩ := @published_frame _ _ reg ⟨owned, handler⟩
      refine Built.done ((hinv.published ⟨owned, handler⟩).congr rfl rfl rfl) (published_structures hinv ⟨owned, handler⟩)
        (published_definition ⟨owned, handler⟩) ?_ (congrArg (listener · _) hheard)
        (tells_published ⟨owned, handler⟩ fun _ => rfl)
      intro id hsome
      have hget : (Dict.pop (reg.published ⟨owned, handler⟩).unavailable owned.id).get id = _ := Dict.get_pop _ _ _
      change ((Dict.pop (reg.published ⟨owned, handler⟩).unavailable owned.id).get id).isSome = true at hsome
      rw [hget, hunavailable] at hsome
      change (reg.published ⟨owned, handler⟩).tools.get id = none
      rw [published_tools]
      split_ifs at hsome ⊢ with hid
      · cases hsome
      · exact hinv.disjoint id hsome

theorem updateDefinition_meets (t : Tool) : Meets (η := η) listener (updateDefinition listener freeze same t) := by
  intro reg hinv
  unfold updateDefinition
  cases freeze t with
  | error e => exact rfl
  | ok owned =>
    rw [Act.ofExcept_run, Act.get_run]
    cases hprevious : reg.tools.get owned.id with
    | none => exact rfl
    | some previous =>
      rw [show expect (some previous) (Failure.notFound owned.id) = .ok previous from rfl, Act.ofExcept_run]
      cases sameIdentity same owned previous.definition with
      | false => exact rfl
      | true =>
        obtain ⟨hunavailable, hheard⟩ := @published_frame _ _ reg ⟨owned, previous.handler⟩
        refine Built.done ((hinv.published ⟨owned, previous.handler⟩).congr rfl rfl rfl)
          (published_structures hinv ⟨owned, previous.handler⟩) (published_definition ⟨owned, previous.handler⟩) ?_
          (congrArg (listener · _) hheard) (tells_published ⟨owned, previous.handler⟩ fun _ => rfl)
        intro id hsome
        change ((reg.published ⟨owned, previous.handler⟩).unavailable.get id).isSome = true at hsome
        rw [hunavailable] at hsome
        have hnone := hinv.disjoint id hsome
        change (reg.published ⟨owned, previous.handler⟩).tools.get id = none
        rw [published_tools, if_neg, hnone]
        rintro rfl
        rw [hprevious] at hnone
        cases hnone

/-! ## The loops over what is removed -/

/-- The definitions without some of them. -/
def without (D : String → Option Tool) (ids : List String) : String → Option Tool := fun id => if id ∈ ids then none else D id

theorem without_nil (D : String → Option Tool) : without D [] = D := rfl

theorem update_without (D : String → Option Tool) (a : String) (ids : List String) :
    without (Function.update D a none) ids = without D (a :: ids) := by
  funext id
  simp only [without, Function.update_apply, List.mem_cons]
  by_cases hid : id = a
  · simp [hid]
  · simp [hid]

/-- A loop that takes one definition out at each turn. -/
theorem removing {P : ToolRegistry η Λ → (String → Option Tool) → Prop} {f : String → Op η Λ Unit}
    (hstep : ∀ s D id t, P s D → D id = some t → ∃ s', f id s = .ok () s' ∧ P s' (Function.update D id none)) {ids : List String}
    (hnodup : ids.Nodup) (hmem : ∀ id ∈ ids, (D id).isSome = true) (h : P s D) :
    ∃ s', ids.forM f s = .ok () s' ∧ P s' (without D ids) := by
  induction ids generalizing s D with
  | nil => exact ⟨s, rfl, without_nil D ▸ h⟩
  | cons a ids ih =>
    obtain ⟨ha, hnodup⟩ := List.nodup_cons.mp hnodup
    obtain ⟨t, ht⟩ := Option.isSome_iff_exists.mp (hmem a List.mem_cons_self)
    obtain ⟨s₁, hrun, h₁⟩ := hstep s D a t h ht
    have hrest (id : String) (hid : id ∈ ids) : (Function.update D a none id).isSome = true := by
      rw [Function.update_of_ne (fun heq : id = a => ha (heq ▸ hid))]
      exact hmem id (List.mem_cons_of_mem _ hid)
    obtain ⟨s', hrun', h'⟩ := ih hnodup hrest h₁
    rw [update_without] at h'
    exact ⟨s', (Act.bind_run hrun).trans hrun', h'⟩

/-- In the loop of `unregister_by_metadata`. -/
structure Withdrawing (reg₀ s : ToolRegistry η Λ) (D : String → Option Tool) : Prop where
  built : Built reg₀ s D
  structures : ∀ id, s.structures.get id = D id
  definition : ∀ id, s.definition id = D id
  heard : s.heard = reg₀.heard
  disjoint : ∀ id, (s.unavailable.get id).isSome = true → s.tools.get id = none

variable {id : String}

theorem keepDefinition_run (retire : Bool) (h : s.structures.get id = some t) :
    keepDefinition retire id s = .ok () { s with unavailable := if retire then s.unavailable else s.unavailable.set id t } := by
  unfold keepDefinition structureOf
  cases retire with
  | true => rfl
  | false =>
    simp only [Bool.false_eq_true, if_false]
    refine Act.bind_run (b := t) (t := s) ?_
    rw [Act.get_run, h]
    rfl

theorem Withdrawing.step (retire : Bool) (h : Withdrawing reg₀ s D) (ht : D id = some t) :
    ∃ s', withdraw retire id s = .ok () s' ∧ Withdrawing reg₀ s' (Function.update D id none) := by
  obtain ⟨record, hrecord, hdefinition⟩ := Option.map_eq_some_iff.mp ((h.definition id).trans ht)
  have hid : t.id = id := h.built.keyed id t ht
  have hstructure : s.structures.get id = some t := (h.structures id).trans ht
  have hmoved (u : ToolRegistry η Λ) : Moved u (u.unindex t) := unindex_moved
  unfold withdraw
  rw [Act.bind_run (keepDefinition_run retire hstructure), Act.get_run, hrecord]
  rw [show expect (some record) (Failure.missing id) = .ok record from rfl, Act.ofExcept_run, Act.modify_run, Act.modify_run,
    hdefinition]
  generalize hu : ({ s with
      tools := s.tools.pop id
      unavailable := if retire then s.unavailable else s.unavailable.set id t } : ToolRegistry η Λ) = u
  have htools : (u.unindex t).tools = s.tools.pop id := (hmoved u).tools.trans (hu ▸ rfl)
  have hstructures : (u.unindex t).structures = s.structures := (hmoved u).structures.trans (hu ▸ rfl)
  have hunavailable : (u.unindex t).unavailable = if retire then s.unavailable else s.unavailable.set id t :=
    (hmoved u).unavailable.trans (hu ▸ rfl)
  have hbuilt : Built reg₀ u D := h.built.congr (hu ▸ rfl) (hu ▸ rfl) (hu ▸ rfl)
  have hunindexed := hid ▸ hbuilt.unindex (t := t) (hid.symm ▸ ht)
  refine ⟨{ u.unindex t with structures := (u.unindex t).structures.pop id }, ?_, ?_⟩
  · refine Act.bind_run (b := t) (t := u.unindex t) ?_
    unfold structureOf
    rw [Act.get_run]
    change Act.ofExcept (expect ((u.unindex t).structures.get id) _) _ = _
    rw [hstructures, hstructure]
    rfl
  refine ⟨hunindexed.congr rfl rfl rfl, fun id' => ?_, fun id' => ?_, ?_, fun id' hsome => ?_⟩
  · simp only [hstructures, Dict.get_pop, Function.update_apply]
    split
    · rfl
    · exact h.structures id'
  · simp only [ToolRegistry.definition, htools, Dict.get_pop, Function.update_apply]
    split
    · rfl
    · exact h.definition id'
  · exact ((hmoved u).heard.trans (hu ▸ rfl)).trans h.heard
  simp only [htools, Dict.get_pop]
  simp only [hunavailable] at hsome
  split
  · rfl
  rename_i hne
  refine h.disjoint id' ?_
  cases retire with
  | true => exact hsome
  | false => simpa [Dict.get_set, hne] using hsome

/-- In the loop of `replace_by_metadata`. -/
structure Displacing (reg₀ s : ToolRegistry η Λ) (D : String → Option Tool) : Prop where
  built : Built reg₀ s D
  structures : ∀ id, s.structures.get id = D id
  shrinks : ∀ id t, D id = some t → reg₀.definition id = some t
  tools : s.tools = reg₀.tools
  heard : s.heard = reg₀.heard
  unavailable : s.unavailable = reg₀.unavailable

theorem Displacing.step (h : Displacing reg₀ s D) (ht : D id = some t) :
    ∃ s', displace id s = .ok () s' ∧ Displacing reg₀ s' (Function.update D id none) := by
  obtain ⟨record, hrecord, hdefinition⟩ := Option.map_eq_some_iff.mp (h.shrinks id t ht)
  have hid : t.id = id := h.built.keyed id t ht
  have hstructure : s.structures.get id = some t := (h.structures id).trans ht
  have hmoved : Moved s (s.unindex t) := unindex_moved
  have hunindexed := hid ▸ h.built.unindex (t := t) (hid.symm ▸ ht)
  unfold displace
  rw [Act.get_run, h.tools, hrecord, show expect (some record) (Failure.missing id) = .ok record from rfl, Act.ofExcept_run,
    Act.modify_run, hdefinition]
  refine ⟨{ s.unindex t with structures := (s.unindex t).structures.pop id }, ?_, ?_⟩
  · refine Act.bind_run (b := t) (t := s.unindex t) ?_
    unfold structureOf
    rw [Act.get_run]
    change Act.ofExcept (expect ((s.unindex t).structures.get id) _) _ = _
    rw [hmoved.structures, hstructure]
    rfl
  refine ⟨hunindexed.congr rfl rfl rfl, fun id' => ?_, fun id' t' ht' => ?_, hmoved.tools.trans h.tools,
    hmoved.heard.trans h.heard, hmoved.unavailable.trans h.unavailable⟩
  · simp only [hmoved.structures, Dict.get_pop, Function.update_apply]
    split
    · rfl
    · exact h.structures id'
  · rw [Function.update_apply] at ht'
    split at ht'
    · cases ht'
    · exact h.shrinks id' t' ht'

/-! ## What is selected -/

variable {sel : Selector}

theorem mem_selected : id ∈ reg.selected sel ↔ ∃ t, reg.definition id = some t ∧ sel.selects t = true := by
  simp only [selected, List.mem_map, List.mem_filter, definition, Option.map_eq_some_iff, Dict.get_eq_some]
  constructor
  · rintro ⟨⟨id, record⟩, ⟨hmem, hselects⟩, rfl⟩
    exact ⟨_, ⟨record, hmem, rfl⟩, hselects⟩
  · rintro ⟨_, ⟨record, hmem, rfl⟩, hselects⟩
    exact ⟨(id, record), ⟨hmem, hselects⟩, rfl⟩

theorem selected_nodup : (reg.selected sel).Nodup := reg.tools.nodup.sublist (List.filter_sublist.map _)

theorem selected_isSome (h : id ∈ reg.selected sel) : (reg.definition id).isSome = true := by
  obtain ⟨t, ht, -⟩ := mem_selected.mp h
  rw [ht]
  rfl

theorem selectedUnavailable_isSome (h : id ∈ reg.selectedUnavailable sel) : (reg.unavailable.get id).isSome = true := by
  obtain ⟨kv, hmem, rfl⟩ := List.mem_map.mp h
  exact Option.isSome_iff_exists.mpr ⟨kv.2, Dict.get_eq_some.mpr (List.mem_filter.mp hmem).1⟩

theorem Inv.definition_none (h : Inv reg) (hsome : (reg.unavailable.get id).isSome = true) : reg.definition id = none := by
  rw [definition, h.disjoint id hsome]
  rfl

theorem gone_changes (retire : Bool) (ids : List String) (id : String) :
    (Notice.gone retire ids).changes.get id = if id ∈ ids then some none else none := Dict.get_fromKeys ids none id

theorem gone_retired {retire : Bool} {ids : List String} (h : id ∈ (Notice.gone retire ids).retired) : id ∈ ids := by
  unfold Notice.gone at h
  split at h
  · exact h
  · cases h

theorem unregisterByMetadata_meets (sel : Selector) (retire : Bool) :
    Meets (η := η) listener (unregisterByMetadata listener sel retire) := by
  intro reg hinv
  unfold unregisterByMetadata
  rw [Act.get_run]
  generalize hchanged : (reg.selected sel ++ if retire then reg.selectedUnavailable sel else []).dedup = changed
  have hmem (id : String) : id ∈ changed ↔ id ∈ reg.selected sel ∨ retire = true ∧ id ∈ reg.selectedUnavailable sel := by
    rw [← hchanged, List.mem_dedup, List.mem_append]
    cases retire <;> simp
  split
  · exact ⟨hinv, Nat.le_refl _, fun _ => .inl ⟨rfl, rfl⟩, .inl ⟨rfl, fun _ => rfl⟩⟩
  have hstart : Withdrawing reg reg.bump reg.definition := ⟨hinv.bump, hinv.structures, fun _ => rfl, rfl, hinv.disjoint⟩
  obtain ⟨s, hrun, hs⟩ := removing (fun _ _ _ _ h ht => h.step retire ht) selected_nodup (fun _ h => selected_isSome h) hstart
  rw [Act.modify_run, Act.bind_run hrun]
  have htells (id : String) : without reg.definition (reg.selected sel) id =
      if id ∈ changed then none else reg.definition id := by
    unfold without
    by_cases hselected : id ∈ reg.selected sel
    · rw [if_pos hselected, if_pos ((hmem id).mpr (.inl hselected))]
    rw [if_neg hselected]
    split
    · rename_i hin
      exact hinv.definition_none (selectedUnavailable_isSome (((hmem id).mp hin).resolve_left hselected).2)
    · rfl
  refine @Built.done _ _ _ _ _ _ (hs.built.congr rfl rfl rfl) hs.structures hs.definition ?_ (Notice.gone retire changed)
    (congrArg (listener · _) hs.heard) ⟨fun id v hv => ?_, fun id hnone => ?_, fun id hid => ?_⟩
  · intro id hsome
    refine hs.disjoint id ?_
    cases retire with
    | false => exact hsome
    | true =>
      change ((changed.foldl Dict.pop s.unavailable).get id).isSome = true at hsome
      rw [Dict.get_foldl_pop] at hsome
      split at hsome
      · cases hsome
      · exact hsome
  · change s.definition id = v
    rw [gone_changes] at hv
    rw [hs.definition, htells]
    split at hv
    · rw [if_pos (by assumption), Option.some.inj hv]
    · cases hv
  · change s.definition id = reg.definition id
    rw [gone_changes] at hnone
    rw [hs.definition, htells]
    split at hnone
    · cases hnone
    · rw [if_neg (by assumption)]
  · rw [gone_changes, if_pos (gone_retired hid)]

/-! ## Replacing -/

/-- A record of the replacement is under its own id. -/
def KeyedRecords (records : Dict String (ToolRecord η)) : Prop := ∀ id record, records.get id = some record → record.definition.id = id

theorem keyed_foldlM {records : List (ToolRecord η)} {replacement replacement' : Dict String (ToolRecord η)}
    (h : records.foldlM (admitReplacement freeze sel) replacement = .ok replacement') (hkeyed : KeyedRecords replacement) :
    KeyedRecords replacement' := by
  induction records generalizing replacement with
  | nil =>
    cases h
    exact hkeyed
  | cons record records ih =>
    rw [List.foldlM_cons] at h
    obtain ⟨next, hadmitted, h⟩ := bind_eq_ok.mp h
    refine ih h ?_
    simp only [admitReplacement, bind_eq_ok, require_eq_ok, pure_eq_ok] at hadmitted
    obtain ⟨owned, -, -, -, -, -, -, -, rfl⟩ := hadmitted
    intro id record' hget
    rw [Dict.get_set] at hget
    split at hget
    · rename_i hid
      cases hget
      exact hid.symm
    · exact hkeyed id record' hget

theorem definitionsOf_keys (records : Dict String (ToolRecord η)) : (definitionsOf records).map Prod.fst = records.keys := by
  simp [definitionsOf, Dict.keys]

theorem definitionsOf_find (records : Dict String (ToolRecord η)) (id : String) :
    ((definitionsOf records).find? (·.1 = id)).map (·.2) = (records.get id).map (·.definition) := by
  unfold definitionsOf Dict.get Table.find
  rw [List.find?_map, Option.map_map, Option.map_map]
  rfl

theorem get_some_definitions (records : Dict String (ToolRecord η)) (d : Dict String (Option Tool)) (id : String) :
    ((definitionsOf records).foldl (fun d kv => d.set kv.1 (some kv.2)) d).get id =
      ((records.get id).map fun r => some r.definition).or (d.get id) := by
  have hmap : (definitionsOf records).foldl (fun d kv => d.set kv.1 (some kv.2)) d =
      ((definitionsOf records).map fun kv => (kv.1, some kv.2)).foldl (fun d kv => d.set kv.1 kv.2) d := by
    rw [List.foldl_map]
  rw [hmap, Dict.get_foldl_set]
  · have hfind := congrArg (Option.map some) (definitionsOf_find records id)
    simp only [Option.map_map, Function.comp_def] at hfind
    rw [List.find?_map, Option.map_map]
    simp only [Function.comp_def, hfind]
  · rw [List.map_map]
    exact (definitionsOf_keys records) ▸ records.nodup

/-- The loop over the replacements. -/
theorem Built.adding {l : List (String × Tool)} (hl : (l.map Prod.fst).Nodup) (hid : ∀ kv ∈ l, kv.2.id = kv.1)
    (hnone : ∀ kv ∈ l, D kv.1 = none) (h : Built reg₀ s D) :
    Built reg₀ (l.foldl (fun reg kv => reg.indexChange none (some kv.2)) s) (fun id => ((l.find? (·.1 = id)).map (·.2)).or (D id)) ∧
      Moved s (l.foldl (fun reg kv => reg.indexChange none (some kv.2)) s) := by
  induction l generalizing s D with
  | nil => exact ⟨h, ⟨rfl, rfl, rfl, rfl, rfl⟩⟩
  | cons kv l ih =>
    rw [List.map_cons, List.nodup_cons] at hl
    obtain ⟨hkv, hid⟩ := List.forall_mem_cons.mp hid
    obtain ⟨hfirst, hnone⟩ := List.forall_mem_cons.mp hnone
    have hindexed := h.index (t := kv.2) (by rw [hkv, hfirst])
    rw [hkv] at hindexed
    have hne (kv' : String × Tool) (hmem : kv' ∈ l) : kv'.1 ≠ kv.1 := fun heq => hl.1 (List.mem_map.mpr ⟨kv', hmem, heq⟩)
    obtain ⟨hbuilt, hmoved⟩ := ih hl.2 hid (fun kv' hmem => by rw [Function.update_of_ne (hne kv' hmem), hnone kv' hmem]) hindexed
    have hstep : Moved s (s.indexChange none (some kv.2)) := indexChange_moved
    refine ⟨?_, hmoved.tools.trans hstep.tools, hmoved.structures.trans hstep.structures,
      hmoved.unavailable.trans hstep.unavailable, hmoved.heard.trans hstep.heard, hmoved.revision.trans hstep.revision⟩
    refine cast (congrArg (Built reg₀ _) (funext fun id => ?_)) hbuilt
    rw [Function.update_apply]
    by_cases hk : kv.1 = id
    · subst hk
      rw [List.find?_cons_of_pos (by simp), if_pos rfl, List.find?_eq_none.mpr fun kv' hmem => by simpa using hne kv' hmem]
      rfl
    · rw [List.find?_cons_of_neg (by simpa using hk), if_neg (Ne.symm hk)]

/-- Where nothing conflicts, what is replaced is selected. -/
theorem of_conflictsWith {replacement : Dict String (ToolRecord η)} (h : (reg.conflictsWith sel replacement).isEmpty = true)
    {record : ToolRecord η} (hget : replacement.get id = some record) : ((reg.definition id).isSome = true → id ∈ reg.selected sel) ∧
      ((reg.unavailable.get id).isSome = true → id ∈ reg.selectedUnavailable sel) := by
  have hnot : id ∉ reg.conflictsWith sel replacement := by
    rw [List.isEmpty_iff.mp h]
    exact List.not_mem_nil
  have hkey : id ∈ replacement.keys := Dict.mem_keys.mpr (by rw [hget]; rfl)
  have hhas : (reg.definition id).isSome = reg.tools.has id := by simp [definition, Dict.has]
  simp only [conflictsWith, List.mem_insertionSort, List.mem_filter, hkey, true_and, Bool.or_eq_true, Bool.and_eq_true,
    Bool.not_eq_true', List.contains_iff_mem, not_or, not_and, Bool.not_eq_false, ← hhas] at hnot
  exact ⟨fun hsome => by simpa using hnot.1 hsome, fun hsome => by simpa using hnot.2 hsome⟩

theorem replaceByMetadata_meets (sel : Selector) (records : List (ToolRecord η)) :
    Meets listener (replaceByMetadata listener freeze sel records) := by
  intro reg hinv
  unfold replaceByMetadata
  cases hreplacement : records.foldlM (admitReplacement freeze sel) ∅ with
  | error e => exact rfl
  | ok replacement =>
    have hkeyed : KeyedRecords replacement := keyed_foldlM hreplacement fun _ _ h => nomatch h
    rw [Act.ofExcept_run, Act.get_run]
    cases hconflicts : (reg.conflictsWith sel replacement).isEmpty with
    | false => exact rfl
    | true =>
      have hselected {id : String} {record : ToolRecord η} (hget : replacement.get id = some record) :=
        of_conflictsWith hconflicts hget
      rw [Act.require_run]
      have hstart : Displacing reg reg.bump reg.definition := ⟨hinv.bump, hinv.structures, fun _ _ h => h, rfl, rfl, rfl⟩
      obtain ⟨s, hrun, hs⟩ := removing (fun _ _ _ _ h ht => h.step ht) selected_nodup (fun _ h => selected_isSome h) hstart
      rw [Act.modify_run, Act.bind_run hrun, Act.modify_run]
      have hmem (kv : String × Tool) (hkv : kv ∈ definitionsOf replacement) :
          ∃ record, replacement.get kv.1 = some record ∧ kv.2 = record.definition := by
        obtain ⟨⟨id, record⟩, hrow, rfl⟩ := List.mem_map.mp hkv
        exact ⟨record, Dict.get_eq_some.mpr hrow, rfl⟩
      have hgone {id : String} {record : ToolRecord η} (hget : replacement.get id = some record) :
          without reg.definition (reg.selected sel) id = none := by
        unfold without
        split
        · rfl
        · rename_i hnot
          exact Option.not_isSome_iff_eq_none.mp fun hsome => hnot ((hselected hget).1 hsome)
      obtain ⟨hbuilt, hmoved⟩ := Built.adding (l := definitionsOf replacement)
        ((definitionsOf_keys replacement).symm ▸ replacement.nodup)
        (fun kv hkv => by
          obtain ⟨record, hget, hdefinition⟩ := hmem kv hkv
          rw [hdefinition]
          exact hkeyed _ _ hget)
        (fun kv hkv => hgone (hmem kv hkv).choose_spec.1) hs.built
      generalize (definitionsOf replacement).foldl (fun reg kv => reg.indexChange none (some kv.2)) s = s' at hbuilt hmoved
      have hdefinitions (id : String) : ((definitionsOf replacement).find? (·.1 = id)).map (·.2) = _ :=
        definitionsOf_find replacement id
      simp only [hdefinitions] at hbuilt
      have hfinal (id : String) : ((Dict.update (s'.tools.delete fun kv => (reg.selected sel).contains kv.1) replacement).get id).map
          (·.definition) = ((replacement.get id).map (·.definition)).or (without reg.definition (reg.selected sel) id) := by
        rw [Dict.get_update, Dict.get_delete, hmoved.tools, hs.tools]
        cases hget : replacement.get id with
        | some record => rfl
        | none =>
          simp only [Option.none_or, Option.map_none, without, definition]
          cases reg.tools.get id with
          | none => simp
          | some record => by_cases hin : id ∈ reg.selected sel <;> simp [hin]
      have hchanges (id : String) : ((definitionsOf replacement).foldl (fun d kv => d.set kv.1 (some kv.2))
          (Dict.fromKeys (((reg.selected sel ++ reg.selectedUnavailable sel).dedup.filter fun id => !replacement.has id)) none)).get id =
            if (replacement.get id).isSome then (replacement.get id).map fun r => some r.definition
            else if id ∈ reg.selected sel ∨ id ∈ reg.selectedUnavailable sel then some none else none := by
        rw [get_some_definitions, Dict.get_fromKeys]
        cases hget : replacement.get id with
        | some record => rfl
        | none => simp [Dict.has, hget]
      refine Built.done (hbuilt.congr rfl rfl rfl) (fun id => ?_) hfinal (fun id hsome => ?_)
        (congrArg (listener · _) (hmoved.heard.trans hs.heard)) ⟨fun id v hv => ?_, fun id hnone => ?_, fun id hid => ?_⟩
      · change ((definitionsOf replacement).foldl (fun d kv => d.set kv.1 kv.2) s'.structures).get id = _
        rw [Dict.get_foldl_set _ ((definitionsOf_keys replacement).symm ▸ replacement.nodup), hdefinitions, hmoved.structures,
          hs.structures]
      · change (((reg.selectedUnavailable sel).foldl Dict.pop s'.unavailable).get id).isSome = true at hsome
        change (Dict.update (s'.tools.delete fun kv => (reg.selected sel).contains kv.1) replacement).get id = none
        rw [Dict.get_foldl_pop, hmoved.unavailable, hs.unavailable] at hsome
        split at hsome
        · cases hsome
        rename_i hnot
        rw [Dict.get_update, Dict.get_delete, hmoved.tools, hs.tools, hinv.disjoint id hsome, Option.filter_none, Option.or_none]
        cases hget : replacement.get id with
        | none => rfl
        | some record => exact absurd ((hselected hget).2 hsome) hnot
      · change ((Dict.update _ replacement).get id).map (·.definition) = v
        rw [hchanges] at hv
        rw [hfinal]
        cases hget : replacement.get id with
        | some record =>
          rw [hget] at hv
          exact Option.some.inj hv
        | none =>
          rw [hget] at hv
          simp only [Option.isSome_none, Bool.false_eq_true, if_false] at hv
          split at hv
          · rename_i hin
            cases hv
            rw [Option.map_none, Option.none_or, without]
            split
            · rfl
            · rename_i hnot
              exact hinv.definition_none (selectedUnavailable_isSome (hin.resolve_left hnot))
          · cases hv
      · change ((Dict.update _ replacement).get id).map (·.definition) = reg.definition id
        rw [hchanges] at hnone
        rw [hfinal]
        cases hget : replacement.get id with
        | some record =>
          rw [hget] at hnone
          cases hnone
        | none =>
          rw [hget] at hnone
          simp only [Option.isSome_none, Bool.false_eq_true, if_false] at hnone
          split at hnone
          · cases hnone
          · rename_i hnot
            rw [Option.map_none, Option.none_or, without, if_neg fun hin => hnot (.inl hin)]
      · obtain ⟨hin, hlacks⟩ := List.mem_filter.mp hid
        rw [List.mem_dedup, List.mem_append] at hin
        have hget : replacement.get id = none := Dict.has_eq_false.mp (by simpa using hlacks)
        rw [hchanges, hget, if_neg (by simp), if_pos hin]

/-! ## Runs -/

inductive Call (η : Type)
  | register (definition : Tool) (handler : η) (replace : Bool)
  | updateDefinition (definition : Tool)
  | unregisterByMetadata (sel : Selector) (retire : Bool)
  | replaceByMetadata (sel : Selector) (records : List (ToolRecord η))

/-- The failure that was raised, if one was, and the state. -/
def outcome {σ α : Type} : EStateM.Result Failure σ α → Option Failure × σ
  | .ok _ s => (none, s)
  | .error e s => (some e, s)

section

variable (listener : Λ → Notice → Λ) (freeze : Tool → Except Failure Tool) (same : Option Json → Option Json → Bool)

def perform (reg : ToolRegistry η Λ) : Call η → Option Failure × ToolRegistry η Λ
  | .register definition handler replace => outcome (register listener freeze definition handler replace reg)
  | .updateDefinition definition => outcome (updateDefinition listener freeze same definition reg)
  | .unregisterByMetadata sel retire => outcome (unregisterByMetadata listener sel retire reg)
  | .replaceByMetadata sel records => outcome (replaceByMetadata listener freeze sel records reg)

def next (reg : ToolRegistry η Λ) (call : Call η) : ToolRegistry η Λ := (perform listener freeze same reg call).2

def Step (reg : ToolRegistry η Λ) (call : Call η) (reg' : ToolRegistry η Λ) : Prop := next listener freeze same reg call = reg'

end

theorem Meets.outcome {α : Type} {op : Op η Λ α} (h : Meets listener op) (hinv : Inv reg) :
    ((outcome (op reg)).1 = none ∧ Done listener reg (outcome (op reg)).2) ∨
      ((outcome (op reg)).1.isSome = true ∧ (outcome (op reg)).2 = reg) := by
  have := h reg hinv
  cases hop : op reg with
  | ok a s =>
    rw [hop] at this
    exact .inl ⟨rfl, this⟩
  | error e s =>
    rw [hop] at this
    exact .inr ⟨rfl, this⟩

/-- A call is done, or it has raised and changed nothing. -/
theorem perform_cases (hinv : Inv reg) (call : Call η) :
    ((perform listener freeze same reg call).1 = none ∧ Done listener reg (next listener freeze same reg call)) ∨
      ((perform listener freeze same reg call).1.isSome = true ∧ next listener freeze same reg call = reg) := by
  cases call with
  | register definition handler replace => exact (register_meets definition handler replace).outcome hinv
  | updateDefinition definition => exact (updateDefinition_meets definition).outcome hinv
  | unregisterByMetadata sel retire => exact (unregisterByMetadata_meets sel retire).outcome hinv
  | replaceByMetadata sel records => exact (replaceByMetadata_meets sel records).outcome hinv

theorem Inv.step (hinv : Inv reg) {call : Call η} (hstep : Step listener freeze same reg call reg') : Inv reg' := by
  rw [← hstep]
  rcases perform_cases hinv call with ⟨-, hdone⟩ | ⟨-, hsame⟩
  · exact hdone.inv
  · rw [hsame]
    exact hinv

/-- What a later state says of an earlier one. -/
structure Later (reg reg' : ToolRegistry η Λ) : Prop where
  revision : reg.revision ≤ reg'.revision
  touched : ∀ i, (reg'.revisionOf i = reg.revisionOf i ∧ reg'.mcpIndex.get i = reg.mcpIndex.get i) ∨
    reg.revision < reg'.revisionOf i

theorem Later.refl (reg : ToolRegistry η Λ) : Later reg reg := ⟨Nat.le_refl _, fun _ => .inl ⟨rfl, rfl⟩⟩

theorem Later.trans {a b c : ToolRegistry η Λ} (hab : Later a b) (hbc : Later b c) : Later a c where
  revision := hab.revision.trans hbc.revision
  touched i := by
    rcases hbc.touched i with ⟨hrevision, hbucket⟩ | hlt
    · rcases hab.touched i with ⟨hrevision', hbucket'⟩ | hlt
      · exact .inl ⟨hrevision.trans hrevision', hbucket.trans hbucket'⟩
      · exact .inr (hrevision ▸ hlt)
    · exact .inr (Nat.lt_of_le_of_lt hab.revision hlt)

theorem Later.run {tr : List (Call η)} (hinv : Inv reg) (hrun : Run (Step listener freeze same) reg tr reg') : Later reg reg' := by
  refine hrun.rel hinv (fun _ _ _ h hs => h.step hs) Later.refl (fun _ _ _ => Later.trans) fun t call v ht hs => ?_
  rw [← hs]
  rcases perform_cases ht call with ⟨-, hdone⟩ | ⟨-, hsame⟩
  · exact ⟨hdone.revision, hdone.touched⟩
  · rw [hsame]
    exact .refl t

/-- A snapshot that is current is still what a snapshot would be. -/
theorem Later.snapshot (hlater : Later reg reg') (hinv : Inv reg) {instanceIds : List String} {maxTools maxTools' : Nat} {snap : Snapshot}
    (hsnap : reg.mcpSnapshot instanceIds maxTools = some snap) (hcurrent : reg'.mcpSnapshotCurrent snap.revisions = true) :
    reg'.mcpSnapshot instanceIds maxTools' = reg.mcpSnapshot instanceIds maxTools' := by
  have hrevisions : snap.revisions = (sortedSet instanceIds).map fun i => (i, reg.revisionOf i) := by
    simp only [mcpSnapshot] at hsnap
    split at hsnap
    · cases hsnap
    · cases hsnap
      rfl
  have hsame (i : String) (hi : i ∈ sortedSet instanceIds) :
      reg'.revisionOf i = reg.revisionOf i ∧ reg'.mcpIndex.get i = reg.mcpIndex.get i := by
    rw [hrevisions, mcpSnapshotCurrent, List.all_map, List.all_eq_true] at hcurrent
    have hrevision : reg'.revisionOf i = reg.revisionOf i := by simpa [revisionOf] using hcurrent i hi
    refine (hlater.touched i).resolve_right fun hlt => ?_
    rw [hrevision] at hlt
    exact absurd (hinv.bounded i) (Nat.not_le.mpr hlt)
  have hbucket (i : String) (hi : i ∈ sortedSet instanceIds) : reg'.bucket i = reg.bucket i := by
    rw [bucket, bucket, (hsame i hi).2]
  have hsizes : (sortedSet instanceIds).map (fun i => (reg'.bucket i).rows.length) =
      (sortedSet instanceIds).map fun i => (reg.bucket i).rows.length := List.map_congr_left fun i hi => by rw [hbucket i hi]
  have hpairs : (sortedSet instanceIds).map (fun i => (i, (reg'.mcpRevisions.get i).getD 0)) =
      (sortedSet instanceIds).map fun i => (i, (reg.mcpRevisions.get i).getD 0) :=
    List.map_congr_left fun i hi => congrArg (Prod.mk i) (hsame i hi).1
  have htools : (sortedSet instanceIds).flatMap (fun i => (reg'.bucket i).values) =
      (sortedSet instanceIds).flatMap fun i => (reg.bucket i).values := List.flatMap_congr fun i hi => by rw [hbucket i hi]
  simp only [mcpSnapshot, hsizes, hpairs, htools]

/-- **The registry is consistent.** In every run the tools and the structures have the same ids; the index holds a tool under an
instance exactly where it is registered for this instance, with its structure, and has no empty bucket; no tool is registered and
unavailable at once. A snapshot whose revisions are current is what a snapshot of the same instances gives. An operation that
raises changes nothing. -/
theorem registry_consistent {heard : Λ} {tr : List (Call η)} {reg : ToolRegistry η Λ}
    (hrun : Run (Step listener freeze same) { heard := heard } tr reg) :
    (∀ id, reg.tools.has id = reg.structures.has id) ∧
    (∀ i id structure', ((reg.bucket i).get id).map (·.structure') = some structure' ↔
      (∃ record, reg.tools.get id = some record ∧ record.definition.source = "mcp" ∧ record.definition.serverId = some i) ∧
        reg.structures.get id = some structure') ∧
    (∀ i b, reg.mcpIndex.get i = some b → b.rows ≠ []) ∧
    (∀ id, reg.unavailable.has id = true → reg.tools.has id = false) ∧
    (∀ instanceIds maxTools snap, reg.mcpSnapshot instanceIds maxTools = some snap → ∀ tr' reg',
      Run (Step listener freeze same) reg tr' reg' → reg'.mcpSnapshotCurrent snap.revisions = true →
        ∀ maxTools', reg'.mcpSnapshot instanceIds maxTools' = reg.mcpSnapshot instanceIds maxTools') ∧
    ∀ call, (perform listener freeze same reg call).1.isSome = true → (perform listener freeze same reg call).2 = reg := by
  have hinv : Inv reg := hrun.invariant (Inv.empty heard) fun _ _ _ h hs => h.step hs
  refine ⟨fun id => ?_, fun i id structure' => ?_, hinv.nonempty, fun id hid => Dict.has_eq_false.mpr (hinv.disjoint id hid),
    fun instanceIds maxTools snap hsnap tr' reg' hrun' hcurrent maxTools' =>
      (Later.run hinv hrun').snapshot hinv hsnap hcurrent, fun call hraised => ?_⟩
  · unfold Dict.has
    rw [hinv.structures, definition, Option.isSome_map]
  · have hheld := hinv.held i id
    unfold ToolRegistry.held at hheld
    rw [hheld, hinv.structures, Option.filter_eq_some_iff]
    have hinstance (t : Tool) : instanceOf t = some i ↔ t.source = "mcp" ∧ t.serverId = some i := by
      unfold instanceOf
      split <;> simp_all
    constructor
    · rintro ⟨ht, hi⟩
      obtain ⟨record, hrecord, rfl⟩ := Option.map_eq_some_iff.mp ht
      exact ⟨⟨record, hrecord, (hinstance _).mp (of_decide_eq_true hi)⟩, ht⟩
    rintro ⟨⟨record, hrecord, hi⟩, ht⟩
    have hsame : record.definition = structure' := by
      rw [definition, hrecord] at ht
      exact Option.some.inj ht
    exact ⟨ht, decide_eq_true ((hinstance _).mpr (hsame ▸ hi))⟩
  · rcases @perform_cases _ _ _ listener freeze same hinv call with ⟨hnone, -⟩ | ⟨-, hsame⟩
    · rw [hnone] at hraised
      cases hraised
    · exact hsame

/-! A tool is registered and goes offline. -/

section Sample

def sampleTool : Tool := { id := "mcp.s1.t", inputSchema := .null, metadata := [("server_id", .str "s1")] }

def ofS1 : Selector where
  key := "server_id"
  equals value := match value with
    | some (.str s) => s = "s1"
    | _ => false
  equalsFrozen value := match value with
    | some (.str s) => s = "s1"
    | _ => false
  source := some "mcp"

def sampleCalls : List (Call Unit) := [.register sampleTool () false, .unregisterByMetadata ofS1 false]

def sampleNext : ToolRegistry Unit Unit → Call Unit → ToolRegistry Unit Unit := next (fun _ _ => ()) .ok fun _ _ => true

theorem registry_consistent_sample : ((sampleCalls.take 1).foldl sampleNext { heard := () }).tools.has "mcp.s1.t" = true ∧
      (sampleCalls.foldl sampleNext { heard := () }).unavailable.has "mcp.s1.t" = true ∧
      (sampleCalls.foldl sampleNext { heard := () }).tools.has "mcp.s1.t" = false := by
  refine ⟨by decide +kernel, by decide +kernel, ?_⟩
  refine (registry_consistent (Run.of_foldl (f := sampleNext) (fun _ _ => rfl) _ sampleCalls)).2.2.2.1 _ ?_
  decide +kernel

end Sample

end ToolRegistry

end LingshuGate.Tools
