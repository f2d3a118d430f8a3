import LingshuGate.OpenApi.SchemaParts

/-!
# What a compiled schema accepts

`Accepts` is the meaning of a schema with its references: a reference accepts what the schema accepts that it leads to. It takes
the function from references to schemas as a parameter, so that it can be read with `written`, as the compiler looks references
up, and with `designated`, as they are meant.

`schema_spec` is the compiler against the first reading: what it accepts is unfolded to an end (`Unfolds`), the result has no
reference in it and accepts the same values. `schema_keeps_iff` is the step to the second.
-/

namespace LingshuGate.OpenApi

open Lib
open Lib.JsonSchema

/-- A library of schemas: the values, and what keywords assert that are not among the supported ones. -/
structure Validation extends Values where
  others : Fields → Json → Prop

variable (w : Validation) (legacy : Bool) (resolve : String → Option Json)

/-- What a schema accepts, its references included. -/
inductive Accepts : Json → Json → Prop
  | anything (x : Json) : Accepts (.bool true) x
  | reference {fields : Fields} {ref : String} {target x : Json} (href : get fields "$ref" = some (.str ref))
      (hothers : fields.length = 1 ∨ w.others fields x) (hresolve : resolve ref = some target) (htarget : Accepts target x) :
      Accepts (.obj fields) x
  | plain {fields : Fields} {x : Json} (href : get fields "$ref" = none)
      (hothers : (∀ kv ∈ fields, known legacy kv.1 = true) ∨ w.others fields x)
      (hasserts : (asserts w.toValues plainKeys fields x && Meant w.toValues legacy fields x) = true)
      (hitems : ∀ items, x = .arr items → ∀ schema, get fields "items" = some schema → ∀ y ∈ items, Accepts schema y)
      (hmembers : ∀ members, x = .obj members → ∀ kv ∈ members, ∀ schema, member fields kv.1 = some schema → Accepts schema kv.2) :
      Accepts (.obj fields) x

/-- The schemas that a schema without a reference has in it. -/
def Child (fields : Fields) (schema : Json) : Prop :=
  get fields "items" = some schema ∨ (∃ name, property fields name = some schema) ∨ get fields "additionalProperties" = some schema

/-- One step into a schema: along its reference, or into a part of it. -/
inductive Leads : Json → Json → Prop
  | reference {fields : Fields} {ref : String} {target : Json} (href : get fields "$ref" = some (.str ref))
      (hresolve : resolve ref = some target) : Leads (.obj fields) target
  | part {fields : Fields} {schema : Json} (href : get fields "$ref" = none) (hchild : Child fields schema) :
      Leads (.obj fields) schema

/-- A schema from which references lead in a circle. -/
def Cyclic (raw : Json) : Prop := ∃ a, Relation.ReflTransGen (Leads resolve) raw a ∧ Relation.TransGen (Leads resolve) a a

/-- The references come to an end, and no schema has anything beside its reference. -/
inductive Unfolds : Json → Prop
  | bool (b : Bool) : Unfolds (.bool b)
  | reference {fields : Fields} {ref : String} {target : Json} (href : get fields "$ref" = some (.str ref))
      (hlength : fields.length = 1) (hresolve : resolve ref = some target) (htarget : Unfolds target) : Unfolds (.obj fields)
  | plain {fields : Fields} (href : get fields "$ref" = none) (hknown : ∀ kv ∈ fields, known legacy kv.1 = true)
      (hchildren : ∀ schema, Child fields schema → Unfolds schema) : Unfolds (.obj fields)

/-- No schema in the schema has a reference. -/
inductive RefFree : Json → Prop
  | bool (b : Bool) : RefFree (.bool b)
  | plain {fields : Fields} (href : get fields "$ref" = none) (hchildren : ∀ schema, Child fields schema → RefFree schema) :
      RefFree (.obj fields)

variable {w legacy resolve}

variable {x : Json}

theorem accepts_bool {b : Bool} : Accepts w legacy resolve (.bool b) x ↔ b = true := by
  constructor
  · rintro ⟨⟩
    rfl
  · rintro rfl
    exact .anything x

variable {ref : String}

theorem accepts_reference {fields : Fields} (href : get fields "$ref" = some (.str ref)) (hlength : fields.length = 1) :
    Accepts w legacy resolve (.obj fields) x ↔ ∃ target, resolve ref = some target ∧ Accepts w legacy resolve target x := by
  constructor
  · intro h
    cases h with
    | reference href' _ hresolve htarget =>
      obtain rfl : ref = _ := by simpa using href.symm.trans href'
      exact ⟨_, hresolve, htarget⟩
    | plain href' => simp [href] at href'
  · rintro ⟨target, hresolve, htarget⟩
    exact .reference href (.inl hlength) hresolve htarget

theorem accepts_plain {fields : Fields} (href : get fields "$ref" = none) (hknown : ∀ kv ∈ fields, known legacy kv.1 = true) :
    Accepts w legacy resolve (.obj fields) x ↔ (asserts w.toValues plainKeys fields x && Meant w.toValues legacy fields x) = true ∧
        (∀ items, x = .arr items → ∀ schema, get fields "items" = some schema → ∀ y ∈ items, Accepts w legacy resolve schema y) ∧
        ∀ members, x = .obj members → ∀ kv ∈ members, ∀ schema, member fields kv.1 = some schema →
          Accepts w legacy resolve schema kv.2 := by
  constructor
  · intro h
    cases h with
    | reference href' => simp [href] at href'
    | plain _ _ hasserts hitems hmembers => exact ⟨hasserts, hitems, hmembers⟩
  · rintro ⟨hasserts, hitems, hmembers⟩
    exact .plain href (.inl hknown) hasserts hitems hmembers

theorem child_of_member {fields : Fields} {name : String} {schema : Json} (h : member fields name = some schema) :
    Child fields schema := by
  unfold member at h
  cases hproperty : property fields name with
  | some found =>
    obtain rfl : found = schema := by simpa [hproperty] using h
    exact .inr (.inl ⟨name, hproperty⟩)
  | none => exact .inr (.inr (by simpa [hproperty] using h))

/-! ## One schema written out -/

variable {c : SchemaCompiler} {visit : Visit} {fields out : Fields}

theorem rel_some {R : Json → Json → Prop} {a b : Option Json} (h : Option.Rel R a b) (hx : a = some x) :
    ∃ y, b = some y ∧ R x y := by
  cases h with
  | none => cases hx
  | some hr =>
    obtain rfl := Option.some.inj hx
    exact ⟨_, rfl, hr⟩

theorem rel_some' {R : Json → Json → Prop} {a b : Option Json} (h : Option.Rel R a b) {y : Json} (hy : b = some y) :
    ∃ x, a = some x ∧ R x y := by
  cases h with
  | none => cases hy
  | some hr =>
    obtain rfl := Option.some.inj hy
    exact ⟨_, rfl, hr⟩

theorem WrittenOut.child (h : WrittenOut c visit fields out) {schema : Json} (hchild : Child fields schema) :
    ∃ compiled, Built visit schema compiled := by
  rcases hchild with hitem | ⟨name, hproperty⟩ | hother
  · exact (rel_some h.items hitem).imp fun _ hbuilt => hbuilt.2
  · exact (rel_some (h.properties name) hproperty).imp fun _ hbuilt => hbuilt.2
  · exact (rel_some h.additional hother).imp fun _ hbuilt => hbuilt.2

theorem WrittenOut.child' (h : WrittenOut c visit fields out) {compiled : Json} (hchild : Child out compiled) :
    ∃ schema, Built visit schema compiled := by
  rcases hchild with hitem | ⟨name, hproperty⟩ | hother
  · exact (rel_some' h.items hitem).imp fun _ hbuilt => hbuilt.2
  · exact (rel_some' (h.properties name) hproperty).imp fun _ hbuilt => hbuilt.2
  · exact (rel_some' h.additional hother).imp fun _ hbuilt => hbuilt.2

theorem WrittenOut.member (h : WrittenOut c visit fields out) (name : String) :
    Option.Rel (Built visit) (member fields name) (member out name) := by
  have hproperty := h.properties name
  unfold JsonSchema.member
  generalize property fields name = a at hproperty ⊢
  generalize property out name = b at hproperty ⊢
  cases hproperty with
  | none => exact h.additional
  | some hr => exact .some hr

/-- Where the parts accept the same, the whole does. -/
theorem WrittenOut.valid (h : WrittenOut c visit fields out) (href : get fields "$ref" = none)
    (hparts : ∀ schema compiled, Built visit schema compiled →
      ∀ y, valid w.toValues compiled y = true ↔ Accepts w c.legacy resolve schema y) (x : Json) :
    valid w.toValues (.obj out) x = true ↔ Accepts w c.legacy resolve (.obj fields) x := by
  rw [valid_obj, accepts_plain href h.known, h.meant]
  refine and_congr Iff.rfl (and_congr ?_ ?_)
  · refine forall_congr' fun items => imp_congr_right fun _ => ⟨fun hall schema hschema y hy => ?_, fun hall compiled hcompiled y hy => ?_⟩
    · obtain ⟨compiled, hcompiled, hbuilt⟩ := rel_some h.items hschema
      exact (hparts schema compiled hbuilt y).mp (hall compiled hcompiled y hy)
    · obtain ⟨schema, hschema, hbuilt⟩ := rel_some' h.items hcompiled
      exact (hparts schema compiled hbuilt y).mpr (hall schema hschema y hy)
  refine forall_congr' fun members => imp_congr_right fun _ => forall_congr' fun kv => imp_congr_right fun _ =>
    ⟨fun hall schema hschema => ?_, fun hall compiled hcompiled => ?_⟩
  · obtain ⟨compiled, hcompiled, hbuilt⟩ := rel_some (h.member kv.1) hschema
    exact (hparts schema compiled hbuilt kv.2).mp (hall compiled hcompiled)
  · obtain ⟨schema, hschema, hbuilt⟩ := rel_some' (h.member kv.1) hcompiled
    exact (hparts schema compiled hbuilt kv.2).mpr (hall schema hschema)

/-! ## The compiler -/

variable {room nodes nodes' : Nat} {raw compiled : Json} {location : String} {stack : List String}

/-- What a call that succeeds does: it follows a reference, or writes out a schema that has none. -/
theorem schemaIn_cases (h : c.schemaIn room raw location stack nodes = .ok (compiled, nodes')) :
    ∃ room' fields, room = room' + 1 ∧ raw = .obj fields ∧
      ((∃ ref target, get fields "$ref" = some (.str ref) ∧ fields.length = 1 ∧ c.written ref = some target ∧
          Visited (c.schemaIn room') target compiled) ∨
        get fields "$ref" = none ∧ ∃ out, compiled = .obj out ∧ WrittenOut c (c.schemaIn room') fields out) := by
  cases room with
  | zero => cases h
  | succ room =>
    simp only [SchemaCompiler.schemaIn, bind_eq_ok, require_eq_ok] at h
    obtain ⟨_, -, h⟩ := h
    split at h
    · rename_i fields
      refine ⟨room, fields, rfl, rfl, ?_⟩
      split at h
      · rename_i value hvalue
        left
        simp only [bind_eq_ok, Prod.exists] at h
        obtain ⟨ref, target, htarget, hrest⟩ := h
        unfold SchemaCompiler.target at htarget
        split at htarget
        · rename_i text
          simp only [bind_eq_ok, require_eq_ok, expect_eq_ok, Bool.and_eq_true, decide_eq_true_eq, Except.ok.injEq,
            Prod.mk.injEq] at htarget
          obtain ⟨_, ⟨hlength, -⟩, _, -, _, hwritten, rfl, rfl⟩ := htarget
          exact ⟨text, _, hvalue, hlength, hwritten, _, _, _, _, hrest⟩
        · cases htarget
      · rename_i hnone
        right
        exact ⟨hnone, writtenOut_spec h⟩
    · cases h

/-- **The compiler, with references as it looks them up.** -/
theorem schemaIn_spec (h : Visited (c.schemaIn room) raw compiled) : Unfolds c.legacy c.written raw ∧ RefFree compiled ∧
      ∀ (w : Validation) (x : Json), valid w.toValues compiled x = true ↔ Accepts w c.legacy c.written raw x := by
  induction room generalizing raw compiled with
  | zero =>
    obtain ⟨_, _, _, _, h⟩ := h
    cases h
  | succ room ih =>
    obtain ⟨_, _, _, _, h⟩ := h
    obtain ⟨room', fields, hroom, rfl, hcases⟩ := schemaIn_cases h
    obtain rfl : room = room' := by omega
    rcases hcases with ⟨ref, target, href, hlength, hwritten, hvisited⟩ | ⟨href, out, rfl, hout⟩
    · obtain ⟨hunfolds, hfree, hvalid⟩ := ih hvisited
      refine ⟨.reference href hlength hwritten hunfolds, hfree, fun w x => ?_⟩
      rw [hvalid, accepts_reference href hlength]
      constructor
      · exact fun hx => ⟨target, hwritten, hx⟩
      · rintro ⟨target', hwritten', hx⟩
        obtain rfl := Option.some.inj (hwritten.symm.trans hwritten')
        exact hx
    have hbuilt : ∀ schema compiled, Built (c.schemaIn room) schema compiled → Unfolds c.legacy c.written schema ∧
        RefFree compiled ∧ ∀ (w : Validation) (x : Json), valid w.toValues compiled x = true ↔ Accepts w c.legacy c.written schema x := by
      rintro schema compiled (hvisited | ⟨b, rfl, rfl⟩)
      · exact ih hvisited
      · refine ⟨.bool b, .bool b, fun w x => ?_⟩
        rw [accepts_bool, valid]
    refine ⟨.plain href hout.known fun schema hchild => ?_, .plain hout.ref fun schema hchild => ?_, fun w x => ?_⟩
    · obtain ⟨_, hb⟩ := hout.child hchild
      exact (hbuilt _ _ hb).1
    · obtain ⟨_, hb⟩ := hout.child' hchild
      exact (hbuilt _ _ hb).2.1
    · exact hout.valid href (fun schema compiled hb y => (hbuilt schema compiled hb).2.2 w y) x

/-! ## References as they are meant -/

/-- `version.startswith("3.0.")` -/
def legacyVersion (document : Fields) : Bool :=
  match get document "openapi" with
  | some (.str version) => Py.startsWith version "3.0."
  | _ => false

/-- The schema that a reference designates. -/
def designates (document : Fields) (ref : String) : Option Json := follow (.obj document) (Percent.unquote (ref.toList.drop 2))

/-- What a schema of the document means. -/
abbrev Means (w : Validation) (document : Fields) : Json → Json → Prop := Accepts w (legacyVersion document) (designates document)

/-- A schema that the compiler comes to on its way through another. -/
abbrev Meets (c : SchemaCompiler) : Json → Json → Prop := Relation.ReflTransGen (Leads c.written)

/-- A schema keeps its meaning: whatever is written for it has no reference and accepts what the schema means, and the
references of the schema do not lead in a circle. -/
def Keeps (w : Validation) (document : Fields) (c : SchemaCompiler) (raw : Json) : Prop :=
  ∀ room compiled, Visited (c.schemaIn room) raw compiled →
    RefFree compiled ∧ (∀ x, valid w.toValues compiled x = true ↔ Means w document raw x) ∧ ¬ Cyclic (designates document) raw

def refTo (ref : String) : Json := .obj [("$ref", .str ref)]

/-- A reference means what the schema means that the compiler finds for it, and leads into no circle. -/
def Agrees (w : Validation) (document : Fields) (c : SchemaCompiler) (ref : String) : Prop :=
  ∀ target, c.written ref = some target →
    (∀ x, Means w document (refTo ref) x ↔ Means w document target x) ∧ ¬ Cyclic (designates document) (refTo ref)

variable {document : Fields}

variable {checkSchema : Json → Bool}

theorem new_eq (h : SchemaCompiler.new checkSchema document = .ok c) :
    c = ⟨.obj document, legacyVersion document, checkSchema⟩ := by
  simp only [SchemaCompiler.new, bind_eq_ok, require_eq_ok, Except.ok.injEq] at h
  obtain ⟨_, hversion, _, -, rfl⟩ := h
  unfold legacyVersion
  generalize get document "openapi" = version at hversion ⊢
  rcases version with _ | _ | _ | _ | _ | version
  case some.str => rfl
  all_goals exact absurd hversion Bool.false_ne_true

theorem accepts_refTo :
    Accepts w legacy resolve (refTo ref) x ↔ ∃ target, resolve ref = some target ∧ Accepts w legacy resolve target x :=
  accepts_reference rfl rfl

theorem fields_reference {fields : Fields} (href : get fields "$ref" = some (.str ref)) (hlength : fields.length = 1) :
    .obj fields = refTo ref := by
  obtain ⟨⟨key, value⟩, rfl⟩ := List.length_eq_one_iff.mp hlength
  rw [get_cons] at href
  split at href
  · rename_i hkey
    rw [hkey, Option.some.inj href]
    rfl
  · cases href

/-- A circle that is reached from a schema is reached from a schema in it. -/
theorem cyclic_next {a : Json} (h : Cyclic resolve a) : ∃ b, Leads resolve a b ∧ Cyclic resolve b := by
  obtain ⟨e, hreach, hcircle⟩ := h
  rcases Relation.ReflTransGen.cases_head hreach with rfl | ⟨b, hb, hrest⟩
  · obtain ⟨b, hb, hback⟩ := Relation.TransGen.head'_iff.mp hcircle
    exact ⟨b, hb, a, hback, hcircle⟩
  · exact ⟨b, hb, e, hrest, hcircle⟩

/-- Where every reference on the way agrees, the two readings do. -/
theorem means_written (hlegacy : c.legacy = legacyVersion document) (hraw : Unfolds c.legacy c.written raw)
    (hagrees : ∀ ref, Meets c raw (refTo ref) → Agrees w document c ref) :
    (∀ x, Accepts w c.legacy c.written raw x ↔ Means w document raw x) ∧ ¬ Cyclic (designates document) raw := by
  induction hraw with
  | bool b =>
    refine ⟨fun x => by rw [accepts_bool, Means, accepts_bool], fun hcyclic => ?_⟩
    obtain ⟨_, hleads, -⟩ := cyclic_next hcyclic
    cases hleads
  | @reference fields ref target href hlength hresolve htarget ih =>
    obtain ⟨hsame, -⟩ := ih fun ref' hmeets => hagrees ref' (.head (.reference href hresolve) hmeets)
    rw [fields_reference href hlength] at hagrees ⊢
    obtain ⟨hagree, hacyclic⟩ := hagrees ref .refl target hresolve
    refine ⟨fun x => ?_, hacyclic⟩
    have hstep : Accepts w c.legacy c.written (refTo ref) x ↔ Accepts w c.legacy c.written target x := by
      rw [accepts_refTo, hresolve]
      simp
    rw [hstep, hsame x, hagree x]
  | @plain fields href hknown hchildren ih =>
    have hparts : ∀ schema, Child fields schema → (∀ x, Accepts w c.legacy c.written schema x ↔ Means w document schema x) ∧
        ¬ Cyclic (designates document) schema :=
      fun schema hchild => ih schema hchild fun ref hmeets => hagrees ref (.head (.part href hchild) hmeets)
    constructor
    · intro x
      rw [Means, accepts_plain href hknown, accepts_plain href (hlegacy ▸ hknown), ← hlegacy]
      refine and_congr Iff.rfl (and_congr ?_ ?_)
      · refine forall_congr' fun items => imp_congr_right fun _ => forall_congr' fun schema => forall_congr' fun hschema =>
          forall_congr' fun y => imp_congr_right fun _ => ?_
        rw [(hparts schema (.inl hschema)).1 y, hlegacy]
      · refine forall_congr' fun members => imp_congr_right fun _ => forall_congr' fun kv => imp_congr_right fun _ =>
          forall_congr' fun schema => forall_congr' fun hschema => ?_
        rw [(hparts schema (child_of_member hschema)).1 kv.2, hlegacy]
    · intro hcyclic
      obtain ⟨schema, hleads, hcyclic⟩ := cyclic_next hcyclic
      cases hleads with
      | reference href' => simp [href] at href'
      | part _ hchild => exact (hparts schema hchild).2 hcyclic

/-- A schema that some call accepts. -/
def Compiles (c : SchemaCompiler) (raw : Json) : Prop := ∃ room compiled, Visited (c.schemaIn room) raw compiled

/-- What the compiler comes to is compiled, or is a truth value. -/
theorem meets_compiles {sub : Json} (hraw : Compiles c raw) (h : Meets c raw sub) : Compiles c sub ∨ ∃ b, sub = .bool b := by
  induction h with
  | refl => exact .inl hraw
  | @tail mid sub _ hleads ih =>
    rcases ih with ⟨room, compiled, _, _, _, _, hcall⟩ | ⟨b, rfl⟩
    · obtain ⟨room', fields, rfl, rfl, hcases⟩ := schemaIn_cases hcall
      cases hleads with
      | reference href hresolve =>
        rcases hcases with ⟨ref, target, href', -, hwritten, hvisited⟩ | ⟨hnone, -⟩
        · obtain rfl : _ = ref := by simpa using href.symm.trans href'
          obtain rfl := Option.some.inj (hresolve.symm.trans hwritten)
          exact .inl ⟨room', compiled, hvisited⟩
        · simp [href] at hnone
      | part href hchild =>
        rcases hcases with ⟨ref, target, href', -⟩ | ⟨-, out, -, hout⟩
        · simp [href] at href'
        · obtain ⟨compiled', hvisited | ⟨b, rfl, -⟩⟩ := hout.child hchild
          · exact .inl ⟨room', compiled', hvisited⟩
          · exact .inr ⟨b, rfl⟩
    · cases hleads

theorem keeps_of_agrees (hlegacy : c.legacy = legacyVersion document)
    (hagrees : ∀ ref, Meets c raw (refTo ref) → Agrees w document c ref) : Keeps w document c raw := by
  intro room compiled hvisited
  obtain ⟨hunfolds, hfree, hvalid⟩ := schemaIn_spec hvisited
  obtain ⟨hsame, hacyclic⟩ := means_written hlegacy hunfolds hagrees
  exact ⟨hfree, fun x => (hvalid w x).trans (hsame x), hacyclic⟩

theorem designates_plain (hnew : SchemaCompiler.new checkSchema document = .ok c)
    (h : '%' ∉ ref.toList) : designates document ref = c.written ref := by
  have hrest : '%' ∉ ref.toList.drop 2 := fun hmem => h (List.mem_of_mem_drop hmem)
  rw [new_eq hnew, designates, SchemaCompiler.written, Percent.unquote, if_neg hrest]

/-- References that come to an end, and lead where they are looked up, lead in no circle. -/
theorem acyclic_of_same (hraw : Unfolds c.legacy c.written raw)
    (hsame : ∀ ref, Meets c raw (refTo ref) → designates document ref = c.written ref) : ¬ Cyclic (designates document) raw := by
  induction hraw with
  | bool b =>
    intro hcyclic
    obtain ⟨_, hleads, -⟩ := cyclic_next hcyclic
    cases hleads
  | @reference fields ref target href hlength hresolve htarget ih =>
    have htail := ih fun ref' hmeets => hsame ref' (.head (.reference href hresolve) hmeets)
    have hhere : designates document ref = some target := by
      rw [← hresolve]
      exact hsame ref (by rw [fields_reference href hlength])
    intro hcyclic
    obtain ⟨next, hleads, hcyclic⟩ := cyclic_next hcyclic
    cases hleads with
    | reference href' hresolve' =>
      obtain rfl : ref = _ := by simpa using href.symm.trans href'
      obtain rfl := Option.some.inj (hhere.symm.trans hresolve')
      exact htail hcyclic
    | part hnone => simp [href] at hnone
  | @plain fields href hknown hchildren ih =>
    intro hcyclic
    obtain ⟨schema, hleads, hcyclic⟩ := cyclic_next hcyclic
    cases hleads with
    | reference href' => simp [href] at href'
    | part _ hchild => exact ih schema hchild (fun ref hmeets => hsame ref (.head (.part href hchild) hmeets)) hcyclic

/-- **When compiled schemas keep their meaning.** A schema and all that it is compiled from keep their meaning if and only if
every reference on the way means what the schema means that is found for it. Without a percent sign in the references they do. -/
theorem schema_keeps_iff {document : Fields} {c : SchemaCompiler} (w : Validation) {raw compiled : Json}
    {location : String} {nodes nodes' : Nat} (hnew : SchemaCompiler.new checkSchema document = .ok c)
    (h : c.schema raw location nodes = .ok (compiled, nodes')) :
    ((∀ sub, Meets c raw sub → Keeps w document c sub) ↔ ∀ ref, Meets c raw (refTo ref) → Agrees w document c ref) ∧
      ((∀ ref, Meets c raw (refTo ref) → '%' ∉ ref.toList) → ∀ sub, Meets c raw sub → Keeps w document c sub) := by
  have hc := new_eq hnew
  have hlegacy : c.legacy = legacyVersion document := by rw [hc]
  have hcompiles : Compiles c raw := ⟨33, compiled, location, [], nodes, nodes', h⟩
  have hkeeps : (∀ ref, Meets c raw (refTo ref) → Agrees w document c ref) → ∀ sub, Meets c raw sub → Keeps w document c sub :=
    fun hagrees sub hsub => keeps_of_agrees hlegacy fun ref hmeets => hagrees ref (hsub.trans hmeets)
  refine ⟨⟨fun hall ref hmeets target hwritten => ?_, hkeeps⟩, fun hplain => ?_⟩
  · -- the reference and what it leads to are compiled to the same schema
    rcases meets_compiles hcompiles hmeets with ⟨room, compiled', hvisited⟩ | ⟨b, hb⟩
    · obtain ⟨-, hvalid, hacyclic⟩ := hall _ hmeets room compiled' hvisited
      obtain ⟨_, _, _, _, hcall⟩ := hvisited
      obtain ⟨room', fields, rfl, hfields, hcases⟩ := schemaIn_cases hcall
      obtain rfl : _ = fields := Json.obj.inj hfields
      rcases hcases with ⟨ref', target', href, -, hwritten', hvisited'⟩ | ⟨hnone, -⟩
      · obtain rfl : ref = ref' := by simpa [JsonSchema.get] using href
        obtain rfl := Option.some.inj (hwritten.symm.trans hwritten')
        have hleads : Leads c.written (refTo ref) target := .reference href hwritten
        obtain ⟨-, hvalid', -⟩ := hall target (hmeets.tail hleads) room' compiled' hvisited'
        exact ⟨fun x => (hvalid x).symm.trans (hvalid' x), hacyclic⟩
      · simp [JsonSchema.get] at hnone
    · cases hb
  refine hkeeps fun ref hmeets target hwritten => ?_
  have hsame : ∀ ref, Meets c raw (refTo ref) → designates document ref = c.written ref :=
    fun ref hmeets => designates_plain hnew (hplain ref hmeets)
  constructor
  · intro x
    rw [Means, accepts_refTo, hsame ref hmeets, hwritten]
    simp
  · rcases meets_compiles hcompiles hmeets with ⟨room, compiled', hvisited⟩ | ⟨b, hb⟩
    · exact acyclic_of_same (schemaIn_spec hvisited).1 fun ref' hmeets' => hsame ref' (hmeets.trans hmeets')
    · cases hb

/-- A nullable number of OpenAPI 3.0 with a bound that a flag makes strict. -/
def positiveDocument : Fields :=
  [("openapi", .str "3.0.4"), ("components", .obj [("schemas", .obj [("Positive", .obj [("type", .str "number"),
    ("nullable", .bool true), ("minimum", .int 0), ("exclusiveMinimum", .bool true)])])])]

def positiveCompiler : SchemaCompiler := ⟨.obj positiveDocument, true, fun _ => true⟩

def noLibrary : Validation := ⟨⟨fun _ => 0, fun _ _ => false⟩, fun _ _ => False⟩

theorem schema_keeps_iff_positive : (∀ sub, Meets positiveCompiler (refTo "#/components/schemas/Positive") sub →
        Keeps noLibrary positiveDocument positiveCompiler sub) ↔
      ∀ ref, Meets positiveCompiler (refTo "#/components/schemas/Positive") (refTo ref) →
        Agrees noLibrary positiveDocument positiveCompiler ref := by
  have hnew : SchemaCompiler.new (fun _ => true) positiveDocument = .ok positiveCompiler := rfl
  have hschema : positiveCompiler.schema (refTo "#/components/schemas/Positive") "" 0 =
      .ok (.obj [("type", .arr [.str "number", .str "null"]), ("exclusiveMinimum", .int 0)], 2) := rfl
  exact (schema_keeps_iff noLibrary hnew hschema).1

/-- Two properties of a schema; escaped as in a URI, the first has the name of the second. -/
def escapedDocument : Fields :=
  [("openapi", .str "3.1.0"), ("components", .obj [("schemas", .obj [("Row", .obj [("type", .str "object"),
    ("properties", .obj [("a b", .obj [("type", .str "string")]), ("a%20b", .obj [("type", .str "integer")])])])])])]

def escapedReference : String := "#/components/schemas/Row/properties/a%20b"

/-- The reference designates the property `a b`, a text, and is compiled to the schema of `a%20b`, an integer. -/
theorem escaped_reference_changes_meaning :
    ¬ ∀ (checkSchema : Json → Bool) (document : Fields) (c : SchemaCompiler) (w : Validation) (raw compiled : Json) (location : String)
      (nodes nodes' : Nat), SchemaCompiler.new checkSchema document = .ok c → c.schema raw location nodes = .ok (compiled, nodes') →
        RefFree compiled ∧ (∀ x, valid w.toValues compiled x = true ↔ Means w document raw x) ∧ ¬ Cyclic (designates document) raw := by
  intro hall
  obtain ⟨-, hvalid, -⟩ := hall (fun _ => true) escapedDocument ⟨.obj escapedDocument, false, fun _ => true⟩ noLibrary
    (refTo escapedReference) (.obj [("type", .str "integer")]) "" 0 2 rfl rfl
  have hmeans := (hvalid (.int 1)).mp rfl
  rw [Means, accepts_refTo] at hmeans
  obtain ⟨target, htarget, hmeans⟩ := hmeans
  obtain rfl : Json.obj [("type", .str "string")] = target := Option.some.inj htarget
  rw [accepts_plain rfl (by decide)] at hmeans
  exact absurd hmeans.1 (by decide)

end LingshuGate.OpenApi
