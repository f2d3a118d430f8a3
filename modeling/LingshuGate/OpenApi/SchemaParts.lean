import LingshuGate.OpenApi.Schemas

/-!
# What `schema` writes for a schema that is no reference

`Meant` is what the keywords of a dialect assert of a value: 2020-12 as it is, and OpenAPI 3.0 with `nullable` and with bounds
that a flag makes strict. `WrittenOut` relates a schema to what `SchemaCompiler.writtenOut` makes of it: the same assertions
(`rewritten_meant`), and for each part of the one the part of the other that it was written out to.
-/

namespace LingshuGate.OpenApi

open Lib
open Lib.JsonSchema

variable {v : Values} {x : Json} {fields value out : Fields} {location : String} {stack : List String}

/-! ## The two dialects -/

/-- The keyword is there with the value `true`. -/
def flagged (fields : Fields) (key : String) : Bool :=
  match get fields key with
  | some (.bool flag) => flag
  | _ => false

/-- The assertion that a schema makes with one keyword. -/
def holds (v : Values) (fields : Fields) (x : Json) (key : String) : Bool :=
  (get fields key).all fun value => keyword v key value x

/-- A bound of OpenAPI 3.0, strict where the flag says so. -/
def boundHolds (v : Values) (exclusive bound : String) (fields : Fields) (x : Json) : Bool :=
  (get fields bound).all fun limit => keyword v (if flagged fields exclusive then exclusive else bound) limit x

def isNull : Json → Bool
  | .null => true
  | _ => false

/-- What the type and the bounds assert, in the dialect of the document. -/
def Meant (v : Values) (legacy : Bool) (fields : Fields) (x : Json) : Bool :=
  if legacy then
    (holds v fields x "type" || flagged fields "nullable" && isNull x) &&
      (boundHolds v "exclusiveMinimum" "minimum" fields x && boundHolds v "exclusiveMaximum" "maximum" fields x)
  else
    holds v fields x "type" && ((holds v fields x "minimum" && holds v fields x "exclusiveMinimum") &&
      (holds v fields x "maximum" && holds v fields x "exclusiveMaximum"))

theorem asserts_eq (v : Values) (fields : Fields) (x : Json) :
    asserts v assertionKeys fields x = (asserts v plainKeys fields x && Meant v false fields x) := by
  have hall : ∀ keys, asserts v keys fields x = keys.all (holds v fields x) := fun _ => rfl
  simp only [hall, assertionKeys, List.all_append, Meant, Bool.false_eq_true, if_false, List.all_cons, List.all_nil, Bool.and_true,
    Bool.and_assoc]

theorem typed_null (x : Json) : typed v "null" x = isNull x := by
  cases x with
  | null => rfl
  | float literal => simp [typed, isNull]
  | _ => rfl

/-! ## The keywords of OpenAPI 3.0 -/

theorem nullableRewritten_spec (h : SchemaCompiler.nullableRewritten fields location = .ok value) :
    (∀ key, key ≠ "nullable" → key ≠ "type" → get value key = get fields key) ∧
      ∀ (v : Values) (x : Json), holds v value x "type" = (holds v fields x "type" || flagged fields "nullable" && isNull x) := by
  have hpop : ∀ key, key ≠ "nullable" → get (pop fields "nullable") key = get fields key := fun key hkey => by
    rw [get_pop, if_neg hkey]
  have htype := hpop "type" (by decide)
  have hplain : flagged fields "nullable" = false → .ok (pop fields "nullable") = (.ok value : Checked Fields) →
      (∀ key, key ≠ "nullable" → key ≠ "type" → get value key = get fields key) ∧
        ∀ (v : Values) (x : Json), holds v value x "type" = (holds v fields x "type" || flagged fields "nullable" && isNull x) := by
    intro hflag hvalue
    obtain rfl := Except.ok.inj hvalue
    refine ⟨fun key hkey _ => hpop key hkey, fun v x => ?_⟩
    rw [hflag, Bool.false_and, Bool.or_false, holds, holds, htype]
  unfold SchemaCompiler.nullableRewritten at h
  simp only at h
  split at h
  · rename_i hnone
    exact hplain (by simp [flagged, hnone]) h
  · rename_i hfalse
    exact hplain (by simp [flagged, hfalse]) h
  · rename_i htrue
    split at h
    · rename_i type hget
      simp only [bind_eq_ok, require_eq_ok, Except.ok.injEq] at h
      obtain ⟨_, -, rfl⟩ := h
      have hflag : flagged fields "nullable" = true := by simp [flagged, htrue]
      refine ⟨fun key hkey htype => by rw [get_set, if_neg htype, hpop key hkey], fun v x => ?_⟩
      rw [htype] at hget
      rw [hflag, Bool.true_and, holds, holds, get_set, if_pos rfl, hget, ← typed_null (v := v)]
      simp [keyword, typeHolds]
    · cases h
  · cases h

theorem boundRewritten_spec {exclusive bound : String} (hne : exclusive ≠ bound)
    (h : SchemaCompiler.boundRewritten exclusive bound fields location = .ok value) :
    (∀ key, key ≠ exclusive → key ≠ bound → get value key = get fields key) ∧
      ∀ (v : Values) (x : Json), (holds v value x bound && holds v value x exclusive) = boundHolds v exclusive bound fields x := by
  unfold SchemaCompiler.boundRewritten at h
  split at h
  · rename_i hnone
    obtain rfl := Except.ok.inj h
    refine ⟨fun _ _ _ => rfl, fun v x => ?_⟩
    have hflag : flagged fields exclusive = false := by simp [flagged, hnone]
    simp [holds, boundHolds, hnone, hflag]
  · rename_i flag hflag
    have hbound : get (pop fields exclusive) bound = get fields bound := by rw [get_pop, if_neg (Ne.symm hne)]
    rw [hbound] at h
    split at h
    · rename_i limit hlimit
      simp only [bind_eq_ok, require_eq_ok, Except.ok.injEq] at h
      obtain ⟨_, -, rfl⟩ := h
      have hflagged : flagged fields exclusive = flag := by simp [flagged, hflag]
      cases flag with
      | true =>
        refine ⟨fun key hexclusive hkey => ?_, fun v x => ?_⟩
        · rw [if_pos rfl, get_set, if_neg hexclusive, get_pop, if_neg hkey, get_pop, if_neg hexclusive]
        · have hgone : get (Py.dictSet (pop (pop fields exclusive) bound) exclusive limit) bound = none := by
            rw [get_set, if_neg (Ne.symm hne), get_pop, if_pos rfl]
          rw [if_pos rfl, holds, holds, boundHolds, hgone, get_set, if_pos rfl, hlimit, hflagged]
          simp
      | false =>
        refine ⟨fun key hexclusive _ => ?_, fun v x => ?_⟩
        · rw [if_neg (by decide), get_pop, if_neg hexclusive]
        · have hgone : get (pop fields exclusive) exclusive = none := by rw [get_pop, if_pos rfl]
          rw [if_neg (by decide), holds, holds, boundHolds, hgone, hbound, hlimit, hflagged]
          simp
    · cases h
  · cases h

/-- The keywords that the rewriting is about. -/
def rewrittenKeys : List String := ["nullable", "type", "minimum", "exclusiveMinimum", "maximum", "exclusiveMaximum"]

/-- The rewriting touches no other keyword, and what it writes is read in 2020-12 as the source is read in its own dialect. -/
theorem rewritten_meant {c : SchemaCompiler} (h : c.rewritten fields location = .ok value) :
    (∀ key ∉ rewrittenKeys, get value key = get fields key) ∧ (c.legacy = false → value = fields) ∧
      ∀ (v : Values) (x : Json), Meant v false value x = Meant v c.legacy fields x := by
  unfold SchemaCompiler.rewritten at h
  split at h
  · rename_i hlegacy
    simp only [bind_eq_ok] at h
    obtain ⟨first, hfirst, second, hsecond, hthird⟩ := h
    obtain ⟨hkept₁, htype⟩ := nullableRewritten_spec hfirst
    obtain ⟨hkept₂, hminimum⟩ := boundRewritten_spec (by decide) hsecond
    obtain ⟨hkept₃, hmaximum⟩ := boundRewritten_spec (by decide) hthird
    refine ⟨?_, by simp [hlegacy], ?_⟩
    · intro key hkey
      simp only [rewrittenKeys, List.mem_cons, List.not_mem_nil, or_false, not_or] at hkey
      rw [hkept₃ key hkey.2.2.2.2.2 hkey.2.2.2.2.1, hkept₂ key hkey.2.2.2.1 hkey.2.2.1, hkept₁ key hkey.1 hkey.2.1]
    intro v x
    have htype₃ : holds v value x "type" = holds v first x "type" := by
      rw [holds, holds, hkept₃ _ (by decide) (by decide), hkept₂ _ (by decide) (by decide)]
    have hminimum₃ : (holds v value x "minimum" && holds v value x "exclusiveMinimum") =
        boundHolds v "exclusiveMinimum" "minimum" fields x := by
      have hflag : flagged first "exclusiveMinimum" = flagged fields "exclusiveMinimum" := by
        rw [flagged, flagged, hkept₁ _ (by decide) (by decide)]
      calc (holds v value x "minimum" && holds v value x "exclusiveMinimum")
          = (holds v second x "minimum" && holds v second x "exclusiveMinimum") := by
            rw [holds, holds, hkept₃ _ (by decide) (by decide), hkept₃ _ (by decide) (by decide)]
            rfl
        _ = boundHolds v "exclusiveMinimum" "minimum" first x := hminimum v x
        _ = boundHolds v "exclusiveMinimum" "minimum" fields x := by
            rw [boundHolds, boundHolds, hflag, hkept₁ _ (by decide) (by decide)]
    have hmaximum₃ : (holds v value x "maximum" && holds v value x "exclusiveMaximum") =
        boundHolds v "exclusiveMaximum" "maximum" fields x := by
      have hflag : flagged second "exclusiveMaximum" = flagged fields "exclusiveMaximum" := by
        rw [flagged, flagged, hkept₂ _ (by decide) (by decide), hkept₁ _ (by decide) (by decide)]
      rw [hmaximum v x, boundHolds, boundHolds, hflag, hkept₂ _ (by decide) (by decide), hkept₁ _ (by decide) (by decide)]
    rw [Meant, Meant, hlegacy, if_neg (by decide), if_pos rfl, htype₃, htype, hminimum₃, hmaximum₃]
  · rename_i hmodern
    obtain rfl := Except.ok.inj h
    rw [Bool.not_eq_true] at hmodern
    refine ⟨fun _ _ => rfl, fun _ => rfl, fun v x => ?_⟩
    rw [hmodern]

/-! ## The parts -/

/-- A call of `visit` gives `compiled` for `raw`. -/
def Visited (visit : Visit) (raw compiled : Json) : Prop :=
  ∃ location stack nodes nodes', visit raw location stack nodes = .ok (compiled, nodes')

/-- A part is written out by a call, or it is a truth value and stays. -/
def Built (visit : Visit) (raw compiled : Json) : Prop := Visited visit raw compiled ∨ ∃ b, raw = .bool b ∧ compiled = .bool b

variable {visit : Visit} {nodes nodes' : Nat}

theorem eachProperty_spec {items schemas : Fields}
    (h : SchemaCompiler.eachProperty visit location stack items nodes = .ok (schemas, nodes')) (name : String) :
    Option.Rel (Built visit) (get items name) (get schemas name) := by
  induction items generalizing nodes nodes' schemas with
  | nil =>
    obtain ⟨rfl, -⟩ := Prod.mk.inj (Except.ok.inj h)
    exact .none
  | cons kv items ih =>
    obtain ⟨key, item⟩ := kv
    simp only [SchemaCompiler.eachProperty, bind_eq_ok, Except.ok.injEq, Prod.exists, Prod.mk.injEq] at h
    obtain ⟨schema, _, hvisit, rest, _, hrest, rfl, -⟩ := h
    rw [get_cons, get_cons]
    by_cases hkey : key = name
    · rw [if_pos hkey, if_pos hkey]
      exact .some (.inl ⟨_, _, _, _, hvisit⟩)
    · rw [if_neg hkey, if_neg hkey]
      exact ih hrest

theorem properties_spec (h : SchemaCompiler.properties visit value location stack nodes = .ok (out, nodes')) :
    (∀ key, key ≠ "properties" → get out key = get value key) ∧
      ∀ name, Option.Rel (Built visit) (property value name) (property out name) := by
  unfold SchemaCompiler.properties at h
  split at h
  · rename_i hnone
    obtain ⟨rfl, -⟩ := Prod.mk.inj (Except.ok.inj h)
    refine ⟨fun _ _ => rfl, fun name => ?_⟩
    rw [property, hnone]
    exact .none
  · rename_i items hitems
    simp only [bind_eq_ok, require_eq_ok, Except.ok.injEq, Prod.exists, Prod.mk.injEq] at h
    obtain ⟨_, -, schemas, _, hschemas, rfl, -⟩ := h
    refine ⟨fun key hkey => by rw [get_set, if_neg hkey], fun name => ?_⟩
    rw [property, property, hitems, get_set, if_pos rfl]
    exact eachProperty_spec hschemas name
  · cases h

theorem items_spec (h : SchemaCompiler.items visit value location stack nodes = .ok (out, nodes')) :
    (∀ key, key ≠ "items" → get out key = get value key) ∧ Option.Rel (Built visit) (get value "items") (get out "items") := by
  unfold SchemaCompiler.items at h
  split at h
  · rename_i hnone
    obtain ⟨rfl, -⟩ := Prod.mk.inj (Except.ok.inj h)
    refine ⟨fun _ _ => rfl, ?_⟩
    rw [hnone]
    exact .none
  rename_i item hitem
  simp only [bind_eq_ok, Except.ok.injEq, Prod.exists, Prod.mk.injEq] at h
  obtain ⟨schema, _, hvisit, rfl, -⟩ := h
  refine ⟨fun key hkey => by rw [get_set, if_neg hkey], ?_⟩
  rw [hitem, get_set, if_pos rfl]
  exact .some (.inl ⟨_, _, _, _, hvisit⟩)

theorem additional_spec (h : SchemaCompiler.additional visit value location stack nodes = .ok (out, nodes')) :
    (∀ key, key ≠ "additionalProperties" → get out key = get value key) ∧
      Option.Rel (Built visit) (get value "additionalProperties") (get out "additionalProperties") := by
  unfold SchemaCompiler.additional at h
  split at h
  · rename_i hnone
    obtain ⟨rfl, -⟩ := Prod.mk.inj (Except.ok.inj h)
    refine ⟨fun _ _ => rfl, ?_⟩
    rw [hnone]
    exact .none
  · rename_i b hbool
    obtain ⟨rfl, -⟩ := Prod.mk.inj (Except.ok.inj h)
    refine ⟨fun _ _ => rfl, ?_⟩
    rw [hbool]
    exact .some (.inr ⟨b, rfl, rfl⟩)
  rename_i item _ hitem
  simp only [bind_eq_ok, Except.ok.injEq, Prod.exists, Prod.mk.injEq] at h
  obtain ⟨schema, _, hvisit, rfl, -⟩ := h
  refine ⟨fun key hkey => by rw [get_set, if_neg hkey], ?_⟩
  rw [hitem, get_set, if_pos rfl]
  exact .some (.inl ⟨_, _, _, _, hvisit⟩)

/-- The keywords that a schema of the dialect may have. -/
def known (legacy : Bool) (key : String) : Bool := SCHEMA_KEYS.contains key || legacy && key = "nullable"

/-- A schema without a reference, and what was written for it. -/
structure WrittenOut (c : SchemaCompiler) (visit : Visit) (fields out : Fields) : Prop where
  known : ∀ kv ∈ fields, known c.legacy kv.1 = true
  ref : get out "$ref" = none
  meant : ∀ (v : Values) (x : Json), asserts v assertionKeys out x = (asserts v plainKeys fields x && Meant v c.legacy fields x)
  items : Option.Rel (Built visit) (get fields "items") (get out "items")
  properties : ∀ name, Option.Rel (Built visit) (property fields name) (property out name)
  additional : Option.Rel (Built visit) (get fields "additionalProperties") (get out "additionalProperties")

theorem mem_keys {key : String} : (∃ kv ∈ fields, kv.1 = key) ↔ get fields key ≠ none := by
  rw [Ne, get_eq_none]
  simp

theorem writtenOut_spec {c : SchemaCompiler} {compiled : Json}
    (h : c.writtenOut visit fields location stack nodes = .ok (compiled, nodes')) :
    ∃ out, compiled = .obj out ∧ WrittenOut c visit fields out := by
  simp only [SchemaCompiler.writtenOut, SchemaCompiler.examined, bind_eq_ok, require_eq_ok, Except.ok.injEq, Prod.exists,
    Prod.mk.injEq] at h
  obtain ⟨value, hrewritten, _, ⟨_, hknown, -⟩, first, _, hproperties, second, _, hitems, third, _, hadditional, _, -, _, -, rfl, -⟩ := h
  obtain ⟨hkept, hmodern, hmeant⟩ := rewritten_meant hrewritten
  obtain ⟨hkept₁, hproperty⟩ := properties_spec hproperties
  obtain ⟨hkept₂, hitem⟩ := items_spec hitems
  obtain ⟨hkept₃, hother⟩ := additional_spec hadditional
  have hout : ∀ key, key ≠ "properties" → key ≠ "items" → key ≠ "additionalProperties" → get third key = get value key := by
    intro key h₁ h₂ h₃
    rw [hkept₃ key h₃, hkept₂ key h₂, hkept₁ key h₁]
  have hallowed : ∀ key, get value key ≠ none → SCHEMA_KEYS.contains key = true := by
    intro key hkey
    obtain ⟨kv, hkv, rfl⟩ := mem_keys.mpr hkey
    exact List.all_eq_true.mp hknown kv hkv
  refine ⟨third, rfl, ?_, ?_, ?_, ?_, ?_, ?_⟩
  · intro kv hkv
    have hsource : get fields kv.1 ≠ none := mem_keys.mp ⟨kv, hkv, rfl⟩
    rw [OpenApi.known]
    by_cases hkey : kv.1 ∈ rewrittenKeys
    · cases hlegacy : c.legacy with
      | false =>
        rw [← hmodern hlegacy] at hsource
        rw [hallowed kv.1 hsource, Bool.true_or]
      | true => exact (by decide : ∀ key ∈ rewrittenKeys, (SCHEMA_KEYS.contains key || true && key = "nullable") = true) kv.1 hkey
    · rw [← hkept kv.1 hkey] at hsource
      rw [hallowed kv.1 hsource, Bool.true_or]
  · rw [hout _ (by decide) (by decide) (by decide)]
    by_contra hsome
    exact absurd (hallowed "$ref" hsome) (by decide)
  · intro v x
    have hthird : ∀ key ∈ assertionKeys, get third key = get value key := by
      intro key hkey
      obtain ⟨h₁, h₂, h₃⟩ :=
        (by decide : ∀ key ∈ assertionKeys, key ≠ "properties" ∧ key ≠ "items" ∧ key ≠ "additionalProperties") key hkey
      exact hout key h₁ h₂ h₃
    have hplain : ∀ key ∈ plainKeys, get value key = get fields key :=
      fun key hkey => hkept key ((by decide : ∀ key ∈ plainKeys, key ∉ rewrittenKeys) key hkey)
    rw [asserts_congr v hthird, asserts_eq, hmeant, asserts_congr v hplain]
  · have hfirst : get first "items" = get fields "items" := by rw [hkept₁ _ (by decide), hkept _ (by decide)]
    rw [hkept₃ _ (by decide), ← hfirst]
    exact hitem
  · intro name
    have hsource : property fields name = property value name := by rw [property, property, hkept _ (by decide)]
    have hcompiled : property third name = property first name := by
      rw [property, property, hkept₃ _ (by decide), hkept₂ _ (by decide)]
    rw [hsource, hcompiled]
    exact hproperty name
  · have hsecond : get second "additionalProperties" = get fields "additionalProperties" := by
      rw [hkept₂ _ (by decide), hkept₁ _ (by decide), hkept _ (by decide)]
    rw [← hsecond]
    exact hother

end LingshuGate.OpenApi
