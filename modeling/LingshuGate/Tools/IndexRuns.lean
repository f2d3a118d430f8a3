import LingshuGate.Tools.Index

/-!
# The index follows the registry (`tool_catalog.py:139-191`)

`Tracks`: what is queued of a tool is what the registry has of it now; what a `synchronize` has drained is too, unless something newer
is queued; and where nothing is queued the row is right. Every event keeps it, so that nothing is left to do once the queue is empty.

An id that was told retired is owed a transaction (`Owed`), until one commits that sets its classifications stale.
-/

namespace LingshuGate.Tools

open Lib Groups Classifications

variable {η : Type} {H : Hashes} {str : Json → String} {freeze : Tool → Except Failure Tool}
  {same : Option Json → Option Json → Bool} {w w' : World η}

/-! ## Rows -/

/-- Every row is the row of some definition. -/
def Rowed (H : Hashes) (str : Json → String) (rows : Dict String CatalogRow) : Prop :=
  ∀ k row, rows.get k = some row → ∃ t, row = rowOf H str t

variable {rows : Dict String CatalogRow}

theorem applyChange_get (hdetermines : Determines H str) (hrowed : Rowed H str rows) (key : String)
    (definition : Option Tool) (k : String) :
    (applyChange H str rows key definition).get k = if k = key then definition.map (rowOf H str) else rows.get k := by
  unfold applyChange
  cases definition with
  | none => exact Dict.get_pop rows key k
  | some t =>
    simp only
    split
    · rename_i row hrow
      split
      · rename_i hrevision
        split
        · rename_i hk
          obtain ⟨t', rfl⟩ := hrowed key row hrow
          rw [hk, hrow, hdetermines t' t hrevision]
          rfl
        · rfl
      · exact Dict.get_set rows key _ k
    · exact Dict.get_set rows key _ k

theorem Rowed.applyChange (hdetermines : Determines H str) (hrowed : Rowed H str rows) (key : String)
    (definition : Option Tool) : Rowed H str (applyChange H str rows key definition) := by
  intro k row hrow
  rw [applyChange_get hdetermines hrowed] at hrow
  split at hrow
  · obtain ⟨t, -, rfl⟩ := Option.map_eq_some_iff.mp hrow
    exact ⟨t, rfl⟩
  · exact hrowed k row hrow

theorem foldl_applyChange (hdetermines : Determines H str) {l : List (String × Option Tool)} (hl : (l.map Prod.fst).Nodup)
    (hrowed : Rowed H str rows) : Rowed H str (l.foldl (fun rows kv => applyChange H str rows kv.1 kv.2) rows) ∧
      ∀ k, (l.foldl (fun rows kv => applyChange H str rows kv.1 kv.2) rows).get k = match (l.find? (·.1 = k)).map (·.2) with
        | some definition => definition.map (rowOf H str)
        | none => rows.get k := by
  induction l generalizing rows with
  | nil => exact ⟨hrowed, fun _ => rfl⟩
  | cons kv l ih =>
    rw [List.map_cons, List.nodup_cons] at hl
    obtain ⟨hrowed', hget⟩ := ih hl.2 (hrowed.applyChange hdetermines kv.1 kv.2)
    refine ⟨hrowed', fun k => ?_⟩
    rw [List.foldl_cons, hget, applyChange_get hdetermines hrowed]
    by_cases hk : kv.1 = k
    · have hnone : l.find? (fun kv' => decide (kv'.1 = k)) = none := by
        refine List.find?_eq_none.mpr fun kv' hkv' hsame => hl.1 ?_
        exact List.mem_map.mpr ⟨kv', hkv', (of_decide_eq_true hsame).trans hk.symm⟩
      rw [hnone, if_pos hk.symm, List.find?_cons_of_pos (by simpa using hk)]
      rfl
    · rw [if_neg (Ne.symm hk), List.find?_cons_of_neg (by simpa using hk)]

theorem applyChanges_get (hdetermines : Determines H str) (hrowed : Rowed H str rows)
    (changes : Dict String (Option Tool)) (k : String) :
    (applyChanges H str rows changes).get k = match changes.get k with
      | some definition => definition.map (rowOf H str)
      | none => rows.get k :=
  (foldl_applyChange hdetermines changes.nodup hrowed).2 k

theorem Rowed.applyChanges (hdetermines : Determines H str) (hrowed : Rowed H str rows)
    (changes : Dict String (Option Tool)) : Rowed H str (applyChanges H str rows changes) :=
  (foldl_applyChange hdetermines changes.nodup hrowed).1

/-! ## Reserved names -/

theorem mem_reserve {reserved : List String} {key k : String} {definition : Option Tool} : k ∈ reserve H reserved key definition ↔
      if k = key then (∃ t, definition = some t ∧ reservedTool H t = true) else k ∈ reserved := by
  unfold reserve
  cases definition with
  | none =>
    by_cases hk : k = key
    · simp [hk]
    · simp [hk]
  | some t =>
    simp only
    split
    · rename_i hreserved
      by_cases hk : k = key
      · simp [hk, hreserved]
      · simp [hk]
    · rename_i hreserved
      by_cases hk : k = key
      · simp [hk, hreserved]
      · simp [hk]

variable {k : String}

theorem mem_foldl_reserve {l : List (String × Option Tool)} (hl : (l.map Prod.fst).Nodup) {reserved : List String} :
    k ∈ l.foldl (fun reserved kv => reserve H reserved kv.1 kv.2) reserved ↔ match (l.find? (·.1 = k)).map (·.2) with
      | some definition => ∃ t, definition = some t ∧ reservedTool H t = true
      | none => k ∈ reserved := by
  induction l generalizing reserved with
  | nil => rfl
  | cons kv l ih =>
    rw [List.map_cons, List.nodup_cons] at hl
    rw [List.foldl_cons, ih hl.2]
    by_cases hk : kv.1 = k
    · have hnone : l.find? (fun kv' => decide (kv'.1 = k)) = none := by
        refine List.find?_eq_none.mpr fun kv' hkv' hsame => hl.1 ?_
        exact List.mem_map.mpr ⟨kv', hkv', (of_decide_eq_true hsame).trans hk.symm⟩
      rw [hnone, List.find?_cons_of_pos (by simpa using hk)]
      simp only [Option.map_none, Option.map_some, mem_reserve, if_pos hk.symm]
    · rw [List.find?_cons_of_neg (by simpa using hk)]
      cases (l.find? fun kv' => decide (kv'.1 = k)).map (·.2) with
      | some definition => rfl
      | none => simp only [mem_reserve, if_neg (Ne.symm hk)]

theorem mem_enqueue_reserved {q : Queue} {notice : Notice} : k ∈ (enqueue H q notice).reserved ↔ match notice.changes.get k with
    | some definition => ∃ t, definition = some t ∧ reservedTool H t = true
    | none => k ∈ q.reserved := mem_foldl_reserve notice.changes.nodup

/-! ## The invariant -/

structure Tracks (H : Hashes) (str : Json → String) (w : World η) : Prop where
  registry : w.registry.Inv
  pending : ∀ k v, w.registry.heard.pending.get k = some v → w.registry.definition k = v
  drained : ∀ d, w.draining = some d → ∀ k v, d.changes.get k = some v → w.registry.heard.pending.get k = none →
    w.registry.definition k = v
  rows : ∀ k, w.registry.heard.pending.get k = none → (∀ d, w.draining = some d → d.changes.get k = none) →
    if w.initial then w.registry.definition k = none else w.rows.get k = (w.registry.definition k).map (rowOf H str)
  rowed : w.initial = false → Rowed H str w.rows
  reserved : ∀ k, k ∈ w.registry.heard.reserved ↔ ∃ t, w.registry.definition k = some t ∧ reservedTool H t = true
  retired : ∀ k ∈ w.registry.heard.retired, (w.registry.heard.pending.get k).isSome = true
  drainedRetired : ∀ d, w.draining = some d → ∀ k ∈ d.retired, (d.changes.get k).isSome = true
  generation : ∀ d, w.draining = some d → d.generation ≤ w.registry.heard.generation ∧
    (d.generation = w.registry.heard.generation → w.registry.heard.pending.rows = [])

/-- The registry has told the queue of a change. -/
theorem Tracks.told (h : Tracks H str w) {reg : ToolRegistry η Queue} (hinv : reg.Inv) {notice : Notice}
    (hheard : reg.heard = enqueue H w.registry.heard notice) (htells : ToolRegistry.Tells notice w.registry reg) :
    Tracks H str { w with registry := reg } := by
  have hpending (k : String) : reg.heard.pending.get k = (notice.changes.get k).or (w.registry.heard.pending.get k) := by
    rw [hheard]
    exact Dict.get_update _ _ k
  have hquiet {k : String} (hnone : reg.heard.pending.get k = none) :
      notice.changes.get k = none ∧ w.registry.heard.pending.get k = none := by
    rwa [hpending, Option.or_eq_none_iff] at hnone
  refine ⟨hinv, fun k v hv => ?_, fun d hd k v hv hnone => ?_, fun k hnone hdrained => ?_, h.rowed, fun k => ?_, fun k hk => ?_,
    h.drainedRetired, fun d hd => ?_⟩
  · change reg.definition k = v
    change reg.heard.pending.get k = some v at hv
    rw [hpending] at hv
    cases hchange : notice.changes.get k with
    | some v' =>
      rw [hchange] at hv
      exact (htells.told k v' hchange).trans (Option.some.inj hv)
    | none =>
      rw [hchange, Option.none_or] at hv
      exact (htells.untold k hchange).trans (h.pending k v hv)
  · exact (htells.untold k (hquiet hnone).1).trans (h.drained d hd k v hv (hquiet hnone).2)
  · have hrow := h.rows k (hquiet hnone).2 hdrained
    change if w.initial = true then reg.definition k = none else w.rows.get k = (reg.definition k).map (rowOf H str)
    rwa [htells.untold k (hquiet hnone).1]
  · change k ∈ reg.heard.reserved ↔ ∃ t, reg.definition k = some t ∧ reservedTool H t = true
    rw [hheard, mem_enqueue_reserved]
    cases hchange : notice.changes.get k with
    | some v => simp only [htells.told k v hchange]
    | none => simp only [htells.untold k hchange, h.reserved]
  · change k ∈ reg.heard.retired at hk
    change (reg.heard.pending.get k).isSome = true
    rw [hpending]
    rw [hheard] at hk
    rcases List.mem_union_iff.mp hk with hk | hk
    · obtain ⟨v, hv⟩ := Option.isSome_iff_exists.mp (h.retired k hk)
      rw [hv]
      cases notice.changes.get k <;> rfl
    · rw [htells.retired k hk]
      rfl
  obtain ⟨hle, -⟩ := h.generation d hd
  change d.generation ≤ reg.heard.generation ∧ (d.generation = reg.heard.generation → reg.heard.pending.rows = [])
  rw [hheard]
  refine ⟨Nat.le_succ_of_le hle, fun heq => absurd heq ?_⟩
  simp only [enqueue]
  omega

/-- What a call of the registry does to the world. -/
theorem Tracks.call_cases (h : Tracks H str w) (call : ToolRegistry.Call η) :
    (∃ notice, ToolRegistry.Tells notice w.registry (ToolRegistry.next (enqueue H) freeze same w.registry call) ∧
      (ToolRegistry.next (enqueue H) freeze same w.registry call).heard = enqueue H w.registry.heard notice) ∨
    ((ToolRegistry.next (enqueue H) freeze same w.registry call).heard = w.registry.heard ∧
      ∀ k, (ToolRegistry.next (enqueue H) freeze same w.registry call).definition k = w.registry.definition k) := by
  rcases @ToolRegistry.perform_cases _ _ _ (enqueue H) freeze same h.registry call with
    ⟨-, hdone⟩ | ⟨-, hsame⟩
  · rcases hdone.heard with ⟨hheard, hdefinition⟩ | ⟨notice, hheard, htells⟩
    · exact .inr ⟨hheard, hdefinition⟩
    · exact .inl ⟨notice, htells, hheard⟩
  · rw [hsame]
    exact .inr ⟨rfl, fun _ => rfl⟩

theorem Tracks.call (h : Tracks H str w) (call : ToolRegistry.Call η) :
    Tracks H str { w with registry := ToolRegistry.next (enqueue H) freeze same w.registry call } := by
  have hinv : (ToolRegistry.next (enqueue H) freeze same w.registry call).Inv := h.registry.step rfl
  rcases @Tracks.call_cases _ _ _ freeze same _ h call with ⟨notice, htells, hheard⟩ | ⟨hheard, hdefinition⟩
  · exact h.told hinv hheard htells
  generalize ToolRegistry.next (enqueue H) freeze same w.registry call = reg at hinv hheard hdefinition
  obtain ⟨-, hpending, hdrained, hrows, hrowed, hreserved, hretired, hdrainedRetired, hgeneration⟩ := h
  refine ⟨hinv, ?_, ?_, ?_, hrowed, ?_, ?_, hdrainedRetired, ?_⟩
  · simpa only [hheard, hdefinition] using hpending
  · simpa only [hheard, hdefinition] using hdrained
  · simpa only [hheard, hdefinition] using hrows
  · simpa only [hheard, hdefinition] using hreserved
  · simpa only [hheard] using hretired
  · simpa only [hheard] using hgeneration

/-! ## The sections of a synchronization -/

theorem ToolRegistry.Inv.hear {Λ Λ' : Type} {reg : ToolRegistry η Λ} (h : reg.Inv) (heard : Λ') :
    ToolRegistry.Inv (⟨reg.tools, reg.revision, reg.structures, reg.unavailable, reg.mcpIndex, reg.mcpRevisions, heard⟩ :
      ToolRegistry η Λ') :=
  ⟨h.structures, h.held, h.nonempty, h.keyed, h.bounded, h.disjoint⟩

/-- Nothing is retired where nothing is queued. -/
theorem Tracks.retired_nil (h : Tracks H str w) (hempty : w.registry.heard.pending.rows = []) : w.registry.heard.retired = [] := by
  refine List.eq_nil_iff_forall_not_mem.mpr fun k hk => ?_
  have hsome := h.retired k hk
  rw [Dict.get_eq_none_of_nil hempty] at hsome
  cases hsome

theorem Tracks.skip (h : Tracks H str w) (hdraining : w.draining = none) (hempty : w.registry.heard.pending.rows = []) :
    Tracks H str (withQueue w (taken w.registry.heard)) := by
  have hnone (k : String) : w.registry.heard.pending.get k = none := Dict.get_eq_none_of_nil hempty k
  refine ⟨h.registry.hear _, fun k v hv => ?_, fun d hd => ?_, fun k _ _ => ?_, h.rowed, h.reserved, fun k hk => ?_, h.drainedRetired,
    fun d hd => ?_⟩
  · cases hv
  · rw [show (withQueue w (taken w.registry.heard)).draining = w.draining from rfl, hdraining] at hd
    cases hd
  · refine h.rows k (hnone k) fun d hd => ?_
    rw [hdraining] at hd
    cases hd
  · cases hk
  · rw [show (withQueue w (taken w.registry.heard)).draining = w.draining from rfl, hdraining] at hd
    cases hd

theorem Tracks.drain (h : Tracks H str w) (hdraining : w.draining = none) : Tracks H str { withQueue w (taken w.registry.heard) with
      draining := some ⟨w.registry.heard.pending, w.registry.heard.retired, w.registry.heard.generation⟩ } := by
  refine ⟨h.registry.hear _, fun k v hv => ?_, fun d hd k v hv _ => ?_, fun k _ hdrained => ?_, h.rowed, h.reserved, fun k hk => ?_,
    fun d hd => ?_, fun d hd => ?_⟩
  · cases hv
  · cases hd
    exact h.pending k v hv
  · refine h.rows k (hdrained _ rfl) fun d hd => ?_
    rw [hdraining] at hd
    cases hd
  · cases hk
  · cases hd
    exact h.retired
  · cases hd
    exact ⟨Nat.le_refl _, fun _ => rfl⟩

variable {d : Drained}

theorem session_rows {versionOf : Tool → Version} {written : Dict String CatalogRow × Store}
    (hs : session H str w d versionOf = some written) :
    written.1 = applyChanges H str (if w.initial then ∅ else w.rows) d.changes ∧
      catalogSynchronize w.classifications d.retired (d.definitions.map versionOf) = some written.2 := by
  obtain ⟨store, hstore, rfl⟩ := Option.map_eq_some_iff.mp hs
  exact ⟨rfl, hstore⟩

theorem Tracks.startRowed (h : Tracks H str w) : Rowed H str (if w.initial then ∅ else w.rows) := by
  cases hinitial : w.initial with
  | true => exact fun k row hrow => nomatch hrow
  | false => exact h.rowed hinitial

/-- What the session leaves in the table. -/
theorem Tracks.written (h : Tracks H str w) (hdetermines : Determines H str) (hd : w.draining = some d)
    (hpending : w.registry.heard.pending.get k = none) :
    (applyChanges H str (if w.initial then ∅ else w.rows) d.changes).get k = (w.registry.definition k).map (rowOf H str) := by
  rw [applyChanges_get hdetermines h.startRowed]
  cases hchange : d.changes.get k with
  | some v => rw [h.drained d hd k v hchange hpending]
  | none =>
    have hrow := h.rows k hpending fun d' hd' => by
      rw [hd] at hd'
      cases hd'
      exact hchange
    cases hinitial : w.initial with
    | true =>
      rw [hinitial, if_pos rfl] at hrow
      rw [hrow]
      rfl
    | false =>
      rw [hinitial, if_neg (by simp)] at hrow
      exact hrow

theorem Tracks.commit (h : Tracks H str w) (hdetermines : Determines H str) (hd : w.draining = some d)
    {versionOf : Tool → Version} {written : Dict String CatalogRow × Store} (hs : session H str w d versionOf = some written) :
    Tracks H str { w with rows := written.1, classifications := written.2, initial := false, draining := none } := by
  obtain ⟨hrows, -⟩ := session_rows hs
  refine ⟨h.registry, h.pending, fun _ hd' => (nomatch hd'), fun k hnone _ => ?_, fun _ => ?_, h.reserved, h.retired,
    fun _ hd' => (nomatch hd'), fun _ hd' => nomatch hd'⟩
  · change written.1.get k = (w.registry.definition k).map (rowOf H str)
    rw [hrows, h.written hdetermines hd hnone]
  · change Rowed H str written.1
    rw [hrows]
    exact h.startRowed.applyChanges hdetermines d.changes

theorem requeue_get (q : Queue) (d : Drained) (k : String) :
    (requeue q d).pending.get k = (q.pending.get k).or (d.changes.get k) := Dict.get_update _ _ k

/-- What was drained is queued again; `rows` may be what the session wrote. -/
theorem Tracks.fail (h : Tracks H str w) (hd : w.draining = some d) {store : Store}
    (hrows : ∀ k, d.changes.get k = none → w.registry.heard.pending.get k = none → w.initial = false → rows.get k = w.rows.get k)
    (hrowed : w.initial = false → Rowed H str rows) :
    Tracks H str { withQueue w (requeue w.registry.heard d) with rows := rows, classifications := store, draining := none } := by
  refine ⟨h.registry.hear _, fun k v hv => ?_, fun _ hd' => (nomatch hd'), fun k hnone _ => ?_, hrowed, h.reserved, fun k hk => ?_,
    fun _ hd' => (nomatch hd'), fun _ hd' => nomatch hd'⟩
  · change w.registry.definition k = v
    change (requeue w.registry.heard d).pending.get k = some v at hv
    rw [requeue_get] at hv
    cases hpending : w.registry.heard.pending.get k with
    | some v' =>
      rw [hpending] at hv
      exact (h.pending k v' hpending).trans (Option.some.inj hv)
    | none =>
      rw [hpending, Option.none_or] at hv
      exact h.drained d hd k v hv hpending
  · change (requeue w.registry.heard d).pending.get k = none at hnone
    rw [requeue_get, Option.or_eq_none_iff] at hnone
    have hrow := h.rows k hnone.1 fun d' hd' => by
      rw [hd] at hd'
      cases hd'
      exact hnone.2
    change if w.initial = true then w.registry.definition k = none else rows.get k = (w.registry.definition k).map (rowOf H str)
    cases hinitial : w.initial with
    | true =>
      rw [hinitial] at hrow
      exact hrow
    | false =>
      rw [hinitial, if_neg (by simp)] at hrow
      rw [if_neg (by simp), hrows k hnone.2 hnone.1 hinitial, hrow]
  change k ∈ w.registry.heard.retired ∪ d.retired at hk
  change ((requeue w.registry.heard d).pending.get k).isSome = true
  rw [requeue_get]
  rcases List.mem_union_iff.mp hk with hk | hk
  · obtain ⟨v, hv⟩ := Option.isSome_iff_exists.mp (h.retired k hk)
    rw [hv]
    rfl
  · obtain ⟨v, hv⟩ := Option.isSome_iff_exists.mp (h.drainedRetired d hd k hk)
    rw [hv]
    cases w.registry.heard.pending.get k <;> rfl

variable {e : Event η}

/-- What an event can do. -/
inductive Moves (w : World η) : Event η → World η → Prop
  | call (call : ToolRegistry.Call η) : Moves w (.call call) { w with registry := ToolRegistry.next (enqueue H) freeze same w.registry call }
  | skip : w.draining = none → w.registry.heard.pending.rows = [] → w.initial = false →
    Moves w .skip (withQueue w (taken w.registry.heard))
  | drain : w.draining = none → ¬ (w.registry.heard.pending.rows = [] ∧ w.initial = false) →
    Moves w .drain { withQueue w (taken w.registry.heard) with
      draining := some ⟨w.registry.heard.pending, w.registry.heard.retired, w.registry.heard.generation⟩ }
  | commit {versionOf : Tool → Version} {d : Drained} {written : Dict String CatalogRow × Store} : w.draining = some d →
    session H str w d versionOf = some written → Moves w (.commit versionOf)
      { w with rows := written.1, classifications := written.2, initial := false, draining := none }
  | fail {committed : Option (Tool → Version)} {d : Drained} {written : Dict String CatalogRow × Store} : w.draining = some d →
    committed.elim (written = (w.rows, w.classifications)) (session H str w d · = some written) →
    Moves w (.fail committed)
      { withQueue w (requeue w.registry.heard d) with rows := written.1, classifications := written.2, draining := none }
  | others (classifications : Store) : Moves w (.others classifications) { w with classifications }

theorem CatalogStep.moves (hstep : CatalogStep H str freeze same w e w') : @Moves _ H str freeze same w e w' := by
  unfold CatalogStep at hstep
  cases e with
  | call call =>
    cases hstep
    exact .call call
  | skip =>
    obtain ⟨hguard, hw⟩ := Option.ite_none_right_eq_some.mp hstep
    cases hw
    simp only [Bool.and_eq_true, Option.isNone_iff_eq_none, List.isEmpty_iff, Bool.not_eq_true'] at hguard
    exact .skip hguard.1.1 hguard.1.2 hguard.2
  | drain =>
    obtain ⟨hguard, hw⟩ := Option.ite_none_right_eq_some.mp hstep
    cases hw
    simp only [Bool.and_eq_true, Option.isNone_iff_eq_none, List.isEmpty_iff, Bool.not_eq_true', ← Bool.not_eq_true] at hguard
    exact .drain hguard.1 (by simpa using hguard.2)
  | commit versionOf =>
    obtain ⟨d, hd, hstep⟩ := Option.bind_eq_some_iff.mp hstep
    obtain ⟨written, hwritten, hstep⟩ := Option.bind_eq_some_iff.mp hstep
    cases hstep
    exact .commit hd hwritten
  | fail committed =>
    cases committed with
    | none =>
      obtain ⟨d, hd, hstep⟩ := Option.bind_eq_some_iff.mp hstep
      cases hstep
      exact @Moves.fail _ _ _ _ _ _ none d (w.rows, w.classifications) hd rfl
    | some versionOf =>
      obtain ⟨d, hd, hstep⟩ := Option.bind_eq_some_iff.mp hstep
      obtain ⟨written, hwritten, hstep⟩ := Option.bind_eq_some_iff.mp hstep
      cases hstep
      exact .fail hd hwritten
  | others classifications =>
    cases hstep
    exact .others classifications

theorem Tracks.step (hdetermines : Determines H str) (h : Tracks H str w)
    (hstep : CatalogStep H str freeze same w e w') : Tracks H str w' := by
  cases hstep.moves with
  | call call => exact h.call call
  | skip hdraining hempty => exact h.skip hdraining hempty
  | drain hdraining => exact h.drain hdraining
  | commit hd hwritten => exact h.commit hdetermines hd hwritten
  | @fail committed d _ hd hwritten =>
    cases committed with
    | none =>
      obtain rfl := hwritten
      exact h.fail hd (fun _ _ _ _ => rfl) h.rowed
    | some versionOf =>
      obtain ⟨hrows, -⟩ := session_rows hwritten
      refine h.fail hd (fun k hchange _ hinitial => ?_) fun _ => ?_
      · rw [hrows, applyChanges_get hdetermines h.startRowed, hchange, hinitial]
        rfl
      · rw [hrows]
        exact h.startRowed.applyChanges hdetermines d.changes
  | others classifications =>
    exact ⟨h.registry, h.pending, h.drained, h.rows, h.rowed, h.reserved, h.retired, h.drainedRetired, h.generation⟩

/-! ## The start -/

theorem seedNotice_get {Λ : Type} (reg : ToolRegistry η Λ) (k : String) :
    (seedNotice reg).changes.get k = (reg.definition k).map some := by
  have hmap : (seedNotice reg).changes =
      (reg.tools.rows.map fun kv => (kv.1, some kv.2.definition)).foldl (fun d kv => d.set kv.1 kv.2) ∅ := by
    rw [List.foldl_map]
    rfl
  rw [hmap, Dict.get_foldl_set, Dict.get_empty, Option.or_none, List.find?_map, Option.map_map]
  · simp only [ToolRegistry.definition, Dict.get, Table.find, Option.map_map]
    rfl
  · rw [List.map_map]
    exact reg.tools.nodup

/-- The catalog subscribes to a registry; the tables hold what they held. -/
def start (H : Hashes) (reg : ToolRegistry η Unit) (rows : Dict String CatalogRow) (classifications : Store) : World η where
  registry := subscribe H reg
  rows := rows
  classifications := classifications

theorem Tracks.start {reg : ToolRegistry η Unit} (hreg : reg.Inv) (rows : Dict String CatalogRow) (classifications : Store) :
    Tracks H str (start H reg rows classifications) := by
  have hpending (k : String) : (enqueue H {} (seedNotice reg)).pending.get k = (reg.definition k).map some := by
    rw [show (enqueue H {} (seedNotice reg)).pending.get k = _ from Dict.get_update _ _ k, seedNotice_get]
    simp
  refine ⟨hreg.hear _, fun k v hv => ?_, by rintro _ ⟨⟩, fun k hnone _ => ?_, by rintro ⟨⟩, fun k => ?_, fun k hk => ?_,
    by rintro _ ⟨⟩, by rintro _ ⟨⟩⟩
  · change (enqueue H {} (seedNotice reg)).pending.get k = some v at hv
    rw [hpending] at hv
    obtain ⟨t, ht, rfl⟩ := Option.map_eq_some_iff.mp hv
    exact ht
  · change (enqueue H {} (seedNotice reg)).pending.get k = none at hnone
    rw [hpending, Option.map_eq_none_iff] at hnone
    exact hnone
  · change k ∈ (enqueue H {} (seedNotice reg)).reserved ↔ ∃ t, reg.definition k = some t ∧ reservedTool H t = true
    rw [mem_enqueue_reserved, seedNotice_get]
    cases reg.definition k with
    | some t => rfl
    | none => simp
  · cases hk

/-! ## Once there is nothing left to do -/

structure Settled (w : World η) : Prop where
  draining : w.draining = none
  pending : w.registry.heard.pending.rows = []
  initial : w.initial = false

theorem Tracks.generation_le (h : Tracks H str w) (hstep : CatalogStep H str freeze same w e w') :
    w.registry.heard.generation ≤ w'.registry.heard.generation := by
  cases hstep.moves with
  | call call =>
    rcases @Tracks.call_cases _ _ _ freeze same _ h call with ⟨notice, -, hheard⟩ | ⟨hheard, -⟩
    · simp only [hheard]
      exact Nat.le_succ _
    · simp only [hheard]
      exact Nat.le_refl _
  | _ => exact Nat.le_refl _

/-- A synchronization that returns the generation of the queue leaves nothing to do. -/
theorem Tracks.returned (h : Tracks H str w) (hstep : CatalogStep H str freeze same w e w') {g : Nat}
    (hreturned : returned w e = some g) : g ≤ w'.registry.heard.generation ∧ (w'.registry.heard.generation = g → Settled w') := by
  cases hstep.moves with
  | skip hdraining _ hinitial =>
    cases hreturned
    exact ⟨Nat.le_refl _, fun _ => ⟨hdraining, rfl, hinitial⟩⟩
  | commit hd =>
    simp only [Tools.returned, hd, Option.map_some, Option.some.injEq] at hreturned
    subst hreturned
    obtain ⟨hle, hempty⟩ := h.generation _ hd
    exact ⟨hle, fun heq => ⟨rfl, hempty heq.symm, rfl⟩⟩
  | call | drain | fail | others => cases hreturned

theorem Settled.step (hs : Settled w) (h : Tracks H str w) (hstep : CatalogStep H str freeze same w e w')
    (hgeneration : w'.registry.heard.generation = w.registry.heard.generation) : Settled w' := by
  cases hstep.moves with
  | call call =>
    rcases @Tracks.call_cases _ _ _ freeze same _ h call with ⟨notice, -, hheard⟩ | ⟨hheard, -⟩
    · simp only [hheard, enqueue] at hgeneration
      omega
    · refine ⟨hs.draining, ?_, hs.initial⟩
      simp only [hheard, hs.pending]
  | skip => exact ⟨hs.draining, rfl, hs.initial⟩
  | drain _ hbusy => exact absurd ⟨hs.pending, hs.initial⟩ hbusy
  | commit hd | fail hd => cases hs.draining.symm.trans hd
  | others => exact ⟨hs.draining, hs.pending, hs.initial⟩

variable {tr : List (Event η)}

theorem Tracks.run (hdetermines : Determines H str) (hrun : Run (CatalogStep H str freeze same) w tr w')
    (h : Tracks H str w) : Tracks H str w' := hrun.invariant h fun _ _ _ h hs => h.step hdetermines hs

theorem Tracks.generation_run (hdetermines : Determines H str)
    (hrun : Run (CatalogStep H str freeze same) w tr w') (h : Tracks H str w) :
    w.registry.heard.generation ≤ w'.registry.heard.generation :=
  hrun.rel (R := fun a b => a.registry.heard.generation ≤ b.registry.heard.generation) h (fun _ _ _ h hs => h.step hdetermines hs)
    (fun _ => Nat.le_refl _) (fun _ _ _ => Nat.le_trans) fun _ _ _ h hs => h.generation_le hs

theorem Settled.run (hdetermines : Determines H str) (hrun : Run (CatalogStep H str freeze same) w tr w')
    (h : Tracks H str w) (hs : Settled w) (hgeneration : w'.registry.heard.generation = w.registry.heard.generation) : Settled w' := by
  induction hrun with
  | nil => exact hs
  | @snoc t v tr e hrun hstep ih =>
    have ht := h.run hdetermines hrun
    have hle := ht.generation_le hstep
    have hle' := h.generation_run hdetermines hrun
    exact (ih (by omega)).step ht hstep (by omega)

/-! ## Retirements -/

/-- A transaction is owed to the id. -/
def Owed (w : World η) (id : String) : Prop := id ∈ w.registry.heard.retired ∨ ∃ d, w.draining = some d ∧ id ∈ d.retired

theorem Settled.not_owed (hs : Settled w) (h : Tracks H str w) (id : String) : ¬ Owed w id := by
  rintro (hid | ⟨d, hd, -⟩)
  · rw [h.retired_nil hs.pending] at hid
    cases hid
  · rw [hs.draining] at hd
    cases hd

variable {id : String}

theorem catalogRetire_stale {retired : List String} {s : Store}
    (h : id ∈ retired ∨ ∀ r ∈ s.records, r.toolId = id → r.status = .stale ∧ r.effectiveAccess = .unknown) :
    ∀ r ∈ (retired.foldl catalogRetire s).records, r.toolId = id → r.status = .stale ∧ r.effectiveAccess = .unknown := by
  induction retired generalizing s with
  | nil => exact h.resolve_left List.not_mem_nil
  | cons a retired ih =>
    refine ih ?_
    by_cases hmem : id ∈ retired
    · exact .inl hmem
    refine .inr fun r hr hid => ?_
    obtain ⟨r₀, hr₀, rfl⟩ := List.mem_map.mp hr
    split_ifs at hid ⊢ with hother
    · exact ⟨rfl, rfl⟩
    · refine h.elim (fun hin => ?_) fun hstale => hstale r₀ hr₀ hid
      rcases List.mem_cons.mp hin with rfl | hin
      · exact absurd (by simpa using hid) hother
      · exact absurd hin hmem

/-- Synchronizing gives no access. -/
theorem syncOne_unknown {s s' : Store} {v : Version} (hs : syncOne s v = some s')
    (h : ∀ r ∈ s.records, r.toolId = id → r.effectiveAccess = .unknown) : ∀ r ∈ s'.records, r.toolId = id → r.effectiveAccess = .unknown := by
  have hupdate (cond : Record → Bool) (f : Record → Record)
      (hf : ∀ r, (f r).toolId = r.toolId ∧ ((f r).effectiveAccess = .unknown ∨ (f r).effectiveAccess = r.effectiveAccess)) :
      ∀ r ∈ (s.update cond f).records, r.toolId = id → r.effectiveAccess = .unknown := by
    intro r hr hid
    obtain ⟨r₀, hr₀, rfl⟩ := List.mem_map.mp hr
    split_ifs at hid ⊢
    · rcases (hf r₀).2 with hunknown | hsame
      · exact hunknown
      · exact hsame.trans (h r₀ hr₀ ((hf r₀).1.symm.trans hid))
    · exact h r₀ hr₀ hid
  unfold syncOne at hs
  split at hs
  · split at hs
    · cases hs
    cases hs
    intro r hr hid
    rcases List.mem_append.mp hr with hr | hr
    · exact h r hr hid
    · rw [List.mem_singleton.mp hr]
      rfl
  split at hs
  · cases hs
    exact h
  split at hs
  · cases hs
    exact hupdate _ _ fun r => ⟨rfl, .inl rfl⟩
  · cases hs
    exact hupdate _ _ fun r => ⟨rfl, .inr rfl⟩

theorem syncTools_unknown {s s' : Store} {versions : List Version} (hs : syncTools s versions = some s')
    (h : ∀ r ∈ s.records, r.toolId = id → r.effectiveAccess = .unknown) : ∀ r ∈ s'.records, r.toolId = id → r.effectiveAccess = .unknown := by
  induction versions generalizing s with
  | nil =>
    cases hs
    exact h
  | cons v versions ih =>
    simp only [syncTools, List.foldlM_cons] at hs
    obtain ⟨s₁, hfirst, hs⟩ := Option.bind_eq_some_iff.mp hs
    exact ih hs (syncOne_unknown hfirst h)

/-- The transaction of this step sets the classifications of the id stale, and gives it no access. -/
structure Invalidates (w : World η) (e : Event η) (w' : World η) (id : String) : Prop where
  step : ∃ versionOf d, e = .commit versionOf ∧ w.draining = some d ∧
    (∀ r ∈ (d.retired.foldl catalogRetire w.classifications).records, r.toolId = id → r.status = .stale ∧ r.effectiveAccess = .unknown) ∧
    syncTools (d.retired.foldl catalogRetire w.classifications) (d.definitions.map versionOf) = some w'.classifications
  after : ∀ r ∈ w'.classifications.records, r.toolId = id → r.effectiveAccess = .unknown

theorem Tracks.owed_step (h : Tracks H str w) (hstep : CatalogStep H str freeze same w e w') (howed : Owed w id) :
    Owed w' id ∨ Invalidates w e w' id := by
  cases hstep.moves with
  | call call =>
    refine .inl ?_
    rcases howed with hid | hdrained
    · refine .inl ?_
      rcases @Tracks.call_cases _ _ _ freeze same _ h call with ⟨notice, -, hheard⟩ | ⟨hheard, -⟩
      · simp only [hheard]
        exact List.mem_union_iff.mpr (.inl hid)
      · simp only [hheard]
        exact hid
    · exact .inr hdrained
  | skip hdraining hempty hinitial => exact absurd howed ((Settled.mk hdraining hempty hinitial).not_owed h id)
  | drain hdraining =>
    rcases howed with hid | ⟨d, hd, -⟩
    · exact .inl (.inr ⟨_, rfl, hid⟩)
    · cases hdraining.symm.trans hd
  | @commit versionOf d _ hd hwritten =>
    obtain ⟨-, hstore⟩ := session_rows hwritten
    rcases howed with hid | ⟨d', hd', hid⟩
    · exact .inl (.inl hid)
    · cases hd.symm.trans hd'
      have hstale := catalogRetire_stale (s := w.classifications) (.inl hid)
      exact .inr ⟨⟨versionOf, d, rfl, hd, hstale, hstore⟩, syncTools_unknown hstore fun r hr hrid => (hstale r hr hrid).2⟩
  | fail hd =>
    refine .inl (.inl ?_)
    rcases howed with hid | ⟨d', hd', hid⟩
    · exact List.mem_union_iff.mpr (.inl hid)
    · cases hd.symm.trans hd'
      exact List.mem_union_iff.mpr (.inr hid)
  | others => exact .inl howed

/-- What a step tells retired is owed. -/
theorem Tracks.owed_new (h : Tracks H str w) (hstep : CatalogStep H str freeze same w e w') {l : List String}
    (hl : w'.registry.heard.retirements = w.registry.heard.retirements ++ l) (hid : id ∈ l) : Owed w' id := by
  have hsame (heq : w'.registry.heard.retirements = w.registry.heard.retirements) : False := by
    rw [heq] at hl
    rw [List.self_eq_append_right.mp hl] at hid
    cases hid
  cases hstep.moves with
  | call call =>
    rcases @Tracks.call_cases _ _ _ freeze same _ h call with ⟨notice, -, hheard⟩ | ⟨hheard, -⟩
    · refine .inl ?_
      simp only [hheard] at hl ⊢
      have hretired : notice.retired = l := List.append_cancel_left hl
      exact List.mem_union_iff.mpr (.inr (hretired ▸ hid))
    · exact (hsame (by simp only [hheard])).elim
  | _ => exact (hsame rfl).elim

theorem Tracks.owed_run (hdetermines : Determines H str) (hrun : Run (CatalogStep H str freeze same) w tr w')
    (h : Tracks H str w) (howed : Owed w id) :
    Owed w' id ∨ ∃ mid e rest u u', tr = mid ++ e :: rest ∧ Run (CatalogStep H str freeze same) w mid u ∧
      CatalogStep H str freeze same u e u' ∧ Invalidates u e u' id := by
  induction hrun with
  | nil => exact .inl howed
  | @snoc t v tr e hrun hstep ih =>
    rcases ih with howed' | ⟨mid, e', rest, u, u', rfl, hmid, hstep', hinvalidates⟩
    · rcases (h.run hdetermines hrun).owed_step hstep howed' with howed | hinvalidates
      · exact .inl howed
      · exact .inr ⟨tr, e, [], t, v, rfl, hrun, hstep, hinvalidates⟩
    · exact .inr ⟨mid, e', rest ++ [e], u, u', by simp, hmid, hstep', hinvalidates⟩

/-- **The index follows the registry.** In every run, whichever sessions fail: what is queued of a tool is what the registry has of
it, what is drained is too unless something newer is queued, and elsewhere the row is right; the reserved ids are those of the
tools whose public name is reserved. Once a synchronization has returned the generation that the queue still has, the rows are those
of the registered tools, and every id that was ever told retired had its classifications set stale in a transaction that committed
later. -/
theorem index_tracks (hdetermines : Determines H str) {reg : ToolRegistry η Unit} {calls : List (ToolRegistry.Call η)}
    (hreg : Run (ToolRegistry.Step (fun _ _ => ()) freeze same) { heard := () } calls reg) {rows : Dict String CatalogRow}
    {classifications : Store} {tr : List (Event η)} {w : World η}
    (hrun : Run (CatalogStep H str freeze same) (start H reg rows classifications) tr w) :
    ((∀ k v, w.registry.heard.pending.get k = some v → w.registry.definition k = v) ∧
      (∀ d, w.draining = some d → ∀ k v, d.changes.get k = some v → w.registry.heard.pending.get k = none →
        w.registry.definition k = v) ∧
      ∀ k, w.registry.heard.pending.get k = none → (∀ d, w.draining = some d → d.changes.get k = none) → w.initial = false →
        w.rows.get k = (w.registry.definition k).map (rowOf H str)) ∧
    (∀ k, k ∈ w.registry.heard.reserved ↔ ∃ t, w.registry.definition k = some t ∧ reservedTool H t = true) ∧
    ∀ pre e post t v g, tr = pre ++ e :: post → Run (CatalogStep H str freeze same) (start H reg rows classifications) pre t →
      CatalogStep H str freeze same t e v → Run (CatalogStep H str freeze same) v post w → returned t e = some g →
      w.registry.heard.generation = g →
      (∀ k, w.rows.get k = (w.registry.definition k).map (rowOf H str)) ∧
      ∀ pre e post t v id l, tr = pre ++ e :: post →
        Run (CatalogStep H str freeze same) (start H reg rows classifications) pre t → CatalogStep H str freeze same t e v →
        Run (CatalogStep H str freeze same) v post w → v.registry.heard.retirements = t.registry.heard.retirements ++ l → id ∈ l →
        ∃ mid c rest u u', post = mid ++ c :: rest ∧ Run (CatalogStep H str freeze same) v mid u ∧
          CatalogStep H str freeze same u c u' ∧ Invalidates u c u' id := by
  have hinv : reg.Inv := hreg.invariant (ToolRegistry.Inv.empty ()) fun _ _ _ h hs => h.step hs
  have hstart : Tracks H str (start H reg rows classifications) := .start hinv rows classifications
  have hw := hstart.run hdetermines hrun
  refine ⟨⟨hw.pending, hw.drained, fun k hnone hdrained hinitial => ?_⟩, hw.reserved,
    fun pre e post t v g _ hpre hstep hpost hreturned hgeneration => ?_⟩
  · have hrow := hw.rows k hnone hdrained
    rwa [hinitial, if_neg (by simp)] at hrow
  have ht := hstart.run hdetermines hpre
  have hv := ht.step hdetermines hstep
  obtain ⟨hle, hsettled⟩ := ht.returned hstep hreturned
  have hle' := hv.generation_run hdetermines hpost
  have hfinal : Settled w := (hsettled (by omega)).run hdetermines hpost hv (by omega)
  refine ⟨fun k => ?_, fun pre e post t v id l _ hpre hstep hpost hl hid => ?_⟩
  · have hrow := hw.rows k (Dict.get_eq_none_of_nil hfinal.pending k) fun d hd => by
      rw [hfinal.draining] at hd
      cases hd
    rwa [hfinal.initial, if_neg (by simp)] at hrow
  · have ht := hstart.run hdetermines hpre
    rcases (ht.step hdetermines hstep).owed_run hdetermines hpost (ht.owed_new hstep hl hid) with howed | hinvalidated
    · exact absurd howed (hfinal.not_owed hw id)
    · exact hinvalidated

/-! A tool is registered after the catalog has subscribed; the first session fails, the second commits. -/

section Sample

/-- A text after its length. -/
def counted (s : String) : List Char := List.replicate s.length '1' ++ '0' :: s.toList

theorem replicate_cancel {n m : Nat} {l l' : List Char}
    (h : List.replicate n '1' ++ '0' :: l = List.replicate m '1' ++ '0' :: l') : n = m ∧ l = l' := by
  induction n generalizing m with
  | zero =>
    cases m with
    | zero => exact ⟨rfl, by simpa using h⟩
    | succ m => simp [List.replicate_succ] at h
  | succ n ih =>
    cases m with
    | zero => simp [List.replicate_succ] at h
    | succ m =>
      simp only [List.replicate_succ, List.cons_append, List.cons.injEq, true_and] at h
      obtain ⟨rfl, hl⟩ := ih h
      exact ⟨rfl, hl⟩

theorem counted_cancel {s s' : String} {l l' : List Char} (h : counted s ++ l = counted s' ++ l') : s = s' ∧ l = l' := by
  simp only [counted, List.append_assoc, List.cons_append] at h
  obtain ⟨hlength, hrest⟩ := replicate_cancel h
  obtain ⟨htext, hl⟩ := List.append_inj hrest (by rw [String.length_toList, String.length_toList, hlength])
  exact ⟨String.toList_inj.mp htext, hl⟩

/-- All that a row takes of a definition, one after the other. -/
def sampleDigest (t : Tool) : String :=
  String.ofList (counted (instanceFor Json.dumps t) ++ (counted (String.ofList (t.name.toList.take 128)) ++
    (counted (String.ofList (t.description.toList.take 320)) ++ (counted t.source ++ (counted t.permission ++
      (counted (policyOf t).dumps ++ []))))))

def sampleHashes : Hashes where
  sha256 _ := ""
  toolFingerprint _ := ""
  definitionRevision := sampleDigest
  foldChar c := [c]

theorem sample_determines : Determines sampleHashes Json.dumps := by
  intro t t' h
  have hdigest : sampleDigest t = sampleDigest t' := h
  obtain ⟨hinstance, h⟩ := counted_cancel (String.ofList_injective hdigest)
  obtain ⟨hname, h⟩ := counted_cancel h
  obtain ⟨hdescription, h⟩ := counted_cancel h
  obtain ⟨hsource, h⟩ := counted_cancel h
  obtain ⟨hpermission, h⟩ := counted_cancel h
  obtain ⟨hpolicy, -⟩ := counted_cancel h
  simp only [rowOf, hinstance, hname, hdescription, hsource, hpermission, hpolicy, CatalogRow.mk.injEq, true_and]
  exact hdigest

def sampleAct : World Unit → Event Unit → Option (World Unit) := act sampleHashes Json.dumps .ok fun _ _ => true

def sampleStart : World Unit := start sampleHashes { heard := () } ∅ {}

def sampleVersion (t : Tool) : Version := ⟨"s1", t.id, t.name, "f1", .read, .rule, "c1"⟩

def sampleFailing : List (Event Unit) :=
  [.call (.register ToolRegistry.sampleTool () false), .drain, .fail none, .drain]

def sampleWorld (tr : List (Event Unit)) : World Unit := (tr.foldlM sampleAct sampleStart).getD sampleStart

theorem sample_run {tr : List (Event Unit)} (h : (tr.foldlM sampleAct sampleStart).isSome = true) :
    Run (CatalogStep sampleHashes Json.dumps .ok fun _ _ => true) sampleStart tr (sampleWorld tr) := by
  obtain ⟨w, hw⟩ := Option.isSome_iff_exists.mp h
  rw [sampleWorld, hw, Option.getD_some]
  exact Run.of_foldlM hw

theorem sample_possible : (sampleFailing.foldlM sampleAct sampleStart).isSome = true ∧
    (sampleAct (sampleWorld sampleFailing) (.commit sampleVersion)).isSome = true := by
  decide +kernel

theorem index_tracks_sample : ∃ w, CatalogStep sampleHashes Json.dumps .ok (fun _ _ => true) (sampleWorld sampleFailing)
    (.commit sampleVersion) w ∧ ∀ k, w.rows.get k = (w.registry.definition k).map (rowOf sampleHashes Json.dumps) := by
  obtain ⟨w, hw⟩ := Option.isSome_iff_exists.mp sample_possible.2
  have hfailing := sample_run sample_possible.1
  have hgeneration : w.registry.heard.generation = 2 := by
    have hsame : ((sampleAct (sampleWorld sampleFailing) (.commit sampleVersion)).map (·.registry.heard.generation)) = some 2 := by
      decide +kernel
    rw [hw] at hsame
    exact Option.some.inj hsame
  refine ⟨w, hw, ?_⟩
  exact ((index_tracks sample_determines (.nil _) (hfailing.snoc hw)).2.2 sampleFailing _ [] _ _ 2 rfl hfailing hw (.nil _)
    (by decide +kernel) hgeneration).1

end Sample

end LingshuGate.Tools
