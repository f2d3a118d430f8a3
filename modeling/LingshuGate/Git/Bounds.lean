import LingshuGate.Git.Reading

/-!
# How far a reader can lead the export

Whatever the reader serves, an export opens at most one object more than its limit, and goes at most 129 calls deep: a path of
more than 128 parts is rejected before its tree is opened. No loop runs out of its fuel, so that the fuel is no bound.
-/

namespace LingshuGate.Git

open Lib Lib.GitObjects
open Lib.Act (Leads)

/-- Between two objects. -/
structure Bounded {σ : Type} (limits : Limits) (w : Work σ) : Prop where
  opens : w.opens = w.budget.objects
  objects : w.budget.objects ≤ limits.objects
  deepest : w.deepest ≤ 129

/-- At a failure. -/
structure Stopped {σ : Type} (limits : Limits) (failure : Failure) (w : Work σ) : Prop where
  failure : failure ≠ .exhausted
  opens : w.opens ≤ limits.objects + 1
  deepest : w.deepest ≤ 129

variable {σ α : Type} {c : Codec} {t : Text} {sha1 : Bytes → String} {r : Reader σ} {limits : Limits} {forbidden : List Bytes}

variable {failure : Failure}

theorem Bounded.stopped {w : Work σ} (hfailure : failure ≠ .exhausted) (h : Bounded limits w) : Stopped limits failure w :=
  ⟨hfailure, by rw [h.opens]; exact Nat.le_succ_of_le h.objects, h.deepest⟩

/-- The action keeps to the bounds. -/
abbrev Steady (limits : Limits) (x : M σ α) : Prop := Leads (Bounded limits) (Bounded limits) (Stopped limits) x

theorem steady_ask (question : σ → α × σ) : Steady limits (ask question) := fun _ h => ⟨h.opens, h.objects, h.deepest⟩

theorem steady_expect {answer : Option α} (hfailure : failure ≠ .exhausted) : Steady limits (expect answer failure : M σ α) := by
  refine Leads.ofExcept fun e w herror h => h.stopped ?_
  cases answer with
  | none =>
    cases herror
    exact hfailure
  | some a => cases herror

theorem steady_reject {condition : Bool} {code message : String} : Steady limits (reject condition code message : M σ Unit) :=
  Leads.require fun _ h => h.stopped (by nofun)

theorem steady_modify {f : Work σ → Work σ} (h : ∀ w, (f w).opens = w.opens ∧ (f w).budget.objects = w.budget.objects ∧
    (f w).deepest = w.deepest) : Steady limits (modify f : M σ Unit) :=
  Leads.modify fun w hw => ⟨by rw [(h w).1, (h w).2.1, hw.opens], (h w).2.1 ▸ hw.objects, (h w).2.2 ▸ hw.deepest⟩

theorem steady_checkpoint : Steady limits (checkpoint r) :=
  Leads.seq (steady_ask _) fun _ => Leads.require fun _ h => h.stopped (by nofun)

variable {s : Stream}

theorem steady_read {size : Nat} : Steady limits (s.read r size) := by
  unfold Stream.read
  refine Leads.seq steady_checkpoint fun _ => Leads.seq (steady_ask _) fun _ => Leads.seq steady_checkpoint fun _ => ?_
  refine Leads.seq (steady_expect (by nofun)) fun _ => Leads.seq steady_reject fun _ => ?_
  exact Leads.seq (steady_modify fun _ => ⟨rfl, rfl, rfl⟩) fun _ => Leads.pure _

/-- What was returned may be used, and the state that it came with forgotten. -/
theorem Steady.bind {β : Type} {x : M σ β} {f : β → M σ α} (hx : Steady limits x)
    (hf : ∀ b u v, x u = .ok b v → Steady limits (f b)) : Steady limits (x >>= f) :=
  Leads.bind hx fun b u v _ h w hw => hf b u v h w hw.2

theorem steady_exactFrom {size fuel : Nat} {data : Bytes} (hfuel : size ≤ data.length + fuel) :
    Steady limits (Stream.exactFrom r size fuel s data) := by
  induction fuel generalizing s data with
  | zero =>
    rw [Stream.exactFrom, if_neg (by omega)]
    exact Leads.pure _
  | succ fuel ih =>
    rw [Stream.exactFrom]
    split
    · rename_i hmore
      refine Steady.bind steady_reject fun _ _ _ hremaining => Steady.bind steady_read fun b u v hread => ih ?_
      have hne := (@read_ok _ _ _ _ _ b.2 _ b.1 hread).2.2.2 (by omega)
        (Nat.pos_of_ne_zero (by simpa [reject] using (Act.require_ok.mp hremaining).1))
      have := List.length_pos_iff.mpr hne
      rw [List.length_append]
      omega
    · exact Leads.pure _

theorem steady_exact {size : Nat} : Steady limits (s.exact r size) := steady_exactFrom (by simp)

theorem steady_fieldFrom {delimiter : UInt8} {left : Nat} {data : Bytes} :
    Steady limits (Stream.fieldFrom r delimiter left s data) := by
  induction left generalizing s data with
  | zero =>
    rw [Stream.fieldFrom]
    refine Leads.seq steady_exact fun p => ?_
    dsimp only
    split
    · exact Leads.pure _
    · exact Leads.throw fun _ h => h.stopped (by rintro ⟨⟩)
  | succ left ih =>
    rw [Stream.fieldFrom]
    refine Leads.seq steady_exact fun p => ?_
    dsimp only
    split
    · exact Leads.pure _
    · exact ih

variable {fuel : Nat}

theorem steady_drain {β : Type} {next : β → Bytes → Except Failure β} (hnext : ∀ b chunk, next b chunk ≠ .error .exhausted)
    {b : β} (hfuel : s.remaining ≤ fuel) : Steady limits (Stream.drain r next fuel s b) := by
  induction fuel generalizing s b with
  | zero =>
    rw [Stream.drain, if_pos (by omega)]
    exact Leads.pure _
  | succ fuel ih =>
    rw [Stream.drain]
    split
    · exact Leads.pure _
    rename_i hmore
    refine Steady.bind steady_read fun p u v hread => Leads.seq ?_ fun _ => ih ?_
    · exact Leads.ofExcept fun e w herror h => h.stopped fun hexhausted => hnext b p.1 (hexhausted ▸ herror)
    · obtain ⟨htook, -, -, hne⟩ := @read_ok _ _ _ _ _ p.2 _ p.1 hread
      have := List.length_pos_iff.mpr (hne (by decide) (Nat.pos_of_ne_zero hmore))
      have := htook.consumed.remaining
      omega

theorem steady_finish : Steady limits (s.finish sha1 r) := by
  unfold Stream.finish Stream.extra
  refine Leads.seq steady_checkpoint fun _ => Leads.seq ?_ fun _ => Leads.seq steady_checkpoint fun _ => ?_
  · split
    · exact steady_ask _
    · exact Leads.pure _
  · refine Leads.seq (steady_expect (by nofun)) fun _ => Leads.seq steady_reject fun _ => ?_
    exact Leads.seq (steady_modify fun _ => ⟨rfl, rfl, rfl⟩) fun _ => steady_reject

/-- Between the call of `open_object` and its being counted. -/
structure Opening (limits : Limits) (w : Work σ) : Prop where
  opens : w.opens = w.budget.objects + 1
  objects : w.budget.objects ≤ limits.objects
  deepest : w.deepest ≤ 129

theorem Opening.stopped {w : Work σ} (hfailure : failure ≠ .exhausted) (h : Opening limits w) : Stopped limits failure w :=
  ⟨hfailure, by rw [h.opens]; exact Nat.succ_le_succ h.objects, h.deepest⟩

variable {oid : String}

/-- One call more than what is counted, and only here. -/
theorem steady_openStream {kind : Kind} : Steady limits (openStream r limits oid kind) := by
  unfold openStream openItem
  have hask {β : Type} (question : σ → β × σ) : Leads (Opening limits) (Opening limits) (Stopped limits) (ask question) :=
    fun _ h => ⟨h.opens, h.objects, h.deepest⟩
  have hexpect {β : Type} {answer : Option β} {failure : Failure} (hfailure : failure ≠ .exhausted) :
      Leads (Opening limits) (Opening limits) (Stopped limits) (expect answer failure : M σ β) := by
    refine Leads.ofExcept fun e w herror h => h.stopped ?_
    cases answer with
    | none =>
      cases herror
      exact hfailure
    | some a => cases herror
  refine Leads.seq (J := Opening limits) (Leads.seq (Leads.modify fun w h => ⟨congrArg (· + 1) h.opens, h.objects, h.deepest⟩)
    fun _ => Leads.seq (hask _) fun _ => hexpect (by rintro ⟨⟩)) fun item => ?_
  refine Leads.seq (J := Opening limits) (Leads.seq (hask _) fun _ => Leads.require fun _ h => h.stopped (by rintro ⟨⟩)) fun _ => ?_
  refine Leads.seq (Leads.require fun _ h => h.stopped (by rintro ⟨⟩)) fun _ => Leads.seq (hexpect (by rintro ⟨⟩)) fun size => ?_
  -- counted, and held against the limit
  intro w h
  simp only [modify, modifyGet, MonadStateOf.modifyGet, get, getThe, MonadStateOf.get, reject, Act.require, bind, EStateM.bind]
  delta EStateM.modifyGet EStateM.get
  dsimp only
  split
  · rename_i hok
    split at hok
    · rename_i hlimit
      obtain ⟨-, rfl⟩ := Act.pure_ok.mp hok
      simp only [Bool.and_eq_true, decide_eq_true_eq] at hlimit
      exact ⟨h.opens, hlimit.1, h.deepest⟩
    · simp at hok
  · rename_i herror
    split at herror
    · cases herror
    · cases herror
      exact ⟨by rintro ⟨⟩, by rw [h.opens]; exact Nat.succ_le_succ h.objects, h.deepest⟩

theorem steady_readRaw : Steady limits (readRaw r s) :=
  Leads.seq steady_fieldFrom fun _ => Leads.seq steady_fieldFrom fun _ => Leads.seq steady_exact fun _ => Leads.pure _

variable {start : Path}

theorem readEntry_ne_exhausted {raw : RawEntry} : readEntry t forbidden start raw ≠ .error .exhausted := by
  have hbind {α β : Type} {x : Except Failure α} {f : α → Except Failure β} (hx : x ≠ .error .exhausted)
      (hf : ∀ a, f a ≠ .error .exhausted) : (x >>= f) ≠ .error .exhausted := by
    cases x with
    | ok a => exact hf a
    | error e => exact fun h => hx (by cases h; rfl)
  have hrequire {condition : Bool} {e : Failure} (he : e ≠ .exhausted) : Lib.require condition e ≠ .error .exhausted := by
    unfold Lib.require
    split
    · nofun
    · exact fun h => he (by cases h; rfl)
  have hexpect {α : Type} {value : Option α} {e : Failure} (he : e ≠ .exhausted) : Lib.expect value e ≠ .error .exhausted := by
    cases value with
    | none => exact fun h => he (by cases h; rfl)
    | some a => nofun
  unfold readEntry readMode
  refine hbind (hbind (hrequire (by nofun)) fun _ => hbind (hrequire (by nofun)) fun _ => hexpect (by nofun)) fun mode => ?_
  refine hbind (hexpect (by nofun)) fun name => hbind (hrequire (by nofun)) fun _ => hbind (hrequire (by nofun)) fun _ => ?_
  refine hbind ?_ fun _ => by nofun
  cases validateSnapshotPath t forbidden (entryOf (start ++ [name]) mode) <;> nofun

theorem steady_entriesFrom {entries : List TreeEntry} (hfuel : s.remaining ≤ fuel) :
    Steady limits (entriesFrom t r limits forbidden start fuel s entries) := by
  induction fuel generalizing s entries with
  | zero =>
    rw [entriesFrom, if_pos (by omega)]
    exact Leads.pure _
  | succ fuel ih =>
    rw [entriesFrom]
    split
    · exact Leads.pure _
    refine Leads.seq (steady_modify fun _ => ⟨rfl, rfl, rfl⟩) fun _ => Leads.seq Leads.get fun _ => Leads.seq steady_reject fun _ => ?_
    refine Steady.bind steady_readRaw fun p u v hraw => Leads.seq (J := Bounded limits) ?_ fun q =>
      Leads.seq Leads.get fun _ => ?_
    · exact Leads.ofExcept fun e w herror h => h.stopped fun hexhausted => readEntry_ne_exhausted (hexhausted ▸ herror)
    refine Leads.seq steady_reject fun _ => Leads.seq (steady_modify fun _ => ⟨rfl, rfl, rfl⟩) fun _ => ih ?_
    obtain ⟨htook, -⟩ := @readRaw_ok _ _ _ _ _ p.2 p.1 hraw
    have := htook.consumed.remaining
    have : 0 < p.1.bytes.length := by
      unfold RawEntry.bytes
      rw [List.length_append, List.length_cons]
      omega
    omega

theorem steady_treeEntries : Steady limits (treeEntries t sha1 r limits forbidden oid start) := by
  unfold treeEntries
  refine Steady.bind steady_openStream fun s u v hopen => ?_
  exact Leads.seq (steady_entriesFrom (Nat.le_refl _)) fun _ => Leads.seq steady_finish fun _ => Leads.pure _

theorem steady_exportBlob {e : TreeEntry} : Steady limits (exportBlob c sha1 r limits forbidden e) := by
  unfold exportBlob
  refine Leads.seq (steady_modify fun _ => ⟨rfl, rfl, rfl⟩) fun _ => Leads.seq Leads.get fun _ => Leads.seq steady_reject fun _ => ?_
  refine Leads.seq steady_openStream fun s => Leads.seq Leads.get fun _ => Leads.seq steady_reject fun _ => ?_
  refine Leads.seq (steady_modify fun _ => ⟨rfl, rfl, rfl⟩) fun _ => Leads.seq (steady_drain ?_ (Nat.le_refl _)) fun _ => ?_
  · intro scanner chunk
    unfold scanChunk
    cases scanner.update chunk <;> nofun
  · exact Leads.seq steady_finish fun _ => steady_modify fun _ => ⟨rfl, rfl, rfl⟩

/-- A path that was let through has at most 128 parts, so that the fuel is left for its tree. -/
theorem steady_exportTree (hstart : ∀ part ∈ start, isPart part = true) (hfuel : start.length + fuel = 129) (hpositive : 0 < fuel) :
    Steady limits (exportTree c t sha1 r limits forbidden fuel oid start) := by
  induction fuel generalizing oid start with
  | zero => exact absurd hpositive (Nat.lt_irrefl 0)
  | succ fuel ih =>
    rw [exportTree]
    refine Leads.seq (J := Bounded limits)
      (Leads.modify fun w h => ⟨h.opens, h.objects, Nat.max_le.mpr ⟨h.deepest, by omega⟩⟩) fun _ => ?_
    refine Steady.bind steady_treeEntries fun entries u v hentries => Leads.forM fun e he => ?_
    obtain ⟨raws, data, -, hraws, -⟩ := (treeEntries_ok hstart hentries).raws
    obtain ⟨raw, -, hread⟩ := forall₂_mem_right hraws he
    split
    · obtain ⟨-, -, -, hlength⟩ := validateSnapshotPath_ok t hread.valid
      obtain ⟨name, -, hpath⟩ := hread.name
      have : e.path.length = start.length + 1 := by rw [hpath, List.length_append, List.length_singleton]
      exact ih hread.parts (by omega) (by omega)
    · exact steady_exportBlob

theorem steady_commitTree {commit : String} : Steady limits (commitTree sha1 r limits commit) := by
  unfold commitTree
  refine Leads.seq steady_openStream fun s => Leads.seq (steady_drain (by nofun) (Nat.le_refl _)) fun _ => ?_
  exact Leads.seq steady_finish fun _ => steady_expect (by nofun)

/-- **Any reader: the openings and the depth.** -/
theorem steady_acquireSnapshot {compressed : List ZipEntry → Nat} {request : Request} {values : List String} :
    Steady request.limits (acquireSnapshot c t sha1 r compressed request values) := by
  unfold acquireSnapshot
  refine Leads.seq steady_reject fun _ => Leads.seq ?_ fun _ => Leads.seq steady_checkpoint fun _ => ?_
  · refine Leads.ofExcept fun e w herror h => h.stopped ?_
    cases hvalues : snapshotForbiddenValues c values with
    | ok forbidden => rw [hvalues] at herror; cases herror
    | error message => rw [hvalues] at herror; cases herror; nofun
  · refine Leads.seq steady_reject fun _ => Leads.seq steady_reject fun _ => Leads.seq steady_commitTree fun _ => ?_
    refine Leads.seq (steady_exportTree (by simp) rfl (by decide)) fun _ => Leads.seq Leads.get fun _ => ?_
    refine Leads.seq steady_reject fun _ => Leads.seq steady_checkpoint fun _ => Leads.seq steady_reject fun _ => ?_
    exact Leads.seq steady_checkpoint fun _ => Leads.pure _

end LingshuGate.Git
