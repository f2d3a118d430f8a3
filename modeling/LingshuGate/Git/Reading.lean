import LingshuGate.Git.Objects

/-!
# What the object parsers have read

One lemma for each parser, of its successful runs: the bytes it has taken are those of the plain grammar. `Took` is what any
number of reads does to the run and to the stream; the lemmas compose by `Took.trans`.
-/

namespace LingshuGate.Git

open Lib Lib.GitObjects
open Lib.Act (bind_ok)

variable {σ α : Type} {t : Text} {sha1 : Bytes → String} {r : Reader σ} {limits : Limits} {forbidden : List Bytes}
  {w w' w'' : Work σ} {s s' s'' : Stream} {data data' : Bytes}

theorem ask_ok {question : σ → α × σ} {a : α} :
    ask question w = .ok a w' ↔ (question w.reader).1 = a ∧ w' = { w with reader := (question w.reader).2 } := by
  simp only [ask, bind_ok, Act.get_ok, Act.modify_ok, Act.pure_ok]
  constructor
  · rintro ⟨_, _, ⟨rfl, rfl⟩, _, _, rfl, rfl, rfl⟩
    exact ⟨rfl, rfl⟩
  · rintro ⟨rfl, rfl⟩
    exact ⟨w, w, ⟨rfl, rfl⟩, (), _, rfl, rfl, rfl⟩

theorem checkpoint_ok {u : Unit} (h : checkpoint r w = .ok u w') : ∃ reader, w' = { w with reader } := by
  simp only [checkpoint, bind_ok, ask_ok, Act.require_ok] at h
  obtain ⟨_, _, ⟨-, rfl⟩, -, rfl⟩ := h
  exact ⟨_, rfl⟩

/-! ## Streams -/

/-- These bytes were taken from the stream. -/
structure Consumed (s : Stream) (data : Bytes) (s' : Stream) : Prop where
  stream : s' = { s with remaining := s.remaining - data.length, digest := s.digest ++ data }
  length : data.length ≤ s.remaining

theorem Consumed.refl (s : Stream) : Consumed s [] s := ⟨by simp, Nat.zero_le _⟩

theorem Consumed.trans (h : Consumed s data s') (h' : Consumed s' data' s'') : Consumed s (data ++ data') s'' := by
  obtain ⟨rfl, hlength⟩ := h
  obtain ⟨rfl, hlength'⟩ := h'
  simp only at hlength'
  refine ⟨?_, ?_⟩
  · simp [Nat.sub_sub]
  · rw [List.length_append]
    omega

theorem Consumed.remaining (h : Consumed s data s') : s.remaining = data.length + s'.remaining := by
  obtain ⟨rfl, hlength⟩ := h
  simp only
  omega

/-- They were read, and nothing else was done. -/
structure Took (w : Work σ) (s : Stream) (data : Bytes) (w' : Work σ) (s' : Stream) : Prop where
  work : ∃ reader, w' = { w with reader, budget := { w.budget with objectBytes := w.budget.objectBytes + data.length } }
  consumed : Consumed s data s'

theorem Took.refl (w : Work σ) (s : Stream) : Took w s [] w s := ⟨⟨w.reader, rfl⟩, Consumed.refl s⟩

theorem Took.trans (h : Took w s data w' s') (h' : Took w' s' data' w'' s'') : Took w s (data ++ data') w'' s'' := by
  obtain ⟨⟨reader, rfl⟩, hconsumed⟩ := h
  obtain ⟨⟨reader', rfl⟩, hconsumed'⟩ := h'
  refine ⟨⟨reader', ?_⟩, hconsumed.trans hconsumed'⟩
  simp [Nat.add_assoc]

/-- `_ObjectStream.__init__` -/
structure Opened (limits : Limits) (oid : String) (kind : Kind) (w : Work σ) (s : Stream) (w' : Work σ) : Prop where
  work : ∃ reader, w' = { w with reader, opens := w.opens + 1, budget := { w.budget with objects := w.budget.objects + 1 } }
  stream : s = { oid, size := s.size, remaining := s.size, digest := header kind s.size }
  objects : w'.budget.objects ≤ limits.objects
  objectBytes : w'.budget.objectBytes + s.size ≤ limits.objectBytes

variable {oid : String} {kind : Kind}

theorem openStream_ok (h : openStream r limits oid kind w = .ok s w') : Opened limits oid kind w s w' := by
  simp only [openStream, openItem, reject, expect, bind_ok, Act.modify_ok, ask_ok, Act.ofExcept_ok, Act.require_ok, Act.get_ok,
    Act.pure_ok, Bool.and_eq_true, decide_eq_true_eq] at h
  obtain ⟨item, _, ⟨_, _, rfl, answer, _, ⟨-, rfl⟩, -, rfl⟩, _, _, hcheck, _, _, ⟨-, rfl⟩, size, _, ⟨-, rfl⟩, _, _, rfl, _, _,
    ⟨rfl, rfl⟩, _, _, ⟨⟨hobjects, hbytes⟩, rfl⟩, rfl, rfl⟩ := h
  obtain ⟨reader, rfl⟩ := checkpoint_ok hcheck
  exact ⟨⟨reader, rfl⟩, rfl, hobjects, hbytes⟩

theorem read_ok {size : Nat} {chunk : Bytes} (h : s.read r size w = .ok (chunk, s') w') :
    Took w s chunk w' s' ∧ chunk.length ≤ size ∧ chunk.length ≤ snapshotChunkBytes ∧ (0 < size → 0 < s.remaining → chunk ≠ []) := by
  simp only [Stream.read, reject, expect, bind_ok, ask_ok, Act.ofExcept_ok, Act.require_ok, Act.modify_ok, Act.pure_ok,
    Bool.and_eq_true, Bool.or_eq_true, decide_eq_true_eq, Prod.mk.injEq] at h
  obtain ⟨_, _, hbefore, answer, _, ⟨-, rfl⟩, _, _, hafter, chunk', _, ⟨-, rfl⟩, _, _, ⟨⟨hlength, hne⟩, rfl⟩, _, _, rfl,
    ⟨rfl, rfl⟩, rfl⟩ := h
  obtain ⟨reader, rfl⟩ := checkpoint_ok hbefore
  obtain ⟨reader', rfl⟩ := checkpoint_ok hafter
  refine ⟨⟨⟨reader', rfl⟩, rfl, by omega⟩, by omega, by omega, fun hsize hremaining => ?_⟩
  rcases hne with hzero | hne
  · have : 0 < snapshotChunkBytes := by decide
    omega
  · exact hne

theorem exactFrom_ok {size fuel : Nat} {seen : Bytes} (hseen : seen.length ≤ size)
    (h : Stream.exactFrom r size fuel s seen w = .ok (data, s') w') :
    ∃ more, data = seen ++ more ∧ Took w s more w' s' ∧ data.length = size := by
  induction fuel generalizing w s seen with
  | zero =>
    simp only [Stream.exactFrom] at h
    split at h
    · simp at h
    · simp only [Act.pure_ok, Prod.mk.injEq] at h
      obtain ⟨⟨rfl, rfl⟩, rfl⟩ := h
      exact ⟨[], by simp, Took.refl _ _, by omega⟩
  | succ fuel ih =>
    simp only [Stream.exactFrom] at h
    split at h
    · simp only [reject, bind_ok, Act.require_ok, Prod.exists] at h
      obtain ⟨_, _, ⟨-, rfl⟩, chunk, s₁, w₁, hread, hrest⟩ := h
      obtain ⟨htook, hlength, -, -⟩ := read_ok hread
      obtain ⟨more, rfl, hmore, hsize⟩ := ih (by rw [List.length_append]; omega) hrest
      exact ⟨chunk ++ more, by simp, htook.trans hmore, hsize⟩
    · simp only [Act.pure_ok, Prod.mk.injEq] at h
      obtain ⟨⟨rfl, rfl⟩, rfl⟩ := h
      exact ⟨[], by simp, Took.refl _ _, by omega⟩

theorem exact_ok {size : Nat} (h : s.exact r size w = .ok (data, s') w') : Took w s data w' s' ∧ data.length = size := by
  obtain ⟨more, rfl, htook, hsize⟩ := exactFrom_ok (Nat.zero_le _) h
  exact ⟨htook, hsize⟩

theorem fieldFrom_ok {delimiter : UInt8} {left : Nat} {seen : Bytes} (hseen : delimiter ∉ seen)
    (h : Stream.fieldFrom r delimiter left s seen w = .ok (data, s') w') :
    ∃ more, data = seen ++ more ∧ Took w s (more ++ [delimiter]) w' s' ∧ delimiter ∉ data := by
  induction left generalizing w s seen with
  | zero =>
    rw [Stream.fieldFrom] at h
    simp only [bind_ok, Prod.exists] at h
    obtain ⟨value, s₁, w₁, hexact, hrest⟩ := h
    split at hrest
    · rename_i hvalue
      simp only [Act.pure_ok, Prod.mk.injEq] at hrest
      obtain ⟨⟨rfl, rfl⟩, rfl⟩ := hrest
      exact ⟨[], by simp, hvalue ▸ (exact_ok hexact).1, hseen⟩
    · simp at hrest
  | succ left ih =>
    rw [Stream.fieldFrom] at h
    simp only [bind_ok, Prod.exists] at h
    obtain ⟨value, s₁, w₁, hexact, hrest⟩ := h
    obtain ⟨htook, hone⟩ := exact_ok hexact
    split at hrest
    · rename_i hvalue
      simp only [Act.pure_ok, Prod.mk.injEq] at hrest
      obtain ⟨⟨rfl, rfl⟩, rfl⟩ := hrest
      exact ⟨[], by simp, hvalue ▸ htook, hseen⟩
    rename_i hvalue
    obtain ⟨b, rfl⟩ := List.length_eq_one_iff.mp hone
    have hb : delimiter ≠ b := fun h => hvalue (by rw [h])
    obtain ⟨more, rfl, hmore, hnot⟩ := ih (by simp [hseen, hb]) hrest
    exact ⟨b :: more, by simp, htook.trans hmore, hnot⟩

theorem field_ok {delimiter : UInt8} {maximum : Nat} (h : s.field r delimiter maximum w = .ok (data, s') w') :
    Took w s (data ++ [delimiter]) w' s' ∧ delimiter ∉ data := by
  obtain ⟨more, rfl, htook, hnot⟩ := fieldFrom_ok (List.not_mem_nil) h
  exact ⟨htook, hnot⟩

theorem drain_ok {next : α → Bytes → Except Failure α} {fuel : Nat} {a a' : α}
    (h : Stream.drain r next fuel s a w = .ok (a', s') w') :
    ∃ chunks : List Bytes, Took w s chunks.flatten w' s' ∧ s'.remaining = 0 ∧
      (∀ chunk ∈ chunks, chunk ≠ [] ∧ chunk.length ≤ snapshotChunkBytes) ∧ chunks.foldlM next a = .ok a' := by
  induction fuel generalizing w s a with
  | zero =>
    simp only [Stream.drain] at h
    split at h
    · rename_i hzero
      simp only [Act.pure_ok, Prod.mk.injEq] at h
      obtain ⟨⟨rfl, rfl⟩, rfl⟩ := h
      exact ⟨[], Took.refl _ _, hzero, by simp, rfl⟩
    · simp at h
  | succ fuel ih =>
    simp only [Stream.drain] at h
    split at h
    · rename_i hzero
      simp only [Act.pure_ok, Prod.mk.injEq] at h
      obtain ⟨⟨rfl, rfl⟩, rfl⟩ := h
      exact ⟨[], Took.refl _ _, hzero, by simp, rfl⟩
    rename_i hzero
    simp only [bind_ok, Act.ofExcept_ok, Prod.exists] at h
    obtain ⟨chunk, s₁, w₁, hread, a₁, _, ⟨hnext, rfl⟩, hrest⟩ := h
    obtain ⟨htook, -, hlength, hne⟩ := read_ok hread
    obtain ⟨chunks, hchunks, hend, hall, hfold⟩ := ih hrest
    refine ⟨chunk :: chunks, htook.trans hchunks, hend, ?_, ?_⟩
    · exact List.forall_mem_cons.mpr ⟨⟨hne (by decide) (Nat.pos_of_ne_zero hzero), hlength⟩, hall⟩
    · rw [List.foldlM_cons, bind_eq_ok]
      exact ⟨a₁, hnext, hfold⟩

theorem finish_ok {u : Unit} (h : s.finish sha1 r w = .ok u w') :
    s.remaining = 0 ∧ sha1 s.digest = s.oid ∧ ∃ reader, w' = { w with reader, digested := s.digest :: w.digested } := by
  simp only [Stream.finish, reject, expect, bind_ok, Act.ofExcept_ok, Act.require_ok, Act.modify_ok, Bool.and_eq_true,
    decide_eq_true_eq] at h
  obtain ⟨_, _, hbefore, answer, _, hanswer, _, _, hafter, extra, _, ⟨-, rfl⟩, _, _, ⟨⟨hzero, -⟩, rfl⟩, _, _, rfl, hsha, rfl⟩ := h
  obtain ⟨reader, rfl⟩ := checkpoint_ok hbefore
  rw [Stream.extra, if_pos hzero, ask_ok] at hanswer
  obtain ⟨-, rfl⟩ := hanswer
  obtain ⟨reader', rfl⟩ := checkpoint_ok hafter
  exact ⟨hzero, hsha, reader', rfl⟩

/-- A stream that was opened, read to its end and finished is an object. -/
theorem Opened.object {S : Set Bytes} (hopened : Opened limits oid kind w s w')
    (hconsumed : Consumed s data s') (hend : s'.remaining = 0) (hsha : sha1 s'.digest = s'.oid) (hS : s'.digest ∈ S) :
    Object sha1 S oid kind data ∧ data.length = s.size := by
  obtain ⟨-, hstream, -, -⟩ := hopened
  have hlength : data.length = s.size := by
    have := hconsumed.remaining
    rw [hend, hstream] at this
    exact this.symm
  obtain ⟨rfl, -⟩ := hconsumed
  have hframe : s.digest ++ data = frame kind data := by rw [hstream, frame, hlength]
  have hoid : s.oid = oid := by rw [hstream]
  simp only [hframe, hoid] at hsha hS
  exact ⟨⟨hS, hsha⟩, hlength⟩

/-! ## What was read -/

/-- The objects that a part of a run has read, the latest first. What it has counted is their number, their bytes and the entries
of the trees among them. -/
structure HasRead (w : Work σ) (objects : List (Kind × Bytes)) (w' : Work σ) : Prop where
  digested : w'.digested = objects.map (fun object => frame object.1 object.2) ++ w.digested
  number : w'.budget.objects = w.budget.objects + objects.length
  bytes : w'.budget.objectBytes = w.budget.objectBytes + (objects.map (·.2.length)).sum
  entries : ∃ raws, List.Forall₂ IsTree ((objects.filter (·.1 = .tree)).map (·.2)) raws ∧
    w'.budget.entries = w.budget.entries + raws.flatten.length

theorem HasRead.refl (w : Work σ) : HasRead w [] w := ⟨rfl, rfl, rfl, [], .nil, rfl⟩

theorem HasRead.trans {objects objects' : List (Kind × Bytes)} (h : HasRead w objects w') (h' : HasRead w' objects' w'') :
    HasRead w (objects' ++ objects) w'' where
  digested := by rw [h'.digested, h.digested, List.map_append, List.append_assoc]
  number := by rw [h'.number, h.number, List.length_append, Nat.add_comm objects'.length, Nat.add_assoc]
  bytes := by
    rw [h'.bytes, h.bytes, List.map_append, List.sum_append, Nat.add_comm (objects'.map _).sum, Nat.add_assoc]
  entries := by
    obtain ⟨raws, hraws, hcount⟩ := h.entries
    obtain ⟨raws', hraws', hcount'⟩ := h'.entries
    refine ⟨raws' ++ raws, ?_, ?_⟩
    · rw [List.filter_append, List.map_append]
      exact List.rel_append hraws' hraws
    · rw [hcount', hcount, List.flatten_append, List.length_append, Nat.add_comm raws'.flatten.length, Nat.add_assoc]

theorem HasRead.subset {objects : List (Kind × Bytes)} (h : HasRead w objects w') : w.digested ⊆ w'.digested := by
  rw [h.digested]
  exact List.subset_append_right _ _

theorem HasRead.mem {objects : List (Kind × Bytes)} (h : HasRead w objects w') (hmem : (kind, data) ∈ objects) :
    frame kind data ∈ w'.digested := by
  rw [h.digested]
  exact List.mem_append_left _ (List.mem_map.mpr ⟨_, hmem, rfl⟩)

/-! ## Entries -/

theorem decode_eq_some {raw : Bytes} {name : String} : decode raw = some name ↔ Framing.utf8 name = raw := by
  unfold decode String.fromUTF8? Framing.utf8
  split
  · constructor
    · intro h
      cases h
      simp [String.fromUTF8]
    · rintro rfl
      simp [String.fromUTF8]
  rename_i hinvalid
  constructor
  · nofun
  · rintro rfl
    exact absurd (by simpa using name.isValidUTF8) hinvalid

theorem readMode_ok {raw : Bytes} {mode : Mode} (h : readMode raw = .ok mode) : mode.text = raw := by
  simp only [readMode, bind_eq_ok, require_eq_ok, expect_eq_ok, exists_const] at h
  obtain ⟨-, -, hfind⟩ := h
  simpa using List.find?_some hfind

/-- An entry of a tree, as it is taken over. -/
structure EntryRead (t : Text) (forbidden : List Bytes) (start : Path) (raw : RawEntry) (e : TreeEntry) : Prop where
  name : ∃ name, Framing.utf8 name = raw.name ∧ e.path = start ++ [name]
  parts : ∀ part ∈ e.path, isPart part = true
  mode : e.mode.text = raw.mode
  child : e.child = hex raw.child
  valid : validateSnapshotPath t forbidden (entryOf e.path e.mode) = .ok (e.path, e.path.map t.casefold)

variable {start : Path}

theorem readEntry_ok (hstart : ∀ part ∈ start, isPart part = true) {raw : RawEntry} {e : TreeEntry} {key : Path}
    (h : readEntry t forbidden start raw = .ok (e, key)) : EntryRead t forbidden start raw e ∧ key = e.path.map t.casefold := by
  simp only [readEntry, bind_eq_ok, require_eq_ok, expect_eq_ok, exists_const, pure_eq_ok, Prod.exists, Prod.mk.injEq] at h
  obtain ⟨mode, hmode, name, hname, hsafe, -, path, key', hvalid, rfl, rfl⟩ := h
  have hpart : isPart name = true := by
    simp only [Bool.and_eq_true, decide_eq_true_eq] at hsafe
    simp only [isPart, Bool.and_eq_true, decide_eq_true_eq]
    exact ⟨⟨hsafe.1.1.1, hsafe.1.2⟩, hsafe.1.1.2⟩
  have hparts : ∀ part ∈ start ++ [name], isPart part = true := by
    simpa [or_imp, forall_and] using ⟨hstart, hpart⟩
  replace hvalid : validateSnapshotPath t forbidden (entryOf (start ++ [name]) mode) = .ok (path, key') := by
    cases hresult : validateSnapshotPath t forbidden (entryOf (start ++ [name]) mode) with
    | error message => rw [hresult] at hvalid; cases hvalid
    | ok pair => rw [hresult] at hvalid; cases hvalid; rfl
  obtain ⟨hpath, rfl, -, -⟩ := validateSnapshotPath_ok t hvalid
  obtain rfl : path = start ++ [name] := hpath.trans (parts_join hparts)
  exact ⟨⟨⟨name, decode_eq_some.mp hname, rfl⟩, hparts, readMode_ok hmode, rfl, hvalid⟩, rfl⟩

theorem readRaw_ok {raw : RawEntry} (h : readRaw r s w = .ok (raw, s') w') : Took w s raw.bytes w' s' ∧ raw.WellFormed := by
  simp only [readRaw, bind_ok, Act.pure_ok, Prod.exists, Prod.mk.injEq] at h
  obtain ⟨mode, s₁, w₁, hmode, name, s₂, w₂, hname, child, s₃, w₃, hchild, ⟨rfl, rfl⟩, rfl⟩ := h
  obtain ⟨hmode, hspace⟩ := field_ok hmode
  obtain ⟨hname, hnul⟩ := field_ok hname
  obtain ⟨hchild, hlength⟩ := exact_ok hchild
  refine ⟨?_, hspace, hnul, hlength⟩
  have := (hmode.trans hname).trans hchild
  simpa [RawEntry.bytes] using this

theorem forall₂_mem_left {α β : Type} {R : α → β → Prop} {as : List α} {bs : List β} (h : List.Forall₂ R as bs) {a : α}
    (ha : a ∈ as) : ∃ b ∈ bs, R a b := by
  induction h with
  | nil => cases ha
  | cons hr hrest ih =>
    rcases List.mem_cons.mp ha with rfl | ha
    · exact ⟨_, List.mem_cons_self, hr⟩
    · obtain ⟨b, hb, hab⟩ := ih ha
      exact ⟨b, List.mem_cons_of_mem _ hb, hab⟩

theorem forall₂_mem_right {α β : Type} {R : α → β → Prop} {as : List α} {bs : List β} (h : List.Forall₂ R as bs) {b : β}
    (hb : b ∈ bs) : ∃ a ∈ as, R a b := by
  obtain ⟨a, ha, hab⟩ := forall₂_mem_left h.flip hb
  exact ⟨a, ha, hab⟩

/-- The loop over the entries of a tree. -/
structure Entered (t : Text) (limits : Limits) (forbidden : List Bytes) (start : Path) (w : Work σ) (s : Stream)
    (raws : List RawEntry) (new : List TreeEntry) (w' : Work σ) (s' : Stream) : Prop where
  work : ∃ reader, w' = { w with
    reader
    budget := { w.budget with
      objectBytes := w.budget.objectBytes + (raws.flatMap RawEntry.bytes).length
      entries := w.budget.entries + raws.length }
    seen := (new.map fun e => e.path.map t.casefold).reverse ++ w.seen }
  consumed : Consumed s (raws.flatMap RawEntry.bytes) s'
  read : List.Forall₂ (EntryRead t forbidden start) raws new
  wellFormed : ∀ raw ∈ raws, raw.WellFormed
  nodup : w.seen.Nodup → w'.seen.Nodup
  entries : w.budget.entries ≤ limits.treeEntries → w'.budget.entries ≤ limits.treeEntries

theorem entriesFrom_ok (hstart : ∀ part ∈ start, isPart part = true) {fuel : Nat} {before after : List TreeEntry}
    (h : entriesFrom t r limits forbidden start fuel s before w = .ok (after, s') w') :
    ∃ raws new, after = before ++ new ∧ s'.remaining = 0 ∧ Entered t limits forbidden start w s raws new w' s' := by
  induction fuel generalizing w s before with
  | zero =>
    rw [entriesFrom] at h
    split at h
    · rename_i hzero
      simp only [Act.pure_ok, Prod.mk.injEq] at h
      obtain ⟨⟨rfl, rfl⟩, rfl⟩ := h
      exact ⟨[], [], by simp, hzero, ⟨w.reader, rfl⟩, Consumed.refl s, .nil, by simp, id, id⟩
    · simp at h
  | succ fuel ih =>
    rw [entriesFrom] at h
    split at h
    · rename_i hzero
      simp only [Act.pure_ok, Prod.mk.injEq] at h
      obtain ⟨⟨rfl, rfl⟩, rfl⟩ := h
      exact ⟨[], [], by simp, hzero, ⟨w.reader, rfl⟩, Consumed.refl s, .nil, by simp, id, id⟩
    simp only [bind_ok, Act.modify_ok, Act.get_ok, reject, Act.require_ok, Act.ofExcept_ok, Prod.exists, Bool.not_eq_true',
      decide_eq_true_eq, List.contains_eq_mem, decide_eq_false_iff_not] at h
    obtain ⟨_, _, rfl, _, _, ⟨rfl, rfl⟩, _, _, ⟨hlimit, rfl⟩, raw, s₁, w₁, hraw, e, key, _, ⟨hentry, rfl⟩, _, _, ⟨rfl, rfl⟩,
      _, _, ⟨hnew, rfl⟩, _, _, rfl, hrest⟩ := h
    obtain ⟨htook, hwellFormed⟩ := readRaw_ok hraw
    obtain ⟨hread, rfl⟩ := readEntry_ok hstart hentry
    obtain ⟨raws, new, rfl, hend, hentered⟩ := ih hrest
    obtain ⟨⟨reader, rfl⟩, hconsumed⟩ := htook
    obtain ⟨reader', hwork⟩ := hentered.work
    refine ⟨raw :: raws, e :: new, by simp, hend, ⟨reader', ?_⟩, hconsumed.trans hentered.consumed, .cons hread hentered.read,
      List.forall_mem_cons.mpr ⟨hwellFormed, hentered.wellFormed⟩, fun hnodup => ?_, fun _ => ?_⟩
    · rw [hwork]
      simp [Nat.add_assoc, Nat.add_comm, Nat.add_left_comm]
    · exact hentered.nodup (List.nodup_cons.mpr ⟨hnew, hnodup⟩)
    · exact hentered.entries hlimit

/-- The object of a tree was read. -/
structure TreeRead (t : Text) (sha1 : Bytes → String) (limits : Limits) (forbidden : List Bytes) (oid : String) (start : Path)
    (w : Work σ) (entries : List TreeEntry) (w' : Work σ) : Prop where
  raws : ∃ raws data, IsTree data raws ∧ List.Forall₂ (EntryRead t forbidden start) raws entries ∧
    HasRead w [(.tree, data)] w' ∧ sha1 (frame .tree data) = oid
  seen : w'.seen = (entries.map fun e => e.path.map t.casefold).reverse ++ w.seen
  nodup : w.seen.Nodup → w'.seen.Nodup
  objects : w'.budget.objects ≤ limits.objects
  objectBytes : w'.budget.objectBytes ≤ limits.objectBytes
  entries : w.budget.entries ≤ limits.treeEntries → w'.budget.entries ≤ limits.treeEntries
  same : w'.archive = w.archive ∧ w'.inventory = w.inventory ∧ w'.budget.files = w.budget.files ∧
    w'.budget.expanded = w.budget.expanded

theorem treeEntries_ok (hstart : ∀ part ∈ start, isPart part = true) {entries : List TreeEntry}
    (h : treeEntries t sha1 r limits forbidden oid start w = .ok entries w') :
    TreeRead t sha1 limits forbidden oid start w entries w' := by
  simp only [treeEntries, bind_ok, Act.pure_ok, Prod.exists] at h
  obtain ⟨s, w₁, hopen, entries', s', w₂, hentries, _, w₃, hfinish, rfl, rfl⟩ := h
  have hopened := openStream_ok hopen
  obtain ⟨raws, new, rfl, hend, hentered⟩ := entriesFrom_ok hstart hentries
  obtain ⟨-, hsha, reader₃, rfl⟩ := finish_ok hfinish
  obtain ⟨hobject, hlength⟩ := hopened.object (S := {b | b = s'.digest}) hentered.consumed hend hsha rfl
  have hdigest : frame .tree (raws.flatMap RawEntry.bytes) = s'.digest := hobject.1
  obtain ⟨reader₁, rfl⟩ := hopened.work
  obtain ⟨reader₂, rfl⟩ := hentered.work
  have hbytes := hopened.objectBytes
  have htree : IsTree (raws.flatMap RawEntry.bytes) raws := ⟨rfl, hentered.wellFormed⟩
  refine ⟨⟨raws, _, htree, by simpa using hentered.read, ⟨?_, rfl, by simp, [raws], ?_, by simp⟩, hobject.2⟩, by simp,
    hentered.nodup, hopened.objects, ?_, hentered.entries, rfl, rfl, rfl, rfl⟩
  · rw [List.map_singleton, hdigest]
    rfl
  · exact .cons htree .nil
  · simp only at hbytes ⊢
    omega

/-! ## Commits -/

theorem partitionHeaders_eq_some {headers : Bytes} (h : partitionHeaders data = some headers) :
    ∃ rest, data = headers ++ 10 :: 10 :: rest := by
  induction data using partitionHeaders.induct generalizing headers with
  | case1 rest =>
    rw [partitionHeaders] at h
    cases h
    exact ⟨rest, rfl⟩
  | case2 b rest hnot ih =>
    rw [partitionHeaders.eq_2 _ _ hnot] at h
    obtain ⟨headers', hheaders, rfl⟩ := Option.map_eq_some_iff.mp h
    obtain ⟨more, rfl⟩ := ih hheaders
    exact ⟨more, rfl⟩
  | case3 => cases h

theorem splitLines_head {headers line : Bytes} (h : (splitLines headers).head? = some line) :
    headers = line ∨ ∃ rest, headers = line ++ 10 :: rest := by
  induction headers generalizing line with
  | nil =>
    cases h
    exact .inl rfl
  | cons b headers ih =>
    rw [splitLines] at h
    split at h
    · rename_i hb
      cases h
      exact .inr ⟨headers, by rw [hb]; rfl⟩
    split at h
    · rename_i first lines hlines
      cases h
      rcases @ih first (by rw [hlines]; rfl) with rfl | ⟨rest, rfl⟩
      · exact .inl rfl
      · exact .inr ⟨rest, rfl⟩
    rename_i hlines
    cases headers with
    | nil => cases hlines
    | cons c headers =>
      rw [splitLines] at hlines
      split at hlines
      · cases hlines
      · split at hlines <;> cases hlines

theorem parseCommit_ok {tree : String} (h : parseCommit data = some tree) : IsCommit data tree := by
  simp only [parseCommit, Option.bind_eq_bind, Option.bind_eq_some_iff] at h
  obtain ⟨headers, hheaders, first, hfirst, h⟩ := h
  split at h
  · rename_i hcommit
    cases h
    obtain ⟨rest, rfl⟩ := partitionHeaders_eq_some hheaders
    obtain ⟨raw, rfl⟩ := List.isPrefixOf_iff_prefix.mp hcommit.1
    have hraw : (treeHeader ++ raw).drop treeHeader.length = raw := List.drop_left
    rw [hraw] at hcommit ⊢
    rcases splitLines_head hfirst with rfl | ⟨more, rfl⟩
    · exact ⟨raw, 10 :: rest, hcommit.2.1, by simp [treeHeader], rfl⟩
    · exact ⟨raw, more ++ 10 :: 10 :: rest, hcommit.2.1, by simp [treeHeader], rfl⟩
  · cases h

theorem foldlM_append (chunks : List Bytes) (data : Bytes) :
    chunks.foldlM (fun data chunk => (.ok (data ++ chunk) : Except Failure Bytes)) data = .ok (data ++ chunks.flatten) := by
  induction chunks generalizing data with
  | nil => simp [pure, Except.pure]
  | cons chunk chunks ih =>
    rw [List.foldlM_cons, bind_eq_ok]
    exact ⟨_, rfl, by rw [ih, List.flatten_cons, List.append_assoc]⟩

/-- The object of a commit was read. -/
structure CommitRead (sha1 : Bytes → String) (limits : Limits) (commit : String) (w : Work σ) (tree : String) (w' : Work σ) :
    Prop where
  object : ∃ data, IsCommit data tree ∧ HasRead w [(.commit, data)] w' ∧ sha1 (frame .commit data) = commit
  work : ∃ reader digested budget, w' = { w with reader, digested, budget, opens := w.opens + 1 } ∧
    budget.objects ≤ limits.objects ∧ budget.objectBytes ≤ limits.objectBytes ∧ budget.entries = w.budget.entries ∧
    budget.files = w.budget.files ∧ budget.expanded = w.budget.expanded

theorem commitTree_ok {commit tree : String} (h : commitTree sha1 r limits commit w = .ok tree w') :
    CommitRead sha1 limits commit w tree w' := by
  simp only [commitTree, expect, bind_ok, Act.ofExcept_ok, expect_eq_ok, Prod.exists] at h
  obtain ⟨s, w₁, hopen, data, s', w₂, hdrain, _, w₃, hfinish, hparse, rfl⟩ := h
  have hopened := openStream_ok hopen
  obtain ⟨chunks, htook, hend, -, hfold⟩ := drain_ok hdrain
  rw [foldlM_append] at hfold
  obtain rfl : chunks.flatten = data := by simpa using hfold
  obtain ⟨-, hsha, reader₃, rfl⟩ := finish_ok hfinish
  obtain ⟨hobject, hlength⟩ := hopened.object (S := {b | b = s'.digest}) htook.consumed hend hsha rfl
  have hdigest : frame .commit chunks.flatten = s'.digest := hobject.1
  obtain ⟨reader₁, rfl⟩ := hopened.work
  obtain ⟨reader₂, rfl⟩ := htook.work
  have hbytes := hopened.objectBytes
  refine ⟨⟨_, parseCommit_ok hparse, ⟨?_, rfl, by simp, [], .nil, rfl⟩, hobject.2⟩, _, _, _, rfl, hopened.objects, ?_, rfl, rfl, rfl⟩
  · rw [List.map_singleton, hdigest]
    rfl
  · simp only at hbytes ⊢
    omega

end LingshuGate.Git
