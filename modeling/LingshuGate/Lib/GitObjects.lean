import Mathlib.Data.Set.Function

/-!
# Objects of Git

The plain grammar: how an object is framed for its name, what a tree object lists, where a commit names its tree. Names are
what `sha1` gives, so that nothing is said of bytes beyond a set `S` on which it has no collision.
-/

namespace Lib.GitObjects

abbrev Bytes := List UInt8

inductive Kind
  | commit | tree | blob
  deriving DecidableEq

def Kind.name : Kind → String
  | .commit => "commit"
  | .tree => "tree"
  | .blob => "blob"

/-- `.encode("ascii")` -/
def ascii (s : String) : Bytes := s.toList.map fun c => UInt8.ofNat c.toNat

/-- `.decode("ascii")` -/
def ofAscii (b : Bytes) : String := String.ofList (b.map fun x => Char.ofNat x.toNat)

def hexDigit (n : Nat) : Char := if n < 10 then Char.ofNat (48 + n) else Char.ofNat (87 + n)

/-- `.hex()` -/
def hex (b : Bytes) : String := String.ofList (b.flatMap fun x => [hexDigit (x.toNat / 16), hexDigit (x.toNat % 16)])

/-- What stands before the first delimiter is determined. -/
theorem append_cons_inj {α : Type*} {d : α} {a b x y : List α} (ha : d ∉ a) (hb : d ∉ b) (h : a ++ d :: x = b ++ d :: y) :
    a = b ∧ x = y := by
  induction a generalizing b with
  | nil =>
    cases b with
    | nil => exact ⟨rfl, (List.cons.inj h).2⟩
    | cons c b => exact absurd ((List.cons.inj h).1 ▸ List.mem_cons_self) hb
  | cons c a ih =>
    cases b with
    | nil => exact absurd ((List.cons.inj h).1 ▸ List.mem_cons_self) ha
    | cons c' b =>
      obtain ⟨rfl, hrest⟩ := List.cons.inj h
      obtain ⟨rfl, rfl⟩ := ih (fun h => ha (List.mem_cons_of_mem _ h)) (fun h => hb (List.mem_cons_of_mem _ h)) hrest
      exact ⟨rfl, rfl⟩

/-! ## Framing -/

/-- What is hashed before the content, without the NUL. -/
def label (kind : Kind) (size : Nat) : Bytes := ascii kind.name ++ 32 :: ascii (toString size)

def header (kind : Kind) (size : Nat) : Bytes := label kind size ++ [0]

def frame (kind : Kind) (data : Bytes) : Bytes := header kind data.length ++ data

theorem label_no_nul (kind : Kind) (size : Nat) : 0 ∉ label kind size := by
  have hname : 0 ∉ ascii kind.name := by cases kind <;> decide
  have hsize : 0 ∉ ascii (toString size) := by
    intro h
    obtain ⟨c, hc, hzero⟩ := List.mem_map.mp h
    have hdigit : c.isDigit := by
      refine Nat.isDigit_of_mem_toDigits (b := 10) (n := size) (by decide) (by decide) ?_
      rwa [← Nat.toList_repr]
    obtain ⟨hlow, hhigh⟩ := Char.isDigit_iff_toNat.mp hdigit
    have hlow : 48 ≤ c.toNat := hlow
    have hhigh : c.toNat ≤ 57 := hhigh
    have := congrArg UInt8.toNat hzero
    rw [UInt8.toNat_ofNat', Nat.mod_eq_of_lt (by omega)] at this
    have : c.toNat = 0 := this
    omega
  intro h
  rcases List.mem_append.mp h with h | h
  · exact hname h
  · rcases List.mem_cons.mp h with h | h
    · exact absurd h (by decide)
    · exact hsize h

theorem frame_injective {kind : Kind} {a b : Bytes} (h : frame kind a = frame kind b) : a = b := by
  simp only [frame, header, List.append_assoc, List.cons_append, List.nil_append] at h
  exact (append_cons_inj (label_no_nul kind _) (label_no_nul kind _) h).2

/-! ## Trees and commits -/

structure RawEntry where
  mode : Bytes
  name : Bytes
  child : Bytes
  deriving DecidableEq

structure RawEntry.WellFormed (e : RawEntry) : Prop where
  mode : 32 ∉ e.mode
  name : 0 ∉ e.name
  child : e.child.length = 20

def RawEntry.bytes (e : RawEntry) : Bytes := e.mode ++ 32 :: (e.name ++ 0 :: e.child)

/-- The content of a tree object that lists `es`. -/
structure IsTree (data : Bytes) (es : List RawEntry) : Prop where
  data : data = es.flatMap RawEntry.bytes
  entries : ∀ e ∈ es, e.WellFormed

theorem IsTree.unique {data : Bytes} {es es' : List RawEntry} (h : IsTree data es) (h' : IsTree data es') : es = es' := by
  obtain ⟨hdata, hes⟩ := h
  obtain ⟨hdata', hes'⟩ := h'
  rw [hdata] at hdata'
  clear hdata
  induction es generalizing es' with
  | nil =>
    cases es' with
    | nil => rfl
    | cons e' es' => simp [RawEntry.bytes] at hdata'
  | cons e es ih =>
    cases es' with
    | nil => simp [RawEntry.bytes] at hdata'
    | cons e' es' =>
      have he := hes e List.mem_cons_self
      have he' := hes' e' List.mem_cons_self
      simp only [List.flatMap_cons, RawEntry.bytes, List.append_assoc, List.cons_append] at hdata'
      obtain ⟨hmode, h⟩ := append_cons_inj he.mode he'.mode hdata'
      obtain ⟨hname, h⟩ := append_cons_inj he.name he'.name h
      obtain ⟨hchild, h⟩ := List.append_inj h (he.child.trans he'.child.symm)
      rw [ih (fun x hx => hes x (List.mem_cons_of_mem _ hx)) h fun x hx => hes' x (List.mem_cons_of_mem _ hx)]
      congr 1
      cases e
      cases e'
      simp_all

/-- The content of a commit object of the tree with this name. -/
def IsCommit (data : Bytes) (tree : String) : Prop :=
  ∃ raw rest, raw.length = 40 ∧ data = ascii "tree " ++ (raw ++ 10 :: rest) ∧ tree = ofAscii raw

section Reached

variable (sha1 : Bytes → String) (S : Set Bytes)

/-- The object of this name. -/
def Object (oid : String) (kind : Kind) (data : Bytes) : Prop := frame kind data ∈ S ∧ sha1 (frame kind data) = oid

def treeMode : Bytes := ascii "40000"

/-- The entries of a tree, and of the trees it reaches. -/
inductive Reaches : String → List Bytes → Bytes → String → Prop
  | entry {oid : String} {data : Bytes} {es : List RawEntry} {e : RawEntry} (object : Object sha1 S oid .tree data)
      (tree : IsTree data es) (mem : e ∈ es) : Reaches oid [e.name] e.mode (hex e.child)
  | deeper {oid : String} {data : Bytes} {es : List RawEntry} {e : RawEntry} {path : List Bytes} {mode : Bytes} {child : String}
      (object : Object sha1 S oid .tree data) (tree : IsTree data es) (mem : e ∈ es) (isTree : e.mode = treeMode)
      (reaches : Reaches (hex e.child) path mode child) : Reaches oid (e.name :: path) mode child

/-- The blobs. -/
def HasBlob (oid : String) (path : List Bytes) (mode data : Bytes) : Prop :=
  ∃ child, Reaches sha1 S oid path mode child ∧ mode ≠ treeMode ∧ Object sha1 S child .blob data

variable {sha1 S}

theorem Object.unique (hS : Set.InjOn sha1 S) {oid : String} {kind : Kind} {data data' : Bytes}
    (h : Object sha1 S oid kind data) (h' : Object sha1 S oid kind data') : data = data' :=
  frame_injective (hS h.1 h'.1 (h.2.trans h'.2.symm))

/-- What a tree reaches, by the entries it lists. -/
theorem reaches_iff (hS : Set.InjOn sha1 S) {oid : String} {data : Bytes} {es : List RawEntry}
    (hobject : Object sha1 S oid .tree data) (htree : IsTree data es) {path : List Bytes} {mode : Bytes} {child : String} :
    Reaches sha1 S oid path mode child ↔ ∃ e ∈ es, (path = [e.name] ∧ mode = e.mode ∧ child = hex e.child) ∨
      (e.mode = treeMode ∧ ∃ rest, path = e.name :: rest ∧ Reaches sha1 S (hex e.child) rest mode child) := by
  constructor
  · rintro (⟨object, tree, mem⟩ | ⟨object, tree, mem, isTree, reaches⟩)
    · obtain rfl := object.unique hS hobject
      obtain rfl := tree.unique htree
      exact ⟨_, mem, .inl ⟨rfl, rfl, rfl⟩⟩
    · obtain rfl := object.unique hS hobject
      obtain rfl := tree.unique htree
      exact ⟨_, mem, .inr ⟨isTree, _, rfl, reaches⟩⟩
  · rintro ⟨e, he, ⟨rfl, rfl, rfl⟩ | ⟨hmode, rest, rfl, hreaches⟩⟩
    · exact .entry hobject htree he
    · exact .deeper hobject htree he hmode hreaches

end Reached

end Lib.GitObjects
