import Mathlib.Data.List.Forall2
import LingshuGate.Lib.Check
import LingshuGate.Lib.Dict
import LingshuGate.Lib.PyText

/-!
# The cost of a schema (`application/schema_validation.py`)

| here | there |
| --- | --- |
| `Obj`, `Schema`        | the schema; `id` is `id(node)` of a dict or a list |
| `Codec`                | `unquote` of urllib, and `int(part)` where `part.isdecimal()` |
| `reference`            | `reference` (schema_validation.py:73) |
| `costChildren`, `cost` | the loop over the children (104-109), `cost` (85) |
| `expansion`            | `_expansion` (68) |

What is left of `MAX_DEPTH` counts down where `level` counts up. `active` holds the keys of the calls that are still running, and
each call takes its own out again, so it is passed down only.

`Unfolding` says what the cost is of: the tree in which every `$ref` is one more child, the tree of its target. Two objects of one
identity are one object, which is all that the memo and the cycle test rest on.
-/

namespace LingshuGate.SchemaValidation

open Lib

/-! ## The code -/

inductive Obj
  | str (s : String)
  /-- `None`, a bool or a number. -/
  | scalar
  | list (id : Nat) (items : List Obj)
  | dict (id : Nat) (fields : List (String × Obj))

/-- `id(node)` of a dict or a list. -/
def Obj.key : Obj → Option Nat
  | .list id _ | .dict id _ => some id
  | _ => none

/-- `node.get(key)` of a dict. -/
def Obj.field (key : String) : Obj → Option Obj
  | .dict _ fields => (fields.find? fun kv => kv.1 = key).map (·.2)
  | _ => none

/-- `children`: what is under `$ref` is none of them. -/
def Obj.children : Obj → List Obj
  | .list _ items => items
  | .dict _ fields => (fields.filter fun kv => kv.1 ≠ "$ref").map (·.2)
  | _ => []

def Obj.ref (node : Obj) : Option Obj := node.field "$ref"

/-- An object of the schema. -/
inductive Part (root : Obj) : Obj → Prop
  | root : Part root root
  | item {id : Nat} {items : List Obj} {x : Obj} : Part root (.list id items) → x ∈ items → Part root x
  | field {id : Nat} {fields : List (String × Obj)} {kv : String × Obj} : Part root (.dict id fields) → kv ∈ fields → Part root kv.2

structure Schema where
  root : Obj
  identity : ∀ a b, Part root a → Part root b → a.key.isSome = true → a.key = b.key → a = b

structure Codec where
  unquote : String → String
  decimal : String → Option Nat

inductive Refusal
  | complexityLimit
  | invalid
deriving DecidableEq

def maxDepth : Nat := 32
def maxExpansion : Nat := 8192

@[ext]
structure Cost where
  count : Nat
  height : Nat
deriving DecidableEq

def Cost.add (total child : Cost) : Cost := ⟨total.count + child.count, max total.height (child.height + 1)⟩

def Cost.allowed (c : Cost) : Bool := c.count ≤ maxExpansion && c.height ≤ maxDepth

abbrev Memo := Dict Nat Cost

/-- `part.replace("~" + digit, by)` -/
def replaceTilde (digit new : Char) : List Char → List Char
  | [] => []
  | [c] => [c]
  | c :: d :: rest => if c = '~' ∧ d = digit then new :: replaceTilde digit new rest else c :: replaceTilde digit new (d :: rest)

section
variable (k : Codec) (s : Schema)

/-- `node[part]`, `node[int(part)]` -/
def step (node : Obj) (part : String) : Option Obj :=
  match node with
  | .dict _ _ => node.field part
  | .list _ items =>
    if part = "0" || !Py.startsWith part "0" then (k.decimal part).bind fun i => items[i]? else none
  | _ => none

def pointerParts (ref : String) : List String :=
  (Py.splitChars '/' (k.unquote (String.ofList (ref.toList.drop 2))).toList).map fun part =>
    String.ofList (replaceTilde '0' '~' (replaceTilde '1' '/' part))

/-- A `$ref` that is no string is refused by the first thing that is done with it. -/
def reference (ref : Obj) : Option Obj :=
  match ref with
  | .str ref => (pointerParts k ref).foldlM (step k) s.root
  | _ => none

def costChildren (visit : Obj → Memo → Except Refusal (Cost × Memo)) : List Obj → Cost → Memo → Except Refusal (Cost × Memo)
  | [], total, memo => .ok (total, memo)
  | child :: children, total, memo => do
    let (c, memo) ← visit child memo
    require (total.add c).allowed .complexityLimit
    costChildren visit children (total.add c) memo

/-- The turn of a `$ref`. -/
def costRef (visit : Obj → Memo → Except Refusal (Cost × Memo)) (ref : Option Obj) (total : Cost) (memo : Memo) :
    Except Refusal (Cost × Memo) :=
  match ref with
  | none => .ok (total, memo)
  | some ref => do
    let target ← expect (reference k s ref) .invalid
    let (c, memo) ← visit target memo
    return (total.add c, memo)

def cost : Nat → List Nat → Obj → Memo → Except Refusal (Cost × Memo)
  | 0, _, _, _ => .error .complexityLimit
  | left + 1, active, node, memo =>
    match node.key with
    | none => .ok (⟨1, 0⟩, memo)
    | some key =>
      if key ∈ active then .error .complexityLimit
      else match Dict.get memo key with
        | some total => .ok (total, memo)
        | none => do
          let (total, memo) ← costChildren (cost left (key :: active)) node.children ⟨1, 0⟩ memo
          let (total, memo) ← costRef k s (cost left (key :: active)) node.ref total memo
          require total.allowed .complexityLimit
          return (total, Dict.set memo key total)

def expansion : Except Refusal Nat := (cost k s (maxDepth + 1) [] s.root ∅).map fun found => found.1.count

/-! ## The unfolded schema -/

end

inductive Tree
  | node (children : List Tree)

mutual

def Tree.count : Tree → Nat
  | .node ts => 1 + countAll ts

def countAll : List Tree → Nat
  | [] => 0
  | t :: ts => t.count + countAll ts

end

mutual

def Tree.height : Tree → Nat
  | .node ts => heightAll ts

/-- The height of a node with these children. -/
def heightAll : List Tree → Nat
  | [] => 0
  | t :: ts => max (t.height + 1) (heightAll ts)

end

/-- The tree of an object: its children, and the tree of what its `$ref` points to. -/
inductive Unfolding (k : Codec) (s : Schema) : Obj → Tree → Prop
  | plain {node : Obj} {ts : List Tree} : node.ref = none → List.Forall₂ (Unfolding k s) node.children ts →
      Unfolding k s node (.node ts)
  | referring {node ref target : Obj} {ts : List Tree} {t : Tree} : node.ref = some ref → reference k s ref = some target →
      List.Forall₂ (Unfolding k s) node.children ts → Unfolding k s target t → Unfolding k s node (.node (ts ++ [t]))

def Tree.cost (t : Tree) : Cost := ⟨t.count, t.height⟩

variable {k : Codec} {s : Schema} {node target : Obj} {t t' : Tree} {ts ts' : List Tree} {memo memo' : Memo} {active : List Nat}

/-! ## Trees -/

theorem countAll_append (ts ts' : List Tree) : countAll (ts ++ ts') = countAll ts + countAll ts' := by
  induction ts with
  | nil => simp [countAll]
  | cons t ts ih =>
    rw [List.cons_append, countAll, ih, countAll]
    omega

theorem heightAll_append (ts ts' : List Tree) : heightAll (ts ++ ts') = max (heightAll ts) (heightAll ts') := by
  induction ts with
  | nil => simp [heightAll]
  | cons t ts ih =>
    rw [List.cons_append, heightAll, ih, heightAll]
    omega

theorem count_le_countAll (h : t ∈ ts) : t.count ≤ countAll ts := by
  induction ts with
  | nil => cases h
  | cons t' ts ih =>
    rw [countAll]
    rcases List.mem_cons.mp h with rfl | h
    · omega
    · have hle := ih h
      omega

theorem height_le_heightAll (h : t ∈ ts) : t.height + 1 ≤ heightAll ts := by
  induction ts with
  | nil => cases h
  | cons t' ts ih =>
    rw [heightAll]
    rcases List.mem_cons.mp h with rfl | h
    · omega
    · have hle := ih h
      omega

/-- The cost of a node is that of its children, added one by one. -/
theorem cost_node (ts : List Tree) : (Tree.node ts).cost = ⟨1 + countAll ts, heightAll ts⟩ := by
  rw [Tree.cost, Tree.count, Tree.height]

/-- The total after some children, of a running total. -/
def Cost.after (total : Cost) (ts : List Tree) : Cost := ⟨total.count + countAll ts, max total.height (heightAll ts)⟩

theorem Cost.after_nil (total : Cost) : total.after [] = total := by
  ext
  · simp [Cost.after, countAll]
  · simp [Cost.after, heightAll]

theorem Cost.after_cons (total : Cost) (t : Tree) (ts : List Tree) : total.after (t :: ts) = (total.add t.cost).after ts := by
  ext
  · simp only [Cost.after, Cost.add, Tree.cost, countAll]
    omega
  · simp only [Cost.after, Cost.add, Tree.cost, heightAll]
    omega

theorem Cost.allowed_iff {c : Cost} : c.allowed = true ↔ c.count ≤ maxExpansion ∧ c.height ≤ maxDepth := by
  simp [Cost.allowed]

/-- A total that ends within the limits has always been. -/
theorem Cost.allowed_of_after {total : Cost} (h : (total.after ts).allowed = true) : total.allowed = true := by
  rw [Cost.allowed_iff] at h ⊢
  simp only [Cost.after] at h
  omega

/-! ## Unfoldings -/

theorem forall₂_unique {α β : Type} {R : α → β → Prop} {xs : List α} {ys zs : List β} (hy : List.Forall₂ R xs ys)
    (hz : List.Forall₂ R xs zs) (hunique : ∀ x, ∀ y ∈ ys, ∀ z, R x y → R x z → y = z) : ys = zs := by
  induction hy generalizing zs with
  | nil =>
    cases hz
    rfl
  | cons hr _ ih =>
    cases hz with
    | cons hr' hz =>
      rw [hunique _ _ List.mem_cons_self _ hr hr', ih hz fun x y hy => hunique x y (List.mem_cons_of_mem _ hy)]

/-- An object has one unfolding. -/
theorem Unfolding.unique : ∀ {n : Nat} {node : Obj} {t t' : Tree}, t.count ≤ n → Unfolding k s node t → Unfolding k s node t' →
    t = t' := by
  intro n
  induction n with
  | zero =>
    intro node t t' hn
    cases t with
    | node ts =>
      rw [Tree.count] at hn
      omega
  | succ n ih =>
    intro node t t' hn h h'
    -- the parts of a tree have smaller counts
    have hparts : ∀ {ts ts' : List Tree}, countAll ts ≤ n → List.Forall₂ (Unfolding k s) node.children ts →
        List.Forall₂ (Unfolding k s) node.children ts' → ts = ts' := by
      intro ts ts' hcount hts hts'
      refine forall₂_unique hts hts' ?_
      intro o u hu u' hu₁ hu₂
      exact ih (Nat.le_trans (count_le_countAll hu) hcount) hu₁ hu₂
    cases h with
    | plain hnone hts =>
      cases h' with
      | plain _ hts' =>
        rw [Tree.count] at hn
        rw [hparts (by omega) hts hts']
      | referring hsome _ _ _ => rw [hnone] at hsome; cases hsome
    | referring hsome htarget hts ht =>
      cases h' with
      | plain hnone _ => rw [hnone] at hsome; cases hsome
      | referring hsome' htarget' hts' ht' =>
        rw [hsome] at hsome'
        cases hsome'
        rw [htarget] at htarget'
        cases htarget'
        rw [Tree.count, countAll_append, countAll, countAll] at hn
        rw [hparts (by omega) hts hts', ih (by omega) ht ht']

theorem Unfolding.unique' (h : Unfolding k s node t) (h' : Unfolding k s node t') : t = t' :=
  Unfolding.unique (le_refl _) h h'

/-! ## Objects of the schema -/

variable {root child : Obj}

theorem part_children (h : Part root node) (hchild : child ∈ node.children) : Part root child := by
  cases node with
  | str s | scalar => cases hchild
  | list id items => exact h.item hchild
  | dict id fields =>
    obtain ⟨kv, hkv, rfl⟩ := List.mem_map.mp hchild
    exact h.field (List.mem_filter.mp hkv).1

theorem part_field {key : String} (h : Part root node) (hfield : node.field key = some child) : Part root child := by
  cases node with
  | str s | scalar | list id items => cases hfield
  | dict id fields =>
    obtain ⟨kv, hkv, rfl⟩ := Option.map_eq_some_iff.mp hfield
    exact h.field (List.mem_of_find?_eq_some hkv)

theorem part_step {part : String} (h : Part root node) (hstep : step k node part = some child) : Part root child := by
  cases node with
  | str s | scalar => cases hstep
  | dict id fields => exact part_field h hstep
  | list id items =>
    simp only [step] at hstep
    split at hstep
    · obtain ⟨i, -, hi⟩ := Option.bind_eq_some_iff.mp hstep
      exact h.item (List.mem_of_getElem? hi)
    · cases hstep

theorem part_reference {ref : Obj} (h : reference k s ref = some target) : Part s.root target := by
  cases ref with
  | scalar | list id items | dict id fields => cases h
  | str ref =>
    have hwalk : ∀ (parts : List String) (node : Obj), Part s.root node → parts.foldlM (step k) node = some target →
        Part s.root target := by
      intro parts
      induction parts with
      | nil =>
        rintro node hpart hfold
        obtain rfl := Option.some.inj hfold
        exact hpart
      | cons part parts ih =>
        intro node hpart hfold
        rw [List.foldlM_cons, Option.bind_eq_bind, Option.bind_eq_some_iff] at hfold
        obtain ⟨child, hchild, hfold⟩ := hfold
        exact ih child (part_step hpart hchild) hfold
    exact hwalk _ _ .root h

/-! ## What the memo holds -/

/-- Each entry is the cost of the tree of its object, and within the limits. -/
def Known (k : Codec) (s : Schema) (memo : Memo) : Prop := ∀ key c, Dict.get memo key = some c → ∀ node, Part s.root node →
  node.key = some key → ∃ t, Unfolding k s node t ∧ c = t.cost ∧ c.allowed = true

/-- What a visit that succeeds has found. -/
def Sound (k : Codec) (s : Schema) (visit : Obj → Memo → Except Refusal (Cost × Memo)) (node : Obj) : Prop :=
  ∀ memo c memo', Known k s memo → visit node memo = .ok (c, memo') →
    Known k s memo' ∧ ∃ t, Unfolding k s node t ∧ c = t.cost ∧ c.allowed = true

/-- A visit of an object with the tree `t` succeeds. -/
def Complete (k : Codec) (s : Schema) (visit : Obj → Memo → Except Refusal (Cost × Memo)) (node : Obj) (t : Tree) : Prop :=
  ∀ memo, Known k s memo → ∃ memo', visit node memo = .ok (t.cost, memo') ∧ Known k s memo'

variable {visit : Obj → Memo → Except Refusal (Cost × Memo)}

theorem costChildren_sound {children : List Obj} (hvisit : ∀ child ∈ children, Sound k s visit child) {total c : Cost}
    (hknown : Known k s memo) (h : costChildren visit children total memo = .ok (c, memo')) :
    Known k s memo' ∧ ∃ ts, List.Forall₂ (Unfolding k s) children ts ∧ c = total.after ts := by
  induction children generalizing total memo with
  | nil =>
    cases h
    exact ⟨hknown, [], .nil, (Cost.after_nil _).symm⟩
  | cons child children ih =>
    simp only [costChildren, bind_eq_ok, Prod.exists] at h
    obtain ⟨c₁, memo₁, hchild, _, -, hrest⟩ := h
    obtain ⟨hknown₁, t, ht, rfl, -⟩ := hvisit child List.mem_cons_self memo c₁ memo₁ hknown hchild
    obtain ⟨hknown', ts, hts, rfl⟩ := ih (fun o ho => hvisit o (List.mem_cons_of_mem _ ho)) hknown₁ hrest
    exact ⟨hknown', t :: ts, .cons ht hts, (Cost.after_cons total t ts).symm⟩

theorem costChildren_complete {children : List Obj} {total : Cost} (hvisit : List.Forall₂ (Complete k s visit) children ts)
    (hknown : Known k s memo) (hallowed : (total.after ts).allowed = true) :
    ∃ memo', costChildren visit children total memo = .ok (total.after ts, memo') ∧ Known k s memo' := by
  induction hvisit generalizing total memo with
  | nil => exact ⟨memo, by rw [costChildren, Cost.after_nil], hknown⟩
  | @cons child t children ts hchild _ ih =>
    obtain ⟨memo₁, hvisited, hknown₁⟩ := hchild memo hknown
    rw [Cost.after_cons] at hallowed ⊢
    obtain ⟨memo', hrest, hknown'⟩ := ih hknown₁ hallowed
    refine ⟨memo', ?_, hknown'⟩
    simp only [costChildren, bind_eq_ok, Prod.exists, require_eq_ok]
    exact ⟨_, _, hvisited, (), Cost.allowed_of_after hallowed, hrest⟩

theorem known_set {key : Nat} (hknown : Known k s memo) (hpart : Part s.root node) (hkey : node.key = some key)
    (ht : Unfolding k s node t) (hallowed : t.cost.allowed = true) : Known k s (Dict.set memo key t.cost) := by
  intro key' c hget node' hpart' hkey'
  rw [Dict.get_set] at hget
  split at hget
  · rename_i hsame
    obtain rfl := Option.some.inj hget
    have hnode : node' = node := s.identity node' node hpart' hpart (by rw [hkey']; rfl) (by rw [hkey', hkey, hsame])
    rw [hnode]
    exact ⟨t, ht, rfl, hallowed⟩
  · exact hknown key' c hget node' hpart' hkey'

/-! ## Soundness -/

/-- An object that is no container is a tree of one node. -/
theorem unfolding_leaf (hkey : node.key = none) : Unfolding k s node (.node []) := by
  cases node with
  | str s | scalar => exact .plain rfl .nil
  | list id items | dict id fields => cases hkey

/-- A call that returns has found the cost of a tree; a memo hit gives what a visit would have given. -/
theorem cost_sound (left : Nat) (active : List Nat) (hpart : Part s.root node) : Sound k s (cost k s left active) node := by
  induction left generalizing active node with
  | zero =>
    intro memo c memo' _ h
    cases h
  | succ left ih =>
    intro memo c memo' hknown h
    rw [cost] at h
    cases hkey : node.key with
    | none =>
      rw [hkey] at h
      cases h
      exact ⟨hknown, .node [], unfolding_leaf hkey, rfl, rfl⟩
    | some key =>
      simp only [hkey] at h
      split at h
      · cases h
      cases hget : Dict.get memo key with
      | some total =>
        rw [hget] at h
        cases h
        exact ⟨hknown, hknown key _ hget node hpart hkey⟩
      | none =>
        simp only [hget, bind_eq_ok, Prod.exists, require_eq_ok, pure_eq_ok, Prod.mk.injEq] at h
        obtain ⟨c₁, memo₁, hchildren, c₂, memo₂, href, _, hallowed, rfl, rfl⟩ := h
        obtain ⟨hknown₁, ts, hts, rfl⟩ :=
          costChildren_sound (fun child hchild => ih (key :: active) (part_children hpart hchild)) hknown hchildren
        -- the tree of the node, with the one of its reference
        have htree : Known k s memo₂ ∧ ∃ t, Unfolding k s node t ∧ c₂ = t.cost := by
          cases hr : node.ref with
          | none =>
            rw [hr] at href
            cases href
            refine ⟨hknown₁, .node ts, .plain hr hts, ?_⟩
            rw [cost_node]
            ext
            · rfl
            · exact Nat.max_eq_right (Nat.zero_le _)
          | some ref =>
            simp only [hr, costRef, bind_eq_ok, Prod.exists, expect_eq_ok, pure_eq_ok, Prod.mk.injEq] at href
            obtain ⟨target, htarget, c, memo₃, hvisit, rfl, rfl⟩ := href
            obtain ⟨hknown₂, t, ht, rfl, -⟩ := ih (key :: active) (part_reference htarget) _ _ _ hknown₁ hvisit
            refine ⟨hknown₂, .node (ts ++ [t]), .referring hr htarget hts ht, ?_⟩
            rw [cost_node, countAll_append, heightAll_append]
            ext
            · simp only [Cost.add, Cost.after, Tree.cost, countAll]
              omega
            · simp only [Cost.add, Cost.after, Tree.cost, heightAll]
              omega
        obtain ⟨hknown₂, t, ht, rfl⟩ := htree
        exact ⟨known_set hknown₂ hpart hkey ht hallowed, t, ht, rfl, hallowed⟩

/-! ## Completeness -/

/-- The objects whose calls are running have larger trees than `t`. -/
def Clear (k : Codec) (s : Schema) (active : List Nat) (t : Tree) : Prop := ∀ key ∈ active, ∀ node, Part s.root node →
  node.key = some key → ∀ t', Unfolding k s node t' → t.count < t'.count

/-- What is clear above an object is clear above its parts, the object included. -/
theorem Clear.part {key : Nat} (hclear : Clear k s active t) (hpart : Part s.root node) (hkey : node.key = some key)
    (ht : Unfolding k s node t) (hlt : t'.count < t.count) : Clear k s (key :: active) t' := by
  intro key' hmem node' hpart' hkey' u hu
  rcases List.mem_cons.mp hmem with rfl | hmem
  · have hnode : node' = node := s.identity node' node hpart' hpart (by rw [hkey']; rfl) (by rw [hkey', hkey])
    rw [hnode] at hu
    rw [hu.unique' ht]
    exact hlt
  · have hlarger := hclear key' hmem node' hpart' hkey' u hu
    omega

/-- An object is visited if its tree is within the limits and none of its ancestors. -/
theorem cost_complete (left : Nat) (hpart : Part s.root node) (ht : Unfolding k s node t) (hleft : t.height < left)
    (hallowed : t.cost.allowed = true) (hclear : Clear k s active t) : Complete k s (cost k s left active) node t := by
  induction left generalizing active node t with
  | zero => omega
  | succ left ih =>
    intro memo hknown
    rw [cost]
    cases hkey : node.key with
    | none =>
      obtain rfl := ht.unique' (unfolding_leaf hkey)
      exact ⟨memo, rfl, hknown⟩
    | some key =>
      have hinactive : key ∉ active := by
        intro hmem
        have hless := hclear key hmem node hpart hkey t ht
        omega
      simp only [if_neg hinactive]
      cases hget : Dict.get memo key with
      | some total =>
        obtain ⟨u, hu, rfl, -⟩ := hknown key total hget node hpart hkey
        obtain rfl := hu.unique' ht
        exact ⟨memo, rfl, hknown⟩
      | none =>
        rw [Cost.allowed_iff] at hallowed
        -- a part of the tree is visited: it is smaller, and one level further down
        have hvisit : ∀ {o : Obj} {u : Tree}, Part s.root o → Unfolding k s o u → u.count < t.count → u.height + 1 ≤ t.height →
            Complete k s (cost k s left (key :: active)) o u := by
          intro o u ho hu hcount hheight
          simp only [Tree.cost] at hallowed
          refine ih ho hu (by omega) (Cost.allowed_iff.mpr ?_) (hclear.part hpart hkey ht hcount)
          simp only [Tree.cost]
          omega
        have hchildren : ∀ {ts : List Tree}, List.Forall₂ (Unfolding k s) node.children ts → 1 + countAll ts ≤ t.count →
            heightAll ts ≤ t.height → List.Forall₂ (Complete k s (cost k s left (key :: active))) node.children ts := by
          intro ts hts hcount hheight
          refine List.forall₂_iff_get.mpr ⟨hts.length_eq, ?_⟩
          intro i hi hi'
          have hmem := List.get_mem ts ⟨i, hi'⟩
          have hle := count_le_countAll hmem
          have hle' := height_le_heightAll hmem
          exact hvisit (part_children hpart (List.get_mem _ ⟨i, hi⟩)) ((List.forall₂_iff_get.mp hts).2 i hi hi') (by omega) (by omega)
        cases ht with
        | @plain _ ts hr hts =>
          have hcost : (⟨1, 0⟩ : Cost).after ts = (Tree.node ts).cost := by
            rw [cost_node]
            ext
            · rfl
            · exact Nat.max_eq_right (Nat.zero_le _)
          obtain ⟨memo₁, hrun, hknown₁⟩ := costChildren_complete (hchildren hts (by rw [Tree.count]) (by rw [Tree.height])) hknown
            (by rw [hcost]; exact Cost.allowed_iff.mpr hallowed)
          rw [hcost] at hrun
          refine ⟨_, ?_, known_set hknown₁ hpart hkey (.plain hr hts) (Cost.allowed_iff.mpr hallowed)⟩
          simp only [bind_eq_ok, Prod.exists, require_eq_ok, pure_eq_ok]
          exact ⟨_, _, hrun, _, _, by rw [hr]; rfl, (), Cost.allowed_iff.mpr hallowed, rfl⟩
        | @referring _ ref target ts u hr htarget hts hu =>
          have hcount : (Tree.node (ts ++ [u])).count = 1 + countAll ts + u.count := by
            rw [Tree.count, countAll_append, countAll, countAll]
            omega
          have hheight : (Tree.node (ts ++ [u])).height = max (heightAll ts) (u.height + 1) := by
            rw [Tree.height, heightAll_append, heightAll, heightAll]
            omega
          have hcost : ((⟨1, 0⟩ : Cost).after ts).add u.cost = (Tree.node (ts ++ [u])).cost := by
            ext
            · simp only [Cost.add, Cost.after, Tree.cost, hcount]
            · simp only [Cost.add, Cost.after, Tree.cost, hheight]
              omega
          have hpos : 0 < u.count := by
            cases u with
            | node us =>
              rw [Tree.count]
              omega
          have hwithin : ((⟨1, 0⟩ : Cost).after ts).allowed = true := by
            simp only [Tree.cost, hcount, hheight] at hallowed
            rw [Cost.allowed_iff]
            change 1 + countAll ts ≤ maxExpansion ∧ max 0 (heightAll ts) ≤ maxDepth
            omega
          obtain ⟨memo₁, hrun, hknown₁⟩ := costChildren_complete (hchildren hts (by omega) (by omega)) hknown hwithin
          obtain ⟨memo₂, hrun', hknown₂⟩ := hvisit (part_reference htarget) hu (by omega) (by omega) memo₁ hknown₁
          refine ⟨_, ?_, known_set hknown₂ hpart hkey (.referring hr htarget hts hu) (Cost.allowed_iff.mpr hallowed)⟩
          simp only [bind_eq_ok, Prod.exists, require_eq_ok, pure_eq_ok]
          refine ⟨_, _, hrun, _, _, ?_, (), Cost.allowed_iff.mpr hallowed, rfl⟩
          simp only [hr, costRef, bind_eq_ok, Prod.exists, expect_eq_ok, pure_eq_ok]
          exact ⟨target, htarget, _, _, hrun', by rw [hcost]⟩

/-- **The cost of a schema is exact.** `_expansion` returns the number of nodes of the unfolded schema if this is a finite tree of at
most `MAX_EXPANSION` nodes and height at most `MAX_DEPTH`, and raises otherwise. -/
theorem expansion_exact (k : Codec) (s : Schema) (c : Nat) : expansion k s = .ok c ↔
    ∃ t, Unfolding k s s.root t ∧ t.count = c ∧ c ≤ maxExpansion ∧ t.height ≤ maxDepth := by
  have hempty : Known k s ∅ := by
    intro key c hget
    rw [Dict.get_empty] at hget
    cases hget
  constructor
  · intro h
    unfold expansion at h
    cases hcost : cost k s (maxDepth + 1) [] s.root ∅ with
    | error e =>
      rw [hcost] at h
      cases h
    | ok found =>
      obtain ⟨total, memo⟩ := found
      rw [hcost] at h
      obtain rfl := Except.ok.inj h
      obtain ⟨-, t, ht, rfl, hallowed⟩ := cost_sound (maxDepth + 1) [] Part.root ∅ total memo hempty hcost
      obtain ⟨hcount, hheight⟩ := Cost.allowed_iff.mp hallowed
      exact ⟨t, ht, rfl, hcount, hheight⟩
  rintro ⟨t, ht, rfl, hcount, hheight⟩
  have hclear : Clear k s [] t := by
    intro key hmem
    cases hmem
  obtain ⟨memo, hcost, -⟩ := cost_complete (maxDepth + 1) Part.root ht (by omega) (Cost.allowed_iff.mpr ⟨hcount, hheight⟩) hclear ∅ hempty
  rw [expansion, hcost]
  rfl

end LingshuGate.SchemaValidation
