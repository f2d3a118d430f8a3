import LingshuGate.Tools.Structure

/-!
# What the bounded walk measures

`Fits` is what a part of the walk leaves: the counters have grown by the nodes and the bytes of what was walked, they are within
the limits, and so is the depth. The parts of a value are put together with `Fits.split` and `Fits.enter`; the early checks reject
nothing, since a counter that ends within its limit has always been.
-/

namespace LingshuGate.Structure

open Lib
open Lib.Json (width quoteWeight weight nodesItems nodesFields depthItems depthFields)

variable {w : Walk} {c c' : Count} {code : CodePoint} {d : Nat}

/-! ## Strings -/

theorem hexDigit_size : ∀ n < 16, (Json.hexDigit n).utf8Size = 1 := by
  decide

theorem toNat_ne {ch : Char} {n : Nat} {c : Char} (hc : c.toNat = n) (h : ch.toNat ≠ n) : ch ≠ c := by
  rintro rfl
  exact h hc

theorem character_ofNat {ch : Char} (h : character code = some ch) : ch.toNat = code.val := by
  unfold character at h
  split at h
  · rename_i hvalid
    obtain rfl := Option.some.inj h
    rw [Char.ofNat, dif_pos hvalid]
    rfl
  · cases h

/-- A character takes what its escape takes. -/
theorem characterSize_character {ch : Char} (h : ch.toNat = code.val) : characterSize code = .ok (width (Json.escape ch)) := by
  unfold characterSize
  rw [← h]
  have hback : Char.ofNat ch.toNat = ch := Char.ofNat_toNat ch
  by_cases hshort : ch.toNat ∈ [34, 92, 8, 9, 10, 12, 13]
  · rw [if_pos hshort]
    simp only [List.mem_cons, List.not_mem_nil, or_false] at hshort
    rcases hshort with hn | hn | hn | hn | hn | hn | hn
    all_goals
      rw [← hback, hn]
      decide
  rw [if_neg hshort]
  simp only [List.mem_cons, List.not_mem_nil, or_false, not_or] at hshort
  obtain ⟨hquote, hslash, hback, htab, hline, hfeed, hreturn⟩ := hshort
  unfold Json.escape
  rw [if_neg (toNat_ne rfl hquote), if_neg (toNat_ne rfl hslash), if_neg (toNat_ne rfl hline), if_neg (toNat_ne rfl hreturn),
    if_neg (toNat_ne rfl htab), if_neg hback, if_neg hfeed]
  by_cases hcontrol : ch.toNat < 32
  · have hhigh := hexDigit_size (ch.toNat / 16) (by omega)
    have hlow := hexDigit_size (ch.toNat % 16) (by omega)
    have hslashSize : Char.utf8Size '\\' = 1 := by decide
    have huSize : Char.utf8Size 'u' = 1 := by decide
    have hzeroSize : Char.utf8Size '0' = 1 := by decide
    rw [if_pos hcontrol, if_pos hcontrol]
    simp [hhigh, hlow, hslashSize, huSize, hzeroSize]
  rw [if_neg hcontrol, if_neg hcontrol]
  have hvalid : ch.toNat < 0xD800 ∨ 0xDFFF < ch.toNat ∧ ch.toNat < 0x110000 := ch.valid
  have hone := @Char.utf8Size_eq_one_iff ch
  have htwo := @Char.utf8Size_eq_two_iff ch
  have hthree := @Char.utf8Size_eq_three_iff ch
  have hfour := @Char.utf8Size_eq_four_iff ch
  simp only [UInt32.le_iff_toNat_le, UInt32.lt_iff_toNat_lt] at hone htwo hthree hfour
  have hval : ch.val.toNat = ch.toNat := rfl
  simp only [hval, UInt32.reduceToNat] at hone htwo hthree hfour
  rw [if_neg (by omega)]
  simp only [Json.width_cons, Json.width_nil, Nat.add_zero, Except.ok.injEq]
  split
  · exact (hone.mpr (by omega)).symm
  split
  · exact (htwo.mpr (by omega)).symm
  · split
    · exact (hthree.mpr (by omega)).symm
    · exact (hfour.mpr (by omega)).symm

theorem characterSize_ok {n : Nat} : characterSize code = .ok n ↔
    ∃ ch, character code = some ch ∧ n = width (Json.escape ch) := by
  constructor
  · intro h
    cases hch : character code with
    | some ch =>
      rw [characterSize_character (character_ofNat hch)] at h
      exact ⟨ch, rfl, (Except.ok.inj h).symm⟩
    | none =>
      -- a surrogate
      have hsurrogate : ¬code.val.isValidChar := by
        intro hvalid
        simp [character, hvalid] at hch
      have hrange : 0xD800 ≤ code.val ∧ code.val ≤ 0xDFFF := by
        have hlt := code.isLt
        simp only [Nat.isValidChar, not_or, not_and, not_lt] at hsurrogate
        omega
      unfold characterSize at h
      rw [if_neg (by simp only [List.mem_cons, List.not_mem_nil, or_false]; omega), if_neg (by omega), if_pos hrange] at h
      cases h
  · rintro ⟨ch, hch, rfl⟩
    exact characterSize_character (character_ofNat hch)

theorem text_nil : text [] = some "" := rfl

theorem text_cons {s : List CodePoint} {t : String} : text (code :: s) = some t ↔
    ∃ ch t', character code = some ch ∧ text s = some t' ∧ t = String.ofList (ch :: t'.toList) := by
  simp only [text, List.mapM_cons]
  cases character code with
  | none => simp
  | some ch =>
    cases s.mapM character with
    | none => simp
    | some cs =>
      simp only [Option.map_some, Option.bind_eq_bind, Option.bind_some, Option.pure_def, Option.some.injEq]
      constructor
      · rintro rfl
        exact ⟨ch, _, rfl, rfl, by simp⟩
      · rintro ⟨_, _, rfl, rfl, rfl⟩
        simp

/-- The running check rejects no string that fits. -/
theorem addText_ok {maxBytes : Int} {s : List CodePoint} {size size' : Nat} :
    addText maxBytes s size = .ok size' ∧ (size' : Int) ≤ maxBytes ↔
      ∃ t, text s = some t ∧ size' = size + width (t.toList.flatMap Json.escape) ∧ (size' : Int) ≤ maxBytes := by
  induction s generalizing size size' with
  | nil =>
    simp only [addText, text_nil, Except.ok.injEq, Option.some.injEq]
    constructor
    · rintro ⟨rfl, hmax⟩
      exact ⟨"", rfl, rfl, hmax⟩
    · rintro ⟨t, rfl, rfl, hmax⟩
      exact ⟨rfl, hmax⟩
  | cons code s ih =>
    constructor
    · rintro ⟨h, hmax⟩
      rw [addText, bind_eq_ok] at h
      obtain ⟨n, hn, h⟩ := h
      obtain ⟨-, -, h⟩ := bind_eq_ok.mp h
      obtain ⟨ch, hch, rfl⟩ := characterSize_ok.mp hn
      obtain ⟨t, ht, rfl, -⟩ := ih.mp ⟨h, hmax⟩
      refine ⟨_, text_cons.mpr ⟨ch, t, hch, ht, rfl⟩, ?_, hmax⟩
      simp [Nat.add_assoc]
    rintro ⟨whole, hwhole, rfl, hmax⟩
    obtain ⟨ch, t, hch, ht, rfl⟩ := text_cons.mp hwhole
    simp only [String.toList_ofList, List.flatMap_cons, Json.width_append, ← Nat.add_assoc] at hmax ⊢
    obtain ⟨hrest, -⟩ := (@ih (size + width (Json.escape ch)) _).mpr ⟨t, ht, rfl, hmax⟩
    refine ⟨?_, hmax⟩
    rw [addText, bind_eq_ok]
    refine ⟨_, characterSize_ok.mpr ⟨ch, hch, rfl⟩, bind_eq_ok.mpr ⟨(), ?_, hrest⟩⟩
    rw [require_eq_ok, decide_eq_true_eq]
    omega

/-- A string is no longer than its escapes. -/
theorem length_le_width {s : List CodePoint} {t : String} (h : text s = some t) :
    s.length ≤ width (t.toList.flatMap Json.escape) := by
  induction s generalizing t with
  | nil => exact Nat.zero_le _
  | cons code s ih =>
    obtain ⟨ch, t, -, ht, rfl⟩ := text_cons.mp h
    have hpos : 1 ≤ width (Json.escape ch) := Nat.le_trans (Json.length_escape_pos ch) (Json.length_le_width _)
    have hrest := ih ht
    simp only [String.toList_ofList, List.flatMap_cons, Json.width_append, List.length_cons]
    omega

/-! ## Integers -/

/-- An integer with more than four bits for each byte has more digits than bytes. -/
theorem bitLength_le {n : Int} {maxBytes : Int} (h : ((toString n).length : Int) ≤ maxBytes) : (bitLength n : Int) ≤ maxBytes * 4 := by
  have hlength : (Nat.toDigits 10 n.natAbs).length ≤ (toString n).length := by
    rw [← String.length_toList, Json.toString_toList, List.length_append]
    omega
  have hpos : 0 < (Nat.toDigits 10 n.natAbs).length := Nat.length_toDigits_pos
  obtain ⟨k, rfl⟩ : ∃ k : Nat, maxBytes = k := ⟨maxBytes.toNat, by omega⟩
  have hten : n.natAbs < 10 ^ k := (Nat.length_toDigits_le_iff (by omega) (by omega)).mp (by omega)
  have hsixteen : n.natAbs < 2 ^ (k * 4) := by
    calc n.natAbs < 10 ^ k := hten
      _ ≤ 16 ^ k := Nat.pow_le_pow_left (by omega) k
      _ = 2 ^ (k * 4) := by rw [Nat.mul_comm, Nat.pow_mul]
  have hsize : bitLength n ≤ k * 4 := Nat.size_le.mpr hsixteen
  omega

/-! ## Counters -/

/-- From `c` to `c'` the counters have grown by `nodes` and `size`; these and the depth are within the limits. -/
structure Fits (w : Walk) (depth : Nat) (c c' : Count) (nodes size height : Nat) : Prop where
  nodes : c'.nodes = c.nodes + nodes
  size : c'.size = c.size + size
  nodesLe : (c'.nodes : Int) ≤ w.maxNodes
  sizeLe : (c'.size : Int) ≤ w.maxBytes
  depthLe : ((depth + height : Nat) : Int) ≤ w.maxDepth

variable {n m s t h k : Nat}

theorem Fits.add : Fits w d c c' (n + m) (s + t) (max h k) ↔ ∃ c₁, Fits w d c c₁ n s h ∧ Fits w d c₁ c' m t k := by
  constructor
  · rintro ⟨hnodes, hsize, hnodesLe, hsizeLe, hdepthLe⟩
    obtain ⟨c₁, hn, hs⟩ : ∃ c₁ : Count, c₁.nodes = c.nodes + n ∧ c₁.size = c.size + s := ⟨⟨_, _⟩, rfl, rfl⟩
    refine ⟨c₁, ⟨hn, hs, ?_, ?_, ?_⟩, ⟨?_, ?_, hnodesLe, hsizeLe, ?_⟩⟩
    all_goals omega
  · rintro ⟨c₁, ⟨hnodes, hsize, -, -, hdepth⟩, ⟨hnodes', hsize', hnodesLe, hsizeLe, hdepth'⟩⟩
    refine ⟨by omega, by omega, hnodesLe, hsizeLe, by omega⟩

theorem Fits.deeper : Fits w (d + 1) c c' n s h ↔ Fits w d c c' n s (h + 1) := by
  constructor
  all_goals
    rintro ⟨hnodes, hsize, hnodesLe, hsizeLe, hdepth⟩
    exact ⟨hnodes, hsize, hnodesLe, hsizeLe, by omega⟩

/-- A child, one level deeper, and what follows it. -/
theorem Fits.split : Fits w d c c' (n + m) (s + t) (max (h + 1) k) ↔ ∃ c₁, Fits w (d + 1) c c₁ n s h ∧ Fits w d c₁ c' m t k := by
  simp only [Fits.deeper, Fits.add]

/-- A container before its children. -/
theorem Fits.enter : Fits w d c c' (1 + n) (s + t) h ↔ ∃ c₁, Fits w d c c₁ 1 s 0 ∧ Fits w d c₁ c' n t h := by
  rw [← Fits.add, Nat.zero_max]

theorem Fits.within (hfits : Fits w d c c' n s h) : Fits w d c' c' 0 0 0 :=
  ⟨rfl, rfl, hfits.nodesLe, hfits.sizeLe, by have := hfits.depthLe; omega⟩

variable {item : Value}

theorem weigh_ok : w.weigh item d c = .ok c' ↔ w.add c.size item = .ok c'.size ∧ (c'.size : Int) ≤ w.maxBytes ∧
    c'.nodes = c.nodes + 1 ∧ (c'.nodes : Int) ≤ w.maxNodes ∧ (d : Int) ≤ w.maxDepth := by
  unfold Walk.weigh
  simp only [bind_eq_ok, require_eq_ok, pure_eq_ok, Bool.and_eq_true, decide_eq_true_eq]
  constructor
  · rintro ⟨_, ⟨hnodes, hdepth⟩, _, hadd, _, hsize, rfl⟩
    exact ⟨hadd, hsize, rfl, hnodes, hdepth⟩
  · rintro ⟨hadd, hsize, hnodes, hnodesLe, hdepth⟩
    exact ⟨(), ⟨hnodes ▸ hnodesLe, hdepth⟩, _, hadd, (), hsize, Count.ext hnodes.symm rfl⟩

/-- An item whose own size is known, the head of a container. -/
theorem weigh_head {own : Nat} (hadd : ∀ size, w.add size item = .ok (size + own)) :
    w.weigh item d c = .ok c' ↔ Fits w d c c' 1 own 0 := by
  rw [weigh_ok, hadd, Except.ok.injEq]
  constructor
  · rintro ⟨hsize, hsizeLe, hnodes, hnodesLe, hdepth⟩
    exact ⟨hnodes, hsize.symm, hnodesLe, hsizeLe, hdepth⟩
  · rintro ⟨hnodes, hsize, hnodesLe, hsizeLe, hdepth⟩
    exact ⟨hsize.symm, hsizeLe, hnodes, hnodesLe, hdepth⟩

/-! ## Items without children -/

def isLeaf : Value → Bool
  | .list _ | .tuple _ | .dict _ | .proxy _ => false
  | _ => true

variable {immutable : Bool}

theorem leaf_shape {j : Json} (hleaf : isLeaf item = true) (h : json immutable item = some j) : j.nodes = 1 ∧ j.depth = 0 := by
  cases item with
  | none | bool b | int n =>
    obtain rfl := Option.some.inj h
    exact ⟨rfl, rfl⟩
  | float x =>
    simp only [json] at h
    split at h
    · obtain rfl := Option.some.inj h
      exact ⟨rfl, rfl⟩
    · cases h
  | str s =>
    obtain ⟨t, -, rfl⟩ := Option.map_eq_some_iff.mp h
    exact ⟨rfl, rfl⟩
  | other => cases h
  | list items | tuple items | dict fields | proxy fields => cases hleaf

/-- What is added for a leaf is the length of its text, and the early checks reject none that fits. -/
theorem add_leaf {size size' : Nat} (hleaf : isLeaf item = true) : w.add size item = .ok size' ∧ (size' : Int) ≤ w.maxBytes ↔
      ∃ j, json w.immutable item = some j ∧ size' = size + j.weight ∧ (size' : Int) ≤ w.maxBytes := by
  cases item with
  | none =>
    simp only [Walk.add, json, Except.ok.injEq, Option.some.injEq, exists_eq_left', Json.weight_null]
    simp [eq_comm]
  | bool b =>
    simp only [Walk.add, json, Except.ok.injEq, Option.some.injEq, exists_eq_left', Json.weight_bool]
    simp [eq_comm]
  | int n =>
    simp only [Walk.add, json, bind_eq_ok, require_eq_ok, pure_eq_ok, decide_eq_true_eq, Option.some.injEq, exists_eq_left',
      Json.weight_int]
    constructor
    · rintro ⟨⟨_, _, hsize⟩, hmax⟩
      exact ⟨hsize.symm, hmax⟩
    · rintro ⟨rfl, hmax⟩
      exact ⟨⟨(), bitLength_le (by omega), rfl⟩, hmax⟩
  | float x =>
    have hweight : Json.weight (.float x.text) = x.text.length := by
      rw [Json.weight_eq, Json.compactChars, Json.width_ascii x.ascii, String.length_toList]
    simp only [Walk.add, json]
    by_cases hfinite : x.isFinite = true
    · simp only [if_pos hfinite, Except.ok.injEq, Option.some.injEq, exists_eq_left', hweight]
      simp [eq_comm]
    · simp [if_neg hfinite]
  | str s =>
    simp only [Walk.add, json, bind_eq_ok, require_eq_ok, decide_eq_true_eq, Option.map_eq_some_iff]
    constructor
    · rintro ⟨⟨_, -, hadd⟩, hmax⟩
      obtain ⟨t, ht, hsize, -⟩ := addText_ok.mp ⟨hadd, hmax⟩
      refine ⟨.str t, ⟨t, ht, rfl⟩, ?_, hmax⟩
      rw [Json.weight_str, Json.quoteWeight_eq]
      omega
    rintro ⟨j, ⟨t, ht, rfl⟩, hsize, hmax⟩
    rw [Json.weight_str, Json.quoteWeight_eq, ← Nat.add_assoc] at hsize
    obtain ⟨hadd, -⟩ := addText_ok.mpr ⟨t, ht, hsize, hmax⟩
    have hlength := length_le_width ht
    exact ⟨⟨(), by omega, hadd⟩, hmax⟩
  | other => simp [Walk.add, json]
  | list items | tuple items | dict fields | proxy fields => simp [isLeaf] at hleaf

theorem weigh_leaf (hleaf : isLeaf item = true) : w.weigh item d c = .ok c' ↔
    ∃ j, json w.immutable item = some j ∧ Fits w d c c' j.nodes j.weight j.depth := by
  rw [weigh_ok]
  constructor
  · rintro ⟨hadd, hsizeLe, hnodes, hnodesLe, hdepth⟩
    obtain ⟨j, hj, hsize, -⟩ := (add_leaf hleaf).mp ⟨hadd, hsizeLe⟩
    obtain ⟨hone, hflat⟩ := leaf_shape hleaf hj
    exact ⟨j, hj, by omega, hsize, hnodesLe, hsizeLe, by omega⟩
  · rintro ⟨j, hj, hnodes, hsize, hnodesLe, hsizeLe, hdepth⟩
    obtain ⟨hone, hflat⟩ := leaf_shape hleaf hj
    obtain ⟨hadd, -⟩ := (add_leaf hleaf).mpr ⟨j, hj, hsize, hsizeLe⟩
    exact ⟨hadd, hsizeLe, by omega, hnodesLe, by omega⟩

/-! ## Containers -/

variable {items : List Value}

theorem jsonItems_cons {child : Value} {js : List Json} : jsonItems immutable (child :: items) = some js ↔
      ∃ j js', json immutable child = some j ∧ jsonItems immutable items = some js' ∧ js = j :: js' := by
  simp only [jsonItems, Option.bind_eq_bind, Option.bind_eq_some_iff, Option.pure_def, Option.some.injEq]
  constructor
  · rintro ⟨j, hj, js', hjs', rfl⟩
    exact ⟨j, js', hj, hjs', rfl⟩
  · rintro ⟨j, js', hj, hjs', rfl⟩
    exact ⟨j, hj, js', hjs', rfl⟩

variable {fields : List (Value × Value)}

theorem jsonFields_cons {key child : Value} {kvs : List (String × Json)} :
    jsonFields immutable ((key, child) :: fields) = some kvs ↔
      ∃ s t j kvs', key = .str s ∧ text s = some t ∧ json immutable child = some j ∧ jsonFields immutable fields = some kvs' ∧
        kvs = (t, j) :: kvs' := by
  cases key with
  | str s =>
    simp only [jsonFields, Option.bind_eq_bind, Option.bind_eq_some_iff, Option.pure_def, Option.some.injEq]
    constructor
    · rintro ⟨t, ht, j, hj, kvs', hkvs', rfl⟩
      exact ⟨s, t, j, kvs', rfl, ht, hj, hkvs', rfl⟩
    · rintro ⟨_, t, j, kvs', hkey, ht, hj, hkvs', rfl⟩
      obtain rfl := Value.str.inj hkey
      exact ⟨t, ht, j, hj, kvs', hkvs', rfl⟩
  | none | bool b | int n | float x | list items | tuple items | dict fields | proxy fields | other => simp [jsonFields]

theorem length_jsonItems {js : List Json} (h : jsonItems immutable items = some js) : js.length = items.length := by
  induction items generalizing js with
  | nil =>
    obtain rfl := Option.some.inj h
    rfl
  | cons child items ih =>
    obtain ⟨j, js, -, hjs, rfl⟩ := jsonItems_cons.mp h
    simp [ih hjs]

theorem length_jsonFields {kvs : List (String × Json)}
    (h : jsonFields immutable fields = some kvs) : kvs.length = fields.length := by
  induction fields generalizing kvs with
  | nil =>
    obtain rfl := Option.some.inj h
    rfl
  | cons field fields ih =>
    obtain ⟨s, t, j, kvs, -, -, -, hkvs, rfl⟩ := jsonFields_cons.mp h
    simp [ih hkvs]

/-- The sum over the items of an array. -/
def weightItems (js : List Json) : Nat := (js.map weight).sum

def weightFields (kvs : List (String × Json)) : Nat := (kvs.map fun kv => quoteWeight kv.1 + weight kv.2).sum

theorem frozenItems_eq (items : List Value) : frozenItems items = items.map frozen := by
  induction items with
  | nil => rfl
  | cons child items ih => rw [frozenItems, ih, List.map_cons]

theorem frozenFields_eq (fields : List (Value × Value)) : frozenFields fields = fields.map fun kv => (kv.1, frozen kv.2) := by
  induction fields with
  | nil => rfl
  | cons field fields ih => rw [frozenFields, ih, List.map_cons]

/-- The children a walk returns count only where it freezes. -/
theorem result_tuple (items : List Value) : w.result (.tuple (items.map (w.result ∘ frozen))) = w.result (.tuple (frozenItems items)) := by
  unfold Walk.result
  by_cases hfreeze : w.freeze = true
  · simp only [if_pos hfreeze, frozenItems_eq]
    rfl
  · simp only [if_neg hfreeze]

theorem result_proxy (fields : List (Value × Value)) :
    w.result (.proxy (fields.map fun kv => (kv.1, w.result (frozen kv.2)))) = w.result (.proxy (frozenFields fields)) := by
  unfold Walk.result
  by_cases hfreeze : w.freeze = true
  · simp only [if_pos hfreeze, frozenFields_eq]
  · simp only [if_neg hfreeze]

/-- What a loop over the children does, at the level of the container; `js` is what the children are as JSON. -/
def LoopOk {κ ρ : Type} (w : Walk) (loop : Nat → Count → Except String (Count × ρ)) (js : Option κ) (nodes size height : κ → Nat)
    (children : ρ) : Prop := ∀ d c c' rs, Fits w d c c 0 0 0 →
  (loop (d + 1) c = .ok (c', rs) ↔ ∃ j, js = some j ∧ Fits w d c c' (nodes j) (size j) (height j) ∧ rs = children)

def ItemsOk (w : Walk) (items : List Value) : Prop :=
  LoopOk w (visitItems w items) (jsonItems w.immutable items) nodesItems weightItems depthItems (items.map (w.result ∘ frozen))

def FieldsOk (w : Walk) (fields : List (Value × Value)) : Prop :=
  LoopOk w (visitFields w fields) (jsonFields w.immutable fields) nodesFields weightFields depthFields
    (fields.map fun kv => (kv.1, w.result (frozen kv.2)))

/-- What the visit of an item does. -/
def ItemOk (w : Walk) (item : Value) : Prop := ∀ d c c' r, visit w item d c = .ok (c', r) ↔
  ∃ j, json w.immutable item = some j ∧ Fits w d c c' j.nodes j.weight j.depth ∧ r = w.result (frozen item)

theorem visit_leaf {item : Value} (hleaf : isLeaf item = true) (hvisit : ∀ d c, visit w item d c = (do
    let c ← w.weigh item d c
    return (c, w.result item))) (hfrozen : frozen item = item) : ItemOk w item := by
  intro d c c' r
  rw [hvisit, hfrozen]
  simp only [bind_eq_ok, pure_eq_ok, Prod.mk.injEq, weigh_leaf hleaf]
  constructor
  · rintro ⟨c₁, ⟨j, hj, hfits⟩, rfl, rfl⟩
    exact ⟨j, hj, hfits, rfl⟩
  · rintro ⟨j, hj, hfits, rfl⟩
    exact ⟨c', ⟨j, hj, hfits⟩, rfl, rfl⟩

/-- A container of the wrong type is refused. -/
theorem weigh_refused (hadd : ∀ size, w.add size item = .error nonJson) : w.weigh item d c ≠ .ok c' := by
  intro hweigh
  rw [weigh_ok, hadd] at hweigh
  cases hweigh.1

theorem LoopOk.nil {κ ρ : Type} {loop : Nat → Count → Except String (Count × ρ)} {j : κ} {nodes size height : κ → Nat} {children : ρ}
    (hloop : ∀ d c, loop d c = .ok (c, children)) (hnodes : nodes j = 0) (hsize : size j = 0) (hheight : height j = 0) :
    LoopOk w loop (some j) nodes size height children := by
  intro d c c' rs hwithin
  simp only [hloop, Except.ok.injEq, Prod.mk.injEq, Option.some.injEq, exists_eq_left', hnodes, hsize, hheight]
  constructor
  · rintro ⟨rfl, rfl⟩
    exact ⟨hwithin, rfl⟩
  · rintro ⟨⟨hnodes, hsize, -, -, -⟩, rfl⟩
    exact ⟨Count.ext hnodes.symm hsize.symm, rfl⟩

theorem itemsOk_cons {child : Value} (hchild : ItemOk w child) (hitems : ItemsOk w items) : ItemsOk w (child :: items) := by
  intro d c c' rs hwithin
  simp only [visitItems, bind_eq_ok, pure_eq_ok, Prod.exists, Prod.mk.injEq, List.map_cons]
  constructor
  · rintro ⟨c₁, r, hvisit, c₂, rs, hrest, rfl, rfl⟩
    obtain ⟨j, hj, hfits, rfl⟩ := (hchild _ _ _ _).mp hvisit
    have hhere : Fits w d c₁ c₁ 0 0 0 := ⟨rfl, rfl, hfits.nodesLe, hfits.sizeLe, hwithin.depthLe⟩
    obtain ⟨js, hjs, hfits', rfl⟩ := (hitems _ _ _ _ hhere).mp hrest
    exact ⟨j :: js, jsonItems_cons.mpr ⟨j, js, hj, hjs, rfl⟩, Fits.split.mpr ⟨c₁, hfits, hfits'⟩, rfl⟩
  rintro ⟨whole, hwhole, hfits, rfl⟩
  obtain ⟨j, js, hj, hjs, rfl⟩ := jsonItems_cons.mp hwhole
  obtain ⟨c₁, hfits, hfits'⟩ := Fits.split.mp hfits
  have hhere : Fits w d c₁ c₁ 0 0 0 := ⟨rfl, rfl, hfits.nodesLe, hfits.sizeLe, hwithin.depthLe⟩
  exact ⟨c₁, _, (hchild _ _ _ _).mpr ⟨j, hj, hfits, rfl⟩, c', _, (hitems _ _ _ _ hhere).mpr ⟨js, hjs, hfits', rfl⟩, rfl, rfl⟩

theorem fieldsOk_cons {key child : Value} (hkey : ItemOk w key) (hchild : ItemOk w child)
    (hfields : FieldsOk w fields) : FieldsOk w ((key, child) :: fields) := by
  intro d c c' rs hwithin
  simp only [visitFields, bind_eq_ok, pure_eq_ok, Prod.exists, Prod.mk.injEq, List.map_cons, require_eq_ok]
  have hheight : ∀ j : Json, ∀ kvs t, depthFields ((t, j) :: kvs) = max (0 + 1) (max (j.depth + 1) (depthFields kvs)) := by
    intro j kvs t
    rw [depthFields]
    omega
  constructor
  · rintro ⟨_, hstr, c₁, _, hvisitKey, c₂, r, hvisit, c₃, rs, hrest, rfl, rfl⟩
    obtain ⟨k, hk, hfitsKey, -⟩ := (hkey _ _ _ _).mp hvisitKey
    obtain ⟨j, hj, hfits, rfl⟩ := (hchild _ _ _ _).mp hvisit
    have hhere : Fits w d c₂ c₂ 0 0 0 := ⟨rfl, rfl, hfits.nodesLe, hfits.sizeLe, hwithin.depthLe⟩
    obtain ⟨kvs, hkvs, hfits', rfl⟩ := (hfields _ _ _ _ hhere).mp hrest
    cases key with
    | str s =>
      obtain ⟨t, ht, rfl⟩ := Option.map_eq_some_iff.mp hk
      refine ⟨(t, j) :: kvs, jsonFields_cons.mpr ⟨s, t, j, kvs, rfl, ht, hj, hkvs, rfl⟩, ?_, rfl⟩
      rw [hheight, nodesFields, weightFields, List.map_cons, List.sum_cons, Nat.add_assoc, Nat.add_assoc, ← Json.weight_str]
      exact Fits.split.mpr ⟨c₁, hfitsKey, Fits.split.mpr ⟨c₂, hfits, hfits'⟩⟩
    | none | bool b | int n | float x | list items | tuple items | dict fields | proxy fields | other => cases hstr
  rintro ⟨whole, hwhole, hfits, rfl⟩
  obtain ⟨s, t, j, kvs, rfl, ht, hj, hkvs, rfl⟩ := jsonFields_cons.mp hwhole
  rw [hheight, nodesFields, weightFields, List.map_cons, List.sum_cons, Nat.add_assoc, Nat.add_assoc, ← Json.weight_str] at hfits
  obtain ⟨c₁, hfitsKey, hfits⟩ := Fits.split.mp hfits
  obtain ⟨c₂, hfits, hfits'⟩ := Fits.split.mp hfits
  have hhere : Fits w d c₂ c₂ 0 0 0 := ⟨rfl, rfl, hfits.nodesLe, hfits.sizeLe, hwithin.depthLe⟩
  have hk : json w.immutable (.str s) = some (.str t) := Option.map_eq_some_iff.mpr ⟨t, ht, rfl⟩
  exact ⟨(), rfl, c₁, _, (hkey _ _ _ _).mpr ⟨.str t, hk, hfitsKey, rfl⟩, c₂, _, (hchild _ _ _ _).mpr ⟨j, hj, hfits, rfl⟩, c', _,
    (hfields _ _ _ _ hhere).mpr ⟨kvs, hkvs, hfits', rfl⟩, rfl, rfl⟩

section Container

variable {κ ρ : Type} {loop : Nat → Count → Except String (Count × ρ)} {js : Option κ} {nodes size height : κ → Nat} {children : ρ}
  {wrap : ρ → Value} {made : κ → Json} {own : Nat}

/-- A container of a type that the walk does not take is refused before its children. -/
theorem visit_container (hloop : LoopOk w loop js nodes size height children)
    (hvisit : ∀ d c, visit w item d c = (do
      let c ← w.weigh item d c
      let (c, children) ← loop (d + 1) c
      return (c, w.result (wrap children))))
    (hresult : w.result (wrap children) = w.result (frozen item))
    (hmade : ∀ j, js = some j → (made j).nodes = 1 + nodes j ∧ (made j).weight = own + size j ∧ (made j).depth = height j)
    (hkind : (∀ size, w.add size item = .ok (size + own)) ∧ json w.immutable item = js.map made ∨
      (∀ size, w.add size item = .error nonJson) ∧ json w.immutable item = none) : ItemOk w item := by
  intro d c c' r
  rw [hvisit, ← hresult]
  simp only [bind_eq_ok, pure_eq_ok, Prod.exists, Prod.mk.injEq]
  rcases hkind with ⟨hadd, hjson⟩ | ⟨hadd, hjson⟩
  · simp only [hjson, weigh_head hadd, Option.map_eq_some_iff]
    constructor
    · rintro ⟨c₁, hhead, c₂, rs, hrest, rfl, rfl⟩
      obtain ⟨j, hj, hfits, hrs⟩ := (hloop _ _ _ _ hhead.within).mp hrest
      obtain ⟨hnodes, hsize, hheight⟩ := hmade j hj
      refine ⟨made j, ⟨j, hj, rfl⟩, ?_, by rw [hrs]⟩
      rw [hnodes, hsize, hheight]
      exact Fits.enter.mpr ⟨c₁, hhead, hfits⟩
    rintro ⟨_, ⟨j, hj, rfl⟩, hfits, rfl⟩
    obtain ⟨hnodes, hsize, hheight⟩ := hmade j hj
    rw [hnodes, hsize, hheight] at hfits
    obtain ⟨c₁, hhead, hfits⟩ := Fits.enter.mp hfits
    exact ⟨c₁, hhead, c', _, (hloop _ _ _ _ hhead.within).mpr ⟨j, hj, hfits, rfl⟩, rfl, rfl⟩
  rw [hjson]
  constructor
  · rintro ⟨c₁, hweigh, _⟩
    exact absurd hweigh (weigh_refused hadd)
  · rintro ⟨j, hj, _⟩
    cases hj

end Container

theorem array_size (js : List Json) (h : jsonItems immutable items = some js) : (Json.arr js).nodes = 1 + nodesItems js ∧
    (Json.arr js).weight = 2 + (items.length - 1) + weightItems js ∧ (Json.arr js).depth = depthItems js := by
  rw [Json.nodes, Json.depth, Json.weight_arr, length_jsonItems h]
  exact ⟨rfl, rfl, rfl⟩

theorem object_size (kvs : List (String × Json)) (h : jsonFields immutable fields = some kvs) :
    (Json.obj kvs).nodes = 1 + nodesFields kvs ∧
      (Json.obj kvs).weight = 2 + fields.length + (fields.length - 1) + weightFields kvs ∧ (Json.obj kvs).depth = depthFields kvs := by
  rw [Json.nodes, Json.depth, Json.weight_obj, length_jsonFields h]
  exact ⟨rfl, rfl, rfl⟩

mutual

/-- The walk succeeds on the values that are JSON and fit, with their weight and their nodes. -/
theorem visit_ok (w : Walk) : ∀ item, ItemOk w item
  | .dict fields =>
    visit_container (visitFields_ok w fields) (fun _ _ => rfl) (result_proxy fields) object_size (.inl ⟨fun _ => rfl, rfl⟩)
  | .proxy fields => by
    refine visit_container (visitFields_ok w fields) (fun _ _ => rfl) (result_proxy fields) object_size ?_
    by_cases himmutable : w.immutable = true
    · exact .inl ⟨fun _ => if_pos himmutable, if_pos himmutable⟩
    · exact .inr ⟨fun _ => if_neg himmutable, if_neg himmutable⟩
  | .list items => by
    refine visit_container (visitItems_ok w items) (fun _ _ => rfl) (result_tuple items) array_size ?_
    by_cases himmutable : w.immutable = true
    · exact .inr ⟨fun _ => if_pos himmutable, if_pos himmutable⟩
    · exact .inl ⟨fun _ => if_neg himmutable, if_neg himmutable⟩
  | .tuple items => by
    refine visit_container (visitItems_ok w items) (fun _ _ => rfl) (result_tuple items) array_size ?_
    by_cases himmutable : w.immutable = true
    · exact .inl ⟨fun _ => if_pos himmutable, if_pos himmutable⟩
    · exact .inr ⟨fun _ => if_neg himmutable, if_neg himmutable⟩
  | .none => visit_leaf rfl (fun _ _ => rfl) rfl
  | .bool _ => visit_leaf rfl (fun _ _ => rfl) rfl
  | .int _ => visit_leaf rfl (fun _ _ => rfl) rfl
  | .float _ => visit_leaf rfl (fun _ _ => rfl) rfl
  | .str _ => visit_leaf rfl (fun _ _ => rfl) rfl
  | .other => visit_leaf rfl (fun _ _ => rfl) rfl

theorem visitItems_ok (w : Walk) : ∀ items, ItemsOk w items
  | [] => .nil (fun _ _ => rfl) rfl rfl rfl
  | child :: items => itemsOk_cons (visit_ok w child) (visitItems_ok w items)

theorem visitFields_ok (w : Walk) : ∀ fields, FieldsOk w fields
  | [] => .nil (fun _ _ => rfl) rfl rfl rfl
  | (key, child) :: fields => fieldsOk_cons (visit_ok w key) (visit_ok w child) (visitFields_ok w fields)

end

/-! ## The two entry points -/

/-- The limits as a property of a JSON value. -/
structure Within (l : Limits) (j : Json) : Prop where
  bytes : (j.weight : Int) ≤ l.maxBytes
  nodes : (j.nodes : Int) ≤ l.maxNodes
  depth : (j.depth : Int) ≤ l.maxDepth

variable {value r : Value}

theorem walkJson_ok {n : Nat} : walkJson w value = .ok (n, r) ↔
    ∃ j, json w.immutable value = some j ∧ Within w.toLimits j ∧ n = j.weight ∧ r = w.result (frozen value) := by
  simp only [walkJson, bind_eq_ok, pure_eq_ok, Prod.exists, Prod.mk.injEq]
  constructor
  · rintro ⟨c, r, hvisit, rfl, rfl⟩
    obtain ⟨j, hj, ⟨hnodes, hsize, hnodesLe, hsizeLe, hdepthLe⟩, rfl⟩ := (visit_ok w value _ _ _ _).mp hvisit
    simp only [Nat.zero_add] at hnodes hsize hdepthLe
    exact ⟨j, hj, ⟨hsize ▸ hsizeLe, hnodes ▸ hnodesLe, hdepthLe⟩, hsize, rfl⟩
  · rintro ⟨j, hj, ⟨hbytes, hnodes, hdepth⟩, rfl, rfl⟩
    refine ⟨⟨j.nodes, j.weight⟩, _, (visit_ok w value _ _ _ _).mpr ⟨j, hj, ⟨?_, ?_, hnodes, hbytes, ?_⟩, rfl⟩, rfl, rfl⟩
    all_goals simp [hdepth]

mutual

/-- A copy of what was frozen of a JSON value is the value. -/
theorem copy_frozen : ∀ {value : Value} {j : Json}, json false value = some j → copyJson (frozen value) = value
  | .dict fields, j, h => by
    obtain ⟨kvs, hkvs, -⟩ := Option.map_eq_some_iff.mp h
    rw [frozen, copyJson, copyFields_frozen hkvs]
  | .list items, j, h => by
    obtain ⟨js, hjs, -⟩ := Option.map_eq_some_iff.mp h
    rw [frozen, copyJson, copyItems_frozen hjs]
  | .tuple _, _, h => nomatch h
  | .proxy _, _, h => nomatch h
  | .none, _, _ => rfl
  | .bool _, _, _ => rfl
  | .int _, _, _ => rfl
  | .float _, _, _ => rfl
  | .str _, _, _ => rfl
  | .other, _, _ => rfl

theorem copyItems_frozen : ∀ {items : List Value} {js : List Json}, jsonItems false items = some js →
    copyItems (frozenItems items) = items
  | [], _, _ => rfl
  | child :: items, js, h => by
    obtain ⟨j, js, hj, hjs, -⟩ := jsonItems_cons.mp h
    rw [frozenItems, copyItems, copy_frozen hj, copyItems_frozen hjs]

theorem copyFields_frozen : ∀ {fields : List (Value × Value)} {kvs : List (String × Json)}, jsonFields false fields = some kvs →
    copyFields (frozenFields fields) = fields
  | [], _, _ => rfl
  | (key, child) :: fields, kvs, h => by
    obtain ⟨s, t, j, kvs, -, -, hj, hkvs, -⟩ := jsonFields_cons.mp h
    rw [frozenFields, copyFields, copy_frozen hj, copyFields_frozen hkvs]

end

variable {l : Limits}

theorem checkedJsonSize_ok {value : Value} {n : Nat} : checkedJsonSize value l = .ok n ↔
    ∃ j, json false value = some j ∧ Within l j ∧ n = j.weight := by
  have hmap : checkedJsonSize value l = .ok n ↔ ∃ r, walkJson { l with freeze := false } value = .ok (n, r) := by
    unfold checkedJsonSize
    cases hwalk : walkJson { l with freeze := false } value with
    | error e => simp [Except.map]
    | ok found =>
      obtain ⟨m, r⟩ := found
      simp [Except.map]
  rw [hmap]
  simp only [walkJson_ok]
  constructor
  · rintro ⟨r, j, hj, hwithin, rfl, -⟩
    exact ⟨j, hj, hwithin, rfl⟩
  · rintro ⟨j, hj, hwithin, rfl⟩
    exact ⟨_, j, hj, hwithin, rfl, rfl⟩

theorem freezeJson_ok {n : Nat} : freezeJson value l = .ok (n, r) ↔
    ∃ j, json false value = some j ∧ Within l j ∧ n = j.weight ∧ r = frozen value := by
  unfold freezeJson
  rw [walkJson_ok]
  rfl

theorem copyBoundedJson_ok : copyBoundedJson value l = .ok r ↔ ∃ j, json false value = some j ∧ Within l j ∧ r = value := by
  simp only [copyBoundedJson, bind_eq_ok, pure_eq_ok, Prod.exists, freezeJson_ok]
  constructor
  · rintro ⟨n, _, ⟨j, hj, hwithin, rfl, rfl⟩, rfl⟩
    exact ⟨j, hj, hwithin, copy_frozen hj⟩
  · rintro ⟨j, hj, hwithin, rfl⟩
    exact ⟨_, _, ⟨j, hj, hwithin, rfl, rfl⟩, copy_frozen hj⟩

/-- **The bounded measure is exact.** `checked_json_size` returns `n` for the JSON values whose compact text has `n` bytes and that
are within the limits, and for no others; `copy_bounded_json` succeeds on the same values, and returns them. -/
theorem measure_exact (value : Value) (l : Limits) :
    (∀ n, checkedJsonSize value l = .ok n ↔
      ∃ j, json false value = some j ∧ n = (Framing.utf8 j.compact).length ∧ (n : Int) ≤ l.maxBytes ∧ (j.nodes : Int) ≤ l.maxNodes ∧
        (j.depth : Int) ≤ l.maxDepth) ∧
    ((∃ copy, copyBoundedJson value l = .ok copy) ↔ ∃ n, checkedJsonSize value l = .ok n) ∧
    ∀ copy, copyBoundedJson value l = .ok copy → copy = value := by
  refine ⟨?_, ?_, ?_⟩
  · intro n
    rw [checkedJsonSize_ok]
    constructor
    · rintro ⟨j, hj, ⟨hbytes, hnodes, hdepth⟩, rfl⟩
      exact ⟨j, hj, rfl, hbytes, hnodes, hdepth⟩
    · rintro ⟨j, hj, rfl, hbytes, hnodes, hdepth⟩
      exact ⟨j, hj, ⟨hbytes, hnodes, hdepth⟩, rfl⟩
  · constructor
    · rintro ⟨copy, hcopy⟩
      obtain ⟨j, hj, hwithin, -⟩ := copyBoundedJson_ok.mp hcopy
      exact ⟨j.weight, checkedJsonSize_ok.mpr ⟨j, hj, hwithin, rfl⟩⟩
    · rintro ⟨n, hsize⟩
      obtain ⟨j, hj, hwithin, -⟩ := checkedJsonSize_ok.mp hsize
      exact ⟨value, copyBoundedJson_ok.mpr ⟨j, hj, hwithin, rfl⟩⟩
  · intro copy hcopy
    obtain ⟨j, -, -, hsame⟩ := copyBoundedJson_ok.mp hcopy
    exact hsame

end LingshuGate.Structure
