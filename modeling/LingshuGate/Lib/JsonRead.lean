import LingshuGate.Lib.JsonText

/-!
# Reading JSON text

`loads` is `json.loads(text, object_pairs_hook=members)`; `float` is `repr(float(literal))`. A text is read by its first
characters, with no more calls than it has characters. The characters of a number are taken together and then judged: what the
grammar leaves over of them could not be followed by anything. A lone surrogate, which an escape can name, is no character here,
so a text with one is not read.

`loads_compact`: the compact text of a value is read back, if its floats are spelled as `repr` does and the hook takes its objects.
-/

namespace Lib.JsonRead

/-- How `json.loads(text)` ends: with a value, a `JSONDecodeError`, the plain `ValueError` of an integer of too many digits, or the
`RecursionError` of too deep nesting. -/
inductive Loaded
  | value (v : Json)
  | decodeError
  | valueError
  | recursionError

structure Reader where
  float : String → String
  members : List (String × Json) → Option (List (String × Json))

def isSpace (c : Char) : Bool := c = ' ' || c = '\t' || c = '\n' || c = '\r'

def skip (cs : List Char) : List Char := cs.dropWhile isSpace

/-! ## Strings -/

def hexValue (c : Char) : Option Nat :=
  if '0' ≤ c ∧ c ≤ '9' then some (c.toNat - 48)
  else if 'a' ≤ c ∧ c ≤ 'f' then some (c.toNat - 87)
  else if 'A' ≤ c ∧ c ≤ 'F' then some (c.toNat - 55)
  else none

def hex4 (a b c d : Char) : Option Nat := do
  let a ← hexValue a
  let b ← hexValue b
  let c ← hexValue c
  let d ← hexValue d
  return ((a * 16 + b) * 16 + c) * 16 + d

def unescape (c : Char) : Option Char :=
  if c = '"' then some '"'
  else if c = '\\' then some '\\'
  else if c = '/' then some '/'
  else if c = 'b' then some (Char.ofNat 8)
  else if c = 'f' then some (Char.ofNat 12)
  else if c = 'n' then some '\n'
  else if c = 'r' then some '\r'
  else if c = 't' then some '\t'
  else none

def isHigh (n : Nat) : Bool := 0xD800 ≤ n && n ≤ 0xDBFF

def isLow (n : Nat) : Bool := 0xDC00 ≤ n && n ≤ 0xDFFF

/-- One more character of a string. -/
def push (c : Char) (read : Option (List Char × List Char)) : Option (List Char × List Char) :=
  read.map fun found => (c :: found.1, found.2)

/-- The characters up to the closing quote, and what follows it; `high` is the first half of a pair, if the second is due. -/
def stringBody (high : Option Nat) : List Char → Option (List Char × List Char)
  | [] => none
  | '\\' :: 'u' :: a :: b :: c :: d :: rest =>
    match hex4 a b c d, high with
    | none, _ => none
    | some n, none =>
      if isHigh n then stringBody (some n) rest
      else if isLow n then none
      else push (Char.ofNat n) (stringBody none rest)
    | some n, some m => if isLow n then push (Char.ofNat (0x10000 + (m - 0xD800) * 0x400 + (n - 0xDC00))) (stringBody none rest) else none
  | '\\' :: c :: rest =>
    match unescape c, high with
    | some c, none => push c (stringBody none rest)
    | _, _ => none
  | c :: rest =>
    if high.isSome then none
    else if c = '"' then some ([], rest)
    else if c.toNat < 32 then none
    else push c (stringBody none rest)

/-! ## Numbers -/

def isNumberChar (c : Char) : Bool := c.isDigit || c = '-' || c = '+' || c = '.' || c = 'e' || c = 'E'

/-- `(\.[0-9]+)?`, and what follows. -/
def fraction : List Char → Option (List Char)
  | '.' :: cs => if cs.takeWhile Char.isDigit = [] then none else some (cs.dropWhile Char.isDigit)
  | cs => some cs

/-- `([eE][-+]?[0-9]+)?`, and what follows. -/
def exponent : List Char → Option (List Char)
  | [] => some []
  | c :: cs =>
    if c = 'e' || c = 'E' then
      let digits := match cs with
        | [] => []
        | s :: ds => if s = '-' || s = '+' then ds else s :: ds
      if digits.takeWhile Char.isDigit = [] then none else some (digits.dropWhile Char.isDigit)
    else some (c :: cs)

def sign : List Char → Bool × List Char
  | [] => (false, [])
  | c :: cs => if c = '-' then (true, cs) else (false, c :: cs)

/-- `0|[1-9][0-9]*` -/
def isInteger (digits : List Char) : Bool := digits ≠ [] && (digits = ['0'] || digits.head? ≠ some '0')

def numberValue (r : Reader) (token : List Char) : Option Json :=
  let body := (sign token).2
  let digits := body.takeWhile Char.isDigit
  let tail := body.dropWhile Char.isDigit
  if isInteger digits then
    if tail = [] then
      some (.int (if (sign token).1 then -(Nat.ofDigitChars 10 digits 0 : Int) else Nat.ofDigitChars 10 digits 0))
    else if (fraction tail).bind exponent = some [] then some (.float (r.float (String.ofList token)))
    else none
  else none

/-! ## Values -/

def words : List (String × Json) :=
  [("null", .null), ("true", .bool true), ("false", .bool false), ("NaN", .float "nan"), ("Infinity", .float "inf"),
    ("-Infinity", .float "-inf")]

def scalar (r : Reader) (cs : List Char) : Option (Json × List Char) :=
  match words.find? fun word => word.1.toList.isPrefixOf cs with
  | some word => some (word.2, cs.drop word.1.length)
  | none => (numberValue r (cs.takeWhile isNumberChar)).map fun v => (v, cs.dropWhile isNumberChar)

mutual

def value (r : Reader) : Nat → List Char → Option (Json × List Char)
  | 0, _ => none
  | _ + 1, [] => none
  | n + 1, c :: rest =>
    if c = '"' then (stringBody none rest).map fun found => (.str (String.ofList found.1), found.2)
    else if c = '[' then
      match skip rest with
      | [] => none
      | d :: rest =>
        if d = ']' then some (.arr [], rest)
        else (items r n (d :: rest)).map fun found => (.arr found.1, found.2)
    else if c = '\x7b' then
      match skip rest with
      | [] => none
      | d :: rest =>
        if d = '\x7d' then (r.members []).map fun kvs => (.obj kvs, rest)
        else do
          let (kvs, rest) ← fields r n (d :: rest)
          let kvs ← r.members kvs
          return (.obj kvs, rest)
    else scalar r (c :: rest)

def items (r : Reader) : Nat → List Char → Option (List Json × List Char)
  | 0, _ => none
  | n + 1, cs => do
    let (v, rest) ← value r n cs
    match skip rest with
    | [] => none
    | d :: rest =>
      if d = ']' then return ([v], rest)
      else if d = ',' then
        let (vs, rest) ← items r n (skip rest)
        return (v :: vs, rest)
      else none

def fields (r : Reader) : Nat → List Char → Option (List (String × Json) × List Char)
  | 0, _ => none
  | _ + 1, [] => none
  | n + 1, q :: cs => do
    if q ≠ '"' then none
    else
      let (key, rest) ← stringBody none cs
      match skip rest with
      | [] => none
      | d :: rest =>
        if d ≠ ':' then none
        else
          let (v, rest) ← value r n (skip rest)
          match skip rest with
          | [] => none
          | d :: rest =>
            if d = '\x7d' then return ([(String.ofList key, v)], rest)
            else if d = ',' then
              let (kvs, rest) ← fields r n (skip rest)
              return ((String.ofList key, v) :: kvs, rest)
            else none

end

def loads (r : Reader) (text : List Char) : Option Json :=
  match value r ((skip text).length + 1) (skip text) with
  | some (v, rest) => if skip rest = [] then some v else none
  | none => none

/-- A hook that refuses a repeated member. -/
def uniqueMembers (pairs : List (String × Json)) : Option (List (String × Json)) :=
  if (pairs.map (·.1)).Nodup then some pairs else none

/-! ## What is read back -/

mutual

/-- The floats of a value are spelled as the reader spells them, and its objects are as the hook leaves them. -/
def Stable (r : Reader) : Json → Prop
  | .float literal => literal.toList.all isNumberChar = true ∧ numberValue r literal.toList = some (.float literal)
  | .arr items => StableItems r items
  | .obj fields => r.members fields = some fields ∧ StableFields r fields
  | _ => True

def StableItems (r : Reader) : List Json → Prop
  | [] => True
  | item :: items => Stable r item ∧ StableItems r items

def StableFields (r : Reader) : List (String × Json) → Prop
  | [] => True
  | (_, value) :: fields => Stable r value ∧ StableFields r fields

end

variable {r : Reader} {cs rest token : List Char} {c : Char}

/-! ### Strings -/

theorem hexValue_hexDigit : ∀ n < 16, hexValue (Json.hexDigit n) = some n := by
  decide

variable {n : Nat}

theorem hex4_control (h : n < 32) : hex4 '0' '0' (Json.hexDigit (n / 16)) (Json.hexDigit (n % 16)) = some n := by
  have hzero : hexValue '0' = some 0 := by decide
  rw [hex4, hzero, hexValue_hexDigit (n / 16) (by omega), hexValue_hexDigit (n % 16) (by omega)]
  simp only [Option.bind_eq_bind, Option.bind_some, Option.pure_def, Option.some.injEq]
  omega

theorem stringBody_u {a b c d : Char} (hhex : hex4 a b c d = some n) (hhigh : isHigh n = false) (hlow : isLow n = false) :
    stringBody none ('\\' :: 'u' :: a :: b :: c :: d :: rest) = push (Char.ofNat n) (stringBody none rest) := by
  conv_lhs => unfold stringBody
  simp only [hhex, hhigh, hlow, Bool.false_eq_true, if_false]

/-- An escape is read as its character. -/
theorem stringBody_escape (c : Char) (rest : List Char) : stringBody none (Json.escape c ++ rest) = push c (stringBody none rest) := by
  unfold Json.escape
  split_ifs with hquote hslash hline hreturn htab hback hfeed hcontrol
  · rw [hquote]
    rfl
  · rw [hslash]
    rfl
  · rw [hline]
    rfl
  · rw [hreturn]
    rfl
  · rw [htab]
    rfl
  · have hc : c = Char.ofNat 8 := by rw [← hback, Char.ofNat_toNat]
    rw [hc]
    rfl
  · have hc : c = Char.ofNat 12 := by rw [← hfeed, Char.ofNat_toNat]
    rw [hc]
    rfl
  · have hhigh : isHigh c.toNat = false := by
      simp only [isHigh, Bool.and_eq_false_iff, decide_eq_false_iff_not]
      omega
    have hlow : isLow c.toNat = false := by
      simp only [isLow, Bool.and_eq_false_iff, decide_eq_false_iff_not]
      omega
    rw [List.cons_append, List.cons_append, List.cons_append, List.cons_append, List.cons_append, List.cons_append, List.nil_append,
      stringBody_u (hex4_control hcontrol) hhigh hlow, Char.ofNat_toNat]
  rw [List.cons_append, List.nil_append]
  rw [stringBody]
  · simp [hquote, hcontrol]
  · rintro a b c' d rest' rfl
    exact absurd rfl hslash
  · rintro c' rest' rfl
    exact absurd rfl hslash

theorem stringBody_quote (s : List Char) (rest : List Char) :
    stringBody none (s.flatMap Json.escape ++ '"' :: rest) = some (s, rest) := by
  induction s with
  | nil => rfl
  | cons c s ih =>
    rw [List.flatMap_cons, List.append_assoc, stringBody_escape, ih]
    rfl

/-! ### Numbers -/

/-- What follows does not go on with a number. -/
def Ends (rest : List Char) : Prop := ∀ c cs, rest = c :: cs → isNumberChar c = false

theorem ends_nil : Ends [] := by
  intro c cs h
  cases h

theorem ends_cons (h : isNumberChar c = false) : Ends (c :: rest) := by
  rintro c' cs' hcs
  cases hcs
  exact h

theorem takeWhile_ends {p : Char → Bool} (htoken : ∀ c ∈ token, p c = true) (hrest : ∀ c cs, rest = c :: cs → p c = false) :
    (token ++ rest).takeWhile p = token ∧ (token ++ rest).dropWhile p = rest := by
  rw [List.takeWhile_append_of_pos htoken, List.dropWhile_append_of_pos htoken]
  cases rest with
  | nil => simp
  | cons c cs =>
    have hc := hrest c cs rfl
    simp [List.takeWhile, List.dropWhile, hc]

theorem toDigits_head {m : Nat} (h : (Nat.toDigits 10 m).head? = some '0') : m = 0 := by
  induction m using Nat.strongRecOn with
  | _ m ih =>
    rw [Nat.toDigits_eq_if (by omega)] at h
    split at h
    · rename_i hlt
      have hall : ∀ m < 10, [Nat.digitChar m].head? = some '0' → m = 0 := by decide
      exact hall m hlt h
    · rename_i hge
      have hne : Nat.toDigits 10 (m / 10) ≠ [] := Nat.toDigits_ne_nil
      rw [List.head?_append_of_ne_nil _ hne] at h
      have hzero := ih (m / 10) (by omega) h
      omega

theorem isInteger_toDigits (m : Nat) : isInteger (Nat.toDigits 10 m) = true := by
  have hne : Nat.toDigits 10 m ≠ [] := Nat.toDigits_ne_nil
  simp only [isInteger, hne, ne_eq, not_false_eq_true, decide_true, Bool.true_and, Bool.or_eq_true, decide_eq_true_eq]
  by_cases hzero : m = 0
  · exact .inl (by rw [hzero]; rfl)
  · exact .inr fun hhead => hzero (toDigits_head hhead)

theorem isDigit_toDigits {m : Nat} (h : c ∈ Nat.toDigits 10 m) : c.isDigit = true :=
  Nat.isDigit_of_mem_toDigits (by omega) (le_refl 10) h

theorem isNumberChar_int {n : Int} (h : c ∈ (toString n).toList) : isNumberChar c = true := by
  rw [Json.toString_toList] at h
  rcases List.mem_append.mp h with h | h
  · split at h
    · cases h
    · obtain rfl := List.mem_singleton.mp h
      decide
  · simp [isNumberChar, isDigit_toDigits h]

theorem numberValue_int (n : Int) : numberValue r (toString n).toList = some (.int n) := by
  obtain ⟨htake, hdrop⟩ : (Nat.toDigits 10 n.natAbs).takeWhile Char.isDigit = Nat.toDigits 10 n.natAbs ∧
      (Nat.toDigits 10 n.natAbs).dropWhile Char.isDigit = [] := by
    have hall := @takeWhile_ends [] (Nat.toDigits 10 n.natAbs) Char.isDigit (fun c hc => isDigit_toDigits hc) (by simp)
    rwa [List.append_nil] at hall
  have hsign : sign (toString n).toList = (decide (n < 0), Nat.toDigits 10 n.natAbs) := by
    rw [Json.toString_toList]
    by_cases hn : 0 ≤ n
    · rw [if_pos hn, List.nil_append]
      cases hdigits : Nat.toDigits 10 n.natAbs with
      | nil => exact absurd hdigits Nat.toDigits_ne_nil
      | cons d ds =>
        have hd : d.isDigit = true := isDigit_toDigits (by rw [hdigits]; exact List.mem_cons_self)
        have hne : d ≠ '-' := by
          rintro rfl
          exact absurd hd (by decide)
        have hneg : ¬n < 0 := by omega
        simp [sign, hne, hneg]
    · have hneg : n < 0 := by omega
      simp [if_neg hn, sign, hneg]
  unfold numberValue
  simp only [hsign, htake, hdrop, isInteger_toDigits, if_true, Nat.ofDigitChars_ten_toDigits, decide_eq_true_eq]
  congr 2
  split
  · omega
  · omega

theorem numberValue_nil : numberValue r [] = none := rfl

theorem numberValue_minus : numberValue r ['-'] = none := rfl

variable {v : Json}

/-- No word begins as a number does. -/
theorem not_word (htoken : ∀ c ∈ token, isNumberChar c = true) (hvalue : numberValue r token = some v)
    {word : String × Json} (hword : word ∈ words) : word.1.toList.isPrefixOf (token ++ rest) = false := by
  cases token with
  | nil =>
    rw [numberValue_nil] at hvalue
    cases hvalue
  | cons c cs =>
    have hc : isNumberChar c = true := htoken c List.mem_cons_self
    simp only [words, List.mem_cons, List.not_mem_nil, or_false] at hword
    -- but for the minus sign the first character tells them apart
    have hfirst : ∀ d ds, isNumberChar d = false → (d :: ds).isPrefixOf (c :: cs ++ rest) = false := by
      intro d ds hd
      have hne : d ≠ c := by
        rintro rfl
        rw [hc] at hd
        cases hd
      simp [List.isPrefixOf, hne]
    rcases hword with rfl | rfl | rfl | rfl | rfl | rfl
    · exact hfirst 'n' _ (by decide)
    · exact hfirst 't' _ (by decide)
    · exact hfirst 'f' _ (by decide)
    · exact hfirst 'N' _ (by decide)
    · exact hfirst 'I' _ (by decide)
    cases cs with
    | nil =>
      by_cases hminus : c = '-'
      · rw [hminus, numberValue_minus] at hvalue
        cases hvalue
      · have hne : '-' ≠ c := fun h => hminus h.symm
        simp [List.isPrefixOf, hne]
    | cons d ds =>
      have hd : isNumberChar d = true := htoken d (by simp)
      have hne : 'I' ≠ d := by
        rintro rfl
        exact absurd hd (by decide)
      simp [List.isPrefixOf, hne]

theorem scalar_token (htoken : ∀ c ∈ token, isNumberChar c = true) (hvalue : numberValue r token = some v)
    (hrest : Ends rest) : scalar r (token ++ rest) = some (v, rest) := by
  have hnone : (words.find? fun word => word.1.toList.isPrefixOf (token ++ rest)) = none := by
    rw [List.find?_eq_none]
    intro word hword
    rw [not_word htoken hvalue hword]
    decide
  obtain ⟨htake, hdrop⟩ := takeWhile_ends htoken hrest
  rw [scalar, hnone]
  simp only [htake, hdrop, hvalue, Option.map_some]

/-! ### Values -/

theorem numberChar_ne (h : isNumberChar c = true) : c ≠ '"' ∧ c ≠ '[' ∧ c ≠ '\x7b' ∧ c ≠ ']' ∧ isSpace c = false := by
  refine ⟨?_, ?_, ?_, ?_, ?_⟩
  · rintro rfl
    exact absurd h (by decide)
  · rintro rfl
    exact absurd h (by decide)
  · rintro rfl
    exact absurd h (by decide)
  · rintro rfl
    exact absurd h (by decide)
  cases hspace : isSpace c with
  | false => rfl
  | true =>
    simp only [isSpace, Bool.or_eq_true, decide_eq_true_eq] at hspace
    rcases hspace with ((rfl | rfl) | rfl) | rfl
    all_goals exact absurd h (by decide)

theorem value_token (htoken : ∀ c ∈ token, isNumberChar c = true) (hvalue : numberValue r token = some v)
    (hrest : Ends rest) (n : Nat) : value r (n + 1) (token ++ rest) = some (v, rest) := by
  have hscalar := scalar_token htoken hvalue hrest
  cases token with
  | nil =>
    rw [numberValue_nil] at hvalue
    cases hvalue
  | cons c cs =>
    obtain ⟨hquote, hopen, hbrace, -, -⟩ := numberChar_ne (htoken c List.mem_cons_self)
    rw [List.cons_append] at hscalar ⊢
    rw [value, if_neg hquote, if_neg hopen, if_neg hbrace, hscalar]

/-- The text of a value begins with no space, and not as the end of an array does. -/
theorem compact_head (h : Stable r v) : ∃ c cs, Json.compactChars v = c :: cs ∧ isSpace c = false ∧ c ≠ ']' := by
  have hnumber : ∀ {token : List Char} {v : Json}, (∀ c ∈ token, isNumberChar c = true) → numberValue r token = some v →
      ∃ c cs, token = c :: cs ∧ isSpace c = false ∧ c ≠ ']' := by
    intro token v htoken hvalue
    cases token with
    | nil =>
      rw [numberValue_nil] at hvalue
      cases hvalue
    | cons c cs =>
      obtain ⟨-, -, -, hclose, hspace⟩ := numberChar_ne (htoken c List.mem_cons_self)
      exact ⟨c, cs, rfl, hspace, hclose⟩
  cases v with
  | null => exact ⟨_, _, rfl, by decide, by decide⟩
  | bool b =>
    cases b with
    | true | false => exact ⟨_, _, rfl, by decide, by decide⟩
  | int n => exact hnumber (fun c hc => isNumberChar_int hc) (numberValue_int n)
  | float literal =>
    rw [Stable, List.all_eq_true] at h
    exact hnumber h.1 h.2
  | str s | arr items | obj fields => exact ⟨_, _, rfl, by decide, by decide⟩

theorem skip_cons (h : isSpace c = false) : skip (c :: rest) = c :: rest := by
  simp [skip, List.dropWhile, h]

theorem commas_cons_cons (x y : List Char) (parts : List (List Char)) :
    Json.commas (x :: y :: parts) = x ++ ',' :: Json.commas (y :: parts) := by
  simp [Json.commas, List.intersperse_cons_cons]

theorem commas_singleton (x : List Char) : Json.commas [x] = x := by
  simp [Json.commas]

variable {cs : List Char}

/-- The text of some items begins as that of the first. -/
theorem commas_head {parts : List (List Char)} : ∃ cs', Json.commas ((c :: cs) :: parts) = c :: cs' := by
  cases parts with
  | nil => exact ⟨cs, commas_singleton _⟩
  | cons part parts => exact ⟨_, commas_cons_cons _ _ _⟩

theorem value_str (s : String) (n : Nat) (rest : List Char) : value r (n + 1) (Json.quote s ++ rest) = some (.str s, rest) := by
  have htext : Json.quote s ++ rest = '"' :: (s.toList.flatMap Json.escape ++ '"' :: rest) := by simp [Json.quote]
  rw [htext, value, if_pos rfl, stringBody_quote, Option.map_some, String.ofList_toList]

theorem value_arr {c : Char} {vs : List Json} (hspace : isSpace c = false) (hclose : c ≠ ']')
    (hitems : items r n (c :: cs) = some (vs, rest)) : value r (n + 1) ('[' :: c :: cs) = some (.arr vs, rest) := by
  rw [value, if_neg (by decide), if_pos rfl, skip_cons hspace]
  simp only [if_neg hclose, hitems, Option.map_some]

theorem value_obj {kvs : List (String × Json)} (hmembers : r.members kvs = some kvs)
    (hfields : fields r n ('"' :: cs) = some (kvs, rest)) : value r (n + 1) ('\x7b' :: '"' :: cs) = some (.obj kvs, rest) := by
  have hspace : isSpace '"' = false := by decide
  have hclose : '"' ≠ '\x7d' := by decide
  rw [value, if_neg (by decide), if_neg (by decide), if_pos rfl, skip_cons hspace]
  simp only [if_neg hclose, hfields, hmembers, Option.bind_eq_bind, Option.bind_some, Option.pure_def]

theorem items_last (hvalue : value r n cs = some (v, ']' :: rest)) : items r (n + 1) cs = some ([v], rest) := by
  have hspace : isSpace ']' = false := by decide
  simp only [items, hvalue, Option.bind_eq_bind, Option.bind_some, skip_cons hspace, if_true, Option.pure_def]

theorem items_next {d : Char} {ds : List Char} {vs : List Json}
    (hvalue : value r n cs = some (v, ',' :: d :: ds)) (hspace : isSpace d = false) (hitems : items r n (d :: ds) = some (vs, rest)) :
    items r (n + 1) cs = some (v :: vs, rest) := by
  have hcomma : isSpace ',' = false := by decide
  have hclose : ',' ≠ ']' := by decide
  simp only [items, hvalue, Option.bind_eq_bind, Option.bind_some, skip_cons hcomma, if_neg hclose, if_true, skip_cons hspace, hitems,
    Option.pure_def]

theorem fields_last {key : String} {d : Char} {ds : List Char} (hspace : isSpace d = false)
    (hvalue : value r n (d :: ds) = some (v, '\x7d' :: rest)) :
    fields r (n + 1) (Json.quote key ++ ':' :: d :: ds) = some ([(key, v)], rest) := by
  have htext : Json.quote key ++ ':' :: d :: ds = '"' :: (key.toList.flatMap Json.escape ++ '"' :: ':' :: d :: ds) := by
    simp [Json.quote]
  have hcolon : isSpace ':' = false := by decide
  have hend : isSpace '\x7d' = false := by decide
  rw [htext, fields]
  simp only [ne_eq, not_true_eq_false, if_false, stringBody_quote, Option.bind_eq_bind, Option.bind_some, skip_cons hcolon,
    skip_cons hspace, hvalue, skip_cons hend, if_true, Option.pure_def, String.ofList_toList]

theorem fields_next {key : String} {d : Char} {ds es : List Char} {kvs : List (String × Json)}
    (hspace : isSpace d = false) (hvalue : value r n (d :: ds) = some (v, ',' :: '"' :: es))
    (hfields : fields r n ('"' :: es) = some (kvs, rest)) :
    fields r (n + 1) (Json.quote key ++ ':' :: d :: ds) = some ((key, v) :: kvs, rest) := by
  have htext : Json.quote key ++ ':' :: d :: ds = '"' :: (key.toList.flatMap Json.escape ++ '"' :: ':' :: d :: ds) := by
    simp [Json.quote]
  have hcolon : isSpace ':' = false := by decide
  have hcomma : isSpace ',' = false := by decide
  have hquote : isSpace '"' = false := by decide
  have hclose : ',' ≠ '\x7d' := by decide
  rw [htext, fields]
  simp only [ne_eq, not_true_eq_false, if_false, stringBody_quote, Option.bind_eq_bind, Option.bind_some, skip_cons hcolon,
    skip_cons hspace, hvalue, skip_cons hcomma, if_neg hclose, if_true, skip_cons hquote, hfields, Option.pure_def, String.ofList_toList]

theorem length_quote_pos (s : String) : 2 ≤ (Json.quote s).length := by
  simp [Json.quote]

mutual

theorem value_compact : ∀ {v : Json}, Stable r v → ∀ {n : Nat} {rest : List Char}, (Json.compactChars v).length < n → Ends rest →
    value r n (Json.compactChars v ++ rest) = some (v, rest)
  | .null, _, n + 1, rest, _, _ => rfl
  | .bool true, _, n + 1, rest, _, _ => rfl
  | .bool false, _, n + 1, rest, _, _ => rfl
  | .int m, _, n + 1, rest, _, hrest => value_token (fun c hc => isNumberChar_int hc) (numberValue_int m) hrest n
  | .float literal, h, n + 1, rest, _, hrest => by
    rw [Stable, List.all_eq_true] at h
    exact value_token h.1 h.2 hrest n
  | .str s, _, n + 1, rest, _, _ => value_str s n rest
  | .arr [], _, n + 1, rest, _, _ => rfl
  | .arr (item :: vs), h, n + 1, rest, hn, _ => by
    obtain ⟨d, ds, htext, hspace, hclose⟩ := compact_head h.1
    obtain ⟨ds', hcommas⟩ : ∃ ds', Json.commas (Json.compactItems (item :: vs)) = d :: ds' := by
      rw [Json.compactItems, htext]
      exact commas_head
    simp only [Json.compactChars, List.cons_append, List.length_cons, List.length_append, List.length_nil] at hn
    have hread : items r n (Json.commas (Json.compactItems (item :: vs)) ++ ']' :: rest) = some (item :: vs, rest) :=
      items_compact h (by omega)
    have hshape : Json.compactChars (.arr (item :: vs)) ++ rest =
        '[' :: (Json.commas (Json.compactItems (item :: vs)) ++ ']' :: rest) := by
      simp [Json.compactChars]
    rw [hshape]
    rw [hcommas, List.cons_append] at hread ⊢
    exact value_arr hspace hclose hread
  | .obj [], h, n + 1, rest, _, _ => by
    have hmembers : r.members [] = some [] := h.1
    have hshape : Json.compactChars (.obj []) ++ rest = '\x7b' :: '\x7d' :: rest := rfl
    have hspace : isSpace '\x7d' = false := by decide
    rw [hshape, value, if_neg (by decide), if_neg (by decide), if_pos rfl, skip_cons hspace]
    simp only [if_true, hmembers, Option.map_some]
  | .obj (field :: kvs), h, n + 1, rest, hn, _ => by
    obtain ⟨key, v⟩ := field
    obtain ⟨ds', hcommas⟩ : ∃ ds', Json.commas (Json.compactFields ((key, v) :: kvs)) = '"' :: ds' := by
      rw [Json.compactFields, Json.quote]
      exact commas_head
    simp only [Json.compactChars, List.cons_append, List.length_cons, List.length_append, List.length_nil] at hn
    have hread : fields r n (Json.commas (Json.compactFields ((key, v) :: kvs)) ++ '\x7d' :: rest) = some ((key, v) :: kvs, rest) :=
      fields_compact h.2 (by omega)
    have hshape : Json.compactChars (.obj ((key, v) :: kvs)) ++ rest =
        '\x7b' :: (Json.commas (Json.compactFields ((key, v) :: kvs)) ++ '\x7d' :: rest) := by
      simp [Json.compactChars]
    rw [hshape]
    rw [hcommas, List.cons_append] at hread ⊢
    exact value_obj h.1 hread

theorem items_compact : ∀ {item : Json} {vs : List Json}, StableItems r (item :: vs) → ∀ {n : Nat} {rest : List Char},
    (Json.commas (Json.compactItems (item :: vs))).length + 1 < n →
      items r n (Json.commas (Json.compactItems (item :: vs)) ++ ']' :: rest) = some (item :: vs, rest)
  | item, [], h, n + 1, rest, hn => by
    simp only [Json.compactItems, commas_singleton] at hn ⊢
    exact items_last (value_compact h.1 (by omega) (ends_cons (by decide)))
  | item, next :: vs, h, n + 1, rest, hn => by
    obtain ⟨d, ds, htext, hspace, -⟩ := compact_head h.2.1
    obtain ⟨ds', hcommas⟩ : ∃ ds', Json.commas (Json.compactItems (next :: vs)) = d :: ds' := by
      rw [Json.compactItems, htext]
      exact commas_head
    have hshape : Json.commas (Json.compactItems (item :: next :: vs)) =
        Json.compactChars item ++ ',' :: Json.commas (Json.compactItems (next :: vs)) := by
      rw [Json.compactItems, Json.compactItems]
      exact commas_cons_cons _ _ _
    obtain ⟨e, es, hitem, -, -⟩ := compact_head h.1
    have hpos : 1 ≤ (Json.compactChars item).length := by simp [hitem]
    rw [hshape, List.length_append, List.length_cons] at hn
    have hread : items r n (Json.commas (Json.compactItems (next :: vs)) ++ ']' :: rest) = some (next :: vs, rest) :=
      items_compact h.2 (by omega)
    rw [hshape, List.append_assoc, List.cons_append]
    have hvalue : value r n (Json.compactChars item ++ ',' :: (Json.commas (Json.compactItems (next :: vs)) ++ ']' :: rest)) =
        some (item, ',' :: (Json.commas (Json.compactItems (next :: vs)) ++ ']' :: rest)) :=
      value_compact h.1 (by omega) (ends_cons (by decide))
    rw [hcommas, List.cons_append] at hread hvalue ⊢
    exact items_next hvalue hspace hread

theorem fields_compact : ∀ {field : String × Json} {kvs : List (String × Json)}, StableFields r (field :: kvs) →
    ∀ {n : Nat} {rest : List Char}, (Json.commas (Json.compactFields (field :: kvs))).length + 1 < n →
      fields r n (Json.commas (Json.compactFields (field :: kvs)) ++ '\x7d' :: rest) = some (field :: kvs, rest)
  | (key, v), [], h, n + 1, rest, hn => by
    obtain ⟨d, ds, htext, hspace, -⟩ := compact_head h.1
    simp only [Json.compactFields, commas_singleton, List.length_append, List.length_cons] at hn ⊢
    have hvalue : value r n (Json.compactChars v ++ '\x7d' :: rest) = some (v, '\x7d' :: rest) :=
      value_compact h.1 (by omega) (ends_cons (by decide))
    rw [List.append_assoc, List.cons_append]
    rw [htext, List.cons_append] at hvalue ⊢
    exact fields_last hspace hvalue
  | (key, v), next :: kvs, h, n + 1, rest, hn => by
    obtain ⟨key', v'⟩ := next
    obtain ⟨d, ds, htext, hspace, -⟩ := compact_head h.1
    obtain ⟨es, hcommas⟩ : ∃ es, Json.commas (Json.compactFields ((key', v') :: kvs)) = '"' :: es := by
      rw [Json.compactFields, Json.quote]
      exact commas_head
    have hshape : Json.commas (Json.compactFields ((key, v) :: (key', v') :: kvs)) =
        Json.quote key ++ ':' :: (Json.compactChars v ++ ',' :: Json.commas (Json.compactFields ((key', v') :: kvs))) := by
      rw [Json.compactFields, Json.compactFields, commas_cons_cons]
      simp
    have hkey := length_quote_pos key
    rw [hshape] at hn
    simp only [List.length_append, List.length_cons] at hn
    have hread : fields r n (Json.commas (Json.compactFields ((key', v') :: kvs)) ++ '\x7d' :: rest) = some ((key', v') :: kvs, rest) :=
      fields_compact h.2 (by omega)
    have hvalue : value r n (Json.compactChars v ++ ',' :: (Json.commas (Json.compactFields ((key', v') :: kvs)) ++ '\x7d' :: rest)) =
        some (v, ',' :: (Json.commas (Json.compactFields ((key', v') :: kvs)) ++ '\x7d' :: rest)) :=
      value_compact h.1 (by omega) (ends_cons (by decide))
    rw [hshape, List.append_assoc, List.cons_append, List.append_assoc, List.cons_append]
    rw [hcommas, List.cons_append] at hread hvalue ⊢
    rw [htext, List.cons_append] at hvalue ⊢
    exact fields_next hspace hvalue hread

end

/-- **What was written is read back.** -/
theorem loads_compact (h : Stable r v) : loads r (Json.compactChars v) = some v := by
  obtain ⟨c, cs, htext, hspace, -⟩ := compact_head h
  have hskip : skip (Json.compactChars v) = Json.compactChars v := by
    rw [htext]
    exact skip_cons hspace
  have hvalue : value r ((Json.compactChars v).length + 1) (Json.compactChars v ++ []) = some (v, []) :=
    value_compact h (by omega) ends_nil
  rw [List.append_nil] at hvalue
  rw [loads, hskip, hvalue]
  rfl

end Lib.JsonRead
