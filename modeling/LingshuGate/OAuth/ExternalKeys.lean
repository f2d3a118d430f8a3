import LingshuGate.Lib.Dict
import LingshuGate.Lib.Check
import LingshuGate.Lib.Json
import LingshuGate.Lib.Latest
import Mathlib.Algebra.Order.Field.Rat
import Mathlib.Tactic.Linarith

/-!
# Signing keys of external issuers (`external_jwt.py`)

| here | there |
| --- | --- |
| `Failure`                   | `ExternalJwtError`, and any other exception |
| `CachedKeys`                | `_CachedKeys` (external_jwt.py:134) |
| `parseKeys`, `admitItem`    | `ExternalJwtVerifier._parse_keys` (247) |
| `refresh`, `key`            | `ExternalJwtVerifier._key` (211) |
| `Call.trusted`              | `uri = dict(config.issuer_jwks).get(issuer)` of `_verify` (174) |

An entry has three clocks in it: the age of its keys, the time of the last attempt, and whether every configuration since has
trusted the pair. The run records what each call fetched; `Entry` says what an entry stands for in it.

Calls follow one another. The times are those of `time.monotonic()`, and `float("-inf")` is no time at all.
-/

namespace LingshuGate.ExternalJwt

open Lib

abbrev Pair := String × String

structure Config where
  issuerJwks : List Pair

inductive Failure
  /-- `ExternalJwtError(message)` -/
  | refused (message : String)
  | raised
  deriving DecidableEq

def maxJwksBytes : Nat := 256 * 1024
def jwksCacheSeconds : ℚ := 300
def jwksRefreshInterval : ℚ := 30

/-- The encoder and the key reader. -/
structure Jwk (κ : Type) where
  /-- `len(json.dumps(payload).encode())` -/
  dumpsLength : Json → Nat
  /-- `jwt.PyJWK.from_dict(item, algorithm="RS256").key`; `none` is an exception. -/
  fromDict : Json → Option κ
  /-- `key_size` of an RSA public key. -/
  keySize : κ → Option Nat

section Parse

variable {κ : Type} (jwk : Jwk κ)

def isText (text : String) : Json → Bool
  | .str s => s = text
  | _ => false

/-- `item.get(name, text) == text` -/
def textOrMissing (item : Json) (name text : String) : Bool := (item.get? name).all (isText text)

/-- `item["key_ops"] == ["verify"]`, where there are any. -/
def verifies (item : Json) : Bool :=
  match item.get? "key_ops" with
  | none => true
  | some (.arr [op]) => isText "verify" op
  | some _ => false

def supported (item : Json) : Bool :=
  (item.get? "kty").any (isText "RSA") && textOrMissing item "alg" "RS256" && textOrMissing item "use" "sig" && verifies item

def kidOf (item : Json) : Option String :=
  match item.get? "kid" with
  | some (.str kid) => if kid ≠ "" ∧ kid.length ≤ 256 then some kid else none
  | _ => none

/-- One turn of the loop over `payload["keys"]`. -/
def admitItem (keys : Dict String κ) (item : Json) : Except Failure (Dict String κ) := do
  require item.isObject (.refused "invalid trusted JWKS")
  if supported item then do
    let kid ← expect ((kidOf item).filter fun kid => !Dict.has keys kid) (.refused "ambiguous trusted JWKS key id")
    require (["d", "p", "q", "dp", "dq", "qi"].all fun field => (item.get? field).isNone) (.refused "trusted JWKS must contain public keys only")
    let key ← expect (jwk.fromDict item) .raised
    require ((jwk.keySize key).any (2048 ≤ ·)) (.refused "unsafe trusted JWKS key")
    return Dict.set keys kid key
  else return keys

def itemsOf (payload : Json) : Except Failure (List Json) :=
  match payload.get? "keys" with
  | some (.arr items) => .ok items
  | _ => .error (.refused "invalid trusted JWKS")

def parseKeys (payload : Json) : Except Failure (Dict String κ) := do
  require (jwk.dumpsLength payload ≤ maxJwksBytes) (.refused "trusted JWKS exceeds size limit")
  require payload.isObject .raised
  let items ← itemsOf payload
  require (1 ≤ items.length && items.length ≤ 64) (.refused "invalid trusted JWKS")
  let keys ← items.foldlM (admitItem jwk) ∅
  require (!keys.rows.isEmpty) (.refused "trusted JWKS has no supported signing keys")
  return keys

end Parse

/-! ## The cache -/

structure CachedKeys (κ : Type) where
  keys : Dict String κ
  fetchedAt : Option ℚ
  attemptedAt : ℚ

abbrev Cache (κ : Type) := Dict Pair (CachedKeys κ)

/-- A call of `_key` by `_verify`: the URI is the one that the configuration has for the issuer. -/
structure Call where
  config : Config
  issuer : String
  uri : String
  kid : String
  now : ℚ
  /-- What `self._fetcher(uri)` gives if it is called. -/
  outcome : Except Failure Json
  trusted : (issuer, uri) ∈ config.issuerJwks

def Call.pair (c : Call) : Pair := (c.issuer, c.uri)

structure Answer (κ : Type) where
  result : Except String κ
  /-- The keys of the fetch, if there was one, or how it failed. -/
  fetched : Option (Except String (Dict String κ)) := none

section Key

variable {κ : Type} (jwk : Jwk κ)

def CachedKeys.fresh (entry : CachedKeys κ) (now : ℚ) : Bool := entry.fetchedAt.any fun t => now - t < jwksCacheSeconds

/-- The fetch and what is read of it. -/
def refresh (c : Call) : Except String (Dict String κ) :=
  match c.outcome.bind (parseKeys jwk) with
  | .ok keys => .ok keys
  | .error (.refused message) => .error message
  | .error .raised => .error "trusted JWKS unavailable"

/-- The entry that stands while the fetch is out. -/
def attempted (entry : Option (CachedKeys κ)) (now : ℚ) : CachedKeys κ :=
  match entry with
  | some e => if e.fresh now then { e with attemptedAt := now } else ⟨∅, none, now⟩
  | none => ⟨∅, none, now⟩

def pruned (config : Config) (cache : Cache κ) : Cache κ := cache.delete fun kv => !decide (kv.1 ∈ config.issuerJwks)

/-- The key that is handed out without a fetch. -/
def cachedKey (entry : Option (CachedKeys κ)) (c : Call) : Option κ := entry.bind fun e => if e.fresh c.now then Dict.get e.keys c.kid else none

def key (cache : Cache κ) (c : Call) : Cache κ × Answer κ :=
  let cache := pruned c.config cache
  let entry := Dict.get cache c.pair
  match cachedKey entry c with
  | some k => (cache, { result := .ok k })
  | none =>
    if entry.any fun e => c.now - e.attemptedAt < jwksRefreshInterval then
      (cache, { result := .error "external key unavailable; retry later" })
    else
      -- written before the fetch, so that a fetch that fails is an attempt as well
      let cache := Dict.set cache c.pair (attempted entry c.now)
      match refresh jwk c with
      | .error message => (cache, { result := .error message, fetched := some (.error message) })
      | .ok keys => (Dict.set cache c.pair ⟨keys, some c.now, c.now⟩,
          { result := expect (Dict.get keys c.kid) "unknown external key id", fetched := some (.ok keys) })

structure Record (κ : Type) where
  call : Call
  answer : Answer κ

/-- The calls one after another, on an empty cache. -/
def run (calls : List Call) : Cache κ × List (Record κ) :=
  calls.foldl (fun s c => ((key jwk s.1 c).1, s.2 ++ [⟨c, (key jwk s.1 c).2⟩])) (∅, [])

end Key

section Entry

variable {κ : Type} {jwk : Jwk κ} {cache : Cache κ} {c : Call} {p : Pair} {entry : Option (CachedKeys κ)} {h : List (Record κ)}
  {r : Record κ} {keys : Dict String κ}

variable (jwk) in
/-- A call, for the entry of its own pair. -/
inductive Step (entry : Option (CachedKeys κ)) (c : Call) : Option (CachedKeys κ) → Answer κ → Prop
  | cached {e : CachedKeys κ} {t : ℚ} {k : κ} : entry = some e → e.fetchedAt = some t → c.now - t < jwksCacheSeconds →
      Dict.get e.keys c.kid = some k → Step entry c entry { result := .ok k }
  | busy {e : CachedKeys κ} {message : String} : entry = some e → cachedKey entry c = none → c.now - e.attemptedAt < jwksRefreshInterval →
      Step entry c entry { result := .error message }
  | failed {message : String} : refresh jwk c = .error message → cachedKey entry c = none →
      (∀ e, entry = some e → jwksRefreshInterval ≤ c.now - e.attemptedAt) →
      Step entry c (some (attempted entry c.now)) { result := .error message, fetched := some (.error message) }
  | fetched {keys : Dict String κ} : refresh jwk c = .ok keys → cachedKey entry c = none →
      (∀ e, entry = some e → jwksRefreshInterval ≤ c.now - e.attemptedAt) →
      Step entry c (some ⟨keys, some c.now, c.now⟩)
        { result := expect (Dict.get keys c.kid) "unknown external key id", fetched := some (.ok keys) }

theorem get_pruned (config : Config) (cache : Cache κ) (p : Pair) :
    Dict.get (pruned config cache) p = if p ∈ config.issuerJwks then Dict.get cache p else none := by
  rw [pruned, Dict.get_delete]
  by_cases hp : p ∈ config.issuerJwks
  · cases hget : Dict.get cache p <;> simp [hp]
  · cases hget : Dict.get cache p <;> simp [hp]

theorem cachedKey_some {k : κ} (hk : cachedKey entry c = some k) :
    ∃ e t, entry = some e ∧ e.fetchedAt = some t ∧ c.now - t < jwksCacheSeconds ∧ Dict.get e.keys c.kid = some k := by
  obtain ⟨e, rfl, hkey⟩ := Option.bind_eq_some_iff.mp hk
  split at hkey
  · next hfresh =>
    cases ht : e.fetchedAt with
    | none =>
      rw [CachedKeys.fresh, ht] at hfresh
      cases hfresh
    | some t =>
      rw [CachedKeys.fresh, ht] at hfresh
      exact ⟨e, t, rfl, ht, of_decide_eq_true hfresh, hkey⟩
  · cases hkey

/-- What a call does: the pairs that are not trusted are gone, the others stay, and its own pair takes a step. -/
theorem key_spec (jwk : Jwk κ) (cache : Cache κ) (c : Call) : Step jwk (Dict.get cache c.pair) c (Dict.get (key jwk cache c).1 c.pair) (key jwk cache c).2 ∧
    ∀ p, p ≠ c.pair → Dict.get (key jwk cache c).1 p = if p ∈ c.config.issuerJwks then Dict.get cache p else none := by
  have hown : Dict.get (pruned c.config cache) c.pair = Dict.get cache c.pair := by
    have htrusted : c.pair ∈ c.config.issuerJwks := c.trusted
    rw [get_pruned, if_pos htrusted]
  unfold key
  simp only [hown]
  split
  · next k hk =>
    obtain ⟨e, t, hentry, ht, hage, hget⟩ := cachedKey_some hk
    refine ⟨?_, fun p _ => get_pruned ..⟩
    rw [hown]
    exact .cached hentry ht hage hget
  rename_i hnone
  split
  · next hbusy =>
    cases hentry : Dict.get cache c.pair with
    | none =>
      rw [hentry] at hbusy
      cases hbusy
    | some e =>
      rw [hentry] at hbusy hnone hown
      refine ⟨?_, fun p _ => get_pruned ..⟩
      rw [hown]
      exact .busy rfl hnone (of_decide_eq_true hbusy)
  rename_i hfree
  have hlate : ∀ e, Dict.get cache c.pair = some e → jwksRefreshInterval ≤ c.now - e.attemptedAt := by
    intro e he
    rw [he] at hfree
    simpa using hfree
  split
  · next hrefresh =>
    constructor
    · rw [Dict.get_set, if_pos rfl]
      exact .failed hrefresh hnone hlate
    · intro p hp
      rw [Dict.get_set, if_neg hp, get_pruned]
  rename_i hrefresh
  constructor
  · rw [Dict.get_set, if_pos rfl]
    exact .fetched hrefresh hnone hlate
  · intro p hp
    rw [Dict.get_set, if_neg hp, Dict.get_set, if_neg hp, get_pruned]

/-! ## What an entry stands for -/

def Record.trusts (p : Pair) (r : Record κ) : Prop := p ∈ r.call.config.issuerJwks

def Record.tried (p : Pair) (r : Record κ) : Prop := r.call.pair = p ∧ r.answer.fetched.isSome

def Record.fetchedKeys (p : Pair) (r : Record κ) (keys : Dict String κ) : Prop := r.call.pair = p ∧ r.answer.fetched = some (.ok keys)

/-- The last successful fetch for a pair that every configuration since has trusted. -/
def LatestFetch (p : Pair) (h : List (Record κ)) (r : Record κ) (keys : Dict String κ) : Prop :=
  r.fetchedKeys p keys ∧ Latest (fun r' => r'.trusts p ∧ ¬∃ keys', r'.fetchedKeys p keys') h r

/-- A fetch for a pair that every configuration since has trusted, whatever came of it. -/
def TriedSince (p : Pair) (h : List (Record κ)) (r : Record κ) : Prop := r.tried p ∧ Latest (Record.trusts p) h r

theorem latestFetch_snoc {r' : Record κ} : LatestFetch p (h ++ [r']) r keys ↔
    (r = r' ∧ r'.fetchedKeys p keys) ∨ LatestFetch p h r keys ∧ r'.trusts p ∧ ¬∃ keys', r'.fetchedKeys p keys' := by
  unfold LatestFetch
  rw [latest_snoc]
  constructor
  · rintro ⟨hkeys, rfl | ⟨hlatest, hkept⟩⟩
    · exact .inl ⟨rfl, hkeys⟩
    · exact .inr ⟨⟨hkeys, hlatest⟩, hkept⟩
  · rintro (⟨rfl, hkeys⟩ | ⟨⟨hkeys, hlatest⟩, hkept⟩)
    · exact ⟨hkeys, .inl rfl⟩
    · exact ⟨hkeys, .inr ⟨hlatest, hkept⟩⟩

theorem triedSince_snoc {r' : Record κ} : TriedSince p (h ++ [r']) r ↔ (r = r' ∧ r'.tried p) ∨ TriedSince p h r ∧ r'.trusts p := by
  unfold TriedSince
  rw [latest_snoc]
  constructor
  · rintro ⟨htried, rfl | ⟨hlatest, hkept⟩⟩
    · exact .inl ⟨rfl, htried⟩
    · exact .inr ⟨⟨htried, hlatest⟩, hkept⟩
  · rintro (⟨rfl, htried⟩ | ⟨⟨htried, hlatest⟩, hkept⟩)
    · exact ⟨htried, .inl rfl⟩
    · exact ⟨htried, .inr ⟨hlatest, hkept⟩⟩

/-- The entry of a pair after a history. -/
structure Stands (h : List (Record κ)) (p : Pair) (entry : Option (CachedKeys κ)) : Prop where
  fetched : ∀ e t, entry = some e → e.fetchedAt = some t → ∃ r, LatestFetch p h r e.keys ∧ r.call.now = t
  kept : ∀ r keys, LatestFetch p h r keys → ∃ e, entry = some e ∧
    (e.fetchedAt = some r.call.now ∧ e.keys = keys ∨ r.call.now + jwksCacheSeconds ≤ e.attemptedAt)
  tried : ∀ r, TriedSince p h r → ∃ e, entry = some e ∧ r.call.now ≤ e.attemptedAt
  past : ∀ e, entry = some e → ∃ r ∈ h, r.call.now = e.attemptedAt

theorem stands_nil (p : Pair) : Stands ([] : List (Record κ)) p none where
  fetched := nofun
  kept := fun _ _ hr => (not_latest_nil hr.2).elim
  tried := fun _ hr => (not_latest_nil hr.2).elim
  past := nofun

theorem stands_other (hs : Stands h p entry) (htrust : r.trusts p) (hfetch : r.answer.fetched = none ∨ r.call.pair ≠ p) :
    Stands (h ++ [r]) p entry := by
  have hkeys : ¬∃ keys', r.fetchedKeys p keys' := by
    rintro ⟨keys', hpair, hkeys⟩
    rcases hfetch with hnone | hne
    · rw [hnone] at hkeys
      cases hkeys
    · exact hne hpair
  have htried : ¬r.tried p := by
    rintro ⟨hpair, hsome⟩
    rcases hfetch with hnone | hne
    · rw [hnone] at hsome
      cases hsome
    · exact hne hpair
  constructor
  · intro e t he ht
    obtain ⟨r', hr', hnow⟩ := hs.fetched e t he ht
    exact ⟨r', latestFetch_snoc.mpr (.inr ⟨hr', htrust, hkeys⟩), hnow⟩
  · intro r' keys hr'
    rcases latestFetch_snoc.mp hr' with ⟨-, hnew⟩ | ⟨hold, -⟩
    · exact (hkeys ⟨keys, hnew⟩).elim
    · exact hs.kept r' keys hold
  · intro r' hr'
    rcases triedSince_snoc.mp hr' with ⟨-, hnew⟩ | ⟨hold, -⟩
    · exact (htried hnew).elim
    · exact hs.tried r' hold
  · intro e he
    obtain ⟨r', hr', hnow⟩ := hs.past e he
    exact ⟨r', List.mem_append_left _ hr', hnow⟩

theorem stands_untrusted (htrust : ¬r.trusts p) (hpair : r.call.pair ≠ p) : Stands (h ++ [r]) p (none : Option (CachedKeys κ)) where
  fetched := nofun
  kept := by
    intro r' keys hr'
    rcases latestFetch_snoc.mp hr' with ⟨-, hnew⟩ | ⟨-, hold, -⟩
    · exact (hpair hnew.1).elim
    · exact (htrust hold).elim
  tried := by
    intro r' hr'
    rcases triedSince_snoc.mp hr' with ⟨-, hnew⟩ | ⟨-, hold⟩
    · exact (hpair hnew.1).elim
    · exact (htrust hold).elim
  past := nofun

theorem stands_failed {message : String} (hs : Stands h c.pair entry) (hclock : ∀ r ∈ h, r.call.now ≤ c.now) :
    Stands (h ++ [⟨c, { result := .error message, fetched := some (.error message) }⟩]) c.pair (some (attempted entry c.now)) := by
  have hkeys : ¬∃ keys', Record.fetchedKeys (κ := κ) c.pair ⟨c, { result := .error message, fetched := some (.error message) }⟩ keys' := by
    rintro ⟨keys', -, hkeys⟩
    cases Option.some.inj hkeys
  have hat : (attempted entry c.now).attemptedAt = c.now := by
    unfold attempted
    split
    · split <;> rfl
    · rfl
  constructor
  · intro e t he ht
    obtain rfl := Option.some.inj he
    unfold attempted at ht ⊢
    split at ht
    · next e =>
      split at ht
      · next hfresh =>
        obtain ⟨r', hr', hnow⟩ := hs.fetched e t rfl ht
        rw [if_pos hfresh]
        exact ⟨r', latestFetch_snoc.mpr (.inr ⟨hr', c.trusted, hkeys⟩), hnow⟩
      · cases ht
    · cases ht
  · intro r keys hr
    rcases latestFetch_snoc.mp hr with ⟨-, hnew⟩ | ⟨hold, -⟩
    · exact (hkeys ⟨keys, hnew⟩).elim
    refine ⟨_, rfl, ?_⟩
    obtain ⟨e, rfl, ⟨hfetched, hkept⟩ | hlapsed⟩ := hs.kept r keys hold
    · -- a fresh entry keeps its keys; any other one is older than the window
      by_cases hfresh : e.fresh c.now = true
      · have heq : attempted (some e) c.now = { e with attemptedAt := c.now } := if_pos hfresh
        exact .inl (heq ▸ ⟨hfetched, hkept⟩)
      · rw [CachedKeys.fresh, hfetched] at hfresh
        have hage : ¬c.now - r.call.now < jwksCacheSeconds := fun hlt => hfresh (decide_eq_true hlt)
        exact .inr (by rw [hat]; linarith)
    · obtain ⟨r', hr', hnow⟩ := hs.past e rfl
      have hle := hclock r' hr'
      exact .inr (by rw [hat]; linarith)
  · intro r hr
    refine ⟨_, rfl, ?_⟩
    rw [hat]
    rcases triedSince_snoc.mp hr with ⟨rfl, -⟩ | ⟨hold, -⟩
    · exact le_rfl
    · exact hclock r hold.2.mem
  · intro e he
    obtain rfl := Option.some.inj he
    exact ⟨_, List.mem_append_right _ (List.mem_singleton_self _), hat.symm⟩

theorem stands_fetched {result : Except String κ} (hclock : ∀ r ∈ h, r.call.now ≤ c.now) :
    Stands (h ++ [⟨c, { result := result, fetched := some (.ok keys) }⟩]) c.pair (some ⟨keys, some c.now, c.now⟩) := by
  have hkeys : Record.fetchedKeys (κ := κ) c.pair ⟨c, { result := result, fetched := some (.ok keys) }⟩ keys := ⟨rfl, rfl⟩
  constructor
  · intro e t he ht
    obtain rfl := Option.some.inj he
    obtain rfl := Option.some.inj ht
    exact ⟨_, latestFetch_snoc.mpr (.inl ⟨rfl, hkeys⟩), rfl⟩
  · intro r keys' hr
    rcases latestFetch_snoc.mp hr with ⟨rfl, hnew⟩ | ⟨-, -, hold⟩
    · exact ⟨_, rfl, .inl ⟨rfl, Except.ok.inj (Option.some.inj hnew.2)⟩⟩
    · exact (hold ⟨keys, hkeys⟩).elim
  · intro r hr
    refine ⟨_, rfl, ?_⟩
    rcases triedSince_snoc.mp hr with ⟨rfl, -⟩ | ⟨hold, -⟩
    · exact le_rfl
    · exact hclock r hold.2.mem
  · intro e he
    obtain rfl := Option.some.inj he
    exact ⟨_, List.mem_append_right _ (List.mem_singleton_self _), rfl⟩

/-- One call keeps every entry true to the history. -/
theorem stands_key (hs : ∀ p, Stands h p (Dict.get cache p)) (hclock : ∀ r ∈ h, r.call.now ≤ c.now) (p : Pair) :
    Stands (h ++ [⟨c, (key jwk cache c).2⟩]) p (Dict.get (key jwk cache c).1 p) := by
  obtain ⟨hown, hothers⟩ := key_spec jwk cache c
  by_cases hp : p = c.pair
  · subst hp
    have hs := hs c.pair
    generalize Dict.get (key jwk cache c).1 c.pair = entry', (key jwk cache c).2 = answer at hown
    cases hown with
    | cached | busy => exact stands_other hs c.trusted (.inl rfl)
    | failed => exact stands_failed hs hclock
    | fetched => exact stands_fetched hclock
  · rw [hothers p hp]
    split
    · next htrust => exact stands_other (hs p) htrust (.inr (Ne.symm hp))
    · next htrust => exact stands_untrusted htrust (Ne.symm hp)

/-! ## Runs -/

theorem run_snoc (calls : List Call) (c : Call) : run jwk (calls ++ [c]) =
    ((key jwk (run jwk calls).1 c).1, (run jwk calls).2 ++ [⟨c, (key jwk (run jwk calls).1 c).2⟩]) := by
  rw [run, List.foldl_append]
  rfl

variable {calls : List Call}

theorem mem_run {r : Record κ} (hr : r ∈ (run jwk calls).2) : r.call ∈ calls := by
  induction calls using List.reverseRecOn with
  | nil => cases hr
  | append_singleton calls c ih =>
    rw [run_snoc] at hr
    rcases List.mem_append.mp hr with hold | hnew
    · exact List.mem_append_left _ (ih hold)
    · obtain rfl := List.mem_singleton.mp hnew
      exact List.mem_append_right _ (List.mem_singleton_self c)

theorem clock_before (hclock : (calls ++ [c]).Pairwise fun a b => a.now ≤ b.now) {r : Record κ}
    (hr : r ∈ (run jwk calls).2) : r.call.now ≤ c.now :=
  (List.pairwise_append.mp hclock).2.2 r.call (mem_run hr) c (List.mem_singleton_self c)

theorem stands_run (hclock : calls.Pairwise fun a b => a.now ≤ b.now) (p : Pair) :
    Stands (run jwk calls).2 p (Dict.get (run jwk calls).1 p) := by
  induction calls using List.reverseRecOn generalizing p with
  | nil => exact stands_nil p
  | append_singleton calls c ih =>
    rw [run_snoc]
    exact stands_key (ih (List.pairwise_append.mp hclock).1) (fun r hr => clock_before hclock hr) p

/-- What a call gives after a history `h`. -/
structure Honest (jwk : Jwk κ) (h : List (Record κ)) (c : Call) (a : Answer κ) : Prop where
  /-- A key is one of the present fetch, or of the last one, which is younger than the window. -/
  fresh : ∀ k, a.result = .ok k → (∃ keys, a.fetched = some (.ok keys) ∧ refresh jwk c = .ok keys ∧ Dict.get keys c.kid = some k) ∨
    a.fetched = none ∧ ∃ r keys, LatestFetch c.pair h r keys ∧ Dict.get keys c.kid = some k ∧ c.now - r.call.now < jwksCacheSeconds
  /-- Two fetches for a pair that is trusted all the while. -/
  spaced : a.fetched.isSome → ∀ r, TriedSince c.pair h r → jwksRefreshInterval ≤ c.now - r.call.now
  /-- Inside the window every key of the last fetch is handed out, whatever failed or was asked for in vain since. -/
  usable : ∀ r keys k, LatestFetch c.pair h r keys → Dict.get keys c.kid = some k → c.now - r.call.now < jwksCacheSeconds →
    a.result = .ok k ∧ a.fetched = none
  /-- A refresh that fails after the window leaves no key behind. -/
  lapsed : ∀ before d after, h = before ++ d :: after → d.tried c.pair → (∀ d' ∈ d :: after, ¬∃ keys, d'.fetchedKeys c.pair keys) →
    (∀ r keys, LatestFetch c.pair before r keys → jwksCacheSeconds ≤ d.call.now - r.call.now) → ∀ k, a.result = .ok k → a.fetched.isSome
  /-- Nothing that was fetched before a configuration without the pair comes back. -/
  removed : ∀ before d after, h = before ++ d :: after → ¬d.trusts c.pair → ∀ k, a.result = .ok k → a.fetched = none →
    ∃ r ∈ after, ∃ keys, r.fetchedKeys c.pair keys ∧ Dict.get keys c.kid = some k

/-- What is fetched later is the last that was fetched. -/
theorem latestFetch_of_append {before after : List (Record κ)} (hr : LatestFetch p (before ++ after) r keys)
    (hnone : ∀ r' ∈ after, ¬∃ keys', r'.fetchedKeys p keys') : LatestFetch p before r keys := by
  induction after using List.reverseRecOn with
  | nil => rwa [List.append_nil] at hr
  | append_singleton after b ih =>
    rw [← List.append_assoc] at hr
    rcases latestFetch_snoc.mp hr with ⟨-, hnew⟩ | ⟨hold, -⟩
    · exact (hnone b (by simp) ⟨keys, hnew⟩).elim
    · exact ih hold fun r' hr' => hnone r' (List.mem_append_left _ hr')

/-- **A key is never stale, fetches are spaced, and what is fetched stays usable for the window**, in every run of calls whose
clock does not go back. -/
theorem keys_honest (jwk : Jwk κ) {calls : List Call} {c : Call} (hclock : (calls ++ [c]).Pairwise fun a b => a.now ≤ b.now) :
    Honest jwk (run jwk calls).2 c (key jwk (run jwk calls).1 c).2 := by
  have hstands : Stands (run jwk calls).2 c.pair (Dict.get (run jwk calls).1 c.pair) := stands_run (List.pairwise_append.mp hclock).1 c.pair
  have hbefore : ∀ r ∈ (run jwk calls).2, r.call.now ≤ c.now := fun r hr => clock_before hclock hr
  obtain ⟨hstep, -⟩ := key_spec jwk (run jwk calls).1 c
  generalize (run jwk calls).2 = h, Dict.get (run jwk calls).1 c.pair = entry, Dict.get (key jwk (run jwk calls).1 c).1 c.pair = entry',
    (key jwk (run jwk calls).1 c).2 = a at hstands hbefore hstep
  have hfresh : ∀ k, a.result = .ok k →
      (∃ keys, a.fetched = some (.ok keys) ∧ refresh jwk c = .ok keys ∧ Dict.get keys c.kid = some k) ∨
      a.fetched = none ∧ ∃ r keys, LatestFetch c.pair h r keys ∧ Dict.get keys c.kid = some k ∧ c.now - r.call.now < jwksCacheSeconds := by
    intro k hk
    cases hstep with
    | cached hentry ht hage hget =>
      obtain ⟨r, hr, rfl⟩ := hstands.fetched _ _ hentry ht
      obtain rfl := Except.ok.inj hk
      exact .inr ⟨rfl, r, _, hr, hget, hage⟩
    | busy | failed => cases hk
    | fetched hrefresh => exact .inl ⟨_, rfl, hrefresh, expect_eq_ok.mp hk⟩
  have hcached : ∀ r keys k, LatestFetch c.pair h r keys → Dict.get keys c.kid = some k → c.now - r.call.now < jwksCacheSeconds →
      cachedKey entry c = some k := by
    intro r keys k hr hget hage
    obtain ⟨e, rfl, ⟨hfetched, rfl⟩ | hlapsed⟩ := hstands.kept r keys hr
    · have hyoung : e.fresh c.now = true := by
        rw [CachedKeys.fresh, hfetched]
        exact decide_eq_true hage
      exact (if_pos hyoung).trans hget
    · obtain ⟨r', hr', hnow⟩ := hstands.past e rfl
      have hle := hbefore r' hr'
      exact absurd hage (by linarith)
  constructor
  · exact hfresh
  · intro hsome r hr
    obtain ⟨e, he, hnow⟩ := hstands.tried r hr
    cases hstep with
    | cached | busy => cases hsome
    | failed _ _ hlate | fetched _ _ hlate =>
      have hgap := hlate e he
      linarith
  · intro r keys k hr hget hage
    have hk := hcached r keys k hr hget hage
    cases hstep with
    | cached hentry ht hage' hget' =>
      obtain ⟨e, t, hentry', ht', -, hget''⟩ := cachedKey_some hk
      obtain rfl := Option.some.inj (hentry.symm.trans hentry')
      exact ⟨congrArg _ (Option.some.inj (hget'.symm.trans hget'')), rfl⟩
    | busy _ hnone | failed _ hnone | fetched _ hnone => cases hk.symm.trans hnone
  · intro before d after hsplit _ hnone hage k hk
    rcases hfresh k hk with ⟨keys, hfetched, -, -⟩ | ⟨-, r, keys, hr, -, hyoung⟩
    · rw [hfetched]
      rfl
    · rw [hsplit] at hr
      have hgap := hage r keys (latestFetch_of_append hr hnone)
      have hle := hbefore d (hsplit ▸ by simp)
      exact absurd hyoung (by linarith)
  intro before d after hsplit htrust k hk hnone
  rcases hfresh k hk with ⟨keys, hfetched, -, -⟩ | ⟨-, r, keys, hr, hget, -⟩
  · rw [hnone] at hfetched
    cases hfetched
  rw [hsplit] at hr
  have hnot : ¬(d.trusts c.pair ∧ ¬∃ keys', d.fetchedKeys c.pair keys') := fun hd => htrust hd.1
  rcases hr.2.eq_or_before hnot with rfl | hmem
  · have htrusted : c.pair ∈ r.call.config.issuerJwks := hr.1.1 ▸ r.call.trusted
    exact (htrust htrusted).elim
  · exact ⟨r, hmem, keys, hr.1, hget⟩

end Entry

/-! ## A refresh for a key that is not there -/

/-- Key documents that are their kid, all of them large enough. -/
def plainJwk : Jwk String where
  dumpsLength := fun _ => 64
  fromDict := fun item => kidOf item
  keySize := fun _ => some 2048

def askAt (now : ℚ) (kid : String) (published : List String) : Call where
  config := ⟨[("https://issuer", "https://issuer/jwks")]⟩
  issuer := "https://issuer"
  uri := "https://issuer/jwks"
  kid := kid
  now := now
  outcome := .ok (.obj [("keys", .arr (published.map fun kid => .obj [("kty", .str "RSA"), ("kid", .str kid)]))])
  trusted := List.mem_singleton_self _

theorem keys_honest_rotated : ([askAt 0 "a" ["a", "b"]] ++ [askAt 40 "c" ["a"]]).Pairwise (fun a b => a.now ≤ b.now) ∧
    Honest plainJwk (run plainJwk [askAt 0 "a" ["a", "b"]]).2 (askAt 40 "c" ["a"])
      (key plainJwk (run plainJwk [askAt 0 "a" ["a", "b"]]).1 (askAt 40 "c" ["a"])).2 :=
  ⟨by decide +kernel, keys_honest plainJwk (by decide +kernel)⟩

/-- The issuer rotates `b` out. A request for an unknown `c` fetches the new set, inside the window of the old one, and the key `b` that
was cached until then is refused. -/
theorem negative_refresh_drops : ¬∀ (jwk : Jwk String) (calls : List Call) (c d : Call) (r : Record String) (keys : Dict String String) (k : String),
    ((calls ++ [c, d]).Pairwise fun a b => a.now ≤ b.now) → c.pair = d.pair → c.kid ≠ d.kid →
    LatestFetch d.pair (run jwk calls).2 r keys → Dict.get keys d.kid = some k → d.now - r.call.now < jwksCacheSeconds →
    (key jwk (run jwk calls).1 c).2.result.toOption = none →
    (key jwk (run jwk (calls ++ [c])).1 d).2.result.toOption = some k := by
  intro h
  have hfirst : LatestFetch ("https://issuer", "https://issuer/jwks") (run plainJwk [askAt 0 "a" ["a", "b"]]).2
      ⟨askAt 0 "a" ["a", "b"], (key plainJwk ∅ (askAt 0 "a" ["a", "b"])).2⟩ (Dict.set (Dict.set ∅ "a" "a") "b" "b") :=
    latestFetch_snoc.mpr (.inl ⟨rfl, rfl, rfl⟩)
  have hkey := h plainJwk [askAt 0 "a" ["a", "b"]] (askAt 40 "c" ["a"]) (askAt 41 "b" ["a"]) _ _ "b" (by decide +kernel) rfl (by decide)
    hfirst (by decide +kernel) (by decide +kernel) (by decide +kernel)
  have hnone : (key plainJwk (run plainJwk ([askAt 0 "a" ["a", "b"]] ++ [askAt 40 "c" ["a"]])).1 (askAt 41 "b" ["a"])).2.result.toOption = none := by
    decide +kernel
  rw [hnone] at hkey
  cases hkey

end LingshuGate.ExternalJwt
