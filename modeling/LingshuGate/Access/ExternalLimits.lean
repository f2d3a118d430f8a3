import Mathlib.Data.Rat.Init
import Mathlib.Algebra.Order.Ring.Rat
import Mathlib.Tactic.Linarith
import LingshuGate.Lib.Run
import LingshuGate.Principal

/-!
# Rate and concurrency of external calls (access_control.py:1746-1781)

`AccessControlStore` keeps, per grant, a window of admission times and a count of running calls,
both under one lock; `invoke_tool` (access_control.py:1957, :2093) acquires before it dispatches
and releases the lease in `finally`.

| here | there |
| --- | --- |
| `Limiter`                   | `_external_windows`, `_external_active` |
| `limits`                    | the choice of `grant_id`, `rate`, `concurrency` (:1747-1757) |
| `prune`                     | the `for key in list(self._external_windows)` loop (:1762-1768) |
| `acquireExternalInvocation` | `_acquire_external_invocation` |
| `releaseExternalInvocation` | `_release_external_invocation` |

Each iteration of the loop touches its own key only, so the dictionaries are maps and `prune` acts
pointwise. `monotonic()` is a rational. `Sys` adds what the claims are about and the code does not
store: the leases not yet released, and every admission so far.
-/

namespace LingshuGate.Limits

structure Limiter where
  windows : String → Option (List ℚ)
  active : String → Option Int

def Limiter.empty : Limiter := ⟨fun _ => none, fun _ => none⟩

/-- `self._external_active.get(key, 0)`. -/
def Limiter.count (l : Limiter) (g : String) : Int := (l.active g).getD 0

def Limiter.window (l : Limiter) (g : String) : List ℚ := (l.windows g).getD []

def put {α : Type} (m : String → Option α) (k : String) (v : α) : String → Option α :=
  fun x => if x = k then some v else m x

/-- What the caller is limited by: nothing, or a key with its rate and concurrency. -/
inductive Quota where
  | unlimited
  | limited (grant : String) (rate concurrency : Int)
  deriving DecidableEq

/-- access_control.py:1747-1757; a token without quota and a session have no lease. -/
def limits (p : AuthPrincipal) : Quota :=
  match p.authType with
  | .token =>
    if p.apiTokenRatePerMinute = 0 ∧ p.apiTokenConcurrency = 0 then .unlimited
    else .limited ("api-token:" ++ p.tokenId.getD "None") p.apiTokenRatePerMinute p.apiTokenConcurrency
  | .oauth => .limited (p.externalGrantId.getD "") p.externalRatePerMinute p.externalConcurrency
  | .session | .disabled => .unlimited

/-- `while window and window[0] <= now - 60: window.popleft()`. -/
def trim (now : ℚ) (w : List ℚ) : List ℚ := w.dropWhile (· ≤ now - 60)

/-- An entry goes once its trimmed window is empty and nothing of the grant runs. -/
def idle (now : ℚ) (l : Limiter) (key : String) : Bool :=
  match l.windows key with
  | some w => (trim now w).isEmpty && l.count key == 0
  | none => false

def prune (now : ℚ) (l : Limiter) : Limiter where
  windows key := if idle now l key then none else (l.windows key).map (trim now)
  active key := if idle now l key then none else l.active key

def denied (reason : String) : AccessDenied := ⟨reason, "invoke", "none"⟩

def unavailable : AccessDenied := denied "external invocation limits are unavailable"
def rateExceeded : AccessDenied := denied "external invocation rate limit exceeded"
def concurrencyExceeded : AccessDenied := denied "external invocation concurrency limit exceeded"

/-- The loop, then `setdefault(grant_id, deque())`: both come before the two refusals. -/
def ready (now : ℚ) (g : String) (l : Limiter) : Limiter :=
  { prune now l with windows := put (prune now l).windows g ((prune now l).window g) }

/-- The critical section (:1760-1776) for one key. -/
def enter (now : ℚ) (g : String) (rate concurrency : Int) (l : Limiter) :
    Except AccessDenied (Option String) × Limiter :=
  let l := ready now g l
  if rate ≤ (l.window g).length then (.error rateExceeded, l)
  else if concurrency ≤ l.count g then (.error concurrencyExceeded, l)
  else (.ok (some g),
    { windows := put l.windows g (l.window g ++ [now]), active := put l.active g (l.count g + 1) })

def acquireExternalInvocation (now : ℚ) (p : AuthPrincipal) (l : Limiter) :
    Except AccessDenied (Option String) × Limiter :=
  match limits p with
  | .unlimited => (.ok none, l)
  | .limited g rate concurrency =>
    if g = "" ∨ rate < 1 ∨ concurrency < 1 then (.error unavailable, l)
    else enter now g rate concurrency l

/-- `self._external_active[grant_id] -= 1`; `none` is the `KeyError`. -/
def releaseExternalInvocation (lease : Option String) (l : Limiter) : Option Limiter :=
  match lease with
  | none => some l
  | some g => (l.active g).map fun n => { l with active := put l.active g (n - 1) }

/-! ## The system: callers, leases, a clock -/

structure Admission where
  grant : String
  time : ℚ
  rate : Int
  concurrency : Int
  deriving DecidableEq

structure Sys where
  limiter : Limiter
  clock : ℚ
  /-- leases handed out and not yet released -/
  leases : List String
  /-- newest first -/
  admissions : List Admission

def Sys.init (t : ℚ) : Sys := ⟨.empty, t, [], []⟩

inductive Event where
  | acquire (p : AuthPrincipal) (now : ℚ) (result : Except AccessDenied (Option String))
  | release (lease : String)

/-- The admission a successful acquire of a limited caller makes. -/
def admissionOf (p : AuthPrincipal) (now : ℚ) : Except AccessDenied (Option String) → Option Admission
  | .ok (some _) =>
    match limits p with
    | .limited g rate concurrency => some ⟨g, now, rate, concurrency⟩
    | .unlimited => none
  | _ => none

/-- One call. The clock does not go back; a lease is released by the call that holds it. A release
that raises `KeyError` would leave the limiter as it was. -/
inductive Step : Sys → Event → Sys → Prop
  | acquire {s : Sys} {p : AuthPrincipal} {now : ℚ} (hclock : s.clock ≤ now) :
    Step s (.acquire p now (acquireExternalInvocation now p s.limiter).1)
      { limiter := (acquireExternalInvocation now p s.limiter).2
        clock := now
        leases := ((admissionOf p now (acquireExternalInvocation now p s.limiter).1).map
          Admission.grant).toList ++ s.leases
        admissions := (admissionOf p now (acquireExternalInvocation now p s.limiter).1).toList ++
          s.admissions }
  | release {s : Sys} {g : String} (hlease : g ∈ s.leases) :
    Step s (.release g)
      { s with
        limiter := (releaseExternalInvocation (some g) s.limiter).getD s.limiter
        leases := s.leases.erase g }

/-! ## One call -/

theorem put_self {α : Type} (m : String → Option α) (k : String) (v : α) : put m k v k = some v := by
  simp [put]

theorem put_ne {α : Type} (m : String → Option α) {k x : String} (v : α) (h : x ≠ k) :
    put m k v x = m x := by
  simp [put, h]

/-- A window is sorted, so what the `popleft` loop leaves is what is younger than a minute. -/
theorem trim_eq_filter (now : ℚ) {w : List ℚ} (hw : w.Pairwise (· ≤ ·)) :
    trim now w = w.filter (now - 60 < ·) := by
  induction w with
  | nil => rfl
  | cons t w ih =>
    obtain ⟨ht, hw⟩ := List.pairwise_cons.1 hw
    unfold trim at ih ⊢
    by_cases hc : t ≤ now - 60
    · simp only [List.dropWhile_cons, hc, decide_true, if_true, List.filter_cons, not_lt.2 hc,
        decide_false, Bool.false_eq_true, if_false]
      exact ih hw
    · have hall : ∀ x ∈ w, now - 60 < x := fun x hx => (not_le.1 hc).trans_le (ht x hx)
      simp only [List.dropWhile_cons, hc, decide_false, Bool.false_eq_true, if_false,
        List.filter_cons, not_le.1 hc, decide_true, if_true]
      rw [List.filter_eq_self.2 (by simpa using hall)]

theorem prune_count (now : ℚ) (l : Limiter) (g : String) : (prune now l).count g = l.count g := by
  by_cases hi : idle now l g
  · have h0 : l.count g = 0 := by
      unfold idle at hi
      split at hi
      · simp only [Bool.and_eq_true, beq_iff_eq] at hi; exact hi.2
      · cases hi
    rw [h0]; simp [Limiter.count, prune, hi]
  · simp [Limiter.count, prune, hi]

theorem prune_window (now : ℚ) (l : Limiter) (g : String) :
    (prune now l).window g = trim now (l.window g) := by
  by_cases hi : idle now l g
  · have h0 : trim now (l.window g) = [] := by
      unfold idle at hi
      unfold Limiter.window
      split at hi
      · rename_i w hw
        simp only [Bool.and_eq_true, List.isEmpty_iff] at hi
        rw [hw]; exact hi.1
      · cases hi
    rw [h0]; simp [Limiter.window, prune, hi]
  · cases hw : l.windows g <;> simp [Limiter.window, prune, hi, hw, trim]

theorem ready_count (now : ℚ) (g : String) (l : Limiter) (k : String) :
    (ready now g l).count k = l.count k :=
  prune_count now l k

theorem ready_window (now : ℚ) (g : String) (l : Limiter) (k : String) :
    (ready now g l).window k = trim now (l.window k) := by
  rw [← prune_window]
  by_cases hk : k = g
  · subst hk; simp [ready, Limiter.window, put]
  · simp [ready, Limiter.window, put, hk]

/-- What the critical section can do: refuse on a full window, refuse on a full count, or enter. -/
theorem enter_cases (now : ℚ) (g : String) (rate concurrency : Int) (l : Limiter) :
    (enter now g rate concurrency l = (.error rateExceeded, ready now g l) ∧
      rate ≤ (trim now (l.window g)).length) ∨
    (enter now g rate concurrency l = (.error concurrencyExceeded, ready now g l) ∧
      concurrency ≤ l.count g) ∨
    (enter now g rate concurrency l = (.ok (some g),
        { windows := put (ready now g l).windows g (trim now (l.window g) ++ [now])
          active := put (ready now g l).active g (l.count g + 1) }) ∧
      ((trim now (l.window g)).length : Int) < rate ∧ l.count g < concurrency) := by
  unfold enter
  rw [← ready_window now g l g, ← ready_count now g l g]
  by_cases hr : rate ≤ ((ready now g l).window g).length
  · exact .inl ⟨by simp [hr], hr⟩
  · by_cases hc : concurrency ≤ (ready now g l).count g
    · exact .inr (.inl ⟨by simp [hr, hc], hc⟩)
    · exact .inr (.inr ⟨by simp [hr, hc], not_le.1 hr, not_le.1 hc⟩)

/-- What an acquire can do: no lease, no limits, or the critical section. -/
theorem acquire_cases (now : ℚ) (p : AuthPrincipal) (l : Limiter) :
    (limits p = .unlimited ∧ acquireExternalInvocation now p l = (.ok none, l)) ∨
    (acquireExternalInvocation now p l = (.error unavailable, l)) ∨
    ∃ g rate concurrency, limits p = .limited g rate concurrency ∧ 1 ≤ rate ∧ 1 ≤ concurrency ∧
      acquireExternalInvocation now p l = enter now g rate concurrency l := by
  unfold acquireExternalInvocation
  cases hl : limits p with
  | unlimited => exact .inl ⟨rfl, rfl⟩
  | limited g rate concurrency =>
    by_cases hb : g = "" ∨ rate < 1 ∨ concurrency < 1
    · exact .inr (.inl (by simp [hb]))
    · refine .inr (.inr ⟨g, rate, concurrency, rfl, ?_, ?_, by simp [hb]⟩)
      · exact not_lt.1 fun h => hb (.inr (.inl h))
      · exact not_lt.1 fun h => hb (.inr (.inr h))

/-! ## The invariant -/

/-- Admission times of a grant, oldest first. -/
def times (as : List Admission) (g : String) : List ℚ :=
  ((as.filter (·.grant = g)).map Admission.time).reverse

/-- The concurrency the newest admission of the grant was given. -/
def givenConcurrency (as : List Admission) (g : String) : Int :=
  ((as.find? (·.grant = g)).map Admission.concurrency).getD 0

/-- The earlier admissions that the window of admission `a` has to count: same grant, `(t-60, t]`. -/
def inWindow (a : Admission) (earlier : List Admission) : List Admission :=
  earlier.filter fun b => b.grant = a.grant ∧ a.time - 60 < b.time ∧ b.time ≤ a.time

structure Inv (s : Sys) : Prop where
  count : ∀ g, s.limiter.count g = s.leases.count g
  /-- a counted grant has a window entry, so the loop finds it again -/
  entry : ∀ g, s.limiter.windows g = none → s.limiter.active g = none
  sorted : ∀ g, (s.limiter.window g).Pairwise (· ≤ ·)
  past : ∀ a ∈ s.admissions, a.time ≤ s.clock
  windowPast : ∀ g, ∀ t ∈ s.limiter.window g, t ≤ s.clock
  /-- trimming lost nothing that is younger than a minute -/
  recent : ∀ g θ, s.clock - 60 ≤ θ →
    (s.limiter.window g).filter (θ < ·) = (times s.admissions g).filter (θ < ·)
  given : ∀ g, s.limiter.count g ≤ givenConcurrency s.admissions g
  rate : ∀ later a earlier, s.admissions = later ++ a :: earlier →
    ((inWindow a earlier).length : Int) < a.rate

theorem inv_init (t : ℚ) : Inv (.init t) where
  count _ := rfl
  entry _ _ := rfl
  sorted _ := .nil
  past := by simp [Sys.init]
  windowPast := by simp [Sys.init, Limiter.window, Limiter.empty]
  recent _ _ _ := rfl
  given _ := by simp [Sys.init, Limiter.count, Limiter.empty, givenConcurrency]
  rate := by simp [Sys.init]

variable {s : Sys}

variable {now : ℚ}

theorem inv_tick (hi : Inv s) (hc : s.clock ≤ now) : Inv { s with clock := now } where
  count := hi.count
  entry := hi.entry
  sorted := hi.sorted
  past a ha := (hi.past a ha).trans hc
  windowPast g t ht := (hi.windowPast g t ht).trans hc
  recent g θ hθ := hi.recent g θ (by linarith)
  given := hi.given
  rate := hi.rate

/-- The loop drops entries and old times, nothing that counts. -/
theorem inv_ready (g : String) (hi : Inv s) (hc : s.clock ≤ now) :
    Inv { s with limiter := ready now g s.limiter, clock := now } where
  count k := (ready_count now g s.limiter k).trans (hi.count k)
  entry k hk := by
    have hkg : k ≠ g := by
      rintro rfl; simp [ready, put] at hk
    simp only [ready, put_ne _ _ hkg, prune] at hk ⊢
    by_cases hidle : idle now s.limiter k
    · simp [hidle]
    · simp only [hidle, Bool.false_eq_true, if_false, Option.map_eq_none_iff] at hk ⊢
      exact hi.entry k hk
  sorted k := by
    rw [ready_window, trim_eq_filter now (hi.sorted k)]
    exact (hi.sorted k).filter _
  past a ha := (hi.past a ha).trans hc
  windowPast k t ht := by
    rw [ready_window, trim_eq_filter now (hi.sorted k)] at ht
    exact (hi.windowPast k t (List.mem_filter.1 ht).1).trans hc
  recent k θ hθ := by
    rw [ready_window, trim_eq_filter now (hi.sorted k), ← hi.recent k θ (by linarith), List.filter_filter]
    refine List.filter_congr fun t _ => ?_
    by_cases ht : θ < t
    · simp [ht, lt_of_le_of_lt hθ ht]
    · simp [ht]
  given k := (ready_count now g s.limiter k).trans_le (hi.given k)
  rate := hi.rate

theorem times_cons (a : Admission) (as : List Admission) (g : String) :
    times (a :: as) g = times as g ++ if a.grant = g then [a.time] else [] := by
  by_cases h : a.grant = g <;> simp [times, h]

/-- What the code counts before an admission is what the claim counts: earlier admissions of the
grant in the last minute. -/
theorem inWindow_length (hi : Inv s) (a : Admission) (ha : a.time = s.clock) :
    (inWindow a s.admissions).length = ((s.limiter.window a.grant).filter (s.clock - 60 < ·)).length := by
  rw [hi.recent a.grant _ le_rfl, times, ← List.map_reverse, List.filter_map, List.length_map,
    List.filter_reverse, List.length_reverse, List.filter_filter, inWindow]
  congr 1
  refine List.filter_congr fun b hb => ?_
  have hpast := hi.past b hb
  rw [ha]
  by_cases hg : b.grant = a.grant <;> simp [hg, hpast]

variable {g : String}

variable {rate concurrency : Int}

theorem inv_enter (hi : Inv s) (hr : ((s.limiter.window g).length : Int) < rate) (hc : s.limiter.count g < concurrency) :
    Inv { limiter := { windows := put s.limiter.windows g (s.limiter.window g ++ [s.clock])
                       active := put s.limiter.active g (s.limiter.count g + 1) }
          clock := s.clock
          leases := g :: s.leases
          admissions := ⟨g, s.clock, rate, concurrency⟩ :: s.admissions } where
  count k := by
    by_cases hk : k = g
    · subst hk; simp [Limiter.count, put, ← hi.count k]
    · have := hi.count k
      simp only [Limiter.count] at this
      simp [Limiter.count, put, hk, this, Ne.symm hk]
  entry k hk := by
    by_cases hkg : k = g
    · subst hkg; simp [put] at hk
    · simp only [put_ne _ _ hkg] at hk ⊢; exact hi.entry k hk
  sorted k := by
    by_cases hk : k = g
    · subst hk
      simp only [Limiter.window, put_self, Option.getD_some]
      refine List.pairwise_append.2 ⟨hi.sorted k, List.pairwise_singleton _ _, fun x hx y hy => ?_⟩
      rw [List.mem_singleton.1 hy]; exact hi.windowPast k x hx
    · simpa only [Limiter.window, put_ne _ _ hk] using hi.sorted k
  past a ha := by
    rcases List.mem_cons.1 ha with rfl | ha
    · exact le_rfl
    · exact hi.past a ha
  windowPast k t ht := by
    by_cases hk : k = g
    · subst hk
      simp only [Limiter.window, put_self, Option.getD_some, List.mem_append, List.mem_singleton] at ht
      rcases ht with ht | rfl
      · exact hi.windowPast k t ht
      · exact le_rfl
    · exact hi.windowPast k t (by simpa only [Limiter.window, put_ne _ _ hk] using ht)
  recent k θ hθ := by
    have hold := hi.recent k θ hθ
    rw [times_cons]
    by_cases hk : k = g
    · subst hk
      simp only [Limiter.window, put_self, Option.getD_some, List.filter_append, if_true]
      rw [← hold]; rfl
    · simp only [Ne.symm hk, if_false, List.append_nil, ← hold, Limiter.window, put_ne _ _ hk]
  given k := by
    by_cases hk : k = g
    · subst hk
      have : s.limiter.count k + 1 ≤ concurrency := hc
      simpa [Limiter.count, put, givenConcurrency] using this
    · have := hi.given k
      simpa [Limiter.count, put, hk, givenConcurrency, List.find?_cons, Ne.symm hk] using this
  rate later a earlier heq := by
    cases later with
    | nil =>
      obtain ⟨rfl, rfl⟩ := List.cons_eq_cons.1 heq
      rw [inWindow_length hi _ rfl]
      exact lt_of_le_of_lt (by exact_mod_cast List.length_filter_le _ _) hr
    | cons b later => exact hi.rate later a earlier (List.cons_eq_cons.1 heq).2

/-- A held lease has its count: the release cannot hit a missing key. -/
theorem lease_active (hi : Inv s) (hg : g ∈ s.leases) : ∃ n, s.limiter.active g = some n := by
  cases ha : s.limiter.active g with
  | some n => exact ⟨n, rfl⟩
  | none =>
    have hc := hi.count g
    have : 0 < s.leases.count g := List.count_pos_iff.2 hg
    simp only [Limiter.count, ha, Option.getD_none] at hc
    omega

theorem inv_release (hi : Inv s) (hg : g ∈ s.leases) : Inv { s with
          limiter := (releaseExternalInvocation (some g) s.limiter).getD s.limiter
          leases := s.leases.erase g } := by
  obtain ⟨n, hn⟩ := lease_active hi hg
  have hrel : (releaseExternalInvocation (some g) s.limiter).getD s.limiter =
      { s.limiter with active := put s.limiter.active g (n - 1) } := by
    simp [releaseExternalInvocation, hn]
  have hpos : 0 < s.leases.count g := List.count_pos_iff.2 hg
  have hcg : n = s.leases.count g := by simpa [Limiter.count, hn] using hi.count g
  rw [hrel]
  refine ⟨fun k => ?_, fun k hk => ?_, hi.sorted, hi.past, hi.windowPast, hi.recent, fun k => ?_, hi.rate⟩
  · by_cases hk : k = g
    · subst hk
      simp only [Limiter.count, put_self, Option.getD_some, List.count_erase_self]
      omega
    · have := hi.count k
      simp only [Limiter.count] at this
      simp [Limiter.count, put, hk, this, List.count_erase_of_ne hk]
  · have hkg : k ≠ g := by
      rintro rfl; rw [hi.entry k hk] at hn; cases hn
    simp only [put_ne _ _ hkg]; exact hi.entry k hk
  by_cases hk : k = g
  · subst hk
    have := hi.given k
    simp only [Limiter.count, hn, Option.getD_some, put_self] at this ⊢
    omega
  · have := hi.given k
    simpa [Limiter.count, put, hk] using this

/-- One call keeps the invariant. -/
theorem inv_step {s s' : Sys} {e : Event} (hi : Inv s) (h : Step s e s') : Inv s' := by
  cases h with
  | release hg => exact inv_release hi hg
  | @acquire p now hc =>
    rcases acquire_cases now p s.limiter with ⟨_, heq⟩ | heq | ⟨g, rate, conc, hlim, _, _, heq⟩
    · rw [heq]; exact inv_tick hi hc
    · rw [heq]; exact inv_tick hi hc
    rw [heq]
    have hready := inv_ready g hi hc
    rcases enter_cases now g rate conc s.limiter with ⟨ha, _⟩ | ⟨ha, _⟩ | ⟨ha, hr, hn⟩
    · rw [ha]; exact hready
    · rw [ha]; exact hready
    rw [ha]
    rw [← ready_window now g s.limiter g] at hr
    rw [← ready_count now g s.limiter g] at hn
    have := @inv_enter _ g rate conc hready hr hn
    simp only [ready_window, ready_count] at this
    simpa only [admissionOf, hlim, Option.map_some, Option.toList_some, List.singleton_append]
      using this

theorem inv_reachable {t : ℚ} (h : Lib.Reachable Step (.init t) s) : Inv s :=
  h.invariant (inv_init t) fun _ _ _ => inv_step

/-! ## Refusals and idle entries -/

variable {p : AuthPrincipal}

/-- A refused acquire drops old admission times and touches nothing else. -/
theorem refused (hi : Inv s) {d : AccessDenied} {l' : Limiter}
    (h : acquireExternalInvocation now p s.limiter = (.error d, l')) (g : String) :
    l'.count g = s.limiter.count g ∧
      (l'.window g = s.limiter.window g ∨ l'.window g = (s.limiter.window g).filter (now - 60 < ·)) := by
  have hready : ∀ k, (ready now k s.limiter).count g = s.limiter.count g ∧
      (ready now k s.limiter).window g = (s.limiter.window g).filter (now - 60 < ·) := fun k =>
    ⟨ready_count now k _ g, by rw [ready_window, trim_eq_filter now (hi.sorted g)]⟩
  rcases acquire_cases now p s.limiter with ⟨_, heq⟩ | heq | ⟨k, rate, conc, _, _, _, heq⟩
  · rw [heq] at h; cases h
  · rw [heq] at h; cases h; exact ⟨rfl, .inl rfl⟩
  · rw [heq] at h
    rcases enter_cases now k rate conc s.limiter with ⟨ha, _⟩ | ⟨ha, _⟩ | ⟨ha, _⟩
    · rw [ha] at h; cases h; exact ⟨(hready k).1, .inr (hready k).2⟩
    · rw [ha] at h; cases h; exact ⟨(hready k).1, .inr (hready k).2⟩
    · rw [ha] at h; cases h

/-- The caller reaches the critical section: it is limited, and its limits are usable. -/
def Limited (p : AuthPrincipal) : Prop :=
  ∃ g rate concurrency, limits p = .limited g rate concurrency ∧ g ≠ "" ∧ 1 ≤ rate ∧ 1 ≤ concurrency

theorem acquire_limited (now : ℚ) (l : Limiter)
    (hl : limits p = .limited g rate concurrency) (hg : g ≠ "") (hr : 1 ≤ rate) (hc : 1 ≤ concurrency) :
    acquireExternalInvocation now p l = enter now g rate concurrency l := by
  unfold acquireExternalInvocation
  simp only [hl, hg, not_lt.2 hr, not_lt.2 hc, or_self, if_false]

/-- After the loop every entry left of another grant is in use. -/
theorem ready_in_use (now : ℚ) (g : String) (l : Limiter) {k : String} (hk : k ≠ g)
    (h : (ready now g l).windows k ≠ none) : trim now (l.window k) ≠ [] ∨ l.count k ≠ 0 := by
  simp only [ready, put_ne _ _ hk, prune] at h
  by_cases hidle : idle now l k
  · simp [hidle] at h
  by_contra hcon
  push Not at hcon
  simp only [hidle, Bool.false_eq_true, if_false, ne_eq, Option.map_eq_none_iff] at h
  obtain ⟨w, hw⟩ := Option.ne_none_iff_exists'.1 h
  apply hidle
  simp only [idle, hw, Bool.and_eq_true, List.isEmpty_iff, beq_iff_eq]
  exact ⟨by simpa [Limiter.window, hw] using hcon.1, hcon.2⟩

/-- An entry that survives a limited acquire has a call running or a time younger than a minute. -/
theorem enter_in_use (hi : Inv s) (hr : 1 ≤ rate) (hc : 1 ≤ concurrency) (k : String)
    (h : (enter now g rate concurrency s.limiter).2.windows k ≠ none) :
    (∃ t ∈ (enter now g rate concurrency s.limiter).2.window k, now - 60 < t) ∨
      (enter now g rate concurrency s.limiter).2.count k ≠ 0 := by
  have htrim : ∀ k, trim now (s.limiter.window k) ≠ [] →
      ∃ t ∈ trim now (s.limiter.window k), now - 60 < t := fun k hne => by
    obtain ⟨t, ht⟩ := List.exists_mem_of_ne_nil _ hne
    refine ⟨t, ht, ?_⟩
    rw [trim_eq_filter now (hi.sorted k)] at ht
    simpa using (List.mem_filter.1 ht).2
  have hother : k ≠ g → (ready now g s.limiter).windows k ≠ none →
      (∃ t ∈ (ready now g s.limiter).window k, now - 60 < t) ∨ (ready now g s.limiter).count k ≠ 0 := by
    intro hk hw
    rw [ready_window, ready_count]
    exact (ready_in_use now g s.limiter hk hw).imp_left (htrim k)
  rcases enter_cases now g rate concurrency s.limiter with ⟨ha, hfull⟩ | ⟨ha, hfull⟩ | ⟨ha, -, -⟩
  · rw [ha] at h ⊢
    by_cases hk : k = g
    · subst hk
      refine .inl ?_
      rw [ready_window]
      exact htrim k (by rintro h0; rw [h0] at hfull; simp at hfull; omega)
    · exact hother hk h
  · rw [ha] at h ⊢
    by_cases hk : k = g
    · subst hk
      refine .inr ?_
      rw [ready_count]; omega
    · exact hother hk h
  rw [ha] at h ⊢
  by_cases hk : k = g
  · subst hk
    exact .inl ⟨now, by simp [Limiter.window, put], by linarith⟩
  · simp only [Limiter.window, Limiter.count, put_ne _ _ hk] at h ⊢
    exact hother hk h

theorem idle_removed {s s' : Sys} (hi : Inv s)
    {r : Except AccessDenied (Option String)} (hp : Limited p) (h : Step s (.acquire p now r) s')
    (k : String) (hold : ∀ a ∈ s'.admissions, a.grant = k → a.time ≤ now - 60) (hl : k ∉ s'.leases) :
    s'.limiter.windows k = none ∧ s'.limiter.active k = none := by
  have hi' := inv_step hi h
  have hclock : s'.clock = now := by cases h; rfl
  suffices hw : s'.limiter.windows k = none from ⟨hw, hi'.entry k hw⟩
  by_contra hw
  have hcount : s'.limiter.count k = 0 := by rw [hi'.count, List.count_eq_zero_of_not_mem hl]; rfl
  have huse : (∃ t ∈ s'.limiter.window k, now - 60 < t) ∨ s'.limiter.count k ≠ 0 := by
    obtain ⟨g, rate, conc, hlim, hg, hr, hc⟩ := hp
    cases h with
    | acquire _ =>
      simp only [acquire_limited now s.limiter hlim hg hr hc] at hw ⊢
      exact enter_in_use hi hr hc k hw
  obtain ⟨t, ht, hlt⟩ := huse.resolve_right (not_not.2 hcount)
  -- a young time in the window is a young admission, which `hold` excludes
  have hmem : t ∈ (times s'.admissions k).filter (now - 60 < ·) := by
    rw [← hi'.recent k _ (by rw [hclock])]
    exact List.mem_filter.2 ⟨ht, by simpa using hlt⟩
  obtain ⟨a, ha, rfl⟩ : ∃ a ∈ s'.admissions.filter (·.grant = k), a.time = t := by
    simpa [times] using (List.mem_filter.1 hmem).1
  obtain ⟨ha, hak⟩ := List.mem_filter.1 ha
  exact absurd (hold a ha (by simpa using hak)) (not_le.2 hlt)

/-- **External call limits.** In every state reached by acquires and releases of any callers:
a release of a held lease finds its key; the count of a grant is the number of its held leases and
at most the concurrency its newest admission was given; every admission had fewer than its rate of
earlier ones in its last minute; a refused acquire changes no count and only drops old times; and a
limited acquire removes every entry with neither a lease nor an admission in the last minute. -/
theorem external_call_limits {t₀ : ℚ} {s : Sys} (h : Lib.Reachable Step (.init t₀) s) :
    (∀ g ∈ s.leases, (releaseExternalInvocation (some g) s.limiter).isSome) ∧
    (∀ g, s.limiter.count g = s.leases.count g ∧
      s.limiter.count g ≤ givenConcurrency s.admissions g) ∧
    (∀ later a earlier, s.admissions = later ++ a :: earlier →
      ((inWindow a earlier).length : Int) < a.rate) ∧
    (∀ p now d l', s.clock ≤ now → acquireExternalInvocation now p s.limiter = (.error d, l') →
      ∀ g, l'.count g = s.limiter.count g ∧ (l'.window g = s.limiter.window g ∨
        l'.window g = (s.limiter.window g).filter (now - 60 < ·))) ∧
    (∀ p now r s', Limited p → Step s (.acquire p now r) s' →
      ∀ g, (∀ a ∈ s'.admissions, a.grant = g → a.time ≤ now - 60) → g ∉ s'.leases →
        s'.limiter.windows g = none ∧ s'.limiter.active g = none) := by
  have hi := inv_reachable h
  refine ⟨fun g hg => ?_, fun g => ⟨hi.count g, hi.given g⟩, hi.rate,
    fun p now d l' _ hacq g => refused hi hacq g,
    fun p now r s' hp hstep g => idle_removed hi hp hstep g⟩
  obtain ⟨n, hn⟩ := lease_active hi hg
  simp [releaseExternalInvocation, hn]

/-- A caller with one call a minute and one at a time. -/
def oneCallCaller : AuthPrincipal where
  id := "u"
  role := "viewer"
  authType := .oauth
  externalGrantId := some "g"
  externalRatePerMinute := 1
  externalConcurrency := 1

theorem external_call_limits_one_lease :
    ∃ s : Sys, Lib.Reachable Step (.init 0) s ∧ s.leases = ["g"] ∧
      (releaseExternalInvocation (some "g") s.limiter).isSome := by
  have hstep := @Step.acquire (.init 0) oneCallCaller 1 (by decide)
  have hreach : Lib.Reachable Step (.init 0) _ := ⟨_, (Lib.Run.nil _).snoc hstep⟩
  exact ⟨_, hreach, by decide, (external_call_limits hreach).1 "g" (by decide)⟩

end LingshuGate.Limits
