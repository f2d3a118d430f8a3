import LingshuGate.Runtime.StdioClient

/-!
# Every response goes to the request it answers (`mcp_stdio_client.py`)

`Sound` is what holds of the client between two statements, `Thread.Local` what a thread knows where it is. No two
threads share an id or a process (`Thread.Apart`), so what a statement does to another thread is one relation, `Leaves`.

The step that carries the argument is the check of the generation before the write: an entry made for a start can only
be in the map while that start is the current one, and a queue that is not in the map gets nothing.
-/

namespace LingshuGate.Stdio

open Lib

variable {x x' : Client} {c : Call} {encode : Json → Nat → Except String Nat} {limits : OutcomeLimits} {met : Met}

/-! ## Assertions -/

/-- A message that a request can conclude with. -/
def Usable (message : Json) : Prop := isResponse message = true ∨ (message.get? "error").isSome

/-- What a retained outcome keeps was sent for it. -/
def Client.Answers (x : Client) (handle generation : Nat) (id : Int) (message : Json) : Prop :=
  ∃ number, x.sent[number]? = some (generation, message) ∧ responseId message = some id ∧ (number, .outcome handle) ∈ x.delivered

structure Sound (x : Client) : Prop where
  entry : ∀ i q, x.responses i = some q → i = q ∧ q < x.ids ∧ x.queues q = none ∧ ∀ k, (k, .waiter q) ∉ x.delivered
  queued : ∀ q m, x.queues q = some m → responseId m = some q ∧ Usable m ∧
    ∃ k g, x.sent[k]? = some (g, m) ∧ (k, .waiter q) ∈ x.delivered
  numbered : ∀ k t, (k, t) ∈ x.delivered → k < x.sent.length
  known : ∀ k q, (k, .waiter q) ∈ x.delivered → q < x.ids
  once : ∀ k t t', (k, t) ∈ x.delivered → (k, t') ∈ x.delivered → t = t'
  outcomes : OutcomeStore.Wf x.Answers x.outcomes

/-- Nobody but its request has heard of this id. -/
structure Fresh (x : Client) (n : Nat) : Prop where
  known : n < x.ids
  noEntry : ∀ i, x.responses i ≠ some n
  empty : x.queues n = none
  undelivered : ∀ k, (k, .waiter n) ∉ x.delivered

/-- Whatever was put in the queue is still there. -/
structure Registered (x : Client) (c : Call) : Prop where
  known : c.id < x.ids
  untaken : ∀ k, (k, .waiter c.id) ∈ x.delivered → (x.queues c.id).isSome
  started : c.generation ≤ x.generation
  process : c.process.isSome

/-- Whatever was put in the queue came from the process of this start. -/
def FromStart (x : Client) (c : Call) : Prop :=
  ∀ k, (k, .waiter c.id) ∈ x.delivered → ∃ m, x.sent[k]? = some (c.generation, m)

structure Waits (x : Client) (c : Call) : Prop extends Registered x c where
  fromStart : FromStart x c
  current : ∀ i, x.responses i = some c.id → x.generation = c.generation

structure Over (x : Client) (c : Call) (how : Ended) : Prop where
  known : c.id < x.ids
  noEntry : ∀ i, x.responses i ≠ some c.id
  kept : how = .timeout ∨ how = .exited → ∀ k, (k, .waiter c.id) ∉ x.delivered
  returned : ∀ v, how = .returned v → ∃ message result, (c.generation, message) ∈ x.sent ∧ isResponse message = true ∧
    responseId message = some c.id ∧ message.get? "result" = some result ∧ v = asObject result

def RequestPc.Local (x : Client) : RequestPc → Prop
  | .takingGeneration _ process => process.isSome
  | .takingId _ process generation => process.isSome ∧ generation ≤ x.generation
  | .registering c => Fresh x c.id ∧ c.process.isSome ∧ c.generation ≤ x.generation
  | .writing c => Registered x c ∧ (c.generation = x.generation → FromStart x c)
  | .unregistering c => c.id < x.ids
  | .loop _ c | .failing c | .leaving c | .expiring c => Waits x c
  | .ended c how => Over x c how
  | .entering _ | .takingProcess _ | .refused => True

/-- The message a reader holds was sent by its process and went nowhere yet. -/
def ReaderPc.Local (x : Client) (generation : Nat) : ReaderPc → Prop
  | .matching k m => x.sent[k]? = some (generation, m) ∧ ∀ t, (k, t) ∉ x.delivered
  | .reading | .oversized | .closing | .closed => True

def Thread.Local (x : Client) : Thread → Prop
  | .request pc => pc.Local x
  | .reader generation pc => generation ≤ x.generation ∧ pc.Local x generation
  | _ => True

def RequestPc.id : RequestPc → Option Nat
  | .registering c | .writing c | .unregistering c | .loop _ c | .failing c | .leaving c | .expiring c | .ended c _ => some c.id
  | _ => none

def Thread.id : Thread → Option Nat
  | .request pc => pc.id
  | _ => none

def Thread.reads : Thread → Option Nat
  | .reader generation _ => some generation
  | _ => none

def Thread.Apart (t u : Thread) : Prop :=
  (∀ n, t.id = some n → u.id ≠ some n) ∧ ∀ g, t.reads = some g → u.reads ≠ some g

variable {pc : RequestPc}

theorem RequestPc.Local.known {n : Nat} (h : pc.Local x) (hn : pc.id = some n) : n < x.ids := by
  cases pc with
  | registering c | writing c => cases hn; exact h.1.known
  | unregistering c => cases hn; exact h
  | loop _ c | failing c | leaving c | expiring c => cases hn; exact (Waits.toRegistered h).known
  | ended c _ => cases hn; exact Over.known h
  | entering | takingProcess | takingGeneration | takingId | refused => cases hn

/-! ## What a statement leaves to the other threads -/

/-- A statement of the thread with the id `n`, or of the reader of the start `g`. -/
structure Leaves (n g : Option Nat) (x x' : Client) : Prop where
  generation : x.generation ≤ x'.generation
  ids : x.ids ≤ x'.ids
  sent : x.sent <+: x'.sent
  responses : ∀ i q, n ≠ some q → x'.responses i = some q → x.responses i = some q ∧ x'.generation = x.generation
  queues : ∀ q m, n ≠ some q → x.queues q = some m → x'.queues q = some m
  empty : ∀ q, n ≠ some q → x.queues q = none → (∀ i, x.responses i ≠ some q) → x'.queues q = none
  delivered : ∀ k t, (k, t) ∈ x'.delivered → (k, t) ∈ x.delivered ∨
    g = some x.generation ∧ (∃ m, x.sent[k]? = some (x.generation, m)) ∧ x'.generation = x.generation ∧
      ∀ q, t = .waiter q → (∃ i, x.responses i = some q) ∧ (x'.queues q).isSome

/-- A statement that touches nothing of these. -/
theorem Leaves.of_same {n g : Option Nat} (hgeneration : x'.generation = x.generation) (hids : x'.ids = x.ids)
    (hsent : x'.sent = x.sent) (hresponses : x'.responses = x.responses) (hqueues : x'.queues = x.queues)
    (hdelivered : x'.delivered = x.delivered) : Leaves n g x x' where
  generation := Nat.le_of_eq hgeneration.symm
  ids := Nat.le_of_eq hids.symm
  sent := hsent ▸ List.prefix_refl _
  responses := fun _ _ _ h => ⟨hresponses ▸ h, hgeneration⟩
  queues := fun _ _ _ h => hqueues ▸ h
  empty := fun _ _ h _ => hqueues ▸ h
  delivered := fun _ _ h => .inl (hdelivered ▸ h)

theorem sent_kept {k : Nat} {a : Nat × Json} (h : x.sent <+: x'.sent) (hk : x.sent[k]? = some a) : x'.sent[k]? = some a := by
  obtain ⟨hlt, rfl⟩ := List.getElem?_eq_some_iff.mp hk
  exact List.prefix_iff_getElem?.mp h k hlt

section Others

variable {n g : Option Nat} (h : Leaves n g x x')

include h

theorem Leaves.fresh {q : Nat} (hq : Fresh x q) (hn : n ≠ some q) : Fresh x' q where
  known := Nat.lt_of_lt_of_le hq.known h.ids
  noEntry := fun i hi => hq.noEntry i (h.responses i q hn hi).1
  empty := h.empty q hn hq.empty hq.noEntry
  undelivered := by
    intro k hk
    rcases h.delivered k _ hk with hk | ⟨-, -, -, hk⟩
    · exact hq.undelivered k hk
    · obtain ⟨⟨i, hi⟩, -⟩ := hk q rfl
      exact hq.noEntry i hi

theorem Leaves.registered (hc : Registered x c) (hn : n ≠ some c.id) : Registered x' c where
  known := Nat.lt_of_lt_of_le hc.known h.ids
  untaken := by
    intro k hk
    rcases h.delivered k _ hk with hk | ⟨-, -, -, hk⟩
    · obtain ⟨m, hm⟩ := Option.isSome_iff_exists.mp (hc.untaken k hk)
      rw [h.queues _ _ hn hm]
      rfl
    · exact (hk c.id rfl).2
  started := Nat.le_trans hc.started h.generation
  process := hc.process

/-- While its start is the current one, a queue only gets what that start's process sent. -/
theorem Leaves.fromStart (hc : FromStart x c) (hcurrent : ∀ i, x.responses i = some c.id → x.generation = c.generation) :
    FromStart x' c := by
  intro k hk
  rcases h.delivered k _ hk with hk | ⟨-, ⟨m, hm⟩, -, hk⟩
  · obtain ⟨m, hm⟩ := hc k hk
    exact ⟨m, sent_kept h.sent hm⟩
  · obtain ⟨⟨i, hi⟩, -⟩ := hk c.id rfl
    exact ⟨m, sent_kept h.sent (hcurrent i hi ▸ hm)⟩

theorem Leaves.waits (hc : Waits x c) (hn : n ≠ some c.id) : Waits x' c where
  toRegistered := h.registered hc.toRegistered hn
  fromStart := h.fromStart hc.fromStart hc.current
  current := by
    intro i hi
    obtain ⟨hi, hsame⟩ := h.responses i _ hn hi
    exact hsame.trans (hc.current i hi)

theorem Leaves.over {how : Ended} (hc : Over x c how) (hn : n ≠ some c.id) : Over x' c how where
  known := Nat.lt_of_lt_of_le hc.known h.ids
  noEntry := fun i hi => hc.noEntry i (h.responses i _ hn hi).1
  kept := by
    intro hhow k hk
    rcases h.delivered k _ hk with hk | ⟨-, -, -, hk⟩
    · exact hc.kept hhow k hk
    · obtain ⟨⟨i, hi⟩, -⟩ := hk c.id rfl
      exact hc.noEntry i hi
  returned := by
    intro v hv
    obtain ⟨message, result, hsent, hrest⟩ := hc.returned v hv
    exact ⟨message, result, h.sent.subset hsent, hrest⟩

theorem Leaves.request (hpc : pc.Local x) (hn : ∀ q, pc.id = some q → n ≠ some q) : pc.Local x' := by
  cases pc with
  | entering | takingProcess | refused => trivial
  | takingGeneration => exact hpc
  | takingId => exact ⟨hpc.1, Nat.le_trans hpc.2 h.generation⟩
  | registering c => exact ⟨h.fresh hpc.1 (hn _ rfl), hpc.2.1, Nat.le_trans hpc.2.2 h.generation⟩
  | writing c =>
    refine ⟨h.registered hpc.1 (hn _ rfl), ?_⟩
    -- the generation never comes back, so it was the same before
    intro hsame
    have hbefore : c.generation = x.generation :=
      Nat.le_antisymm hpc.1.started (Nat.le_trans h.generation (Nat.le_of_eq hsame.symm))
    exact h.fromStart (hpc.2 hbefore) fun _ _ => hbefore.symm
  | unregistering c => exact Nat.lt_of_lt_of_le hpc h.ids
  | loop _ c | failing c | leaving c | expiring c => exact h.waits hpc (hn _ rfl)
  | ended c how => exact h.over hpc (hn _ rfl)

theorem Leaves.reader {generation : Nat} {pc : ReaderPc} (hpc : pc.Local x generation) (hg : g ≠ some generation) :
    pc.Local x' generation := by
  cases pc with
  | reading | oversized | closing | closed => trivial
  | matching k m =>
    obtain ⟨hsent, hnowhere⟩ := hpc
    refine ⟨sent_kept h.sent hsent, ?_⟩
    intro t ht
    rcases h.delivered k t ht with ht | ⟨hgen, ⟨m', hm'⟩, -⟩
    · exact hnowhere t ht
    · rw [hsent] at hm'
      cases hm'
      exact hg hgen

theorem Leaves.thread {t : Thread} (ht : t.Local x) (hn : ∀ q, t.id = some q → n ≠ some q)
    (hg : ∀ generation, t.reads = some generation → g ≠ some generation) : t.Local x' := by
  cases t with
  | request pc => exact h.request ht hn
  | reader generation pc => exact ⟨Nat.le_trans ht.1 h.generation, h.reader ht.2 (hg _ rfl)⟩
  | launching | swapping | stopping | clearing | interrupting | outcome | done => trivial

end Others

/-! ## What a statement keeps of the client -/

/-- Where only the order of things the client never looks up together changes. -/
theorem Sound.of_same (h : Sound x) (hids : x'.ids = x.ids) (hsent : x'.sent = x.sent) (hqueues : x'.queues = x.queues)
    (hdelivered : x'.delivered = x.delivered) (hresponses : ∀ i q, x'.responses i = some q → x.responses i = some q)
    (houtcomes : OutcomeStore.Wf x.Answers x'.outcomes) : Sound x' where
  entry := by
    intro i q hi
    rw [hids, hqueues, hdelivered]
    exact h.entry i q (hresponses i q hi)
  queued := by
    rw [hqueues, hsent, hdelivered]
    exact h.queued
  numbered := by
    rw [hsent, hdelivered]
    exact h.numbered
  known := by
    rw [hids, hdelivered]
    exact h.known
  once := by
    rw [hdelivered]
    exact h.once
  outcomes := houtcomes.mono fun a g i m hm => by
    simpa only [Client.Answers, hsent, hdelivered] using hm

theorem popOwn_responses {n q : Nat} {i : Int} (h : (x.popOwn n).responses i = some q) : x.responses i = some q := by
  unfold Client.popOwn at h
  split at h
  · simp only [Function.update_apply] at h
    split at h
    · cases h
    · exact h
  · exact h

theorem popOwn_eq (x : Client) (n : Nat) : x.popOwn n = { x with responses := (x.popOwn n).responses } := by
  unfold Client.popOwn
  split <;> rfl

/-- An entry is under its own id, so none is left. -/
theorem Sound.popOwn_noEntry (h : Sound x) (n : Nat) (i : Int) : (x.popOwn n).responses i ≠ some n := by
  intro hi
  have hbefore := popOwn_responses hi
  obtain ⟨rfl, -⟩ := h.entry i n hbefore
  simp [Client.popOwn, hbefore] at hi

theorem Sound.popOwn (h : Sound x) (n : Nat) : Sound (x.popOwn n) := by
  rw [popOwn_eq]
  exact h.of_same rfl rfl rfl rfl (fun _ _ => popOwn_responses) h.outcomes

theorem popOwn_leaves (n : Nat) : Leaves (some n) none x (x.popOwn n) := by
  rw [popOwn_eq]
  exact ⟨Nat.le_refl _, Nat.le_refl _, List.prefix_refl _, fun _ _ _ hi => ⟨popOwn_responses hi, rfl⟩, fun _ _ _ h => h,
    fun _ _ h _ => h, fun _ _ h => .inl h⟩

theorem Sound.take (h : Sound x) (n : Nat) : Sound (x.take n) where
  entry := by
    intro i q hi
    obtain ⟨hiq, hids, hempty, hnot⟩ := h.entry i q hi
    refine ⟨hiq, hids, ?_, hnot⟩
    simp only [Client.take, Function.update_apply]
    split
    · rfl
    · exact hempty
  queued := by
    intro q m hm
    simp only [Client.take, Function.update_apply] at hm
    split at hm
    · cases hm
    · exact h.queued q m hm
  numbered := h.numbered
  known := h.known
  once := h.once
  outcomes := h.outcomes

theorem take_leaves (n : Nat) : Leaves (some n) none x (x.take n) where
  generation := Nat.le_refl _
  ids := Nat.le_refl _
  sent := List.prefix_refl _
  responses := fun _ _ _ hi => ⟨hi, rfl⟩
  queues := by
    intro q m hn hm
    have hne : q ≠ n := fun he => hn (he ▸ rfl)
    simpa [Client.take, Function.update_apply, hne] using hm
  empty := by
    intro q _ hq _
    simp only [Client.take, Function.update_apply]
    split
    · rfl
    · exact hq
  delivered := fun _ _ h => .inl h

/-- **A request concludes with what it was sent.** A message that was put in its queue answers it. -/
theorem Waits.concludes {m : Json} (h : Waits x c) (hx : Sound x) (hm : x.queues c.id = some m) :
    Over (x.take c.id) c (concluded m) := by
  obtain ⟨hid, husable, k, g, hsent, hk⟩ := hx.queued _ _ hm
  obtain ⟨m', hfrom⟩ := h.fromStart k hk
  rw [hsent] at hfrom
  cases hfrom
  refine ⟨h.known, ?_, ?_, ?_⟩
  · intro i hi
    obtain ⟨-, -, -, hnot⟩ := hx.entry i _ hi
    exact hnot k hk
  · unfold concluded
    split <;> simp
  intro v hv
  unfold concluded at hv
  split at hv
  · cases hv
  rename_i herror
  -- there is no error, so it is a response and has a result
  have hresponse : isResponse m = true := by
    rcases husable with hm | hm
    · exact hm
    · rw [herror] at hm
      cases hm
  cases hresult : m.get? "result" with
  | none => simp [isResponse, hresult, herror] at hresponse
  | some result =>
    rw [hresult] at hv
    cases hv
    exact ⟨m, result, List.mem_of_getElem? hsent, hresponse, hid, hresult, rfl⟩

/-- Where nothing is in the queue and the entry is gone, nothing was put there and nothing will be. -/
theorem Waits.leaves_empty {how : Ended} (h : Waits x c) (hx : Sound x) (hempty : x.queues c.id = none)
    (hids : x'.ids = x.ids) (hdelivered : x'.delivered = x.delivered) (hresponses : x'.responses = (x.popOwn c.id).responses)
    (hhow : ∀ v, how ≠ .returned v) : Over x' c how where
  known := hids ▸ h.known
  noEntry := fun i => hresponses ▸ hx.popOwn_noEntry c.id i
  kept := by
    intro _ k hk
    have hsome := h.untaken k (hdelivered ▸ hk)
    rw [hempty] at hsome
    cases hsome
  returned := fun v hv => absurd hv (hhow v)

theorem expire_eq (x : Client) (c : Call) (now : Nat) : x.expire limits c now =
    { x with responses := (x.popOwn c.id).responses, outcomes := (x.expire limits c now).outcomes } := by
  unfold Client.expire Client.popOwn
  split <;> rfl

theorem Sound.expire_outcomes (h : Sound x) (c : Call) (now : Nat) :
    OutcomeStore.Wf x.Answers (x.expire limits c now).outcomes := by
  have hretain := h.outcomes.retain limits now c.id c.generation c.id c.method
  unfold Client.expire
  dsimp only
  split
  · exact hretain.interruptGeneration now c.generation
  · exact hretain

theorem Sound.expire (h : Sound x) (c : Call) (now : Nat) : Sound (x.expire limits c now) := by
  rw [expire_eq]
  exact h.of_same rfl rfl rfl rfl (fun _ _ => popOwn_responses) (h.expire_outcomes c now)

theorem expire_leaves (now : Nat) : Leaves (some c.id) none x (x.expire limits c now) := by
  rw [expire_eq]
  exact ⟨Nat.le_refl _, Nat.le_refl _, List.prefix_refl _, fun _ _ _ hi => ⟨popOwn_responses hi, rfl⟩, fun _ _ _ h => h,
    fun _ _ h _ => h, fun _ _ h => .inl h⟩

/-! ## One statement of a request -/

theorem Sound.nextId (h : Sound x) : Sound { x with ids := x.ids + 1 } where
  entry := by
    intro i q hi
    obtain ⟨hiq, hids, hrest⟩ := h.entry i q hi
    exact ⟨hiq, Nat.lt_succ_of_lt hids, hrest⟩
  queued := h.queued
  numbered := h.numbered
  known := fun k q hk => Nat.lt_succ_of_lt (h.known k q hk)
  once := h.once
  outcomes := h.outcomes

theorem Sound.fresh_next (h : Sound x) : Fresh { x with ids := x.ids + 1 } x.ids where
  known := Nat.lt_succ_self _
  noEntry := fun i hi => Nat.lt_irrefl _ (h.entry i _ hi).2.1
  empty := by
    cases hq : x.queues x.ids with
    | none => rfl
    | some m =>
      obtain ⟨-, -, k, g, -, hk⟩ := h.queued _ _ hq
      exact absurd (h.known k _ hk) (Nat.lt_irrefl _)
  undelivered := fun k hk => Nat.lt_irrefl _ (h.known k _ hk)

theorem nextId_leaves : Leaves none none x { x with ids := x.ids + 1 } where
  generation := Nat.le_refl _
  ids := Nat.le_succ _
  sent := List.prefix_refl _
  responses := fun _ _ _ hi => ⟨hi, rfl⟩
  queues := fun _ _ _ h => h
  empty := fun _ _ h _ => h
  delivered := fun _ _ h => .inl h

theorem Sound.register {n : Nat} (h : Sound x) (hn : Fresh x n) :
    Sound { x with responses := Function.update x.responses n (some n) } where
  entry := by
    intro i q hi
    simp only [Function.update_apply] at hi
    split at hi
    · next hin =>
      cases hi
      exact ⟨hin, hn.known, hn.empty, hn.undelivered⟩
    · exact h.entry i q hi
  queued := h.queued
  numbered := h.numbered
  known := h.known
  once := h.once
  outcomes := h.outcomes

theorem register_leaves (n : Nat) : Leaves (some n) none x { x with responses := Function.update x.responses n (some n) } where
  generation := Nat.le_refl _
  ids := Nat.le_refl _
  sent := List.prefix_refl _
  responses := by
    intro i q hn hi
    simp only [Function.update_apply] at hi
    split at hi
    · cases hi
      exact absurd rfl hn
    · exact ⟨hi, rfl⟩
  queues := fun _ _ _ h => h
  empty := fun _ _ h _ => h
  delivered := fun _ _ h => .inl h

/-- What one statement of a thread has to show. -/
structure Kept (n g : Option Nat) (x x' : Client) (own : Prop) : Prop where
  sound : Sound x'
  leaves : Leaves n g x x'
  own : own

theorem Kept.same {n g : Option Nat} {own : Prop} (hx : Sound x) (h : own) : Kept n g x x own :=
  ⟨hx, .of_same rfl rfl rfl rfl rfl rfl, h⟩

theorem request_kept (hx : Sound x) (hpc : pc.Local x) (horderly : orderly x (.request pc) = true) :
    Kept pc.id none x (request limits x met pc).1 ((request limits x met pc).2.Local (request limits x met pc).1) := by
  cases pc with
  | entering method =>
    simp only [request]
    split <;> exact .same hx trivial
  | takingProcess method => exact .same hx horderly
  | takingGeneration method process => exact .same hx ⟨hpc, Nat.le_refl _⟩
  | takingId method process generation =>
    exact ⟨hx.nextId, nextId_leaves, hx.fresh_next, hpc.1, hpc.2⟩
  | registering c =>
    obtain ⟨hfresh, hprocess, hgeneration⟩ := hpc
    refine ⟨hx.register hfresh, register_leaves c.id, ⟨hfresh.known, ?_, hgeneration, hprocess⟩, ?_⟩
    · exact fun k hk => absurd hk (hfresh.undelivered k)
    · exact fun _ k hk => absurd hk (hfresh.undelivered k)
  | writing c =>
    simp only [request]
    split
    · exact .same hx hpc.1.known
    · next hwritten =>
      simp only [Bool.or_eq_true, not_or, decide_eq_true_eq, not_not, Bool.not_eq_true] at hwritten
      exact .same hx ⟨hpc.1, hpc.2 hwritten.2, fun _ _ => hwritten.2.symm⟩
  | unregistering c =>
    refine ⟨hx.popOwn c.id, popOwn_leaves c.id, ?_, hx.popOwn_noEntry c.id, ?_, ?_⟩
    · exact (popOwn_eq x c.id ▸ hpc : c.id < (x.popOwn c.id).ids)
    · rintro (h | h) <;> cases h
    · rintro v h
      cases h
  | loop at_ c =>
    have hwaits : Waits x c := hpc
    cases at_ with
    | fatal =>
      simp only [request]
      split <;> exact .same hx hpc
    | poll =>
      have hprocess : c.process.isNone = false := by
        rw [← Option.not_isSome, hwaits.process]
        rfl
      simp only [request, hprocess, Bool.false_eq_true, if_false]
      split <;> exact .same hx hpc
    | clock =>
      simp only [request]
      split <;> exact .same hx hpc
    | get =>
      cases hq : x.queues c.id with
      | none =>
        simp only [request, hq]
        exact .same hx hpc
      | some m =>
        simp only [request, hq]
        exact ⟨hx.take c.id, take_leaves c.id, hwaits.concludes hx hq⟩
  | failing c =>
    have hwaits : Waits x c := hpc
    refine ⟨hx.popOwn c.id, popOwn_leaves c.id, ?_, hx.popOwn_noEntry c.id, ?_, ?_⟩
    · exact (popOwn_eq x c.id ▸ hwaits.known : c.id < (x.popOwn c.id).ids)
    · rintro (h | h) <;> cases h
    · rintro v h
      cases h
  | leaving c =>
    have hwaits : Waits x c := hpc
    cases hq : x.queues c.id with
    | none =>
      simp only [request, hq]
      refine ⟨hx.popOwn c.id, popOwn_leaves c.id, hwaits.leaves_empty hx hq ?_ ?_ rfl (by simp)⟩
      · rw [popOwn_eq]
      · rw [popOwn_eq]
    | some m =>
      simp only [request, hq]
      exact ⟨hx.take c.id, take_leaves c.id, hwaits.concludes hx hq⟩
  | expiring c =>
    have hwaits : Waits x c := hpc
    cases hq : x.queues c.id with
    | none =>
      simp only [request, hq]
      refine ⟨hx.expire c met.now, expire_leaves met.now, hwaits.leaves_empty hx hq ?_ ?_ rfl (by simp)⟩
      · rw [expire_eq]
      · rw [expire_eq]
    | some m =>
      simp only [request, hq]
      exact ⟨hx.take c.id, take_leaves c.id, hwaits.concludes hx hq⟩
  | refused => exact .same hx trivial
  | ended c how => exact .same hx hpc

/-! ## One statement of a reader -/

/-- The message goes to the waiter of its id. -/
theorem deliver_waiter {generation k q : Nat} {m : Json} {i : Int} (hx : Sound x) (hm : x.sent[k]? = some (generation, m))
    (hnowhere : ∀ t, (k, t) ∉ x.delivered) (hid : responseId m = some i) (hcurrent : generation = x.generation)
    (hentry : x.responses i = some q) (husable : Usable m) :
    Kept none (some generation) x { x with
      responses := Function.update x.responses i none
      queues := Function.update x.queues q (some m)
      delivered := x.delivered ++ [(k, .waiter q)] } True := by
  obtain ⟨rfl, hknown, hempty, hundelivered⟩ := hx.entry i q hentry
  have hother : ∀ i' q', Function.update x.responses (q : Int) none i' = some q' → x.responses i' = some q' ∧ q' ≠ q := by
    intro i' q' hi'
    rw [Function.update_apply] at hi'
    split at hi'
    · cases hi'
    · next hne =>
      refine ⟨hi', ?_⟩
      rintro rfl
      exact hne (hx.entry _ _ hi').1
  have hnew : ∀ k' t, (k', t) ∈ x.delivered ++ [(k, Target.waiter q)] → (k', t) ∈ x.delivered ∨ k' = k ∧ t = .waiter q := by
    intro k' t ht
    simpa using ht
  refine ⟨⟨?_, ?_, ?_, ?_, ?_, ?_⟩, ⟨Nat.le_refl _, Nat.le_refl _, List.prefix_refl _, ?_, ?_, ?_, ?_⟩, trivial⟩
  · intro i' q' hi'
    obtain ⟨hi', hne⟩ := hother i' q' hi'
    obtain ⟨hiq, hids, hempty', hnot⟩ := hx.entry i' q' hi'
    refine ⟨hiq, hids, ?_, ?_⟩
    · simpa [Function.update_apply, hne] using hempty'
    intro k' hk'
    rcases hnew k' _ hk' with hk' | ⟨-, hk'⟩
    · exact hnot k' hk'
    · cases hk'
      exact hne rfl
  · intro q' m' hm'
    simp only [Function.update_apply] at hm'
    split at hm'
    · next heq =>
      subst heq
      cases hm'
      exact ⟨hid, husable, k, generation, hm, List.mem_append_right _ (List.mem_singleton_self _)⟩
    · obtain ⟨hid', husable', k', g', hsent', hk'⟩ := hx.queued q' m' hm'
      exact ⟨hid', husable', k', g', hsent', List.mem_append_left _ hk'⟩
  · intro k' t ht
    rcases hnew k' t ht with ht | ⟨rfl, -⟩
    · exact hx.numbered k' t ht
    · exact (List.getElem?_eq_some_iff.mp hm).1
  · intro k' q' ht
    rcases hnew k' _ ht with ht | ⟨-, ht⟩
    · exact hx.known k' q' ht
    · cases ht
      exact hknown
  · intro k' t t' ht ht'
    rcases hnew k' t ht with ht | ⟨rfl, rfl⟩ <;> rcases hnew _ t' ht' with ht' | ⟨hk', rfl⟩
    · exact hx.once k' t t' ht ht'
    · exact absurd (hk' ▸ ht) (hnowhere t)
    · exact absurd ht' (hnowhere t')
    · rfl
  · refine hx.outcomes.mono ?_
    rintro a g i' m' ⟨k', hsent', hid', hk'⟩
    exact ⟨k', hsent', hid', List.mem_append_left _ hk'⟩
  · intro i' q' _ hi'
    exact ⟨(hother i' q' hi').1, rfl⟩
  · intro q' m' _ hm'
    have hne : q' ≠ q := by
      rintro rfl
      rw [hempty] at hm'
      cases hm'
    simpa [Function.update_apply, hne] using hm'
  · intro q' _ hq' hno
    have hne : q' ≠ q := by
      rintro rfl
      exact hno _ hentry
    simpa [Function.update_apply, hne] using hq'
  intro k' t ht
  rcases hnew k' t ht with ht | ⟨rfl, rfl⟩
  · exact .inl ht
  · refine .inr ⟨hcurrent ▸ rfl, ⟨m, hcurrent ▸ hm⟩, rfl, ?_⟩
    rintro q' hq'
    cases hq'
    exact ⟨⟨_, hentry⟩, by simp⟩

/-- The message completes what is retained for its id, if anything is. -/
theorem deliver_outcome {generation k now : Nat} {m : Json} {i : Int} (hx : Sound x)
    (hm : x.sent[k]? = some (generation, m)) (hnowhere : ∀ t, (k, t) ∉ x.delivered) (hid : responseId m = some i)
    (hcurrent : generation = x.generation) :
    Kept none (some generation) x { x with
      outcomes := (x.outcomes.complete encode limits now generation i m).1
      delivered := x.delivered ++
        ((x.outcomes.complete encode limits now generation i m).2.map fun handle => (k, Target.outcome handle)).toList }
      True := by
  have hnew : ∀ k' t, (k', t) ∈ x.delivered ++
      ((x.outcomes.complete encode limits now generation i m).2.map fun handle => (k, Target.outcome handle)).toList →
      (k', t) ∈ x.delivered ∨ k' = k ∧ ∃ handle, t = .outcome handle ∧
        (x.outcomes.complete encode limits now generation i m).2 = some handle := by
    intro k' t ht
    rcases List.mem_append.mp ht with ht | ht
    · exact .inl ht
    · simp only [Option.mem_toList, Option.map_eq_some_iff, Prod.mk.injEq] at ht
      obtain ⟨handle, hhandle, rfl, rfl⟩ := ht
      exact .inr ⟨rfl, handle, rfl, hhandle⟩
  have hwaiter : ∀ k' q, (k', Target.waiter q) ∈ x.delivered ++
      ((x.outcomes.complete encode limits now generation i m).2.map fun handle => (k, Target.outcome handle)).toList →
      (k', Target.waiter q) ∈ x.delivered := by
    intro k' q ht
    rcases hnew k' _ ht with ht | ⟨-, handle, ht, -⟩
    · exact ht
    · cases ht
  refine ⟨⟨?_, ?_, ?_, ?_, ?_, ?_⟩, ⟨Nat.le_refl _, Nat.le_refl _, List.prefix_refl _, ?_, ?_, ?_, ?_⟩, trivial⟩
  · intro i' q hi'
    obtain ⟨hiq, hids, hempty, hnot⟩ := hx.entry i' q hi'
    exact ⟨hiq, hids, hempty, fun k' hk' => hnot k' (hwaiter k' q hk')⟩
  · intro q m' hm'
    obtain ⟨hid', husable', k', g', hsent', hk'⟩ := hx.queued q m' hm'
    exact ⟨hid', husable', k', g', hsent', List.mem_append_left _ hk'⟩
  · intro k' t ht
    rcases hnew k' t ht with ht | ⟨rfl, -⟩
    · exact hx.numbered k' t ht
    · exact (List.getElem?_eq_some_iff.mp hm).1
  · intro k' q ht
    exact hx.known k' q (hwaiter k' q ht)
  · intro k' t t' ht ht'
    rcases hnew k' t ht with ht | ⟨rfl, handle, rfl, hh⟩ <;> rcases hnew _ t' ht' with ht' | ⟨hk', handle', rfl, hh'⟩
    · exact hx.once k' t t' ht ht'
    · exact absurd (hk' ▸ ht) (hnowhere t)
    · exact absurd ht' (hnowhere t')
    · rw [hh] at hh'
      cases hh'
      rfl
  · refine hx.outcomes.complete ?_ ?_
    · rintro a g i' m' ⟨k', hsent', hid', hk'⟩
      exact ⟨k', hsent', hid', List.mem_append_left _ hk'⟩
    · intro a ha
      refine ⟨k, hm, hid, List.mem_append_right _ ?_⟩
      simp [ha]
  · exact fun _ _ _ hi' => ⟨hi', rfl⟩
  · exact fun _ _ _ h => h
  · exact fun _ _ h _ => h
  intro k' t ht
  rcases hnew k' t ht with ht | ⟨rfl, handle, rfl, -⟩
  · exact .inl ht
  · refine .inr ⟨hcurrent ▸ rfl, ⟨m, hcurrent ▸ hm⟩, rfl, ?_⟩
    rintro q hq
    cases hq

theorem deliver_kept {generation k now : Nat} {m : Json} (hx : Sound x) (hm : x.sent[k]? = some (generation, m))
    (hnowhere : ∀ t, (k, t) ∉ x.delivered) (horderly : orderly x (.reader generation (.matching k m)) = true) :
    Kept none (some generation) x (deliver encode limits x generation k m now).1
      ((deliver encode limits x generation k m now).2.Local (deliver encode limits x generation k m now).1 generation) := by
  unfold deliver
  cases hid : responseId m with
  | none => exact .same hx trivial
  | some i =>
    dsimp only
    split
    · exact .same hx trivial
    rename_i hgeneration
    have hcurrent : generation = x.generation := by simpa using hgeneration
    cases hentry : x.responses i with
    | none =>
      obtain ⟨hsound, hleaves, -⟩ := @deliver_outcome x encode limits generation k now m i hx hm hnowhere hid hcurrent
      exact ⟨hsound, hleaves, trivial⟩
    | some q =>
      have hempty : x.queues q = none := (hx.entry i q hentry).2.2.1
      have husable : Usable m := by simpa [Usable, orderly, hid, hcurrent, hentry] using horderly
      obtain ⟨hsound, hleaves, -⟩ := deliver_waiter hx hm hnowhere hid hcurrent hentry husable
      simp only [hempty, Option.isSome_none, Bool.false_eq_true, if_false]
      exact ⟨hsound, hleaves, trivial⟩

theorem Sound.sends (h : Sound x) (generation : Nat) (m : Json) : Sound { x with sent := x.sent ++ [(generation, m)] } where
  entry := h.entry
  queued := by
    intro q m' hm'
    obtain ⟨hid, husable, k, g, hsent, hk⟩ := h.queued q m' hm'
    exact ⟨hid, husable, k, g, @sent_kept x { x with sent := _ } _ _ (List.prefix_append _ _) hsent, hk⟩
  numbered := by
    intro k t ht
    have hlt := h.numbered k t ht
    simp only [List.length_append, List.length_singleton]
    omega
  known := h.known
  once := h.once
  outcomes := by
    refine h.outcomes.mono ?_
    rintro a g i m' ⟨k, hsent, hid, hk⟩
    exact ⟨k, @sent_kept x { x with sent := _ } _ _ (List.prefix_append _ _) hsent, hid, hk⟩

theorem sends_leaves (generation : Nat) (m : Json) : Leaves none (some generation) x { x with sent := x.sent ++ [(generation, m)] } where
  generation := Nat.le_refl _
  ids := Nat.le_refl _
  sent := List.prefix_append _ _
  responses := fun _ _ _ hi => ⟨hi, rfl⟩
  queues := fun _ _ _ h => h
  empty := fun _ _ h _ => h
  delivered := fun _ _ h => .inl h

/-- A message that was just read went nowhere: what was delivered came before it. -/
theorem Sound.sends_local (h : Sound x) (generation : Nat) (m : Json) :
    (ReaderPc.matching x.sent.length m).Local { x with sent := x.sent ++ [(generation, m)] } generation :=
  ⟨by simp, fun t ht => Nat.lt_irrefl _ (h.numbered _ t ht)⟩

theorem readStdout_kept {generation : Nat} {pc : ReaderPc} (hx : Sound x) (hpc : pc.Local x generation)
    (horderly : orderly x (.reader generation pc) = true) :
    Kept none (some generation) x (readStdout encode limits x met generation pc).1
      ((readStdout encode limits x met generation pc).2.Local (readStdout encode limits x met generation pc).1 generation) := by
  cases pc with
  | reading =>
    cases hline : met.line with
    | none =>
      simp only [readStdout, hline]
      exact .same hx trivial
    | some line =>
      cases line with
      | oversized | skipped =>
        simp only [readStdout, hline]
        split <;> exact .same hx trivial
      | value m =>
        simp only [readStdout, hline]
        split
        · exact ⟨hx.sends generation m, sends_leaves generation m, trivial⟩
        refine ⟨hx.sends generation m, sends_leaves generation m, ?_⟩
        dsimp only
        split
        · exact hx.sends_local generation m
        · trivial
  | matching k m => exact deliver_kept hx hpc.1 hpc.2 horderly
  | oversized =>
    simp only [readStdout]
    split
    · exact .same hx trivial
    · exact ⟨hx.of_same rfl rfl rfl rfl (fun _ _ h => h) hx.outcomes, .of_same rfl rfl rfl rfl rfl rfl, trivial⟩
  | closing =>
    exact ⟨hx.of_same rfl rfl rfl rfl (fun _ _ h => h) (hx.outcomes.interruptGeneration met.now generation),
      .of_same rfl rfl rfl rfl rfl rfl, trivial⟩
  | closed => exact .same hx trivial

/-! ## The other statements -/

theorem swap_kept (hx : Sound x) (now : Nat) : Kept none none x (swap x now).1 ((swap x now).2.Local (swap x now).1) := by
  refine ⟨hx.of_same rfl rfl rfl rfl ?_ (hx.outcomes.interruptGeneration now x.generation), ?_, Nat.le_refl _, trivial⟩
  · intro i q hi
    cases hi
  · refine ⟨Nat.le_succ _, Nat.le_refl _, List.prefix_refl _, ?_, fun _ _ _ h => h, fun _ _ h _ => h, fun _ _ h => .inl h⟩
    intro i q _ hi
    cases hi

variable {t : Thread}

/-- What one statement of a thread keeps: of the client, of itself, and of every other thread. -/
theorem statement_kept (hx : Sound x) (ht : t.Local x) (horderly : orderly x t = true) :
    Kept t.id t.reads x (statement encode limits x t met).1
      ((statement encode limits x t met).2.Local (statement encode limits x t met).1) := by
  cases t with
  | request pc =>
    obtain ⟨hsound, hleaves, hlocal⟩ := @request_kept x limits met pc hx ht horderly
    exact ⟨hsound, hleaves, hlocal⟩
  | launching =>
    simp only [statement]
    split <;> exact .same hx trivial
  | swapping => exact swap_kept hx met.now
  | reader generation pc =>
    obtain ⟨hsound, hleaves, hlocal⟩ := @readStdout_kept x encode limits met generation pc hx ht.2 horderly
    exact ⟨hsound, hleaves, Nat.le_trans ht.1 hleaves.generation, hlocal⟩
  | stopping =>
    simp only [statement]
    split <;> exact .same hx trivial
  | clearing => exact ⟨hx.of_same rfl rfl rfl rfl (fun _ _ h => h) hx.outcomes, .of_same rfl rfl rfl rfl rfl rfl, trivial⟩
  | interrupting =>
    exact ⟨hx.of_same rfl rfl rfl rfl (fun _ _ h => h) (hx.outcomes.interruptGeneration met.now x.generation),
      .of_same rfl rfl rfl rfl rfl rfl, trivial⟩
  | outcome handle =>
    exact ⟨hx.of_same rfl rfl rfl rfl (fun _ _ h => h) (hx.outcomes.get met.now handle met.decodes),
      .of_same rfl rfl rfl rfl rfl rfl, trivial⟩
  | done => exact .same hx trivial

/-! ## Threads stay apart -/

theorem request_id {n : Nat} (h : (request limits x met pc).2.id = some n) : pc.id = some n ∨ n = x.ids := by
  cases pc with
  | takingId method process generation => exact .inr (Option.some.inj h).symm
  | entering | writing =>
    simp only [request] at h
    split at h <;> simp_all [RequestPc.id]
  | loop at_ c =>
    cases at_ with
    | fatal | clock =>
      simp only [request] at h
      split at h <;> exact .inl h
    | poll =>
      simp only [request] at h
      split at h
      · exact .inl h
      · split at h <;> exact .inl h
    | get =>
      simp only [request] at h
      split at h <;> exact .inl h
  | leaving | expiring =>
    simp only [request] at h
    split at h <;> exact .inl h
  | takingProcess | takingGeneration | refused => cases h
  | registering | unregistering | failing | ended => exact .inl h

theorem statement_id {n : Nat} (h : (statement encode limits x t met).2.id = some n) : t.id = some n ∨ n = x.ids := by
  cases t with
  | request pc => exact request_id h
  | launching | stopping =>
    simp only [statement] at h
    split at h <;> cases h
  | swapping | reader | clearing | interrupting | outcome | done => cases h

theorem statement_reads {g : Nat} (h : (statement encode limits x t met).2.reads = some g) :
    t.reads = some g ∨ g = x.generation + 1 := by
  cases t with
  | reader generation pc => exact .inl h
  | swapping => exact .inr (Option.some.inj h).symm
  | launching | stopping =>
    simp only [statement] at h
    split at h <;> cases h
  | request | clearing | interrupting | outcome | done => cases h

theorem Thread.Local.known {n : Nat} (h : t.Local x) (hn : t.id = some n) : n < x.ids := by
  cases t with
  | request pc => exact RequestPc.Local.known h hn
  | launching | swapping | reader | stopping | clearing | interrupting | outcome | done => cases hn

theorem Thread.Local.started {g : Nat} (h : t.Local x) (hg : t.reads = some g) : g ≤ x.generation := by
  cases t with
  | reader generation pc =>
    cases hg
    exact h.1
  | request | launching | swapping | stopping | clearing | interrupting | outcome | done => cases hg

theorem Thread.Apart.symm {t u : Thread} (h : t.Apart u) : u.Apart t :=
  ⟨fun n hu ht => h.1 n ht hu, fun g hu ht => h.2 g ht hu⟩

theorem statement_apart {t u : Thread} (h : t.Apart u) (hu : u.Local x) : (statement encode limits x t met).2.Apart u := by
  refine ⟨?_, ?_⟩
  · intro n hn hun
    rcases statement_id hn with hn | rfl
    · exact h.1 n hn hun
    · exact Nat.lt_irrefl _ (hu.known hun)
  · intro g hg hug
    rcases statement_reads hg with hg | rfl
    · exact h.2 g hg hug
    · exact absurd (hu.started hug) (Nat.not_succ_le_self _)

theorem begins_local (h : begins t = true) : t.Local x ∧ t.id = none ∧ t.reads = none := by
  cases t with
  | request pc =>
    cases pc with
    | entering => exact ⟨trivial, rfl, rfl⟩
    | takingProcess | takingGeneration | takingId | registering | writing | unregistering | loop | failing | leaving |
      expiring | refused | ended => cases h
  | launching | stopping | outcome => exact ⟨trivial, rfl, rfl⟩
  | swapping | reader | clearing | interrupting | done => cases h

/-! ## Every run -/

variable {w : Pool Client Thread} {tr : List (Pool.Event Thread Met)}

theorem Sound.initial : Sound {} where
  entry := by simp
  queued := by simp
  numbered := by simp
  known := by simp
  once := by simp
  outcomes := .empty

theorem orderly_run (h : Run (OrderlyStep encode limits) ⟨{}, []⟩ tr w) : Sound w.shared ∧ ∀ t ∈ w.threads, t.Local w.shared := by
  refine (Pool.invariant_apart (D := Thread.Apart) h ⟨⟨Sound.initial, by simp⟩, Pool.Apart.nil⟩ ?_ ?_ ?_ ?_).1
  · exact fun _ _ h => h.symm
  · intro x t _ ht
    obtain ⟨hlocal, hid, hreads⟩ := begins_local (x := x) ht
    exact ⟨hlocal, fun u _ => ⟨by simp [hid], by simp [hreads]⟩⟩
  · rintro x t met x' t' hx ht ⟨hstep, horderly⟩
    obtain ⟨rfl, rfl⟩ := Prod.mk.inj hstep
    obtain ⟨hsound, -, hlocal⟩ := statement_kept hx ht horderly
    exact ⟨hsound, hlocal⟩
  rintro x t met x' t' u hx ht hu hapart ⟨hstep, horderly⟩
  obtain ⟨rfl, rfl⟩ := Prod.mk.inj hstep
  obtain ⟨-, hleaves, -⟩ := statement_kept hx ht horderly
  refine ⟨hleaves.thread hu ?_ ?_, statement_apart hapart hu⟩
  · exact fun q hq hn => hapart.1 q hn hq
  · exact fun g hg hn => hapart.2 g hn hg

/-- **Responses are matched.** In every run in which no waiter is handed an object that is neither a response nor an
error, and no request takes a process that is not there: what `request` returns is the result of a response with its id
from the process of its start; each message goes to one waiter or retained outcome; a timeout or an exit never replaces
a response; and a call that is over has no entry. -/
theorem responses_matched (h : Run (OrderlyStep encode limits) ⟨{}, []⟩ tr w) : Matched w := by
  obtain ⟨hsound, hlocal⟩ := orderly_run h
  refine ⟨?_, ?_, ?_, hsound.once, ?_, ?_⟩
  · intro c v hc
    exact Over.returned (hlocal _ hc) v rfl
  · intro id m hm
    obtain ⟨-, -, k, g, hsent, hk⟩ := hsound.queued id m hm
    exact ⟨k, g, hsent, hk⟩
  · intro o ho m hm
    exact hsound.outcomes.kept o ho m hm
  · intro c how hc hhow
    exact Over.kept (hlocal _ hc) hhow
  · intro c how hc
    exact Over.noEntry (hlocal _ hc)

/-! ## Runs that mismatch -/

theorem client_run (h : guarded (Pool.next (statement encode limits)) (Pool.possible begins fun _ _ => true) w tr = true) :
    Run (ClientStep encode limits) w tr (tr.foldl (Pool.next (statement encode limits)) w) :=
  Pool.run_of_guarded (fun _ h => h) (fun _ _ _ _ => rfl) h

theorem orderly_run_of (h : guarded (Pool.next (statement encode limits)) (Pool.possible begins orderly) w tr = true) :
    Run (OrderlyStep encode limits) w tr (tr.foldl (Pool.next (statement encode limits)) w) :=
  Pool.run_of_guarded (fun _ h => h) (fun _ _ _ h => ⟨rfl, h⟩) h

/-- A start, and a request that has been written and waits. -/
def waitingRequest : List (Pool.Event Thread Met) :=
  [Pool.Event.start .launching, .act 0 ({} : Met), .act 0 {}, .start (.request (.entering "tools/list"))] ++
    List.replicate 6 (Pool.Event.act 1 ({} : Met))

/-- The child writes the message, and the request goes round its loop. -/
def answeredWith (message : Json) : List (Pool.Event Thread Met) :=
  waitingRequest ++ [Pool.Event.act 0 ({ line := some (.value message) } : Met), .act 0 {}] ++
    List.replicate 4 (Pool.Event.act 1 ({} : Met))

def firstCall : Call := ⟨some 1, 1, 1, "tools/list"⟩

def emptyList : Json := .obj [("jsonrpc", .str "2.0"), ("id", .int 1), ("result", .obj [("tools", .arr [])])]

/-- A request of the server, with an id of its own. -/
def ping : Json := .obj [("jsonrpc", .str "2.0"), ("id", .int 1), ("method", .str "ping")]

/-- Any response fits. -/
def encodeAll (_ : Json) (_ : Nat) : Except String Nat := .ok 1

theorem responses_matched_list : ∃ w, Run (OrderlyStep encodeAll {}) ⟨{}, []⟩ (answeredWith emptyList) w ∧
    w.threads[1]? = some (.request (.ended firstCall (.returned (.obj [("tools", .arr [])])))) ∧ Matched w := by
  have hrun : Run (OrderlyStep encodeAll {}) ⟨{}, []⟩ (answeredWith emptyList)
      ((answeredWith emptyList).foldl (Pool.next (statement encodeAll {})) ⟨{}, []⟩) := orderly_run_of (by decide)
  exact ⟨_, hrun, rfl, responses_matched hrun⟩

/-- A `ping` of the server with the id of a request is its result. -/
theorem ping_taken_for_result : ¬ ∀ tr w, Run (ClientStep encodeAll {}) ⟨{}, []⟩ tr w → Matched w := by
  intro h
  have hmatched := h (answeredWith ping) _ (client_run (by decide +kernel))
  have hended : Thread.request (.ended firstCall (.returned (.obj [("result", .null)]))) ∈
      ((answeredWith ping).foldl (Pool.next (statement encodeAll {})) ⟨{}, []⟩).threads := List.mem_of_getElem? (i := 1) rfl
  obtain ⟨message, result, hsent, hresponse, -⟩ := hmatched.returned _ _ hended
  have honly : (firstCall.generation, message) ∈ [(1, ping)] := hsent
  obtain ⟨-, rfl⟩ := Prod.mk.inj (List.mem_singleton.mp honly)
  exact absurd hresponse (by decide)

end LingshuGate.Stdio
