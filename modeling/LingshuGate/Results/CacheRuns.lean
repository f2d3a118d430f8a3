import LingshuGate.Lib.Run
import LingshuGate.Results.Cache

/-!
# What the cache of results keeps (`result_budget.py:89-244`)

The lock sections of the calls are the events, in any order, and what surrounds the cache changes between any two of them. An
`apply` touches the cache in one section only, so that it is one event, whatever it saw before. A `read` has two sections, and its
five moments lie in a run with everything else in between: a `ReadRun`.

`Good` is the accounting. The tokens of `apply` are never drawn twice (`secrets.token_urlsafe`), so a reference stands for one text.
-/

namespace LingshuGate.Results

open Lib Groups

structure World where
  cache : ResultCache := {}
  now : Nat := 0
  around : Surroundings

inductive Event
  | surroundings (around : Surroundings)
  | prune (now : Nat)
  | apply (call : Applying) (seen : Seen) (reference expiresAt : String) (now later : Nat)

/-- The token that a call draws. -/
def Event.reference : Event → Option String
  | .apply _ _ reference _ _ _ => some reference
  | _ => none

def Fresh (tr : List Event) : Prop := (tr.filterMap Event.reference).Nodup

section

variable (H : Hashes) (K : Primitives) (limits : CacheLimits)

inductive Step : World → Event → World → Prop
  | surroundings (w : World) (around : Surroundings) : Step w (.surroundings around) { w with around := around }
  | prune {w : World} {now : Nat} : w.now ≤ now → Step w (.prune now) { w with cache := w.cache.prune now, now := now }
  | apply {w : World} {call : Applying} {seen : Seen} {reference expiresAt : String} {now later : Nat} :
    w.now ≤ now → now ≤ later → Step w (.apply call seen reference expiresAt now later)
      { w with cache := (Results.apply H K limits w.cache call seen reference expiresAt now later).1, now := later }

/-- A read in a run: what it asks for, and its moments. -/
structure ReadRun (start : World) where
  call : Reading
  asked : World
  opened : World
  checked : World
  renewed : World
  closed : World
  found : Nat
  kept : Nat
  later : Nat
  before : List Event
  opening : List Event
  checking : List Event
  renewing : List Event
  closing : List Event
  run_asked : Run (Step H K limits) start before asked
  run_opened : Run (Step H K limits) asked (opening ++ [Event.prune found]) opened
  run_checked : Run (Step H K limits) opened checking checked
  run_renewed : Run (Step H K limits) checked renewing renewed
  run_closed : Run (Step H K limits) renewed (closing ++ [Event.prune kept]) closed
  kept_le : kept ≤ later

variable {H K limits}

def ReadRun.trace {start : World} (r : ReadRun H K limits start) : List Event :=
  r.before ++ (r.opening ++ [Event.prune r.found]) ++ r.checking ++ r.renewing ++ (r.closing ++ [Event.prune r.kept])

def ReadRun.answer {start : World} (r : ReadRun H K limits start) : Except Failure Page :=
  read H K r.call ⟨r.asked.around, r.checked.around, r.renewed.around⟩ (r.opened.cache.get r.call.query.resultRef)
    (r.closed.cache.get r.call.query.resultRef) r.later

end

variable {H : Hashes} {K : Primitives} {limits : CacheLimits}

namespace ResultCache

structure Good (limits : CacheLimits) (c : ResultCache) : Prop where
  nodup : (c.entries.map (·.1)).Nodup
  total : c.total = bytes c.entries
  total_le : c.total ≤ limits.totalBytes
  identity_le : ∀ identity, bytes (c.owned identity) ≤ limits.identityBytes
  count_le : ∀ identity, (c.owned identity).length ≤ limits.identityEntries
  utf8 : ∀ kv ∈ c.entries, kv.2.byteCount = kv.2.text.utf8ByteSize

variable {c : ResultCache}

theorem Good.empty : Good limits {} := by
  refine ⟨List.nodup_nil, rfl, Nat.zero_le _, fun _ => Nat.zero_le _, fun _ => Nat.zero_le _, by simp⟩

theorem bytes_filter (entries : List (String × CachedResult)) (now : Nat) :
    bytes entries = bytes (entries.filter (now < ·.2.deadline)) + bytes (entries.filter (·.2.deadline ≤ now)) := by
  induction entries with
  | nil => rfl
  | cons kv entries ih =>
    simp only [bytes] at ih ⊢
    by_cases h : now < kv.2.deadline
    · rw [List.filter_cons_of_pos (by simpa using h), List.filter_cons_of_neg (by simpa using h)]
      simp only [List.map_cons, List.sum_cons]
      omega
    · rw [List.filter_cons_of_neg (by simpa using h), List.filter_cons_of_pos (by simpa using h)]
      simp only [List.map_cons, List.sum_cons]
      omega

theorem bytes_filter_le (entries : List (String × CachedResult)) (p : String × CachedResult → Bool) :
    bytes (entries.filter p) ≤ bytes entries := by
  induction entries with
  | nil => exact Nat.le_refl _
  | cons kv entries ih =>
    simp only [bytes, List.filter_cons, List.map_cons, List.sum_cons] at ih ⊢
    split
    · simp only [List.map_cons, List.sum_cons]
      omega
    · omega

theorem owned_prune (identity : String) (now : Nat) :
    (c.prune now).owned identity = (c.owned identity).filter (now < ·.2.deadline) := by
  simp only [owned, prune, List.filter_filter, Bool.and_comm]

theorem Good.prune (h : Good limits c) (now : Nat) : Good limits (c.prune now) where
  nodup := h.nodup.sublist (List.filter_sublist.map _)
  total := by
    have hsplit := bytes_filter c.entries now
    simp only [ResultCache.prune, h.total]
    omega
  total_le := Nat.le_trans (Nat.sub_le _ _) h.total_le
  identity_le identity := by
    rw [owned_prune]
    exact (bytes_filter_le _ _).trans (h.identity_le identity)
  count_le identity := by
    rw [owned_prune]
    exact (List.length_filter_le _ _).trans (h.count_le identity)
  utf8 kv hkv := h.utf8 kv (List.mem_of_mem_filter hkv)

/-- Nothing is saved under this reference. -/
def Lacks (c : ResultCache) (reference : String) : Prop := ∀ kv ∈ c.entries, kv.1 ≠ reference

theorem insert_entries {reference : String} (h : c.Lacks reference) (entry : CachedResult) :
    (c.insert reference entry).entries = c.entries ++ [(reference, entry)] := by
  unfold ResultCache.insert
  rw [if_neg]
  intro hany
  obtain ⟨kv, hkv, heq⟩ := List.any_eq_true.mp hany
  exact h kv hkv (of_decide_eq_true heq)

theorem Good.insert (h : Good limits c) {reference : String} {entry : CachedResult} (hnew : c.Lacks reference)
    (hroom : c.lacksRoom limits entry.identity entry.byteCount = false) (hbytes : entry.byteCount = entry.text.utf8ByteSize) :
    Good limits (c.insert reference entry) := by
  simp only [lacksRoom, Bool.or_eq_false_iff, decide_eq_false_iff_not, Nat.not_lt, Nat.not_le] at hroom
  obtain ⟨⟨⟨-, htotal⟩, hidentity⟩, hcount⟩ := hroom
  have hentries := insert_entries hnew entry
  have howned (identity : String) : (c.insert reference entry).owned identity =
      c.owned identity ++ if entry.identity = identity then [(reference, entry)] else [] := by
    simp only [owned, hentries, List.filter_append, List.filter_singleton, cond_eq_ite, decide_eq_true_eq]
  refine ⟨?_, ?_, htotal, fun identity => ?_, fun identity => ?_, ?_⟩
  · rw [hentries, List.map_append, List.map_singleton]
    refine h.nodup.append (List.nodup_singleton _) ?_
    simp only [List.disjoint_singleton, List.mem_map, not_exists, not_and]
    exact fun kv hkv => hnew kv hkv
  · rw [hentries]
    simp only [ResultCache.insert, h.total, bytes, List.map_append, List.map_singleton, List.sum_append, List.sum_singleton]
  · rw [howned]
    split
    · rename_i heq
      subst heq
      simpa [bytes] using hidentity
    · simpa using h.identity_le identity
  · rw [howned]
    split
    · rename_i heq
      subst heq
      simpa using Nat.succ_le_of_lt hcount
    · simpa using h.count_le identity
  · rw [hentries]
    exact List.forall_mem_append.mpr ⟨h.utf8, by simpa using hbytes⟩

/-- An entry that the reference leads to is saved, and the other way round. -/
theorem Good.get_eq (h : Good limits c) {reference : String} {entry : CachedResult} :
    c.get reference = some entry ↔ (reference, entry) ∈ c.entries := by
  simp only [ResultCache.get, Option.map_eq_some_iff]
  constructor
  · rintro ⟨kv, hfind, rfl⟩
    have hkey : kv.1 = reference := by simpa using List.find?_some hfind
    rw [← hkey]
    exact List.mem_of_find?_eq_some hfind
  intro hmem
  cases hfind : c.entries.find? (·.1 = reference) with
  | none =>
    have hdiffers := List.find?_eq_none.mp hfind _ hmem
    simp at hdiffers
  | some kv =>
    have hkey : kv.1 = reference := by simpa using List.find?_some hfind
    refine ⟨kv, rfl, ?_⟩
    rw [List.inj_on_of_nodup_map h.nodup (List.mem_of_find?_eq_some hfind) hmem hkey]

end ResultCache

/-! ## What an apply does -/

/-- The two things an `apply` does to the cache. -/
inductive Applied (H : Hashes) (K : Primitives) (limits : CacheLimits) (c : ResultCache) (call : Applying) (seen : Seen)
    (reference expiresAt : String) (now later : Nat) : ResultCache × Except Failure Fields → Prop
  | kept {c' : ResultCache} {reply : Except Failure Fields} (cache : c' = c ∨ c' = c.prune now) :
    Applied H K limits c call seen reference expiresAt now later (c', reply)
  | saved {saving : Saving} (prepared : prepare H K call seen = .ok (some saving))
    (room : (c.prune now).lacksRoom limits saving.identity saving.text.utf8ByteSize = false) :
    Applied H K limits c call seen reference expiresAt now later
      ((c.prune now).insert reference (saving.entry limits expiresAt later), .ok (truncatedReply call.result saving reference expiresAt))

theorem applied (c : ResultCache) (call : Applying) (seen : Seen) (reference expiresAt : String) (now later : Nat) :
    Applied H K limits c call seen reference expiresAt now later
      (apply H K limits c call seen reference expiresAt now later) := by
  unfold apply
  split
  · exact .kept (.inl rfl)
  · exact .kept (.inl rfl)
  rename_i saving hprepared
  simp only [store]
  split
  · exact .kept (.inr rfl)
  · rename_i hroom
    exact .saved hprepared (by simpa using hroom)

/-! ## Runs -/

/-- An `apply` of the run saved this entry. -/
def Saved (H : Hashes) (K : Primitives) (limits : CacheLimits) (tr : List Event) (reference : String) (entry : CachedResult) : Prop :=
  ∃ call seen expiresAt now later saving, Event.apply call seen reference expiresAt now later ∈ tr ∧
    prepare H K call seen = .ok (some saving) ∧ entry = saving.entry limits expiresAt later

variable {entry : CachedResult} {reference : String}

theorem Saved.mono {tr tr' : List Event} (h : Saved H K limits tr reference entry)
    (hsub : tr ⊆ tr') : Saved H K limits tr' reference entry := by
  obtain ⟨call, seen, expiresAt, now, later, saving, hmem, hrest⟩ := h
  exact ⟨call, seen, expiresAt, now, later, saving, hsub hmem, hrest⟩

/-- What holds of the cache after the events `tr`. -/
structure Kept (H : Hashes) (K : Primitives) (limits : CacheLimits) (tr : List Event) (w : World) : Prop where
  good : w.cache.Good limits
  saved : ∀ kv ∈ w.cache.entries, Saved H K limits tr kv.1 kv.2

variable {tr : List Event}

theorem Saved.reference_mem (h : Saved H K limits tr reference entry) : reference ∈ tr.filterMap Event.reference := by
  obtain ⟨call, seen, expiresAt, now, later, saving, hmem, -⟩ := h
  exact List.mem_filterMap.mpr ⟨_, hmem, rfl⟩

/-- A token stands for one entry. -/
theorem Saved.unique (hfresh : Fresh tr) {entry entry' : CachedResult}
    (h : Saved H K limits tr reference entry) (h' : Saved H K limits tr reference entry') : entry = entry' := by
  obtain ⟨call, seen, expiresAt, now, later, saving, hmem, hprepared, rfl⟩ := h
  obtain ⟨call', seen', expiresAt', now', later', saving', hmem', hprepared', rfl⟩ := h'
  have hsame : Event.apply call seen reference expiresAt now later = .apply call' seen' reference expiresAt' now' later' := by
    by_contra hne
    have hsymm : Std.Symm fun a b : Event => ∀ r, a.reference = some r → ∀ r', b.reference = some r' → r ≠ r' :=
      ⟨fun a b h r hr r' hr' heq => h r' hr' r hr heq.symm⟩
    exact (List.pairwise_filterMap.mp hfresh).forall hmem hmem' hne reference rfl reference rfl rfl
  cases hsame
  rw [hprepared] at hprepared'
  cases hprepared'
  rfl

theorem Fresh.left {tr tr' : List Event} (h : Fresh (tr ++ tr')) : Fresh tr := by
  unfold Fresh at h ⊢
  rw [List.filterMap_append] at h
  exact h.of_append_left

theorem mem_prune {c : ResultCache} {now : Nat} {kv : String × CachedResult} :
    kv ∈ (c.prune now).entries ↔ kv ∈ c.entries ∧ now < kv.2.deadline := by
  simp [ResultCache.prune]

theorem Kept.step {w w' : World} {e : Event} (h : Kept H K limits tr w) (hfresh : Fresh (tr ++ [e]))
    (hstep : Step H K limits w e w') : Kept H K limits (tr ++ [e]) w' := by
  have hmono {reference : String} {entry : CachedResult} (hs : Saved H K limits tr reference entry) :
      Saved H K limits (tr ++ [e]) reference entry := hs.mono (List.subset_append_left _ _)
  cases hstep with
  | surroundings around => exact ⟨h.good, fun kv hkv => hmono (h.saved kv hkv)⟩
  | @prune now hnow => exact ⟨h.good.prune now, fun kv hkv => hmono (h.saved kv (mem_prune.mp hkv).1)⟩
  | @apply call seen reference expiresAt now later hnow hlater =>
    have happlied := @applied H K limits w.cache call seen reference expiresAt now later
    generalize apply H K limits w.cache call seen reference expiresAt now later = result at happlied
    cases happlied with
    | kept hcache =>
      rcases hcache with rfl | rfl
      · exact ⟨h.good, fun kv hkv => hmono (h.saved kv hkv)⟩
      · exact ⟨h.good.prune now, fun kv hkv => hmono (h.saved kv (mem_prune.mp hkv).1)⟩
    | @saved saving hprepared hroom =>
      have hlacks : (w.cache.prune now).Lacks reference := by
        intro kv hkv heq
        have hmem := (h.saved kv (mem_prune.mp hkv).1).reference_mem
        unfold Fresh at hfresh
        rw [List.filterMap_append, List.nodup_append] at hfresh
        exact hfresh.2.2 kv.1 hmem kv.1 (by simp [Event.reference, heq]) rfl
      refine ⟨(h.good.prune now).insert hlacks hroom rfl, ?_⟩
      rw [ResultCache.insert_entries hlacks]
      refine List.forall_mem_append.mpr ⟨fun kv hkv => hmono (h.saved kv (mem_prune.mp hkv).1), ?_⟩
      rw [List.forall_mem_singleton]
      exact ⟨call, seen, expiresAt, now, later, saving, List.mem_append_right _ (List.mem_singleton_self _), hprepared, rfl⟩

theorem Kept.run {w w' : World} {tr₀ tr : List Event} (hrun : Run (Step H K limits) w tr w') (h : Kept H K limits tr₀ w)
    (hfresh : Fresh (tr₀ ++ tr)) : Kept H K limits (tr₀ ++ tr) w' := by
  induction hrun with
  | nil => simpa using h
  | @snoc t v tr e hrun hstep ih =>
    rw [← List.append_assoc] at hfresh ⊢
    exact (ih hfresh.left).step hfresh hstep

/-! ## Reads -/

/-- What a read that answers has checked. -/
structure Checked (H : Hashes) (K : Primitives) {limits : CacheLimits} {start : World} (r : ReadRun H K limits start) (entry : CachedResult)
    (page : Page) : Prop where
  found : (r.call.query.resultRef, entry) ∈ r.opened.cache.entries
  kept : (r.call.query.resultRef, entry) ∈ r.closed.cache.entries
  unexpired : r.later < entry.deadline
  identity : identity K r.call.principal r.call.proof = .ok entry.identity
  first : ∃ found, setting r.asked.around r.call.principal = .ok found ∧ found.resultBudget.enabled = true ∧
    found.discoveryRevision = entry.settingsRevision
  visible : validateTarget H r.checked.around r.call.principal entry.target = true
  last : ∃ current latest, r.call.refreshed = some current ∧ sameInvocationPrincipal current r.call.principal = true ∧
    setting r.renewed.around current = .ok latest ∧ latest.resultBudget.enabled = true ∧
    latest.discoveryRevision = entry.settingsRevision
  page : entry.page r.call.query = .ok page

variable {start : World}

theorem ReadRun.kept_all (r : ReadRun H K limits start) (hstart : start.cache = {}) (hfresh : Fresh r.trace) :
    Kept H K limits r.trace r.opened ∧ Kept H K limits r.trace r.closed := by
  have hempty : Kept H K limits [] start := ⟨hstart ▸ .empty, by simp [hstart]⟩
  have hopened := Kept.run (r.run_asked.append r.run_opened) hempty (by
    refine @Fresh.left _ (r.checking ++ r.renewing ++ (r.closing ++ [Event.prune r.kept])) ?_
    simpa [ReadRun.trace] using hfresh)
  have hclosed := Kept.run ((((r.run_asked.append r.run_opened).append r.run_checked).append r.run_renewed).append r.run_closed)
    hempty hfresh
  refine ⟨⟨hopened.good, fun kv hkv => (hopened.saved kv hkv).mono ?_⟩, hclosed⟩
  intro e he
  simp only [ReadRun.trace, List.mem_append, List.nil_append] at he ⊢
  exact .inl (.inl (.inl he))

theorem ReadRun.checked_of (r : ReadRun H K limits start) (hstart : start.cache = {}) (hfresh : Fresh r.trace) {page : Page}
    (hanswer : r.answer = .ok page) : ∃ entry, Checked H K r entry page := by
  obtain ⟨hopened, hclosed⟩ := r.kept_all hstart hfresh
  simp only [ReadRun.answer, read, bind_eq_ok, expect_eq_ok, require_eq_ok, Bool.and_eq_true, decide_eq_true_eq] at hanswer
  obtain ⟨owner, howner, first, hfirst, entry, hfound, -, ⟨⟨⟨hidentity, henabled⟩, hrevision⟩, hvalid⟩, current, hcurrent, latest,
    hlatest, -, ⟨⟨hsame, henabled'⟩, hrevision'⟩, -, ⟨hkept, hlater⟩, hpage⟩ := hanswer
  refine ⟨entry, hopened.good.get_eq.mp hfound, hclosed.good.get_eq.mp hkept, hlater, hidentity ▸ howner,
    ⟨first, hfirst, henabled, hrevision.symm⟩, hvalid, ⟨current, latest, hcurrent, hsame, hlatest, henabled', hrevision'.symm⟩, hpage⟩

/-! ## Pages -/

theorem page_ok {query : ResultRead} {page : Page} (h : entry.page query = .ok page) :
    query.offset ≤ entry.text.length ∧ page.offset = query.offset ∧
      page.nextOffset = min entry.text.length (query.offset + query.limit) ∧
      page.text.toList = (entry.text.toList.take page.nextOffset).drop page.offset ∧
      page.hasMore = decide (page.nextOffset < entry.text.length) := by
  unfold CachedResult.page at h
  split at h
  · cases h
  · rename_i hoffset
    cases h
    exact ⟨Nat.le_of_not_lt hoffset, rfl, rfl, by simp, rfl⟩

theorem take_drop_append {α : Type} {l : List α} {a b c : Nat} (hab : a ≤ b) (hbc : b ≤ c) :
    (l.take b).drop a ++ (l.take c).drop b = (l.take c).drop a := by
  have htake : l.take b = (l.take c).take b := by rw [List.take_take, min_eq_left hbc]
  conv_rhs => rw [← List.take_append_drop b (l.take c)]
  rw [htake, List.drop_append, List.length_take]
  by_cases hlong : b ≤ (l.take c).length
  · rw [min_eq_left hlong, Nat.sub_eq_zero_of_le hab, List.drop_zero]
  · rw [List.drop_eq_nil_of_le (Nat.le_of_not_le hlong), List.drop_nil]

/-- Each page starts where the one before it ended, and there was more. -/
def Chained : Nat → List Page → Prop
  | _, [] => True
  | offset, page :: pages => page.offset = offset ∧ (pages ≠ [] → page.hasMore = true) ∧ Chained page.nextOffset pages

/-- The pages of a text, put together, are what lies between their ends, and there are not more of them than characters and one. -/
theorem chained_text {pages : List Page} (hpages : ∀ page ∈ pages, ∃ query, entry.page query = .ok page)
    {offset : Nat} (hchain : Chained offset pages) (hoffset : offset ≤ entry.text.length) :
    ∃ n, offset ≤ n ∧ n ≤ entry.text.length ∧ pages.flatMap (·.text.toList) = (entry.text.toList.take n).drop offset ∧
      (∀ page ∈ pages.getLast?, page.nextOffset = n ∧ (page.hasMore = false ↔ n = entry.text.length)) ∧
      pages.length + offset ≤ n + 1 := by
  induction pages generalizing offset with
  | nil => exact ⟨offset, Nat.le_refl _, hoffset, by simp, by simp, by simp⟩
  | cons page pages ih =>
    obtain ⟨rfl, hmore, hrest⟩ := hchain
    obtain ⟨⟨query, hquery⟩, hpages⟩ := List.forall_mem_cons.mp hpages
    obtain ⟨-, hstart, hnext, htext, hhas⟩ := page_ok hquery
    have hone := query.one_le
    have hle : page.offset ≤ page.nextOffset := by omega
    have hend : page.nextOffset ≤ entry.text.length := by omega
    cases pages with
    | nil =>
      refine ⟨page.nextOffset, hle, hend, by simp [htext], ?_, by simp; omega⟩
      simp only [List.getLast?_singleton, Option.mem_some_iff]
      rintro _ rfl
      refine ⟨rfl, ?_⟩
      rw [hhas, decide_eq_false_iff_not]
      omega
    | cons next pages =>
      have hmore := hmore nofun
      rw [hhas, decide_eq_true_eq] at hmore
      obtain ⟨n, hlow, hhigh, hflat, hlast, hlength⟩ := ih hpages hrest hend
      refine ⟨n, hle.trans hlow, hhigh, ?_, by simpa using hlast, ?_⟩
      · rw [List.flatMap_cons, hflat, htext]
        exact take_drop_append hle hlow
      · simp only [List.length_cons] at hlength ⊢
        omega

/-! ## What is saved, and what is shown of it -/

theorem prepare_saving {call : Applying} {seen : Seen} {saving : Saving} (h : prepare H K call seen = .ok (some saving)) :
    savedText K call.result = some saving.text ∧ identity K call.principal call.proof = .ok saving.identity ∧
      call.target = some saving.target ∧ setting seen.first call.principal = .ok saving.setting ∧
      saving.setting.resultBudget.enabled = true ∧ validateTarget H seen.checked call.principal saving.target = true := by
  unfold prepare at h
  split at h
  · cases h
  rename_i target htarget
  split at h
  · cases h
  split at h
  · cases h
  rename_i text htext
  obtain ⟨found, hfound, h⟩ := bind_eq_ok.mp h
  split at h
  · cases h
  rename_i hchecks
  obtain ⟨current, -, h⟩ := bind_eq_ok.mp h
  obtain ⟨latest, -, h⟩ := bind_eq_ok.mp h
  split at h
  · cases h
  · obtain ⟨owner, howner, h⟩ := bind_eq_ok.mp h
    cases h
    simp only [Bool.or_eq_true, not_or, Bool.not_eq_true, Bool.not_eq_false'] at hchecks
    exact ⟨htext, howner, htarget, hfound, hchecks.1.1, hchecks.2⟩

theorem Fields.get?_cons (kv : String × Json) (fields : Fields) (key : String) :
    Fields.get? (kv :: fields) key = if kv.1 = key then some kv.2 else Fields.get? fields key := by
  show ((kv :: fields).find? (·.1 = key)).map (·.2) = _
  by_cases h : kv.1 = key
  · rw [if_pos h, List.find?_cons_of_pos (by simpa using h), Option.map_some]
  · rw [if_neg h, List.find?_cons_of_neg (by simpa using h)]
    rfl

theorem Fields.get?_put (fields : Fields) (key : String) (value : Json) : Fields.get? (Fields.put fields key value) key = some value := by
  unfold Fields.put
  split
  · rename_i hany
    induction fields with
    | nil => cases hany
    | cons kv fields ih =>
      rw [List.map_cons, Fields.get?_cons]
      by_cases h : kv.1 = key
      · rw [if_pos h, if_pos rfl]
      · rw [if_neg h, if_neg h]
        exact ih (by simpa [h] using hany)
  rename_i hnone
  induction fields with
  | nil =>
    rw [List.nil_append, Fields.get?_cons, if_pos rfl]
  | cons kv fields ih =>
    rw [List.any_cons, Bool.or_eq_true, not_or, decide_eq_true_eq] at hnone
    rw [List.cons_append, Fields.get?_cons, if_neg hnone.1]
    exact ih hnone.2

theorem Fields.get?_put_ne (fields : Fields) {key key' : String} (value : Json) (h : key ≠ key') :
    Fields.get? (Fields.put fields key value) key' = Fields.get? fields key' := by
  unfold Fields.put
  split
  · rename_i hany
    clear hany
    induction fields with
    | nil => rfl
    | cons kv fields ih =>
      rw [List.map_cons, Fields.get?_cons, Fields.get?_cons, ih]
      by_cases hkey : kv.1 = key
      · rw [if_pos hkey, if_neg h, if_neg (hkey ▸ h)]
      · rw [if_neg hkey]
  · rename_i hnone
    clear hnone
    induction fields with
    | nil => rw [List.nil_append, Fields.get?_cons, if_neg h]
    | cons kv fields ih => rw [List.cons_append, Fields.get?_cons, Fields.get?_cons, ih]

theorem truncatedReply_text (result : Fields) (saving : Saving) (reference expiresAt : String) :
    ∃ shown : String, onlyText (Fields.get? (truncatedReply result saving reference expiresAt) "content") = some (shown ++ note reference) ∧
      shown.toList <+: saving.text.toList := by
  refine ⟨preview saving.setting.resultBudget.maxCharacters reference saving.text, ?_, ?_⟩
  · unfold truncatedReply
    rw [Fields.get?_put_ne _ _ (by decide), Fields.get?_put]
    rfl
  · simp only [preview, String.toList_ofList]
    exact List.take_prefix _ _

theorem apply_shows {c c' : ResultCache} {call : Applying} {seen : Seen} {reference expiresAt : String} {now later : Nat} {reply : Fields}
    (h : apply H K limits c call seen reference expiresAt now later = (c', .ok reply)) :
    c' = c ∨ c' = c.prune now ∨ ∃ (saving : Saving) (shown : String), savedText K call.result = some saving.text ∧
      c' = (c.prune now).insert reference (saving.entry limits expiresAt later) ∧
      onlyText (Fields.get? reply "content") = some (shown ++ note reference) ∧ shown.toList <+: saving.text.toList := by
  have happlied := @applied H K limits c call seen reference expiresAt now later
  rw [h] at happlied
  cases happlied with
  | kept hcache => exact hcache.imp_right .inl
  | @saved saving hprepared hroom =>
    obtain ⟨shown, hcontent, hpre⟩ := truncatedReply_text call.result saving reference expiresAt
    exact .inr (.inr ⟨saving, shown, (prepare_saving hprepared).1, rfl, hcontent, hpre⟩)

/-- The pages that reads of one reference have answered, one after the other, are its text as far as they go. -/
theorem Saved.pages (hstart : start.cache = {}) (hfresh : Fresh tr)
    (hsaved : Saved H K limits tr reference entry) {reads : List (ReadRun H K limits start × Page)}
    (hreads : ∀ x ∈ reads, x.1.trace <+: tr ∧ x.1.call.query.resultRef = reference ∧ x.1.answer = .ok x.2)
    (hchain : Chained 0 (reads.map (·.2))) :
    ∃ n, n ≤ entry.text.length ∧ reads.flatMap (·.2.text.toList) = entry.text.toList.take n ∧ reads.length ≤ n + 1 ∧
      ∀ x ∈ reads.getLast?, x.2.nextOffset = n ∧ (x.2.hasMore = false ↔ n = entry.text.length) := by
  have hpages : ∀ page ∈ reads.map (·.2), ∃ query, entry.page query = .ok page := by
    rw [List.forall_mem_map]
    intro x hx
    obtain ⟨⟨rest, htrace⟩, href, hanswer⟩ := hreads x hx
    have hfresh' : Fresh x.1.trace := Fresh.left (htrace ▸ hfresh)
    obtain ⟨entry', hchecked⟩ := x.1.checked_of hstart hfresh' hanswer
    have hsaved' := ((x.1.kept_all hstart hfresh').1.saved _ hchecked.found).mono (htrace ▸ List.subset_append_left _ rest)
    rw [href] at hsaved'
    obtain rfl := hsaved.unique hfresh hsaved'
    exact ⟨_, hchecked.page⟩
  obtain ⟨n, -, hle, hflat, hlast, hlength⟩ := chained_text hpages hchain (Nat.zero_le _)
  refine ⟨n, hle, ?_, by simpa using hlength, ?_⟩
  · rwa [List.flatMap_map, List.drop_zero] at hflat
  · intro x hx
    refine hlast x.2 ?_
    rw [List.getLast?_map, Option.mem_def.mp hx]
    rfl

/-- **The cache of results is exact, and answers only its owner.** In every run its bytes are those of its entries, and neither
they nor what belongs to one identity exceed their limits. A read that answers gives a slice of a text that a caller of the same
identity had saved under this reference; it found the revision of the settings as it was then and the budget enabled, at its first
moment and at its last, and the target visible in between; and the entry had not expired. Pages that follow each other from the
start are the text, once there is no more, and there are at most as many as characters and one. What the reply shows of a text
that is saved is a beginning of it. -/
theorem results_kept (hstart : start.cache = {}) {tr : List Event} {w : World} (hrun : Run (Step H K limits) start tr w)
    (hfresh : Fresh tr) :
    (w.cache.total = ResultCache.bytes w.cache.entries ∧ w.cache.total ≤ limits.totalBytes ∧
      ∀ identity, ResultCache.bytes (w.cache.owned identity) ≤ limits.identityBytes ∧
        (w.cache.owned identity).length ≤ limits.identityEntries) ∧
    (∀ kv ∈ w.cache.entries, kv.2.byteCount = kv.2.text.utf8ByteSize) ∧
    (∀ r : ReadRun H K limits start, r.trace <+: tr → ∀ page, r.answer = .ok page → ∃ entry, Checked H K r entry page ∧
      ∃ call seen expiresAt now later, Event.apply call seen r.call.query.resultRef expiresAt now later ∈ r.trace ∧
        savedText K call.result = some entry.text ∧ identity K call.principal call.proof = .ok entry.identity) ∧
    (∀ reference entry, Saved H K limits tr reference entry → ∀ reads : List (ReadRun H K limits start × Page),
      (∀ x ∈ reads, x.1.trace <+: tr ∧ x.1.call.query.resultRef = reference ∧ x.1.answer = .ok x.2) →
      Chained 0 (reads.map (·.2)) →
      ∃ n, n ≤ entry.text.length ∧ reads.flatMap (·.2.text.toList) = entry.text.toList.take n ∧ reads.length ≤ n + 1 ∧
        ∀ x ∈ reads.getLast?, x.2.nextOffset = n ∧ (x.2.hasMore = false ↔ n = entry.text.length)) ∧
    ∀ c c' call seen reference expiresAt now later reply,
      apply H K limits c call seen reference expiresAt now later = (c', .ok reply) →
      c' = c ∨ c' = c.prune now ∨ ∃ (saving : Saving) (shown : String), savedText K call.result = some saving.text ∧
        c' = (c.prune now).insert reference (saving.entry limits expiresAt later) ∧
        onlyText (Fields.get? reply "content") = some (shown ++ note reference) ∧ shown.toList <+: saving.text.toList := by
  have hempty : Kept H K limits [] start := ⟨hstart ▸ .empty, by simp [hstart]⟩
  have hkept : Kept H K limits tr w := Kept.run hrun hempty hfresh
  refine ⟨⟨hkept.good.total, hkept.good.total_le, fun identity => ⟨hkept.good.identity_le identity, hkept.good.count_le identity⟩⟩,
    hkept.good.utf8, fun r htrace page hanswer => ?_, fun reference entry hsaved reads hreads hchain =>
      hsaved.pages hstart hfresh hreads hchain, fun _ _ _ _ _ _ _ _ _ h => apply_shows h⟩
  obtain ⟨rest, rfl⟩ := htrace
  obtain ⟨entry, hchecked⟩ := r.checked_of hstart hfresh.left hanswer
  obtain ⟨call, seen, expiresAt, now, later, saving, hmem, hprepared, rfl⟩ :=
    (r.kept_all hstart hfresh.left).1.saved _ hchecked.found
  obtain ⟨htext, howner, -⟩ := prepare_saving hprepared
  exact ⟨_, hchecked, call, seen, expiresAt, now, later, hmem, htext, howner⟩

/-! A text of three characters is saved, and its first two are read. -/

section Sample

def sampleHashes : Hashes where
  sha256 _ := ""
  toolFingerprint _ := ""
  definitionRevision _ := "r1"
  foldChar c := [c]

def samplePrimitives : Primitives := ⟨id, fun _ => "digest", fun _ => true⟩

def sampleSurroundings : Surroundings where
  discoverySetting _ := ⟨0, ⟨true, 1⟩⟩
  definition id := some { id := id, inputSchema := .null, metadata := [] }
  managed _ := false
  visible _ _ := true
  routing := false
  routed _ _ := none

def caller : Actor := { id := "u1", role := "user", tokenId := some "t1" }

def sampleCall : Applying where
  result := [("content", .arr [.obj [("type", .str "text"), ("text", .str "abc")]]), ("isError", .bool false)]
  principal := caller
  proof := ""
  target := some ⟨"tool", "r1", false, none, none⟩
  refreshed := some caller

def sampleWorld : World := { around := sampleSurroundings }

def sampleSeen : Seen := ⟨sampleSurroundings, sampleSurroundings, sampleSurroundings⟩

def savedWorld : World :=
  { sampleWorld with cache := (apply sampleHashes samplePrimitives {} {} sampleCall sampleSeen "ref" "later" 0 0).1 }

theorem saved_run : Run (Step sampleHashes samplePrimitives {}) sampleWorld [.apply sampleCall sampleSeen "ref" "later" 0 0] savedWorld :=
  (Run.nil _).snoc (.apply (Nat.le_refl _) (Nat.le_refl _))

def prunedAt (w : World) (now : Nat) : World := { w with cache := w.cache.prune now, now := now }

def sampleRead : ReadRun sampleHashes samplePrimitives {} sampleWorld where
  call := ⟨caller, "", { resultRef := "ref", limit := 2 }, some caller⟩
  asked := savedWorld
  opened := prunedAt savedWorld 1
  checked := prunedAt savedWorld 1
  renewed := prunedAt savedWorld 1
  closed := prunedAt (prunedAt savedWorld 1) 2
  found := 1
  kept := 2
  later := 2
  before := _
  opening := []
  checking := []
  renewing := []
  closing := []
  run_asked := saved_run
  run_opened := (Run.nil _).snoc (.prune (by decide))
  run_checked := .nil _
  run_renewed := .nil _
  run_closed := (Run.nil _).snoc (.prune (by decide))
  kept_le := Nat.le_refl _

theorem sampleRead_answer : sampleRead.answer = .ok ⟨"ab", 0, 2, true, 3, "later"⟩ := by
  decide +kernel

theorem sampleRead_run : Run (Step sampleHashes samplePrimitives {}) sampleWorld sampleRead.trace (prunedAt (prunedAt savedWorld 1) 2) :=
  (saved_run.snoc (.prune (by decide))).snoc (.prune (by decide))

theorem results_kept_sample : sampleWorld.cache = {} ∧ Fresh sampleRead.trace ∧ sampleRead.answer = .ok ⟨"ab", 0, 2, true, 3, "later"⟩ ∧
    ∃ entry, Checked sampleHashes samplePrimitives sampleRead entry ⟨"ab", 0, 2, true, 3, "later"⟩ := by
  have hfresh : Fresh sampleRead.trace := List.nodup_singleton "ref"
  refine ⟨rfl, hfresh, sampleRead_answer, ?_⟩
  obtain ⟨entry, hchecked, -⟩ := (results_kept rfl sampleRead_run hfresh).2.2.1 sampleRead (List.prefix_refl _) _ sampleRead_answer
  exact ⟨entry, hchecked⟩

end Sample

end LingshuGate.Results
