import LingshuGate.Runtime.Connections

/-!
# State, client and tools agree (`mcp_runtime.py`)

`Inv` holds between any two sections of an orderly run. The registered runtime is `Good`, and a runtime that was replaced
has no client. `Inv.write` is the rule for a section: it leaves the runtime it is about good if that one is registered,
and leaves the registry alone if it is not.
-/

namespace LingshuGate.Runtime.Connections

open Lib Groups Scene

/-- The health loop of a runtime has the client in its hands. -/
def World.held (w : World) (o c : Nat) : Prop := .stopping o c ∈ w.workers

/-- A runtime that was replaced. -/
structure Retired (held : Nat → Prop) (x : Scene) : Prop where
  client : x.server.client = none
  state : x.server.state ≠ .running
  accounted : x.Accounted held

structure Inv (S : Setting) (w : World) : Prop where
  current : ∀ o, w.current = some o → o < w.objects.length
  good : ∀ o x, w.current = some o → w.scene o = some x → x.Good S (w.held o)
  retired : ∀ o x, w.current ≠ some o → w.scene o = some x → Retired (w.held o) x
  empty : w.current = none → w.registry.toolsOf S.serverId = []

variable {S : Setting} {w w' : World} {o : Nat} {x y : Scene}

theorem scene_eq : w.scene o = some x ↔ w.objects[o]? = some x.live ∧ w.registry = x.registry := by
  unfold World.scene
  constructor
  · intro h
    obtain ⟨live, hlive, rfl⟩ := Option.map_eq_some_iff.mp h
    exact ⟨hlive, rfl⟩
  · rintro ⟨hlive, hregistry⟩
    rw [hlive, hregistry]
    rfl

theorem registered_eq : w.registered = some (o, x) ↔ w.current = some o ∧ w.scene o = some x := by
  unfold World.registered
  constructor
  · intro h
    obtain ⟨o', ho', h⟩ := Option.bind_eq_some_iff.mp h
    obtain ⟨x', hx', heq⟩ := Option.map_eq_some_iff.mp h
    obtain ⟨rfl, rfl⟩ := Prod.mk.inj heq
    exact ⟨ho', hx'⟩
  · rintro ⟨ho, hx⟩
    rw [ho, Option.bind_some, hx]
    rfl

theorem Inv.registered_none (hI : Inv S w) (h : w.registered = none) : w.current = none := by
  cases hcurrent : w.current with
  | none => rfl
  | some o =>
    have hlive : w.objects[o]? = some (w.objects.get ⟨o, hI.current o hcurrent⟩) := List.getElem?_eq_getElem _
    have := registered_eq.mpr ⟨hcurrent, (scene_eq (x := ⟨_, w.registry⟩)).mpr ⟨hlive, rfl⟩⟩
    rw [h] at this
    cases this

theorem scene_lt (h : w.scene o = some x) : o < w.objects.length :=
  (List.getElem?_eq_some_iff.mp (scene_eq.mp h).1).1

theorem accounted_mono {held held' : Nat → Prop} (h : x.Accounted held) (hmono : ∀ c, held c → held' c) : x.Accounted held' := by
  intro c hc
  rcases h c hc with hcurrent | hended | hheld
  · exact .inl hcurrent
  · exact .inr (.inl hended)
  · exact .inr (.inr (hmono c hheld))

theorem good_mono {held held' : Nat → Prop} (h : x.Good S held) (hmono : ∀ c, held c → held' c) : x.Good S held' :=
  ⟨h.client, h.tools, h.transport, accounted_mono h.accounted hmono⟩

variable {held : Nat → Prop}

/-- A good runtime without a client may be replaced. -/
theorem good_retired (h : x.Good S held) (hclient : x.server.client = none) : Retired held x :=
  ⟨hclient, (h.idle hclient).1, h.accounted⟩

/-- **The rule for a section** on the runtime `o`. -/
theorem Inv.write (hI : Inv S w) (ho : o < w.objects.length) (hobjects : w'.objects = w.objects.set o y.live)
    (hregistry : w'.registry = y.registry) (hcurrent : w'.current = w.current)
    (hheld : ∀ o' c, o' ≠ o → w.held o' c → w'.held o' c) (hgood : w.current = some o → y.Good S (w'.held o))
    (hretired : w.current ≠ some o → Retired (w'.held o) y ∧ y.registry = w.registry) : Inv S w' := by
  have hscene : ∀ o' x', w'.scene o' = some x' → (o' = o ∧ x' = y) ∨ (o' ≠ o ∧ w.scene o' = some ⟨x'.live, w.registry⟩ ∧
      x'.registry = y.registry) := by
    intro o' x' hx'
    obtain ⟨hlive, hreg⟩ := scene_eq.mp hx'
    rw [hobjects] at hlive
    rw [hregistry] at hreg
    by_cases heq : o = o'
    · subst heq
      rw [List.getElem?_set_self ho] at hlive
      refine .inl ⟨rfl, ?_⟩
      obtain ⟨live, registry⟩ := x'
      obtain rfl : y.live = live := Option.some.inj hlive
      exact congrArg (Scene.mk _) hreg.symm
    · rw [List.getElem?_set_ne heq] at hlive
      exact .inr ⟨Ne.symm heq, scene_eq.mpr ⟨hlive, rfl⟩, hreg.symm⟩
  constructor
  · intro o' ho'
    rw [hcurrent] at ho'
    simpa [hobjects] using hI.current o' ho'
  · intro o' x' ho' hx'
    rw [hcurrent] at ho'
    rcases hscene o' x' hx' with ⟨rfl, rfl⟩ | ⟨hne, hx, hreg⟩
    · exact hgood ho'
    have hother : w.current ≠ some o := by
      rw [ho']
      exact fun h => hne (Option.some.inj h)
    have hold := good_mono (hI.good o' _ ho' hx) (hheld o' · hne)
    obtain ⟨live, registry⟩ := x'
    obtain rfl : registry = w.registry := hreg.trans (hretired hother).2
    exact hold
  · intro o' x' ho' hx'
    rw [hcurrent] at ho'
    rcases hscene o' x' hx' with ⟨rfl, rfl⟩ | ⟨hne, hx, -⟩
    · exact (hretired ho').1
    · have hold := hI.retired o' _ ho' hx
      exact ⟨hold.client, hold.state, accounted_mono (x := ⟨x'.live, w.registry⟩) hold.accounted (hheld o' · hne)⟩
  · intro hnone
    rw [hcurrent] at hnone
    rw [hregistry, (hretired (by simp [hnone])).2]
    exact hI.empty hnone

/-! ## The pieces of a step -/

theorem Inv.setHolder (hI : Inv S w) (holder : Option Holder) : Inv S { w with holder := holder } :=
  ⟨hI.current, hI.good, hI.retired, hI.empty⟩

theorem Inv.setWorkers (hI : Inv S w) (workers : List Worker)
    (hheld : ∀ o c, w.held o c → Worker.stopping o c ∈ workers) : Inv S { w with workers := workers } where
  current := hI.current
  good o x ho hx := good_mono (hI.good o x ho hx) (hheld o)
  retired o x ho hx := by
    have hold := hI.retired o x ho hx
    exact ⟨hold.client, hold.state, accounted_mono hold.accounted (hheld o)⟩
  empty := hI.empty

variable {i : Nat}

theorem mem_set_of_ne {α : Type} {l : List α} {a p p' : α} (h : a ∈ l) (hp : l[i]? = some p) (hne : a ≠ p) : a ∈ l.set i p' := by
  obtain ⟨j, hj⟩ := List.getElem?_of_mem h
  have hji : i ≠ j := by
    rintro rfl
    rw [hp] at hj
    exact hne (Option.some.inj hj).symm
  exact List.mem_of_getElem? (i := j) (by rw [List.getElem?_set, if_neg hji, hj])

/-- What the threads hold stays in their hands while another one goes on and some are started. -/
theorem held_step {p p' : Worker} (hp : w.workers[i]? = some p) (hne : ∀ o c, p ≠ .stopping o c)
    (spawned : List Worker) {o c : Nat} (h : w.held o c) : Worker.stopping o c ∈ w.workers.set i p' ++ spawned :=
  List.mem_append_left _ (mem_set_of_ne h hp (hne o c).symm)

theorem spawn_nil (o : Nat) : w.spawn o [] = w := by simp [World.spawn]

/-- A section of the holder of the manager lock, or of an operation, on the registered runtime. -/
theorem Inv.onCurrent (hI : Inv S w) (hregistered : w.registered = some (o, x)) (hy : y.Good S (w.held o))
    (spawns : List Spawn) (holder : Option Holder) : Inv S { (w.put o y).spawn o spawns with holder := holder } := by
  obtain ⟨hcurrent, hx⟩ := registered_eq.mp hregistered
  have hobjects : { (w.put o y).spawn o spawns with holder := holder }.objects = w.objects.set o y.live := rfl
  refine hI.write (scene_lt hx) hobjects rfl rfl ?_ ?_ ?_
  · exact fun _ _ _ hheld => List.mem_append_left _ hheld
  · exact fun _ => good_mono hy fun _ hheld => List.mem_append_left _ hheld
  · exact fun hother => absurd hcurrent hother

/-- Without a client at the registered runtime, every runtime can be replaced and the server has no tools. -/
theorem Inv.unconnected (hI : Inv S w) (h : w.unconnected = true) : w.registry.toolsOf S.serverId = [] ∧
    ∀ o x, w.scene o = some x → Retired (w.held o) x := by
  cases hregistered : w.registered with
  | none =>
    have hnone := hI.registered_none hregistered
    exact ⟨hI.empty hnone, fun o x hx => hI.retired o x (by simp [hnone]) hx⟩
  | some ox =>
    obtain ⟨o, x⟩ := ox
    obtain ⟨hcurrent, hx⟩ := registered_eq.mp hregistered
    have hclient : x.server.client = none := by simpa [World.unconnected, hregistered] using h
    have hgood := hI.good o x hcurrent hx
    refine ⟨?_, ?_⟩
    · rw [(scene_eq.mp hx).2]
      exact (hgood.idle hclient).2
    intro o' x' hx'
    by_cases ho' : w.current = some o'
    · obtain rfl : o = o' := Option.some.inj (hcurrent.symm.trans ho')
      obtain rfl : x = x' := Option.some.inj (hx.symm.trans hx')
      exact good_retired hgood hclient
    · exact hI.retired o' x' ho' hx'

/-- A new runtime takes the place of one that has no client. -/
theorem Inv.publish (hI : Inv S w) (hunconnected : w.unconnected = true) (m : Manifest) (desired : Desired) :
    Inv S (w.publish m desired) := by
  have hold := hI.unconnected hunconnected
  have hscene : ∀ o' x', (w.publish m desired).scene o' = some x' → (o' = w.objects.length ∧ x'.live = newRuntime m desired ∧
      x'.registry = w.registry) ∨ (o' ≠ w.objects.length ∧ w.scene o' = some x') := by
    intro o' x' hx'
    obtain ⟨hlive, hreg⟩ := scene_eq.mp hx'
    simp only [World.publish, List.getElem?_append, List.getElem?_singleton] at hlive hreg
    split at hlive
    · exact .inr ⟨by omega, scene_eq.mpr ⟨hlive, hreg⟩⟩
    · split at hlive
      · exact .inl ⟨by omega, (Option.some.inj hlive).symm, hreg.symm⟩
      · cases hlive
  have hnew : (newRuntime m desired).server.client = none ∧ (newRuntime m desired).server.state ≠ .running ∧
      (newRuntime m desired).server.nextClient = 0 := by
    unfold newRuntime
    refine ⟨rfl, ?_, rfl⟩
    dsimp only
    split
    · simp
    · split <;> simp
  constructor
  · rintro o' ⟨⟩
    simp [World.publish]
  · rintro o' x' ⟨⟩ hx'
    rcases hscene _ x' hx' with ⟨-, hlive, hreg⟩ | ⟨hne, -⟩
    · have hserver : x'.server = (newRuntime m desired).server := congrArg Live.server hlive
      refine ⟨?_, ?_, ?_, ?_⟩
      · simp [hserver, hnew.1, hnew.2.1]
      · rw [shown, hserver, if_neg hnew.2.1, hreg, hold.1]
      · simp [hserver, hnew.1]
      · intro c hc
        rw [hserver, hnew.2.2] at hc
        exact absurd hc (Nat.not_lt_zero c)
    · exact absurd rfl hne
  · intro o' x' ho' hx'
    rcases hscene o' x' hx' with ⟨rfl, -⟩ | ⟨-, hx⟩
    · exact absurd rfl ho'
    · exact hold.2 o' x' hx
  · rintro ⟨⟩

/-- The registered runtime is dropped, which has no client. -/
theorem Inv.drop (hI : Inv S w) (hunconnected : w.unconnected = true) : Inv S { w.release with current := none } := by
  have hold := hI.unconnected hunconnected
  constructor
  · rintro o ⟨⟩
  · rintro o x ⟨⟩
  · exact fun o x _ hx => hold.2 o x hx
  · exact fun _ => hold.1

/-! ## Steps -/

theorem good_setDesired (h : x.Good S held) (desired : Desired) : (setDesired x desired).Good S held :=
  h.setServer rfl rfl rfl rfl

theorem requestScene_good {met : HolderMet} (h : x.Good S held) (hstop : met.stopRaises = false)
    (hclient : met.client.stopRaises = false) (r : Request) : (requestScene S x met r).1.Good S held := by
  have hraises : x.raises met.stopRaises = false := by simp [raises, hstop]
  cases r with
  | start => exact h.start hclient
  | stop => exact h.stop hraises
  | restart =>
    simp only [requestScene, hraises, Bool.false_eq_true, if_false]
    exact (h.stop hraises).start hclient

theorem Inv.applySection (hI : Inv S w) {a : Applying} {met : HolderMet} (hholder : w.holder = some (.applying a))
    (horderly : orderly S w (.section met) = true) : Inv S (applySection S w met a) := by
  simp only [orderly, Bool.and_eq_true, Bool.not_eq_true', Bool.or_eq_true] at horderly
  obtain ⟨⟨hstop, hclient⟩, hreplaces⟩ := horderly
  have hgood : ∀ {o x}, w.registered = some (o, x) → x.Good S (w.held o) := fun h =>
    hI.good _ _ (registered_eq.mp h).1 (registered_eq.mp h).2
  have hraises : ∀ x : Scene, x.raises met.stopRaises = false := by simp [raises, hstop]
  have hstopped : ∀ {o x} (stage : Stage), w.registered = some (o, x) →
      Inv S ((w.put o (x.stop S false met.stopRaises)).goOn a stage) := fun stage h => by
    simpa [World.spawn, World.goOn] using hI.onCurrent h ((hgood h).stop (hraises _)) [] (some (.applying { a with stage := stage }))
  unfold Connections.applySection
  split
  · split
    · exact hI.setHolder _
    · next o x h => exact hstopped _ h
  · next hstage =>
    split
    · exact hI.setHolder _
    rename_i hintent
    have hunconnected : w.unconnected = true := by
      rcases hreplaces with hreplaces | hunconnected
      · simp [World.replaces, hholder, hstage, hintent] at hreplaces
      · exact hunconnected
    have hpublished := hI.publish hunconnected a.manifest (desiredState a.start)
    dsimp only
    split
    · exact hpublished.setHolder _
    · exact hpublished.setHolder _
  · split
    · exact hI.setHolder _
    rename_i o x h
    have hstart : (x.start S true met.client).1.Good S (w.held o) := (hgood h).start hclient
    have hstarted := hI.onCurrent h hstart
    dsimp only
    split
    · exact hstarted _ none
    · exact hstarted _ (some (.applying { a with stage := .undoing }))
  · split
    · exact hI.setHolder _
    · next o x h => exact hstopped _ h
  · next stopFailed hstage =>
    split
    · next hprevious =>
      refine hI.drop ?_
      rcases hreplaces with hreplaces | hunconnected
      · simp [World.replaces, hholder, hstage, hprevious] at hreplaces
      · exact hunconnected
    rename_i m desired hprevious
    split
    · exact hI.setHolder _
    rename_i hfailed
    have hunconnected : w.unconnected = true := by
      rcases hreplaces with hreplaces | hunconnected
      · simp [World.replaces, hholder, hstage, hprevious, hfailed] at hreplaces
      · exact hunconnected
    have hpublished := hI.publish hunconnected m desired
    dsimp only
    split
    · exact hpublished.setHolder _
    · exact hpublished.setHolder _
  split
  · exact hI.setHolder _
  · next o x h =>
    have hstart : (x.start S true met.client).1.Good S (w.held o) := (hgood h).start hclient
    exact hI.onCurrent h hstart _ none

/-- A section of a thread on the runtime it looked up. Where that one was replaced, the registry is left alone. -/
theorem Inv.thread (hI : Inv S w) {p p' : Worker} (hp : w.workers[i]? = some p) (hne : ∀ o c, p ≠ .stopping o c)
    (hx : w.scene o = some x) (spawns : List Spawn) (held : Nat → Prop)
    (hgood : w.current = some o → y.Good S held) (hretired : w.current ≠ some o → Retired held y ∧ y.registry = w.registry)
    (hheld : ∀ c, held c → w.held o c ∨ p' = .stopping o c) :
    Inv S (((w.put o y).setWorker i p').spawn o spawns) := by
  have hi : i < w.workers.length := (List.getElem?_eq_some_iff.mp hp).1
  have hheld' : ∀ c, held c → (((w.put o y).setWorker i p').spawn o spawns).held o c := by
    intro c hc
    rcases hheld c hc with hc | rfl
    · exact held_step hp hne _ hc
    · exact List.mem_append_left _ (List.mem_iff_getElem?.mpr ⟨i, List.getElem?_set_self hi⟩)
  refine hI.write (scene_lt hx) rfl rfl rfl (fun _ _ _ => held_step hp hne _) ?_ ?_
  · exact fun hcurrent => good_mono (hgood hcurrent) hheld'
  · intro hother
    obtain ⟨hy, hregistry⟩ := hretired hother
    exact ⟨⟨hy.client, hy.state, accounted_mono hy.accounted hheld'⟩, hregistry⟩

theorem Inv.setWorker (hI : Inv S w) {p : Worker} (hp : w.workers[i]? = some p) (hne : ∀ o c, p ≠ .stopping o c)
    (p' : Worker) : Inv S (w.setWorker i p') :=
  hI.setWorkers _ fun o c hheld => mem_set_of_ne hheld hp (hne o c).symm

/-- A section on a runtime without a client: nothing of what the others read is changed. -/
theorem retired_same (h : Retired held x) (hserver : y.server.client = x.server.client)
    (hstate : y.server.state = x.server.state) (hnext : y.server.nextClient = x.server.nextClient)
    (hended : ∀ c ∈ x.live.ended, c ∈ y.live.ended) : Retired held y where
  client := hserver.trans h.client
  state := hstate ▸ h.state
  accounted c hc := by
    rcases h.accounted c (hnext ▸ hc) with hcurrent | hc | hheld
    · exact .inl (hserver.trans hcurrent)
    · exact .inr (.inl (hended c hc))
    · exact .inr (.inr hheld)

/-- A client that the health loop has stopped is out of its hands. -/
theorem Inv.stopped (hI : Inv S w) {i client : Nat} (hp : w.workers[i]? = some (.stopping o client)) (hx : w.scene o = some x) :
    Inv S ((w.put o { x with live := { x.live with ended := client :: x.live.ended } }).setWorker i .done) := by
  have hheld : ∀ o' c, ¬ (o' = o ∧ c = client) → w.held o' c → Worker.stopping o' c ∈ w.workers.set i .done := by
    intro o' c hne hheld
    refine mem_set_of_ne hheld hp ?_
    rintro ⟨⟩
    exact hne ⟨rfl, rfl⟩
  have haccounted : x.Accounted (w.held o) → Accounted (fun c => Worker.stopping o c ∈ w.workers.set i .done)
      { x with live := { x.live with ended := client :: x.live.ended } } := by
    intro h c hc
    rcases h c hc with hcurrent | hended | hheld'
    · exact .inl hcurrent
    · exact .inr (.inl (List.mem_cons_of_mem _ hended))
    · by_cases heq : c = client
      · subst heq
        exact .inr (.inl List.mem_cons_self)
      · exact .inr (.inr (hheld o c (fun h => heq h.2) hheld'))
  refine hI.write (y := { x with live := { x.live with ended := client :: x.live.ended } }) (scene_lt hx) rfl rfl rfl
    (fun o' c hne => hheld o' c fun h => hne h.1) ?_ ?_
  · intro hcurrent
    have hgood := hI.good o x hcurrent hx
    exact ⟨hgood.client, hgood.tools, hgood.transport, haccounted hgood.accounted⟩
  · intro hother
    have hretired := hI.retired o x hother hx
    exact ⟨⟨hretired.client, hretired.state, haccounted hretired.accounted⟩, (scene_eq.mp hx).2.symm⟩

theorem Inv.workerSection (hI : Inv S w) {p : Worker} {met : WorkerMet} (hp : w.workers[i]? = some p)
    (horderly : orderly S w (.worker i met) = true) : Inv S (workerSection S w i met p) := by
  simp only [orderly, hp] at horderly
  cases p with
  | done => exact hI
  | sleeping | due | restarting => exact hI.setWorker hp (by simp) _
  | monitor o client =>
    simp only [Connections.workerSection]
    split
    · exact hI
    rename_i x hx
    refine hI.thread hp (by simp) hx _ (w.held o) (fun hcurrent => (hI.good o x hcurrent hx).exit client met.base) ?_
      fun _ => .inl
    intro hother
    have hretired := hI.retired o x hother hx
    have hnone : ¬ x.live.server.client = some client := by
      rw [show x.live.server.client = none from hretired.client]
      simp
    rw [Scene.exit, if_pos (by exact hnone)]
    exact ⟨retired_same hretired rfl rfl rfl fun _ => List.mem_cons_of_mem _, (scene_eq.mp hx).2.symm⟩
  | health o client =>
    simp only [Connections.workerSection]
    split
    · exact hI
    rename_i x hx
    refine hI.thread hp (by simp) hx _ (fun c => w.held o c ∨ ((x.health S client met.base).2.1 = .stops ∧ c = client))
      (fun hcurrent => (hI.good o x hcurrent hx).health client met.base) ?_ ?_
    · intro hother
      have hretired := hI.retired o x hother hx
      have hnone : x.server.client ≠ some client := by simp [hretired.client]
      rw [Scene.health, if_pos (.inl hnone)]
      exact ⟨⟨hretired.client, hretired.state, accounted_mono hretired.accounted fun _ => .inl⟩, (scene_eq.mp hx).2.symm⟩
    · rintro c (hheld | ⟨hstops, rfl⟩)
      · exact .inl hheld
      · exact .inr (by rw [hstops])
  | stopping o client =>
    simp only [Connections.workerSection]
    split
    · exact hI
    · next x hx =>
      rw [if_neg (by simpa using horderly)]
      exact hI.stopped hp hx
  | deciding o =>
    simp only [Connections.workerSection]
    split
    · exact hI
    rename_i x hx
    split
    · exact hI.setWorker hp (by simp) _
    · rw [← spawn_nil (w := World.setWorker _ _ _) o]
      refine hI.thread hp (by simp) hx [] (w.held o)
        (fun hcurrent => (hI.good o x hcurrent hx).setServer rfl rfl rfl rfl) ?_ fun _ => .inl
      exact fun hother => ⟨retired_same (hI.retired o x hother hx) rfl rfl rfl fun _ => id, (scene_eq.mp hx).2.symm⟩
  | starting o =>
    simp only [Bool.and_eq_true, decide_eq_true_eq, Bool.not_eq_true'] at horderly
    simp only [Connections.workerSection]
    split
    · exact hI
    · next x hx =>
      refine hI.thread hp (by simp) hx _ (w.held o)
        (fun hcurrent => (hI.good o x hcurrent hx).start horderly.2) ?_ fun _ => .inl
      exact fun hother => absurd horderly.1 hother
  | caller o =>
    simp only [Connections.workerSection]
    split
    · exact hI
    rename_i x hx
    have hreply : replyOrderly S x met.reply = true := by simpa [hx] using horderly
    rw [← spawn_nil (w := World.setWorker _ _ _) o]
    refine hI.thread hp (by simp) hx [] (w.held o)
      (fun hcurrent => (hI.good o x hcurrent hx).invoke ?_) ?_ fun _ => .inl
    · intro r hr hlaunch hrunning
      simpa [replyOrderly, hr, hlaunch, hrunning] using hreply
    intro hother
    have hretired := hI.retired o x hother hx
    have hsame : x.invoke S met.reply = x := by
      unfold Scene.invoke
      exact if_pos (.inl hretired.state)
    rw [hsame]
    exact ⟨hretired, (scene_eq.mp hx).2.symm⟩

/-- The others leave the tools of the server alone. -/
theorem Inv.elsewhereSection (hI : Inv S w) {op : Elsewhere} (hforeign : op.foreign S = true) :
    Inv S (elsewhereSection S w op) := by
  have hreg : ∀ {reg : Registry}, reg.toolsOf S.serverId = w.registry.toolsOf S.serverId → Inv S { w with registry := reg } := by
    intro reg htools
    have hscene : ∀ {o x}, ({ w with registry := reg } : World).scene o = some x → w.scene o = some ⟨x.live, w.registry⟩ ∧
        x.registry = reg := fun hx => ⟨scene_eq.mpr ⟨(scene_eq.mp hx).1, rfl⟩, (scene_eq.mp hx).2.symm⟩
    constructor
    · exact hI.current
    · intro o x ho hx
      obtain ⟨hold, hregistry⟩ := hscene hx
      have hgood := hI.good o _ ho hold
      refine ⟨hgood.client, ?_, hgood.transport, hgood.accounted⟩
      rw [hregistry, htools]
      exact hgood.tools
    · intro o x ho hx
      have hretired := hI.retired o _ ho (hscene hx).1
      exact ⟨hretired.client, hretired.state, hretired.accounted⟩
    · intro hnone
      rw [htools]
      exact hI.empty hnone
  cases op with
  | replace serverId records =>
    simp only [Connections.elsewhereSection]
    split
    · exact hI
    · next hreplace => exact hreg (Registry.toolsOf_replace_other hreplace (by simpa [Elsewhere.foreign] using hforeign))
  | unregister serverId =>
    exact hreg (Registry.toolsOf_unregister_other (by simpa [Elsewhere.foreign] using hforeign))
  | register tool =>
    simp only [Connections.elsewhereSection]
    split
    · exact hI
    · next hregister => exact hreg (Registry.toolsOf_register hregister (by simpa [Elsewhere.foreign] using hforeign))

theorem Inv.onRegistered (hI : Inv S w) {f : Scene → Scene}
    (hf : ∀ o x, w.registered = some (o, x) → x.Good S (w.held o) → (f x).Good S (w.held o)) : Inv S (w.onRegistered f) := by
  unfold World.onRegistered
  split
  · exact hI
  · next o x h =>
    have hgood := hf o x h (hI.good o x (registered_eq.mp h).1 (registered_eq.mp h).2)
    simpa [World.spawn, World.put] using hI.onCurrent h hgood [] w.holder

theorem Inv.step {e : Event} (hI : Inv S w) (h : OrderlyStep S w e w') : Inv S w' := by
  obtain ⟨⟨hpossible, rfl⟩, horderly⟩ := h
  cases e with
  | request r =>
    simp only [next]
    split
    · exact hI
    · next o x h =>
      have hgood := hI.good o x (registered_eq.mp h).1 (registered_eq.mp h).2
      simpa [World.spawn, World.put] using hI.onCurrent h (good_setDesired hgood r.desired) [] (some (.request r))
  | apply manifest start => exact hI.setHolder _
  | «section» met =>
    simp only [next]
    split
    · exact hI
    · next a hholder => exact hI.applySection hholder horderly
    rename_i r hholder
    split
    · exact hI.setHolder _
    · next o x h =>
      have hgood := hI.good o x (registered_eq.mp h).1 (registered_eq.mp h).2
      simp only [orderly, Bool.and_eq_true, Bool.not_eq_true'] at horderly
      exact hI.onCurrent h (requestScene_good hgood horderly.1.1 horderly.1.2 r) _ none
  | connect admitted operationId met =>
    simp only [orderly, Bool.and_eq_true, Bool.or_eq_true, Bool.not_eq_true'] at horderly
    refine hI.onRegistered fun o x hx hgood => ?_
    unfold connectScene
    split
    · exact hgood
    rename_i hadmitted
    simp only [not_or, ne_eq, Decidable.not_not] at hadmitted
    refine (good_setDesired hgood .running).connectExternal hadmitted.1 ?_ horderly.2
    rcases horderly.1 with hunconnected | hmade
    · have hnone : x.server.client = none := by simpa [World.unconnected, hx] using hunconnected
      exact .inl hnone
    · exact .inr hmade
  | disconnect digestMatches operationId stopRaises =>
    refine hI.onRegistered fun o x hx hgood => ?_
    unfold disconnectScene
    split
    · exact hgood
    · split
      · exact hgood
      · refine (good_setDesired hgood .stopped).stop ?_
        simp [raises, show stopRaises = false by simpa [orderly] using horderly]
  | refresh tools reconciles => exact hI.onRegistered fun o x _ hgood => hgood.refresh tools reconciles
  | call =>
    simp only [next]
    split
    · exact hI
    · exact hI.setWorkers _ fun _ _ => List.mem_append_left _
  | worker i met =>
    simp only [next]
    split
    · exact hI
    · next hp => exact hI.workerSection hp horderly
  | elsewhere op => exact hI.elsewhereSection hpossible

theorem Inv.initial (server : Option (Manifest × Desired)) : Inv S (.initial server) := by
  have hempty : Inv S {} := by
    constructor
    · rintro o ⟨⟩
    · rintro o x ⟨⟩
    · intro o x _ hx
      simp [World.scene] at hx
    · exact fun _ => rfl
  cases server with
  | none => exact hempty
  | some s => exact hempty.publish rfl s.1 s.2

/-! ## Agreement -/

/-- The client, the state, the published tools and the clients of before. -/
structure Agrees (S : Setting) (w : World) : Prop where
  /-- The server has a client if and only if it runs; what it has published is what its tools are read as, and nothing
  while it does not run. -/
  registered : ∀ o x, w.registered = some (o, x) → (x.server.client.isSome = true ↔ x.server.state = .running) ∧
    (if x.server.state = .running then mcpToolRecords (S.origin x.server.manifest) S.admits false x.live.tools else some []) =
      some (w.registry.toolsOf S.serverId)
  unregistered : w.registered = none → w.registry.toolsOf S.serverId = []
  /-- A client that was made is the current one, has ended, or is being stopped by the loop that gave it up. -/
  clients : ∀ o live c, w.objects[o]? = some live → c < live.server.nextClient →
    (w.current = some o ∧ live.server.client = some c) ∨ c ∈ live.ended ∨ .stopping o c ∈ w.workers

/-- **The state of a runtime, its client and the registry agree**, in every orderly run, between any two sections. -/
theorem runtime_agrees (S : Setting) (server : Option (Manifest × Desired)) (w : World) (tr : List Event)
    (h : Run (OrderlyStep S) (.initial server) tr w) : Agrees S w := by
  have hI : Inv S w := h.invariant (Inv.initial server) fun _ _ _ hI hs => hI.step hs
  constructor
  · intro o x hx
    obtain ⟨hcurrent, hscene⟩ := registered_eq.mp hx
    have hgood := hI.good o x hcurrent hscene
    refine ⟨hgood.client, ?_⟩
    rw [(scene_eq.mp hscene).2]
    exact hgood.tools
  · exact fun hnone => hI.empty (hI.registered_none hnone)
  intro o live c hlive hc
  have hscene : w.scene o = some ⟨live, w.registry⟩ := scene_eq.mpr ⟨hlive, rfl⟩
  by_cases hcurrent : w.current = some o
  · rcases (hI.good o _ hcurrent hscene).accounted c hc with hclient | hrest
    · exact .inl ⟨hcurrent, hclient⟩
    · exact .inr hrest
  have hretired := hI.retired o _ hcurrent hscene
  rcases hretired.accounted c hc with hclient | hrest
  · rw [hretired.client] at hclient
    cases hclient
  · exact .inr hrest

/-! ## Runs that are not orderly -/

/-- An external server over HTTP, with nothing refused. -/
def remote : Setting where
  serverId := "remote"
  core := false
  serverName _ := "Remote"
  permission _ := "mcp"
  admits _ := true

def remoteManifest : Manifest where
  launch := .external
  transport := .streamableHttp

/-- One tool, called `echo`. -/
def echo : List Json := [.obj [("name", .str "echo")]]

def connected : List Event := [.request .start, .section { client := { tools := some echo } }]

/-- A call meets an expired session, and so does its reconnection. -/
def expired : List Event := connected ++ [Event.call, .worker 0 { reply := .expired { tools := none } }]

/-- The session of a call expires and is recovered. -/
def recovered : List Event := connected ++ [Event.call, .worker 0 { reply := .expired { tools := some echo } }]

theorem both_possible : guarded (next remote) (fun w e => possible remote w e && orderly remote w e)
      (.initial (some (remoteManifest, .stopped))) recovered = true ∧
    guarded (next remote) (possible remote) (.initial (some (remoteManifest, .stopped))) expired = true := by
  decide +kernel

/-- The run of a recovery that succeeds, and what it leaves. -/
theorem runtime_agrees_recovered : ∃ w, Run (OrderlyStep remote) (.initial (some (remoteManifest, .stopped))) recovered w ∧
    Agrees remote w := by
  have hrun : Run (OrderlyStep remote) (.initial (some (remoteManifest, .stopped))) recovered
      (recovered.foldl (next remote) (.initial (some (remoteManifest, .stopped)))) := by
    refine Run.of_guarded (fun w e h => ?_) both_possible.1
    rw [Bool.and_eq_true] at h
    exact ⟨⟨h.1, rfl⟩, h.2⟩
  exact ⟨_, hrun, runtime_agrees remote _ _ _ hrun⟩

/-- After a recovery that failed the server is `failed` with its client, and its tool is still published. -/
theorem recovery_keeps_client : ∃ w x, Run (ServerStep remote) (.initial (some (remoteManifest, .stopped))) expired w ∧
    w.registered = some (0, x) ∧ x.server.state = .failed ∧ x.server.client.isSome = true ∧
      (w.registry.toolsOf "remote").map Tool.id = ["mcp.remote.echo"] := by
  have hrun : Run (ServerStep remote) (.initial (some (remoteManifest, .stopped))) expired
      (expired.foldl (next remote) (.initial (some (remoteManifest, .stopped)))) :=
    Run.of_guarded (fun _ _ h => ⟨h, rfl⟩) both_possible.2
  exact ⟨_, _, hrun, rfl, by decide +kernel, by decide +kernel, by decide +kernel⟩

end LingshuGate.Runtime.Connections
