import ModuleResolution.Proofs.Imported

namespace ModuleResolution

structure Extent where
  known : Coordinates → Prop
  entered : Coordinates → Prop
  available : Coordinates → Prop

namespace Extent

structure Answers (x : Extent) (p : Plan) (env : Environment) (onPath : Prop) (c : Coordinates) :
    Prop where
  compiled : p.Compiles env c → x.entered c
  loaded : onPath → p.Loads env c → x.entered c
  served : p.Serves env c → x.available c

theorem Answers.mono {x : Extent} {p : Plan} {env : Environment} {onPath onPath' : Prop}
    {c : Coordinates} (h : x.Answers p env onPath c) (himp : onPath' → onPath) :
    x.Answers p env onPath' c :=
  ⟨h.compiled, fun hpath => h.loaded (himp hpath), h.served⟩

structure Closed (x : Extent) (p : Plan) (env : Environment) : Prop where
  builtIn : x.known env.config.foundational ∧ x.known Registry.defaultCoordinates
  foundational : (p.artifact? env.config.foundational).isSome = true →
    x.Answers p env True env.config.foundational
  root : ∀ src ∈ p.sources, x.known src.coordinates ∧
    ((env.origin src.coordinates).available = true ∨ x.entered src.coordinates)
  imported : ∀ c, x.entered c → p.Compiles env c → ∀ d ∈ p.sourceImports c,
    x.known d.coordinates ∧ x.Answers p env True d.coordinates
  loaded : ∀ c, x.entered c → p.Loads env c → ∀ i ∈ p.loadedImports env c,
    x.Answers p env (i.exported = true ∨ env.config.loadTransitive = true) i.target
  mentioned : ∀ c, x.entered c → p.Loads env c → ∀ c', p.Mentions env c c' → x.known c'
  createdAvailable : ∀ c, x.known c → (env.origin c).available = true → x.available c
  enteredAvailable : ∀ c, x.entered c → x.available c

end Extent

namespace Session

variable {p : Plan} {env : Environment} {x : Extent} {s t : Session Walk} {n id : ModuleId}

def extent (s : Session Walk) : Extent where
  known := s.registry.Knows
  entered := fun c => ∃ n, s.Entered n ∧ s.coordinates n = c
  available := fun c => ∃ n < s.registry.size,
    (s.registry.module n).available = true ∧ s.coordinates n = c

structure Within (x : Extent) (s : Session Walk) : Prop where
  known : ∀ c, s.registry.Knows c → x.known c
  entered : ∀ n, s.Entered n → x.entered (s.coordinates n)
  available : ∀ n < s.registry.size, (s.registry.module n).available = true →
    x.available (s.coordinates n)

theorem Within.of_others (h : s.Within x) (hx : x.Closed p env) (hc : s.Coherent p env)
    (hf : s.Faced p env) (ht : t.Faced p env)
    (hev : Registry.Evolves env.platform id s.registry t.registry)
    (hknown : ∀ c, t.registry.Knows c → x.known c)
    (hentered : ∀ n, t.Entered n →
      s.Entered n ∨ n < s.registry.size ∧ x.entered (s.coordinates n))
    (hself : id < s.registry.size → (t.registry.module id).available = true →
      (s.registry.module id).available = true ∨ x.available (s.coordinates id)) : t.Within x where
  known := hknown
  entered := by
    intro n hn
    rcases hentered n hn with hold | ⟨hlt, hnew⟩
    · rw [Session.coordinates, hev.coordinates (hold.lt_size hc)]
      exact h.entered n hold
    · rw [Session.coordinates, hev.coordinates hlt]
      exact hnew
  available := by
    intro n hn ha
    by_cases hlt : n < s.registry.size
    · rw [Session.coordinates, hev.coordinates hlt]
      by_cases hne : n = id
      · subst hne
        exact (hself hlt ha).elim (h.available n hlt) fun hself => hself
      · rw [hev.others n hlt hne] at ha
        exact h.available n hlt ha
    · obtain ⟨c, hcreated, -⟩ := hev.created n (Nat.le_of_not_lt hlt) hn
      have hface := hf.face_created ht.distinct (fun j hj => hev.coordinates hj) hc.builtIn
        (Nat.le_of_not_lt hlt) hn hcreated
      refine hx.createdAvailable _ (hknown _ ⟨n, hn, rfl⟩) ?_
      rw [← hface]
      exact ha

theorem Within.of_registry_eq (h : s.Within x) (hr : t.registry = s.registry)
    (hentered : ∀ n, t.Entered n → s.Entered n ∨ x.entered (s.coordinates n)) : t.Within x where
  known := hr ▸ h.known
  entered := by
    intro n hn
    rw [Session.coordinates, hr]
    exact (hentered n hn).elim (h.entered n) fun hnew => hnew
  available := by
    rw [hr]
    intro n hn ha
    rw [Session.coordinates, hr]
    exact h.available n hn ha

theorem Within.ensure {c : Coordinates} {e : Engine} (h : s.Within x) (hx : x.Closed p env)
    (hc : s.Coherent p env) (hf : s.Faced p env) (hensure : s.engine.ensure env c = (e, id))
    (hknown : x.known c) : (⟨e, s.client⟩ : Session Walk).Within x := by
  have ht := hf.ensure hc hensure
  obtain rfl : (s.engine.ensure env c).1 = e := congrArg Prod.fst hensure
  have hev := Registry.evolves_ensure env.platform Registry.foundational s.registry c
  refine h.of_others hx hc hf ht hev (fun c' hc' => ?_) (fun n hn => .inl hn) fun hlt ha => ?_
  · rcases (Registry.knows_ensure hc.indexed).mp hc' with hold | rfl
    · exact h.known c' hold
    · exact hknown
  · have hsame : (s.registry.ensure env.platform c).1.module Registry.foundational =
        s.registry.module Registry.foundational := Registry.module_ensure_of_lt hlt
    exact .inl (hsame ▸ ha)

theorem Within.supplied {v : Visit} {a : Artifact} {onPath : Prop} (h : s.Within x)
    (hx : x.Closed p env) (hc : s.Coherent p env) (hf : s.Faced p env)
    (hid : v.edge.target < s.registry.size) (hdone : s.client.isDone v.edge.target = false)
    (hlocate : Walk.locate? p env (s.target v) = some a)
    (hsource : env.isSource (s.target v).name = false)
    (hsupplied : env.platform.supplies (s.target v).coordinates = true)
    (hanswers : x.Answers p env onPath (s.coordinates v.edge.target)) :
    (s.answer v (s.engine.modifyModule v.edge.target env.platform.setUp)
      (some .platform)).Within x := by
  have hev : Registry.Evolves env.platform v.edge.target s.registry
      (s.registry.modify v.edge.target env.platform.setUp) :=
    Registry.evolves_modify fun m => Module.grows_setUp _ m
  refine h.of_others hx hc hf (hf.supplied hc hid hdone hlocate hsource hsupplied) hev
    (fun c hknows => h.known c ?_) (fun n hn => .inl hn) fun _ _ => ?_
  · exact (Registry.knows_modify fun m => Module.grows_setUp _ m).mp hknows
  · rcases serves_or_fromPlatform hlocate hsource hsupplied with hserves | hplatform
    · exact .inr (hanswers.served hserves)
    · refine .inl ?_
      have hplatform : (s.target v).face.fromPlatform = true := hplatform
      cases hf.looks _ hid with
      | untouched _ hlook | inProgress _ hlook =>
          rw [hlook, Environment.fromPlatform_origin, ← hlook] at hplatform
          exact hplatform
      | served _ hserves hlook => exact Faced.available_of_served hserves hlook
      | compiled hk => exact hc.available _ (.inr hk)
      | loaded hl => exact hc.available _ (.inl hl)

theorem entered_enter {trail : Trail} (h : (s.enter trail id).Entered n) :
    s.Entered n ∨ n = id := by
  rcases h with hdone | hprogress
  · rw [Walk.isDone_eq_true, loaded_enter, compiled_enter, ← Walk.isDone_eq_true] at hdone
    exact .inl (.inl hdone)
  · have hprogress : n ∈ s.engine.inProgress ∨ n = id := by
      simpa [Session.enter, Engine.enter] using hprogress
    exact hprogress.imp_left .inr

theorem entered_finish (hid : id ∈ s.engine.inProgress) (h : (s.finish id).Entered n) :
    s.Entered n := by
  rcases h with hdone | hprogress
  · rcases Walk.isDone_eq_true.mp hdone with hl | hk
    · exact entered_of_done (.inl hl)
    · rcases List.mem_cons.mp hk with rfl | hk
      · exact .inr hid
      · exact entered_of_done (.inr hk)
  · exact .inr (List.dropLast_subset _ hprogress)

theorem entered_noteLoaded {v : Visit} {e : Engine} {resolution : Option Resolution}
    (hprogress : e.inProgress = s.engine.inProgress)
    (h : ((s.answer v e resolution).noteLoaded v.edge.target).Entered n) :
    s.Entered n ∨ n = v.edge.target := by
  by_cases hne : n = v.edge.target
  · exact .inr hne
  · refine .inl (h.imp (fun hdone => ?_) fun hmem => hprogress ▸ hmem)
    rw [Walk.isDone_eq_true] at hdone ⊢
    exact hdone.imp_left fun hl => (List.mem_cons.mp hl).resolve_left hne

theorem Within.enter {trail : Trail} (h : s.Within x) (hentered : x.entered (s.coordinates id)) :
    (s.enter trail id).Within x := by
  refine h.of_registry_eq rfl fun n hn => ?_
  rcases entered_enter hn with hold | rfl
  · exact .inl hold
  · exact .inr hentered

theorem Within.declare {d : Dependency} (h : s.Within x) (hx : x.Closed p env)
    (hc : s.Coherent p env) (hf : s.Faced p env) (hn : n ∈ s.engine.inProgress)
    (hknown : x.known d.coordinates) : (s.declare env n d).Within x := by
  have hq : Quiet env s ⟨(s.engine.ensure env d.coordinates).1, s.client⟩ := quiet_ensure rfl
  have hensured : (⟨(s.engine.ensure env d.coordinates).1, s.client⟩ : Session Walk).Within x :=
    h.ensure hx hc hf rfl hknown
  have hfaced := hf.ensure hc (c := d.coordinates) rfl
  have hregistry := registry_declare env s n d
  have hev := evolves_addEdge env s n d
  refine hensured.of_others hx (hc.quiet hq) hfaced (hf.declare hc hn) hev (fun c hknows => ?_)
    (fun m hm => .inl ?_) fun hlt ha => .inl ?_
  · rw [hregistry] at hknows
    exact hensured.known c ((Registry.knows_modify fun m => Module.grows_addImport m _).mp hknows)
  · have hprogress : (s.declare env n d).engine.inProgress =
        (s.engine.ensure env d.coordinates).1.inProgress := Engine.inProgress_declareImport ..
    exact hm.imp_right fun hm => hprogress ▸ hm
  · have hself : (s.declare env n d).registry.module n = _ :=
      hregistry ▸ Registry.module_modify_self hlt
    rw [hself, Module.addImport_eq] at ha
    split at ha <;> exact ha

theorem Within.finish {outer : List ModuleId} (h : s.Within x) (hx : x.Closed p env)
    (hc : s.Coherent p env) (hf : s.Faced p env) (hstack : s.engine.inProgress = outer ++ [id]) :
    (s.finish id).Within x := by
  have hid : id ∈ s.engine.inProgress := by simp [hstack]
  refine h.of_others hx hc hf (hf.finish hc hstack) (evolves_finish env s id)
    (fun c hknows => h.known c ?_) (fun n hn => .inl (entered_finish hid hn)) fun _ _ => ?_
  · exact (Registry.knows_modify fun m => Module.grows_markAvailable m).mp hknows
  · exact .inr (hx.enteredAvailable _ (h.entered id (.inr hid)))

theorem Within.load {v : Visit} {e : Engine} {l : Loaded} (h : s.Within x) (hx : x.Closed p env)
    (hc : s.Coherent p env) (hf : s.Faced p env) (hid : v.edge.target < s.registry.size)
    (hload : s.LoadedAs p env e v.edge.target)
    (hloads : p.Loads env (s.coordinates v.edge.target))
    (hentered : x.entered (s.coordinates v.edge.target)) :
    ((s.answer v e (some (.ofLoaded l))).noteLoaded v.edge.target).Within x := by
  refine h.of_others hx hc hf (hf.load hc hid hload) hload.evolves (fun c hknows => ?_)
    (fun n hn => ?_) fun _ _ => .inr (hx.enteredAvailable _ hentered)
  · rcases (hload.knows c).mp hknows with hold | hmentions
    · exact h.known c hold
    · exact hx.mentioned _ hentered hloads c hmentions
  · rcases entered_noteLoaded hload.inProgress hn with hold | rfl
    · exact .inl hold
    · exact .inr ⟨hid, hentered⟩

end Session

namespace Agenda

structure Within (x : Extent) (p : Plan) (env : Environment) (a : Agenda) : Prop where
  session : a.session.Within x
  visits : ∀ v, .visit v ∈ a.tasks →
    x.Answers p env (v.onBuildPath = true ∨ env.config.loadTransitive = true)
      (a.session.coordinates v.edge.target)

variable {p : Plan} {env : Environment} {x : Extent} {s : Session Walk} {rest : List Task}

theorem Coherent.asks_of_declare {n : ModuleId} {trail : Trail} {d : Dependency}
    (h : Coherent p env ⟨s, .declare n trail d :: rest⟩)
    (hi : AllImported p ⟨s, .declare n trail d :: rest⟩) (hw : s.Within x)
    (hx : x.Closed p env) : x.known d.coordinates ∧ x.Answers p env True d.coordinates := by
  have hn : n ∈ s.engine.inProgress := h.mem_inProgress.mp (List.mem_cons_of_mem _ h.nested.1)
  obtain ⟨done, hdone, -⟩ := hi n (.inl hn)
  refine hx.imported _ (hw.entered n (.inr hn)) (h.session.sources n (.inl hn)).2 d ?_
  have hmem : d ∈ Task.pending n (.declare n trail d :: rest) := by
    simp [Task.pending, Task.declares?]
  rw [hdone]
  exact List.mem_append_right _ hmem

theorem Coherent.within_step {task : Task} {left : List Task} {t : Session Walk}
    (h : Coherent p env ⟨s, task :: rest⟩) (hf : s.Faced p env)
    (hne : env.config.foundational ≠ Registry.defaultCoordinates)
    (hi : AllImported p ⟨s, task :: rest⟩) (hx : x.Closed p env)
    (hs : task.Step p env s t left) (hw : Within x p env ⟨s, task :: rest⟩)
    (hstrict : ∀ v, task = .visit v → s.client.isDone v.edge.target = false →
      p.Loads env (s.coordinates v.edge.target) →
      v.onBuildPath = true ∨ Engine.loadsAnyway env v.edge.target = true →
        v.onBuildPath = true ∨ env.config.loadTransitive = true) : t.Within x := by
  have hc := h.session
  cases hs with
  | done => exact hw.session
  | missing | skipped | deferred => exact hw.session.of_registry_eq rfl fun n hn => .inl hn
  | @supplied v a hdone hlocate hsource hsupplied =>
      exact hw.session.supplied hx hc hf (h.targets v List.mem_cons_self) hdone hlocate hsource
        hsupplied (hw.visits v List.mem_cons_self)
  | @loaded v a e l hdone hlocate hsource hsupplied hclear hneeded hload =>
      have hid := h.targets v List.mem_cons_self
      have hloads := hc.loads_of_locate? hid (Walk.isDone_eq_false.mp hdone).1 hlocate hsource
        hsupplied
      exact hw.session.load hx hc hf hid
        (hf.loadedAs hne hc hid hdone hlocate hsource hsupplied hload) hloads
        ((hw.visits v List.mem_cons_self).loaded (hstrict v rfl hdone hloads hneeded) hloads)
  | @entered v a src hdone hlocate hsource hclear hidle hdeclared =>
      exact hw.session.enter ((hw.visits v List.mem_cons_self).compiled
        ⟨hsource, Option.isSome_of_eq_some hdeclared⟩)
  | declared =>
      exact hw.session.declare hx hc hf (h.mem_inProgress.mp (List.mem_cons_of_mem _ h.nested.1))
        (h.asks_of_declare hi hw.session hx).1
  | finished => exact hw.session.finish hx hc hf h.inProgress_of_finish
  | @present src e id hensure =>
      exact hw.session.ensure hx hc hf hensure (hx.root src (h.roots src List.mem_cons_self)).1
  | @refused src e id c hensure =>
      have hensured := hw.session.ensure hx hc hf hensure
        (hx.root src (h.roots src List.mem_cons_self)).1
      exact hensured.of_registry_eq rfl fun n hn => .inl hn
  | @opened src declared e id hensure havailable =>
      obtain ⟨hknown, hroot⟩ := hx.root src (h.roots src List.mem_cons_self)
      obtain ⟨hlt, hid⟩ := Session.ensured hc.indexed hensure
      rw [← hid] at hknown hroot
      -- a root that was available when it was created would not have been opened
      refine (hw.session.ensure hx hc hf hensure (hid ▸ hknown)).enter
        (hroot.resolve_left fun horigin => ?_)
      have ha := (hf.ensure hc hensure).available_of_origin
        (hc.quiet (Session.quiet_ensure hensure)) hlt horigin
      exact Bool.false_ne_true (havailable.symm.trans ha)

theorem Coherent.answers_of_left {task : Task} {left : List Task} {t : Session Walk} {v : Visit}
    (h : Coherent p env ⟨s, task :: rest⟩) (hf : s.Faced p env)
    (hne : env.config.foundational ≠ Registry.defaultCoordinates)
    (hi : AllImported p ⟨s, task :: rest⟩) (hx : x.Closed p env)
    (hs : task.Step p env s t left) (hw : Within x p env ⟨s, task :: rest⟩) (ht : t.Within x)
    (hv : .visit v ∈ left) :
    x.Answers p env (v.onBuildPath = true ∨ env.config.loadTransitive = true)
      (t.coordinates v.edge.target) := by
  have hst := h.extends hs
  rcases h.visit_of_step hs hv with ⟨w, rfl, -, hloads, -, hl, i, hmem, rfl⟩ |
      ⟨n, trail, d, rfl, -, rfl, rfl⟩
  · have hcoordinates : t.coordinates w.edge.target = s.coordinates w.edge.target :=
      (hst.grows _ (h.targets w List.mem_cons_self)).coordinates
    have hentered := ht.entered w.edge.target (Session.entered_of_done (.inl hl))
    have hnamed : t.registry.named i ∈ p.loadedImports env (t.coordinates w.edge.target) := by
      rw [← ((h.faced_step hne hs hf).looks_loaded (h.step hs).session hl).2]
      exact List.mem_map_of_mem hmem
    refine (hx.loaded _ hentered (hcoordinates ▸ hloads) _ hnamed).mono ?_
    rw [Bool.and_eq_true]
    exact fun hpath => hpath.imp_left And.right
  · have hcoordinates : (s.declare env n d).coordinates (s.importedEdge env n d).target =
        d.coordinates := Session.coordinates_importedEdge h.session.indexed
    rw [hcoordinates]
    exact (h.asks_of_declare hi hw.session hx).2.mono fun _ => trivial

end Agenda

namespace Plan

variable {p : Plan} {config : Config} {overrides : Option Overrides} {x : Extent} {a : Agenda}

theorem within_agenda (hx : x.Closed p (p.environment config overrides)) :
    (p.agenda config).Within x p (p.environment config overrides) := by
  have hf : ((p.agenda config).session.registry.module Registry.foundational).coordinates =
      config.foundational := Registry.coordinates_foundational_init _
  have hd : ((p.agenda config).session.registry.module Registry.defaultModule).coordinates =
      Registry.defaultCoordinates := Module.coordinates_fresh _ _ _
  have hcases {n : Nat} (hn : n < (p.agenda config).session.registry.size) :
      n = Registry.foundational ∨ n = Registry.defaultModule := by
    have hn : n < 2 := hn
    simp only [Registry.foundational, Registry.defaultModule]
    omega
  refine ⟨⟨?_, ?_, ?_⟩, fun v hv => ?_⟩
  · rintro c ⟨n, hn, rfl⟩
    rcases hcases hn with rfl | rfl
    · exact hf.symm ▸ hx.builtIn.1
    · exact hd.symm ▸ hx.builtIn.2
  · rintro n (hdone | hprogress)
    · cases hdone
    · cases hprogress
  · intro n hn ha
    rcases hcases hn with rfl | rfl <;> cases ha
  · rcases List.mem_append.mp hv with hv | hv
    · split at hv
      · next hartifact =>
        cases List.mem_singleton.mp hv
        have hanswers := hx.foundational hartifact
        exact (hf.symm ▸ hanswers).mono fun _ => trivial
      · cases hv
    · obtain ⟨src, -, hsrc⟩ := List.mem_map.mp hv
      cases hsrc

theorem Reaches.within (hne : config.foundational ≠ Registry.defaultCoordinates)
    (hx : x.Closed p (p.environment config overrides)) (h : p.Reaches config overrides a) :
    a.Within x p (p.environment config overrides) := by
  induction h using Reaches.induction with
  | start => exact within_agenda hx
  | @step s t task left rest hreach hs ih =>
      have hc := hreach.coherent
      have hf := hreach.faced hne
      have hi := hreach.allImported
      have ht : t.Within x := by
        refine hc.within_step hf hne hi hx hs ih fun v hv hdone hloads hneeded => ?_
        subst hv
        exact hreach.loads_strictly hdone hloads hneeded
      refine ⟨ht, fun v hv => ?_⟩
      rcases List.mem_append.mp hv with hleft | hrest
      · exact hc.answers_of_left hf hne hi hx hs ih ht hleft
      · have hvisit := ih.visits v (List.mem_cons_of_mem _ hrest)
        have hsame : t.coordinates v.edge.target = s.coordinates v.edge.target :=
          ((hc.extends hs).grows _ (hc.targets v (List.mem_cons_of_mem _ hrest))).coordinates
        rw [hsame]
        exact hvisit

end Plan

end ModuleResolution
