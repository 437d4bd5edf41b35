import ModuleResolution.Proofs.Faces

namespace ModuleResolution

theorem BinaryVersion.isSupportedBy_iff {v w : BinaryVersion} :
    v.isSupportedBy w = true ↔ v = w := by
  cases v
  cases w
  simp [isSupportedBy]

def BinaryVersion.isForeign (supported : BinaryVersion) (found : Option BinaryVersion) : Bool :=
  found.any (· != supported)

theorem Issue.isSome_ofBinaryVersion? (found : Option BinaryVersion) (supported : BinaryVersion) :
    (ofBinaryVersion? found supported).isSome = supported.isForeign found := by
  cases found with
  | none => rfl
  | some v =>
      cases hv : v.isSupportedBy supported with
      | true =>
          rw [BinaryVersion.isSupportedBy_iff] at hv
          simp [ofBinaryVersion?, BinaryVersion.isForeign, hv, BinaryVersion.isSupportedBy]
      | false =>
          have hne : v ≠ supported := fun h =>
            Bool.false_ne_true (hv.symm.trans (BinaryVersion.isSupportedBy_iff.mpr h))
          simp [ofBinaryVersion?, BinaryVersion.isForeign, hv, hne]

namespace Environment

def formatOf (env : Environment) (m : Module) (a : Artifact) : Option BinaryVersion :=
  if m.isDefault then none else env.descriptors.format? a.coordinates

def importsOf (env : Environment) (m : Module) (a : Artifact) : List NamedImport :=
  if m.isDefault then [] else env.named a

def kindOf (env : Environment) (m : Module) (a : Artifact) : Loaded :=
  if m.isDefault || (env.descriptors.format? a.coordinates).isSome then .compiled
  else .nativeArchive

theorem kindOf_eq_native {env : Environment} {m : Module} {a : Artifact} :
    env.kindOf m a = .nativeArchive ↔
      m.isDefault = false ∧ env.descriptors.format? a.coordinates = none := by
  rw [kindOf]
  cases m.isDefault <;> cases env.descriptors.format? a.coordinates <;> simp

theorem formatOf_of_native {env : Environment} {m : Module} {a : Artifact}
    (h : env.kindOf m a = .nativeArchive) : env.formatOf m a = none := by
  obtain ⟨hdefault, hformat⟩ := kindOf_eq_native.mp h
  simp [formatOf, hdefault, hformat]

end Environment

namespace Module

structure Lasting {β : Type} (p : Platform) (g : Module → β) : Prop where
  fresh : ∀ id c, g (Module.fresh id c false) = g (Module.fresh id ⟨"", ""⟩ false)
  setUp : ∀ m, g (p.setUp m) = g m
  addImport : ∀ m i, g (addImport m i) = g m
  markAvailable : ∀ m, g (markAvailable m) = g m

theorem fromBinary_addImport (m : Module) (i : Import) :
    (m.addImport i).fromBinary = m.fromBinary := by
  obtain ⟨is, his⟩ := exists_addImport_eq m i
  rw [his]
  rfl

theorem fromBinary_setUp (p : Platform) (m : Module) : (p.setUp m).fromBinary = m.fromBinary := by
  unfold Platform.setUp
  split <;> rfl

theorem lasting_binaryVersion (p : Platform) : Lasting p binaryVersion :=
  ⟨fun _ _ => rfl, binaryVersion_setUp p, binaryVersion_addImport, fun _ => rfl⟩

theorem lasting_fromBinary (p : Platform) : Lasting p fromBinary :=
  ⟨fun _ _ => rfl, fromBinary_setUp p, fromBinary_addImport, fun _ => rfl⟩

end Module

namespace Registry

variable {r s : Registry} {p : Platform} {id j : ModuleId} {f : Module → Module} {β : Type}
  {g : Module → β}

theorem eq_modify (hf : ∀ m : Module, g (f m) = g m) :
    g ((r.modify id f).module j) = g (r.module j) := by
  by_cases hne : j = id
  · subst hne
    by_cases hj : j < r.size
    · rw [module_modify_self hj, hf]
    · rw [module_of_size_le (Nat.le_of_not_lt hj),
        module_of_size_le (by simpa using Nat.le_of_not_lt hj)]
  · rw [module_modify_of_ne hne]

theorem eq_ensure (hg : Module.Lasting p g) (r : Registry) (c : Coordinates) (j : ModuleId) :
    g ((r.ensure p c).1.module j) = g (r.module j) :=
  (evolves_ensure p (j + 1) r c).eq_of_ne (Nat.ne_of_lt (Nat.lt_succ_self j)) hg.setUp (hg.fresh j)

end Registry

namespace Engine

variable {env : Environment} {e : Engine} {r : Registry} {a : Artifact} {id : ModuleId}

theorem load_snd (env : Environment) (a : Artifact) (i : Import) (trail : Trail)
    (hid : id < e.registry.size) :
    (e.load env a id i trail).2 = env.kindOf (e.registry.module id) a := by
  have hdefault := isDefault_inputRegistry (a := a) hid
  change ((inputRegistry e.registry id a).readArtifact env id a).2 = _
  rw [Registry.readArtifact, Environment.kindOf, hdefault]
  split
  · next h => rw [h]; rfl
  · next h =>
    cases env.descriptors.format? a.coordinates <;> simp [h]

section

variable (hid : id < r.size)

include hid

theorem binaryVersion_loadedRegistry (hunread : (r.module id).binaryVersion = none) :
    ((loadedRegistry env r id a).module id).binaryVersion = env.formatOf (r.module id) a := by
  have hface : (((loadedRegistry env r id a).module id).setImports []).markAvailable = _ :=
    face_loadedRegistry env a hid
  refine (congrArg Module.binaryVersion hface).trans ?_
  have hdefault : ((r.module id).setImports []).isDefault = (r.module id).isDefault := rfl
  have hunread : ((r.module id).setImports []).binaryVersion = none := hunread
  generalize (r.module id).setImports [] = m at hdefault hunread
  rw [Environment.loadedFace, Environment.formatOf, ← hdefault]
  cases m.isDefault with
  | true => exact hunread
  | false =>
      cases env.descriptors.format? a.coordinates with
      | none => exact hunread
      | some v => rfl

variable (hplatform : (r.module id).fromPlatform = false)

include hplatform

theorem isCompiled_loadedRegistry :
    ((loadedRegistry env r id a).module id).isCompiled =
      (!(r.module id).isDefault && (env.descriptors.format? a.coordinates).isSome) := by
  have hface : (((loadedRegistry env r id a).module id).setImports []).markAvailable = _ :=
    face_loadedRegistry env a hid
  refine (congrArg Module.isCompiled hface).trans ?_
  have hdefault : ((r.module id).setImports []).isDefault = (r.module id).isDefault := rfl
  have hplatform : ((r.module id).setImports []).fromPlatform = false := hplatform
  generalize (r.module id).setImports [] = m at hdefault hplatform
  rw [Environment.loadedFace, ← hdefault]
  cases hm : m.isDefault with
  | true => simp [Module.isCompiled, Module.markAvailable, Module.markFromBinary, hm]
  | false =>
      cases env.descriptors.format? a.coordinates <;>
        simp [Module.isCompiled, Module.markAvailable, Module.markFromBinary,
          Module.setBinaryVersion, Module.restrictTo, Module.markFromPlatform, hm, hplatform]

theorem length_formatIssues_loadedRegistry (hunread : (r.module id).binaryVersion = none) :
    (formatIssues env ((loadedRegistry env r id a).module id)).length =
      if env.config.binaryVersion.isForeign (env.formatOf (r.module id) a) then 1 else 0 := by
  rw [formatIssues, isCompiled_loadedRegistry hid hplatform,
    binaryVersion_loadedRegistry hid hunread, ← Issue.isSome_ofBinaryVersion?,
    Environment.formatOf]
  cases (r.module id).isDefault with
  | true => rfl
  | false =>
      cases env.descriptors.format? a.coordinates with
      | none => rfl
      | some v =>
          simp only [Bool.not_false, Option.isSome_some, Bool.and_self, if_true,
            Bool.false_eq_true, if_false]
          cases Issue.ofBinaryVersion? (some v) env.config.binaryVersion <;> rfl

end

theorem binaryVersion_load {f : Engine} {i : Import} {trail : Trail} {l : Loaded}
    (hid : id < e.registry.size) (hload : e.load env a id i trail = (f, l))
    (hunread : (e.registry.module id).binaryVersion = none) :
    (f.registry.module id).binaryVersion = env.formatOf (e.registry.module id) a := by
  obtain rfl : (e.load env a id i trail).1 = f := congrArg Prod.fst hload
  rw [load_registry]
  exact (Registry.eq_modify (f := Module.markAvailable) fun _ => rfl).trans
    (binaryVersion_loadedRegistry hid hunread)

end Engine

namespace Session

variable {p : Plan} {env : Environment} {s t : Session Walk} {n : ModuleId}

structure AsRead (p : Plan) (env : Environment) (s : Session Walk) (n : ModuleId) : Prop where
  format : (s.registry.module n).binaryVersion =
    env.formatOf (s.registry.module n) (p.artifactAt (s.coordinates n))
  imports : s.registry.namedImports n =
    env.importsOf (s.registry.module n) (p.artifactAt (s.coordinates n))

structure Reads (p : Plan) (env : Environment) (s : Session Walk) : Prop where
  unread : ∀ n, n ∉ s.client.loaded → (s.registry.module n).binaryVersion = none
  read : ∀ n ∈ s.client.loaded, s.AsRead p env n
  logged : ∀ o ∈ s.client.outcomes, ∀ l, o.resolution = some (.ofLoaded l) →
    o.module ∈ s.client.loaded ∧
      env.kindOf (s.registry.module o.module) (p.artifactAt (s.coordinates o.module)) = l

theorem AsRead.of_same (h : s.AsRead p env n) (hc : s.Coherent p env) (hst : s.Extends t)
    (hsame : t.registry.module n = s.registry.module n) : t.AsRead p env n where
  format := by
    rw [Session.coordinates, hsame]
    exact h.format
  imports := by
    rw [Session.coordinates, hsame, Registry.namedImports_eq hc.indexed (hc.linked _)
      (fun j hj => (hst.grows j hj).coordinates) (congrArg Module.imports hsame)]
    exact h.imports

theorem Coherent.asRead_load {v : Visit} {a : Artifact} {e : Engine} {l : Loaded}
    (h : s.Coherent p env) (hid : v.edge.target < s.registry.size)
    (hdone : s.client.isDone v.edge.target = false)
    (hlocate : Walk.locate? p env (s.target v) = some a)
    (hsource : env.isSource (s.target v).name = false)
    (hsupplied : env.platform.supplies (s.target v).coordinates = false)
    (hload : s.engine.load env a v.edge.target v.edge v.trail = (e, l))
    (hunread : (s.target v).binaryVersion = none) :
    ((s.answer v e (some (.ofLoaded l))).noteLoaded v.edge.target).AsRead p env v.edge.target ∧
      env.kindOf (e.registry.module v.edge.target)
        (p.artifactAt (e.registry.module v.edge.target).coordinates) = l := by
  obtain ⟨hl, hk⟩ := Walk.isDone_eq_false.mp hdone
  have hplatform : (s.target v).fromPlatform = false := h.not_fromPlatform hid hl hsupplied
  have hnil := h.bare _ (h.idle_of_not_source hsource).1 hk hl
  have hev := Engine.evolves_load hid hload
  have hkind := Engine.load_snd env a v.edge v.trail hid
  have hversion := Engine.binaryVersion_load hid hload hunread
  have hnames : (s.engine.load env a v.edge.target v.edge v.trail).1.registry.namedImports _ = _ :=
    Engine.namedImports_load h.indexed h.linked hid hnil hplatform
  rw [hload] at hkind hnames
  have hartifact : p.artifactAt (e.registry.module v.edge.target).coordinates = a := by
    rw [hev.coordinates hid]
    exact Plan.artifactAt_eq (h.artifact_of_locate? hid hl hlocate hsource hsupplied)
  have hdefault : (e.registry.module v.edge.target).isDefault = (s.target v).isDefault :=
    (hev.grows hid).isDefault
  have hformat : env.formatOf (s.target v) a = env.formatOf (e.registry.module v.edge.target)
      (p.artifactAt (e.registry.module v.edge.target).coordinates) := by
    rw [hartifact, Environment.formatOf, Environment.formatOf, hdefault]
  have himports : (if (s.target v).isDefault then [] else env.named a) =
      env.importsOf (e.registry.module v.edge.target)
        (p.artifactAt (e.registry.module v.edge.target).coordinates) := by
    rw [hartifact, Environment.importsOf, hdefault]
  refine ⟨⟨hversion.trans hformat, hnames.trans himports⟩, ?_⟩
  rw [hartifact, Environment.kindOf, hdefault]
  exact hkind.symm

end Session

namespace Agenda

variable {p : Plan} {env : Environment} {s t : Session Walk} {task : Task} {left rest : List Task}

theorem Coherent.eq_of_not_loaded {β : Type} {g : Module → β} {n : ModuleId}
    (h : Coherent p env ⟨s, task :: rest⟩) (hs : task.Step p env s t left)
    (hg : Module.Lasting env.platform g) (hn : n ∉ t.client.loaded) :
    g (t.registry.module n) = g (s.registry.module n) := by
  cases hs with
  | done | missing | skipped | deferred | entered => rfl
  | supplied => exact Registry.eq_modify hg.setUp
  | @loaded v a e l hdone hlocate hsource hsupplied hclear hneeded hload =>
      have hev := Engine.evolves_load (h.targets v List.mem_cons_self) hload
      exact hev.eq_of_ne (fun hne => hn (hne ▸ List.mem_cons_self)) hg.setUp (hg.fresh n)
  | declared =>
      rw [Session.registry_declare, Registry.eq_modify fun m => hg.addImport m _,
        Registry.eq_ensure hg]
  | finished => exact Registry.eq_modify hg.markAvailable
  | present hensure | refused hensure | opened hensure =>
      obtain rfl := congrArg Prod.fst hensure
      exact Registry.eq_ensure hg _ _ n

theorem Coherent.reads_step (h : Coherent p env ⟨s, task :: rest⟩)
    (hs : task.Step p env s t left) (hr : s.Reads p env) : t.Reads p env := by
  have hst := h.extends hs
  have hsame (n : ModuleId) (hn : n ∈ s.client.loaded) :
      t.registry.module n = s.registry.module n :=
    h.module_of_done hs (Walk.isDone_eq_true.mpr (.inl hn))
  have hread (n : ModuleId) (hn : n ∈ s.client.loaded) : t.AsRead p env n :=
    (hr.read n hn).of_same h.session hst (hsame n hn)
  have hlogged (o : EdgeOutcome) (ho : o ∈ s.client.outcomes) (l : Loaded)
      (hl : o.resolution = some (.ofLoaded l)) : o.module ∈ t.client.loaded ∧
        env.kindOf (t.registry.module o.module) (p.artifactAt (t.coordinates o.module)) = l := by
    obtain ⟨hn, hkind⟩ := hr.logged o ho l hl
    rw [Session.coordinates, hsame _ hn]
    exact ⟨hst.loaded hn, hkind⟩
  refine ⟨fun n hn => ?_, ?_, ?_⟩
  · rw [h.eq_of_not_loaded hs (Module.lasting_binaryVersion _) hn]
    exact hr.unread n fun hl => hn (hst.loaded hl)
  · intro n hn
    cases hs with
    | @loaded v a e l hdone hlocate hsource hsupplied hclear hneeded hload =>
        rcases List.mem_cons.mp hn with rfl | hn
        · exact (h.session.asRead_load (h.targets v List.mem_cons_self) hdone hlocate hsource
            hsupplied hload (hr.unread _ (Walk.isDone_eq_false.mp hdone).1)).1
        · exact hread n hn
    | entered | opened =>
        rw [Session.loaded_enter] at hn
        exact hread n hn
    | _ => exact hread n hn
  · intro o ho l hl
    cases hs with
    | done | declared | finished | present | refused => exact hlogged o ho l hl
    | missing | supplied | skipped | deferred =>
        rcases Session.mem_outcomes_answer ho with ho | rfl
        · exact hlogged o ho l hl
        · cases l <;> cases hl
    | entered | opened =>
        rcases Session.mem_outcomes_enter ho with ho | rfl
        · exact hlogged o ho l hl
        · cases l <;> cases hl
    | @loaded v a e l' hdone hlocate hsource hsupplied hclear hneeded hload =>
        rcases Session.mem_outcomes_answer (e := e) ho with ho | rfl
        · exact hlogged o ho l hl
        · obtain rfl : l' = l := by cases l <;> cases l' <;> first | rfl | cases hl
          exact ⟨List.mem_cons_self, (h.session.asRead_load (h.targets v List.mem_cons_self) hdone
            hlocate hsource hsupplied hload
              (hr.unread _ (Walk.isDone_eq_false.mp hdone).1)).2⟩

end Agenda

namespace Plan

variable {p : Plan} {config : Config} {overrides : Option Overrides} {a : Agenda}

theorem Reaches.reads (h : p.Reaches config overrides a) :
    a.session.Reads p (p.environment config overrides) := by
  induction h using Reaches.induction with
  | start =>
      refine ⟨fun n _ => ?_, fun n hn => absurd hn List.not_mem_nil,
        fun o ho => absurd ho List.not_mem_nil⟩
      exact Registry.binaryVersion_init _ n
  | step hreach hs ih => exact hreach.coherent.reads_step hs ih

end Plan

end ModuleResolution
