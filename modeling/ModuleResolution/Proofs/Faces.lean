import ModuleResolution.Proofs.Known
import ModuleResolution.Proofs.Roots

namespace ModuleResolution

def Module.face (m : Module) : Module :=
  { m with id := 0, imports := [] }

theorem Platform.face_setUp (p : Platform) (m : Module) : (p.setUp m).face = p.setUp m.face := by
  have hc : m.face.coordinates = m.coordinates := rfl
  simp only [setUp, hc]
  split <;> rfl

theorem Platform.setUp_setUp (p : Platform) (m : Module) : p.setUp (p.setUp m) = p.setUp m := by
  cases h : p.supplies m.coordinates with
  | false => simp [setUp, h]
  | true =>
      have hc : (m.markAvailable.markFromPlatform.restrictTo .host).coordinates =
        m.coordinates := rfl
      simp only [setUp, h, if_true, hc]
      rfl

namespace Environment

variable {env : Environment} {c : Coordinates}

def origin (env : Environment) (c : Coordinates) : Module :=
  if c = env.config.foundational then Module.fresh 0 c false
  else if c = Registry.defaultCoordinates then Module.fresh 0 c true
  else env.platform.setUp (Module.fresh 0 c false)

theorem coordinates_origin (env : Environment) (c : Coordinates) :
    (env.origin c).coordinates = c := by
  unfold origin
  split
  · exact Module.coordinates_fresh _ _ _
  · split
    · exact Module.coordinates_fresh _ _ _
    · rw [(Module.grows_setUp _ _).coordinates, Module.coordinates_fresh]

theorem origin_foundational (env : Environment) :
    env.origin env.config.foundational = Module.fresh 0 env.config.foundational false :=
  if_pos rfl

theorem origin_default (h : env.config.foundational ≠ Registry.defaultCoordinates) :
    env.origin Registry.defaultCoordinates = Module.fresh 0 Registry.defaultCoordinates true := by
  rw [origin, if_neg (Ne.symm h), if_pos rfl]

theorem origin_of_ne (hf : c ≠ env.config.foundational) (hd : c ≠ Registry.defaultCoordinates) :
    env.origin c = env.platform.setUp (Module.fresh 0 c false) := by
  rw [origin, if_neg hf, if_neg hd]

theorem isDefault_origin (h : env.config.foundational ≠ Registry.defaultCoordinates) :
    (env.origin c).isDefault = true ↔ c = Registry.defaultCoordinates := by
  unfold origin
  split
  · next hf =>
    rw [hf]
    simp [Module.fresh, h]
  · split
    · next hd => simp [Module.fresh, hd]
    · next hd =>
      rw [(Module.grows_setUp _ _).isDefault]
      simp [Module.fresh, hd]

theorem fromPlatform_origin (env : Environment) (c : Coordinates) :
    (env.origin c).fromPlatform = (env.origin c).available := by
  unfold origin Platform.setUp
  split
  · rfl
  · split
    · rfl
    · split <;> rfl

theorem setUp_origin (h : (env.origin c).available = true) :
    env.platform.supplies c = true ∧ env.platform.setUp (env.origin c) = env.origin c := by
  unfold origin at h ⊢
  split at h
  · cases h
  · next hf =>
    rw [if_neg hf]
    split at h
    · cases h
    · next hd =>
      rw [if_neg hd]
      refine ⟨?_, Platform.setUp_setUp _ _⟩
      rcases Bool.eq_false_or_eq_true (env.platform.supplies c) with hs | hs
      · exact hs
      · rw [Platform.setUp, Module.coordinates_fresh, hs] at h
        cases h

theorem fromPlatform_origin_of_not_supplied (h : env.platform.supplies c = false) :
    (env.origin c).fromPlatform = false := by
  rw [fromPlatform_origin, ← Bool.not_eq_true]
  exact fun ha => Bool.false_ne_true (h.symm.trans (setUp_origin ha).1)

theorem loadedFace_face (env : Environment) (m : Module) (a : Artifact) :
    (env.loadedFace (m.setImports []) a).face = env.loadedFace m.face a := by
  have hdefault : m.face.isDefault = (m.setImports []).isDefault := rfl
  unfold loadedFace
  rw [hdefault]
  split
  · rfl
  · split <;> rfl

end Environment

namespace Plan

def artifactAt (p : Plan) (c : Coordinates) : Artifact :=
  ((p.artifact? c).map PlannedArtifact.artifact).getD (.bare c)

def loadedFace (p : Plan) (env : Environment) (c : Coordinates) : Module :=
  env.loadedFace (env.origin c) (p.artifactAt c)

def loadedImports (p : Plan) (env : Environment) (c : Coordinates) : List NamedImport :=
  if c = Registry.defaultCoordinates then [] else env.named (p.artifactAt c)

def Mentions (p : Plan) (env : Environment) (c c' : Coordinates) : Prop :=
  c ≠ Registry.defaultCoordinates ∧ env.Mentions (p.artifactAt c) c'

theorem artifactAt_eq {p : Plan} {c : Coordinates} {a : Artifact}
    (h : (p.artifact? c).map PlannedArtifact.artifact = some a) : p.artifactAt c = a := by
  rw [artifactAt, h]
  rfl

end Plan

namespace Session

variable {p : Plan} {env : Environment} {s t : Session Walk} {id n : ModuleId}

inductive Looks (p : Plan) (env : Environment) (s : Session Walk) (n : ModuleId) : Prop
  | untouched (hn : ¬ s.Entered n)
      (h : (s.registry.module n).face = env.origin (s.coordinates n))
  | served (hn : ¬ s.Entered n) (hserves : p.Serves env (s.coordinates n))
      (h : (s.registry.module n).face = env.platform.setUp (env.origin (s.coordinates n)))
  | inProgress (hn : n ∈ s.engine.inProgress)
      (h : (s.registry.module n).face = env.origin (s.coordinates n))
  | compiled (hn : n ∈ s.client.compiled)
      (h : (s.registry.module n).face = (env.origin (s.coordinates n)).markAvailable)
  | loaded (hn : n ∈ s.client.loaded)
      (h : (s.registry.module n).face = p.loadedFace env (s.coordinates n))
      (himports : s.registry.namedImports n = p.loadedImports env (s.coordinates n))

theorem Looks.congr (h : s.Looks p env n)
    (hface : (t.registry.module n).face = (s.registry.module n).face)
    (hnames : n ∈ s.client.loaded → t.registry.namedImports n = s.registry.namedImports n)
    (hp : n ∈ t.engine.inProgress ↔ n ∈ s.engine.inProgress)
    (hk : n ∈ t.client.compiled ↔ n ∈ s.client.compiled)
    (hl : n ∈ t.client.loaded ↔ n ∈ s.client.loaded) : t.Looks p env n := by
  have hc : t.coordinates n = s.coordinates n :=
    show (t.registry.module n).face.coordinates = (s.registry.module n).face.coordinates from
      congrArg Module.coordinates hface
  have hentered : t.Entered n ↔ s.Entered n := by
    rw [Entered, Entered, Walk.isDone_eq_true, Walk.isDone_eq_true, hp, hk, hl]
  cases h with
  | untouched hn h => exact .untouched (mt hentered.mp hn) (by rw [hface, h, hc])
  | served hn hserves h =>
      exact .served (mt hentered.mp hn) (hc.symm ▸ hserves) (by rw [hface, h, hc])
  | inProgress hn h => exact .inProgress (hp.mpr hn) (by rw [hface, h, hc])
  | compiled hn h => exact .compiled (hk.mpr hn) (by rw [hface, h, hc])
  | loaded hn h himports =>
      exact .loaded (hl.mpr hn) (by rw [hface, h, hc]) (by rw [hnames hn, himports, hc])

structure Faced (p : Plan) (env : Environment) (s : Session Walk) : Prop where
  distinct : s.registry.Distinct
  foundational : s.coordinates Registry.foundational = env.config.foundational
  default : s.coordinates Registry.defaultModule = Registry.defaultCoordinates
  looks : ∀ n < s.registry.size, s.Looks p env n
  mentions : ∀ n ∈ s.client.loaded, ∀ c, p.Mentions env (s.coordinates n) c → s.registry.Knows c

theorem Entered.lt_size (h : s.Entered n) (hc : s.Coherent p env) : n < s.registry.size := by
  rcases h with hdone | hprogress
  · exact hc.done_lt_size (Walk.isDone_eq_true.mp hdone)
  · exact (hc.sources n (.inl hprogress)).1

theorem Faced.face_created {c : Coordinates} (h : s.Faced p env) (hdistinct : t.registry.Distinct)
    (hgrows : ∀ j < s.registry.size, t.coordinates j = s.coordinates j)
    (hbuiltIn : 2 ≤ s.registry.size) (hold : s.registry.size ≤ n) (hnew : n < t.registry.size)
    (hcreated : t.registry.module n = env.platform.setUp (Module.fresh n c false)) :
    (t.registry.module n).face = env.origin (t.coordinates n) := by
  have hc : t.coordinates n = c := by
    rw [Session.coordinates, hcreated, (Module.grows_setUp _ _).coordinates,
      Module.coordinates_fresh]
  have hne (j : ModuleId) (hj : j < 2) : t.coordinates n ≠ s.coordinates j := by
    have hlt : j < s.registry.size := Nat.lt_of_lt_of_le hj hbuiltIn
    rw [← hgrows j hlt]
    intro heq
    have hjn : j < n := Nat.lt_of_lt_of_le hlt hold
    exact Nat.ne_of_gt hjn (hdistinct n hnew j (Nat.lt_trans hjn hnew) heq)
  have hf := hne 0 Nat.zero_lt_two
  have hd := hne 1 Nat.one_lt_two
  rw [show s.coordinates 0 = _ from h.foundational] at hf
  rw [show s.coordinates 1 = _ from h.default] at hd
  rw [Environment.origin_of_ne hf hd, hcreated, Platform.face_setUp, hc]
  rfl

theorem Faced.of_registry_eq (h : s.Faced p env) (hr : t.registry = s.registry)
    (hp : t.engine.inProgress = s.engine.inProgress) (hl : t.client.loaded = s.client.loaded)
    (hk : t.client.compiled = s.client.compiled) : t.Faced p env where
  distinct := hr ▸ h.distinct
  foundational := by rw [Session.coordinates, hr]; exact h.foundational
  default := by rw [Session.coordinates, hr]; exact h.default
  looks := fun n hn => (h.looks n (hr ▸ hn)).congr (by rw [hr]) (fun _ => by rw [hr]) (by rw [hp])
    (by rw [hk]) (by rw [hl])
  mentions := by
    intro n hn c hc
    rw [Session.coordinates, hr] at hc
    exact hr ▸ h.mentions n (hl ▸ hn) c hc

theorem serves_or_fromPlatform {a : Artifact}
    (hlocate : Walk.locate? p env (s.registry.module id) = some a)
    (hsource : env.isSource (s.registry.module id).name = false)
    (hsupplied : env.platform.supplies (s.coordinates id) = true) :
    p.Serves env (s.coordinates id) ∨ (s.registry.module id).fromPlatform = true := by
  cases hartifact : p.artifact? (s.coordinates id) with
  | some a => exact .inl ⟨hsource, hsupplied, Option.isSome_of_eq_some hartifact⟩
  | none =>
      refine .inr ?_
      rw [← Bool.not_eq_false]
      intro hnot
      simp [Walk.locate?, hsource, hartifact, hnot] at hlocate

theorem Looks.supplied (h : s.Looks p env n) (hidle : ¬ s.Entered n) (hidle' : ¬ t.Entered n)
    (hface : (t.registry.module n).face = env.platform.setUp (s.registry.module n).face)
    (hserves : p.Serves env (s.coordinates n) ∨ (s.registry.module n).fromPlatform = true) :
    t.Looks p env n := by
  have hc : t.coordinates n = s.coordinates n := by
    have hc := congrArg Module.coordinates hface
    rw [(Module.grows_setUp _ _).coordinates] at hc
    exact hc
  cases h with
  | untouched _ h =>
      rcases hserves with hserves | hplatform
      · exact .served hidle' (hc.symm ▸ hserves) (by rw [hface, h, hc])
      · have hplatform : (s.registry.module n).face.fromPlatform = true := hplatform
        rw [h, Environment.fromPlatform_origin] at hplatform
        exact .untouched hidle' (by rw [hface, h, (Environment.setUp_origin hplatform).2, hc])
  | served _ hserves h =>
      exact .served hidle' (hc.symm ▸ hserves) (by rw [hface, h, Platform.setUp_setUp, hc])
  | inProgress hn => exact absurd (.inr hn) hidle
  | compiled hn => exact absurd (entered_of_done (.inr hn)) hidle
  | loaded hn => exact absurd (entered_of_done (.inl hn)) hidle

theorem Faced.of_others (h : s.Faced p env) (hc : s.Coherent p env)
    (hev : Registry.Evolves env.platform id s.registry t.registry) (hid : id < s.registry.size)
    (hdistinct : t.registry.Distinct)
    (hp : ∀ j ≠ id, j ∈ t.engine.inProgress ↔ j ∈ s.engine.inProgress)
    (hk : ∀ j ≠ id, j ∈ t.client.compiled ↔ j ∈ s.client.compiled)
    (hl : ∀ j ≠ id, j ∈ t.client.loaded ↔ j ∈ s.client.loaded)
    (hself : t.Looks p env id)
    (hmentions : id ∈ t.client.loaded →
      ∀ c, p.Mentions env (t.coordinates id) c → t.registry.Knows c) : t.Faced p env where
  distinct := hdistinct
  foundational := (hev.coordinates hc.foundational_lt).trans h.foundational
  default := (hev.coordinates hc.builtIn).trans h.default
  looks := by
    intro n hn
    by_cases hne : n = id
    · exact hne ▸ hself
    · by_cases hlt : n < s.registry.size
      · have hsame := hev.others n hlt hne
        refine (h.looks n hlt).congr (congrArg Module.face hsame) (fun _ => ?_) (hp n hne)
          (hk n hne) (hl n hne)
        exact Registry.namedImports_eq hc.indexed (hc.linked _) (fun j hj => hev.coordinates hj)
          (congrArg Module.imports hsame)
      -- created by this very step
      · obtain ⟨c, hcreated, -⟩ := hev.created n (Nat.le_of_not_lt hlt) hn
        refine .untouched (fun hentered => hlt (Entered.lt_size (s := s) ?_ hc)) ?_
        · rw [Entered, Walk.isDone_eq_true, hp n hne, hk n hne, hl n hne] at hentered
          rwa [Entered, Walk.isDone_eq_true]
        · exact h.face_created hdistinct (fun j hj => hev.coordinates hj) hc.builtIn
            (Nat.le_of_not_lt hlt) hn hcreated
  mentions := by
    intro n hn c hm
    by_cases hne : n = id
    · subst hne
      exact hmentions hn c hm
    · have hn := (hl n hne).mp hn
      have hsame := hev.others n (hc.binaries n hn).1 hne
      rw [Session.coordinates, hsame] at hm
      exact (h.mentions n hn c hm).mono hev.size_le fun j hj => hev.coordinates hj

theorem Faced.ensure {c : Coordinates} {e : Engine} (h : s.Faced p env) (hc : s.Coherent p env)
    (hensure : s.engine.ensure env c = (e, id)) :
    (⟨e, s.client⟩ : Session Walk).Faced p env := by
  obtain rfl : (s.engine.ensure env c).1 = e := congrArg Prod.fst hensure
  have hev := Registry.evolves_ensure env.platform Registry.foundational s.registry c
  have hlt := hc.foundational_lt
  have hsame : (s.registry.ensure env.platform c).1.module Registry.foundational =
      s.registry.module Registry.foundational := Registry.module_ensure_of_lt hlt
  refine h.of_others hc hev hlt (Registry.distinct_ensure h.distinct) (fun _ _ => Iff.rfl)
    (fun _ _ => Iff.rfl) (fun _ _ => Iff.rfl) ?_ fun hl c' hm => ?_
  · refine (h.looks _ hlt).congr (congrArg Module.face hsame) (fun _ => ?_) Iff.rfl Iff.rfl Iff.rfl
    exact Registry.namedImports_eq hc.indexed (hc.linked _) (fun j hj => hev.coordinates hj)
      (congrArg Module.imports hsame)
  · have hcoordinates : (⟨(s.engine.ensure env c).1, s.client⟩ : Session Walk).coordinates
        Registry.foundational = s.coordinates Registry.foundational := hev.coordinates hlt
    rw [hcoordinates] at hm
    exact (h.mentions _ hl c' hm).mono hev.size_le fun j hj => hev.coordinates hj

theorem Faced.supplied {v : Visit} {a : Artifact} (h : s.Faced p env) (hc : s.Coherent p env)
    (hid : v.edge.target < s.registry.size) (hdone : s.client.isDone v.edge.target = false)
    (hlocate : Walk.locate? p env (s.target v) = some a)
    (hsource : env.isSource (s.target v).name = false)
    (hsupplied : env.platform.supplies (s.target v).coordinates = true) :
    (s.answer v (s.engine.modifyModule v.edge.target env.platform.setUp)
      (some .platform)).Faced p env := by
  have hself : (s.registry.modify v.edge.target env.platform.setUp).module v.edge.target =
      env.platform.setUp (s.target v) := Registry.module_modify_self hid
  have hnot : v.edge.target ∉ s.client.loaded := (Walk.isDone_eq_false.mp hdone).1
  have hidle : ¬ s.Entered v.edge.target := not_entered hdone (hc.idle_of_not_source hsource).1
  refine h.of_others hc (Registry.evolves_modify fun m => Module.grows_setUp _ m) hid
    (Registry.distinct_modify h.distinct fun m => Module.grows_setUp _ m) (fun _ _ => Iff.rfl)
    (fun _ _ => Iff.rfl) (fun _ _ => Iff.rfl) ?_ fun hl => absurd hl hnot
  refine (h.looks _ hid).supplied hidle hidle ?_
    (serves_or_fromPlatform hlocate hsource hsupplied)
  exact (congrArg Module.face hself).trans (Platform.face_setUp _ _)

theorem Faced.enter {trail : Trail} (h : s.Faced p env) (hc : s.Coherent p env)
    (hid : id < s.registry.size) (hidle : ¬ s.Entered id)
    (hsource : env.isSource (s.registry.module id).name = true) :
    (s.enter trail id).Faced p env := by
  have hl := loaded_enter s trail id
  have hk := compiled_enter s trail id
  have hp (j : ModuleId) : j ∈ (s.enter trail id).engine.inProgress ↔
      j ∈ s.engine.inProgress ∨ j = id := by simp [Session.enter, Engine.enter]
  refine h.of_others hc (.refl _ _ _) hid h.distinct (fun j hne => ?_) (fun _ _ => by rw [hk])
    (fun _ _ => by rw [hl]) ?_ fun hloaded => ?_
  · rw [hp, or_iff_left hne]
  · have hn : id ∈ (s.enter trail id).engine.inProgress := (hp id).mpr (.inr rfl)
    cases h.looks id hid with
    | untouched _ hlook => exact .inProgress hn hlook
    | served _ hserves => exact absurd (hserves.1.symm.trans hsource) Bool.false_ne_true
    | inProgress hn' => exact absurd (.inr hn') hidle
    | compiled hn' => exact absurd (entered_of_done (.inr hn')) hidle
    | loaded hn' => exact absurd (entered_of_done (.inl hn')) hidle
  · rw [hl] at hloaded
    exact absurd (entered_of_done (.inl hloaded)) hidle

theorem Faced.looks_inProgress (h : s.Faced p env) (hc : s.Coherent p env)
    (hn : n ∈ s.engine.inProgress) :
    (s.registry.module n).face = env.origin (s.coordinates n) := by
  cases h.looks n (hc.sources n (.inl hn)).1 with
  | inProgress _ hlook => exact hlook
  | untouched hnot | served hnot => exact absurd (.inr hn) hnot
  | compiled hk => exact absurd hk (hc.apart n hn)
  | loaded hl => exact absurd hl (hc.not_loaded_of_inProgress hn)

theorem Coherent.not_compiled_of_loaded (h : s.Coherent p env) (hn : n ∈ s.client.loaded) :
    n ∉ s.client.compiled :=
  fun hk => (h.binaries n hn).2.not_compiles (h.sources n (.inr hk)).2

theorem Faced.looks_compiled (h : s.Faced p env) (hc : s.Coherent p env)
    (hn : n ∈ s.client.compiled) :
    (s.registry.module n).face = (env.origin (s.coordinates n)).markAvailable := by
  cases h.looks n (hc.sources n (.inr hn)).1 with
  | compiled _ hlook => exact hlook
  | untouched hnot | served hnot => exact absurd (entered_of_done (.inr hn)) hnot
  | inProgress hp => exact absurd hn (hc.apart n hp)
  | loaded hl => exact absurd hn (hc.not_compiled_of_loaded hl)

theorem Faced.looks_loaded (h : s.Faced p env) (hc : s.Coherent p env)
    (hn : n ∈ s.client.loaded) :
    (s.registry.module n).face = p.loadedFace env (s.coordinates n) ∧
      s.registry.namedImports n = p.loadedImports env (s.coordinates n) := by
  cases h.looks n (hc.binaries n hn).1 with
  | loaded _ hlook himports => exact ⟨hlook, himports⟩
  | untouched hnot | served hnot => exact absurd (entered_of_done (.inl hn)) hnot
  | inProgress hp => exact absurd hn (hc.not_loaded_of_inProgress hp)
  | compiled hk => exact absurd hk (hc.not_compiled_of_loaded hn)

theorem Faced.available_of_served (hserves : p.Serves env (s.coordinates n))
    (h : (s.registry.module n).face = env.platform.setUp (env.origin (s.coordinates n))) :
    (s.registry.module n).available = true := by
  change (s.registry.module n).face.available = true
  rw [h]
  exact Platform.available_setUp ((Environment.coordinates_origin _ _).symm ▸ hserves.2.1)

theorem Faced.available_of_origin (h : s.Faced p env) (hc : s.Coherent p env)
    (hn : n < s.registry.size) (ha : (env.origin (s.coordinates n)).available = true) :
    (s.registry.module n).available = true := by
  cases h.looks n hn with
  | untouched _ hlook | inProgress _ hlook =>
      change (s.registry.module n).face.available = true
      rw [hlook]
      exact ha
  | served _ hserves hlook => exact available_of_served hserves hlook
  | compiled hk => exact hc.available n (.inr hk)
  | loaded hl => exact hc.available n (.inl hl)

theorem Faced.declareImport {i : Import} (h : s.Faced p env) (hc : s.Coherent p env)
    (hn : n ∈ s.engine.inProgress) :
    (⟨s.engine.declareImport env n i, s.client⟩ : Session Walk).Faced p env := by
  have hlt := (hc.sources n (.inl hn)).1
  have hregistry := Engine.registry_declareImport env s.engine n i
  have hprogress := Engine.inProgress_declareImport env s.engine n i
  have hev : Registry.Evolves env.platform n s.registry (s.registry.modify n (·.addImport i)) :=
    Registry.evolves_modify fun m => Module.grows_addImport m i
  have hface : ((s.registry.modify n (·.addImport i)).module n).face =
      (s.registry.module n).face := by
    rw [Registry.module_modify_self hlt, Module.addImport_eq]
    split <;> rfl
  have hdistinct : (s.registry.modify n (·.addImport i)).Distinct :=
    Registry.distinct_modify h.distinct fun m => Module.grows_addImport m i
  generalize s.engine.declareImport env n i = e at hregistry hprogress ⊢
  rw [← hregistry] at hev hface hdistinct
  refine h.of_others hc hev hlt hdistinct (fun _ _ => by rw [hprogress]) (fun _ _ => Iff.rfl)
    (fun _ _ => Iff.rfl) (.inProgress (hprogress.symm ▸ hn) ?_) fun hl => ?_
  · exact (hface.trans (h.looks_inProgress hc hn)).trans
      (congrArg env.origin (hev.coordinates hlt).symm)
  · exact absurd hl (hc.not_loaded_of_inProgress hn)

theorem Faced.declare {d : Dependency} (h : s.Faced p env) (hc : s.Coherent p env)
    (hn : n ∈ s.engine.inProgress) : (s.declare env n d).Faced p env := by
  have hq : Quiet env s ⟨(s.engine.ensure env d.coordinates).1, s.client⟩ := quiet_ensure rfl
  exact (h.ensure hc rfl).declareImport (hc.quiet hq) (hq.inProgress.symm ▸ hn)

theorem Faced.finish {outer : List ModuleId} (h : s.Faced p env) (hc : s.Coherent p env)
    (hstack : s.engine.inProgress = outer ++ [id]) : (s.finish id).Faced p env := by
  have hid : id ∈ s.engine.inProgress := by simp [hstack]
  have hlt := (hc.sources id (.inl hid)).1
  have hleft : (s.finish id).engine.inProgress = outer := by
    simp [Session.finish, Engine.leave, Engine.modifyModule, hstack]
  have hev := evolves_finish env s id
  refine h.of_others hc hev hlt (Registry.distinct_modify h.distinct fun m =>
    Module.grows_markAvailable m) (fun j hne => by simp [hleft, hstack, hne])
    (fun j hne => by simp [Session.finish, hne]) (fun _ _ => Iff.rfl)
    (.compiled List.mem_cons_self ?_) fun hl => ?_
  · have hface := h.looks_inProgress hc hid
    rw [module_finish hlt, Session.coordinates, hev.coordinates hlt, ← hface]
    rfl
  · exact absurd hl (hc.not_loaded_of_inProgress hid)

theorem Faced.face_unloaded (h : s.Faced p env) (hc : s.Coherent p env)
    (hid : id < s.registry.size) (hdone : s.client.isDone id = false)
    (hsource : env.isSource (s.registry.module id).name = false)
    (hsupplied : env.platform.supplies (s.coordinates id) = false) :
    (s.registry.module id).face = env.origin (s.coordinates id) := by
  obtain ⟨hl, hk⟩ := Walk.isDone_eq_false.mp hdone
  cases h.looks id hid with
  | untouched _ hlook => exact hlook
  | served _ hserves => exact absurd (hsupplied.symm.trans hserves.2.1) Bool.false_ne_true
  | inProgress hn => exact absurd hn (hc.idle_of_not_source hsource).1
  | compiled hn => exact absurd hn hk
  | loaded hn => exact absurd hn hl

structure LoadedAs (p : Plan) (env : Environment) (s : Session Walk) (e : Engine)
    (id : ModuleId) : Prop where
  evolves : Registry.Evolves env.platform id s.registry e.registry
  distinct : e.registry.Distinct
  inProgress : e.inProgress = s.engine.inProgress
  face : (e.registry.module id).face = p.loadedFace env (s.coordinates id)
  imports : e.registry.namedImports id = p.loadedImports env (s.coordinates id)
  knows : ∀ c, e.registry.Knows c ↔ s.registry.Knows c ∨ p.Mentions env (s.coordinates id) c

theorem Faced.loadedAs {v : Visit} {a : Artifact} {e : Engine} {l : Loaded} (h : s.Faced p env)
    (hne : env.config.foundational ≠ Registry.defaultCoordinates) (hc : s.Coherent p env)
    (hid : v.edge.target < s.registry.size) (hdone : s.client.isDone v.edge.target = false)
    (hlocate : Walk.locate? p env (s.target v) = some a)
    (hsource : env.isSource (s.target v).name = false)
    (hsupplied : env.platform.supplies (s.target v).coordinates = false)
    (hload : s.engine.load env a v.edge.target v.edge v.trail = (e, l)) :
    s.LoadedAs p env e v.edge.target := by
  obtain ⟨hl, hk⟩ := Walk.isDone_eq_false.mp hdone
  have hlook : (s.target v).face = env.origin (s.coordinates v.edge.target) :=
    h.face_unloaded hc hid hdone hsource hsupplied
  have hplatform : (s.target v).fromPlatform = false :=
    show (s.target v).face.fromPlatform = false from
      hlook ▸ Environment.fromPlatform_origin_of_not_supplied hsupplied
  have hnil := hc.bare _ (hc.idle_of_not_source hsource).1 hk hl
  have hdefault : (s.target v).isDefault = true ↔
      s.coordinates v.edge.target = Registry.defaultCoordinates := by
    rw [← Environment.isDefault_origin hne, ← hlook]
    rfl
  have hartifact : p.artifactAt (s.coordinates v.edge.target) = a :=
    Plan.artifactAt_eq (hc.artifact_of_locate? hid hl hlocate hsource hsupplied)
  obtain rfl : (s.engine.load env a v.edge.target v.edge v.trail).1 = e := congrArg Prod.fst hload
  refine ⟨Engine.evolves_load hid hload, Engine.distinct_load h.distinct hid,
    Engine.inProgress_load hload, ?_, ?_, fun c => ?_⟩
  · have hface : ((s.engine.load env a v.edge.target v.edge v.trail).1.registry.module
        v.edge.target).setImports [] = env.loadedFace ((s.target v).setImports []) a :=
      Engine.face_load hid
    rw [Plan.loadedFace, hartifact, ← hlook, ← Environment.loadedFace_face]
    exact show (Module.setImports _ []).face = _ from congrArg Module.face hface
  · rw [Plan.loadedImports, hartifact, Engine.namedImports_load hc.indexed hc.linked hid
      hnil hplatform]
    simp only [hdefault]
  · rw [Engine.knows_load hc.indexed hid hnil hplatform, Plan.Mentions,
      hartifact, ← Bool.not_eq_true, hdefault]

theorem Faced.load {v : Visit} {e : Engine} {l : Loaded} (h : s.Faced p env)
    (hc : s.Coherent p env) (hid : v.edge.target < s.registry.size)
    (hload : s.LoadedAs p env e v.edge.target) :
    ((s.answer v e (some (.ofLoaded l))).noteLoaded v.edge.target).Faced p env := by
  have hcoordinates : ((s.answer v e (some (.ofLoaded l))).noteLoaded v.edge.target).coordinates
      v.edge.target = s.coordinates v.edge.target := hload.evolves.coordinates hid
  refine h.of_others hc hload.evolves hid hload.distinct (fun j _ => ?_) (fun _ _ => Iff.rfl)
    (fun j hj => ?_) (.loaded List.mem_cons_self ?_ ?_) fun _ c hm => ?_
  · exact iff_of_eq (congrArg (j ∈ ·) hload.inProgress)
  · exact ⟨fun hj' => (List.mem_cons.mp hj').resolve_left hj, List.mem_cons_of_mem _⟩
  · rw [hcoordinates]
    exact hload.face
  · rw [hcoordinates]
    exact hload.imports
  · rw [hcoordinates] at hm
    exact (hload.knows c).mpr (.inr hm)

end Session

namespace Agenda

variable {p : Plan} {env : Environment} {s t : Session Walk} {task : Task} {left rest : List Task}

theorem Coherent.faced_step (h : Coherent p env ⟨s, task :: rest⟩)
    (hne : env.config.foundational ≠ Registry.defaultCoordinates)
    (hs : task.Step p env s t left) (hf : s.Faced p env) : t.Faced p env := by
  have hc := h.session
  cases hs with
  | done => exact hf
  | missing | skipped | deferred => exact hf.of_registry_eq rfl rfl rfl rfl
  | supplied hdone hlocate hsource hsupplied =>
      exact hf.supplied hc (h.targets _ List.mem_cons_self) hdone hlocate hsource hsupplied
  | loaded hdone hlocate hsource hsupplied hclear hneeded hload =>
      have hid := h.targets _ List.mem_cons_self
      exact hf.load hc hid (hf.loadedAs hne hc hid hdone hlocate hsource hsupplied hload)
  | entered hdone hlocate hsource hclear hidle =>
      exact hf.enter hc (h.targets _ List.mem_cons_self) (Session.not_entered hdone hidle) hsource
  | declared => exact hf.declare hc (h.mem_inProgress.mp (List.mem_cons_of_mem _ h.nested.1))
  | finished => exact hf.finish hc h.inProgress_of_finish
  | present hensure => exact hf.ensure hc hensure
  | refused hensure => exact (hf.ensure hc hensure).of_registry_eq rfl rfl rfl rfl
  | @opened src declared e id hensure havailable hsource hclear hidle =>
      have hq := h.quiet (Session.quiet_ensure hensure) rfl
      have hdone : (⟨e, s.client⟩ : Session Walk).client.isDone id = false :=
        hq.session.isDone_of_unavailable havailable
      exact (hf.ensure hc hensure).enter hq.session (Session.ensured hc.indexed hensure).1
        (Session.not_entered hdone hidle) hsource

end Agenda

namespace Plan

variable {p : Plan} {config : Config} {overrides : Option Overrides} {a : Agenda}

theorem faced_agenda (p : Plan) (overrides : Option Overrides)
    (hne : config.foundational ≠ Registry.defaultCoordinates) :
    (p.agenda config).session.Faced p (p.environment config overrides) := by
  have hf : ((Registry.init config.foundational).module 0).coordinates = config.foundational :=
    Registry.coordinates_foundational_init _
  have hd : ((Registry.init config.foundational).module 1).coordinates =
      Registry.defaultCoordinates := Module.coordinates_fresh _ _ _
  have hidle (n : ModuleId) : ¬ (p.agenda config).session.Entered n := by
    rintro (hdone | hprogress) <;> contradiction
  have hcases {n : Nat} (hn : n < (Registry.init config.foundational).size) :
      n = 0 ∨ n = 1 := by
    have hn : n < 2 := hn
    omega
  refine ⟨Registry.distinct_init hne, hf, hd, fun n hn => ?_,
    fun n hn => absurd hn List.not_mem_nil⟩
  rcases hcases hn with rfl | rfl
  · refine .untouched (hidle 0) ?_
    rw [show (p.agenda config).session.coordinates 0 = config.foundational from hf]
    exact (Environment.origin_foundational (p.environment config overrides)).symm
  · refine .untouched (hidle 1) ?_
    rw [show (p.agenda config).session.coordinates 1 = Registry.defaultCoordinates from hd]
    have horigin : (p.environment config overrides).origin Registry.defaultCoordinates = _ :=
      Environment.origin_default hne
    exact horigin.symm

theorem Reaches.faced (hne : config.foundational ≠ Registry.defaultCoordinates)
    (h : p.Reaches config overrides a) :
    a.session.Faced p (p.environment config overrides) := by
  induction h using Reaches.induction with
  | start => exact faced_agenda p overrides hne
  | step hreach hs ih => exact hreach.coherent.faced_step hne hs ih

end Plan

end ModuleResolution
