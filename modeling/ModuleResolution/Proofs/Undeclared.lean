import ModuleResolution.Proofs.Depth

namespace ModuleResolution

def Plan.Undeclared (p : Plan) (c : Coordinates) : Prop :=
  (∃ src ∈ p.sources, src.coordinates.name = c.name) ∧ ¬ p.HasSource c

inductive SessionReport.Rejects (report : SessionReport) (platform : Platform)
    (n target : ModuleId) (c : Coordinates) : Prop
  | missing (root : ModuleId) (hlogged : ⟨n, target, none⟩ ∈ report.outcomes)
      (hreported : ⟨.error, .declaration root target,
        (platform.unavailable? c).getD (.moduleNotFound c.name c.version)⟩ ∈ report.diagnostics)
  | skipped (conflict : Conflict) (hsupplied : platform.supplies c = true)
      (hlogged : ⟨n, target, some (.skipped conflict)⟩ ∈ report.outcomes)
      (hreported : ∃ d ∈ report.diagnostics, d.issue = conflict.issue)

theorem SessionReport.Rejects.mono {r r' : SessionReport} {platform : Platform}
    {n target : ModuleId} {c : Coordinates} (h : r.Rejects platform n target c)
    (ho : r.outcomes ⊆ r'.outcomes) (hd : r.diagnostics ⊆ r'.diagnostics) :
    r'.Rejects platform n target c := by
  cases h with
  | missing root hlogged hreported => exact .missing root (ho hlogged) (hd hreported)
  | skipped conflict hsupplied hlogged hreported =>
      obtain ⟨d, hmem, hissue⟩ := hreported
      exact .skipped conflict hsupplied (ho hlogged) ⟨d, hd hmem, hissue⟩

namespace Session

variable {p : Plan} {env : Environment} {s : Session Walk} {v : Visit}

theorem Coherent.supplied_of_located (h : s.Coherent p env) (hid : v.edge.target < s.registry.size)
    (hlocate : (Walk.locate? p env (s.target v)).isSome = true)
    (hsource : env.isSource (s.target v).name = true)
    (hundeclared : p.source? (s.target v).coordinates = none) :
    env.platform.supplies (s.target v).coordinates = true := by
  have hplatform : (s.target v).fromPlatform = true := by
    simp only [Walk.locate?, hsource, hundeclared, if_true, Option.map_none, Option.none_or]
      at hlocate
    split at hlocate
    · next hserved => exact (Bool.and_eq_true_iff.mp hserved).1
    · cases hlocate
  refine (h.fromPlatform _ hid hplatform).resolve_left fun hl => ?_
  exact Bool.false_ne_true ((h.binaries _ hl).2.1.symm.trans hsource)

end Session

namespace Agenda

variable {p : Plan} {env : Environment} {s t : Session Walk} {task : Task} {left rest : List Task}
  {v : Visit}

theorem Coherent.rejects_of_visit (h : Coherent p env ⟨s, .visit v :: rest⟩)
    (hs : (Task.visit v).Step p env s t left) (hsource : env.isSource (s.target v).name = true)
    (hundeclared : p.source? (s.target v).coordinates = none) :
    (SessionReport.ofSession t).Rejects env.platform v.importer v.edge.target
      (s.target v).coordinates := by
  have hc := h.session
  have hnot (hcompiles : p.Compiles env (s.target v).coordinates) : False := by
    have hsome := hcompiles.2
    rw [hundeclared] at hsome
    cases hsome
  have hbinary (hfalse : env.isSource (s.target v).name = false) : False :=
    Bool.false_ne_true (hfalse.symm.trans hsource)
  cases hs with
  | done hdone =>
      rcases Walk.isDone_eq_true.mp hdone with hl | hk
      · exact (hbinary (hc.binaries _ hl).2.1).elim
      · exact (hnot (hc.sources _ (.inr hk)).2).elim
  | missing =>
      exact .missing v.trail.root (List.mem_append_right _ (List.mem_singleton_self _))
        (List.mem_append_right _ (List.mem_singleton_self _))
  | @skipped _ a conflict _ hlocate =>
      have hsupplied := hc.supplied_of_located (h.targets v List.mem_cons_self)
        (hlocate ▸ rfl) hsource hundeclared
      exact .skipped conflict hsupplied (List.mem_append_right _ (List.mem_singleton_self _))
        ⟨_, List.mem_append_right _ (List.mem_singleton_self _), rfl⟩
  | supplied _ _ hfalse | deferred _ _ hfalse | loaded _ _ hfalse => exact (hbinary hfalse).elim
  | entered _ _ _ _ _ hdeclared => cases hundeclared.symm.trans hdeclared

theorem resolve_of_undeclared (deeper : Option Visitor) (req : Request)
    (hsource : env.isSource (s.coordinates req.module).name = true)
    (hclear : s.registry.conflict? req.module = none) (hidle : req.module ∉ s.engine.inProgress)
    (hundeclared : p.source? (s.coordinates req.module) = none) :
    ∃ t, ResolveM.resolve env (Walk.compileSource p env deeper) req s =
      (.error (.undeclared (s.coordinates req.module)), t) := by
  have hbinary {b : Prop} (hfalse : env.isSource (s.registry.module req.module).name = false) : b :=
    absurd (hfalse.symm.trans hsource) Bool.false_ne_true
  rw [ResolveM.resolve_apply]
  have hdecides := Engine.decides_step env s.engine req
  generalize s.engine.step env req = decided at hdecides ⊢
  cases hdecides with
  | skipped _ hconflict => cases hclear.symm.trans hconflict
  | cycle _ _ hbusy => exact absurd hbusy hidle
  | delegate =>
      simp only [delegate_of_undeclared req hundeclared]
      exact ⟨_, rfl⟩
  | supplied hfalse | load hfalse | deferred hfalse => exact hbinary hfalse

def Answered (p : Plan) (env : Environment) (a : Agenda) : Prop :=
  ∀ n, ∀ i ∈ (a.session.registry.module n).imports,
    env.isSource (a.session.coordinates i.target).name = true →
      p.source? (a.session.coordinates i.target) = none →
        (SessionReport.ofSession a.session).Rejects env.platform n i.target
          (a.session.coordinates i.target) ∨ Due a.tasks n i

theorem Coherent.answered_step (h : Coherent p env ⟨s, task :: rest⟩)
    (hs : task.Step p env s t left) (ha : Answered p env ⟨s, task :: rest⟩) :
    Answered p env ⟨t, left ++ rest⟩ := by
  have hst := h.extends hs
  intro n i hi hsource hundeclared
  rcases h.due_of_new_edge hs hi with hi | hdue
  · have hc : t.coordinates i.target = s.coordinates i.target :=
      (hst.grows _ (h.session.target_lt hi)).coordinates
    simp only [hc] at hsource hundeclared ⊢
    rcases ha n i hi hsource hundeclared with hrejects | ⟨v, hv, rfl, rfl⟩ | hfinish
    · exact .inl (hrejects.mono hst.outcomes.subset hst.diagnostics.subset)
    · rcases List.mem_cons.mp hv with rfl | hrest
      · exact .inl (h.rejects_of_visit hs hsource hundeclared)
      · exact .inr (due_append_right (.inl ⟨v, hrest, rfl, rfl⟩))
    · have hcompiles := (h.session.sources _ (.inl (h.mem_inProgress.mp hfinish))).2.2
      rw [hundeclared] at hcompiles
      cases hcompiles
  · exact .inr (due_append_left hdue)

end Agenda

namespace Plan

variable {p : Plan} {config : Config} {overrides : Option Overrides} {a : Agenda}
  {t : Session Walk} {c : Coordinates} {e : ResolveError}

theorem undeclared_iff (config : Config) (overrides : Option Overrides) : p.Undeclared c ↔
    (p.environment config overrides).isSource c.name = true ∧ p.source? c = none := by
  simp [Undeclared, hasSource_iff, environment, Environment.isSource]

theorem Reaches.answered (h : p.Reaches config overrides a) :
    a.Answered p (p.environment config overrides) := by
  induction h using Reaches.induction with
  | start =>
      intro n i hi
      rw [imports_agenda] at hi
      cases hi
  | step hreach hs ih => exact hreach.coherent.answered_step hs ih

theorem error_of_session (h : p.session config overrides = (.error e, t)) :
    (∃ chain, e = .cycle chain) ∨ ∃ c, e = .undeclared c ∧ p.Undeclared c ∧
      (c = config.foundational ∧ (p.artifact? c).isSome = true ∨
        config.platform.supplies c = true) := by
  obtain ⟨s, v, rest, hreach, hfails, -⟩ := fails_of_session h
  cases hfails with
  | cycle => exact .inl ⟨_, rfl⟩
  | undeclared hlocated hsource hclear hundeclared =>
      refine .inr ⟨_, rfl, (undeclared_iff config overrides).mpr ⟨hsource, hundeclared⟩, ?_⟩
      rcases hlocated with hlocate | ⟨rfl, hartifact⟩
      · exact .inr (hreach.coherent.session.supplied_of_located
          (hreach.coherent.targets v List.mem_cons_self) hlocate hsource hundeclared)
      · exact .inl ⟨hreach.coordinates_foundational, hartifact⟩

theorem run_of_undeclared_foundational (hundeclared : p.Undeclared config.foundational)
    (hartifact : (p.artifact? config.foundational).isSome = true) :
    p.run config overrides = .error (.undeclared config.foundational) := by
  obtain ⟨hsource, hundeclared⟩ := (undeclared_iff config overrides).mp hundeclared
  obtain ⟨artifact, hartifact⟩ := Option.isSome_iff_exists.mp hartifact
  have hc : (⟨Engine.start config.foundational, Walk.start⟩ : Session Walk).coordinates
      Registry.foundational = config.foundational := Registry.coordinates_foundational_init _
  rw [← hc] at hsource hundeclared
  obtain ⟨t, hresolve⟩ := Agenda.resolve_of_undeclared
    (Walk.visitor? p (p.environment config overrides) p.depth)
    ⟨artifact.artifact, Registry.foundational, ⟨Registry.foundational, false, true, none⟩,
      .start Registry.foundational, true⟩
    hsource (Registry.conflict?_init _ _) List.not_mem_nil hundeclared
  have ht : p.resolveFoundational (p.environment config overrides)
      (Walk.visitor? p (p.environment config overrides) p.depth)
      ⟨Engine.start config.foundational, Walk.start⟩ =
        (.error (.undeclared config.foundational), t) := by
    rw [resolveFoundational, show p.artifact? (p.environment config
      overrides).config.foundational = some artifact from hartifact]
    simp only [ResolveM.bind_apply, hresolve, hc]
  refine run_eq_error.mpr ⟨t, ?_⟩
  rw [session, resolveAll, ResolveM.bind_apply, ht]

/--
A run is aborted by a cycle, or at a source module in an undeclared version, which is then the
foundational module with an artifact of its own, or a module that the platform supplies. A run that
is not aborted has every edge to an undeclared version on record.
-/
theorem undeclared_of_run (p : Plan) (config : Config) (overrides : Option Overrides) :
    (∀ e, p.run config overrides = .error e → (∃ chain, e = .cycle chain) ∨
      ∃ c, e = .undeclared c ∧ p.Undeclared c ∧
        (c = config.foundational ∧ (p.artifact? c).isSome = true ∨
          config.platform.supplies c = true)) ∧
    (p.Undeclared config.foundational → (p.artifact? config.foundational).isSome = true →
      p.run config overrides = .error (.undeclared config.foundational)) ∧
    ∀ report, p.run config overrides = .ok report →
      ∀ n, ∀ i ∈ ((p.session config overrides).2.registry.module n).imports,
        p.Undeclared ((p.session config overrides).2.coordinates i.target) →
          report.Rejects config.platform n i.target
            ((p.session config overrides).2.coordinates i.target) := by
  refine ⟨fun e hrun => ?_, run_of_undeclared_foundational,
    fun report hrun n i hi hundeclared => ?_⟩
  · obtain ⟨t, hs⟩ := run_eq_error.mp hrun
    exact error_of_session hs
  · obtain ⟨t, hs, rfl⟩ := session_of_run hrun
    rw [hs] at hi hundeclared ⊢
    obtain ⟨hsource, hundeclared⟩ := (undeclared_iff config overrides).mp hundeclared
    rcases (reaches_of_session hs).answered n i hi hsource hundeclared with
      hrejects | ⟨v, hv, -⟩ | hfinish
    · exact hrejects.mono (List.Subset.refl _) (List.Subset.refl _)
    · cases hv
    · cases hfinish

def twoFoundations : Plan where
  sources := [⟨⟨"vela.lang", "2.0.0"⟩, []⟩]
  artifacts := [⟨⟨"vela.lang", "1.0.0"⟩, some ⟨3, 2⟩, []⟩]

def otherVersion : Plan where
  sources := [⟨⟨"app", "1"⟩, [⟨"util", "2", false, false⟩]⟩, ⟨⟨"util", "1"⟩, []⟩]
  artifacts := []

theorem undeclared_of_run_twoFoundations :
    twoFoundations.run .default none = .error (.undeclared ⟨"vela.lang", "1.0.0"⟩) ∧
      ∃ report, otherVersion.run .default none = .ok report ∧
        report.Rejects Config.default.platform 2 3 ⟨"util", "2"⟩ := by
  constructor
  · exact (undeclared_of_run twoFoundations .default none).2.1
      ((undeclared_iff .default none).mpr ⟨by decide, by decide⟩) (by decide)
  · obtain ⟨report, hrun, -⟩ : ∃ report, otherVersion.run .default none = .ok report ∧
        report.hasErrors = true := exists_report (by decide +kernel)
    have hedge : (⟨3, false, false, none⟩ : Import) ∈
        ((otherVersion.session .default none).2.registry.module 2).imports := by decide +kernel
    have hc : (otherVersion.session .default none).2.coordinates 3 = ⟨"util", "2"⟩ := by
      decide +kernel
    have hrejects := (undeclared_of_run otherVersion .default none).2.2 report hrun 2 _ hedge
    rw [hc] at hrejects
    exact ⟨report, hrun, hrejects ((undeclared_iff .default none).mpr ⟨by decide, by decide⟩)⟩

def hostedVersion : Plan where
  sources := [⟨⟨"app", "1"⟩, [⟨"host.sql", "9", false, false⟩]⟩, ⟨⟨"host.sql", "10"⟩, []⟩]
  artifacts := []

theorem aborted_run_twoFoundations :
    (twoFoundations.validate = .ok () ∧ Config.default.validate = .ok () ∧
      ∃ name message, twoFoundations.run .default none = .error (.source name message)) ∧
    hostedVersion.validate = .ok () ∧
      ∃ config name message, config.validate = .ok () ∧
        hostedVersion.run config none = .error (.source name message) := by
  refine ⟨⟨by decide +kernel, by decide +kernel, _, _, run_of_undeclared_foundational
    ((undeclared_iff .default none).mpr ⟨by decide, by decide⟩) (by decide)⟩,
    by decide +kernel, { Config.default with platform := ⟨"11", "8", ["host.sql"]⟩ },
    "host.sql/9", "no source module with this version", by decide +kernel, ?_⟩
  have hfailed : (hostedVersion.session { Config.default with
      platform := ⟨"11", "8", ["host.sql"]⟩ } none).1 =
        .error (.undeclared ⟨"host.sql", "9"⟩) := by decide +kernel
  exact run_eq_error.mpr ⟨_, Prod.ext hfailed rfl⟩

end Plan

end ModuleResolution
