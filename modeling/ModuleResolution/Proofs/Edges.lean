import ModuleResolution.Proofs.Loads
import ModuleResolution.Proofs.Sources

namespace ModuleResolution

def Overrides.namedBy (overrides : Option Overrides) (c : Coordinates)
    (declared : List NamedImport) : List NamedImport :=
  match overrides with
  | some o => o.named c declared
  | none => declared

namespace Environment

variable {env : Environment} {m : Module} {a : Artifact}

theorem importsOf_of_isDefault (h : m.isDefault = true) : env.importsOf m a = [] := by
  rw [importsOf, if_pos h]

theorem importsOf_of_native (h : env.kindOf m a = .nativeArchive) :
    env.importsOf m a = NamedImport.addAll [] (a.dependencies.map (.ofArtifact (some .host))) := by
  obtain ⟨hdefault, hformat⟩ := kindOf_eq_native.mp h
  simp [importsOf, named, hdefault, hformat]

theorem importsOf_of_compiled (h : env.kindOf m a = .compiled) (hdefault : m.isDefault = false) :
    env.importsOf m a = Overrides.namedBy env.overrides a.coordinates
      (NamedImport.addAll [] (a.dependencies.map (.ofArtifact none))) := by
  cases hformat : env.descriptors.format? a.coordinates with
  | none => cases h.symm.trans (kindOf_eq_native.mpr ⟨hdefault, hformat⟩)
  | some v =>
      cases hoverrides : env.overrides <;>
        simp [importsOf, named, Overrides.namedBy, hdefault, hformat, hoverrides]

end Environment

namespace Agenda

variable {p : Plan} {env : Environment} {s t : Session Walk} {task : Task} {left rest : List Task}

def SourcesBegun (s : Session Walk) : Prop :=
  ∀ o ∈ s.client.outcomes, o.resolution = some .fromSource →
    o.module ∈ s.engine.inProgress ∨ o.module ∈ s.client.compiled

theorem Coherent.sourcesBegun_step (h : Coherent p env ⟨s, task :: rest⟩)
    (hs : task.Step p env s t left) (hb : SourcesBegun s) : SourcesBegun t := by
  intro o ho hsource
  have hold (ho : o ∈ s.client.outcomes) :
      o.module ∈ t.engine.inProgress ∨ o.module ∈ t.client.compiled :=
    h.begun_of_step hs (hb o ho hsource)
  cases hs with
  | done | declared | finished | present | refused => exact hold ho
  | missing | supplied | skipped | deferred =>
      rcases Session.mem_outcomes_answer ho with ho | rfl
      · exact hold ho
      · cases hsource
  | @loaded v a e l =>
      rcases Session.mem_outcomes_answer (e := e) ho with ho | rfl
      · exact hold ho
      · cases l <;> cases hsource
  | entered | opened =>
      rcases Session.mem_outcomes_enter ho with ho | rfl
      · exact hold ho
      · exact .inl (by simp [Session.enter, Engine.enter])

end Agenda

namespace Plan

variable {p : Plan} {config : Config} {overrides : Option Overrides} {report : SessionReport}
  {n : ModuleId}

def HandsOver (p : Plan) (config : Config) (overrides : Option Overrides) (n : ModuleId) : Prop :=
  ∃ a, p.Reaches config overrides a ∧
    Agenda.Leads p (p.environment config overrides) a ⟨(p.session config overrides).2, []⟩ ∧
    n ∈ a.session.engine.inProgress

/--
The edges of a module of a report, by name and without the implicit one. Those of a module that was
handed to the source resolver are its imports, those of a module that was loaded are the
dependencies of its artifact, unless overrides replace them, and no other module has edges. Of
several declarations of one dependency the first counts.
-/
structure Declares (p : Plan) (config : Config) (overrides : Option Overrides)
    (report : SessionReport) (n : ModuleId) (imports : List NamedImport) : Prop where
  logged : ∀ o ∈ report.outcomes, o.module = n → o.resolution = some .fromSource →
    p.HandsOver config overrides n
  source : p.HandsOver config overrides n → n ∈ (p.session config overrides).2.client.compiled ∧
    ∃ src, p.source? (report.registry.module n).coordinates = some src ∧
      imports = NamedImport.addAll [] (src.imports.map .ofDependency)
  compiled : ∀ o ∈ report.outcomes, o.module = n → o.resolution = some .compiled →
    (report.registry.module n).isDefault = false →
      ∃ a, p.artifact? (report.registry.module n).coordinates = some a ∧
        imports = Overrides.namedBy overrides a.coordinates
          (NamedImport.addAll [] (a.dependencies.map (.ofArtifact none)))
  native : ∀ o ∈ report.outcomes, o.module = n → o.resolution = some .nativeArchive →
    ∃ a, p.artifact? (report.registry.module n).coordinates = some a ∧
      imports = NamedImport.addAll [] (a.dependencies.map (.ofArtifact (some .host)))
  other : ¬p.HandsOver config overrides n →
    (∀ o ∈ report.outcomes, o.module = n → o.resolution ≠ some .nativeArchive ∧
      (o.resolution = some .compiled → (report.registry.module n).isDefault = true)) →
        imports = []

def EdgesDeclared (p : Plan) (config : Config) (overrides : Option Overrides)
    (report : SessionReport) (n : ModuleId) : Prop :=
  ∃ declared : List Import,
    p.Declares config overrides report n (declared.map report.registry.named) ∧
    (∀ i ∈ declared,
      report.module? (report.registry.module i.target).coordinates = some i.target) ∧
    (report.registry.module n).imports = declared ++
      if n ≠ Registry.foundational ∧ (report.registry.module n).fromPlatform = false ∧
          ∀ i ∈ declared, i.target ≠ Registry.foundational
        then [Registry.implicitImport] else []

variable {t : Session Walk}

theorem Reaches.inProgress_of_compiled {a : Agenda} (h : p.Reaches config overrides a)
    (hn : n ∈ a.session.client.compiled) :
    ∃ b, p.Reaches config overrides b ∧ Agenda.Leads p (p.environment config overrides) b a ∧
      n ∈ b.session.engine.inProgress := by
  induction h using Reaches.induction with
  | start => cases hn
  | @step s t task left rest hreach hs ih =>
      have hnext : Agenda.Leads p (p.environment config overrides) ⟨s, task :: rest⟩
        ⟨t, left ++ rest⟩ := .single (.step hs)
      rcases hreach.coherent.compiled_of_step hs hn with hcompiled | hprogress
      · obtain ⟨b, hb, hlater, hprogress⟩ := ih hcompiled
        exact ⟨b, hb, hlater.trans hnext, hprogress⟩
      · exact ⟨_, hreach, hnext, hprogress⟩

theorem handsOver_iff (hs : p.session config overrides = (.ok (), t)) :
    p.HandsOver config overrides n ↔ n ∈ t.client.compiled := by
  have ht := reaches_of_session hs
  rw [HandsOver, hs]
  constructor
  · rintro ⟨a, ha, hlater, hn⟩
    refine (Agenda.Leads.begun hlater ha.coherent (.inl hn)).resolve_left ?_
    exact ht.inProgress_end ▸ List.not_mem_nil
  · exact ht.inProgress_of_compiled

theorem Reaches.sourcesBegun {a : Agenda} (h : p.Reaches config overrides a) :
    Agenda.SourcesBegun a.session := by
  induction h using Reaches.induction with
  | start => exact fun o ho => absurd ho List.not_mem_nil
  | step hreach hs ih => exact hreach.coherent.sourcesBegun_step hs ih

theorem artifact_of_loads {env : Environment} {c : Coordinates} (h : p.Loads env c) :
    ∃ a, p.artifact? c = some a ∧ p.artifactAt c = a.artifact := by
  obtain ⟨a, ha⟩ := Option.isSome_iff_exists.mp h.2.2
  exact ⟨a, ha, artifactAt_eq (by rw [ha]; rfl)⟩

theorem Reaches.read_of_logged (h : p.Reaches config overrides ⟨t, []⟩) {o : EdgeOutcome}
    {l : Loaded} (ho : o ∈ t.client.outcomes) (hl : o.resolution = some (.ofLoaded l)) :
    ∃ a, p.artifact? (t.coordinates o.module) = some a ∧
      (p.environment config overrides).kindOf (t.registry.module o.module) a.artifact = l ∧
        t.registry.namedImports o.module =
          (p.environment config overrides).importsOf (t.registry.module o.module) a.artifact := by
  obtain ⟨hn, hkind⟩ := h.reads.logged o ho l hl
  obtain ⟨a, ha, hartifact⟩ := artifact_of_loads (h.coherent.session.binaries _ hn).2
  rw [hartifact] at hkind
  exact ⟨a, ha, hkind, hartifact ▸ (h.reads.read _ hn).imports⟩

theorem Reaches.namedImports_of_other (h : p.Reaches config overrides ⟨t, []⟩)
    (hk : n ∉ t.client.compiled)
    (ho : ∀ o ∈ t.client.outcomes, o.module = n → o.resolution ≠ some .nativeArchive ∧
      (o.resolution = some .compiled → (t.registry.module n).isDefault = true)) :
    t.registry.namedImports n = [] := by
  by_cases hl : n ∈ t.client.loaded
  · obtain ⟨o, hmem, rfl, hloads⟩ := h.logged n hl
    obtain ⟨hnot, hdefault⟩ := ho o hmem rfl
    obtain ⟨a, -, -, himports⟩ := h.read_of_logged (l := .compiled) hmem (hloads.resolve_right hnot)
    rw [himports, Environment.importsOf_of_isDefault (hdefault (hloads.resolve_right hnot))]
  · rw [Registry.namedImports,
      h.coherent.session.bare n (h.inProgress_end ▸ List.not_mem_nil) hk hl]
    rfl

theorem declares_of_session (hs : p.session config overrides = (.ok (), t)) (n : ModuleId) :
    p.Declares config overrides (.ofSession (t.onEngine Engine.withImplicitImports)) n
      (t.registry.namedImports n) := by
  have ht := reaches_of_session hs
  have hgrows := Registry.grows_withImplicitImports ht.coherent.session.indexed n
  have hcoordinates : (t.registry.withImplicitImports.module n).coordinates = t.coordinates n :=
    hgrows.coordinates
  constructor
  case logged =>
    rintro o ho rfl hsource
    rw [handsOver_iff hs]
    refine (ht.sourcesBegun o ho hsource).resolve_left ?_
    exact ht.inProgress_end ▸ List.not_mem_nil
  case source =>
    intro hn
    rw [handsOver_iff hs] at hn
    obtain ⟨src, hsrc⟩ := Option.isSome_iff_exists.mp (ht.coherent.session.sources n (.inr hn)).2.2
    refine ⟨hs ▸ hn, src, (congrArg p.source? hcoordinates).trans hsrc, ?_⟩
    rw [ht.namedImports_of_compiled hn, sourceImports, hsrc]
    rfl
  case compiled =>
    rintro o ho rfl hcompiled hdefault
    obtain ⟨a, ha, hkind, himports⟩ := ht.read_of_logged (l := .compiled) ho hcompiled
    refine ⟨a, (congrArg p.artifact? hcoordinates).trans ha, ?_⟩
    exact himports.trans (Environment.importsOf_of_compiled hkind (hgrows.isDefault ▸ hdefault))
  case native =>
    rintro o ho rfl hnative
    obtain ⟨a, ha, hkind, himports⟩ := ht.read_of_logged (l := .nativeArchive) ho hnative
    refine ⟨a, (congrArg p.artifact? hcoordinates).trans ha, ?_⟩
    exact himports.trans (Environment.importsOf_of_native hkind)
  case other =>
    intro hn ho
    rw [handsOver_iff hs] at hn
    refine ht.namedImports_of_other hn fun o hmem hmodule => ?_
    exact (ho o hmem hmodule).imp_right fun hdefault hcompiled =>
      hgrows.isDefault ▸ hdefault hcompiled

theorem edgesDeclared_of_session (hs : p.session config overrides = (.ok (), t))
    (hn : n < t.registry.size) :
    p.EdgesDeclared config overrides (.ofSession (t.onEngine Engine.withImplicitImports)) n := by
  have hc := (reaches_of_session hs).coherent.session
  have hgrows := Registry.grows_withImplicitImports hc.indexed
  refine ⟨(t.registry.module n).imports, ?_, fun i hi => ?_,
    Registry.imports_withImplicitImports_eq hc.indexed hn⟩
  · have hnames : (t.registry.module n).imports.map t.registry.withImplicitImports.named =
        t.registry.namedImports n := Registry.map_named_eq fun i _ => (hgrows i.target).coordinates
    exact hnames ▸ declares_of_session hs n
  · change t.registry.withImplicitImports.find?
      (t.registry.withImplicitImports.module i.target).coordinates = some i.target
    rw [Registry.find?_withImplicitImports, (hgrows i.target).coordinates]
    exact hc.linked n i hi

theorem imports_of_run (hrun : p.run config overrides = .ok report) :
    (∀ src ∈ p.sources, ∃ n, report.module? src.coordinates = some n ∧
      (p.HandsOver config overrides n ∨ report.Refuses src ∨
        config.platform.supplies src.coordinates = true ∧ report.PassesOver src)) ∧
    ∀ n < report.registry.size, p.EdgesDeclared config overrides report n := by
  obtain ⟨t, hs, rfl⟩ := session_of_run hrun
  refine ⟨fun src hsrc => ?_, fun n hn => edgesDeclared_of_session hs ?_⟩
  · obtain ⟨n, hfound, hcases⟩ := (reaches_of_session hs).compiled_or_refused hsrc
    refine ⟨n, hfound, hcases.imp (handsOver_iff hs).mpr (Or.imp_right ?_)⟩
    exact fun ⟨hsupplied, _, _, hpassed⟩ => ⟨hsupplied, hpassed⟩
  · exact Registry.size_withImplicitImports t.registry ▸ hn

def declaredTwice : Plan where
  sources := [⟨⟨"app", "1"⟩, [⟨"lib", "1", true, false⟩, ⟨"lib", "1", false, true⟩]⟩]
  artifacts := [⟨⟨"lib", "1"⟩, some ⟨3, 2⟩, [⟨⟨"api", "1"⟩, .exported⟩, ⟨⟨"impl", "1"⟩, .normal⟩]⟩]

def withoutImpl : Overrides :=
  ⟨[⟨"lib", none, none, [⟨"extra", "1", false, false⟩], ["impl"]⟩], .empty⟩

theorem imports_of_run_declaredTwice :
    ∃ report, declaredTwice.run .default (some withoutImpl) = .ok report ∧
      declaredTwice.HandsOver .default (some withoutImpl) 2 ∧
      (report.registry.module 2).imports = [⟨3, true, false, none⟩, Registry.implicitImport] ∧
      declaredTwice.EdgesDeclared .default (some withoutImpl) report 2 ∧
      declaredTwice.EdgesDeclared .default (some withoutImpl) report 3 := by
  obtain ⟨report, hrun, hreport⟩ : ∃ report,
      declaredTwice.run .default (some withoutImpl) = .ok report ∧
        (report.module? ⟨"app", "1"⟩ == some 2 && decide (3 < report.registry.size) &&
          report.diagnostics.all (fun d => !d.issue.names ⟨"app", "1"⟩) &&
          (report.registry.module 2).imports ==
            [⟨3, true, false, none⟩, Registry.implicitImport]) = true :=
    exists_report (by decide +kernel)
  simp only [Bool.and_eq_true, beq_iff_eq, decide_eq_true_eq, List.all_eq_true] at hreport
  obtain ⟨⟨⟨happ, hsize⟩, hquiet⟩, hedges⟩ := hreport
  obtain ⟨hsources, hdeclared⟩ := imports_of_run hrun
  refine ⟨report, hrun, ?_, hedges, hdeclared 2 (Nat.lt_of_succ_lt hsize), hdeclared 3 hsize⟩
  obtain ⟨n, hn, hover | ⟨d, hd, hnames⟩ | ⟨hsupplied, -⟩⟩ :=
    hsources _ (List.mem_singleton_self _)
  · cases happ.symm.trans hn
    exact hover
  · have hother := hquiet d hd
    rw [hnames] at hother
    cases hother
  · exact absurd hsupplied (by decide +kernel)

end Plan

end ModuleResolution
