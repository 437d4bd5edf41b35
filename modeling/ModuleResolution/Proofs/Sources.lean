import ModuleResolution.Proofs.Imported
import ModuleResolution.Proofs.Validated

namespace ModuleResolution

namespace Issue

def names (c : Coordinates) : Issue → Bool
  | versionConflict name first second =>
      name == c.name && (first == c.version || second == c.version)
  | similarVersionConflict first second => first == c.render || second == c.render
  | _ => false

end Issue

theorem Conflict.names_issue (candidate : Coordinates) (existing : ModuleId)
    (loaded : Coordinates) : (between candidate existing loaded).issue.names candidate = true := by
  rw [between]
  split
  · simp only [issue, Issue.names, Version.ordered]
    split <;> simp
  · split <;> simp [issue, Issue.names]

namespace Registry

variable {r s : Registry} {p : Platform} {id j : ModuleId} {c : Coordinates}

theorem names_of_conflict? {conflict : Conflict} (h : r.conflict? id = some conflict) :
    conflict.issue.names (r.module id).coordinates = true := by
  obtain ⟨m, -, rfl⟩ := Option.map_eq_some_iff.mp h
  exact Conflict.names_issue _ _ _

theorem Evolves.available_of_ne (h : Evolves p id r s) (hne : j ≠ id)
    (ha : (s.module j).available = true) :
    s.module j = r.module j ∨ r.size ≤ j ∧ (s.module j).fromPlatform = true ∧
      p.supplies (s.module j).coordinates = true := by
  by_cases hr : j < r.size
  · exact .inl (h.others j hr hne)
  · by_cases hs : j < s.size
    · obtain ⟨c, hc, -⟩ := h.created j (Nat.le_of_not_lt hr) hs
      refine .inr ⟨Nat.le_of_not_lt hr, ?_⟩
      rw [hc] at ha ⊢
      rw [(Module.grows_setUp p _).coordinates]
      cases hsupplied : p.supplies (Module.fresh j c false).coordinates with
      | true => exact ⟨by rw [Platform.setUp, if_pos hsupplied]; rfl, rfl⟩
      | false =>
          rw [Platform.setUp, hsupplied] at ha
          cases ha
    · exact .inl (by rw [module_of_size_le (Nat.le_of_not_lt hs),
        module_of_size_le (Nat.le_of_not_lt hr)])

end Registry

namespace Agenda

variable {p : Plan} {env : Environment} {s t : Session Walk} {task : Task} {left rest : List Task}
  {n : ModuleId} {c : Coordinates}

def SourcesAvailable (env : Environment) (s : Session Walk) : Prop :=
  ∀ n, env.isSource (s.registry.module n).name = true → (s.registry.module n).available = true →
    n ∈ s.client.compiled ∨ 2 ≤ n ∧ (s.registry.module n).fromPlatform = true ∧
      env.platform.supplies (s.registry.module n).coordinates = true

theorem Coherent.sourcesAvailable_step (h : Coherent p env ⟨s, task :: rest⟩)
    (hs : task.Step p env s t left) (hold : SourcesAvailable env s) : SourcesAvailable env t := by
  have hc := h.session
  have hst := h.extends hs
  intro n hsource ha
  have hother {id : ModuleId} (hev : Registry.Evolves env.platform id s.registry t.registry)
      (hne : n ≠ id) : n ∈ t.client.compiled ∨ 2 ≤ n ∧
        (t.registry.module n).fromPlatform = true ∧
          env.platform.supplies (t.registry.module n).coordinates = true := by
    rcases hev.available_of_ne hne ha with hsame | ⟨hsize, hplatform⟩
    · rw [hsame] at hsource ha ⊢
      exact (hold n hsource ha).imp_left (hst.compiled ·)
    · exact .inr ⟨Nat.le_trans hc.builtIn hsize, hplatform⟩
  have hsucc : n ≠ n + 1 := Nat.ne_of_lt (Nat.lt_succ_self n)
  cases hs with
  | done | missing | skipped | deferred | entered => exact hother (.refl _ (n + 1) _) hsucc
  | @supplied v a hdone hlocate hbinary hsupplied =>
      have hev : Registry.Evolves env.platform v.edge.target s.registry
          (s.registry.modify v.edge.target env.platform.setUp) :=
        Registry.evolves_modify fun m => Module.grows_setUp env.platform m
      refine hother hev ?_
      rintro rfl
      exact Bool.false_ne_true (hbinary.symm.trans
        ((hev.grows (h.targets v List.mem_cons_self)).name ▸ hsource))
  | @loaded v a e l hdone hlocate hbinary hsupplied hclear hneeded hload =>
      have hev := Engine.evolves_load (h.targets v List.mem_cons_self) hload
      refine hother hev ?_
      rintro rfl
      exact Bool.false_ne_true (hbinary.symm.trans
        ((hev.grows (h.targets v List.mem_cons_self)).name ▸ hsource))
  | @declared importer trail d =>
      have hn := h.mem_inProgress.mp (List.mem_cons_of_mem _ h.nested.1)
      have hlt := (hc.sources importer (.inl hn)).1
      by_cases hne : n = importer
      · subst hne
        obtain ⟨is, his⟩ : ∃ is, (s.declare env n d).registry.module n =
            (s.registry.module n).setImports is := by
          rw [Session.module_declare hlt, Registry.module_ensure_of_lt hlt]
          exact Module.exists_addImport_eq _ _
        rw [his] at hsource ha ⊢
        exact hold n hsource ha
      · exact hother (Session.evolves_declare hlt) hne
  | @finished id =>
      by_cases hne : n = id
      · exact .inl (hne ▸ List.mem_cons_self)
      · exact hother (Session.evolves_finish env s id) hne
  | @present src e id hensure | @refused src e id c hensure | @opened src declared e id hensure =>
      obtain rfl := congrArg Prod.fst hensure
      exact hother (Registry.evolves_ensure env.platform (n + 1) s.registry src.coordinates) hsucc

def Met (s : Session Walk) (c : Coordinates) : Prop :=
  ∃ n, s.registry.find? c = some n ∧ ((s.registry.module n).available = true ∨
    (n ∈ s.engine.inProgress ∨ n ∈ s.client.compiled) ∨
      ∃ d ∈ s.engine.diagnostics, d.issue.names c = true)

theorem Coherent.met_step (h : Coherent p env ⟨s, task :: rest⟩)
    (hs : task.Step p env s t left) (hm : Met s c) : Met t c := by
  have hst := h.extends hs
  obtain ⟨id, -, hev⟩ := h.evolves_step hs
  obtain ⟨n, hf, hmet⟩ := hm
  have hlt := (Registry.lt_size_and_coordinates_of_find? h.session.indexed hf).1
  refine ⟨n, hev.found _ _ hf, ?_⟩
  rcases hmet with ha | hbegun | ⟨d, hd, hnames⟩
  · exact .inl ((hst.grows n hlt).available ha)
  · exact .inr (.inl (h.begun_of_step hs hbegun))
  · exact .inr (.inr ⟨d, hst.diagnostics.subset hd, hnames⟩)

theorem Coherent.met_of_root {src : SourceModule} (h : Coherent p env ⟨s, .root src :: rest⟩)
    (hs : (Task.root src).Step p env s t left) : Met t src.coordinates := by
  have hc := h.session
  have hfind {e : Engine} {id : ModuleId}
      (hensure : s.engine.ensure env src.coordinates = (e, id)) :
      e.registry.find? src.coordinates = some id := by
    obtain rfl := congrArg Prod.fst hensure
    obtain rfl := congrArg Prod.snd hensure
    exact Registry.find?_ensure_self hc.indexed
  cases hs with
  | present hensure havailable => exact ⟨_, hfind hensure, .inl havailable⟩
  | @refused _ e id conflict hensure havailable hconflict =>
      have hfound := hfind hensure
      refine ⟨id, hfound, .inr (.inr ⟨_, List.mem_append_right _
        (List.mem_singleton_self _), ?_⟩)⟩
      rw [← (Session.ensured hc.indexed hensure).2]
      exact Registry.names_of_conflict? hconflict
  | @opened _ declared e id hensure =>
      have hfound := hfind hensure
      exact ⟨id, hfound, .inr (.inl (.inl (by simp [Session.enter, Engine.enter])))⟩

end Agenda

namespace SessionReport

def Resolves (report : SessionReport) (src : SourceModule) : Prop :=
  ∃ n, report.module? src.coordinates = some n ∧ (report.registry.module n).available = true ∧
    ∀ d ∈ src.imports, ∃ i ∈ (report.registry.module n).imports,
      report.module? d.coordinates = some i.target

def Refuses (report : SessionReport) (src : SourceModule) : Prop :=
  ∃ d ∈ report.diagnostics, d.issue.names src.coordinates = true

def PassesOver (report : SessionReport) (src : SourceModule) : Prop :=
  ∃ n, report.module? src.coordinates = some n ∧ (report.registry.module n).available = true ∧
    (report.registry.module n).fromPlatform = true ∧ (report.registry.module n).imports = []

end SessionReport

namespace Plan

variable {p : Plan} {config : Config} {overrides : Option Overrides} {a : Agenda}
  {t : Session Walk} {src : SourceModule} {n : ModuleId} {report : SessionReport}

theorem Reaches.met (h : p.Reaches config overrides a) (hsrc : src ∈ p.sources) :
    .root src ∈ a.tasks ∨ Agenda.Met a.session src.coordinates := by
  induction h using Reaches.induction with
  | start => exact .inl (List.mem_append_right _ (List.mem_map_of_mem hsrc))
  | step hreach hs ih =>
      have hc := hreach.coherent
      rcases ih with hroot | hmet
      · rcases List.mem_cons.mp hroot with rfl | hrest
        · exact .inr (hc.met_of_root hs)
        · exact .inl (List.mem_append_right _ hrest)
      · exact .inr (hc.met_step hs hmet)

theorem Reaches.sourcesAvailable (h : p.Reaches config overrides a) :
    Agenda.SourcesAvailable (p.environment config overrides) a.session := by
  induction h using Reaches.induction with
  | start =>
      intro n _ ha
      exact absurd ((Registry.available_init _ n).symm.trans ha) Bool.false_ne_true
  | step hreach hs ih => exact hreach.coherent.sourcesAvailable_step hs ih

theorem Reaches.not_builtIn (h : p.Reaches config overrides a) {c : Coordinates}
    (hf : a.session.registry.find? c = some n) (hn : 2 ≤ n) :
    c ≠ config.foundational ∧ c ≠ Registry.defaultCoordinates := by
  constructor
  · rintro rfl
    obtain rfl := Option.some.inj (h.find?_foundational.symm.trans hf)
    split at hn <;> exact absurd hn (by decide)
  · rintro rfl
    have hc := coherent_agenda p config overrides
    cases (Agenda.Leads.found h hc (Registry.find?_default_init _)).symm.trans hf
    exact Nat.not_lt.mpr hn Nat.one_lt_two

theorem Reaches.imports_of_compiled (h : p.Reaches config overrides ⟨t, []⟩)
    (hn : n ∈ t.client.compiled) (hsrc : p.source? (t.coordinates n) = some src) {d : Dependency}
    (hd : d ∈ src.imports) :
    ∃ i ∈ (t.registry.module n).imports, t.registry.find? d.coordinates = some i.target := by
  obtain ⟨named, hmem, htarget⟩ : ∃ i ∈ t.registry.namedImports n, i.target = d.coordinates := by
    rw [h.namedImports_of_compiled hn, sourceImports, hsrc, NamedImport.target_addAll]
    exact .inr ⟨_, List.mem_map_of_mem hd, rfl⟩
  obtain ⟨i, hi, rfl⟩ := List.mem_map.mp hmem
  exact ⟨i, hi, htarget ▸ h.coherent.session.linked n i hi⟩

theorem Reaches.passesOver (h : p.Reaches config overrides ⟨t, []⟩) (hsrc : src ∈ p.sources)
    (hf : t.registry.find? src.coordinates = some n)
    (ha : (t.registry.module n).available = true) (hk : n ∉ t.client.compiled) :
    config.platform.supplies src.coordinates = true ∧ src.coordinates ≠ config.foundational ∧
      src.coordinates ≠ Registry.defaultCoordinates ∧
      (SessionReport.ofSession (t.onEngine Engine.withImplicitImports)).PassesOver src := by
  have hc := h.coherent.session
  have ⟨hlt, hcoordinates⟩ : n < t.registry.size ∧ t.coordinates n = src.coordinates :=
    Registry.lt_size_and_coordinates_of_find? hc.indexed hf
  have hname : (p.environment config overrides).isSource (t.coordinates n).name = true :=
    (congrArg (fun c => Environment.isSource _ c.name) hcoordinates).trans
      (isSource_environment config overrides hsrc)
  have hidle : n ∉ t.engine.inProgress := h.inProgress_end ▸ List.not_mem_nil
  have hbinary : n ∉ t.client.loaded := fun hl =>
    Bool.false_ne_true ((hc.binaries n hl).2.1.symm.trans hname)
  obtain ⟨hbuiltIn, hplatform, hsupplied⟩ := (h.sourcesAvailable n hname ha).resolve_left hk
  obtain ⟨hfoundational, hdefault⟩ := h.not_builtIn hf hbuiltIn
  have hgrows := Registry.grows_withImplicitImports hc.indexed n
  have hplatform := hgrows.fromPlatform hplatform
  refine ⟨hcoordinates ▸ hsupplied, hfoundational, hdefault, n,
    (Registry.find?_withImplicitImports _ _).trans hf, hgrows.available ha, hplatform, ?_⟩
  refine (Registry.imports_withImplicitImports_eq hc.indexed hlt).trans ?_
  have hguest : ¬(t.registry.withImplicitImports.module n).fromPlatform = false :=
    fun h => Bool.false_ne_true (h.symm.trans hplatform)
  rw [hc.bare n hidle hk hbinary, if_neg fun h => hguest h.2.1]
  rfl

theorem Reaches.compiled_or_refused (h : p.Reaches config overrides ⟨t, []⟩)
    (hsrc : src ∈ p.sources) :
    let report := SessionReport.ofSession (t.onEngine Engine.withImplicitImports)
    ∃ n, report.module? src.coordinates = some n ∧ (n ∈ t.client.compiled ∨ report.Refuses src ∨
      config.platform.supplies src.coordinates = true ∧ src.coordinates ≠ config.foundational ∧
        src.coordinates ≠ Registry.defaultCoordinates ∧ report.PassesOver src) := by
  intro report
  obtain ⟨n, hf, hmet⟩ := (h.met hsrc).resolve_left List.not_mem_nil
  refine ⟨n, (Registry.find?_withImplicitImports _ _).trans hf,
    or_iff_not_imp_left.mpr fun hk => ?_⟩
  rcases hmet with ha | hbegun | hrefused
  · exact .inr (h.passesOver hsrc hf ha hk)
  · have hidle : n ∉ t.engine.inProgress := h.inProgress_end ▸ List.not_mem_nil
    exact absurd hbegun (not_or.mpr ⟨hidle, hk⟩)
  · exact .inl hrefused

/--
Every source module of a plan is resolved, or a conflict names it. The exception are modules that
the platform supplies in the version of the source: such a module is available as soon as it is
created, so as a root it is passed over, and unless another module imports it, its own imports are
never looked at.
-/
theorem source_of_run (hvalid : p.validate = .ok ())
    (hrun : p.run config overrides = .ok report) (hsrc : src ∈ p.sources) :
    report.Resolves src ∨ report.Refuses src ∨
      config.platform.supplies src.coordinates = true ∧ src.coordinates ≠ config.foundational ∧
        src.coordinates ≠ Registry.defaultCoordinates ∧ report.PassesOver src := by
  obtain ⟨t, ht, rfl⟩ := reaches_of_run hrun
  have hc := ht.coherent.session
  obtain ⟨n, hfound, hcases⟩ := ht.compiled_or_refused hsrc
  have hfind (c : Coordinates) : (SessionReport.ofSession
      (t.onEngine Engine.withImplicitImports)).module? c = t.registry.find? c :=
    Registry.find?_withImplicitImports t.registry c
  refine hcases.imp_left fun hk => ⟨n, hfound, ?_, fun d hd => ?_⟩
  · exact (Registry.grows_withImplicitImports hc.indexed n).available (hc.available n (.inr hk))
  · have hcoordinates : t.coordinates n = src.coordinates :=
      (Registry.lt_size_and_coordinates_of_find? hc.indexed ((hfind _).symm.trans hfound)).2
    have hsource : p.source? (t.coordinates n) = some src :=
      (sourcesDistinct_of_validate hvalid).source?_eq_some.mpr ⟨hsrc, hcoordinates.symm⟩
    obtain ⟨i, hi, htarget⟩ := ht.imports_of_compiled hk hsource hd
    exact ⟨i, Registry.imports_subset_withImplicitImports hc.indexed n hi,
      (hfind _).trans htarget⟩

def hostedSource : Plan where
  sources := [⟨⟨"host.sql", "10"⟩, [⟨"lib", "1", false, false⟩]⟩]
  artifacts := [⟨⟨"lib", "1"⟩, some ⟨3, 2⟩, []⟩]

def hostingSql : Config :=
  { Config.default with platform := ⟨"11", "8", ["host.sql"]⟩ }

theorem source_of_run_hostedSource :
    ∃ report, hostedSource.run hostingSql none = .ok report ∧
      report.diagnostics.isEmpty = true ∧ ∀ src ∈ hostedSource.sources,
        report.Resolves src ∨ report.Refuses src ∨
          hostingSql.platform.supplies src.coordinates = true ∧
            src.coordinates ≠ hostingSql.foundational ∧
            src.coordinates ≠ Registry.defaultCoordinates ∧ report.PassesOver src := by
  obtain ⟨report, hrun, hquiet⟩ : ∃ report, hostedSource.run hostingSql none = .ok report ∧
      report.diagnostics.isEmpty = true := exists_report (by decide +kernel)
  exact ⟨report, hrun, hquiet, fun src hsrc => source_of_run (by decide +kernel) hrun hsrc⟩

theorem unresolved_source_hostedSource :
    hostedSource.validate = .ok () ∧
      ∃ report, hostedSource.run hostingSql none = .ok report ∧
        ∃ src ∈ hostedSource.sources, ¬report.Resolves src ∧ ¬report.Refuses src := by
  obtain ⟨report, hrun, hpassed⟩ : ∃ report, hostedSource.run hostingSql none = .ok report ∧
      (report.module? ⟨"host.sql", "10"⟩ == some 2 &&
        (report.registry.module 2).imports.isEmpty && report.diagnostics.isEmpty) = true :=
    exists_report (by decide +kernel)
  simp only [Bool.and_eq_true, beq_iff_eq, List.isEmpty_iff] at hpassed
  obtain ⟨⟨hfound, himports⟩, hquiet⟩ := hpassed
  refine ⟨by decide +kernel, report, hrun, _, List.mem_singleton_self _, ?_, ?_⟩
  · rintro ⟨n, hn, -, hedges⟩
    cases hfound.symm.trans hn
    obtain ⟨i, hi, -⟩ := hedges _ (List.mem_singleton_self _)
    exact List.not_mem_nil (himports ▸ hi)
  · rintro ⟨d, hd, -⟩
    exact List.not_mem_nil (hquiet ▸ hd)

end Plan

end ModuleResolution
