import ModuleResolution.Proofs.Settled

namespace ModuleResolution

namespace Plan

inductive Needed (p : Plan) (config : Config) (r : Registry) : ModuleId → Prop
  | foundational (h : (p.artifact? config.foundational).isSome = true) :
      Needed p config r Registry.foundational
  | source {n : ModuleId} (hn : n < r.size) (h : p.HasSource (r.module n).coordinates) :
      Needed p config r n
  | imported {n : ModuleId} {i : Import} (hn : Needed p config r n)
      (h : p.HasSource (r.module n).coordinates) (hi : i ∈ (r.module n).imports) :
      Needed p config r i.target
  | exported {n : ModuleId} {i : Import} (hn : Needed p config r n)
      (h : ¬ p.HasSource (r.module n).coordinates) (hi : i ∈ (r.module n).imports)
      (he : i.exported = true) : Needed p config r i.target
  | transitive {n : ModuleId} {i : Import} (hn : Needed p config r n)
      (h : config.loadTransitive = true) (hi : i ∈ (r.module n).imports) :
      Needed p config r i.target

def FromArtifact (p : Plan) (config : Config) (c : Coordinates) : Prop :=
  (∀ src ∈ p.sources, src.coordinates.name ≠ c.name) ∧
    ¬ (config.platform.hosts c.name = true ∧ config.platform.provides c.version = true) ∧
    ∃ a ∈ p.artifacts, a.coordinates = c

variable {p : Plan} {config : Config} {overrides : Option Overrides} {c : Coordinates}

theorem loads_iff_fromArtifact (overrides : Option Overrides) :
    p.Loads (p.environment config overrides) c ↔ p.FromArtifact config c := by
  have hsource : (p.environment config overrides).isSource c.name = false ↔
      ∀ src ∈ p.sources, src.coordinates.name ≠ c.name := by
    simp [environment, Environment.isSource]
  have hsupplied : (p.environment config overrides).platform.supplies c = false ↔
      ¬ (config.platform.hosts c.name = true ∧ config.platform.provides c.version = true) := by
    simp [environment, Platform.supplies]
  have hartifact : (p.artifact? c).isSome = true ↔ ∃ a ∈ p.artifacts, a.coordinates = c := by
    simp [artifact?, List.find?_isSome]
  rw [Loads, FromArtifact, hsource, hsupplied, hartifact]

theorem Compiles.hasSource {env : Environment} (h : p.Compiles env c) : p.HasSource c :=
  hasSource_iff.mpr h.2

theorem Loads.not_hasSource (h : p.Loads (p.environment config overrides) c) :
    ¬ p.HasSource c := by
  rintro ⟨src, hsrc, rfl⟩
  exact ((loads_iff_fromArtifact overrides).mp h).1 src hsrc rfl

namespace Needed

variable {r s : Registry} {n : ModuleId}

theorem mono (h : p.Needed config r n) (hsize : r.size ≤ s.size)
    (hc : ∀ j < r.size, (s.module j).coordinates = (r.module j).coordinates)
    (hi : ∀ j, ∀ i ∈ (r.module j).imports, i ∈ (s.module j).imports) : p.Needed config s n := by
  induction h with
  | foundational h => exact .foundational h
  | source hn h => exact .source (Nat.lt_of_lt_of_le hn hsize) (hc _ hn ▸ h)
  | imported _ h himport ih =>
      exact .imported ih (hc _ (Registry.lt_size_of_mem himport) ▸ h) (hi _ _ himport)
  | exported _ h himport he ih =>
      exact .exported ih (hc _ (Registry.lt_size_of_mem himport) ▸ h) (hi _ _ himport) he
  | transitive _ h himport ih => exact .transitive ih h (hi _ _ himport)

theorem of_extends {s t : Session Walk} (h : p.Needed config s.registry n) (hst : s.Extends t) :
    p.Needed config t.registry n :=
  h.mono hst.size_le (fun j hj => (hst.grows j hj).coordinates) hst.imports

theorem withImplicitImports (h : p.Needed config r n) (hr : r.Indexed) :
    p.Needed config r.withImplicitImports n := by
  refine h.mono (Nat.le_of_eq (Registry.size_withImplicitImports r).symm) (fun j _ => ?_) ?_
  · exact (Registry.grows_withImplicitImports hr j).coordinates
  · intro j i hi
    rcases Registry.imports_withImplicitImports hr j with himports | himports
    · exact himports ▸ hi
    · exact himports ▸ List.mem_append_left _ hi

end Needed

theorem needed_of_visit {s t : Session Walk} {task : Task} {left rest : List Task} {v : Visit}
    (hc : Agenda.Coherent p (p.environment config overrides) ⟨s, task :: rest⟩)
    (hs : task.Step p (p.environment config overrides) s t left) (hv : .visit v ∈ left)
    (hpath : v.onBuildPath = true ∨ config.loadTransitive = true)
    (hvisited : ∀ w, task = .visit w → s.client.isDone w.edge.target = false →
      p.Loads (p.environment config overrides) (s.target w).coordinates →
        (w.onBuildPath = true ∨
          Engine.loadsAnyway (p.environment config overrides) w.edge.target = true) →
            p.Needed config s.registry w.edge.target) :
    p.Needed config t.registry v.edge.target := by
  have hst := hc.extends hs
  rcases hc.visit_of_step hs hv with ⟨w, rfl, hdone, hloads, hneeded, -, i, hi, rfl⟩ |
      ⟨n, trail, d, rfl, hn, rfl, rfl⟩
  · have htarget := (hvisited w rfl hdone hloads hneeded).of_extends hst
    rcases hpath with hpath | hpolicy
    · rw [Bool.and_eq_true] at hpath
      refine .exported htarget ?_ hi hpath.2
      rw [(hst.grows _ (hc.targets w List.mem_cons_self)).coordinates]
      exact hloads.not_hasSource
    · exact .transitive htarget hpolicy hi
  · obtain ⟨hlt, hcompiles⟩ := hc.session.sources n (.inl hn)
    have hneeded : p.Needed config s.registry n := .source hlt hcompiles.hasSource
    refine .imported (hneeded.of_extends hst) ?_ (Session.importedEdge_mem hlt)
    exact (hst.grows n hlt).coordinates ▸ hcompiles.hasSource

structure Justified (p : Plan) (config : Config) (a : Agenda) : Prop where
  loaded : ∀ n ∈ a.session.client.loaded, p.Needed config a.session.registry n
  visits : ∀ v, .visit v ∈ a.tasks → v.onBuildPath = true ∨ config.loadTransitive = true →
    p.Needed config a.session.registry v.edge.target

theorem Reaches.justified {a : Agenda} (h : p.Reaches config overrides a) :
    p.Justified config a := by
  induction h using Reaches.induction with
  | start =>
      refine ⟨fun n hn => absurd hn List.not_mem_nil, fun v hv _ => ?_⟩
      rcases List.mem_append.mp hv with hv | hv
      · split at hv
        · next hartifact =>
          cases List.mem_singleton.mp hv
          exact .foundational hartifact
        · cases hv
      · obtain ⟨src, -, hsrc⟩ := List.mem_map.mp hv
        cases hsrc
  | @step s t task left rest hreach hs ih =>
      have hc := hreach.coherent
      have hst := hc.extends hs
      refine ⟨fun n hn => ?_, fun v hv hneeded => ?_⟩
      · rcases hc.loaded_cases hs with hsame | ⟨v, rfl, hl, hdone, hloads, hclear, hneeded⟩
        · exact (ih.loaded n (hsame ▸ hn)).of_extends hst
        · change n ∈ t.client.loaded at hn
          rw [hl] at hn
          rcases List.mem_cons.mp hn with rfl | hn
          · exact (ih.visits v List.mem_cons_self
              (hreach.loads_strictly hdone hloads hneeded)).of_extends hst
          · exact (ih.loaded n hn).of_extends hst
      · rcases List.mem_append.mp hv with hleft | hrest
        · refine needed_of_visit hc hs hleft hneeded fun w hw hdone hloads hload => ?_
          subst hw
          exact ih.visits w List.mem_cons_self (hreach.loads_strictly hdone hloads hload)
        · exact (ih.visits v (List.mem_cons_of_mem _ hrest) hneeded).of_extends hst

section

variable {t : Session Walk} {n : ModuleId} {i : Import} (h : p.Reaches config overrides ⟨t, []⟩)
  (hclear : ∀ d ∈ t.engine.diagnostics, d.issue.isConflict = false)

include h

theorem Reaches.foundational_mem_loaded
    (hloads : p.Loads (p.environment config overrides)
      (t.registry.module Registry.foundational).coordinates) :
    Registry.foundational ∈ t.client.loaded := by
  rw [h.coordinates_foundational] at hloads
  rcases h.opened with ⟨ha, hartifact⟩ | hmem | hnot
  · have htasks := congrArg Agenda.tasks ha
    simp only [agenda, hartifact] at htasks
    cases htasks
  · exact hmem
  · exact absurd hloads hnot

include hclear

theorem Reaches.target_mem_loaded (hi : i ∈ (t.registry.module n).imports)
    (hrequired : i.exported = false → config.loadTransitive = false →
      p.HasSource (t.registry.module n).coordinates)
    (hloads : p.Loads (p.environment config overrides) (t.registry.module i.target).coordinates) :
    i.target ∈ t.client.loaded := by
  cases h.settles hi with
  | loaded hl => exact hl
  | compiled hk => exact absurd (h.coherent.session.sources _ (.inr hk)).2 hloads.not_compiles
  | absent _ hnot => exact absurd hloads hnot
  | skipped c ho =>
      obtain ⟨d, hd, hconflict⟩ := h.reported ho rfl
      exact absurd ((hclear d hd).symm.trans hconflict) Bool.false_ne_true
  | deferred ho hpolicy hlt hsource hexported =>
      obtain ⟨src, hsrc, hname⟩ := hrequired hexported hpolicy
      have hfrom := isSource_environment config overrides hsrc
      rw [hname] at hfrom
      exact absurd (hsource.symm.trans hfrom) Bool.false_ne_true

theorem Reaches.loaded_of_needed (hneeded : p.Needed config t.registry.withImplicitImports n)
    (hloads : p.Loads (p.environment config overrides) (t.registry.module n).coordinates) :
    n ∈ t.client.loaded := by
  have hindexed := h.coherent.session.indexed
  have hcoordinates (k : ModuleId) : (t.registry.withImplicitImports.module k).coordinates =
      (t.registry.module k).coordinates :=
    (Registry.grows_withImplicitImports hindexed k).coordinates
  have hedge {k : ModuleId} {i : Import}
      (hi : i ∈ (t.registry.withImplicitImports.module k).imports)
      (hrequired : i.exported = false → config.loadTransitive = false →
        p.HasSource (t.registry.module k).coordinates)
      (hloads : p.Loads (p.environment config overrides) (t.registry.module i.target).coordinates) :
      i.target ∈ t.client.loaded := by
    -- the implicit edges lead to the foundational module, which the run opened with
    rcases Registry.mem_imports_withImplicitImports hindexed hi with hi | rfl
    · exact h.target_mem_loaded hclear hi hrequired hloads
    · exact h.foundational_mem_loaded hloads
  cases hneeded with
  | foundational => exact h.foundational_mem_loaded hloads
  | source hn hsource =>
      rw [hcoordinates] at hsource
      exact absurd hsource hloads.not_hasSource
  | imported _ hsource hi => exact hedge hi (fun _ _ => hcoordinates _ ▸ hsource) hloads
  | exported _ _ hi hexported =>
      exact hedge hi (fun hnot => absurd (hnot.symm.trans hexported) Bool.false_ne_true) hloads
  | transitive _ hpolicy hi =>
      exact hedge hi (fun _ hnot => absurd (hnot.symm.trans hpolicy) Bool.false_ne_true) hloads

end

end Plan

namespace SessionReport

def ConflictFree (r : SessionReport) : Prop :=
  ∀ d ∈ r.diagnostics, d.issue.isConflict = false

end SessionReport

namespace Plan

variable {p : Plan} {config : Config} {overrides : Option Overrides} {report : SessionReport}

theorem isBinaryInput_iff_needed (hrun : p.run config overrides = .ok report)
    (hclear : report.ConflictFree) (n : ModuleId) :
    report.registry.isBinaryInput n = true ↔
      p.Needed config report.registry n ∧
        p.FromArtifact config (report.registry.module n).coordinates := by
  obtain ⟨t, ht, rfl⟩ := reaches_of_run hrun
  have hc := ht.coherent.session
  have hinput : t.registry.withImplicitImports.isBinaryInput n = true ↔ n ∈ t.client.loaded := by
    rw [← hc.isBinaryInput_iff]
    simp [Registry.isBinaryInput]
  change t.registry.withImplicitImports.isBinaryInput n = true ↔
    p.Needed config t.registry.withImplicitImports n ∧
      p.FromArtifact config (t.registry.withImplicitImports.module n).coordinates
  rw [hinput, (Registry.grows_withImplicitImports hc.indexed n).coordinates,
    ← loads_iff_fromArtifact overrides]
  constructor
  · intro hn
    exact ⟨(ht.justified.loaded n hn).withImplicitImports hc.indexed, (hc.binaries n hn).2⟩
  · rintro ⟨hneeded, hloads⟩
    exact ht.loaded_of_needed hclear hneeded hloads

def exportedAndPrivate : Plan where
  sources := [⟨⟨"app", "1"⟩, [⟨"lib", "1", false, false⟩]⟩]
  artifacts := [
    ⟨⟨"lib", "1"⟩, some ⟨3, 2⟩, [⟨⟨"api", "1"⟩, .exported⟩, ⟨⟨"impl", "1"⟩, .normal⟩]⟩,
    ⟨⟨"api", "1"⟩, some ⟨3, 2⟩, []⟩,
    ⟨⟨"impl", "1"⟩, some ⟨3, 2⟩, []⟩]

theorem isBinaryInput_iff_needed_exportedAndPrivate :
    ∃ report, exportedAndPrivate.run .default none = .ok report ∧ report.ConflictFree ∧
      report.registry.binaryInputs.map (·.1) = [3, 4] ∧
      ∀ n, report.registry.isBinaryInput n = true ↔
        exportedAndPrivate.Needed .default report.registry n ∧
          exportedAndPrivate.FromArtifact .default (report.registry.module n).coordinates := by
  have hinputs : (exportedAndPrivate.run .default none).toOption.any (fun report =>
      report.diagnostics.all (fun d => d.issue.isConflict == false) &&
        report.registry.binaryInputs.map (·.1) == [3, 4]) = true := by decide +kernel
  cases hrun : exportedAndPrivate.run .default none with
  | error e =>
      rw [hrun] at hinputs
      cases hinputs
  | ok report =>
      rw [hrun] at hinputs
      simp only [Except.toOption, Option.any_some, Bool.and_eq_true, List.all_eq_true,
        beq_iff_eq] at hinputs
      exact ⟨report, rfl, hinputs.1, hinputs.2, isBinaryInput_iff_needed hrun hinputs.1⟩

end Plan

end ModuleResolution
