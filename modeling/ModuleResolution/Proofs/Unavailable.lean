import ModuleResolution.Proofs.Findings

namespace ModuleResolution

namespace Platform

variable {p : Platform} {c : Coordinates} {issue : Issue} {name version current : String}

theorem reworded_eq_unavailable
    (h : p.reworded c issue = .platformVersionUnavailable name version current)
    (hissue : issue ≠ .platformVersionUnavailable name version current) :
    p.hosts c.name = true ∧ c = ⟨name, version⟩ ∧ p.version = current := by
  simp only [reworded, unavailable?] at h
  split at h
  · next hhosts =>
    cases h
    exact ⟨hhosts, rfl, rfl⟩
  · exact absurd h hissue

theorem supplies_of_hosts (hhosts : p.hosts c.name = true)
    (hprovides : p.provides c.version = true) :
    p.supplies c = true := by
  rw [supplies, hhosts, hprovides, Bool.and_self]

theorem reworded_of_hosts (h : p.hosts c.name = true) :
    p.reworded c issue = .platformVersionUnavailable c.name c.version p.version := by
  simp [reworded, unavailable?, h]

end Platform

theorem Engine.eq_lower_of_mem_importAdvice {env : Environment} {e : Engine} {n : ModuleId}
    {i : Import} {issue : Issue} (h : issue ∈ e.importAdvice env n i) :
    ∃ requested, issue = .platformVersionLower requested env.platform.version := by
  rw [importAdvice] at h
  split at h
  · cases h
  · rw [Option.mem_toList, Platform.lowerImport?] at h
    split at h
    · exact ⟨_, (Option.some.inj h).symm⟩
    · cases h

namespace Registry

variable {r s : Registry} {p : Platform} {id : ModuleId}

def SetUp (r : Registry) (p : Platform) : Prop :=
  ∀ n, 2 ≤ n → n < r.size → p.supplies (r.module n).coordinates = true →
    (r.module n).fromPlatform = true ∧ (r.module n).available = true

theorem Evolves.setUp (h : Evolves p id r s) (hr : r.SetUp p) : s.SetUp p := by
  intro n hn hlt hsupplied
  by_cases hold : n < r.size
  · have hgrows := h.grows hold
    rw [hgrows.coordinates] at hsupplied
    obtain ⟨hplatform, havailable⟩ := hr n hn hold hsupplied
    exact ⟨hgrows.fromPlatform hplatform, hgrows.available havailable⟩
  · obtain ⟨c, hc, -⟩ := h.created n (Nat.le_of_not_lt hold) hlt
    rw [hc, (Module.grows_setUp p _).coordinates] at hsupplied
    rw [hc, Platform.setUp, if_pos hsupplied]
    exact ⟨rfl, rfl⟩

end Registry

namespace Session

variable {p : Plan} {env : Environment} {s t : Session Walk} {o : EdgeOutcome}

theorem mem_of_record {w : Walk} {importer module : ModuleId} {resolution : Resolution}
    (ho : o ∈ (w.record importer module (some resolution)).outcomes) (hnone : o.resolution = none) :
    o ∈ w.outcomes := by
  rcases List.mem_append.mp ho with ho | ho
  · exact ho
  · obtain rfl := List.mem_singleton.mp ho
    cases hnone

theorem mem_of_enter {trail : Trail} {id : ModuleId}
    (ho : o ∈ (s.enter trail id).client.outcomes) (hnone : o.resolution = none) :
    o ∈ s.client.outcomes := by
  simp only [enter] at ho
  split at ho
  · exact ho
  · exact mem_of_record ho hnone

theorem reported_of_missing {task : Task} {left : List Task} (hs : task.Step p env s t left)
    (ho : o ∈ t.client.outcomes) (hnone : o.resolution = none) :
    o ∈ s.client.outcomes ∨ ∃ d ∈ t.engine.diagnostics,
      d.issue = env.platform.reworded (s.coordinates o.module)
        (.moduleNotFound (s.coordinates o.module).name (s.coordinates o.module).version) := by
  cases hs with
  | done | declared | finished | present | refused => exact .inl ho
  | missing =>
      rcases List.mem_append.mp ho with ho | ho
      · exact .inl ho
      · obtain rfl := List.mem_singleton.mp ho
        exact .inr ⟨_, List.mem_append_right _ (List.mem_singleton_self _), rfl⟩
  | supplied | skipped | deferred | loaded => exact .inl (mem_of_record ho hnone)
  | entered | opened => exact .inl (mem_of_enter ho hnone)

def Overlooks (s : Session Walk) (c : Coordinates) : Prop :=
  ∃ o ∈ s.client.outcomes, o.resolution = none ∧ o.module < 2 ∧ s.coordinates o.module = c

structure Unasked (env : Environment) (s : Session Walk) : Prop where
  reported : ∀ c, s.Overlooks c → env.platform.hosts c.name = true →
    ∃ d ∈ s.engine.diagnostics,
      d.issue = .platformVersionUnavailable c.name c.version env.platform.version
  overlooked : ∀ d ∈ s.engine.diagnostics, ∀ name version current,
    d.issue = .platformVersionUnavailable name version current →
      env.platform.provides version = true →
        env.platform.hosts name = true ∧ env.platform.version = current ∧
          s.Overlooks ⟨name, version⟩

end Session

namespace Agenda

variable {p : Plan} {env : Environment} {s t : Session Walk} {task : Task} {left rest : List Task}

theorem Coherent.overlooks_step {c : Coordinates} (h : Coherent p env ⟨s, task :: rest⟩)
    (hs : task.Step p env s t left) (ho : s.Overlooks c) : t.Overlooks c := by
  have hst := h.extends hs
  obtain ⟨o, ho, hnone, hlt, rfl⟩ := ho
  refine ⟨o, hst.outcomes.subset ho, hnone, hlt, ?_⟩
  exact hst.later.coordinates (Nat.lt_of_lt_of_le hlt h.session.builtIn)

theorem Coherent.overlooks_missing {v : Visit} (h : Coherent p env ⟨s, .visit v :: rest⟩)
    (hst : s.Extends t) (hsetUp : s.registry.SetUp env.platform)
    (hlocate : Walk.locate? p env (s.target v) = none)
    (hlogged : t.client.outcomes = s.client.outcomes ++ [⟨v.importer, v.edge.target, none⟩])
    (hsupplied : env.platform.supplies (s.target v).coordinates = true) :
    t.Overlooks (s.target v).coordinates := by
  have hid := h.targets v List.mem_cons_self
  refine ⟨⟨v.importer, v.edge.target, none⟩, ?_, rfl, ?_, hst.later.coordinates hid⟩
  · rw [hlogged]
    exact List.mem_append_right _ (List.mem_singleton_self _)
  · refine Nat.lt_of_not_le fun hcreated => ?_
    obtain ⟨hplatform, havailable⟩ := hsetUp v.edge.target hcreated hid hsupplied
    simp [Walk.locate?, hplatform, havailable] at hlocate

theorem Coherent.unasked_step (h : Coherent p env ⟨s, task :: rest⟩)
    (hs : task.Step p env s t left) (hsetUp : s.registry.SetUp env.platform)
    (hu : s.Unasked env) : t.Unasked env := by
  have hst := h.extends hs
  refine ⟨fun c hc hhosts => ?reported,
    fun d hd name version current hissue hprovides => ?overlooked⟩
  case reported =>
    obtain ⟨o, ho, hnone, hlt, rfl⟩ := hc
    have hsame := hst.later.coordinates (Nat.lt_of_lt_of_le hlt h.session.builtIn)
    rw [Session.coordinates, hsame] at hhosts ⊢
    rcases Session.reported_of_missing hs ho hnone with ho | ⟨d, hd, hissue⟩
    · obtain ⟨d, hd, hissue⟩ := hu.reported _ ⟨o, ho, hnone, hlt, rfl⟩ hhosts
      exact ⟨d, hst.diagnostics.subset hd, hissue⟩
    · exact ⟨d, hd, hissue.trans (Platform.reworded_of_hosts hhosts)⟩
  case overlooked =>
    obtain ⟨new, hdiagnostics, hnew⟩ := h.reports_of_step hs
    rw [hdiagnostics, List.mem_append] at hd
    rcases hd with hd | hd
    · obtain ⟨hhosts, hcurrent, ho⟩ := hu.overlooked d hd name version current hissue hprovides
      exact ⟨hhosts, hcurrent, h.overlooks_step hs ho⟩
    · cases hnew with
      | nothing => cases hd
      | absent hlocate hlogged =>
          obtain rfl := List.mem_singleton.mp hd
          obtain ⟨hhosts, hc, hcurrent⟩ := Platform.reworded_eq_unavailable hissue (by simp)
          have hsupplied := Platform.supplies_of_hosts hhosts (hc ▸ hprovides)
          have ho := h.overlooks_missing hst hsetUp hlocate hlogged hsupplied
          rw [hc] at hhosts ho
          exact ⟨hhosts, hcurrent, ho⟩
      | @skipped _ c | @refused _ _ c =>
          obtain rfl := List.mem_singleton.mp hd
          have hconflict := c.isConflict_issue
          rw [show c.issue = _ from hissue] at hconflict
          cases hconflict
      | loaded hguest hcoordinates =>
          obtain ⟨issue, hformat, rfl⟩ := List.mem_map.mp hd
          obtain ⟨found, rfl⟩ := Engine.exists_of_mem_formatIssues hformat
          obtain ⟨hhosts, hc, -⟩ := Platform.reworded_eq_unavailable hissue (by simp)
          have hsupplied := Platform.supplies_of_hosts hhosts (hc ▸ hprovides)
          rw [hcoordinates, hguest] at hsupplied
          cases hsupplied
      | declared =>
          obtain ⟨issue, hadvice, rfl⟩ := List.mem_map.mp hd
          obtain ⟨c, rfl⟩ := Engine.eq_lower_of_mem_importAdvice hadvice
          cases hissue

end Agenda

namespace Plan

variable {p : Plan} {config : Config} {overrides : Option Overrides} {a : Agenda}
  {report : SessionReport} {name version current : String}

theorem Reaches.setUp (h : p.Reaches config overrides a) :
    a.session.registry.SetUp config.platform := by
  induction h using Reaches.induction with
  | start => exact fun n hn hlt => absurd hlt (Nat.not_lt.mpr hn)
  | step hreach hs ih =>
      obtain ⟨id, -, hev⟩ := hreach.coherent.evolves_step hs
      exact hev.setUp ih

theorem Reaches.unasked (h : p.Reaches config overrides a) :
    a.session.Unasked (p.environment config overrides) := by
  induction h using Reaches.induction with
  | start => exact ⟨fun c ⟨o, ho, _⟩ => absurd ho List.not_mem_nil,
      fun d hd => absurd hd List.not_mem_nil⟩
  | step hreach hs ih => exact hreach.coherent.unasked_step hs hreach.setUp ih

theorem unavailable_of_run (hrun : p.run config overrides = .ok report)
    (hprovides : config.platform.provides version = true) :
    (∃ d ∈ report.diagnostics, d.issue = .platformVersionUnavailable name version current) ↔
      config.platform.hosts name = true ∧ config.platform.version = current ∧
        ∃ o ∈ report.outcomes, o.resolution = none ∧
          (o.module = Registry.foundational ∨ o.module = Registry.defaultModule) ∧
          (report.registry.module o.module).coordinates = ⟨name, version⟩ := by
  obtain ⟨t, ht, rfl⟩ := reaches_of_run hrun
  have hu := ht.unasked
  have hsame (n : ModuleId) : (t.registry.withImplicitImports.module n).coordinates =
      t.coordinates n :=
    (Registry.grows_withImplicitImports ht.coherent.session.indexed n).coordinates
  have hfirst (n : ModuleId) : n = Registry.foundational ∨ n = Registry.defaultModule ↔ n < 2 :=
    (Nat.lt_succ_iff.trans Nat.le_one_iff_eq_zero_or_eq_one).symm
  constructor
  · rintro ⟨d, hd, hissue⟩
    obtain ⟨hhosts, hcurrent, o, ho, hnone, hlt, hc⟩ :=
      hu.overlooked d hd name version current hissue hprovides
    exact ⟨hhosts, hcurrent, o, ho, hnone, (hfirst _).mpr hlt, (hsame _).trans hc⟩
  · rintro ⟨hhosts, rfl, o, ho, hnone, hlt, hc⟩
    exact hu.reported ⟨name, version⟩
      ⟨o, ho, hnone, (hfirst _).mp hlt, (hsame _).symm.trans hc⟩ hhosts

def hostedFoundation : Plan where
  sources := [⟨⟨"app", "1"⟩, [⟨"host.base", "11", false, false⟩]⟩]
  artifacts := []

def foundationOnHost : Config :=
  { Config.default with
    foundational := ⟨"host.base", "11"⟩
    platform := ⟨"11", "8", ["host.base"]⟩ }

theorem unavailable_of_run_hostedFoundation :
    ∃ report, hostedFoundation.run foundationOnHost none = .ok report ∧
      foundationOnHost.platform.provides "11" = true ∧
      ((∃ d ∈ report.diagnostics,
          d.issue = .platformVersionUnavailable "host.base" "11" "11") ↔
        foundationOnHost.platform.hosts "host.base" = true ∧
          foundationOnHost.platform.version = "11" ∧
          ∃ o ∈ report.outcomes, o.resolution = none ∧
            (o.module = Registry.foundational ∨ o.module = Registry.defaultModule) ∧
            (report.registry.module o.module).coordinates = ⟨"host.base", "11"⟩) := by
  obtain ⟨report, hrun, -⟩ : ∃ report,
      hostedFoundation.run foundationOnHost none = .ok report ∧ report.hasErrors = true :=
    exists_report (by decide +kernel)
  have hprovides : foundationOnHost.platform.provides "11" = true := by decide +kernel
  exact ⟨report, hrun, hprovides, unavailable_of_run hrun hprovides⟩

theorem unavailable_provided_hostedFoundation :
    hostedFoundation.validate = .ok () ∧ foundationOnHost.validate = .ok () ∧
      foundationOnHost.platform.provides "11" = true ∧
      ∃ report, hostedFoundation.run foundationOnHost none = .ok report ∧
        ∃ d ∈ report.diagnostics,
          d.issue = .platformVersionUnavailable "host.base" "11" "11" := by
  obtain ⟨report, hrun, hissue⟩ : ∃ report,
      hostedFoundation.run foundationOnHost none = .ok report ∧
        (report.diagnostics.any fun d =>
          d.issue == .platformVersionUnavailable "host.base" "11" "11") = true :=
    exists_report (by decide +kernel)
  obtain ⟨d, hd, hissue⟩ := List.any_eq_true.mp hissue
  exact ⟨by decide +kernel, by decide +kernel, by decide +kernel, report, hrun, d, hd,
    beq_iff_eq.mp hissue⟩

end Plan

end ModuleResolution
