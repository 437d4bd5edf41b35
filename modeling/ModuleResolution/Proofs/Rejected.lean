import ModuleResolution.Proofs.Log
import ModuleResolution.Proofs.Versions

namespace ModuleResolution

namespace Registry

variable {r s : Registry} {p : Platform} {id j m n : ModuleId}

theorem conflict?_isSome (hr : r.Indexed) (hinputs : ∀ m, r.isBinaryInput m = true → m < r.size) :
    (r.conflict? id).isSome = true ↔ ∃ m, r.isBinaryInput m = true ∧ r.Rivals m id := by
  rw [Option.isSome_iff_ne_none, ne_eq, conflict?_eq_none_iff hr]
  simp only [not_forall, not_not, exists_prop]
  exact ⟨fun ⟨m, _, hbars⟩ => ⟨m, hbars⟩, fun ⟨m, hbars⟩ => ⟨m, hinputs m hbars.1, hbars⟩⟩

theorem Evolves.eq_or_fresh (h : Evolves p id r s) (hne : j < r.size → j ≠ id)
    (hsupplied : p.supplies (s.module j).coordinates = false) :
    s.module j = r.module j ∨ ∃ c, s.module j = Module.fresh j c false := by
  by_cases hr : j < r.size
  · exact .inl (h.others j hr (hne hr))
  · by_cases hs : j < s.size
    · obtain ⟨c, hc, -⟩ := h.created j (Nat.le_of_not_lt hr) hs
      rw [hc, (Module.grows_setUp p _).coordinates] at hsupplied
      refine .inr ⟨c, ?_⟩
      rw [hc, Platform.setUp, hsupplied, if_neg Bool.false_ne_true]
    · exact .inr ⟨_, module_of_size_le (Nat.le_of_not_lt hs)⟩

theorem marks_withImplicitImports (h : r.Indexed) (n : ModuleId) :
    (r.withImplicitImports.module n).available = (r.module n).available ∧
      (r.withImplicitImports.module n).fromBinary = (r.module n).fromBinary :=
  ⟨eq_withImplicitImports h (fun _ _ => rfl) n, eq_withImplicitImports h (fun _ _ => rfl) n⟩

theorem isBinaryInput_withImplicitImports (r : Registry) (n : ModuleId) :
    r.withImplicitImports.isBinaryInput n = r.isBinaryInput n := by
  rw [isBinaryInput, isBinaryInput, binaryInputs_withImplicitImports]

end Registry

theorem Session.Coherent.conflict?_isSome {p : Plan} {env : Environment} {s : Session Walk}
    {n : ModuleId} (h : s.Coherent p env) :
    (s.registry.conflict? n).isSome = true ↔ ∃ m ∈ s.client.loaded, s.registry.Rivals m n := by
  rw [Registry.conflict?_isSome h.indexed fun m hm =>
    (h.binaries m (h.isBinaryInput_iff.mp hm)).1]
  simp only [h.isBinaryInput_iff]

namespace Task.Logs

variable {p : Plan} {env : Environment} {s t : Session Walk} {task : Task}
  {new : List EdgeOutcome} {o : EdgeOutcome} {c : Conflict}

theorem untaken_or_loaded (h : task.Logs p env s t new) (ho : o ∈ new)
    (hloads : p.Loads env (s.coordinates o.module)) : o.Untaken ∨ o.module ∈ t.client.loaded := by
  cases h with
  | nothing => cases ho
  | absent _ _ hnot =>
      obtain rfl := List.mem_singleton.mp ho
      exact absurd hloads hnot
  | skipped =>
      obtain rfl := List.mem_singleton.mp ho
      exact .inl (.inr ⟨_, rfl⟩)
  | deferred =>
      obtain rfl := List.mem_singleton.mp ho
      exact .inl (.inl rfl)
  | loaded hloaded =>
      obtain rfl := List.mem_singleton.mp ho
      exact .inr (hloaded ▸ List.mem_cons_self)
  | compiling _ _ _ hsource =>
      obtain rfl := List.mem_singleton.mp ho
      exact absurd (hloads.1.symm.trans hsource) Bool.false_ne_true

theorem conflict_of_skipped (h : task.Logs p env s t new) (ho : o ∈ new)
    (hskipped : o.resolution = some (.skipped c))
    (hsource : env.isSource (s.registry.module o.module).name = false) :
    s.registry.conflict? o.module = some c ∧ p.Loads env (s.coordinates o.module) := by
  cases h with
  | nothing => cases ho
  | absent _ hresolution =>
      obtain rfl := List.mem_singleton.mp ho
      rcases hresolution with rfl | rfl <;> cases hskipped
  | @loaded v l =>
      obtain rfl := List.mem_singleton.mp ho
      cases l <;> cases hskipped
  | deferred | compiling =>
      obtain rfl := List.mem_singleton.mp ho
      cases hskipped
  | skipped _ hconflict hloads =>
      obtain rfl := List.mem_singleton.mp ho
      cases hskipped
      exact ⟨hconflict, hloads hsource⟩

end Task.Logs

namespace Agenda

variable {p : Plan} {env : Environment} {s t : Session Walk} {task : Task} {left rest : List Task}

theorem Coherent.changes_of_step (h : Coherent p env ⟨s, task :: rest⟩)
    (hs : task.Step p env s t left) :
    ∃ id, Registry.Evolves env.platform id s.registry t.registry ∧ (id < s.registry.size →
      id ∈ t.client.loaded ∨ env.isSource (s.registry.module id).name = true ∨
        env.platform.supplies (s.coordinates id) = true) := by
  have hc := h.session
  have hsource (n : ModuleId) (hn : .finish n ∈ task :: rest) :
      n < s.registry.size ∧ env.isSource (s.registry.module n).name = true := by
    obtain ⟨hlt, hcompiles⟩ := hc.sources n (.inl (h.mem_inProgress.mp hn))
    exact ⟨hlt, hcompiles.1⟩
  cases hs with
  | done | missing | skipped | deferred | entered =>
      exact ⟨s.registry.size, .refl _ _ _, fun hlt => absurd hlt (Nat.lt_irrefl _)⟩
  | @supplied v a hdone hlocate hbinary hsupplied =>
      exact ⟨v.edge.target, Registry.evolves_modify fun m => Module.grows_setUp env.platform m,
        fun _ => .inr (.inr hsupplied)⟩
  | @loaded v a e l hdone hlocate hbinary hsupplied hclear hneeded hload =>
      exact ⟨v.edge.target, Engine.evolves_load (h.targets v List.mem_cons_self) hload,
        fun _ => .inl List.mem_cons_self⟩
  | @declared importer trail d =>
      obtain ⟨hlt, hname⟩ := hsource importer (List.mem_cons_of_mem _ h.nested.1)
      exact ⟨importer, Session.evolves_declare hlt, fun _ => .inr (.inl hname)⟩
  | @finished id =>
      obtain ⟨-, hname⟩ := hsource id List.mem_cons_self
      exact ⟨id, Session.evolves_finish env s id, fun _ => .inr (.inl hname)⟩
  | @present src e id hensure | @refused src e id c hensure | @opened src declared e id hensure =>
      obtain rfl : (s.engine.ensure env src.coordinates).1 = e := congrArg Prod.fst hensure
      exact ⟨s.registry.size, Registry.evolves_ensure env.platform _ s.registry src.coordinates,
        fun hlt => absurd hlt (Nat.lt_irrefl _)⟩

def Unmarked (env : Environment) (s : Session Walk) : Prop :=
  ∀ n, n ∉ s.client.loaded → env.isSource (s.registry.module n).name = false →
    env.platform.supplies (s.coordinates n) = false →
      (s.registry.module n).available = false ∧ (s.registry.module n).fromBinary = false

theorem Coherent.unmarked_step (h : Coherent p env ⟨s, task :: rest⟩)
    (hs : task.Step p env s t left) (hu : Unmarked env s) : Unmarked env t := by
  obtain ⟨id, hev, hid⟩ := h.changes_of_step hs
  intro n hl hsource hsupplied
  have hne (hlt : n < s.registry.size) : n ≠ id := by
    rintro rfl
    have hgrows := hev.grows hlt
    rcases hid hlt with hloaded | hname | hplatform
    · exact hl hloaded
    · exact Bool.false_ne_true (hsource.symm.trans (hgrows.name ▸ hname))
    · rw [Session.coordinates, hgrows.coordinates] at hsupplied
      exact Bool.false_ne_true (hsupplied.symm.trans hplatform)
  rcases hev.eq_or_fresh hne hsupplied with hsame | ⟨c, hfresh⟩
  · have hold := hu n fun hn => hl ((h.extends hs).loaded hn)
    simp only [Session.coordinates, ← hsame] at hold
    exact hold hsource hsupplied
  · rw [hfresh]
    exact ⟨rfl, rfl⟩

structure Judged (p : Plan) (env : Environment) (s : Session Walk) : Prop where
  lt_size : ∀ o ∈ s.client.outcomes, o.module < s.registry.size
  taken : ∀ o ∈ s.client.outcomes, p.Loads env (s.coordinates o.module) →
    o.Untaken ∨ o.module ∈ s.client.loaded
  skipped : ∀ o ∈ s.client.outcomes, ∀ c, o.resolution = some (.skipped c) →
    env.isSource (s.registry.module o.module).name = false →
      p.Loads env (s.coordinates o.module) ∧
        ∃ m ∈ s.client.loaded, s.registry.Rivals m o.module

theorem Coherent.judged_step (h : Coherent p env ⟨s, task :: rest⟩)
    (hs : task.Step p env s t left) (hj : Judged p env s) : Judged p env t := by
  have hc := h.session
  have hst := h.extends hs
  obtain ⟨new, hnew, hlogs⟩ := h.logs_of_step hs
  have hlt (o : EdgeOutcome) (ho : o ∈ new) : o.module < s.registry.size := by
    obtain ⟨v, rfl, hv⟩ := hlogs.target_eq ho
    exact hv ▸ h.targets v List.mem_cons_self
  have hold (o : EdgeOutcome) (hlt : o.module < s.registry.size) :
      t.coordinates o.module = s.coordinates o.module := hst.later.coordinates hlt
  refine ⟨fun o ho => ?lt_size, fun o ho hloads => ?taken, fun o ho c hskipped hsource => ?skipped⟩
    <;> rcases List.mem_append.mp (hnew ▸ ho) with ho | ho
  case lt_size.inl => exact hst.later.lt_size (hj.lt_size o ho)
  case lt_size.inr => exact hst.later.lt_size (hlt o ho)
  case taken.inl =>
    rw [hold o (hj.lt_size o ho)] at hloads
    exact (hj.taken o ho hloads).imp_right (hst.loaded ·)
  case taken.inr =>
    rw [hold o (hlt o ho)] at hloads
    exact hlogs.untaken_or_loaded ho hloads
  case skipped.inl =>
    have hlt := hj.lt_size o ho
    rw [(hst.grows _ hlt).name] at hsource
    obtain ⟨hloads, m, hm, hrivals⟩ := hj.skipped o ho c hskipped hsource
    rw [hold o hlt]
    exact ⟨hloads, m, hst.loaded hm, (hst.later.rivals (hc.binaries m hm).1 hlt).mpr hrivals⟩
  case skipped.inr =>
    have hlt := hlt o ho
    rw [(hst.grows _ hlt).name] at hsource
    rw [hold o hlt]
    obtain ⟨hconflict, hloads⟩ := hlogs.conflict_of_skipped ho hskipped hsource
    obtain ⟨m, hm, hrivals⟩ := hc.conflict?_isSome.mp (Option.isSome_of_eq_some hconflict)
    exact ⟨hloads, m, hst.loaded hm, (hst.later.rivals (hc.binaries m hm).1 hlt).mpr hrivals⟩

end Agenda

namespace Plan

variable {p : Plan} {config : Config} {overrides : Option Overrides} {a : Agenda}
  {report : SessionReport} {n : ModuleId}

theorem Reaches.unmarked (h : p.Reaches config overrides a) :
    Agenda.Unmarked (p.environment config overrides) a.session := by
  induction h using Reaches.induction with
  | start =>
      exact fun n _ _ _ => ⟨Registry.available_init _ n, Registry.fromBinary_init _ n⟩
  | step hreach hs ih => exact hreach.coherent.unmarked_step hs ih

theorem Reaches.judged (h : p.Reaches config overrides a) :
    Agenda.Judged p (p.environment config overrides) a.session := by
  induction h using Reaches.induction with
  | start =>
      exact ⟨fun o ho => absurd ho List.not_mem_nil, fun o ho => absurd ho List.not_mem_nil,
        fun o ho => absurd ho List.not_mem_nil⟩
  | step hreach hs ih => exact hreach.coherent.judged_step hs ih

theorem rejected_of_run (hpolicy : config.loadTransitive = false)
    (hrun : p.run config overrides = .ok report)
    (hsource : ∀ src ∈ p.sources, src.coordinates.name ≠ (report.registry.module n).name)
    (hskipped : ∃ o ∈ report.outcomes, o.module = n ∧ ∃ c, o.resolution = some (.skipped c)) :
    (report.registry.module n).available = false ∧ report.registry.isBinaryInput n = false ∧
      (report.registry.module n).fromBinary = false ∧
        ∀ o ∈ report.outcomes, o.module = n → o.Untaken := by
  obtain ⟨t, ht, rfl⟩ := reaches_of_run hrun
  have hc := ht.coherent.session
  have hmarks := Registry.marks_withImplicitImports hc.indexed n
  have hbinary : (p.environment config overrides).isSource (t.registry.module n).name = false := by
    change ∀ src ∈ p.sources, _ ≠ (t.registry.withImplicitImports.module n).name at hsource
    rw [(Registry.grows_withImplicitImports hc.indexed n).name] at hsource
    simpa [environment, Environment.isSource] using hsource
  obtain ⟨o, ho, rfl, c, hresolution⟩ := hskipped
  obtain ⟨hloads, m, hm, hname, hversion⟩ := ht.judged.skipped o ho c hresolution hbinary
  have hout : o.module ∉ t.client.loaded := fun hl =>
    hversion (ht.oneVersion hpolicy m hm o.module hl hname)
  have hunmarked := ht.unmarked o.module hout hbinary hloads.2.1
  refine ⟨hmarks.1.trans hunmarked.1, ?_, hmarks.2.trans hunmarked.2, fun o' ho' hmodule => ?_⟩
  · rw [← Bool.not_eq_true]
    intro hinput
    change t.registry.withImplicitImports.isBinaryInput o.module = true at hinput
    rw [Registry.isBinaryInput_withImplicitImports] at hinput
    exact hout (hc.isBinaryInput_iff.mp hinput)
  · refine (ht.judged.taken o' ho' ?_).resolve_right fun hl => hout (hmodule ▸ hl)
    exact hmodule ▸ hloads

def secondVersion : Plan where
  sources := [⟨⟨"app", "1"⟩, [⟨"lib", "1", false, false⟩, ⟨"tool", "1", false, false⟩,
    ⟨"lib", "2", false, false⟩]⟩]
  artifacts := [⟨⟨"lib", "1"⟩, some ⟨3, 2⟩, []⟩, ⟨⟨"lib", "2"⟩, some ⟨3, 2⟩, []⟩,
    ⟨⟨"tool", "1"⟩, some ⟨3, 2⟩, [⟨⟨"lib", "2"⟩, .normal⟩]⟩]

theorem rejected_of_run_secondVersion :
    ∃ report, secondVersion.run .default none = .ok report ∧
      (∀ src ∈ secondVersion.sources, src.coordinates.name ≠ (report.registry.module 5).name) ∧
      (∃ o ∈ report.outcomes, o.module = 5 ∧ ∃ c, o.resolution = some (.skipped c)) ∧
      (report.registry.module 5).available = false ∧ report.registry.isBinaryInput 5 = false ∧
      (report.registry.module 5).fromBinary = false ∧
      ∀ o ∈ report.outcomes, o.module = 5 → o.Untaken := by
  obtain ⟨report, hrun, hskipped⟩ : ∃ report, secondVersion.run .default none = .ok report ∧
      ((report.registry.module 5).name == "lib" && report.outcomes.any fun o =>
        o.module == 5 && o.resolution ==
          some (.skipped (.sameName 3 "lib" "1" "2"))) = true := exists_report (by decide +kernel)
  simp only [Bool.and_eq_true, beq_iff_eq, List.any_eq_true] at hskipped
  obtain ⟨hname, o, ho, hmodule, hresolution⟩ := hskipped
  have hsource : ∀ src ∈ secondVersion.sources,
      src.coordinates.name ≠ (report.registry.module 5).name := by
    rw [hname]
    decide +kernel
  have hlogged : ∃ o ∈ report.outcomes, o.module = 5 ∧ ∃ c, o.resolution = some (.skipped c) :=
    ⟨o, ho, hmodule, _, hresolution⟩
  exact ⟨report, hrun, hsource, hlogged, rejected_of_run rfl hrun hsource hlogged⟩

end Plan

end ModuleResolution
