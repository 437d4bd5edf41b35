import ModuleResolution.Proofs.Resolve

namespace ModuleResolution

namespace Engine

variable {env : Environment} {e f : Engine} {req : Request} {c : Conflict}

def Checks (env : Environment) (e : Engine) (req : Request) : Prop :=
  env.isSource (e.registry.module req.module).name = true ∨
    env.platform.supplies (e.registry.module req.module).coordinates = false ∧
      req.onBuildPath = true

def Defers (env : Environment) (e : Engine) (req : Request) : Prop :=
  env.isSource (e.registry.module req.module).name = false ∧
    env.platform.supplies (e.registry.module req.module).coordinates = false ∧
      req.onBuildPath = false ∧ loadsAnyway env req.module = false

theorem step_eq_skipped_iff : e.step env req = .done f (.skipped c) ↔
    Checks env e req ∧ e.registry.conflict? req.module = some c ∧
      f = e.reportConflict c req.trail := by
  constructor
  · intro h
    have hdecides := decides_step env e req
    generalize e.step env req = decided at h hdecides
    cases hdecides with
    | skipped hchecked hconflict =>
        cases h
        exact ⟨hchecked, hconflict, rfl⟩
    | load =>
        have hloaded := congrArg Resolution.isLoaded (Step.done.inj h).2
        rw [Resolution.isLoaded_ofLoaded] at hloaded
        cases hloaded
    | supplied | cycle | delegate | deferred => cases h
  · rintro ⟨hchecked, hconflict, rfl⟩
    exact (Decides.skipped hchecked hconflict).step_eq

theorem step_eq_deferred_iff : e.step env req = .done f .deferred ↔ Defers env e req ∧ f = e := by
  constructor
  · intro h
    have hdecides := decides_step env e req
    generalize e.step env req = decided at h hdecides
    cases hdecides with
    | deferred hsource hsupplied hpath hanyway =>
        cases h
        exact ⟨⟨hsource, hsupplied, hpath, hanyway⟩, rfl⟩
    | load =>
        have hloaded := congrArg Resolution.isLoaded (Step.done.inj h).2
        rw [Resolution.isLoaded_ofLoaded] at hloaded
        cases hloaded
    | supplied | skipped | cycle | delegate => cases h
  · rintro ⟨⟨hsource, hsupplied, hpath, hanyway⟩, rfl⟩
    exact (Decides.deferred hsource hsupplied hpath hanyway).step_eq

end Engine

namespace ResolveM

variable {ω : Type} {env : Environment} {source : SourceResolver ω} {req : Request}
  {s : Session ω} {f : Engine} {resolution : Resolution} {c : Conflict}

theorem resolve_of_done (source : SourceResolver ω)
    (h : s.engine.step env req = .done f resolution) :
    resolve env source req s = (.ok resolution, s.onEngine fun _ => f) := by
  rw [resolve_apply, h]

theorem exists_done_of_resolve (h : (resolve env source req s).1 = .ok resolution)
    (hbinary : resolution ≠ .fromSource) : ∃ f, s.engine.step env req = .done f resolution := by
  rw [resolve_apply] at h
  cases hstep : s.engine.step env req with
  | done f result =>
      rw [hstep] at h
      obtain rfl := Except.ok.inj h
      exact ⟨f, rfl⟩
  | cycle chain =>
      rw [hstep] at h
      cases h
  | delegate =>
      rw [hstep] at h
      change (delegate source req s).1.map _ = _ at h
      cases hresult : (delegate source req s).1 with
      | error error =>
          rw [hresult] at h
          cases h
      | ok =>
          rw [hresult] at h
          exact absurd (Except.ok.inj h).symm hbinary

theorem resolve_of_checks (source : SourceResolver ω) (hchecks : Engine.Checks env s.engine req)
    (hconflict : s.engine.registry.conflict? req.module = some c) :
    resolve env source req s =
      (.ok (.skipped c), s.onEngine (·.reportConflict c req.trail)) :=
  resolve_of_done source (Engine.step_eq_skipped_iff.mpr ⟨hchecks, hconflict, rfl⟩)

theorem resolve_skipped_iff : (resolve env source req s).1 = .ok (.skipped c) ↔
    Engine.Checks env s.engine req ∧ s.engine.registry.conflict? req.module = some c := by
  constructor
  · intro h
    obtain ⟨f, hstep⟩ := exists_done_of_resolve h Resolution.noConfusion
    obtain ⟨hchecks, hconflict, -⟩ := Engine.step_eq_skipped_iff.mp hstep
    exact ⟨hchecks, hconflict⟩
  · rintro ⟨hchecks, hconflict⟩
    rw [resolve_of_checks source hchecks hconflict]

theorem resolve_of_defers (source : SourceResolver ω) (hdefers : Engine.Defers env s.engine req) :
    resolve env source req s = (.ok .deferred, s) :=
  resolve_of_done source (Engine.step_eq_deferred_iff.mpr ⟨hdefers, rfl⟩)

theorem resolve_deferred_iff :
    (resolve env source req s).1 = .ok .deferred ↔ Engine.Defers env s.engine req := by
  constructor
  · intro h
    obtain ⟨f, hstep⟩ := exists_done_of_resolve h Resolution.noConfusion
    exact (Engine.step_eq_deferred_iff.mp hstep).1
  · intro hdefers
    rw [resolve_of_defers source hdefers]

theorem resolve_of_inProgress (source : SourceResolver ω)
    (hsource : env.isSource (s.engine.registry.module req.module).name = true)
    (hclear : s.engine.registry.conflict? req.module = none)
    (hbusy : req.module ∈ s.engine.inProgress) :
    resolve env source req s = (.error (.cycle (s.engine.cycleThrough req.module)), s) := by
  rw [resolve_apply, (Engine.Decides.cycle hsource hclear hbusy).step_eq]

theorem untaken_of_resolve (env : Environment) (source : SourceResolver ω) (req : Request)
    (s : Session ω) :
    let call := resolve env source req s
    (∀ c, call.1 = .ok (.skipped c) ↔ Engine.Checks env s.engine req ∧
      s.engine.registry.conflict? req.module = some c) ∧
    (∀ c, call.1 = .ok (.skipped c) →
      call.2.engine.registry = s.engine.registry ∧
      call.2.engine.inProgress = s.engine.inProgress ∧
      call.2.engine.diagnostics = s.engine.diagnostics ++
        [⟨if c.isFatal then .error else .warning .similarModule, .module req.trail.root,
          c.issue⟩] ∧
      call.2.client = s.client) ∧
    (call.1 = .ok .deferred ↔ Engine.Defers env s.engine req) ∧
    (call.1 = .ok .deferred → call.2 = s) ∧
    (env.isSource (s.engine.registry.module req.module).name = true →
      s.engine.registry.conflict? req.module = none → req.module ∈ s.engine.inProgress →
        call = (.error (.cycle (s.engine.cycleThrough req.module)), s)) := by
  intro call
  refine ⟨fun c => resolve_skipped_iff, fun c h => ?_, resolve_deferred_iff, fun h => ?_,
    resolve_of_inProgress source⟩
  · obtain ⟨hchecks, hconflict⟩ := resolve_skipped_iff.mp h
    have hcall : call = _ := resolve_of_checks source hchecks hconflict
    rw [hcall]
    exact ⟨rfl, rfl, rfl, rfl⟩
  · exact congrArg Prod.snd (resolve_of_defers source (resolve_deferred_iff.mp h))

def soleSourceEnvironment : Environment :=
  ⟨.default, Config.default.platform, [], none, ["app"]⟩

def midwayModules : List Coordinates :=
  [⟨"app", "1"⟩, ⟨"lib", "1"⟩, ⟨"lib", "2"⟩, ⟨"tool", "1"⟩]

def midwayRegistry : Registry :=
  (midwayModules.foldl (fun r c => (r.ensure soleSourceEnvironment.platform c).1)
    (Registry.init Config.default.foundational)).addBinaryInput 3 (.bare ⟨"lib", "1"⟩)

def midway : Session Unit :=
  ⟨⟨midwayRegistry, [2], []⟩, ()⟩

def fromApp (c : Coordinates) (id : ModuleId) (onBuildPath : Bool) : Request :=
  ⟨.bare c, id, ⟨id, false, false, none⟩, .start 2, onBuildPath⟩

def midwayCall (req : Request) : Except ResolveError Resolution × Session Unit :=
  resolve soleSourceEnvironment (fun _ => pure ()) req midway

theorem untaken_of_resolve_midway :
    let call := midwayCall (fromApp ⟨"lib", "2"⟩ 4 true)
    call.1 = .ok (.skipped (.sameName 3 "lib" "1" "2")) ∧
      call.2.engine.registry = midwayRegistry ∧ call.2.engine.inProgress = [2] ∧
      call.2.engine.diagnostics = [⟨.error, .module 2, .versionConflict "lib" "1" "2"⟩] ∧
      midwayCall (fromApp ⟨"tool", "1"⟩ 5 false) = (.ok .deferred, midway) ∧
      midwayCall (fromApp ⟨"app", "1"⟩ 2 true) =
        (.error (.cycle [⟨"app", "1"⟩, ⟨"app", "1"⟩]), midway) := by
  intro call
  obtain ⟨hskips, hreported, -, -, -⟩ := untaken_of_resolve soleSourceEnvironment
    (fun _ => pure ()) (fromApp ⟨"lib", "2"⟩ 4 true) midway
  obtain ⟨-, -, hdefers, hsame, -⟩ := untaken_of_resolve soleSourceEnvironment
    (fun _ => pure ()) (fromApp ⟨"tool", "1"⟩ 5 false) midway
  obtain ⟨-, -, -, -, hcycle⟩ := untaken_of_resolve soleSourceEnvironment
    (fun _ => pure ()) (fromApp ⟨"app", "1"⟩ 2 true) midway
  have hconflict : midwayRegistry.conflict? 4 = some (.sameName 3 "lib" "1" "2") := by
    decide +kernel
  have hskipped := (hskips _).mpr ⟨.inr ⟨by decide +kernel, rfl⟩, hconflict⟩
  have hdeferred := hdefers.mpr
    ⟨by decide +kernel, by decide +kernel, rfl, by decide +kernel⟩
  have hsource : soleSourceEnvironment.isSource (midwayRegistry.module 2).name = true := by
    decide +kernel
  have hclear : midwayRegistry.conflict? 2 = none := by decide +kernel
  have hchain : midway.engine.cycleThrough 2 = [⟨"app", "1"⟩, ⟨"app", "1"⟩] := by decide +kernel
  obtain ⟨hregistry, hinProgress, hdiagnostics, -⟩ := hreported _ hskipped
  refine ⟨hskipped, hregistry, hinProgress, hdiagnostics, Prod.ext hdeferred (hsame hdeferred), ?_⟩
  rw [← hchain]
  exact hcycle hsource hclear (by decide)

end ResolveM

end ModuleResolution
