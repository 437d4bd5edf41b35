import ModuleResolution.Engine.Resolve

namespace ModuleResolution

theorem Resolution.isLoaded_ofLoaded (l : Loaded) : (ofLoaded l).isLoaded = true := by
  cases l <;> rfl

namespace Engine

variable {env : Environment} {e : Engine} {req : Request}

inductive Decides (env : Environment) (e : Engine) (req : Request) : Step → Prop
  | supplied
      (hsource : env.isSource (e.registry.module req.module).name = false)
      (hsupplied : env.platform.supplies (e.registry.module req.module).coordinates = true) :
      Decides env e req (.done (e.modifyModule req.module env.platform.setUp) .platform)
  | skipped {c : Conflict}
      (hchecked : env.isSource (e.registry.module req.module).name = true ∨
        env.platform.supplies (e.registry.module req.module).coordinates = false ∧
          req.onBuildPath = true)
      (hconflict : e.registry.conflict? req.module = some c) :
      Decides env e req (.done (e.reportConflict c req.trail) (.skipped c))
  | cycle
      (hsource : env.isSource (e.registry.module req.module).name = true)
      (hclear : e.registry.conflict? req.module = none)
      (hbusy : req.module ∈ e.inProgress) :
      Decides env e req (.cycle (e.cycleThrough req.module))
  | delegate
      (hsource : env.isSource (e.registry.module req.module).name = true)
      (hclear : e.registry.conflict? req.module = none)
      (hidle : req.module ∉ e.inProgress) :
      Decides env e req .delegate
  | load
      (hsource : env.isSource (e.registry.module req.module).name = false)
      (hsupplied : env.platform.supplies (e.registry.module req.module).coordinates = false)
      (hclear : req.onBuildPath = true → e.registry.conflict? req.module = none)
      (hneeded : req.onBuildPath = true ∨ loadsAnyway env req.module = true) :
      Decides env e req
        (.done (e.load env req.artifact req.module req.edge req.trail).1
          (.ofLoaded (e.load env req.artifact req.module req.edge req.trail).2))
  | deferred
      (hsource : env.isSource (e.registry.module req.module).name = false)
      (hsupplied : env.platform.supplies (e.registry.module req.module).coordinates = false)
      (hpath : req.onBuildPath = false)
      (hanyway : loadsAnyway env req.module = false) :
      Decides env e req (.done e .deferred)

theorem Decides.step_eq {decided : Step} (h : Decides env e req decided) :
    e.step env req = decided := by
  cases h with
  | supplied hsource hsupplied => simp [step, hsource, hsupplied]
  | skipped hchecked hconflict =>
      rcases hchecked with hsource | ⟨hsupplied, hpath⟩
      · simp [step, hsource, hconflict]
      · simp [step, hsupplied, hpath, hconflict]
  | cycle hsource hclear hbusy => simp [step, hsource, hclear, hbusy]
  | delegate hsource hclear hidle => simp [step, hsource, hclear, hidle]
  | load hsource hsupplied hclear hneeded =>
      have hcheck : (if req.onBuildPath then e.registry.conflict? req.module else none) = none := by
        split
        · exact hclear (by assumption)
        · rfl
      simp [step, hsource, hsupplied, hcheck, hneeded]
  | deferred hsource hsupplied hpath hanyway =>
      simp [step, hsource, hsupplied, hpath, hanyway]

theorem exists_decides_of_binary
    (hsource : env.isSource (e.registry.module req.module).name = false)
    (hsupplied : env.platform.supplies (e.registry.module req.module).coordinates = false) :
    ∃ decided, Decides env e req decided := by
  cases hpath : req.onBuildPath with
  | true =>
      cases hconflict : e.registry.conflict? req.module with
      | some c => exact ⟨_, .skipped (.inr ⟨hsupplied, hpath⟩) hconflict⟩
      | none => exact ⟨_, .load hsource hsupplied (fun _ => hconflict) (.inl hpath)⟩
  | false =>
      cases hanyway : loadsAnyway env req.module with
      | true =>
          have hclear (h : req.onBuildPath = true) : e.registry.conflict? req.module = none :=
            absurd (hpath.symm.trans h) Bool.false_ne_true
          exact ⟨_, .load hsource hsupplied hclear (.inr hanyway)⟩
      | false => exact ⟨_, .deferred hsource hsupplied hpath hanyway⟩

theorem exists_decides (env : Environment) (e : Engine) (req : Request) :
    ∃ decided, Decides env e req decided := by
  cases hsource : env.isSource (e.registry.module req.module).name with
  | true =>
      cases hconflict : e.registry.conflict? req.module with
      | some c => exact ⟨_, .skipped (.inl hsource) hconflict⟩
      | none =>
          by_cases hbusy : req.module ∈ e.inProgress
          · exact ⟨_, .cycle hsource hconflict hbusy⟩
          · exact ⟨_, .delegate hsource hconflict hbusy⟩
  | false =>
      cases hsupplied : env.platform.supplies (e.registry.module req.module).coordinates with
      | true => exact ⟨_, .supplied hsource hsupplied⟩
      | false => exact exists_decides_of_binary hsource hsupplied

theorem decides_step (env : Environment) (e : Engine) (req : Request) :
    Decides env e req (e.step env req) := by
  obtain ⟨decided, h⟩ := exists_decides env e req
  rwa [h.step_eq]

end Engine

end ModuleResolution
