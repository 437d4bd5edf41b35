import ModuleResolution.Proofs.Graph
import ModuleResolution.Proofs.Rejected
import ModuleResolution.Proofs.Reload

namespace ModuleResolution

namespace Engine

variable {env : Environment} {e f g : Engine} {a : Artifact} {id : ModuleId} {i : Import}
  {trail : Trail} {l l' : Loaded}

theorem clear_load (hr : e.registry.Indexed) (hm : e.registry.MarksAgree)
    (hid : id < e.registry.size) (hload : e.load env a id i trail = (f, l))
    (hclear : e.registry.conflict? id = none) : f.registry.conflict? id = none := by
  have hev := evolves_load hid hload
  have hinput (m : ModuleId) (h : f.registry.isBinaryInput m = true) :
      e.registry.isBinaryInput m = true ∨ m = id := by
    rw [Registry.isBinaryInput, binaryInputs_load hload] at h
    rw [← Registry.isBinaryInput, Registry.isBinaryInput_addBinaryInput] at h
    rw [Bool.or_eq_true, beq_iff_eq] at h
    exact h.imp_right Eq.symm
  rw [← Option.not_isSome_iff_eq_none] at hclear ⊢
  rw [Registry.conflict?_isSome hr fun m => hm.lt_size] at hclear
  rw [Registry.conflict?_isSome (hev.indexed hr)]
  · rintro ⟨m, hm', hrivals⟩
    -- the one new input is the module itself, which has but one version
    rcases hinput m hm' with hm' | rfl
    · exact hclear ⟨m, hm', (hev.later.rivals (hm.lt_size hm') hid).mp hrivals⟩
    · exact Registry.not_rivals_self _ m hrivals
  · intro m hm'
    rcases hinput m hm' with hm' | rfl
    · exact hev.lt_size (hm.lt_size hm')
    · exact hev.lt_size hid

structure Replays (env : Environment) (req : Request) (resolution : Resolution)
    (r s : Registry) : Prop where
  eq_iff : s = r ↔ ¬ (resolution = .compiled ∧ env.Shifts req.artifact r req.module)
  rest : s = r.modify req.module (·.setImports (s.module req.module).imports)
  targets : (s.module req.module).imports.map (·.target) =
    (r.module req.module).imports.map (·.target)

theorem Replays.of_eq {req : Request} {resolution : Resolution} {r s : Registry}
    (h : resolution ≠ .compiled) (heq : s = r) : Replays env req resolution r s where
  eq_iff := iff_of_true heq fun hcompiled => h hcompiled.1
  rest := by rw [heq, Registry.modify_eq_self rfl]
  targets := by rw [heq]

theorem kind_load (hid : id < e.registry.size) (hload : e.load env a id i trail = (f, l)) :
    env.kindOf (e.registry.module id) a = l := by
  rw [← load_snd env a i trail hid, hload]

theorem replays_load {req : Request} (hr : e.registry.Indexed)
    (hid : req.module < e.registry.size)
    (hload : e.load env req.artifact req.module req.edge req.trail = (f, l))
    (hagain : f.load env req.artifact req.module req.edge req.trail = (g, l')) :
    Replays env req (.ofLoaded l) f.registry g.registry where
  eq_iff := by
    rw [load_again_eq_iff hr hid hload hagain]
    refine not_congr ⟨fun hshifts => ⟨?_, hshifts⟩, And.right⟩
    have hformat := (holds_load hid hload).isSome_format hshifts.1
    rw [← kind_load hid hload, Environment.kindOf, hformat, Bool.or_true]
    rfl
  rest := registry_load_again hr hid hload hagain
  targets := targets_load_again hr hid hload hagain

theorem step_again {req : Request} {resolution : Resolution} (hr : e.registry.Indexed)
    (hm : e.registry.MarksAgree) (hid : req.module < e.registry.size)
    (h : e.step env req = .done f resolution) :
    ∃ g, f.step env req = .done g resolution ∧
      Replays env req resolution f.registry g.registry ∧
        ((e.registry.module req.module).imports = [] → g.registry = f.registry) := by
  have hdecides := decides_step env e req
  rw [h] at hdecides
  cases hdecides with
  | supplied hsource hsupplied =>
      have hgrows (m : Module) : m.Grows (env.platform.setUp m) :=
        Module.grows_setUp env.platform m
      have hself := Registry.module_modify_self (f := env.platform.setUp) hid
      have hsame : ((e.modifyModule req.module env.platform.setUp).modifyModule req.module
          env.platform.setUp).registry = (e.modifyModule req.module env.platform.setUp).registry :=
        Registry.modify_eq_self (by rw [modifyModule, hself, Platform.setUp_setUp])
      refine ⟨_, (Decides.supplied ?_ ?_).step_eq, .of_eq (by simp) hsame, fun _ => hsame⟩
      · rwa [modifyModule, hself, (hgrows _).name]
      · rwa [modifyModule, hself, (hgrows _).coordinates]
  | @skipped c hchecked hconflict =>
      have hagain : Decides env (e.reportConflict c req.trail) req _ :=
        .skipped hchecked hconflict
      exact ⟨_, hagain.step_eq, .of_eq (by simp) rfl, fun _ => rfl⟩
  | deferred hsource hsupplied hpath hanyway =>
      exact ⟨_, (Decides.deferred hsource hsupplied hpath hanyway).step_eq, .of_eq (by simp) rfl,
        fun _ => rfl⟩
  | load hsource hsupplied hclear hneeded =>
      rcases hload : e.load env req.artifact req.module req.edge req.trail with ⟨f, l⟩
      rcases hagain : f.load env req.artifact req.module req.edge req.trail with ⟨g, l'⟩
      have hev := evolves_load hid hload
      have hgrows := hev.grows hid
      have hkind : l' = l := by
        rw [← kind_load hid hload, ← kind_load (hev.lt_size hid) hagain, Environment.kindOf,
          Environment.kindOf, hgrows.isDefault]
      have hdecides : Decides env f req _ := .load (by rwa [hgrows.name])
        (by rwa [hgrows.coordinates]) (fun h => clear_load hr hm hid hload (hclear h)) hneeded
      rw [hagain, hkind] at hdecides
      exact ⟨g, hdecides.step_eq, replays_load hr hid hload hagain,
        load_again_of_nil hr hid hload hagain⟩

end Engine

namespace ResolveM

open Usage

variable {ω : Type} {env : Environment} {source : SourceResolver ω} {req : Request}
  {s t : Session ω} {resolution : Resolution} {c : Coordinates}

/--
The same edge resolved twice in a row, by whoever has the engine in hand: the resolution is the
same, and so is the registry, unless a dependency shifts. Even then only the marks on the edges of
the module differ. None shifts where the module had no edges before it was loaded.
-/
theorem resolve_again (hreach : proper.Reaches env (.start c) s.engine)
    (hknown : req.module < s.engine.registry.size)
    (hresolve : resolve env source req s = (.ok resolution, t))
    (hbinary : resolution ≠ .fromSource) :
    ∃ u, resolve env source req t = (.ok resolution, u) ∧
      Engine.Replays env req resolution t.engine.registry u.engine.registry ∧
        ((s.engine.registry.module req.module).imports = [] →
          u.engine.registry = t.engine.registry) := by
  rw [resolve_apply] at hresolve
  cases hstep : s.engine.step env req with
  | done f result =>
      rw [hstep] at hresolve
      obtain ⟨hresult, rfl⟩ := Prod.mk.inj hresolve
      obtain rfl : result = resolution := Except.ok.inj hresult
      obtain ⟨g, hagain, hreplays⟩ :=
        Engine.step_again hreach.indexed hreach.marksAgree hknown hstep
      have hagain : (s.onEngine fun _ => f).engine.step env req = .done g result := hagain
      refine ⟨s.onEngine fun _ => g, ?_, hreplays⟩
      rw [resolve_apply, hagain]
      rfl
  | cycle chain =>
      rw [hstep] at hresolve
      cases hresolve
  | delegate =>
      rw [hstep] at hresolve
      obtain ⟨hresult, -⟩ := Prod.mk.inj hresolve
      change (source req (s.onEngine (·.enter req.module))).1.map _ = .ok resolution at hresult
      cases hsource : (source req (s.onEngine (·.enter req.module))).1 with
      | ok =>
          rw [hsource] at hresult
          exact absurd (Except.ok.inj hresult).symm hbinary
      | error =>
          rw [hsource] at hresult
          cases hresult

theorem resolve_again_repetitiveArtifact :
    repetitiveCall.1 = .ok .compiled ∧
      ∃ u, resolve pinnedEnvironment (fun _ => Script.done.run pinnedEnvironment)
          (.needed repetitiveArtifact 2) repetitiveCall.2 = (.ok .compiled, u) ∧
        u.engine.registry = repetitiveCall.2.engine.registry := by
  have hmove : proper.Moves pinnedEnvironment ⟨Engine.start Config.default.foundational, []⟩
      ⟨(Operation.ensure ⟨"m", "1"⟩).apply pinnedEnvironment _, []⟩ := .acted trivial
  have hreach : proper.Reaches pinnedEnvironment (.start Config.default.foundational)
      pinnedEngine := ⟨[], .single hmove⟩
  have hsize : 2 < pinnedEngine.registry.size := by decide +kernel
  have hcompiled : repetitiveCall.1 = .ok .compiled := by decide +kernel
  have hnil : (pinnedEngine.registry.module 2).imports = [] := by decide +kernel
  obtain ⟨u, hagain, -, hsame⟩ := resolve_again (s := ⟨pinnedEngine, ()⟩) hreach hsize
    (Prod.ext hcompiled rfl : repetitiveCall = (.ok .compiled, repetitiveCall.2)) (by simp)
  exact ⟨hcompiled, u, hagain, hsame hnil⟩

def shiftingEnvironment : Environment :=
  ⟨.default, Config.default.platform, [(⟨"m", "1"⟩, ⟨3, 2⟩)],
    some ⟨[⟨"m", some "1", none, [], []⟩], .ofList [("n", "2")]⟩, []⟩

def declareOptional : Script Unit :=
  .act (.ensure ⟨"m", "1"⟩) <| .act (.ensure ⟨"n", "1"⟩) <|
    .act (.declareImport 2 ⟨3, true, false, none⟩) .done

def optionalSession : Session Unit :=
  (declareOptional.run shiftingEnvironment ⟨.start Config.default.foundational, ()⟩).2

def shiftingCall (s : Session Unit) : Except ResolveError Resolution × Session Unit :=
  resolve shiftingEnvironment (fun _ => pure ())
    (.needed ⟨⟨"m", "1"⟩, [⟨⟨"n", "1"⟩, .normal⟩]⟩ 2) s

theorem registry_shifts_optionalSession :
    let first := shiftingCall optionalSession
    let second := shiftingCall first.2
    proper.Reaches shiftingEnvironment (.start Config.default.foundational)
        optionalSession.engine ∧
      first.1 = .ok .compiled ∧ second.1 = .ok .compiled ∧
        (first.2.engine.registry.module 2).imports = [⟨4, true, false, none⟩] ∧
          (second.2.engine.registry.module 2).imports = [⟨4, false, false, none⟩] ∧
            second.2.engine.registry ≠ first.2.engine.registry := by
  have hkeeps : declareOptional.KeepsTo proper shiftingEnvironment
      ⟨.start Config.default.foundational, ()⟩ :=
    ⟨trivial, trivial, ⟨by decide +kernel, by decide +kernel⟩, trivial⟩
  exact ⟨⟨[], Script.leads_run hkeeps⟩, by decide +kernel, by decide +kernel, by decide +kernel,
    by decide +kernel, by decide +kernel⟩

end ResolveM

end ModuleResolution
