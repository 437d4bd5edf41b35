import Mathlib.Data.List.Nodup
import ModuleResolution.Proofs.Calls

namespace ModuleResolution

namespace Engine

variable {env : Environment} {e f : Engine} {req : Request} {resolution : Resolution}
  {id : ModuleId} {outer inner : List ModuleId}

theorem inProgress_step (h : e.step env req = .done f resolution) :
    f.inProgress = e.inProgress := by
  have hdecides := decides_step env e req
  rw [h] at hdecides
  cases hdecides with
  | supplied | skipped | deferred => rfl
  | load => exact inProgress_load rfl

theorem not_mem_of_step (h : e.step env req = .delegate) : req.module ∉ e.inProgress := by
  have hdecides := decides_step env e req
  rw [h] at hdecides
  cases hdecides with
  | delegate hsource hclear hidle => exact hidle

theorem cycleThrough_eq (hstack : e.inProgress = outer ++ id :: inner) (houter : id ∉ outer) :
    e.cycleThrough id = (id :: inner ++ [id]).map fun m => (e.registry.module m).coordinates := by
  have hdrop : (outer ++ id :: inner).dropWhile (· != id) = id :: inner := by
    have hskip : ∀ m ∈ outer, (m != id) = true := fun m hm =>
      bne_iff_ne.mpr (ne_of_mem_of_not_mem hm houter)
    rw [List.dropWhile_append_of_pos hskip, List.dropWhile_cons_of_neg (by simp)]
  rw [cycleThrough, hstack, hdrop]

end Engine

namespace Usage

variable {u : Usage} {env : Environment} {a b : Moment} {e f : Engine} {base : List ModuleId}

theorem Moves.inProgress (h : u.Moves env a b)
    (ha : a.engine.inProgress = base ++ a.waiting.reverse) :
    b.engine.inProgress = base ++ b.waiting.reverse := by
  cases h with
  | acted => exact (Operation.inProgress_apply ..).trans ha
  | answered hasks hstep => exact (Engine.inProgress_step hstep).trans ha
  | @delegated e ids req hasks hstep =>
      change e.inProgress ++ [req.module] = base ++ (req.module :: ids).reverse
      rw [show e.inProgress = base ++ ids.reverse from ha, List.reverse_cons, List.append_assoc]
  | @returned e id ids =>
      change e.inProgress.dropLast = base ++ ids.reverse
      rw [show e.inProgress = base ++ (id :: ids).reverse from ha, List.reverse_cons,
        ← List.append_assoc, List.dropLast_concat]

theorem Leads.inProgress (h : u.Leads env ⟨e, []⟩ b) :
    b.engine.inProgress = e.inProgress ++ b.waiting.reverse := by
  induction h with
  | refl => exact (List.append_nil _).symm
  | tail _ hm ih => exact hm.inProgress ih

theorem Moves.nodup (h : u.Moves env a b) (ha : a.engine.inProgress.Nodup) :
    b.engine.inProgress.Nodup := by
  cases h with
  | acted => exact (Operation.inProgress_apply ..).symm ▸ ha
  | answered hasks hstep => exact (Engine.inProgress_step hstep).symm ▸ ha
  | @delegated e ids req hasks hstep =>
      have hnew : req.module ∉ e.inProgress := Engine.not_mem_of_step hstep
      change (e.inProgress ++ [req.module]).Nodup
      rw [← List.concat_eq_append]
      exact (List.nodup_concat _ _).mpr ⟨hnew, ha⟩
  | returned => exact ha.sublist (List.dropLast_sublist _)

theorem Reaches.nodup (h : u.Reaches env e f) (he : e.inProgress.Nodup) : f.inProgress.Nodup :=
  h.induction (P := fun e => e.inProgress.Nodup) he fun hm => hm.nodup

end Usage

namespace ResolveM

variable {ω : Type} {env : Environment} {req : Request} {s : Session ω}
  {chain : List Coordinates}

theorem resolve_of_delegate (source : SourceResolver ω)
    (h : s.engine.step env req = .delegate) :
    (resolve env source req s).1 =
      (source req (s.onEngine (·.enter req.module))).1.map fun _ => .fromSource := by
  rw [resolve_apply, h]
  rfl

theorem refused_iff (hsource : env.isSource (s.engine.registry.module req.module).name = true)
    (hclear : s.engine.registry.conflict? req.module = none) :
    (∀ source : SourceResolver ω, resolve env source req s = (.error (.cycle chain), s)) ↔
      ∃ outer inner, s.engine.inProgress = outer ++ req.module :: inner ∧ req.module ∉ outer ∧
        chain = (req.module :: inner ++ [req.module]).map fun m =>
          (s.engine.registry.module m).coordinates := by
  have hdecides := Engine.decides_step env s.engine req
  generalize hstep : s.engine.step env req = decided at hdecides
  cases hdecides with
  | cycle _ _ hbusy =>
      have hrefused (source : SourceResolver ω) :
          resolve env source req s = (.error (.cycle (s.engine.cycleThrough req.module)), s) := by
        rw [resolve_apply, hstep]
      constructor
      · intro h
        obtain ⟨outer, inner, hstack, houter⟩ := List.eq_append_cons_of_mem hbusy
        have hchain := (hrefused fun _ => pure ()).symm.trans (h fun _ => pure ())
        cases hchain
        exact ⟨outer, inner, hstack, houter, Engine.cycleThrough_eq hstack houter⟩
      · rintro ⟨outer, inner, hstack, houter, rfl⟩ source
        rw [hrefused, Engine.cycleThrough_eq hstack houter]
  | delegate _ _ hidle =>
      refine iff_of_false (fun h => ?_) ?_
      · have hok := congrArg Prod.fst (h fun _ => pure ())
        rw [resolve_of_delegate _ hstep] at hok
        cases hok
      · rintro ⟨outer, inner, hstack, -, -⟩
        exact hidle (hstack ▸ List.mem_append_right _ List.mem_cons_self)
  | skipped _ hconflict => cases hclear.symm.trans hconflict
  | supplied hbinary | load hbinary | deferred hbinary => cases hsource.symm.trans hbinary

theorem balanced_of_resolve (env : Environment) (source : Request → Script ω) (req : Request)
    (s : Session ω) :
    let call := resolve env (fun req => (source req).run env) req s
    call.2.engine.inProgress = s.engine.inProgress ∧
      (∀ c e, Usage.any.Reaches env (.start c) e → e.inProgress.Nodup) ∧
      (env.isSource (s.engine.registry.module req.module).name = true →
        s.engine.registry.conflict? req.module = none → ∀ chain,
          (∀ source : SourceResolver ω, resolve env source req s = (.error (.cycle chain), s)) ↔
            ∃ outer inner, s.engine.inProgress = outer ++ req.module :: inner ∧
              req.module ∉ outer ∧ chain = (req.module :: inner ++ [req.module]).map fun m =>
                (s.engine.registry.module m).coordinates) ∧
      (s.engine.inProgress = [] → call.2.engine.inProgress = [] ∧
        (env.isSource (call.2.engine.registry.module req.module).name = true →
          call.2.engine.registry.conflict? req.module = none → ∀ source : SourceResolver ω,
            (resolve env source req call.2).1 =
              (source req (call.2.onEngine (·.enter req.module))).1.map fun _ => .fromSource)) := by
  intro call
  have hleads : Usage.any.Leads env ⟨s.engine, []⟩ ⟨call.2.engine, []⟩ :=
    Usage.Permits.leads ⟨trivial, fun _ => Script.keepsTo_any env _ _⟩
  have hbalanced : call.2.engine.inProgress = s.engine.inProgress := by
    simpa using hleads.inProgress
  refine ⟨hbalanced, fun c e he => he.nodup List.nodup_nil,
    fun hsource hclear chain => refused_iff hsource hclear, fun hidle => ?_⟩
  have hempty : call.2.engine.inProgress = [] := hbalanced.trans hidle
  refine ⟨hempty, fun hsource hclear again => ?_⟩
  exact resolve_of_delegate again
    (Engine.Decides.delegate hsource hclear (by simp [hempty])).step_eq

def pairEnvironment : Environment :=
  ⟨.default, Config.default.platform, [], none, ["a", "b"]⟩

def pairSession : Session Unit :=
  ⟨((Engine.start Config.default.foundational).ensure pairEnvironment ⟨"a", "1"⟩).1, ()⟩

def passOn : Except ResolveError Resolution → Script Unit
  | .ok _ => .done
  | .error error => .fail error

def thereAndBack : Script Unit :=
  .act (.ensure ⟨"b", "1"⟩) <| .resolve (.needed (.bare ⟨"b", "1"⟩) 3)
    (.resolve (.needed (.bare ⟨"a", "1"⟩) 2) .done passOn) passOn

def thereAndBackCall : Except ResolveError Resolution × Session Unit :=
  resolve pairEnvironment (fun _ => thereAndBack.run pairEnvironment) (.needed (.bare ⟨"a", "1"⟩) 2)
    pairSession

theorem balanced_of_resolve_thereAndBack :
    thereAndBackCall.1 = .error (.cycle [⟨"a", "1"⟩, ⟨"b", "1"⟩, ⟨"a", "1"⟩]) ∧
      thereAndBackCall.2.engine.inProgress = [] ∧
        (resolve pairEnvironment (fun _ => pure ()) (.needed (.bare ⟨"a", "1"⟩) 2)
          thereAndBackCall.2).1 = .ok .fromSource := by
  have hidle : pairSession.engine.inProgress = [] := by decide +kernel
  obtain ⟨hempty, hagain⟩ := (balanced_of_resolve pairEnvironment (fun _ => thereAndBack)
    (.needed (.bare ⟨"a", "1"⟩) 2) pairSession).2.2.2 hidle
  have hsource : pairEnvironment.isSource
      (thereAndBackCall.2.engine.registry.module 2).name = true := by decide +kernel
  have hclear : thereAndBackCall.2.engine.registry.conflict? 2 = none := by decide +kernel
  exact ⟨by decide +kernel, hempty, hagain hsource hclear fun _ => pure ()⟩

end ResolveM

end ModuleResolution
