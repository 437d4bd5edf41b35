import ModuleResolution.Proofs.Depth

namespace ModuleResolution

namespace ResolveM

variable {ω α β : Type} {m n : ResolveM ω α}

def Refines (m n : ResolveM ω α) : Prop :=
  ∀ s, (m s).1 = .error .tooDeep ∨ n s = m s

theorem Refines.refl (m : ResolveM ω α) : Refines m m :=
  fun _ => .inr rfl

theorem Refines.bind {f g : α → ResolveM ω β} (h : Refines m n) (hf : ∀ a, Refines (f a) (g a)) :
    Refines (m >>= f) (n >>= g) := by
  intro s
  rw [bind_apply, bind_apply]
  rcases h s with hdeep | hsame
  · left
    rcases hm : m s with ⟨result, t⟩
    rw [hm] at hdeep
    cases hdeep
    rfl
  · rw [hsame]
    rcases m s with ⟨result, t⟩
    cases result with
    | ok a => exact hf a t
    | error e => exact .inr rfl

theorem Refines.ite {c : Prop} [Decidable c] {m' n' : ResolveM ω α} (hm : Refines m m')
    (hn : Refines n n') : Refines (if c then m else n) (if c then m' else n') := by
  split
  · exact hm
  · exact hn

theorem Refines.forM {f g : α → ResolveM ω Unit} (h : ∀ a, Refines (f a) (g a)) (as : List α) :
    Refines (as.forM f) (as.forM g) := by
  induction as with
  | nil => exact .refl _
  | cons a as ih => exact (h a).bind fun _ => ih

theorem Refines.discard (h : Refines m n) :
    Refines (discard m : ResolveM ω Unit) (discard n) := by
  intro s
  rw [discard_apply, discard_apply]
  rcases h s with hdeep | hsame
  · exact .inl (by rw [hdeep]; rfl)
  · exact .inr (by rw [hsame])

theorem Refines.delegate {source source' : SourceResolver ω} {req : Request}
    (h : Refines (source req) (source' req)) :
    Refines (delegate source req) (delegate source' req) := by
  intro s
  rcases h (s.onEngine (·.enter req.module)) with hdeep | hsame
  · exact .inl hdeep
  · exact .inr (by rw [ResolveM.delegate, hsame]; rfl)

theorem Refines.resolve {env : Environment} {source source' : SourceResolver ω} {req : Request}
    (h : Refines (source req) (source' req)) :
    Refines (resolve env source req) (resolve env source' req) := by
  intro s
  rw [resolve_apply, resolve_apply]
  cases s.engine.step env req with
  | done | cycle => exact .inr rfl
  | delegate =>
      rcases h.delegate s with hdeep | hsame
      · left
        rcases hm : ResolveM.delegate source req s with ⟨result, t⟩
        rw [hm] at hdeep
        cases hdeep
        rfl
      · exact .inr (by rw [hsame])

end ResolveM

namespace Walk

def visitorOver (plan : Plan) (env : Environment) (below : Option Visitor) :
    (depth : Nat) → Option Visitor
  | 0 => below
  | depth + 1 => some (visitEdge plan env (visitorOver plan env below depth))

inductive Below : Option Visitor → Option Visitor → Prop
  | nothing {deeper : Option Visitor} : Below none deeper
  | visitor {visit visit' : Visitor} (h : ∀ v, (visit v).Refines (visit' v)) :
      Below (some visit) (some visit')

variable {p : Plan} {env : Environment} {deeper deeper' : Option Visitor}

theorem Below.descend {α : Type} {f g : Visitor → WalkM α} (h : Below deeper deeper')
    (hf : ∀ visit visit', (∀ v, (visit v).Refines (visit' v)) → (f visit).Refines (g visit')) :
    (descend deeper >>= f).Refines (descend deeper' >>= g) := by
  cases h with
  | nothing => exact fun s => .inl rfl
  | visitor h => exact fun s => hf _ _ h s

theorem Below.walkImports (h : Below deeper deeper') (id : ModuleId) (trail : Trail)
    (path : Bool) :
    (walkImports deeper id trail path).Refines (walkImports deeper' id trail path) :=
  h.descend fun _ _ hvisit =>
    (ResolveM.Refines.refl _).bind fun _ => .forM (fun _ => hvisit _) _

theorem Below.conclude (h : Below deeper deeper') (v : Visit) (resolution : Resolution) :
    (conclude deeper v resolution).Refines (conclude deeper' v resolution) := by
  cases resolution with
  | fromSource | skipped | platform | deferred => exact .refl _
  | compiled | nativeArchive =>
      exact (ResolveM.Refines.refl _).bind fun _ => (ResolveM.Refines.refl _).bind fun _ =>
        h.walkImports _ _ _

theorem refines_compileImport {visit visit' : Visitor} (h : ∀ v, (visit v).Refines (visit' v))
    (importer : ModuleId) (trail : Trail) (d : Dependency) :
    (compileImport env visit importer trail d).Refines
      (compileImport env visit' importer trail d) :=
  (ResolveM.Refines.refl _).bind fun _ => (ResolveM.Refines.refl _).bind fun _ =>
    (ResolveM.Refines.refl _).bind fun _ => h _

theorem Below.compileSource (h : Below deeper deeper') (req : Request) :
    (compileSource p env deeper req).Refines (compileSource p env deeper' req) := by
  refine (ResolveM.Refines.refl _).bind fun r => ?_
  dsimp only
  cases p.source? (r.module req.module).coordinates with
  | none => exact .refl _
  | some source =>
      -- whether the entry is logged or not, the walk over the imports follows
      refine .ite ?_ ((ResolveM.Refines.refl _).bind fun _ => ?_)
      all_goals exact h.descend fun _ _ hvisit =>
        (ResolveM.Refines.forM (refines_compileImport hvisit _ _) _).bind fun _ => .refl _

theorem Below.visitEdge (h : Below deeper deeper') (v : Visit) :
    (visitEdge p env deeper v).Refines (visitEdge p env deeper' v) := by
  refine (ResolveM.Refines.refl _).bind fun s => ?_
  refine .ite (.refl _) ?_
  dsimp only
  cases locate? p env (s.engine.registry.module v.edge.target) with
  | some artifact =>
      exact (ResolveM.Refines.resolve (h.compileSource _)).bind fun resolution =>
        h.conclude v resolution
  | none => exact .refl _

theorem below_visitorOver (p : Plan) (env : Environment) (below : Option Visitor) (depth : Nat) :
    Below (visitor? p env depth) (visitorOver p env below depth) := by
  induction depth with
  | zero => exact .nothing
  | succ depth ih => exact .visitor ih.visitEdge

end Walk

namespace Plan

variable {p : Plan} {env : Environment} {deeper deeper' : Option Visitor}

theorem refines_resolveFoundational (h : Walk.Below deeper deeper') :
    (p.resolveFoundational env deeper).Refines (p.resolveFoundational env deeper') := by
  rw [resolveFoundational, resolveFoundational]
  cases p.artifact? env.config.foundational with
  | none => exact .refl _
  | some a =>
      exact (ResolveM.Refines.resolve (h.compileSource _)).bind fun resolution =>
        h.conclude _ resolution

theorem refines_resolveSource (h : Walk.Below deeper deeper') (src : SourceModule) :
    (p.resolveSource env deeper src).Refines (p.resolveSource env deeper' src) := by
  refine (ResolveM.Refines.refl _).bind fun id => (ResolveM.Refines.refl _).bind fun r => ?_
  exact .ite (.refl _) (ResolveM.Refines.resolve (h.compileSource _)).discard

theorem refines_resolveAll (h : Walk.Below deeper deeper') :
    (p.resolveAll env deeper).Refines (p.resolveAll env deeper') :=
  (refines_resolveFoundational h).bind fun _ => .forM (refines_resolveSource h) _

theorem resolveAll_visitorOver (p : Plan) (config : Config) (overrides : Option Overrides)
    (below : Option Visitor) :
    p.resolveAll (p.environment config overrides)
        (Walk.visitorOver p (p.environment config overrides) below p.depth)
        ⟨Engine.start config.foundational, Walk.start⟩ = p.session config overrides :=
  (refines_resolveAll (Walk.below_visitorOver p _ below p.depth) _).resolve_left
    (session_ne_tooDeep p config overrides)

end Plan

end ModuleResolution
