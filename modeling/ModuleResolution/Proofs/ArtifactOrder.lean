import Mathlib.Data.List.Find
import ModuleResolution.Proofs.Report
import ModuleResolution.Proofs.Validated

namespace ModuleResolution

theorem find?_of_perm {α κ : Type} {key : α → κ} {q : α → Bool} {as bs : List α}
    (hperm : as.Perm bs) (hnodup : (as.map key).Nodup)
    (hkey : ∀ a b, q a = true → q b = true → key a = key b) : bs.find? q = as.find? q := by
  refine (List.find?_eq_find?_of_perm hperm ?_).symm
  rintro a ⟨ha, hqa⟩ b ⟨hb, hqb⟩
  exact List.inj_on_of_nodup_map hnodup ha hb (hkey a b hqa hqb)

namespace Overrides

variable {o o' : Overrides}

structure Reordered (o o' : Overrides) : Prop where
  rules : o.rules.Perm o'.rules
  pins : o'.pins = o.pins

structure Alike (o o' : Overrides) : Prop where
  rule? : ∀ c, o'.rule? c = o.rule? c
  pins : o'.pins = o.pins

theorem Reordered.alike (h : o.Reordered o') (hdistinct : o.RulesDistinct) : o.Alike o' := by
  have hfind (name : String) (version : Option String) :
      (o'.rules.find? fun r => r.module == name && r.version == version) =
        o.rules.find? fun r => r.module == name && r.version == version := by
    refine find?_of_perm h.rules hdistinct fun a b ha hb => ?_
    rw [Bool.and_eq_true, beq_iff_eq, beq_iff_eq] at ha hb
    rw [ha.1, ha.2, hb.1, hb.2]
  refine ⟨fun c => ?_, h.pins⟩
  rw [rule?, rule?, hfind, hfind]

theorem Alike.hasRule (h : o.Alike o') (c : Coordinates) : o'.hasRule c = o.hasRule c := by
  rw [Overrides.hasRule, Overrides.hasRule, h.rule?]

theorem Alike.apply (h : o.Alike o') (c : Coordinates) (current : DependencySet) :
    o'.apply c current = o.apply c current := by
  rw [Overrides.apply, Overrides.apply, h.rule?, h.pins]

theorem Alike.overrideImports (h : o.Alike o') (r : Registry) (p : Platform) (id : ModuleId)
    (c : Coordinates) : r.overrideImports p o' id c = r.overrideImports p o id c := by
  rw [Registry.overrideImports, Registry.overrideImports, h.hasRule, h.apply]

end Overrides

structure Environment.Alike (env env' : Environment) : Prop where
  config : env'.config = env.config
  platform : env'.platform = env.platform
  sources : env'.sources = env.sources
  format? : ∀ c, env'.descriptors.format? c = env.descriptors.format? c
  overrides : Option.Rel Overrides.Alike env.overrides env'.overrides

namespace Environment.Alike

variable {env env' : Environment} (h : env.Alike env')

include h

theorem isSource (name : String) : env'.isSource name = env.isSource name := by
  rw [Environment.isSource, Environment.isSource, h.sources]

theorem reportAtRoot : Engine.reportAtRoot env' = Engine.reportAtRoot env := by
  funext e i trail issue
  rw [Engine.reportAtRoot, Engine.reportAtRoot, h.platform]

theorem ensure {ω : Type} : (ResolveM.ensure env' : Coordinates → ResolveM ω ModuleId) =
    ResolveM.ensure env := by
  have hengine : Engine.ensure env' = Engine.ensure env := by
    funext e c
    rw [Engine.ensure, Engine.ensure, h.platform]
  funext c
  rw [ResolveM.ensure, ResolveM.ensure, hengine]

theorem declareImport : Engine.declareImport env' = Engine.declareImport env := by
  funext e importer i
  rw [Engine.declareImport, Engine.declareImport, Engine.defineImport, Engine.defineImport,
    h.platform]

theorem readArtifact (r : Registry) (id : ModuleId) (a : Artifact) :
    r.readArtifact env' id a = r.readArtifact env id a := by
  rw [Registry.readArtifact, Registry.readArtifact, h.format?, h.platform]

theorem overrideCompiled (e : Engine) (id : ModuleId) (a : Artifact) :
    e.overrideCompiled env' id a = e.overrideCompiled env id a := by
  have hrel := h.overrides
  rw [Engine.overrideCompiled, Engine.overrideCompiled, h.platform]
  generalize env.overrides = overrides, env'.overrides = overrides' at hrel
  cases hrel with
  | none => rfl
  | some ho => simp only [ho.overrideImports]

theorem checkFormat (e : Engine) (i : Import) (id : ModuleId) (trail : Trail) :
    e.checkFormat env' i id trail = e.checkFormat env i id trail := by
  rw [Engine.checkFormat, Engine.checkFormat, h.config, h.reportAtRoot]

theorem load : Engine.load env' = Engine.load env := by
  funext e a id i trail
  simp only [Engine.load, h.readArtifact, h.overrideCompiled, h.checkFormat]

theorem step : Engine.step env' = Engine.step env := by
  funext e req
  simp only [Engine.step, Engine.loadsAnyway, h.isSource, h.platform, h.config, h.load]
  rfl

theorem resolve {ω : Type} : (ResolveM.resolve env' : SourceResolver ω → Request → _) =
    ResolveM.resolve env := by
  funext source req
  rw [ResolveM.resolve, ResolveM.resolve, h.step]

theorem compileImport : Walk.compileImport env' = Walk.compileImport env := by
  funext visit importer trail d
  rw [Walk.compileImport, Walk.compileImport, h.ensure, h.declareImport]

end Environment.Alike

namespace Plan

structure Alike (p q : Plan) : Prop where
  sources : q.sources = p.sources
  artifact? : ∀ c, q.artifact? c = p.artifact? c
  length : q.artifacts.length = p.artifacts.length

namespace Alike

variable {p q : Plan} {env env' : Environment} (hp : p.Alike q) (h : env.Alike env')

include hp h

theorem locate? : Walk.locate? q env' = Walk.locate? p env := by
  funext m
  rw [Walk.locate?, Walk.locate?, h.isSource, hp.artifact?, source?, hp.sources]
  rfl

theorem compileSource (deeper : Option Visitor) :
    Walk.compileSource q env' deeper = Walk.compileSource p env deeper := by
  funext req
  simp only [Walk.compileSource, source?, hp.sources, h.compileImport]

theorem visitEdge (deeper : Option Visitor) :
    Walk.visitEdge q env' deeper = Walk.visitEdge p env deeper := by
  funext v
  simp only [Walk.visitEdge, hp.locate? h, hp.compileSource h, h.resolve, h.reportAtRoot]

theorem visitor? (depth : Nat) : Walk.visitor? q env' depth = Walk.visitor? p env depth := by
  induction depth with
  | zero => rfl
  | succ depth ih => rw [Walk.visitor?, Walk.visitor?, ih, hp.visitEdge h]

theorem resolveFoundational (deeper : Option Visitor) :
    q.resolveFoundational env' deeper = p.resolveFoundational env deeper := by
  simp only [Plan.resolveFoundational, hp.artifact?, h.config, h.resolve, hp.compileSource h]

theorem resolveSource (deeper : Option Visitor) :
    q.resolveSource env' deeper = p.resolveSource env deeper := by
  funext src
  simp only [Plan.resolveSource, h.ensure, h.resolve, hp.compileSource h]

theorem resolveAll (deeper : Option Visitor) :
    q.resolveAll env' deeper = p.resolveAll env deeper := by
  rw [Plan.resolveAll, Plan.resolveAll, hp.resolveFoundational h, hp.resolveSource h, hp.sources]

end Alike

variable {p q : Plan} {config : Config} {overrides overrides' : Option Overrides}
  {artifacts : List PlannedArtifact}

theorem Alike.run (hp : p.Alike q)
    (h : (p.environment config overrides).Alike (q.environment config overrides')) :
    q.run config overrides' = p.run config overrides := by
  have hdepth : q.depth = p.depth := by rw [depth, depth, hp.sources, hp.length]
  rw [Plan.run, Plan.run, session, session, hp.resolveAll h, hp.visitor? h, hdepth]

def withArtifacts (p : Plan) (artifacts : List PlannedArtifact) : Plan :=
  { p with artifacts }

theorem alike_withArtifacts (hperm : p.artifacts.Perm artifacts) (h : p.ArtifactsDistinct) :
    p.Alike (p.withArtifacts artifacts) where
  sources := rfl
  artifact? := fun c => find?_of_perm hperm h fun a b ha hb => by
    rw [beq_iff_eq] at ha hb
    rw [ha, hb]
  length := hperm.length_eq.symm

theorem ArtifactsDistinct.nodup_descriptors (h : p.ArtifactsDistinct) :
    (p.descriptors.map (·.1)).Nodup := by
  refine List.pairwise_map.mpr (List.pairwise_filterMap.mpr ?_)
  refine (List.pairwise_map.mp h).imp fun hne d hd d' hd' heq => hne ?_
  obtain ⟨v, -, rfl⟩ := Option.map_eq_some_iff.mp hd
  obtain ⟨v', -, rfl⟩ := Option.map_eq_some_iff.mp hd'
  exact heq

theorem format?_withArtifacts (hperm : p.artifacts.Perm artifacts) (h : p.ArtifactsDistinct)
    (c : Coordinates) :
    (p.withArtifacts artifacts).descriptors.format? c = p.descriptors.format? c := by
  have hreverse : p.descriptors.reverse.Perm (p.withArtifacts artifacts).descriptors.reverse :=
    (List.reverse_perm _).trans ((hperm.filterMap _).trans (List.reverse_perm _).symm)
  have hnodup : (p.descriptors.reverse.map (·.1)).Nodup :=
    ((List.reverse_perm _).map _).nodup_iff.mpr h.nodup_descriptors
  refine congrArg (Option.map _) (find?_of_perm hreverse hnodup fun d d' hd hd' => ?_)
  rw [beq_iff_eq] at hd hd'
  rw [hd, hd']

theorem alike_environment (config : Config) (hperm : p.artifacts.Perm artifacts)
    (h : p.ArtifactsDistinct) (ho : Option.Rel Overrides.Alike overrides overrides') :
    (p.environment config overrides).Alike
      ((p.withArtifacts artifacts).environment config overrides') where
  config := rfl
  platform := rfl
  sources := rfl
  format? := format?_withArtifacts hperm h
  overrides := ho

theorem run_of_reordered (config : Config) (hvalid : p.validate = .ok ())
    (hrules : ∀ o ∈ overrides, o.validate = .ok ()) (hperm : p.artifacts.Perm artifacts)
    (hreordered : Option.Rel Overrides.Reordered overrides overrides') :
    (p.withArtifacts artifacts).run config overrides' = p.run config overrides := by
  have h := artifactsDistinct_of_validate hvalid
  have ho : Option.Rel Overrides.Alike overrides overrides' := by
    cases hreordered with
    | none => exact .none
    | some ho => exact .some (ho.alike (Overrides.rulesDistinct_of_validate (hrules _ rfl)))
  exact (alike_withArtifacts hperm h).run (alike_environment config hperm h ho)

def overriddenLibrary : Plan where
  sources := [⟨⟨"app", "1"⟩, [⟨"lib", "1", false, false⟩]⟩]
  artifacts := [⟨⟨"lib", "1"⟩, some ⟨3, 2⟩, [⟨⟨"util", "1"⟩, .exported⟩]⟩,
    ⟨⟨"util", "1"⟩, none, []⟩, ⟨⟨"impl", "2"⟩, some ⟨3, 2⟩, []⟩]

def libraryRules : Overrides where
  rules := [⟨"lib", none, none, [], ["util"]⟩,
    ⟨"lib", some "1", none, [⟨"impl", "2", false, true⟩], []⟩]
  pins := .empty

def libraryRulesReversed : Overrides :=
  { libraryRules with rules := libraryRules.rules.reverse }

theorem run_of_reordered_overriddenLibrary :
    overriddenLibrary.validate = .ok () ∧ libraryRules.validate = .ok () ∧
      libraryRules.Reordered libraryRulesReversed ∧
      (overriddenLibrary.withArtifacts overriddenLibrary.artifacts.reverse).run .default
        (some libraryRulesReversed) = overriddenLibrary.run .default (some libraryRules) := by
  have hvalid : overriddenLibrary.validate = .ok () := by decide +kernel
  have hrules : libraryRules.validate = .ok () := by decide +kernel
  have hreordered : libraryRules.Reordered libraryRulesReversed := ⟨(List.reverse_perm _).symm, rfl⟩
  refine ⟨hvalid, hrules, hreordered, ?_⟩
  refine run_of_reordered .default hvalid ?_ (List.reverse_perm _).symm (.some hreordered)
  rintro o ⟨⟩
  exact hrules

end Plan

end ModuleResolution
