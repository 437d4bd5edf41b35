import ModuleResolution.CommandLine
import ModuleResolution.Proofs.Clash
import ModuleResolution.Proofs.Loads

namespace ModuleResolution

namespace EdgeOutcome

def isMissing (o : EdgeOutcome) : Bool :=
  o.resolution == none

def isRefused (o : EdgeOutcome) : Bool :=
  match o.resolution with
  | some (.skipped c) => c.isFatal
  | _ => false

def isForeign (r : Registry) (supported : BinaryVersion) (o : EdgeOutcome) : Bool :=
  o.resolution == some .compiled && supported.isForeign (r.module o.module).binaryVersion

def fails (r : Registry) (supported : BinaryVersion) (o : EdgeOutcome) : Bool :=
  o.isMissing || o.isRefused || o.isForeign r supported

end EdgeOutcome

namespace Diagnostic

theorem errors_append (ds es : List Diagnostic) : errors (ds ++ es) = errors ds ++ errors es :=
  List.filter_append ..

end Diagnostic

namespace Registry

variable {r : Registry} {id : ModuleId} {c : Conflict}

end Registry

namespace Session

variable {p : Plan} {env : Environment} {s t : Session Walk} {id : ModuleId} {c : Conflict}

def Accounts (env : Environment) (s : Session Walk) : Prop :=
  (Diagnostic.errors s.engine.diagnostics).length =
    s.client.outcomes.countP (EdgeOutcome.fails s.registry env.config.binaryVersion)

theorem Accounts.append (h : s.Accounts env) (logged : List EdgeOutcome)
    (reported : List Diagnostic)
    (hold : s.client.outcomes.countP (EdgeOutcome.fails t.registry env.config.binaryVersion) =
      s.client.outcomes.countP (EdgeOutcome.fails s.registry env.config.binaryVersion))
    (ho : t.client.outcomes = s.client.outcomes ++ logged)
    (hd : t.engine.diagnostics = s.engine.diagnostics ++ reported)
    (hnew : (Diagnostic.errors reported).length =
      logged.countP (EdgeOutcome.fails t.registry env.config.binaryVersion)) :
    t.Accounts env := by
  rw [Accounts, ho, hd, Diagnostic.errors_append, List.length_append, List.countP_append, hold,
    hnew, h]

theorem Accounts.load {v : Visit} {a : Artifact} {e : Engine} {l : Loaded} (ha : s.Accounts env)
    (h : s.Coherent p env) (hid : v.edge.target < s.registry.size)
    (hdone : s.client.isDone v.edge.target = false)
    (hlocate : Walk.locate? p env (s.target v) = some a)
    (hsource : env.isSource (s.target v).name = false)
    (hsupplied : env.platform.supplies (s.target v).coordinates = false)
    (hload : s.engine.load env a v.edge.target v.edge v.trail = (e, l))
    (hunread : (s.target v).binaryVersion = none)
    (hold : s.client.outcomes.countP (EdgeOutcome.fails e.registry env.config.binaryVersion) =
      s.client.outcomes.countP (EdgeOutcome.fails s.registry env.config.binaryVersion)) :
    ((s.answer v e (some (.ofLoaded l))).noteLoaded v.edge.target).Accounts env := by
  obtain ⟨hread, hkind⟩ := h.asRead_load hid hdone hlocate hsource hsupplied hload hunread
  have hplatform := h.not_fromPlatform hid (Walk.isDone_eq_false.mp hdone).1 hsupplied
  have hversion := Engine.binaryVersion_load hid hload hunread
  have hreported := Engine.diagnostics_load hid hload
  have herrors (issues : List Issue) : (Diagnostic.errors (issues.map fun issue =>
      ⟨.error, .declaration v.trail.root v.edge.target, issue⟩)).length = issues.length := by
    rw [Diagnostic.errors, List.filter_eq_self.mpr, List.length_map]
    intro d hd
    obtain ⟨issue, -, rfl⟩ := List.mem_map.mp hd
    rfl
  refine ha.append [⟨v.importer, v.edge.target, some (.ofLoaded l)⟩] _ hold rfl hreported ?_
  rw [herrors, Engine.length_formatIssues_loadedRegistry hid hplatform hunread, ← hversion,
    List.countP_singleton]
  cases l with
  | compiled => rfl
  | nativeArchive =>
      have hnone : (e.registry.module v.edge.target).binaryVersion = none :=
        hread.format.trans (Environment.formatOf_of_native hkind)
      rw [hnone]
      rfl

end Session

namespace Agenda

variable {p : Plan} {env : Environment} {s t : Session Walk} {task : Task} {left rest : List Task}

end Agenda

namespace Plan

variable {p : Plan} {config : Config} {overrides : Option Overrides} {report : SessionReport}

end Plan

end ModuleResolution
