import ModuleResolution.Proofs.Clash
import ModuleResolution.Proofs.Report
import ModuleResolution.Proofs.Resolve

namespace ModuleResolution

namespace Registry

variable {r : Registry} {id m : ModuleId}

theorem exists_conflict (hr : r.Indexed) (hm : m < r.size) (hbars : r.Bars m id) :
    ∃ c, r.conflict? id = some c := by
  refine Option.ne_none_iff_exists'.mp fun hclear => ?_
  exact (conflict?_eq_none_iff hr).mp hclear m hm hbars

def OwnNameFirst (r : Registry) (id : ModuleId) : Prop :=
  ∃ m < r.size, r.Bars m id ∧ (r.module m).name = (r.module id).name ∧
    ∀ k < m, r.Bars k id → (r.module k).name = (r.module id).name

theorem isFatal_iff {c : Conflict} (hr : r.Indexed) (hc : r.conflict? id = some c) :
    c.isFatal = true ↔ r.OwnNameFirst id := by
  obtain ⟨m, ⟨hm, hbars, hfirst⟩, rfl⟩ := (conflict?_eq_some_iff hr).mp hc
  rw [Conflict.isFatal_between]
  constructor
  · intro hname
    exact ⟨m, hm, hbars, hname, fun k hk hk' => absurd hk' (hfirst k hk)⟩
  · rintro ⟨n, -, hn, hname, hbefore⟩
    rcases Nat.lt_trichotomy m n with hlt | rfl | hlt
    · exact hbefore m hlt hbars
    · exact hname
    · exact absurd hn (hfirst n hlt)

end Registry

/--
Another version under the candidate's own name is always noticed, in whatever registry an engine in
use may have (`Usage.Reaches.indexed`). It is an error unless a binary input of merely similar name
comes first, for only the first clash is looked at.
-/
theorem resolve_of_sameName {ω : Type} {env : Environment} {source : SourceResolver ω}
    {req : Request} {s : Session ω} {m : ModuleId} (hr : s.engine.registry.Indexed)
    (hm : m < s.engine.registry.size) (hinput : s.engine.registry.isBinaryInput m = true)
    (hname : (s.engine.registry.module m).name = (s.engine.registry.module req.module).name)
    (hversion : (s.engine.registry.module m).version ≠
      (s.engine.registry.module req.module).version) :
    ∃ c, s.engine.registry.conflict? req.module = some c ∧
      (c.isFatal = true ↔ s.engine.registry.OwnNameFirst req.module) ∧
      (env.isSource (s.engine.registry.module req.module).name = true ∨
        env.platform.supplies (s.engine.registry.module req.module).coordinates = false ∧
          req.onBuildPath = true →
        ResolveM.resolve env source req s = (.ok (.skipped c), s.onEngine (·.report
          ⟨if c.isFatal then .error else .warning .similarModule, .module req.trail.root,
            c.issue⟩))) := by
  obtain ⟨c, hc⟩ := Registry.exists_conflict hr hm (.of_sameName hinput hname hversion)
  refine ⟨c, hc, Registry.isFatal_iff hr hc, fun hchecked => ?_⟩
  rw [ResolveM.resolve_apply, (Engine.Decides.skipped hchecked hc).step_eq]
  rfl

def Plan.spelledTwice : Plan where
  sources := [⟨⟨"app", "1"⟩, [⟨"a-b", "1", false, false⟩, ⟨"a.b", "1", false, false⟩,
    ⟨"a.b", "2", false, false⟩]⟩]
  artifacts := [⟨⟨"a-b", "1"⟩, some ⟨3, 2⟩, []⟩, ⟨⟨"a.b", "1"⟩, some ⟨3, 2⟩, []⟩,
    ⟨⟨"a.b", "2"⟩, some ⟨3, 2⟩, []⟩]

def spelledTwiceSession : Session Walk :=
  (Plan.spelledTwice.session .default none).2

def secondSpelling : Request :=
  ⟨.bare ⟨"a.b", "2"⟩, 5, ⟨5, false, false, none⟩, .start 2, true⟩

theorem resolve_of_sameName_spelledTwice :
    spelledTwiceSession.engine.registry.Indexed ∧ 4 < spelledTwiceSession.engine.registry.size ∧
      spelledTwiceSession.engine.registry.isBinaryInput 4 = true ∧
      (spelledTwiceSession.engine.registry.module 4).name =
        (spelledTwiceSession.engine.registry.module secondSpelling.module).name ∧
      (spelledTwiceSession.engine.registry.module 4).version ≠
        (spelledTwiceSession.engine.registry.module secondSpelling.module).version ∧
      ∃ c, c.isFatal = false ∧
        ResolveM.resolve (Plan.spelledTwice.environment .default none) (fun _ => pure ())
          secondSpelling spelledTwiceSession = (.ok (.skipped c), spelledTwiceSession.onEngine
            (·.report ⟨.warning .similarModule, .module 2, c.issue⟩)) := by
  have hr : spelledTwiceSession.engine.registry.Indexed := by
    unfold Registry.Indexed
    decide +kernel
  have hm : 4 < spelledTwiceSession.engine.registry.size := by decide +kernel
  have hinput : spelledTwiceSession.engine.registry.isBinaryInput 4 = true := by decide +kernel
  have hname : (spelledTwiceSession.engine.registry.module 4).name =
      (spelledTwiceSession.engine.registry.module secondSpelling.module).name := by decide +kernel
  have hversion : (spelledTwiceSession.engine.registry.module 4).version ≠
      (spelledTwiceSession.engine.registry.module secondSpelling.module).version := by
    decide +kernel
  have hchecked : (Plan.spelledTwice.environment .default none).platform.supplies
      (spelledTwiceSession.engine.registry.module secondSpelling.module).coordinates = false := by
    decide +kernel
  have hconflict : spelledTwiceSession.engine.registry.conflict? secondSpelling.module =
      some (.similarName 3 ⟨"a-b", "1"⟩ ⟨"a.b", "2"⟩) := by decide +kernel
  obtain ⟨c, hc, -, hresolve⟩ := @resolve_of_sameName Walk
    (Plan.spelledTwice.environment .default none) (fun _ => pure ()) secondSpelling
    spelledTwiceSession 4 hr hm hinput hname hversion
  obtain rfl : _ = c := Option.some.inj (hconflict.symm.trans hc)
  exact ⟨hr, hm, hinput, hname, hversion, _, rfl, hresolve (.inr ⟨hchecked, rfl⟩)⟩

namespace Plan

theorem unreported_version_spelledTwice :
    ∃ report, spelledTwice.run .default none = .ok report ∧
      report.registry.isBinaryInput 4 = true ∧
      (report.registry.module 4).coordinates = ⟨"a.b", "1"⟩ ∧
      (report.registry.module 5).coordinates = ⟨"a.b", "2"⟩ ∧
      report.registry.conflict? 5 = some (.similarName 3 ⟨"a-b", "1"⟩ ⟨"a.b", "2"⟩) ∧
      report.outcomes.contains
        ⟨2, 5, some (.skipped (.similarName 3 ⟨"a-b", "1"⟩ ⟨"a.b", "2"⟩))⟩ = true ∧
      report.hasErrors = false := by
  obtain ⟨report, hrun, hreport⟩ : ∃ report, spelledTwice.run .default none = .ok report ∧
      (report.registry.isBinaryInput 4 &&
        (report.registry.module 4).coordinates == ⟨"a.b", "1"⟩ &&
        (report.registry.module 5).coordinates == ⟨"a.b", "2"⟩ &&
        report.registry.conflict? 5 == some (.similarName 3 ⟨"a-b", "1"⟩ ⟨"a.b", "2"⟩) &&
        report.outcomes.contains
          ⟨2, 5, some (.skipped (.similarName 3 ⟨"a-b", "1"⟩ ⟨"a.b", "2"⟩))⟩ &&
        !report.hasErrors) = true := exists_report (by decide +kernel)
  simp only [Bool.and_eq_true, beq_iff_eq, Bool.not_eq_true'] at hreport
  obtain ⟨⟨⟨⟨⟨hinput, hfirst⟩, hsecond⟩, hconflict⟩, houtcome⟩, herrors⟩ := hreport
  exact ⟨report, hrun, hinput, hfirst, hsecond, hconflict, houtcome, herrors⟩

end Plan

end ModuleResolution
