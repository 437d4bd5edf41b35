import ModuleResolution.Proofs.Clash
import ModuleResolution.Proofs.Report

namespace ModuleResolution

namespace Registry

variable {r : Registry} {id m : ModuleId}

theorem version_eq_of_conflict?_eq_none (hr : r.Indexed) (hm : m < r.size)
    (hinput : r.isBinaryInput m = true) (hclear : r.conflict? id = none)
    (hname : Name.normalize (r.module m).name = Name.normalize (r.module id).name) :
    (r.module m).version = (r.module id).version := by
  refine Decidable.byContradiction fun hversion => ?_
  exact (conflict?_eq_none_iff hr).mp hclear m hm ⟨hinput, hname, hversion⟩

end Registry

namespace Session

def OneVersion (s : Session Walk) : Prop :=
  ∀ m ∈ s.client.loaded, ∀ n ∈ s.client.loaded,
    Name.normalize (s.registry.module m).name = Name.normalize (s.registry.module n).name →
      (s.registry.module m).version = (s.registry.module n).version

variable {s t : Session Walk} {p : Plan} {env : Environment} {id : ModuleId}

theorem OneVersion.version_eq {m n : ModuleId} (h : s.OneVersion) (hc : s.Coherent p env)
    (hst : s.Extends t) (hm : m ∈ s.client.loaded) (hn : n ∈ s.client.loaded)
    (hname : Name.normalize (t.registry.module m).name =
      Name.normalize (t.registry.module n).name) :
    (t.registry.module m).version = (t.registry.module n).version := by
  have hmg := hst.grows m (hc.binaries m hm).1
  have hng := hst.grows n (hc.binaries n hn).1
  rw [hmg.name, hng.name] at hname
  rw [hmg.version, hng.version]
  exact h m hm n hn hname

theorem OneVersion.extends (h : s.OneVersion) (hc : s.Coherent p env) (hst : s.Extends t)
    (hl : t.client.loaded = s.client.loaded) : t.OneVersion := by
  intro m hm n hn hname
  rw [hl] at hm hn
  exact h.version_eq hc hst hm hn hname

theorem OneVersion.load (h : s.OneVersion) (hc : s.Coherent p env) (hst : s.Extends t)
    (hid : id < s.registry.size) (hclear : s.registry.conflict? id = none)
    (hl : t.client.loaded = id :: s.client.loaded) : t.OneVersion := by
  have hagree (m : ModuleId) (hm : m ∈ s.client.loaded)
      (hname : Name.normalize (t.registry.module m).name =
        Name.normalize (t.registry.module id).name) :
      (t.registry.module m).version = (t.registry.module id).version := by
    have hmlt := (hc.binaries m hm).1
    have hmg := hst.grows m hmlt
    have hidg := hst.grows id hid
    rw [hmg.name, hidg.name] at hname
    rw [hmg.version, hidg.version]
    exact Registry.version_eq_of_conflict?_eq_none hc.indexed hmlt
      (hc.isBinaryInput_iff.mpr hm) hclear hname
  intro m hm n hn hname
  rw [hl, List.mem_cons] at hm hn
  rcases hm with rfl | hm
  · rcases hn with rfl | hn
    · rfl
    · exact (hagree n hn hname.symm).symm
  · rcases hn with rfl | hn
    · exact hagree m hm hname
    · exact h.version_eq hc hst hm hn hname

end Session

namespace Plan

variable {p : Plan} {config : Config} {overrides : Option Overrides} {report : SessionReport}
  {m n : ModuleId}

theorem Reaches.oneVersion {a : Agenda} (hpolicy : config.loadTransitive = false)
    (h : p.Reaches config overrides a) : a.session.OneVersion := by
  induction h using Reaches.induction with
  | start => exact fun m hm => absurd hm List.not_mem_nil
  | step hreach hs ih =>
      have hc := hreach.coherent
      have hst := hc.extends hs
      rcases hc.loaded_cases hs with hsame | ⟨v, rfl, hl, hdone, hloads, hclear, hneeded⟩
      · exact ih.extends hc.session hst hsame
      · rcases hreach.loads_strictly hdone hloads hneeded with hpath | hanyway
        · exact ih.load hc.session hst (hc.targets v List.mem_cons_self) (hclear hpath) hl
        -- without transitive loads nothing is loaded off the build path, so unchecked
        · exact absurd (hpolicy.symm.trans hanyway) Bool.false_ne_true

theorem one_version_of_run (hpolicy : config.loadTransitive = false)
    (hrun : p.run config overrides = .ok report)
    (hm : report.registry.isBinaryInput m = true) (hn : report.registry.isBinaryInput n = true) :
    (Name.normalize (report.registry.module m).name =
        Name.normalize (report.registry.module n).name →
      (report.registry.module m).version = (report.registry.module n).version) ∧
    ((report.registry.module m).name = (report.registry.module n).name →
      (report.registry.module m).version = (report.registry.module n).version) := by
  obtain ⟨t, ht, rfl⟩ := reaches_of_run hrun
  have hc := ht.coherent.session
  have hinput (k : ModuleId)
      (hk : t.registry.withImplicitImports.isBinaryInput k = true) : k ∈ t.client.loaded := by
    rw [← hc.isBinaryInput_iff]
    simpa [Registry.isBinaryInput] using hk
  have hgm := Registry.grows_withImplicitImports hc.indexed m
  have hgn := Registry.grows_withImplicitImports hc.indexed n
  have hversions := ht.oneVersion hpolicy m (hinput m hm) n (hinput n hn)
  rw [← hgm.name, ← hgn.name, ← hgm.version, ← hgn.version] at hversions
  exact ⟨hversions, fun hname => hversions (congrArg Name.normalize hname)⟩

def twoSeparators : Plan where
  sources := [⟨⟨"app", "1"⟩, [⟨"lib-a", "1", false, false⟩, ⟨"lib.a", "1", false, false⟩]⟩]
  artifacts := [⟨⟨"lib-a", "1"⟩, some ⟨3, 2⟩, []⟩, ⟨⟨"lib.a", "1"⟩, some ⟨3, 2⟩, []⟩]

theorem one_version_of_run_twoSeparators :
    ∃ report, twoSeparators.run .default none = .ok report ∧
      report.registry.isBinaryInput 3 = true ∧ report.registry.isBinaryInput 4 = true ∧
      Name.normalize (report.registry.module 3).name =
        Name.normalize (report.registry.module 4).name ∧
      (report.registry.module 3).version = (report.registry.module 4).version := by
  have hinputs : (twoSeparators.run .default none).toOption.any (fun report =>
      report.registry.isBinaryInput 3 && report.registry.isBinaryInput 4 &&
        Name.normalize (report.registry.module 3).name ==
          Name.normalize (report.registry.module 4).name) = true := by decide +kernel
  cases hrun : twoSeparators.run .default none with
  | error e =>
      rw [hrun] at hinputs
      cases hinputs
  | ok report =>
      rw [hrun] at hinputs
      simp only [Except.toOption, Option.any_some, Bool.and_eq_true, beq_iff_eq] at hinputs
      obtain ⟨⟨h3, h4⟩, hname⟩ := hinputs
      exact ⟨report, rfl, h3, h4, hname, (one_version_of_run rfl hrun h3 h4).1 hname⟩

end Plan

end ModuleResolution
