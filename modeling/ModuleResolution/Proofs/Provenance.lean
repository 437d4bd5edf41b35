import ModuleResolution.Proofs.Edges
import ModuleResolution.Proofs.Rejected
import ModuleResolution.Proofs.Validated

namespace ModuleResolution

theorem Loaded.eq_compiled_iff {l : Loaded} : l = .compiled ↔ ¬l = .nativeArchive := by
  cases l <;> simp

structure Module.ReadAs (m : Module) (l : Loaded) : Prop where
  fromPlatform : m.fromPlatform = true ↔ l = .nativeArchive
  backend : l = .nativeArchive → m.backend = some .host

theorem Environment.readAs_loadedFace {m : Module} (env : Environment) (a : Artifact)
    (h : m.fromPlatform = false) : (env.loadedFace m a).ReadAs (env.kindOf m a) := by
  unfold loadedFace kindOf
  cases m.isDefault with
  | true => constructor <;> simp [Module.markFromBinary, Module.markAvailable, h]
  | false =>
      cases env.descriptors.format? a.coordinates with
      | some v =>
          constructor <;>
            simp [Module.markFromBinary, Module.markAvailable, Module.setBinaryVersion, h]
      | none =>
          constructor <;> simp [Module.markFromBinary, Module.markAvailable,
            Module.markFromPlatform, Module.restrictTo]

theorem Registry.Evolves.isDefault {p : Platform} {id : ModuleId} {r s : Registry}
    (h : Evolves p id r s) (j : ModuleId) : (s.module j).isDefault = (r.module j).isDefault := by
  by_cases hr : j < r.size
  · exact (h.grows hr).isDefault
  · rw [module_of_size_le (Nat.le_of_not_lt hr)]
    by_cases hs : j < s.size
    · obtain ⟨c, hc, -⟩ := h.created j (Nat.le_of_not_lt hr) hs
      rw [hc, (Module.grows_setUp p _).isDefault]
      rfl
    · rw [module_of_size_le (Nat.le_of_not_lt hs)]

namespace Session

variable {p : Plan} {env : Environment} {s t : Session Walk} {n : ModuleId}

theorem Coherent.readAs_load {v : Visit} {a : Artifact} {e : Engine} {l : Loaded}
    (h : s.Coherent p env) (hid : v.edge.target < s.registry.size)
    (hdone : s.client.isDone v.edge.target = false)
    (hsupplied : env.platform.supplies (s.target v).coordinates = false)
    (hload : s.engine.load env a v.edge.target v.edge v.trail = (e, l)) :
    (e.registry.module v.edge.target).ReadAs l := by
  have hplatform : (s.target v).fromPlatform = false :=
    h.not_fromPlatform hid (Walk.isDone_eq_false.mp hdone).1 hsupplied
  have hface : ((s.engine.load env a v.edge.target v.edge v.trail).1.registry.module
      v.edge.target).setImports [] = env.loadedFace ((s.target v).setImports []) a :=
    Engine.face_load hid
  have hkind : _ = env.kindOf (s.target v) a := Engine.load_snd env a v.edge v.trail hid
  rw [hload] at hface hkind
  have hread := env.readAs_loadedFace a (m := (s.target v).setImports []) hplatform
  rw [← hface] at hread
  obtain rfl : l = _ := hkind
  exact ⟨hread.fromPlatform, hread.backend⟩

structure Stamped (p : Plan) (env : Environment) (s : Session Walk) : Prop where
  read : ∀ n ∈ s.client.loaded, (s.registry.module n).ReadAs
    (env.kindOf (s.registry.module n) (p.artifactAt (s.coordinates n)))
  unread : ∀ n, n ∉ s.client.loaded → (s.registry.module n).fromBinary = false

end Session

namespace Agenda

variable {p : Plan} {env : Environment} {s t : Session Walk} {task : Task} {left rest : List Task}

theorem Coherent.stamped_step (h : Coherent p env ⟨s, task :: rest⟩)
    (hs : task.Step p env s t left) (hr : s.Reads p env) (hst : s.Stamped p env) :
    t.Stamped p env := by
  have hold (n : ModuleId) (hn : n ∈ s.client.loaded) : (t.registry.module n).ReadAs
      (env.kindOf (t.registry.module n) (p.artifactAt (t.coordinates n))) := by
    rw [Session.coordinates, h.module_of_done hs (Walk.isDone_eq_true.mpr (.inl hn))]
    exact hst.read n hn
  refine ⟨fun n hn => ?_, fun n hn => ?_⟩
  · cases hs with
    | @loaded v a e l hdone hlocate hsource hsupplied hclear hneeded hload =>
        rcases List.mem_cons.mp hn with rfl | hn
        · have hid := h.targets v List.mem_cons_self
          have hkind := (h.session.asRead_load hid hdone hlocate hsource hsupplied hload
            (hr.unread _ (Walk.isDone_eq_false.mp hdone).1)).2
          exact hkind.symm ▸ h.session.readAs_load hid hdone hsupplied hload
        · exact hold n hn
    | entered | opened =>
        rw [Session.loaded_enter] at hn
        exact hold n hn
    | _ => exact hold n hn
  · rw [h.eq_of_not_loaded hs (Module.lasting_fromBinary _) hn]
    exact hst.unread n fun hl => hn ((h.extends hs).loaded hl)

end Agenda

def SessionReport.Records (report : SessionReport) (n : ModuleId) (resolution : Resolution) :
    Prop :=
  ∃ o ∈ report.outcomes, o.module = n ∧ o.resolution = some resolution

namespace Plan

variable {p : Plan} {config : Config} {overrides : Option Overrides} {report : SessionReport}
  {n : ModuleId} {c : Coordinates} {t : Session Walk}

def HasFormat (p : Plan) (c : Coordinates) (format : Option BinaryVersion) : Prop :=
  ∃ a, p.artifact? c = some a ∧ a.binaryVersion = format

theorem hasFormat_iff {a : PlannedArtifact} {format : Option BinaryVersion}
    (ha : p.artifact? c = some a) : p.HasFormat c format ↔ a.binaryVersion = format := by
  simp [HasFormat, ha]

theorem mem_descriptors {d : Coordinates × BinaryVersion} :
    d ∈ p.descriptors ↔ ∃ a ∈ p.artifacts, a.coordinates = d.1 ∧ a.binaryVersion = some d.2 := by
  simp only [descriptors, List.mem_filterMap, Option.map_eq_some_iff]
  refine exists_congr fun a => and_congr_right fun _ => ?_
  constructor
  · rintro ⟨v, hv, rfl⟩
    exact ⟨rfl, hv⟩
  · rintro ⟨hc, hv⟩
    exact ⟨d.2, hv, Prod.ext hc rfl⟩

theorem ArtifactsDistinct.format?_eq {a : PlannedArtifact} (h : p.ArtifactsDistinct)
    (ha : p.artifact? c = some a) : p.descriptors.format? c = a.binaryVersion := by
  have hmem := List.mem_of_find?_eq_some ha
  have hac : a.coordinates = c := by simpa using List.find?_some ha
  rw [Descriptors.format?]
  cases hfind : p.descriptors.reverse.find? (·.1 == c) with
  | some d =>
      obtain ⟨b, hb, hbc, hv⟩ :=
        mem_descriptors.mp (List.mem_reverse.mp (List.mem_of_find?_eq_some hfind))
      have hdc : d.1 = c := by simpa using List.find?_some hfind
      obtain rfl : b = a :=
        List.inj_on_of_nodup_map h hb hmem (hbc.trans (hdc.trans hac.symm))
      exact hv.symm
  | none =>
      refine (Option.eq_none_iff_forall_ne_some.mpr fun v hv => ?_).symm
      have hd : (c, v) ∈ p.descriptors.reverse :=
        List.mem_reverse.mpr (mem_descriptors.mpr ⟨a, hmem, hac, hv⟩)
      simpa using List.find?_eq_none.mp hfind _ hd

theorem Reaches.stamped {a : Agenda} (h : p.Reaches config overrides a) :
    a.session.Stamped p (p.environment config overrides) := by
  induction h using Reaches.induction with
  | start => exact ⟨fun n hn => absurd hn List.not_mem_nil, fun n _ => Registry.fromBinary_init _ n⟩
  | step hreach hs ih => exact hreach.coherent.stamped_step hs hreach.reads ih

theorem Reaches.isDefault {a : Agenda} (h : p.Reaches config overrides a) (n : ModuleId) :
    (a.session.registry.module n).isDefault = true ↔ n = Registry.defaultModule := by
  induction h using Reaches.induction with
  | start => exact Registry.isDefault_init config.foundational n
  | step hreach hs ih =>
      obtain ⟨id, -, hev⟩ := hreach.coherent.evolves_step hs
      rw [hev.isDefault]
      exact ih

theorem Reaches.format_of_loaded (h : p.Reaches config overrides ⟨t, []⟩)
    (hdistinct : p.ArtifactsDistinct) (hn : n ∈ t.client.loaded)
    (hdefault : n ≠ Registry.defaultModule) :
    ∃ a, p.artifact? (t.coordinates n) = some a ∧
      (t.registry.module n).binaryVersion = a.binaryVersion ∧
      ((p.environment config overrides).kindOf (t.registry.module n)
        (p.artifactAt (t.coordinates n)) = .nativeArchive ↔ a.binaryVersion = none) := by
  obtain ⟨a, ha, hartifact⟩ := artifact_of_loads (h.coherent.session.binaries n hn).2
  have hmodule : (t.registry.module n).isDefault = false := by
    rw [← Bool.not_eq_true, h.isDefault]
    exact hdefault
  have hc : a.coordinates = t.coordinates n := by simpa using List.find?_some ha
  have hformat : (p.environment config overrides).descriptors.format? a.artifact.coordinates =
      a.binaryVersion := hdistinct.format?_eq (c := a.coordinates) (hc ▸ ha)
  refine ⟨a, ha, ?_, ?_⟩
  · rw [(h.reads.read n hn).format, Environment.formatOf, hmodule, hartifact, hformat]
    rfl
  · rw [hartifact, Environment.kindOf_eq_native, hformat]
    simp [hmodule]

theorem Reaches.records_iff (h : p.Reaches config overrides ⟨t, []⟩) (l : Loaded) :
    (∃ o ∈ t.client.outcomes, o.module = n ∧ o.resolution = some (.ofLoaded l)) ↔
      n ∈ t.client.loaded ∧ (p.environment config overrides).kindOf (t.registry.module n)
        (p.artifactAt (t.coordinates n)) = l := by
  constructor
  · rintro ⟨o, ho, rfl, hl⟩
    exact h.reads.logged o ho l hl
  · rintro ⟨hn, hkind⟩
    obtain ⟨o, ho, rfl, hloads⟩ := h.logged n hn
    obtain ⟨l', hl'⟩ : ∃ l' : Loaded, o.resolution = some (.ofLoaded l') :=
      hloads.elim (⟨.compiled, ·⟩) (⟨.nativeArchive, ·⟩)
    obtain rfl : l' = l := (h.reads.logged o ho l' hl').2.symm.trans hkind
    exact ⟨o, ho, rfl, hl'⟩

theorem Reaches.records_native_iff (h : p.Reaches config overrides ⟨t, []⟩)
    (hdistinct : p.ArtifactsDistinct) (hdefault : n ≠ Registry.defaultModule) :
    (∃ o ∈ t.client.outcomes, o.module = n ∧ o.resolution = some .nativeArchive) ↔
      n ∈ t.client.loaded ∧ p.HasFormat (t.coordinates n) none := by
  refine (h.records_iff .nativeArchive).trans (and_congr_right fun hn => ?_)
  obtain ⟨a, ha, -, hkind⟩ := h.format_of_loaded hdistinct hn hdefault
  rw [hkind, hasFormat_iff ha]

theorem Reaches.records_compiled_iff (h : p.Reaches config overrides ⟨t, []⟩)
    (hdistinct : p.ArtifactsDistinct) (hdefault : n ≠ Registry.defaultModule) :
    (∃ o ∈ t.client.outcomes, o.module = n ∧ o.resolution = some .compiled) ↔
      n ∈ t.client.loaded ∧ ∃ v, p.HasFormat (t.coordinates n) (some v) := by
  refine (h.records_iff .compiled).trans (and_congr_right fun hn => ?_)
  obtain ⟨a, ha, -, hkind⟩ := h.format_of_loaded hdistinct hn hdefault
  rw [Loaded.eq_compiled_iff, hkind, ← ne_eq, Option.ne_none_iff_exists']
  exact exists_congr fun v => (hasFormat_iff ha).symm

structure Provenance (p : Plan) (report : SessionReport) (n : ModuleId) : Prop where
  compiled_iff : report.Records n .compiled ↔ report.registry.isBinaryInput n = true ∧
    ∃ v, p.HasFormat (report.registry.module n).coordinates (some v)
  compiled : report.Records n .compiled →
    ∀ v, p.HasFormat (report.registry.module n).coordinates (some v) →
      (report.registry.module n).fromPlatform = false ∧
        (report.registry.module n).binaryVersion = some v
  native_iff : report.Records n .nativeArchive ↔ report.registry.isBinaryInput n = true ∧
    p.HasFormat (report.registry.module n).coordinates none
  native : report.Records n .nativeArchive →
    (report.registry.module n).fromPlatform = true ∧
      (report.registry.module n).backend = some .host ∧
        (report.registry.module n).binaryVersion = none
  other : ¬report.Records n .compiled → ¬report.Records n .nativeArchive →
    (report.registry.module n).binaryVersion = none ∧
      (report.registry.module n).fromBinary = false

theorem Reaches.provenance (h : p.Reaches config overrides ⟨t, []⟩)
    (hdistinct : p.ArtifactsDistinct) (hdefault : n ≠ Registry.defaultModule) :
    p.Provenance (.ofSession t) n := by
  have hinput : t.registry.isBinaryInput n = true ↔ n ∈ t.client.loaded :=
    h.coherent.session.isBinaryInput_iff
  have hcompiled := h.records_compiled_iff hdistinct hdefault
  have hnative := h.records_native_iff hdistinct hdefault
  constructor
  case compiled_iff => exact hcompiled.trans (and_congr_left' hinput.symm)
  case native_iff => exact hnative.trans (and_congr_left' hinput.symm)
  case compiled =>
    intro hrecords v hv
    have hn := (hcompiled.mp hrecords).1
    obtain ⟨a, ha, hversion, hkind⟩ := h.format_of_loaded hdistinct hn hdefault
    have hformat : a.binaryVersion = some v := (hasFormat_iff ha).mp hv
    refine ⟨Bool.eq_false_iff.mpr fun hplatform => ?_, hversion.trans hformat⟩
    have hnone := hkind.mp ((h.stamped.read n hn).fromPlatform.mp hplatform)
    cases hformat.symm.trans hnone
  case native =>
    intro hrecords
    obtain ⟨hn, hnone⟩ := hnative.mp hrecords
    obtain ⟨a, ha, hversion, hkind⟩ := h.format_of_loaded hdistinct hn hdefault
    have hformat : a.binaryVersion = none := (hasFormat_iff ha).mp hnone
    have hread := h.stamped.read n hn
    exact ⟨hread.fromPlatform.mpr (hkind.mpr hformat), hread.backend (hkind.mpr hformat),
      hversion.trans hformat⟩
  case other =>
    intro hnotCompiled hnotNative
    have hn : n ∉ t.client.loaded := by
      intro hn
      obtain ⟨o, ho, hmodule, hloads⟩ := h.logged n hn
      exact hloads.elim (hnotCompiled ⟨o, ho, hmodule, ·⟩) (hnotNative ⟨o, ho, hmodule, ·⟩)
    exact ⟨h.reads.unread n hn, h.stamped.unread n hn⟩

theorem Provenance.congr {report' : SessionReport} {is : List Import} (h : p.Provenance report n)
    (houtcomes : report'.outcomes = report.outcomes)
    (hinput : report'.registry.isBinaryInput n = report.registry.isBinaryInput n)
    (hmodule : report'.registry.module n = (report.registry.module n).setImports is) :
    p.Provenance report' n := by
  have hrecords (r : Resolution) : report'.Records n r ↔ report.Records n r := by
    rw [SessionReport.Records, SessionReport.Records, houtcomes]
  constructor
  case compiled_iff =>
    rw [hrecords, hinput, hmodule]
    exact h.compiled_iff
  case compiled =>
    rw [hrecords, hmodule]
    exact h.compiled
  case native_iff =>
    rw [hrecords, hinput, hmodule]
    exact h.native_iff
  case native =>
    rw [hrecords, hmodule]
    exact h.native
  case other =>
    rw [hrecords, hrecords, hmodule]
    exact h.other

theorem provenance_of_run (hvalid : p.validate = .ok ())
    (hrun : p.run config overrides = .ok report) (hdefault : n ≠ Registry.defaultModule) :
    p.Provenance report n := by
  obtain ⟨t, ht, rfl⟩ := reaches_of_run hrun
  obtain ⟨is, his⟩ := Registry.exists_module_withImplicitImports ht.coherent.session.indexed n
  exact (ht.provenance (artifactsDistinct_of_validate hvalid) hdefault).congr rfl
    (Registry.isBinaryInput_withImplicitImports _ n) his

def twoFormats : Plan where
  sources := [⟨⟨"app", "1"⟩, [⟨"lib", "1", false, false⟩, ⟨"glue", "1", false, false⟩]⟩]
  artifacts := [⟨⟨"lib", "1"⟩, some ⟨3, 2⟩, []⟩, ⟨⟨"glue", "1"⟩, none, []⟩]

theorem provenance_of_run_twoFormats :
    twoFormats.validate = .ok () ∧ ∃ report, twoFormats.run .default none = .ok report ∧
      3 ≠ Registry.defaultModule ∧ 4 ≠ Registry.defaultModule ∧
      report.Records 3 .compiled ∧ report.Records 4 .nativeArchive ∧
      twoFormats.Provenance report 3 ∧ twoFormats.Provenance report 4 := by
  have hvalid : twoFormats.validate = .ok () := by decide +kernel
  obtain ⟨report, hrun, hrecords⟩ : ∃ report, twoFormats.run .default none = .ok report ∧
      (report.outcomes.any (fun o => o.module == 3 && o.resolution == some .compiled) &&
        report.outcomes.any fun o => o.module == 4 && o.resolution == some .nativeArchive) = true :=
    exists_report (by decide +kernel)
  simp only [Bool.and_eq_true, List.any_eq_true, beq_iff_eq] at hrecords
  exact ⟨hvalid, report, hrun, by decide, by decide, hrecords.1, hrecords.2,
    provenance_of_run hvalid hrun (by decide), provenance_of_run hvalid hrun (by decide)⟩

end Plan

end ModuleResolution
