import ModuleResolution.Proofs.ByName
import ModuleResolution.Proofs.Needed
import ModuleResolution.Proofs.Validated

namespace ModuleResolution

namespace Plan

variable {p : Plan} {sources : List SourceModule} {config : Config} {overrides : Option Overrides}
  {c : Coordinates}

def withSources (p : Plan) (sources : List SourceModule) : Plan :=
  { p with sources }

theorem SourcesDistinct.withSources (h : p.SourcesDistinct) (hperm : p.sources.Perm sources) :
    (p.withSources sources).SourcesDistinct :=
  (hperm.map _).nodup h

theorem source?_withSources (h : p.SourcesDistinct) (hperm : p.sources.Perm sources)
    (c : Coordinates) : (p.withSources sources).source? c = p.source? c := by
  ext src
  rw [(h.withSources hperm).source?_eq_some, h.source?_eq_some]
  exact and_congr_left fun _ => hperm.mem_iff.symm

theorem isSource_withSources (config : Config) (overrides : Option Overrides)
    (hperm : p.sources.Perm sources) (name : String) :
    ((p.withSources sources).environment config overrides).isSource name =
      (p.environment config overrides).isSource name := by
  rw [Bool.eq_iff_iff]
  simp only [environment, Environment.isSource, List.contains_iff_mem]
  exact (hperm.map _).mem_iff.symm

section

variable (config overrides) (h : p.SourcesDistinct) (hperm : p.sources.Perm sources)

include h hperm

theorem compiles_withSources :
    (p.withSources sources).Compiles ((p.withSources sources).environment config overrides) c ↔
      p.Compiles (p.environment config overrides) c := by
  rw [Compiles, Compiles, isSource_withSources config overrides hperm, source?_withSources h hperm]

theorem sourceImports_withSources :
    (p.withSources sources).sourceImports c = p.sourceImports c := by
  rw [sourceImports, sourceImports, source?_withSources h hperm]

theorem absence_withSources (c : Coordinates) :
    (p.withSources sources).absence ((p.withSources sources).environment config overrides) c =
      p.absence (p.environment config overrides) c := by
  have hlocates : (p.withSources sources).locates
      ((p.withSources sources).environment config overrides) c =
        p.locates (p.environment config overrides) c := by
    rw [locates, locates, isSource_withSources config overrides hperm, source?_withSources h hperm]
    rfl
  rw [absence, absence, hlocates]
  rfl

theorem loadIssues_withSources (c : Coordinates) :
    (p.withSources sources).loadIssues ((p.withSources sources).environment config overrides) c =
      p.loadIssues (p.environment config overrides) c :=
  congrArg (_ ++ ·) (List.flatMap_congr fun i _ =>
    absence_withSources config overrides h hperm i.target)

theorem sourceIssues_withSources (c : Coordinates) :
    (p.withSources sources).sourceIssues ((p.withSources sources).environment config overrides) c =
      p.sourceIssues (p.environment config overrides) c := by
  rw [sourceIssues, sourceIssues, sourceImports_withSources h hperm]
  exact List.flatMap_congr fun d _ => absence_withSources config overrides h hperm d.coordinates

theorem openingIssues_withSources :
    (p.withSources sources).openingIssues
      ((p.withSources sources).environment config overrides) =
        p.openingIssues (p.environment config overrides) := by
  rw [openingIssues, openingIssues, absence_withSources config overrides h hperm]
  rfl

end

theorem loads_withSources (config : Config) (overrides : Option Overrides)
    (hperm : p.sources.Perm sources) :
    (p.withSources sources).Loads ((p.withSources sources).environment config overrides) c ↔
      p.Loads (p.environment config overrides) c := by
  rw [Loads, Loads, isSource_withSources config overrides hperm]
  rfl

theorem serves_withSources (config : Config) (overrides : Option Overrides)
    (hperm : p.sources.Perm sources) :
    (p.withSources sources).Serves ((p.withSources sources).environment config overrides) c ↔
      p.Serves (p.environment config overrides) c := by
  rw [Serves, Serves, isSource_withSources config overrides hperm]
  rfl

theorem closed_withSources {x : Extent} (h : p.SourcesDistinct) (hperm : p.sources.Perm sources)
    (hx : x.Closed p (p.environment config overrides)) :
    x.Closed (p.withSources sources)
      ((p.withSources sources).environment config overrides) := by
  have hanswers {onPath : Prop} {c : Coordinates}
      (ha : x.Answers p (p.environment config overrides) onPath c) :
      x.Answers (p.withSources sources) ((p.withSources sources).environment config overrides)
        onPath c :=
    ⟨fun hc => ha.compiled ((compiles_withSources config overrides h hperm).mp hc),
      fun hpath hl => ha.loaded hpath ((loads_withSources config overrides hperm).mp hl),
      fun hs => ha.served ((serves_withSources config overrides hperm).mp hs)⟩
  refine ⟨hx.builtIn, fun hartifact => hanswers (hx.foundational hartifact),
    fun src hsrc => hx.root src (hperm.mem_iff.mpr hsrc), fun c hentered hcompiles d hd => ?_,
    fun c hentered hloads i hi => ?_, fun c hentered hloads => ?_, hx.createdAvailable,
    hx.enteredAvailable⟩
  · rw [sourceImports_withSources h hperm] at hd
    have himported := hx.imported c hentered
      ((compiles_withSources config overrides h hperm).mp hcompiles) d hd
    exact ⟨himported.1, hanswers himported.2⟩
  · exact hanswers (hx.loaded c hentered
      ((loads_withSources config overrides hperm).mp hloads) i hi)
  · exact hx.mentioned c hentered ((loads_withSources config overrides hperm).mp hloads)

theorem Reaches.within_extent {t u : Session Walk} (h : p.SourcesDistinct)
    (hperm : p.sources.Perm sources) (hne : config.foundational ≠ Registry.defaultCoordinates)
    (ht : p.Reaches config overrides ⟨t, []⟩)
    (hu : (p.withSources sources).Reaches config overrides ⟨u, []⟩)
    (hclear : ∀ d ∈ t.engine.diagnostics, d.issue.isConflict = false) : u.Within t.extent :=
  (hu.within hne (closed_withSources h hperm (ht.closed_extent hne hclear))).session

section

variable {t : Session Walk} {n : ModuleId}

theorem Reaches.mem_loaded_iff (h : p.Reaches config overrides ⟨t, []⟩) :
    c ∈ t.client.loaded.map t.coordinates ↔
      t.extent.entered c ∧ p.Loads (p.environment config overrides) c := by
  have hc := h.coherent.session
  constructor
  · intro hmem
    obtain ⟨n, hn, rfl⟩ := List.mem_map.mp hmem
    exact ⟨Session.entered_extent (.inl hn), (hc.binaries n hn).2⟩
  · rintro ⟨⟨n, hn, rfl⟩, hloads⟩
    exact List.mem_map_of_mem ((h.entered_end hn).resolve_right fun hk =>
      hloads.not_compiles (hc.sources n (.inr hk)).2)

theorem Reaches.mem_compiled_iff (h : p.Reaches config overrides ⟨t, []⟩) :
    c ∈ t.client.compiled.map t.coordinates ↔
      t.extent.entered c ∧ p.Compiles (p.environment config overrides) c := by
  have hc := h.coherent.session
  constructor
  · intro hmem
    obtain ⟨n, hn, rfl⟩ := List.mem_map.mp hmem
    exact ⟨Session.entered_extent (.inr hn), (hc.sources n (.inr hn)).2⟩
  · rintro ⟨⟨n, hn, rfl⟩, hcompiles⟩
    exact List.mem_map_of_mem ((h.entered_end hn).resolve_left fun hl =>
      (hc.binaries n hl).2.not_compiles hcompiles)

theorem Reaches.nodup_coordinates {ns : List ModuleId}
    (hne : config.foundational ≠ Registry.defaultCoordinates)
    (h : p.Reaches config overrides ⟨t, []⟩) (hns : ns.Nodup)
    (hlt : ∀ n ∈ ns, n < t.registry.size) : (ns.map t.coordinates).Nodup :=
  hns.map_on fun i hi j hj heq => (h.faced hne).distinct i (hlt i hi) j (hlt j hj) heq

end

end Plan

namespace Session

structure Agree (t u : Session Walk) : Prop where
  known : ∀ c, t.registry.Knows c ↔ u.registry.Knows c
  entered : ∀ c, t.extent.entered c ↔ u.extent.entered c
  available : ∀ c, t.extent.available c ↔ u.extent.available c

variable {p : Plan} {env : Environment} {t : Session Walk} {n : ModuleId}

theorem Faced.mem_map_coordinates {ns : List ModuleId} (h : t.Faced p env)
    (hlt : ∀ k ∈ ns, k < t.registry.size) (hn : n < t.registry.size) :
    t.coordinates n ∈ ns.map t.coordinates ↔ n ∈ ns := by
  refine ⟨fun hmem => ?_, List.mem_map_of_mem⟩
  obtain ⟨k, hk, heq⟩ := List.mem_map.mp hmem
  exact h.distinct k (hlt k hk) n hn heq ▸ hk

theorem Faced.extent_available_iff (h : t.Faced p env) (hn : n < t.registry.size) :
    t.extent.available (t.coordinates n) ↔ (t.registry.module n).available = true := by
  refine ⟨?_, fun ha => ⟨n, hn, ha, rfl⟩⟩
  rintro ⟨k, hk, ha, heq⟩
  exact h.distinct k hk n hn heq ▸ ha

theorem Within.agree {t u : Session Walk} (h : t.Within u.extent) (k : u.Within t.extent) :
    t.Agree u := by
  refine ⟨fun c => ⟨h.known c, k.known c⟩, fun c => ⟨?_, ?_⟩, fun c => ⟨?_, ?_⟩⟩
  · rintro ⟨n, hn, rfl⟩
    exact h.entered n hn
  · rintro ⟨n, hn, rfl⟩
    exact k.entered n hn
  · rintro ⟨n, hn, ha, rfl⟩
    exact h.available n hn ha
  · rintro ⟨n, hn, ha, rfl⟩
    exact k.available n hn ha

end Session

namespace Plan

variable {p : Plan} {sources : List SourceModule} {config : Config} {overrides : Option Overrides}
  {t u : Session Walk} {n m : ModuleId}

theorem Reaches.causedIssues_end (h : p.Reaches config overrides ⟨t, []⟩) :
    t.causedIssues p (p.environment config overrides) =
      p.openingIssues (p.environment config overrides) ++
        (t.client.loaded.map t.coordinates).flatMap
          (p.loadIssues (p.environment config overrides)) ++
        (t.client.compiled.map t.coordinates).flatMap fun c =>
          p.sourceIssues (p.environment config overrides) c ++
            (p.environment config overrides).lowerIssues
              (NamedImport.addAll [] ((p.sourceImports c).map .ofDependency)) := by
  rw [Session.causedIssues, h.inProgress_end, List.append_nil, List.flatMap_map, List.flatMap_map]
  refine congrArg₂ (· ++ ·) rfl (List.flatMap_congr fun n hn => ?_)
  rw [Session.sourceShare, h.namedImports_of_compiled hn]

inductive EndsAs (p : Plan) (env : Environment) (t : Session Walk) (n : ModuleId) : Prop
  | loaded (hn : n ∈ t.client.loaded)
      (h : t.registry.namedModule n = .ofModule (p.loadedFace env (t.coordinates n))
        (p.loadedImports env (t.coordinates n)))
  | compiled (hn : n ∈ t.client.compiled)
      (h : t.registry.namedModule n = .ofModule (env.origin (t.coordinates n)).markAvailable
        (NamedImport.addAll [] ((p.sourceImports (t.coordinates n)).map .ofDependency)))
  | idle (hl : n ∉ t.client.loaded) (hk : n ∉ t.client.compiled)
      (h : t.registry.namedModule n = .ofModule (if (t.registry.module n).available then
        env.platform.setUp (env.origin (t.coordinates n)) else env.origin (t.coordinates n)) [])

theorem Reaches.endsAs (hne : config.foundational ≠ Registry.defaultCoordinates)
    (h : p.Reaches config overrides ⟨t, []⟩) (hn : n < t.registry.size) :
    p.EndsAs (p.environment config overrides) t n := by
  have hc := h.coherent.session
  have hf := h.faced hne
  by_cases hl : n ∈ t.client.loaded
  · have hlooks := hf.looks_loaded hc hl
    exact .loaded hl (Registry.namedModule_of_face hlooks.1 hlooks.2)
  · by_cases hk : n ∈ t.client.compiled
    · exact .compiled hk (Registry.namedModule_of_face (hf.looks_compiled hc hk)
        (h.namedImports_of_compiled hk))
    · have hidle : ¬ t.Entered n := fun hentered =>
        (h.entered_end hentered).elim hl hk
      have hbare : t.registry.namedImports n = [] := by
        rw [Registry.namedImports, hc.bare_of_not_entered hidle]
        rfl
      exact .idle hl hk (Registry.namedModule_of_face (hf.looks_idle hn hidle) hbare)

section

variable (hperm : p.sources.Perm sources)
  (hne : config.foundational ≠ Registry.defaultCoordinates)
  (ht : p.Reaches config overrides ⟨t, []⟩)
  (hu : (p.withSources sources).Reaches config overrides ⟨u, []⟩) (ha : t.Agree u)
  (h : p.SourcesDistinct)

include hperm hne ht hu ha

theorem loaded_perm :
    (t.client.loaded.map t.coordinates).Perm (u.client.loaded.map u.coordinates) := by
  have htc := ht.coherent.session
  have huc := hu.coherent.session
  refine (List.perm_ext_iff_of_nodup
    (ht.nodup_coordinates hne htc.loadedNodup fun n hn => (htc.binaries n hn).1)
    (hu.nodup_coordinates hne huc.loadedNodup fun n hn => (huc.binaries n hn).1)).mpr fun c => ?_
  rw [ht.mem_loaded_iff, hu.mem_loaded_iff, ha.entered, loads_withSources config overrides hperm]

include h

theorem compiled_perm :
    (t.client.compiled.map t.coordinates).Perm (u.client.compiled.map u.coordinates) := by
  have htc := ht.coherent.session
  have huc := hu.coherent.session
  refine (List.perm_ext_iff_of_nodup
    (ht.nodup_coordinates hne htc.compiledNodup fun n hn => (htc.sources n (.inr hn)).1)
    (hu.nodup_coordinates hne huc.compiledNodup fun n hn => (huc.sources n (.inr hn)).1)).mpr
      fun c => ?_
  rw [ht.mem_compiled_iff, hu.mem_compiled_iff, ha.entered,
    compiles_withSources config overrides h hperm]

theorem causedIssues_perm :
    (t.causedIssues p (p.environment config overrides)).Perm
      (u.causedIssues (p.withSources sources)
        ((p.withSources sources).environment config overrides)) := by
  rw [ht.causedIssues_end, hu.causedIssues_end,
    openingIssues_withSources config overrides h hperm]
  simp only [sourceIssues_withSources config overrides h hperm, sourceImports_withSources h hperm]
  have hload := funext (loadIssues_withSources config overrides h hperm)
  rw [hload]
  exact List.Perm.append
    (List.Perm.append_left _ ((loaded_perm hperm hne ht hu ha).flatMap_right _))
    ((compiled_perm hperm hne ht hu ha h).flatMap_right _)

theorem namedModule_eq (hn : n < t.registry.size) (hm : m < u.registry.size)
    (hsame : t.coordinates n = u.coordinates m) :
    t.registry.namedModule n = u.registry.namedModule m := by
  have htf := ht.faced hne
  have huf := hu.faced hne
  have htc := ht.coherent.session
  have huc := hu.coherent.session
  have hl : n ∈ t.client.loaded ↔ m ∈ u.client.loaded := by
    rw [← htf.mem_map_coordinates (fun k hk => (htc.binaries k hk).1) hn,
      ← huf.mem_map_coordinates (fun k hk => (huc.binaries k hk).1) hm, hsame]
    exact (loaded_perm hperm hne ht hu ha).mem_iff
  have hk : n ∈ t.client.compiled ↔ m ∈ u.client.compiled := by
    rw [← htf.mem_map_coordinates (fun k hk => (htc.sources k (.inr hk)).1) hn,
      ← huf.mem_map_coordinates (fun k hk => (huc.sources k (.inr hk)).1) hm, hsame]
    exact (compiled_perm hperm hne ht hu ha h).mem_iff
  have havailable : (t.registry.module n).available = (u.registry.module m).available := by
    rw [Bool.eq_iff_iff, ← htf.extent_available_iff hn, ← huf.extent_available_iff hm, hsame]
    exact ha.available _
  cases ht.endsAs hne hn with
  | loaded hn h =>
      cases hu.endsAs hne hm with
      | loaded _ k => rw [h, k, ← hsame]; rfl
      | compiled hk' => exact absurd (hk.mpr hk') (htc.not_compiled_of_loaded hn)
      | idle hnot => exact absurd (hl.mp hn) hnot
  | compiled hn h' =>
      cases hu.endsAs hne hm with
      | loaded hl' => exact absurd hn (htc.not_compiled_of_loaded (hl.mpr hl'))
      | compiled _ k => rw [h', k, ← hsame, sourceImports_withSources h hperm]; rfl
      | idle _ hnot => exact absurd (hk.mp hn) hnot
  | idle hnl hnk h =>
      cases hu.endsAs hne hm with
      | loaded hl' => exact absurd (hl.mpr hl') hnl
      | compiled hk' => exact absurd (hk.mpr hk') hnk
      | idle _ _ k => rw [h, k, ← hsame, havailable]; rfl

end

theorem Reaches.namedModule_report (hne : config.foundational ≠ Registry.defaultCoordinates)
    (h : p.Reaches config overrides ⟨t, []⟩) (hn : n < t.registry.size) :
    t.registry.withImplicitImports.namedModule n =
      (t.registry.namedModule n).withImplicit config.foundational := by
  have hc := h.coherent.session
  rw [Registry.namedModule_withImplicitImports hc.indexed (h.faced hne).distinct hc.linked hn,
    h.coordinates_foundational]

theorem Reaches.nodup_namedModules (hne : config.foundational ≠ Registry.defaultCoordinates)
    (h : p.Reaches config overrides ⟨t, []⟩) :
    (t.registry.withImplicitImports.namedModules.map (·.coordinates)).Nodup := by
  refine Registry.nodup_coordinates (Registry.distinct_of_coordinates (h.faced hne).distinct
    (Registry.size_withImplicitImports _) fun j _ => ?_)
  exact (Registry.grows_withImplicitImports h.coherent.session.indexed j).coordinates

theorem namedModules_subset (hperm : p.sources.Perm sources)
    (hne : config.foundational ≠ Registry.defaultCoordinates)
    (ht : p.Reaches config overrides ⟨t, []⟩)
    (hu : (p.withSources sources).Reaches config overrides ⟨u, []⟩) (ha : t.Agree u)
    (h : p.SourcesDistinct) :
    t.registry.withImplicitImports.namedModules ⊆ u.registry.withImplicitImports.namedModules := by
  intro view hview
  obtain ⟨n, hn, rfl⟩ := List.mem_map.mp hview
  have hn : n < t.registry.size := by simpa using hn
  obtain ⟨m, hm, hsame⟩ := (ha.known _).mp ⟨n, hn, rfl⟩
  rw [ht.namedModule_report hne hn, namedModule_eq hperm hne ht hu ha h hn hm hsame.symm,
    ← hu.namedModule_report hne hm]
  exact List.mem_map_of_mem (List.mem_range.mpr (by simpa using hm))

end Plan

namespace SessionReport

structure SameByName (r s : SessionReport) : Prop where
  distinct : (r.registry.namedModules.map (·.coordinates)).Nodup
  modules : r.registry.namedModules.Perm s.registry.namedModules
  inputs : r.registry.namedInputs.Perm s.registry.namedInputs
  issues : (r.diagnostics.map (·.issue)).Perm (s.diagnostics.map (·.issue))

end SessionReport

namespace Plan

variable {p : Plan} {sources : List SourceModule} {config : Config} {overrides : Option Overrides}
  {r s : SessionReport}

theorem sameByName_of_perm (hvalid : p.validate = .ok ()) (hperm : p.sources.Perm sources)
    (hne : config.foundational ≠ Registry.defaultCoordinates)
    (hr : p.run config overrides = .ok r)
    (hs : (p.withSources sources).run config overrides = .ok s)
    (hclear : r.ConflictFree) (hclear' : s.ConflictFree) : r.SameByName s := by
  obtain ⟨t, ht, rfl⟩ := reaches_of_run hr
  obtain ⟨u, hu, rfl⟩ := reaches_of_run hs
  have h := sourcesDistinct_of_validate hvalid
  -- either run stays within what the other came to, as that is closed under what the plan asks for
  have htu : u.Within t.extent := ht.within_extent h hperm hne hu hclear
  have hut : t.Within u.extent :=
    hu.within_extent (h.withSources hperm) hperm.symm hne ht hclear'
  have ha := hut.agree htu
  have hback := htu.agree hut
  have htc := ht.coherent.session
  have huc := hu.coherent.session
  refine ⟨ht.nodup_namedModules hne, ?modules, ?inputs, ?issues⟩
  case modules =>
    refine (List.perm_ext_iff_of_nodup (ht.nodup_namedModules hne).of_map
      (hu.nodup_namedModules hne).of_map).mpr fun view => ⟨fun hview => ?_, fun hview => ?_⟩
    · exact namedModules_subset hperm hne ht hu ha h hview
    · exact namedModules_subset hperm.symm hne hu ht hback (h.withSources hperm) hview
  case inputs =>
    change t.registry.withImplicitImports.namedInputs.Perm
      u.registry.withImplicitImports.namedInputs
    rw [Registry.namedInputs_withImplicitImports htc.indexed,
      Registry.namedInputs_withImplicitImports huc.indexed, htc.namedInputs_eq, huc.namedInputs_eq]
    exact (List.reverse_perm _).trans
      (((loaded_perm hperm hne ht hu ha).map _).trans (List.reverse_perm _).symm)
  case issues =>
    exact (ht.issues_perm hne hclear).trans
      ((causedIssues_perm hperm hne ht hu ha h).trans (hu.issues_perm hne hclear').symm)

def toolAndApplication : Plan where
  sources := [⟨⟨"tool", "1"⟩, [⟨"lib", "1", false, false⟩, ⟨"gone", "1", true, false⟩]⟩,
    ⟨⟨"app", "1"⟩, [⟨"impl", "1", false, false⟩, ⟨"tool", "1", false, true⟩]⟩]
  artifacts := [⟨⟨"lib", "1"⟩, some ⟨3, 2⟩, [⟨⟨"impl", "1"⟩, .normal⟩]⟩,
    ⟨⟨"impl", "1"⟩, some ⟨3, 2⟩, []⟩]

theorem sameByName_of_perm_toolAndApplication :
    ∃ r s, toolAndApplication.run .default none = .ok r ∧
      (toolAndApplication.withSources toolAndApplication.sources.reverse).run .default none =
        .ok s ∧
      r.ConflictFree ∧ s.ConflictFree ∧ r.registry.namedModules ≠ s.registry.namedModules ∧
      r.SameByName s := by
  have hboth : (toolAndApplication.run .default none).toOption.any (fun r =>
      ((toolAndApplication.withSources toolAndApplication.sources.reverse).run
        .default none).toOption.any fun s =>
          r.diagnostics.all (fun d => d.issue.isConflict == false) &&
            s.diagnostics.all (fun d => d.issue.isConflict == false) &&
            decide (r.registry.namedModules ≠ s.registry.namedModules)) = true := by
    decide +kernel
  cases hr : toolAndApplication.run .default none with
  | error e =>
      rw [hr] at hboth
      cases hboth
  | ok r =>
      cases hs : (toolAndApplication.withSources toolAndApplication.sources.reverse).run
          .default none with
      | error e =>
          rw [hr, hs] at hboth
          cases hboth
      | ok s =>
          rw [hr, hs] at hboth
          simp only [Except.toOption, Option.any_some, Bool.and_eq_true, List.all_eq_true,
            beq_iff_eq, decide_eq_true_eq] at hboth
          obtain ⟨⟨hclear, hclear'⟩, hdiffer⟩ := hboth
          exact ⟨r, s, rfl, rfl, hclear, hclear', hdiffer,
            sameByName_of_perm (by decide +kernel) (List.reverse_perm _).symm (by decide) hr hs
              hclear hclear'⟩

end Plan

end ModuleResolution
