import ModuleResolution.Proofs.Overridden
import ModuleResolution.Proofs.Redeclared

namespace ModuleResolution

namespace Ascending

variable {α : Type} {cmp : α → α → Ordering}

theorem nodup_of_pairwise [Std.ReflCmp cmp] {l : List α}
    (h : l.Pairwise fun a b => cmp a b = .lt) : l.Nodup := by
  refine h.imp ?_
  rintro a b hlt rfl
  simp [Std.ReflCmp.compare_self] at hlt

variable [Std.TransCmp cmp] {s t : Ascending cmp}

theorem nodup (s : Ascending cmp) : s.toList.Nodup :=
  nodup_of_pairwise s.ascending

theorem ext_mem (h : ∀ x, x ∈ s.toList ↔ x ∈ t.toList) : s = t := by
  refine ext (List.Perm.eq_of_pairwise (fun a b _ _ hlt hgt => ?_) s.ascending t.ascending
    ((List.perm_ext_iff_of_nodup s.nodup t.nodup).mpr h))
  simp [Std.OrientedCmp.gt_of_lt hlt] at hgt

end Ascending

namespace NamedImport

theorem exists_target_ofSet {s : DependencySet} {c : Coordinates} :
    (∃ i ∈ ofSet s, i.target = c) ↔ ∃ d ∈ s.toList, d.coordinates = c := by
  rw [ofSet, target_addAll]
  constructor
  · rintro (⟨i, hi, -⟩ | ⟨i, hi, rfl⟩)
    · cases hi
    · obtain ⟨d, hd, rfl⟩ := List.mem_map.mp hi
      exact ⟨d, hd, rfl⟩
  · rintro ⟨d, hd, rfl⟩
    exact .inr ⟨_, List.mem_map_of_mem hd, rfl⟩

end NamedImport

namespace Overrides

variable {o : Overrides} {c : Coordinates} {rule : OverrideRule} {s : DependencySet}
  {x : Dependency} {declared : List NamedImport}

theorem mem_apply_of_none (h : o.rule? c = none) :
    x ∈ (o.apply c s).toList ↔ ∃ d ∈ s.toList, o.pins.apply d = x := by
  rw [apply, h, Ascending.mem_map]

theorem mem_apply_apply (hrule : o.rule? c = some rule) (hkeep : rule.replacement = none) :
    x ∈ (o.apply c (o.apply c s)).toList ↔ x ∈ (o.apply c s).toList := by
  constructor
  · intro hx
    obtain ⟨d, hd | hd, rfl⟩ := (mem_apply hrule hkeep).mp hx
    · obtain ⟨d, hd', rfl⟩ := (mem_apply hrule hkeep).mp hd.1
      rw [Pins.apply_apply]
      exact (mem_apply hrule hkeep).mpr ⟨d, hd', rfl⟩
    · exact (mem_apply hrule hkeep).mpr ⟨d, .inr hd, rfl⟩
  · intro hx
    obtain ⟨d, hd | hd, rfl⟩ := (mem_apply hrule hkeep).mp hx
    · have hname : (o.pins.apply d).name ∉ rule.removals := Pins.name_apply o.pins d ▸ hd.2
      exact (mem_apply hrule hkeep).mpr ⟨_, .inl ⟨hx, hname⟩, Pins.apply_apply o.pins d⟩
    · exact (mem_apply hrule hkeep).mpr ⟨d, .inr hd, rfl⟩

theorem apply_apply (o : Overrides) (c : Coordinates) (s : DependencySet) :
    o.apply c (o.apply c s) = o.apply c s := by
  cases hrule : o.rule? c with
  | none =>
      refine Ascending.ext_mem fun x => ?_
      simp only [mem_apply_of_none hrule]
      constructor
      · rintro ⟨-, ⟨d, hd, rfl⟩, rfl⟩
        exact ⟨d, hd, (Pins.apply_apply o.pins d).symm⟩
      · rintro ⟨d, hd, rfl⟩
        exact ⟨_, ⟨d, hd, rfl⟩, Pins.apply_apply o.pins d⟩
  | some rule =>
      cases hreplaced : rule.replacement with
      | some ds => exact apply_of_replacement hrule hreplaced
      | none => exact Ascending.ext_mem fun x => mem_apply_apply hrule hreplaced

theorem named_named (h : o.rule? c = some rule) :
    o.named c (o.named c declared) = o.named c declared := by
  have hcovers : ∀ d ∈ ([] : List NamedImport), ∃ i ∈ declared, i.target = d.target :=
    fun _ hd => absurd hd List.not_mem_nil
  refine (named_addAll_eq_iff h hcovers).mpr ?_
  rintro ⟨-, -, -, d, hd, -⟩
  exact absurd hd List.not_mem_nil

end Overrides

theorem Platform.marks_setUp_fresh (p : Platform) (id : ModuleId) (c : Coordinates) :
    (p.setUp (Module.fresh id c false)).available = p.supplies c ∧
      (p.setUp (Module.fresh id c false)).fromPlatform = p.supplies c := by
  rw [setUp, Module.coordinates_fresh]
  cases p.supplies c <;> exact ⟨rfl, rfl⟩

namespace Registry

variable {r s : Registry} {p : Platform} {o : Overrides} {id : ModuleId} {c : Coordinates}

theorem overrideImports_eq_self (hr : r.Indexed) (hid : id < r.size) (hl : r.LinkedAt id)
    (hsettled : o.named c (r.namedImports id) = r.namedImports id) :
    r.overrideImports p o id c = r := by
  cases hrule : o.hasRule c with
  | false => exact overrideImports_of_not_hasRule hrule
  | true =>
      have hev := evolves_overrideImports (p := p) hid o c
      have hsize : (r.overrideImports p o id c).size = r.size := by
        refine size_overrideImports hr fun i hi => ?_
        rw [hsettled] at hi
        obtain ⟨k, hk, rfl⟩ := List.mem_map.mp hi
        exact ⟨k.target, (hl k hk).lt_size hr, rfl⟩
      obtain ⟨is, hself⟩ := module_overrideImports (p := p) hid o c
      have hrest := hev.eq_setImports hid hsize (binaryInputs_overrideImports r p o id c)
        (by rw [hself]; rfl)
      have hkept : (r.module id).imports.map (r.overrideImports p o id c).named =
          r.namedImports id :=
        map_named_eq fun i hi => hev.coordinates ((hl i hi).lt_size hr)
      have himports :
          ((r.overrideImports p o id c).module id).imports = (r.module id).imports := by
        refine eq_of_map_named_eq (linkedAt_overrideImports hr hid hrule)
          (fun i hi => hev.canonical hr (hl i hi)) ?_
        rw [hkept, ← hsettled]
        exact namedImports_overrideImports o c hr hid
      rw [hrest, himports]
      exact modify_eq_self rfl

theorem declared_eq (r : Registry) (id : ModuleId) :
    r.declared id = NamedImport.toSet (r.namedImports id) :=
  r.declared_eq_ofList id

def targets (r : Registry) (id : ModuleId) : List Coordinates :=
  (r.module id).imports.map fun i => (r.module i.target).coordinates

theorem targets_eq (r : Registry) (id : ModuleId) :
    r.targets id = (r.namedImports id).map (·.target) := by
  rw [namedImports, List.map_map]
  rfl

structure Overridden (p : Platform) (id : ModuleId) (deps : DependencySet) (r s : Registry) :
    Prop where
  ascending : (s.targets id).Pairwise fun c c' => c.compare c' = .lt
  mem_targets : ∀ c, c ∈ s.targets id ↔ ∃ d ∈ deps.toList, d.coordinates = c
  least : ∀ i ∈ (s.module id).imports, ∃ d ∈ deps.toList,
    d.coordinates = (s.module i.target).coordinates ∧
      (∀ e ∈ deps.toList, e.coordinates = d.coordinates → e.compare d ≠ .lt) ∧
        i = ⟨i.target, d.optional, d.exported, none⟩
  self : s.module id = (r.module id).setImports (s.module id).imports
  others : ∀ j < r.size, j ≠ id → s.module j = r.module j
  binaryInputs : s.binaryInputs = r.binaryInputs
  created : ∀ j, r.size ≤ j → j < s.size →
    ∃ d ∈ deps.toList, s.module j = p.setUp (Module.fresh j d.coordinates false)
  supplied : ∀ j, r.size ≤ j → j < s.size →
    (s.module j).available = p.supplies (s.module j).coordinates ∧
      (s.module j).fromPlatform = p.supplies (s.module j).coordinates

section

variable (hr : r.Indexed) (hid : id < r.size) (hrule : o.hasRule c = true)

include hr hid hrule

theorem namedImports_of_hasRule : (r.overrideImports p o id c).namedImports id =
    NamedImport.ofSet (o.apply c (r.declared id)) := by
  rw [namedImports_overrideImports o c hr hid, Overrides.named, if_pos hrule, declared_eq]
  rfl

theorem exists_least {i : Import} (hi : i ∈ ((r.overrideImports p o id c).module id).imports) :
    ∃ d ∈ (o.apply c (r.declared id)).toList,
      d.coordinates = ((r.overrideImports p o id c).module i.target).coordinates ∧
        (∀ e ∈ (o.apply c (r.declared id)).toList, e.coordinates = d.coordinates →
          e.compare d ≠ .lt) ∧
          i = ⟨i.target, d.optional, d.exported, none⟩ := by
  have hnamed : (r.overrideImports p o id c).named i ∈
      (r.overrideImports p o id c).namedImports id := List.mem_map_of_mem hi
  rw [namedImports_of_hasRule hr hid hrule] at hnamed
  obtain ⟨d, hfind, hd⟩ := NamedImport.mem_ofSet.mp hnamed
  obtain ⟨hmem, hc, hleast⟩ := Ascending.find?_eq_some_iff.mp hfind
  have htarget : d.coordinates = ((r.overrideImports p o id c).module i.target).coordinates :=
    congrArg NamedImport.target hd
  refine ⟨d, hmem, htarget, fun e he hsame => hleast e he (beq_iff_eq.mpr ?_), ?_⟩
  · exact hsame.trans htarget
  · cases i
    simp_all [NamedImport.ofDependency, named]

theorem exists_created {j : ModuleId} (hnew : r.size ≤ j)
    (hj : j < (r.overrideImports p o id c).size) :
    ∃ d ∈ (o.apply c (r.declared id)).toList, (r.overrideImports p o id c).module j =
      p.setUp (Module.fresh j d.coordinates false) := by
  have hev := evolves_overrideImports (p := p) hid o c
  obtain ⟨c', hmodule, hfound⟩ := hev.created j hnew hj
  have hc' : ((r.overrideImports p o id c).module j).coordinates = c' := by
    rw [hmodule, (Module.grows_setUp p _).coordinates, Module.coordinates_fresh]
  rcases (knows_overrideImports hr).mp ⟨j, hj, hc'⟩ with hknown | ⟨-, i, hi, rfl⟩
  · -- coordinates that were known lead to a module that was there
    obtain ⟨k, hk⟩ := Option.isSome_iff_exists.mp ((find?_isSome_iff hr).mpr hknown)
    obtain rfl := Option.some.inj (hfound.symm.trans (hev.found _ _ hk))
    exact absurd (lt_size_and_coordinates_of_find? hr hk).1 (Nat.not_lt.mpr hnew)
  · rw [← namedImports_overrideImports (p := p) o c hr hid,
      namedImports_of_hasRule hr hid hrule] at hi
    obtain ⟨d, hfind, rfl⟩ := NamedImport.mem_ofSet.mp hi
    exact ⟨d, List.mem_of_find?_eq_some hfind, hmodule⟩

theorem overridden_overrideImports :
    Overridden p id (o.apply c (r.declared id)) r (r.overrideImports p o id c) where
  ascending := by
    rw [targets_eq, namedImports_of_hasRule hr hid hrule]
    exact NamedImport.pairwise_target_ofSet _
  mem_targets c' := by
    rw [targets_eq, namedImports_of_hasRule hr hid hrule, List.mem_map]
    exact NamedImport.exists_target_ofSet
  least _ := exists_least hr hid hrule
  self := by
    obtain ⟨is, hself⟩ := module_overrideImports (p := p) hid o c
    rw [hself]
    rfl
  others := (evolves_overrideImports hid o c).others
  binaryInputs := binaryInputs_overrideImports r p o id c
  created _ := exists_created hr hid hrule
  supplied j hnew hj := by
    obtain ⟨d, -, hmodule⟩ := exists_created hr hid hrule hnew hj
    rw [hmodule, (Module.grows_setUp p _).coordinates, Module.coordinates_fresh]
    exact p.marks_setUp_fresh j d.coordinates

end

end Registry

theorem Overrides.settle (o : Overrides) (c : Coordinates) :
    (∀ s, o.apply c (o.apply c s) = o.apply c s) ∧
      ∀ (r : Registry) (p : Platform) (id : ModuleId), r.Indexed → id < r.size →
        (r.applyOverrides p o id c).1.applyOverrides p o id c = r.applyOverrides p o id c := by
  refine ⟨o.apply_apply c, fun r p id hr hid => Prod.ext ?_ rfl⟩
  change (r.overrideImports p o id c).overrideImports p o id c = r.overrideImports p o id c
  cases hrule : o.hasRule c with
  | false => rw [Registry.overrideImports_of_not_hasRule hrule]
  | true =>
      obtain ⟨rule, hsome⟩ := Option.isSome_iff_exists.mp hrule
      have hev := Registry.evolves_overrideImports (p := p) hid o c
      refine Registry.overrideImports_eq_self (hev.indexed hr) (hev.lt_size hid)
        (Registry.linkedAt_overrideImports hr hid hrule) ?_
      rw [Registry.namedImports_overrideImports o c hr hid]
      exact named_named hsome

def hostPlatform : Platform :=
  ⟨"11", "8", ["host"]⟩

def droppingOverrides : Overrides :=
  ⟨[⟨"m", none, none, [⟨"host", "9", false, true⟩], ["old"]⟩], .ofList [("n", "2")]⟩

def threeImportsModules : List Coordinates :=
  [⟨"m", "1"⟩, ⟨"n", "1"⟩, ⟨"n", "3"⟩, ⟨"old", "1"⟩]

def threeImports : Registry :=
  (threeImportsModules.foldl (fun r c => (r.ensure hostPlatform c).1)
    (Registry.init ⟨"vela.lang", "1.0.0"⟩)).modify 2 (·.setImports
      [⟨3, true, false, none⟩, ⟨4, false, true, none⟩, ⟨5, false, false, none⟩])

theorem Overrides.settle_threeImports :
    let first := threeImports.applyOverrides hostPlatform droppingOverrides 2 ⟨"m", "1"⟩
    threeImports.Indexed ∧ 2 < threeImports.size ∧ first.2 = true ∧
      (first.1.module 2).imports = [⟨6, false, true, none⟩, ⟨7, false, true, none⟩] ∧
        first.1.applyOverrides hostPlatform droppingOverrides 2 ⟨"m", "1"⟩ = first := by
  have hr : threeImports.Indexed := by
    unfold Registry.Indexed
    decide +kernel
  have hid : 2 < threeImports.size := by decide +kernel
  exact ⟨hr, hid, by decide +kernel, by decide +kernel,
    (Overrides.settle droppingOverrides ⟨"m", "1"⟩).2 threeImports hostPlatform 2 hr hid⟩

namespace Registry

variable {r : Registry} {p : Platform} {o : Overrides} {id : ModuleId} {c : Coordinates}

theorem overridden_of_rule (hr : r.Indexed) (hid : id < r.size) (p : Platform) (o : Overrides)
    (c : Coordinates) :
    (o.rule? c = none → r.applyOverrides p o id c = (r, false)) ∧
      ∀ rule, o.rule? c = some rule → (r.applyOverrides p o id c).2 = true ∧
        Overridden p id (o.apply c (r.declared id)) r (r.applyOverrides p o id c).1 := by
  constructor
  · intro hnone
    have hrule : o.hasRule c = false := by rw [Overrides.hasRule, hnone]; rfl
    exact Prod.ext (overrideImports_of_not_hasRule hrule) hrule
  · intro rule hsome
    have hrule : o.hasRule c = true := by rw [Overrides.hasRule, hsome]; rfl
    exact ⟨hrule, overridden_overrideImports hr hid hrule⟩

theorem overridden_of_rule_threeImports :
    let call := threeImports.applyOverrides hostPlatform droppingOverrides 2 ⟨"m", "1"⟩
    threeImports.Indexed ∧ 2 < threeImports.size ∧ call.2 = true ∧
      Overridden hostPlatform 2 (droppingOverrides.apply ⟨"m", "1"⟩ (threeImports.declared 2))
        threeImports call.1 ∧
      call.1.targets 2 = [⟨"host", "9"⟩, ⟨"n", "2"⟩] ∧
      threeImports.applyOverrides hostPlatform .empty 2 ⟨"m", "1"⟩ = (threeImports, false) := by
  have hr : threeImports.Indexed := by
    unfold Registry.Indexed
    decide +kernel
  have hid : 2 < threeImports.size := by decide +kernel
  obtain ⟨rule, hrule⟩ : ∃ rule, droppingOverrides.rule? ⟨"m", "1"⟩ = some rule :=
    Option.isSome_iff_exists.mp (by decide +kernel)
  have hruled := (overridden_of_rule hr hid hostPlatform droppingOverrides ⟨"m", "1"⟩).2 rule hrule
  have hfree := (overridden_of_rule hr hid hostPlatform .empty ⟨"m", "1"⟩).1 rfl
  exact ⟨hr, hid, hruled.1, hruled.2, by decide +kernel, hfree⟩

end Registry

end ModuleResolution
