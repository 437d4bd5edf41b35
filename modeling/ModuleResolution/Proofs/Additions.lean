import ModuleResolution.Proofs.Overriding

namespace ModuleResolution

namespace Dependency

variable {d e : Dependency}

def LessMarked (d e : Dependency) : Prop :=
  d.optional < e.optional ∨ d.optional = e.optional ∧ d.exported < e.exported

theorem compare_eq_lt_iff (h : d.coordinates = e.coordinates) :
    d.compare e = .lt ↔ d.LessMarked e := by
  have hname : d.name = e.name := congrArg Coordinates.name h
  have hversion : d.version = e.version := congrArg Coordinates.version h
  simp only [compare, compareLex, compareOn, hname, hversion, Std.ReflCmp.compare_self,
    Ordering.eq_then, LessMarked]
  generalize d.optional = a, e.optional = b, d.exported = x, e.exported = y
  revert a b x y
  decide

theorem eq_of_coordinates (h : d.coordinates = e.coordinates)
    (hmarks : d.optional = e.optional ∧ d.exported = e.exported) : d = e := by
  cases d
  cases e
  simp_all [coordinates]

end Dependency

namespace Pins

variable {pins : Pins} {d e : Dependency}

theorem marks_apply (pins : Pins) (d : Dependency) :
    (pins.apply d).optional = d.optional ∧ (pins.apply d).exported = d.exported := by
  unfold apply
  split <;> exact ⟨rfl, rfl⟩

theorem lessMarked_apply : (pins.apply d).LessMarked (pins.apply e) ↔ d.LessMarked e := by
  simp only [Dependency.LessMarked, marks_apply]

end Pins

namespace OverrideRule

variable {rule : OverrideRule} {s : DependencySet} {d e : Dependency}

def Forestalls (rule : OverrideRule) (pins : Pins) (s : DependencySet) (e : Dependency) : Prop :=
  rule.replacement = none ∧ e.name ∉ rule.removals ∧ ∃ d ∈ s.toList, d.name = e.name ∧
    (pins.version? e.name = none → d.version = e.version) ∧ d.LessMarked e

theorem eq_or_kept (hsole : rule.entries.filter (·.name == e.name) = [e])
    (hd : d ∈ (rule.apply s).toList) (hname : d.name = e.name) :
    d = e ∨ rule.replacement = none ∧ e.name ∉ rule.removals ∧ d ∈ s.toList := by
  have hentry (h : d ∈ rule.entries) : d = e := by
    have hmem : d ∈ rule.entries.filter (·.name == e.name) :=
      List.mem_filter.mpr ⟨h, beq_iff_eq.mpr hname⟩
    rw [hsole] at hmem
    exact List.mem_singleton.mp hmem
  rcases mem_apply.mp hd with ⟨hbase, hkept⟩ | hadded
  · rw [base] at hbase
    cases hreplaced : rule.replacement with
    | some ds =>
        rw [hreplaced] at hbase
        refine .inl (hentry (List.mem_append_left _ ?_))
        rwa [hreplaced]
    | none =>
        rw [hreplaced] at hbase
        exact .inr ⟨rfl, hname ▸ hkept, hbase⟩
  · exact .inl (hentry (List.mem_append_right _ hadded))

end OverrideRule

namespace Overrides

variable {o : Overrides} {c : Coordinates} {rule : OverrideRule} {s : DependencySet}
  {e : Dependency}

theorem exists_lt_addition_iff (hrule : o.rule? c = some rule)
    (hsole : rule.entries.filter (·.name == e.name) = [e]) :
    (∃ x ∈ (o.apply c s).toList, x.coordinates = (o.pins.apply e).coordinates ∧
      x.compare (o.pins.apply e) = .lt) ↔ rule.Forestalls o.pins s e := by
  constructor
  · rintro ⟨x, hx, hc, hlt⟩
    obtain ⟨d, hd, rfl⟩ := (mem_apply_of_rule hrule).mp hx
    obtain ⟨hname, hversion⟩ := Pins.coordinates_apply_eq_iff.mp hc
    rcases OverrideRule.eq_or_kept hsole hd hname with rfl | ⟨hkeep, hkept, hmem⟩
    · simp [Std.ReflCmp.compare_self] at hlt
    · rw [Dependency.compare_eq_lt_iff hc, Pins.lessMarked_apply] at hlt
      exact ⟨hkeep, hkept, d, hmem, hname, hversion, hlt⟩
  · rintro ⟨hkeep, hkept, d, hmem, hname, hversion, hless⟩
    have hc := Pins.coordinates_apply_eq_iff.mpr ⟨hname, hversion⟩
    exact ⟨_, (mem_apply hrule hkeep).mpr ⟨d, .inl ⟨hmem, hname ▸ hkept⟩, rfl⟩, hc,
      (Dependency.compare_eq_lt_iff hc).mpr (Pins.lessMarked_apply.mpr hless)⟩

end Overrides

namespace Registry

variable {r s : Registry} {p : Platform} {o : Overrides} {id : ModuleId} {c : Coordinates}
  {deps : DependencySet} {d e : Dependency} {rule : OverrideRule}

namespace Overridden

variable (h : Overridden p id deps r s)

include h

theorem eq_of_target {i j : Import} (hi : i ∈ (s.module id).imports)
    (hj : j ∈ (s.module id).imports)
    (hc : (s.module i.target).coordinates = (s.module j.target).coordinates) : i = j :=
  List.inj_on_of_nodup_map (Ascending.nodup_of_pairwise h.ascending) hi hj hc

theorem exists_edge (hd : d ∈ deps.toList) :
    ∃ i ∈ (s.module id).imports, (s.module i.target).coordinates = d.coordinates :=
  List.mem_map.mp ((h.mem_targets d.coordinates).mpr ⟨d, hd, rfl⟩)

theorem marks_iff {i : Import} (hi : i ∈ (s.module id).imports) (hd : d ∈ deps.toList)
    (hc : (s.module i.target).coordinates = d.coordinates) :
    i.optional = d.optional ∧ i.exported = d.exported ↔
      ¬ ∃ x ∈ deps.toList, x.coordinates = d.coordinates ∧ x.compare d = .lt := by
  obtain ⟨m, hm, hmc, hleast, himport⟩ := h.least i hi
  have hsame : m.coordinates = d.coordinates := hmc.trans hc
  rw [himport]
  constructor
  · rintro hmarks ⟨x, hx, hxc, hlt⟩
    obtain rfl := Dependency.eq_of_coordinates hsame hmarks
    exact hleast x hx hxc hlt
  · intro hfirst
    cases hcmp : m.compare d with
    | lt => exact absurd ⟨m, hm, hsame, hcmp⟩ hfirst
    | eq =>
        obtain rfl := Std.LawfulEqCmp.eq_of_compare hcmp
        exact ⟨rfl, rfl⟩
    | gt => exact absurd (Std.OrientedCmp.lt_of_gt hcmp) (hleast d hd hsame.symm)

end Overridden

theorem addition_marks_iff (hr : r.Indexed) (hid : id < r.size) (p : Platform)
    (hrule : o.rule? c = some rule) (he : e ∈ rule.additions)
    (hsole : rule.entries.filter (·.name == e.name) = [e]) :
    let s := (r.applyOverrides p o id c).1
    let target : Coordinates := ⟨e.name, (o.pins.version? e.name).getD e.version⟩
    ∃ i ∈ (s.module id).imports, (s.module i.target).coordinates = target ∧
      (∀ j ∈ (s.module id).imports, (s.module j.target).coordinates = target → j = i) ∧
        (i.optional = e.optional ∧ i.exported = e.exported ↔
          ¬ rule.Forestalls o.pins (r.declared id) e) := by
  intro s target
  have hruled : o.hasRule c = true := by rw [Overrides.hasRule, hrule]; rfl
  have h : Overridden p id (o.apply c (r.declared id)) r s :=
    overridden_overrideImports hr hid hruled
  have hadded : o.pins.apply e ∈ (o.apply c (r.declared id)).toList :=
    (Overrides.mem_apply_of_rule hrule).mpr ⟨e, OverrideRule.mem_apply.mpr (.inr he), rfl⟩
  obtain ⟨i, hi, hc⟩ := h.exists_edge hadded
  have htarget : (s.module i.target).coordinates = target :=
    hc.trans (o.pins.coordinates_apply_eq e)
  refine ⟨i, hi, htarget, fun j hj hjc => h.eq_of_target hj hi (hjc.trans htarget.symm), ?_⟩
  obtain ⟨hoptional, hexported⟩ := o.pins.marks_apply e
  rw [← hoptional, ← hexported, h.marks_iff hi hadded hc,
    Overrides.exists_lt_addition_iff hrule hsole]

def exportedAddition : Dependency :=
  ⟨"n", "1", false, true⟩

def exportingRule : OverrideRule :=
  ⟨"m", some "1", none, [exportedAddition], []⟩

def exportingOverrides : Overrides :=
  ⟨[exportingRule], .empty⟩

def unexportedImport (optional : Bool) : Registry :=
  let modules := [⟨"m", "1"⟩, ⟨"n", "1"⟩].foldl (fun r c => (r.ensure hostPlatform c).1)
    (init ⟨"vela.lang", "1.0.0"⟩)
  modules.modify 2 (·.addImport ⟨3, optional, false, none⟩)

theorem addition_marks_iff_optionalImport :
    let r := unexportedImport true
    let s := (r.applyOverrides hostPlatform exportingOverrides 2 ⟨"m", "1"⟩).1
    r.Indexed ∧ 2 < r.size ∧ exportingOverrides.rule? ⟨"m", "1"⟩ = some exportingRule ∧
      exportedAddition ∈ exportingRule.additions ∧
      exportingRule.entries.filter (·.name == exportedAddition.name) = [exportedAddition] ∧
      ¬ exportingRule.Forestalls exportingOverrides.pins (r.declared 2) exportedAddition ∧
      ∃ i ∈ (s.module 2).imports, (s.module i.target).coordinates = ⟨"n", "1"⟩ ∧
        i.optional = exportedAddition.optional ∧ i.exported = exportedAddition.exported := by
  intro r s
  have hr : r.Indexed := by
    unfold Indexed
    decide +kernel
  have hid : 2 < r.size := by decide +kernel
  have hfree :
      ¬ exportingRule.Forestalls exportingOverrides.pins (r.declared 2) exportedAddition := by
    unfold OverrideRule.Forestalls Dependency.LessMarked
    decide +kernel
  obtain ⟨i, hi, htarget, -, hmarks⟩ := addition_marks_iff hr hid hostPlatform
    (o := exportingOverrides) (c := ⟨"m", "1"⟩) (e := exportedAddition) rfl
    List.mem_cons_self rfl
  exact ⟨hr, hid, rfl, List.mem_cons_self, rfl, hfree, i, hi, htarget, hmarks.mpr hfree⟩

theorem unexported_addition_plainImport :
    let r := unexportedImport false
    let s := (r.applyOverrides hostPlatform exportingOverrides 2 ⟨"m", "1"⟩).1
    r.Indexed ∧ 2 < r.size ∧ exportingOverrides.validate = .ok () ∧
      exportingOverrides.rule? ⟨"m", "1"⟩ = some exportingRule ∧
      exportedAddition ∈ exportingRule.additions ∧
      exportingRule.entries.filter (·.name == exportedAddition.name) = [exportedAddition] ∧
      ¬ ∃ i ∈ (s.module 2).imports, (s.module i.target).coordinates = ⟨"n", "1"⟩ ∧
        i.optional = exportedAddition.optional ∧ i.exported = exportedAddition.exported := by
  refine ⟨?_, by decide +kernel, rfl, rfl, List.mem_cons_self, rfl, by decide +kernel⟩
  unfold Indexed
  decide +kernel

end Registry

end ModuleResolution
