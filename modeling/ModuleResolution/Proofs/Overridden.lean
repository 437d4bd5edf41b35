import Mathlib.Data.List.Sort
import ModuleResolution.Proofs.Known

namespace ModuleResolution

namespace Ascending

variable {α : Type} {cmp : α → α → Ordering} {a x : α} {s : Ascending cmp}

theorem mem_place_iff [Std.LawfulEqCmp cmp] {l : List α} :
    x ∈ place cmp a l ↔ x = a ∨ x ∈ l := by
  refine ⟨mem_place, ?_⟩
  induction l with
  | nil => simp [place]
  | cons b bs ih =>
      intro h
      simp only [place]
      cases hc : cmp a b with
      | lt => simpa using h
      | eq =>
          obtain rfl := Std.LawfulEqCmp.eq_of_compare hc
          simpa using h
      | gt =>
          rcases h with rfl | h
          · exact List.mem_cons_of_mem _ (ih (.inl rfl))
          · rcases List.mem_cons.mp h with rfl | h
            · exact List.mem_cons_self
            · exact List.mem_cons_of_mem _ (ih (.inr h))

variable [Std.TransCmp cmp] [Std.LawfulEqCmp cmp]

theorem mem_insertAll {as : List α} :
    x ∈ (s.insertAll as).toList ↔ x ∈ s.toList ∨ x ∈ as := by
  induction as generalizing s with
  | nil => simp [insertAll]
  | cons a as ih =>
      rw [show s.insertAll (a :: as) = (s.insert a).insertAll as from rfl, ih]
      simp only [insert, mem_place_iff, List.mem_cons]
      rw [or_comm (a := x = a), or_assoc]

theorem mem_ofList {as : List α} : x ∈ (ofList as : Ascending cmp).toList ↔ x ∈ as :=
  mem_insertAll.trans (or_iff_right List.not_mem_nil)

theorem mem_map {f : α → α} : x ∈ (s.map f).toList ↔ ∃ a ∈ s.toList, f a = x := by
  rw [map, mem_ofList, List.mem_map]

theorem le_of_find? {p : α → Bool} {b : α} {l : List α}
    (hl : l.Pairwise fun x y => cmp x y = .lt) (hfind : l.find? p = some a) (hb : b ∈ l)
    (hpb : p b = true) : cmp b a ≠ .lt := by
  induction l with
  | nil => cases hb
  | cons c cs ih =>
      obtain ⟨hc, hcs⟩ := List.pairwise_cons.mp hl
      cases hpc : p c with
      | true =>
          rw [List.find?_cons_of_pos hpc] at hfind
          obtain rfl := Option.some.inj hfind
          rcases List.mem_cons.mp hb with rfl | hb
          · simp [Std.ReflCmp.compare_self]
          · simp [Std.OrientedCmp.gt_of_lt (hc b hb)]
      | false =>
          rw [List.find?_cons_of_neg (by simp [hpc])] at hfind
          rcases List.mem_cons.mp hb with rfl | hb
          · exact absurd (hpc.symm.trans hpb) Bool.false_ne_true
          · exact ih hcs hfind hb

theorem find?_eq_some_iff {p : α → Bool} :
    s.toList.find? p = some a ↔
      a ∈ s.toList ∧ p a = true ∧ ∀ b ∈ s.toList, p b = true → cmp b a ≠ .lt := by
  constructor
  · intro h
    exact ⟨List.mem_of_find?_eq_some h, List.find?_some h, fun b => le_of_find? s.ascending h⟩
  · rintro ⟨ha, hp, hleast⟩
    obtain ⟨m, hm⟩ := Option.isSome_iff_exists.mp (List.find?_isSome.mpr ⟨a, ha, hp⟩)
    have hle := hleast m (List.mem_of_find?_eq_some hm) (List.find?_some hm)
    have hge := le_of_find? s.ascending hm ha hp
    rw [hm]
    cases hc : cmp a m with
    | lt => exact absurd hc hge
    | eq => rw [Std.LawfulEqCmp.eq_of_compare hc]
    | gt => exact absurd (Std.OrientedCmp.lt_of_gt hc) hle

end Ascending

def Coordinates.compare : Coordinates → Coordinates → Ordering :=
  compareLex (compareOn name) (compareOn version)

instance : Std.TransCmp Coordinates.compare :=
  inferInstanceAs (Std.TransCmp (compareLex _ _))

theorem Dependency.compare_coordinates {d e : Dependency} (h : d.compare e = .lt)
    (hne : d.coordinates ≠ e.coordinates) : d.coordinates.compare e.coordinates = .lt := by
  simp only [compare, Coordinates.compare, compareLex, compareOn, coordinates] at h ⊢
  cases hname : Ord.compare d.name e.name with
  | lt => rfl
  | gt => simp [hname] at h
  | eq =>
      cases hversion : Ord.compare d.version e.version with
      | lt => rfl
      | gt => simp [hname, hversion] at h
      | eq =>
          refine absurd ?_ hne
          rw [coordinates, coordinates, Std.LawfulEqCmp.eq_of_compare hname,
            Std.LawfulEqCmp.eq_of_compare hversion]

instance Dependency.instLawfulEqCmp : Std.LawfulEqCmp Dependency.compare where
  compare_self := Std.ReflCmp.compare_self
  eq_of_compare {a b} h := by
    obtain ⟨hname, hrest⟩ := compareLex_eq_eq.mp h
    obtain ⟨hversion, hrest⟩ := compareLex_eq_eq.mp hrest
    obtain ⟨hoptional, hexported⟩ := compareLex_eq_eq.mp hrest
    cases a
    cases b
    simp_all [compareOn]

namespace NamedImport

variable {i : NamedImport} {is js : List NamedImport} {c : Coordinates}

def Distinct (is : List NamedImport) : Prop :=
  (is.map (·.target)).Nodup

theorem distinct_nil : Distinct [] :=
  List.nodup_nil

theorem distinct_addAll (h : Distinct is) : Distinct (addAll is js) := by
  induction js generalizing is with
  | nil => exact h
  | cons j js ih =>
      refine ih ?_
      cases hany : is.any (·.target == j.target) with
      | true => rwa [add_of_any hany]
      | false =>
          have hnot : j.target ∉ is.map (·.target) := by simpa using hany
          rw [add_of_not_any hany, Distinct, List.map_append, List.map_singleton,
            ← List.concat_eq_append]
          exact (List.nodup_concat _ _).mpr ⟨hnot, h⟩

theorem find?_addAll :
    (addAll is js).find? (·.target == c) = (is ++ js).find? (·.target == c) := by
  induction js generalizing is with
  | nil => rw [List.append_nil]; rfl
  | cons j js ih =>
      rw [show addAll is (j :: js) = addAll (add is j) js from rfl, ih]
      cases hany : is.any (·.target == j.target) with
      | false => rw [add_of_not_any hany, List.append_assoc, List.singleton_append]
      | true =>
          rw [add_of_any hany, List.find?_append, List.find?_append, List.find?_cons]
          cases hj : j.target == c with
          | false => rfl
          | true =>
              -- the edge that is there already is found first
              obtain ⟨i, hi, htarget⟩ : ∃ i ∈ is, i.target = j.target := by simpa using hany
              have hfound : (is.find? (·.target == c)).isSome = true :=
                List.find?_isSome.mpr ⟨i, hi, by rw [htarget]; exact hj⟩
              obtain ⟨k, hk⟩ := Option.isSome_iff_exists.mp hfound
              rw [hk]
              rfl

theorem Distinct.mem_iff (h : Distinct is) :
    i ∈ is ↔ is.find? (·.target == i.target) = some i := by
  refine ⟨fun hi => ?_, List.mem_of_find?_eq_some⟩
  have hfound : (is.find? (·.target == i.target)).isSome = true :=
    List.find?_isSome.mpr ⟨i, hi, by simp⟩
  obtain ⟨k, hk⟩ := Option.isSome_iff_exists.mp hfound
  have htarget : k.target = i.target := by simpa using List.find?_some hk
  rw [hk, List.inj_on_of_nodup_map h (List.mem_of_find?_eq_some hk) hi htarget]

theorem mem_addAll_nil : i ∈ addAll [] js ↔ js.find? (·.target == i.target) = some i := by
  rw [(distinct_addAll distinct_nil).mem_iff, find?_addAll, List.nil_append]

theorem sublist_addAll : (addAll is js).Sublist (is ++ js) := by
  induction js generalizing is with
  | nil => rw [List.append_nil]; exact List.Sublist.refl _
  | cons j js ih =>
      change (addAll (add is j) js).Sublist _
      refine ih.trans ?_
      cases hany : is.any (·.target == j.target) with
      | true =>
          rw [add_of_any hany]
          exact (List.Sublist.refl is).append (List.sublist_cons_self j js)
      | false =>
          rw [add_of_not_any hany, List.append_assoc]
          exact List.Sublist.refl _

theorem mem_addAll (h : Distinct is) :
    i ∈ addAll is js ↔ i ∈ is ∨ i ∈ addAll [] js ∧ ∀ j ∈ is, j.target ≠ i.target := by
  rw [(distinct_addAll h).mem_iff, find?_addAll, List.find?_append, Option.or_eq_some_iff,
    ← h.mem_iff, mem_addAll_nil, List.find?_eq_none, and_comm]
  simp only [beq_iff_eq]

def toSet (is : List NamedImport) : DependencySet :=
  .ofList (is.map (·.asDependency))

theorem mem_toSet {d : Dependency} : d ∈ (toSet is).toList ↔ ∃ i ∈ is, i.asDependency = d := by
  rw [toSet, Ascending.mem_ofList, List.mem_map]

def ofSet (s : DependencySet) : List NamedImport :=
  addAll [] (s.toList.map .ofDependency)

variable {s t : DependencySet}

theorem distinct_ofSet (s : DependencySet) : Distinct (ofSet s) :=
  distinct_addAll distinct_nil

theorem find?_ofSet : (ofSet s).find? (·.target == c) =
    (s.toList.find? (·.coordinates == c)).map .ofDependency := by
  rw [ofSet, find?_addAll, List.nil_append, List.find?_map]
  rfl

theorem mem_ofSet :
    i ∈ ofSet s ↔
      ∃ d, s.toList.find? (·.coordinates == i.target) = some d ∧ .ofDependency d = i := by
  rw [(distinct_ofSet s).mem_iff, find?_ofSet, Option.map_eq_some_iff]

theorem pairwise_ofSet (s : DependencySet) :
    (ofSet s).Pairwise fun i j => Dependency.compare i.asDependency j.asDependency = .lt := by
  refine List.Pairwise.sublist sublist_addAll ?_
  rw [List.nil_append, List.pairwise_map]
  exact s.ascending

theorem ofSet_eq_iff :
    ofSet s = ofSet t ↔
      ∀ c, s.toList.find? (·.coordinates == c) = t.toList.find? (·.coordinates == c) := by
  constructor
  · intro h c
    have hfind := congrArg (List.find? (·.target == c)) h
    rw [find?_ofSet, find?_ofSet] at hfind
    have hinjective : Function.Injective ofDependency :=
      Function.LeftInverse.injective (g := asDependency) fun _ => rfl
    exact Option.map_injective hinjective hfind
  · intro h
    refine List.Perm.eq_of_pairwise (fun i j _ _ hij hji => ?_) (pairwise_ofSet s)
      (pairwise_ofSet t) ?_
    · simp [Std.OrientedCmp.gt_of_lt hij] at hji
    · refine (List.perm_ext_iff_of_nodup ?_ ?_).mpr fun i => by rw [mem_ofSet, mem_ofSet, h]
      · exact (distinct_ofSet s).of_map
      · exact (distinct_ofSet t).of_map

theorem pairwise_target_ofSet (s : DependencySet) :
    ((ofSet s).map (·.target)).Pairwise fun c c' => c.compare c' = .lt := by
  have hdistinct := List.pairwise_map.mp (distinct_ofSet s)
  refine List.pairwise_map.mpr (((pairwise_ofSet s).and hdistinct).imp ?_)
  exact fun h => Dependency.compare_coordinates h.1 h.2

theorem map_target_ofSet_eq
    (h : ∀ c, (∃ i ∈ ofSet s, i.target = c) ↔ ∃ i ∈ ofSet t, i.target = c) :
    (ofSet s).map (·.target) = (ofSet t).map (·.target) := by
  refine List.Perm.eq_of_pairwise (fun c c' _ _ hlt hlt' => ?_) (pairwise_target_ofSet s)
    (pairwise_target_ofSet t) ?_
  · simp [Std.OrientedCmp.gt_of_lt hlt] at hlt'
  · refine (List.perm_ext_iff_of_nodup (distinct_ofSet s) (distinct_ofSet t)).mpr fun c => ?_
    rw [List.mem_map, List.mem_map]
    exact h c

end NamedImport

namespace Pins

variable {pins : Pins} {d e : Dependency}

theorem name_apply (pins : Pins) (d : Dependency) : (pins.apply d).name = d.name := by
  unfold apply
  split <;> rfl

theorem apply_apply (pins : Pins) (d : Dependency) :
    pins.apply (pins.apply d) = pins.apply d := by
  cases h : pins.version? d.name with
  | none => simp [apply, h]
  | some version => simp [apply, h]

theorem coordinates_apply_eq (pins : Pins) (e : Dependency) :
    (pins.apply e).coordinates = ⟨e.name, (pins.version? e.name).getD e.version⟩ := by
  unfold apply
  cases h : pins.version? e.name <;> rfl

theorem coordinates_apply_eq_iff : (pins.apply d).coordinates = (pins.apply e).coordinates ↔
    d.name = e.name ∧ (pins.version? e.name = none → d.version = e.version) := by
  simp only [coordinates_apply_eq, Coordinates.mk.injEq]
  refine and_congr_right fun hname => ?_
  rw [hname]
  cases pins.version? e.name <;> simp

theorem coordinates_apply (h : d.coordinates = e.coordinates) :
    (pins.apply d).coordinates = (pins.apply e).coordinates :=
  coordinates_apply_eq_iff.mpr
    ⟨congrArg Coordinates.name h, fun _ => congrArg Coordinates.version h⟩

theorem apply_eq_self (he : pins.apply e = e) (h : d.coordinates = e.coordinates) :
    pins.apply d = d := by
  have hname : d.name = e.name := congrArg Coordinates.name h
  have hversion : d.version = e.version := congrArg Coordinates.version h
  unfold apply at he ⊢
  rw [hname]
  split at he
  · next version _ =>
    have hsame : version = e.version := congrArg Dependency.version he
    rw [hsame, ← hversion, ← hname]
  · rfl

end Pins

namespace OverrideRule

variable {rule : OverrideRule} {s : DependencySet} {d : Dependency}

def base (rule : OverrideRule) (s : DependencySet) : List Dependency :=
  rule.replacement.getD s.toList

theorem mem_apply : d ∈ (rule.apply s).toList ↔
    d ∈ rule.base s ∧ d.name ∉ rule.removals ∨ d ∈ rule.additions := by
  simp only [apply, base, Ascending.mem_insertAll, Ascending.filter, List.mem_filter,
    Bool.not_eq_true', List.contains_eq_mem, decide_eq_false_iff_not]
  cases rule.replacement with
  | none => rfl
  | some ds => simp only [Ascending.mem_ofList, Option.getD_some]

end OverrideRule

namespace Overrides

open NamedImport

variable {o : Overrides} {c : Coordinates} {rule : OverrideRule} {s t : DependencySet}
  {x : Dependency} {deps declared : List NamedImport}

theorem named_of_rule (h : o.rule? c = some rule) :
    o.named c declared = ofSet (o.apply c (toSet declared)) := by
  rw [named, hasRule, h]
  rfl

theorem mem_apply_of_rule (h : o.rule? c = some rule) :
    x ∈ (o.apply c s).toList ↔ ∃ d ∈ (rule.apply s).toList, o.pins.apply d = x := by
  rw [apply, h, Ascending.mem_map]

theorem mem_apply (hrule : o.rule? c = some rule) (hkeep : rule.replacement = none) :
    x ∈ (o.apply c s).toList ↔
      ∃ d, (d ∈ s.toList ∧ d.name ∉ rule.removals ∨ d ∈ rule.additions) ∧
        o.pins.apply d = x := by
  rw [mem_apply_of_rule hrule]
  simp only [OverrideRule.mem_apply, OverrideRule.base, hkeep, Option.getD_none]

theorem apply_of_replacement {ds : List Dependency} (hrule : o.rule? c = some rule)
    (hreplaced : rule.replacement = some ds) : o.apply c s = o.apply c t := by
  simp only [apply, hrule, OverrideRule.apply, hreplaced]

def again (o : Overrides) (c : Coordinates) (deps : List NamedImport) (s : DependencySet) :
    DependencySet :=
  o.apply c (toSet (addAll (ofSet (o.apply c s)) deps))

def Shifts (o : Overrides) (c : Coordinates) (deps edges : List NamedImport) : Prop :=
  ∃ rule, o.rule? c = some rule ∧ rule.replacement = none ∧
    ∃ d ∈ addAll [] deps, d.target.name ∉ rule.removals ∧
      o.pins.apply d.asDependency ≠ d.asDependency ∧
        ∃ i ∈ edges, i.target = (o.pins.apply d.asDependency).coordinates ∧
          Dependency.compare (o.pins.apply d.asDependency) i.asDependency = .lt

section

variable (hrule : o.rule? c = some rule) (hkeep : rule.replacement = none)

include hrule hkeep

theorem apply_asDependency {i : NamedImport} (hi : i ∈ ofSet (o.apply c s)) :
    o.pins.apply i.asDependency = i.asDependency := by
  obtain ⟨m, hfind, rfl⟩ := mem_ofSet.mp hi
  obtain ⟨d, -, rfl⟩ := (mem_apply hrule hkeep).mp (List.mem_of_find?_eq_some hfind)
  exact Pins.apply_apply o.pins d

theorem target_ne_of_pinned {i d : NamedImport} (hi : i ∈ ofSet (o.apply c s))
    (hpinned : o.pins.apply d.asDependency ≠ d.asDependency) : i.target ≠ d.target := by
  intro htarget
  have hsettled := apply_asDependency hrule hkeep hi
  exact hpinned (Pins.apply_eq_self hsettled (e := i.asDependency) htarget.symm)

theorem mem_again_of_mem_ofSet {i : NamedImport} (hi : i ∈ ofSet (o.apply c s)) :
    i.asDependency ∈ (o.again c deps s).toList := by
  have hsettled := apply_asDependency hrule hkeep hi
  have hkept : i ∈ addAll (ofSet (o.apply c s)) deps :=
    (mem_addAll (distinct_ofSet _)).mpr (.inl hi)
  obtain ⟨m, hfind, rfl⟩ := mem_ofSet.mp hi
  obtain ⟨d, hd, hpin⟩ := (mem_apply hrule hkeep).mp (List.mem_of_find?_eq_some hfind)
  change o.pins.apply d = m at hpin
  refine (mem_apply hrule hkeep).mpr ?_
  rcases hd with ⟨-, hname⟩ | hadded
  · rw [← Pins.name_apply o.pins d, hpin] at hname
    exact ⟨m, .inl ⟨mem_toSet.mpr ⟨_, hkept, rfl⟩, hname⟩, hsettled⟩
  · exact ⟨d, .inr hadded, hpin⟩

theorem mem_again (hx : x ∈ (o.again c deps s).toList) :
    x ∈ (o.apply c s).toList ∨ ∃ d ∈ addAll [] deps,
      (∀ i ∈ ofSet (o.apply c s), i.target ≠ d.target) ∧
        d.target.name ∉ rule.removals ∧ o.pins.apply d.asDependency = x := by
  obtain ⟨y, hy, rfl⟩ := (mem_apply hrule hkeep).mp hx
  rcases hy with ⟨hy, hname⟩ | hadded
  · obtain ⟨i, hi, rfl⟩ := mem_toSet.mp hy
    rcases (mem_addAll (distinct_ofSet _)).mp hi with hi | ⟨hi, hnew⟩
    · rw [apply_asDependency hrule hkeep hi]
      obtain ⟨m, hfind, rfl⟩ := mem_ofSet.mp hi
      exact .inl (List.mem_of_find?_eq_some hfind)
    · exact .inr ⟨i, hi, hnew, hname, rfl⟩
  · exact .inl ((mem_apply hrule hkeep).mpr ⟨y, .inr hadded, rfl⟩)

section

variable (hcovers : ∀ d ∈ deps, ∃ x ∈ s.toList, x.coordinates = d.target)

include hcovers

theorem exists_coordinates_of_mem_again (hx : x ∈ (o.again c deps s).toList) :
    ∃ y ∈ (o.apply c s).toList, y.coordinates = x.coordinates := by
  rcases mem_again hrule hkeep hx with hx | ⟨d, hd, -, hname, rfl⟩
  · exact ⟨x, hx, rfl⟩
  · have hdeps : d ∈ deps := List.mem_of_find?_eq_some (mem_addAll_nil.mp hd)
    obtain ⟨y, hy, hyd⟩ := hcovers d hdeps
    have hyname : y.name ∉ rule.removals := by
      rwa [show y.name = d.target.name from congrArg Coordinates.name hyd]
    exact ⟨_, (mem_apply hrule hkeep).mpr ⟨y, .inl ⟨hy, hyname⟩, rfl⟩,
      Pins.coordinates_apply (e := d.asDependency) hyd⟩

theorem ofSet_again_of_not_shifts (hshifts : ¬ o.Shifts c deps (ofSet (o.apply c s))) :
    ofSet (o.again c deps s) = ofSet (o.apply c s) := by
  refine ofSet_eq_iff.mpr fun c' => ?_
  cases hfind : (o.apply c s).toList.find? (·.coordinates == c') with
  | some m =>
      obtain ⟨-, hc, hleast⟩ := Ascending.find?_eq_some_iff.mp hfind
      have htarget : m.coordinates = c' := by simpa using hc
      have hi : .ofDependency m ∈ ofSet (o.apply c s) :=
        mem_ofSet.mpr ⟨m, by rw [← hfind, ← htarget]; rfl, rfl⟩
      refine Ascending.find?_eq_some_iff.mpr
        ⟨mem_again_of_mem_ofSet hrule hkeep hi, hc, fun b hb hbc hlt => ?_⟩
      rcases mem_again hrule hkeep hb with hb | ⟨d, hd, hnew, hname, rfl⟩
      · exact hleast b hb hbc hlt
      · have hjoins : (o.pins.apply d.asDependency).coordinates = m.coordinates := by
          simpa [htarget] using hbc
        refine hshifts ⟨rule, hrule, hkeep, d, hd, hname, fun hfree => ?_, _, hi, hjoins.symm, hlt⟩
        rw [hfree] at hjoins
        exact hnew _ hi hjoins.symm
  | none =>
      rw [List.find?_eq_none] at hfind ⊢
      intro b hb hbc
      obtain ⟨y, hy, hyb⟩ := exists_coordinates_of_mem_again hrule hkeep hcovers hb
      exact hfind y hy (by rwa [hyb])

end

theorem ofSet_again_of_shifts (hshifts : o.Shifts c deps (ofSet (o.apply c s))) :
    ofSet (o.again c deps s) ≠ ofSet (o.apply c s) := by
  intro hsame
  obtain ⟨rule', hrule', -, d, hd, hname, hpinned, i, hi, htarget, hlt⟩ := hshifts
  obtain rfl := Option.some.inj (hrule.symm.trans hrule')
  have hnew (j : NamedImport) (hj : j ∈ ofSet (o.apply c s)) : j.target ≠ d.target :=
    target_ne_of_pinned hrule hkeep hj hpinned
  have hadded : d ∈ addAll (ofSet (o.apply c s)) deps :=
    (mem_addAll (distinct_ofSet _)).mpr (.inr ⟨hd, hnew⟩)
  have hshifted : o.pins.apply d.asDependency ∈ (o.again c deps s).toList :=
    (mem_apply hrule hkeep).mpr
      ⟨_, .inl ⟨mem_toSet.mpr ⟨d, hadded, rfl⟩, hname⟩, rfl⟩
  rw [← hsame] at hi
  obtain ⟨m, hfind, rfl⟩ := mem_ofSet.mp hi
  obtain ⟨-, -, hleast⟩ := Ascending.find?_eq_some_iff.mp hfind
  exact hleast _ hshifted (by simp [htarget]) hlt

end

theorem covers_toSet (hcovers : ∀ d ∈ deps, ∃ i ∈ declared, i.target = d.target) :
    ∀ d ∈ deps, ∃ x ∈ (toSet declared).toList, x.coordinates = d.target := by
  intro d hd
  obtain ⟨i, hi, htarget⟩ := hcovers d hd
  exact ⟨i.asDependency, mem_toSet.mpr ⟨i, hi, rfl⟩, htarget⟩

section

variable (hrule : o.rule? c = some rule)
  (hcovers : ∀ d ∈ deps, ∃ i ∈ declared, i.target = d.target)

include hrule

theorem named_addAll : o.named c (addAll (o.named c declared) deps) =
    ofSet (o.again c deps (toSet declared)) := by
  rw [named_of_rule hrule, named_of_rule hrule]
  rfl

include hcovers

theorem named_addAll_eq_iff :
    o.named c (addAll (o.named c declared) deps) = o.named c declared ↔
      ¬ o.Shifts c deps (o.named c declared) := by
  rw [named_addAll hrule, named_of_rule hrule]
  cases hkeep : rule.replacement with
  | some ds =>
      rw [again, apply_of_replacement hrule hkeep]
      refine iff_of_true rfl ?_
      rintro ⟨rule', hrule', hkeep', -⟩
      obtain rfl := Option.some.inj (hrule.symm.trans hrule')
      cases hkeep.symm.trans hkeep'
  | none =>
      exact ⟨fun hsame hshifts => ofSet_again_of_shifts hrule hkeep hshifts hsame,
        ofSet_again_of_not_shifts hrule hkeep (covers_toSet hcovers)⟩

theorem map_target_named_addAll : (o.named c (addAll (o.named c declared) deps)).map (·.target) =
    (o.named c declared).map (·.target) := by
  rw [named_addAll hrule, named_of_rule hrule]
  cases hkeep : rule.replacement with
  | some ds => rw [again, apply_of_replacement hrule hkeep]
  | none =>
      refine map_target_ofSet_eq fun c' => ⟨?_, ?_⟩
      · rintro ⟨i, hi, rfl⟩
        obtain ⟨x, hfind, rfl⟩ := mem_ofSet.mp hi
        obtain ⟨y, hy, hyx⟩ := exists_coordinates_of_mem_again hrule hkeep (covers_toSet hcovers)
          (List.mem_of_find?_eq_some hfind)
        exact target_addAll.mpr (.inr ⟨_, List.mem_map_of_mem hy, hyx⟩)
      · rintro ⟨i, hi, rfl⟩
        have hkept : i.asDependency ∈ (o.again c deps (toSet declared)).toList :=
          mem_again_of_mem_ofSet hrule hkeep hi
        exact target_addAll.mpr (.inr ⟨_, List.mem_map_of_mem hkept, rfl⟩)

end

theorem not_shifts (hmade : ∀ d ∈ addAll [] deps, d ∈ declared) :
    ¬ o.Shifts c deps (o.named c declared) := by
  rintro ⟨rule, hrule, hkeep, d, hd, hname, -, i, hi, htarget, hlt⟩
  rw [named_of_rule hrule] at hi
  obtain ⟨m, hfind, rfl⟩ := mem_ofSet.mp hi
  obtain ⟨-, -, hleast⟩ := Ascending.find?_eq_some_iff.mp hfind
  have hmem : d.asDependency ∈ (toSet declared).toList :=
    mem_toSet.mpr ⟨d, hmade d hd, rfl⟩
  refine hleast _ ((mem_apply hrule hkeep).mpr ⟨_, .inl ⟨hmem, hname⟩, rfl⟩) ?_ hlt
  simp [htarget]

end Overrides

end ModuleResolution
