import Mathlib.Data.List.Nodup
import Mathlib.Tactic.Linarith
import ModuleResolution.Proofs.Run
import ModuleResolution.Proofs.Names

namespace ModuleResolution

namespace Registry

variable {r : Registry} {c : Coordinates} {id : ModuleId} {k : String}

theorem intern_of_find?_eq_some (h : r.find? c = some id) : r.intern c = ⟨r, id, false⟩ := by
  rw [intern, h]

theorem intern_of_find?_eq_none (h : r.find? c = none) :
    r.intern c = ⟨r.append c false, r.size, true⟩ := by
  rw [intern, h]
  rfl

theorem similar_append (r : Registry) (c : Coordinates) (d : Bool) (k : String) :
    (r.append c d).similar k =
      r.similar k ++ if Name.normalize c.name = k then [r.size] else [] := by
  have hname : (Module.fresh r.modules.length c d).name = c.name :=
    congrArg Coordinates.name (Module.coordinates_fresh _ c d)
  rw [similar, append, List.filter_append, List.map_append]
  by_cases h : Name.normalize c.name = k
  · rw [if_pos h, List.filter_cons_of_pos (by simpa [hname] using h)]
    rfl
  · rw [if_neg h, List.filter_cons_of_neg (by simpa [hname] using h)]
    rfl

theorem intern_cases (r : Registry) (c : Coordinates) :
    (∃ id, r.find? c = some id ∧ (r.intern c).registry = r) ∨
      r.find? c = none ∧ (r.intern c).registry = r.append c false := by
  cases h : r.find? c with
  | some id => exact .inl ⟨id, rfl, by rw [intern_of_find?_eq_some h]⟩
  | none => exact .inr ⟨rfl, by rw [intern_of_find?_eq_none h]⟩

theorem Indexed.append (h : r.Indexed) (c : Coordinates) (d : Bool) : (r.append c d).Indexed := by
  intro i hi
  rw [size_append] at hi
  rcases Nat.lt_succ_iff_lt_or_eq.mp hi with hi | rfl
  · rw [module_append_of_lt hi, h i hi]
  · rw [module_append_size]
    rfl

def internAll (r : Registry) (cs : List Coordinates) : Registry :=
  cs.foldl (fun r c => (r.intern c).registry) r

theorem internAll_induction {motive : Registry → Prop} {cs : List Coordinates} (h : motive r)
    (happend : ∀ r c, motive r → r.find? c = none → motive (r.append c false)) :
    motive (r.internAll cs) := by
  induction cs generalizing r with
  | nil => exact h
  | cons c cs ih =>
      change motive ((r.intern c).registry.internAll cs)
      rcases intern_cases r c with ⟨id, -, hc⟩ | ⟨hnew, hc⟩
      · exact hc.symm ▸ ih h
      · exact hc.symm ▸ ih (happend r c h hnew)

theorem Indexed.internAll (h : r.Indexed) (cs : List Coordinates) : (r.internAll cs).Indexed :=
  internAll_induction h fun _ c hr _ => hr.append c false

theorem Distinct.internAll (h : r.Distinct) (cs : List Coordinates) : (r.internAll cs).Distinct :=
  internAll_induction h fun _ _ hr hnew => hr.append fun _ => coordinates_ne_of_find? hnew

structure Interning (r : Registry) : Prop where
  id : ∀ i < r.size, (r.module i).id = i
  find? : ∀ c i, r.find? c = some i ↔ i < r.size ∧ (r.module i).coordinates = c
  nodup : (r.modules.map Module.coordinates).Nodup
  found : ∀ c i, r.find? c = some i → r.intern c = ⟨r, i, false⟩
  missing : ∀ c, r.find? c = none →
    r.intern c = ⟨⟨r.modules ++ [Module.fresh r.size c false], r.binaryInputs⟩, r.size, true⟩
  sorted : ∀ k, (r.similar k).Pairwise (· < ·)
  similar : ∀ k i, i ∈ r.similar k ↔ i < r.size ∧ Name.normalize (r.module i).name = k

theorem Distinct.interning (h : r.Distinct) (hr : r.Indexed) : r.Interning where
  id := hr
  find? := fun c i => by
    constructor
    · exact lt_size_and_coordinates_of_find? hr
    · rintro ⟨hi, rfl⟩
      exact h.canonical hr hi
  nodup := by
    rw [modules_eq, List.map_map]
    exact List.Nodup.map_on (fun i hi j hj =>
      h i (List.mem_range.mp hi) j (List.mem_range.mp hj)) List.nodup_range
  found := fun _ _ => intern_of_find?_eq_some
  missing := fun _ => intern_of_find?_eq_none
  sorted := pairwise_similar hr
  similar := fun _ _ => mem_similar hr

end Registry

instance : Hashable Coordinates where
  hash c := mixHash (hash c.name) (hash c.version)

structure Tables where
  byCoordinates : Std.HashMap Coordinates ModuleId
  byName : Std.HashMap String (List ModuleId)

def Tables.insert (t : Tables) (c : Coordinates) (id : ModuleId) : Tables where
  byCoordinates := t.byCoordinates.insert c id
  byName := t.byName.alter (Name.normalize c.name) fun ids => some (ids.getD [] ++ [id])

structure Tabled where
  registry : Registry
  tables : Tables

namespace Tabled

def insert (t : Tabled) (c : Coordinates) (isDefault : Bool) : Tabled :=
  ⟨t.registry.append c isDefault, t.tables.insert c t.registry.size⟩

def init (c : Coordinates) : Tabled :=
  ((⟨⟨[], []⟩, ⟨∅, ∅⟩⟩ : Tabled).insert c false).insert Registry.defaultCoordinates true

def find? (t : Tabled) (c : Coordinates) : Option ModuleId :=
  t.tables.byCoordinates[c]?

def similar (t : Tabled) (normalized : String) : List ModuleId :=
  t.tables.byName.getD normalized []

def intern (t : Tabled) (c : Coordinates) : Tabled × ModuleId × Bool :=
  match t.find? c with
  | some id => (t, id, false)
  | none => (t.insert c false, t.registry.size, true)

def internAll (t : Tabled) (cs : List Coordinates) : Tabled :=
  cs.foldl (fun t c => (t.intern c).1) t

variable {t : Tabled} {c : Coordinates}

structure InStep (t : Tabled) : Prop where
  find? : ∀ c, t.find? c = t.registry.find? c
  similar : ∀ k, t.similar k = t.registry.similar k

theorem InStep.insert (h : t.InStep) (c : Coordinates) (d : Bool) : (t.insert c d).InStep where
  find? := fun c' => by
    have hinsert : (t.insert c d).find? c' =
        if (c == c') = true then some t.registry.size else t.find? c' :=
      Std.HashMap.getElem?_insert
    change _ = (t.registry.append c d).find? c'
    rw [hinsert, Registry.find?_append, h.find?]
    simp only [beq_iff_eq]
  similar := fun k => by
    have hold : t.tables.byName.getD k [] = t.registry.similar k := h.similar k
    change (t.tables.byName.alter (Name.normalize c.name) _).getD k [] =
      (t.registry.append c d).similar k
    rw [Std.HashMap.getD_alter, Registry.similar_append, ← hold, Std.HashMap.getD_eq_getD_getElem?]
    by_cases hk : Name.normalize c.name = k
    · rw [if_pos (by simpa using hk), if_pos hk, hk]
      rfl
    · rw [if_neg (by simpa using hk), if_neg hk, List.append_nil]

theorem inStep_init (c : Coordinates) : (init c).InStep := by
  have hempty : (⟨⟨[], []⟩, ⟨∅, ∅⟩⟩ : Tabled).InStep :=
    ⟨fun _ => Std.HashMap.getElem?_empty, fun _ => Std.HashMap.getD_empty⟩
  exact (hempty.insert c false).insert _ true

theorem InStep.intern (h : t.InStep) (c : Coordinates) :
    (t.intern c).1.InStep ∧ (t.intern c).1.registry = (t.registry.intern c).registry ∧
      (t.intern c).2 = ((t.registry.intern c).id, (t.registry.intern c).created) := by
  rw [Tabled.intern, h.find?]
  cases hf : t.registry.find? c with
  | some id =>
      rw [Registry.intern_of_find?_eq_some hf]
      exact ⟨h, rfl, rfl⟩
  | none =>
      rw [Registry.intern_of_find?_eq_none hf]
      exact ⟨h.insert c false, rfl, rfl⟩

theorem InStep.internAll (h : t.InStep) (cs : List Coordinates) :
    (t.internAll cs).InStep ∧ (t.internAll cs).registry = t.registry.internAll cs := by
  induction cs generalizing t with
  | nil => exact ⟨h, rfl⟩
  | cons c cs ih =>
      obtain ⟨hstep, hregistry, -⟩ := h.intern c
      obtain ⟨hall, heq⟩ := ih hstep
      refine ⟨hall, heq.trans ?_⟩
      rw [hregistry]
      rfl

theorem interning_internAll (hc : c ≠ Registry.defaultCoordinates) (cs : List Coordinates) :
    ((Registry.init c).internAll cs).Interning ∧
      ((init c).internAll cs).registry = (Registry.init c).internAll cs ∧
        ((init c).internAll cs).InStep := by
  have hindexed := (Registry.indexed_init c).internAll cs
  have hdistinct := (Registry.distinct_init hc).internAll cs
  obtain ⟨hstep, hregistry⟩ := (inStep_init c).internAll cs
  exact ⟨hdistinct.interning hindexed, hregistry, hstep⟩

def spellings : List Coordinates :=
  [⟨"org.acme:net-io", "1"⟩, ⟨"org.acme.net.io", "2"⟩, ⟨"a..b", ""⟩, ⟨"", ""⟩,
    ⟨"org.acme:net-io", "1"⟩]

theorem interning_internAll_spellings :
    (⟨"vela.lang", "1.0.0"⟩ : Coordinates) ≠ Registry.defaultCoordinates ∧
      ((Registry.init ⟨"vela.lang", "1.0.0"⟩).internAll spellings).Interning ∧
      ((init ⟨"vela.lang", "1.0.0"⟩).internAll spellings).registry =
        (Registry.init ⟨"vela.lang", "1.0.0"⟩).internAll spellings ∧
      ((init ⟨"vela.lang", "1.0.0"⟩).internAll spellings).InStep :=
  have hc : (⟨"vela.lang", "1.0.0"⟩ : Coordinates) ≠ Registry.defaultCoordinates := by decide
  ⟨hc, interning_internAll hc spellings⟩

example : ((Registry.init ⟨"vela.lang", "1.0.0"⟩).internAll spellings).similar
    "org.acme.net.io" = [2, 3] := by
  decide +kernel

end Tabled

end ModuleResolution
