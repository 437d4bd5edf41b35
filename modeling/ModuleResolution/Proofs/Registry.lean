import ModuleResolution.Platform

namespace ModuleResolution

namespace Module

structure Grows (m n : Module) : Prop where
  sameId : n.id = m.id
  segments : n.segments = m.segments
  version : n.version = m.version
  isDefault : n.isDefault = m.isDefault
  available : m.available = true → n.available = true
  fromPlatform : m.fromPlatform = true → n.fromPlatform = true
  fromBinary : m.fromBinary = true → n.fromBinary = true

variable {m n o : Module}

theorem Grows.refl (m : Module) : m.Grows m :=
  ⟨rfl, rfl, rfl, rfl, fun h => h, fun h => h, fun h => h⟩

theorem Grows.trans (h : m.Grows n) (k : n.Grows o) : m.Grows o where
  sameId := k.sameId.trans h.sameId
  segments := k.segments.trans h.segments
  version := k.version.trans h.version
  isDefault := k.isDefault.trans h.isDefault
  available := fun a => k.available (h.available a)
  fromPlatform := fun a => k.fromPlatform (h.fromPlatform a)
  fromBinary := fun a => k.fromBinary (h.fromBinary a)

theorem Grows.name (h : m.Grows n) : n.name = m.name := by
  simp only [Module.name, h.segments]

theorem Grows.coordinates (h : m.Grows n) : n.coordinates = m.coordinates := by
  simp only [Module.coordinates, h.name, h.version]

theorem grows_addImport (m : Module) (i : Import) : m.Grows (m.addImport i) := by
  rw [addImport_eq]
  split
  · exact Grows.refl m
  · exact ⟨rfl, rfl, rfl, rfl, fun h => h, fun h => h, fun h => h⟩

theorem grows_setImports (m : Module) (is : List Import) : m.Grows (m.setImports is) :=
  ⟨rfl, rfl, rfl, rfl, fun h => h, fun h => h, fun h => h⟩

theorem grows_markAvailable (m : Module) : m.Grows m.markAvailable :=
  ⟨rfl, rfl, rfl, rfl, fun _ => rfl, fun h => h, fun h => h⟩

theorem grows_markFromPlatform (m : Module) : m.Grows m.markFromPlatform :=
  ⟨rfl, rfl, rfl, rfl, fun h => h, fun _ => rfl, fun h => h⟩

theorem grows_markFromBinary (m : Module) : m.Grows m.markFromBinary :=
  ⟨rfl, rfl, rfl, rfl, fun h => h, fun h => h, fun _ => rfl⟩

theorem grows_setBinaryVersion (m : Module) (v : BinaryVersion) : m.Grows (m.setBinaryVersion v) :=
  ⟨rfl, rfl, rfl, rfl, fun h => h, fun h => h, fun h => h⟩

theorem grows_restrictTo (m : Module) (b : Backend) : m.Grows (m.restrictTo b) :=
  ⟨rfl, rfl, rfl, rfl, fun h => h, fun h => h, fun h => h⟩

theorem grows_markNative (m : Module) (b : Backend) :
    m.Grows (m.markFromPlatform.restrictTo b) :=
  (grows_markFromPlatform m).trans (grows_restrictTo _ b)

theorem grows_setUp (p : Platform) (m : Module) : m.Grows (p.setUp m) := by
  unfold Platform.setUp
  split
  · exact (grows_markAvailable m).trans (grows_markNative _ .host)
  · exact Grows.refl m

theorem exists_addImport_eq (m : Module) (i : Import) : ∃ is, m.addImport i = m.setImports is := by
  rw [addImport_eq]
  split
  · exact ⟨m.imports, rfl⟩
  · exact ⟨_, rfl⟩

theorem fromPlatform_addImport (m : Module) (i : Import) :
    (m.addImport i).fromPlatform = m.fromPlatform := by
  obtain ⟨is, his⟩ := exists_addImport_eq m i
  rw [his]
  rfl

theorem binaryVersion_addImport (m : Module) (i : Import) :
    (m.addImport i).binaryVersion = m.binaryVersion := by
  obtain ⟨is, his⟩ := exists_addImport_eq m i
  rw [his]
  rfl

theorem imports_setUp (p : Platform) (m : Module) : (p.setUp m).imports = m.imports := by
  unfold Platform.setUp
  split <;> rfl

theorem binaryVersion_setUp (p : Platform) (m : Module) :
    (p.setUp m).binaryVersion = m.binaryVersion := by
  unfold Platform.setUp
  split <;> rfl

theorem fromPlatform_setUp {p : Platform} (h : (p.setUp m).fromPlatform = true) :
    m.fromPlatform = true ∨ p.supplies m.coordinates = true := by
  unfold Platform.setUp at h
  split at h
  · exact .inr (by assumption)
  · exact .inl h

theorem mem_addImport {i j : Import} (h : j ∈ (m.addImport i).imports) :
    j ∈ m.imports ∨ j = i := by
  rw [addImport_eq] at h
  split at h
  · exact .inl h
  · simpa using h

theorem imports_subset_addImport (m : Module) (i : Import) :
    m.imports ⊆ (m.addImport i).imports := by
  rw [addImport_eq]
  split
  · exact fun _ h => h
  · exact List.subset_append_left _ _

theorem exists_target_addImport (m : Module) (i : Import) :
    ∃ j ∈ (m.addImport i).imports, j.target = i.target := by
  by_cases h : m.imports? i.target = true
  · obtain ⟨j, hj⟩ := Option.isSome_iff_exists.mp h
    refine ⟨j, imports_subset_addImport m i (List.mem_of_find?_eq_some hj), ?_⟩
    simpa using List.find?_some hj
  · exact ⟨i, by simp [addImport_eq, h], rfl⟩

end Module

theorem Platform.available_setUp {p : Platform} {m : Module} (h : p.supplies m.coordinates = true) :
    (p.setUp m).available = true := by
  rw [setUp, if_pos h]
  rfl

namespace Registry

variable {r s t : Registry} {p : Platform} {id j : ModuleId} {c c' : Coordinates}
  {f : Module → Module}

theorem modules_eq (r : Registry) : r.modules = (List.range r.size).map r.module := by
  refine List.ext_getElem (by simp [size]) fun i hi _ => ?_
  simp [module, hi]

theorem ext_module (hsize : s.size = r.size) (hinputs : s.binaryInputs = r.binaryInputs)
    (h : ∀ j < s.size, s.module j = r.module j) : s = r := by
  have hmodules : s.modules = r.modules := by
    rw [modules_eq, modules_eq, ← hsize]
    exact List.map_congr_left fun j hj => h j (List.mem_range.mp hj)
  cases s
  cases r
  cases hmodules
  cases hinputs
  rfl

theorem module_of_size_le (h : r.size ≤ id) : r.module id = Module.fresh id ⟨"", ""⟩ false := by
  simp only [Registry.module, List.getElem?_eq_none (show r.modules.length ≤ id from h),
    Option.getD_none]

theorem lt_size_of_mem {i : Import} (h : i ∈ (r.module id).imports) : id < r.size := by
  rcases Nat.lt_or_ge id r.size with hlt | hge
  · exact hlt
  · rw [module_of_size_le hge] at h
    exact absurd h List.not_mem_nil

@[simp] theorem size_modify (r : Registry) (id : ModuleId) (f : Module → Module) :
    (r.modify id f).size = r.size := by
  simp [size, modify]

@[simp] theorem size_append (r : Registry) (c : Coordinates) (d : Bool) :
    (r.append c d).size = r.size + 1 := by
  simp [size, append]

theorem module_modify_self (h : id < r.size) : (r.modify id f).module id = f (r.module id) := by
  simp only [Registry.module, modify, List.getElem?_modify_eq,
    List.getElem?_eq_getElem (show id < r.modules.length from h)]
  rfl

theorem module_modify_of_ne (h : j ≠ id) : (r.modify id f).module j = r.module j := by
  simp only [Registry.module, modify, List.getElem?_modify_ne f r.modules (Ne.symm h)]

theorem modify_eq_self (h : f (r.module id) = r.module id) : r.modify id f = r := by
  refine ext_module (size_modify r id f) rfl fun j hj => ?_
  by_cases hne : j = id
  · subst hne
    rw [module_modify_self (by simpa using hj), h]
  · rw [module_modify_of_ne hne]

theorem module_append_of_lt {d : Bool} (h : id < r.size) :
    (r.append c d).module id = r.module id := by
  simp only [Registry.module, append, List.getElem?_append_left (show id < r.modules.length from h)]

theorem module_append_size {d : Bool} :
    (r.append c d).module r.size = Module.fresh r.size c d := by
  simp [Registry.module, append, size]

@[simp] theorem module_addBinaryInput (r : Registry) (id : ModuleId) (a : Artifact)
    (j : ModuleId) : (r.addBinaryInput id a).module j = r.module j := by
  rw [addBinaryInput_eq]
  split <;> rfl

@[simp] theorem size_addBinaryInput (r : Registry) (id : ModuleId) (a : Artifact) :
    (r.addBinaryInput id a).size = r.size := by
  rw [addBinaryInput_eq]
  split <;> rfl

def index (r : Registry) : List (Coordinates × ModuleId) :=
  r.modules.map fun m => (m.coordinates, m.id)

theorem find?_eq (r : Registry) (c : Coordinates) :
    r.find? c = (r.index.reverse.find? (·.1 == c)).map (·.2) := by
  simp only [find?, index, ← List.map_reverse, List.find?_map, Option.map_map]
  rfl

theorem index_modify (hf : ∀ m : Module, m.Grows (f m)) : (r.modify id f).index = r.index := by
  refine List.ext_getElem (by simp [index, modify]) fun k _ _ => ?_
  simp only [index, modify, List.getElem_map, List.getElem_modify]
  split
  · rw [(hf _).coordinates, (hf _).sameId]
  · rfl

theorem index_append (r : Registry) (c : Coordinates) (d : Bool) :
    (r.append c d).index = r.index ++ [(c, r.size)] := by
  simp only [index, append, size, List.map_append, List.map_singleton, Module.coordinates_fresh]
  rfl

theorem index_addBinaryInput (r : Registry) (id : ModuleId) (a : Artifact) :
    (r.addBinaryInput id a).index = r.index := by
  rw [addBinaryInput_eq]
  split <;> rfl

def Indexed (r : Registry) : Prop :=
  ∀ id < r.size, (r.module id).id = id

theorem mem_modules {m : Module} : m ∈ r.modules ↔ ∃ k < r.size, r.module k = m := by
  rw [modules_eq, List.mem_map]
  simp only [List.mem_range]

theorem lt_size_and_coordinates_of_find? (h : r.Indexed) (hf : r.find? c = some id) :
    id < r.size ∧ (r.module id).coordinates = c := by
  obtain ⟨m, hm, rfl⟩ := Option.map_eq_some_iff.mp hf
  obtain ⟨k, hk, rfl⟩ := mem_modules.mp (List.mem_reverse.mp (List.mem_of_find?_eq_some hm))
  rw [h k hk]
  exact ⟨hk, by simpa using List.find?_some hm⟩

theorem coordinates_ne_of_find? (hf : r.find? c = none) (h : id < r.size) :
    (r.module id).coordinates ≠ c := by
  intro hc
  have hm : r.module id ∈ r.modules.reverse := List.mem_reverse.mpr (mem_modules.mpr ⟨id, h, rfl⟩)
  have hn := List.find?_eq_none.mp (Option.map_eq_none_iff.mp hf) _ hm
  simp [hc] at hn

theorem ids_filter (h : r.Indexed) (f : Module → Bool) :
    (r.modules.filter f).map (·.id) = (List.range r.size).filter fun i => f (r.module i) := by
  rw [modules_eq, List.filter_map, List.map_map]
  refine (List.map_congr_left fun i hi => ?_).trans (List.map_id _)
  exact h i (List.mem_range.mp (List.mem_filter.mp hi).1)

theorem similar_eq (h : r.Indexed) (k : String) :
    r.similar k = (List.range r.size).filter fun i => Name.normalize (r.module i).name == k :=
  ids_filter h _

theorem mem_similar {k : String} (h : r.Indexed) :
    id ∈ r.similar k ↔ id < r.size ∧ Name.normalize (r.module id).name = k := by
  simp [similar_eq h]

theorem pairwise_similar (h : r.Indexed) (k : String) : (r.similar k).Pairwise (· < ·) := by
  rw [similar_eq h]
  exact List.pairwise_lt_range.filter _

theorem ensure_cases (r : Registry) (p : Platform) (c : Coordinates) :
    (∃ id, r.find? c = some id ∧ r.ensure p c = (r, id)) ∨
    (r.find? c = none ∧ r.ensure p c = ((r.append c false).modify r.size p.setUp, r.size)) := by
  cases hf : r.find? c with
  | some id => exact .inl ⟨id, rfl, by simp [ensure, intern, hf]⟩
  | none => exact .inr ⟨rfl, by simp [ensure, intern, hf, size]⟩

structure Evolves (p : Platform) (id : ModuleId) (r s : Registry) : Prop where
  size_le : r.size ≤ s.size
  others : ∀ j < r.size, j ≠ id → s.module j = r.module j
  self : id < r.size → (r.module id).Grows (s.module id)
  created : ∀ j, r.size ≤ j → j < s.size →
    ∃ c, s.module j = p.setUp (Module.fresh j c false) ∧ s.find? c = some j
  found : ∀ c j, r.find? c = some j → s.find? c = some j

theorem Evolves.refl (p : Platform) (id : ModuleId) (r : Registry) : Evolves p id r r where
  size_le := Nat.le_refl _
  others := fun _ _ _ => rfl
  self := fun _ => .refl _
  created := fun _ h k => absurd k (Nat.not_lt.mpr h)
  found := fun _ _ h => h

theorem Evolves.lt_size (h : Evolves p id r s) (hj : j < r.size) : j < s.size :=
  Nat.lt_of_lt_of_le hj h.size_le

theorem Evolves.trans (hid : id < r.size) (h : Evolves p id r s) (k : Evolves p id s t) :
    Evolves p id r t where
  size_le := Nat.le_trans h.size_le k.size_le
  others := fun j hj hne => (k.others j (h.lt_size hj) hne).trans (h.others j hj hne)
  self := fun _ => (h.self hid).trans (k.self (h.lt_size hid))
  created := by
    intro j hr ht
    by_cases hs : j < s.size
    · obtain ⟨c, hc, hf⟩ := h.created j hr hs
      exact ⟨c, (k.others j hs (Nat.ne_of_gt (Nat.lt_of_lt_of_le hid hr))).trans hc,
        k.found c j hf⟩
    · exact k.created j (Nat.le_of_not_lt hs) ht
  found := fun c j hf => k.found c j (h.found c j hf)

theorem Evolves.grows (h : Evolves p id r s) (hj : j < r.size) :
    (r.module j).Grows (s.module j) := by
  by_cases hne : j = id
  · subst hne
    exact h.self hj
  · rw [h.others j hj hne]
    exact .refl _

theorem Evolves.coordinates (h : Evolves p id r s) (hj : j < r.size) :
    (s.module j).coordinates = (r.module j).coordinates :=
  (h.grows hj).coordinates

structure Later (r s : Registry) : Prop where
  size_le : r.size ≤ s.size
  grows : ∀ j < r.size, (r.module j).Grows (s.module j)

theorem Later.lt_size (h : r.Later s) (hj : j < r.size) : j < s.size :=
  Nat.lt_of_lt_of_le hj h.size_le

theorem Later.coordinates (h : r.Later s) (hj : j < r.size) :
    (s.module j).coordinates = (r.module j).coordinates :=
  (h.grows j hj).coordinates

theorem Evolves.later (h : Evolves p id r s) : r.Later s :=
  ⟨h.size_le, fun _ hj => h.grows hj⟩

theorem Evolves.indexed (h : Evolves p id r s) (hr : r.Indexed) : s.Indexed := by
  intro j hj
  by_cases hjr : j < r.size
  · rw [(h.grows hjr).sameId, hr j hjr]
  · obtain ⟨c, hc, -⟩ := h.created j (Nat.le_of_not_lt hjr) hj
    rw [hc, (Module.grows_setUp p _).sameId]
    rfl

theorem Evolves.eq_of_ne {β : Type} {g : Module → β} (h : Evolves p id r s) (hne : j ≠ id)
    (hsetUp : ∀ m, g (p.setUp m) = g m)
    (hfresh : ∀ c, g (Module.fresh j c false) = g (Module.fresh j ⟨"", ""⟩ false)) :
    g (s.module j) = g (r.module j) := by
  by_cases hr : j < r.size
  · rw [h.others j hr hne]
  · rw [module_of_size_le (Nat.le_of_not_lt hr)]
    by_cases hs : j < s.size
    · obtain ⟨c, hc, -⟩ := h.created j (Nat.le_of_not_lt hr) hs
      rw [hc, hsetUp, hfresh]
    · rw [module_of_size_le (Nat.le_of_not_lt hs)]

theorem Evolves.imports_of_ne (h : Evolves p id r s) (hne : j ≠ id) :
    (s.module j).imports = (r.module j).imports :=
  h.eq_of_ne hne (Module.imports_setUp p) fun _ => rfl

theorem Evolves.fromPlatform_of_ne (h : Evolves p id r s) (hne : j ≠ id)
    (hp : (s.module j).fromPlatform = true) :
    (r.module j).fromPlatform = true ∨ p.supplies (s.module j).coordinates = true := by
  by_cases hr : j < r.size
  · rw [h.others j hr hne] at hp
    exact .inl hp
  · by_cases hs : j < s.size
    · obtain ⟨c, hc, -⟩ := h.created j (Nat.le_of_not_lt hr) hs
      rw [hc] at hp ⊢
      rcases Module.fromPlatform_setUp hp with hf | hf
      · cases hf
      · rw [(Module.grows_setUp p _).coordinates]
        exact .inr hf
    · rw [module_of_size_le (Nat.le_of_not_lt hs)] at hp
      cases hp

theorem find?_append_self (r : Registry) (c : Coordinates) (d : Bool) :
    (r.append c d).find? c = some r.size := by
  rw [find?_eq, index_append, List.reverse_concat, List.find?_cons_of_pos (by simp)]
  rfl

theorem find?_append (r : Registry) (c c' : Coordinates) (d : Bool) :
    (r.append c d).find? c' = if c = c' then some r.size else r.find? c' := by
  split
  next h => exact h ▸ find?_append_self r c d
  next h =>
    rw [find?_eq, find?_eq, index_append, List.reverse_concat,
      List.find?_cons_of_neg (by simpa using h)]

theorem find?_modify (hf : ∀ m : Module, m.Grows (f m)) (c : Coordinates) :
    (r.modify id f).find? c = r.find? c := by
  rw [find?_eq, index_modify hf, ← find?_eq]

theorem evolves_modify (hf : ∀ m : Module, m.Grows (f m)) : Evolves p id r (r.modify id f) where
  size_le := by simp
  others := fun j _ hne => module_modify_of_ne hne
  self := fun h => by
    rw [module_modify_self h]
    exact hf _
  created := fun j h k => absurd k (by simp; omega)
  found := fun c j h => by rwa [find?_modify hf]

theorem find?_ensure (h : r.find? c' = some j) : (r.ensure p c).1.find? c' = some j := by
  rcases ensure_cases r p c with ⟨id, -, he⟩ | ⟨hnone, he⟩
  · rw [he]
    exact h
  · have hne : c ≠ c' := by
      rintro rfl
      cases hnone.symm.trans h
    rw [he, find?_eq, index_modify fun m => Module.grows_setUp p m, index_append,
      List.reverse_concat, List.find?_cons_of_neg (by simpa using hne), ← find?_eq]
    exact h

theorem module_ensure_of_lt (h : j < r.size) : (r.ensure p c).1.module j = r.module j := by
  rcases ensure_cases r p c with ⟨id, -, he⟩ | ⟨-, he⟩
  · rw [he]
  · rw [he, module_modify_of_ne (Nat.ne_of_lt h), module_append_of_lt h]

theorem evolves_ensure (p : Platform) (id : ModuleId) (r : Registry) (c : Coordinates) :
    Evolves p id r (r.ensure p c).1 where
  size_le := by
    rcases ensure_cases r p c with ⟨id, -, he⟩ | ⟨-, he⟩ <;> simp [he]
  others := fun j hj _ => module_ensure_of_lt hj
  self := fun h => by
    rw [module_ensure_of_lt h]
    exact .refl _
  created := by
    intro j hr hs
    rcases ensure_cases r p c with ⟨id, -, he⟩ | ⟨-, he⟩
    · rw [he] at hs
      exact absurd hs (Nat.not_lt.mpr hr)
    · rw [he] at hs ⊢
      simp only [size_modify, size_append] at hs
      obtain rfl : j = r.size := by omega
      refine ⟨c, by rw [module_modify_self (by simp), module_append_size], ?_⟩
      rw [find?_modify fun m => Module.grows_setUp p m, find?_append_self]
  found := fun _ _ h => find?_ensure h

theorem ensure_lt_size (h : r.Indexed) : (r.ensure p c).2 < (r.ensure p c).1.size := by
  rcases ensure_cases r p c with ⟨id, hf, he⟩ | ⟨-, he⟩
  · rw [he]
    exact (lt_size_and_coordinates_of_find? h hf).1
  · simp [he]

theorem coordinates_ensure (h : r.Indexed) :
    ((r.ensure p c).1.module (r.ensure p c).2).coordinates = c := by
  rcases ensure_cases r p c with ⟨id, hf, he⟩ | ⟨-, he⟩
  · rw [he]
    exact (lt_size_and_coordinates_of_find? h hf).2
  · rw [he, module_modify_self (by simp), module_append_size, (Module.grows_setUp p _).coordinates,
      Module.coordinates_fresh]

@[simp] theorem binaryInputs_ensure (r : Registry) (p : Platform) (c : Coordinates) :
    (r.ensure p c).1.binaryInputs = r.binaryInputs := by
  rcases ensure_cases r p c with ⟨id, -, he⟩ | ⟨-, he⟩
  · rw [he]
  · rw [he]
    rfl

def Canonical (r : Registry) (id : ModuleId) : Prop :=
  r.find? (r.module id).coordinates = some id

theorem Canonical.lt_size (h : r.Canonical id) (hr : r.Indexed) : id < r.size :=
  (lt_size_and_coordinates_of_find? hr h).1

theorem Canonical.eq (h : r.Canonical id) (hj : r.Canonical j)
    (hc : (r.module id).coordinates = (r.module j).coordinates) : id = j := by
  rw [Canonical, hc, hj] at h
  exact (Option.some.inj h).symm

theorem Evolves.canonical (h : Evolves p id r s) (hr : r.Indexed) (hj : r.Canonical j) :
    s.Canonical j := by
  rw [Canonical, h.coordinates (hj.lt_size hr)]
  exact h.found _ _ hj

theorem canonical_of_find? (h : r.Indexed) (hf : r.find? c = some id) : r.Canonical id := by
  rw [Canonical, (lt_size_and_coordinates_of_find? h hf).2]
  exact hf

theorem canonical_ensure (h : r.Indexed) : (r.ensure p c).1.Canonical (r.ensure p c).2 := by
  rcases ensure_cases r p c with ⟨id, hf, he⟩ | ⟨-, he⟩
  · rw [he]
    exact canonical_of_find? h hf
  · rw [Canonical, coordinates_ensure h, he, find?_modify fun m => Module.grows_setUp p m,
      find?_append_self]

theorem find?_ensure_self (h : r.Indexed) : (r.ensure p c).1.find? c = some (r.ensure p c).2 := by
  have hcanonical := canonical_ensure (p := p) (c := c) h
  rwa [Canonical, coordinates_ensure h] at hcanonical

def Linked (r : Registry) : Prop :=
  ∀ id, ∀ i ∈ (r.module id).imports, r.Canonical i.target

theorem Linked.lt_size {i : Import} (h : r.Linked) (hr : r.Indexed)
    (hi : i ∈ (r.module id).imports) : i.target < r.size :=
  (h id i hi).lt_size hr

theorem imports_ensure (r : Registry) (p : Platform) (c : Coordinates) (j : ModuleId) :
    ((r.ensure p c).1.module j).imports = (r.module j).imports :=
  (evolves_ensure p (j + 1) r c).imports_of_ne (Nat.ne_of_lt (Nat.lt_succ_self j))

def LinkedAt (r : Registry) (id : ModuleId) : Prop :=
  ∀ i ∈ (r.module id).imports, r.Canonical i.target

theorem linkedAt_ensure (hr : r.Indexed) (h : r.LinkedAt id) : (r.ensure p c).1.LinkedAt id := by
  intro i hi
  rw [imports_ensure] at hi
  exact (evolves_ensure p id r c).canonical hr (h i hi)

theorem linked_ensure (hr : r.Indexed) (h : r.Linked) : (r.ensure p c).1.Linked :=
  fun id => linkedAt_ensure hr (h id)

theorem linkedAt_modify (hr : r.Indexed) (hf : ∀ m : Module, m.Grows (f m)) (hid : id < r.size)
    (hnew : ∀ i ∈ (f (r.module id)).imports, r.Canonical i.target) :
    (r.modify id f).LinkedAt id := by
  have hev : Evolves ⟨"", "", []⟩ id r (r.modify id f) := evolves_modify hf
  intro i hi
  rw [module_modify_self hid] at hi
  exact hev.canonical hr (hnew i hi)

theorem linked_modify (hr : r.Indexed) (h : r.Linked) (hf : ∀ m : Module, m.Grows (f m))
    (hnew : id < r.size → ∀ i ∈ (f (r.module id)).imports, r.Canonical i.target) :
    (r.modify id f).Linked := by
  have hev : Evolves ⟨"", "", []⟩ id r (r.modify id f) := evolves_modify hf
  intro j i hi
  have hj := lt_size_of_mem hi
  rw [size_modify] at hj
  refine hev.canonical hr ?_
  by_cases hne : j = id
  · subst hne
    rw [module_modify_self hj] at hi
    exact hnew hj i hi
  · rw [module_modify_of_ne hne] at hi
    exact h j i hi

end Registry

end ModuleResolution
