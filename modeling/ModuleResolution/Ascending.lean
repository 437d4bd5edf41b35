namespace ModuleResolution

structure Ascending {α : Type} (cmp : α → α → Ordering) where
  toList : List α
  ascending : toList.Pairwise fun a b => cmp a b = .lt

namespace Ascending

variable {α : Type} {cmp : α → α → Ordering}

def place (cmp : α → α → Ordering) (a : α) : List α → List α
  | [] => [a]
  | b :: bs =>
      match cmp a b with
      | .lt => a :: b :: bs
      | .eq => a :: bs
      | .gt => b :: place cmp a bs

theorem mem_place {a x : α} : ∀ {l : List α}, x ∈ place cmp a l → x = a ∨ x ∈ l := by
  intro l
  induction l with
  | nil => intro h; simpa [place] using h
  | cons b bs ih =>
      intro h
      simp only [place] at h
      cases hc : cmp a b with
      | lt => rw [hc] at h; simpa using h
      | eq =>
          rw [hc] at h
          rcases List.mem_cons.mp h with h | h
          · exact .inl h
          · exact .inr (List.mem_cons_of_mem _ h)
      | gt =>
          rw [hc] at h
          rcases List.mem_cons.mp h with h | h
          · exact .inr (h ▸ List.mem_cons_self ..)
          · exact (ih h).imp id (List.mem_cons_of_mem _)

theorem pairwise_place [Std.TransCmp cmp] (a : α) :
    ∀ {l : List α}, l.Pairwise (fun x y => cmp x y = .lt) →
      (place cmp a l).Pairwise (fun x y => cmp x y = .lt) := by
  intro l
  induction l with
  | nil => intro _; simp [place]
  | cons b bs ih =>
      intro h
      have hb := (List.pairwise_cons.mp h).1
      have hbs := (List.pairwise_cons.mp h).2
      simp only [place]
      cases hc : cmp a b with
      | lt =>
          refine List.pairwise_cons.mpr ⟨?_, h⟩
          intro x hx
          rcases List.mem_cons.mp hx with rfl | hx
          · exact hc
          · exact Std.TransCmp.lt_trans hc (hb x hx)
      | eq =>
          refine List.pairwise_cons.mpr ⟨?_, hbs⟩
          intro x hx
          exact Std.TransCmp.lt_of_eq_of_lt hc (hb x hx)
      | gt =>
          refine List.pairwise_cons.mpr ⟨?_, ih hbs⟩
          intro x hx
          rcases mem_place hx with rfl | hx
          · exact Std.OrientedCmp.lt_of_gt hc
          · exact hb x hx

def empty : Ascending cmp := ⟨[], .nil⟩

def insert [Std.TransCmp cmp] (a : α) (s : Ascending cmp) : Ascending cmp :=
  ⟨place cmp a s.toList, pairwise_place a s.ascending⟩

def insertAll [Std.TransCmp cmp] (s : Ascending cmp) (as : List α) : Ascending cmp :=
  as.foldl (fun s a => s.insert a) s

def ofList [Std.TransCmp cmp] (as : List α) : Ascending cmp :=
  empty.insertAll as

def filter (p : α → Bool) (s : Ascending cmp) : Ascending cmp :=
  ⟨s.toList.filter p, s.ascending.filter p⟩

def map [Std.TransCmp cmp] (f : α → α) (s : Ascending cmp) : Ascending cmp :=
  ofList (s.toList.map f)

theorem ext {s t : Ascending cmp} (h : s.toList = t.toList) : s = t := by
  cases s; cases t; simp_all

instance [DecidableEq α] : DecidableEq (Ascending cmp) := fun s t =>
  if h : s.toList = t.toList then isTrue (ext h) else isFalse fun e => h (e ▸ rfl)

instance [Repr α] : Repr (Ascending cmp) := ⟨fun s n => reprPrec s.toList n⟩

end Ascending

end ModuleResolution
