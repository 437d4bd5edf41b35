import Mathlib.Order.Defs.LinearOrder
import ModuleResolution.Platform

namespace ModuleResolution

namespace Segment

def isNumeric : Segment → Bool
  | numeric _ => true
  | text _ => false

def numberPart : Segment → Nat
  | numeric n => n
  | text _ => 0

def textPart : Segment → String
  | numeric _ => ""
  | text s => s

def compareByKind : Segment → Segment → Ordering :=
  compareLex (compareOn numberPart) (compareOn textPart)

instance instTransCmpByKind : Std.TransCmp compareByKind :=
  inferInstanceAs (Std.TransCmp (compareLex _ _))

theorem compare_eq_compareByKind {l r : Segment} (h : l.isNumeric = r.isNumeric) :
    l.compare r = compareByKind l r := by
  cases l with
  | numeric m =>
      cases r with
      | numeric n => simp [compare, compareByKind, compareLex, compareOn, numberPart, textPart]
      | text t => cases h
  | text s =>
      cases r with
      | numeric n => cases h
      | text t => simp [compare, compareByKind, compareLex, compareOn, numberPart, textPart, render]

instance instOrientedCmp : Std.OrientedCmp compare where
  eq_swap {l r} := by
    cases l with
    | numeric m => cases r <;> exact Std.OrientedOrd.eq_swap
    | text s => cases r <;> exact Std.OrientedOrd.eq_swap

end Segment

namespace Version

variable {a b c : String}

theorem compareSegments_eq (ls rs : List Segment) :
    compareSegments ls rs = List.compareLex Segment.compare ls rs := by
  induction ls generalizing rs with
  | nil => cases rs <;> rfl
  | cons l ls ih =>
      cases rs with
      | nil => rfl
      | cons r rs => rw [compareSegments, ih, List.compareLex_cons_cons]

theorem compare_eq : compare =
    compareLex (Ordering.byKey segments (List.compareLex Segment.compare)) Ord.compare := by
  funext a b
  rw [compare, compareSegments_eq]
  rfl

instance instOrientedCmp : Std.OrientedCmp compare :=
  compare_eq ▸ inferInstance

instance instLawfulEqCmp : Std.LawfulEqCmp compare where
  eq_of_compare h := Std.LawfulEqOrd.eq_of_compare (Ordering.then_eq_eq.mp h).2

theorem compare_swap (a b : String) : compare b a = (compare a b).swap :=
  Std.OrientedCmp.eq_swap

theorem compare_eq_eq : compare a b = .eq ↔ a = b :=
  Std.LawfulEqCmp.compare_eq_iff_eq

theorem ordered_comm (a b : String) : ordered a b = ordered b a := by
  rw [ordered, ordered, compare_swap a b]
  cases h : compare a b with
  | lt => rfl
  | eq => rw [compare_eq_eq.mp h]; rfl
  | gt => rfl

theorem ordered_cases (h : a ≠ b) :
    compare a b = .lt ∧ ordered a b = (a, b) ∨ compare b a = .lt ∧ ordered a b = (b, a) := by
  rw [ordered, compare_swap a b]
  cases hc : compare a b with
  | lt => exact .inl ⟨rfl, rfl⟩
  | eq => exact absurd (compare_eq_eq.mp hc) h
  | gt => exact .inr ⟨rfl, rfl⟩

def KindsAgree (versions : List String) : Prop :=
  ∀ v ∈ versions, ∀ w ∈ versions, ∀ p ∈ (segments v).zip (segments w),
    p.1.isNumeric = p.2.isNumeric

instance (versions : List String) : Decidable (KindsAgree versions) :=
  inferInstanceAs (Decidable (∀ v ∈ versions, ∀ w ∈ versions, ∀ p ∈ _, _ = _))

def compareByKind : String → String → Ordering :=
  compareLex (Ordering.byKey segments (List.compareLex Segment.compareByKind)) Ord.compare

instance instTransCmpByKind : Std.TransCmp compareByKind :=
  inferInstanceAs (Std.TransCmp (compareLex _ _))

theorem compareLex_compare_eq {ls rs : List Segment}
    (h : ∀ p ∈ ls.zip rs, p.1.isNumeric = p.2.isNumeric) :
    List.compareLex Segment.compare ls rs = List.compareLex Segment.compareByKind ls rs := by
  induction ls generalizing rs with
  | nil => cases rs <;> rfl
  | cons l ls ih =>
      cases rs with
      | nil => rfl
      | cons r rs =>
          rw [List.zip_cons_cons, List.forall_mem_cons] at h
          rw [List.compareLex_cons_cons, List.compareLex_cons_cons,
            Segment.compare_eq_compareByKind h.1, ih h.2]

theorem KindsAgree.compare_eq {versions : List String} (h : KindsAgree versions)
    (ha : a ∈ versions) (hb : b ∈ versions) : compare a b = compareByKind a b := by
  rw [Version.compare_eq, compareByKind, compareLex, compareLex, Ordering.byKey, Ordering.byKey,
    compareLex_compare_eq (h a ha b hb)]

theorem KindsAgree.lt_trans {versions : List String} (h : KindsAgree versions) (ha : a ∈ versions)
    (hb : b ∈ versions) (hc : c ∈ versions) (hab : compare a b = .lt) (hbc : compare b c = .lt) :
    compare a c = .lt := by
  rw [h.compare_eq ha hb] at hab
  rw [h.compare_eq hb hc] at hbc
  rw [h.compare_eq ha hc]
  exact Std.TransCmp.lt_trans hab hbc

theorem KindsAgree.le_trans {versions : List String} (h : KindsAgree versions) (ha : a ∈ versions)
    (hb : b ∈ versions) (hc : c ∈ versions) (hab : compare a b ≠ .gt) (hbc : compare b c ≠ .gt) :
    compare a c ≠ .gt := by
  rw [h.compare_eq ha hb] at hab
  rw [h.compare_eq hb hc] at hbc
  rw [h.compare_eq ha hc]
  exact Ordering.isLE_iff_ne_gt.mp (Std.TransCmp.isLE_trans
    (Ordering.isLE_iff_ne_gt.mpr hab) (Ordering.isLE_iff_ne_gt.mpr hbc))

end Version

namespace Platform

variable {p : Platform} {v : String}

theorem provides_iff : p.provides v = true ↔
    Version.compare p.oldest v ≠ .gt ∧ Version.compare v p.version ≠ .gt := by
  simp [provides]

theorem provides_between {u w : String}
    (h : Version.KindsAgree [p.oldest, p.version, u, v, w]) (hu : p.provides u = true)
    (hw : p.provides w = true) (huv : Version.compare u v ≠ .gt)
    (hvw : Version.compare v w ≠ .gt) : p.provides v = true := by
  obtain ⟨hlower, -⟩ := provides_iff.mp hu
  obtain ⟨-, hupper⟩ := provides_iff.mp hw
  exact provides_iff.mpr ⟨h.le_trans (by simp) (by simp) (by simp) hlower huv,
    h.le_trans (by simp) (by simp) (by simp) hvw hupper⟩

end Platform

namespace Version

theorem order_of_kindsAgree :
    (∀ a b, compare b a = (compare a b).swap ∧ (compare a b = .eq ↔ a = b)) ∧
    (∀ a b c, KindsAgree [a, b, c] → compare a b = .lt → compare b c = .lt →
      compare a c = .lt) ∧
    ∀ (p : Platform) (u v w : String), KindsAgree [p.oldest, p.version, u, v, w] →
      p.provides u = true → p.provides w = true → compare u v ≠ .gt → compare v w ≠ .gt →
      p.provides v = true := by
  refine ⟨fun a b => ⟨compare_swap a b, compare_eq_eq⟩, ?_, ?_⟩
  · intro a b c h hab hbc
    exact h.lt_trans (by simp) (by simp) (by simp) hab hbc
  · intro p u v w h hu hw huv hvw
    exact Platform.provides_between h hu hw huv hvw

theorem order_of_kindsAgree_paddedZeros :
    compare "1.00" "1.0" = .gt ∧
    (KindsAgree ["1.0", "1.00", "1.0-rc"] ∧ compare "1.0" "1.00" = .lt ∧
      compare "1.00" "1.0-rc" = .lt ∧ compare "1.0" "1.0-rc" = .lt) ∧
    KindsAgree ["8", "11", "8.0", "9.1-rc", "10"] ∧ compare "8.0" "9.1-rc" ≠ .gt ∧
      compare "9.1-rc" "10" ≠ .gt ∧ (⟨"11", "8", []⟩ : Platform).provides "9.1-rc" = true := by
  obtain ⟨hreversed, htransitive, hconvex⟩ := order_of_kindsAgree
  have hkinds : KindsAgree ["1.0", "1.00", "1.0-rc"] := by decide +kernel
  have hfirst : compare "1.0" "1.00" = .lt := by decide +kernel
  have hsecond : compare "1.00" "1.0-rc" = .lt := by decide +kernel
  have hrange : KindsAgree ["8", "11", "8.0", "9.1-rc", "10"] := by decide +kernel
  have hlower : compare "8.0" "9.1-rc" ≠ .gt := by decide +kernel
  have hupper : compare "9.1-rc" "10" ≠ .gt := by decide +kernel
  refine ⟨?_, ⟨hkinds, hfirst, hsecond, htransitive _ _ _ hkinds hfirst hsecond⟩, hrange, hlower,
    hupper, hconvex ⟨"11", "8", []⟩ "8.0" "9.1-rc" "10" hrange (by decide +kernel)
      (by decide +kernel) hlower hupper⟩
  rw [(hreversed "1.0" "1.00").1, hfirst]
  rfl

example : compare "9" "10" = .lt ∧ compare "10" "1a" = .lt ∧ compare "1a" "9" = .lt := by
  decide +kernel

end Version

end ModuleResolution
