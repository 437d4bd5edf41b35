import ModuleResolution.Proofs.VersionOrder

namespace ModuleResolution

namespace Text

variable {isSep : Char → Bool} {c : Char}

theorem consHead_append (c : Char) {ws : List (List Char)} (h : ws ≠ []) (vs : List (List Char)) :
    consHead c (ws ++ vs) = consHead c ws ++ vs := by
  cases ws with
  | nil => exact absurd rfl h
  | cons w ws => rfl

theorem pieces_append_cons (hc : isSep c = true) (s t : List Char) :
    pieces isSep (s ++ c :: t) = pieces isSep s ++ pieces isSep t := by
  induction s with
  | nil => simp [pieces, hc]
  | cons d s ih =>
      cases hd : isSep d with
      | true => simp [pieces, hd, ih]
      | false =>
          simp only [List.cons_append, pieces, hd, Bool.false_eq_true, if_false, ih]
          exact consHead_append d (pieces_ne_nil isSep s) _

theorem split_push_append (hc : isSep c = true) (s t : String) :
    split isSep (s.push c ++ t) = split isSep s ++ split isSep t := by
  simp [split, pieces_append_cons hc]

theorem compare_append_of_lt (p : String) {a b : String} (h : compare a b = .lt) :
    compare (p ++ a) (p ++ b) = .lt := by
  have hlt : p.toList ++ a.toList < p.toList ++ b.toList :=
    List.append_left_lt (String.lt_iff.mp (compareOfLessAndEq_eq_lt.mp h))
  refine compareOfLessAndEq_eq_lt.mpr (String.lt_iff.mpr ?_)
  rwa [String.toList_append, String.toList_append]

theorem compare_append_left (p a b : String) : compare (p ++ a) (p ++ b) = compare a b := by
  cases h : compare a b with
  | lt => exact compare_append_of_lt p h
  | eq => rw [Std.LawfulEqOrd.eq_of_compare h, Std.ReflOrd.compare_self]
  | gt => exact Std.OrientedCmp.gt_of_lt (compare_append_of_lt p (Std.OrientedCmp.lt_of_gt h))

end Text

namespace Version

variable {c : Char}

theorem segments_push_append (hc : isSeparator c = true) (a b : String) :
    segments (a.push c ++ b) = segments a ++ segments b := by
  rw [segments, Text.split_push_append hc, List.map_append]
  rfl

theorem segments_ne_nil (version : String) : segments version ≠ [] := by
  simp [segments, Text.split, Text.pieces_ne_nil]

theorem compareSegments_append_left (ps ls rs : List Segment) :
    compareSegments (ps ++ ls) (ps ++ rs) = compareSegments ls rs := by
  induction ps with
  | nil => rfl
  | cons p ps ih =>
      have hself : p.compare p = .eq := Std.ReflCmp.compare_self
      rw [List.cons_append, List.cons_append, compareSegments, hself, ih, Ordering.eq_then]

theorem compareSegments_self_append (ls : List Segment) {rs : List Segment} (h : rs ≠ []) :
    compareSegments ls (ls ++ rs) = .lt := by
  have hend : compareSegments (ls ++ []) (ls ++ rs) = compareSegments [] rs :=
    compareSegments_append_left ls [] rs
  rw [List.append_nil] at hend
  rw [hend]
  cases rs with
  | nil => exact absurd rfl h
  | cons r rs => rfl

theorem compare_of_sharedStart (p a b s : String) {c : Char} (hc : c = '.' ∨ c = '-') :
    compare (p.push c ++ a) (p.push c ++ b) = compare a b ∧
      compare a (a.push c ++ s) = .lt := by
  have hsep : isSeparator c = true := by
    rcases hc with rfl | rfl <;> rfl
  constructor
  · rw [compare, segments_push_append hsep, segments_push_append hsep,
      compareSegments_append_left, Text.compare_append_left, compare]
  · rw [compare, segments_push_append hsep, compareSegments_self_append _ (segments_ne_nil s)]
    rfl

theorem compare_of_sharedStart_paddedZeros :
    ('-' = '.' ∨ '-' = '-') ∧ compare "1..0-01" "1..0-1" = .lt ∧ compare "01" "01-" = .lt := by
  obtain ⟨hrest, hlonger⟩ := compare_of_sharedStart "1..0" "01" "1" "" (.inr (Eq.refl '-'))
  have hzeros : compare "01" "1" = .lt := by decide +kernel
  exact ⟨.inr rfl, hrest.trans hzeros, hlonger⟩

end Version

end ModuleResolution
