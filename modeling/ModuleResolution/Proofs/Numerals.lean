import Mathlib.Data.List.Basic
import Mathlib.Tactic.Linarith
import ModuleResolution.Proofs.VersionOrder

namespace ModuleResolution

namespace Text

theorem decimal_eq {cs : List Char} (h : ∀ c ∈ cs, c.isDigit = true) :
    decimal cs = Nat.ofDigitChars 10 cs 0 := by
  refine List.foldl_ext _ _ _ fun n c hc => ?_
  rw [digitValue, if_pos (h c hc)]

theorem ofDigitChars_cons (c : Char) (cs : List Char) :
    Nat.ofDigitChars 10 (c :: cs) 0 =
      10 ^ cs.length * (c.toNat - '0'.toNat) + Nat.ofDigitChars 10 cs 0 := by
  rw [Nat.ofDigitChars_cons, Nat.ofDigitChars_eq_ofDigitChars_zero, Nat.mul_zero, Nat.zero_add]

theorem ofDigitChars_lt {cs : List Char} (h : ∀ c ∈ cs, c.isDigit = true) :
    Nat.ofDigitChars 10 cs 0 < 10 ^ cs.length := by
  induction cs with
  | nil => simp
  | cons c cs ih =>
      rw [List.forall_mem_cons] at h
      have hdigit : c.toNat - '0'.toNat ≤ 9 :=
        Nat.sub_le_sub_right (Char.isDigit_iff_toNat.mp h.1).2 _
      have hrest := ih h.2
      rw [ofDigitChars_cons, List.length_cons, pow_succ]
      nlinarith

theorem ofDigitChars_lt_of_lt {cs ds : List Char} (hcs : ∀ c ∈ cs, c.isDigit = true)
    (hds : ∀ d ∈ ds, d.isDigit = true) (hlength : cs.length = ds.length) (hlt : cs < ds) :
    Nat.ofDigitChars 10 cs 0 < Nat.ofDigitChars 10 ds 0 := by
  induction cs generalizing ds with
  | nil =>
      cases ds with
      | nil => exact absurd hlt (List.lt_irrefl [])
      | cons d ds => cases hlength
  | cons c cs ih =>
      cases ds with
      | nil => cases hlength
      | cons d ds =>
          rw [List.forall_mem_cons] at hcs hds
          have hlen : cs.length = ds.length := Nat.succ.inj hlength
          rw [ofDigitChars_cons, ofDigitChars_cons, hlen]
          rcases List.cons_lt_cons_iff.mp hlt with hhead | ⟨rfl, htail⟩
          · have hdigit : c.toNat - '0'.toNat + 1 ≤ d.toNat - '0'.toNat :=
              Nat.sub_lt_sub_right (Char.isDigit_iff_toNat.mp hcs.1).1 hhead
            have hrest := ofDigitChars_lt hcs.2
            rw [hlen] at hrest
            calc 10 ^ ds.length * (c.toNat - '0'.toNat) + Nat.ofDigitChars 10 cs 0
                < 10 ^ ds.length * (c.toNat - '0'.toNat + 1) := by linarith
              _ ≤ 10 ^ ds.length * (d.toNat - '0'.toNat) := Nat.mul_le_mul_left _ hdigit
              _ ≤ _ := Nat.le_add_right _ _
          · exact Nat.add_lt_add_left (ih hcs.2 hds.2 hlen htail) _

def IsNumeral (s : String) : Prop :=
  s ≠ "" ∧ s.toList.all Char.isDigit = true

instance (s : String) : Decidable (IsNumeral s) :=
  inferInstanceAs (Decidable (_ ∧ _))

def number (s : String) : Nat :=
  Nat.ofDigitChars 10 s.toList 0

theorem IsNumeral.isDigit {s : String} (h : IsNumeral s) : ∀ c ∈ s.toList, c.isDigit = true :=
  List.all_eq_true.mp h.2

theorem number_repr (n : Nat) : number n.repr = n := by
  rw [number, Nat.toList_repr, Nat.ofDigitChars_ten_toDigits]

theorem isDigit_of_mem_repr {n : Nat} {c : Char} (h : c ∈ n.repr.toList) : c.isDigit = true := by
  rw [Nat.toList_repr] at h
  exact Nat.isDigit_of_mem_toDigits (by decide) (by decide) h

variable {s t : String}

theorem compare_eq_of_length_eq (hs : ∀ c ∈ s.toList, c.isDigit = true)
    (ht : ∀ c ∈ t.toList, c.isDigit = true) (hlength : s.length = t.length) :
    Ord.compare s t = Ord.compare (number s) (number t) := by
  cases hc : Ord.compare s t with
  | lt =>
      have hlt : s < t := compareOfLessAndEq_eq_lt.mp hc
      exact (Nat.compare_eq_lt.mpr (ofDigitChars_lt_of_lt hs ht hlength hlt)).symm
  | eq =>
      rw [Std.LawfulEqOrd.eq_of_compare hc]
      exact Std.ReflOrd.compare_self.symm
  | gt =>
      have hc' := Std.OrientedCmp.lt_of_gt hc
      have hlt : t < s := compareOfLessAndEq_eq_lt.mp hc'
      exact (Nat.compare_eq_gt.mpr (ofDigitChars_lt_of_lt ht hs hlength.symm hlt)).symm

end Text

namespace Segment

variable {s t : String}

theorem compare_eq_eq {l r : Segment} : l.compare r = .eq ↔ l.render = r.render := by
  cases l with
  | numeric m =>
      cases r with
      | numeric n =>
          refine Std.LawfulEqOrd.compare_eq_iff_eq.trans ⟨congrArg Nat.repr, fun h => ?_⟩
          rw [← Text.number_repr m, ← Text.number_repr n]
          exact congrArg Text.number h
      | text t => exact Std.LawfulEqOrd.compare_eq_iff_eq
  | text s => cases r <;> exact Std.LawfulEqOrd.compare_eq_iff_eq

def shown (s : String) : String :=
  (ofString s).render

theorem ofString_of_lt (h : Text.IsNumeral s) (hfits : Text.number s < numericLimit) :
    ofString s = .numeric (Text.number s) := by
  have hdecimal : Text.decimal s.toList = Text.number s := Text.decimal_eq h.isDigit
  have hnumeric : (!s.toList.isEmpty && s.toList.all Char.isDigit &&
      decide (Text.decimal s.toList < numericLimit)) = true := by
    simp [hdecimal, h.1, h.2, hfits]
  rw [ofString, if_pos hnumeric, hdecimal]

theorem ofString_of_le (h : Text.IsNumeral s) (hlong : numericLimit ≤ Text.number s) :
    ofString s = .text s := by
  have hdecimal : Text.decimal s.toList = Text.number s := Text.decimal_eq h.isDigit
  have hnumeric : ¬ (!s.toList.isEmpty && s.toList.all Char.isDigit &&
      decide (Text.decimal s.toList < numericLimit)) = true := by
    simp [hdecimal, hlong]
  rw [ofString, if_neg hnumeric]

theorem shown_of_lt (h : Text.IsNumeral s) (hfits : Text.number s < numericLimit) :
    shown s = (Text.number s).repr := by
  rw [shown, ofString_of_lt h hfits]
  rfl

theorem shown_of_le (h : Text.IsNumeral s) (hlong : numericLimit ≤ Text.number s) :
    shown s = s := by
  rw [shown, ofString_of_le h hlong]
  rfl

theorem isDigit_of_mem_shown (h : Text.IsNumeral s) :
    ∀ c ∈ (shown s).toList, c.isDigit = true := by
  rcases Nat.lt_or_ge (Text.number s) numericLimit with hfits | hlong
  · rw [shown_of_lt h hfits]
    exact fun c => Text.isDigit_of_mem_repr
  · rw [shown_of_le h hlong]
    exact h.isDigit

theorem number_shown (h : Text.IsNumeral s) : Text.number (shown s) = Text.number s := by
  rcases Nat.lt_or_ge (Text.number s) numericLimit with hfits | hlong
  · rw [shown_of_lt h hfits, Text.number_repr]
  · rw [shown_of_le h hlong]

theorem compare_shown (hs : Text.IsNumeral s) (ht : Text.IsNumeral t)
    (hlength : (shown s).length = (shown t).length) :
    Ord.compare (shown s) (shown t) = Ord.compare (Text.number s) (Text.number t) := by
  rw [Text.compare_eq_of_length_eq (isDigit_of_mem_shown hs) (isDigit_of_mem_shown ht) hlength,
    number_shown hs, number_shown ht]

theorem compare_ofString_of_lt (hs : Text.IsNumeral s) (ht : Text.IsNumeral t)
    (hsfits : Text.number s < numericLimit) (htfits : Text.number t < numericLimit) :
    (ofString s).compare (ofString t) = Ord.compare (Text.number s) (Text.number t) := by
  rw [ofString_of_lt hs hsfits, ofString_of_lt ht htfits]
  rfl

theorem compare_ofString_of_le (hs : Text.IsNumeral s) (ht : Text.IsNumeral t)
    (hlong : numericLimit ≤ Text.number s ∨ numericLimit ≤ Text.number t) :
    (ofString s).compare (ofString t) = Ord.compare (shown s) (shown t) := by
  rcases hlong with hlong | hlong
  · rw [shown, shown, ofString_of_le hs hlong]
    rfl
  · rw [shown, shown, ofString_of_le ht hlong]
    cases ofString s <;> rfl

end Segment

namespace Version

open Text Segment

variable {a b s t : String} {ss ts : List String}

def texts (version : String) : List String :=
  Text.split isSeparator version

def numbers (version : String) : List Nat :=
  (texts version).map number

def AllNumerals (version : String) : Prop :=
  ∀ s ∈ texts version, IsNumeral s

instance (version : String) : Decidable (AllNumerals version) :=
  inferInstanceAs (Decidable (∀ s ∈ texts version, IsNumeral s))

inductive Misread : List String → List String → Prop
  | here {s t : String} {ss ts : List String}
      (hlong : numericLimit ≤ number s ∨ numericLimit ≤ number t)
      (hlength : (shown s).length ≠ (shown t).length)
      (horder : Ord.compare (shown s) (shown t) ≠
        List.compareLex Ord.compare ((s :: ss).map number) ((t :: ts).map number)) :
      Misread (s :: ss) (t :: ts)
  | later {s t : String} {ss ts : List String}
      (hshown : shown s = shown t) (htail : Misread ss ts) : Misread (s :: ss) (t :: ts)

theorem Misread.exists_long (h : Misread ss ts) :
    ∃ s ∈ ss ++ ts, numericLimit ≤ number s := by
  induction h with
  | here hlong =>
      rcases hlong with hlong | hlong
      · exact ⟨_, by simp, hlong⟩
      · exact ⟨_, by simp, hlong⟩
  | later _ _ ih =>
      obtain ⟨s, hs, hlong⟩ := ih
      refine ⟨s, ?_, hlong⟩
      rcases List.mem_append.mp hs with hs | hs <;> simp [hs]

theorem misread_cons_of_shown_eq (hshown : shown s = shown t) :
    Misread (s :: ss) (t :: ts) ↔ Misread ss ts := by
  refine ⟨fun h => ?_, .later hshown⟩
  cases h with
  | here _ hlength _ => exact absurd (congrArg String.length hshown) hlength
  | later _ htail => exact htail

theorem misread_cons_of_shown_ne (hshown : shown s ≠ shown t) :
    Misread (s :: ss) (t :: ts) ↔ (numericLimit ≤ number s ∨ numericLimit ≤ number t) ∧
      (shown s).length ≠ (shown t).length ∧ Ord.compare (shown s) (shown t) ≠
        List.compareLex Ord.compare ((s :: ss).map number) ((t :: ts).map number) := by
  refine ⟨fun h => ?_, fun h => .here h.1 h.2.1 h.2.2⟩
  cases h with
  | here hlong hlength horder => exact ⟨hlong, hlength, horder⟩
  | later heq _ => exact absurd heq hshown

instance decidableMisread : (ss ts : List String) → Decidable (Misread ss ts)
  | [], _ => isFalse nofun
  | _ :: _, [] => isFalse nofun
  | s :: ss, t :: ts =>
      if hshown : shown s = shown t then
        have := decidableMisread ss ts
        decidable_of_iff _ (misread_cons_of_shown_eq hshown).symm
      else
        decidable_of_iff _ (misread_cons_of_shown_ne hshown).symm

theorem then_eq_left {o o' : Ordering} (h : o ≠ .eq) : o.then o' = o := by
  cases o with
  | lt => rfl
  | eq => exact absurd rfl h
  | gt => rfl

theorem compareLex_numbers_of_ne (h : number s ≠ number t) :
    List.compareLex Ord.compare ((s :: ss).map number) ((t :: ts).map number) =
      Ord.compare (number s) (number t) := by
  rw [List.map_cons, List.map_cons, List.compareLex_cons_cons]
  exact then_eq_left (mt Std.LawfulEqOrd.eq_of_compare h)

theorem compareSegments_cons_of_shown_ne (hs : IsNumeral s) (ht : IsNumeral t)
    (hshown : shown s ≠ shown t) :
    (ofString s).compare (ofString t) =
        List.compareLex Ord.compare ((s :: ss).map number) ((t :: ts).map number) ↔
      ¬ Misread (s :: ss) (t :: ts) := by
  rw [misread_cons_of_shown_ne hshown]
  by_cases hlong : numericLimit ≤ number s ∨ numericLimit ≤ number t
  · rw [compare_ofString_of_le hs ht hlong]
    by_cases hlength : (shown s).length = (shown t).length
    -- in one length, texts that differ write numbers that differ, in the same order
    · have hnumber : number s ≠ number t := by
        intro heq
        have hcompare := compare_shown hs ht hlength
        rw [heq, Std.ReflOrd.compare_self] at hcompare
        exact hshown (Std.LawfulEqOrd.eq_of_compare hcompare)
      rw [compareLex_numbers_of_ne hnumber, compare_shown hs ht hlength]
      exact iff_of_true rfl fun h => h.2.1 hlength
    · rw [not_and, not_and, not_not]
      exact ⟨fun h _ _ => h, fun h => h hlong hlength⟩
  · obtain ⟨hsfits, htfits⟩ := not_or.mp hlong
    rw [not_le] at hsfits htfits
    have hnumber : number s ≠ number t := by
      intro heq
      rw [shown_of_lt hs hsfits, shown_of_lt ht htfits, heq] at hshown
      exact hshown rfl
    rw [compareLex_numbers_of_ne hnumber, compare_ofString_of_lt hs ht hsfits htfits]
    exact iff_of_true rfl fun h => hlong h.1

theorem compareSegments_eq_iff (hs : ∀ s ∈ ss, IsNumeral s) (ht : ∀ t ∈ ts, IsNumeral t)
    (hne : ss.map number ≠ ts.map number) :
    compareSegments (ss.map ofString) (ts.map ofString) =
      List.compareLex Ord.compare (ss.map number) (ts.map number) ↔ ¬ Misread ss ts := by
  induction ss generalizing ts with
  | nil =>
      cases ts with
      | nil => exact absurd rfl hne
      | cons t ts => exact iff_of_true rfl nofun
  | cons s ss ih =>
      cases ts with
      | nil => exact iff_of_true rfl nofun
      | cons t ts =>
          rw [List.forall_mem_cons] at hs ht
          rw [List.map_cons, List.map_cons, compareSegments]
          by_cases hshown : shown s = shown t
          -- two that read the same leave the decision to the rest, on both sides
          · have hnumber : number s = number t := by
              rw [← number_shown hs.1, hshown, number_shown ht.1]
            have htail : ss.map number ≠ ts.map number := by
              intro heq
              exact hne (by rw [List.map_cons, List.map_cons, hnumber, heq])
            rw [misread_cons_of_shown_eq hshown, ← ih hs.2 ht.2 htail, List.map_cons, List.map_cons,
              List.compareLex_cons_cons, Segment.compare_eq_eq.mpr hshown, hnumber,
              Std.ReflOrd.compare_self]
            rfl
          · rw [then_eq_left (mt Segment.compare_eq_eq.mp hshown)]
            exact compareSegments_cons_of_shown_ne hs.1 ht.1 hshown

theorem map_render_of_compareSegments {ls rs : List Segment} (h : compareSegments ls rs = .eq) :
    ls.map render = rs.map render := by
  induction ls generalizing rs with
  | nil =>
      cases rs with
      | nil => rfl
      | cons r rs => cases h
  | cons l ls ih =>
      cases rs with
      | nil => cases h
      | cons r rs =>
          rw [compareSegments, Ordering.then_eq_eq] at h
          rw [List.map_cons, List.map_cons, Segment.compare_eq_eq.mp h.1, ih h.2]

theorem AllNumerals.numbers_eq (h : AllNumerals a) :
    numbers a = ((segments a).map render).map number := by
  rw [segments, List.map_map, List.map_map]
  exact List.map_congr_left fun s hs => (number_shown (h s hs)).symm

theorem compare_of_numbers_ne (ha : AllNumerals a) (hb : AllNumerals b)
    (hne : numbers a ≠ numbers b) :
    compare a b = compareSegments (segments a) (segments b) := by
  refine then_eq_left fun heq => hne ?_
  rw [ha.numbers_eq, hb.numbers_eq, map_render_of_compareSegments heq]

theorem compare_eq_numbers_iff (ha : AllNumerals a) (hb : AllNumerals b)
    (hne : numbers a ≠ numbers b) :
    (compare a b = List.compareLex Ord.compare (numbers a) (numbers b) ↔
      ¬ Misread (texts a) (texts b)) ∧
    (Misread (texts a) (texts b) → ∃ s ∈ texts a ++ texts b, numericLimit ≤ number s) := by
  refine ⟨?_, Misread.exists_long⟩
  rw [compare_of_numbers_ne ha hb hne]
  exact compareSegments_eq_iff ha hb hne

theorem compare_eq_numbers_iff_timestamps :
    (AllNumerals "1.20240131123045000002" ∧ AllNumerals "1.20240131123045000010" ∧
      numbers "1.20240131123045000002" ≠ numbers "1.20240131123045000010" ∧
      compare "1.20240131123045000002" "1.20240131123045000010" =
        List.compareLex Ord.compare (numbers "1.20240131123045000002")
          (numbers "1.20240131123045000010")) ∧
    AllNumerals "1.3" ∧ numbers "1.20240131123045000002" ≠ numbers "1.3" ∧
      compare "1.20240131123045000002" "1.3" ≠
        List.compareLex Ord.compare (numbers "1.20240131123045000002") (numbers "1.3") := by
  have hfirst : AllNumerals "1.20240131123045000002" := by decide +kernel
  have hsecond : AllNumerals "1.20240131123045000010" := by decide +kernel
  have hshort : AllNumerals "1.3" := by decide +kernel
  have hne : numbers "1.20240131123045000002" ≠ numbers "1.20240131123045000010" := by
    decide +kernel
  have hne' : numbers "1.20240131123045000002" ≠ numbers "1.3" := by decide +kernel
  refine ⟨⟨hfirst, hsecond, hne, ?_⟩, hshort, hne', ?_⟩
  · exact (compare_eq_numbers_iff hfirst hsecond hne).1.mpr (by decide +kernel)
  · intro heq
    exact (compare_eq_numbers_iff hfirst hshort hne').1.mp heq (by decide +kernel)

theorem misordered_beyond64Bits :
    AllNumerals "2" ∧ AllNumerals "18446744073709551616" ∧
      numbers "2" ≠ numbers "18446744073709551616" ∧
      List.compareLex Ord.compare (numbers "2") (numbers "18446744073709551616") = .lt ∧
      compare "2" "18446744073709551616" = .gt := by
  decide +kernel

end Version

end ModuleResolution
