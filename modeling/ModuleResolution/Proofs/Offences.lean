import Mathlib.Data.List.Lex
import ModuleResolution.Overrides
import ModuleResolution.Plan

namespace ModuleResolution

abbrev Place := List Nat

def Place.Before : Place → Place → Prop :=
  List.Lex (· < ·)

instance : Std.Asymm Place.Before :=
  inferInstanceAs (Std.Asymm (List.Lex _))

abbrev Offences (ε : Type) := Place → ε → Prop

namespace Offences

variable {α κ ε : Type} {offences rest : Offences ε} {answer x y : Except ε Unit} {e : ε}

def First (offences : Offences ε) (e : ε) : Prop :=
  ∃ place, offences place e ∧
    ∀ other e', offences other e' → other = place ∨ Place.Before place other

def ReportedBy (offences : Offences ε) : Except ε Unit → Prop
  | .ok _ => ∀ place e, ¬offences place e
  | .error e => First offences e

theorem ReportedBy.congr (h : ReportedBy offences answer)
    (hsame : ∀ place e, rest place e ↔ offences place e) : ReportedBy rest answer := by
  obtain rfl : rest = offences := funext fun place => funext fun e => propext (hsame place e)
  exact h

theorem ReportedBy.eq_ok_iff (h : ReportedBy offences answer) :
    answer = .ok () ↔ ∀ place e, ¬offences place e := by
  cases answer with
  | ok _ => exact ⟨fun _ => h, fun _ => rfl⟩
  | error e =>
      obtain ⟨place, hplace, -⟩ := h
      refine ⟨fun hok => ?_, fun hnone => absurd hplace (hnone place e)⟩
      cases hok

theorem ReportedBy.eq_error_iff (h : ReportedBy offences answer)
    (hone : ∀ place e e', offences place e → offences place e' → e = e') :
    answer = .error e ↔ First offences e := by
  cases answer with
  | ok _ =>
      refine ⟨fun herror => ?_, ?_⟩
      · cases herror
      · rintro ⟨place, hplace, -⟩
        exact absurd hplace (h place e)
  | error found =>
      refine ⟨?_, fun hfirst => ?_⟩
      · rintro ⟨rfl⟩
        exact h
      · obtain ⟨place, hplace, hbefore⟩ := h
        obtain ⟨place', hplace', hbefore'⟩ := hfirst
        -- of two places that each come first, neither stands before the other
        have hsame : place' = place := by
          rcases hbefore place' e hplace' with hsame | hlt
          · exact hsame
          · rcases hbefore' place found hplace with hsame | hgt
            · exact hsame.symm
            · exact absurd hgt (asymm hlt)
        rw [hone place found e hplace (hsame ▸ hplace')]

def inPart (n : Nat) (offences : Offences ε) : Offences ε := fun place e =>
  ∃ rest, place = n :: rest ∧ offences rest e

theorem ReportedBy.inPart (h : ReportedBy offences answer) (n : Nat) :
    ReportedBy (inPart n offences) answer := by
  cases answer with
  | ok _ =>
      rintro place e ⟨rest, rfl, hoff⟩
      exact h rest e hoff
  | error e =>
      obtain ⟨place, hplace, hbefore⟩ := h
      refine ⟨n :: place, ⟨place, rfl, hplace⟩, ?_⟩
      rintro other e' ⟨rest, rfl, hoff⟩
      exact (hbefore rest e' hoff).imp (congrArg (n :: ·)) .cons

theorem ReportedBy.andThen (hx : ReportedBy offences x) (hy : ReportedBy rest y)
    (hbefore : ∀ place e other e', offences place e → rest other e' → Place.Before place other) :
    ReportedBy (fun place e => offences place e ∨ rest place e) (do x; y) := by
  cases x with
  | ok _ => exact hy.congr fun place e => or_iff_right (hx place e)
  | error e =>
      obtain ⟨place, hplace, hfirst⟩ := hx
      refine ⟨place, .inl hplace, fun other e' hoff => ?_⟩
      rcases hoff with hoff | hoff
      · exact hfirst other e' hoff
      · exact .inr (hbefore place e other e' hplace hoff)

theorem ReportedBy.inParts {m n : Nat} (hx : ReportedBy offences x) (hy : ReportedBy rest y)
    (h : m < n) :
    ReportedBy (fun place e => Offences.inPart m offences place e ∨ Offences.inPart n rest place e)
      (do x; y) := by
  refine (hx.inPart m).andThen (hy.inPart n) ?_
  rintro _ e _ e' ⟨place, rfl, -⟩ ⟨other, rfl, -⟩
  exact .rel h

theorem ReportedBy.inThreeParts {others : Offences ε} {z : Except ε Unit}
    (hx : ReportedBy offences x) (hy : ReportedBy rest y) (hz : ReportedBy others z) :
    ReportedBy (fun place e => Offences.inPart 0 offences place e ∨
        Offences.inPart 1 rest place e ∨ Offences.inPart 2 others place e)
      (do x; y; z) := by
  refine (hx.inPart 0).andThen (hy.inParts hz (by decide)) ?_
  rintro _ e _ e' ⟨place, rfl, -⟩ (⟨other, rfl, -⟩ | ⟨other, rfl, -⟩)
  · exact .rel (by decide)
  · exact .rel (by decide)

def reject (b : Bool) (e : ε) : Except ε Unit :=
  if b then .error e else .ok ()

theorem reportedBy_reject {b : Bool} {P : Prop} (h : b = true ↔ P) (e : ε) :
    ReportedBy (fun place e' => place = [] ∧ P ∧ e' = e) (reject b e) := by
  cases b with
  | false =>
      rintro place e' ⟨-, hP, -⟩
      exact Bool.false_ne_true (h.mpr hP)
  | true =>
      refine ⟨[], ⟨rfl, h.mp rfl, rfl⟩, ?_⟩
      rintro other e' ⟨rfl, -⟩
      exact .inl rfl

theorem ite_error_eq (b : Bool) (e : ε) (x : Except ε Unit) :
    (if b = true then .error e else x) = (do reject b e; x) := by
  cases b <;> rfl

def rejectAny (bad : α → Bool) (problem : α → ε) (as : List α) : Except ε Unit :=
  match as.find? bad with
  | some a => .error (problem a)
  | none => .ok ()

theorem reportedBy_rejectAny {bad : α → Bool} {P : α → Prop} (h : ∀ a, bad a = true ↔ P a)
    (problem : α → ε) (as : List α) :
    ReportedBy (fun place e => ∃ i a, place = [i] ∧ as[i]? = some a ∧ P a ∧ e = problem a)
      (rejectAny bad problem as) := by
  rw [rejectAny]
  cases hfind : as.find? bad with
  | none =>
      rintro place e ⟨i, a, -, ha, hP, -⟩
      exact List.find?_eq_none.mp hfind a (List.mem_of_getElem? ha) ((h a).mpr hP)
  | some a =>
      obtain ⟨hbad, i, hi, rfl, hnone⟩ := List.find?_eq_some_iff_getElem.mp hfind
      refine ⟨[i], ⟨i, as[i], rfl, List.getElem?_eq_getElem hi, (h _).mp hbad, rfl⟩, ?_⟩
      rintro other e' ⟨j, b, rfl, hb, hP, -⟩
      rcases Nat.lt_trichotomy j i with hlt | rfl | hgt
      · have hclean := hnone j hlt
        rw [List.getElem?_eq_getElem (hlt.trans hi)] at hb
        rw [Option.some.inj hb, (h b).mpr hP] at hclean
        cases hclean
      · exact .inl rfl
      · exact .inr (.rel hgt)

theorem rejectAny_const (bad : α → Bool) (e : ε) (as : List α) :
    rejectAny bad (fun _ => e) as = reject (as.any bad) e := by
  rw [rejectAny, reject, ← List.isSome_find?]
  cases as.find? bad <;> rfl

def ofEntries (offends : List α → α → Offences ε) (as : List α) : Offences ε := fun place e =>
  ∃ i a rest, place = i :: rest ∧ as[i]? = some a ∧ offends (as.take i) a rest e

section Entries

variable {offends : List α → α → Offences ε} {key : α → κ} {entry : List κ → α → Except ε Unit}
  {check : List κ → List α → Except ε Unit}

theorem reportedBy_entries_behind
    (hentry : ∀ before a, ReportedBy (offends before a) (entry (before.map key).reverse a))
    (hnil : ∀ seen, check seen [] = .ok ())
    (hcons : ∀ seen a as, check seen (a :: as) = (do entry seen a; check (key a :: seen) as))
    (before as : List α) :
    ReportedBy (fun place e => ∃ i a rest, place = (before.length + i) :: rest ∧
        as[i]? = some a ∧ offends (before ++ as.take i) a rest e)
      (check (before.map key).reverse as) := by
  induction as generalizing before with
  | nil =>
      rw [hnil]
      rintro place e ⟨i, a, rest, -, ha, -⟩
      cases ha
  | cons a as ih =>
      have hlength (i : Nat) : (before ++ [a]).length + i = before.length + (i + 1) := by
        rw [List.length_append, List.length_singleton, Nat.add_assoc, Nat.add_comm 1]
      have hrest := ih (before ++ [a])
      rw [List.map_append, List.reverse_append] at hrest
      rw [hcons]
      refine (((hentry before a).inPart before.length).andThen hrest ?_).congr fun place e => ?_
      · rintro _ e _ e' ⟨place, rfl, -⟩ ⟨i, b, other, rfl, -⟩
        exact .rel (by rw [hlength]; omega)
      · constructor
        · rintro ⟨i, b, rest, rfl, hb, hoff⟩
          -- the first of the entries left is the one just read
          cases i with
          | zero =>
              obtain rfl := Option.some.inj hb
              exact .inl ⟨rest, rfl, by simpa using hoff⟩
          | succ i => exact .inr ⟨i, b, rest, by rw [hlength], hb, by simpa using hoff⟩
        · rintro (⟨rest, rfl, hoff⟩ | ⟨i, b, rest, rfl, hb, hoff⟩)
          · exact ⟨0, a, rest, rfl, rfl, by simpa using hoff⟩
          · exact ⟨i + 1, b, rest, by rw [hlength], hb, by simpa using hoff⟩

theorem reportedBy_entries
    (hentry : ∀ before a, ReportedBy (offends before a) (entry (before.map key).reverse a))
    (hnil : ∀ seen, check seen [] = .ok ())
    (hcons : ∀ seen a as, check seen (a :: as) = (do entry seen a; check (key a :: seen) as))
    (as : List α) : ReportedBy (ofEntries offends as) (check [] as) :=
  (reportedBy_entries_behind hentry hnil hcons [] as).congr fun place e => by simp [ofEntries]

end Entries

end Offences

open Offences

def Coordinates.IsComplete (c : Coordinates) : Prop :=
  c.name ≠ "" ∧ c.version ≠ ""

theorem Coordinates.isIncomplete_iff {c : Coordinates} :
    (c.name.isEmpty || c.version.isEmpty) = true ↔ ¬c.IsComplete := by
  rw [Bool.or_eq_true, String.isEmpty_iff, String.isEmpty_iff, IsComplete, not_and_or, not_not,
    not_not]

inductive SourceModule.Offends (before : List SourceModule) (src : SourceModule) :
    Place → Plan.Problem → Prop
  | incomplete : ¬src.coordinates.IsComplete → src.Offends before [0] .incompleteSource
  | repeated : src.coordinates.name ∈ before.map (·.coordinates.name) →
      src.Offends before [1] (.duplicateSource src.coordinates.name)
  | incompleteImport {j : Nat} {d : Dependency} : src.imports[j]? = some d →
      ¬d.coordinates.IsComplete →
      src.Offends before [2, j] (.incompleteImport src.coordinates.name)

namespace SourceModule

variable {before : List SourceModule} {src : SourceModule}

theorem Offends.problem_eq {place : Place} {problem problem' : Plan.Problem}
    (h : src.Offends before place problem) (h' : src.Offends before place problem') :
    problem = problem' := by
  cases h <;> cases h' <;> rfl

def check (seen : List String) (src : SourceModule) : Except Plan.Problem Unit := do
  reject (Plan.isIncomplete src.coordinates) .incompleteSource
  reject (seen.contains src.coordinates.name) (.duplicateSource src.coordinates.name)
  rejectAny (fun d => Plan.isIncomplete d.coordinates)
    (fun _ => .incompleteImport src.coordinates.name) src.imports

theorem reportedBy_check (before : List SourceModule) (src : SourceModule) :
    ReportedBy (src.Offends before) (src.check (before.map (·.coordinates.name)).reverse) := by
  refine (ReportedBy.inThreeParts
    (reportedBy_reject Coordinates.isIncomplete_iff _)
    (reportedBy_reject (List.contains_iff_mem.trans List.mem_reverse) _)
    (reportedBy_rejectAny (fun _ => Coordinates.isIncomplete_iff) _ src.imports)).congr
      fun place problem => ?_
  constructor
  · rintro (hc | hmem | ⟨hd, hc⟩)
    · exact .inl ⟨[], rfl, rfl, hc, rfl⟩
    · exact .inr (.inl ⟨[], rfl, rfl, hmem, rfl⟩)
    · exact .inr (.inr ⟨_, rfl, _, _, rfl, hd, hc, rfl⟩)
  · rintro (⟨_, rfl, rfl, hc, rfl⟩ | ⟨_, rfl, rfl, hmem, rfl⟩ | ⟨_, rfl, j, d, rfl, hd, hc, rfl⟩)
    · exact .incomplete hc
    · exact .repeated hmem
    · exact .incompleteImport hd hc

theorem checkSources_cons (seen : List String) (src : SourceModule) (sources : List SourceModule) :
    Plan.checkSources seen (src :: sources) =
      (do src.check seen; Plan.checkSources (src.coordinates.name :: seen) sources) := by
  rw [Plan.checkSources, check]
  simp only [ite_error_eq, rejectAny_const, bind_assoc]

end SourceModule

inductive PlannedArtifact.Offends (before : List PlannedArtifact) (a : PlannedArtifact) :
    Place → Plan.Problem → Prop
  | incomplete : ¬a.coordinates.IsComplete → a.Offends before [0] .incompleteArtifact
  | repeated : a.coordinates ∈ before.map (·.coordinates) →
      a.Offends before [1] (.duplicateArtifact a.coordinates)

namespace PlannedArtifact

variable {before : List PlannedArtifact} {a : PlannedArtifact}

theorem Offends.problem_eq {place : Place} {problem problem' : Plan.Problem}
    (h : a.Offends before place problem) (h' : a.Offends before place problem') :
    problem = problem' := by
  cases h <;> cases h' <;> rfl

def check (seen : List Coordinates) (a : PlannedArtifact) : Except Plan.Problem Unit := do
  reject (Plan.isIncomplete a.coordinates) .incompleteArtifact
  reject (seen.contains a.coordinates) (.duplicateArtifact a.coordinates)

theorem reportedBy_check (before : List PlannedArtifact) (a : PlannedArtifact) :
    ReportedBy (a.Offends before) (a.check (before.map (·.coordinates)).reverse) := by
  refine (ReportedBy.inParts
    (reportedBy_reject Coordinates.isIncomplete_iff _)
    (reportedBy_reject (List.contains_iff_mem.trans List.mem_reverse) _)
    Nat.zero_lt_one).congr fun place problem => ?_
  constructor
  · rintro (hc | hmem)
    · exact .inl ⟨[], rfl, rfl, hc, rfl⟩
    · exact .inr ⟨[], rfl, rfl, hmem, rfl⟩
  · rintro (⟨_, rfl, rfl, hc, rfl⟩ | ⟨_, rfl, rfl, hmem, rfl⟩)
    · exact .incomplete hc
    · exact .repeated hmem

theorem checkArtifacts_cons (seen : List Coordinates) (a : PlannedArtifact)
    (artifacts : List PlannedArtifact) :
    Plan.checkArtifacts seen (a :: artifacts) =
      (do a.check seen; Plan.checkArtifacts (a.coordinates :: seen) artifacts) := by
  rw [Plan.checkArtifacts, check]
  simp only [ite_error_eq, bind_assoc]

end PlannedArtifact

inductive Plan.Offends (p : Plan) : Place → Problem → Prop
  | source {i : Nat} {src : SourceModule} {place : Place} {problem : Problem} :
      p.sources[i]? = some src → src.Offends (p.sources.take i) place problem →
      p.Offends (0 :: i :: place) problem
  | artifact {i : Nat} {a : PlannedArtifact} {place : Place} {problem : Problem} :
      p.artifacts[i]? = some a → a.Offends (p.artifacts.take i) place problem →
      p.Offends (1 :: i :: place) problem

namespace Plan

variable {p : Plan}

theorem Offends.problem_eq {place : Place} {problem problem' : Problem}
    (h : p.Offends place problem) (h' : p.Offends place problem') : problem = problem' := by
  cases h with
  | source hsrc hoff =>
      cases h' with
      | source hsrc' hoff' =>
          obtain rfl := Option.some.inj (hsrc.symm.trans hsrc')
          exact hoff.problem_eq hoff'
  | artifact ha hoff =>
      cases h' with
      | artifact ha' hoff' =>
          obtain rfl := Option.some.inj (ha.symm.trans ha')
          exact hoff.problem_eq hoff'

theorem reportedBy_validate (p : Plan) : ReportedBy p.Offends p.validate := by
  have hsources := reportedBy_entries SourceModule.reportedBy_check (fun _ => rfl)
    SourceModule.checkSources_cons p.sources
  have hartifacts := reportedBy_entries PlannedArtifact.reportedBy_check (fun _ => rfl)
    PlannedArtifact.checkArtifacts_cons p.artifacts
  refine (hsources.inParts hartifacts Nat.zero_lt_one).congr fun place problem => ?_
  constructor
  · rintro (⟨hsrc, hoff⟩ | ⟨ha, hoff⟩)
    · exact .inl ⟨_, rfl, _, _, _, rfl, hsrc, hoff⟩
    · exact .inr ⟨_, rfl, _, _, _, rfl, ha, hoff⟩
  · rintro (⟨_, rfl, i, src, place, rfl, hsrc, hoff⟩ | ⟨_, rfl, i, a, place, rfl, ha, hoff⟩)
    · exact .source hsrc hoff
    · exact .artifact ha hoff

theorem validate_eq_error_iff {problem : Problem} :
    p.validate = .error problem ↔ First p.Offends problem :=
  (reportedBy_validate p).eq_error_iff fun _ _ _ => Offends.problem_eq

end Plan

inductive OverrideRule.Offends (before : List OverrideRule) (rule : OverrideRule) :
    Place → Overrides.Problem → Prop
  | emptyModule : rule.module = "" → rule.Offends before [0] .emptyModule
  | repeated : (rule.module, rule.version) ∈ before.map (fun r => (r.module, r.version)) →
      rule.Offends before [1] (.duplicateRule rule.module rule.version)
  | incompleteEntry {j : Nat} {d : Dependency} : rule.entries[j]? = some d →
      ¬d.coordinates.IsComplete → rule.Offends before [2, j] (.incompleteDependency rule.module)

namespace OverrideRule

variable {before : List OverrideRule} {rule : OverrideRule}

theorem Offends.problem_eq {place : Place} {problem problem' : Overrides.Problem}
    (h : rule.Offends before place problem) (h' : rule.Offends before place problem') :
    problem = problem' := by
  cases h <;> cases h' <;> rfl

def check (seen : List (String × Option String)) (rule : OverrideRule) :
    Except Overrides.Problem Unit := do
  reject rule.module.isEmpty .emptyModule
  reject (seen.contains (rule.module, rule.version)) (.duplicateRule rule.module rule.version)
  rejectAny (fun d => d.name.isEmpty || d.version.isEmpty)
    (fun _ => .incompleteDependency rule.module) rule.entries

theorem reportedBy_check (before : List OverrideRule) (rule : OverrideRule) :
    ReportedBy (rule.Offends before)
      (rule.check (before.map fun r => (r.module, r.version)).reverse) := by
  refine (ReportedBy.inThreeParts
    (reportedBy_reject String.isEmpty_iff _)
    (reportedBy_reject (List.contains_iff_mem.trans List.mem_reverse) _)
    (reportedBy_rejectAny (fun d => d.coordinates.isIncomplete_iff) _ rule.entries)).congr
      fun place problem => ?_
  constructor
  · rintro (hm | hmem | ⟨hd, hc⟩)
    · exact .inl ⟨[], rfl, rfl, hm, rfl⟩
    · exact .inr (.inl ⟨[], rfl, rfl, hmem, rfl⟩)
    · exact .inr (.inr ⟨_, rfl, _, _, rfl, hd, hc, rfl⟩)
  · rintro (⟨_, rfl, rfl, hm, rfl⟩ | ⟨_, rfl, rfl, hmem, rfl⟩ | ⟨_, rfl, j, d, rfl, hd, hc, rfl⟩)
    · exact .emptyModule hm
    · exact .repeated hmem
    · exact .incompleteEntry hd hc

theorem checkRules_cons (seen : List (String × Option String)) (rule : OverrideRule)
    (rules : List OverrideRule) :
    Overrides.checkRules seen (rule :: rules) =
      (do rule.check seen; Overrides.checkRules ((rule.module, rule.version) :: seen) rules) := by
  rw [Overrides.checkRules, check]
  simp only [ite_error_eq, rejectAny_const, bind_assoc]

end OverrideRule

inductive Overrides.Offends (o : Overrides) : Place → Problem → Prop
  | rule {i : Nat} {rule : OverrideRule} {place : Place} {problem : Problem} :
      o.rules[i]? = some rule → rule.Offends (o.rules.take i) place problem →
      o.Offends (0 :: i :: place) problem
  | emptyPin {i : Nat} {pin : String × String} : o.pins.toList[i]? = some pin → pin.2 = "" →
      o.Offends [1, i] (.emptyPin pin.1)

namespace Overrides

variable {o : Overrides}

theorem Offends.problem_eq {place : Place} {problem problem' : Problem}
    (h : o.Offends place problem) (h' : o.Offends place problem') : problem = problem' := by
  cases h with
  | rule hrule hoff =>
      cases h' with
      | rule hrule' hoff' =>
          obtain rfl := Option.some.inj (hrule.symm.trans hrule')
          exact hoff.problem_eq hoff'
  | emptyPin hpin hempty =>
      cases h' with
      | emptyPin hpin' hempty' =>
          obtain rfl := Option.some.inj (hpin.symm.trans hpin')
          rfl

theorem checkPins_eq (pins : Pins) : checkPins pins =
    rejectAny (fun pin => pin.2.isEmpty) (fun pin => .emptyPin pin.1) pins.toList := by
  rw [checkPins, rejectAny]
  cases pins.toList.find? fun pin => pin.2.isEmpty <;> rfl

theorem reportedBy_checkPins (pins : Pins) :
    ReportedBy (fun place problem => ∃ i pin, place = [i] ∧ pins.toList[i]? = some pin ∧
      pin.2 = "" ∧ problem = .emptyPin pin.1) (checkPins pins) := by
  rw [checkPins_eq]
  exact reportedBy_rejectAny (fun _ => String.isEmpty_iff) _ pins.toList

theorem reportedBy_validate (o : Overrides) : ReportedBy o.Offends o.validate := by
  have hrules := reportedBy_entries OverrideRule.reportedBy_check (fun _ => rfl)
    OverrideRule.checkRules_cons o.rules
  refine (hrules.inParts (reportedBy_checkPins o.pins) Nat.zero_lt_one).congr
    fun place problem => ?_
  constructor
  · rintro (⟨hrule, hoff⟩ | ⟨hpin, hempty⟩)
    · exact .inl ⟨_, rfl, _, _, _, rfl, hrule, hoff⟩
    · exact .inr ⟨_, rfl, _, _, rfl, hpin, hempty, rfl⟩
  · rintro (⟨_, rfl, i, rule, place, rfl, hrule, hoff⟩ | ⟨_, rfl, i, pin, rfl, hpin, hempty, rfl⟩)
    · exact .rule hrule hoff
    · exact .emptyPin hpin hempty

theorem validate_eq_error_iff {problem : Problem} :
    o.validate = .error problem ↔ First o.Offends problem :=
  (reportedBy_validate o).eq_error_iff fun _ _ _ => Offends.problem_eq

end Overrides

end ModuleResolution
