import Mathlib.Data.String.Basic
import Mathlib.Order.Bounds.Defs
import ModuleResolution.Proofs.Clash
import ModuleResolution.Proofs.Interning
import ModuleResolution.Proofs.VersionOrder

namespace ModuleResolution

namespace Conflict

variable {candidate loaded c d : Coordinates} {existing m n : ModuleId}

inductive Tells (candidate loaded : Coordinates) : Conflict → Prop
  | sameName {existing : ModuleId} {lower higher : String}
      (hname : loaded.name = candidate.name)
      (hboth : [lower, higher].Perm [candidate.version, loaded.version])
      (hlower : Version.compare lower higher = .lt) :
      Tells candidate loaded (.sameName existing candidate.name lower higher)
  | similarName {existing : ModuleId} {first second : Coordinates}
      (hname : loaded.name ≠ candidate.name)
      (hboth : [first, second].Perm [candidate, loaded]) (hfirst : first.name < second.name) :
      Tells candidate loaded (.similarName existing first second)

theorem existing_between : (between candidate existing loaded).existing = existing := by
  rw [between]
  split
  · rfl
  · split <;> rfl

theorem between_of_sameName (hname : loaded.name = candidate.name) :
    between candidate existing loaded =
      .sameName existing candidate.name (Version.ordered candidate.version loaded.version).1
        (Version.ordered candidate.version loaded.version).2 := by
  rw [between, if_pos (beq_iff_eq.mpr hname)]

theorem between_of_lt (hlt : loaded.name < candidate.name) :
    between candidate existing loaded = .similarName existing loaded candidate := by
  rw [between, if_neg (by simpa using String.ne_of_lt hlt), if_pos hlt]

theorem between_of_gt (hlt : candidate.name < loaded.name) :
    between candidate existing loaded = .similarName existing candidate loaded := by
  rw [between, if_neg (by simpa using (String.ne_of_lt hlt).symm), if_neg (String.lt_asymm hlt)]

theorem tells_between (hversion : loaded.version ≠ candidate.version) :
    Tells candidate loaded (between candidate existing loaded) := by
  by_cases hname : loaded.name = candidate.name
  · rw [between_of_sameName hname]
    rcases Version.ordered_cases hversion.symm with ⟨hlt, hordered⟩ | ⟨hlt, hordered⟩
    · rw [hordered]
      exact .sameName hname (.refl _) hlt
    · rw [hordered]
      exact .sameName hname (.swap _ _ _) hlt
  · rcases lt_or_gt_of_ne hname with hlt | hlt
    · rw [between_of_lt hlt]
      exact .similarName hname (.swap _ _ _) hlt
    · rw [between_of_gt hlt]
      exact .similarName hname (.refl _) hlt

theorem isFatal_between_comm : (between c m d).isFatal = (between d n c).isFatal := by
  rw [Bool.eq_iff_iff, isFatal_between, isFatal_between]
  exact eq_comm

theorem issue_between_comm : (between c m d).issue = (between d n c).issue := by
  by_cases hname : d.name = c.name
  · rw [between_of_sameName hname, between_of_sameName hname.symm, hname, Version.ordered_comm]
    rfl
  · rcases lt_or_gt_of_ne hname with hlt | hlt
    · rw [between_of_lt hlt, between_of_gt hlt]
      rfl
    · rw [between_of_gt hlt, between_of_lt hlt]
      rfl

end Conflict

namespace Registry

variable {r s : Registry} {id x y : ModuleId}

theorem conflict?_tells (hr : r.Indexed) (id : ModuleId) :
    (r.conflict? id = none ↔ ∀ m < r.size, m ≠ id → r.isBinaryInput m = true →
      Name.normalize (r.module m).name = Name.normalize (r.module id).name →
        (r.module m).version = (r.module id).version) ∧
    ∀ c, r.conflict? id = some c →
      IsLeast {m | m < r.size ∧ m ≠ id ∧ r.Bars m id} c.existing ∧
        Conflict.Tells (r.module id).coordinates (r.module c.existing).coordinates c := by
  constructor
  · rw [conflict?_eq_none_iff hr]
    refine forall₂_congr fun m _ => ⟨fun hclear _ hinput hname => ?_, fun hagree hbars => ?_⟩
    · exact Decidable.byContradiction fun hversion => hclear ⟨hinput, hname, hversion⟩
    · obtain ⟨hinput, hname, hversion⟩ := hbars
      exact hversion (hagree (fun hid => hversion (hid ▸ rfl)) hinput hname)
  · intro c hc
    obtain ⟨m, ⟨hm, hbars, hfirst⟩, rfl⟩ := (conflict?_eq_some_iff hr).mp hc
    rw [Conflict.existing_between]
    refine ⟨⟨⟨hm, fun hid => hbars.2.2 (hid ▸ rfl), hbars⟩, fun k hk => ?_⟩,
      Conflict.tells_between hbars.2.2⟩
    exact Nat.le_of_not_lt fun hlt => hfirst k hlt hk.2.2

def respelled : Registry :=
  (Registry.init ⟨"vela.lang", "1.0.0"⟩).internAll
    [⟨"net-io", "1.9"⟩, ⟨"net.io", "1.10"⟩, ⟨"net-io", "2"⟩, ⟨"net.io", "1.9"⟩]

def respelledInputs : Registry :=
  ((respelled.addBinaryInput 4 (.bare ⟨"net-io", "2"⟩)).addBinaryInput 3
    (.bare ⟨"net.io", "1.10"⟩)).addBinaryInput 2 (.bare ⟨"net-io", "1.9"⟩)

theorem conflict?_tells_respelled :
    respelledInputs.Indexed ∧
      respelledInputs.conflict? 5 = some (.sameName 3 "net.io" "1.9" "1.10") ∧
      IsLeast {m | m < respelledInputs.size ∧ m ≠ 5 ∧ respelledInputs.Bars m 5} 3 ∧
      Conflict.Tells ⟨"net.io", "1.9"⟩ ⟨"net.io", "1.10"⟩ (.sameName 3 "net.io" "1.9" "1.10") := by
  have hr : respelledInputs.Indexed := by
    unfold Indexed
    decide +kernel
  have hconflict : respelledInputs.conflict? 5 = some (.sameName 3 "net.io" "1.9" "1.10") := by
    decide +kernel
  have hcandidate : (respelledInputs.module 5).coordinates = ⟨"net.io", "1.9"⟩ := by decide +kernel
  have hloaded : (respelledInputs.module 3).coordinates = ⟨"net.io", "1.10"⟩ := by decide +kernel
  obtain ⟨hleast, htells⟩ := (conflict?_tells hr 5).2 _ hconflict
  rw [Conflict.existing, hcandidate, hloaded] at htells
  exact ⟨hr, hconflict, hleast, htells⟩

def SoleInput (r : Registry) (x : ModuleId) : Prop :=
  ∀ m < r.size, r.isBinaryInput m = true ∧
    Name.normalize (r.module m).name = Name.normalize (r.module x).name ↔ m = x

theorem SoleInput.conflict?_eq (h : r.SoleInput x) (hr : r.Indexed) (hx : x < r.size)
    (hname : Name.normalize (r.module x).name = Name.normalize (r.module y).name) :
    r.conflict? y = if (r.module x).version = (r.module y).version then none
      else some (.between (r.module y).coordinates x (r.module x).coordinates) := by
  -- whatever bars `y` is a binary input of its normalized name, hence `x`
  have hsole (m : ModuleId) (hm : m < r.size) (hbars : r.Bars m y) : m = x :=
    (h m hm).mp ⟨hbars.1, hbars.2.1.trans hname.symm⟩
  split
  next hversion =>
    refine (conflict?_eq_none_iff hr).mpr fun m hm hbars => ?_
    obtain rfl := hsole m hm hbars
    exact hbars.2.2 hversion
  next hversion =>
    refine (conflict?_eq_some_iff hr).mpr ⟨x, ⟨hx, ?_, fun k hk hbars => ?_⟩, rfl⟩
    · exact ⟨((h x hx).mpr rfl).1, hname, hversion⟩
    · exact absurd (hsole k (Nat.lt_trans hk hx) hbars) (Nat.ne_of_lt hk)

theorem conflict?_symm (hr : r.Indexed) (hmodules : s.modules = r.modules) (hx : x < r.size)
    (hy : y < r.size)
    (hname : Name.normalize (r.module x).name = Name.normalize (r.module y).name)
    (hxsole : r.SoleInput x) (hysole : s.SoleInput y) :
    (r.conflict? y = none ↔ s.conflict? x = none) ∧
    ∀ c d, r.conflict? y = some c → s.conflict? x = some d →
      c.isFatal = d.isFatal ∧ c.issue = d.issue := by
  have hmodule (m : ModuleId) : s.module m = r.module m := by rw [module, hmodules, module]
  have hsize : s.size = r.size := congrArg List.length hmodules
  have hs : s.Indexed := fun m hm => by rw [hmodule, hr m (hsize ▸ hm)]
  rw [hxsole.conflict?_eq hr hx hname, hysole.conflict?_eq hs (hsize ▸ hy) (by
    rw [hmodule, hmodule, hname]), hmodule, hmodule]
  by_cases hversion : (r.module x).version = (r.module y).version
  · rw [if_pos hversion, if_pos hversion.symm]
    exact ⟨Iff.rfl, fun c d hc => absurd hc.symm (Option.some_ne_none c)⟩
  · rw [if_neg hversion, if_neg (Ne.symm hversion)]
    refine ⟨iff_of_false (Option.some_ne_none _) (Option.some_ne_none _), fun c d hc hd => ?_⟩
    obtain rfl := Option.some.inj hc
    obtain rfl := Option.some.inj hd
    exact ⟨Conflict.isFatal_between_comm, Conflict.issue_between_comm⟩

def paddedZeros : Registry :=
  (Registry.init ⟨"vela.lang", "1.0.0"⟩).internAll [⟨"lib", "1.00"⟩, ⟨"lib", "1.0"⟩]

def paddedInput : Registry :=
  paddedZeros.addBinaryInput 2 (.bare ⟨"lib", "1.00"⟩)

def unpaddedInput : Registry :=
  paddedZeros.addBinaryInput 3 (.bare ⟨"lib", "1.0"⟩)

theorem conflict?_symm_paddedZeros :
    paddedInput.Indexed ∧ unpaddedInput.modules = paddedInput.modules ∧
      paddedInput.SoleInput 2 ∧ unpaddedInput.SoleInput 3 ∧
      ∃ c d, paddedInput.conflict? 3 = some c ∧ unpaddedInput.conflict? 2 = some d ∧
        c.isFatal = d.isFatal ∧ c.issue = d.issue := by
  have hr : paddedInput.Indexed := by
    unfold Indexed
    decide +kernel
  have hmodules : unpaddedInput.modules = paddedInput.modules := by decide +kernel
  have hname : Name.normalize (paddedInput.module 2).name =
      Name.normalize (paddedInput.module 3).name := by decide +kernel
  have hpadded : paddedInput.SoleInput 2 := by
    unfold SoleInput
    decide +kernel
  have hunpadded : unpaddedInput.SoleInput 3 := by
    unfold SoleInput
    decide +kernel
  have hc : paddedInput.conflict? 3 = some (.sameName 2 "lib" "1.0" "1.00") := by decide +kernel
  have hd : unpaddedInput.conflict? 2 = some (.sameName 3 "lib" "1.0" "1.00") := by decide +kernel
  have hagree := conflict?_symm hr hmodules (by decide +kernel) (by decide +kernel) hname hpadded
    hunpadded
  exact ⟨hr, hmodules, hpadded, hunpadded, _, _, hc, hd, hagree.2 _ _ hc hd⟩

end Registry

end ModuleResolution
