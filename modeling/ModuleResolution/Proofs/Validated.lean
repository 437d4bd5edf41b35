import Mathlib.Data.List.Nodup
import ModuleResolution.Proofs.Coherent
import ModuleResolution.Proofs.Offences

namespace ModuleResolution

open Offences

theorem nodup_map_iff_take {α κ : Type} {key : α → κ} {as : List α} :
    (as.map key).Nodup ↔ ∀ i a, as[i]? = some a → key a ∉ (as.take i).map key := by
  rw [List.Nodup, List.pairwise_map, List.pairwise_iff_getElem]
  constructor
  · intro h j a ha hmem
    obtain ⟨hj, rfl⟩ := List.getElem?_eq_some_iff.mp ha
    obtain ⟨b, hb, hkey⟩ := List.mem_map.mp hmem
    obtain ⟨i, hi, rfl⟩ := List.mem_take_iff_getElem.mp hb
    exact h i j _ hj (Nat.lt_of_lt_of_le hi (Nat.min_le_left j as.length)) hkey
  · intro h i j hi hj hij hkey
    have hmem : as[i] ∈ as.take j :=
      List.mem_take_iff_getElem.mpr ⟨i, Nat.lt_min.mpr ⟨hij, hi⟩, rfl⟩
    exact h j as[j] (List.getElem?_eq_getElem hj) (List.mem_map.mpr ⟨as[i], hmem, hkey⟩)

namespace Plan

variable {p : Plan} {c : Coordinates}

def SourcesDistinct (p : Plan) : Prop :=
  (p.sources.map (·.coordinates.name)).Nodup

def ArtifactsDistinct (p : Plan) : Prop :=
  (p.artifacts.map (·.coordinates)).Nodup

structure Unambiguous (p : Plan) : Prop where
  sources : ∀ src ∈ p.sources, src.coordinates.IsComplete
  imports : ∀ src ∈ p.sources, ∀ d ∈ src.imports, d.coordinates.IsComplete
  artifacts : ∀ a ∈ p.artifacts, a.coordinates.IsComplete
  sourcesDistinct : p.SourcesDistinct
  artifactsDistinct : p.ArtifactsDistinct

theorem unambiguous_iff : p.Unambiguous ↔ ∀ place problem, ¬p.Offends place problem := by
  constructor
  · intro h place problem hoff
    cases hoff with
    | source hsrc hoff =>
        have hmem := List.mem_of_getElem? hsrc
        cases hoff with
        | incomplete hc => exact hc (h.sources _ hmem)
        | repeated hseen => exact nodup_map_iff_take.mp h.sourcesDistinct _ _ hsrc hseen
        | incompleteImport hd hc => exact hc (h.imports _ hmem _ (List.mem_of_getElem? hd))
    | artifact ha hoff =>
        cases hoff with
        | incomplete hc => exact hc (h.artifacts _ (List.mem_of_getElem? ha))
        | repeated hseen => exact nodup_map_iff_take.mp h.artifactsDistinct _ _ ha hseen
  · intro h
    constructor
    case sources =>
      intro src hsrc
      obtain ⟨i, hi⟩ := List.getElem?_of_mem hsrc
      exact Classical.not_not.mp fun hc => h _ _ (.source hi (.incomplete hc))
    case imports =>
      intro src hsrc d hd
      obtain ⟨i, hi⟩ := List.getElem?_of_mem hsrc
      obtain ⟨j, hj⟩ := List.getElem?_of_mem hd
      exact Classical.not_not.mp fun hc => h _ _ (.source hi (.incompleteImport hj hc))
    case artifacts =>
      intro a ha
      obtain ⟨i, hi⟩ := List.getElem?_of_mem ha
      exact Classical.not_not.mp fun hc => h _ _ (.artifact hi (.incomplete hc))
    case sourcesDistinct =>
      exact nodup_map_iff_take.mpr fun i src hi hseen => h _ _ (.source hi (.repeated hseen))
    case artifactsDistinct =>
      exact nodup_map_iff_take.mpr fun i a hi hseen => h _ _ (.artifact hi (.repeated hseen))

theorem validate_eq_ok_iff : p.validate = .ok () ↔ p.Unambiguous :=
  (reportedBy_validate p).eq_ok_iff.trans unambiguous_iff.symm

theorem sourcesDistinct_of_validate (h : p.validate = .ok ()) : p.SourcesDistinct :=
  (validate_eq_ok_iff.mp h).sourcesDistinct

theorem artifactsDistinct_of_validate (h : p.validate = .ok ()) : p.ArtifactsDistinct :=
  (validate_eq_ok_iff.mp h).artifactsDistinct

theorem SourcesDistinct.source?_eq_some {src : SourceModule} (h : p.SourcesDistinct) :
    p.source? c = some src ↔ src ∈ p.sources ∧ src.coordinates = c := by
  constructor
  · intro hfind
    exact ⟨List.mem_of_find?_eq_some hfind, by simpa using List.find?_some hfind⟩
  · rintro ⟨hsrc, rfl⟩
    obtain ⟨found, hfound⟩ := Option.isSome_iff_exists.mp (hasSource_iff.mp ⟨src, hsrc, rfl⟩)
    have hname : found.coordinates = src.coordinates := by simpa using List.find?_some hfound
    have hsame := List.inj_on_of_nodup_map h (List.mem_of_find?_eq_some hfound) hsrc
      (congrArg Coordinates.name hname)
    exact hsame ▸ hfound

end Plan

namespace Overrides

variable {o : Overrides}

def RulesDistinct (o : Overrides) : Prop :=
  (o.rules.map fun rule => (rule.module, rule.version)).Nodup

structure Unambiguous (o : Overrides) : Prop where
  modules : ∀ rule ∈ o.rules, rule.module ≠ ""
  rulesDistinct : o.RulesDistinct
  entries : ∀ rule ∈ o.rules, ∀ d ∈ rule.entries, d.coordinates.IsComplete
  pins : ∀ pin ∈ o.pins.toList, pin.2 ≠ ""

theorem unambiguous_iff : o.Unambiguous ↔ ∀ place problem, ¬o.Offends place problem := by
  constructor
  · intro h place problem hoff
    cases hoff with
    | rule hrule hoff =>
        have hmem := List.mem_of_getElem? hrule
        cases hoff with
        | emptyModule hm => exact h.modules _ hmem hm
        | repeated hseen => exact nodup_map_iff_take.mp h.rulesDistinct _ _ hrule hseen
        | incompleteEntry hd hc => exact hc (h.entries _ hmem _ (List.mem_of_getElem? hd))
    | emptyPin hpin hempty => exact h.pins _ (List.mem_of_getElem? hpin) hempty
  · intro h
    constructor
    case modules =>
      intro rule hrule hm
      obtain ⟨i, hi⟩ := List.getElem?_of_mem hrule
      exact h _ _ (.rule hi (.emptyModule hm))
    case rulesDistinct =>
      exact nodup_map_iff_take.mpr fun i rule hi hseen => h _ _ (.rule hi (.repeated hseen))
    case entries =>
      intro rule hrule d hd
      obtain ⟨i, hi⟩ := List.getElem?_of_mem hrule
      obtain ⟨j, hj⟩ := List.getElem?_of_mem hd
      exact Classical.not_not.mp fun hc => h _ _ (.rule hi (.incompleteEntry hj hc))
    case pins =>
      intro pin hpin hempty
      obtain ⟨i, hi⟩ := List.getElem?_of_mem hpin
      exact h _ _ (.emptyPin hi hempty)

theorem validate_eq_ok_iff : o.validate = .ok () ↔ o.Unambiguous :=
  (reportedBy_validate o).eq_ok_iff.trans unambiguous_iff.symm

theorem rulesDistinct_of_validate (h : o.validate = .ok ()) : o.RulesDistinct :=
  (validate_eq_ok_iff.mp h).rulesDistinct

end Overrides

theorem validates_or_reports_first (p : Plan) (o : Overrides) :
    (p.validate = .ok () ↔ p.Unambiguous) ∧
      (∀ problem, p.validate = .error problem ↔ First p.Offends problem) ∧
      (o.validate = .ok () ↔ o.Unambiguous) ∧
      ∀ problem, o.validate = .error problem ↔ First o.Offends problem :=
  ⟨Plan.validate_eq_ok_iff, fun _ => Plan.validate_eq_error_iff, Overrides.validate_eq_ok_iff,
    fun _ => Overrides.validate_eq_error_iff⟩

example : Plan.validate ⟨[⟨⟨"app", "1"⟩, [⟨"lib", "", false, false⟩]⟩, ⟨⟨"app", "2"⟩, []⟩], []⟩ =
    .error (.incompleteImport "app") := by decide

end ModuleResolution
