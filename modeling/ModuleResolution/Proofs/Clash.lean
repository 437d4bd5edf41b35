import ModuleResolution.Conflict
import ModuleResolution.Proofs.Registry

namespace ModuleResolution

theorem Conflict.isFatal_between {candidate loaded : Coordinates} {existing : ModuleId} :
    (between candidate existing loaded).isFatal = true ↔ loaded.name = candidate.name := by
  by_cases h : loaded.name = candidate.name
  · simp [between, h, isFatal]
  · by_cases hlt : loaded.name < candidate.name <;> simp [between, h, hlt, isFatal]

namespace Registry

variable {r s : Registry} {id m n : ModuleId} {c : Conflict}

def Rivals (r : Registry) (m n : ModuleId) : Prop :=
  Name.normalize (r.module m).name = Name.normalize (r.module n).name ∧
    (r.module m).version ≠ (r.module n).version

theorem Rivals.symm (h : r.Rivals m n) : r.Rivals n m :=
  ⟨h.1.symm, h.2.symm⟩

theorem not_rivals_self (r : Registry) (n : ModuleId) : ¬ r.Rivals n n :=
  fun h => h.2 rfl

theorem Later.rivals (h : r.Later s) (hm : m < r.size) (hn : n < r.size) :
    s.Rivals m n ↔ r.Rivals m n := by
  have hmg := h.grows m hm
  have hng := h.grows n hn
  rw [Rivals, Rivals, hmg.name, hmg.version, hng.name, hng.version]

def Bars (r : Registry) (m id : ModuleId) : Prop :=
  r.isBinaryInput m = true ∧ r.Rivals m id

theorem Bars.of_sameName (hinput : r.isBinaryInput m = true)
    (hname : (r.module m).name = (r.module id).name)
    (hversion : (r.module m).version ≠ (r.module id).version) : r.Bars m id :=
  ⟨hinput, congrArg Name.normalize hname, hversion⟩

theorem clashes_iff : r.clashes id m = true ↔
    r.isBinaryInput m = true ∧ (r.module m).version ≠ (r.module id).version := by
  simp only [clashes, Bool.and_eq_true, bne_iff_ne]
  refine ⟨fun h => ⟨h.1.2, h.2⟩, fun h => ⟨⟨fun hid => ?_, h.1⟩, h.2⟩⟩
  exact h.2 (hid ▸ rfl)

theorem find?_clashes_eq_some (hr : r.Indexed) :
    (r.similar (Name.normalize (r.module id).name)).find? (r.clashes id) = some m ↔
      m < r.size ∧ r.Bars m id ∧ ∀ k < m, ¬ r.Bars k id := by
  have hbars (k : ModuleId) : ((Name.normalize (r.module k).name ==
      Name.normalize (r.module id).name) = true ∧ r.clashes id k = true) ↔ r.Bars k id := by
    rw [beq_iff_eq, clashes_iff, Bars, Rivals, and_left_comm]
  rw [similar_eq hr, List.find?_filter, List.find?_range_eq_some]
  simp only [hbars, decide_eq_true_eq, Bool.not_eq_true', decide_eq_false_iff_not, List.mem_range]
  exact and_left_comm

theorem conflict?_eq_some_iff (hr : r.Indexed) : r.conflict? id = some c ↔
    ∃ m, (m < r.size ∧ r.Bars m id ∧ ∀ k < m, ¬ r.Bars k id) ∧
      Conflict.between (r.module id).coordinates m (r.module m).coordinates = c := by
  rw [conflict?, Option.map_eq_some_iff]
  exact exists_congr fun m => and_congr_left' (find?_clashes_eq_some hr)

theorem conflict?_eq_none_iff (hr : r.Indexed) :
    r.conflict? id = none ↔ ∀ m < r.size, ¬ r.Bars m id := by
  rw [conflict?, Option.map_eq_none_iff, List.find?_eq_none]
  refine forall_congr' fun m => ?_
  rw [mem_similar hr, and_imp]
  refine imp_congr_right fun _ => ?_
  rw [← not_and, clashes_iff, Bars, Rivals, and_left_comm]
  rfl

end Registry

end ModuleResolution
