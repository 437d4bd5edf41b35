import Mathlib.Data.List.Nodup
import Mathlib.Data.List.Perm.Subperm
import ModuleResolution.Proofs.Roots

namespace ModuleResolution

namespace Registry

variable {r s : Registry} {p : Platform} {id : ModuleId}

def Addressed (r : Registry) : Prop :=
  ∀ n < r.size, n ≠ foundational → r.Canonical n

theorem Evolves.addressed (h : Evolves p id r s) (hr : r.Indexed) (ha : r.Addressed) :
    s.Addressed := by
  intro n hn hne
  by_cases hold : n < r.size
  · exact h.canonical hr (ha n hold hne)
  · obtain ⟨c, hc, hf⟩ := h.created n (Nat.le_of_not_lt hold) hn
    rw [Canonical, hc, (Module.grows_setUp p _).coordinates, Module.coordinates_fresh]
    exact hf

theorem addressed_init (c : Coordinates) : (init c).Addressed := by
  intro n hn hne
  obtain rfl : n = defaultModule := Nat.le_antisymm (Nat.le_of_lt_succ hn) (Nat.pos_of_ne_zero hne)
  exact find?_default_init c

theorem Addressed.nodup_coordinates {ns : List ModuleId} (h : r.Addressed) (hns : ns.Nodup)
    (hlt : ∀ n ∈ ns, n < r.size) :
    ((ns.erase foundational).map fun n => (r.module n).coordinates).Nodup := by
  refine (hns.erase _).map_on fun m hm n hn hc => ?_
  obtain ⟨hm, hmem⟩ := hns.mem_erase_iff.mp hm
  obtain ⟨hn, hmem'⟩ := hns.mem_erase_iff.mp hn
  exact (h m (hlt m hmem) hm).eq (h n (hlt n hmem') hn) hc

end Registry

namespace Session

variable {p : Plan} {env : Environment} {s : Session Walk} {n : ModuleId}

theorem mem_entered : n ∈ s.entered ↔ s.Entered n := by
  rw [entered, Entered, Walk.isDone_eq_true, List.mem_append, List.mem_append]
  tauto

theorem Coherent.nodup_entered (h : s.Coherent p env) : s.entered.Nodup := by
  refine (h.inProgressNodup.append h.compiledNodup fun n hn hk => h.apart n hn hk).append
    h.loadedNodup fun n hn hl => ?_
  exact (h.binaries n hl).2.not_compiles (h.sources n (List.mem_append.mp hn)).2

theorem Coherent.coordinates_of_entered (h : s.Coherent p env) (hn : n ∈ s.entered) :
    s.coordinates n ∈ p.sources.map (·.coordinates) ++ p.artifacts.map (·.coordinates) := by
  rcases List.mem_append.mp hn with hn | hl
  · obtain ⟨src, hsrc, hc⟩ := Plan.hasSource_iff.mpr (h.sources n (List.mem_append.mp hn)).2.2
    exact List.mem_append_left _ (List.mem_map.mpr ⟨src, hsrc, hc⟩)
  · obtain ⟨a, ha⟩ := Option.isSome_iff_exists.mp (h.binaries n hl).2.2.2
    refine List.mem_append_right _ (List.mem_map.mpr ⟨a, List.mem_of_find?_eq_some ha, ?_⟩)
    simpa using List.find?_some ha

theorem Coherent.length_entered_le (h : s.Coherent p env) (ha : s.registry.Addressed) :
    s.entered.length ≤ p.depth := by
  have hlt (n : ModuleId) (hn : n ∈ s.entered) : n < s.registry.size :=
    (List.mem_append.mp hn).elim (fun hn => (h.sources n (List.mem_append.mp hn)).1)
      fun hl => (h.binaries n hl).1
  -- but for the foundational module, those entered are as many as their coordinates
  have hnodup : ((s.entered.erase Registry.foundational).map s.coordinates).Nodup :=
    ha.nodup_coordinates h.nodup_entered hlt
  have hsubset : (s.entered.erase Registry.foundational).map s.coordinates ⊆
      p.sources.map (·.coordinates) ++ p.artifacts.map (·.coordinates) := by
    intro c hc
    obtain ⟨n, hn, rfl⟩ := List.mem_map.mp hc
    exact h.coordinates_of_entered (List.mem_of_mem_erase hn)
  calc s.entered.length ≤ (s.entered.erase Registry.foundational).length + 1 := by
        rw [List.length_erase]
        split <;> omega
    _ ≤ p.depth := by
        have hle := (List.subperm_of_subset hnodup hsubset).length_le
        simp only [List.length_map, List.length_append] at hle
        rw [Plan.depth]
        omega

end Session

namespace Plan

variable {p : Plan} {config : Config} {overrides : Option Overrides} {a : Agenda}
  {t : Session Walk} {e : ResolveError}

theorem Reaches.addressed (h : p.Reaches config overrides a) : a.session.registry.Addressed := by
  induction h using Reaches.induction with
  | start => exact Registry.addressed_init _
  | step hreach hs ih =>
      obtain ⟨id, -, hev⟩ := hreach.coherent.evolves_step hs
      exact hev.addressed hreach.coherent.session.indexed ih

theorem Reaches.entered_add_le {n : ℕ} (h : p.Reaches config overrides a)
    (hn : Agenda.Enters p (p.environment config overrides) n a) :
    a.session.entered.length + n ≤ p.depth := by
  induction hn with
  | none => exact h.coherent.session.length_entered_le h.addressed
  | next hnext _ ih =>
      have hle := ih (h.tail hnext)
      cases hnext with
      | step hs =>
          have hkept := List.subperm_of_subset h.coherent.session.nodup_entered fun n hn =>
            Session.mem_entered.mpr (h.coherent.entered_of_step hs (Session.mem_entered.mp hn))
          exact Nat.le_trans (Nat.add_le_add_right hkept.length_le _) hle
  | enter hnext hbegins _ ih =>
      have hle := ih (h.tail hnext)
      omega

theorem fails_of_session (h : p.session config overrides = (.error e, t)) :
    ∃ s v rest, p.Reaches config overrides ⟨s, .visit v :: rest⟩ ∧
      v.Fails p (p.environment config overrides) s e ∧ t.registry = s.registry := by
  have hfollows := follows_session p config overrides
  rw [h] at hfollows
  cases hfollows with
  | failed hreach hfails ht => exact ⟨_, _, _, hreach, hfails, ht⟩
  | tooDeep hdeep =>
      have hle := Reaches.entered_add_le .refl hdeep
      omega

theorem session_ne_tooDeep (p : Plan) (config : Config) (overrides : Option Overrides) :
    (p.session config overrides).1 ≠ .error .tooDeep := by
  intro h
  obtain ⟨s, v, rest, -, hfails, -⟩ := fails_of_session (t := (p.session config overrides).2)
    (Prod.ext h rfl)
  cases hfails

end Plan

end ModuleResolution
