import Mathlib.Data.List.Chain
import ModuleResolution.Proofs.Cycles
import ModuleResolution.Proofs.Depth

namespace ModuleResolution

theorem exists_rel_of_isChain {α : Type} {rel : α → α → Prop} {a b : α} {l : List α}
    (h : (a :: l).IsChain rel) (hb : b ∈ l) : ∃ c, rel c b := by
  induction l generalizing a with
  | nil => cases hb
  | cons c l ih =>
      obtain ⟨hac, hrest⟩ := List.isChain_cons_cons.mp h
      rcases List.mem_cons.mp hb with rfl | hb
      · exact ⟨a, hac⟩
      · exact ih hrest hb

namespace Registry

variable {r : Registry} {m n : ModuleId}

def ThroughBinaries (r : Registry) (m n : ModuleId) : Prop :=
  ∃ k, Relation.ReflTransGen (fun a b => r.Edge a b ∧ r.isBinaryInput b = true) m k ∧ r.Edge k n

theorem throughBinaries_of_edge (h : r.Edge m n) : r.ThroughBinaries m n :=
  ⟨m, .refl, h⟩

theorem ThroughBinaries.tail {k : ModuleId} (h : r.ThroughBinaries m k)
    (hk : r.isBinaryInput k = true) (hedge : r.Edge k n) : r.ThroughBinaries m n := by
  obtain ⟨l, hpath, hl⟩ := h
  exact ⟨k, hpath.tail ⟨hl, hk⟩, hedge⟩

theorem ThroughBinaries.canonical (h : r.ThroughBinaries m n) (hl : r.Linked) :
    r.Canonical n := by
  obtain ⟨k, -, hk⟩ := h
  exact hk.canonical hl

end Registry

structure Plan.SourceCycle (p : Plan) (r : Registry) (ids : List ModuleId) : Prop where
  length : 2 ≤ ids.length
  closed : ids.head? = ids.getLast?
  distinct : (ids.dropLast.map fun n => (r.module n).coordinates).Nodup
  sources : ∀ n ∈ ids, p.HasSource (r.module n).coordinates
  linked : ids.IsChain r.ThroughBinaries

namespace Task

def innermost? (tasks : List Task) : Option ModuleId :=
  (tasks.filterMap finishes?).head?

def LedTo (r : Registry) (m : ModuleId) : Task → Prop
  | visit v => r.ThroughBinaries m v.edge.target
  | declare n _ _ => m = n
  | finish n => r.ThroughBinaries m n
  | root _ => False

def Led (r : Registry) : List Task → Prop
  | [] => True
  | task :: rest => (∀ m ∈ innermost? rest, task.LedTo r m) ∧ Led r rest

variable {r r' : Registry} {tasks left rest : List Task}

theorem Led.mono (h : Led r tasks)
    (hr : ∀ m n, r.ThroughBinaries m n → r'.ThroughBinaries m n) : Led r' tasks := by
  induction tasks with
  | nil => trivial
  | cons task rest ih =>
      refine ⟨fun m hm => ?_, ih h.2⟩
      have hled := h.1 m hm
      cases task with
      | visit | finish => exact hr _ _ hled
      | declare | root => exact hled

theorem led_of_none (h : tasks.filterMap finishes? = []) : Led r tasks := by
  induction tasks with
  | nil => trivial
  | cons task rest ih =>
      have hrest : rest.filterMap finishes? = [] :=
        List.filterMap_eq_nil_iff.mpr fun next hnext =>
          List.filterMap_eq_nil_iff.mp h next (List.mem_cons_of_mem _ hnext)
      refine ⟨fun m hm => ?_, ih hrest⟩
      rw [innermost?, hrest] at hm
      cases hm

theorem led_visits (h : Led r rest) (hleft : ∀ task ∈ left, ∃ v, task = visit v ∧
    ∀ m ∈ innermost? rest, r.ThroughBinaries m v.edge.target) : Led r (left ++ rest) := by
  induction left with
  | nil => exact h
  | cons task left ih =>
      obtain ⟨v, rfl, hv⟩ := hleft task List.mem_cons_self
      have hvisits : left.filterMap finishes? = [] := by
        refine List.filterMap_eq_nil_iff.mpr fun task htask => ?_
        obtain ⟨w, rfl, -⟩ := hleft task (List.mem_cons_of_mem _ htask)
        rfl
      have hsame : innermost? (left ++ rest) = innermost? rest := by
        rw [innermost?, List.filterMap_append, hvisits]
        rfl
      refine ⟨fun m hm => hv m (hsame ▸ hm), ih fun task htask => ?_⟩
      exact hleft task (List.mem_cons_of_mem _ htask)

theorem led_ofSource {id : ModuleId} (trail : Trail) (src : SourceModule) (h : Led r rest)
    (hid : ∀ m ∈ innermost? rest, r.ThroughBinaries m id) :
    Led r (ofSource id trail src ++ rest) := by
  rw [ofSource]
  induction src.imports with
  | nil => exact ⟨hid, h⟩
  | cons d ds ih =>
      refine ⟨fun m hm => ?_, ih⟩
      have hfirst : innermost? (ds.map (declare id (trail.extend id)) ++ [finish id] ++ rest) =
          some id := by
        simp [innermost?, finishes?, Function.comp_def]
      exact (Option.some.inj (hfirst.symm.trans hm)).symm

theorem isChain_of_led (h : Led r tasks) :
    (tasks.filterMap finishes?).IsChain fun n m => r.ThroughBinaries m n := by
  induction tasks with
  | nil => exact .nil
  | cons task rest ih =>
      cases task with
      | finish n => exact List.isChain_cons.mpr ⟨h.1, ih h.2⟩
      | visit | declare | root => exact ih h.2

end Task

namespace Agenda

variable {p : Plan} {env : Environment} {s t : Session Walk} {task : Task} {left rest : List Task}
  {m n : ModuleId}

theorem Coherent.throughBinaries_of_step (h : Coherent p env ⟨s, task :: rest⟩)
    (hs : task.Step p env s t left) (hmn : s.registry.ThroughBinaries m n) :
    t.registry.ThroughBinaries m n := by
  have hst := h.extends hs
  have hinput (b : ModuleId) (hb : s.registry.isBinaryInput b = true) :
      t.registry.isBinaryInput b = true :=
    (h.step hs).session.isBinaryInput_iff.mpr
      (hst.loaded (h.session.isBinaryInput_iff.mp hb))
  obtain ⟨k, hpath, hk⟩ := hmn
  refine ⟨k, hpath.lift id fun a b hab => ?_, hk.mono hst.imports⟩
  exact ⟨hab.1.mono hst.imports, hinput b hab.2⟩

theorem Coherent.led_step (h : Coherent p env ⟨s, task :: rest⟩)
    (hs : task.Step p env s t left) (hled : Task.Led s.registry (task :: rest)) :
    Task.Led t.registry (left ++ rest) := by
  have hlater := hled.mono fun m n => h.throughBinaries_of_step hs
  have ht := (h.step hs).session
  cases hs with
  | @loaded v =>
      refine Task.led_visits hlater.2 fun next hnext => ?_
      obtain ⟨i, hi, rfl⟩ := Task.mem_ofLoaded hnext
      refine ⟨_, rfl, fun m hm => (hlater.1 m hm).tail ?_ ⟨i, hi, rfl⟩⟩
      exact ht.isBinaryInput_iff.mpr List.mem_cons_self
  | entered => exact Task.led_ofSource _ _ hlater.2 hlater.1
  | opened => exact Task.led_ofSource _ _ hlater.2 fun m hm => (hlater.1 m hm).elim
  | @declared n trail d =>
      refine Task.led_visits hlater.2 fun next hnext => ?_
      obtain rfl := List.mem_singleton.mp hnext
      refine ⟨_, rfl, fun m hm => ?_⟩
      obtain rfl : m = n := hlater.1 m hm
      exact Registry.throughBinaries_of_edge h.edge_declare
  | _ => exact hlater.2

end Agenda

namespace Plan

variable {p : Plan} {config : Config} {overrides : Option Overrides} {a : Agenda}
  {chain : List Coordinates}

theorem sourceCycle_of_isChain {r : Registry} {id : ModuleId} {inner : List ModuleId}
    (hl : r.Linked) (hchain : (id :: (inner ++ [id])).IsChain r.ThroughBinaries)
    (hnodup : (id :: inner).Nodup)
    (hsource : ∀ n ∈ id :: inner, p.HasSource (r.module n).coordinates) :
    p.SourceCycle r (id :: inner ++ [id]) := by
  have hmem (n : ModuleId) : n ∈ id :: inner ↔ n ∈ inner ++ [id] := by
    rw [List.mem_append, List.mem_singleton, List.mem_cons, or_comm]
  -- the first module is the last one too, so an edge leads to each of them
  have hcanonical (n : ModuleId) (hn : n ∈ id :: inner) : r.Canonical n := by
    obtain ⟨m, hm⟩ := exists_rel_of_isChain hchain ((hmem n).mp hn)
    exact hm.canonical hl
  refine ⟨by simp, ?closed, ?distinct, fun n hn => ?sources, hchain⟩
  case closed =>
    rw [List.getLast?_concat]
    rfl
  case distinct =>
    rw [List.dropLast_concat]
    refine hnodup.map_on fun m hm n hn heq => ?_
    exact (hcanonical m hm).eq (hcanonical n hn) heq
  case sources =>
    rcases List.mem_cons.mp hn with rfl | hn
    · exact hsource n List.mem_cons_self
    · exact hsource n ((hmem n).mpr hn)

theorem Reaches.led (h : p.Reaches config overrides a) :
    Task.Led a.session.registry a.tasks := by
  induction h using Reaches.induction with
  | start => exact Task.led_of_none (coherent_agenda p config overrides).stack
  | step hreach hs ih => exact hreach.coherent.led_step hs ih

theorem Reaches.isChain_inProgress {s : Session Walk} {v : Visit} {rest : List Task}
    (h : p.Reaches config overrides ⟨s, .visit v :: rest⟩) :
    (s.engine.inProgress ++ [v.edge.target]).IsChain s.registry.ThroughBinaries := by
  have hstack : rest.filterMap Task.finishes? = s.engine.inProgress.reverse := h.coherent.stack
  obtain ⟨hvisit, hrest⟩ := h.led
  refine List.isChain_append.mpr ⟨?_, .singleton _, fun m hm n hn => ?_⟩
  · have hchain := Task.isChain_of_led hrest
    rw [hstack, List.isChain_reverse] at hchain
    exact hchain
  · obtain rfl : v.edge.target = n := Option.some.inj hn
    refine hvisit m ?_
    rw [Task.innermost?, hstack, List.head?_reverse]
    exact hm

theorem Reaches.sourceCycle {s : Session Walk} {v : Visit} {rest : List Task}
    (h : p.Reaches config overrides ⟨s, .visit v :: rest⟩)
    (hbusy : v.edge.target ∈ s.engine.inProgress) :
    p.SourceCycle s.registry
      (s.engine.inProgress.dropWhile (· != v.edge.target) ++ [v.edge.target]) := by
  have hc := h.coherent.session
  obtain ⟨outer, inner, hstack⟩ := List.append_of_mem hbusy
  have hnodup : (outer ++ v.edge.target :: inner).Nodup := hstack ▸ hc.inProgressNodup
  have houter (n : ModuleId) (hn : n ∈ outer) : (n != v.edge.target) = true := by
    refine bne_iff_ne.mpr ?_
    rintro rfl
    exact List.disjoint_of_nodup_append hnodup hn List.mem_cons_self
  have hcut : s.engine.inProgress.dropWhile (· != v.edge.target) = v.edge.target :: inner := by
    rw [hstack, List.dropWhile_append_of_pos houter, List.dropWhile_cons_of_neg (by simp)]
  rw [hcut]
  refine sourceCycle_of_isChain hc.linked ?_ (List.nodup_append.mp hnodup).2.1 fun n hn => ?_
  · exact h.isChain_inProgress.suffix ⟨outer, by simp [hstack]⟩
  · have hn : n ∈ s.engine.inProgress := hstack ▸ List.mem_append_right _ hn
    exact hasSource_iff.mpr (hc.sources n (.inl hn)).2.2

theorem cycle_of_run (hrun : p.run config overrides = .error (.cycle chain)) :
    ∃ ids, chain = ids.map (p.session config overrides).2.coordinates ∧
      p.SourceCycle (p.session config overrides).2.registry ids := by
  obtain ⟨t, ht⟩ := run_eq_error.mp hrun
  obtain ⟨s, v, rest, hreach, hfails, hregistry⟩ := fails_of_session ht
  rw [ht]
  cases hfails with
  | cycle hsource hclear hbusy =>
      refine ⟨_, ?_, hregistry ▸ hreach.sourceCycle hbusy⟩
      have hsame : t.coordinates = s.coordinates := by
        funext n
        rw [Session.coordinates, hregistry]
      rw [hsame]
      rfl

def cycleOverLibraries : Plan where
  sources := [⟨⟨"a", "1"⟩, [⟨"lib", "1", false, false⟩]⟩, ⟨⟨"b", "1"⟩, [⟨"a", "1", false, false⟩]⟩]
  artifacts := [⟨⟨"lib", "1"⟩, some ⟨3, 2⟩, [⟨⟨"util", "1"⟩, .exported⟩]⟩,
    ⟨⟨"util", "1"⟩, none, [⟨⟨"b", "1"⟩, .exported⟩]⟩]

theorem cycle_of_run_cycleOverLibraries :
    cycleOverLibraries.run .default none = .error (.cycle [⟨"a", "1"⟩, ⟨"b", "1"⟩, ⟨"a", "1"⟩]) ∧
      ∃ ids, [⟨"a", "1"⟩, ⟨"b", "1"⟩, ⟨"a", "1"⟩] =
          ids.map (cycleOverLibraries.session .default none).2.coordinates ∧
        cycleOverLibraries.SourceCycle
          (cycleOverLibraries.session .default none).2.registry ids := by
  have hrun : cycleOverLibraries.run .default none =
      .error (.cycle [⟨"a", "1"⟩, ⟨"b", "1"⟩, ⟨"a", "1"⟩]) :=
    run_eq_error_of_session (by decide +kernel)
  exact ⟨hrun, cycle_of_run hrun⟩

end Plan

end ModuleResolution
