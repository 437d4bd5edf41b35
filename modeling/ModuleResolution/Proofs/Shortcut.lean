import ModuleResolution.Proofs.Rejected

namespace ModuleResolution

def Visit.Skipped (env : Environment) (s : Session Walk) (v : Visit) (artifact : Artifact)
    (source : SourceResolver Walk) : Prop :=
  ∃ c t, ResolveM.resolve env source ⟨artifact, v.edge.target, v.edge, v.trail, v.onBuildPath⟩ s =
    (.ok (.skipped c), t)

namespace Session

variable {p : Plan} {env : Environment} {s : Session Walk} {v : Visit}

theorem Coherent.skipped_iff (h : s.Coherent p env) (hl : v.edge.target ∈ s.client.loaded)
    (hpath : v.onBuildPath = true) (artifact : Artifact) (source : SourceResolver Walk) :
    v.Skipped env s artifact source ↔ (s.registry.conflict? v.edge.target).isSome = true := by
  obtain ⟨hbinary, hsupplied, -⟩ := (h.binaries v.edge.target hl).2
  rw [Visit.Skipped, ResolveM.resolve_apply]
  have hdecides := Engine.decides_step env s.engine
    ⟨artifact, v.edge.target, v.edge, v.trail, v.onBuildPath⟩
  generalize s.engine.step env ⟨artifact, v.edge.target, v.edge, v.trail, v.onBuildPath⟩ = decided
    at hdecides ⊢
  cases hdecides with
  | skipped _ hconflict => exact ⟨fun _ => Option.isSome_of_eq_some hconflict, fun _ => ⟨_, _, rfl⟩⟩
  | load _ _ hclear =>
      rw [hclear hpath]
      refine ⟨?_, fun hsome => by cases hsome⟩
      rintro ⟨c, t, hresolve⟩
      generalize (s.engine.load env artifact v.edge.target v.edge v.trail).2 = l at hresolve
      cases l <;> cases hresolve
  | supplied _ htrue => cases hsupplied.symm.trans htrue
  | cycle htrue | delegate htrue => cases hbinary.symm.trans htrue
  | deferred _ _ hoff => cases hpath.symm.trans hoff

end Session

theorem Walk.visitEdge_of_done {p : Plan} {env : Environment} {s : Session Walk} {v : Visit}
    (hdone : s.client.isDone v.edge.target = true) (deeper : Option Visitor) :
    visitEdge p env deeper v s = (.ok (), s) := by
  simp only [visitEdge, ResolveM.bind_apply, ResolveM.get_apply, hdone, if_true]
  rfl

theorem Agenda.Follows.leads {p : Plan} {env : Environment} {depth : Nat} {a : Agenda}
    {rest : List Task} {result : Except ResolveError Unit × Session Walk}
    (h : Follows p env depth a rest result) (hok : result.1.toOption.isSome = true) :
    Leads p env a ⟨result.2, rest⟩ := by
  cases h with
  | done h => exact h
  | failed | tooDeep => cases hok

namespace Plan

inductive LoadsUnchecked (p : Plan) (config : Config) (overrides : Option Overrides)
    (m n : ModuleId) (a : Agenda) : Prop
  | intro {s t : Session Walk} {w : Visit} {left rest : List Task}
      (hreach : p.Reaches config overrides ⟨s, .visit w :: rest⟩)
      (hs : (Task.visit w).Step p (p.environment config overrides) s t left)
      (hpath : w.onBuildPath = false) (hm : m ∈ s.client.loaded)
      (hn : t.client.loaded = n :: s.client.loaded)
      (hlater : Agenda.Leads p (p.environment config overrides) ⟨t, left ++ rest⟩ a) :
      LoadsUnchecked p config overrides m n a

variable {p : Plan} {config : Config} {overrides : Option Overrides} {a b : Agenda}
  {m n : ModuleId}

namespace LoadsUnchecked

theorem trans (h : p.LoadsUnchecked config overrides m n a)
    (hab : Agenda.Leads p (p.environment config overrides) a b) :
    p.LoadsUnchecked config overrides m n b := by
  obtain ⟨hreach, hs, hpath, hm, hn, hlater⟩ := h
  exact ⟨hreach, hs, hpath, hm, hn, hlater.trans hab⟩

theorem mem_loaded (h : p.LoadsUnchecked config overrides m n a) :
    m ∈ a.session.client.loaded ∧ n ∈ a.session.client.loaded := by
  obtain ⟨hreach, hs, -, hm, hn, hlater⟩ := h
  have hlater := (Agenda.Leads.extends hlater (hreach.coherent.step hs)).loaded
  refine ⟨hlater ?_, hlater ?_⟩ <;> rw [hn]
  · exact List.mem_cons_of_mem _ hm
  · exact List.mem_cons_self

theorem loadTransitive (h : p.LoadsUnchecked config overrides m n a) :
    config.loadTransitive = true := by
  obtain ⟨hreach, hs, hpath, hm, hn, -⟩ := h
  rcases hreach.coherent.loaded_cases hs with hsame | ⟨v, hv, -, hdone, hloads, -, hneeded⟩
  · cases List.cons_ne_self _ _ (hn.symm.trans hsame)
  · cases hv
    refine (hreach.loads_strictly hdone hloads hneeded).resolve_left fun hon => ?_
    exact Bool.false_ne_true (hpath.symm.trans hon)

end LoadsUnchecked

theorem Reaches.loadsUnchecked (h : p.Reaches config overrides a)
    (hm : m ∈ a.session.client.loaded) (hn : n ∈ a.session.client.loaded)
    (hrivals : a.session.registry.Rivals m n) :
    p.LoadsUnchecked config overrides m n a ∨ p.LoadsUnchecked config overrides n m a := by
  induction h using Reaches.induction with
  | start => cases hm
  | @step s t task left rest hreach hs ih =>
      have hc := hreach.coherent
      have hst := hc.extends hs
      have hnext : Agenda.Leads p (p.environment config overrides) ⟨s, task :: rest⟩
        ⟨t, left ++ rest⟩ := .single (.step hs)
      have hold (hm : m ∈ s.client.loaded) (hn : n ∈ s.client.loaded) :
          p.LoadsUnchecked config overrides m n ⟨t, left ++ rest⟩ ∨
            p.LoadsUnchecked config overrides n m ⟨t, left ++ rest⟩ := by
        have hbefore := (hst.later.rivals (hc.session.binaries m hm).1
          (hc.session.binaries n hn).1).mp hrivals
        exact (ih hm hn hbefore).imp (·.trans hnext) (·.trans hnext)
      rcases hc.loaded_cases hs with hsame | ⟨w, rfl, hloaded, -, -, hclear, -⟩
      · exact hold (hsame ▸ hm) (hsame ▸ hn)
      · have hlt := hc.targets w List.mem_cons_self
        -- a check would have found the rival
        have hnew (k : ModuleId) (hk : k ∈ s.client.loaded)
            (hrivals : t.registry.Rivals k w.edge.target) :
            p.LoadsUnchecked config overrides k w.edge.target ⟨t, left ++ rest⟩ := by
          refine ⟨hreach, hs, ?_, hk, hloaded, .refl⟩
          rw [hst.later.rivals (hc.session.binaries k hk).1 hlt] at hrivals
          have hconflict := hc.session.conflict?_isSome.mpr ⟨k, hk, hrivals⟩
          rw [← Bool.not_eq_true]
          intro hon
          rw [hclear hon] at hconflict
          cases hconflict
        rw [hloaded, List.mem_cons] at hm hn
        rcases hm with rfl | hm
        · rcases hn with rfl | hn
          · exact absurd hrivals (Registry.not_rivals_self _ _)
          · exact .inr (hnew n hn hrivals.symm)
        · rcases hn with rfl | hn
          · exact .inl (hnew m hm hrivals)
          · exact hold hm hn

variable {s : Session Walk} {v : Visit} {rest : List Task}

/--
What the walk's shortcut for loaded modules loses. An edge on the build path to a module that is
loaded is passed over. The engine would skip it exactly if the module has a rival and the later of
the two was loaded off the build path, which takes a policy that loads what nothing needs.
-/
theorem shortcut_skips_iff (h : p.Reaches config overrides ⟨s, .visit v :: rest⟩)
    (hpath : v.onBuildPath = true) (hl : v.edge.target ∈ s.client.loaded) :
    (∀ deeper, Walk.visitEdge p (p.environment config overrides) deeper v s = (.ok (), s)) ∧
      ∀ artifact source, v.Skipped (p.environment config overrides) s artifact source ↔
        config.loadTransitive = true ∧ ∃ m, s.registry.Rivals m v.edge.target ∧
          (p.LoadsUnchecked config overrides m v.edge.target ⟨s, .visit v :: rest⟩ ∨
            p.LoadsUnchecked config overrides v.edge.target m ⟨s, .visit v :: rest⟩) := by
  have hc := h.coherent.session
  refine ⟨Walk.visitEdge_of_done (Walk.isDone_eq_true.mpr (.inl hl)), fun artifact source => ?_⟩
  rw [hc.skipped_iff hl hpath, hc.conflict?_isSome]
  constructor
  · rintro ⟨m, hm, hrivals⟩
    have hunchecked := h.loadsUnchecked hm hl hrivals
    exact ⟨hunchecked.elim (·.loadTransitive) (·.loadTransitive), m, hrivals, hunchecked⟩
  · rintro ⟨-, m, hrivals, hunchecked⟩
    exact ⟨m, hunchecked.elim (·.mem_loaded.1) (·.mem_loaded.2), hrivals⟩

def loadingAll : Config :=
  { Config.default with loadTransitive := true }

def lateImporter : SourceModule where
  coordinates := ⟨"app", "1"⟩
  imports := [⟨"lib", "2", false, false⟩, ⟨"tool", "1", false, false⟩, ⟨"lib", "1", false, false⟩]

def lateImport : Plan where
  sources := [lateImporter]
  artifacts := [⟨⟨"lib", "1"⟩, some ⟨3, 2⟩, []⟩, ⟨⟨"lib", "2"⟩, some ⟨3, 2⟩, []⟩,
    ⟨⟨"tool", "1"⟩, some ⟨3, 2⟩, [⟨⟨"lib", "1"⟩, .normal⟩]⟩]

def lateEntry : Session Walk :=
  (⟨((Engine.start loadingAll.foundational).ensure (lateImport.environment loadingAll none)
    lateImporter.coordinates).1, Walk.start⟩ : Session Walk).enter (.start 2) 2

def lateWalk : Except ResolveError Unit × Session Walk :=
  (lateImporter.imports.take 2).forM
    (Walk.compileImport (lateImport.environment loadingAll none)
      (Walk.visitEdge lateImport (lateImport.environment loadingAll none)
        (Walk.visitor? lateImport (lateImport.environment loadingAll none) 2)) 2 (.start 2))
    lateEntry

theorem reaches_lateWalk :
    lateImport.Reaches loadingAll none ⟨lateWalk.2,
      [.declare 2 (.start 2) ⟨"lib", "1", false, false⟩, .finish 2]⟩ := by
  have hagenda : lateImport.agenda loadingAll =
      ⟨⟨Engine.start loadingAll.foundational, Walk.start⟩, [.root lateImporter]⟩ := by
    have hnone : (lateImport.artifact? loadingAll.foundational).isSome = false := by decide +kernel
    rw [agenda, hnone]
    rfl
  have hopened : (Task.root lateImporter).Step lateImport (lateImport.environment loadingAll none)
      ⟨Engine.start loadingAll.foundational, Walk.start⟩ lateEntry
      (Task.ofSource 2 (.start 2) lateImporter) :=
    .opened (Prod.ext rfl (by decide +kernel)) (by decide +kernel) (by decide +kernel)
      (by decide +kernel) (by decide +kernel) (by decide +kernel)
  have hvisit := Agenda.descends_visitor? lateImport (lateImport.environment loadingAll none) 3
  have hwalked := (Agenda.follows_forM (s := lateEntry) (.declare 2 (.start 2))
    (fun d s rest => Agenda.follows_compileImport hvisit 2 _ d) (lateImporter.imports.take 2)
    [.declare 2 (.start 2) ⟨"lib", "1", false, false⟩, .finish 2]).leads (by decide +kernel)
  rw [Reaches, hagenda]
  exact .head (.step hopened) hwalked

theorem passes_lateImport :
    ∃ s v rest, lateImport.Reaches loadingAll none ⟨s, .visit v :: rest⟩ ∧
      v.onBuildPath = true ∧ v.edge.target ∈ s.client.loaded ∧
      (s.registry.conflict? v.edge.target).isSome = true :=
  ⟨_, _, _, reaches_lateWalk.tail (.step .declared), rfl, by decide +kernel, by decide +kernel⟩

theorem shortcut_skips_iff_lateImport :
    ∃ s v rest, lateImport.Reaches loadingAll none ⟨s, .visit v :: rest⟩ ∧
      v.onBuildPath = true ∧ v.edge.target ∈ s.client.loaded ∧
      (∀ deeper, Walk.visitEdge lateImport (lateImport.environment loadingAll none) deeper v s =
        (.ok (), s)) ∧
      ∀ artifact source, v.Skipped (lateImport.environment loadingAll none) s artifact source ↔
        loadingAll.loadTransitive = true ∧ ∃ m, s.registry.Rivals m v.edge.target ∧
          (lateImport.LoadsUnchecked loadingAll none m v.edge.target ⟨s, .visit v :: rest⟩ ∨
            lateImport.LoadsUnchecked loadingAll none v.edge.target m ⟨s, .visit v :: rest⟩) := by
  obtain ⟨s, v, rest, hreach, hpath, hl, -⟩ := passes_lateImport
  exact ⟨s, v, rest, hreach, hpath, hl, shortcut_skips_iff hreach hpath hl⟩

theorem unreported_clash_lateImport :
    lateImport.validate = .ok () ∧ loadingAll.validate = .ok () ∧
      (∃ report, lateImport.run loadingAll none = .ok report ∧ report.diagnostics.isEmpty = true) ∧
      ∃ s v rest, lateImport.Reaches loadingAll none ⟨s, .visit v :: rest⟩ ∧
        v.onBuildPath = true ∧ v.edge.target ∈ s.client.loaded ∧
        (∀ deeper, Walk.visitEdge lateImport (lateImport.environment loadingAll none) deeper v s =
          (.ok (), s)) ∧
        ∀ artifact source,
          v.Skipped (lateImport.environment loadingAll none) s artifact source := by
  obtain ⟨s, v, rest, hreach, hpath, hl, hconflict⟩ := passes_lateImport
  refine ⟨by decide +kernel, by decide +kernel, exists_report (by decide +kernel), s, v, rest,
    hreach, hpath, hl, Walk.visitEdge_of_done (Walk.isDone_eq_true.mpr (.inl hl)), ?_⟩
  exact fun artifact source =>
    (hreach.coherent.session.skipped_iff hl hpath artifact source).mpr hconflict

end Plan

end ModuleResolution
