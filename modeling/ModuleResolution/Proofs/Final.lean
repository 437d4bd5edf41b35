import ModuleResolution.Proofs.Extent

namespace ModuleResolution

namespace Session

variable {p : Plan} {env : Environment} {s t : Session Walk} {n : ModuleId} {i : Import}

theorem entered_extent (hn : n ∈ s.client.loaded ∨ n ∈ s.client.compiled) :
    s.extent.entered (s.coordinates n) :=
  ⟨n, entered_of_done hn, rfl⟩

theorem Settles.answers (h : s.Settles p env n i) (hc : s.Coherent p env)
    (hskip : ∀ c, ⟨n, i.target, some (.skipped c)⟩ ∉ s.client.outcomes) :
    s.extent.Answers p env (env.isSource (s.registry.module n).name = true ∨ i.exported = true ∨
      env.config.loadTransitive = true) (s.coordinates i.target) := by
  cases h with
  | loaded h =>
      have hloads := (hc.binaries _ h).2
      exact ⟨fun hcompiles => absurd hcompiles hloads.not_compiles,
        fun _ _ => entered_extent (.inl h),
        fun hserves => absurd (hloads.2.1.symm.trans hserves.2.1) Bool.false_ne_true⟩
  | compiled h =>
      have hcompiles := (hc.sources _ (.inr h)).2
      exact ⟨fun _ => entered_extent (.inr h),
        fun _ hloads => absurd hcompiles hloads.not_compiles,
        fun hserves => absurd (hserves.1.symm.trans hcompiles.1) Bool.false_ne_true⟩
  | absent hlt hloads hcompiles hserved =>
      exact ⟨fun h => absurd h hcompiles, fun _ h => absurd h hloads,
        fun hserves => ⟨i.target, hlt, hserved hserves, rfl⟩⟩
  | skipped c h => exact absurd h (hskip c)
  | deferred _ hpolicy _ hsource hexported _ hloads =>
      refine ⟨fun hcompiles => absurd hcompiles hloads.not_compiles, ?_,
        fun hserves => absurd (hloads.2.1.symm.trans hserves.2.1) Bool.false_ne_true⟩
      rintro (h | h | h)
      · exact absurd (hsource.symm.trans h) Bool.false_ne_true
      · exact absurd (hexported.symm.trans h) Bool.false_ne_true
      · exact absurd (hpolicy.symm.trans h) Bool.false_ne_true

end Session

namespace Agenda

variable {p : Plan} {env : Environment} {s t : Session Walk} {task : Task}
  {left rest : List Task}

def Taken (env : Environment) (s : Session Walk) (c : Coordinates) : Prop :=
  s.registry.Knows c ∧ ((env.origin c).available = true ∨ s.extent.entered c ∨
    ∃ d ∈ s.engine.diagnostics, d.issue.isConflict = true)

theorem Coherent.taken_step {c : Coordinates} (h : Coherent p env ⟨s, task :: rest⟩)
    (hs : task.Step p env s t left) (ht : Taken env s c) : Taken env t c := by
  have hst := h.extends hs
  obtain ⟨hknown, htaken⟩ := ht
  refine ⟨hknown.mono hst.size_le fun j hj => (hst.grows j hj).coordinates, ?_⟩
  rcases htaken with horigin | ⟨n, hn, rfl⟩ | ⟨d, hd, hconflict⟩
  · exact .inl horigin
  · refine .inr (.inl ⟨n, h.entered_of_step hs hn, ?_⟩)
    exact (hst.grows n (hn.lt_size h.session)).coordinates
  · exact .inr (.inr ⟨d, hst.diagnostics.subset hd, hconflict⟩)

theorem Coherent.taken_of_root {src : SourceModule} (h : Coherent p env ⟨s, .root src :: rest⟩)
    (hf : s.Faced p env) (hsource : env.isSource src.coordinates.name = true)
    (hs : (Task.root src).Step p env s t left) : Taken env t src.coordinates := by
  have hc := h.session
  cases hs with
  | @present _ e id hensure havailable =>
      obtain ⟨hlt, hid⟩ := Session.ensured hc.indexed hensure
      rw [← hid] at hsource
      refine ⟨⟨id, hlt, hid⟩, ?_⟩
      cases (hf.ensure hc hensure).looks id hlt with
      | untouched _ hlook | inProgress _ hlook =>
          refine .inl ?_
          rw [← hid]
          exact hlook ▸ havailable
      | served _ hserves =>
          exact absurd (hserves.1.symm.trans hsource) Bool.false_ne_true
      | compiled hk => exact .inr (.inl ⟨id, Session.entered_of_done (.inr hk), hid⟩)
      | loaded hl => exact .inr (.inl ⟨id, Session.entered_of_done (.inl hl), hid⟩)
  | @refused _ e id c hensure =>
      obtain ⟨hlt, hid⟩ := Session.ensured hc.indexed hensure
      refine ⟨⟨id, hlt, hid⟩, .inr (.inr ⟨_, List.mem_append_right _
        (List.mem_singleton_self _), ?_⟩)⟩
      exact c.isConflict_issue
  | @opened _ declared e id hensure =>
      obtain ⟨hlt, hid⟩ := Session.ensured hc.indexed hensure
      exact ⟨⟨id, hlt, hid⟩, .inr (.inl ⟨id, .inr (by simp [Session.enter, Engine.enter]), hid⟩)⟩

end Agenda

namespace Plan

variable {p : Plan} {config : Config} {overrides : Option Overrides} {a : Agenda}
  {t : Session Walk}

theorem Reaches.taken (hne : config.foundational ≠ Registry.defaultCoordinates)
    (h : p.Reaches config overrides a) {src : SourceModule} (hsrc : src ∈ p.sources) :
    .root src ∈ a.tasks ∨
      Agenda.Taken (p.environment config overrides) a.session src.coordinates := by
  induction h using Reaches.induction with
  | start => exact .inl (List.mem_append_right _ (List.mem_map_of_mem hsrc))
  | step hreach hs ih =>
      have hc := hreach.coherent
      rcases ih with hroot | htaken
      · rcases List.mem_cons.mp hroot with hroot | hrest
        · obtain rfl := hroot
          exact .inr (hc.taken_of_root (hreach.faced hne)
            (isSource_environment config overrides hsrc) hs)
        · exact .inl (List.mem_append_right _ hrest)
      · exact .inr (hc.taken_step hs htaken)

theorem Reaches.settled_foundational (h : p.Reaches config overrides a)
    (hartifact : (p.artifact? config.foundational).isSome = true) :
    a.session.Settles p (p.environment config overrides) Registry.foundational
        Visit.foundational.edge ∨
      Agenda.Due a.tasks Registry.foundational Visit.foundational.edge := by
  induction h using Reaches.induction with
  | start =>
      refine .inr (.inl ⟨.foundational, List.mem_append_left _ ?_, rfl, rfl⟩)
      rw [if_pos hartifact]
      exact List.mem_singleton_self _
  | step hreach hs ih => exact hreach.coherent.settled_step hreach.onPath hs ih

theorem Reaches.settles_foundational (h : p.Reaches config overrides ⟨t, []⟩)
    (hartifact : (p.artifact? config.foundational).isSome = true) :
    t.Settles p (p.environment config overrides) Registry.foundational
      Visit.foundational.edge := by
  rcases h.settled_foundational hartifact with hsettles | ⟨v, hv, -⟩ | hfinish
  · exact hsettles
  · cases hv
  · cases hfinish

theorem Reaches.entered_end {n : ModuleId} (h : p.Reaches config overrides ⟨t, []⟩)
    (hn : t.Entered n) : n ∈ t.client.loaded ∨ n ∈ t.client.compiled := by
  rcases hn with hdone | hprogress
  · exact Walk.isDone_eq_true.mp hdone
  · rw [h.inProgress_end] at hprogress
    cases hprogress

section

variable (hne : config.foundational ≠ Registry.defaultCoordinates)
  (h : p.Reaches config overrides ⟨t, []⟩)
  (hclear : ∀ d ∈ t.engine.diagnostics, d.issue.isConflict = false)

include h hclear

theorem Reaches.answers {n : ModuleId} {i : Import}
    (hsettles : t.Settles p (p.environment config overrides) n i) :
    t.extent.Answers p (p.environment config overrides)
      ((p.environment config overrides).isSource (t.registry.module n).name = true ∨
        i.exported = true ∨ config.loadTransitive = true) (t.coordinates i.target) := by
  refine hsettles.answers h.coherent.session fun c ho => ?_
  obtain ⟨d, hd, hconflict⟩ := h.reported ho rfl
  exact Bool.false_ne_true ((hclear d hd).symm.trans hconflict)

theorem Reaches.imported_extent {n : ModuleId} (hn : n ∈ t.client.compiled) {d : Dependency}
    (hd : d ∈ p.sourceImports (t.coordinates n)) :
    t.extent.known d.coordinates ∧
      t.extent.Answers p (p.environment config overrides) True d.coordinates := by
  have hc := h.coherent.session
  obtain ⟨i, hi, htarget⟩ : ∃ i ∈ t.registry.namedImports n, i.target = d.coordinates := by
    rw [h.namedImports_of_compiled hn, NamedImport.target_addAll]
    exact .inr ⟨_, List.mem_map_of_mem hd, rfl⟩
  obtain ⟨k, hmem, rfl⟩ := List.mem_map.mp hi
  have htarget : t.coordinates k.target = d.coordinates := htarget
  have hsource := (hc.sources n (.inr hn)).2.1
  rw [← htarget]
  exact ⟨⟨k.target, hc.target_lt hmem, rfl⟩,
    (h.answers hclear (h.settles hmem)).mono fun _ => .inl hsource⟩

include hne

theorem Reaches.loaded_extent {n : ModuleId} (hn : n ∈ t.client.loaded) {i : NamedImport}
    (hi : i ∈ p.loadedImports (p.environment config overrides) (t.coordinates n)) :
    t.extent.Answers p (p.environment config overrides)
      (i.exported = true ∨ config.loadTransitive = true) i.target := by
  rw [← ((h.faced hne).looks_loaded h.coherent.session hn).2] at hi
  obtain ⟨k, hmem, rfl⟩ := List.mem_map.mp hi
  exact (h.answers hclear (h.settles hmem)).mono .inr

theorem Reaches.closed_extent : t.extent.Closed p (p.environment config overrides) := by
  have hc := h.coherent.session
  have hf := h.faced hne
  -- what was entered is done, and its coordinates tell in which of the two ways
  have hcompiled {n : ModuleId} (hn : t.Entered n)
      (hcompiles : p.Compiles (p.environment config overrides) (t.coordinates n)) :
      n ∈ t.client.compiled :=
    (h.entered_end hn).resolve_left fun hl => (hc.binaries n hl).2.not_compiles hcompiles
  have hloaded {n : ModuleId} (hn : t.Entered n)
      (hloads : p.Loads (p.environment config overrides) (t.coordinates n)) :
      n ∈ t.client.loaded :=
    (h.entered_end hn).resolve_right fun hk => hloads.not_compiles (hc.sources n (.inr hk)).2
  constructor
  case builtIn =>
    exact ⟨⟨_, hc.foundational_lt, hf.foundational⟩, ⟨_, hc.builtIn, hf.default⟩⟩
  case foundational =>
    intro hartifact
    have hopening := h.answers hclear (h.settles_foundational hartifact)
    rw [show t.coordinates Visit.foundational.edge.target = _ from hf.foundational] at hopening
    exact hopening.mono fun _ => .inr (.inl rfl)
  case root =>
    intro src hsrc
    rcases h.taken hne hsrc with hroot | ⟨hknown, htaken⟩
    · cases hroot
    · refine ⟨hknown, htaken.imp_right fun htaken => htaken.resolve_right ?_⟩
      rintro ⟨d, hd, hconflict⟩
      exact Bool.false_ne_true ((hclear d hd).symm.trans hconflict)
  case imported =>
    rintro c ⟨n, hn, rfl⟩ hcompiles d hd
    exact h.imported_extent hclear (hcompiled hn hcompiles) hd
  case loaded =>
    rintro c ⟨n, hn, rfl⟩ hloads i hi
    exact h.loaded_extent hne hclear (hloaded hn hloads) hi
  case mentioned =>
    rintro c ⟨n, hn, rfl⟩ hloads c' hmentions
    exact hf.mentions n (hloaded hn hloads) c' hmentions
  case createdAvailable =>
    rintro c ⟨n, hn, rfl⟩ horigin
    exact ⟨n, hn, hf.available_of_origin hc hn horigin, rfl⟩
  case enteredAvailable =>
    rintro c ⟨n, hn, rfl⟩
    exact ⟨n, hn.lt_size hc, hc.available n (h.entered_end hn), rfl⟩

end

end Plan

end ModuleResolution
