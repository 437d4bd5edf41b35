import ModuleResolution.Proofs.Roots

namespace ModuleResolution

def Registry.Edge (r : Registry) (m n : ModuleId) : Prop :=
  ∃ i ∈ (r.module m).imports, i.target = n

instance (r : Registry) (m n : ModuleId) : Decidable (r.Edge m n) :=
  inferInstanceAs (Decidable (∃ i ∈ (r.module m).imports, i.target = n))

theorem Registry.Edge.lt_size {r : Registry} {m n : ModuleId} (h : r.Edge m n) : m < r.size := by
  obtain ⟨i, hi, -⟩ := h
  exact lt_size_of_mem hi

theorem Registry.Edge.canonical {r : Registry} {m n : ModuleId} (h : r.Edge m n)
    (hl : r.Linked) : r.Canonical n := by
  obtain ⟨i, hi, rfl⟩ := h
  exact hl m i hi

theorem Registry.Edge.mono {r r' : Registry} {m n : ModuleId} (h : r.Edge m n)
    (hr : ∀ m, (r.module m).imports ⊆ (r'.module m).imports) : r'.Edge m n := by
  obtain ⟨i, hi, htarget⟩ := h
  exact ⟨i, hr m hi, htarget⟩

def EdgeOutcome.Untaken (o : EdgeOutcome) : Prop :=
  o.resolution = some .deferred ∨ ∃ c, o.resolution = some (.skipped c)

def LoadedBefore (outcomes : List EdgeOutcome) (binary source : ModuleId) : Prop :=
  ∃ before after, outcomes = before ++ after ∧
    (∃ o ∈ before, o.module = binary ∧ o.Loads) ∧
    ∃ o ∈ after, o.module = source ∧ o.resolution = some .fromSource

theorem LoadedBefore.mono {outcomes outcomes' : List EdgeOutcome} {b id : ModuleId}
    (h : LoadedBefore outcomes b id) (hlog : outcomes <+: outcomes') :
    LoadedBefore outcomes' b id := by
  obtain ⟨before, after, rfl, hb, o, ho, hid⟩ := h
  obtain ⟨later, rfl⟩ := hlog
  exact ⟨before, after ++ later, by rw [List.append_assoc], hb, o, List.mem_append_left _ ho, hid⟩

def Gap (r : Registry) (outcomes : List EdgeOutcome) (id : ModuleId) : Prop :=
  (∃ o ∈ outcomes, o.Untaken ∧ r.Edge o.importer o.module ∧
      Relation.ReflTransGen r.Edge id o.importer ∧ Relation.ReflTransGen r.Edge o.module id) ∨
    ∃ b, LoadedBefore outcomes b id ∧ Relation.TransGen r.Edge id b ∧
      Relation.TransGen r.Edge b id

theorem Gap.cycle {r : Registry} {outcomes : List EdgeOutcome} {id : ModuleId}
    (h : Gap r outcomes id) : Relation.TransGen r.Edge id id := by
  rcases h with ⟨o, -, -, hedge, hto, hback⟩ | ⟨b, -, hto, hback⟩
  · exact (Relation.TransGen.tail' hto hedge).trans_left hback
  · exact hto.trans hback

namespace Session

variable {p : Plan} {env : Environment} {s t : Session Walk} {id n : ModuleId} {i : Import}

inductive Escapes (p : Plan) (env : Environment) (s : Session Walk) (id : ModuleId)
    (members : ModuleId → Prop) (n : ModuleId) (i : Import) : Prop
  | inside (h : members i.target)
  | before (h : LoadedBefore s.client.outcomes i.target id)
  | absent (hlt : i.target < s.registry.size)
      (hloads : ¬ p.Loads env (s.registry.module i.target).coordinates)
      (hcompiles : ¬ p.Compiles env (s.registry.module i.target).coordinates)
  | untaken (o : EdgeOutcome) (ho : o ∈ s.client.outcomes) (hu : o.Untaken)
      (himporter : o.importer = n) (hmodule : o.module = i.target)

theorem Escapes.extends {members : ModuleId → Prop} (h : s.Escapes p env id members n i)
    (hst : s.Extends t) : t.Escapes p env id members n i := by
  cases h with
  | inside h => exact .inside h
  | before h => exact .before (h.mono hst.outcomes)
  | absent hlt hloads hcompiles =>
      rw [← (hst.grows _ hlt).coordinates] at hloads hcompiles
      exact .absent (hst.later.lt_size hlt) hloads hcompiles
  | untaken o ho hu himporter hmodule =>
      exact .untaken o (hst.outcomes.subset ho) hu himporter hmodule

theorem Settles.escapes {members : ModuleId → Prop} (h : s.Settles p env n i)
    (hloaded : i.target ∈ s.client.loaded →
      members i.target ∨ LoadedBefore s.client.outcomes i.target id)
    (hcompiled : i.target ∈ s.client.compiled → members i.target) :
    s.Escapes p env id members n i := by
  cases h with
  | loaded h => exact (hloaded h).elim .inside .before
  | compiled h => exact .inside (hcompiled h)
  | absent hlt hloads hcompiles => exact .absent hlt hloads hcompiles
  | skipped c h => exact .untaken _ h (.inr ⟨c, rfl⟩) rfl rfl
  | deferred h => exact .untaken _ h (.inl rfl) rfl rfl

structure Sealed (p : Plan) (env : Environment) (s : Session Walk) (id : ModuleId)
    (members : ModuleId → Prop) : Prop where
  outside : ¬ members id
  isDone : ∀ n, members n → s.client.isDone n = true
  escapes : ∀ n, n = id ∨ members n → ∀ i ∈ (s.registry.module n).imports,
    s.Escapes p env id members n i

def CompiledSealed (p : Plan) (env : Environment) (s : Session Walk) : Prop :=
  ∀ id ∈ s.client.compiled, ∃ members, s.Sealed p env id members

variable {members : ModuleId → Prop}

theorem Coherent.not_edge_of_absent {k : ModuleId} (h : s.Coherent p env)
    (hidle : s.engine.inProgress = [])
    (hloads : ¬ p.Loads env (s.registry.module n).coordinates)
    (hcompiles : ¬ p.Compiles env (s.registry.module n).coordinates) :
    ¬ s.registry.Edge n k := by
  rintro ⟨i, hi, -⟩
  rw [h.bare n (hidle ▸ List.not_mem_nil) (fun hn => hcompiles (h.sources n (.inr hn)).2)
    (fun hn => hloads (h.binaries n hn).2)] at hi
  cases hi

theorem Sealed.mem_of_cycle {m : ModuleId} (h : s.Sealed p env id members)
    (hc : s.Coherent p env) (hidle : s.engine.inProgress = [])
    (hto : Relation.ReflTransGen s.registry.Edge id m)
    (hback : Relation.ReflTransGen s.registry.Edge m id) :
    (m = id ∨ members m) ∨ Gap s.registry s.client.outcomes id := by
  -- along the path from `id`, which stays among the members up to the first edge that escapes
  induction hto with
  | refl => exact .inl (.inl rfl)
  | @tail k m hk hedge ih =>
      rcases ih (hback.head hedge) with hmem | hgap
      · obtain ⟨i, hi, rfl⟩ := hedge
        rcases Relation.reflTransGen_iff_eq_or_transGen.mp hback with heq | hback'
        · exact .inl (.inl heq.symm)
        · cases h.escapes k hmem i hi with
          | inside hin => exact .inl (.inr hin)
          | before hb => exact .inr (.inr ⟨i.target, hb, .tail' hk ⟨i, hi, rfl⟩, hback'⟩)
          | absent _ hloads hcompiles =>
              obtain ⟨j, hj, -⟩ := Relation.TransGen.head'_iff.mp hback'
              exact absurd hj (hc.not_edge_of_absent hidle hloads hcompiles)
          | untaken o ho hu himporter hmodule =>
              refine .inr (.inl ⟨o, ho, hu, ?_, himporter ▸ hk, hmodule ▸ hback⟩)
              exact ⟨i, himporter ▸ hi, hmodule.symm⟩
      · exact .inr hgap

theorem Sealed.gap (h : s.Sealed p env id members) (hc : s.Coherent p env)
    (hidle : s.engine.inProgress = [])
    (hcompiles : p.Compiles env (s.registry.module id).coordinates)
    (hcycle : Relation.TransGen s.registry.Edge id id) :
    Gap s.registry s.client.outcomes id := by
  obtain ⟨m, hto, hedge⟩ := Relation.TransGen.tail'_iff.mp hcycle
  rcases h.mem_of_cycle hc hidle hto (.single hedge) with hmem | hgap
  · obtain ⟨i, hi, rfl⟩ := hedge
    cases h.escapes m hmem i hi with
    | inside hin => exact absurd hin h.outside
    | before hb => exact .inr ⟨_, hb, hcycle, hcycle⟩
    | absent _ _ hnot => exact absurd hcompiles hnot
    | untaken o ho hu himporter hmodule =>
        refine .inl ⟨o, ho, hu, ⟨i, himporter ▸ hi, hmodule.symm⟩, himporter ▸ hto, ?_⟩
        exact hmodule ▸ .refl
  · exact hgap

end Session

namespace Agenda

variable {p : Plan} {env : Environment} {s t : Session Walk} {task : Task}
  {left rest above below : List Task} {id n : ModuleId}

theorem Coherent.edge_declare {trail : Trail} {d : Dependency}
    (h : Coherent p env ⟨s, .declare n trail d :: rest⟩) :
    (s.declare env n d).registry.Edge n (s.importedEdge env n d).target := by
  have hn := h.mem_inProgress.mp (List.mem_cons_of_mem _ h.nested.1)
  exact ⟨_, Session.importedEdge_mem (h.session.sources n (.inl hn)).1, rfl⟩

def Pending (s : Session Walk) (above : List Task) (id n : ModuleId) : Prop :=
  n = id ∨ .finish n ∈ above ∨
    n ∈ s.client.loaded ∧ ¬ LoadedBefore s.client.outcomes n id

def Awaited (p : Plan) (env : Environment) (a : Agenda) : Prop :=
  ∀ above id below, a.tasks = above ++ .finish id :: below →
    Covered p env (Pending a.session above id) ⟨a.session, above⟩

def CompiledSettled (p : Plan) (env : Environment) (s : Session Walk) : Prop :=
  ∀ n ∈ s.client.compiled, ∀ i ∈ (s.registry.module n).imports, s.Settles p env n i

theorem Covered.settles {members : ModuleId → Prop} {i : Import}
    (h : Covered p env members ⟨s, []⟩) (hn : members n)
    (hi : i ∈ (s.registry.module n).imports) : s.Settles p env n i := by
  rcases h n hn i hi with hsettles | ⟨v, hv, -⟩ | hfinish
  · exact hsettles
  · cases hv
  · cases hfinish

theorem Coherent.compiledSettled_of_step (h : Coherent p env ⟨s, task :: rest⟩)
    (hs : task.Step p env s t left) (hawaited : Awaited p env ⟨s, task :: rest⟩)
    (hc : CompiledSettled p env s) : CompiledSettled p env t := by
  have hst := h.extends hs
  have hold (n : ModuleId) (hn : n ∈ s.client.compiled) :
      ∀ i ∈ (t.registry.module n).imports, t.Settles p env n i := by
    intro i hi
    rw [h.module_of_done hs (Walk.isDone_eq_true.mpr (.inr hn))] at hi
    exact (hc n hn i hi).extends hst
  intro n hn
  cases hs with
  | @finished id =>
      rcases List.mem_cons.mp hn with rfl | hn
      · intro i hi
        rw [Session.imports_finish env] at hi
        exact ((hawaited [] n rest rfl).settles (.inl rfl) hi).extends hst
      · exact hold n hn
  | entered | opened =>
      rw [Session.compiled_enter] at hn
      exact hold n hn
  | _ => exact hold n hn

theorem Coherent.sealed_of_step {members : ModuleId → Prop}
    (h : Coherent p env ⟨s, task :: rest⟩) (hs : task.Step p env s t left)
    (hid : s.client.isDone id = true) (hsealed : s.Sealed p env id members) :
    t.Sealed p env id members := by
  have hst := h.extends hs
  refine ⟨hsealed.outside, fun n hn => ?_, fun n hn i hi => ?_⟩
  · rw [Walk.isDone_eq_true]
    exact (Walk.isDone_eq_true.mp (hsealed.isDone n hn)).imp (hst.loaded ·) (hst.compiled ·)
  · have hdone : s.client.isDone n = true := by
      rcases hn with rfl | hn
      · exact hid
      · exact hsealed.isDone n hn
    rw [h.module_of_done hs hdone] at hi
    exact (hsealed.escapes n hn i hi).extends hst

theorem Coherent.sealed_of_finish (h : Coherent p env ⟨s, .finish id :: rest⟩)
    (hawaited : Awaited p env ⟨s, .finish id :: rest⟩) (hc : CompiledSettled p env s) :
    (s.finish id).Sealed p env id fun n => n ∈ s.client.compiled ∨
      n ∈ s.client.loaded ∧ ¬ LoadedBefore s.client.outcomes n id := by
  have hst : s.Extends (s.finish id) := h.extends .finished
  have hprogress : id ∈ s.engine.inProgress := h.mem_inProgress.mp List.mem_cons_self
  have hcompiles := (h.session.sources id (.inl hprogress)).2
  refine ⟨?outside, fun n hn => ?isDone, fun n hn i hi => ?escapes⟩
  case outside =>
    rintro (hk | ⟨hl, -⟩)
    · exact h.session.apart id hprogress hk
    · exact (h.session.binaries id hl).2.not_compiles hcompiles
  case isDone =>
    rw [Walk.isDone_eq_true]
    rcases hn with hk | ⟨hl, -⟩
    · exact .inr (List.mem_cons_of_mem _ hk)
    · exact .inl hl
  case escapes =>
    -- all that the module waited for is settled by now, as nothing stands above its end
    rw [Session.imports_finish env] at hi
    have hsettles : s.Settles p env n i := by
      have hcovered := hawaited [] id rest rfl
      rcases hn with rfl | hk | hl
      · exact hcovered.settles (.inl rfl) hi
      · exact hc n hk i hi
      · exact hcovered.settles (.inr (.inr hl)) hi
    refine (hsettles.escapes (fun hl => ?_) .inl).extends hst
    by_cases hbefore : LoadedBefore s.client.outcomes i.target id
    · exact .inr hbefore
    · exact .inl (.inr ⟨hl, hbefore⟩)

theorem Coherent.compiledSealed_of_step (h : Coherent p env ⟨s, task :: rest⟩)
    (hs : task.Step p env s t left) (hawaited : Awaited p env ⟨s, task :: rest⟩)
    (hsettled : CompiledSettled p env s) (hc : s.CompiledSealed p env) :
    t.CompiledSealed p env := by
  have hold (id : ModuleId) (hid : id ∈ s.client.compiled) :
      ∃ members, t.Sealed p env id members := by
    obtain ⟨members, hsealed⟩ := hc id hid
    exact ⟨members, h.sealed_of_step hs (Walk.isDone_eq_true.mpr (.inr hid)) hsealed⟩
  intro id hid
  cases hs with
  | finished =>
      rcases List.mem_cons.mp hid with rfl | hid
      · exact ⟨_, h.sealed_of_finish hawaited hsettled⟩
      · exact hold id hid
  | entered | opened =>
      rw [Session.compiled_enter] at hid
      exact hold id hid
  | _ => exact hold id hid

theorem Coherent.imports_of_finish_mem_left (h : Coherent p env ⟨s, task :: rest⟩)
    (hs : task.Step p env s t left) (hn : .finish n ∈ left) :
    (s.registry.module n).imports = [] := by
  cases hs with
  | loaded =>
      obtain ⟨i, -, hi⟩ := Task.mem_ofLoaded hn
      cases hi
  | entered hdone _ _ _ hidle =>
      rcases Task.mem_ofSource hn with ⟨d, -, hd⟩ | hid
      · cases hd
      · cases hid
        exact h.session.bare_of_not_entered (Session.not_entered hdone hidle)
  | declared => cases List.mem_singleton.mp hn
  | @opened src declared e id hensure havailable _ _ hidle =>
      rcases Task.mem_ofSource hn with ⟨d, -, hd⟩ | hid
      · cases hd
      · cases hid
        have hq := Session.quiet_ensure (s := s) hensure
        have hc := h.session.quiet hq
        rw [← hq.imports n]
        exact hc.bare_of_not_entered
          (Session.not_entered (hc.isDone_of_unavailable havailable) hidle)
  | _ => cases hn

theorem Coherent.awaited_of_step (h : Coherent p env ⟨s, task :: rest⟩)
    (hpath : OnPath env ⟨s, task :: rest⟩) (hs : task.Step p env s t left)
    (hawaited : Awaited p env ⟨s, task :: rest⟩)
    (hnew : ∀ above id below, left = above ++ .finish id :: below →
      Covered p env (Pending t above id) ⟨t, above⟩) :
    Awaited p env ⟨t, left ++ rest⟩ := by
  have hst := h.extends hs
  -- for a module that was in progress, whatever became pending in this step has no edges yet
  have hold (above : List Task) (id : ModuleId) (below : List Task)
      (hrest : rest = above ++ .finish id :: below) :
      Covered p env (Pending t (left ++ above) id) ⟨t, left ++ above⟩ := by
    have hcovered := hawaited (task :: above) id below (congrArg (task :: ·) hrest)
    refine h.covered_step hpath hs hcovered fun n hn => ?_
    rcases hn with rfl | hfinish | ⟨hl, hbefore⟩
    · exact .inl (.inl rfl)
    · rcases List.mem_append.mp hfinish with hfinish | hfinish
      · exact .inr (h.imports_of_finish_mem_left hs hfinish)
      · exact .inl (.inr (.inl (List.mem_cons_of_mem _ hfinish)))
    · have hbefore : ¬ LoadedBefore s.client.outcomes n id :=
        fun hb => hbefore (hb.mono hst.outcomes)
      rcases h.loaded_cases hs with hsame | ⟨v, rfl, hloaded, hdone, hloads, -, -⟩
      · exact .inl (.inr (.inr ⟨hsame ▸ hl, hbefore⟩))
      · rw [hloaded] at hl
        rcases List.mem_cons.mp hl with rfl | hl
        · exact .inr (h.session.bare_of_not_entered
            (Session.not_entered hdone (h.session.idle_of_not_source hloads.1).1))
        · exact .inl (.inr (.inr ⟨hl, hbefore⟩))
  intro above id below htasks
  rcases List.append_eq_append_iff.mp htasks with ⟨as, rfl, hrest⟩ | ⟨bs, hleft, hbelow⟩
  · exact hold as id below hrest
  · cases bs with
    | nil =>
        rw [List.append_nil] at hleft
        rw [← hleft]
        have hcovered := hold [] id below hbelow.symm
        rw [List.append_nil] at hcovered
        exact hcovered
    | cons b bs =>
        obtain ⟨rfl, -⟩ := List.cons.inj hbelow
        exact hnew above id bs hleft

end Agenda

namespace Plan

variable {p : Plan} {config : Config} {overrides : Option Overrides} {a : Agenda}
  {s t : Session Walk} {task : Task} {left rest : List Task}

theorem ofSource_split {id n : ModuleId} {trail : Trail} {src : SourceModule}
    {above below : List Task} (h : Task.ofSource id trail src = above ++ .finish n :: below) :
    n = id ∧ ∀ m, .finish m ∉ above := by
  have hfinishes := congrArg (List.filterMap Task.finishes?) h
  rw [Task.finishes?_ofSource, List.filterMap_append] at hfinishes
  change [id] = above.filterMap Task.finishes? ++ n :: below.filterMap Task.finishes? at hfinishes
  cases habove : above.filterMap Task.finishes? with
  | nil =>
      rw [habove] at hfinishes
      refine ⟨(List.cons.inj hfinishes).1.symm, fun m hm => ?_⟩
      exact absurd (List.filterMap_eq_nil_iff.mp habove _ hm) (by simp [Task.finishes?])
  | cons m ms =>
      rw [habove] at hfinishes
      simp at hfinishes

theorem Reaches.loadedBefore {v : Visit} {n : ModuleId}
    (h : p.Reaches config overrides ⟨s, .visit v :: rest⟩)
    (hdone : s.client.isDone v.edge.target = false) (hidle : v.edge.target ∉ s.engine.inProgress)
    (hn : n ∈ s.client.loaded) :
    LoadedBefore (s.enter v.trail v.edge.target).client.outcomes n v.edge.target := by
  have hroot : v.edge.target ≠ v.trail.root := by
    intro hroot
    rcases h.rooted with ha | hrooted
    · obtain rfl : s = (p.agenda config).session := congrArg Agenda.session ha
      cases hn
    · rcases hrooted (.visit v) List.mem_cons_self v.trail rfl with hin | hin
      · exact Bool.false_ne_true (hdone.symm.trans (hroot ▸ hin))
      · exact hidle (hroot ▸ hin)
  rw [Session.enter, if_neg hroot]
  exact ⟨s.client.outcomes, _, rfl, h.logged n hn, _, List.mem_singleton_self _, rfl, rfl⟩

theorem Reaches.settles_of_root {src : SourceModule} {n : ModuleId} {i : Import}
    (h : p.Reaches config overrides ⟨s, .root src :: rest⟩)
    (hi : i ∈ (s.registry.module n).imports) :
    s.Settles p (p.environment config overrides) n i := by
  have hroots (next : Task) (hnext : next ∈ .root src :: rest) : next.isRoot = true := by
    rcases List.mem_cons.mp hnext with rfl | hrest
    · rfl
    · exact (List.pairwise_cons.mp h.rootsLast).1 next hrest rfl
  rcases h.covered n trivial i hi with hsettles | ⟨v, hv, -⟩ | hfinish
  · exact hsettles
  · cases hroots _ hv
  · cases hroots _ hfinish

theorem Reaches.covered_new (h : p.Reaches config overrides ⟨s, task :: rest⟩)
    (hs : task.Step p (p.environment config overrides) s t left)
    (above : List Task) (id : ModuleId) (below : List Task)
    (hleft : left = above ++ .finish id :: below) :
    Agenda.Covered p (p.environment config overrides) (Agenda.Pending t above id) ⟨t, above⟩ := by
  have hc := h.coherent
  have hst := hc.extends hs
  have hfinish : .finish id ∈ left := by simp [hleft]
  have hbare := hc.imports_of_finish_mem_left hs hfinish
  intro n hn i hi
  cases hs with
  | entered hdone _ _ _ hidle =>
      obtain ⟨rfl, hnone⟩ := ofSource_split hleft
      -- all that is loaded by now was loaded before the module is entered
      rcases hn with rfl | hn | ⟨hl, hbefore⟩
      · cases hbare ▸ hi
      · exact absurd hn (hnone n)
      · rw [Session.loaded_enter] at hl
        exact absurd (h.loadedBefore hdone hidle hl) hbefore
  | opened hensure =>
      obtain ⟨rfl, hnone⟩ := ofSource_split hleft
      have hsame := (Session.quiet_ensure (s := s) hensure).imports n
      have hold : i ∈ (s.registry.module n).imports := hsame ▸ hi
      -- a root is not logged, but all edges are settled when it is opened
      rcases hn with rfl | hn | ⟨hl, -⟩
      · cases hbare ▸ hold
      · exact absurd hn (hnone n)
      · exact .inl ((h.settles_of_root hold).extends hst)
  | loaded =>
      obtain ⟨i, -, hi⟩ := Task.mem_ofLoaded hfinish
      cases hi
  | declared => cases List.mem_singleton.mp hfinish
  | _ => cases hfinish

theorem Reaches.awaited (h : p.Reaches config overrides a) :
    a.Awaited p (p.environment config overrides) := by
  induction h using Reaches.induction with
  | start =>
      intro above id below htasks
      have hmem : .finish id ∈ (p.agenda config).tasks := by simp [htasks]
      rcases List.mem_append.mp hmem with hmem | hmem
      · split at hmem
        · cases List.mem_singleton.mp hmem
        · cases hmem
      · obtain ⟨src, -, hsrc⟩ := List.mem_map.mp hmem
        cases hsrc
  | step hreach hs ih =>
      exact hreach.coherent.awaited_of_step hreach.onPath hs ih (hreach.covered_new hs)

theorem Reaches.compiledSettled (h : p.Reaches config overrides a) :
    Agenda.CompiledSettled p (p.environment config overrides) a.session := by
  induction h using Reaches.induction with
  | start => exact fun n hn => absurd hn List.not_mem_nil
  | step hreach hs ih => exact hreach.coherent.compiledSettled_of_step hs hreach.awaited ih

theorem Reaches.compiledSealed (h : p.Reaches config overrides a) :
    a.session.CompiledSealed p (p.environment config overrides) := by
  induction h using Reaches.induction with
  | start => exact fun n hn => absurd hn List.not_mem_nil
  | step hreach hs ih =>
      exact hreach.coherent.compiledSealed_of_step hs hreach.awaited hreach.compiledSettled ih

variable {report : SessionReport} {id : ModuleId}

/--
The cycles through source modules that a run gets by with, in the graph without the implicit
imports: those with an edge that was not taken, and those with a binary module that was loaded
before the source module was entered. Any other cycle makes the run fail.
-/
theorem cycle_iff_gap (hrun : p.run config overrides = .ok report)
    (hsource : p.HasSource
      ((p.session config overrides).2.registry.module id).coordinates) :
    Relation.TransGen (p.session config overrides).2.registry.Edge id id ↔
      Gap (p.session config overrides).2.registry report.outcomes id := by
  obtain ⟨t, ht, rfl⟩ := session_of_run hrun
  rw [ht] at hsource ⊢
  have hreach := reaches_of_session ht
  have hc := hreach.coherent
  have hidle : t.engine.inProgress = [] := List.reverse_eq_nil_iff.mp hc.stack.symm
  refine ⟨fun hcycle => ?_, Gap.cycle⟩
  obtain ⟨src, hsrc, hcoordinates⟩ := hsource
  have hname := isSource_environment config overrides hsrc
  rw [hcoordinates] at hname
  have hcompiled : id ∈ t.client.compiled := by
    obtain ⟨m, ⟨i, hi, -⟩, -⟩ := Relation.TransGen.head'_iff.mp hcycle
    refine Decidable.byContradiction fun hnot => ?_
    rw [hc.session.bare id (hidle ▸ List.not_mem_nil) hnot fun hl => ?_] at hi
    · cases hi
    · exact Bool.false_ne_true ((hc.session.binaries id hl).2.1.symm.trans hname)
  obtain ⟨members, hsealed⟩ := hreach.compiledSealed id hcompiled
  exact hsealed.gap hc.session hidle (hc.session.sources id (.inr hcompiled)).2 hcycle

def lateSource : Plan where
  sources := [
    ⟨⟨"a", "1"⟩, [⟨"b", "1", false, false⟩]⟩,
    ⟨⟨"s", "1"⟩, [⟨"b", "1", false, false⟩]⟩]
  artifacts := [⟨⟨"b", "1"⟩, some ⟨3, 2⟩, [⟨⟨"s", "1"⟩, .exported⟩]⟩]

theorem cycle_iff_gap_lateSource :
    ∃ report, lateSource.run .default none = .ok report ∧
      lateSource.HasSource
        ((lateSource.session .default none).2.registry.module 4).coordinates ∧
      (Relation.TransGen (lateSource.session .default none).2.registry.Edge 4 4 ↔
        Gap (lateSource.session .default none).2.registry report.outcomes 4) := by
  have hsource : lateSource.HasSource
      ((lateSource.session .default none).2.registry.module 4).coordinates :=
    hasSource_iff.mpr (by decide +kernel)
  cases hrun : lateSource.run .default none with
  | error e =>
      have hok : (lateSource.run .default none).toOption.isSome = true := by decide +kernel
      rw [hrun] at hok
      cases hok
  | ok report => exact ⟨report, rfl, hsource, cycle_iff_gap hrun hsource⟩

theorem silent_cycle_lateSource :
    (lateSource.run .default none).toOption.isSome = true ∧
      lateSource.HasSource
        ((lateSource.session .default none).2.registry.module 4).coordinates ∧
      Relation.TransGen (lateSource.session .default none).2.registry.Edge 4 4 := by
  refine ⟨by decide +kernel, hasSource_iff.mpr (by decide +kernel), ?_⟩
  have hto : (lateSource.session .default none).2.registry.Edge 4 3 := by decide +kernel
  have hback : (lateSource.session .default none).2.registry.Edge 3 4 := by decide +kernel
  exact .tail (.single hto) hback

end Plan

end ModuleResolution
