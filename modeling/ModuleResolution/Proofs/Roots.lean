import ModuleResolution.Proofs.Settled

namespace ModuleResolution

def EdgeOutcome.Loads (o : EdgeOutcome) : Prop :=
  o.resolution = some .compiled ∨ o.resolution = some .nativeArchive

namespace Session

def Entered (s : Session Walk) (n : ModuleId) : Prop :=
  s.client.isDone n = true ∨ n ∈ s.engine.inProgress

variable {p : Plan} {env : Environment} {s : Session Walk} {n : ModuleId}

theorem entered_of_done (hn : n ∈ s.client.loaded ∨ n ∈ s.client.compiled) : s.Entered n :=
  .inl (Walk.isDone_eq_true.mpr hn)

theorem not_entered (hdone : s.client.isDone n = false) (hidle : n ∉ s.engine.inProgress) :
    ¬ s.Entered n := by
  rintro (hn | hn)
  · exact Bool.false_ne_true (hdone.symm.trans hn)
  · exact hidle hn

theorem Coherent.bare_of_not_entered (h : s.Coherent p env) (hn : ¬ s.Entered n) :
    (s.registry.module n).imports = [] := by
  refine h.bare n (fun hp => hn (.inr hp)) (fun hk => hn ?_) fun hl => hn ?_
  · exact entered_of_done (.inr hk)
  · exact entered_of_done (.inl hl)

end Session

namespace Task

def isRoot : Task → Bool
  | root _ => true
  | _ => false

def trail? : Task → Option Trail
  | visit v => some v.trail
  | declare _ trail _ => some trail
  | finish _ | root _ => none

def RootsLast (tasks : List Task) : Prop :=
  tasks.Pairwise fun a b => a.isRoot = true → b.isRoot = true

variable {p : Plan} {env : Environment} {s t : Session Walk} {task : Task} {left : List Task}

theorem root_extend (trail : Trail) (n : ModuleId) : (trail.extend n).root = trail.root := by
  unfold Trail.extend
  split <;> rfl

theorem isRoot_of_mem_left (hs : task.Step p env s t left) {next : Task} (h : next ∈ left) :
    next.isRoot = false := by
  cases hs with
  | loaded =>
      obtain ⟨i, -, rfl⟩ := mem_ofLoaded h
      rfl
  | entered | opened => rcases mem_ofSource h with ⟨d, -, rfl⟩ | rfl <;> rfl
  | declared => cases List.mem_singleton.mp h; rfl
  | _ => cases h

theorem root_of_mem_left (hs : task.Step p env s t left) {next : Task} {trail : Trail}
    (h : next ∈ left) (htrail : next.trail? = some trail) :
    t.Entered trail.root ∨ ∃ old, task.trail? = some old ∧ trail.root = old.root ∧
      ∀ v, task = visit v → t.Entered v.edge.target := by
  cases hs with
  | @loaded v =>
      obtain ⟨i, -, rfl⟩ := mem_ofLoaded h
      cases htrail
      refine .inr ⟨v.trail, rfl, root_extend _ _, fun w hw => ?_⟩
      cases hw
      exact Session.entered_of_done (.inl List.mem_cons_self)
  | @entered v =>
      have hentered (w : Visit) (hw : visit v = visit w) :
          (s.enter v.trail v.edge.target).Entered w.edge.target := by
        cases hw
        exact .inr (by simp [Session.enter, Engine.enter])
      rcases mem_ofSource h with ⟨d, -, rfl⟩ | rfl
      · cases htrail
        exact .inr ⟨v.trail, rfl, root_extend _ _, hentered⟩
      · cases htrail
  | opened =>
      rcases mem_ofSource h with ⟨d, -, rfl⟩ | rfl
      · cases htrail
        rw [root_extend]
        exact .inl (.inr (by simp [Session.enter, Engine.enter, Trail.start]))
      · cases htrail
  | declared =>
      cases List.mem_singleton.mp h
      cases htrail
      exact .inr ⟨_, rfl, rfl, fun v hv => by cases hv⟩
  | _ => cases h

end Task

namespace Agenda

variable {p : Plan} {env : Environment} {s t : Session Walk} {task : Task}
  {left rest : List Task} {n : ModuleId}

theorem Coherent.begun_of_step (h : Coherent p env ⟨s, task :: rest⟩)
    (hs : task.Step p env s t left) (hn : n ∈ s.engine.inProgress ∨ n ∈ s.client.compiled) :
    n ∈ t.engine.inProgress ∨ n ∈ t.client.compiled := by
  rcases hn with hprogress | hk
  · rcases List.mem_cons.mp (h.mem_inProgress.mpr hprogress) with hfinish | hrest
    · obtain rfl : .finish n = task := hfinish
      cases hs
      exact .inr List.mem_cons_self
    · exact .inl ((h.step hs).mem_inProgress.mp (List.mem_append_right _ hrest))
  · exact .inr ((h.extends hs).compiled hk)

theorem Leads.begun {a b : Agenda} (hab : Leads p env a b) (h : a.Coherent p env)
    (hn : n ∈ a.session.engine.inProgress ∨ n ∈ a.session.client.compiled) :
    n ∈ b.session.engine.inProgress ∨ n ∈ b.session.client.compiled := by
  induction hab using Relation.ReflTransGen.head_induction_on with
  | refl => exact hn
  | head hnext _ ih =>
      cases hnext with
      | step hs => exact ih (h.step hs) (h.begun_of_step hs hn)

theorem Coherent.compiled_of_step (h : Coherent p env ⟨s, task :: rest⟩)
    (hs : task.Step p env s t left) (hn : n ∈ t.client.compiled) :
    n ∈ s.client.compiled ∨ n ∈ s.engine.inProgress := by
  cases hs with
  | @finished id =>
      rcases List.mem_cons.mp hn with rfl | hn
      · exact .inr (h.mem_inProgress.mp List.mem_cons_self)
      · exact .inl hn
  | entered | opened => exact .inl (Session.compiled_enter _ _ _ ▸ hn)
  | done | missing | supplied | skipped | deferred | loaded | declared | present | refused =>
      exact .inl hn

theorem Coherent.entered_of_step (h : Coherent p env ⟨s, task :: rest⟩)
    (hs : task.Step p env s t left) (hn : s.Entered n) : t.Entered n := by
  have hbegun (hn : n ∈ s.engine.inProgress ∨ n ∈ s.client.compiled) : t.Entered n :=
    (h.begun_of_step hs hn).elim .inr fun hk => Session.entered_of_done (.inr hk)
  rcases hn with hdone | hprogress
  · rcases Walk.isDone_eq_true.mp hdone with hl | hk
    · exact Session.entered_of_done (.inl ((h.extends hs).loaded hl))
    · exact hbegun (.inr hk)
  · exact hbegun (.inl hprogress)

def Rooted (a : Agenda) : Prop :=
  ∀ task ∈ a.tasks, ∀ trail, task.trail? = some trail → a.session.Entered trail.root

def Logged (s : Session Walk) : Prop :=
  ∀ n ∈ s.client.loaded, ∃ o ∈ s.client.outcomes, o.module = n ∧ o.Loads

theorem Coherent.logged_of_step (h : Coherent p env ⟨s, task :: rest⟩)
    (hs : task.Step p env s t left) (hl : Logged s) : Logged t := by
  have hst := h.extends hs
  have hold (n : ModuleId) (hn : n ∈ s.client.loaded) :
      ∃ o ∈ t.client.outcomes, o.module = n ∧ o.Loads := by
    obtain ⟨o, ho, hloads⟩ := hl n hn
    exact ⟨o, hst.outcomes.subset ho, hloads⟩
  intro n hn
  cases hs with
  | @loaded v a e l =>
      rcases List.mem_cons.mp hn with rfl | hn
      · refine ⟨_, List.mem_append_right _ (List.mem_singleton_self _), rfl, ?_⟩
        cases l with
        | compiled => exact .inl rfl
        | nativeArchive => exact .inr rfl
      · exact hold n hn
  | entered | opened =>
      rw [Session.loaded_enter] at hn
      exact hold n hn
  | _ => exact hold n hn

end Agenda

namespace Plan

variable {p : Plan} {config : Config} {overrides : Option Overrides} {a : Agenda}

theorem Reaches.logged (h : p.Reaches config overrides a) : Agenda.Logged a.session := by
  induction h using Reaches.induction with
  | start => exact fun n hn => absurd hn List.not_mem_nil
  | step hreach hs ih => exact hreach.coherent.logged_of_step hs ih

theorem Reaches.rootsLast (h : p.Reaches config overrides a) : Task.RootsLast a.tasks := by
  induction h using Reaches.induction with
  | start =>
      refine List.pairwise_append.mpr ⟨?_, ?_, ?_⟩
      · split
        · exact List.pairwise_singleton _ _
        · exact .nil
      · refine List.pairwise_map.mpr ?_
        exact List.pairwise_of_forall fun _ _ _ => rfl
      · intro task htask next hnext _
        obtain ⟨src, -, rfl⟩ := List.mem_map.mp hnext
        rfl
  | step hreach hs ih =>
      refine List.pairwise_append.mpr ⟨?_, (List.pairwise_cons.mp ih).2, ?_⟩
      · refine List.pairwise_of_forall_mem_list fun a ha b _ hroot => ?_
        exact absurd ((Task.isRoot_of_mem_left hs ha).symm.trans hroot) Bool.false_ne_true
      · intro a ha b _ hroot
        exact absurd ((Task.isRoot_of_mem_left hs ha).symm.trans hroot) Bool.false_ne_true

theorem trail?_of_agenda {s : Session Walk} {task : Task} {rest : List Task}
    (ha : p.agenda config = ⟨s, task :: rest⟩) :
    (task = .visit .foundational ∨ task.trail? = none) ∧
      ∀ next ∈ rest, next.trail? = none := by
  have hroots (next : Task) (h : next ∈ p.sources.map Task.root) : next.trail? = none := by
    obtain ⟨src, -, rfl⟩ := List.mem_map.mp h
    rfl
  have htasks : (if (p.artifact? config.foundational).isSome then [.visit .foundational] else []) ++
      p.sources.map .root = task :: rest := congrArg Agenda.tasks ha
  split at htasks
  · obtain ⟨rfl, rfl⟩ := List.cons.inj htasks
    exact ⟨.inl rfl, hroots⟩
  · rw [List.nil_append] at htasks
    rw [htasks] at hroots
    exact ⟨.inr (hroots task List.mem_cons_self),
      fun next hnext => hroots next (List.mem_cons_of_mem _ hnext)⟩

theorem Reaches.rooted (h : p.Reaches config overrides a) :
    a = p.agenda config ∨ a.Rooted := by
  induction h using Reaches.induction with
  | start => exact .inl rfl
  | @step s t task left rest hreach hs ih =>
      have hc := hreach.coherent
      refine .inr fun next hnext trail htrail => ?_
      rcases List.mem_append.mp hnext with hleft | hrest
      · rcases Task.root_of_mem_left hs hleft htrail with hentered | ⟨old, hold, hroot, hvisit⟩
        · exact hentered
        · rw [hroot]
          rcases ih with ha | hrooted
          · rcases (trail?_of_agenda ha.symm).1 with rfl | hnone
            · cases hold
              exact hvisit _ rfl
            · cases hnone.symm.trans hold
          · exact hc.entered_of_step hs (hrooted task List.mem_cons_self old hold)
      · rcases ih with ha | hrooted
        · cases ((trail?_of_agenda ha.symm).2 next hrest).symm.trans htrail
        · exact hc.entered_of_step hs (hrooted next (List.mem_cons_of_mem _ hrest) trail htrail)

end Plan

end ModuleResolution
