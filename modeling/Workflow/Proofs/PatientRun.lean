import Workflow.Application.Waiting
import Workflow.Proofs.CompletionReport

/-!
# Runs that need not wait

A host that runs its workflow until it is idle looks at the executor after each run. Where no operation
is outstanding it does what one run does, and answers what that run answers, unless the run has ended
with an unload: then nothing is left to look at, and the answer is that the workflow is not in memory.
-/

namespace Workflow

theorem Outcome.eq_idle {o : Outcome} (h : ¬ o.isCompleted = true) : o = .idle := by
  cases o with
  | idle => rfl
  | completed _ _ | faulted _ | canceled => exact absurd rfl h

namespace Host

variable {h h' m : Host} {react : React} {e e' : Executor} {o : Outcome} {report : IdleReport}

/-! ### What stays in memory -/

/-- The same workflow is in memory as before, with the same core. -/
structure Retains (h h' : Host) : Prop where
  id : h'.application.id = h.application.id
  core : ∀ e, h.application.executor = some e →
    ∃ e', h'.application.executor = some e' ∧ Executor.SameCore e e'

namespace Retains

theorem refl (h : Host) : Retains h h :=
  ⟨rfl, fun e he => ⟨e, he, .refl e⟩⟩

theorem trans (first : Retains h m) (second : Retains m h') : Retains h h' := by
  refine ⟨second.id.trans first.id, fun e he => ?_⟩
  obtain ⟨i, hi, same⟩ := first.core e he
  obtain ⟨e', he', same'⟩ := second.core i hi
  exact ⟨e', he', same.trans same'⟩

theorem of_application (hid : h'.application.id = h.application.id)
    (he : h'.application.executor = h.application.executor) : Retains h h' :=
  ⟨hid, fun e hs => ⟨e, he.trans hs, .refl e⟩⟩

theorem of_sameSetting (hs : SameSetting h h') : Retains h h' :=
  .of_application (congrArg _ hs.application) (congrArg _ hs.application)

/-- A save keeps what it saves. -/
theorem save (h : Host) (unlock : Bool) : Retains h (h.save unlock).2 := by
  cases ho : h.application.owner with
  | none =>
    rw [Host.save, ho]
    exact .refl h
  | some owner =>
    cases he : h.application.executor with
    | none =>
      rw [Host.save, ho]
      dsimp only
      rw [useExecutor_none _ he]
      exact .refl h
    | some e =>
      rw [save_eq ho he]
      have used : Executor.SameCore e (h.ready e) := {}
      have saved := Executor.sameCore_save (e := h.ready e) h.store h.surroundings owner unlock
      have taken : ∀ m : Executor, Executor.SameCore m (kept m) := fun _ => {}
      refine ⟨rfl, fun i hi => ⟨_, executor_keep h _, ?_⟩⟩
      rw [← Option.some.inj (he.symm.trans hi)]
      exact (used.trans saved).trans (taken _)

/-- Where a workflow was in memory it still is. -/
theorem isLoaded (hr : Retains h h') (hl : h.application.isLoaded = true) :
    h'.application.isLoaded = true := by
  obtain ⟨e, he⟩ := Option.isSome_iff_exists.mp hl
  obtain ⟨e', he', -⟩ := hr.core e he
  exact Option.isSome_iff_exists.mpr ⟨e', he'⟩

end Retains

/-! ### What becomes of an idle workflow -/

/-- An idle workflow leaves memory: it can be saved, an unload is wanted, and the save is accepted. -/
structure Leaves (react : React) (h : Host) (report : IdleReport) : Prop where
  owned : h.application.owner.isSome = true
  free : report.outstanding = 0
  wanted : (choose react (h.tell react (.idle report)).2 report).1 = .unload
  saved : ((choose react (h.tell react (.idle report)).2 report).2.save true).1 = .ok ()

section Mute

variable (hm : Mute react)
include hm

theorem Retains.tell (h : Host) (n : Notice) : Retains h (h.tell react n).2 :=
  .of_sameSetting (hm.tell h n)

/-- The report of a completion leaves the workflow in memory. -/
theorem Retains.reportCompletion (h : Host) (o : Outcome) :
    Retains h (h.reportCompletion react o).2 := by
  have saved : Retains h (if h.application.owner.isSome then h.persist else (.ok (), h)).2 := by
    split
    · exact .save h false
    · exact .refl h
  unfold Host.reportCompletion
  split
  · exact .refl h
  · dsimp only
    generalize (if h.application.owner.isSome then h.persist else (.ok (), h)) = answered at saved ⊢
    obtain ⟨result, m⟩ := answered
    cases result with
    | error _ => exact saved
    | ok _ =>
      have reported : Retains h (m.withApplication fun a => { a with completionReported := true }) :=
        saved.trans (.of_application rfl rfl)
      dsimp only
      split
      · exact (reported.trans (.tell hm _ _)).trans (.tell hm _ _)
      · exact reported.trans (.tell hm _ _)

/-- An unload takes the workflow out of memory if the save is accepted, and keeps it there if not. -/
theorem unload_cases (h : Host) :
    ((h.save true).1 = .ok () ∧ (h.unload react).1 = .ok () ∧
        (h.unload react).2.application.id = h.application.id ∧
        (h.unload react).2.application.executor = none) ∨
      ((h.save true).1 ≠ .ok () ∧ Retains h (h.unload react).2) := by
  have saved := Retains.save h true
  unfold Host.unload
  generalize h.save true = answered at saved ⊢
  obtain ⟨result, m⟩ := answered
  cases result with
  | error error =>
    have refused : (Except.error error : Except HostError Unit) ≠ .ok () := nofun
    exact .inr ⟨refused, saved⟩
  | ok _ =>
    have told := (hm.tell (m.withApplication (·.dropExecutor)) (.unloaded m.application.id)).application
    exact .inl ⟨rfl, rfl, (congrArg (·.id) told).trans saved.id, congrArg (·.executor) told⟩

/-- What is done with an idle workflow keeps it in memory, or takes it out without an error. -/
theorem handleIdle_cases (h : Host) (report : IdleReport) (requested : Bool) :
    (Leaves react h report ∧ (h.handleIdle react report requested).1 = .ok () ∧
        (h.handleIdle react report requested).2.application.id = h.application.id ∧
        (h.handleIdle react report requested).2.application.executor = none) ∨
      (¬ Leaves react h report ∧ Retains h (h.handleIdle react report requested).2) := by
  have told := hm.tell h (.idle report)
  have chosen := hm.choose (h.tell react (.idle report)).2 report
  have kept : Retains h (choose react (h.tell react (.idle report)).2 report).2 :=
    (Retains.of_sameSetting told).trans (.of_sameSetting chosen)
  rw [handleIdle_eq, told.application]
  split
  · next skipped =>
    refine .inr ⟨fun leaves => ?_, .of_sameSetting told⟩
    have owned := leaves.owned
    have free := leaves.free
    rcases skipped with unowned | busy
    · simp_all
    · omega
  · next acts =>
    obtain ⟨owned, free⟩ := not_or.mp acts
    cases hw : (choose react (h.tell react (.idle report)).2 report).1 with
    | unload =>
      refine (unload_cases hm (choose react (h.tell react (.idle report)).2 report).2).imp ?_ ?_
      · rintro ⟨saved, answer, named, gone⟩
        have some_owner : h.application.owner.isSome = true := by
          simpa [Option.isSome_iff_ne_none] using owned
        exact ⟨⟨some_owner, by omega, hw, saved⟩, answer, named.trans kept.id, gone⟩
      · rintro ⟨refused, stays⟩
        exact ⟨fun leaves => refused leaves.saved, kept.trans stays⟩
    | persist =>
      refine .inr ⟨fun leaves => IdleAction.noConfusion (leaves.wanted.symm.trans hw), ?_⟩
      exact kept.trans (.save _ false)
    | keep =>
      refine .inr ⟨fun leaves => IdleAction.noConfusion (leaves.wanted.symm.trans hw), ?_⟩
      rw [act]
      split
      · exact kept.trans (.save _ false)
      · exact kept

end Mute

/-! ### One run, and a run that would wait -/

/-- The run ends idle and the workflow leaves memory in it. -/
def RunsOff (react : React) (h : Host) : Prop :=
  ∃ e e', h.application.executor = some e ∧ (h.ready e).run h.stepLimit = (.ok .idle, e') ∧
    Leaves react (h.keep e'.takePersistRequest.2) (h.idleReport e'.takePersistRequest.2)

/-- A run that gives an outcome has run the executor to its end and dealt with the outcome. -/
theorem of_run_ok (hr : (h.run react).1 = .ok o) : ∃ e e',
    h.application.executor = some e ∧ (h.ready e).run h.stepLimit = (.ok o, e') ∧
      (h.run react).2 = (if o.isCompleted then (h.keep e'.takePersistRequest.2).reportCompletion react o
        else (h.keep e'.takePersistRequest.2).handleIdle react
          (h.idleReport e'.takePersistRequest.2) e'.persistRequested).2 := by
  cases he : h.application.executor with
  | none =>
    rw [Host.run, useExecutor_none _ he] at hr
    cases hr
  | some e =>
    generalize hx : (h.ready e).run h.stepLimit = ran
    obtain ⟨result, e'⟩ := ran
    cases result with
    | error error =>
      rw [run_of_error react he hx] at hr
      cases hr
    | ok p =>
      have done := run_of_ok react he hx rfl
      have same : p = o := by
        rw [done] at hr
        generalize (if p.isCompleted then (h.keep e'.takePersistRequest.2).reportCompletion react p
          else (h.keep e'.takePersistRequest.2).handleIdle react
            (h.idleReport e'.takePersistRequest.2) e'.persistRequested) = answered at hr
        obtain ⟨answer, m⟩ := answered
        cases answer <;> cases hr
        rfl
      subst same
      exact ⟨e, e', rfl, hx, congrArg Prod.snd done⟩

/-- A workflow that leaves memory in a run leaves it idle. -/
theorem RunsOff.leaves (hm : Mute react) (off : RunsOff react h) :
    (h.run react).1 = .ok .idle ∧ (h.run react).2.application.executor = none ∧
      (h.run react).2.application.id = h.application.id := by
  obtain ⟨e, e', he, hr, leaves⟩ := off
  have ran := run_of_ok react he hr rfl
  rw [if_neg (show ¬ Outcome.idle.isCompleted = true from Bool.false_ne_true)] at ran
  rcases handleIdle_cases hm (h.keep e'.takePersistRequest.2)
    (h.idleReport e'.takePersistRequest.2) e'.persistRequested with
    ⟨-, answer, named, gone⟩ | ⟨stays, -⟩
  · rw [ran, answer]
    exact ⟨rfl, gone, named⟩
  · exact absurd leaves stays

/-- After any other run that gives an outcome the executor is there as the run has left it. -/
theorem Mute.executor_run (hm : Mute react) (stays : ¬ RunsOff react h)
    (hr : (h.run react).1 = .ok o) : ∃ e e' i,
    h.application.executor = some e ∧ (h.ready e).run h.stepLimit = (.ok o, e') ∧
      (h.run react).2.application.executor = some i ∧ Executor.SameCore e' i := by
  obtain ⟨e, e', he, hx, after⟩ := of_run_ok hr
  have retained : Retains (h.keep e'.takePersistRequest.2) (h.run react).2 := by
    rw [after]
    split
    · exact .reportCompletion hm _ o
    · next hc =>
      rcases handleIdle_cases hm (h.keep e'.takePersistRequest.2)
        (h.idleReport e'.takePersistRequest.2) e'.persistRequested with ⟨leaves, -⟩ | ⟨-, kept⟩
      · exact absurd ⟨e, e', he, Outcome.eq_idle hc ▸ hx, leaves⟩ stays
      · exact kept
  obtain ⟨i, hi, same⟩ := retained.core _ (executor_keep h _)
  have taken : Executor.SameCore e' (kept e'.takePersistRequest.2) := {}
  exact ⟨e, e', i, he, hx, hi, taken.trans same⟩

/-- A host that runs its workflow until it is idle makes one run of it, and nothing more, if that run
ends the workflow or ends idle with no operation outstanding. It answers what the run answers, except
where the idle workflow has left memory in the run: then it answers that the workflow is not there. -/
theorem runUntilIdle_once (hm : Mute react)
    (hf : ∀ e e', h.application.executor = some e →
      (h.ready e).run h.stepLimit = (.ok .idle, e') → e'.operations.size = 0)
    (turns : Nat) (w : Waiting Outcome) :
    (h.runUntilIdle react (turns + 1) w).2 = (h.run react).2 ∧
      (h.runUntilIdle react (turns + 1) w).1.completions = w.completions ∧
      (h.runUntilIdle react (turns + 1) w).1.arrivals = w.arrivals ∧
      (¬ RunsOff react h →
        (h.runUntilIdle react (turns + 1) w).1.result = some (h.run react).1) ∧
      (RunsOff react h → (h.run react).1 = .ok .idle ∧
        (h.run react).2.application.executor = none ∧
        (h.runUntilIdle react (turns + 1) w).1.result =
          some (.error (.notLoaded h.application.id))) := by
  by_cases off : RunsOff react h
  · obtain ⟨answer, gone, named⟩ := off.leaves hm
    have once : h.runUntilIdle react (turns + 1) w =
        ({ w with result := some (.error (.notLoaded h.application.id)) }, (h.run react).2) := by
      rw [← named, runUntilIdle]
      generalize h.run react = ran at answer gone ⊢
      obtain ⟨result, m⟩ := ran
      cases answer
      simp [Outcome.isCompleted, show m.application.executor = none from gone]
    rw [once]
    exact ⟨rfl, rfl, rfl, fun stays => absurd off stays, fun _ => ⟨answer, gone, rfl⟩⟩
  · have once : h.runUntilIdle react (turns + 1) w =
        ({ w with result := some (h.run react).1 }, (h.run react).2) := by
      have there := fun o => hm.executor_run (o := o) off
      rw [runUntilIdle]
      generalize h.run react = ran at there ⊢
      obtain ⟨result, m⟩ := ran
      cases result with
      | error error => rfl
      | ok o =>
        dsimp only
        split
        · rfl
        · next hc =>
          obtain ⟨e, e', i, he, hx, hi, same⟩ := there o rfl
          have free : i.operations.size = 0 :=
            same.operations ▸ hf e e' he (Outcome.eq_idle hc ▸ hx)
          have loaded : m.application.executor = some i := hi
          simp [loaded, free]
    rw [once]
    exact ⟨rfl, rfl, rfl, fun _ => rfl, fun runsOff => absurd runsOff off⟩

/-- A store with the owner under which hosts save. -/
def owned : Store :=
  .memory (StoreEvent.afterAll {} [.command ⟨⟨0, 0⟩, .ofNat 7⟩ (.createOwner "host")])

/-- A host of a workflow that waits at a bookmark, which has an idle workflow dealt with in some way. -/
def waiting (action : IdleAction) : Host where
  application :=
    { id := ⟨.ofNat 1⟩, definition := (Activity.saver "wait").prepare
      executor := some saving, owner := some keeper, config := { idleAction := action } }
  store := owned
  surroundings := ⟨⟨0, 0⟩, .ofNat 9⟩
  stepLimit := 5

/-- The workflow that waits at a bookmark waits for no operation. -/
theorem waiting_free (action : IdleAction) (e e' : Executor)
    (he : (waiting action).application.executor = some e)
    (hr : ((waiting action).ready e).run (waiting action).stepLimit = (.ok .idle, e')) :
    e'.operations.size = 0 := by
  cases he
  have free : (((waiting .keep).ready saving).run 5).2.operations.size = 0 := by decide +kernel
  have ran : (((waiting .keep).ready saving).run 5).2 = e' := congrArg Prod.snd hr
  exact ran ▸ free

/-- A workflow that is saved and kept stays in memory, and the answer is that of the run. -/
theorem runUntilIdle_once_persist :
    ((waiting .persist).run unmoved).1.toOption.any (!·.isCompleted) = true ∧
      ¬ RunsOff unmoved (waiting .persist) ∧
      ((waiting .persist).runUntilIdle unmoved 1 ⟨[], [], none⟩).2 =
        ((waiting .persist).run unmoved).2 ∧
      ((waiting .persist).runUntilIdle unmoved 1 ⟨[], [], none⟩).1.result =
        some ((waiting .persist).run unmoved).1 := by
  have idle : ((waiting .persist).run unmoved).1.toOption.any (!·.isCompleted) = true := by
    decide +kernel
  have stays : ¬ RunsOff unmoved (waiting .persist) := by
    intro off
    have loaded : ((waiting .persist).run unmoved).2.application.isLoaded = true := by
      decide +kernel
    rw [Application.isLoaded, (off.leaves unmoved_mute).2.1] at loaded
    cases loaded
  obtain ⟨same, -, -, answer, -⟩ :=
    runUntilIdle_once unmoved_mute (waiting_free .persist) 0 ⟨[], [], none⟩
  exact ⟨idle, stays, same, answer stays⟩

/-- A run that ends with an unload answers that the workflow is idle; a host that runs until it is idle
is refused at the same point. -/
theorem not_runUntilIdle_eq_run : ¬ ∀ (h : Host) (react : React), Mute react →
    (∀ e e', h.application.executor = some e →
      (h.ready e).run h.stepLimit = (.ok .idle, e') → e'.operations.size = 0) →
    ∀ (turns : Nat) (w : Waiting Outcome),
      (h.runUntilIdle react (turns + 1) w).1.result = some (h.run react).1 := by
  intro agrees
  have same := agrees (waiting .unload) unmoved unmoved_mute (waiting_free .unload) 0 ⟨[], [], none⟩
  have ran : (((waiting .unload).run unmoved).1.map fun _ => ()) = .ok () := by decide +kernel
  have refused : (((waiting .unload).runUntilIdle unmoved 1 ⟨[], [], none⟩).1.result.map
      (·.map fun _ => ())) = some (.error (.notLoaded ⟨.ofNat 1⟩)) := by
    decide +kernel
  rw [same] at refused
  exact absurd (ran.symm.trans (Option.some.inj refused)) nofun

end Host

end Workflow
