import Workflow.Application.Host
import Workflow.Proofs.Finality
import Workflow.Proofs.Integrity

/-!
# Hosts of idle workflows

A host uses the executor, keeps it, and reacts to what it is told. A workflow whose run ends idle with no
operation outstanding can be captured; if its host saves it, the store is sent one command.
-/

namespace Workflow

namespace Executor

variable {e e' : Executor} {limit : Nat}

/-! ### Runs that end idle -/

/-- A finished workflow does not wait. -/
theorem Finished.outcome_ne_idle (h : e.Finished) : e.outcome ≠ some .idle := by
  intro hi
  obtain ⟨r, hr, -⟩ := h.tree.rooted
  cases h.ended_root hr with
  | closed _ _ ho => cases hi.symm.trans ho
  | canceled _ _ ho => cases hi.symm.trans ho
  | faulted _ _ _ ho => cases hi.symm.trans ho

/-- The outcome of a workflow that was not aborted is not that it waits. -/
theorem Regular.outcome_ne_idle (h : e.Regular) (ha : e.state ≠ .aborted) :
    e.outcome ≠ some .idle := by
  cases h with
  | working h => rw [h.opened]; exact (Option.some_ne_none _).symm
  | resting h => rw [h.consistent.opened]; exact (Option.some_ne_none _).symm
  | finished h => exact h.outcome_ne_idle
  | aborted h => exact absurd h.state ha

/-- A workflow that settles idle waits. -/
theorem Proper.resting_of_settle (h : e.Proper) (hw : e.outcome = none → e.queue.work = [])
    (hs : e.settle = (.idle, e')) : e'.Resting := by
  cases h with
  | inl h =>
    have resting := h.settle (hw h.opened)
    rw [hs] at resting
    exact resting
  | inr h =>
    obtain ⟨o, ho⟩ := Option.ne_none_iff_exists'.mp h.outcome_ne
    rw [settle_of_some ho] at hs
    have idle : o = .idle := (Prod.mk.inj hs).1
    exact absurd (idle ▸ ho) h.outcome_ne_idle

/-- A workflow whose run ends idle waits. -/
theorem Regular.resting_of_run (h : e.Regular) (hr : e.run limit = (.ok .idle, e')) :
    e'.Resting := by
  have ran := e.ran limit
  rw [hr] at ran
  cases ran with
  | ended ha ho => exact absurd ho ((sameCore_announce.regular h).outcome_ne_idle ha)
  | settled ha ho hd hs =>
    obtain ⟨proper, empty⟩ := drainQueue_proper (.inl (h.enter ho ha)) hd
    exact proper.resting_of_settle empty hs

/-- A run that ends, and not with a completion, ends idle. -/
theorem run_eq_idle (h : (e.run limit).1.toOption.any (!·.isCompleted) = true) :
    e.run limit = (.ok .idle, (e.run limit).2) := by
  generalize e.run limit = ran at h ⊢
  obtain ⟨r, e'⟩ := ran
  cases r with
  | error _ => exact absurd h Bool.false_ne_true
  | ok o =>
    cases o with
    | idle => rfl
    | completed _ _ | faulted _ | canceled => exact absurd h Bool.false_ne_true

/-- A workflow that waits without operations can be captured. -/
theorem Resting.captured (h : e.Resting) (ho : e.operations.size = 0) (now : Timestamp) :
    ∃ s, e.capture now = .ok s := by
  have present : e.state ≠ .aborted := by
    rw [h.state]
    exact WorkflowState.noConfusion
  have settled : e.state ≠ .runnable := by
    rw [h.state]
    exact WorkflowState.noConfusion
  exact capture_ok h.consistent.placed.tree (ensureCapturable_ok present settled h.work ho)

/-- The image of a workflow depends on its core only. -/
theorem SameCore.capture (h : SameCore e e') (hw : e'.workflow = e.workflow) (now : Timestamp) :
    e'.capture now = e.capture now := by
  have below : ∀ (n : Nat) (k : InstanceId), e'.listDown n k = e.listDown n k := by
    intro n
    induction n with
    | zero => exact fun _ => rfl
    | succ n ih =>
      intro k
      have same : e'.listDown n = e.listDown n := funext ih
      rw [listDown, listDown, instance?, instance?, h.instances, same]
  rw [Executor.capture, Executor.capture, ensureCapturable, ensureCapturable, below, h.state, h.queue,
    h.operations, h.instances, h.root, h.nextInstance, h.nextOperation, h.bookmarks, h.definition, hw]

/-! ### Saves -/

/-- The command by which an image of a workflow is saved. -/
def saveCommand (e : Executor) (owner : OwnerId) (now : Timestamp) (s : Snapshot) (unlock : Bool) :
    Command :=
  .save owner e.workflow ⟨s.encode, s.summary now⟩ e.state.isCompleted unlock

/-- What the answer to the command makes of a save. -/
def saveResult : Except StoreError CommandOutcome → Except EngineError Unit
  | .error error => .error (.store error)
  | .ok _ => .ok ()

/-- A workflow that can be captured is saved as the store answers the command. -/
theorem save_of_capture {s : Surroundings} {image : Snapshot}
    (hc : e.capture s.now = .ok image) (store : Store) (owner : OwnerId) (unlock : Bool) :
    (e.save store s owner unlock).1 =
        saveResult (store.tryCommand s (e.saveCommand owner s.now image unlock)).1 ∧
      (e.save store s owner unlock).2.2 =
        (store.tryCommand s (e.saveCommand owner s.now image unlock)).2 := by
  rw [Executor.save, hc]
  dsimp only
  rw [saveCommand]
  obtain ⟨answer, store'⟩ := store.tryCommand s _
  cases answer <;> exact ⟨rfl, rfl⟩

end Executor

namespace Host

variable {h h' : Host} {e e' : Executor} {owner : OwnerId} {react : React} {unlock : Bool}

/-! ### Reactions that call nothing -/

/-- Hosts that have the same application and store. -/
structure SameSetting (h h' : Host) : Prop where
  application : h'.application = h.application := by rfl
  store : h'.store = h.store := by rfl
  surroundings : h'.surroundings = h.surroundings := by rfl

theorem SameSetting.refl (h : Host) : SameSetting h h :=
  {}

/-- A reaction that may choose what to do with an idle workflow, and calls nothing. -/
def Mute (react : React) : Prop :=
  ∀ n h, SameSetting h (react n h).2

/-- Telling a host something changes neither the application nor the store. -/
theorem Mute.tell (hm : Mute react) (h : Host) (n : Notice) : SameSetting h (h.tell react n).2 := by
  unfold Host.tell
  split
  · obtain ⟨application, store, surroundings⟩ := hm n (h.log (.notice n))
    exact ⟨application, store, surroundings⟩
  · exact .refl h

/-! ### The executor in use -/

/-- The executor as it is used by the host. -/
def ready (h : Host) (e : Executor) : Executor :=
  { e with scopeCount := h.scopeCount, isHosted := true }

/-- The executor as it is kept after use. -/
def kept (e : Executor) : Executor :=
  e.takeJournal.2.takeHandles.2

theorem useExecutor_none {α : Type} (f : Executor → α × Executor)
    (he : h.application.executor = none) :
    h.useExecutor f = .error (.notLoaded h.application.id) := by
  rw [useExecutor, he]

theorem useExecutor_some {α : Type} (f : Executor → α × Executor)
    (he : h.application.executor = some e) :
    h.useExecutor f = .ok ((f (h.ready e)).1, h.keep (f (h.ready e)).2) := by
  rw [useExecutor, he]
  rfl

/-- A host keeps the executor without its journal and its handles. -/
theorem executor_keep (h : Host) (e : Executor) :
    (h.keep e).application.executor = some (kept e) :=
  rfl

/-- How a host saves its workflow. -/
theorem save_eq (ho : h.application.owner = some owner) (he : h.application.executor = some e) :
    h.save unlock =
      ((((h.ready e).save h.store h.surroundings owner unlock).1).mapError .engine,
        { h.keep ((h.ready e).save h.store h.surroundings owner unlock).2.1 with
          store := ((h.ready e).save h.store h.surroundings owner unlock).2.2 }) := by
  rw [Host.save, ho]
  dsimp only
  rw [useExecutor_some _ he]
  dsimp only
  cases ((h.ready e).save h.store h.surroundings owner unlock).1 <;> rfl

/-- A run that fails is all that happens. -/
theorem run_of_error (react : React) (he : h.application.executor = some e) {error : EngineError}
    (hr : (h.ready e).run h.stepLimit = (.error error, e')) :
    h.run react = (.error (.engine error), h.keep e') := by
  rw [Host.run, useExecutor_some _ he, hr]

/-- The request is taken when the run has ended, before anything is done about its outcome. -/
theorem run_of_ok (react : React) (he : h.application.executor = some e) {o : Outcome}
    (hr : (h.ready e).run h.stepLimit = (.ok o, e')) {done : Except HostError Unit × Host}
    (hd : done = if o.isCompleted then (h.keep e'.takePersistRequest.2).reportCompletion react o
      else (h.keep e'.takePersistRequest.2).handleIdle react
        (h.idleReport e'.takePersistRequest.2) e'.persistRequested) :
    h.run react = (done.1.map fun _ => o, done.2) := by
  rw [Host.run, useExecutor_some _ he, hr]
  dsimp only [Executor.takePersistRequest] at hd ⊢
  rw [← hd]
  obtain ⟨result, h'⟩ := done
  cases result <;> rfl

/-! ### What is done with an idle workflow -/

/-- What the host or the configuration wants to be done with an idle workflow that can be saved. -/
def choose (react : React) (h : Host) (report : IdleReport) : IdleAction × Host :=
  if .persistableIdle ∈ h.application.listening then
    ((h.tell react (.persistableIdle report)).1.getD .keep,
      (h.tell react (.persistableIdle report)).2)
  else (h.application.config.idleAction, h)

/-- Do what is wanted, or save because it was requested. -/
def act (react : React) (h : Host) (wanted : IdleAction) (requested : Bool) :
    Except HostError Unit × Host :=
  match wanted with
  | .unload => h.unload react
  | .persist => h.persist
  | .keep => if requested then h.persist else (.ok (), h)

/-- An idle workflow that can be saved is dealt with as is wanted. -/
theorem handleIdle_eq (react : React) (h : Host) (report : IdleReport) (requested : Bool) :
    h.handleIdle react report requested =
      if (h.tell react (.idle report)).2.application.owner.isNone ∨ 0 < report.outstanding then
        (.ok (), (h.tell react (.idle report)).2)
      else
        act react (choose react (h.tell react (.idle report)).2 report).2
          (choose react (h.tell react (.idle report)).2 report).1 requested := by
  unfold Host.handleIdle
  dsimp only
  split <;> rfl

theorem Mute.choose (hm : Mute react) (h : Host) (report : IdleReport) :
    SameSetting h (choose react h report).2 := by
  unfold Host.choose
  split
  · exact hm.tell h _
  · exact .refl h

/-! ### What a save sends to the store -/

/-- The store is sent the command to save a workflow, and its answer is what comes of it. -/
def Issues (h : Host) (owner : OwnerId) (e : Executor) (result : Except HostError Unit)
    (h' : Host) : Prop :=
  ∃ (image : Snapshot) (unlock : Bool), e.capture h.surroundings.now = .ok image ∧
    h'.store = (h.store.tryCommand h.surroundings
      (e.saveCommand owner h.surroundings.now image unlock)).2 ∧
    result = (Executor.saveResult (h.store.tryCommand h.surroundings
      (e.saveCommand owner h.surroundings.now image unlock)).1).mapError .engine

/-- A save of a workflow that can be captured sends the command. -/
theorem save_issues (ho : h.application.owner = some owner) (he : h.application.executor = some e)
    {image : Snapshot} (hc : e.capture h.surroundings.now = .ok image) (unlock : Bool) :
    h.Issues owner e (h.save unlock).1 (h.save unlock).2 := by
  have used : (h.ready e).capture h.surroundings.now = .ok image := by
    have same : Executor.SameCore e (h.ready e) := {}
    exact (same.capture rfl _).trans hc
  obtain ⟨answer, stored⟩ := Executor.save_of_capture used h.store owner unlock
  rw [save_eq ho he]
  exact ⟨image, unlock, hc, stored, congrArg (Except.mapError HostError.engine) answer⟩

/-- The command is the same for hosts with the same store, and for executors with the same core. -/
theorem Issues.congr {result : Except HostError Unit} {m n : Host} (hs : m.store = h.store)
    (hg : m.surroundings = h.surroundings) (he : Executor.SameCore e e')
    (hw : e'.workflow = e.workflow) (hn : n.store = h'.store)
    (hi : m.Issues owner e' result h') : h.Issues owner e result n := by
  obtain ⟨image, unlock, hc, stored, answer⟩ := hi
  have command : e'.saveCommand owner h.surroundings.now image unlock =
      e.saveCommand owner h.surroundings.now image unlock := by
    rw [Executor.saveCommand, Executor.saveCommand, he.state, hw]
  rw [hg, he.capture hw] at hc
  rw [hg, hs, command] at stored answer
  exact ⟨image, unlock, hc, hn.trans stored, answer⟩

section Unloading

variable (hu : ∀ m w, m.application.executor = none → SameSetting m (m.tell react (.unloaded w)).2)
include hu

/-- An unload sends the command, and then tells the host. -/
theorem unload_issues (ho : h.application.owner = some owner)
    (he : h.application.executor = some e) {image : Snapshot}
    (hc : e.capture h.surroundings.now = .ok image) :
    h.Issues owner e (h.unload react).1 (h.unload react).2 := by
  have saved := save_issues ho he hc true
  unfold Host.unload
  split
  · next hsave =>
    rw [hsave] at saved
    exact saved
  · next m hsave =>
    rw [hsave] at saved
    have told := hu (m.withApplication (·.dropExecutor)) m.application.id rfl
    exact saved.congr rfl rfl (.refl e) rfl told.store

/-- Unless an idle workflow is to be kept and no request was made, the command is sent. -/
theorem act_issues (ho : h.application.owner = some owner)
    (he : h.application.executor = some e) {image : Snapshot}
    (hc : e.capture h.surroundings.now = .ok image) {wanted : IdleAction} {requested : Bool}
    (hw : wanted ≠ .keep ∨ requested = true) :
    h.Issues owner e (act react h wanted requested).1 (act react h wanted requested).2 := by
  cases wanted with
  | unload => exact unload_issues hu ho he hc
  | persist => exact save_issues ho he hc false
  | keep =>
    have requested : requested = true := hw.resolve_left fun hk => hk rfl
    rw [act, if_pos requested]
    exact save_issues ho he hc false

end Unloading

end Host

end Workflow
