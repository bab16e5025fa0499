import Workflow.Proofs.Provided

/-!
# Requests to save

An activity may ask its host to save the workflow. The request counts in the run in which it is made,
if that run ends idle and no operation is outstanding. Whatever becomes of it there, it is gone when
the run is over.
-/

namespace Workflow

namespace Executor

variable {e e' : Executor} {limit : Nat}

theorem persistRequested_announce (e : Executor) :
    e.announce.persistRequested = e.persistRequested := by
  have scheduled : ∀ (m : Executor) (k : InstanceId),
      (m.trackScheduled none k).persistRequested = m.persistRequested := by
    intro m k
    unfold trackScheduled
    split <;> rfl
  unfold announce
  split
  · rfl
  · split
    · exact scheduled _ _
    · rfl

theorem persistRequested_resumeBookmark (e : Executor) (b : Bookmark) (v : Value) (p : Priority) :
    (e.resumeBookmark b v p).2.persistRequested = e.persistRequested := by
  unfold Executor.resumeBookmark
  split
  · rfl
  · split <;> rfl

theorem persistRequested_completeHandle (e : Executor) (g : OperationHandle)
    (result : Except ActivityError Value) :
    (e.completeHandle g result).2.persistRequested = e.persistRequested := by
  unfold Executor.completeHandle
  split <;> rfl

/-- A save makes no request. -/
theorem persistRequested_save (hp : e.persistRequested = false) (store : Store) (s : Surroundings)
    (owner : OwnerId) (unlock : Bool) :
    (e.save store s owner unlock).2.1.persistRequested = false := by
  unfold Executor.save
  split
  · exact hp
  · dsimp only
    split
    · exact hp
    · split <;> rfl

/-- A run that fails leaves a request as it was. -/
theorem persistRequested_of_run_error {err : EngineError} (hr : e.run limit = (.error err, e')) :
    e'.persistRequested = e.persistRequested := by
  have ran := e.ran limit
  rw [hr] at ran
  cases ran with
  | refused _ => rfl
  | unsettled _ _ _ => exact persistRequested_announce e

end Executor

namespace Host

variable {h h' : Host} {e e' : Executor} {owner : OwnerId} {react : React} {unlock : Bool}

/-! ### No request stays -/

/-- Between two calls of the host no request is pending. -/
def Settled (h : Host) : Prop :=
  ∀ e, h.application.executor = some e → e.Regular ∧ e.persistRequested = false

theorem Settled.of_application (hs : h.Settled) (ha : h'.application = h.application) :
    h'.Settled := by
  rw [Settled, ha]
  exact hs

/-- A host that keeps a regular executor without a request is settled. -/
theorem settled_keep (hr : e.Regular) (hp : e.persistRequested = false) : (h.keep e).Settled := by
  intro k hk
  cases (executor_keep h e).symm.trans hk
  have same : Executor.SameCore e (kept e) := {}
  exact ⟨same.regular hr, hp⟩

theorem regular_ready (hr : e.Regular) : (h.ready e).Regular := by
  have same : Executor.SameCore e (h.ready e) := {}
  exact same.regular hr

/-- A use of the executor that makes no request leaves the host settled. -/
theorem Settled.useExecutor {α : Type} {f : Executor → α × Executor} {a : α} (hs : h.Settled)
    (hf : ∀ e : Executor, e.Regular → e.persistRequested = false →
      (f e).2.Regular ∧ (f e).2.persistRequested = false)
    (hu : h.useExecutor f = .ok (a, h')) : h'.Settled := by
  cases he : h.application.executor with
  | none =>
    rw [useExecutor_none f he] at hu
    cases hu
  | some e =>
    rw [useExecutor_some f he] at hu
    obtain ⟨regular, unrequested⟩ := hs e he
    obtain ⟨regular', unrequested'⟩ := hf (h.ready e) (regular_ready regular) unrequested
    cases hu
    exact settled_keep regular' unrequested'

/-- A save makes no request. -/
theorem Settled.save (hs : h.Settled) (unlock : Bool) : (h.save unlock).2.Settled := by
  cases ho : h.application.owner with
  | none =>
    rw [Host.save, ho]
    exact hs
  | some owner =>
    cases he : h.application.executor with
    | none =>
      rw [Host.save, ho]
      dsimp only
      rw [useExecutor_none _ he]
      exact hs
    | some e =>
      obtain ⟨regular, unrequested⟩ := hs e he
      rw [save_eq ho he]
      refine Settled.of_application (settled_keep (h := h) ?_ ?_) rfl
      · exact (Executor.sameCore_save _ _ _ _).regular (regular_ready regular)
      · exact Executor.persistRequested_save (e := h.ready e) unrequested _ _ _ _

section Mute

variable (hm : Mute react)
include hm

theorem Settled.tell (hs : h.Settled) (n : Notice) : (h.tell react n).2.Settled :=
  hs.of_application (hm.tell h n).application

theorem Settled.unload (hs : h.Settled) : (h.unload react).2.Settled := by
  unfold Host.unload
  have saved := hs.save true
  split
  · next hsave =>
    rw [hsave] at saved
    exact saved
  · refine Settled.tell hm (fun e he => ?_) _
    exact absurd he.symm (Option.some_ne_none e)

theorem Settled.reportCompletion (hs : h.Settled) (o : Outcome) :
    (h.reportCompletion react o).2.Settled := by
  have saved : (if h.application.owner.isSome then h.persist else (.ok (), h)).2.Settled := by
    split
    · exact hs.save false
    · exact hs
  unfold Host.reportCompletion
  split
  · exact hs
  · generalize (if h.application.owner.isSome then h.persist else (.ok (), h)) = m at saved
    obtain ⟨result, m⟩ := m
    dsimp only
    split
    · exact saved
    · refine Settled.tell hm ?_ _
      have reported : (m.withApplication fun a =>
        { a with completionReported := true }).Settled := saved
      split
      · exact Settled.tell hm reported _
      · exact reported

theorem Settled.act (hs : h.Settled) (wanted : IdleAction) (requested : Bool) :
    (h.act react wanted requested).2.Settled := by
  cases wanted with
  | unload => exact hs.unload hm
  | persist => exact hs.save false
  | keep =>
    unfold Host.act
    dsimp only
    split
    · exact hs.save false
    · exact hs

theorem Settled.handleIdle (hs : h.Settled) (report : IdleReport) (requested : Bool) :
    (h.handleIdle react report requested).2.Settled := by
  have told := hs.tell hm (.idle report)
  rw [handleIdle_eq]
  split
  · exact told
  · exact Settled.act hm (told.of_application (hm.choose _ report).application) _ _

/-- When a run is over no request is pending. -/
theorem Settled.run (hs : h.Settled) : (h.run react).2.Settled := by
  cases he : h.application.executor with
  | none =>
    rw [Host.run, useExecutor_none _ he]
    exact hs
  | some e =>
    obtain ⟨regular, unrequested⟩ := hs e he
    have regular' : ((h.ready e).run h.stepLimit).2.Regular := (regular_ready regular).run h.stepLimit
    obtain ⟨r, e', hr⟩ : ∃ r e', (h.ready e).run h.stepLimit = (r, e') := ⟨_, _, rfl⟩
    rw [hr] at regular'
    cases r with
    | error error =>
      rw [run_of_error react he hr]
      have still : e'.persistRequested = (h.ready e).persistRequested :=
        Executor.persistRequested_of_run_error hr
      exact settled_keep regular' (still.trans unrequested)
    | ok o =>
      have same : Executor.SameCore e' e'.takePersistRequest.2 := {}
      have kept : (h.keep e'.takePersistRequest.2).Settled :=
        settled_keep (same.regular regular') rfl
      rw [run_of_ok react he hr rfl]
      dsimp only
      split
      · exact kept.reportCompletion hm o
      · exact kept.handleIdle hm _ _

end Mute

/-- A resumption makes no request. -/
theorem Settled.resume (hs : h.Settled) (b : Bookmark) (v : Value) : (h.resume b v).2.Settled := by
  unfold Host.resume
  split
  · exact hs
  · next answer hu =>
    refine hs.useExecutor (f := (·.resumeBookmark b v)) (fun e hr hp => ?_) hu
    exact ⟨hr.resumeBookmark b v .normal, (e.persistRequested_resumeBookmark b v .normal).trans hp⟩

theorem Settled.resumeAndRun (hs : h.Settled) (hm : Mute react) (b : Bookmark) (v : Value) :
    (h.resumeAndRun react b v).2.Settled := by
  have resumed := hs.resume b v
  unfold Host.resumeAndRun
  generalize h.resume b v = answered at resumed ⊢
  obtain ⟨answer, m⟩ := answered
  cases answer with
  | success =>
    have after : (m.run react).2.Settled := Settled.run hm resumed
    dsimp only
    generalize m.run react = ran at after ⊢
    obtain ⟨result, n⟩ := ran
    cases result <;> exact after
  | notFound => exact resumed
  | notReady => exact resumed

/-- The use of a handle makes no request. -/
theorem Settled.useHandle (hs : h.Settled) {g : OperationHandle} {result : Except ActivityError Value}
    {a : Except ContractViolation Unit} (hu : h.useExecutor (·.completeHandle g result) = .ok (a, h')) :
    h'.Settled := by
  refine hs.useExecutor (f := (·.completeHandle g result)) (fun e hr hp => ?_) hu
  exact ⟨(Executor.sameCore_completeHandle g result).regular hr,
    (e.persistRequested_completeHandle g result).trans hp⟩

theorem Settled.complete (hs : h.Settled) (operation : OperationId) (result : OperationResult) :
    (h.complete operation result).2.Settled := by
  unfold Host.complete
  split
  · exact hs
  · have unused : Settled { h with handles := h.handles.filter (·.operation != operation) } := hs
    dsimp only
    split
    · exact unused
    · split
      · exact unused
      · next hu => exact unused.useHandle hu
      · next hu => exact unused.useHandle hu

end Host

/-- What happens to a host between two looks at it. -/
inductive HostStep where
  /-- It runs the workflow. -/
  | run
  /-- It resumes a bookmark and runs the workflow if that succeeds. -/
  | resumeAndRun (b : Bookmark) (v : Value)
  /-- It completes an operation. -/
  | complete (operation : OperationId) (result : OperationResult)
  /-- Time passes, others use the store, or its next commands are made to fail. -/
  | meanwhile (store : Store) (surroundings : Surroundings)

/-- The host after a step. -/
def HostStep.after (react : Host.React) (h : Host) : HostStep → Host
  | run => (h.run react).2
  | resumeAndRun b v => (h.resumeAndRun react b v).2
  | complete operation result => (h.complete operation result).2
  | meanwhile store surroundings => { h with store, surroundings }

namespace Host

variable {h h' : Host} {e e' : Executor} {owner : OwnerId} {react : React}

/-- No request is pending after a step. -/
theorem Settled.after (hs : h.Settled) (hm : Mute react) (step : HostStep) :
    (step.after react h).Settled := by
  cases step with
  | run => exact hs.run hm
  | resumeAndRun b v => exact hs.resumeAndRun hm b v
  | complete operation result => exact hs.complete operation result
  | meanwhile store surroundings => exact hs

/-- No request is pending after several steps. -/
theorem Settled.afterAll (hs : h.Settled) (hm : Mute react) (steps : List HostStep) :
    (steps.foldl (HostStep.after react) h).Settled := by
  induction steps generalizing h with
  | nil => exact hs
  | cons step rest ih => exact ih (hs.after hm step)

/-! ### What a run that ends idle does -/

/-- What is wanted of an idle workflow that can be saved: what the host chooses if it listens, and what
the configuration says if it does not. -/
def Wants (h : Host) (react : React) (e : Executor) (wanted : IdleAction) : Prop :=
  if .persistableIdle ∈ h.application.listening then
    ∃ m, wanted = (react (.persistableIdle (h.idleReport e)) m).1.getD .keep
  else wanted = h.application.config.idleAction

/-- What a host does when a run has ended idle with an executor. -/
structure Decides (h : Host) (react : React) (owner : OwnerId) (e : Executor) : Prop where
  /-- While operations are outstanding nothing is sent to the store. -/
  outstanding : 0 < e.operations.size →
    (h.run react).1 = .ok .idle ∧ (h.run react).2.store = h.store
  /-- Else a save is sent if anything but keeping is wanted, or if a request was made in this run. -/
  free : e.operations.size = 0 → ∃ wanted : IdleAction, h.Wants react e wanted ∧
    (wanted = .keep → e.persistRequested = false →
      (h.run react).1 = .ok .idle ∧ (h.run react).2.store = h.store) ∧
    (wanted ≠ .keep ∨ e.persistRequested = true → ∃ result : Except HostError Unit,
      h.Issues owner e result (h.run react).2 ∧ (h.run react).1 = result.map fun _ => .idle)
  /-- In either case the request is gone afterwards. -/
  gone : ∀ k, (h.run react).2.application.executor = some k → k.persistRequested = false

/-- What the host does about a run that ends idle, if nothing was requested before. -/
theorem Settled.decides (hs : h.Settled) (hm : Mute react) (ho : h.application.owner = some owner)
    (he : h.application.executor = some e) (hr : (h.ready e).run h.stepLimit = (.ok .idle, e')) :
    h.Decides react owner e' := by
  have after := hs.run hm
  obtain ⟨m, hkeep⟩ : ∃ m, m = h.keep e'.takePersistRequest.2 := ⟨_, rfl⟩
  obtain ⟨report, hreport⟩ : ∃ report, report = h.idleReport e'.takePersistRequest.2 := ⟨_, rfl⟩
  have ran : h.run react = ((m.handleIdle react report e'.persistRequested).1.map fun _ => .idle,
      (m.handleIdle react report e'.persistRequested).2) := by
    rw [hkeep, hreport]
    exact run_of_ok react he hr rfl
  have told := hm.tell m (.idle report)
  have owned : (m.tell react (.idle report)).2.application.owner = some owner := by
    rw [told.application, hkeep]
    exact ho
  have stored : (m.tell react (.idle report)).2.store = h.store := by
    rw [told.store, hkeep]
    rfl
  have counted : report.outstanding = e'.operations.size := by
    rw [hreport]
    rfl
  refine ⟨fun hout => ?_, fun hfree => ?_, fun k hk => (after k hk).2⟩
  -- Nothing is decided about a workflow with outstanding operations.
  · have skip : m.handleIdle react report e'.persistRequested =
        (.ok (), (m.tell react (.idle report)).2) := by
      rw [handleIdle_eq, if_pos (.inr (counted ▸ hout))]
    rw [ran, skip]
    exact ⟨rfl, stored⟩
  · obtain ⟨t, ht⟩ : ∃ t, t = (m.tell react (.idle report)).2 := ⟨_, rfl⟩
    rw [← ht] at told owned stored
    have chosen := hm.choose t report
    have acts : m.handleIdle react report e'.persistRequested =
        Host.act react (choose react t report).2 (choose react t report).1 e'.persistRequested := by
      have go : ¬ (t.application.owner.isNone = true ∨ 0 < report.outstanding) := by
        rw [owned, counted, hfree]
        simp
      rw [handleIdle_eq, ← ht, if_neg go]
    rw [acts] at ran
    refine ⟨(choose react t report).1, ?_, fun hk hn => ?_, fun hw => ?_⟩
    · have listening : t.application.listening = h.application.listening := by
        rw [told.application, hkeep]
        rfl
      have config : t.application.config = h.application.config := by
        rw [told.application, hkeep]
        rfl
      rw [Wants, Host.choose, listening, config]
      split
      · next hl =>
        rw [Host.tell, if_pos (listening.symm ▸ hl), hreport]
        exact ⟨_, rfl⟩
      · rfl
    · rw [ran, hk, Host.act, hn, if_neg Bool.false_ne_true]
      exact ⟨rfl, chosen.store.trans stored⟩
    -- The executor that is saved differs from the one that ran only in what an image leaves out.
    · obtain ⟨image, captured⟩ :=
        ((regular_ready (hs e he).1).resting_of_run hr).captured hfree h.surroundings.now
      have same : Executor.SameCore e' (kept e'.takePersistRequest.2) := {}
      have around : (choose react t report).2.surroundings = h.surroundings := by
        rw [chosen.surroundings, told.surroundings, hkeep]
        rfl
      have loaded : (choose react t report).2.application.executor =
          some (kept e'.takePersistRequest.2) := by
        rw [chosen.application, told.application, hkeep]
        rfl
      have hc : (kept e'.takePersistRequest.2).capture
          (choose react t report).2.surroundings.now = .ok image := by
        rw [around, same.capture rfl]
        exact captured
      have issues := act_issues (fun m _ _ => hm.tell m _) (chosen.application ▸ owned) loaded hc hw
      rw [ran]
      exact ⟨_, issues.congr (chosen.store.trans stored) around same rfl rfl, rfl⟩

/-- A request to save counts in the run in which it is made, and only there. Whatever a host does that
runs its workflow, completes operations and has a store that may fail, no request is pending before a
run. When the run ends idle and no operation is outstanding, the workflow is saved if anything but
keeping it is wanted or if a request was made in this run; while an operation is outstanding it is not
saved, and in either case no request is left. -/
theorem request_counts_once {h : Host} {react : React} (hm : Mute react)
    (hs : ∀ e, h.application.executor = some e → e.Reachable ∧ e.persistRequested = false)
    (steps : List HostStep) {now : Host} (hn : now = steps.foldl (HostStep.after react) h)
    {owner : OwnerId} (ho : now.application.owner = some owner) {e e' : Executor}
    (he : now.application.executor = some e)
    (hr : (now.ready e).run now.stepLimit = (.ok .idle, e')) :
    (now.ready e).persistRequested = false ∧ now.Decides react owner e' := by
  have begun : h.Settled := fun e he => ⟨(hs e he).1.regular, (hs e he).2⟩
  have settled : now.Settled := hn ▸ begun.afterAll hm steps
  exact ⟨(settled e he).2, settled.decides hm ho he hr⟩

end Host

/-- A command takes the first failure that was planted. -/
theorem Store.planted_tryCommand {store : Store} {error : StoreError} {rest : List StoreError}
    (hp : store.planted = error :: rest) (s : Surroundings) (c : Command) :
    (store.tryCommand s c).2.planted = rest := by
  cases store with
  | memory m =>
    have failures : m.failures = error :: rest := hp
    rw [tryCommand, MemoryStore.tryCommand, failures]
    rfl
  | files f => cases hp
  | heedless => cases hp

/-- An activity that asks to save the workflow and waits at a bookmark. -/
def Activity.saver (name : String) : Activity :=
  ofNative name { execute := do
    Program.scheduling .requestPersist
    discard <| Program.scheduling (.createBookmark name none none .once) } []

namespace Host

/-- A host that does nothing when it is told something. -/
def unmoved : React :=
  fun _ h => (none, h)

theorem unmoved_mute : Mute unmoved :=
  fun _ h => .refl h

/-- The owner under which the host saves. -/
def keeper : OwnerId :=
  ⟨.ofNat 7⟩

/-- A workflow that asks to be saved and waits. -/
def saving : Executor :=
  .begun (.saver "wait")

/-- A host of it whose store fails twice. -/
def hapless : Host where
  application :=
    { id := ⟨.ofNat 1⟩, definition := (Activity.saver "wait").prepare
      executor := some saving, owner := some keeper }
  store := .memory { failures := [.transient "disk busy", .transient "still busy"] }
  surroundings := ⟨⟨0, 0⟩, .ofNat 9⟩
  stepLimit := 5

/-- The host after its first run. -/
def refused : Host :=
  (hapless.run unmoved).2

/-- The first run ends with a request, and a save is sent to the store. -/
theorem request_counts_once_hapless : ∃ e', e'.persistRequested = true ∧
    (hapless.ready saving).run hapless.stepLimit = (.ok .idle, e') ∧
    hapless.Decides unmoved keeper e' ∧
    ∃ result, hapless.Issues keeper e' result (hapless.run unmoved).2 := by
  have new : ∀ e, hapless.application.executor = some e →
      e.Reachable ∧ e.persistRequested = false := by
    intro e he
    cases he
    exact ⟨.begun rfl rfl, rfl⟩
  have ends : (hapless.ready saving).run hapless.stepLimit =
      (.ok .idle, ((hapless.ready saving).run hapless.stepLimit).2) :=
    Executor.run_eq_idle (by decide +kernel)
  have requested : ((hapless.ready saving).run hapless.stepLimit).2.persistRequested = true := by
    decide +kernel
  have free : ((hapless.ready saving).run hapless.stepLimit).2.operations.size = 0 := by
    decide +kernel
  obtain ⟨-, decides⟩ := request_counts_once unmoved_mute new [] rfl rfl rfl ends
  obtain ⟨_, -, -, acts⟩ := decides.free free
  obtain ⟨result, issues, -⟩ := acts (.inr requested)
  exact ⟨_, requested, ends, decides, result, issues⟩

/-- The first save fails, and the request is gone: the second run ends idle without an outstanding
operation, and no save is sent. -/
theorem not_request_kept :
    ((hapless.ready saving).run hapless.stepLimit).2.persistRequested = true ∧
      (hapless.run unmoved).1.toOption.isNone = true ∧
      (∃ e e', refused.application.executor = some e ∧
        (refused.ready e).run refused.stepLimit = (.ok .idle, e') ∧ e'.operations.size = 0) ∧
      ∀ e result, ¬ refused.Issues keeper e result (refused.run unmoved).2 := by
  have idle : (refused.application.executor.any fun e =>
      ((refused.ready e).run refused.stepLimit).1.toOption.any (!·.isCompleted) &&
        ((refused.ready e).run refused.stepLimit).2.operations.size == 0) = true := by
    decide +kernel
  obtain ⟨e, he, hi⟩ := (Option.any_eq_true _ _).mp idle
  obtain ⟨ends, free⟩ := Bool.and_eq_true_iff.mp hi
  have before : refused.store.planted = [.transient "still busy"] := by decide +kernel
  have after : (refused.run unmoved).2.store.planted = [.transient "still busy"] := by
    decide +kernel
  refine ⟨by decide +kernel, by decide +kernel,
    ⟨e, _, he, Executor.run_eq_idle ends, beq_iff_eq.mp free⟩, fun e result issues => ?_⟩
  obtain ⟨image, unlock, -, stored, -⟩ := issues
  rw [stored, Store.planted_tryCommand before] at after
  exact absurd after.symm (List.cons_ne_nil _ _)

end Host

end Workflow
