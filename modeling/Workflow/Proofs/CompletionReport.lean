import Workflow.Proofs.DiskSteps
import Workflow.Proofs.Locking
import Workflow.Proofs.Quiescence
import Workflow.Proofs.SaveRequest

/-!
# Reports of completion

A host that has a store reports the completion of its workflow after it has saved the workflow for the
last time. The report belongs to the save of the run: a store takes no second last save, so that a
workflow that was saved by its host outside of a run, after it had completed, is never reported.
-/

namespace Workflow

/-! ### Last saves -/

namespace StoreIndex

variable {x : StoreIndex} {workflow : WorkflowId} {entry : InstanceEntry}

/-- A workflow that was saved for the last time is not saved again. -/
theorem save_of_complete (hw : x.instances[workflow]? = some entry) (hc : entry.complete = true)
    (owner : OwnerId) (data : InstanceMetadata) (complete unlock : Bool) :
    x.save owner workflow data complete unlock =
      .error (if x.owners.contains owner then .instanceCompleted workflow
        else .ownerNotFound owner) := by
  have shut : x.checkAccess owner workflow = .error (.instanceCompleted workflow) := by
    rw [checkAccess, hw]
    exact if_pos hc
  unfold save ensureOwner
  split
  · rw [shut]
    rfl
  · rfl

end StoreIndex

namespace Store

variable {store : Store} {workflow : WorkflowId}

/-- The index of a store, as the next command finds it. -/
def index? : Store → Option StoreIndex
  | memory m => some m.index
  | files f => (f.onDisk FileStore.readIndex).1.toOption
  | heedless => none

/-- A store holds the last save of a workflow. -/
def Holds (store : Store) (workflow : WorkflowId) : Prop :=
  ∃ x entry, store.index? = some x ∧ x.instances[workflow]? = some entry ∧ entry.complete = true

/-- A store that holds the last save of a workflow takes no other. -/
theorem Holds.refuses (h : store.Holds workflow) (s : Surroundings) (owner : OwnerId)
    (data : InstanceData) (complete unlock : Bool) :
    ∃ error, (store.tryCommand s (.save owner workflow data complete unlock)).1 = .error error := by
  obtain ⟨x, entry, hx, hw, hc⟩ := h
  have refused := StoreIndex.save_of_complete hw hc owner data.metadata complete unlock
  cases store with
  | heedless => cases hx
  | memory m =>
    cases hx
    rw [tryCommand, MemoryStore.tryCommand]
    cases m.failures with
    | cons error rest => exact ⟨error, rfl⟩
    | nil =>
      rw [MemoryStore.perform, refused]
      exact ⟨_, rfl⟩
  | files f =>
    obtain ⟨disk, hr⟩ : ∃ disk, (FileStore.readIndex f.layout).run f.disk = (.ok x, disk) := by
      generalize hr : (FileStore.readIndex f.layout).run f.disk = r
      have read : r.1.toOption = some x := hr ▸ hx
      obtain ⟨result, disk⟩ := r
      cases result with
      | error _ => cases read
      | ok y =>
        cases read
        exact ⟨disk, rfl⟩
    -- A save of the workflow is refused as soon as the index is read.
    have performed : (FileStore.perform f.layout s x
        (.save owner workflow data complete unlock)).run disk = (.error _, disk) :=
      Disk.run_bind_error (congrArg (·, disk) refused) _
    have stopped : (FileStore.steps f.layout s (.save owner workflow data complete unlock)).run
        f.disk = (.error _, disk) :=
      (Disk.run_bind_ok hr _).trans (Disk.run_bind_error performed _)
    rw [tryCommand, FileStore.tryCommand, FileStore.onDisk, stopped]
    exact ⟨_, rfl⟩

/-- Whether a store is one in memory. -/
def isInMemory : Store → Bool
  | memory _ => true
  | _ => false

theorem isInMemory_iff : store.isInMemory = true ↔ ∃ m, store = memory m := by
  cases store <;> simp [isInMemory]

/-- The memory of a store is sound, if it is one in memory. -/
def Sound (store : Store) : Prop :=
  ∀ m, store = memory m → m.Sound

/-- A sound store in memory holds the last save of a workflow. -/
def Keeps (store : Store) (workflow : WorkflowId) : Prop :=
  ∃ m data, store = memory m ∧ m.Sound ∧ m.Final workflow data

theorem Keeps.holds (h : store.Keeps workflow) : store.Holds workflow := by
  obtain ⟨m, data, rfl, -, entered, -⟩ := h
  exact ⟨m.index, _, rfl, entered, rfl⟩

/-- The store after something that others do to it: a command or a failure to come. Failures are
planted in memory only. -/
def afterEvent (store : Store) (event : StoreEvent) : Store :=
  match store, event with
  | memory m, event => memory (event.after m)
  | store, .command s c => (store.tryCommand s c).2
  | store, .plant _ => store

/-- A command is one of the things that may happen to a store. -/
theorem afterEvent_command (store : Store) (s : Surroundings) (c : Command) :
    store.afterEvent (.command s c) = (store.tryCommand s c).2 := by
  cases store <;> rfl

theorem Sound.afterEvent (h : store.Sound) (event : StoreEvent) : (store.afterEvent event).Sound := by
  intro m hm
  cases store with
  | memory old =>
    cases hm
    exact (h old rfl).after event
  | files f => cases event <;> cases hm
  | heedless => cases event <;> cases hm

theorem Keeps.afterEvent (h : store.Keeps workflow) (event : StoreEvent) :
    (store.afterEvent event).Keeps workflow := by
  obtain ⟨m, data, rfl, sound, final⟩ := h
  exact ⟨event.after m, data, rfl, sound.after event, final.afterAll sound [event]⟩

/-- The store with another disk, if it is one in files. -/
def withDisk (disk : Disk) : Store → Store
  | files f => files { f with disk }
  | store => store

theorem Sound.withDisk (h : store.Sound) (disk : Disk) : (store.withDisk disk).Sound := by
  intro m hm
  cases store with
  | memory old => exact h m hm
  | files f => cases hm
  | heedless => cases hm

theorem Keeps.withDisk (h : store.Keeps workflow) (disk : Disk) :
    (store.withDisk disk).Keeps workflow := by
  obtain ⟨m, data, rfl, kept⟩ := h
  exact ⟨m, data, rfl, kept⟩

end Store

namespace Executor

variable {e e' : Executor} {limit : Nat} {o : Outcome}

/-! ### What can be captured once it has completed -/

/-- An executor that leaves nothing queued when its workflow completes. -/
structure Clear (e : Executor) : Prop where
  regular : e.Regular
  empty : e.backlog = 0

theorem Clear.of_sameCore (h : e.Clear) (same : SameCore e e') : e'.Clear := by
  refine ⟨same.regular h.regular, ?_⟩
  rw [backlog, same.state, same.queue]
  exact h.empty

/-- Operations that drain nothing after the workflow has completed, and do not abort it, queue nothing. -/
theorem Clear.after (h : e.Clear) (op : HostOperation) (hn : op.isAbort = false) (hd : op.drained e = []) :
    (op.after e).Clear := by
  refine ⟨h.regular.after op, ?_⟩
  rw [h.regular.backlog_after hn, h.empty, hd, ite_self]
  rfl

/-- A workflow that has completed can be captured. -/
theorem Clear.captured (h : e.Clear) (hc : e.state.isCompleted = true) (now : Timestamp) :
    ∃ s, e.capture now = .ok s :=
  (h.regular.finished_of_completed hc).capture_iff.mpr h.empty

/-- A clear executor whose workflow has completed with an outcome. -/
structure Complete (e : Executor) (o : Outcome) : Prop extends Clear e where
  completed : e.state.isCompleted = true
  outcome : e.outcome = some o

theorem Complete.of_sameCore (h : e.Complete o) (same : SameCore e e') : e'.Complete o :=
  ⟨h.toClear.of_sameCore same, same.state ▸ h.completed, same.outcome.trans h.outcome⟩

theorem Complete.finished (h : e.Complete o) : e.Finished :=
  h.regular.finished_of_completed h.completed

theorem Complete.isFinal (h : e.Complete o) : e.state.isFinal = true := by
  rw [WorkflowState.isFinal, h.completed, Bool.true_or]

theorem Complete.outcome_completed (h : e.Complete o) : o.isCompleted = true := by
  have ended : o ≠ .idle := fun hi => h.finished.outcome_ne_idle (hi ▸ h.outcome)
  cases o with
  | idle => exact absurd rfl ended
  | completed | canceled | faulted => rfl

theorem workflow_announce (e : Executor) : e.announce.workflow = e.workflow := by
  have scheduled : ∀ (m : Executor) (k : InstanceId),
      (m.trackScheduled none k).workflow = m.workflow := by
    intro m k
    unfold trackScheduled
    split <;> rfl
  unfold announce
  split
  · rfl
  · split
    · exact scheduled _ _
    · rfl

theorem workflow_save (store : Store) (s : Surroundings) (owner : OwnerId) (unlock : Bool) :
    (e.save store s owner unlock).2.1.workflow = e.workflow := by
  unfold Executor.save
  split
  · rfl
  · dsimp only
    split
    · rfl
    · split <;> rfl

/-- A save sends one command to the store at most. -/
theorem store_save (store : Store) (s : Surroundings) (owner : OwnerId) (unlock : Bool) :
    (e.save store s owner unlock).2.2 = store ∨
      ∃ c, (e.save store s owner unlock).2.2 = (store.tryCommand s c).2 := by
  cases hc : e.capture s.now with
  | error error =>
    rw [Executor.save, hc]
    exact .inl rfl
  | ok image => exact .inr ⟨_, (save_of_capture hc store owner unlock).2⟩

/-- A run whose outcome is that the workflow has completed leaves it so. -/
theorem Regular.run_completed (h : e.Regular) (hr : e.run limit = (.ok o, e'))
    (hc : o.isCompleted = true) : e'.state.isCompleted = true ∧ e'.outcome = some o := by
  have ran := e.ran limit
  rw [hr] at ran
  cases ran with
  | ended ha ho =>
    have regular : e.announce.Regular := sameCore_announce.regular h
    refine ⟨?_, ho⟩
    cases regular with
    | working h => exact absurd (h.opened.symm.trans ho) (Option.some_ne_none o).symm
    | resting h => exact absurd (h.consistent.opened.symm.trans ho) (Option.some_ne_none o).symm
    | finished h => exact h.isCompleted
    | aborted h => exact absurd h.state ha
  | settled ha ho hd hs =>
    obtain ⟨proper, -⟩ := drainQueue_proper (.inl (h.enter ho ha)) hd
    cases proper with
    | inl h =>
      rw [settle_of_none h.opened] at hs
      have idle : o = .idle := by
        split at hs <;> exact (Prod.mk.inj hs).1.symm
      rw [idle] at hc
      cases hc
    | inr h =>
      obtain ⟨p, hp⟩ := Option.ne_none_iff_exists'.mp h.outcome_ne
      rw [settle_of_some hp] at hs
      cases hs
      exact ⟨h.isCompleted, hp⟩

end Executor

namespace Host

variable {h h' : Host} {e e' : Executor} {owner : OwnerId} {react : React} {workflow : WorkflowId}
  {o : Outcome}

/-! ### What a host is told -/

/-- The completions that the host has been told of. -/
def completions (h : Host) : List Outcome :=
  h.events.filterMap fun
    | .notice (.completed _ o) => some o
    | _ => none

/-- What the host is told of a completion, if it listens. -/
def heard (h : Host) (o : Outcome) : List Outcome :=
  if .completed ∈ h.application.listening then [o] else []

/-- A reaction that may choose what to do with an idle workflow, and does nothing else. -/
structure Passive (react : React) : Prop where
  mute : Mute react
  silent : ∀ n h, (react n h).2.events = h.events

/-- Hosts between which no completion was reported. -/
structure SameReports (h h' : Host) : Prop where
  owner : h'.application.owner = h.application.owner := by rfl
  listening : h'.application.listening = h.application.listening := by rfl
  reported : h'.application.completionReported = h.application.completionReported := by rfl
  completions : h'.completions = h.completions := by rfl

theorem SameReports.refl (h : Host) : SameReports h h :=
  {}

theorem SameReports.trans {m : Host} (hm : SameReports h m) (hn : SameReports m h') :
    SameReports h h' :=
  ⟨hn.owner.trans hm.owner, hn.listening.trans hm.listening, hn.reported.trans hm.reported,
    hn.completions.trans hm.completions⟩

theorem SameReports.heard (hs : SameReports h h') (o : Outcome) : h'.heard o = h.heard o := by
  rw [Host.heard, Host.heard, hs.listening]

theorem sameReports_elsewhere (h : Host) (store : Store) (surroundings : Surroundings) :
    SameReports h { h with store, surroundings } :=
  {}

theorem completions_keep (h : Host) (e : Executor) : (h.keep e).completions = h.completions := by
  have journal : ∀ entries : List JournalEntry, (entries.map HostEvent.journal).filterMap (fun
      | .notice (.completed _ o) => some o
      | _ => none) = ([] : List Outcome) := by
    intro entries
    rw [List.filterMap_map, List.filterMap_eq_nil_iff]
    exact fun _ _ => rfl
  change (h.events ++ e.journal.map HostEvent.journal).filterMap _ = _
  rw [List.filterMap_append, journal, List.append_nil]
  rfl

theorem sameReports_keep (h : Host) (e : Executor) : SameReports h (h.keep e) :=
  ⟨rfl, rfl, rfl, completions_keep h e⟩

/-- Only a notice of completion reports it. -/
theorem Passive.tell_other (hp : Passive react) (h : Host) {n : Notice} (hn : n.kind ≠ .completed) :
    SameReports h (h.tell react n).2 := by
  unfold Host.tell
  split
  · have same := (hp.mute n (h.log (.notice n))).application
    refine ⟨congrArg _ same, congrArg _ same, congrArg _ same, ?_⟩
    rw [completions, hp.silent]
    change (h.events ++ [HostEvent.notice n]).filterMap _ = _
    rw [List.filterMap_append]
    cases n with
    | completed => exact absurd rfl hn
    | idle | persistableIdle | exception | aborted | unloaded => exact List.append_nil _
  · exact .refl h

theorem Passive.tell_completed (hp : Passive react) (h : Host) (id : WorkflowId) (o : Outcome) :
    (h.tell react (.completed id o)).2.completions = h.completions ++ h.heard o := by
  by_cases hl : .completed ∈ h.application.listening
  · have told : (Notice.completed id o).kind ∈ h.application.listening := hl
    rw [Host.tell, if_pos told, Host.heard, if_pos hl, completions, hp.silent]
    change (h.events ++ [HostEvent.notice _]).filterMap _ = _
    rw [List.filterMap_append]
    rfl
  · have untold : (Notice.completed id o).kind ∉ h.application.listening := hl
    rw [Host.tell, if_neg untold, Host.heard, if_neg hl, List.append_nil]

/-! ### Calls that report nothing -/

/-- The executor of a host is clear, if there is one. -/
def Clear (h : Host) : Prop :=
  ∀ e, h.application.executor = some e → e.Clear

/-- Nothing is reported between two hosts; what is in order stays so. -/
structure Quiet (h h' : Host) : Prop extends SameReports h h' where
  clear : h.Clear → h'.Clear
  sound : h.store.Sound → h'.store.Sound

theorem Quiet.refl (h : Host) : Quiet h h :=
  ⟨.refl h, id, id⟩

theorem Quiet.trans {m : Host} (hm : Quiet h m) (hn : Quiet m h') : Quiet h h' :=
  ⟨hm.toSameReports.trans hn.toSameReports, fun hc => hn.clear (hm.clear hc),
    fun hs => hn.sound (hm.sound hs)⟩

theorem sameCore_ready (h : Host) (e : Executor) : Executor.SameCore e (h.ready e) :=
  {}

theorem sameCore_kept (e : Executor) : Executor.SameCore e (kept e) :=
  {}

theorem clear_ready (hc : e.Clear) : (h.ready e).Clear :=
  hc.of_sameCore (sameCore_ready h e)

theorem clear_keep (h : Host) (hc : e.Clear) : (h.keep e).Clear := by
  intro k hk
  cases (executor_keep h e).symm.trans hk
  exact hc.of_sameCore (sameCore_kept e)

/-- A use of the executor that keeps it clear is quiet. -/
theorem quiet_use {α : Type} {f : Executor → α × Executor} {a : α}
    (hf : ∀ e : Executor, e.Clear → (f e).2.Clear) (hu : h.useExecutor f = .ok (a, h')) :
    Quiet h h' := by
  cases he : h.application.executor with
  | none =>
    rw [useExecutor_none f he] at hu
    cases hu
  | some e =>
    rw [useExecutor_some f he] at hu
    cases hu
    exact ⟨sameReports_keep h _, fun hc => clear_keep h (hf _ (clear_ready (hc e he))), id⟩

theorem store_use {α : Type} {f : Executor → α × Executor} {a : α}
    (hu : h.useExecutor f = .ok (a, h')) : h'.store = h.store := by
  cases he : h.application.executor with
  | none =>
    rw [useExecutor_none f he] at hu
    cases hu
  | some e =>
    rw [useExecutor_some f he] at hu
    cases hu
    rfl

theorem quiet_save (h : Host) (unlock : Bool) : Quiet h (h.save unlock).2 := by
  cases ho : h.application.owner with
  | none =>
    rw [Host.save, ho]
    exact .refl h
  | some owner =>
    cases he : h.application.executor with
    | none =>
      rw [Host.save, ho]
      dsimp only
      rw [useExecutor_none _ he]
      exact .refl h
    | some e =>
      rw [save_eq ho he]
      have same : Executor.SameCore (h.ready e) ((h.ready e).save h.store h.surroundings owner
          unlock).2.1 := Executor.sameCore_save _ _ _ _
      refine ⟨⟨rfl, rfl, rfl, completions_keep h _⟩, fun hc => ?_, fun hs => ?_⟩
      · exact clear_keep h ((clear_ready (hc e he)).of_sameCore same)
      · dsimp only
        rcases (h.ready e).store_save h.store h.surroundings owner unlock with hst | ⟨c, hst⟩
        · rw [hst]
          exact hs
        · rw [hst, ← Store.afterEvent_command]
          exact hs.afterEvent _

theorem Passive.quiet_tell (hp : Passive react) (h : Host) {n : Notice} (hn : n.kind ≠ .completed) :
    Quiet h (h.tell react n).2 := by
  obtain ⟨application, store, -⟩ := hp.mute.tell h n
  refine ⟨hp.tell_other h hn, fun hc => ?_, fun hs => store ▸ hs⟩
  rw [Host.Clear, application]
  exact hc

theorem quiet_resume (h : Host) (b : Bookmark) (v : Value) : Quiet h (h.resume b v).2 := by
  unfold Host.resume
  split
  · exact .refl h
  · next answer hu =>
    exact quiet_use (f := (·.resumeBookmark b v))
      (fun e hc => hc.after (.call (.resumeBookmark b v .normal)) rfl rfl) hu

theorem store_resume (h : Host) (b : Bookmark) (v : Value) : (h.resume b v).2.store = h.store := by
  unfold Host.resume
  split
  · rfl
  · next hu => exact store_use hu

theorem quiet_complete (h : Host) (operation : OperationId) (result : OperationResult) :
    Quiet h (h.complete operation result).2 := by
  unfold Host.complete
  split
  · exact .refl h
  · next handle _ =>
    have unused : Quiet h { h with handles := h.handles.filter (·.operation != operation) } :=
      ⟨{}, id, id⟩
    dsimp only
    split
    · exact unused
    · next r =>
      have used : ∀ e : Executor, e.Clear → (e.completeHandle handle r).2.Clear := fun e hc =>
        hc.of_sameCore (Executor.sameCore_completeHandle _ _)
      split
      · exact unused
      · next hu => exact unused.trans (quiet_use used hu)
      · next hu => exact unused.trans (quiet_use used hu)

theorem store_complete (h : Host) (operation : OperationId) (result : OperationResult) :
    (h.complete operation result).2.store = h.store := by
  unfold Host.complete
  split
  · rfl
  · dsimp only
    split
    · rfl
    · split
      · rfl
      · next hu => exact Eq.trans (store_use hu) rfl
      · next hu => exact Eq.trans (store_use hu) rfl

section Passive

variable (hp : Passive react)
include hp

theorem Passive.quiet_unload (h : Host) : Quiet h (h.unload react).2 := by
  unfold Host.unload
  have saved := quiet_save h true
  split
  · next hsave =>
    rw [hsave] at saved
    exact saved
  · next m hsave =>
    rw [hsave] at saved
    have dropped : Quiet m (m.withApplication (·.dropExecutor)) := by
      refine ⟨{}, fun _ e he => ?_, id⟩
      exact absurd he.symm (Option.some_ne_none e)
    exact (saved.trans dropped).trans (hp.quiet_tell _ (NoticeKind.noConfusion))

theorem Passive.quiet_act (h : Host) (wanted : IdleAction) (requested : Bool) :
    Quiet h (act react h wanted requested).2 := by
  cases wanted with
  | unload => exact hp.quiet_unload h
  | persist => exact quiet_save h false
  | keep =>
    unfold act
    dsimp only
    split
    · exact quiet_save h false
    · exact .refl h

theorem Passive.quiet_choose (h : Host) (report : IdleReport) :
    Quiet h (choose react h report).2 := by
  unfold Host.choose
  split
  · exact hp.quiet_tell h NoticeKind.noConfusion
  · exact .refl h

theorem Passive.quiet_handleIdle (h : Host) (report : IdleReport) (requested : Bool) :
    Quiet h (h.handleIdle react report requested).2 := by
  have told := hp.quiet_tell h (n := .idle report) NoticeKind.noConfusion
  rw [handleIdle_eq]
  split
  · exact told
  · exact (told.trans (hp.quiet_choose _ report)).trans (hp.quiet_act _ _ requested)

end Passive

/-! ### Workflows that have completed -/

/-- A host keeps an executor; of what a run or an image depends on, nothing has changed. -/
def Has (h : Host) (e : Executor) : Prop :=
  ∃ k, h.application.executor = some k ∧ Executor.SameCore e k ∧ k.workflow = e.workflow

theorem Has.of_application (hh : h.Has e) (ha : h'.application.executor = h.application.executor) :
    h'.Has e := by
  rw [Has, ha]
  exact hh

theorem has_keep (h : Host) (same : Executor.SameCore e e') (named : e'.workflow = e.workflow) :
    (h.keep e').Has e :=
  ⟨kept e', executor_keep h e', same.trans (sameCore_kept e'), named⟩

/-- A use of the executor that changes nothing in it leaves it to the host. -/
theorem Has.use {α : Type} {f : Executor → α × Executor} {a : α} (hh : h.Has e)
    (hf : ∀ k, Executor.SameCore e k → Executor.SameCore k (f k).2 ∧ (f k).2.workflow = k.workflow)
    (hu : h.useExecutor f = .ok (a, h')) : h'.Has e := by
  obtain ⟨k, hk, same, named⟩ := hh
  rw [useExecutor_some f hk] at hu
  have ready : Executor.SameCore e (h.ready k) := same.trans (sameCore_ready h k)
  obtain ⟨used, still⟩ := hf (h.ready k) ready
  cases hu
  exact has_keep h (ready.trans used) (still.trans named)

theorem Has.save (hh : h.Has e) (ho : h.application.owner = some owner) (unlock : Bool) :
    (h.save unlock).2.Has e := by
  obtain ⟨k, hk, same, named⟩ := hh
  have ready : Executor.SameCore e (h.ready k) := same.trans (sameCore_ready h k)
  rw [save_eq ho hk]
  exact .of_application (has_keep h (ready.trans (Executor.sameCore_save _ _ _ _))
    ((Executor.workflow_save _ _ _ _).trans named)) rfl

/-- The workflow can be saved, so that the store is asked to. -/
theorem Has.issues (hh : h.Has e) (he : e.Complete o) (ho : h.application.owner = some owner) :
    h.Issues owner e h.persist.1 h.persist.2 := by
  obtain ⟨k, hk, same, named⟩ := hh
  have past : k.Complete o := he.of_sameCore same
  obtain ⟨image, captured⟩ := past.captured past.completed h.surroundings.now
  exact (save_issues ho hk captured false).congr rfl rfl same named rfl

/-- No bookmark is resumed. -/
theorem Has.resume (hh : h.Has e) (he : e.Complete o) (b : Bookmark) (v : Value) :
    (h.resume b v).1 ≠ .success ∧ (h.resume b v).2.Has e := by
  obtain ⟨k, hk, same, named⟩ := hh
  have ready : Executor.SameCore e (h.ready k) := same.trans (sameCore_ready h k)
  have unknown := (he.of_sameCore ready).finished.resumeBookmark b v .normal
  rw [Host.resume, useExecutor_some _ hk, unknown]
  exact ⟨Resumption.noConfusion, has_keep h ready named⟩

theorem Has.complete (hh : h.Has e) (operation : OperationId) (result : OperationResult) :
    (h.complete operation result).2.Has e := by
  unfold Host.complete
  split
  · exact hh
  · next handle _ =>
    have unused : Has { h with handles := h.handles.filter (·.operation != operation) } e := hh
    dsimp only
    split
    · exact unused
    · next r =>
      have used : ∀ k : Executor, Executor.SameCore e k →
          Executor.SameCore k (k.completeHandle handle r).2 ∧
            (k.completeHandle handle r).2.workflow = k.workflow := by
        intro k _
        refine ⟨Executor.sameCore_completeHandle _ _, ?_⟩
        unfold Executor.completeHandle
        split <;> rfl
      split
      · exact unused
      · next hu => exact unused.use used hu
      · next hu => exact unused.use used hu

/-- What a host does about a completion that it has not reported: it saves the workflow for the last
time, and tells of it if the store has accepted. -/
structure Reporting (h : Host) (o : Outcome) (result : Except HostError Unit) (h' : Host) : Prop where
  owner : h'.application.owner = h.application.owner
  listening : h'.application.listening = h.application.listening
  reported : h'.application.completionReported = result.isOk
  completions : h'.completions = h.completions ++ if result.isOk then h.heard o else []

/-- Where a completion was reported, nothing more is done. -/
theorem reportCompletion_of_reported (hr : h.application.completionReported = true) (o : Outcome) :
    h.reportCompletion react o = (.ok (), h) := by
  rw [Host.reportCompletion, if_pos hr]

/-- Where it was not, the save decides. -/
theorem Passive.reportCompletion (hp : Passive react) (ho : h.application.owner = some owner)
    (hr : h.application.completionReported = false) (o : Outcome) :
    (h.reportCompletion react o).1 = h.persist.1 ∧
      h.Reporting o h.persist.1 (h.reportCompletion react o).2 ∧
      (h.reportCompletion react o).2.store = h.persist.2.store ∧
      (h.reportCompletion react o).2.application.executor = h.persist.2.application.executor := by
  have saved : SameReports h h.persist.2 := (quiet_save h false).toSameReports
  have owned : h.application.owner.isSome = true := by
    rw [ho]
    rfl
  rw [Host.reportCompletion, hr, if_neg Bool.false_ne_true, if_pos owned]
  generalize h.persist = persisted at saved ⊢
  obtain ⟨result, m⟩ := persisted
  cases result with
  | error error =>
    exact ⟨rfl, ⟨saved.owner, saved.listening, saved.reported.trans hr,
      saved.completions.trans (List.append_nil _).symm⟩, rfl, rfl⟩
  | ok _ =>
    dsimp only
    obtain ⟨t, ht⟩ : ∃ t, t = m.withApplication fun a => { a with completionReported := true } :=
      ⟨_, rfl⟩
    rw [← ht]
    -- The notice of a fault may come first; it is no report of the completion.
    have last : ∀ q, SameReports t q → SameSetting t q →
        h.Reporting o (.ok ()) (q.tell react (.completed t.application.id o)).2 ∧
          (q.tell react (.completed t.application.id o)).2.store = m.store ∧
          (q.tell react (.completed t.application.id o)).2.application.executor =
            m.application.executor := by
      intro q told same
      have after := hp.mute.tell q (.completed t.application.id o)
      have application := after.application.trans same.application
      refine ⟨⟨?_, ?_, ?_, ?_⟩, ?_, ?_⟩
      · rw [application, ht]
        exact saved.owner
      · rw [application, ht]
        exact saved.listening
      · rw [application, ht]
        rfl
      · rw [hp.tell_completed, told.heard, told.completions, ht]
        exact congrArg₂ (· ++ ·) saved.completions (saved.heard o)
      · rw [after.store, same.store, ht]
        rfl
      · rw [application, ht]
        rfl
    cases o with
    | faulted f =>
      exact ⟨rfl, last _ (hp.tell_other t NoticeKind.noConfusion) (hp.mute.tell t _)⟩
    | idle | completed | canceled => exact ⟨rfl, last t (.refl t) (.refl t)⟩

/-! ### Runs -/

/-- The run of a workflow that has completed is the report of its completion. -/
theorem Has.run (react : React) (hh : h.Has e) (he : e.Complete o) :
    ∃ m, m.Has e ∧ Quiet h m ∧ m.store = h.store ∧ m.surroundings = h.surroundings ∧
      h.run react =
        ((m.reportCompletion react o).1.map fun _ => o, (m.reportCompletion react o).2) := by
  obtain ⟨k, hk, same, named⟩ := hh
  have ready : (h.ready k).Complete o := he.of_sameCore (same.trans (sameCore_ready h k))
  have ran := ready.finished.run ready.outcome h.stepLimit
  have still : Executor.SameCore (h.ready k) (h.ready k).announce := Executor.sameCore_announce
  have taken : ∀ m : Executor, Executor.SameCore m m.takePersistRequest.2 := fun _ => {}
  have done := still.trans (taken _)
  refine ⟨h.keep (h.ready k).announce.takePersistRequest.2, ?_, ?_, rfl, rfl, ?_⟩
  · exact has_keep h ((same.trans (sameCore_ready h k)).trans done)
      ((Executor.workflow_announce (h.ready k)).trans named)
  · exact ⟨sameReports_keep h _, fun _ => clear_keep h (ready.toClear.of_sameCore done), id⟩
  · refine run_of_ok react hk ran ?_
    rw [ready.outcome_completed]
    rfl

/-- Where the completion was reported, a run gives its outcome and does nothing. -/
theorem Has.run_reported (react : React) (hh : h.Has e) (he : e.Complete o)
    (hr : h.application.completionReported = true) :
    (h.run react).1 = .ok o ∧ Quiet h (h.run react).2 ∧ (h.run react).2.Has e := by
  obtain ⟨m, has, quiet, -, -, ran⟩ := hh.run react he
  rw [reportCompletion_of_reported (quiet.reported.trans hr)] at ran
  rw [ran]
  exact ⟨rfl, quiet, has⟩

/-- A run reports nothing, or it ends with the report of a completion. -/
theorem Passive.run_cases (hp : Passive react) (hc : h.Clear) :
    Quiet h (h.run react).2 ∨ ∃ m e o, e.Complete o ∧ m.Has e ∧ Quiet h m ∧
      h.run react =
        ((m.reportCompletion react o).1.map fun _ => o, (m.reportCompletion react o).2) := by
  cases he : h.application.executor with
  | none =>
    rw [Host.run, useExecutor_none _ he]
    exact .inl (.refl h)
  | some e =>
    have ready : (h.ready e).Clear := clear_ready (hc e he)
    have ran : ((h.ready e).run h.stepLimit).2.Clear :=
      ready.after (.call (.run h.stepLimit)) rfl rfl
    obtain ⟨r, e', hr⟩ : ∃ r e', (h.ready e).run h.stepLimit = (r, e') := ⟨_, _, rfl⟩
    rw [hr] at ran
    have kept : ∀ {k}, Executor.SameCore e' k → Quiet h (h.keep k) := fun same =>
      ⟨sameReports_keep h _, fun _ => clear_keep h (ran.of_sameCore same), id⟩
    cases r with
    | error error =>
      rw [run_of_error react he hr]
      exact .inl (kept (.refl e'))
    | ok o =>
      have same : Executor.SameCore e' e'.takePersistRequest.2 := {}
      have answer := run_of_ok react he hr rfl
      cases hc : o.isCompleted with
      | false =>
        rw [hc] at answer
        rw [answer]
        exact .inl ((kept same).trans (hp.quiet_handleIdle _ _ _))
      | true =>
        rw [hc] at answer
        obtain ⟨completed, outcome⟩ := ready.regular.run_completed hr hc
        exact .inr ⟨h.keep e'.takePersistRequest.2, e', o, ⟨ran, completed, outcome⟩,
          has_keep h same rfl, kept same, answer⟩

end Host

/-- What happens to a host between two looks at it. -/
inductive HostAct where
  /-- It runs the workflow. -/
  | run
  /-- It resumes a bookmark and runs the workflow if that succeeds. -/
  | resumeAndRun (b : Bookmark) (v : Value)
  /-- It cancels the workflow and runs it. -/
  | cancel
  /-- It terminates the workflow and runs it. -/
  | terminate (reason : String)
  /-- It saves the workflow. -/
  | persist
  /-- It completes an operation. -/
  | complete (operation : OperationId) (result : OperationResult)
  /-- Others use the store, or a failure is planted for a command to come. -/
  | meanwhile (event : StoreEvent)
  /-- The disk of the store changes, or which of its steps to come fail. -/
  | disturb (disk : Disk)
  /-- Time passes. -/
  | wait (surroundings : Surroundings)

namespace HostAct

/-- The host after an act. -/
def after (react : Host.React) (h : Host) : HostAct → Host
  | run => (h.run react).2
  | resumeAndRun b v => (h.resumeAndRun react b v).2
  | cancel => (h.cancel react).2
  | terminate reason => (h.terminate react reason).2
  | persist => h.persist.2
  | complete operation result => (h.complete operation result).2
  | meanwhile event => { h with store := h.store.afterEvent event }
  | disturb disk => { h with store := h.store.withDisk disk }
  | wait surroundings => { h with surroundings }

/-- The host after several acts. -/
def afterAll (react : Host.React) (h : Host) : List HostAct → Host
  | [] => h
  | act :: rest => afterAll react (act.after react h) rest

end HostAct

namespace Host

open HostAct (afterAll)

variable {h h' : Host} {e e' : Executor} {owner : OwnerId} {react : React} {o : Outcome}

/-! ### The account of reports -/

/-- The books of a host agree: it has told of a completion exactly if it says so, and then the workflow
has completed. -/
structure Accounts (h : Host) (owner : OwnerId) : Prop where
  owned : h.application.owner = some owner
  clear : h.Clear
  sound : h.store.Sound
  pending : h.application.completionReported = false → h.completions = []
  reported : h.application.completionReported = true → ∃ e o, e.Complete o ∧ h.Has e ∧
    h.completions = h.heard o

/-- What is quiet and leaves a completed workflow alone keeps the books in order. -/
theorem Accounts.quiet (ha : h.Accounts owner) (hq : Quiet h h')
    (hd : h.application.completionReported = true → ∀ e o, e.Complete o → h.Has e → h'.Has e) :
    h'.Accounts owner := by
  refine ⟨hq.owner.trans ha.owned, hq.clear ha.clear, hq.sound ha.sound, fun hr => ?_, fun hr => ?_⟩
  · exact hq.completions.trans (ha.pending (hq.reported.symm.trans hr))
  · obtain ⟨e, o, past, has, told⟩ := ha.reported (hq.reported.symm.trans hr)
    exact ⟨e, o, past, hd (hq.reported.symm.trans hr) e o past has, (hq.completions.trans told).trans (hq.heard o).symm⟩

section Passive

variable (hp : Passive react)
include hp

/-- A report keeps the books in order. -/
theorem Passive.accounts_report {m : Host} (ha : m.Accounts owner) (hm : m.Has e) (he : e.Complete o) :
    (m.reportCompletion react o).2.Accounts owner := by
  cases hr : m.application.completionReported with
  | true =>
    rw [reportCompletion_of_reported hr]
    exact ha
  | false =>
    obtain ⟨-, reporting, stored, executor⟩ := hp.reportCompletion ha.owned hr o
    have quiet := quiet_save m false
    have has : (m.reportCompletion react o).2.Has e := (hm.save ha.owned false).of_application executor
    have told := reporting.completions
    rw [ha.pending hr, List.nil_append] at told
    refine ⟨reporting.owner.trans ha.owned, ?_, ?_, fun hf => ?_, fun hf => ?_⟩
    · rw [Host.Clear, executor]
      exact quiet.clear ha.clear
    · rw [stored]
      exact quiet.sound ha.sound
    · have refused := reporting.reported.symm.trans hf
      rw [told, refused]
      rfl
    · have accepted := reporting.reported.symm.trans hf
      refine ⟨e, o, he, has, ?_⟩
      rw [told, accepted, heard, heard, reporting.listening]
      rfl

theorem Passive.accounts_run (ha : h.Accounts owner) : (h.run react).2.Accounts owner := by
  cases hr : h.application.completionReported with
  | true =>
    obtain ⟨e, o, past, has, -⟩ := ha.reported hr
    obtain ⟨-, quiet, -⟩ := has.run_reported react past hr
    exact ha.quiet quiet fun _ _ _ past has => (has.run_reported react past hr).2.2
  | false =>
    have open' : ∀ {h'}, Quiet h h' → h'.Accounts owner := fun quiet =>
      ha.quiet quiet fun reported => absurd (hr.symm.trans reported) Bool.false_ne_true
    rcases hp.run_cases ha.clear with quiet | ⟨m, e, o, past, has, quiet, ran⟩
    · exact open' quiet
    · rw [ran]
      exact hp.accounts_report (open' quiet) has past

theorem Passive.accounts_resumeAndRun (ha : h.Accounts owner) (b : Bookmark) (v : Value) :
    (h.resumeAndRun react b v).2.Accounts owner := by
  have resumed : (h.resume b v).2.Accounts owner :=
    ha.quiet (quiet_resume h b v) fun _ _ _ past has => (has.resume past b v).2
  unfold Host.resumeAndRun
  generalize h.resume b v = answered at resumed ⊢
  obtain ⟨answer, m⟩ := answered
  cases answer with
  | success =>
    have after : (m.run react).2.Accounts owner := hp.accounts_run resumed
    dsimp only
    generalize m.run react = ran at after ⊢
    obtain ⟨result, n⟩ := ran
    cases result <;> exact after
  | notFound => exact resumed
  | notReady => exact resumed

/-- A request that a workflow which has completed refuses keeps the books in order. -/
theorem Passive.accounts_request (ha : h.Accounts owner)
    {request : Executor → Except ContractViolation Unit × Executor}
    (hc : ∀ e : Executor, e.Clear → (request e).2.Clear)
    (hf : ∀ e : Executor, e.state.isFinal = true → (request e).2 = e) :
    (h.requestAndRun react request).2.Accounts owner := by
  unfold Host.requestAndRun
  have used : ∀ {a h'}, h.useExecutor request = .ok (a, h') → h'.Accounts owner := by
    intro a h' hu
    refine ha.quiet (quiet_use hc hu) fun _ e o past has => has.use (fun k same => ?_) hu
    rw [hf k (past.of_sameCore same).isFinal]
    exact ⟨.refl k, rfl⟩
  split
  · exact ha
  · next hu => exact used hu
  · next hu => exact hp.accounts_run (used hu)

theorem Passive.accounts_after (ha : h.Accounts owner) (act : HostAct) :
    (act.after react h).Accounts owner := by
  cases act with
  | run => exact hp.accounts_run ha
  | resumeAndRun b v => exact hp.accounts_resumeAndRun ha b v
  | cancel =>
    exact hp.accounts_request ha (fun e hc => hc.after (.call .cancel) rfl rfl)
      fun e => Executor.cancelWorkflow_of_final
  | terminate reason =>
    exact hp.accounts_request ha (fun e hc => hc.after (.call (.terminate reason)) rfl rfl)
      fun e hf => Executor.terminate_of_final hf reason
  | persist =>
    exact ha.quiet (quiet_save h false) fun _ _ _ _ has => has.save ha.owned false
  | complete operation result =>
    exact ha.quiet (quiet_complete h operation result) fun _ _ _ _ has =>
      has.complete operation result
  | meanwhile event =>
    exact ha.quiet ⟨sameReports_elsewhere h _ h.surroundings, id, fun hs => hs.afterEvent event⟩
      fun _ _ _ _ has => has
  | disturb disk =>
    exact ha.quiet ⟨sameReports_elsewhere h _ h.surroundings, id, fun hs => hs.withDisk disk⟩
      fun _ _ _ _ has => has
  | wait surroundings =>
    exact ha.quiet ⟨sameReports_elsewhere h h.store surroundings, id, id⟩ fun _ _ _ _ has => has

theorem Passive.accounts_afterAll (ha : h.Accounts owner) (acts : List HostAct) :
    (afterAll react h acts).Accounts owner := by
  induction acts generalizing h with
  | nil => exact ha
  | cons act rest ih => exact ih (hp.accounts_after ha act)

end Passive

/-! ### What a run does about a completion -/

/-- A save of a workflow that the store holds already is refused. -/
theorem Issues.refused {result : Except HostError Unit} (hi : h.Issues owner e result h')
    (hh : h.store.Holds e.workflow) : ∃ error, result = .error (.engine (.store error)) := by
  obtain ⟨image, unlock, -, -, rfl⟩ := hi
  obtain ⟨error, refused⟩ := hh.refuses h.surroundings owner _ e.state.isCompleted unlock
  rw [Executor.saveCommand, refused]
  exact ⟨error, rfl⟩

/-- A save leaves what the store holds. -/
theorem Issues.keeps {result : Except HostError Unit} {workflow : WorkflowId}
    (hi : h.Issues owner e result h') (hk : h.store.Keeps workflow) : h'.store.Keeps workflow := by
  obtain ⟨image, unlock, -, stored, -⟩ := hi
  rw [stored, ← Store.afterEvent_command]
  exact hk.afterEvent _

/-- After a save of a workflow that has completed a store in memory holds its last save. -/
theorem Issues.last {m : MemoryStore} (hi : h.Issues owner e (.ok ()) h')
    (hc : e.state.isCompleted = true) (hm : h.store = .memory m) (hs : m.Sound) :
    h'.store.Keeps e.workflow := by
  obtain ⟨image, unlock, -, stored, answer⟩ := hi
  rw [Executor.saveCommand, hc, hm] at stored answer
  have succeeded : (m.tryCommand h.surroundings (.save owner e.workflow
      ⟨image.encode, image.summary h.surroundings.now⟩ true unlock)).1.isOk = true := by
    rw [Store.tryCommand] at answer
    dsimp only at answer
    generalize (m.tryCommand _ _).1 = outcome at answer ⊢
    cases outcome with
    | error error => cases answer
    | ok _ => rfl
  have performed := hs.performed succeeded
  exact ⟨_, _, stored, hs.of_performed performed, performed.final⟩

section Passive

variable (hp : Passive react)
include hp

/-- Where the completion was not reported, a run asks the store to save the workflow, and the store
decides. -/
theorem Passive.run_unreported (hh : h.Has e) (he : e.Complete o) (ho : h.application.owner = some owner)
    (hr : h.application.completionReported = false) :
    ∃ result, h.Issues owner e result (h.run react).2 ∧ (h.run react).1 = result.map (fun _ => o) ∧
      h.Reporting o result (h.run react).2 ∧ (h.run react).2.Has e := by
  obtain ⟨m, has, quiet, store, around, ran⟩ := hh.run react he
  have owned := quiet.owner.trans ho
  obtain ⟨result, reporting, stored, executor⟩ := hp.reportCompletion owned (quiet.reported.trans hr) o
  rw [ran, result]
  refine ⟨m.persist.1, ?_, rfl, ?_, (has.save owned false).of_application executor⟩
  · exact (has.issues he owned).congr store around (.refl e) rfl stored
  · refine ⟨reporting.owner.trans quiet.owner, reporting.listening.trans quiet.listening,
      reporting.reported, ?_⟩
    rw [reporting.completions, quiet.completions, quiet.heard]

end Passive

/-- A refused save reports nothing. -/
theorem Reporting.sameReports {error : HostError} (hr : h.Reporting o (.error error) h')
    (hu : h.application.completionReported = false) : SameReports h h' :=
  ⟨hr.owner, hr.listening, hr.reported.trans hu.symm, hr.completions.trans (List.append_nil _)⟩

/-! ### What is settled about a completion -/

/-- The completion was reported, or it cannot be: the store holds the last save of the workflow. -/
structure Decided (h : Host) (owner : OwnerId) (e : Executor) : Prop where
  owned : h.application.owner = some owner
  has : h.Has e
  decided : h.application.completionReported = true ∨ h.store.Keeps e.workflow

/-- What reports nothing and leaves the workflow and the store alone decides nothing. -/
theorem Decided.same (hd : h.Decided owner e) (hs : SameReports h h') (hh : h'.Has e)
    (hk : h.store.Keeps e.workflow → h'.store.Keeps e.workflow) : h'.Decided owner e :=
  ⟨hs.owner.trans hd.owned, hh, hd.decided.imp hs.reported.trans hk⟩

theorem Decided.save (hd : h.Decided owner e) (he : e.Complete o) :
    SameReports h h.persist.2 ∧ h.persist.2.Decided owner e := by
  have same : SameReports h h.persist.2 := (quiet_save h false).toSameReports
  exact ⟨same, hd.same same (hd.has.save hd.owned false) (hd.has.issues he hd.owned).keeps⟩

section Passive

variable (hp : Passive react)
include hp

/-- A run of a decided workflow gives its outcome if it was reported and fails if it was not. -/
theorem Passive.run_decided (hd : h.Decided owner e) (he : e.Complete o) :
    SameReports h (h.run react).2 ∧ (h.run react).2.Decided owner e ∧
      (h.application.completionReported = true → (h.run react).1 = .ok o) ∧
      (h.application.completionReported = false →
        ∃ error, (h.run react).1 = .error (.engine (.store error))) := by
  cases hr : h.application.completionReported with
  | true =>
    obtain ⟨result, quiet, has⟩ := hd.has.run_reported react he hr
    have reported := quiet.reported.trans hr
    exact ⟨quiet.toSameReports, ⟨quiet.owner.trans hd.owned, has, .inl reported⟩, fun _ => result,
      fun no => absurd no.symm Bool.false_ne_true⟩
  | false =>
    have keeps : h.store.Keeps e.workflow := hd.decided.resolve_left fun yes =>
      Bool.false_ne_true (hr.symm.trans yes)
    obtain ⟨result, issues, answer, reporting, has⟩ := hp.run_unreported hd.has he hd.owned hr
    obtain ⟨error, rfl⟩ := issues.refused keeps.holds
    have same := reporting.sameReports hr
    exact ⟨same, hd.same same has issues.keeps, fun yes => absurd yes Bool.false_ne_true,
      fun _ => ⟨error, answer⟩⟩

/-- No act reports a completion that is decided. -/
theorem Passive.after_decided (hd : h.Decided owner e) (he : e.Complete o) (act : HostAct) :
    SameReports h (act.after react h) ∧ (act.after react h).Decided owner e := by
  -- What is asked of a workflow that has completed is refused, and no run follows.
  have request : ∀ request : Executor → Except ContractViolation Unit × Executor,
      (∀ k, k.Complete o → ∃ v, request k = (.error v, k)) →
        SameReports h (h.requestAndRun react request).2 ∧
          (h.requestAndRun react request).2.Decided owner e := by
    intro request refused
    obtain ⟨k, hk, same, named⟩ := hd.has
    have ready : Executor.SameCore e (h.ready k) := same.trans (sameCore_ready h k)
    obtain ⟨v, hv⟩ := refused _ (he.of_sameCore ready)
    rw [Host.requestAndRun, useExecutor_some _ hk, hv]
    have kept := sameReports_keep h (h.ready k)
    exact ⟨kept, hd.same kept (has_keep h ready named) id⟩
  have shut : ∀ k : Executor, k.Complete o → ∃ v, k.ensureAccepting = .error v := by
    intro k past
    cases hk : k.ensureAccepting with
    | error v => exact ⟨v, rfl⟩
    | ok _ => exact absurd hk (Executor.not_accepting_of_final past.isFinal)
  cases act with
  | run =>
    obtain ⟨same, decided, -⟩ := hp.run_decided hd he
    exact ⟨same, decided⟩
  | resumeAndRun b v =>
    obtain ⟨unknown, has⟩ := hd.has.resume he b v
    have same := (quiet_resume h b v).toSameReports
    have decided : (h.resume b v).2.Decided owner e :=
      hd.same same has fun hk => (store_resume h b v).symm ▸ hk
    rw [HostAct.after]
    unfold Host.resumeAndRun
    generalize h.resume b v = answered at unknown same decided ⊢
    obtain ⟨answer, m⟩ := answered
    cases answer with
    | success => exact absurd rfl unknown
    | notFound => exact ⟨same, decided⟩
    | notReady => exact ⟨same, decided⟩
  | cancel =>
    refine request _ fun k past => ?_
    obtain ⟨v, hv⟩ := shut k past
    rw [Executor.cancelWorkflow, hv]
    exact ⟨v, rfl⟩
  | terminate reason =>
    refine request _ fun k past => ?_
    obtain ⟨v, hv⟩ := shut k past
    rw [Executor.terminate, hv]
    exact ⟨v, rfl⟩
  | persist => exact hd.save he
  | complete operation result =>
    have same := (quiet_complete h operation result).toSameReports
    exact ⟨same, hd.same same (hd.has.complete operation result) fun hk =>
      (store_complete h operation result).symm ▸ hk⟩
  | meanwhile event =>
    have same := sameReports_elsewhere h (h.store.afterEvent event) h.surroundings
    exact ⟨same, hd.same same hd.has fun hk => hk.afterEvent event⟩
  | disturb disk =>
    have same := sameReports_elsewhere h (h.store.withDisk disk) h.surroundings
    exact ⟨same, hd.same same hd.has fun hk => hk.withDisk disk⟩
  | wait surroundings =>
    have same := sameReports_elsewhere h h.store surroundings
    exact ⟨same, hd.same same hd.has id⟩

theorem Passive.afterAll_decided (hd : h.Decided owner e) (he : e.Complete o) (acts : List HostAct) :
    SameReports h (afterAll react h acts) ∧ (afterAll react h acts).Decided owner e := by
  induction acts generalizing h with
  | nil => exact ⟨.refl h, hd⟩
  | cons act rest ih =>
    obtain ⟨first, decided⟩ := hp.after_decided hd he act
    obtain ⟨others, decided⟩ := ih decided
    exact ⟨first.trans others, decided⟩

end Passive

/-- What a host does about the completion of its workflow, which has the outcome `o`. -/
structure Reports (h : Host) (react : React) (owner : OwnerId) (e : Executor) (o : Outcome) : Prop where
  /-- Once it has told of the completion, every run gives the outcome, whatever happens before it, and
  the completion is not told again. -/
  reported : h.application.completionReported = true → h.completions = h.heard o ∧
    ∀ acts : List HostAct, ((afterAll react h acts).run react).1 = .ok o ∧
      ((afterAll react h acts).run react).2.completions = h.heard o
  /-- Until then a run asks the store to save the workflow. If the store accepts, the run gives the
  outcome and the completion is told; if it does not, the run fails and nothing is told. -/
  unreported : h.application.completionReported = false → h.completions = [] ∧
    ∃ result, h.Issues owner e result (h.run react).2 ∧ (h.run react).1 = result.map (fun _ => o) ∧
      (h.run react).2.application.completionReported = result.isOk ∧
      (h.run react).2.completions = if result.isOk then h.heard o else []
  /-- A store that holds the last save does not accept, whether it is in memory or in files. -/
  refused : h.application.completionReported = false → h.store.Holds e.workflow →
    ∃ error, (h.run react).1 = .error (.engine (.store error))
  /-- So a workflow that its host itself has saved first in a store in memory is never reported, and
  all its runs fail. -/
  forestalled : h.application.completionReported = false → (∃ m, h.store = .memory m) →
    h.persist.1 = .ok () → ∀ acts : List HostAct,
      (∃ error, ((afterAll react h.persist.2 acts).run react).1 = .error (.engine (.store error))) ∧
        ((afterAll react h.persist.2 acts).run react).2.completions = []

theorem Passive.reports (hp : Passive react) (ha : h.Accounts owner) (hh : h.Has e) (he : e.Complete o) :
    h.Reports react owner e o where
  reported hr := by
    obtain ⟨k, p, past, has, told⟩ := ha.reported hr
    -- Both executors are what the host keeps, so that their outcomes are the same.
    have same : p = o := by
      obtain ⟨x, hx, left, -⟩ := has
      obtain ⟨y, hy, right, -⟩ := hh
      cases hx.symm.trans hy
      have outcome := (past.of_sameCore left).outcome.symm.trans (he.of_sameCore right).outcome
      exact Option.some.inj outcome
    refine ⟨same ▸ told, fun acts => ?_⟩
    obtain ⟨before, decided⟩ := hp.afterAll_decided ⟨ha.owned, hh, .inl hr⟩ he acts
    obtain ⟨after, -, result, -⟩ := hp.run_decided decided he
    refine ⟨result (before.reported.trans hr), ?_⟩
    rw [after.completions, before.completions, told, same]
  unreported hr := by
    obtain ⟨result, issues, answer, reporting, -⟩ := hp.run_unreported hh he ha.owned hr
    refine ⟨ha.pending hr, result, issues, answer, reporting.reported, ?_⟩
    rw [reporting.completions, ha.pending hr, List.nil_append]
  refused hr held := by
    obtain ⟨result, issues, answer, -⟩ := hp.run_unreported hh he ha.owned hr
    obtain ⟨error, rfl⟩ := issues.refused held
    exact ⟨error, answer⟩
  forestalled hr inMemory saved acts := by
    obtain ⟨m, hm⟩ := inMemory
    have issues := hh.issues he ha.owned
    rw [saved] at issues
    have same : SameReports h h.persist.2 := (quiet_save h false).toSameReports
    have decided : h.persist.2.Decided owner e :=
      ⟨same.owner.trans ha.owned, hh.save ha.owned false,
        .inr (issues.last he.completed hm (ha.sound m hm))⟩
    obtain ⟨before, decided⟩ := hp.afterAll_decided decided he acts
    obtain ⟨after, -, -, failed⟩ := hp.run_decided decided he
    refine ⟨failed ((before.reported.trans same.reported).trans hr), ?_⟩
    rw [after.completions, before.completions, same.completions, ha.pending hr]

/-- A host of a new workflow that saves it under an owner. -/
structure Opens (h : Host) (owner : OwnerId) : Prop where
  owned : h.application.owner = some owner
  /-- The workflow has not completed yet. -/
  fresh : ∀ e, h.application.executor = some e → e.Reachable ∧ e.state.isCompleted = false
  sound : h.store.Sound
  unreported : h.application.completionReported = false
  untold : h.completions = []

/-- The books of a host are in order when it begins. -/
theorem Opens.accounts (ho : h.Opens owner) : h.Accounts owner where
  owned := ho.owned
  clear e he := by
    obtain ⟨reachable, running⟩ := ho.fresh e he
    refine ⟨reachable.regular, ?_⟩
    rw [Executor.backlog, running]
    rfl
  sound := ho.sound
  pending _ := ho.untold
  reported hr := absurd (ho.unreported.symm.trans hr) Bool.false_ne_true

/-- The completion of a workflow is reported by the run that saves it for the last time. Whatever a host
has done, and whatever has happened to its store, when the workflow has completed its host has told of
it and every run gives the outcome, or the next run asks the store for the last save and its answer
decides. A store that holds the last save does not accept, so that a completion is never reported once
the host itself has saved the completed workflow. -/
theorem reports_own_save (hp : Passive react) (ho : h.Opens owner) (acts : List HostAct) {e : Executor}
    (he : (afterAll react h acts).application.executor = some e)
    (hc : e.state.isCompleted = true) :
    ∃ o, e.outcome = some o ∧ (afterAll react h acts).Reports react owner e o := by
  have accounts := hp.accounts_afterAll ho.accounts acts
  have clear := accounts.clear e he
  obtain ⟨o, outcome⟩ :=
    Option.ne_none_iff_exists'.mp (clear.regular.finished_of_completed hc).outcome_ne
  exact ⟨o, outcome, hp.reports accounts ⟨e, he, .refl e, rfl⟩ ⟨clear, hc, outcome⟩⟩

/-- A store with an owner, whose next command fails. -/
def troubled : Store :=
  .memory (StoreEvent.afterAll {}
    [.command ⟨⟨0, 0⟩, .ofNat 7⟩ (.createOwner "host"), .plant (.transient "disk busy")])

/-- A host that has a workflow which completes at once, and listens. -/
def hasty : Host where
  application :=
    { id := ⟨.ofNat 1⟩, definition := (Activity.parallel []).prepare
      executor := some (.begun (.parallel [])), owner := some keeper, listening := [.completed] }
  store := troubled
  surroundings := ⟨⟨0, 0⟩, .ofNat 9⟩
  stepLimit := 5

theorem unmoved_passive : Passive unmoved :=
  ⟨unmoved_mute, fun _ _ => rfl⟩

theorem hasty_opens : hasty.Opens keeper where
  owned := rfl
  fresh e he := by
    cases he
    exact ⟨.begun rfl rfl, rfl⟩
  sound m hm := by
    cases hm
    exact MemoryStore.sound_empty.afterAll _
  unreported := rfl
  untold := rfl

/-- The last save of the first run fails, so that nothing is told; the host saves the workflow itself,
and after that no run gives the outcome or tells of it. -/
theorem reports_own_save_hasty : ∃ e o,
    (afterAll unmoved hasty [.run]).application.executor = some e ∧ e.state = .closed ∧
      (afterAll unmoved hasty [.run]).Reports unmoved keeper e o ∧
      (afterAll unmoved hasty [.run]).persist.1 = .ok () ∧
      ∀ acts : List HostAct,
        ((afterAll unmoved (afterAll unmoved hasty [.run]).persist.2 acts).run unmoved).2.completions
          = [] := by
  have closed : ((afterAll unmoved hasty [.run]).application.executor.any
      (·.state == .closed)) = true := by decide +kernel
  obtain ⟨e, he, hs⟩ := (Option.any_eq_true _ _).mp closed
  have ended : e.state = .closed := beq_iff_eq.mp hs
  have saved : (afterAll unmoved hasty [.run]).persist.1 = .ok () := by decide +kernel
  have untold : (afterAll unmoved hasty [.run]).application.completionReported = false := by
    decide +kernel
  have inMemory : ∃ m, (afterAll unmoved hasty [.run]).store = .memory m :=
    Store.isInMemory_iff.mp (by decide +kernel)
  obtain ⟨o, -, reports⟩ := reports_own_save unmoved_passive hasty_opens [.run] he
    (by rw [ended]; rfl)
  exact ⟨e, o, he, ended, reports, saved, fun acts =>
    (reports.forestalled untold inMemory saved acts).2⟩

/-- A completion that was saved need not be reported: the host itself has saved the workflow, and the
next run fails and tells nothing. -/
theorem not_reported_once_saved :
    ((afterAll unmoved hasty [.run]).application.executor.any (·.state.isCompleted)) = true ∧
      (afterAll unmoved hasty [.run]).persist.1 = .ok () ∧
      ((afterAll unmoved hasty [.run, .persist]).run unmoved).1.map (fun _ => ()) =
        .error (.engine (.store (.instanceCompleted ⟨.ofNat 1⟩))) ∧
      ((afterAll unmoved hasty [.run, .persist]).run unmoved).2.completions.isEmpty = true := by
  decide +kernel

end Host

end Workflow
