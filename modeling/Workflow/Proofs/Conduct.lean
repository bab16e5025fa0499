import Workflow.Application.Reaction
import Workflow.Proofs.Hosting
import Workflow.Proofs.RecordOrder

/-!
# What hosts do to their applications

Whatever a host calls for, little happens to its application at a time: the executor is used and kept,
it is dropped, another one is adopted, or it is noted that the completion was reported. What holds over
each of these holds over every call, if it holds over what the listeners do when they are told something.
-/

namespace Workflow

namespace Executor

variable {d : Definition} {store : Store} {s : Surroundings} {owner : OwnerId} {workflow : WorkflowId}
variable {mailbox : Nat} {e : Executor}

theorem mailbox_finishWorkflow (e : Executor) : e.finishWorkflow.mailbox = e.mailbox := by
  unfold finishWorkflow
  split <;> rfl

theorem mailbox_restore {snapshot : Snapshot} (h : snapshot.restore d mailbox = .ok e) :
    e.mailbox = mailbox := by
  obtain ⟨-, r, hr, rfl⟩ := Snapshot.restore_eq_ok.mp h
  obtain ⟨-, u, root, g, -, -, -, -, -, rfl⟩ := Snapshot.restoreExecutor_eq_ok.mp hr
  dsimp only
  split
  · exact mailbox_finishWorkflow _
  · rfl

/-- An executor that is loaded has the mailbox that was made for it. -/
theorem mailbox_load (h : (load d store s owner workflow mailbox).1 = .ok e) : e.mailbox = mailbox := by
  unfold load ofLoaded at h
  split at h
  · cases h
  · dsimp only at h
    split at h
    · cases h
    · split at h
      · cases h
      · split at h
        · cases h
        · exact mailbox_restore h

end Executor

namespace Host

open HostOperation (afterAll)

variable {h h' m : Host} {e e' : Executor} {react : React}

/-- A relation between an earlier and a later host that holds while their application keeps its executor,
whatever is done with it. -/
structure Staying (R : Host → Host → Prop) : Prop where
  trans : ∀ {h m h' : Host}, R h m → R m h' → R h h'
  /-- Something happens elsewhere. -/
  aside : ∀ {h h' : Host}, h'.application = h.application → h.mailboxCount ≤ h'.mailboxCount → R h h'
  /-- The completion counts as reported. -/
  noted : ∀ h : Host, R h (h.withApplication fun a => { a with completionReported := true })
  /-- The executor is used and kept. -/
  used : ∀ {h : Host} {e : Executor} (ops : List HostOperation), h.application.executor = some e →
    (∀ op ∈ ops, op.leavesRecords = true) → R h (h.keep (afterAll (h.ready e) ops))

/-- A relation that holds over all that may happen to their application. -/
structure Lasting (R : Host → Host → Prop) : Prop extends Staying R where
  /-- The executor is dropped. -/
  dropped : ∀ h : Host, R h (h.withApplication (·.dropExecutor))
  /-- An executor with a new mailbox is adopted where there is none. -/
  adopted : ∀ {h h' : Host} (e : Executor), h.application.executor = none →
    h'.application = h.application.adopt e → h.mailboxCount ≤ e.mailbox →
      e.mailbox < h'.mailboxCount → R h h'

namespace Staying

variable {R : Host → Host → Prop} (hR : Staying R)
include hR

theorem refl (h : Host) : R h h :=
  hR.aside rfl (Nat.le_refl _)

/-- One operation on the executor. -/
theorem useOne (he : h.application.executor = some e) (op : HostOperation)
    (hl : op.leavesRecords = true) : R h (h.keep (op.after (h.ready e))) :=
  hR.used [op] he fun _ hop => List.mem_singleton.mp hop ▸ hl

/-- An executor that is only looked at is kept as well. -/
theorem useExecutor {α : Type} {f : Executor → α × Executor} {a : α}
    (hf : ∀ e, (f e).2 = e ∨ ∃ op : HostOperation, op.leavesRecords = true ∧ (f e).2 = op.after e)
    (hu : h.useExecutor f = .ok (a, h')) : R h h' := by
  cases he : h.application.executor with
  | none =>
    rw [useExecutor_none f he] at hu
    cases hu
  | some e =>
    rw [useExecutor_some f he] at hu
    cases hu
    rcases hf (h.ready e) with still | ⟨op, hl, served⟩
    · rw [still]
      exact hR.used [] he fun _ hop => absurd hop List.not_mem_nil
    · rw [served]
      exact hR.useOne he op hl

theorem save (h : Host) (unlock : Bool) : R h (h.save unlock).2 := by
  cases ho : h.application.owner with
  | none =>
    rw [Host.save, ho]
    exact hR.refl h
  | some owner =>
    cases he : h.application.executor with
    | none =>
      rw [Host.save, ho]
      dsimp only
      rw [useExecutor_none _ he]
      exact hR.refl h
    | some e =>
      rw [save_eq ho he]
      have kept := hR.useOne he (.save h.store h.surroundings owner unlock) rfl
      exact hR.trans kept (hR.aside rfl (Nat.le_refl _))

theorem resume (h : Host) (b : Bookmark) (v : Value) : R h (h.resume b v).2 := by
  unfold Host.resume
  split
  · exact hR.refl h
  · next hu =>
    exact hR.useExecutor (fun _ => .inr ⟨.call (.resumeBookmark b v .normal), rfl, rfl⟩) hu

theorem complete (h : Host) (operation : OperationId) (result : OperationResult) :
    R h (h.complete operation result).2 := by
  unfold Host.complete
  split
  · exact hR.refl h
  · next handle _ =>
    have unused : R h { h with handles := h.handles.filter (·.operation != operation) } :=
      hR.aside rfl (Nat.le_refl _)
    dsimp only
    split
    · exact unused
    · next r =>
      -- A handle of another executor completes nothing.
      have used : ∀ e : Executor, (e.completeHandle handle r).2 = e ∨
          ∃ op : HostOperation, op.leavesRecords = true ∧
            (e.completeHandle handle r).2 = op.after e := by
        intro e
        by_cases hm : handle.mailbox = e.mailbox
        · refine .inr ⟨.call (.complete handle.operation r), rfl, ?_⟩
          simp [HostOperation.after, ExecutorCall.serve, Executor.completeHandle, hm,
            Executor.handleOf]
        · exact .inl (by rw [Executor.completeHandle, if_neg hm])
      split
      · exact unused
      · next hu => exact hR.trans unused (hR.useExecutor used hu)
      · next hu => exact hR.trans unused (hR.useExecutor used hu)

theorem isReady {ready : Bool} (hr : h.isReady = .ok (ready, h')) : R h h' := by
  unfold Host.isReady at hr
  refine hR.useExecutor (fun e => .inr ⟨.call .drainInbox, rfl, ?_⟩) hr
  rfl

theorem waitForOperations (completions : List Completion) (arrivals : List Arrival) (h : Host) :
    R h (waitForOperations completions arrivals h).2 := by
  induction arrivals generalizing completions h with
  | nil =>
    unfold Host.waitForOperations
    split
    · exact hR.refl h
    · next hr => exact hR.isReady hr
    · next hr => exact hR.isReady hr
  | cons arrival rest ih =>
    unfold Host.waitForOperations
    split
    · exact hR.refl h
    · next hr => exact hR.isReady hr
    · next hr =>
      have completed := hR.trans (hR.isReady hr) (hR.complete _ arrival.1 arrival.2)
      exact hR.trans completed (ih _ _)

section Listening

variable (hr : ∀ n m, R m (react n m).2)
include hr

theorem tell (h : Host) (n : Notice) : R h (h.tell react n).2 := by
  unfold Host.tell
  split
  · have logged : R h (h.log (.notice n)) := hR.aside rfl (Nat.le_refl _)
    exact hR.trans logged (hr n _)
  · exact hR.refl h

theorem reportCompletion (h : Host) (o : Outcome) : R h (h.reportCompletion react o).2 := by
  have secured : R h (if h.application.owner.isSome then h.persist else (.ok (), h)).2 := by
    split
    · exact hR.save h false
    · exact hR.refl h
  unfold Host.reportCompletion
  split
  · exact hR.refl h
  · dsimp only
    generalize (if h.application.owner.isSome then h.persist else (.ok (), h)) = answer at secured ⊢
    obtain ⟨result, m⟩ := answer
    cases result with
    | error error => exact secured
    | ok _ =>
      have noted := hR.trans secured (hR.noted m)
      dsimp only
      split
      · exact hR.trans (hR.trans noted (hR.tell hr _ _)) (hR.tell hr _ _)
      · exact hR.trans noted (hR.tell hr _ _)

theorem abort (h : Host) (reason : String) : R h (h.abort react reason).2 := by
  unfold Host.abort
  split
  · exact hR.refl h
  · next hu =>
    have aborted := hR.useExecutor (f := fun e => ((), e.abort reason))
      (fun _ => .inr ⟨.call (.abort reason), rfl, rfl⟩) hu
    exact hR.trans aborted (hR.tell hr _ _)

end Listening

end Staying

namespace Lasting

variable {R : Host → Host → Prop} (hR : Lasting R)
include hR

theorem reload (h : Host) : R h h.reload.2 := by
  unfold Host.reload
  split
  · exact hR.refl h
  · split
    · exact hR.refl h
    · next hn =>
      dsimp only
      generalize ha : Executor.load _ _ _ _ _ _ = answer
      obtain ⟨result, store⟩ := answer
      cases result with
      | error error => exact hR.aside rfl (Nat.le_succ _)
      | ok e =>
        have absent : h.application.executor = none := by
          simpa [Application.isLoaded] using hn
        have new : e.mailbox = h.mailboxCount := Executor.mailbox_load (congrArg Prod.fst ha)
        exact hR.adopted e absent rfl (Nat.le_of_eq new.symm) (Nat.lt_succ_of_le (Nat.le_of_eq new))

section Listening

variable (hr : ∀ n m, R m (react n m).2)
include hr

theorem unload (h : Host) : R h (h.unload react).2 := by
  have saved := hR.save h true
  unfold Host.unload
  generalize h.save true = answer at saved ⊢
  obtain ⟨result, m⟩ := answer
  cases result with
  | error error => exact saved
  | ok _ => exact hR.trans (hR.trans saved (hR.dropped m)) (hR.tell hr _ _)

theorem handleIdle (h : Host) (report : IdleReport) (requested : Bool) :
    R h (h.handleIdle react report requested).2 := by
  have told := hR.tell hr h (.idle report)
  have chosen : ∀ m : Host, R m (choose react m report).2 := by
    intro m
    unfold Host.choose
    split
    · exact hR.tell hr m _
    · exact hR.refl m
  have acted : ∀ (m : Host) (wanted : IdleAction), R m (act react m wanted requested).2 := by
    intro m wanted
    cases wanted with
    | unload => exact hR.unload hr m
    | persist => exact hR.save m false
    | keep =>
      unfold Host.act
      dsimp only
      split
      · exact hR.save m false
      · exact hR.refl m
  rw [handleIdle_eq]
  split
  · exact told
  · exact hR.trans (hR.trans told (chosen _)) (acted _ _)

theorem run (h : Host) : R h (h.run react).2 := by
  cases he : h.application.executor with
  | none =>
    rw [Host.run, useExecutor_none _ he]
    exact hR.refl h
  | some e =>
    generalize hx : (h.ready e).run h.stepLimit = ran
    obtain ⟨result, e'⟩ := ran
    have after : ((ExecutorCall.run h.stepLimit).serve (h.ready e)).2 = e' := congrArg Prod.snd hx
    cases result with
    | error error =>
      rw [run_of_error react he hx, ← after]
      exact hR.useOne he (.call (.run h.stepLimit)) rfl
    | ok o =>
      have ran : R h (h.keep e'.takePersistRequest.2) := by
        rw [← after]
        refine hR.used [.call (.run h.stepLimit), .call .takePersistRequest] he fun op hop => ?_
        rcases List.mem_pair.mp hop with rfl | rfl <;> rfl
      rw [run_of_ok react he hx rfl]
      dsimp only
      split
      · exact hR.trans ran (hR.reportCompletion hr _ o)
      · exact hR.trans ran (hR.handleIdle hr _ _ _)

theorem requestAndRun (h : Host) {request : Executor → Except ContractViolation Unit × Executor}
    (hq : ∀ e, ∃ op : HostOperation, op.leavesRecords = true ∧ (request e).2 = op.after e) :
    R h (h.requestAndRun react request).2 := by
  unfold Host.requestAndRun
  split
  · exact hR.refl h
  · next hu => exact hR.useExecutor (fun e => .inr (hq e)) hu
  · next hu => exact hR.trans (hR.useExecutor (fun e => .inr (hq e)) hu) (hR.run hr _)

theorem resumeAndRun (h : Host) (b : Bookmark) (v : Value) :
    R h (h.resumeAndRun react b v).2 := by
  have resumed := hR.resume h b v
  unfold Host.resumeAndRun
  generalize h.resume b v = answer at resumed ⊢
  obtain ⟨resumption, m⟩ := answer
  cases resumption with
  | success =>
    have ran := hR.trans resumed (hR.run hr m)
    dsimp only
    generalize m.run react = answer at ran ⊢
    obtain ⟨result, n⟩ := answer
    cases result <;> exact ran
  | notFound => exact resumed
  | notReady => exact resumed

theorem runUntilIdle (turns : Nat) (w : Waiting Outcome) (h : Host) :
    R h (runUntilIdle react turns w h).2 := by
  induction turns generalizing w h with
  | zero => exact hR.refl h
  | succ turns ih =>
    have ran := hR.run hr h
    unfold Host.runUntilIdle
    generalize h.run react = answer at ran ⊢
    obtain ⟨result, m⟩ := answer
    cases result with
    | error error => exact ran
    | ok o =>
      dsimp only at ran ⊢
      split
      · exact ran
      · split
        · exact ran
        · split
          · exact ran
          · have waited := hR.trans ran (hR.waitForOperations w.completions w.arrivals m)
            generalize Host.waitForOperations w.completions w.arrivals m = answer at waited ⊢
            obtain ⟨⟨completions, arrivals, last⟩, n⟩ := answer
            rcases last with _ | _ | _
            · exact waited
            · exact waited
            · exact hR.trans waited (ih _ _)

/-- What holds over all that may happen to an application holds over every call. -/
theorem perform (h : Host) (c : HostCall) : R h (h.perform react c).2 := by
  have answered : ∀ {α : Type} (reply : α → Reply) {x : Except HostError α × Host},
      R h x.2 → R h (answer reply x).2 := by
    intro α reply x hx
    obtain ⟨result, m⟩ := x
    cases result <;> exact hx
  cases c with
  | run => exact answered _ (hR.run hr h)
  | resume b v => exact hR.resume h b v
  | resumeAndRun b v => exact answered _ (hR.resumeAndRun hr h b v)
  | cancel => exact answered _ (hR.requestAndRun hr h fun _ => ⟨.call .cancel, rfl, rfl⟩)
  | terminate reason =>
    exact answered _ (hR.requestAndRun hr h fun _ => ⟨.call (.terminate reason), rfl, rfl⟩)
  | abort reason => exact answered _ (hR.abort hr h reason)
  | persist => exact answered _ (hR.save h false)
  | unload => exact answered _ (hR.unload hr h)
  | reload => exact answered _ (hR.reload h)
  | complete operation result => exact hR.complete h operation result
  | waitForOperations arrivals => exact hR.waitForOperations [] arrivals h
  | runUntilIdle arrivals => exact hR.runUntilIdle hr h.stepLimit ⟨[], arrivals, none⟩ h
  | isLoaded => exact hR.refl h
  | state => exact hR.refl h
  | bookmarks =>
    refine answered _ ?_
    split <;> exact hR.refl h
  | inspect => exact hR.refl h

end Listening

end Lasting

/-! ### Histories -/

/-- What may have happened to a host: calls with any listeners, which may do when they are told
something what may happen to a host, and whatever concerns neither the application nor the number of
mailboxes that were made. -/
inductive History : Host → Host → Prop
  /-- Nothing has happened. -/
  | still (h : Host) : History h h
  /-- One thing has happened after another. -/
  | andThen {h m h' : Host} (first : History h m) (second : History m h') : History h h'
  /-- A call was made. -/
  | call {react : React} (h : Host) (c : HostCall) (listens : ∀ n m, History m (react n m).2) :
      History h (h.perform react c).2
  /-- Something has happened elsewhere: to the store, for example. -/
  | elsewhere {h h' : Host} (ha : h'.application = h.application)
      (hm : h'.mailboxCount = h.mailboxCount) : History h h'

namespace History

theorem calls (hr : ∀ n m, History m (react n m).2) (h : Host) (cs : List HostCall) :
    History h (cs.foldl (fun h c => (h.perform react c).2) h) := by
  induction cs generalizing h with
  | nil => exact .still h
  | cons c rest ih => exact .andThen (.call h c hr) (ih _)

theorem play (hr : ∀ n m, History m (react n m).2) (kind : NoticeKind) (steps : List ReactionStep)
    (chosen : Option IdleAction) (h : Host) : History h (play react kind steps (chosen, h)).2 := by
  induction steps generalizing chosen h with
  | nil => exact .still h
  | cons step rest ih =>
    cases step with
    | choose action => exact ih (some action) h
    | call read =>
      have replied : ∀ (m : Host) (r : Reply), History m (m.log (.reply kind r)) :=
        fun _ _ => .elsewhere rfl rfl
      unfold Host.play
      cases read h.scopeCount with
      | error error => exact .andThen (replied h _) (ih _ _)
      | ok c => exact .andThen (.call h c hr) (.andThen (replied _ _) (ih _ _))

/-- Reactions that are written as data have such a history, however deep they are nested. -/
theorem reactTo (depth : Nat) (n : Notice) (m : Host) : History m (reactTo depth n m).2 := by
  induction depth generalizing n m with
  | zero => exact .still m
  | succ depth ih =>
    unfold Host.reactTo
    split
    · exact .still m
    · next steps m' ht =>
      have taken : History m m' := by
        unfold takeReaction at ht
        split at ht
        · cases ht
        · cases ht
          exact .elsewhere rfl rfl
      exact .andThen taken (.play ih n.kind steps none m')

end History

/-- What holds over all that may happen to an application holds over its history. -/
theorem Lasting.history {R : Host → Host → Prop} (hR : Lasting R) (hh : History h h') : R h h' := by
  induction hh with
  | still h => exact hR.refl h
  | andThen _ _ first second => exact hR.trans first second
  | call h c _ ih => exact hR.perform ih h c
  | elsewhere ha hm => exact hR.aside ha (Nat.le_of_eq hm.symm)

end Host

end Workflow
