import Workflow.Proofs.Arrivals
import Workflow.Proofs.Dependents
import Workflow.Proofs.Dispatch
import Workflow.Proofs.Waning

/-!
# Errands

An item of work calls at most one body. What is done before the call, the call itself, and what is
done with its result make up an errand. An item without an errand, and all that an errand does apart
from its call, calls nobody but abort hooks.
-/

namespace Workflow

/-- A call that an item of work makes, with what is done with its result. -/
structure Errand where
  /-- The instance that is called. -/
  id : InstanceId
  /-- How it is called. -/
  callback : Callback
  /-- The kind of its activity. -/
  {kind : BodyKind}
  /-- What the call results in. -/
  {Result : Type}
  /-- The program that the call runs. -/
  program : Program kind Result
  /-- The executor in which it runs. -/
  before : Executor
  /-- What is done after a call that does not crash. -/
  after : Result → Executor → Executor

namespace Errand

/-- The executor in which the program begins to run. -/
def called (r : Errand) : Executor :=
  r.before.log (.call r.id (r.before.nodeOf r.id).body.label r.callback)

/-- Make the call and do what comes after it. -/
def perform (r : Errand) : Executor :=
  match r.before.invoke r.id r.callback r.program with
  | (some a, e) => r.after a e
  | (none, e) => e

/-- What is done when the program has ended; a crash is a fault of the instance. -/
def conclude (r : Errand) : Except Crash r.Result × Executor → Executor
  | (.ok a, e) => r.after a e
  | (.error c, e) => e.raise r.id c.toError

theorem perform_eq (r : Errand) : r.perform = r.conclude (r.called.perform r.id r.program) := by
  unfold perform conclude Executor.invoke called
  dsimp only
  generalize Executor.perform _ r.id r.program = result
  obtain ⟨_ | a, e⟩ := result <;> rfl

end Errand

namespace Executor

variable {e e' e'' : Executor} {x p c : InstanceId} {o : OperationId} {f : Instance → Instance}
variable {i : Instance} {w : WorkItem} {r : Errand}

/-! ### What comes before a call -/

/-- A live parent has seen a completed child, which is gone. -/
def seen (e : Executor) (p c : InstanceId) (i : Instance) : Executor :=
  let e := (e.dropChild p c).release p 1
  if i.state = .closed then e.copyOutputs p i else e

/-- An instance that has run is canceling. -/
def canceling (e : Executor) (x : InstanceId) : Executor :=
  (e.modify x fun i => { i with cancelRequested := true, state := .canceling }).trackState x .canceling

/-- A value has come to a bookmark of an instance. -/
def resumed (e : Executor) (x : InstanceId) (b : Bookmark) (releases : Bool) : Executor :=
  (if releases then e.release x 1 else e).trackResumed b x

/-- An operation has completed for which an instance waited. -/
def completed (e : Executor) (o : OperationId) (x : InstanceId) : Executor :=
  release { e with operations := e.operations.erase o } x 1

/-- An executor goes on from another while nobody is called, nobody comes, nothing is queued and no
bookmark comes or goes. -/
structure Mild (e e' : Executor) : Prop where
  tends : ∀ P, Tends P e e'
  bookmarks : e'.bookmarks = e.bookmarks
  wanes : ∀ B, Wanes B e e'

namespace Mild

theorem refl (e : Executor) : Mild e e :=
  ⟨fun _ => .refl e, rfl, fun _ => .refl e⟩

theorem trans (h : Mild e e') (h' : Mild e' e'') : Mild e e'' :=
  ⟨fun P => (h.tends P).trans (h'.tends P), h'.bookmarks.trans h.bookmarks,
    fun B => (h.wanes B).trans (h'.wanes B)⟩

theorem modify (hf : ∀ i, (f i).node = i.node)
    (hs : ∀ i, (f i).HasCompleted → i.HasCompleted)
    (hw : ∀ i, e.instances[x]? = some i → (f i).Wanes i) :
    Mild e (e.modify x f) :=
  ⟨fun _ => .modify hf fun i h => .inl (hs i h), rfl, fun _ => .modify hw⟩

theorem erase (x : InstanceId) : Mild e { e with instances := e.instances.erase x } :=
  ⟨fun _ => .erase x, rfl, fun _ => .erase x⟩

theorem release (n : Nat) : Mild e (e.release x n) :=
  ⟨fun _ => .release n, rfl, fun _ => .release n⟩

theorem trackState (k : InstanceId) (s : ActivityState) : Mild e (e.trackState k s) :=
  ⟨fun _ => .trackState k s, (sameCore_trackState k s).bookmarks,
    fun _ => .of_sameCore (sameCore_trackState k s)⟩

theorem trackResumed (b : Bookmark) (owner : InstanceId) : Mild e (e.trackResumed b owner) :=
  ⟨fun _ => .trackResumed b owner, (sameCore_trackResumed b owner).bookmarks,
    fun _ => .of_sameCore (sameCore_trackResumed b owner)⟩

/-- Operations go. -/
theorem operations {operations : Std.ExtTreeMap OperationId InstanceId}
    (ho : ∀ {o : OperationId} {k : InstanceId}, operations[o]? = some k →
      e.operations[o]? = some k) : Mild e { e with operations } :=
  ⟨fun _ => .of_eq rfl rfl rfl rfl rfl rfl, rfl, fun _ => .drop ho⟩

theorem eraseOperation (o : OperationId) : Mild e { e with operations := e.operations.erase o } :=
  .operations fun hk => by
    rw [Table.lookup_erase] at hk
    split at hk
    · exact absurd hk.symm (Option.some_ne_none _)
    · exact hk

theorem foldl {α : Type} {g : Executor → α → Executor} (hg : ∀ e a, Mild e (g e a)) (l : List α) :
    Mild e (l.foldl g e) := by
  induction l generalizing e with
  | nil => exact refl e
  | cons a rest ih => exact (hg e a).trans ih

theorem abandonOperations : Mild e (e.abandonOperations x) := by
  have filtered : Mild e { e with operations := e.operations.filter fun _ o => o != x } :=
    .operations fun hk =>
      (Option.filter_eq_some_iff.mp ((Table.lookup_filter e.operations _ _) ▸ hk)).1
  exact filtered.trans (release _)

theorem recordResult (result : Option Value) : Mild e (e.recordResult x result) := by
  cases result with
  | none => exact refl e
  | some v => exact modify (fun _ => rfl) (fun _ h => h) fun _ _ => ⟨rfl, rfl, id, id⟩

theorem copyOutputs (c : Instance) : Mild e (e.copyOutputs p c) := by
  unfold Executor.copyOutputs
  refine foldl (fun e a => ?_) _
  split
  · split
    · exact modify (fun _ => rfl) (fun _ h => h) fun _ _ => ⟨rfl, rfl, id, id⟩
    · exact refl e
  · exact refl e

/-- A child that is seen is gone first. -/
theorem seen_erased (i : Instance) :
    Mild { e with instances := e.instances.erase c } (e.seen p c i) := by
  unfold Executor.seen
  have dropped : Mild { e with instances := e.instances.erase c } (e.dropChild p c) :=
    modify (f := fun r => { r with children := r.children.filter (· != c) }) (fun _ => rfl)
      (fun _ h => h) fun _ _ => ⟨rfl, rfl, id, id⟩
  have released := dropped.trans (release (x := p) 1)
  dsimp only
  split
  · exact released.trans (copyOutputs i)
  · exact released

theorem seen (i : Instance) : Mild e (e.seen p c i) :=
  (erase c).trans (seen_erased i)

theorem canceling (hi : e.instances[x]? = some i) (hl : i.state.isLive = true) :
    Mild e (e.canceling x) := by
  have asked : Mild e
      (e.modify x fun i => { i with cancelRequested := true, state := .canceling }) := by
    refine modify (fun _ => rfl) (fun i h => by rcases h with h | h <;> cases h) fun j hj => ?_
    cases hi.symm.trans hj
    exact ⟨rfl, rfl, fun _ => hl, id⟩
  exact asked.trans (trackState x .canceling)

theorem resumed (b : Bookmark) (releases : Bool) : Mild e (e.resumed x b releases) := by
  unfold Executor.resumed
  refine Mild.trans ?_ (trackResumed b x)
  split
  · exact release 1
  · exact refl e

theorem completed (o : OperationId) : Mild e (e.completed o x) :=
  (eraseOperation o).trans (release 1)

end Mild

/-! ### The errand of an item -/

/-- The body of an instance has run. -/
def hasRun (e : Executor) (x : InstanceId) : Executor :=
  (e.modify x fun i => { i with executed := true }).tryComplete x

/-- The first call of an instance. -/
def startErrand (e : Executor) (x : InstanceId) : Behaviour → Errand
  | .code program => ⟨x, .execute, program, e, fun result e => (e.recordResult x result).hasRun x⟩
  | .native body => ⟨x, .execute, body.execute, e, fun _ e => e.hasRun x⟩
  | .async body =>
    let (operation, e) := e.beginOperation x
    ⟨x, .start operation, body.start operation, e, fun _ e => e.hasRun x⟩

/-- The call with which an instance is asked to cancel. Code is not called. -/
def cancelErrand? (e : Executor) (x : InstanceId) : Behaviour → Option Errand
  | .code _ => none
  | .native body => some ⟨x, .cancel, body.cancel, e, fun _ e => e.tryComplete x⟩
  | .async body => some ⟨x, .cancel, body.cancel, e, fun _ e =>
      let agreed := (e.instance? x).any (·.markedCanceled)
      (if agreed then e.abandonOperations x else e).tryComplete x⟩

/-- A call after which the instance may complete. -/
def backErrand (e : Executor) (x : InstanceId) (callback : Callback)
    (program : Program .native Unit) : Errand :=
  ⟨x, callback, program, e, fun _ e => e.tryComplete x⟩

/-- The call that a parent gets about the fault of a child. -/
def faultErrand (e : Executor) (p c : InstanceId) (tag : CallbackTag) (f : Fault)
    (body : NativeBody) : Errand :=
  let node := ((e.instance? c).map (·.node)).getD f.sourceNode
  let context : FaultContext := ⟨f, c, node⟩
  ⟨p, .childFaulted tag context, body.childFaulted tag context, e, fun
    | .handled, e => e.enqueue (.completion p c)
    | .propagate, e => e.faultInstance p f⟩

/-- The last call of an asynchronous activity. -/
def finishErrand (e : Executor) (x : InstanceId) (v : Value) (body : AsyncBody) : Errand :=
  ⟨x, .finish v, body.finish v, e, fun result e => (e.recordResult x result).tryComplete x⟩

/-- The errand of an execution. -/
def executeErrand? (e : Executor) (x : InstanceId) : Option Errand :=
  match e.instance? x, e.behaviour? x with
  | some i, some behaviour =>
    if i.executed ∨ i.state ≠ .executing then none
    else some ((e.trackState x .executing).startErrand x behaviour)
  | _, _ => none

/-- The errand of a completion. -/
def completionErrand? (e : Executor) (p c : InstanceId) : Option Errand :=
  match e.instance? c with
  | none => none
  | some i =>
    if !isLive { e with instances := e.instances.erase c } p then none
    else
      match i.completionCallback, (e.seen p c i).nativeBody? p with
      | some tag, some body => some ((e.seen p c i).backErrand p
          (.childCompleted tag i.completed) (body.childCompleted tag i.completed))
      | _, _ => none

/-- The errand of a fault. -/
def faultErrand? (e : Executor) (p c : InstanceId) (tag : CallbackTag) (f : Fault) : Option Errand :=
  if !e.isLive p then none else (e.nativeBody? p).map (e.faultErrand p c tag f)

/-- The errand of a cancellation. -/
def cancellationErrand? (e : Executor) (x : InstanceId) : Option Errand :=
  match e.instance? x, e.behaviour? x with
  | some i, some behaviour =>
    if !i.state.isLive ∨ i.cancelRequested then none
    else if !i.executed then none
    else (e.canceling x).cancelErrand? x behaviour
  | _, _ => none

/-- The errand of a resumption. -/
def resumptionErrand? (e : Executor) (x : InstanceId) (b : Bookmark) (callback : Option CallbackTag)
    (v : Value) (releases : Bool) : Option Errand :=
  if !e.isLive x then none
  else
    match callback, (e.resumed x b releases).nativeBody? x with
    | some tag, some body => some ((e.resumed x b releases).backErrand x
        (.bookmarkResumed tag b v) (body.bookmarkResumed tag b v))
    | _, _ => none

/-- The errand of an operation that has completed. -/
def operationErrand? (e : Executor) (o : OperationId) (result : Except ActivityError Value) :
    Option Errand :=
  match e.operations[o]? with
  | none => none
  | some x =>
    if !isLive { e with operations := e.operations.erase o } x then none
    else
      match result, (e.completed o x).behaviour? x with
      | .ok v, some (.async body) => some ((e.completed o x).finishErrand x v body)
      | _, _ => none

/-- The errand of an item of work, if it calls somebody. -/
def errand? (e : Executor) : WorkItem → Option Errand
  | .execute x => e.executeErrand? x
  | .completion p c => e.completionErrand? p c
  | .fault p c tag f => e.faultErrand? p c tag f
  | .cancel x => e.cancellationErrand? x
  | .bookmark x b callback v releases => e.resumptionErrand? x b callback v releases
  | .operation o result => e.operationErrand? o result

/-! ### Items with an errand -/

/-- When an item has an errand, and which. -/
inductive Sends (e : Executor) : WorkItem → Errand → Prop
  /-- An instance runs for the first time. -/
  | execute {x : InstanceId} {i : Instance} {b : Behaviour} (hi : e.instance? x = some i)
      (hb : e.behaviour? x = some b) (hx : i.executed = false) (hs : i.state = .executing) :
      Sends e (.execute x) ((e.trackState x .executing).startErrand x b)
  /-- A child with a callback has completed, and its parent is live. -/
  | completion {p c : InstanceId} {i : Instance} {tag : CallbackTag} {body : NativeBody}
      (hi : e.instance? c = some i)
      (hl : isLive { e with instances := e.instances.erase c } p = true)
      (ht : i.completionCallback = some tag) (hb : (e.seen p c i).nativeBody? p = some body) :
      Sends e (.completion p c) ((e.seen p c i).backErrand p (.childCompleted tag i.completed)
        (body.childCompleted tag i.completed))
  /-- A fault has come to a live handler. -/
  | fault {p c : InstanceId} {tag : CallbackTag} {f : Fault} {body : NativeBody}
      (hl : e.isLive p = true) (hb : e.nativeBody? p = some body) :
      Sends e (.fault p c tag f) (e.faultErrand p c tag f body)
  /-- A live instance that has run is asked to cancel for the first time. -/
  | cancel {x : InstanceId} {i : Instance} {b : Behaviour} {r : Errand}
      (hi : e.instance? x = some i) (hb : e.behaviour? x = some b) (hl : i.state.isLive = true)
      (hc : i.cancelRequested = false) (hx : i.executed = true)
      (hr : (e.canceling x).cancelErrand? x b = some r) : Sends e (.cancel x) r
  /-- A value has come to a live instance for a bookmark with a callback. -/
  | bookmark {x : InstanceId} {b : Bookmark} {tag : CallbackTag} {v : Value} {releases : Bool}
      {body : NativeBody} (hl : e.isLive x = true)
      (hb : (e.resumed x b releases).nativeBody? x = some body) :
      Sends e (.bookmark x b (some tag) v releases) ((e.resumed x b releases).backErrand x
        (.bookmarkResumed tag b v) (body.bookmarkResumed tag b v))
  /-- An operation of a live instance has completed with a value. -/
  | operation {o : OperationId} {x : InstanceId} {v : Value} {body : AsyncBody}
      (ho : e.operations[o]? = some x)
      (hl : isLive { e with operations := e.operations.erase o } x = true)
      (hb : (e.completed o x).behaviour? x = some (.async body)) :
      Sends e (.operation o (.ok v)) ((e.completed o x).finishErrand x v body)

theorem executeErrand?_eq_some (h : e.executeErrand? x = some r) : Sends e (.execute x) r := by
  unfold executeErrand? at h
  split at h
  · next i b hi hb =>
    split at h
    · cases h
    · next hx =>
      cases h
      rw [not_or, not_not] at hx
      exact .execute hi hb (by simpa using hx.1) hx.2
  · cases h

theorem completionErrand?_eq_some (h : e.completionErrand? p c = some r) :
    Sends e (.completion p c) r := by
  unfold completionErrand? at h
  split at h
  · cases h
  · next i hi =>
    split at h
    · cases h
    · next hl =>
      split at h
      · next tag body ht hb =>
        cases h
        exact .completion hi (by simpa using hl) ht hb
      · cases h

theorem faultErrand?_eq_some {tag : CallbackTag} {f : Fault} (h : e.faultErrand? p c tag f = some r) :
    Sends e (.fault p c tag f) r := by
  unfold faultErrand? at h
  split at h
  · cases h
  · next hl =>
    obtain ⟨body, hb, rfl⟩ := Option.map_eq_some_iff.mp h
    exact .fault (by simpa using hl) hb

theorem cancellationErrand?_eq_some (h : e.cancellationErrand? x = some r) :
    Sends e (.cancel x) r := by
  unfold cancellationErrand? at h
  split at h
  · next i b hi hb =>
    split at h
    · cases h
    · next hl =>
      split at h
      · cases h
      · next hx =>
        rw [not_or] at hl
        exact .cancel hi hb (by simpa using hl.1) (by simpa using hl.2) (by simpa using hx) h
  · cases h

theorem resumptionErrand?_eq_some {b : Bookmark} {callback : Option CallbackTag} {v : Value}
    {releases : Bool} (h : e.resumptionErrand? x b callback v releases = some r) :
    Sends e (.bookmark x b callback v releases) r := by
  unfold resumptionErrand? at h
  split at h
  · cases h
  · next hl =>
    split at h
    · next tag body hb =>
      cases h
      exact .bookmark (by simpa using hl) hb
    · cases h

theorem operationErrand?_eq_some {result : Except ActivityError Value}
    (h : e.operationErrand? o result = some r) : Sends e (.operation o result) r := by
  unfold operationErrand? at h
  split at h
  · cases h
  · next x ho =>
    split at h
    · cases h
    · next hl =>
      split at h
      · next v body hb =>
        cases h
        exact .operation ho (by simpa using hl) hb
      · cases h

/-- Items have their errands. -/
theorem sends_of_errand (h : e.errand? w = some r) : Sends e w r := by
  cases w with
  | execute x => exact executeErrand?_eq_some h
  | completion p c => exact completionErrand?_eq_some h
  | fault p c tag f => exact faultErrand?_eq_some h
  | cancel x => exact cancellationErrand?_eq_some h
  | bookmark x b callback v releases => exact resumptionErrand?_eq_some h
  | operation o result => exact operationErrand?_eq_some h

/-! ### Errands are done -/

theorem callBack_eq (callback : Callback) (program : Program .native Unit) :
    e.callBack x callback program = (e.backErrand x callback program).perform := by
  unfold callBack Errand.perform backErrand
  dsimp only
  generalize e.invoke x callback program = result
  obtain ⟨_ | a, e'⟩ := result <;> rfl

/-- An instance that runs for the first time. -/
theorem startErrand_perform (b : Behaviour) : (e.startErrand x b).perform =
    match e.runBody x b with
    | (true, e) => e.hasRun x
    | (false, e) => e := by
  unfold Errand.perform startErrand runBody
  cases b with
  | code program =>
    dsimp only
    generalize e.invoke x .execute program = result
    obtain ⟨_ | a, e'⟩ := result <;> rfl
  | native body =>
    dsimp only
    generalize e.invoke x .execute body.execute = result
    obtain ⟨_ | a, e'⟩ := result <;> rfl
  | async body =>
    dsimp only
    generalize Executor.invoke _ x (.start _) _ = result
    obtain ⟨_ | a, e'⟩ := result <;> rfl

/-- An instance that is asked to cancel. -/
theorem cancelErrand?_perform {b : Behaviour} (h : e.cancelErrand? x b = some r) : r.perform =
    match e.runCancel x b with
    | (true, e) => e.tryComplete x
    | (false, e) => e := by
  unfold cancelErrand? at h
  unfold runCancel
  cases b with
  | code program => cases h
  | native body =>
    cases h
    unfold Errand.perform
    dsimp only
    generalize e.invoke x .cancel body.cancel = result
    obtain ⟨_ | a, e'⟩ := result <;> rfl
  | async body =>
    cases h
    unfold Errand.perform
    dsimp only
    generalize e.invoke x .cancel body.cancel = result
    obtain ⟨_ | a, e'⟩ := result
    · rfl
    · simp

/-- An item with an errand does the errand. -/
theorem dispatch_of_sends (h : Sends e w r) : e.dispatch w = r.perform := by
  cases h with
  | execute hi hb hx hs =>
    change e.executeActivity _ = _
    unfold executeActivity
    rw [startErrand_perform, hi, hb]
    dsimp only
    rw [if_neg (by simp [hx, hs])]
    rfl
  | completion hi hl ht hb =>
    change e.deliverCompletion _ _ = _
    unfold deliverCompletion
    rw [hi]
    dsimp only
    rw [hl, ht]
    unfold seen dropChild at hb ⊢
    dsimp only at hb ⊢
    rw [hb]
    exact callBack_eq _ _
  | fault hl hb =>
    change e.deliverFault _ _ _ _ = _
    unfold deliverFault
    rw [hl, hb]
    unfold Errand.perform faultErrand
    dsimp only
    generalize Executor.invoke _ _ (.childFaulted _ _) _ = result
    obtain ⟨_ | _ | _, e'⟩ := result <;> rfl
  | cancel hi hb hl hc hx hr =>
    change e.cancelInstance _ = _
    unfold cancelInstance
    rw [cancelErrand?_perform hr, hi, hb]
    dsimp only
    rw [if_neg (by simp [hl, hc]), if_neg (by simp [hx])]
    rfl
  | bookmark hl hb =>
    change e.deliverResumption _ _ _ _ _ = _
    unfold deliverResumption
    rw [hl]
    unfold resumed at hb ⊢
    dsimp only
    rw [hb]
    exact callBack_eq _ _
  | operation ho hl hb =>
    change e.completeOperation _ _ = _
    unfold completeOperation
    rw [ho]
    dsimp only
    rw [hl]
    unfold completed at hb ⊢
    rw [hb]
    unfold Errand.perform finishErrand
    dsimp only
    generalize Executor.invoke _ _ (.finish _) _ = result
    obtain ⟨_ | a, e'⟩ := result <;> rfl

/-! ### What is done without a call -/

/-- A completion for which nobody is called. -/
theorem deliverCompletion_cases (h : e.completionErrand? p c = none) :
    (e.deliverCompletion p c = e ∧ e.instances[c]? = none) ∨
      e.deliverCompletion p c = { e with instances := e.instances.erase c } ∨
      ∃ i, e.deliverCompletion p c = (e.seen p c i).tryComplete p := by
  unfold completionErrand? at h
  unfold deliverCompletion
  cases hi : e.instance? c with
  | none => exact .inl ⟨rfl, hi⟩
  | some i =>
    rw [hi] at h
    dsimp only at h ⊢
    split
    · exact .inr (.inl rfl)
    · next hl =>
      refine .inr (.inr ⟨i, ?_⟩)
      rw [if_neg hl] at h
      change (match i.completionCallback, (e.seen p c i).nativeBody? p with
        | some tag, some body => _
        | _, _ => (e.seen p c i).tryComplete p) = _
      cases ht : i.completionCallback with
      | none => rfl
      | some tag =>
        cases hb : (e.seen p c i).nativeBody? p with
        | none => rfl
        | some body => simp [ht, hb] at h

/-- What may be done when nobody is called: small changes, then at most one instance completes or
faults, or a fault that was handled is taken for a completion. -/
inductive Concludes (e : Executor) : Executor → Prop
  | rests {m : Executor} (h : Mild e m) : Concludes e m
  | completes {m : Executor} (h : Mild e m) (x : InstanceId) : Concludes e (m.completeInstance x)
  | faults {m : Executor} (h : Mild e m) (x : InstanceId) (f : Fault) :
      Concludes e (m.faultInstance x f)
  | hands (p c : InstanceId) : Concludes e (e.enqueue (.completion p c))

namespace Concludes

theorem tries {m : Executor} (h : Mild e m) (x : InstanceId) : Concludes e (m.tryComplete x) := by
  unfold tryComplete
  split
  · exact completes h x
  · exact rests h

theorem raises {m : Executor} (h : Mild e m) (x : InstanceId) (error : ActivityError) :
    Concludes e (m.raise x error) := by
  unfold raise
  split
  · exact rests h
  · exact faults h x _

/-- Items may arrive, and nobody is called but abort hooks. The items tell of the completion of at most
one instance. -/
theorem tends_only (h : Concludes e e') : ∃ x, Tends (e'.Only x) e e' := by
  cases h with
  | rests h => exact ⟨e.root, h.tends _⟩
  | completes h x => exact ⟨x, (h.tends _).trans (.completeInstance _)⟩
  | faults h x f => exact ⟨x, (h.tends _).trans (.faultInstance f)⟩
  | hands p c => exact ⟨c, .enqueue (only_completion _ _ _)⟩

theorem tends (h : Concludes e e') : Tends e'.Sane e e' := by
  obtain ⟨x, tends⟩ := h.tends_only
  exact tends.mono fun _ ha => ha.sane

/-- No bookmark is new. -/
theorem sheds (h : Concludes e e') : Sheds e e' := by
  cases h with
  | rests h => exact .of_eq (by rw [h.bookmarks])
  | completes h x =>
    have same : Sheds e _ := .of_eq (by rw [h.bookmarks])
    exact same.trans .completeInstance
  | faults h x f =>
    have same : Sheds e _ := .of_eq (by rw [h.bookmarks])
    exact same.trans (.propagate _ f)
  | hands p c => exact .of_eq rfl

/-- Nobody comes. -/
theorem wanes {B : InstanceId → Prop} (h : Concludes e e') : Wanes B e e' := by
  cases h with
  | rests h => exact h.wanes B
  | completes h x => exact (h.wanes B).trans .completeInstance
  | faults h x f => exact (h.wanes B).trans (.faultInstance f)
  | hands p c => exact .of_eq rfl rfl rfl rfl

theorem executeActivity (h : e.executeErrand? x = none) : Concludes e (e.executeActivity x) := by
  unfold executeErrand? at h
  unfold Executor.executeActivity
  split
  · next hi hb =>
    rw [hi, hb] at h
    dsimp only at h
    split at h
    · next hx =>
      rw [if_pos hx]
      exact rests (.refl e)
    · cases h
  · exact rests (.refl e)

theorem deliverCompletion (h : e.completionErrand? p c = none) :
    Concludes e (e.deliverCompletion p c) := by
  rcases deliverCompletion_cases h with ⟨hd, -⟩ | hd | ⟨i, hd⟩
  · exact hd.symm ▸ rests (.refl e)
  · exact hd.symm ▸ rests (.erase c)
  · exact hd.symm ▸ tries (.seen i) p

theorem deliverFault {tag : CallbackTag} {f : Fault} (h : e.faultErrand? p c tag f = none) :
    Concludes e (e.deliverFault p c tag f) := by
  unfold faultErrand? at h
  unfold Executor.deliverFault
  split at h
  · next hl =>
    rw [if_pos hl]
    exact rests (.refl e)
  · next hl =>
    rw [if_neg hl, Option.map_eq_none_iff.mp h]
    exact faults (.refl e) p f

theorem cancelInstance (h : e.cancellationErrand? x = none) : Concludes e (e.cancelInstance x) := by
  unfold cancellationErrand? at h
  unfold Executor.cancelInstance
  split
  · next i b hi hb =>
    rw [hi, hb] at h
    dsimp only at h
    split
    · exact rests (.refl e)
    · next hl =>
      rw [if_neg hl] at h
      split
      · have asked : Mild e (e.modify x fun i =>
            { i with cancelRequested := true, executed := true, markedCanceled := true }) :=
          .modify (fun _ => rfl) (fun _ h => h) fun _ _ => ⟨rfl, rfl, id, fun _ => rfl⟩
        exact completes asked x
      · next hx =>
        rw [if_neg hx] at h
        have live : i.state.isLive = true := by
          simp only [Bool.not_eq_true', not_or, Bool.not_eq_false] at hl
          exact hl.1
        cases b with
        | code program => exact tries (.canceling hi live) x
        | native body => cases h
        | async body => cases h
  · exact rests (.refl e)

theorem deliverResumption {b : Bookmark} {callback : Option CallbackTag} {v : Value} {releases : Bool}
    (h : e.resumptionErrand? x b callback v releases = none) :
    Concludes e (e.deliverResumption x b callback v releases) := by
  unfold resumptionErrand? at h
  unfold Executor.deliverResumption
  split at h
  · next hl =>
    rw [if_pos hl]
    exact rests (.refl e)
  · next hl =>
    have tried : Concludes e ((e.resumed x b releases).tryComplete x) := tries (.resumed b releases) x
    rw [if_neg hl]
    cases callback with
    | none => exact tried
    | some tag =>
      cases hb : (e.resumed x b releases).nativeBody? x with
      | some body => simp [hb] at h
      | none =>
        unfold Executor.resumed at hb
        dsimp only
        rw [hb]
        exact tried

theorem completeOperation {result : Except ActivityError Value}
    (h : e.operationErrand? o result = none) : Concludes e (e.completeOperation o result) := by
  unfold operationErrand? at h
  unfold Executor.completeOperation
  split
  · exact rests (.refl e)
  · next x ho =>
    rw [ho] at h
    dsimp only at h ⊢
    split
    · exact rests (.eraseOperation _)
    · next hl =>
      rw [if_neg hl] at h
      cases result with
      | error error => exact raises (.completed o) x error
      | ok v =>
        split
        · next hn => cases hn
        · next body _ hb =>
          have async : (e.completed o x).behaviour? x = some (.async body) := hb
          simp [async] at h
        · exact rests (.completed o)

/-- An item without an errand calls nobody but abort hooks. -/
theorem dispatch (h : e.errand? w = none) : Concludes e (e.dispatch w) := by
  cases w with
  | execute x => exact executeActivity h
  | completion p c => exact deliverCompletion h
  | fault p c tag f => exact deliverFault h
  | cancel x => exact cancelInstance h
  | bookmark x b callback v releases => exact deliverResumption h
  | operation o result => exact completeOperation h

end Concludes

/-! ### Before and after a call -/

/-- What precedes the call of an errand: small changes, and an operation if the call starts one. -/
inductive Prepares (e : Executor) (r : Errand) : Prop
  | ready (h : Mild e r.before) (hr : ∀ o, r.callback ≠ .start o)
  | begins {m : Executor} (h : Mild e m) (hb : r.before = (m.beginOperation r.id).2)
      (hr : r.callback = .start ⟨m.nextOperation⟩)

namespace Prepares

/-- Nobody is called before the call of an errand. -/
theorem tends (h : Prepares e r) (P : QueuedItem → Prop) : Tends P e r.before := by
  cases h with
  | ready h => exact h.tends P
  | begins h hb =>
    rw [hb]
    exact (h.tends P).trans (.of_modified (k := r.id) (f := Instance.incrementBusy) (fun _ => rfl)
      rfl rfl rfl rfl rfl rfl)

theorem bookmarks (h : Prepares e r) : r.before.bookmarks = e.bookmarks := by
  cases h with
  | ready h => exact h.bookmarks
  | begins h hb =>
    rw [hb]
    exact h.bookmarks

/-- Only an instance that is started begins an operation. -/
theorem wanes {B : InstanceId → Prop} (h : Prepares e r)
    (hB : ∀ o, r.callback = .start o → B r.id) : Wanes B e r.before := by
  cases h with
  | ready h => exact h.wanes B
  | begins h hb hr =>
    rw [hb]
    exact (h.wanes B).trans (.beginOperation (hB _ hr))

end Prepares

namespace Sends

theorem before (h : Sends e w r) : Prepares e r := by
  cases h with
  | @execute x i b hi hb hx hs =>
    have tracked : Mild e (e.trackState x .executing) := .trackState x .executing
    cases b with
    | code program | native body => exact .ready tracked nofun
    | async body => exact .begins tracked rfl rfl
  | @completion _ _ i => exact .ready (.seen i) nofun
  | fault => exact .ready (.refl e) nofun
  | @cancel x i b r hi hb hl hc hx hr =>
    cases b with
    | code program => cases hr
    | native body | async body =>
      cases hr
      exact .ready (.canceling hi hl) nofun
  | @bookmark _ b _ _ releases => exact .ready (.resumed b releases) nofun
  | @operation o => exact .ready (.completed o) nofun

/-- Nobody is called after the call of an errand but abort hooks. -/
theorem after (h : Sends e w r) (a : r.Result) (m : Executor) : Concludes m (r.after a m) := by
  have ran {x : InstanceId} {m' : Executor} (h : Mild m m') : Concludes m (m'.hasRun x) := by
    have marked : Mild m' (m'.modify x fun i => { i with executed := true }) :=
      .modify (fun _ => rfl) (fun _ h => h) fun _ _ => ⟨rfl, rfl, id, fun _ => rfl⟩
    exact .tries (h.trans marked) x
  cases h with
  | @execute x i b hi hb hx hs =>
    cases b with
    | code program => exact ran (.recordResult a)
    | native body | async body => exact ran (.refl m)
  | completion | bookmark => exact .tries (.refl m) _
  | @fault p c tag f =>
    cases a with
    | handled => exact .hands p c
    | propagate => exact .faults (.refl m) p f
  | @cancel x i b r hi hb hl hc hx hr =>
    cases b with
    | code program => cases hr
    | native body =>
      cases hr
      exact .tries (.refl m) x
    | async body =>
      cases hr
      refine .tries ?_ x
      split
      · exact .abandonOperations
      · exact .refl m
  | operation => exact .tries (.recordResult a) _

/-- No errand calls an abort hook. -/
theorem not_abort (h : Sends e w r) : r.callback.isAbort = false := by
  cases h with
  | @execute x i b => cases b <;> rfl
  | @cancel x i b r hi hb hl hc hx hr =>
    cases b with
    | code program => cases hr
    | native body | async body =>
      cases hr
      rfl
  | _ => rfl

end Sends

/-! ### The instance that is called -/

/-- While a program is performed for a live instance, only the instance and its children may be
exempt. -/
structure Running (X : InstanceId → Prop) (x : InstanceId) (e : Executor) : Prop where
  consistent : e.Consistent X
  self : X x
  live : e.isLive x = true
  near : ∀ {k : InstanceId}, X k → k = x ∨ ∃ i, e.instances[k]? = some i ∧ i.parent = some x

namespace Running

variable {X : InstanceId → Prop}

/-- Only the instance is exempt. -/
theorem alone (h : e.Consistent (· = x)) (hl : e.isLive x = true) : Running (· = x) x e :=
  ⟨h, rfl, hl, only_self⟩

theorem follows (h : Running X x e) (hf : Follows e X e') : Running X x e' where
  consistent := hf.consistent
  self := h.self
  live := hf.extension.isLive h.live
  near hk := (h.near hk).imp_right fun ⟨i, hi, hp⟩ => by
    obtain ⟨j, hj, -, hjp, -⟩ := hf.extension.keeps hi
    exact ⟨j, hj, hjp.trans hp⟩

/-- Answers do not end it. -/
theorem answer {k : BodyKind} (h : Running X x e) (q : Request k) : Running X x (e.answer x q).2 :=
  h.follows (.answer h.consistent h.self h.live q)

end Running

variable {q : WorkQueue}

/-- An item that is taken from the queue calls a live instance. -/
theorem Sends.running (hs : Sends { e with queue := q } w r) (h : e.Consistent Nobody)
    (hq : e.queue.work = w :: q.work) : ∃ X, Running X r.id r.before := by
  cases hs with
  | @execute x i b hi hb hx hs =>
    have hi : e.instances[x]? = some i := hi
    have hl : i.state.isLive = true := by
      rw [hs]
      rfl
    have hc : Consistent { e with queue := q } (· = x) := h.pop_execute hq hi hl
    have started : Running (· = x) x { e with queue := q } := .alone hc (isLive_iff.mpr ⟨i, hi, hl⟩)
    have core := sameCore_trackState (e := { e with queue := q }) x .executing
    have tracked := started.follows (.of_sameCore started.consistent core)
    have runs : (trackState { e with queue := q } x .executing).behaviour? x = some b := by
      rw [behaviour?, instance?, core.instances, core.definition]
      exact hb
    cases b with
    | code program | native body => exact ⟨_, tracked⟩
    | async body =>
      refine ⟨_, tracked.follows (.beginOperation tracked.consistent rfl tracked.live ?_)⟩
      rw [Body.kind, behaviour_eq runs]
      rfl
  | @completion p c i tag body hi hl ht hb =>
    obtain ⟨r, leaving⟩ := h.leaving hq hi
    have dropped := leaving.dropped
    obtain ⟨s, hs, hss, -⟩ := lookup_dropChild_release leaving.parent leaving.ne
    have live : isLive (release (dropChild { e with queue := q } p c) p 1) p = true :=
      isLive_iff.mpr ⟨s, hs, hss ▸ leaving.live⟩
    have seen := Running.alone dropped live
    refine ⟨(· = p), ?_⟩
    change Running _ p (Executor.seen _ p c i)
    unfold Executor.seen
    dsimp only
    split
    · exact seen.follows (.copyOutputs seen.consistent i)
    · exact seen
  | @fault p c tag f body hl hb =>
    have hw : WorkItem.fault p c tag f ∈ e.queue.work := by
      rw [hq]
      exact List.mem_cons_self
    obtain ⟨-, -, hterm, hthere⟩ := h.placed.reported hw rfl
    obtain ⟨i, hi⟩ := hthere hl
    obtain ⟨s, hs, hsl⟩ := isLive_iff.mp hl
    refine ⟨_, h.pop_fault hq hs hsl, .inl rfl, hl, ?_⟩
    rintro k (rfl | rfl)
    · exact .inl rfl
    · exact .inr ⟨i, hi, (hterm i hi).2⟩
  | @cancel x i b r hi hb hl hc hx hr =>
    have popped : Consistent { e with queue := q } Nobody :=
      h.pop_plain hq rfl (fun _ hw => WorkItem.noConfusion hw) fun _ => rfl
    obtain ⟨hc, -, j, hj, hjl, -⟩ := popped.canceling hi hl hx rfl
    have asked : Running (· = x) x (canceling { e with queue := q } x) :=
      .alone hc (isLive_iff.mpr ⟨j, hj, hjl⟩)
    cases b with
    | code program => cases hr
    | native body | async body =>
      cases hr
      exact ⟨_, asked⟩
  | @bookmark x b tag v releases body hl hb =>
    have hc := h.pop_resumption hq hl
    obtain ⟨i, hi, hil⟩ := isLive_iff.mp hl
    obtain ⟨j, hj, hjs, -⟩ := lookup_resumed (q := q) hi releases
    have released := Running.alone hc (isLive_iff.mpr ⟨j, hj, hjs ▸ hil⟩)
    exact ⟨_, released.follows (.of_sameCore released.consistent (sameCore_trackResumed b x))⟩
  | @operation o x v body ho hl hb =>
    have popped : Consistent { e with queue := q } Nobody :=
      h.pop_plain hq rfl (fun _ hw => WorkItem.noConfusion hw) fun _ => rfl
    have waiting := Running.alone (popped.exempt hl) hl
    exact ⟨_, waiting.follows (.eraseOperation waiting.consistent hl ho)⟩

end Executor

end Workflow
