import Workflow.Proofs.Conduct
import Workflow.Proofs.Conversation
import Workflow.Proofs.Moment
import Workflow.Proofs.PatientRun

/-!
# Handles of operations

A handle is good as long as the executor that gave it out is in memory, whatever becomes of the
workflow: while it works or waits, when it has completed, and when it was aborted. To use it posts one
message. When the executor has been dropped, or another one has taken its place, the handle is good for
nothing, and no later executor takes it.
-/

namespace Workflow

/-! ### The mailbox of an executor -/

theorem Guise.mailbox_announce (g : Guise) (w : WorkflowId) (root : Option TrackingEvent) :
    (g.announce w root).mailbox = g.mailbox := by
  unfold announce
  split
  · rfl
  · split
    · cases root <;> rfl
    · rfl

/-- The two are the same, with a given mailbox. -/
def Bond.ofMailbox (b : Nat) : Bond where
  holds _ g g' := g.mailbox = b ∧ g' = g
  lanes h := by rw [h.2]
  emit h _ := ⟨h.1, by rw [h.2]⟩
  announce h root := ⟨(Guise.mailbox_announce _ _ root).trans h.1, by rw [h.2]⟩
  push h _ _ := ⟨h.1, by rw [h.2]⟩
  pop {w g g' item q q'} h hq hq' := by
    rw [h.2, hq] at hq'
    cases hq'
    exact ⟨h.1, by rw [h.2]⟩
  clear h := ⟨h.1, by rw [h.2]⟩

namespace Executor

variable {e r : Executor} {b : Nat}

theorem Bonded.mailbox (h : Bonded (.ofMailbox b) e r) : e.mailbox = b := by
  obtain ⟨g, ⟨hb, -⟩, -⟩ := h
  exact hb

theorem bonded_ofMailbox (e : Executor) : Bonded (.ofMailbox e.mailbox) e e :=
  ⟨e.guise, ⟨rfl, rfl⟩, rfl⟩

/-- What leads bonded executors to bonded executors leaves the mailbox. -/
theorem mailbox_of_bonded {f : Executor → Executor}
    (hf : ∀ {B : Bond} {e r : Executor}, Bonded B e r → Bonded B (f e) (f r)) (e : Executor) :
    (f e).mailbox = e.mailbox :=
  (hf e.bonded_ofMailbox).mailbox

/-- What leads them to the same answers does so too. -/
theorem mailbox_of_accord {α : Type} {f : Executor → α × Executor}
    (hf : ∀ {B : Bond} {e r : Executor}, Bonded B e r → Accord B (f e) (f r)) (e : Executor) :
    (f e).2.mailbox = e.mailbox :=
  (hf e.bonded_ofMailbox).2.mailbox

theorem mailbox_serve (e : Executor) (c : ExecutorCall) : (c.serve e).2.mailbox = e.mailbox := by
  cases hc : c.attaches with
  | false => exact mailbox_of_accord (f := c.serve) (fun h => h.serve hc) e
  | true =>
    cases c with
    | withTracking t => rfl
    | _ => cases hc

theorem mailbox_save (store : Store) (s : Surroundings) (owner : OwnerId) (unlock : Bool) :
    (e.save store s owner unlock).2.1.mailbox = e.mailbox := by
  unfold Executor.save
  split
  · rfl
  · dsimp only
    split
    · rfl
    · split <;> rfl

end Executor

theorem HostOperation.mailbox_after (e : Executor) (op : HostOperation) :
    (op.after e).mailbox = e.mailbox := by
  cases op with
  | call c => exact e.mailbox_serve c
  | capture now => rfl
  | save store s owner unlock => exact Executor.mailbox_save store s owner unlock

theorem HostOperation.mailbox_afterAll (e : Executor) (ops : List HostOperation) :
    (afterAll e ops).mailbox = e.mailbox := by
  induction ops generalizing e with
  | nil => rfl
  | cons op rest ih => exact (ih _).trans (op.mailbox_after e)

namespace Executor

theorem mailbox_tryComplete (e : Executor) (x : InstanceId) : (e.tryComplete x).mailbox = e.mailbox :=
  mailbox_of_bonded (f := (·.tryComplete x)) (fun h => h.tryComplete x) e

theorem mailbox_recordResult (e : Executor) (x : InstanceId) (result : Option Value) :
    (e.recordResult x result).mailbox = e.mailbox :=
  mailbox_of_bonded (f := (·.recordResult x result)) (fun h => h.recordResult x result) e

theorem mailbox_trackState (e : Executor) (x : InstanceId) (s : ActivityState) :
    (e.trackState x s).mailbox = e.mailbox :=
  mailbox_of_bonded (f := (·.trackState x s)) (fun h => h.trackState x s) e

end Executor

variable {e : Executor} {w : WorkItem} {r : Errand} {x : InstanceId} {behaviour : Behaviour}

/-- An errand begins with a mailbox, and what is done after its call leaves the mailbox. -/
structure Errand.Stays (r : Errand) (b : Nat) : Prop where
  before : r.before.mailbox = b
  after : ∀ a e, (r.after a e).mailbox = e.mailbox

namespace Executor

theorem stays_startErrand (e : Executor) (x : InstanceId) (behaviour : Behaviour) :
    (e.startErrand x behaviour).Stays e.mailbox := by
  have ran : ∀ m : Executor, (m.hasRun x).mailbox = m.mailbox := fun m => mailbox_tryComplete _ x
  cases behaviour with
  | code program => exact ⟨rfl, fun result m => (ran _).trans (mailbox_recordResult m x result)⟩
  | native body => exact ⟨rfl, fun _ m => ran m⟩
  | async body => exact ⟨rfl, fun _ m => ran m⟩

theorem stays_cancelErrand (h : e.cancelErrand? x behaviour = some r) : r.Stays e.mailbox := by
  cases behaviour with
  | code program => cases h
  | native body =>
    cases h
    exact ⟨rfl, fun _ m => mailbox_tryComplete m x⟩
  | async body =>
    cases h
    refine ⟨rfl, fun _ m => ?_⟩
    dsimp only
    split
    · exact mailbox_tryComplete (m.abandonOperations x) x
    · exact mailbox_tryComplete m x

theorem stays_backErrand (e : Executor) (x : InstanceId) (callback : Callback)
    (program : Program .native Unit) : (e.backErrand x callback program).Stays e.mailbox :=
  ⟨rfl, fun _ m => mailbox_tryComplete m x⟩

/-- The errand of an item leaves the mailbox. -/
theorem Sends.stays (h : Sends e w r) : r.Stays e.mailbox := by
  cases h with
  | @execute x i behaviour =>
    have tracked : (e.trackState x .executing).mailbox = e.mailbox := mailbox_trackState e x _
    exact tracked ▸ stays_startErrand _ x behaviour
  | @completion p c i tag body =>
    have copied : (e.seen p c i).mailbox = e.mailbox := by
      unfold seen
      dsimp only
      split
      · exact mailbox_of_bonded (f := (·.copyOutputs p i)) (fun h => h.copyOutputs p i) _
      · rfl
    exact copied ▸ stays_backErrand _ p _ _
  | @fault p c tag f body =>
    refine ⟨rfl, fun handling m => ?_⟩
    cases handling with
    | handled => rfl
    | propagate => exact mailbox_of_bonded (f := (·.faultInstance p f)) (fun h => h.faultInstance p f) m
  | @cancel x i behaviour r _ _ _ _ _ hr =>
    have asked : (e.canceling x).mailbox = e.mailbox := mailbox_trackState _ x _
    exact asked ▸ stays_cancelErrand hr
  | @bookmark x b tag v releases body =>
    have resumed : (e.resumed x b releases).mailbox = e.mailbox := by
      have tracked (m : Executor) : (m.trackResumed b x).mailbox = m.mailbox :=
        mailbox_of_bonded (f := (·.trackResumed b x)) (fun h => h.trackResumed b x) m
      unfold resumed
      refine (tracked _).trans ?_
      split <;> rfl
    exact resumed ▸ stays_backErrand _ x _ _
  | @operation o x v body =>
    refine ⟨rfl, fun result m => ?_⟩
    exact (mailbox_tryComplete _ x).trans (mailbox_recordResult m x result)

end Executor

/-- A moment at which the executor has a mailbox, and what is left of an errand leaves it. -/
def Moment.Stays (b : Nat) : Moment → Prop
  | between e => e.mailbox = b
  | during r e _ => e.mailbox = b ∧ ∀ a m, (r.after a m).mailbox = m.mailbox

theorem Moment.Stays.mailbox {m : Moment} {b : Nat} (h : m.Stays b) : m.executor.mailbox = b := by
  cases m with
  | between e => exact h
  | during r e rest => exact h.1

variable {m m' : Moment} {ev : Event} {evs : List Event} {b : Nat}

/-- From moment to moment the executor has the same mailbox. -/
theorem Goes.stays (g : Goes m ev m') (h : m.Stays b) : m'.Stays b := by
  cases g with
  | announced e => exact (Executor.mailbox_of_bonded (fun h => h.announce) e).trans h
  | @settled e => exact (Executor.mailbox_of_accord (fun h => h.settle) e).trans h
  | @served e c => exact (e.mailbox_serve c).trans h
  | entered | gathered | collected | hosted | altered => exact h
  | @passed e a q =>
    exact (Executor.mailbox_of_bonded (f := (·.dispatch a.item)) (fun h => h.dispatch a.item) _).trans h
  | opened _ _ _ _ hr =>
    have stays := (Executor.sends_of_errand hr).stays
    exact ⟨stays.before.trans h, stays.after⟩
  | @answered r e q =>
    have answered : (e.answer r.id q).2.mailbox = e.mailbox :=
      Executor.mailbox_of_accord (f := (·.answer r.id q)) (fun h => h.answer r.id q) e
    exact ⟨answered.trans h.1, h.2⟩
  | @closed r e a => exact (h.2 a e).trans h.1
  | @crashed r e c =>
    exact (Executor.mailbox_of_bonded (f := (·.raise r.id c.toError)) (fun h => h.raise _ _) e).trans h.1

theorem Journey.stays (t : Journey m evs m') (h : m.Stays b) : m'.Stays b := by
  induction t with
  | refl => exact h
  | step g _ ih => exact ih (g.stays h)

namespace Host

open HostOperation (afterAll)

variable {h i h' : Host} {e : Executor} {k : OperationHandle} {react : React} {m n : Nat}

/-! ### Executors that come and go -/

/-- How many executors are in memory. -/
def loaded (h : Host) : Nat :=
  if h.application.isLoaded then 1 else 0

/-- What may happen to the application of a host, with the number of executors that are gone then. -/
inductive Fares : Host → Nat → Host → Prop
  /-- One thing happens after another. -/
  | andThen {h i h' : Host} {m n : Nat} (first : Fares h m i) (second : Fares i n h') :
      Fares h (m + n) h'
  /-- Something happens elsewhere, where mailboxes may be made. -/
  | aside {h h' : Host} (ha : h'.application = h.application)
      (hm : h.mailboxCount ≤ h'.mailboxCount) : Fares h 0 h'
  /-- The completion counts as reported. -/
  | noted (h : Host) : Fares h 0 (h.withApplication fun a => { a with completionReported := true })
  /-- The executor is used and kept: it is run, aborted or saved, for example. -/
  | used {h : Host} {e : Executor} (ops : List HostOperation) (he : h.application.executor = some e) :
      Fares h 0 (h.keep (afterAll (h.ready e) ops))
  /-- The executor is dropped, if there is one. -/
  | dropped (h : Host) : Fares h h.loaded (h.withApplication (·.dropExecutor))
  /-- An executor with a new mailbox comes, in the place of the one that was there, if there was one. -/
  | adopted {h h' : Host} (e : Executor) (ha : h'.application = h.application.adopt e)
      (old : h.mailboxCount ≤ e.mailbox) (new : e.mailbox < h'.mailboxCount) : Fares h h.loaded h'

/-- While the executor stays, none is gone. -/
theorem staying_fares : Staying fun h h' => Fares h 0 h' where
  trans first second := .andThen first second
  aside := .aside
  noted := .noted
  used ops he _ := .used ops he

/-- Whatever happens, some number of executors are gone then. -/
theorem lasting_fares : Lasting fun h h' => ∃ n, Fares h n h' where
  trans := by
    rintro h i h' ⟨m, first⟩ ⟨n, second⟩
    exact ⟨m + n, .andThen first second⟩
  aside ha hm := ⟨0, .aside ha hm⟩
  noted h := ⟨0, .noted h⟩
  used ops he _ := ⟨0, .used ops he⟩
  dropped h := ⟨_, .dropped h⟩
  adopted e _ ha old new := ⟨_, .adopted e ha old new⟩

/-- The executor in memory has a mailbox. -/
def HasMailbox (h : Host) (b : Nat) : Prop :=
  ∃ e, h.application.executor = some e ∧ e.mailbox = b

/-- The mailbox of the executor in memory has been made. -/
def Counted (h : Host) : Prop :=
  ∀ b, h.HasMailbox b → b < h.mailboxCount

theorem HasMailbox.loaded {b : Nat} (hb : h.HasMailbox b) : h.loaded = 1 := by
  obtain ⟨e, he, -⟩ := hb
  rw [Host.loaded, Application.isLoaded, he]
  rfl

theorem hasMailbox_of_application {b : Nat} (ha : h'.application = h.application) :
    h'.HasMailbox b ↔ h.HasMailbox b := by
  rw [HasMailbox, HasMailbox, ha]

theorem hasMailbox_keep (he : h.application.executor = some e) (ops : List HostOperation) {b : Nat} :
    (h.keep (afterAll (h.ready e) ops)).HasMailbox b ↔ h.HasMailbox b := by
  have same : (kept (afterAll (h.ready e) ops)).mailbox = e.mailbox :=
    HostOperation.mailbox_afterAll (h.ready e) ops
  constructor
  · rintro ⟨k, hk, rfl⟩
    rw [executor_keep] at hk
    cases hk
    exact ⟨e, he, same.symm⟩
  · rintro ⟨k, hk, rfl⟩
    cases he.symm.trans hk
    exact ⟨_, executor_keep h _, same⟩

theorem hasMailbox_adopt (ha : h'.application = h.application.adopt e) {b : Nat} :
    h'.HasMailbox b ↔ b = e.mailbox := by
  rw [HasMailbox, ha]
  constructor
  · rintro ⟨k, hk, rfl⟩
    cases hk
    rfl
  · rintro rfl
    exact ⟨_, rfl, rfl⟩

theorem not_hasMailbox_drop (h : Host) (b : Nat) :
    ¬ (h.withApplication (·.dropExecutor)).HasMailbox b := by
  rintro ⟨k, hk, -⟩
  cases hk

namespace Fares

theorem mailboxCount_le (f : Fares h n h') : h.mailboxCount ≤ h'.mailboxCount := by
  induction f with
  | andThen _ _ first second => exact Nat.le_trans first second
  | aside _ hm => exact hm
  | noted _ | used _ _ | dropped _ => exact Nat.le_refl _
  | adopted _ _ old new => exact Nat.le_trans old (Nat.le_of_lt new)

/-- The mailbox of every executor that is there has been made. -/
theorem counted (f : Fares h n h') (hc : h.Counted) : h'.Counted := by
  induction f with
  | andThen _ _ first second => exact second (first hc)
  | aside ha hm =>
    intro b hb
    exact Nat.lt_of_lt_of_le (hc b ((hasMailbox_of_application ha).mp hb)) hm
  | noted h => exact hc
  | used ops he => exact fun b hb => hc b ((hasMailbox_keep he ops).mp hb)
  | dropped h => exact fun b hb => absurd hb (not_hasMailbox_drop h b)
  | adopted e ha old new =>
    intro b hb
    rw [(hasMailbox_adopt ha).mp hb]
    exact new

/-- No later executor has the mailbox of one that is gone. -/
theorem gone (f : Fares h n h') {b : Nat} (hb : b < h.mailboxCount) (hg : ¬ h.HasMailbox b) :
    ¬ h'.HasMailbox b := by
  induction f with
  | andThen first _ one two => exact two (Nat.lt_of_lt_of_le hb first.mailboxCount_le) (one hb hg)
  | aside ha _ => rwa [hasMailbox_of_application ha]
  | noted h => exact hg
  | used ops he => rwa [hasMailbox_keep he ops]
  | dropped h => exact not_hasMailbox_drop h b
  | adopted e ha old new =>
    rw [hasMailbox_adopt ha]
    exact Nat.ne_of_lt (Nat.lt_of_lt_of_le hb old)

/-- An executor is there as long as none is gone, and only so long. -/
theorem hasMailbox_iff (f : Fares h n h') (hc : h.Counted) {b : Nat} (hb : h.HasMailbox b) :
    h'.HasMailbox b ↔ n = 0 := by
  induction f with
  | @andThen h i h' m n first second one two =>
    by_cases hm : m = 0
    · rw [two (first.counted hc) ((one hc hb).mpr hm)]
      omega
    · have missing : ¬ i.HasMailbox b := mt (one hc hb).mp hm
      have made : b < i.mailboxCount := Nat.lt_of_lt_of_le (hc b hb) first.mailboxCount_le
      exact iff_of_false (second.gone made missing) (by omega)
  | aside ha _ => exact iff_of_true ((hasMailbox_of_application ha).mpr hb) rfl
  | noted h => exact iff_of_true hb rfl
  | used ops he => exact iff_of_true ((hasMailbox_keep he ops).mpr hb) rfl
  | dropped h =>
    rw [hb.loaded]
    exact iff_of_false (not_hasMailbox_drop h b) Nat.one_ne_zero
  | adopted e ha old new =>
    rw [hb.loaded, hasMailbox_adopt ha]
    exact iff_of_false (Nat.ne_of_lt (Nat.lt_of_lt_of_le (hc b hb) old)) Nat.one_ne_zero

end Fares

/-! ### What becomes of a completion -/

/-- The completions that have arrived at the executor, if there is one. -/
def inbox? (h : Host) : Option (List OperationCompletion) :=
  h.application.executor.map (·.inbox)

/-- To complete an operation by a handle is done, and posts one message. -/
def Posts (h : Host) (k : OperationHandle) : Prop :=
  ∀ result, (h.complete k.operation (.ok result)).1 = .done ∧ ∃ inbox, h.inbox? = some inbox ∧
    (h.complete k.operation (.ok result)).2.inbox? = some (inbox ++ [⟨k.operation, result⟩])

/-- To complete an operation by a handle is refused, as what it is for is disposed of, and posts
nothing. -/
def Disposes (h : Host) (k : OperationHandle) : Prop :=
  ∀ result, (h.complete k.operation (.ok result)).1 = .violation .contextDisposed ∧
    (h.complete k.operation (.ok result)).2.inbox? = h.inbox?

theorem Posts.not_disposes (hp : h.Posts k) : ¬ h.Disposes k := by
  intro hd
  have both := (hp (.ok .null)).1.symm.trans (hd (.ok .null)).1
  cases both

/-- The host without the handle of an operation. -/
def discard (h : Host) (operation : OperationId) : Host :=
  { h with handles := h.handles.filter (·.operation != operation) }

/-- A handle that is at hand is used with the executor, if there is one. -/
theorem complete_of_find (hk : h.handles.find? (·.operation == k.operation) = some k)
    (result : Except ActivityError Value) : h.complete k.operation (.ok result) =
      match (h.discard k.operation).useExecutor (·.completeHandle k result) with
      | .error _ => (.violation .contextDisposed, h.discard k.operation)
      | .ok (.ok (), h) => (.done, h)
      | .ok (.error v, h) => (.violation v, h) := by
  rw [Host.complete, hk]
  rfl

/-- A handle that was not used posts a message if its executor is there. -/
theorem posts_of_hasMailbox (hk : h.handles.find? (·.operation == k.operation) = some k)
    (hb : h.HasMailbox k.mailbox) : h.Posts k := by
  obtain ⟨e, he, hm⟩ := hb
  intro result
  have there : (h.discard k.operation).application.executor = some e := he
  have posted : ((h.discard k.operation).ready e).completeHandle k result =
      (.ok (), ((h.discard k.operation).ready e).post ⟨k.operation, result⟩) := if_pos hm.symm
  have before : h.inbox? = some e.inbox := by rw [inbox?, he, Option.map_some]
  rw [complete_of_find hk, useExecutor_some _ there, posted]
  exact ⟨rfl, e.inbox, before, rfl⟩

/-- It is refused if its executor is not there. -/
theorem disposes_of_not_hasMailbox (hk : h.handles.find? (·.operation == k.operation) = some k)
    (hb : ¬ h.HasMailbox k.mailbox) : h.Disposes k := by
  intro result
  rw [complete_of_find hk]
  cases he : (h.discard k.operation).application.executor with
  | none =>
    rw [useExecutor_none _ he]
    exact ⟨rfl, rfl⟩
  | some e =>
    have refused : ((h.discard k.operation).ready e).completeHandle k result =
        (.error .contextDisposed, (h.discard k.operation).ready e) :=
      if_neg fun hm => hb ⟨e, he, hm.symm⟩
    have before : h.inbox? = some e.inbox := congrArg (Option.map Executor.inbox) he
    rw [useExecutor_some _ he, refused, before]
    exact ⟨rfl, rfl⟩

/-! ### How executors end -/

/-- A workflow that was saved is in memory. -/
theorem loaded_of_saved {unlock : Bool} (hs : (h.save unlock).1 = .ok ()) :
    (h.save unlock).2.loaded = 1 := by
  cases ho : h.application.owner with
  | none =>
    rw [Host.save, ho] at hs
    cases hs
  | some owner =>
    cases he : h.application.executor with
    | none =>
      rw [Host.save, ho] at hs
      dsimp only at hs
      rw [useExecutor_none _ he] at hs
      cases hs
    | some e =>
      rw [save_eq ho he]
      rfl

section Listening

variable (hr : ∀ n m, Fares m 0 (react n m).2)
include hr

/-- If nobody who is told drops an executor, a workflow that is unloaded loses its executor. -/
theorem fares_unload (hu : (h.unload react).1 = .ok ()) : Fares h 1 (h.unload react).2 := by
  have saved := staying_fares.save h true
  have loaded : (h.save true).1 = .ok () → (h.save true).2.loaded = 1 := loaded_of_saved
  unfold Host.unload at hu ⊢
  generalize h.save true = answer at hu saved loaded ⊢
  obtain ⟨result, i⟩ := answer
  cases result with
  | error error => cases hu
  | ok _ =>
    have dropped := Fares.dropped i
    rw [loaded rfl] at dropped
    have told := staying_fares.tell hr (i.withApplication (·.dropExecutor)) (.unloaded i.application.id)
    exact .andThen saved (.andThen dropped told)

/-- A workflow that completes keeps its executor. -/
theorem fares_run {o : Outcome} (ho : o.isCompleted = true) (ran : (h.run react).1 = .ok o) :
    Fares h 0 (h.run react).2 := by
  cases he : h.application.executor with
  | none =>
    rw [Host.run, useExecutor_none _ he] at ran
    cases ran
  | some e =>
    generalize hx : (h.ready e).run h.stepLimit = answer
    obtain ⟨result, e'⟩ := answer
    cases result with
    | error error =>
      rw [run_of_error react he hx] at ran
      cases ran
    | ok p =>
      have used : Fares h 0 (h.keep e'.takePersistRequest.2) := by
        have after : ((ExecutorCall.run h.stepLimit).serve (h.ready e)).2 = e' := congrArg Prod.snd hx
        rw [← after]
        exact .used [.call (.run h.stepLimit), .call .takePersistRequest] he
      rw [run_of_ok react he hx rfl] at ran ⊢
      have same : p = o := by
        generalize (if p.isCompleted = true then _ else _ : Except HostError Unit × Host) = done at ran
        obtain ⟨result, i⟩ := done
        cases result with
        | error error => cases ran
        | ok _ => exact Except.ok.inj ran
      dsimp only
      rw [if_pos (same ▸ ho)]
      exact .andThen used (staying_fares.reportCompletion hr _ p)

end Listening

/-! ### Handles -/

/-- A host at the beginning: its application has a new executor, to which something may have been done,
or none yet. -/
inductive Founded (h : Host) : Prop
  /-- There is a new executor. -/
  | new {workflow : WorkflowId} {d : Definition} {inputs : Environment} {b : Nat} {e : Executor}
      (created : Executor.create workflow d inputs b = .ok e) (made : b < h.mailboxCount)
      (ops : List HostOperation) (he : h.application.executor = some (afterAll e ops))
  /-- There is none. -/
  | absent (he : h.application.executor = none)

theorem Founded.counted (ho : h.Founded) : h.Counted := by
  rintro b ⟨k, hk, rfl⟩
  cases ho with
  | @new workflow d inputs b e created made ops he =>
    cases hk.symm.trans he
    obtain ⟨-, -, rfl⟩ := Executor.create_eq_ok.mp created
    rw [HostOperation.mailbox_afterAll]
    exact made
  | absent he => exact absurd (he.symm.trans hk).symm (Option.some_ne_none _)

/-- A handle of the executor in memory is good at every moment of a run. Whatever the host and its
listeners call for, it posts a message as long as no executor is gone, and is refused from then on. An
abort and the completion of the workflow leave the executor in memory; an unload drops it. -/
theorem handles_good_in_memory {h₀ : Host} {n₀ : Nat} (founded : h₀.Founded) (past : Fares h₀ n₀ h)
    (he : h.application.executor = some e) (o : OperationId) :
    (∀ evs m, Journey (.between e) evs m → ∀ result,
      m.executor.completeHandle (e.handleOf o) result = (.ok (), m.executor.post ⟨o, result⟩)) ∧
    (∀ h', History h h' → ∃ n, Fares h n h') ∧
    (∀ n h', Fares h n h' → h'.handles.find? (·.operation == o) = some (e.handleOf o) →
      (h'.Disposes (e.handleOf o) ↔ 0 < n) ∧ (h'.Posts (e.handleOf o) ↔ n = 0)) ∧
    ∀ react : React, (∀ n m, Fares m 0 (react n m).2) →
      (∀ reason, Fares h 0 (h.abort react reason).2) ∧
      (∀ out, (h.run react).1 = .ok out → out.isCompleted = true → Fares h 0 (h.run react).2) ∧
      ((h.unload react).1 = .ok () → Fares h 1 (h.unload react).2) := by
  have counted : h.Counted := past.counted founded.counted
  have here : h.HasMailbox (e.handleOf o).mailbox := ⟨e, he, rfl⟩
  refine ⟨fun evs m t result => ?_, fun h' hh => lasting_fares.history hh, fun n h' f hk => ?_,
    fun react hr => ⟨fun reason => staying_fares.abort hr h reason, fun out ran ho => fares_run hr ho ran,
      fares_unload hr⟩⟩
  · have stays : m.Stays e.mailbox := t.stays rfl
    exact if_pos stays.mailbox.symm
  · have there := f.hasMailbox_iff counted here
    by_cases hn : n = 0
    · have posts : h'.Posts (e.handleOf o) := posts_of_hasMailbox hk (there.mpr hn)
      exact ⟨iff_of_false posts.not_disposes (by omega), iff_of_true posts hn⟩
    · have disposes : h'.Disposes (e.handleOf o) := disposes_of_not_hasMailbox hk (mt there.mp hn)
      exact ⟨iff_of_true disposes (by omega), iff_of_false (fun posts => posts.not_disposes disposes) hn⟩

/-- A host of a workflow that waits at a bookmark while a child fails, which has begun an operation. -/
def stranding : Host where
  application :=
    { id := ⟨.ofNat 1⟩, definition := (Activity.guarded "go" (.failingLate (.custom "late" []))).prepare
      executor := some (.begun (.guarded "go" (.failingLate (.custom "late" [])))), owner := some keeper }
  store := owned
  surroundings := ⟨⟨0, 0⟩, .ofNat 9⟩
  stepLimit := 5
  mailboxCount := 1

/-- The host when the workflow waits. Nobody has used the handle of the operation. -/
def stranded : Host :=
  (stranding.run unmoved).2

theorem stranding_founded : stranding.Founded :=
  .new (Executor.create_eq_ok.mpr ⟨rfl, rfl, rfl⟩) Nat.one_pos [] rfl

theorem unmoved_fares (n : Notice) (m : Host) : Fares m 0 (unmoved n m).2 :=
  .aside rfl (Nat.le_refl _)

theorem exists_fares_stranded : ∃ n, Fares stranding n stranded :=
  lasting_fares.run (fun n m => ⟨0, unmoved_fares n m⟩) stranding

/-- The handle of the operation is at hand. -/
theorem exists_stranded : ∃ e, stranded.application.executor = some e ∧
    stranded.handles.find? (·.operation == ⟨1⟩) = some (e.handleOf ⟨1⟩) := by
  have there : stranded.application.executor.isSome = true := by decide +kernel
  have given : stranded.handles.find? (·.operation == ⟨1⟩) =
      stranded.application.executor.map (·.handleOf ⟨1⟩) := by decide +kernel
  obtain ⟨e, he⟩ := Option.isSome_iff_exists.mp there
  exact ⟨e, he, by rw [given, he, Option.map_some]⟩

/-- Neither an abort nor an unload uses it. -/
theorem handles_stranded :
    (stranded.abort unmoved "stop").2.handles = stranded.handles ∧
      (stranded.unload unmoved).2.handles = stranded.handles ∧
      (stranded.unload unmoved).2.reload.2.handles = stranded.handles := by
  decide +kernel

/-- After an abort the handle posts a message. After an unload it is refused, also when the workflow is
back in memory. -/
theorem handles_good_in_memory_stranded : ∃ e, stranded.application.executor = some e ∧
    (stranded.abort unmoved "stop").2.Posts (e.handleOf ⟨1⟩) ∧
    (stranded.unload unmoved).2.Disposes (e.handleOf ⟨1⟩) ∧
    (stranded.unload unmoved).2.reload.2.application.isLoaded = true ∧
    (stranded.unload unmoved).2.reload.2.Disposes (e.handleOf ⟨1⟩) := by
  obtain ⟨n₀, past⟩ := exists_fares_stranded
  obtain ⟨e, he, hk⟩ := exists_stranded
  obtain ⟨aborted, unloaded, reloaded⟩ := handles_stranded
  obtain ⟨-, -, decides, ways⟩ := handles_good_in_memory stranding_founded past he ⟨1⟩
  obtain ⟨abort, -, unload⟩ := ways unmoved unmoved_fares
  have done : (stranded.unload unmoved).1 = .ok () := by
    have succeeds : (stranded.unload unmoved).1.toOption = some () := by decide +kernel
    generalize (stranded.unload unmoved).1 = result at succeeds
    cases result with
    | error error => cases succeeds
    | ok _ => rfl
  obtain ⟨n, back⟩ := lasting_fares.reload (stranded.unload unmoved).2
  refine ⟨e, he, ?_, ?_, by decide +kernel, ?_⟩
  · exact (decides 0 _ (abort "stop") (by rw [aborted, hk])).2.mpr rfl
  · exact (decides 1 _ (unload done) (by rw [unloaded, hk])).1.mpr Nat.one_pos
  · exact (decides _ _ (.andThen (unload done) back) (by rw [reloaded, hk])).1.mpr (by omega)

/-- An executor that was aborted does not dispose of its handles. -/
theorem not_disposed_when_aborted : ¬ ∀ (h₀ h : Host) (n : Nat) (e : Executor) (o : OperationId),
    h₀.Founded → Fares h₀ n h → h.application.executor = some e → e.state = .aborted →
      h.handles.find? (·.operation == o) = some (e.handleOf o) → h.Disposes (e.handleOf o) := by
  intro disposes
  obtain ⟨n, past⟩ := exists_fares_stranded
  have torn := staying_fares.abort unmoved_fares stranded "stop"
  have given : (stranded.abort unmoved "stop").2.handles.find? (·.operation == ⟨1⟩) =
      (stranded.abort unmoved "stop").2.application.executor.map (·.handleOf ⟨1⟩) := by decide +kernel
  have state : (stranded.abort unmoved "stop").2.application.state? = some .aborted := by decide +kernel
  obtain ⟨e, he, hs⟩ := Option.map_eq_some_iff.mp state
  rw [he, Option.map_some] at given
  have posts := posts_of_hasMailbox (k := e.handleOf ⟨1⟩) given ⟨e, he, rfl⟩
  exact posts.not_disposes
    (disposes stranding _ _ e ⟨1⟩ stranding_founded (.andThen past torn) he hs given)

end Host

end Workflow
