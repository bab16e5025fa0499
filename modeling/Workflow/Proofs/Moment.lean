import Workflow.Proofs.Errand
import Workflow.Proofs.Reporting

/-!
# Moments

A workflow is looked at between two items of work or while a program is performed, between two of its
requests. It goes on from moment to moment: an item is taken, a request is answered, a program ends, a
call of the host is served. A journey lists what happens from one moment to another, and every call of
the host is a journey.
-/

namespace Workflow

/-- What happens from one moment to the next. -/
inductive Event where
  /-- An item of work is taken, and calls a body or none. -/
  | took (a : QueuedItem) (call : Option Call)
  /-- A program that is performed for an instance has asked, and is answered. -/
  | asked (x : InstanceId) {k : BodyKind} (q : Request k) (answer : q.Response)
  /-- A call of the host is served. -/
  | served (c : ExecutorCall) (answer : c.Response)
  /-- Nothing of these. -/
  | silent

/-- Whether the host takes the journal. -/
def Event.collects : Event → Bool
  | served .takeJournal _ => true
  | _ => false

/-- A moment in the life of a workflow. -/
inductive Moment where
  /-- No item is being done. -/
  | between (e : Executor)
  /-- The rest of a program is to be performed. -/
  | during (r : Errand) (e : Executor) (rest : Program r.kind r.Result)

namespace Moment

/-- The executor of a moment. -/
def executor : Moment → Executor
  | between e => e
  | during _ e _ => e

/-- The items that are queued. -/
def items (m : Moment) : List QueuedItem :=
  m.executor.queue.items

/-- The arrival number of the next item. -/
def next (m : Moment) : Nat :=
  m.executor.queue.nextArrival

end Moment

open Moment in
/-- A workflow goes on from one moment to the next. -/
inductive Goes : Moment → Event → Moment → Prop
  /-- The change that is waiting to be reported is reported. -/
  | announced (e : Executor) : Goes (between e) .silent (between e.announce)
  /-- Work begins. -/
  | entered {e : Executor} (ho : e.outcome = none) (ha : e.state ≠ .aborted) :
      Goes (between e) .silent (between { e with state := .runnable })
  /-- Work ends. -/
  | settled {e : Executor} (ha : e.state ≠ .aborted) (hw : e.outcome = none → e.queue.work = []) :
      Goes (between e) .silent (between e.settle.2)
  /-- Completions that have arrived are queued. -/
  | gathered (e : Executor) : Goes (between e) .silent (between e.drainInbox.2)
  /-- A call of the host is served without work. -/
  | served {e : Executor} {c : ExecutorCall} (hc : c.isSingle = true) :
      Goes (between e) (.served c (c.serve e).1) (between (c.serve e).2)
  /-- The host takes the journal. -/
  | collected (e : Executor) :
      Goes (between e) (.served .takeJournal e.takeJournal.1) (between e.takeJournal.2)
  /-- The host has created scopes elsewhere, or an application now hosts the workflow. -/
  | hosted {e : Executor} {n : Nat} (hn : e.scopeCount ≤ n) (isHosted : Bool) :
      Goes (between e) .silent (between { e with scopeCount := n, isHosted })
  /-- Bodies that keep a state of their own have changed it. -/
  | altered {e : Executor} {d : Definition} (ha : e.definition.Alike d) :
      Goes (between e) .silent (between { e with definition := d })
  /-- An item is done that calls nobody. -/
  | passed {e : Executor} {a : QueuedItem} {q : WorkQueue} (ho : e.outcome = none)
      (ha : e.state ≠ .aborted) (hi : e.queue.items = a :: q.items)
      (hn : q.nextArrival = e.queue.nextArrival)
      (hr : Executor.errand? { e with queue := q } a.item = none) :
      Goes (between e) (.took a none) (between (Executor.dispatch { e with queue := q } a.item))
  /-- An item is taken that calls a body. -/
  | opened {e : Executor} {a : QueuedItem} {q : WorkQueue} {r : Errand} (ho : e.outcome = none)
      (ha : e.state ≠ .aborted) (hi : e.queue.items = a :: q.items)
      (hn : q.nextArrival = e.queue.nextArrival)
      (hr : Executor.errand? { e with queue := q } a.item = some r) :
      Goes (between e) (.took a (some (r.id, r.callback))) (during r r.called r.program)
  /-- The program asks, and is answered. -/
  | answered {r : Errand} {e : Executor} {q : Request r.kind}
      {rest : q.Response → Program r.kind r.Result} :
      Goes (during r e (.ask q rest)) (.asked r.id q (e.answer r.id q).1)
        (during r (e.answer r.id q).2 (rest (e.answer r.id q).1))
  /-- The program ends. -/
  | closed {r : Errand} {e : Executor} {a : r.Result} :
      Goes (during r e (.done a)) .silent (between (r.after a e))
  /-- The program crashes. -/
  | crashed {r : Errand} {e : Executor} {c : Crash} :
      Goes (during r e (.crash c)) .silent (between (e.raise r.id c.toError))

/-- What happens from one moment to a later one. -/
inductive Journey : Moment → List Event → Moment → Prop
  | refl (m : Moment) : Journey m [] m
  | step {m m' m'' : Moment} {ev : Event} {evs : List Event} (h : Goes m ev m')
      (t : Journey m' evs m'') : Journey m (ev :: evs) m''

namespace Journey

variable {m m' m'' : Moment} {ev : Event} {evs evs' : List Event}

theorem single (h : Goes m ev m') : Journey m [ev] m' :=
  .step h (.refl m')

theorem trans (h : Journey m evs m') (h' : Journey m' evs' m'') : Journey m (evs ++ evs') m'' := by
  induction h with
  | refl => exact h'
  | step g _ ih => exact .step g (ih h')

end Journey

/-! ### Work is a journey -/

/-- Something leads from one moment to another, and the journal is not taken. -/
def Stretch (m m' : Moment) : Prop :=
  ∃ evs, Journey m evs m' ∧ ∀ ev ∈ evs, ev.collects = false

namespace Stretch

open Moment

theorem refl (m : Moment) : Stretch m m :=
  ⟨[], .refl m, fun _ h => absurd h List.not_mem_nil⟩

theorem step {m m' m'' : Moment} {ev : Event} (g : Goes m ev m') (h : Stretch m' m'')
    (hc : ev.collects = false := by rfl) : Stretch m m'' := by
  obtain ⟨evs, t, silent⟩ := h
  refine ⟨ev :: evs, .step g t, fun ev' h => ?_⟩
  rcases List.mem_cons.mp h with rfl | h
  · exact hc
  · exact silent ev' h

theorem single {m m' : Moment} {ev : Event} (g : Goes m ev m') (hc : ev.collects = false := by rfl) :
    Stretch m m' :=
  step g (refl m') hc

theorem trans {m m' m'' : Moment} (h : Stretch m m') (h' : Stretch m' m'') : Stretch m m'' := by
  obtain ⟨evs, t, silent⟩ := h
  obtain ⟨evs', t', silent'⟩ := h'
  exact ⟨_, t.trans t', fun ev h => (List.mem_append.mp h).elim (silent ev) (silent' ev)⟩

variable {e e' : Executor} {r : Errand} {w : WorkItem} {q : WorkQueue}

/-- A program is performed request by request, and then its errand ends. -/
theorem perform (p : Program r.kind r.Result) :
    Stretch (during r e p) (between (r.conclude (e.perform r.id p))) := by
  induction p generalizing e with
  | done a => exact single .closed
  | crash c => exact single .crashed
  | ask q next ih => exact step .answered (ih (e.answer r.id q).1 (e := (e.answer r.id q).2))

/-- An errand is done request by request. -/
theorem errand (r : Errand) : Stretch (during r r.called r.program) (between r.perform) := by
  rw [r.perform_eq]
  exact perform r.program

/-- An item of work is done. -/
theorem dispatch {a : QueuedItem} (ho : e.outcome = none) (ha : e.state ≠ .aborted)
    (hi : e.queue.items = a :: q.items) (hn : q.nextArrival = e.queue.nextArrival) :
    Stretch (between e) (between (Executor.dispatch { e with queue := q } a.item)) := by
  cases hr : Executor.errand? { e with queue := q } a.item with
  | none => exact single (.passed ho ha hi hn hr)
  | some r =>
    rw [Executor.dispatch_of_sends (Executor.sends_of_errand hr)]
    exact step (.opened ho ha hi hn hr) (errand r)

end Stretch

namespace Executor

open Moment

variable {e e' : Executor}

/-- The next item stands at the front. -/
theorem items_of_pop? {q q' : WorkQueue} {w : WorkItem} (h : q.pop? = some (w, q')) :
    ∃ a, a.item = w ∧ q.items = a :: q'.items ∧ q'.nextArrival = q.nextArrival := by
  unfold WorkQueue.pop? at h
  split at h
  · cases h
  · cases h
    exact ⟨_, rfl, rfl, rfl⟩

/-- One item of work is a journey. -/
theorem stretch_step (ho : e.outcome = none) (ha : e.state ≠ .aborted) (hs : e.step? = some e') :
    Stretch (between e) (between e') := by
  rw [step?_eq, Option.map_eq_some_iff] at hs
  obtain ⟨⟨w, q⟩, hq, rfl⟩ := hs
  obtain ⟨a, rfl, hi, hn⟩ := items_of_pop? hq
  have present : e.drainInbox.2.state ≠ .aborted := by
    rw [drainInbox]
    dsimp only
    split
    · intro aborted
      cases aborted
    · exact ha
  exact .step (.gathered e) (.dispatch (e := e.drainInbox.2) ho present hi hn)

/-- Items that are done one after the other are a journey. -/
theorem Proper.stretch_drainQueue {limit : Nat} (h : e.Proper) (hs : drainQueue limit e = some e') :
    Stretch (between e) (between e') := by
  obtain ⟨⟨-, stretch⟩, -⟩ := drainQueue_keeps
    (P := fun m => m.Proper ∧ Stretch (between e) (between m))
    ⟨h, .refl _⟩ (fun ⟨hm, t⟩ ho hst =>
      ⟨hm.regular.step ho hm.not_aborted hst, t.trans (stretch_step ho hm.not_aborted hst)⟩) hs
  exact stretch

/-- A run is a journey. -/
theorem Regular.stretch_run (h : e.Regular) (limit : Nat) :
    Stretch (between e) (between (e.run limit).2) := by
  have announced : Stretch (between e) (between e.announce) := .single (.announced e)
  have ran := e.ran limit
  generalize e.run limit = r at ran ⊢
  cases ran with
  | refused _ => exact .refl _
  | ended _ _ | unsettled _ _ _ => exact announced
  | settled ha ho hd hs =>
    have working := h.enter ho ha
    obtain ⟨hp, hw⟩ := drainQueue_proper (.inl working) hd
    have settled := (Proper.stretch_drainQueue (.inl working) hd).trans
      (.single (.settled hp.not_aborted hw))
    rw [hs] at settled
    exact announced.trans (.step (.entered ho ha) settled)

/-- One step is a journey. -/
theorem Regular.stretch_runOneStep (h : e.Regular) :
    Stretch (between e) (between e.runOneStep.2) := by
  have announced : Stretch (between e) (between e.announce) := .single (.announced e)
  have hr : e.announce.Regular := sameCore_announce.regular h
  have ran := e.ranOnce
  generalize e.runOneStep = r at ran ⊢
  cases ran with
  | refused _ => exact .refl _
  | ended _ _ => exact announced
  | unemployed ha ho hs =>
    exact announced.trans (.single (.settled ha fun _ => (of_step?_none hs).2))
  | settled ha ho hs hw =>
    have settled := Stretch.single (.settled (hr.step ho ha hs).not_aborted fun _ => hw)
    exact announced.trans ((stretch_step ho ha hs).trans settled)
  | working ha ho hs _ hn =>
    have entered := Stretch.single (.entered hn (hr.step ho ha hs).not_aborted)
    exact announced.trans ((stretch_step ho ha hs).trans entered)
  | completed ha ho hs _ _ => exact announced.trans (stretch_step ho ha hs)

/-- Every call of the host is a journey. -/
theorem Regular.journey_serve (h : e.Regular) (c : ExecutorCall) :
    ∃ evs, Journey (between e) evs (between (c.serve e).2) := by
  by_cases hc : c.isSingle = true
  · exact ⟨_, .single (.served hc)⟩
  · cases c with
    | run limit =>
      obtain ⟨evs, t, -⟩ := h.stretch_run limit
      exact ⟨evs, t⟩
    | runOneStep =>
      obtain ⟨evs, t, -⟩ := h.stretch_runOneStep
      exact ⟨evs, t⟩
    | takeJournal => exact ⟨_, .single (.collected e)⟩
    | _ => exact absurd rfl hc

/-! ### Calls of the host -/

/-- The workflow has completed, or it was aborted. -/
def IsOver (e : Executor) : Prop :=
  e.outcome ≠ none ∨ e.state = .aborted

theorem not_isOver (ho : e.outcome = none) (ha : e.state ≠ .aborted) : ¬ e.IsOver :=
  fun h => h.elim (absurd ho) ha

/-- A request to cancel is refused or queued, or a workflow is canceled that has not begun. -/
theorem cancelWorkflow_cases (e : Executor) : e.cancelWorkflow.2 = e ∨
    e.cancelWorkflow.2 = { e.enqueue (.cancel e.root) with state := .runnable } ∨
    Concludes e.announce e.cancelWorkflow.2 := by
  unfold Executor.cancelWorkflow
  split
  · exact .inl rfl
  · split
    · exact .inr (.inl rfl)
    · next hx =>
      refine .inr (.inr (Concludes.cancelInstance ?_))
      unfold cancellationErrand?
      split
      · next i b hi _ =>
        have unrun : i.executed = false := by
          have same : e.announce.instance? e.root = e.instance? e.root := by
            rw [instance?, instance?, sameCore_announce.instances]
          rw [← same, hi] at hx
          simpa using hx
        split
        · rfl
        · simp [unrun]
      · rfl

namespace Tends

variable {P : QueuedItem → Prop}

/-- A workflow that has completed has completed later. -/
theorem outcome_ne (h : Tends P e e') (ho : e.outcome ≠ none) : e'.outcome ≠ none := by
  rcases h.arrives.cases with ⟨hs, -⟩ | ⟨hn, -⟩
  · exact hs.symm ▸ ho
  · exact hn

theorem announce : Tends P e e.announce :=
  of_sameCore sameCore_announce journal_announce

theorem settle : Tends P e e.settle.2 := by
  unfold Executor.settle
  split
  · exact refl e
  · split
    · exact refl e
    · exact of_eq rfl rfl rfl rfl rfl rfl

/-- Completions arrive. -/
theorem drainInbox_of (hP : ∀ o r n, P ⟨.normal, n, .operation o r⟩) :
    Tends P e e.drainInbox.2 := by
  have gains : ∀ (news : List OperationCompletion) (q : WorkQueue), q.Gains P (news.foldl
      (fun (q : WorkQueue) news => q.push (.operation news.operation news.result)) q) := by
    intro news
    induction news with
    | nil => exact .refl
    | cons n rest ih =>
      intro q
      exact (WorkQueue.Gains.push q (hP _ _ _)).trans (ih _)
  exact ⟨.of_gains rfl (gains e.inbox e.queue), ⟨[], (List.append_nil _).symm,
    fun _ hc => absurd hc List.not_mem_nil⟩, rfl, Nat.le_refl _, fun hk _ => ⟨_, hk, rfl⟩,
    fun hk hc => .inl ⟨_, hk, hc⟩⟩

theorem drainInbox : Tends Plain e e.drainInbox.2 :=
  drainInbox_of fun _ _ => plain_normal rfl

theorem cancelWorkflow : ∃ x, Tends (e.cancelWorkflow.2.Only x) e e.cancelWorkflow.2 := by
  rcases e.cancelWorkflow_cases with same | asked | concludes
  · exact ⟨e.root, same.symm ▸ refl e⟩
  · have queued := plain_normal (w := .cancel e.root) rfl e.queue.nextArrival
    exact ⟨e.root, asked ▸ of_push (queued _ _) rfl rfl rfl rfl rfl rfl⟩
  · obtain ⟨x, tends⟩ := concludes.tends_only
    exact ⟨x, announce.trans tends⟩

theorem terminate (reason : String) (x : InstanceId) :
    Tends ((e.terminate reason).2.Only x) e (e.terminate reason).2 := by
  unfold Executor.terminate
  split
  · exact refl e
  · exact faultInstance _

/-- A call of the host lets items arrive, which tell of the completion of at most one instance, and
calls nobody but abort hooks. -/
theorem serve_only {c : ExecutorCall} (hc : c.isSingle = true) (ha : ∀ reason, c ≠ .abort reason) :
    ∃ x, Tends ((c.serve e).2.Only x) e (c.serve e).2 := by
  cases c with
  | run | runOneStep | takeJournal => exact absurd hc Bool.false_ne_true
  | resumeBookmark b v p => exact ⟨e.root, (resumeBookmark b v p).mono fun _ ha => ha _ _⟩
  | cancel => exact cancelWorkflow
  | terminate reason => exact ⟨e.root, terminate reason _⟩
  | abort reason => exact absurd rfl (ha reason)
  | complete operation result =>
    rw [ExecutorCall.serve, completeHandle_own]
    exact ⟨e.root, of_eq rfl rfl rfl rfl rfl rfl⟩
  | drainInbox => exact ⟨e.root, drainInbox.mono fun _ ha => ha _ _⟩
  | listBookmarks => exact ⟨e.root, refl e⟩
  | _ => exact ⟨e.root, of_eq rfl rfl rfl rfl rfl rfl⟩

theorem serve {c : ExecutorCall} (hc : c.isSingle = true) (ha : ∀ reason, c ≠ .abort reason) :
    Tends (c.serve e).2.Sane e (c.serve e).2 := by
  obtain ⟨x, tends⟩ := serve_only hc ha
  exact tends.mono fun _ ha => ha.sane

end Tends

/-- What is left when a workflow is aborted. -/
theorem abort_eq (reason : String) : e.abort reason = e ∨
    ((e.abort reason).state = .aborted ∧ (e.abort reason).queue = e.queue.clear ∧
      (e.abort reason).instances = ∅ ∧ (e.abort reason).nextInstance = e.nextInstance ∧
      ∃ l, (e.abort reason).journal = e.journal ++ l ∧ ∀ c ∈ calls l, c.2.isAbort = true) := by
  unfold abort
  split
  · exact .inl rfl
  · dsimp only
    generalize (List.map _ (List.filter _ e.instances.values)).reverse = told
    generalize Fault.aborted reason _ _ _ = fault
    have core := sameCore_callAbortHooks (e := e) fault told
    have hooks : Tends Plain e (told.foldl (fun e k => e.callAbortHook k fault) e) :=
      .foldl (fun _ k => .callAbortHook k fault) told
    exact .inr ⟨rfl, congrArg WorkQueue.clear core.queue, rfl, core.nextInstance, hooks.journal⟩

end Executor

namespace Executor

variable {e : Executor}

/-- An aborted workflow stays aborted. -/
theorem state_serve_of_aborted {c : ExecutorCall} (hc : c.isSingle = true) (ha : e.state = .aborted) :
    (c.serve e).2.state = .aborted := by
  have refused : e.ensureAccepting = .error (.workflowAborted e.workflow) := by
    rw [ensureAccepting, ensureNotAborted, if_pos ha]
    rfl
  cases c with
  | run | runOneStep | takeJournal => exact absurd hc Bool.false_ne_true
  | resumeBookmark b v p =>
    rw [ExecutorCall.serve, resumeBookmark, if_pos ha]
    exact ha
  | cancel =>
    rw [ExecutorCall.serve, cancelWorkflow, refused]
    exact ha
  | terminate reason =>
    rw [ExecutorCall.serve, terminate, refused]
    exact ha
  | abort reason =>
    rw [ExecutorCall.serve, abort, if_pos ha]
    exact ha
  | complete operation result =>
    rw [ExecutorCall.serve, completeHandle_own]
    exact ha
  | drainInbox =>
    rw [ExecutorCall.serve, drainInbox]
    dsimp only
    rw [if_neg (by simp [ha])]
    exact ha
  | _ => exact ha

/-- A workflow that is over stays over. -/
theorem IsOver.serve {c : ExecutorCall} (h : e.IsOver) (hc : c.isSingle = true) :
    (c.serve e).2.IsOver := by
  by_cases ha : ∃ reason, c = .abort reason
  · obtain ⟨reason, rfl⟩ := ha
    change (e.abort reason).IsOver
    rcases e.abort_eq reason with hs | ⟨hs, -⟩
    · rw [hs]
      exact h
    · exact .inr hs
  · rcases h with ho | ho
    · exact .inl ((Tends.serve hc fun r hr => ha ⟨r, hr⟩).outcome_ne ho)
    · exact .inr (state_serve_of_aborted hc ho)

end Executor

/-! ### Sound moments -/

/-- Whether a workflow that goes on queues only sane items. -/
def Executor.Truthful (e : Executor) : Prop :=
  ¬ e.IsOver → ∀ a ∈ e.queue.items, e.Sane a

namespace Executor

variable {e e' : Executor} {a : QueuedItem} {q : WorkQueue} {w : WorkItem} {r : Errand}

/-- A workflow in which an item can be taken works. -/
theorem Regular.working_of_items (h : e.Regular) (hn : ¬ e.IsOver) (hi : e.queue.items = a :: q.items) :
    e.Consistent Nobody ∧ e.queue.work = a.item :: q.work := by
  have hw : e.queue.work = a.item :: q.work := by
    rw [WorkQueue.work, hi]
    rfl
  rw [IsOver, not_or, not_not] at hn
  cases h with
  | working h => exact ⟨h, hw⟩
  | resting h => exact absurd (hw.symm.trans h.work) (List.cons_ne_nil _ _)
  | finished h => exact absurd hn.1 h.outcome_ne
  | aborted h => exact absurd h.state hn.2

/-- Items stay sane while instances grow older. -/
theorem Truthful.passage {S D : InstanceId → Prop} {cs : List Call} {j : List JournalEntry}
    (h : e.Truthful) (hr : e.Regular) (hn : ¬ e.IsOver)
    (hp : Passage S D e cs { e' with journal := j })
    (hi : ∀ a ∈ e'.queue.items, a ∈ e.queue.items ∨ e'.Sane a) : e'.Truthful := by
  intro _ a ha
  rcases hi a ha with ha | ha
  · have sane := h hn a ha
    refine ⟨sane.low, fun {p c tag g i} hw hc => ?_⟩
    have below : c.number < e.nextInstance := by
      rw [IsOver, not_or, not_not] at hn
      have consistent := (hr.open hn.1 hn.2).1
      have queued : WorkItem.fault p c tag g ∈ e.queue.work := by
        rw [← hw]
        exact List.mem_map_of_mem ha
      exact (consistent.placed.reported queued rfl).2.1
    obtain ⟨o, ho, hages⟩ := hp.old hc below
    have faulted := sane.faulted hw ho
    exact (hages.final (by rw [faulted]; rfl)).trans faulted
  · exact ha

theorem Arrives.dispatch (e : Executor) (w : WorkItem) :
    Arrives (e.dispatch w).Sane e (e.dispatch w) := by
  cases hr : e.errand? w with
  | none => exact (Concludes.dispatch hr).tends.arrives
  | some r =>
    have sends := sends_of_errand hr
    have called : Arrives Plain e r.called := ((sends.before.tends _).arrives).trans (.of_eq rfl rfl)
    have performed := called.trans (Tends.perform (e := r.called) (x := r.id) r.program).arrives
    rw [dispatch_of_sends sends, r.perform_eq]
    generalize r.called.perform r.id r.program = result at performed ⊢
    obtain ⟨c | a, m⟩ := result
    · exact (performed.mono fun _ ha => (ha _ r.id).sane).trans (Concludes.raises (.refl m) r.id c.toError).tends.arrives
    · exact (performed.mono fun _ ha => (ha _ r.id).sane).trans (sends.after a m).tends.arrives

/-- An executor between two items of work, whose queue is sane. -/
structure Sound (e : Executor) : Prop where
  regular : e.Regular
  truthful : e.Truthful

namespace Sound

/-- Where no item is taken, an executor stays sound. -/
theorem tends (h : e.Sound) (hr : e'.Regular) (ho : e.IsOver → e'.IsOver)
    {S D : InstanceId → Prop} {cs : List Call} {j : List JournalEntry}
    (hp : Passage S D e cs { e' with journal := j }) (ht : Arrives e'.Sane e e') : e'.Sound := by
  refine ⟨hr, fun hn => ?_⟩
  refine h.truthful.passage h.regular (fun hover => hn (ho hover)) hp (fun a ha => ?_) hn
  rcases ht.cases with ⟨-, gains⟩ | ⟨hne, -⟩
  · by_cases hlt : a.arrival < e.queue.nextArrival
    · refine .inl ?_
      exact gains.old ▸ mem_before.mpr ⟨ha, hlt⟩
    · exact .inr (gains.new a ha (Nat.le_of_not_lt hlt))
  · exact absurd (.inl hne) hn

/-- After a turn without work an executor is sound. -/
theorem turn {d : Deed} (h : e.Sound) (t : Turn e d e') (ho : e.IsOver → e'.IsOver)
    (ht : Arrives e'.Sane e e') : e'.Sound := by
  obtain ⟨S, j, hp⟩ := h.regular.passage t
  exact h.tends (h.regular.turn t) ho hp ht

/-- After an item an executor is sound. -/
theorem dispatch (h : e.Sound) (hn : ¬ e.IsOver) (hi : e.queue.items = a :: q.items) :
    Sound (Executor.dispatch { e with queue := q } a.item) := by
  obtain ⟨hc, hw⟩ := h.regular.working_of_items hn hi
  obtain ⟨x, call, -, proper, -, m, hooks, hm, ha⟩ := hc.dispatch hw
  refine ⟨proper.regular, fun hn' => ?_⟩
  have passed := hm.trans (ha.passage.mono (fun _ => False.elim) fun _ => False.elim)
  refine h.truthful.passage h.regular hn passed (fun b hb => ?_) hn'
  rcases (Arrives.dispatch { e with queue := q } a.item).cases with ⟨-, gains⟩ | ⟨hne, -⟩
  · by_cases hlt : b.arrival < q.nextArrival
    · refine .inl ?_
      rw [hi, ← gains.old]
      exact List.mem_cons_of_mem _ (mem_before.mpr ⟨hb, hlt⟩)
    · exact .inr (gains.new b hb (Nat.le_of_not_lt hlt))
  · exact absurd (.inl hne) hn'

/-- After a call of the host an executor is sound. -/
theorem serve {c : ExecutorCall} (h : e.Sound) (hc : c.isSingle = true) : (c.serve e).2.Sound := by
  by_cases ha : ∃ reason, c = .abort reason
  · obtain ⟨reason, rfl⟩ := ha
    refine ⟨h.regular.serve _, ?_⟩
    change (e.abort reason).Truthful
    rcases e.abort_eq reason with hs | ⟨hs, -⟩
    · rw [hs]
      exact h.truthful
    · exact fun hn => absurd (.inr hs) hn
  · obtain ⟨d, t⟩ := h.regular.turn_serve hc
    have tends : Tends (c.serve e).2.Sane e (c.serve e).2 := .serve hc fun r hr => ha ⟨r, hr⟩
    exact h.turn t (fun ho => ho.serve hc) tends.arrives

end Sound

end Executor

/-- A program is performed for the errand of an item that was taken from a sound executor. -/
structure Pending (e : Executor) (a : QueuedItem) (q : WorkQueue) (r : Errand) (m : Executor)
    (rest : Program r.kind r.Result) : Prop where
  sound : e.Sound
  goesOn : ¬ e.IsOver
  items : e.queue.items = a :: q.items
  next : q.nextArrival = e.queue.nextArrival
  errand : Executor.errand? { e with queue := q } a.item = some r
  /-- What has been performed of the program is what was to be performed. -/
  same : r.called.perform r.id r.program = m.perform r.id rest
  running : ∃ X, Executor.Running X r.id m

/-- What holds at every moment. -/
def Moment.Sound : Moment → Prop
  | between e => e.Sound
  | during r m rest => ∃ e a q, Pending e a q r m rest

namespace Pending

variable {e m : Executor} {a : QueuedItem} {q : WorkQueue} {r : Errand}

/-- The program of an errand begins. -/
theorem opened (h : e.Sound) (hn : ¬ e.IsOver) (hi : e.queue.items = a :: q.items)
    (hq : q.nextArrival = e.queue.nextArrival)
    (hr : Executor.errand? { e with queue := q } a.item = some r) :
    Pending e a q r r.called r.program := by
  obtain ⟨hc, hw⟩ := h.regular.working_of_items hn hi
  obtain ⟨X, running⟩ := (Executor.sends_of_errand hr).running hc hw
  have core : Executor.SameCore r.before r.called := Executor.sameCore_log _
  exact ⟨h, hn, hi, hq, hr, rfl, X, running.follows (.of_sameCore running.consistent core)⟩

/-- The program goes on. -/
theorem answered {p : Request r.kind} {rest : p.Response → Program r.kind r.Result}
    (h : Pending e a q r m (.ask p rest)) :
    Pending e a q r (m.answer r.id p).2 (rest (m.answer r.id p).1) := by
  obtain ⟨X, running⟩ := h.running
  exact ⟨h.sound, h.goesOn, h.items, h.next, h.errand, h.same, X, running.answer p⟩

/-- When the program ends, the item is done. -/
theorem dispatch_eq {rest : Program r.kind r.Result} (h : Pending e a q r m rest) :
    Executor.dispatch { e with queue := q } a.item = r.conclude (m.perform r.id rest) := by
  rw [Executor.dispatch_of_sends (Executor.sends_of_errand h.errand), r.perform_eq, h.same]

end Pending

variable {m m' : Moment} {ev : Event} {evs : List Event}

/-- The instances of a sound moment form a tree, if there are any. -/
theorem Moment.Sound.tree {k : InstanceId} {i : Instance} (h : m.Sound)
    (hi : m.executor.instances[k]? = some i) : IsTree m.executor.definition m.executor.root
      m.executor.nextInstance m.executor.instances := by
  cases m with
  | between e => exact h.regular.tree_of_lookup hi
  | during r e rest =>
    obtain ⟨s, a, q, pending⟩ := h
    obtain ⟨X, running⟩ := pending.running
    exact running.consistent.placed.tree

/-- Whatever is owned at a sound moment has a live owner. -/
theorem Moment.Sound.owned (h : m.Sound) : m.executor.Owned := by
  cases m with
  | between e => exact h.regular.owned
  | during r e rest =>
    obtain ⟨s, a, q, pending⟩ := h
    obtain ⟨X, running⟩ := pending.running
    exact running.consistent.owned

/-- A moment that is reached from a sound one is sound. -/
theorem Goes.sound (g : Goes m ev m') (h : m.Sound) : m'.Sound := by
  cases g with
  | announced e =>
    have core : Executor.SameCore e e.announce := Executor.sameCore_announce
    refine Executor.Sound.turn h (.announced e) (fun ho => ?_) Executor.Tends.announce.arrives
    exact ho.imp (core.outcome ▸ ·) (core.state.trans ·)
  | @entered e ho ha =>
    exact Executor.Sound.turn h (.entered ho ha) (fun hn => absurd hn (Executor.not_isOver ho ha))
      (.of_eq rfl rfl)
  | @settled e ha hw =>
    have settles : Executor.Tends (Executor.Sane e.settle.2) e e.settle.2 := .settle
    refine Executor.Sound.turn h (.settled ha hw) (fun ho => ?_) settles.arrives
    exact ho.elim (fun hn => .inl (settles.outcome_ne hn)) (absurd · ha)
  | gathered e => exact Executor.Sound.serve (c := .drainInbox) h rfl
  | served hc => exact Executor.Sound.serve h hc
  | collected e => exact Executor.Sound.turn h (.collected e) id (.of_eq rfl rfl)
  | hosted hn isHosted => exact Executor.Sound.turn h (.hosted hn isHosted) id (.of_eq rfl rfl)
  | altered ha => exact Executor.Sound.turn h (.altered ha) id (.of_eq rfl rfl)
  | passed ho ha hi _ _ => exact Executor.Sound.dispatch h (Executor.not_isOver ho ha) hi
  | opened ho ha hi hn hr =>
    exact ⟨_, _, _, .opened h (Executor.not_isOver ho ha) hi hn hr⟩
  | answered =>
    obtain ⟨e, a, q, h⟩ := h
    exact ⟨e, a, q, h.answered⟩
  | closed =>
    obtain ⟨e, a, q, h⟩ := h
    have done := h.sound.dispatch h.goesOn h.items
    rw [h.dispatch_eq] at done
    exact done
  | crashed =>
    obtain ⟨e, a, q, h⟩ := h
    have done := h.sound.dispatch h.goesOn h.items
    rw [h.dispatch_eq] at done
    exact done

/-- Every moment of a journey from a sound one is sound. -/
theorem Journey.sound (t : Journey m evs m') (h : m.Sound) : m'.Sound := by
  induction t with
  | refl => exact h
  | step g _ ih => exact ih (g.sound h)

/-! ### Moments that occur -/

/-- A moment in the life of a workflow that hosts and bodies can bring about. -/
def Moment.Occurs (m : Moment) : Prop :=
  ∃ (e : Executor) (evs : List Event), e.Reachable ∧ Journey (.between e) evs m

namespace Executor

variable {e : Executor}

/-- A reachable executor occurs. -/
theorem Reachable.occurs (h : e.Reachable) : (Moment.between e).Occurs :=
  ⟨e, [], h, .refl _⟩

/-- What is restored from the image of a sound executor is sound. -/
theorem Sound.restored {r : Executor} {now : Timestamp} {s : Snapshot} {a : Activity} {mailbox : Nat}
    (h : e.Sound) (hc : e.capture now = .ok s) (hr : s.restore a.prepare mailbox = .ok r) :
    r.Sound := by
  refine ⟨h.regular.restore hc (Activity.prepare_wellFormed _) hr, fun _ a ha => ?_⟩
  obtain ⟨u, -, -, rfl⟩ := h.regular.of_restore hc hr
  have nothing : ∀ m : Executor, m.queue.items = [] → m.finishWorkflow.queue.items = [] := by
    intro m hm
    unfold finishWorkflow
    split
    · exact hm
    · rfl
  dsimp only at ha
  split at ha
  · rw [nothing _ rfl] at ha
    exact absurd ha List.not_mem_nil
  · exact absurd ha List.not_mem_nil

/-- A reachable executor is sound. -/
theorem Reachable.sound (h : e.Reachable) : e.Sound := by
  induction h with
  | created h =>
    refine ⟨(Reachable.created h).regular, fun _ a ha => ?_⟩
    obtain ⟨-, -, rfl⟩ := create_eq_ok.mp h
    rcases List.mem_cons.mp ((WorkQueue.insert_perm _ _).mem_iff.mp ha) with rfl | ha
    · have first : Plain ⟨.normal, 0, .execute ⟨1⟩⟩ := plain_normal rfl 0
      exact (first _ ⟨1⟩).sane
    · exact absurd ha List.not_mem_nil
  | restored _ hc hr ih => exact ih.restored hc hr
  | served _ c ih =>
    obtain ⟨evs, t⟩ := ih.regular.journey_serve c
    exact t.sound (m := .between _) ih
  | @entered e h ho ha ih =>
    have core : SameCore e e.announce := sameCore_announce
    have t : Journey (.between e) _ (.between { e.announce with state := .runnable }) :=
      .step (.announced e) (.single (.entered (core.outcome.trans ho) (core.state.symm ▸ ha)))
    exact t.sound (m := .between _) ih
  | stepped _ ho ha hs ih =>
    obtain ⟨evs, t, -⟩ := stretch_step ho ha hs
    exact t.sound (m := .between _) ih
  | hosted _ hn isHosted ih => exact Goes.sound (.hosted hn isHosted) ih
  | altered _ ha ih => exact Goes.sound (.altered ha) ih

end Executor

/-- A moment that occurs is sound. -/
theorem Moment.Occurs.sound (h : m.Occurs) : m.Sound := by
  obtain ⟨e, evs, he, t⟩ := h
  exact t.sound (m := .between e) he.sound

end Workflow
