import Mathlib.Algebra.Order.BigOperators.Group.Finset
import Workflow.Composite
import Workflow.Proofs.Possession
import Workflow.Proofs.Stepping
import Workflow.Proofs.WithdrawalSteps

/-!
# Cancellation of a workflow

A workflow that waits is canceled. While it withdraws, the instances hold it up less and less, so the
run ends; everybody has been canceled then, and the root was the last one.
-/

namespace Workflow

open Executor (Heeds)

/-! ### Docile activities -/

/-- An activity says nothing of its own about cancellation, and schedules nobody once it has been asked. -/
structure Behaviour.Docile (b : Behaviour) : Prop where
  default : b.CancelsByDefault
  heeds : ∀ {body : NativeBody}, b = .native body → Heeds body

/-- A native activity that only executes is docile. -/
theorem Behaviour.Docile.native (execute : Program .native Unit) : Docile (.native { execute }) where
  default := rfl
  heeds hs := by
    cases hs
    exact fun _ _ _ _ => trivial

theorem Behaviour.Docile.async (start : OperationId → Program .async Unit) :
    Docile (.async { start }) where
  default := rfl
  heeds hs := Behaviour.noConfusion hs

/-- Code has nothing to say about cancellation. -/
theorem Behaviour.Docile.of_code {b : Behaviour} (hb : b.kind = .code) : b.Docile := by
  cases b with
  | code _ => exact ⟨trivial, fun hs => Behaviour.noConfusion hs⟩
  | _ => exact BodyKind.noConfusion hb

/-- Activities that run one after another schedule nobody once they have been asked to cancel. -/
theorem Shape.advance_modest {e : Executor} {p : InstanceId} {r : Instance} (hr : e.instances[p]? = some r)
    (ha : r.cancelRequested = true) (options : ScheduleOptions) (child : CompletedChild) :
    e.Modest p (advance options child) := by
  refine ⟨rfl, ?_⟩
  have asked : (e.instance? p).any (·.cancelRequested) = true := by
    rw [Executor.instance?, hr]
    exact ha
  change e.Modest p (if (e.instance? p).any (·.cancelRequested) then _ else _ : Program .native Unit)
  rw [asked]
  trivial

/-- Composite activities are docile. -/
theorem Shape.docile (s : Shape) : s.body.behaviour.Docile := by
  cases s with
  | record _ | throw _ => exact .of_code rfl
  | parallel _ _ => exact .native _
  | sequence _ _ =>
    refine ⟨rfl, fun hs => ?_⟩
    cases hs
    exact fun _ child hr ha => advance_modest hr ha _ child
  | tryCatch _ =>
    refine ⟨rfl, fun hs => ?_⟩
    cases hs
    exact fun _ _ _ _ => ⟨rfl, trivial⟩

/-- An activity with the programs of a shape. -/
def Activity.ofShape (s : Shape) (children : List Activity) : Activity :=
  .mk s.name s.body children [] []

/-- One branch waits for a bookmark, one for an operation, and one has another activity to come. -/
def Activity.branching : Activity :=
  .ofShape (.sequence "main" []) [
    .ofShape (.parallel "branches" []) [.waitAt "go", .pending "call",
      .ofShape (.sequence "steps" []) [.waitAt "stay", .waitAt "later"]],
    .waitAt "after"]

/-- An activity that waits at a bookmark. The name of its type hides that it is not code. -/
def Activity.disguised : Activity :=
  match waitAt "go" with
  | mk _ body children locals arguments =>
    mk "wait" { body with typeName := "t\x00codeu" } children locals arguments

/-- Code that has the same fingerprint. -/
def Activity.impostor : Activity :=
  .mk "wait\x00nativet" ⟨"impostor", "u", fun _ => [], .code (.done none)⟩ [] [] []

/-- The activities of a definition are docile if those of the tree are. -/
theorem Activity.docile_prepare {a : Activity}
    (h : ∀ b ∈ (a.nodes none 0 "1" []).map (·.body.behaviour), b.Docile) :
    ∀ n ∈ a.prepare.nodes, n.body.behaviour.Docile := by
  rw [← prepare_nodes_map _ fun _ _ => rfl] at h
  exact fun n hn => h _ (List.mem_map_of_mem hn)

theorem Activity.docile_branching : ∀ n ∈ branching.prepare.nodes, n.body.behaviour.Docile := by
  refine docile_prepare ?_
  simp only [branching, ofShape, waitAt, pending, ofNative, nodes, forest, List.map_cons,
    List.map_nil, List.append_nil, List.cons_append, List.nil_append, List.forall_mem_cons]
  exact ⟨Shape.docile _, Shape.docile _, .native _, .async _, Shape.docile _, .native _, .native _,
    .native _, fun _ hb => absurd hb List.not_mem_nil⟩

namespace Executor

variable {e e' f m m' : Executor} {k : InstanceId} {a : Activity} {n limit : Nat} {o : Outcome}

/-! ### Runs -/

/-- The executors that a run goes through before it settles. -/
inductive Underway (e : Executor) : Executor → Prop
  | entered : Underway e { e.announce with state := .runnable }
  | stepped {m m' : Executor} (h : Underway e m) (ho : m.outcome = none) (hs : m.step? = some m') :
      Underway e m'

/-- What a run of a definition goes through is of the same definition. -/
theorem RunOf.underway (h : RunOf a e) (ho : e.outcome = none) (ha : e.state ≠ .aborted)
    (hu : e.Underway m) : RunOf a m ∧ m.Proper ∧ m.definition = e.definition := by
  induction hu with
  | entered =>
    have core : SameCore e e.announce := sameCore_announce
    refine ⟨h.entered ho ha, .inl ?_, core.definition⟩
    exact h.reachable.regular.enter (core.outcome.trans ho) (core.state.symm ▸ ha)
  | stepped hu hom hs ih =>
    obtain ⟨hm, proper, same⟩ := ih
    refine ⟨hm.stepped hom proper.not_aborted hs, proper.regular.step hom proper.not_aborted hs, ?_⟩
    have flows : Flows _ _ := .step hm.reachable.regular hm.bound.1 hom proper.not_aborted hs
    exact flows.definition.trans same

/-- How long an instance holds a withdrawal up. -/
def toll : Option Bool → Nat
  | none => 0
  | some true => 1
  | some false => 2

/-- How long the instances hold a withdrawal up. -/
def burden (e : Executor) : Nat :=
  ∑ n ∈ Finset.range e.nextInstance, toll (e.roll ⟨n⟩)

theorem burden_lt (hn : e'.nextInstance = e.nextInstance) (hk : k.number < e.nextInstance)
    (less : toll (e'.roll k) < toll (e.roll k)) (others : ∀ j, j ≠ k → e'.roll j = e.roll j) :
    e'.burden < e.burden := by
  rw [burden, burden, hn]
  refine Finset.sum_lt_sum (fun n _ => ?_) ⟨k.number, Finset.mem_range.mpr hk, less⟩
  by_cases hnk : (⟨n⟩ : InstanceId) = k
  · rw [hnk]
    exact less.le
  · rw [others _ hnk]

/-- A withdrawal does not go on forever: the instances hold it up less, or fewer items wait. -/
theorem Proceeds.less (h : Proceeds e e')
    (ht : IsTree e.definition e.root e.nextInstance e.instances) :
    e'.burden < e.burden ∨ e'.burden = e.burden ∧ e'.pending < e.pending := by
  cases h.step with
  | passed same fewer => exact .inr ⟨by rw [burden, burden, same, h.nextInstance], fewer⟩
  | @asked x was now =>
    obtain ⟨i, hi, -⟩ := Option.map_eq_some_iff.mp was
    refine .inl (burden_lt (k := x) h.nextInstance (ht.below hi) ?_ fun j hj => ?_)
    · rw [was, now, if_pos rfl]
      decide
    · rw [now, if_neg hj]
  | @left c i was _ now =>
    refine .inl (burden_lt (k := c) h.nextInstance (ht.below was) ?_ fun j hj => ?_)
    · rw [now, if_pos rfl, roll, was]
      change 0 < toll (some i.cancelRequested)
      cases i.cancelRequested <;> decide
    · rw [now, if_neg hj]

/-- While everybody there has run, no body is run for the first time. -/
theorem Works.unstarted {D : InstanceId → Prop} (h : Works D e e')
    (ran : ∀ {k : InstanceId} {i : Instance}, e.instances[k]? = some i → i.executed = true) :
    ∃ l, e'.journal = e.journal ++ l ∧ ∀ c ∈ calls l, c.2.isStart = false := by
  obtain ⟨x, call, accepted, -, -, m, hooks, hm, ha⟩ := h
  obtain ⟨l, hl, hlc⟩ := hm.journal
  obtain ⟨r, hr, hrc⟩ := ha.passage.journal
  refine ⟨l ++ r, by rw [hr, hl, List.append_assoc], fun c hc => ?_⟩
  rw [calls_append, hlc, hrc, List.mem_append] at hc
  rcases hc with hc | hc
  · obtain ⟨b, hb, rfl⟩ := List.mem_map.mp hc
    obtain ⟨i, hi, accepts⟩ := accepted b (Option.mem_toList.mp hb)
    refine Bool.eq_false_iff.mpr fun hs => ?_
    exact absurd ((accepts.unexecuted hs).symm.trans (ran hi)) Bool.false_ne_true
  · obtain ⟨f, hf⟩ := ha.reason c hc
    rw [hf]
    rfl

/-- A run is about to begin in which a workflow withdraws and nobody objects. -/
structure Withdrawal (a : Activity) (e : Executor) : Prop where
  run : RunOf a e
  opened : e.outcome = none
  unaborted : e.state ≠ .aborted
  default : e.definition.CancelsByDefault
  complies : ∀ m, e.Underway m → m.outcome = none → m.Complies
  withdraws : Withdraws { e.announce with state := .runnable } Nobody

namespace Withdrawal

theorem proper (h : Withdrawal a e) (hu : e.Underway m) : m.Proper :=
  (h.run.underway h.opened h.unaborted hu).2.1

theorem proceeds (h : Withdrawal a e) (hu : e.Underway m) (hw : m.Withdraws Nobody)
    (ho : m.outcome = none) (hs : m.step? = some m') : Proceeds m m' := by
  obtain ⟨hm, proper, same⟩ := h.run.underway h.opened h.unaborted hu
  exact hw.step proper ho hm.suited (same.symm ▸ h.default) (h.complies m hu ho) hs

/-- All through the run the workflow withdraws, until it has been canceled. -/
theorem underway (h : Withdrawal a e) (hu : e.Underway m) : m.Withdrawing := by
  induction hu with
  | entered => exact .going (sameCore_announce.outcome.trans h.opened) h.withdraws
  | stepped hu ho hs ih =>
    cases ih with
    | going _ hw => exact (h.proceeds hu hw ho hs).withdrawing
    | ended canceled _ => exact absurd (ho.symm.trans canceled) (Option.some_ne_none _).symm

/-- The run comes to an end, and by then everybody has been canceled. -/
theorem terminates {m : Executor} (h : Withdrawal a e) (hu : e.Underway m) : ∃ (limit : Nat) (f : Executor),
    (∀ n, limit ≤ n → drainQueue n m = some f) ∧ e.Underway f ∧ f.outcome = some .canceled ∧
      ∀ (k : InstanceId) (i : Instance), m.instances[k]? = some i → ∃ (m' : Executor) (j : Instance), e.Underway m' ∧
        m'.instances[k]? = some j ∧ j.state = .canceled := by
  cases h.underway hu with
  | ended canceled all =>
    exact ⟨0, m, fun _ _ => drainQueue_of_some canceled, hu, canceled,
      fun k i hi => ⟨m, i, hu, hi, all hi⟩⟩
  | going ho hw =>
    have hc : m.Consistent Nobody := by
      cases h.proper hu with
      | inl hc => exact hc
      | inr hf => exact absurd ho hf.outcome_ne
    obtain ⟨m', hs⟩ := hw.exists_step hc
    have proceeds := h.proceeds hu hw ho hs
    have less := proceeds.less hc.placed.tree
    obtain ⟨limit, f, ends, huf, canceled, all⟩ := h.terminates (hu.stepped ho hs)
    refine ⟨limit + 1, f, fun n hn => ?_, huf, canceled, fun k i hi => ?_⟩
    · obtain ⟨n, rfl⟩ := Nat.exists_eq_add_of_le' (Nat.le_trans (Nat.le_add_left 1 limit) hn)
      exact (drainQueue_succ ho hs).trans (ends n (Nat.le_of_succ_le_succ hn))
    · -- Whoever is not there after the next item has left, and had been canceled.
      by_cases stays : ∃ j, m'.instances[k]? = some j
      · obtain ⟨j, hj⟩ := stays
        exact all k j hj
      · have gone : m'.roll k = none := by
          rw [roll_eq_none_iff, Option.eq_none_iff_forall_ne_some]
          exact fun j hj => stays ⟨j, hj⟩
        have there : m.roll k ≠ none := fun hn =>
          absurd ((roll_eq_none_iff.mp hn).symm.trans hi) (Option.some_ne_none i).symm
        cases proceeds.step with
        | passed same _ => exact absurd (same ▸ gone) there
        | asked _ now =>
          rw [now] at gone
          split at gone
          · exact absurd gone (Option.some_ne_none _)
          · exact absurd gone there
        | left was canceled now =>
          rw [now] at gone
          split at gone
          · next hk =>
            cases hk
            exact ⟨m, _, hu, was, canceled⟩
          · exact absurd gone there
termination_by (m.burden, m.pending)
decreasing_by
  obtain less | ⟨same, less⟩ := less
  · exact .left _ _ less
  · rw [same]
    exact .right _ less

/-- All through the run everybody is live or has been canceled, and no body is run for the first
time. -/
theorem unstarted (h : Withdrawal a e) (hu : e.Underway m) :
    (∀ (k : InstanceId) (i : Instance), m.instances[k]? = some i →
      i.state.isLive = true ∨ i.state = .canceled) ∧
      ∃ l, m.journal = e.journal ++ l ∧ ∀ c ∈ calls l, c.2.isStart = false := by
  constructor
  · intro k i hi
    cases h.underway hu with
    | ended _ all => exact .inr (all hi)
    | going ho hw =>
      have proper := h.proper hu
      have steady := ((proper.regular.tree proper.not_aborted).sound hi).steady
      rw [ActivityState.isLive_eq_not steady]
      cases ht : i.state.isTerminal with
      | false => exact .inl rfl
      | true => exact .inr (hw.canceled hi ht).1
  · induction hu with
    | entered => exact ⟨[], (journal_announce.trans (List.append_nil _).symm), fun _ hc => by cases hc⟩
    | @stepped m m' hu ho hs ih =>
      obtain ⟨l, hl, unstarted⟩ := ih
      have proper := h.proper hu
      obtain ⟨D, works, -⟩ := proper.regular.stepped ho proper.not_aborted hs
      cases h.underway hu with
      | ended canceled _ => exact absurd (ho.symm.trans canceled) (Option.some_ne_none _).symm
      | going _ hw =>
        obtain ⟨r, hr, none⟩ := works.unstarted hw.ran
        refine ⟨l ++ r, by rw [hr, hl, List.append_assoc], fun c hc => ?_⟩
        rw [calls_append, List.mem_append] at hc
        exact hc.elim (unstarted c) (none c)

end Withdrawal

/-! ### The request of the host -/

/-- The host asks the root of a workflow that waits to cancel. -/
theorem Resting.cancelWorkflow_eq (h : e.Resting) :
    e.cancelWorkflow = (.ok (), { e.enqueue (.cancel e.root) with state := .runnable }) := by
  have live : e.isLive e.root = true := h.consistent.placed.rootLive
  obtain ⟨r, hr, -⟩ := isLive_iff.mp live
  unfold Executor.cancelWorkflow
  rw [Regular.accepting (.resting h) live, instance?, hr, Option.map_some, (h.live_executed hr).2]
  rfl

/-- As soon as the host has asked its root to cancel, a workflow that waited withdraws. -/
theorem Resting.withdraws (h : e.Resting) (late : ∀ n ∈ e.inbox, e.operations[n.operation]? = none)
    (unasked : ∀ {k : InstanceId} {i : Instance}, e.instances[k]? = some i →
      i.cancelRequested = false) :
    Withdraws { e.enqueue (.cancel e.root) with state := .runnable } Nobody := by
  have unrequested : ∀ {k : InstanceId} {i : Instance}, e.instances[k]? = some i →
      i.cancelRequested ≠ true :=
    fun hi => Bool.eq_false_iff.mp (unasked hi)
  have ht := h.consistent.placed.tree
  have queued : ∀ {w : WorkItem}, w ∈ (e.enqueue (.cancel e.root)).queue.work ↔ w = .cancel e.root := by
    intro w
    refine WorkQueue.mem_work_push.trans ?_
    rw [h.work, List.mem_nil_iff, or_false]
  refine ⟨fun hi => (h.live_executed hi).2, fun hi ended => ?_, fun hi ha => absurd ha (unrequested hi),
    fun _ hi ha => absurd ha (unrequested hi), fun _ hi ha => absurd ha (unrequested hi),
    fun {k i} hi ha => ?_, fun {k i} hi _ exposed _ => ?_, fun w hw => ?_, late⟩
  · have open_ := ActivityState.not_terminal_of_isLive (h.live_executed hi).1
    exact absurd (open_.symm.trans ended) Bool.false_ne_true
  · rcases ha with ha | hw
    · exact absurd ha (unrequested hi)
    · -- Nobody is above the root.
      cases queued.mp hw
      intro j q p hj hp _
      obtain ⟨r, hr, none, -⟩ := ht.rooted
      cases hr.symm.trans hj
      exact absurd (none.symm.trans hp) (Option.some_ne_none p).symm
  · refine queued.mpr (congrArg WorkItem.cancel ?_)
    cases hp : i.parent with
    | none => exact ht.orphan hi hp
    | some p =>
      obtain ⟨q, hq, -⟩ := ht.listed hi hp
      exact absurd (exposed hi hp hq) (unrequested hq)
  · rw [queued.mp hw]
    trivial

/-- A workflow whose outcome is that it was canceled is in that state. -/
theorem state_of_ending {event : LifecycleEvent} (h : e.ending? = some (e.state, .canceled, event)) :
    e.state = .canceled := by
  obtain ⟨r, -, he⟩ := Option.bind_eq_some_iff.mp h
  split at he
  · exact Outcome.noConfusion (congrArg (·.2.1) (Option.some.inj he))
  · exact (congrArg Prod.fst (Option.some.inj he)).symm
  · obtain ⟨f, -, hf⟩ := Option.map_eq_some_iff.mp he
    exact Outcome.noConfusion (congrArg (·.2.1) hf)
  · exact absurd he (Option.some_ne_none _).symm

namespace RunOf

/-- The run after the request is one in which the workflow withdraws. -/
theorem withdrawal (h : RunOf a e) (hr : e.Resting)
    (late : ∀ n ∈ e.inbox, e.operations[n.operation]? = none)
    (unasked : ∀ {k : InstanceId} {i : Instance}, e.instances[k]? = some i →
      i.cancelRequested = false)
    (default : e.definition.CancelsByDefault)
    (complies : ∀ m, e.cancelWorkflow.2.Underway m → m.outcome = none → m.Complies) :
    Withdrawal a e.cancelWorkflow.2 := by
  have requested := hr.cancelWorkflow_eq
  refine ⟨h.served .cancel, ?_, ?_, ?_, complies, ?_⟩
  all_goals rw [requested]
  · exact hr.consistent.opened
  · exact WorkflowState.noConfusion
  · exact default
  · have core := sameCore_announce (e := { e.enqueue (.cancel e.root) with state := .runnable })
    exact (hr.withdraws late unasked).of_sameCore core.runnable inbox_announce

/-- If the host cancels a workflow that waits, nobody in it has been asked to cancel yet, no completion
has arrived that anybody waits for, nobody says anything else about cancellation than what is done if
nothing is said, and those that have been asked are modest when they are told of their children, then
the run after that ends, and the workflow has been canceled. All the while everybody in it is live or
has been canceled, no body is run for the first time, and everybody is canceled before it leaves. No
bookmark, scope or operation is left. -/
theorem cancel_reaches_all (h : RunOf a e) (idle : e.state = .idle)
    (late : ∀ n ∈ e.inbox, e.operations[n.operation]? = none)
    (unasked : ∀ (k : InstanceId) (i : Instance), e.instances[k]? = some i → i.state.isLive = true →
      i.cancelRequested = false)
    (default : e.definition.CancelsByDefault)
    (complies : ∀ m, e.cancelWorkflow.2.Underway m → m.outcome = none → m.Complies) :
    e.cancelWorkflow.1 = .ok () ∧
    (∃ (limit : Nat) (f : Executor),
      (∀ n, limit ≤ n → e.cancelWorkflow.2.run n = (.ok .canceled, f)) ∧
      e.cancelWorkflow.2.Underway f ∧ f.state = .canceled ∧ f.bookmarks = {} ∧ f.operations = ∅) ∧
    (∀ (k : InstanceId) (i : Instance), e.instances[k]? = some i → i.state.isLive = true →
      ∃ (m : Executor) (j : Instance), e.cancelWorkflow.2.Underway m ∧ m.instances[k]? = some j ∧
        j.state = .canceled) ∧
    ∀ m, e.cancelWorkflow.2.Underway m →
      (∀ (k : InstanceId) (i : Instance), m.instances[k]? = some i →
        i.state.isLive = true ∨ i.state = .canceled) ∧
      ∃ l, m.journal = e.journal ++ l ∧ ∀ c ∈ calls l, c.2.isStart = false := by
  have hr := h.reachable.regular.resting_of_idle idle
  have requested := hr.cancelWorkflow_eq
  have w := h.withdrawal hr late (fun hi => unasked _ _ hi (hr.live_executed hi).1) default complies
  obtain ⟨limit, f, ends, hf, canceled, all⟩ := w.terminates .entered
  refine ⟨congrArg Prod.fst requested, ⟨limit, f, fun n hn => ?_, hf, ?_⟩, fun k i hi _ => ?_,
    fun m hm => ?_⟩
  · have opened := sameCore_announce.outcome.trans w.opened
    have admitted : e.cancelWorkflow.2.ensureNotAborted = .ok () := by
      rw [ensureNotAborted, if_neg w.unaborted]
    rw [run_of_none admitted opened, ends n hn]
    dsimp only
    rw [settle_of_some canceled]
  · cases w.proper hf with
    | inl hc => exact absurd (hc.opened.symm.trans canceled) (Option.some_ne_none _).symm
    | inr concluded =>
      refine ⟨?_, concluded.bookmarks, concluded.operations⟩
      obtain ⟨o, event, ending, ho⟩ := concluded.ending
      cases canceled.symm.trans ho
      exact state_of_ending ending
  · refine all k i ?_
    rw [requested]
    exact sameCore_announce.instances.symm ▸ hi
  · obtain ⟨states, l, hl, unstarted⟩ := w.unstarted hm
    refine ⟨states, l, ?_, unstarted⟩
    rw [hl, requested]
    rfl

end RunOf

/-- If all its activities are docile, a workflow that waits complies when it is canceled. -/
theorem RunOf.complies {a : Activity} {e : Executor} (h : RunOf a e) (idle : e.state = .idle)
    (docile : ∀ n ∈ e.definition.nodes, n.body.behaviour.Docile) :
    ∀ m, e.cancelWorkflow.2.Underway m → m.outcome = none → m.Complies := by
  intro m hm ho
  have hr := h.reachable.regular.resting_of_idle idle
  have run : RunOf a e.cancelWorkflow.2 := h.served .cancel
  have requested := hr.cancelWorkflow_eq
  rw [requested] at hm run
  obtain ⟨-, proper, same⟩ := run.underway hr.consistent.opened WorkflowState.noConfusion hm
  exact complies_of_heeds proper ho fun n hn body hb => (docile n (same ▸ hn)).heeds hb

/-- All branches wait. -/
def branched : Executor :=
  ((ExecutorCall.run 9).serve (begun .branching)).2

/-- Every branch is canceled, at whatever depth. -/
theorem RunOf.cancel_reaches_branches :
    branched.state = .idle ∧ branched.instances.size = 6 ∧ branched.operations.size = 1 ∧
    (∃ (limit : Nat) (f : Executor),
      (∀ n, limit ≤ n → branched.cancelWorkflow.2.run n = (.ok .canceled, f)) ∧ f.bookmarks = {}) ∧
    ∀ (k : InstanceId) (i : Instance), branched.instances[k]? = some i → i.state.isLive = true →
      ∃ (m : Executor) (j : Instance), branched.cancelWorkflow.2.Underway m ∧
        m.instances[k]? = some j ∧ j.state = .canceled := by
  have started : RunOf .branching (begun .branching) := .created (create_eq_ok.mpr ⟨rfl, rfl, rfl⟩)
  have h : RunOf .branching branched := started.served (.run 9)
  have idle : branched.state = .idle := by decide +kernel
  have arrived : branched.inbox = [] := List.isEmpty_iff.mp (by decide +kernel)
  have unasked : Table.count branched.instances (·.cancelRequested) = 0 := by decide +kernel
  have same : Flows (begun .branching) branched := .serve started.reachable.regular started.bound.1 _
  have docile : ∀ n ∈ branched.definition.nodes, n.body.behaviour.Docile :=
    fun n hn => Activity.docile_branching n (by rwa [same.definition] at hn)
  obtain ⟨-, ⟨limit, f, ends, -, -, bookmarks, -⟩, all, -⟩ := h.cancel_reaches_all idle
    (fun n hn => absurd hn (arrived ▸ List.not_mem_nil))
    (fun k i hi _ => (Table.count_eq_zero_iff _).mp unasked k i hi) (fun n hn => (docile n hn).default)
    (h.complies idle docile)
  exact ⟨idle, by decide +kernel, by decide +kernel, ⟨limit, f, ends, bookmarks⟩, all⟩

/-! ### Late completions -/

/-- A limit that is high enough may be raised. -/
theorem drainQueue_mono (h : drainQueue n e = some f) (hn : n ≤ limit) :
    drainQueue limit e = some f := by
  induction n generalizing e limit with
  | zero =>
    unfold drainQueue at h
    split at h
    · next ho =>
      cases h
      obtain ⟨o, ho⟩ := Option.isSome_iff_exists.mp ho
      exact drainQueue_of_some ho
    · next ho =>
      cases hs : e.step? with
      | none =>
        rw [hs] at h
        cases h
        exact drainQueue_of_empty (by simpa using ho) hs
      | some e' =>
        rw [hs] at h
        exact absurd h (Option.some_ne_none f).symm
  | succ n ih =>
    obtain ⟨limit, rfl⟩ := Nat.exists_eq_add_of_le' (Nat.le_trans (Nat.le_add_left 1 n) hn)
    cases ho : e.outcome with
    | some o =>
      rw [drainQueue_of_some ho] at h ⊢
      exact h
    | none =>
      cases hs : e.step? with
      | none =>
        rw [drainQueue_of_empty ho hs] at h ⊢
        exact h
      | some e' =>
        rw [drainQueue_succ ho hs] at h ⊢
        exact ih h (Nat.le_of_succ_le_succ hn)

/-- What a run comes to does not depend on its limit. -/
theorem run_mono (h : e.run n = (.ok o, f)) (hn : n ≤ limit) : e.run limit = (.ok o, f) := by
  cases ha : e.ensureNotAborted with
  | error v =>
    unfold run at h
    rw [ha] at h
    cases h
  | ok =>
    cases ho : e.announce.outcome with
    | some o' =>
      unfold run at h ⊢
      rw [ha] at h ⊢
      dsimp only at h ⊢
      rw [ho] at h ⊢
      exact h
    | none =>
      rw [run_of_none ha ho] at h ⊢
      cases hd : drainQueue n { e.announce with state := .runnable } with
      | none =>
        rw [hd] at h
        cases h
      | some m =>
        rw [hd] at h
        rw [drainQueue_mono hd hn]
        exact h

/-- If nobody has been asked to cancel and all activities are docile, a run after the request of the host
ends with the outcome that the workflow has been canceled. -/
def IsCancelable (e : Executor) : Prop :=
  (∀ (k : InstanceId) (i : Instance), e.instances[k]? = some i → i.state.isLive = true →
    i.cancelRequested = false) →
  (∀ n ∈ e.definition.nodes, n.body.behaviour.Docile) →
  ∃ (n : Nat) (f : Executor), e.cancelWorkflow.2.run n = (.ok .canceled, f)

/-- Whether a run after the request of the host ends otherwise. -/
def endsOtherwise (e : Executor) (limit : Nat) : Bool :=
  match (e.cancelWorkflow.2.run limit).1 with
  | .ok .canceled => false
  | .ok _ => true
  | .error _ => false

theorem not_isCancelable (limit : Nat) (unasked : Table.count e.instances (·.cancelRequested) = 0)
    (docile : ∀ n ∈ e.definition.nodes, n.body.behaviour.Docile) (h : e.endsOtherwise limit = true) :
    ¬ e.IsCancelable := by
  intro hc
  obtain ⟨n, f, hf⟩ := hc (fun k i hi _ => (Table.count_eq_zero_iff _).mp unasked k i hi) docile
  unfold endsOtherwise at h
  cases hr : e.cancelWorkflow.2.run limit with
  | mk result r =>
    rw [hr] at h
    cases result with
    | error _ => exact Bool.false_ne_true h
    | ok o =>
      have same := (run_mono hf (Nat.le_max_left n limit)).symm.trans
        (run_mono hr (Nat.le_max_right n limit))
      cases same
      exact Bool.false_ne_true h

/-- An operation has failed while the workflow waits for it. -/
def failing : Executor :=
  ((ExecutorCall.complete ⟨1⟩ (.error (.custom "x" []))).serve
    ((ExecutorCall.run 5).serve (begun (.parallel [.pending "call"]))).2).2

/-- A workflow that waits, restored in the definition of an impostor. -/
def mistaken? : Option Executor :=
  (((ExecutorCall.run 5).serve (begun .disguised)).2.capture ⟨0, 0⟩).toOption.bind fun s =>
    (s.restore Activity.impostor.prepare 1).toOption

/-- A completion that has arrived before the request of the host is still heeded, and code does not agree
to cancel that has come to wait because its definition was taken for another one. -/
theorem not_cancel_reaches_all :
    (¬ ∀ (a : Activity) (e : Executor), RunOf a e → e.state = .idle → e.IsCancelable) ∧
    ¬ ∀ e : Executor, e.Reachable → e.state = .idle →
      (∀ n ∈ e.inbox, e.operations[n.operation]? = none) → e.IsCancelable := by
  refine ⟨fun claim => ?_, fun claim => ?_⟩
  · have started : RunOf (.parallel [.pending "call"]) (begun (.parallel [.pending "call"])) :=
      .created (create_eq_ok.mpr ⟨rfl, rfl, rfl⟩)
    have waited := started.served (.run 5)
    have same : Flows (begun (.parallel [.pending "call"])) failing :=
      (Flows.serve started.reachable.regular started.bound.1 _).trans
        (.serve waited.reachable.regular waited.bound.1 _)
    refine not_isCancelable 9 (by decide +kernel) ?_ (by decide +kernel)
      (claim _ failing (waited.served _) (by decide +kernel))
    rw [same.definition]
    refine Activity.docile_prepare ?_
    simp only [Activity.parallel, Activity.ofNative, Activity.pending, Activity.nodes, Activity.forest,
      List.map_cons, List.map_nil, List.append_nil, List.forall_mem_cons]
    exact ⟨.native _, .async _, fun _ hb => absurd hb List.not_mem_nil⟩
  · obtain ⟨s, hs⟩ : ∃ s, ((ExecutorCall.run 5).serve (begun .disguised)).2.capture ⟨0, 0⟩ = .ok s :=
      exists_captured (by decide +kernel)
    have facts : (mistaken?.any fun r => r.state = .idle && r.inbox.isEmpty &&
        r.definition.nodes.all (·.body.kind = .code) &&
        Table.count r.instances (·.cancelRequested) = 0 && r.endsOtherwise 9) = true := by
      decide +kernel
    obtain ⟨r, hr, facts⟩ := (Option.any_eq_true _ _).mp facts
    simp only [Bool.and_eq_true, decide_eq_true_eq, List.isEmpty_iff, List.all_eq_true] at facts
    obtain ⟨⟨⟨⟨idle, arrived⟩, code⟩, unasked⟩, otherwise⟩ := facts
    have restored : s.restore Activity.impostor.prepare 1 = .ok r := by
      rw [mistaken?, hs] at hr
      cases hx : s.restore Activity.impostor.prepare 1 with
      | ok r' => simpa [Except.toOption, hx] using hr
      | error _ => simp [Except.toOption, hx] at hr
    have reachable : r.Reachable :=
      ((Reachable.begun (a := .disguised) rfl rfl).served (.run 5)).restored hs restored
    refine not_isCancelable 9 unasked (fun n hn => .of_code (code n hn)) otherwise
      (claim r reachable idle fun n hn => ?_)
    rw [arrived] at hn
    exact absurd hn List.not_mem_nil

end Executor

end Workflow
