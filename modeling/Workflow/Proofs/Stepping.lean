import Workflow.Proofs.Unheeded

/-!
# Item by item

A host may call for one item at a time instead of a run. The workflow is idle then whenever its queue
is empty, even if a completion has arrived, and reports more often that it is; no item notices. As soon
as a call finds nothing to do, a run would have ended there too: after the same items, with the same
workflow.
-/

namespace Workflow

/-- Events without the news that the workflow is idle. -/
def stirring (xs : List TrackingEvent) : List TrackingEvent :=
  xs.filter (· != .lifecycle .idle)

/-- An activity that completes its operation while it begins it. -/
def Activity.prompt : Activity :=
  .mk "prompt" ⟨"prompt", "prompt", fun _ => [], .async { start := fun operation => do
    discard <| Program.request (.operation (.complete operation (.ok .null))) }⟩ [] [] []

theorem stirring_append (xs ys : List TrackingEvent) :
    stirring (xs ++ ys) = stirring xs ++ stirring ys :=
  List.filter_append ..

namespace Executor

variable {e e' r s : Executor} {t : TrackingProvider} {n limit : Nat} {items : List WorkItem}
variable {B : Bond} {o : Outcome}

/-! ### The items of runs and of single calls -/

/-- The item that the next step does. -/
def nextItem? (e : Executor) : Option WorkItem :=
  e.drainInbox.2.queue.pop?.map (·.1)

/-- The items that are done, in order, while up to the given number of items is done. -/
def itemsDone : Nat → Executor → List WorkItem
  | 0, _ => []
  | limit + 1, e =>
    if e.outcome.isSome then []
    else
      match e.step? with
      | none => []
      | some e' => e.nextItem?.toList ++ itemsDone limit e'

/-- The items that a run does, in order. -/
def runItems (limit : Nat) (e : Executor) : List WorkItem :=
  itemsDone limit { e.announce with state := .runnable }

/-- Call for one item after another, at most so many times, until a call finds none; the items, in
order, and the executor after that call. -/
def stepThrough : Nat → Executor → Option (List WorkItem × Executor)
  | 0, _ => none
  | n + 1, e =>
    match e.runOneStep with
    | (.error _, _) => none
    | (.ok false, e') => some ([], e')
    | (.ok true, e') => (stepThrough n e').map fun (items, s) => (e.announce.nextItem?.toList ++ items, s)

theorem exists_nextItem (h : e.step? = some e') : ∃ w, e.nextItem? = some w := by
  rw [step?_eq, Option.map_eq_some_iff] at h
  obtain ⟨⟨w, q⟩, hq, -⟩ := h
  exact ⟨w, by rw [nextItem?, hq, Option.map_some]⟩

/-- The same item is next for both. -/
theorem Bonded.nextItem? (h : Bonded B e r) : r.nextItem? = e.nextItem? := by
  unfold Executor.nextItem?
  obtain ⟨he, hr⟩ | ⟨w, q, q', he, hr, -⟩ := h.drainInbox.2.pop?
  · rw [he, hr]
  · rw [he, hr]
    rfl

theorem announce_of_none (h : e.announcement = none) : e.announce = e := by
  unfold announce
  rw [h]

/-- What a call for one item does while the workflow goes on. -/
theorem runOneStep_of_open (ha : e.announcement = none) (hn : e.state ≠ .aborted)
    (ho : e.outcome = none) : e.runOneStep =
      match e.step? with
      | none => (.ok false, e.settle.2)
      | some e' =>
        if e'.queue.isEmpty then (.ok true, e'.settle.2)
        else if e'.outcome.isNone then (.ok true, { e' with state := .runnable })
        else (.ok true, e') := by
  unfold runOneStep
  rw [ensureNotAborted, if_neg hn]
  dsimp only
  rw [announce_of_none ha, ho]
  rfl

/-- A call for one item leaves a workflow that has an outcome. -/
theorem runOneStep_of_some (hn : e.state ≠ .aborted) (ho : e.announce.outcome = some o) :
    e.runOneStep = (.ok false, e.announce) := by
  unfold runOneStep
  rw [ensureNotAborted, if_neg hn]
  dsimp only
  rw [ho]
  rfl

/-- Nothing changes if a state is replaced by itself. -/
theorem withState_self {state : WorkflowState} (hs : e.state = state) :
    { e with state := state } = e := by
  cases e
  cases hs
  rfl

/-- Nothing is next if nothing waits and nothing has arrived. -/
theorem step?_of_empty (hw : e.queue.work = []) (hi : e.inbox = []) :
    e.step? = none ∧ e.nextItem? = none := by
  have hq : e.drainInbox.2.queue.pop? = none := by
    rw [drainInbox, hi]
    change e.queue.pop? = none
    cases hq : e.queue.pop? with
    | none => rfl
    | some next =>
      rw [WorkQueue.work_of_pop? hq] at hw
      exact absurd hw (List.cons_ne_nil _ _)
  rw [step?_eq, nextItem?, hq]
  exact ⟨rfl, rfl⟩

/-- It makes no difference to the next item that the workflow is idle while its queue is empty. -/
theorem step?_of_idle (hs : e.state = .runnable) (hw : e.queue.work = []) :
    step? { e with state := .idle } = e.step? ∧ nextItem? { e with state := .idle } = e.nextItem? := by
  by_cases hi : e.inbox = []
  · obtain ⟨hn, hn'⟩ := step?_of_empty hw hi
    have hr := step?_of_empty (e := { e with state := .idle }) hw hi
    exact ⟨hr.1.trans hn.symm, hr.2.trans hn'.symm⟩
  · -- Both are runnable once a completion is queued.
    obtain ⟨news, rest, hi⟩ := List.exists_cons_of_ne_nil hi
    have hd : (drainInbox { e with state := .idle }).2 = e.drainInbox.2 := by
      rw [drainInbox, drainInbox, hs]
      dsimp only
      rw [hi]
      rfl
    rw [step?_eq, step?_eq, nextItem?, nextItem?, hd]
    exact ⟨rfl, rfl⟩

/-! ### How work goes on -/

theorem drainQueue_of_some (ho : e.outcome = some o) : drainQueue limit e = some e := by
  unfold drainQueue
  rw [ho]
  rfl

theorem itemsDone_of_some (ho : e.outcome = some o) : itemsDone limit e = [] := by
  cases limit with
  | zero => rfl
  | succ limit =>
    rw [itemsDone, ho]
    rfl

theorem drainQueue_of_empty (ho : e.outcome = none) (hs : e.step? = none) :
    drainQueue limit e = some e := by
  unfold drainQueue
  rw [ho, hs]
  cases limit <;> rfl

theorem itemsDone_of_empty (ho : e.outcome = none) (hs : e.step? = none) :
    itemsDone limit e = [] := by
  cases limit with
  | zero => rfl
  | succ limit =>
    rw [itemsDone, ho, hs]
    rfl

theorem drainQueue_succ (ho : e.outcome = none) (hs : e.step? = some e') :
    drainQueue (limit + 1) e = drainQueue limit e' := by
  conv => lhs; unfold drainQueue
  rw [ho, hs]
  rfl

theorem itemsDone_succ (ho : e.outcome = none) (hs : e.step? = some e') :
    itemsDone (limit + 1) e = e.nextItem?.toList ++ itemsDone limit e' := by
  rw [itemsDone, ho, hs]
  rfl

/-! ### Pace -/

/-- Two providers have been told of the same events, but for the news that the workflow is idle. -/
def ToldStirring (t : TrackingProvider) (w : WorkflowId) (u u' : TrackingProvider) : Prop :=
  ∃ xs ys, u = t.tell w xs ∧ u' = t.tell w ys ∧ stirring xs = stirring ys

theorem ToldStirring.emit {w : WorkflowId} {u u' : TrackingProvider} (h : ToldStirring t w u u')
    (x : TrackingEvent) : ToldStirring t w (u.emit w x) (u'.emit w x) := by
  obtain ⟨xs, ys, rfl, rfl, hxs⟩ := h
  refine ⟨xs ++ [x], ys ++ [x], (t.tell_append w xs [x]).symm, (t.tell_append w ys [x]).symm, ?_⟩
  rw [stirring_append, stirring_append, hxs]

theorem ToldStirring.symm {w : WorkflowId} {u u' : TrackingProvider} (h : ToldStirring t w u u') :
    ToldStirring t w u' u := by
  obtain ⟨xs, ys, hu, hu', hxs⟩ := h
  exact ⟨ys, xs, hu', hu, hxs.symm⟩

/-- One of them may be told once more that the workflow is idle. -/
theorem ToldStirring.idle {w : WorkflowId} {u u' : TrackingProvider} (h : ToldStirring t w u u') :
    ToldStirring t w u (u'.emit w (.lifecycle .idle)) := by
  obtain ⟨xs, ys, hu, rfl, hxs⟩ := h
  refine ⟨xs, ys ++ [.lifecycle .idle], hu, ?_, ?_⟩
  · exact (t.tell_append w ys [.lifecycle .idle]).symm
  · rw [stirring_append, hxs]
    exact (List.append_nil _).symm

/-- Two executors differ only in how often they have reported that the workflow is idle. -/
def pacing (t : TrackingProvider) : Bond :=
  .ofTracking (ToldStirring t) ToldStirring.emit

theorem bonded_pacing_iff : Bonded (pacing t) e r ↔
    ∃ u, ToldStirring t e.workflow e.tracking u ∧ r = e.withTracking u :=
  bonded_ofTracking_iff

/-- A workflow in the middle of a run, and the same workflow between calls for single items: that one
may be idle while its queue is empty. -/
structure Paced (t : TrackingProvider) (e r : Executor) : Prop where
  announced : e.announcement = none
  unaborted : e.state ≠ .aborted
  running : e.outcome = none → e.state = .runnable
  beside : Bonded (pacing t) e r ∨
    e.outcome = none ∧ e.queue.work = [] ∧ Bonded (pacing t) { e with state := .idle } r

namespace Paced

/-- Single calls go on as long as the run. -/
theorem open_right (h : Paced t e r) (ho : e.outcome = none) :
    r.announcement = none ∧ r.state ≠ .aborted ∧ r.outcome = none := by
  obtain hb | ⟨-, -, hb⟩ := h.beside
  · obtain ⟨u, -, rfl⟩ := bonded_pacing_iff.mp hb
    exact ⟨h.announced, h.unaborted, ho⟩
  · obtain ⟨u, -, rfl⟩ := bonded_pacing_iff.mp hb
    exact ⟨h.announced, WorkflowState.noConfusion, ho⟩

/-- Both have the same item before them, or none. -/
theorem step? (h : Paced t e r) (ho : e.outcome = none) : r.nextItem? = e.nextItem? ∧
    (e.step? = none ∧ r.step? = none ∨
      ∃ e' r', e.step? = some e' ∧ r.step? = some r' ∧ Bonded (pacing t) e' r') := by
  obtain hb | ⟨-, hw, hb⟩ := h.beside
  · exact ⟨hb.nextItem?, hb.step?⟩
  · obtain ⟨hs, hi⟩ := step?_of_idle (h.running ho) hw
    exact ⟨hb.nextItem?.trans hi, hs ▸ hb.step?⟩

/-- When nothing is left to do, both are idle. -/
theorem finish (h : Paced t e r) (ho : e.outcome = none) (hst : e.step? = none) :
    ∃ r', r.runOneStep = (.ok false, r') ∧ Bonded (pacing t) e.settle.2 r' := by
  obtain ⟨har, hnr, hor⟩ := h.open_right ho
  have hr : r.step? = none := by
    obtain ⟨-, ⟨-, hr⟩ | ⟨e', r', he, -, -⟩⟩ := h.step? ho
    · exact hr
    · exact absurd (hst.symm.trans he) (Option.some_ne_none e').symm
  refine ⟨r.settle.2, by rw [runOneStep_of_open har hnr hor, hr], ?_⟩
  obtain hb | ⟨-, -, hb⟩ := h.beside
  · exact hb.settle.2
  · have hir : r.state = .idle := hb.state
    rw [settle_of_none ho, settle_of_none hor, h.running ho, if_pos hir]
    obtain ⟨u, told, rfl⟩ := bonded_pacing_iff.mp hb
    exact bonded_pacing_iff.mpr ⟨u, told.symm.idle.symm, rfl⟩

/-- Both do the next item, and they keep pace. -/
theorem step (h : Paced t e r) (ho : e.outcome = none) (hst : e.step? = some e') :
    ∃ r', r.runOneStep = (.ok true, r') ∧ Paced t e' r' := by
  obtain ⟨har, hnr, hor⟩ := h.open_right ho
  obtain ⟨-, ⟨he, -⟩ | ⟨e₁, r', he, hr, hb⟩⟩ := h.step? ho
  · exact absurd (hst.symm.trans he) (Option.some_ne_none e')
  cases hst.symm.trans he
  have hs := h.running ho
  have effect : e'.announcement = e.announcement ∧ e'.state ≠ .aborted ∧
      (e'.outcome = none → e'.state = .runnable) := by
    cases Effect.step hst with
    | quiet hq =>
      have hs' : e'.state = .runnable := hq.state.elim (·.trans hs) And.right
      exact ⟨hq.announcement, hs' ▸ WorkflowState.noConfusion, fun _ => hs'⟩
    | ends hq hf =>
      obtain ⟨o, hout, -⟩ := hf.outcome
      exact ⟨hf.announcement.trans hq.announcement, ne_aborted_of_completed hf.state,
        fun hn => absurd (hout.symm.trans hn) (Option.some_ne_none o)⟩
  obtain ⟨ha, hn, hrun⟩ := effect
  rw [runOneStep_of_open har hnr hor, hr]
  dsimp only
  cases ho' : e'.outcome with
  | some o =>
    have hor' : r'.outcome = some o := hb.outcome.trans ho'
    refine ⟨r', ?_, ha.trans h.announced, hn, hrun, .inl hb⟩
    rw [settle_of_some hor', hor']
    split <;> rfl
  | none =>
    have hor' : r'.outcome = none := hb.outcome.trans ho'
    have hsr' : r'.state = .runnable := hb.state.trans (hrun ho')
    split
    · next hq =>
      refine ⟨_, rfl, ha.trans h.announced, hn, hrun, .inr ⟨ho', ?_, ?_⟩⟩
      · rw [WorkQueue.isEmpty_eq_lanes, hb.lanes, ← WorkQueue.isEmpty_eq_lanes] at hq
        exact WorkQueue.isEmpty_iff.mp hq
      · rw [settle_of_none hor', hsr', if_neg WorkflowState.noConfusion]
        obtain ⟨u, told, rfl⟩ := bonded_pacing_iff.mp hb
        exact bonded_pacing_iff.mpr ⟨_, told.idle, rfl⟩
    · rw [if_pos (Option.isNone_iff_eq_none.mpr hor'), withState_self hsr']
      exact ⟨r', rfl, ha.trans h.announced, hn, hrun, .inl hb⟩

/-- If single calls come to an end, so does a run, after the same items. -/
theorem stepThrough (h : Paced t e r) (hs : r.stepThrough n = some (items, s)) :
    ∃ f, (∀ limit, items.length ≤ limit → drainQueue limit e = some f ∧ itemsDone limit e = items) ∧
      Bonded (pacing t) f.settle.2 s := by
  induction n generalizing e r items with
  | zero => exact absurd hs (Option.some_ne_none _).symm
  | succ n ih =>
    unfold Executor.stepThrough at hs
    cases ho : e.outcome with
    | some o =>
      -- The workflow has ended.
      have hb : Bonded (pacing t) e r := by
        obtain hb | ⟨hn, -, -⟩ := h.beside
        · exact hb
        · exact absurd (ho.symm.trans hn) (Option.some_ne_none o)
      have har : r.announce = r := by
        obtain ⟨u, -, rfl⟩ := bonded_pacing_iff.mp hb
        exact announce_of_none h.announced
      have hor : r.announce.outcome = some o := har.symm ▸ hb.outcome.trans ho
      rw [runOneStep_of_some (hb.state ▸ h.unaborted) hor, har] at hs
      cases hs
      exact ⟨e, fun limit _ => ⟨drainQueue_of_some ho, itemsDone_of_some ho⟩,
        (settle_of_some ho).symm ▸ hb⟩
    | none =>
      cases hst : e.step? with
      | none =>
        -- Nothing is left to do.
        obtain ⟨r', hr, hb⟩ := h.finish ho hst
        rw [hr] at hs
        cases hs
        exact ⟨e, fun limit _ => ⟨drainQueue_of_empty ho hst, itemsDone_of_empty ho hst⟩, hb⟩
      | some e' =>
        -- One more item is done by both.
        obtain ⟨r', hr, hp⟩ := h.step ho hst
        rw [hr] at hs
        obtain ⟨⟨rest, s'⟩, hrest, heq⟩ := Option.map_eq_some_iff.mp hs
        cases heq
        obtain ⟨f, hf, hb⟩ := ih hp hrest
        obtain ⟨w, hw⟩ := exists_nextItem hst
        rw [announce_of_none (h.open_right ho).1, (h.step? ho).1, hw]
        refine ⟨f, fun limit hl => ?_, hb⟩
        cases limit with
        | zero => exact absurd hl (Nat.not_succ_le_zero _)
        | succ limit =>
          obtain ⟨hd, hi⟩ := hf limit (Nat.le_of_succ_le_succ hl)
          exact ⟨(drainQueue_succ ho hst).trans hd, by rw [itemsDone_succ ho hst, hw, hi]⟩

end Paced

/-! ### Runs -/

/-- A change is announced once. -/
theorem announce_announce (e : Executor) : e.announce.announce = e.announce :=
  announce_of_none (announce_moves (p := True) e).2.1

/-- Calls for single items are refused after an abort. -/
theorem unaborted_of_stepThrough (hs : e.stepThrough n = some (items, s)) : e.state ≠ .aborted := by
  intro ha
  cases n with
  | zero => exact absurd hs (Option.some_ne_none _).symm
  | succ n =>
    rw [stepThrough, runOneStep, ensureNotAborted, if_pos ha] at hs
    exact absurd hs (Option.some_ne_none _).symm

/-- Single calls begin with the announcement, as a run does. -/
theorem stepThrough_announce (hn : e.state ≠ .aborted) (n : Nat) :
    e.announce.stepThrough n = e.stepThrough n := by
  cases n with
  | zero => rfl
  | succ n =>
    have hn' : e.announce.state ≠ .aborted := sameCore_announce.state.symm ▸ hn
    have hr : e.announce.runOneStep = e.runOneStep := by
      rw [runOneStep, runOneStep, ensureNotAborted, ensureNotAborted, if_neg hn, if_neg hn',
        announce_announce]
    rw [stepThrough, stepThrough, hr, announce_announce]

theorem settle_fst (e : Executor) : e.settle.1 = e.settle.2.outcome.getD .idle := by
  cases ho : e.outcome with
  | some o =>
    rw [settle_of_some ho, ho]
    rfl
  | none =>
    rw [settle_of_none ho]
    split <;> simp [trackLifecycle, track, ho]

/-- At the beginning of a run that goes on, single calls keep pace with it. -/
theorem Regular.paced (h : e.Regular) (hn : e.state ≠ .aborted) (ho : e.outcome = none) :
    Paced e.tracking { e.announce with state := .runnable } e.announce := by
  have same : SameCore e e.announce := sameCore_announce
  obtain ⟨⟨xs, hm⟩, ha, -, -⟩ := announce_moves (p := True) e
  have told : ToldStirring e.tracking e.announce.workflow e.announce.tracking
      e.announce.tracking := by
    rw [hm.tells.workflow, hm.tells.tracking]
    exact ⟨xs, xs, rfl, rfl, rfl⟩
  refine ⟨ha, WorkflowState.noConfusion, fun _ => rfl, ?_⟩
  obtain ⟨-, hs | ⟨hs, hw⟩⟩ := h.open ho hn
  · rw [withState_self (same.state.trans hs)]
    exact .inl (bonded_pacing_iff.mpr ⟨_, told, rfl⟩)
  · refine .inr ⟨same.outcome.trans ho, (congrArg WorkQueue.work same.queue).trans hw, ?_⟩
    have idle : { e.announce with state := .idle } = e.announce :=
      withState_self (same.state.trans hs)
    exact bonded_pacing_iff.mpr ⟨_, told, idle.symm⟩

/-- If calls for single items come to an end, because one of them finds nothing to do, then a run that
may do as many items would have ended too, with the outcome that the workflow has then. It would have
done the same items in the same order, with the same calls to the bodies, and left the same workflow:
its instances, bookmarks, scopes, operations, counters, state, outcome and journal. Only its audience
may have heard less often that the workflow is idle. -/
theorem Reachable.steps_as_run (h : e.Reachable) (hs : e.stepThrough n = some (items, s)) :
    ∃ (r : Executor) (xs ys : List TrackingEvent),
      (∀ limit, items.length ≤ limit →
        e.run limit = (.ok (s.outcome.getD .idle), r) ∧ e.runItems limit = items) ∧
      r = s.withTracking r.tracking ∧
      r.tracking = e.tracking.tell e.workflow xs ∧ s.tracking = e.tracking.tell e.workflow ys ∧
      stirring xs = stirring ys := by
  have hn := unaborted_of_stepThrough hs
  have hok : e.ensureNotAborted = .ok () := if_neg hn
  rw [← stepThrough_announce hn] at hs
  cases ho : e.outcome with
  | some o =>
    have ho' : e.announce.outcome = some o := sameCore_announce.outcome.trans ho
    obtain ⟨⟨xs, hm⟩, -, -, -⟩ := announce_moves (p := True) e
    have same : items = [] ∧ s = e.announce := by
      cases n with
      | zero => exact absurd hs (Option.some_ne_none _).symm
      | succ n =>
        have hn' : e.announce.state ≠ .aborted := sameCore_announce.state.symm ▸ hn
        rw [stepThrough, runOneStep_of_some hn' (by rw [announce_announce, ho']), announce_announce]
          at hs
        cases hs
        exact ⟨rfl, rfl⟩
    obtain ⟨rfl, rfl⟩ := same
    refine ⟨e.announce, xs, xs, fun limit _ => ⟨?_, itemsDone_of_some (o := o) ho'⟩, rfl,
      hm.tells.tracking, hm.tells.tracking, rfl⟩
    rw [run_of_some hok ho', ho']
    rfl
  | none =>
    have ho' : e.announce.outcome = none := sameCore_announce.outcome.trans ho
    obtain ⟨f, hf, hb⟩ := (h.regular.paced hn ho).stepThrough hs
    have hr : ∀ limit, items.length ≤ limit →
        e.run limit = (.ok (s.outcome.getD .idle), f.settle.2) ∧ e.runItems limit = items := by
      intro limit hl
      obtain ⟨hd, hi⟩ := hf limit hl
      refine ⟨?_, hi⟩
      rw [run_of_none hok ho', hd, hb.outcome, ← settle_fst]
    have hw : f.settle.2.workflow = e.workflow := by
      obtain ⟨xs, hm⟩ := run_moves (p := True) e items.length
      rw [(hr _ (Nat.le_refl _)).1] at hm
      exact hm.tells.workflow
    obtain ⟨u, ⟨xs, ys, hx, hy, hxs⟩, rfl⟩ := bonded_pacing_iff.mp hb
    exact ⟨f.settle.2, xs, ys, hr, rfl, hw ▸ hx, hw ▸ hy, hxs⟩

/-- A new workflow of an activity that completes its operation at once, beside one that waits. -/
def prompted : Executor :=
  (begun (.parallel [.waitAt "go", .prompt])).withTracking keeper

/-- After the third call the queue is empty and a completion has arrived. Called item by item, the
workflow is idle then, and once more at the end; in a run it is idle at the end only. -/
theorem steps_as_run_prompted : ∃ (items : List WorkItem) (s r : Executor),
    prompted.stepThrough 6 = some (items, s) ∧ items.length = 5 ∧
    prompted.run 5 = (.ok (s.outcome.getD .idle), r) ∧ prompted.runItems 5 = items ∧
    r = s.withTracking r.tracking ∧
    (s.seenBy 0).countP (· == .lifecycle .idle) = 2 ∧
    (r.seenBy 0).countP (· == .lifecycle .idle) = 1 := by
  have reachable : prompted.Reachable := (Reachable.begun rfl rfl).served (.withTracking keeper)
  have count : (prompted.stepThrough 6).map (·.1.length) = some 5 := by decide +kernel
  obtain ⟨⟨items, s⟩, hs, hl⟩ := Option.map_eq_some_iff.mp count
  obtain ⟨r, xs, ys, hr, same, -, -, -⟩ := reachable.steps_as_run hs
  obtain ⟨run, done⟩ := hr 5 (Nat.le_of_eq hl)
  have heard : (prompted.stepThrough 6).map (fun x => (x.2.seenBy 0).countP (· == .lifecycle .idle)) =
      some 2 := by decide +kernel
  have told : ((prompted.run 5).2.seenBy 0).countP (· == .lifecycle .idle) = 1 := by decide +kernel
  rw [hs] at heard
  rw [run] at told
  exact ⟨items, s, r, hs, hl, run, done, same, Option.some.inj heard, told⟩

end Executor

end Workflow
