import Workflow.Proofs.Reachable

/-!
# What instances wait for

A live instance counts exactly what it waits for, so a workflow that waits has something that can
wake it.
-/

namespace Workflow.Executor

variable {e : Executor} {k : InstanceId} {i : Instance}

/-- Every live instance of a regular executor counts what it waits for. -/
theorem Regular.balanced (h : e.Regular) : e.Balanced := by
  intro k i hi hl
  cases h with
  | working h => exact h.balanced k i hi hl
  | resting h => exact h.consistent.balanced k i hi hl
  | finished h => exact absurd (isLive_iff.mpr ⟨i, hi, hl⟩) (by rw [h.not_isLive]; decide)
  | aborted h =>
    rw [h.instances] at hi
    simp at hi

/-- Between two items of work a live instance counts exactly its children, the blocking bookmarks and
the operations that it owns, and the queued resumptions that release it. None has ever stopped
waiting for something while it waited for nothing. -/
theorem Reachable.busy_exact (h : e.Reachable) :
    (∀ (k : InstanceId) (i : Instance), e.instances[k]? = some i → i.state.isLive = true →
      i.busy = i.children.length + e.bookmarks.blocking k + OperationTable.owed e.operations k +
        e.queue.releasing k) ∧
    e.isOverdrawn = false := by
  refine ⟨fun k i hi hl => ?_, h.regular.sober⟩
  have hb := h.regular.balanced k i hi hl
  rw [dues] at hb
  omega

/-- Two activities that wait side by side. -/
def waitingPair : Executor :=
  (ExecutorCall.converse (begun (.parallel [.waitAt "go", .waitAt "stay"])) [.run 5]).2

/-- Two activities that wait side by side come about. -/
theorem reachable_waitingPair : waitingPair.Reachable :=
  (Reachable.begun rfl rfl).converse _

/-- The two after the bookmark of the first was resumed. -/
def resumedPair : Executor :=
  (waitingPair.resumeBookmark ⟨.default, "go"⟩ .null .low).2

/-- The first of the two still counts its bookmark, as the resumption is queued. -/
theorem busy_exact_resumed : resumedPair.Reachable ∧ resumedPair.queue.releasing ⟨2⟩ = 1 ∧
    ∃ i : Instance, resumedPair.instances[(⟨2⟩ : InstanceId)]? = some i ∧ i.state.isLive = true ∧
      i.busy = i.children.length + resumedPair.bookmarks.blocking ⟨2⟩ +
        OperationTable.owed resumedPair.operations ⟨2⟩ + resumedPair.queue.releasing ⟨2⟩ := by
  have h : resumedPair.Reachable :=
    reachable_waitingPair.served (.resumeBookmark ⟨.default, "go"⟩ .null .low)
  obtain ⟨i, hi, hl⟩ := isLive_iff.mp (show resumedPair.isLive ⟨2⟩ = true by decide +kernel)
  exact ⟨h, by decide +kernel, i, hi, hl, h.busy_exact.1 ⟨2⟩ i hi hl⟩

/-- The two after the first has completed, and before the activity above them is told. -/
def closedPair : Executor :=
  (ExecutorCall.runOneStep.serve resumedPair).2

/-- The two after the activity above them was told that the first has completed. -/
def partedPair : Executor :=
  (ExecutorCall.runOneStep.serve closedPair).2

/-- An executor whose workflow is idle waits. -/
theorem Regular.resting_of_idle (h : e.Regular) (hs : e.state = .idle) : e.Resting := by
  cases h with
  | working h =>
    rw [h.running] at hs
    exact WorkflowState.noConfusion hs
  | resting h => exact h
  | finished h => exact absurd hs (h.state_ne rfl)
  | aborted h =>
    rw [h.state] at hs
    exact WorkflowState.noConfusion hs

namespace Resting

/-- An instance without children waits for a blocking bookmark or for an operation. -/
theorem awaits (h : e.Resting) (hi : e.instances[k]? = some i) (hc : i.children = []) :
    (∃ (b : Bookmark) (g : Registration), e.bookmarks.registrations[b]? = some g ∧ g.owner = k ∧
      g.options.isBlocking = true) ∨ ∃ o : OperationId, e.operations[o]? = some k := by
  obtain ⟨hl, hx⟩ := h.live_executed hi
  have hw : i.busy ≠ 0 := h.consistent.placed.waiting hi hl id hx
  have hb : i.busy = i.children.length + e.dues k := h.consistent.balanced k i hi hl
  have hq : e.queue.releasing k = 0 := by
    rw [WorkQueue.releasing, h.work]
    rfl
  rw [hc, List.length_nil, dues, hq] at hb
  by_cases hn : e.bookmarks.blocking k = 0
  · exact .inr (OperationTable.exists_of_owed_ne_zero _ (by omega))
  · exact .inl (Registry.exists_of_blocking_ne_zero hn)

/-- Some instance has no children. -/
theorem exists_childless (h : e.Resting) :
    ∃ (k : InstanceId) (i : Instance), e.instances[k]? = some i ∧ i.children = [] := by
  have ht := h.consistent.placed.tree
  obtain ⟨r, hr, -⟩ := ht.rooted
  -- From the root down, every child is younger, and no instance is younger than the next one.
  have down : ∀ (n : Nat) (k : InstanceId) (i : Instance), e.instances[k]? = some i →
      e.nextInstance - k.number ≤ n →
      ∃ (k : InstanceId) (i : Instance), e.instances[k]? = some i ∧ i.children = [] := by
    intro n
    induction n with
    | zero =>
      intro k i hi hn
      have hk : k.number < e.nextInstance := ht.below hi
      omega
    | succ n ih =>
      intro k i hi hn
      cases hc : i.children with
      | nil => exact ⟨k, i, hi, hc⟩
      | cons c rest =>
        obtain ⟨j, hj, hp⟩ := ht.linked hi (hc ▸ List.mem_cons_self)
        have hkc : k.number < c.number := ht.older hj hp
        have hcn : c.number < e.nextInstance := ht.below hj
        exact ih c j hj (by omega)
  exact down _ _ _ hr (Nat.le_refl _)

end Resting

/-- A step is made when something is queued or has arrived. -/
theorem runOneStep_of_work (ho : e.outcome = none) (ha : e.state ≠ .aborted)
    (hw : e.inbox ≠ [] ∨ e.queue.work ≠ []) : e.runOneStep.1 = .ok true := by
  have hs : SameCore e e.announce := sameCore_announce
  have hi : e.announce.inbox = e.inbox := inbox_announce
  have ran := e.ranOnce
  generalize e.runOneStep = r at ran ⊢
  cases ran with
  | refused aborted => exact absurd aborted ha
  | ended _ ended => exact absurd (hs.outcome.trans ho) ended
  | unemployed _ _ hn =>
    obtain ⟨hin, hqn⟩ := of_step?_none hn
    rw [hi] at hin
    rw [hs.queue] at hqn
    exact absurd hw (by simp [hin, hqn])
  | settled _ _ _ _ | working _ _ _ _ _ | completed _ _ _ _ _ => rfl

/-- The listed bookmarks are the registered ones. -/
theorem exists_mem_infos_iff {b : Bookmark} :
    (∃ info ∈ e.bookmarkInfos, info.bookmark = b) ↔ ∃ g ∈ e.bookmarks.toList, g.bookmark = b := by
  simp only [bookmarkInfos, List.partition_eq_filter_filter, List.mem_map]
  constructor
  · rintro ⟨_, ⟨g, hg, rfl⟩, hb⟩
    exact ⟨g, (List.mem_append.mp hg).elim List.mem_of_mem_filter List.mem_of_mem_filter, hb⟩
  · rintro ⟨g, hg, hb⟩
    refine ⟨_, ⟨g, ?_, rfl⟩, hb⟩
    rw [List.mem_append, List.mem_filter, List.mem_filter]
    cases ho : e.isOwnScope g.bookmark.scope with
    | false => exact .inr ⟨hg, by simp [ho]⟩
    | true => exact .inl ⟨hg, rfl⟩

/-- A listed bookmark can be resolved. -/
theorem Owned.resolve?_of_mem_infos (h : e.Owned) {info : BookmarkInfo}
    (hm : info ∈ e.bookmarkInfos) : ∃ g, e.bookmarks.resolve? info.bookmark = some g := by
  obtain ⟨g, hg, hb⟩ := exists_mem_infos_iff.mp ⟨info, hm, rfl⟩
  have hp : (g.bookmark, g) ∈ e.bookmarks.registrations.toList := by
    rw [← h.map_toList]
    exact List.mem_map_of_mem hg
  rw [hb] at hp
  exact ⟨g, e.bookmarks.registrations.mem_toList_iff_getElem?_eq_some.mp hp⟩

/-- A workflow with a registered bookmark lists some. -/
theorem infos_ne_nil {b : Bookmark} {g : Registration}
    (hg : e.bookmarks.registrations[b]? = some g) : e.bookmarkInfos ≠ [] := by
  have hm : g ∈ e.bookmarks.toList := by
    rw [Registry.toList, Table.values_eq_map]
    exact List.mem_map_of_mem (e.bookmarks.registrations.mem_toList_iff_getElem?_eq_some.mpr hg)
  obtain ⟨info, hi, -⟩ := exists_mem_infos_iff.mpr ⟨g, hm, rfl⟩
  exact List.ne_nil_of_mem hi

/-- In an idle workflow nothing is queued, every instance is live and has run, and one without children
owns a blocking bookmark or an operation. So bookmarks or operations are pending, the resumption of
any listed bookmark succeeds, and then there is work to do, as there is when any outstanding operation
has completed. -/
theorem Reachable.idle_wakes (h : e.Reachable) (hs : e.state = .idle) :
    e.queue.work = [] ∧
    (∀ (k : InstanceId) (i : Instance), e.instances[k]? = some i →
      i.state.isLive = true ∧ i.executed = true) ∧
    (∀ (k : InstanceId) (i : Instance), e.instances[k]? = some i → i.children = [] →
      (∃ (b : Bookmark) (g : Registration), e.bookmarks.registrations[b]? = some g ∧ g.owner = k ∧
        g.options.isBlocking = true) ∨ ∃ o : OperationId, e.operations[o]? = some k) ∧
    ¬ (e.bookmarks.size = 0 ∧ e.operations.size = 0) ∧
    (e.bookmarkInfos ≠ [] ∨ ∃ (o : OperationId) (k : InstanceId), e.operations[o]? = some k) ∧
    (∀ info ∈ e.bookmarkInfos, ∀ (v : Value) (p : Priority),
      (e.resumeBookmark info.bookmark v p).1 = .success ∧
      (e.resumeBookmark info.bookmark v p).2.state = .runnable ∧
      (e.resumeBookmark info.bookmark v p).2.runOneStep.1 = .ok true) ∧
    (∀ (o : OperationId) (k : InstanceId), e.operations[o]? = some k →
      ∀ result : Except ActivityError Value,
        (e.completeHandle (e.handleOf o) result).2.drainInbox.2.state = .runnable ∧
        (e.completeHandle (e.handleOf o) result).2.runOneStep.1 = .ok true) := by
  have hr : e.Resting := h.regular.resting_of_idle hs
  have ho : e.outcome = none := hr.consistent.opened
  have hn : e.state ≠ .aborted := by
    rw [hs]
    exact WorkflowState.noConfusion
  obtain ⟨k, i, hi, hc⟩ := hr.exists_childless
  have pending := hr.awaits hi hc
  have owned : e.Owned := by
    obtain ⟨h1, h2, h3, h4, h5⟩ := hr.consistent.owned
    exact ⟨h1, h2, h3, h4, h5⟩
  refine ⟨hr.work, fun k i hi => hr.live_executed hi, fun k i hi hc => hr.awaits hi hc, ?_, ?_, ?_, ?_⟩
  · rintro ⟨hb, hz⟩
    rw [Registry.size, ← Std.ExtTreeMap.eq_empty_iff_size_eq_zero] at hb
    rw [← Std.ExtTreeMap.eq_empty_iff_size_eq_zero] at hz
    rcases pending with ⟨b, g, hg, -⟩ | ⟨o, hk⟩
    · simp [hb] at hg
    · simp [hz] at hk
  · rcases pending with ⟨b, g, hg, -⟩ | ⟨o, hk⟩
    · exact .inl (infos_ne_nil hg)
    · exact .inr ⟨o, k, hk⟩
  · intro info hm v p
    obtain ⟨g, hg⟩ := owned.resolve?_of_mem_infos hm
    unfold resumeBookmark
    rw [if_neg hn, hg]
    dsimp only
    refine ⟨rfl, if_pos hs, runOneStep_of_work ho (by rw [if_pos hs]; exact WorkflowState.noConfusion) (.inr ?_)⟩
    exact List.ne_nil_of_mem (WorkQueue.mem_work_push.mpr (.inl rfl))
  · intro o k hk result
    rw [completeHandle_own]
    refine ⟨?_, runOneStep_of_work ho hn (.inl ?_)⟩
    · unfold drainInbox post
      simp [hs]
    · simp [post]

/-- Two activities that wait side by side are woken by the bookmark that is listed first. -/
theorem idle_wakes_pair : waitingPair.state = .idle ∧ ∃ info ∈ waitingPair.bookmarkInfos,
    (waitingPair.resumeBookmark info.bookmark .null .normal).1 = .success ∧
      (waitingPair.resumeBookmark info.bookmark .null .normal).2.runOneStep.1 = .ok true := by
  have hs : waitingPair.state = .idle := by decide +kernel
  obtain ⟨-, -, -, -, -, wakes, -⟩ := reachable_waitingPair.idle_wakes hs
  obtain ⟨info, hm⟩ := List.exists_mem_of_length_pos
    (show 0 < waitingPair.bookmarkInfos.length by decide +kernel)
  obtain ⟨hr, -, hw⟩ := wakes info hm .null .normal
  exact ⟨hs, info, hm, hr, hw⟩

end Workflow.Executor
