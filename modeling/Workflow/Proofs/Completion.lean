import Workflow.Proofs.Callback
import Workflow.Proofs.Retire

/-!
# Completion

An instance completes when its body has run and it waits for nothing. Its parent is told once; the
root finishes the workflow.
-/

namespace Workflow

/-- An item that tells of a child resumes nobody. -/
theorem WorkItem.resumes_of_report {w : WorkItem} {r : InstanceId × InstanceId}
    (h : w.report? = some r) (o : InstanceId) : w.resumes o = false := by
  cases w with
  | bookmark _ _ _ _ _ => exact absurd h.symm (Option.some_ne_none r)
  | _ => rfl

namespace Executor

variable {e e' : Executor} {X : InstanceId → Prop} {x p c k : InstanceId} {i : Instance}

/-- Nobody is exempt. -/
abbrev Nobody : InstanceId → Prop := fun _ => False

/-- An item tells the parent of a child that has completed and was not told of. -/
theorem Placed.report (h : e.Placed X) {w : WorkItem} (hw : w.report? = some (p, c))
    (hi : e.instances[c]? = some i) (ht : i.state.isTerminal = true) (hp : i.parent = some p)
    (hX : X c) (hf : ∀ {a b : InstanceId} {tag : CallbackTag} {f : Fault},
      w = .fault a b tag f → (e.definition.get? f.sourceNode).isSome = true) :
    (e.enqueue w).Placed fun k => X k ∧ k ≠ c := by
  have tells : ∀ k, (e.queue.push w).work.countP (·.tellsOf k) =
      e.queue.work.countP (·.tellsOf k) + if c = k then 1 else 0 := by
    intro k
    rw [WorkQueue.countP_work_push, WorkItem.tellsOf, hw, Option.any_some]
    simp only [beq_iff_eq]
  -- A live instance that is exempt no longer was not exempt before: only the child is told of now.
  have exempt : ∀ {k : InstanceId} {j : Instance}, e.instances[k]? = some j →
      j.state.isLive = true → ¬ (X k ∧ k ≠ c) → ¬ X k := by
    intro k j hj hl hn hk
    obtain rfl : k = c := by_contra fun hc => hn ⟨hk, hc⟩
    cases hi.symm.trans hj
    rw [ActivityState.not_terminal_of_isLive hl] at ht
    exact absurd ht Bool.false_ne_true
  constructor
  · exact h.tree
  · exact h.rootLive
  · intro v a b hv hr
    rcases WorkQueue.mem_work_push.mp hv with rfl | hv
    · cases hw.symm.trans hr
      obtain ⟨q, hq, -⟩ := h.tree.listed hi hp
      exact ⟨h.tree.below hq, h.tree.below hi, fun j hj => by cases hi.symm.trans hj; exact ⟨ht, hp⟩,
        fun _ => ⟨i, hi⟩⟩
    · exact h.reported hv hr
  · intro v o hv ho
    rcases WorkQueue.mem_work_push.mp hv with rfl | hv
    · exact absurd ho (by rw [WorkItem.resumes_of_report hw]; decide)
    · exact h.created hv ho
  · intro a b tag f hv
    rcases WorkQueue.mem_work_push.mp hv with hv | hv
    · exact hf hv.symm
    · exact h.sourced hv
  · intro k q j hj hjt hjp hn
    refine (tells k).trans ?_
    by_cases hk : c = k
    · subst hk
      rw [h.untold hi ht hp hX, if_pos rfl]
    · rw [if_neg hk, h.told hj hjt hjp fun hX => hn ⟨hX, Ne.symm hk⟩]
  · intro k q j hj hjt hjp hn
    refine (tells k).trans ?_
    rw [if_neg hn.2.symm, h.untold hj hjt hjp hn.1]
  · intro k j hj hl hn hx
    exact h.waiting hj hl (exempt hj hl hn) hx
  · intro k j hj hl hn hx
    obtain ⟨h1, h2, h3⟩ := h.queued hj hl (exempt hj hl hn) hx
    exact ⟨h1, h2, WorkQueue.mem_work_push.mpr (.inr h3)⟩

/-- An item tells the parent of a child that has completed and was not told of. -/
theorem Consistent.report (h : e.Consistent X) {w : WorkItem} (hw : w.report? = some (p, c))
    (hi : e.instances[c]? = some i) (ht : i.state.isTerminal = true) (hp : i.parent = some p)
    (hX : X c) (hf : ∀ {a b : InstanceId} {tag : CallbackTag} {f : Fault},
      w = .fault a b tag f → (e.definition.get? f.sourceNode).isSome = true) :
    (e.enqueue w).Consistent fun k => X k ∧ k ≠ c := by
  have nobody : ∀ o, w.resumes o ≠ true := fun o =>
    Bool.eq_false_iff.mp (WorkItem.resumes_of_report hw o)
  refine ⟨h.placed.report hw hi ht hp hX hf, h.owned.extend (.enqueue w) rfl rfl rfl,
    h.awake_of (fun {k j} hj _ hl hn => ?_) (fun hg _ => hg) fun {v o} hv ho _ => ?_,
    h.balanced.congr rfl fun k => ?_, h.opened, h.sober, h.running⟩
  · refine ⟨j, hj, fun hk => ?_, rfl, hl⟩
    obtain rfl : k = c := by_contra fun hc => hn ⟨hk, hc⟩
    cases hi.symm.trans hj
    rw [ActivityState.not_terminal_of_isLive hl] at ht
    exact absurd ht Bool.false_ne_true
  · rcases WorkQueue.mem_work_push.mp hv with rfl | hv
    · exact absurd ho (nobody o)
    · exact .inl hv
  · have hq : (e.queue.push w).releasing k = e.queue.releasing k := by
      rw [WorkQueue.releasing_push, if_neg fun hk => nobody k (WorkItem.resumes_of_releases hk)]
      rfl
    exact congrArg (e.bookmarks.blocking k + OperationTable.owed e.operations k + ·) hq

/-- Exempt instances that have run and wait for something need not be exempt. -/
theorem Consistent.excuse (h : e.Consistent X)
    (hX : ∀ {k : InstanceId} {i : Instance}, X k → e.instances[k]? = some i →
      i.state.isLive = true ∧ i.executed = true ∧ i.busy ≠ 0) : e.Consistent Nobody := by
  obtain ⟨hp, ho, ha, hb, hn, hs, hr⟩ := h
  refine ⟨⟨hp.tree, hp.rootLive, hp.reported, hp.created, hp.sourced, ?_, fun _ _ _ hf => hf.elim,
    ?_, ?_⟩, ho, ⟨?_, ?_⟩, hb, hn, hs, hr⟩
  · intro k p i hi ht hip _
    refine hp.told hi ht hip fun hk => ?_
    rw [ActivityState.not_terminal_of_isLive (hX hk hi).1] at ht
    exact absurd ht Bool.false_ne_true
  · intro k i hi hl _ hx
    by_cases hk : X k
    · exact (hX hk hi).2.2
    · exact hp.waiting hi hl hk hx
  · intro k i hi hl _ hx
    by_cases hk : X k
    · rw [(hX hk hi).2.1] at hx
      exact absurd hx.symm Bool.false_ne_true
    · exact hp.queued hi hl hk hx
  · intro b g i hg hi hl _
    by_cases hk : X g.owner
    · exact (hX hk hi).2.1
    · exact ha.registered hg hi hl hk
  · intro w o i hw hwo hi hl _
    by_cases hk : X o
    · exact (hX hk hi).2.1
    · exact ha.resumed hw hwo hi hl hk

/-- The invariant between two pieces of work: nobody is exempt, or the workflow has completed. -/
def Proper (e : Executor) : Prop :=
  e.Consistent Nobody ∨ e.Concluded

/-- A live instance that counts nothing waits for nothing. -/
theorem Balanced.free (h : e.Balanced) (hi : e.instances[x]? = some i) (hl : i.state.isLive = true)
    (hb : i.busy = 0) : i.children = [] ∧ e.dues x = 0 := by
  have h := h x i hi hl
  rw [hb] at h
  exact ⟨List.eq_nil_of_length_eq_zero (by omega), by omega⟩

/-- Completion is the end of an instance that waits for nothing. -/
theorem Consistent.retires (h : e.Consistent X) (hi : e.instances[x]? = some i)
    (hl : i.state.isLive = true) (hb : i.busy = 0) {s : ActivityState}
    (hs : s = .canceled ∨ s = .closed) :
    Retires e { e.modify x fun i => { i with state := s } with
      bookmarks := (e.bookmarks.removeOwned x).removeScopes x } x [] { i with state := s } := by
  obtain ⟨hc, hd⟩ := h.balanced.free hi hl hb
  have hst : s.isTerminal = true := by rcases hs with rfl | rfl <;> rfl
  have hsf : s ≠ .faulting ∧ s ≠ .faulted := by rcases hs with rfl | rfl <;> decide
  have sound := h.placed.tree.sound hi
  have hfault : i.fault.isSome ≠ true := fun hf => by
    rw [sound.faulted.mp hf] at hl
    exact absurd hl Bool.false_ne_true
  refine ⟨rfl, rfl, rfl, rfl, rfl, rfl, rfl, rfl, isLive_iff.mpr ⟨i, hi, hl⟩, ?_, ?_, ?_, hst, ?_, ?_, ?_,
    ?_, ?_⟩
  · exact ⟨List.not_mem_nil, List.not_mem_nil, fun _ _ hS => absurd hS List.not_mem_nil,
      fun _ _ hS => absurd hS List.not_mem_nil⟩
  · intro j hj c hjc
    cases hi.symm.trans hj
    rw [hc] at hjc
    exact absurd hjc List.not_mem_nil
  · intro j hj
    cases hi.symm.trans hj
    exact ⟨rfl, rfl, rfl, hc⟩
  · exact ⟨sound.known, sound.ascending, fun _ => hc, hsf.1,
      ⟨fun hf => absurd hf hfault, fun hf => absurd hf hsf.2⟩, sound.sourced⟩
  · intro k
    change (e.modify x _).instances[k]? = _
    rw [lookup_modify, if_neg List.not_mem_nil]
    by_cases hk : k = x
    · rw [if_pos hk, if_pos hk.symm, hk, hi, Option.map_some]
    · rw [if_neg hk, if_neg (Ne.symm hk)]
  · intro b
    change ((e.bookmarks.registrations.filter fun _ g => g.owner != x))[b]? = _
    rw [Table.lookup_filter]
    simp only [List.not_mem_nil, or_false, bne, beq_eq_decide]
  · intro s
    change ((e.bookmarks.scopes.filter fun _ o => o != x))[s]? = _
    rw [Table.lookup_filter]
    simp only [List.not_mem_nil, or_false, bne, beq_eq_decide]
  · intro o
    change e.operations[o]? = _
    cases ho : e.operations[o]? with
    | none => rfl
    | some k =>
      have hk : k ≠ x := by
        rintro rfl
        have hz : OperationTable.owed e.operations k = 0 := by
          rw [dues] at hd
          omega
        rw [OperationTable.owed_eq_count, Table.count_eq_zero_iff] at hz
        exact absurd (hz o k ho) (by simp)
      simp [Option.filter, hk]

/-- What is left when an instance has completed in a state and nobody has been told. -/
def ended (e : Executor) (x : InstanceId) (s : ActivityState) : Executor :=
  trackState { e.modify x fun i => { i with state := s } with
    bookmarks := (e.bookmarks.removeOwned x).removeScopes x } x s

/-- The end of a workflow changes no instance. -/
theorem finishWorkflow_keeps : e.finishWorkflow.instances = e.instances ∧
    e.finishWorkflow.root = e.root ∧ e.finishWorkflow.definition = e.definition ∧
    e.finishWorkflow.nextInstance = e.nextInstance ∧ e.finishWorkflow.journal = e.journal := by
  unfold finishWorkflow
  split <;> exact ⟨rfl, rfl, rfl, rfl, rfl⟩

/-- Below the root the parent is told of a completed instance. -/
theorem completeInstance_below (hi : e.instances[x]? = some i) (hp : i.parent = some p) :
    e.completeInstance x =
      (e.ended x (if i.markedCanceled then .canceled else .closed)).enqueue (.completion p x) := by
  unfold completeInstance
  rw [instance?, hi]
  dsimp only
  rw [hp]
  rfl

/-- The root that completes finishes the workflow. -/
theorem completeInstance_root (hi : e.instances[x]? = some i) (hp : i.parent = none) :
    e.completeInstance x =
      (e.ended x (if i.markedCanceled then .canceled else .closed)).finishWorkflow := by
  unfold completeInstance
  rw [instance?, hi]
  dsimp only
  rw [hp]
  rfl

/-- The state in which an instance completes. -/
theorem completion_state (marked : Bool) :
    (if marked then ActivityState.canceled else .closed) = .canceled ∨
      (if marked then ActivityState.canceled else .closed) = .closed := by
  cases marked
  · exact .inr rfl
  · exact .inl rfl

/-- An instance that waits for nothing retires. -/
theorem Consistent.retires_ended (h : e.Consistent X) (hi : e.instances[x]? = some i)
    (hl : i.state.isLive = true) (hb : i.busy = 0) {s : ActivityState}
    (hs : s = .canceled ∨ s = .closed) : Retires e (e.ended x s) x [] { i with state := s } :=
  (h.retires hi hl hb hs).of_sameCore (sameCore_trackState x s)

/-- The completion of an instance below the root, which waits for nothing. -/
theorem Consistent.completeBelow (h : e.Consistent X)
    (hX : ∀ {k : InstanceId} {i : Instance}, X k → e.instances[k]? = some i → k = x)
    (hi : e.instances[x]? = some i) (hl : i.state.isLive = true) (hb : i.busy = 0)
    (hp : i.parent = some p) : (e.completeInstance x).Consistent Nobody := by
  rw [completeInstance_below hi hp]
  have hr := h.retires_ended hi hl hb (completion_state i.markedCanceled)
  have hx : x ≠ e.root := h.placed.tree.ne_root hi hp
  have hc := hr.consistent (fun hk hki => .inl (hX hk hki)) h hx
  exact (hc.report (w := .completion p x) rfl hr.lookup_self hr.terminal hp rfl
    fun hf => by cases hf).excuse fun hk _ => absurd hk.1 hk.2

/-- The completion of the root, which waits for nothing. -/
theorem Consistent.completeRoot (h : e.Consistent X) (hi : e.instances[x]? = some i)
    (hl : i.state.isLive = true) (hb : i.busy = 0) (hp : i.parent = none) :
    (e.completeInstance x).Concluded := by
  rw [completeInstance_root hi hp]
  have hr := h.retires_ended hi hl hb (completion_state i.markedCanceled)
  have hx : x = e.root := h.placed.tree.orphan hi hp
  subst hx
  obtain ⟨-, hbk⟩ := hr.only_root h.placed h.owned
  exact finishWorkflow_concluded (hr.tree h.placed.tree) hr.lookup_root hr.terminal hbk
    (hr.isOverdrawn.trans h.sober)

/-- The completion of an instance that has run and waits for nothing. -/
theorem Consistent.complete (h : e.Consistent X)
    (hX : ∀ {k : InstanceId} {i : Instance}, X k → e.instances[k]? = some i → k = x)
    (hi : e.instances[x]? = some i) (hl : i.state.isLive = true) (hb : i.busy = 0) :
    (e.completeInstance x).Proper := by
  cases hp : i.parent with
  | some p => exact .inl (h.completeBelow hX hi hl hb hp)
  | none => exact .inr (h.completeRoot hi hl hb hp)

/-- An instance that has run completes if it waits for nothing. -/
theorem Consistent.tryComplete (h : e.Consistent X)
    (hX : ∀ {k : InstanceId} {i : Instance}, X k → e.instances[k]? = some i → k = x)
    (hi : e.instances[x]? = some i) (hl : i.state.isLive = true) (hx : i.executed = true) :
    (e.tryComplete x).Proper := by
  unfold Executor.tryComplete
  rw [instance?, hi, Option.any_some, Instance.canComplete, hx,
    ActivityState.not_terminal_of_isLive hl]
  split
  · next hb => exact h.complete hX hi hl (by simpa using hb)
  · next hb =>
    refine .inl (h.excuse fun {k j} hk hj => ?_)
    cases hX hk hj
    cases hi.symm.trans hj
    exact ⟨hl, hx, by simpa using hb⟩

end Executor

end Workflow
