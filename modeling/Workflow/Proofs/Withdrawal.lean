import Workflow.Proofs.Modesty

/-!
# Withdrawal

A workflow withdraws while it is being canceled. Requests to cancel travel down the tree as items of
work: whoever has been asked has asked its children in turn, has agreed, and has given up its bookmarks
and operations. Completions travel up, and all of them are cancellations. So an instance that has not
been asked either waits below another one that has not, or the request to it is queued.
-/

namespace Workflow.Executor

variable {e e' : Executor} {X N : InstanceId → Prop} {x k p c : InstanceId} {i r : Instance}
variable {w : WorkItem} {q : WorkQueue}

/-- Whether an item is done while a workflow withdraws: a request, a completion, or the news of an
operation that nobody waits for. -/
def Trails (e : Executor) : WorkItem → Prop
  | .cancel _ => True
  | .completion _ _ => True
  | .operation o _ => e.operations[o]? = none
  | _ => False

/-- Whether the parent of an instance, if it has one, has been asked to cancel. -/
def Exposed (e : Executor) (k : InstanceId) : Prop :=
  ∀ {i q : Instance} {p : InstanceId}, e.instances[k]? = some i → i.parent = some p →
    e.instances[p]? = some q → q.cancelRequested = true

/-- A workflow withdraws. Instances may be exempt that have been asked and have not answered yet. -/
structure Withdraws (e : Executor) (X : InstanceId → Prop) : Prop where
  ran : ∀ {k : InstanceId} {i : Instance}, e.instances[k]? = some i → i.executed = true
  /-- Who has ended has been canceled. -/
  canceled : ∀ {k : InstanceId} {i : Instance}, e.instances[k]? = some i →
    i.state.isTerminal = true → i.state = .canceled ∧ i.cancelRequested = true
  agreed : ∀ {k : InstanceId} {i : Instance}, e.instances[k]? = some i →
    i.cancelRequested = true → ¬ X k → i.markedCanceled = true
  unbooked : ∀ {b : Bookmark} {g : Registration} {i : Instance},
    e.bookmarks.registrations[b]? = some g → e.instances[g.owner]? = some i →
    i.cancelRequested = true → X g.owner
  unoccupied : ∀ {o : OperationId} {k : InstanceId} {i : Instance}, e.operations[o]? = some k →
    e.instances[k]? = some i → i.cancelRequested = true → X k
  /-- Only who is below one that has been asked has been asked, or is about to be. -/
  below : ∀ {k : InstanceId} {i : Instance}, e.instances[k]? = some i →
    i.cancelRequested = true ∨ .cancel k ∈ e.queue.work → e.Exposed k
  /-- Who is below one that has answered has been asked, or is about to be. -/
  asked : ∀ {k : InstanceId} {i : Instance}, e.instances[k]? = some i → i.cancelRequested = false →
    e.Exposed k → (∀ p, i.parent = some p → ¬ X p) → .cancel k ∈ e.queue.work
  items : ∀ w ∈ e.queue.work, e.Trails w
  late : ∀ n ∈ e.inbox, e.operations[n.operation]? = none

/-- Nobody comes, and whoever stays is below the same parent and has been asked or not as before; no
bookmark and no operation is new. -/
structure Recedes (e e' : Executor) : Prop where
  inbox : e'.inbox = e.inbox
  back : ∀ {k : InstanceId} {i : Instance}, e'.instances[k]? = some i →
    ∃ j, e.instances[k]? = some j ∧ i.parent = j.parent ∧ i.executed = j.executed ∧
      i.cancelRequested = j.cancelRequested ∧ (j.markedCanceled = true → i.markedCanceled = true)
  /-- The parents of those that stay stay. -/
  above : ∀ {k p : InstanceId} {i q : Instance}, e'.instances[k]? = some i → i.parent = some p →
    e.instances[p]? = some q → ∃ q', e'.instances[p]? = some q'
  bookmarks : Sheds e e'
  operations : ∀ {o : OperationId} {k : InstanceId}, e'.operations[o]? = some k →
    e.operations[o]? = some k
  keeps : ∀ {w : WorkItem}, w ∈ e.queue.work → w ∈ e'.queue.work

theorem Abates.recedes (h : Abates x e e') : Recedes e e' where
  inbox := h.inbox
  back hi := by
    obtain ⟨j, hj, same⟩ := h.back hi
    exact ⟨j, hj, same.parent, same.executed, same.requested, same.agreed⟩
  above _ _ hq := by
    obtain ⟨q', hq', -⟩ := h.forth hq
    exact ⟨q', hq'⟩
  bookmarks := h.bookmarks
  operations := h.operations
  keeps := h.keeps

/-- An item that is done trails on when operations go. -/
theorem Trails.mono (h : e.Trails w)
    (ho : ∀ {o : OperationId} {k : InstanceId}, e'.operations[o]? = some k → e.operations[o]? = some k) :
    e'.Trails w := by
  cases w with
  | operation o result =>
    change e'.operations[o]? = none
    cases hk : e'.operations[o]? with
    | none => rfl
    | some k =>
      have hn : e.operations[o]? = none := h
      exact absurd (hn.symm.trans (ho hk)) (Option.some_ne_none k).symm
  | _ => exact h

namespace Withdraws

/-- A workflow goes on to withdraw when it recedes and only such items are queued. -/
theorem of_recedes (h : e.Withdraws X) (hr : Recedes e e')
    (ended : ∀ {k : InstanceId} {i : Instance}, e'.instances[k]? = some i →
      i.state.isTerminal = true → i.state = .canceled ∧ i.cancelRequested = true)
    (new : ∀ {w : WorkItem}, w ∈ e'.queue.work → w ∈ e.queue.work ∨
      (e'.Trails w ∧ ∀ k, w = .cancel k → e'.Exposed k)) : e'.Withdraws X := by
  have exposed : ∀ {k : InstanceId}, e.Exposed k → e'.Exposed k := by
    intro k hk i r p hi hp hq
    obtain ⟨j, hj, same, -⟩ := hr.back hi
    obtain ⟨l, hl, -, -, asked, -⟩ := hr.back hq
    exact asked.trans (hk hj (same.symm.trans hp) hl)
  refine ⟨fun hi => ?_, ended, fun hi ha hX => ?_, fun hg hi ha => ?_, fun ho hi ha => ?_,
    fun {k i} hi ha => ?_, fun {k i} hi ha hx hX => ?_, fun w hw => ?_, fun n hn => ?_⟩
  · obtain ⟨j, hj, -, ran, -⟩ := hr.back hi
    exact ran.trans (h.ran hj)
  · obtain ⟨j, hj, -, -, asked, marked⟩ := hr.back hi
    exact marked (h.agreed hj (asked.symm.trans ha) hX)
  · obtain ⟨j, hj, -, -, asked, -⟩ := hr.back hi
    exact h.unbooked (hr.bookmarks _ _ hg) hj (asked.symm.trans ha)
  · obtain ⟨j, hj, -, -, asked, -⟩ := hr.back hi
    exact h.unoccupied (hr.operations ho) hj (asked.symm.trans ha)
  · obtain ⟨j, hj, -, -, asked, -⟩ := hr.back hi
    rcases ha with ha | hw
    · exact exposed (h.below hj (.inl (asked.symm.trans ha)))
    · rcases new hw with hw | ⟨-, hk⟩
      · exact exposed (h.below hj (.inr hw))
      · exact hk k rfl
  · obtain ⟨j, hj, same, -, asked, -⟩ := hr.back hi
    refine hr.keeps (h.asked hj (asked.symm.trans ha) (fun {j' r p} hj' hp hq => ?_)
      fun p hp => hX p (same.trans hp))
    cases hj.symm.trans hj'
    obtain ⟨r', hr'⟩ := hr.above hi (same.trans hp) hq
    obtain ⟨l, hl, -, -, asked, -⟩ := hr.back hr'
    cases hq.symm.trans hl
    exact asked.symm.trans (hx hi (same.trans hp) hr')
  · rcases new hw with hw | ⟨ht, -⟩
    · exact (h.items w hw).mono hr.operations
    · exact ht
  · rw [hr.inbox] at hn
    exact (show e.Trails (.operation n.operation n.result) from h.late n hn).mono hr.operations

/-- A workflow goes on to withdraw while the body of an instance that has been asked is called. -/
theorem abates (h : e.Withdraws X) (ht : IsTree e.definition e.root e.nextInstance e.instances)
    (ha : Abates x e e') (hi : e.instances[x]? = some i) (hr : i.cancelRequested = true) :
    e'.Withdraws X := by
  refine h.of_recedes ha.recedes (fun hj hjt => ?_) fun hw => ?_
  · obtain ⟨l, hl, same⟩ := ha.back hj
    rw [same.state, same.requested]
    exact h.canceled hl (same.state ▸ hjt)
  · refine (ha.queued hw).imp_right ?_
    rintro ⟨c, j, rfl, hj, hc⟩
    refine ⟨trivial, fun k hk => ?_⟩
    cases hk
    intro l r p hl hp hq
    obtain ⟨l', hl', hx⟩ := ht.linked hj hc
    obtain ⟨m, hm, same⟩ := ha.back hl
    cases hl'.symm.trans hm
    cases hx.symm.trans (same.parent.symm.trans hp)
    obtain ⟨r', hr', same⟩ := ha.back hq
    cases hi.symm.trans hr'
    exact same.requested.trans hr

theorem of_sameCore (h : e.Withdraws X) (hc : SameCore e e') (hi : e'.inbox = e.inbox) :
    e'.Withdraws X := by
  refine h.of_recedes (Abates.of_sameCore (x := e.root) hc hi).recedes (fun hk => ?_) fun hw => ?_
  · rw [hc.instances] at hk
    exact h.canceled hk
  · exact .inl (hc.queue ▸ hw)

/-! ### Items -/

/-- An item is passed over that is no request, or a request to one that is gone or has been asked. -/
theorem skip (h : e.Withdraws Nobody) (hq : e.queue.work = w :: q.work)
    (hw : ∀ {k : InstanceId} {i : Instance}, w = .cancel k → e.instances[k]? = some i →
      i.cancelRequested = true) : Withdraws { e with queue := q } Nobody := by
  have mem : ∀ {v : WorkItem}, v ∈ q.work → v ∈ e.queue.work := fun hv => by
    rw [hq]
    exact List.mem_cons_of_mem w hv
  refine ⟨h.ran, h.canceled, h.agreed, h.unbooked, h.unoccupied,
    fun hi ha => h.below hi (ha.imp_right mem), fun {k i} hi ha hx hX => ?_,
    fun v hv => h.items v (mem hv), h.late⟩
  have hk := h.asked hi ha hx hX
  rw [hq] at hk
  refine (List.mem_cons.mp hk).resolve_left fun he => ?_
  exact absurd (ha.symm.trans (hw he.symm hi)) Bool.false_ne_true

/-- The news that have arrived are queued. -/
theorem drainInbox (h : e.Withdraws X) : e.drainInbox.2.Withdraws X := by
  have mem : ∀ {v : WorkItem}, v ∈ e.drainInbox.2.queue.work → v ∈ e.queue.work ∨
      ∃ n ∈ e.inbox, v = .operation n.operation n.result := of_mem_work_queueAll e.inbox
  have old : ∀ {v : WorkItem}, v ∈ e.queue.work → v ∈ e.drainInbox.2.queue.work :=
    fun hv => mem_work_queueAll e.inbox hv
  refine ⟨h.ran, h.canceled, h.agreed, h.unbooked, h.unoccupied, fun {k i} hi ha => ?_,
    fun hi ha hx hX => old (h.asked hi ha hx hX), fun v hv => ?_, fun n hn => absurd hn List.not_mem_nil⟩
  · refine h.below hi (ha.imp_right fun hw => ?_)
    rcases mem hw with hw | ⟨n, -, hn⟩
    · exact hw
    · exact WorkItem.noConfusion hn
  · rcases mem hv with hv | ⟨n, hn, rfl⟩
    · exact h.items v hv
    · exact h.late n hn

/-- A live instance is asked for the first time. It has not answered yet. -/
theorem request (h : e.Withdraws Nobody) (hq : e.queue.work = .cancel x :: q.work)
    (hi : e.instances[x]? = some i) :
    Withdraws (modify { e with queue := q } x fun i =>
      { i with cancelRequested := true, state := .canceling }) (· = x) := by
  obtain ⟨f, hf⟩ : ∃ f : Instance → Instance,
      f = fun i => { i with cancelRequested := true, state := .canceling } := ⟨_, rfl⟩
  rw [← hf]
  have mem : ∀ {v : WorkItem}, v ∈ q.work → v ∈ e.queue.work := fun hv => by
    rw [hq]
    exact List.mem_cons_of_mem _ hv
  -- Who is there was there, and has been asked if it had been.
  have was : ∀ {k : InstanceId} {j : Instance},
      (modify { e with queue := q } x f).instances[k]? = some j →
      ∃ l, e.instances[k]? = some l ∧ j.parent = l.parent ∧ j.executed = l.executed ∧
        (k = x ∧ j = f l ∨ k ≠ x ∧ j = l) ∧ (l.cancelRequested = true → j.cancelRequested = true) := by
    intro k j hj
    obtain ⟨l, hl, ⟨rfl, rfl⟩ | ⟨hk, rfl⟩⟩ := lookup_modify_cases hj
    · exact ⟨l, hl, by rw [hf], by rw [hf], .inl ⟨rfl, rfl⟩, fun _ => by rw [hf]⟩
    · exact ⟨_, hl, rfl, rfl, .inr ⟨hk, rfl⟩, id⟩
  have exposed : ∀ {k : InstanceId}, e.Exposed k → (modify { e with queue := q } x f).Exposed k := by
    intro k hk j r p hj hp hq
    obtain ⟨l, hl, same, -⟩ := was hj
    obtain ⟨m, hm, -, -, -, asked⟩ := was hq
    exact asked (hk hl (same.symm.trans hp) hm)
  refine ⟨fun hj => ?_, fun hj hjt => ?_, fun hj ha hX => ?_, fun hg hj ha => ?_, fun ho hj ha => ?_,
    fun {k j} hj ha => ?_, fun {k j} hj ha hx hX => ?_, fun v hv => h.items v (mem hv), h.late⟩
  · obtain ⟨l, hl, -, ran, -⟩ := was hj
    exact ran.trans (h.ran hl)
  · obtain ⟨l, hl, -, -, ⟨-, rfl⟩ | ⟨-, rfl⟩, -⟩ := was hj
    · rw [hf] at hjt
      exact absurd hjt Bool.false_ne_true
    · exact h.canceled hl hjt
  · obtain ⟨l, hl, -, -, ⟨rfl, -⟩ | ⟨-, rfl⟩, -⟩ := was hj
    · exact absurd rfl hX
    · exact h.agreed hl ha not_false
  · obtain ⟨l, hl, -, -, ⟨hk, -⟩ | ⟨-, rfl⟩, -⟩ := was hj
    · exact hk
    · exact (h.unbooked hg hl ha).elim
  · obtain ⟨l, hl, -, -, ⟨hk, -⟩ | ⟨-, rfl⟩, -⟩ := was hj
    · exact hk
    · exact (h.unoccupied ho hl ha).elim
  · obtain ⟨l, hl, -, -, ⟨rfl, -⟩ | ⟨-, rfl⟩, -⟩ := was hj
    · refine exposed (h.below hl (.inr ?_))
      rw [hq]
      exact List.mem_cons_self
    · exact exposed (h.below hl (ha.imp_right mem))
  · obtain ⟨l, hl, -, -, ⟨-, rfl⟩ | ⟨hk, rfl⟩, -⟩ := was hj
    · rw [hf] at ha
      exact absurd ha.symm Bool.false_ne_true
    · have hw := h.asked hl ha (fun {l' r p} hl' hp hr => ?_) fun _ _ => id
      · rw [hq] at hw
        refine (List.mem_cons.mp hw).resolve_left fun he => hk ?_
        exact WorkItem.cancel.inj he
      · cases hl.symm.trans hl'
        refine hx hj hp ((lookup_modify ..).trans ?_)
        rw [if_neg (Ne.symm (hX p hp))]
        exact hr

/-- An instance that was asked has answered. -/
theorem answer (h : e.Withdraws (· = x)) (ht : IsTree e.definition e.root e.nextInstance e.instances)
    (hy : e.Yielded x) : e.Withdraws Nobody := by
  refine ⟨h.ran, h.canceled, fun {k i} hi ha _ => ?_, fun hg hi ha => ?_, fun ho hi ha => ?_, h.below,
    fun {k i} hi ha hx _ => ?_, h.items, h.late⟩
  · by_cases hk : k = x
    · exact hy.agreed (hk ▸ hi)
    · exact h.agreed hi ha hk
  · exact hy.unbooked hg (h.unbooked hg hi ha)
  · exact hy.unoccupied (h.unoccupied ho hi ha ▸ ho)
  · by_cases hp : i.parent = some x
    · obtain ⟨r, hr, hk⟩ := ht.listed hi hp
      exact hy.passed hr hk
    · refine h.asked hi ha hx fun p hip hpx => hp ?_
      rw [hip, hpx]

/-- A child that has been canceled leaves. -/
theorem drop (h : e.Withdraws Nobody) (hl : Leaving e p c i r) :
    ((e.dropChild p c).release p 1).Withdraws Nobody := by
  -- Everybody but the child stays, and of the parent only the children and the count have changed.
  have look : ∀ k : InstanceId, k ≠ c → ∃ f : Instance → Instance,
      (∀ j, (f j).parent = j.parent ∧ (f j).executed = j.executed ∧ (f j).state = j.state ∧
        (f j).cancelRequested = j.cancelRequested ∧ (f j).markedCanceled = j.markedCanceled) ∧
      ((e.dropChild p c).release p 1).instances[k]? = e.instances[k]?.map f := by
    intro k hk
    change ∃ f : Instance → Instance, _ ∧ ((e.dropChild p c).modify p _).instances[k]? = _
    rw [lookup_modify, hl.look, if_neg hk]
    by_cases hkp : k = p
    · rw [if_pos hkp.symm, if_pos hkp, hkp, hl.parent]
      exact ⟨fun j => { j with children := j.children.filter (· != c), busy := j.busy - 1 },
        fun _ => ⟨rfl, rfl, rfl, rfl, rfl⟩, rfl⟩
    · rw [if_neg (Ne.symm hkp), if_neg hkp]
      exact ⟨id, fun _ => ⟨rfl, rfl, rfl, rfl, rfl⟩, by rw [Option.map_id_fun, id]⟩
  have back : ∀ {k : InstanceId} {j : Instance},
      ((e.dropChild p c).release p 1).instances[k]? = some j → k ≠ c ∧
        ∃ l, e.instances[k]? = some l ∧ j.parent = l.parent ∧ j.executed = l.executed ∧
          j.state = l.state ∧ j.cancelRequested = l.cancelRequested ∧
          j.markedCanceled = l.markedCanceled := by
    intro k j hj
    have hk : k ≠ c := by
      rintro rfl
      exact absurd (hl.left.symm.trans hj) (Option.some_ne_none j).symm
    obtain ⟨f, hf, hkf⟩ := look k hk
    rw [hkf, Option.map_eq_some_iff] at hj
    obtain ⟨l, hl, rfl⟩ := hj
    exact ⟨hk, l, hl, hf l⟩
  have ht := hl.consistent.placed.tree
  refine h.of_recedes ⟨rfl, fun hj => ?_, fun {k p' j q} hj hp hq => ?_, .of_eq rfl, id, id⟩
    (fun hj hjt => ?_) .inl
  · obtain ⟨-, l, hl, parent, executed, -, asked, marked⟩ := back hj
    exact ⟨l, hl, parent, executed, asked, fun hm => marked.trans hm⟩
  · obtain ⟨-, l, hkl, parent, -⟩ := back hj
    -- The child that leaves has ended and has no children.
    have hne : p' ≠ c := by
      rintro rfl
      cases hl.child.symm.trans hq
      exact absurd (hl.terminal.symm.trans (ht.parent_not_terminal hkl (parent.symm.trans hp) hq))
        Bool.false_ne_true.symm
    obtain ⟨f, -, hpf⟩ := look p' hne
    exact ⟨f q, by rw [hpf, hq]; rfl⟩
  · obtain ⟨-, l, hl, -, -, state, asked, -⟩ := back hj
    rw [state, asked]
    exact h.canceled hl (state ▸ hjt)

/-- Only code would not agree to cancel, and code waits for nothing. -/
theorem kind_ne_code (h : e.Withdraws Nobody) (hc : e.Consistent Nobody) (hs : e.Suited N)
    (hi : e.instances[x]? = some i) (hl : i.state.isLive = true) {b : Behaviour}
    (hb : e.behaviour? x = some b) : b.kind ≠ .code := by
  intro hk
  have notNative : b.kind ≠ .native := fun hn => BodyKind.noConfusion (hk.symm.trans hn)
  have children : i.children = [] := childless_of_kind hc hs hi hb notNative
  have bookmarks : e.bookmarks.blocking x = 0 := by
    by_contra hn
    obtain ⟨_, _, hg, ho, -⟩ := Registry.exists_of_blocking_ne_zero hn
    exact unbooked_of_kind hs hi hb notNative hg ho
  have operations : OperationTable.owed e.operations x = 0 := by
    by_contra hn
    obtain ⟨_, ho⟩ := OperationTable.exists_of_owed_ne_zero _ hn
    exact unoccupied_of_kind hc hb (fun hn => BodyKind.noConfusion (hk.symm.trans hn)) ho
  have resumptions : e.queue.releasing x = 0 := by
    refine List.countP_eq_zero.mpr fun w hw => ?_
    have ht := h.items w hw
    cases w with
    | bookmark _ _ _ _ _ => exact ht.elim
    | _ => exact Bool.false_ne_true
  have busy := hc.balanced x i hi hl
  rw [children, dues, bookmarks, operations, resumptions] at busy
  exact hc.placed.waiting hi hl id (h.ran hi) busy

end Withdraws

/-! ### Completion -/

/-- A workflow withdraws, or it has been canceled and nobody is left who has not. -/
inductive Withdrawing (e : Executor) : Prop
  | going (opened : e.outcome = none) (h : e.Withdraws Nobody)
  | ended (canceled : e.outcome = some .canceled)
      (all : ∀ {k : InstanceId} {i : Instance}, e.instances[k]? = some i → i.state = .canceled)

theorem inbox_trackState (k : InstanceId) (s : ActivityState) :
    (e.trackState k s).inbox = e.inbox := by
  unfold trackState
  split <;> rfl

/-- Who has agreed to cancel is canceled when it completes. -/
theorem state_of_agreed (hm : i.markedCanceled = true) :
    ActivityState.canceled = if i.markedCanceled then .canceled else .closed := by
  rw [hm]
  rfl

section Completion

variable (h : e.Withdraws Nobody) (hc : e.Consistent (· = x)) (hi : e.instances[x]? = some i)
variable (hl : i.state.isLive = true) (hr : i.cancelRequested = true)
include h hc hi hl hr

omit hl in
/-- An instance below the root that has answered completes. -/
theorem Withdraws.completeBelow (hp : i.parent = some p) : (e.completeInstance x).Withdraws Nobody := by
  have hs := state_of_agreed (h.agreed hi hr not_false)
  obtain ⟨table, -, -, -⟩ := completeInstance_eq hi hs
  have was : ∀ {k : InstanceId} {j : Instance}, (e.completeInstance x).instances[k]? = some j →
      ∃ l, e.instances[k]? = some l ∧ (k = x ∧ j = { l with state := .canceled } ∨ k ≠ x ∧ j = l) := by
    intro k j hj
    rw [table] at hj
    exact lookup_modify_cases (e := e) hj
  have same := completeInstance_below hi hp
  rw [← hs] at same
  have core := sameCore_trackState (e := { e.modify x fun j => { j with state := .canceled } with
    bookmarks := (e.bookmarks.removeOwned x).removeScopes x }) x .canceled
  have work : ∀ {w : WorkItem}, w ∈ (e.completeInstance x).queue.work ↔
      w = .completion p x ∨ w ∈ e.queue.work := by
    intro w
    rw [same]
    refine WorkQueue.mem_work_push.trans ?_
    rw [ended, core.queue]
    rfl
  refine h.of_recedes ⟨?_, fun hj => ?_, fun {k a j q} _ _ hq => ?_, .completeInstance, fun ho => ?_,
    fun hw => work.mpr (.inr hw)⟩ (fun hj hjt => ?_) fun hw => ?_
  · rw [same]
    exact inbox_trackState x .canceled
  · obtain ⟨l, hl, ⟨-, rfl⟩ | ⟨-, rfl⟩⟩ := was hj
    · exact ⟨l, hl, rfl, rfl, rfl, id⟩
    · exact ⟨_, hl, rfl, rfl, rfl, id⟩
  · rw [table, Table.lookup_modify, hq]
    split
    · exact ⟨_, rfl⟩
    · exact ⟨_, rfl⟩
  · rw [same] at ho
    exact core.operations ▸ ho
  · obtain ⟨l, hl, ⟨rfl, rfl⟩ | ⟨-, rfl⟩⟩ := was hj
    · cases hi.symm.trans hl
      exact ⟨rfl, hr⟩
    · exact h.canceled hl hjt
  · rcases work.mp hw with rfl | hw
    · exact .inr ⟨trivial, fun _ hk => WorkItem.noConfusion hk⟩
    · exact .inl hw

/-- The root that has answered completes, and the workflow has been canceled. -/
theorem Withdraws.completeRoot (hb : i.busy = 0) (hp : i.parent = none) :
    (e.completeInstance x).Withdrawing := by
  have hs := state_of_agreed (h.agreed hi hr not_false)
  have concluded := hc.completeRoot hi hl hb hp
  obtain ⟨table, root, -, -⟩ := completeInstance_eq hi hs
  have hx : x = e.root := hc.placed.tree.orphan hi hp
  have found : (e.completeInstance x).instances[x]? = some { i with state := .canceled } := by
    rw [table, Table.lookup_modify, if_pos rfl, hi]
    rfl
  refine .ended ?_ fun {k j} hj => ?_
  · obtain ⟨o, event, he, ho⟩ := concluded.ending
    rw [ending?, instance?, root, ← hx, found] at he
    have same : Outcome.canceled = o := congrArg (·.2.1) (Option.some.inj he)
    exact same ▸ ho
  · have hk := concluded.eq_root hj
    rw [root, ← hx] at hk
    subst hk
    cases found.symm.trans hj
    rfl

/-- An instance that has answered completes if it waits for nothing. -/
theorem Withdraws.tryComplete : (e.tryComplete x).Withdrawing := by
  unfold Executor.tryComplete
  split
  · next hcan =>
    rw [instance?, hi, Option.any_some, Instance.canComplete] at hcan
    have hb : i.busy = 0 := by
      simp only [Bool.and_eq_true, beq_iff_eq] at hcan
      exact hcan.1.2
    cases hp : i.parent with
    | some p =>
      have placed := hc.completeBelow (fun hk _ => hk) hi hl hb hp
      exact .going placed.opened (h.completeBelow hc hi hr hp)
    | none => exact h.completeRoot hc hi hl hr hb hp
  · exact .going hc.opened h

end Completion

end Workflow.Executor
