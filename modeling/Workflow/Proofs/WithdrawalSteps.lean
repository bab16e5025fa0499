import Workflow.Proofs.Withdrawal

/-!
# Items of a withdrawal

Every item that is done while a workflow withdraws is passed over, asks one more instance, or lets one
that has been canceled leave. While anybody is left, an item waits.
-/

namespace Workflow

theorem Definition.node_mem (d : Definition) (k : NodeId) : d.node k ∈ d.nodes := by
  rw [node, get?]
  cases hk : d.nodes[k.number]? with
  | none => exact List.mem_cons_self
  | some n => exact List.mem_of_getElem? hk

namespace Executor

variable {e e' m m' : Executor} {N : InstanceId → Prop} {x k p c : InstanceId} {i r : Instance}
variable {w : WorkItem} {q : WorkQueue} {a : Activity}

/-! ### The roll -/

/-- Whether an instance that is there has been asked to cancel. -/
def roll (e : Executor) (k : InstanceId) : Option Bool :=
  e.instances[k]?.map (·.cancelRequested)

theorem roll_eq_none_iff : e.roll k = none ↔ e.instances[k]? = none :=
  Option.map_eq_none_iff

theorem Abates.roll (h : Abates x e e') : e'.roll = e.roll := by
  funext k
  obtain ⟨f, hf, hk⟩ := h.look k
  rw [Executor.roll, Executor.roll, hk, Option.map_map]
  exact congrArg (Option.map · _) (funext fun i => (hf i).requested)

theorem roll_tryComplete : (e.tryComplete x).roll = e.roll := by
  unfold tryComplete
  split
  · funext k
    cases hi : e.instances[x]? with
    | none =>
      unfold completeInstance
      rw [instance?, hi]
    | some i =>
      rw [roll, roll, (completeInstance_eq hi rfl).1, Table.lookup_modify]
      split
      · exact Option.map_map ..
      · rfl
  · rfl

theorem nextInstance_tryComplete : (e.tryComplete x).nextInstance = e.nextInstance := by
  unfold tryComplete
  split
  · exact Retains.completeInstance.nextInstance
  · rfl

/-- The items that wait and the news that have arrived. -/
def pending (e : Executor) : Nat :=
  e.queue.work.length + e.inbox.length

theorem pending_drainInbox (e : Executor) : e.drainInbox.2.pending = e.pending := by
  have count : ∀ (news : List OperationCompletion) (q : WorkQueue),
      (queueAll q news).work.length = q.work.length + news.length := by
    intro news
    induction news with
    | nil => exact fun _ => rfl
    | cons n rest ih =>
      intro q
      refine (ih _).trans ?_
      rw [(q.work_push_perm _ _).length_eq, List.length_cons, List.length_cons]
      omega
  exact count e.inbox e.queue

/-- What an item of work does while a workflow withdraws. -/
inductive WithdrawalStep (e e' : Executor) : Prop
  /-- It is passed over. -/
  | passed (same : e'.roll = e.roll) (fewer : e'.pending < e.pending)
  /-- An instance is asked. -/
  | asked {x : InstanceId} (was : e.roll x = some false)
      (now : ∀ k, e'.roll k = if k = x then some true else e.roll k)
  /-- An instance that has been canceled leaves. -/
  | left {c : InstanceId} {i : Instance} (was : e.instances[c]? = some i) (canceled : i.state = .canceled)
      (now : ∀ k, e'.roll k = if k = c then none else e.roll k)

/-- A workflow withdraws further. -/
structure Proceeds (e e' : Executor) : Prop where
  withdrawing : e'.Withdrawing
  nextInstance : e'.nextInstance = e.nextInstance
  step : WithdrawalStep e e'

/-! ### What a parent is told -/

/-- A parent is told of a child that has not closed. -/
theorem Leaving.deliverCompletion_eq (h : Leaving e p c i r) (hs : i.state ≠ .closed) :
    e.deliverCompletion p c = ((e.dropChild p c).release p 1).informParent p i := by
  have live : isLive { e with instances := e.instances.erase c } p = true := by
    refine isLive_iff.mpr ⟨r, ?_, h.live⟩
    rw [Table.lookup_erase, if_neg h.ne.symm]
    exact h.parent
  unfold Executor.deliverCompletion
  rw [instance?, h.child]
  dsimp only
  rw [live, if_neg (by decide), if_neg hs]
  rfl

/-- The child is not there any more, and whoever else had been asked has been asked. -/
theorem Leaving.roll_dropped (h : Leaving e p c i r) (k : InstanceId) :
    ((e.dropChild p c).release p 1).roll k = if k = c then none else e.roll k := by
  change Option.map _ ((e.dropChild p c).modify p _).instances[k]? = _
  rw [lookup_modify, h.look]
  by_cases hk : k = c
  · rw [if_pos hk, if_pos hk]
    split <;> rfl
  · rw [if_neg hk, if_neg hk]
    by_cases hkp : k = p
    · rw [if_pos hkp.symm, if_pos hkp, hkp, roll, h.parent]
      rfl
    · rw [if_neg (Ne.symm hkp), if_neg hkp]
      rfl

/-- If a parent that has been asked to cancel is told of a child that has been canceled, the callback is
modest. -/
def TellsModestly (e : Executor) (p c : InstanceId) : Prop :=
  ∀ {i r : Instance} {tag : CallbackTag} {body : NativeBody}, e.instances[c]? = some i →
    i.state = .canceled → e.instances[p]? = some r → r.cancelRequested = true →
    i.completionCallback = some tag →
    ((e.dropChild p c).release p 1).nativeBody? p = some body →
    (((e.dropChild p c).release p 1).called p (.childCompleted tag i.completed)).Modest p
      (body.childCompleted tag i.completed)

/-- If the next item tells a parent of a completed child that has been asked to cancel itself, the
callback is modest. -/
def Complies (e : Executor) : Prop :=
  ∀ (p c : InstanceId) (q : WorkQueue), e.drainInbox.2.queue.pop? = some (.completion p c, q) →
    TellsModestly { e.drainInbox.2 with queue := q } p c

/-- Once it has been asked to cancel, a native activity is modest when it is told of its children. -/
def Heeds (body : NativeBody) : Prop :=
  ∀ {e : Executor} {p : InstanceId} {r : Instance} (tag : CallbackTag) (child : CompletedChild),
    e.instances[p]? = some r → r.cancelRequested = true → e.Modest p (body.childCompleted tag child)

/-- Activities that heed requests to cancel comply. -/
theorem complies_of_heeds (h : e.Proper) (ho : e.outcome = none)
    (heeds : ∀ n ∈ e.definition.nodes, ∀ body, n.body.behaviour = .native body → Heeds body) :
    e.Complies := by
  intro p c q hq i r tag body hi _ hr ha _ hb
  have hw := WorkQueue.work_of_pop? hq
  obtain ⟨l, leaving⟩ := (h.regular.drained ho h.not_aborted (hw ▸ List.cons_ne_nil _ _)).leaving hw hi
  have there : ((dropChild { e.drainInbox.2 with queue := q } p c).release p 1).roll p = some true := by
    rw [leaving.roll_dropped, if_neg leaving.ne, roll, hr, Option.map_some, ha]
  obtain ⟨r', hr', ha'⟩ := Option.map_eq_some_iff.mp there
  refine heeds _ (Definition.node_mem e.definition r'.node) body ?_ tag i.completed hr' ha'
  unfold nativeBody? at hb
  split at hb
  · next b hx =>
    cases hb
    rw [behaviour?, instance?, hr', Option.map_some] at hx
    exact Option.some.inj hx
  · exact absurd hb (Option.some_ne_none _).symm

/-! ### Items of work -/

namespace Withdraws

/-- An item is passed over. -/
theorem passes (h : e.Withdraws Nobody) (ho : e.outcome = none) (hq : e.queue.work = w :: q.work)
    (hw : ∀ {k : InstanceId} {i : Instance}, w = .cancel k → e.instances[k]? = some i →
      i.cancelRequested = true) : Proceeds e { e with queue := q } := by
  refine ⟨.going ho (h.skip hq hw), rfl, .passed rfl ?_⟩
  rw [pending, pending, hq, List.length_cons]
  change q.work.length + e.inbox.length < _
  omega

/-- An instance is asked to cancel, unless it has been. -/
theorem cancelInstance (h : e.Withdraws Nobody) (hc : e.Consistent Nobody) (hs : e.Suited N)
    (hd : e.definition.CancelsByDefault) (hq : e.queue.work = .cancel x :: q.work) :
    Proceeds e (Executor.cancelInstance { e with queue := q } x) := by
  have passes := h.passes (q := q) hc.opened hq
  unfold Executor.cancelInstance
  split
  · next i b hi hb =>
    have hi : e.instances[x]? = some i := hi
    split
    · next hn =>
      refine passes fun he hj => ?_
      cases he
      cases hi.symm.trans hj
      rcases hn with hl | ha
      · have steady := (hc.placed.tree.sound hi).steady
        rw [ActivityState.isLive_eq_not steady, Bool.not_not] at hl
        exact (h.canceled hi hl).2
      · exact ha
    · next hn =>
      obtain ⟨hl, ha⟩ : i.state.isLive = true ∧ i.cancelRequested = false := by
        rw [not_or] at hn
        simpa using hn
      have hx := h.ran hi
      rw [if_neg (by rw [hx]; decide)]
      dsimp only
      generalize he₁ : Executor.trackState _ x .canceling = e₁
      have popped : Consistent { e with queue := q } Nobody :=
        hc.pop_plain hq rfl (fun _ hw => WorkItem.noConfusion hw) fun _ => rfl
      obtain ⟨hc₁, -, j, hj, hl₁, -, hr₁⟩ := popped.canceling hi hl hx he₁.symm
      have withdraws : e₁.Withdraws (· = x) := by
        rw [← he₁]
        exact (h.request hq hi).of_sameCore (sameCore_trackState x .canceling) (inbox_trackState x _)
      have taken : Suited { e with queue := q } N := hs.of_retains (.of_instances rfl rfl rfl) (.of_eq rfl)
      have suited : e₁.Suited N := he₁ ▸ taken.canceling
      have hb₁ : e₁.behaviour? x = some b := he₁ ▸ behaviour?_canceling hb
      have default : b.CancelsByDefault := by
        obtain ⟨l, -, rfl⟩ := Option.map_eq_some_iff.mp hb
        exact hd _ (Definition.node_mem e.definition l.node)
      obtain ⟨e₂, he₂, abates, yielded⟩ := runCancel_yields hc₁ suited hj hb₁ hr₁
        (h.kind_ne_code hc hs hi hl hb) default
      have hc₂ : e₂.Consistent (· = x) := by
        obtain ⟨_, _, he, follows, -⟩ | ⟨_, he, -⟩ := hc₁.runCancel (isLive_iff.mpr ⟨j, hj, hl₁⟩) b
        · cases he₂.symm.trans he
          exact follows.consistent
        · cases he₂.symm.trans he
      obtain ⟨j₂, hj₂, same⟩ := abates.forth hj
      have roll₁ : ∀ k, e₁.roll k = if k = x then some true else e.roll k := by
        intro k
        rw [← he₁, roll, (sameCore_trackState x .canceling).instances, lookup_modify]
        by_cases hk : k = x
        · rw [if_pos hk.symm, if_pos hk, hk]
          change Option.map _ (Option.map _ e.instances[x]?) = _
          rw [hi]
          rfl
        · rw [if_neg (Ne.symm hk), if_neg hk]
          rfl
      have next₁ : e₁.nextInstance = e.nextInstance := by
        rw [← he₁]
        exact (sameCore_trackState x .canceling).nextInstance
      rw [he₂]
      refine ⟨((withdraws.abates hc₁.placed.tree abates hj hr₁).answer hc₂.placed.tree
        yielded).tryComplete hc₂ hj₂ (same.state ▸ hl₁) (same.requested.trans hr₁), ?_, ?_⟩
      · exact nextInstance_tryComplete.trans (abates.nextInstance.trans next₁)
      · refine .asked (x := x) (by rw [roll, hi, Option.map_some, ha]) fun k => ?_
        change (e₂.tryComplete x).roll k = _
        rw [roll_tryComplete, abates.roll]
        exact roll₁ k
  · next hn =>
    refine passes fun {k i} he hj => ?_
    cases he
    exact (hn i _ hj (by rw [behaviour?, instance?, hj]; rfl)).elim

/-- A parent is told of a child that has been canceled. -/
theorem informParent (h : e.Withdraws Nobody) (hc : e.Consistent (· = p))
    (hr : e.instances[p]? = some r) (hl : r.state.isLive = true) (ha : r.cancelRequested = true)
    (hm : ∀ {tag : CallbackTag} {body : NativeBody}, i.completionCallback = some tag →
      e.nativeBody? p = some body → (e.called p (.childCompleted tag i.completed)).Modest p
        (body.childCompleted tag i.completed)) :
    (e.informParent p i).Withdrawing ∧ (e.informParent p i).roll = e.roll ∧
      (e.informParent p i).nextInstance = e.nextInstance := by
  unfold Executor.informParent
  split
  · next tag body htag hbody =>
    have live : e.isLive p = true := isLive_iff.mpr ⟨r, hr, hl⟩
    obtain ⟨a, e', he, abates⟩ := (hm htag hbody).invoke
    have hc' : e'.Consistent (· = p) := by
      obtain ⟨_, _, hinv, follows, -⟩ | ⟨_, hinv, -⟩ := hc.invoke rfl live only_self
        (.childCompleted tag i.completed) (body.childCompleted tag i.completed)
      · cases he.symm.trans hinv
        exact follows.consistent
      · cases he.symm.trans hinv
    obtain ⟨r', hr', same⟩ := abates.forth hr
    unfold Executor.callBack
    rw [he]
    refine ⟨(h.abates hc.placed.tree abates hr ha).tryComplete hc' hr' (same.state ▸ hl)
      (same.requested.trans ha), ?_, ?_⟩
    · exact roll_tryComplete.trans abates.roll
    · exact nextInstance_tryComplete.trans abates.nextInstance
  · exact ⟨h.tryComplete hc hr hl ha, roll_tryComplete, nextInstance_tryComplete⟩

/-- A child that has been canceled leaves, and its parent is told. -/
theorem observes (h : e.Withdraws Nobody) (hl : Leaving e p c i r) (hm : e.TellsModestly p c) :
    (e.deliverCompletion p c).Withdrawing ∧ i.state = .canceled ∧
      (∀ k, (e.deliverCompletion p c).roll k = if k = c then none else e.roll k) ∧
      (e.deliverCompletion p c).nextInstance = e.nextInstance := by
  obtain ⟨hs, hci⟩ := h.canceled hl.child hl.terminal
  have ha : r.cancelRequested = true := h.below hl.child (.inl hci) hl.child hl.linked hl.parent
  have there : ((e.dropChild p c).release p 1).roll p = some true := by
    rw [hl.roll_dropped, if_neg hl.ne, roll, hl.parent, Option.map_some, ha]
  obtain ⟨r', hr', ha'⟩ := Option.map_eq_some_iff.mp there
  have hl' : r'.state.isLive = true := by
    obtain ⟨l, hlr, state, -⟩ := lookup_dropChild_release hl.parent hl.ne
    cases hr'.symm.trans hlr
    exact state ▸ hl.live
  have hs' : i.state ≠ .closed := hs ▸ ActivityState.noConfusion
  have consistent := hl.dropped
  rw [hl.deliverCompletion_eq hs']
  obtain ⟨withdrawing, same, next⟩ := (h.drop hl).informParent consistent hr' hl' ha'
    fun htag hbody => hm hl.child hs hl.parent ha htag hbody
  exact ⟨withdrawing, hs, fun k => same ▸ hl.roll_dropped k, next⟩

/-- An item is done while a workflow withdraws. -/
theorem dispatch (h : e.Withdraws Nobody) (hc : e.Consistent Nobody) (hs : e.Suited N)
    (hd : e.definition.CancelsByDefault) (hq : e.queue.work = w :: q.work)
    (hm : ∀ {p c : InstanceId}, w = .completion p c → TellsModestly { e with queue := q } p c) :
    Proceeds e (Executor.dispatch { e with queue := q } w) := by
  have trails : e.Trails w := h.items w (hq ▸ List.mem_cons_self)
  have passes := h.passes (q := q) hc.opened hq
  cases w with
  | cancel x => exact h.cancelInstance hc hs hd hq
  | completion p c =>
    have skips := passes fun he _ => WorkItem.noConfusion he
    cases hi : e.instances[c]? with
    | none =>
      change Proceeds e (Executor.deliverCompletion { e with queue := q } p c)
      unfold Executor.deliverCompletion
      rw [show instance? { e with queue := q } c = none from hi]
      exact skips
    | some i =>
      obtain ⟨r, leaving⟩ := hc.leaving hq hi
      obtain ⟨withdrawing, canceled, look, next⟩ :=
        (h.skip (q := q) hq fun he _ => WorkItem.noConfusion he).observes leaving (hm rfl)
      exact ⟨withdrawing, next, .left hi canceled look⟩
  | operation o result =>
    change Proceeds e (Executor.completeOperation { e with queue := q } o result)
    unfold Executor.completeOperation
    rw [show ({ e with queue := q } : Executor).operations[o]? = none from trails]
    exact passes fun he _ => WorkItem.noConfusion he
  | execute x => exact trails.elim
  | fault p c tag f => exact trails.elim
  | bookmark x b callback v releases => exact trails.elim

/-- The next item is done while a workflow withdraws. -/
theorem step (h : e.Withdraws Nobody) (hr : e.Proper) (ho : e.outcome = none) (hs : e.Suited N)
    (hd : e.definition.CancelsByDefault) (hm : e.Complies) (hst : e.step? = some e') :
    Proceeds e e' := by
  rw [step?_eq, Option.map_eq_some_iff] at hst
  obtain ⟨⟨w, q⟩, hq, rfl⟩ := hst
  have hw := WorkQueue.work_of_pop? hq
  have hc := hr.regular.drained ho hr.not_aborted (hw ▸ List.cons_ne_nil w _)
  have drained : e.drainInbox.2.Suited N := hs.of_retains (.of_instances rfl rfl rfl) (.of_eq rfl)
  obtain ⟨withdrawing, next, step⟩ := h.drainInbox.dispatch hc drained hd hw fun he => hm _ _ _ (he ▸ hq)
  refine ⟨withdrawing, next, ?_⟩
  cases step with
  | passed same fewer => exact .passed same (pending_drainInbox e ▸ fewer)
  | asked was now => exact .asked was now
  | left was canceled now => exact .left was canceled now

/-- While a workflow withdraws, an item waits or has arrived. -/
theorem exists_step (h : e.Withdraws Nobody) (hc : e.Consistent Nobody) : ∃ e', e.step? = some e' := by
  by_contra hn
  have hst : e.step? = none := by
    cases hst : e.step? with
    | none => rfl
    | some e' => exact absurd ⟨e', hst⟩ hn
  obtain ⟨-, hw⟩ := of_step?_none hst
  have hr : Resting { e with state := .idle } := ⟨rfl, hw, hc.runnable⟩
  have ht := hc.placed.tree
  -- From the root down, everybody has been asked.
  have all : ∀ (n : Nat) (k : InstanceId) (i : Instance), k.number < n → e.instances[k]? = some i →
      i.cancelRequested = true := by
    intro n
    induction n with
    | zero => exact fun k _ hk => absurd hk (Nat.not_lt_zero _)
    | succ n ih =>
      intro k i hk hi
      by_contra ha
      have asked := h.asked hi (Bool.eq_false_iff.mpr ha) (fun {j q p} hj hp hq => ?_) fun _ _ => id
      · rw [hw] at asked
        exact absurd asked List.not_mem_nil
      · exact ih p q (Nat.lt_of_lt_of_le (ht.older hj hp) (Nat.le_of_lt_succ hk)) hq
  obtain ⟨k, i, hi, hc⟩ := hr.exists_childless
  have hi : e.instances[k]? = some i := hi
  have ha := all (k.number + 1) k i (Nat.lt_succ_self _) hi
  obtain ⟨b, g, hg, rfl, -⟩ | ⟨o, ho⟩ := hr.awaits hi hc
  · exact h.unbooked hg hi ha
  · exact h.unoccupied ho hi ha

end Withdraws

end Executor

end Workflow
