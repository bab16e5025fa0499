import Workflow.Proofs.Course

/-!
# Work that arrives

While work is done and no body is called, items arrive and none is taken. The items that were queued
stay queued in their order, unless the workflow completes: then none of them is left. Journals,
definitions and the nodes that instances run go on as well.
-/

namespace Workflow

/-- The items of a list that arrived before a number. -/
def before (n : Nat) (l : List QueuedItem) : List QueuedItem :=
  l.filter fun a => decide (a.arrival < n)

theorem mem_before {n : Nat} {l : List QueuedItem} {a : QueuedItem} :
    a ∈ before n l ↔ a ∈ l ∧ a.arrival < n := by
  rw [before, List.mem_filter, decide_eq_true_eq]

theorem before_append (n : Nat) (l r : List QueuedItem) :
    before n (l ++ r) = before n l ++ before n r :=
  List.filter_append ..

theorem before_cons {n : Nat} {a : QueuedItem} (h : a.arrival < n) (l : List QueuedItem) :
    before n (a :: l) = a :: before n l :=
  List.filter_cons_of_pos (decide_eq_true h)

/-- Of two bounds the lower one counts. -/
theorem before_before {n k : Nat} (h : n ≤ k) (l : List QueuedItem) :
    before n (before k l) = before n l := by
  unfold before
  rw [List.filter_filter]
  refine List.filter_congr fun a _ => ?_
  by_cases ha : a.arrival < n
  · have earlier : a.arrival < k := by omega
    simp [ha, earlier]
  · simp [ha]

namespace WorkQueue

/-- A queue goes on from another by items that satisfy a condition and arrive later. -/
structure Gains (P : QueuedItem → Prop) (q r : WorkQueue) : Prop where
  next : q.nextArrival ≤ r.nextArrival
  /-- The items that were there are there, in their order. -/
  old : before q.nextArrival r.items = q.items
  /-- The others satisfy the condition. -/
  new : ∀ a ∈ r.items, q.nextArrival ≤ a.arrival → P a

namespace Gains

variable {P Q : QueuedItem → Prop} {q r s : WorkQueue}

/-- The items of a queue have all arrived. -/
theorem before_items (q : WorkQueue) : before q.nextArrival q.items = q.items :=
  List.filter_eq_self.mpr fun a ha => decide_eq_true (q.numbered a ha)

theorem refl (q : WorkQueue) : Gains P q q where
  next := Nat.le_refl _
  old := before_items q
  new a ha hn := absurd (q.numbered a ha) (Nat.not_lt.mpr hn)

theorem trans (h : Gains P q r) (h' : Gains P r s) : Gains P q s where
  next := Nat.le_trans h.next h'.next
  old := by rw [← before_before h.next, h'.old, h.old]
  new a ha hn := by
    by_cases hr : a.arrival < r.nextArrival
    · have there : a ∈ r.items := h'.old ▸ mem_before.mpr ⟨ha, hr⟩
      exact h.new a there hn
    · exact h'.new a ha (Nat.le_of_not_lt hr)

theorem mono (h : Gains P q r) (hPQ : ∀ a, P a → Q a) : Gains Q q r :=
  ⟨h.next, h.old, fun a ha hn => hPQ a (h.new a ha hn)⟩

/-- An item that is put in its place among others is not among the others. -/
theorem filter_insert (p : QueuedItem → Bool) {a : QueuedItem} (ha : p a = false)
    (items : List QueuedItem) : (insert a items).filter p = items.filter p := by
  induction items with
  | nil => simp [insert, ha]
  | cons b rest ih =>
    unfold insert
    split
    · simp [ha]
    · simp [List.filter_cons, ih]

/-- An item arrives. -/
theorem push (q : WorkQueue) {w : WorkItem} {p : Priority} (h : P ⟨p, q.nextArrival, w⟩) :
    Gains P q (q.push w p) where
  next := Nat.le_succ _
  old := by
    refine (filter_insert _ ?_ q.items).trans (before_items q)
    exact decide_eq_false (Nat.lt_irrefl _)
  new a ha hn := by
    rcases List.mem_cons.mp ((insert_perm _ _).mem_iff.mp ha) with rfl | ha
    · exact h
    · exact absurd (q.numbered a ha) (Nat.not_lt.mpr hn)

end Gains

end WorkQueue

namespace Executor

variable {e e' e'' : Executor} {P Q : QueuedItem → Prop} {x y k p c : InstanceId} {i : Instance}
variable {f : Instance → Instance}

/-- An executor goes on from another. Its queue gains items, or the workflow has completed and nothing
is left of what was queued. -/
structure Arrives (P : QueuedItem → Prop) (e e' : Executor) : Prop where
  next : e.queue.nextArrival ≤ e'.queue.nextArrival
  cases : (e'.outcome = e.outcome ∧ e.queue.Gains P e'.queue) ∨
    (e'.outcome ≠ none ∧ ∀ a ∈ e'.queue.items, e.queue.nextArrival ≤ a.arrival)

namespace Arrives

theorem of_gains (ho : e'.outcome = e.outcome) (hq : e.queue.Gains P e'.queue) : Arrives P e e' :=
  ⟨hq.next, .inl ⟨ho, hq⟩⟩

theorem of_eq (ho : e'.outcome = e.outcome) (hq : e'.queue = e.queue) : Arrives P e e' :=
  of_gains ho (hq ▸ .refl _)

theorem trans (h : Arrives P e e') (h' : Arrives P e' e'') : Arrives P e e'' := by
  refine ⟨Nat.le_trans h.next h'.next, ?_⟩
  rcases h'.cases with ⟨ho', hq'⟩ | ⟨ho', hq'⟩
  · rcases h.cases with ⟨ho, hq⟩ | ⟨ho, hq⟩
    · exact .inl ⟨ho'.trans ho, hq.trans hq'⟩
    · refine .inr ⟨ho'.symm ▸ ho, fun a ha => ?_⟩
      by_cases hn : a.arrival < e'.queue.nextArrival
      · exact hq a (hq'.old ▸ mem_before.mpr ⟨ha, hn⟩)
      · exact Nat.le_trans h.next (Nat.le_of_not_lt hn)
  · exact .inr ⟨ho', fun a ha => Nat.le_trans h.next (hq' a ha)⟩

theorem mono (h : Arrives P e e') (hPQ : ∀ a, P a → Q a) : Arrives Q e e' :=
  ⟨h.next, h.cases.imp_left fun ⟨ho, hq⟩ => ⟨ho, hq.mono hPQ⟩⟩

end Arrives

end Executor

/-- The instance has closed or was canceled. -/
def Instance.HasCompleted (i : Instance) : Prop :=
  i.state = .closed ∨ i.state = .canceled

namespace Executor

variable {e e' e'' : Executor} {P Q : QueuedItem → Prop} {x y k p c : InstanceId} {i : Instance}
variable {f : Instance → Instance}

/-- An executor goes on from another in which no body is called but abort hooks. -/
structure Tends (P : QueuedItem → Prop) (e e' : Executor) : Prop where
  arrives : Arrives P e e'
  journal : ∃ l, e'.journal = e.journal ++ l ∧ ∀ c ∈ calls l, c.2.isAbort = true
  definition : e'.definition = e.definition
  next : e.nextInstance ≤ e'.nextInstance
  /-- Who is there and is not new runs the node that it ran. -/
  nodes : ∀ {k : InstanceId} {i : Instance}, e'.instances[k]? = some i → k.number < e.nextInstance →
    ∃ j, e.instances[k]? = some j ∧ i.node = j.node
  /-- Whoever has come to have completed is one of whose completion an item may tell. -/
  completed : ∀ {k : InstanceId} {i : Instance}, e'.instances[k]? = some i → i.HasCompleted →
    (∃ j, e.instances[k]? = some j ∧ j.HasCompleted) ∨ ∃ p n, P ⟨.normal, n, .completion p k⟩

namespace Tends

theorem trans (h : Tends P e e') (h' : Tends P e' e'') : Tends P e e'' where
  arrives := h.arrives.trans h'.arrives
  journal := by
    obtain ⟨l, hl, ha⟩ := h.journal
    obtain ⟨r, hr, hb⟩ := h'.journal
    refine ⟨l ++ r, by rw [hr, hl, List.append_assoc], fun c hc => ?_⟩
    rw [calls_append] at hc
    exact (List.mem_append.mp hc).elim (ha c) (hb c)
  definition := h'.definition.trans h.definition
  next := Nat.le_trans h.next h'.next
  nodes hi hk := by
    obtain ⟨j, hj, hij⟩ := h'.nodes hi (Nat.lt_of_lt_of_le hk h.next)
    obtain ⟨l, hl, hjl⟩ := h.nodes hj hk
    exact ⟨l, hl, hij.trans hjl⟩
  completed hi hc := by
    rcases h'.completed hi hc with ⟨j, hj, hc⟩ | told
    · exact h.completed hj hc
    · exact .inr told

theorem mono (h : Tends P e e') (hPQ : ∀ a, P a → Q a) : Tends Q e e' where
  arrives := h.arrives.mono hPQ
  journal := h.journal
  definition := h.definition
  next := h.next
  nodes := h.nodes
  completed hi hc := (h.completed hi hc).imp_right fun ⟨p, n, ha⟩ => ⟨p, n, hPQ _ ha⟩

/-- One instance changes, but not the node that it runs. -/
theorem of_modified (hf : ∀ i, (f i).node = i.node) (hi : e'.instances = e.instances.modify k f)
    (hd : e'.definition = e.definition) (hn : e'.nextInstance = e.nextInstance)
    (hq : e'.queue = e.queue) (ho : e'.outcome = e.outcome) (hj : e'.journal = e.journal)
    (hs : ∀ i, (f i).HasCompleted → i.HasCompleted ∨ ∃ p n, P ⟨.normal, n, .completion p k⟩ := by
      exact fun _ h => .inl h) : Tends P e e' where
  arrives := .of_eq ho hq
  journal := ⟨[], by rw [hj, List.append_nil], fun _ hc => absurd hc List.not_mem_nil⟩
  definition := hd
  next := Nat.le_of_eq hn.symm
  nodes {a i} ha _ := by
    rw [hi] at ha
    obtain ⟨j, hj, ⟨-, rfl⟩ | ⟨-, rfl⟩⟩ := lookup_modify_cases (e := e) ha
    · exact ⟨j, hj, hf j⟩
    · exact ⟨i, hj, rfl⟩
  completed {a i} ha hc := by
    rw [hi] at ha
    obtain ⟨j, hj, ⟨rfl, rfl⟩ | ⟨-, rfl⟩⟩ := lookup_modify_cases (e := e) ha
    · exact (hs j hc).imp_left fun hc => ⟨j, hj, hc⟩
    · exact .inl ⟨i, hj, hc⟩

theorem modify (hf : ∀ i, (f i).node = i.node)
    (hs : ∀ i, (f i).HasCompleted → i.HasCompleted ∨ ∃ p n, P ⟨.normal, n, .completion p k⟩ := by
      exact fun _ h => .inl h) : Tends P e (e.modify k f) :=
  of_modified hf rfl rfl rfl rfl rfl rfl hs

/-- Instances may leave. -/
theorem of_back (hd : e'.definition = e.definition) (hn : e'.nextInstance = e.nextInstance)
    (hq : e'.queue = e.queue) (ho : e'.outcome = e.outcome) (hj : e'.journal = e.journal)
    (hi : ∀ (k : InstanceId) (i : Instance), e'.instances[k]? = some i → e.instances[k]? = some i) :
    Tends P e e' where
  arrives := .of_eq ho hq
  journal := ⟨[], by rw [hj, List.append_nil], fun _ hc => absurd hc List.not_mem_nil⟩
  definition := hd
  next := Nat.le_of_eq hn.symm
  nodes ha _ := ⟨_, hi _ _ ha, rfl⟩
  completed ha hc := .inl ⟨_, hi _ _ ha, hc⟩

/-- What is none of this may change. -/
theorem of_eq (hi : e'.instances = e.instances) (hd : e'.definition = e.definition)
    (hn : e'.nextInstance = e.nextInstance) (hq : e'.queue = e.queue)
    (ho : e'.outcome = e.outcome) (hj : e'.journal = e.journal) : Tends P e e' :=
  of_back hd hn hq ho hj fun _ _ hk => hi ▸ hk

theorem refl (e : Executor) : Tends P e e :=
  of_eq rfl rfl rfl rfl rfl rfl

theorem of_sameCore (h : SameCore e e') (hj : e'.journal = e.journal) : Tends P e e' :=
  of_eq h.instances h.definition h.nextInstance h.queue h.outcome hj

theorem release (n : Nat) : Tends P e (e.release x n) :=
  of_modified (k := x) (f := fun i => { i with busy := i.busy - n }) (fun _ => rfl)
    rfl rfl rfl rfl rfl rfl

theorem erase (x : InstanceId) : Tends P e { e with instances := e.instances.erase x } := by
  refine of_back rfl rfl rfl rfl rfl fun k i hi => ?_
  rw [Table.lookup_erase] at hi
  split at hi
  · exact absurd hi.symm (Option.some_ne_none i)
  · exact hi

/-- An item arrives and nothing else changes. -/
theorem of_push {w : WorkItem} {p : Priority} (h : P ⟨p, e.queue.nextArrival, w⟩)
    (hq : e'.queue = e.queue.push w p) (hi : e'.instances = e.instances)
    (hd : e'.definition = e.definition) (hn : e'.nextInstance = e.nextInstance)
    (ho : e'.outcome = e.outcome) (hj : e'.journal = e.journal) : Tends P e e' where
  arrives := .of_gains ho (hq ▸ .push e.queue h)
  journal := ⟨[], by rw [hj, List.append_nil], fun _ hc => absurd hc List.not_mem_nil⟩
  definition := hd
  next := Nat.le_of_eq hn.symm
  nodes ha _ := ⟨_, hi ▸ ha, rfl⟩
  completed ha hc := .inl ⟨_, hi ▸ ha, hc⟩

theorem enqueue {w : WorkItem} (h : P ⟨.normal, e.queue.nextArrival, w⟩) : Tends P e (e.enqueue w) :=
  of_push h rfl rfl rfl rfl rfl rfl

/-- An entry of the journal that is no call, or a call of an abort hook. -/
theorem log {entry : JournalEntry} (h : ∀ c ∈ calls [entry], c.2.isAbort = true) :
    Tends P e (e.log entry) where
  arrives := .of_eq rfl rfl
  journal := ⟨[entry], rfl, h⟩
  definition := rfl
  next := Nat.le_refl _
  nodes ha _ := ⟨_, ha, rfl⟩
  completed ha hc := .inl ⟨_, ha, hc⟩

theorem foldl {α : Type} {g : Executor → α → Executor} (hg : ∀ e a, Tends P e (g e a)) (l : List α) :
    Tends P e (l.foldl g e) := by
  induction l generalizing e with
  | nil => exact refl e
  | cons a rest ih => exact (hg e a).trans ih

theorem trackState (k : InstanceId) (s : ActivityState) : Tends P e (e.trackState k s) :=
  of_sameCore (sameCore_trackState k s) (journal_trackState k s)

theorem trackResumed (b : Bookmark) (owner : InstanceId) : Tends P e (e.trackResumed b owner) :=
  of_sameCore (sameCore_trackResumed b owner) (journal_trackResumed b owner)

/-! ### Completion and faults -/

/-- The end of the workflow leaves nothing queued. -/
theorem finishWorkflow : Tends P e e.finishWorkflow := by
  unfold Executor.finishWorkflow
  split
  · exact refl e
  · refine ⟨⟨Nat.le_refl _, .inr ⟨Option.some_ne_none _, fun a ha => absurd ha List.not_mem_nil⟩⟩,
      ⟨[], (List.append_nil _).symm, fun _ hc => absurd hc List.not_mem_nil⟩, rfl, Nat.le_refl _,
      fun hk _ => ⟨_, hk, rfl⟩, fun hk hc => .inl ⟨_, hk, hc⟩⟩

theorem callAbortHook (k : InstanceId) (reason : Fault) : Tends P e (e.callAbortHook k reason) := by
  unfold Executor.callAbortHook
  split
  · exact refl e
  · dsimp only
    split
    · exact refl e
    · refine log fun c hc => ?_
      rw [List.mem_singleton.mp hc]
      rfl

theorem releaseResources (x : InstanceId) : Tends P e (e.releaseResources x) :=
  of_eq rfl rfl rfl rfl rfl rfl

theorem abortInstance (reason : Fault) (x : InstanceId) : Tends P e (e.abortInstance reason x) := by
  unfold Executor.abortInstance
  split
  · exact refl e
  · dsimp only
    split
    · exact erase x
    · have told := (releaseResources x).trans (callAbortHook (P := P) (e := e.releaseResources x) x reason)
      exact (told.trans (trackState x .faulted)).trans (erase x)

theorem markFaulted (g : Fault) : Tends P e (e.markFaulted x g) := by
  unfold Executor.markFaulted
  have marked : Tends P e (e.modify x fun i => { i with state := .faulting, children := [] }) :=
    modify (fun _ => rfl) fun _ => nofun
  have torn := marked.trans (foldl (fun e k => abortInstance (e := e) g k) (e.descendants x))
  have released := torn.trans (releaseResources x)
  have struck := released.trans (modify (k := x)
    (f := fun i => { i with state := .faulted, busy := 0, fault := some g }) (fun _ => rfl)
    fun _ => nofun)
  exact struck.trans (trackState x .faulted)

end Tends

/-- Whoever is struck by a fault is faulted, if it is there. -/
theorem faulted_markFaulted {g : Fault} (hi : (e.markFaulted x g).instances[x]? = some i) :
    i.state = .faulted := by
  unfold markFaulted at hi
  rw [(sameCore_trackState x .faulted).instances] at hi
  obtain ⟨j, -, ⟨-, rfl⟩ | ⟨hx, -⟩⟩ := lookup_modify_cases hi
  · rfl
  · exact absurd rfl hx

/-- An item of low priority resumes a bookmark, and an item that tells of a fault tells of an instance
that has faulted, if it is there. -/
structure Sane (e : Executor) (a : QueuedItem) : Prop where
  low : a.priority = .low → ∃ o b tag v r, a.item = .bookmark o b tag v r
  faulted : ∀ {h c : InstanceId} {tag : CallbackTag} {g : Fault} {i : Instance},
    a.item = .fault h c tag g → e.instances[c]? = some i → i.state = .faulted

/-- A sane item that tells of no completion but that of one instance. -/
structure Only (e : Executor) (x : InstanceId) (a : QueuedItem) : Prop where
  sane : e.Sane a
  about : ∀ {p c : InstanceId}, a.item = .completion p c → c = x

/-- An item that tells of no child, and if it is of low priority resumes a bookmark. -/
def Plain (a : QueuedItem) : Prop :=
  ∀ (e : Executor) (x : InstanceId), e.Only x a

/-- An item of normal priority that tells of no child is plain. -/
theorem plain_normal {w : WorkItem} (hw : w.report? = none) (n : Nat) : Plain ⟨.normal, n, w⟩ := by
  intro e x
  constructor
  · exact ⟨fun h => (nomatch h), fun {h c tag g i} hf => by cases hf; cases hw⟩
  · rintro p c rfl
    cases hw

/-- The item that tells of the completion of an instance tells of no other. -/
theorem only_completion (e : Executor) (p : InstanceId) (n : Nat) :
    e.Only x ⟨.normal, n, .completion p x⟩ :=
  ⟨⟨fun h => (nomatch h), fun h => (nomatch h)⟩, fun h => (WorkItem.completion.inj h).2.symm⟩

namespace Tends

/-- The completion of an instance may be told of. -/
theorem completeInstance_of (hP : ∀ p n, P ⟨.normal, n, .completion p x⟩) :
    Tends P e (e.completeInstance x) := by
  unfold Executor.completeInstance
  split
  · exact refl e
  · next i _ =>
    dsimp only
    generalize (if i.markedCanceled then ActivityState.canceled else .closed) = s
    have ended : Tends P e (e.ended x s) := by
      have completed : Tends P e { e.modify x fun i => { i with state := s } with
          bookmarks := (e.bookmarks.removeOwned x).removeScopes x } :=
        of_modified (k := x) (f := fun i => { i with state := s }) (fun _ => rfl)
          rfl rfl rfl rfl rfl rfl fun _ _ => .inr ⟨x, 0, hP x 0⟩
      exact completed.trans (trackState x s)
    split
    · exact ended.trans (enqueue (hP _ _))
    · exact ended.trans finishWorkflow

theorem completeInstance (m : Executor) : Tends (m.Only x) e (e.completeInstance x) :=
  completeInstance_of fun p n => only_completion m p n

/-- A fault that goes up may be told of, and whoever it is told of has faulted. -/
theorem propagate_of (n : Nat) (g : Fault) {r : Executor} (hr : r = propagate n x g e)
    (hP : ∀ p c tag n, (∀ i, r.instances[c]? = some i → i.state = .faulted) →
      P ⟨.normal, n, .fault p c tag g⟩) : Tends P e r := by
  induction n generalizing e x with
  | zero => exact hr ▸ refl e
  | succ n ih =>
    unfold Executor.propagate at hr
    cases hi : e.instance? x with
    | none =>
      rw [hi] at hr
      exact hr ▸ refl e
    | some i =>
      rw [hi] at hr
      dsimp only at hr
      cases ht : i.state.isTerminal with
      | true =>
        rw [ht, if_pos rfl] at hr
        subst hr
        exact refl r
      | false =>
        rw [ht, if_neg Bool.false_ne_true] at hr
        have struck : Tends P e (e.markFaulted x g) := markFaulted g
        have tracked : ∀ (k : Executor) handler, Tends P k (k.trackFault g handler) :=
          fun _ _ => of_eq rfl rfl rfl rfl rfl rfl
        cases hp : i.parent with
        | none =>
          rw [hp] at hr
          subst hr
          exact (struck.trans (tracked _ none)).trans finishWorkflow
        | some p =>
          cases hc : i.faultCallback with
          | none =>
            rw [hp, hc] at hr
            exact struck.trans (ih hr)
          | some tag =>
            rw [hp, hc] at hr
            subst hr
            refine (struck.trans (tracked _ (some p))).trans (enqueue (hP _ _ _ _ fun j hj => ?_))
            have untouched := (sameCore_trackFault (e := e.markFaulted x g) g (some p)).instances
            exact faulted_markFaulted ((congrArg (·[x]?) untouched).symm.trans hj)

theorem propagate (n : Nat) (g : Fault) {r : Executor} (hr : r = propagate n x g e) :
    Tends (r.Only y) e r := by
  refine propagate_of n g hr fun p c tag n hf => ⟨⟨fun h => (nomatch h), fun {h c tag g j} hw hj => ?_⟩,
    fun h => nomatch h⟩
  cases hw
  exact hf j hj

theorem faultInstance (g : Fault) :
    Tends ((e.faultInstance x g).Only y) e (e.faultInstance x g) :=
  propagate _ g rfl

/-! ### Answers -/

/-- A new child is queued. -/
theorem adopt {c : Instance} (hP : P ⟨.normal, e.queue.nextArrival, .execute c.id⟩)
    (hc : c.id = ⟨e.nextInstance⟩) (hs : ¬ c.HasCompleted) : Tends P e (e.adopt x c) where
  arrives := .of_gains rfl (.push e.queue hP)
  journal := ⟨[], (List.append_nil _).symm, fun _ hc => absurd hc List.not_mem_nil⟩
  definition := rfl
  next := Nat.le_succ _
  nodes {a i} ha hn := by
    have older : c.id ≠ a := by
      rintro rfl
      rw [hc] at hn
      exact Nat.lt_irrefl _ hn
    obtain ⟨j, hj, changed⟩ :=
      lookup_modify_cases (e := { e with instances := e.instances.insert c.id c }) ha
    rw [Table.lookup_insert, if_neg older] at hj
    rcases changed with ⟨-, rfl⟩ | ⟨-, rfl⟩
    · exact ⟨j, hj, rfl⟩
    · exact ⟨i, hj, rfl⟩
  completed {a i} ha hi := by
    obtain ⟨j, hj, changed⟩ :=
      lookup_modify_cases (e := { e with instances := e.instances.insert c.id c }) ha
    have same : j.HasCompleted := by
      rcases changed with ⟨-, rfl⟩ | ⟨-, rfl⟩ <;> exact hi
    rw [Table.lookup_insert] at hj
    split at hj
    · cases hj
      exact absurd same hs
    · exact .inl ⟨j, hj, same⟩

theorem scheduleChild_of (hP : ∀ k n, P ⟨.normal, n, .execute k⟩) (node : NodeId)
    (options : ScheduleOptions) : Tends P e (e.scheduleChild x node options).2 := by
  unfold Executor.scheduleChild
  split
  · exact refl e
  · next scope _ =>
    have young : ¬ (e.newChild x node scope options).HasCompleted := by
      rintro (h | h) <;> cases h
    exact (adopt (hP _ _) rfl young).trans
      (of_sameCore (sameCore_trackScheduled _ _) (journal_trackScheduled _ _))

/-- A cancellation may be asked for. -/
theorem cancelChild_of (hP : ∀ k n, P ⟨.normal, n, .cancel k⟩) (k : InstanceId) :
    Tends P e (e.cancelChild x k).2 := by
  unfold Executor.cancelChild
  split
  · exact refl e
  · split
    · exact enqueue (hP k _)
    · exact refl e

theorem createBookmark (g : Registration) : Tends P e (e.createBookmark g).2 := by
  unfold Executor.createBookmark
  split
  · split
    · exact refl e
    · dsimp only
      split
      · exact of_modified (k := g.owner) (f := Instance.incrementBusy) (fun _ => rfl)
          rfl rfl rfl rfl rfl rfl
      · exact of_eq rfl rfl rfl rfl rfl rfl
  · exact refl e

theorem removeBookmark (b : Bookmark) : Tends P e (e.removeBookmark x b).2 := by
  unfold Executor.removeBookmark
  split
  · exact refl e
  · split
    · have removed : Tends P e { e with bookmarks := e.bookmarks.unregister b } :=
        of_eq rfl rfl rfl rfl rfl rfl
      dsimp only
      split
      · exact removed.trans (release 1)
      · exact removed
    · exact refl e

theorem removeAllBookmarks : Tends P e (e.removeAllBookmarks x) := by
  have removed : Tends P e { e with bookmarks := e.bookmarks.removeOwned x } :=
    of_eq rfl rfl rfl rfl rfl rfl
  exact removed.trans (release _)

theorem createScope : Tends P e (e.createScope x).2 := by
  unfold Executor.createScope
  split
  · exact refl e
  · split
    · exact of_eq rfl rfl rfl rfl rfl rfl
    · exact refl e

/-- A resumption may be asked for. -/
theorem resumeBookmark (b : Bookmark) (v : Value) (p : Priority) :
    Tends Plain e (e.resumeBookmark b v p).2 := by
  unfold Executor.resumeBookmark
  split
  · exact refl e
  · split
    · exact refl e
    · refine of_push (fun _ _ => ⟨⟨fun _ => ⟨_, _, _, _, _, rfl⟩, fun h => nomatch h⟩, fun h => ?_⟩)
        rfl rfl rfl rfl rfl rfl
      cases h

/-- Unless a bookmark is resumed, what arrives are executions and cancellations. -/
theorem answerScheduling_of (hx : ∀ k n, P ⟨.normal, n, .execute k⟩)
    (hc : ∀ k n, P ⟨.normal, n, .cancel k⟩) (q : SchedulingRequest)
    (hr : ∀ b v, q = .resume b v → Tends P e (e.resumeBookmark b v).2) :
    Tends P e (e.answerScheduling x q).2 := by
  cases q with
  | schedule node options => exact scheduleChild_of hx node options
  | cancelChild k => exact cancelChild_of hc k
  | cancelChildren => exact foldl (fun _ k => enqueue (hc k _)) _
  | createBookmark name scope callback options => exact createBookmark _
  | removeBookmark b => exact removeBookmark b
  | removeAllBookmarks => exact removeAllBookmarks
  | createScope => exact createScope
  | resume b v => exact hr b v rfl
  | setResult v | addProperty name v | removeProperty name => exact modify fun _ => rfl
  | _ => exact of_eq rfl rfl rfl rfl rfl rfl

theorem answerScheduling (q : SchedulingRequest) : Tends Plain e (e.answerScheduling x q).2 :=
  answerScheduling_of (fun _ => plain_normal rfl) (fun _ => plain_normal rfl) q fun b v _ =>
    resumeBookmark b v .normal

theorem answerContext (q : ContextRequest) : Tends P e (e.answerContext x q).2 := by
  cases q with
  | say text => exact log fun c hc => absurd hc List.not_mem_nil
  | write l v =>
    unfold Executor.answerContext Executor.writeLocation
    dsimp only
    split
    · exact modify fun _ => rfl
    · exact refl e
  | setArgument name v =>
    unfold Executor.answerContext Executor.assignArgument
    dsimp only
    split
    · exact refl e
    · split
      · exact refl e
      · split
        · exact modify fun _ => rfl
        · exact refl e
  | _ => exact refl e

theorem answerCancellation (q : CancellationRequest) :
    Tends P e (e.answerCancellation x q).2 := by
  cases q with
  | isRequested => exact refl e
  | accept =>
    unfold Executor.answerCancellation Executor.markCanceled
    split
    · exact refl e
    · split
      · exact modify fun _ => rfl
      · exact refl e

theorem answerOperation (q : OperationRequest) : Tends P e (e.answerOperation q).2 := by
  refine of_sameCore (sameCore_answerOperation q) ?_
  cases q with
  | discard o => rfl
  | complete o result =>
    unfold Executor.answerOperation completeHandle
    dsimp only
    split
    · split <;> rfl
    · rfl

/-- An answer may let plain items arrive. -/
theorem answer {k : BodyKind} (q : Request k) : Tends Plain e (e.answer x q).2 := by
  cases q with
  | context q => exact answerContext q
  | cancellation q _ => exact answerCancellation q
  | operation q => exact answerOperation q
  | scheduling q => exact answerScheduling q

/-- A program may let plain items arrive. -/
theorem perform {k : BodyKind} {α : Type} (p : Program k α) : Tends Plain e (e.perform x p).2 := by
  induction p generalizing e with
  | done a => exact refl e
  | crash c => exact refl e
  | ask q next ih => exact (answer q).trans (ih _)

end Tends

end Executor

end Workflow
