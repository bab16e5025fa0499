import Workflow.Proofs.Pursuit

/-!
# Steps of a piece of work

An executor pursues a plan when all its instances do what their shapes say, nothing else is queued, and
what is left to do is bounded. The steps that a piece of work is made of keep that: a body is called
and writes a line, a child is scheduled, an instance comes to have run, completes or faults, and a
parent sees a child end.
-/

namespace Workflow

/-- Two instances differ at most in what nobody else sees: whether they have run, and their values and
results. -/
structure Instance.Retains (i j : Instance) : Prop where
  place : i.SamePlace j := by exact {}
  state : i.state = j.state := by rfl
  fault : i.fault = j.fault := by rfl
  busy : i.busy = j.busy := by rfl
  markedCanceled : i.markedCanceled = j.markedCanceled := by rfl
  cancelRequested : i.cancelRequested = j.cancelRequested := by rfl
  completionCallback : i.completionCallback = j.completionCallback := by rfl
  faultCallback : i.faultCallback = j.faultCallback := by rfl

/-- What a workflow of composite activities queues. The child of a queued fault has faulted. -/
def WorkItem.Expected (t : InstanceTable) : WorkItem → Prop
  | .execute _ => True
  | .completion _ _ => True
  | .fault _ child _ _ => ∀ i, t[child]? = some i → i.state = .faulted
  | _ => False

/-- An item is expected as long as the child of which it tells has not changed its state. -/
theorem WorkItem.Expected.of_states {t u : InstanceTable} {w : WorkItem} (h : w.Expected t)
    (hu : ∀ {p k : InstanceId} {j : Instance}, w.report? = some (p, k) → u[k]? = some j →
      ∃ i, t[k]? = some i ∧ j.state = i.state) : w.Expected u := by
  cases w with
  | fault p k tag f =>
    intro j hj
    obtain ⟨i, hi, hs⟩ := hu rfl hj
    exact hs.trans (h i hi)
  | _ => exact h

/-- A node has one parent. -/
theorem Definition.isDeclaredChild_unique {d : Definition} {p q c : NodeId}
    (hp : d.isDeclaredChild p c = true) (hq : d.isDeclaredChild q c = true) : p = q := by
  rw [isDeclaredChild, beq_iff_eq] at hp hq
  exact Option.some.inj (hp.symm.trans hq)

namespace Executor

variable {e e' e'' : Executor} {plan : NodeId → Shape} {todo todo' : InstanceId → List NodeId}
variable {X Y : InstanceId → Prop} {n m : Nat} {account : Account}
variable {x k p c : InstanceId} {i j r y : Instance} {w : WorkItem} {q : WorkQueue}

/-- Executors that differ only in records, handles and the services of the host. -/
structure Silent (e e' : Executor) : Prop extends SameCore e e' where
  inbox : e'.inbox = e.inbox := by rfl
  journal : e'.journal = e.journal := by rfl

theorem silent_track (event : TrackingEvent) : Silent e (e.track event) :=
  { toSameCore := sameCore_track event }

theorem silent_trackState (k : InstanceId) (s : ActivityState) : Silent e (e.trackState k s) := by
  unfold trackState
  split
  · exact silent_track _
  · exact { toSameCore := .refl e }

theorem silent_trackScheduled (parent : Option ActivityInfo) (k : InstanceId) :
    Silent e (e.trackScheduled parent k) := by
  unfold trackScheduled
  split
  · exact silent_track _
  · exact { toSameCore := .refl e }

theorem silent_trackFault (f : Fault) (handler : Option InstanceId) :
    Silent e (e.trackFault f handler) :=
  silent_track _

theorem silent_announce : Silent e e.announce :=
  { toSameCore := sameCore_announce
    inbox := inbox_announce
    journal := journal_announce }

/-- The work that is left: what is queued, and what the instances stand for. -/
def toDo (e : Executor) (plan : NodeId → Shape) (todo : InstanceId → List NodeId) : Nat :=
  InstanceTable.remaining (workTally plan) todo e.instances e.nextInstance + e.queue.load

/-- The lines that are written, and the lines and leaves that are left. -/
def toTell (e : Executor) (plan : NodeId → Shape) (todo : InstanceId → List NodeId) : Account :=
  e.said + InstanceTable.remaining (accountTally plan) todo e.instances e.nextInstance

/-- All instances of an executor do what their shapes say, and nothing but their work is queued. There
is no more to do than the given number of units of work; if nothing can fail, what is told and what is
left to tell are as given. -/
structure Pursues (plan : NodeId → Shape) (todo : InstanceId → List NodeId) (X : InstanceId → Prop)
    (n : Nat) (account : Account) (e : Executor) : Prop where
  blueprint : Blueprint e.definition plan
  consistent : e.Consistent X
  onPlan : OnPlan e.definition plan todo X e.instances
  registrations : e.bookmarks.registrations = ∅
  operations : e.operations = ∅
  inbox : e.inbox = []
  expected : ∀ w ∈ e.queue.work, w.Expected e.instances
  bounded : e.toDo plan todo ≤ n
  told : (∀ k, (plan k).throws = false) → e.toTell plan todo = account

/-- A workflow that has completed as its shape says. -/
structure Achieves (plan : NodeId → Shape) (account : Account) (e : Executor) : Prop where
  concluded : e.Concluded
  /-- The root has ended as its shape says. -/
  root : ∀ {r : Instance}, e.instances[e.root]? = some r → r.Fits e.definition plan
  /-- If nothing can fail, everything has been told. -/
  told : (∀ k, (plan k).throws = false) → e.said = account

/-- After a piece of work the plan is still pursued, or it has been achieved. -/
def Onward (plan : NodeId → Shape) (n : Nat) (account : Account) (e : Executor) : Prop :=
  (∃ todo, e.Pursues plan todo Nobody n account) ∨ e.Achieves plan account

/-- An instance has scheduled children. -/
structure Expands (e : Executor) (x : InstanceId) (i : Instance) (started : List InstanceId)
    (nodes : List NodeId) (e' : Executor) (j : Instance) : Prop where
  found : e'.instances[x]? = some j
  node : j.node = i.node
  state : j.state = i.state
  executed : j.executed = i.executed
  children : j.children = i.children ++ started
  /-- The new children run the nodes. -/
  run : List.Forall₂ (Enacts e'.instances) started nodes
  /-- Others run what they ran. -/
  keeps : ∀ {b : InstanceId} {a : NodeId}, Enacts e.instances b a → Enacts e'.instances b a
  definition : e'.definition = e.definition

/-! ### Steps that change no instance -/

namespace Pursues

/-- Records do not matter. -/
theorem of_silent (h : e.Pursues plan todo X n account) (hs : Silent e e') :
    e'.Pursues plan todo X n account where
  blueprint := hs.definition ▸ h.blueprint
  consistent := hs.consistent h.consistent
  onPlan := by
    rw [hs.definition, hs.instances]
    exact h.onPlan
  registrations := hs.bookmarks ▸ h.registrations
  operations := hs.operations ▸ h.operations
  inbox := hs.inbox ▸ h.inbox
  expected := by
    rw [hs.queue, hs.instances]
    exact h.expected
  bounded := by
    rw [toDo, hs.instances, hs.nextInstance, hs.queue]
    exact h.bounded
  told := by
    rw [toTell, said_congr hs.journal, hs.instances, hs.nextInstance]
    exact h.told

/-- There may be less to do. -/
theorem weaken (h : e.Pursues plan todo X n account) (hn : n ≤ m) : e.Pursues plan todo X m account :=
  { h with bounded := h.bounded.trans hn }

/-- The body of an instance is called. -/
theorem call (h : e.Pursues plan todo X n account) (k : InstanceId) (label : String)
    (callback : Callback) : (e.log (.call k label callback)).Pursues plan todo X n account :=
  { h with
    consistent := (sameCore_log _).consistent h.consistent
    told := by
      rw [toTell, said_call]
      exact h.told }

/-- A body writes a line. -/
theorem say (h : e.Pursues plan todo X n account) (text : String) :
    (e.log (.line text)).Pursues plan todo X n (account + ({text}, 0)) :=
  { h with
    consistent := (sameCore_log _).consistent h.consistent
    told := by
      intro hp
      rw [toTell, said_line, ← h.told hp, toTell, add_right_comm]
      rfl }

/-- An item is taken from the queue. -/
theorem pop (h : e.Pursues plan todo Nobody n account) (hq : e.queue.work = w :: q.work)
    (hc : Consistent { e with queue := q } X) (hn : n ≤ w.load + m) :
    Pursues plan todo X m account { e with queue := q } :=
  { h with
    consistent := hc
    onPlan := fun hi => (h.onPlan hi).keep rfl False.elim fun _ _ _ => id
    expected := fun v hv => h.expected v (by rw [hq]; exact List.mem_cons_of_mem w hv)
    bounded := by
      have before := h.bounded
      rw [toDo, WorkQueue.load_of_work hq] at before
      change InstanceTable.remaining (workTally plan) todo e.instances e.nextInstance + q.load ≤ m
      omega }

/-- Nobody waits for anything but children. -/
theorem dues_eq_zero (h : e.Pursues plan todo X n account) (k : InstanceId) : e.dues k = 0 := by
  have hb : e.bookmarks.blocking k = 0 :=
    Registry.blocking_eq_zero fun b g hg => by simp [h.registrations] at hg
  have ho : OperationTable.owed e.operations k = 0 :=
    OperationTable.owed_eq_zero _ fun o a ha => by simp [h.operations] at ha
  have hr : e.queue.releasing k = 0 := by
    rw [WorkQueue.releasing, List.countP_eq_zero]
    intro w hw hk
    have hx := h.expected w hw
    cases w with
    | bookmark => exact hx
    | _ => exact absurd hk Bool.false_ne_true
  rw [dues, hb, ho, hr]

/-- An instance waits for its children. -/
theorem busy_eq (h : e.Pursues plan todo X n account) (hi : e.instances[x]? = some i)
    (hl : i.state.isLive = true) : i.busy = i.children.length := by
  have hb := h.consistent.balanced x i hi hl
  rwa [h.dues_eq_zero, Nat.add_zero] at hb

/-- A live instance makes work. -/
theorem exists_bound (h : e.Pursues plan todo X n account) (hi : e.instances[x]? = some i)
    (hl : i.state.isLive = true) : ∃ m, n = m + 3 := by
  have share : 3 ≤ InstanceTable.share (workTally plan) todo e.instances x := by
    rw [InstanceTable.share_live hi hl]
    exact Nat.le_add_right 3 _
  have left := share.trans (InstanceTable.share_le_remaining (h.consistent.placed.tree.below hi))
  exact ⟨n - 3, (Nat.sub_add_cancel (left.trans ((Nat.le_add_right _ _).trans h.bounded))).symm⟩

/-- The node that an instance runs. -/
theorem exists_node (h : e.Pursues plan todo X n account) (hi : e.instances[x]? = some i) :
    e.definition.get? i.node = some (e.definition.node i.node) := by
  obtain ⟨n, hn⟩ := Option.isSome_iff_exists.mp (h.consistent.placed.tree.sound hi).known
  rw [Definition.node, hn]
  rfl

/-- The body of an instance is that of its shape. -/
theorem behaviour?_eq (h : e.Pursues plan todo X n account) (hi : e.instances[x]? = some i) :
    e.behaviour? x = some (plan i.node).behaviour := by
  rw [behaviour?, instance?, hi, Option.map_some, h.blueprint.body (h.exists_node hi)]
  rfl

/-! ### Steps of one instance -/

/-- An instance comes to have run, or has another result. -/
theorem remodel (h : e.Pursues plan todo (· = x) n account) (hi : e.instances[x]? = some i)
    (hl : i.state.isLive = true) {f : Instance → Instance} (hf : (f i).Retains i) :
    (e.modify x f).Pursues plan todo (· = x) n account := by
  have look : ∀ {k : InstanceId} {j : Instance}, (e.modify x f).instances[k]? = some j →
      (k = x ∧ j = f i) ∨ (k ≠ x ∧ e.instances[k]? = some j) := by
    intro k j hj
    obtain ⟨o, ho, ⟨rfl, rfl⟩ | ⟨hk, rfl⟩⟩ := lookup_modify_cases hj
    · cases hi.symm.trans ho
      exact .inl ⟨rfl, rfl⟩
    · exact .inr ⟨hk, ho⟩
  have found : (e.modify x f).instances[x]? = some (f i) := by
    rw [lookup_modify, if_pos rfl, hi]
    rfl
  have other : ∀ {k : InstanceId}, k ≠ x → (e.modify x f).instances[k]? = e.instances[k]? := by
    intro k hk
    rw [lookup_modify, if_neg (Ne.symm hk)]
  have runs : ∀ {b : InstanceId} {a : NodeId}, Enacts e.instances b a →
      Enacts (e.modify x f).instances b a := by
    rintro b a ⟨o, ho, rfl⟩
    by_cases hb : b = x
    · subst hb
      cases hi.symm.trans ho
      exact ⟨f i, found, hf.place.node⟩
    · exact ⟨o, (other hb).trans ho, rfl⟩
  have shares : ∀ {M : Type} [AddCommMonoid M] (v : Tally M),
      InstanceTable.remaining v todo (e.modify x f).instances e.nextInstance =
        InstanceTable.remaining v todo e.instances e.nextInstance := by
    intro M _ v
    refine InstanceTable.remaining_congr fun k => ?_
    by_cases hk : k = x
    · subst hk
      exact InstanceTable.share_same found hi hf.place.node hf.state rfl
    · exact InstanceTable.share_congr (other hk) rfl
  refine { h with
    consistent := h.consistent.remodel rfl hi hl hf.place (hf.state ▸ hl) hf.fault hf.busy
    onPlan := fun {k j} hj => ?_
    expected := fun v hv => ?_
    bounded := ?_
    told := ?_ }
  · rcases look hj with ⟨rfl, rfl⟩ | ⟨-, hj⟩
    · exact .of_exempt ((h.onPlan hi).fits.of_same hf.place.node hf.state hf.markedCanceled
        hf.cancelRequested hf.completionCallback hf.faultCallback) rfl
    · exact (h.onPlan hj).keep rfl id fun _ _ _ => runs
  · refine (h.expected v hv).of_states fun {_ k j} _ hj => ?_
    rcases look hj with ⟨rfl, rfl⟩ | ⟨-, hj⟩
    · exact ⟨i, hi, hf.state⟩
    · exact ⟨j, hj, rfl⟩
  · rw [toDo]
    change InstanceTable.remaining (workTally plan) todo (e.modify x f).instances e.nextInstance +
      e.queue.load ≤ n
    rw [shares]
    exact h.bounded
  · rw [toTell]
    change _ → e.said + InstanceTable.remaining (accountTally plan) todo (e.modify x f).instances
      e.nextInstance = account
    rw [shares]
    exact h.told

end Pursues

/-! ### Children -/

/-- A declared child may be scheduled in the scope of its parent. -/
theorem checkSchedule_eq_ok {node : NodeId} {options : ScheduleOptions}
    (hi : e.instances[x]? = some i) (hs : i.state = .executing)
    (hd : e.definition.isDeclaredChild i.node node = true)
    (hv : (e.definition.node node).isValid = true) (ho : options.scope = none)
    (ha : options.arguments = ∅) : e.checkSchedule x node options = .ok (i, i.scope) := by
  unfold checkSchedule
  rw [instance?, hi]
  have none_given : (∅ : Environment).keys = [] := rfl
  simp [hs, hd, hv, ho, ha, none_given, childScope, bind, Except.bind]

/-- A declared child is in the definition. -/
theorem exists_declared {d : Definition} {a b : NodeId} (h : d.isDeclaredChild a b = true) :
    d.get? b = some (d.node b) := by
  rw [Definition.isDeclaredChild, beq_iff_eq, Option.bind_eq_some_iff] at h
  obtain ⟨n, hn, -⟩ := h
  rw [Definition.node, hn]
  rfl

/-- Whoever is there when a child is planted enacts what it did. -/
theorem planted_enacts {t u : InstanceTable} {q q' c : Instance} {b : InstanceId}
    {a : NodeId} (hu : Planted t u p k q q' c) (hn : q'.node = q.node) (h : Enacts t b a) :
    Enacts u b a := by
  obtain ⟨o, ho, rfl⟩ := h
  by_cases hb : b = p
  · subst hb
    cases hu.parent.symm.trans ho
    exact ⟨q', hu.at_parent, hn⟩
  · exact ⟨o, hu.still hb ho, rfl⟩

/-- What a scheduled child has of its parent. -/
theorem newChild_fits {node a : NodeId} {scope : Scope}
    (hd : e.definition.isDeclaredChild a node = true) :
    (e.newChild x node scope (plan a).options).Fits e.definition plan where
  unasked := rfl
  unmarked := rfl
  called hp := by
    rw [← Definition.isDeclaredChild_unique hd hp]
    exact ⟨rfl, rfl⟩
  verdict := .inl rfl

namespace Pursues

/-- A child is adopted that is to be scheduled next. -/
theorem adopt (h : e.Pursues plan todo (· = x) n account) (hi : e.instances[x]? = some i)
    (hs : i.state = .executing) {node : NodeId} {rest : List NodeId} (ht : todo x = node :: rest)
    (hd : e.definition.isDeclaredChild i.node node = true) (hc : e.IsNewborn x y)
    (hcn : y.node = node) (hfit : y.Fits e.definition plan) :
    ∃ todo' j, (e.adopt x y).Pursues plan todo' (· = x) n account ∧ todo' x = rest ∧
      Expands e x i [y.id] [node] (e.adopt x y) j := by
  subst hcn
  have hl : i.state.isLive = true := by rw [hs]; rfl
  have hu := h.consistent.placed.planted hi hc.id
  obtain ⟨j, hj⟩ : ∃ j, j = { i with children := i.children ++ [y.id] }.incrementBusy := ⟨_, rfl⟩
  rw [← hj] at hu
  have hjn : j.node = i.node := by rw [hj]; rfl
  have hjs : j.state = i.state := by rw [hj]; rfl
  have keeps : ∀ {b : InstanceId} {a : NodeId}, Enacts e.instances b a →
      Enacts (e.adopt x y).instances b a := planted_enacts hu hjn
  obtain ⟨todo', htodo⟩ : ∃ todo' : InstanceId → List NodeId, todo' =
    Function.update (Function.update todo x rest) ⟨e.nextInstance⟩
      (e.definition.node y.node).children := ⟨_, rfl⟩
  have shares : ∀ {M : Type} [AddCommMonoid M] (v : Tally M), v.Adds e.definition →
      v.start + InstanceTable.remaining v todo' (e.adopt x y).instances (e.nextInstance + 1) =
        InstanceTable.remaining v todo e.instances e.nextInstance := by
    intro M _ v hv
    rw [htodo]
    refine InstanceTable.remaining_planted hu (h.consistent.placed.tree.below hi) hl hjs hjn ?_ ht
      (hv (exists_declared hd))
    rw [hc.state]
    rfl
  have at_parent : todo' x = rest := by
    rw [htodo, Function.update_of_ne hu.ne, Function.update_self]
  refine ⟨todo', j, ⟨h.blueprint, ?_, fun {k o} ho => ?_, h.registrations, h.operations, h.inbox,
    fun v hv => ?_, ?_, ?_⟩, at_parent, ⟨hu.at_parent, hjn, hjs, by rw [hj]; rfl, by rw [hj]; rfl,
      .cons ⟨y, hc.id ▸ hu.at_child, rfl⟩ .nil, keeps, rfl⟩⟩
  · exact (Follows.adopt h.consistent rfl hi hl hd hc).consistent
  · rcases hu.cases ho with ⟨rfl, rfl⟩ | ⟨rfl, rfl⟩ | ⟨hkx, hkn, ho⟩
    · refine .of_exempt ((h.onPlan hi).fits.of_same hjn hjs ?_ ?_ ?_ ?_) rfl
      all_goals (rw [hj]; rfl)
    · refine .of_awaits hfit (by rw [hc.state]; rfl) (.unstarted hc.executed ?_)
      rw [htodo, Function.update_self]
      rfl
    · refine (h.onPlan ho).keep ?_ id fun _ _ _ => keeps
      rw [htodo, Function.update_of_ne hkn, Function.update_of_ne hkx]
  · rcases WorkQueue.mem_work_push.mp hv with rfl | hv
    · trivial
    · refine (h.expected v hv).of_states fun {_ k o} hr ho => ?_
      rcases hu.cases ho with ⟨rfl, rfl⟩ | ⟨rfl, -⟩ | ⟨-, -, ho⟩
      · exact ⟨i, hi, hjs⟩
      · obtain ⟨-, hb, -⟩ := h.consistent.placed.reported hv hr
        exact absurd hb (Nat.lt_irrefl _)
      · exact ⟨o, ho, rfl⟩
  · have before := h.bounded
    have start := shares _ h.blueprint.workTally_adds
    rw [toDo] at before
    change InstanceTable.remaining (workTally plan) todo' (e.adopt x y).instances
      (e.nextInstance + 1) + (e.queue.push (.execute y.id)).load ≤ n
    rw [WorkQueue.load_push]
    change _ + (1 + e.queue.load) ≤ n
    change 1 + _ = _ at start
    omega
  · intro hp
    rw [← h.told hp, toTell, toTell]
    change e.said + InstanceTable.remaining (accountTally plan) todo' (e.adopt x y).instances
      (e.nextInstance + 1) = _
    rw [← shares _ h.blueprint.accountTally_adds]
    exact congrArg (e.said + ·) (zero_add _).symm

/-- A child is scheduled that is to be scheduled next. -/
theorem schedule (h : e.Pursues plan todo (· = x) n account) (hi : e.instances[x]? = some i)
    (hs : i.state = .executing) {node : NodeId} {rest : List NodeId} (ht : todo x = node :: rest)
    (hd : e.definition.isDeclaredChild i.node node = true) :
    ∃ b e' todo' j, e.scheduleChild x node (plan i.node).options = (.ok b, e') ∧
      e'.Pursues plan todo' (· = x) n account ∧ todo' x = rest ∧ Expands e x i [b] [node] e' j := by
  have hv := h.blueprint.valid (exists_declared hd)
  have check := checkSchedule_eq_ok hi hs hd hv (plan i.node).scope_options
    (plan i.node).arguments_options
  obtain ⟨todo', j, adopted, ht', expands⟩ := h.adopt hi hs ht hd
    (y := e.newChild x node i.scope (plan i.node).options) {} rfl (newChild_fits hd)
  have silent := silent_trackScheduled (e := e.adopt x
    (e.newChild x node i.scope (plan i.node).options)) (info? (e.adopt x
      (e.newChild x node i.scope (plan i.node).options)) x) ⟨e.nextInstance⟩
  refine ⟨⟨e.nextInstance⟩, _, todo', j, ?_, adopted.of_silent silent, ht', ?_⟩
  · rw [scheduleChild, check]
    rfl
  · obtain ⟨h1, h2, h3, h4, h5, h6, h7, h8⟩ := expands
    have same := silent.instances
    exact ⟨same ▸ h1, h2, h3, h4, h5, same ▸ h6, fun hr => same ▸ h7 hr, silent.definition.trans h8⟩

end Pursues

/-- More children are scheduled after some. -/
theorem Expands.trans {started started' : List InstanceId} {nodes nodes' : List NodeId}
    (h : Expands e x i started nodes e' j) (h' : Expands e' x j started' nodes' e'' r) :
    Expands e x i (started ++ started') (nodes ++ nodes') e'' r where
  found := h'.found
  node := h'.node.trans h.node
  state := h'.state.trans h.state
  executed := h'.executed.trans h.executed
  children := by rw [h'.children, h.children, List.append_assoc]
  run := List.rel_append (h.run.imp fun _ _ hr => h'.keeps hr) h'.run
  keeps hr := h'.keeps (h.keeps hr)
  definition := h'.definition.trans h.definition

/-- An instance that schedules nothing. -/
theorem Expands.refl (hi : e.instances[x]? = some i) : Expands e x i [] [] e i :=
  ⟨hi, rfl, rfl, rfl, (List.append_nil _).symm, .nil, id, rfl⟩

/-! ### Programs -/

/-- A program that goes on with the result of another is performed after it. -/
theorem perform_bind {k : BodyKind} {α β : Type} (p : Program k α) (f : α → Program k β) :
    e.perform x (p >>= f) =
      match e.perform x p with
      | (.ok a, e') => e'.perform x (f a)
      | (.error c, e') => (.error c, e') := by
  induction p generalizing e with
  | done a => rfl
  | crash c => rfl
  | ask q next ih => exact ih _

namespace Pursues

/-- Declared children are scheduled one after the other. -/
theorem scheduleAll (h : e.Pursues plan todo (· = x) n account) (hi : e.instances[x]? = some i)
    (hs : i.state = .executing) {nodes rest : List NodeId} (ht : todo x = nodes ++ rest)
    (hd : ∀ a ∈ nodes, e.definition.isDeclaredChild i.node a = true) :
    ∃ e' todo' j started, e.perform x (Program.scheduleAll (plan i.node).options nodes) = (.ok (), e') ∧
      e'.Pursues plan todo' (· = x) n account ∧ todo' x = rest ∧ Expands e x i started nodes e' j := by
  induction nodes generalizing e todo i with
  | nil => exact ⟨e, todo, i, [], rfl, h, ht, .refl hi⟩
  | cons node nodes ih =>
    obtain ⟨hnode, hnodes⟩ := List.forall_mem_cons.mp hd
    obtain ⟨b, e₁, todo₁, j₁, heq, h₁, ht₁, x₁⟩ := h.schedule hi hs ht hnode
    obtain ⟨e₂, todo₂, j₂, started, heq₂, h₂, ht₂, x₂⟩ := ih h₁ x₁.found (x₁.state.trans hs) ht₁
      (by rw [x₁.definition, x₁.node]; exact hnodes)
    refine ⟨e₂, todo₂, j₂, b :: started, ?_, h₂, ht₂, x₁.trans x₂⟩
    have first : e.perform x (Program.schedule node (plan i.node).options) = (.ok (), e₁) := by
      change (let (answer, e) := e.scheduleChild x node (plan i.node).options
        e.perform x (discard (Program.ofContract (k := .native) answer))) = _
      rw [heq]
      rfl
    rw [Program.scheduleAll, perform_bind, first]
    rw [x₁.node] at heq₂
    exact heq₂

/-- Of several children the first one is scheduled. -/
theorem scheduleFirst (h : e.Pursues plan todo (· = x) n account) (hi : e.instances[x]? = some i)
    (hs : i.state = .executing)
    (hd : ∀ a ∈ todo x, e.definition.isDeclaredChild i.node a = true) :
    ∃ e' todo' j started,
      e.perform x (Program.scheduleFirst (plan i.node).options (todo x)) = (.ok (), e') ∧
        e'.Pursues plan todo' (· = x) n account ∧ todo x = (todo x).take 1 ++ todo' x ∧
        Expands e x i started ((todo x).take 1) e' j := by
  cases ht : todo x with
  | nil => exact ⟨e, todo, i, [], rfl, h, ht.symm, .refl hi⟩
  | cons node rest =>
    rw [ht] at hd
    obtain ⟨b, e₁, todo₁, j₁, heq, h₁, ht₁, x₁⟩ := h.schedule hi hs ht (hd node List.mem_cons_self)
    refine ⟨e₁, todo₁, j₁, [b], ?_, h₁, by rw [ht₁]; rfl, x₁⟩
    change (let (answer, e) := e.scheduleChild x node (plan i.node).options
      e.perform x (discard (Program.ofContract (k := .native) answer))) = _
    rw [heq]
    rfl

end Pursues

end Executor

end Workflow
