import Workflow.Proofs.Frame

/-!
# What a callback keeps

While its program is performed, an instance changes itself, its environment and its resources; it
adds children and work. Each answer keeps the invariant, with the running instance exempt, and leaves
the states and places of all instances as they are.
-/

namespace Workflow.Executor

variable {e e' e'' : Executor} {X : InstanceId → Prop} {x k : InstanceId}

/-- An executor that goes on from another within one callback. -/
structure Follows (e : Executor) (X : InstanceId → Prop) (e' : Executor) : Prop where
  consistent : e'.Consistent X
  extension : Extends e e'

namespace Follows

theorem refl (h : e.Consistent X) : Follows e X e :=
  ⟨h, .refl e⟩

theorem trans (h : Follows e X e') (h' : Follows e' X e'') : Follows e X e'' :=
  ⟨h'.consistent, h.extension.trans h'.extension⟩

theorem of_sameCore (h : e.Consistent X) (hs : SameCore e e') : Follows e X e' :=
  ⟨hs.consistent h, .of_sameCore hs⟩

/-- An instance that changes neither its place nor its state nor its count goes on. -/
theorem modify (h : e.Consistent X) {f : Instance → Instance}
    (hf : ∀ i, (f i).Continues i) (hb : ∀ i, (f i).busy = i.busy) :
    Follows e X (e.modify k f) :=
  ⟨h.modify (fun i _ => hf i) hb, .modify fun i _ => hf i⟩

/-- An item that tells of no child and resumes nobody may be queued. -/
theorem enqueue (h : e.Consistent X) {w : WorkItem} (hw : w.report? = none)
    (hr : ∀ o, w.resumes o = false) : Follows e X (e.enqueue w) where
  consistent := by
    have nobody : ∀ o, w.resumes o ≠ true := fun o => Bool.eq_false_iff.mp (hr o)
    refine ⟨h.placed.push .normal hw fun o ho => absurd ho (nobody o),
      h.owned.extend (.enqueue w) rfl rfl rfl,
      h.awake_same rfl (fun hg _ => hg) fun {v o} hv ho _ => ?_, h.balanced.congr rfl fun k => ?_,
      h.opened, h.sober, h.running⟩
    · rcases WorkQueue.mem_work_push.mp hv with rfl | hv
      · exact absurd ho (nobody o)
      · exact .inl hv
    · have hq : (e.queue.push w).releasing k = e.queue.releasing k := by
        rw [WorkQueue.releasing_push, if_neg fun hk => nobody k (WorkItem.resumes_of_releases hk)]
        rfl
      exact congrArg (e.bookmarks.blocking k + OperationTable.owed e.operations k + ·) hq
  extension := .enqueue w

end Follows

/-! ### Children -/

section Adopt

variable {p c : Instance}

/-- Adoption plants a child that has the next identifier. -/
theorem Placed.planted (h : e.Placed X) (hp : e.instances[x]? = some p)
    (hid : c.id = ⟨e.nextInstance⟩) : Planted e.instances (e.adopt x c).instances x
      ⟨e.nextInstance⟩ p { p with children := p.children ++ [c.id] }.incrementBusy c := by
  change Planted _ ((e.instances.insert c.id c).modify x _) _ _ _ _ _
  rw [hid]
  exact .of_insert hp h.tree.fresh _

/-- Adoption leaves the instances that are there in their places. -/
theorem Placed.extends_adopt (h : e.Placed X) (hp : e.instances[x]? = some p)
    (hid : c.id = ⟨e.nextInstance⟩) : Extends e (e.adopt x c) := by
  have hu := h.planted hp hid
  refine ⟨rfl, rfl, fun {a i} hi => ?_⟩
  by_cases ha : a = x
  · subst ha
    cases hp.symm.trans hi
    exact ⟨_, hu.at_parent, rfl, rfl, rfl, rfl⟩
  · exact ⟨i, hu.still ha hi, rfl, rfl, rfl, rfl⟩

/-- A queued execution is not waited for. -/
theorem dues_adopt (a : InstanceId) : (e.adopt x c).dues a = e.dues a := by
  have hq : (e.adopt x c).queue.releasing a = e.queue.releasing a :=
    WorkQueue.releasing_push e.queue (.execute c.id) .normal a
  exact congrArg (e.bookmarks.blocking a + OperationTable.owed e.operations a + ·) hq

/-- A queued execution tells of nobody. -/
theorem countP_tellsOf_adopt (a : InstanceId) :
    (e.adopt x c).queue.work.countP (·.tellsOf a) = e.queue.work.countP (·.tellsOf a) :=
  WorkQueue.countP_work_push e.queue (.execute c.id) .normal _

/-- A child that has just been created. -/
structure IsNewborn (e : Executor) (x : InstanceId) (c : Instance) : Prop where
  id : c.id = ⟨e.nextInstance⟩ := by rfl
  parent : c.parent = some x := by rfl
  state : c.state = .executing := by rfl
  children : c.children = [] := by rfl
  busy : c.busy = 0 := by rfl
  executed : c.executed = false := by rfl
  cancelRequested : c.cancelRequested = false := by rfl
  fault : c.fault = none := by rfl

/-- A newborn child of a declared activity is sound. -/
theorem IsNewborn.sound (hc : e.IsNewborn x c) {d : Definition} {n : NodeId}
    (hd : d.isDeclaredChild n c.node = true) : c.Sound d := by
  have known : (d.get? c.node).isSome = true := by
    rw [Definition.isDeclaredChild, beq_iff_eq, Option.bind_eq_some_iff] at hd
    obtain ⟨n, hn, -⟩ := hd
    rw [hn]
    rfl
  refine ⟨known, hc.children ▸ .nil, fun _ => hc.children, ?_, ?_, fun f hf => ?_⟩
  · rw [hc.state]
    decide
  · rw [hc.fault, hc.state]
    decide
  · exact absurd (hc.fault.symm.trans hf) (Option.some_ne_none f).symm

/-- Reports stay true when a child is adopted. -/
theorem Placed.reported_adopt (h : e.Placed X) (hp : e.instances[x]? = some p)
    (hl : p.state.isLive = true) (hid : c.id = ⟨e.nextInstance⟩) {w : WorkItem} {a b : InstanceId}
    (hw : w ∈ e.queue.work) (hr : w.report? = some (a, b)) :
    (∀ i, (e.adopt x c).instances[b]? = some i → i.state.isTerminal = true ∧ i.parent = some a) ∧
      ((e.adopt x c).isLive a = true → ∃ i, (e.adopt x c).instances[b]? = some i) := by
  have hu := h.planted hp hid
  obtain ⟨ha, hb, ht, hla⟩ := h.reported hw hr
  refine ⟨fun i hi => ?_, fun hlp => ?_⟩
  · rcases hu.cases hi with ⟨rfl, rfl⟩ | ⟨rfl, rfl⟩ | ⟨-, -, hi⟩
    · exact ht p hp
    · exact absurd hb (Nat.lt_irrefl _)
    · exact ht i hi
  · have hlp : e.isLive a = true := by
      obtain ⟨i, hi, hil⟩ := isLive_iff.mp hlp
      rcases hu.cases hi with ⟨rfl, rfl⟩ | ⟨rfl, rfl⟩ | ⟨-, -, hi⟩
      · exact isLive_iff.mpr ⟨p, hp, hl⟩
      · exact absurd ha (Nat.lt_irrefl _)
      · exact isLive_iff.mpr ⟨i, hi, hil⟩
    obtain ⟨i, hi⟩ := hla hlp
    obtain ⟨j, hj, -⟩ := (h.extends_adopt hp hid).keeps hi
    exact ⟨j, hj⟩

/-- A newborn child of a declared activity takes its place. -/
theorem Placed.adopt (h : e.Placed X) (hX : X x) (hp : e.instances[x]? = some p)
    (hl : p.state.isLive = true)
    (hd : e.definition.isDeclaredChild p.node c.node = true) (hc : e.IsNewborn x c) :
    (e.adopt x c).Placed X := by
  have hct : c.state.isTerminal ≠ true := by
    rw [hc.state]
    exact Bool.false_ne_true
  have hu := h.planted hp hc.id
  constructor
  · change IsTree e.definition e.root (e.nextInstance + 1) ((e.instances.insert c.id c).modify x _)
    rw [hc.id]
    exact h.tree.addChild hp (ActivityState.not_terminal_of_isLive hl) hc.id hc.parent (hc.sound hd)
      hc.children hd ⟨⟨rfl, rfl, rfl, rfl⟩, rfl, rfl⟩
  · exact (h.extends_adopt hp hc.id).isLive h.rootLive
  · intro w a b hw hwr
    rcases WorkQueue.mem_work_push.mp hw with rfl | hw
    · exact absurd hwr.symm (Option.some_ne_none _)
    · obtain ⟨ha, hb, -⟩ := h.reported hw hwr
      exact ⟨Nat.lt_succ_of_lt ha, Nat.lt_succ_of_lt hb, h.reported_adopt hp hl hc.id hw hwr⟩
  · intro w o hw ho
    rcases WorkQueue.mem_work_push.mp hw with rfl | hw
    · exact absurd ho Bool.false_ne_true
    · exact Nat.lt_succ_of_lt (h.created hw ho)
  · intro a b tag g hw
    rcases WorkQueue.mem_work_push.mp hw with hw | hw
    · exact absurd hw (by simp)
    · exact h.sourced hw
  · intro a b i hi ht hib ha
    rw [countP_tellsOf_adopt]
    rcases hu.cases hi with ⟨rfl, rfl⟩ | ⟨rfl, rfl⟩ | ⟨-, -, hi⟩
    · exact absurd hX ha
    · exact absurd ht hct
    · exact h.told hi ht hib ha
  · intro a b i hi ht hib ha
    rw [countP_tellsOf_adopt]
    rcases hu.cases hi with ⟨rfl, rfl⟩ | ⟨rfl, rfl⟩ | ⟨-, -, hi⟩
    · exact h.untold hp ht hib ha
    · exact absurd ht hct
    · exact h.untold hi ht hib ha
  · intro a i hi hil ha hix
    rcases hu.cases hi with ⟨rfl, rfl⟩ | ⟨rfl, rfl⟩ | ⟨-, -, hi⟩
    · exact absurd hX ha
    · rw [hc.executed] at hix
      exact absurd hix Bool.false_ne_true
    · exact h.waiting hi hil ha hix
  · intro a i hi hil ha hix
    rcases hu.cases hi with ⟨rfl, rfl⟩ | ⟨rfl, rfl⟩ | ⟨-, -, hi⟩
    · exact absurd hX ha
    · exact ⟨hc.state, hc.busy, WorkQueue.mem_work_push.mpr (.inl (by rw [hc.id]))⟩
    · obtain ⟨h1, h2, h3⟩ := h.queued hi hil ha hix
      exact ⟨h1, h2, WorkQueue.mem_work_push.mpr (.inr h3)⟩

/-- A parent waits for a new child, which waits for nothing. -/
theorem Consistent.balanced_adopt (h : e.Consistent X) (hp : e.instances[x]? = some p)
    (hl : p.state.isLive = true) (hc : e.IsNewborn x c) : (e.adopt x c).Balanced := by
  intro a i hi hil
  rw [dues_adopt]
  rcases (h.placed.planted hp hc.id).cases hi with ⟨rfl, rfl⟩ | ⟨rfl, rfl⟩ | ⟨-, -, hi⟩
  · have hb := h.balanced a p hp hl
    change p.busy + 1 = (p.children ++ [c.id]).length + e.dues a
    rw [List.length_append, List.length_singleton, hb]
    omega
  · rw [hc.busy, hc.children, h.owned.dues_eq_zero h.placed (Nat.le_refl _)]
    rfl
  · exact h.balanced a i hi hil

/-- A new child has no bookmarks, and nothing is passed to it. -/
theorem Consistent.awake_adopt (h : e.Consistent X) (hp : e.instances[x]? = some p)
    (hc : e.IsNewborn x c) : (e.adopt x c).Awake X := by
  refine h.awake_of (fun {a i} hi ha hl hX => ?_) (fun hg _ => hg) fun {w o} hw ho _ => ?_
  · rcases (h.placed.planted hp hc.id).cases hi with ⟨rfl, rfl⟩ | ⟨rfl, -⟩ | ⟨-, -, hi⟩
    · exact ⟨p, hp, hX, rfl, hl⟩
    · exact absurd ha (Nat.lt_irrefl _)
    · exact ⟨i, hi, hX, rfl, hl⟩
  · rcases WorkQueue.mem_work_push.mp hw with rfl | hw
    · exact absurd ho Bool.false_ne_true
    · exact .inl hw

/-- A running instance adopts a new child. -/
theorem Follows.adopt (h : e.Consistent X) (hX : X x) (hp : e.instances[x]? = some p)
    (hl : p.state.isLive = true)
    (hd : e.definition.isDeclaredChild p.node c.node = true) (hc : e.IsNewborn x c) :
    Follows e X (e.adopt x c) := by
  have ext := h.placed.extends_adopt hp hc.id
  exact ⟨⟨h.placed.adopt hX hp hl hd hc, h.owned.extend ext rfl rfl rfl,
    h.awake_adopt hp hc, h.balanced_adopt hp hl hc, h.opened, h.sober, h.running⟩, ext⟩

end Adopt

/-- A child may be scheduled only by an executing instance, only if it is declared, and only in a scope
that the instance may give. -/
theorem checkSchedule_ok {node : NodeId} {options : ScheduleOptions} {p : Instance}
    {scope : Scope} (h : e.checkSchedule x node options = .ok (p, scope)) :
    e.instances[x]? = some p ∧ p.state = .executing ∧
      e.definition.isDeclaredChild p.node node = true ∧
      e.childScope p options.scope = .ok scope := by
  unfold checkSchedule at h
  cases hp : e.instance? x with
  | none => simp [hp] at h
  | some q =>
    simp only [hp] at h
    split at h
    · cases h
    · next hs =>
      split at h
      · cases h
      · next hd =>
        split at h
        · cases h
        · cases hc : e.childScope q options.scope with
          | error v => rw [hc] at h; cases h
          | ok scope' =>
            rw [hc] at h
            simp only [bind, Except.bind] at h
            split at h
            · cases h
            · cases h
              exact ⟨hp, by simpa using hs, by simpa using hd, hc⟩

theorem Follows.scheduleChild (h : e.Consistent X) (hX : X x) (node : NodeId)
    (options : ScheduleOptions) : Follows e X (e.scheduleChild x node options).2 := by
  unfold Executor.scheduleChild
  split
  · exact .refl h
  · next p scope hs =>
    obtain ⟨hp, hps, hd, -⟩ := checkSchedule_ok hs
    have ha : Follows e X (e.adopt x (e.newChild x node scope options)) :=
      .adopt h hX hp (by rw [hps]; rfl) hd {}
    exact ha.trans (.of_sameCore ha.consistent (sameCore_trackScheduled _ _))

/-- Steps that each lead on lead on together. -/
theorem Follows.foldl {α : Type} {f : Executor → α → Executor}
    (hf : ∀ {e : Executor} (a : α), e.Consistent X → Follows e X (f e a)) (h : e.Consistent X)
    (l : List α) : Follows e X (l.foldl f e) := by
  induction l generalizing e with
  | nil => exact .refl h
  | cons a rest ih => exact (hf a h).trans (ih (hf a h).consistent)

/-- Queueing cancellations tells of nobody. -/
theorem Follows.cancelAll (h : e.Consistent X) (children : List InstanceId) :
    Follows e X (children.foldl (fun e child => e.enqueue (.cancel child)) e) :=
  .foldl (fun _ h => .enqueue h rfl fun _ => rfl) h children

theorem Follows.cancelChild (h : e.Consistent X) (child : InstanceId) :
    Follows e X (e.cancelChild x child).2 := by
  unfold Executor.cancelChild
  split
  · exact .refl h
  · split
    · exact .enqueue h rfl fun _ => rfl
    · exact .refl h

/-! ### Values and marks -/

theorem Follows.markCanceled (h : e.Consistent X) : Follows e X (e.markCanceled x).2 := by
  unfold Executor.markCanceled
  split
  · exact .refl h
  · split
    · exact .modify h (fun _ => .of_same rfl rfl rfl rfl rfl rfl rfl) fun _ => rfl
    · exact .refl h

theorem Follows.writeLocation (h : e.Consistent X) (l : Location) (v : Value) :
    Follows e X (e.writeLocation x l v).2 := by
  unfold Executor.writeLocation
  dsimp only
  split
  · exact .modify h (fun _ => .of_same rfl rfl rfl rfl rfl rfl rfl) fun _ => rfl
  · exact .refl h

theorem Follows.assignArgument (h : e.Consistent X) (name : String) (v : Value) :
    Follows e X (e.assignArgument x name v).2 := by
  unfold Executor.assignArgument
  split
  · exact .refl h
  · split
    · exact .refl h
    · split
      · exact .modify h (fun _ => .of_same rfl rfl rfl rfl rfl rfl rfl) fun _ => rfl
      · exact .refl h

/-! ### Bookmarks and scopes -/

/-- An executor goes on from another with other bookmarks, scopes and operations, all of which have
live owners; new bookmarks are those of exempt instances. -/
structure Restocked (e : Executor) (X : InstanceId → Prop) (e' : Executor) : Prop where
  definition : e'.definition = e.definition := by rfl
  instances : e'.instances = e.instances := by rfl
  nextInstance : e'.nextInstance = e.nextInstance := by rfl
  root : e'.root = e.root := by rfl
  queue : e'.queue = e.queue := by rfl
  state : e'.state = e.state := by rfl
  outcome : e'.outcome = e.outcome := by rfl
  isOverdrawn : e'.isOverdrawn = e.isOverdrawn := by rfl
  owned : e'.Owned
  held : ∀ {b : Bookmark} {g : Registration}, e'.bookmarks.registrations[b]? = some g →
    ¬ X g.owner → e.bookmarks.registrations[b]? = some g

namespace Restocked

variable (hs : Restocked e X e') (h : e.Consistent X)
include hs h

theorem placed : e'.Placed X :=
  h.placed.congr hs.definition hs.instances hs.nextInstance hs.root hs.queue

/-- Bookmarks are still for instances that have run while one goes on. -/
theorem awake {f : Instance → Instance} (hf : ∀ i, (f i).Continues i)
    (hi : e''.instances = e'.instances.modify x f) (hb : e''.bookmarks = e'.bookmarks)
    (hq : e''.queue = e'.queue) : e''.Awake X := by
  refine h.awake_modified (hi.trans (by rw [hs.instances])) (fun i _ => hf i)
    (fun hg hX => hs.held (hb ▸ hg) hX) fun hw _ _ => .inl ?_
  rw [← hs.queue, ← hq]
  exact hw

/-- Resources may change if every instance waits for as many of them. -/
theorem keep (hd : ∀ k, e'.dues k = e.dues k) : Follows e X e' := by
  have awake : e'.Awake X := by
    refine h.awake_same hs.instances hs.held fun hw _ _ => .inl ?_
    rw [← hs.queue]
    exact hw
  exact ⟨⟨hs.placed h, hs.owned, awake, h.balanced.congr hs.instances hd,
    hs.outcome.trans h.opened, hs.isOverdrawn.trans h.sober, hs.state.trans h.running⟩,
    .of_instances hs.instances hs.definition hs.root⟩

/-- A running instance may wait for a new resource. -/
theorem await (hX : X x) (hd : ∀ k, e'.dues k = e.dues k + if k = x then 1 else 0) :
    Follows e X (e'.modify x Instance.incrementBusy) := by
  have bump : ∀ i : Instance, i.incrementBusy.Continues i :=
    fun _ => .of_same rfl rfl rfl rfl rfl rfl rfl
  have changed : (e'.modify x Instance.incrementBusy).instances =
      e.instances.modify x Instance.incrementBusy := by
    rw [← hs.instances]
    rfl
  have ext : Extends e (e'.modify x Instance.incrementBusy) :=
    .of_modified (fun i _ => bump i) changed hs.definition hs.root
  have balanced : (e'.modify x Instance.incrementBusy).Balanced := by
    refine h.balanced.change changed (fun k hk => ?_) fun i hi hl => ?_
    · exact (hd k).trans (by rw [if_neg hk, Nat.add_zero])
    · have hb := h.balanced x i hi hl
      have hx := hd x
      rw [if_pos rfl] at hx
      change i.busy + 1 = i.children.length + e'.dues x
      omega
  exact ⟨⟨(hs.placed h).modify (fun i _ => bump i) (.inl hX), hs.owned.modify fun i _ => bump i,
    hs.awake h bump rfl rfl rfl, balanced, hs.outcome.trans h.opened,
    hs.isOverdrawn.trans h.sober, hs.state.trans h.running⟩, ext⟩

/-- A running instance may stop waiting for resources that are gone. -/
theorem relieve {n : Nat} (hX : X x) (hl : e.isLive x = true)
    (hd : ∀ k, e.dues k = e'.dues k + if k = x then n else 0) : Follows e X (e'.release x n) := by
  have less : ∀ i : Instance, { i with busy := i.busy - n }.Continues i :=
    fun _ => .of_same rfl rfl rfl rfl rfl rfl rfl
  have ext : Extends e e' := .of_instances hs.instances hs.definition hs.root
  have excess : e'.Overcounts x n := by
    intro k i hi hil
    have hb := h.balanced k i (hs.instances ▸ hi) hil
    have hk := hd k
    omega
  obtain ⟨balanced, sober⟩ := excess.release (ext.isLive hl)
  exact ⟨⟨(hs.placed h).release hX n, hs.owned.extend (.release n) rfl rfl rfl,
    hs.awake h less rfl rfl rfl, balanced, hs.outcome.trans h.opened,
    sober.trans (hs.isOverdrawn.trans h.sober), hs.state.trans h.running⟩, ext.trans (.release n)⟩

end Restocked

/-- Other bookmarks and scopes with live owners make another stock. -/
theorem Consistent.rebook (h : e.Consistent X) {r : Registry} (n : Nat)
    (hr : ∀ (b : Bookmark) (g : Registration), r.registrations[b]? = some g →
      e.bookmarks.registrations[b]? = some g ∨
        (g.bookmark = b ∧ e.isLive g.owner = true ∧ X g.owner))
    (hs : ∀ (s : Uuid) (o : InstanceId), r.scopes[s]? = some o →
      e.bookmarks.scopes[s]? = some o ∨ e.isLive o = true) :
    Restocked e X { e with bookmarks := r, scopeCount := n } := by
  refine { owned := ?_, held := fun {b g} hg hX => ?_ }
  · exact ⟨fun hg => (hr _ _ hg).elim h.owned.filed And.left,
      fun hg => (hr _ _ hg).elim h.owned.bookmark (·.2.1),
      fun hg => (hs _ _ hg).elim h.owned.scope id, h.owned.operation, h.owned.begun⟩
  · exact (hr b g hg).resolve_right fun hn => hX hn.2.2

/-- A new bookmark of a live instance is waited for if it blocks. -/
theorem Follows.createBookmark (h : e.Consistent X) {g : Registration} (hX : X g.owner) :
    Follows e X (e.createBookmark g).2 := by
  unfold Executor.createBookmark
  split
  · next hl =>
    split
    · exact .refl h
    · next o r hr =>
      obtain ⟨rfl, rfl⟩ | ⟨rfl, -, hn, rfl⟩ := Registry.register_ok hr
      · exact .refl h
      · have blocking := Registry.blocking_insert e.bookmarks g hn
        obtain ⟨r, hr⟩ : ∃ r : Registry, r =
          { e.bookmarks with registrations := e.bookmarks.registrations.insert g.bookmark g } :=
          ⟨_, rfl⟩
        rw [← hr] at blocking ⊢
        have stock : Restocked e X { e with bookmarks := r } := by
          refine h.rebook e.scopeCount (fun b g' hb => ?_) fun s o hs => .inl (by rwa [hr] at hs)
          rw [hr, Table.lookup_insert] at hb
          split at hb
          · next hb' =>
            cases hb
            exact .inr ⟨hb', hl, hX⟩
          · exact .inl hb
        have dues : ∀ k, Executor.dues { e with bookmarks := r } k =
            e.dues k + if g.options.isBlocking && g.owner == k then 1 else 0 := by
          intro k
          rw [Executor.dues, Executor.dues, blocking k]
          dsimp only
          omega
        dsimp only
        cases hb : g.options.isBlocking with
        | false =>
          rw [if_neg (by simp)]
          exact stock.keep h fun k => by rw [dues, hb]; rfl
        | true =>
          rw [if_pos ⟨rfl, rfl⟩]
          refine stock.await h hX fun k => ?_
          rw [dues, hb, Bool.true_and]
          simp only [beq_iff_eq, @eq_comm _ k]
  · exact .refl h

/-- Bookmarks that are removed are no longer waited for. -/
theorem Follows.unbook (h : e.Consistent X) (hX : X x) (hl : e.isLive x = true)
    {r : Registry} {n : Nat}
    (hr : ∀ (b : Bookmark) (g : Registration), r.registrations[b]? = some g →
      e.bookmarks.registrations[b]? = some g)
    (hs : r.scopes = e.bookmarks.scopes)
    (hb : ∀ k, e.bookmarks.blocking k = r.blocking k + if k = x then n else 0) :
    Follows e X (release { e with bookmarks := r } x n) := by
  have stock : Restocked e X { e with bookmarks := r } :=
    h.rebook e.scopeCount (fun b g hg => .inl (hr b g hg)) fun s o ho => .inl (hs ▸ ho)
  refine stock.relieve h hX hl fun k => ?_
  rw [Executor.dues, Executor.dues, hb k]
  dsimp only
  omega

/-- Bookmarks and scopes that nobody waits for may change. -/
theorem Follows.rebook (h : e.Consistent X) {r : Registry}
    (hr : ∀ (b : Bookmark) (g : Registration), r.registrations[b]? = some g →
      e.bookmarks.registrations[b]? = some g)
    (hs : ∀ (s : Uuid) (o : InstanceId), r.scopes[s]? = some o →
      e.bookmarks.scopes[s]? = some o ∨ e.isLive o = true)
    (hb : ∀ k, r.blocking k = e.bookmarks.blocking k) (n : Nat) :
    Follows e X { e with bookmarks := r, scopeCount := n } := by
  refine (h.rebook n (fun b g hg => .inl (hr b g hg)) hs).keep h fun k => ?_
  rw [Executor.dues, Executor.dues, hb]

/-- What is registered after one bookmark has been removed was registered before. -/
theorem lookup_unregister {r : Registry} {b a : Bookmark} {g : Registration}
    (h : (r.unregister b).registrations[a]? = some g) : r.registrations[a]? = some g := by
  rw [Registry.unregister, Table.lookup_erase] at h
  split at h
  · exact absurd h.symm (Option.some_ne_none g)
  · exact h

theorem Follows.removeBookmark (h : e.Consistent X) (hX : X x) (b : Bookmark) :
    Follows e X (e.removeBookmark x b).2 := by
  unfold Executor.removeBookmark
  split
  · exact .refl h
  · next g hg =>
    split
    · next ho =>
      have count := Registry.blocking_unregister e.bookmarks hg
      rw [ho] at count
      dsimp only
      split
      · next hb =>
        refine .unbook h hX (ho ▸ h.owned.bookmark hg) (fun _ _ => lookup_unregister) rfl
          fun k => ?_
        rw [count k, hb, Bool.true_and]
        simp only [beq_iff_eq, @eq_comm _ x k]
      · next hb =>
        refine .rebook h (fun _ _ => lookup_unregister) (fun _ _ => .inl) (fun k => ?_) e.scopeCount
        rw [count k, Bool.eq_false_iff.mpr hb]
        rfl
    · exact .refl h

theorem Follows.removeAllBookmarks (h : e.Consistent X) (hX : X x) (hl : e.isLive x = true) :
    Follows e X (e.removeAllBookmarks x) := by
  refine .unbook h hX hl (fun b g hg => ?_) rfl fun k => ?_
  · rw [Registry.removeOwned, Table.lookup_filter, Option.filter_eq_some_iff] at hg
    exact hg.1
  · rw [Registry.blocking_removeOwned]
    split
    · next hk => rw [hk, Nat.zero_add]; rfl
    · rfl

theorem Follows.createScope (h : e.Consistent X) : Follows e X (e.createScope x).2 := by
  unfold Executor.createScope
  split
  · exact .refl h
  · next i hi =>
    split
    · next hl =>
      refine .rebook (r := e.bookmarks.addScope (scopeUuid (e.scopeCount + 1)) x) h
        (fun _ _ => id) (fun s o hs => ?_) (fun _ => rfl) _
      rw [Registry.addScope, Table.lookup_insert] at hs
      split at hs
      · cases hs
        exact .inr (isLive_iff.mpr ⟨i, hi, hl⟩)
      · exact .inl hs
    · exact .refl h

section Resumption

variable {b : Bookmark} {g : Registration}

/-- What is left of the registered bookmarks when one is resumed. -/
def resumedRegistry (e : Executor) (b : Bookmark) (g : Registration) : Registry :=
  if !g.options.multipleResume then e.bookmarks.unregister b else e.bookmarks

/-- The item of work that resumes a bookmark. -/
def resumption (b : Bookmark) (g : Registration) (v : Value) : WorkItem :=
  .bookmark g.owner b g.callback v (!g.options.multipleResume && g.options.isBlocking)

/-- A resumption registers nothing. -/
theorem lookup_resumedRegistry {a : Bookmark} {g' : Registration}
    (ha : (e.resumedRegistry b g).registrations[a]? = some g') :
    e.bookmarks.registrations[a]? = some g' := by
  unfold resumedRegistry at ha
  split at ha
  · exact lookup_unregister ha
  · exact ha

/-- A resumption changes no scope. -/
theorem scopes_resumedRegistry : (e.resumedRegistry b g).scopes = e.bookmarks.scopes := by
  unfold resumedRegistry
  split <;> rfl

/-- A bookmark for one resumption is waited for until its resumption is done. -/
theorem releasing_resumption (hg : e.bookmarks.registrations[b]? = some g) (v : Value)
    (p : Priority) (k : InstanceId) :
    (e.resumedRegistry b g).blocking k + (e.queue.push (resumption b g v) p).releasing k =
      e.bookmarks.blocking k + e.queue.releasing k := by
  have count := Registry.blocking_unregister e.bookmarks hg k
  rw [WorkQueue.releasing_push, resumedRegistry, resumption]
  cases hm : g.options.multipleResume with
  | true =>
    rw [if_neg (by decide)]
    rfl
  | false =>
    have once : (WorkItem.bookmark g.owner b g.callback v
        (!false && g.options.isBlocking)).releases k = (g.options.isBlocking && g.owner == k) := by
      rw [Bool.not_false, Bool.true_and]
      rfl
    rw [if_pos (by decide), count, once]
    omega

/-- A resumption takes the place of a bookmark for one resumption. -/
theorem Follows.resumeBookmark (h : e.Consistent X) (b : Bookmark) (v : Value) (p : Priority) :
    Follows e X (e.resumeBookmark b v p).2 := by
  unfold Executor.resumeBookmark
  split
  · exact .refl h
  · split
    · exact .refl h
    · next g hg =>
      have created : g.owner.number < e.nextInstance := by
        obtain ⟨i, hi, -⟩ := isLive_iff.mp (h.owned.bookmark hg)
        exact h.placed.tree.below hi
      have target : ∀ {o}, (resumption b g v).resumes o = true → g.owner = o := fun ho =>
        beq_iff_eq.mp ho
      have stock : Restocked e X { e with bookmarks := e.resumedRegistry b g } :=
        h.rebook e.scopeCount (fun _ _ ha => .inl (lookup_resumedRegistry ha))
          fun s o ho => .inl (scopes_resumedRegistry ▸ ho)
      have placed := h.placed.push p (w := resumption b g v) rfl fun o ho => target ho ▸ created
      refine ⟨⟨placed.congr rfl rfl rfl rfl rfl,
        stock.owned.extend (.of_instances rfl rfl rfl) rfl rfl rfl,
        h.awake_same rfl stock.held fun {w o} hw ho _ => ?_, h.balanced.congr rfl fun k => ?_,
        h.opened, h.sober, ?_⟩, .of_instances rfl rfl rfl⟩
      · rcases WorkQueue.mem_work_push.mp hw with rfl | hw
        · exact .inr ⟨b, g, hg, target ho⟩
        · exact .inl hw
      · have moved := releasing_resumption hg v p k
        change (e.resumedRegistry b g).blocking k + OperationTable.owed e.operations k +
            (e.queue.push (resumption b g v) p).releasing k =
          e.bookmarks.blocking k + OperationTable.owed e.operations k + e.queue.releasing k
        omega
      · change (if e.state = .idle then .runnable else e.state) = .runnable
        rw [h.running]
        rfl

end Resumption

/-! ### Operations -/

/-- The next operation is not outstanding. -/
theorem Owned.fresh (h : e.Owned) : e.operations[(⟨e.nextOperation⟩ : OperationId)]? = none := by
  cases ho : e.operations[(⟨e.nextOperation⟩ : OperationId)]? with
  | none => rfl
  | some k => exact absurd (h.begun ho) (Nat.lt_irrefl _)

/-- An asynchronous activity waits for the operation that it begins. -/
theorem Follows.beginOperation (h : e.Consistent X) (hX : X x) (hl : e.isLive x = true)
    (hk : (e.nodeOf x).body.kind = .async) : Follows e X (e.beginOperation x).2 := by
  unfold Executor.beginOperation
  dsimp only
  have owed := OperationTable.owed_insert e.operations x h.owned.fresh
  refine Restocked.await (e := e) (X := X) { owned := ?_, held := fun hg _ => hg }
    h hX fun k => ?_
  · refine ⟨h.owned.filed, h.owned.bookmark, h.owned.scope, fun {o k} ho => ?_, fun {o k} ho => ?_⟩
    · rw [Table.lookup_insert] at ho
      split at ho
      · cases ho
        exact ⟨hl, hk⟩
      · exact h.owned.operation ho
    · rw [Table.lookup_insert] at ho
      split at ho
      · next hon =>
        rw [← hon]
        exact Nat.lt_succ_self _
      · exact Nat.lt_succ_of_lt (h.owned.begun ho)
  · rw [Executor.dues, Executor.dues]
    dsimp only
    rw [owed k]
    simp only [@eq_comm _ k]
    omega

/-- Operations that are forgotten or completed are no longer waited for. -/
theorem Follows.settle_operations (h : e.Consistent X) (hX : X x) (hl : e.isLive x = true)
    {t : OperationTable} {n : Nat}
    (ht : ∀ (o : OperationId) (k : InstanceId), t[o]? = some k → e.operations[o]? = some k)
    (hn : ∀ k, OperationTable.owed e.operations k =
      OperationTable.owed t k + if k = x then n else 0) :
    Follows e X (release { e with operations := t } x n) := by
  have stock : Restocked e X { e with operations := t } := by
    refine { owned := ?_, held := fun hg _ => hg }
    exact ⟨h.owned.filed, h.owned.bookmark, h.owned.scope, fun ho => h.owned.operation (ht _ _ ho),
      fun ho => h.owned.begun (ht _ _ ho)⟩
  refine stock.relieve h hX hl fun k => ?_
  rw [Executor.dues, Executor.dues, hn k]
  dsimp only
  omega

theorem Follows.abandonOperations (h : e.Consistent X) (hX : X x) (hl : e.isLive x = true) :
    Follows e X (e.abandonOperations x) := by
  refine .settle_operations h hX hl (fun o k ho => ?_) fun k => ?_
  · rw [Table.lookup_filter, Option.filter_eq_some_iff] at ho
    exact ho.1
  · rw [OperationTable.owed_filter]
    split
    · next hk => rw [hk, Nat.zero_add]; rfl
    · rfl

/-! ### Programs -/

theorem Follows.answerContext (h : e.Consistent X) (q : ContextRequest) :
    Follows e X (e.answerContext x q).2 := by
  cases q with
  | say text => exact .of_sameCore h (sameCore_log _)
  | write l v => exact .writeLocation h l v
  | setArgument name v => exact .assignArgument h name v
  | _ => exact .refl h

theorem Follows.answerCancellation (h : e.Consistent X) (q : CancellationRequest) :
    Follows e X (e.answerCancellation x q).2 := by
  cases q with
  | isRequested => exact .refl h
  | accept => exact .markCanceled h

theorem sameCore_completeHandle (g : OperationHandle) (result : Except ActivityError Value) :
    SameCore e (e.completeHandle g result).2 := by
  unfold completeHandle
  split
  · exact {}
  · exact .refl e

theorem sameCore_answerOperation (q : OperationRequest) : SameCore e (e.answerOperation q).2 := by
  cases q with
  | discard o => exact {}
  | complete o result =>
    unfold answerOperation
    dsimp only
    split
    · refine SameCore.trans ?_ (sameCore_completeHandle _ _)
      exact {}
    · exact .refl e

theorem Follows.answerScheduling (h : e.Consistent X) (hX : X x) (hl : e.isLive x = true)
    (q : SchedulingRequest) : Follows e X (e.answerScheduling x q).2 := by
  cases q with
  | schedule node options => exact .scheduleChild h hX node options
  | cancelChild child => exact .cancelChild h child
  | cancelChildren => exact .cancelAll h _
  | createBookmark name scope callback options => exact .createBookmark h hX
  | removeBookmark b => exact .removeBookmark h hX b
  | removeAllBookmarks => exact .removeAllBookmarks h hX hl
  | createScope => exact .createScope h
  | resume b v => exact .resumeBookmark h b v .normal
  | setResult v => exact .modify h (fun _ => .of_same rfl rfl rfl rfl rfl rfl rfl) fun _ => rfl
  | addProperty name v =>
    exact .modify h (fun _ => .of_same rfl rfl rfl rfl rfl rfl rfl) fun _ => rfl
  | removeProperty name =>
    exact .modify h (fun _ => .of_same rfl rfl rfl rfl rfl rfl rfl) fun _ => rfl
  | requestPersist =>
    exact .of_sameCore h {}
  | _ => exact .refl h

/-- An answer to a running instance keeps the invariant. -/
theorem Follows.answer {k : BodyKind} (h : e.Consistent X) (hX : X x) (hl : e.isLive x = true)
    (q : Request k) : Follows e X (e.answer x q).2 := by
  cases q with
  | context q => exact .answerContext h q
  | cancellation q hq => exact .answerCancellation h q
  | operation q => exact .of_sameCore h (sameCore_answerOperation q)
  | scheduling q => exact .answerScheduling h hX hl q

/-- A program that is performed for a live instance keeps the invariant. -/
theorem Follows.perform {k : BodyKind} {α : Type} (p : Program k α) (h : e.Consistent X) (hX : X x)
    (hl : e.isLive x = true) : Follows e X (e.perform x p).2 := by
  induction p generalizing e with
  | done a => exact .refl h
  | crash c => exact .refl h
  | ask q next ih =>
    have ha : Follows e X (e.answer x q).2 := .answer h hX hl q
    exact ha.trans (ih _ ha.consistent (ha.extension.isLive hl))

end Workflow.Executor
