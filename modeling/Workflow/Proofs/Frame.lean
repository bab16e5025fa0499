import Workflow.Proofs.Consistent

/-!
# Small changes

The invariant has three parts, and most changes touch only one of them. A change of an instance that
keeps its place and state keeps the tree and the owners; an item that tells of no child keeps the
places; and a change of what an instance waits for is matched by a change of its count.
-/

namespace Workflow

/-- Two instances agree in their places, states and faults, and in whether they have run. -/
structure Instance.Continues (i j : Instance) : Prop where
  place : i.SamePlace j := by exact {}
  state : i.state = j.state := by rfl
  executed : i.executed = j.executed := by rfl
  fault : i.fault = j.fault := by rfl

/-- An instance with the identity, the state and the marks of another continues it. -/
theorem Instance.Continues.of_same {i j : Instance} (hid : i.id = j.id) (hn : i.node = j.node)
    (hp : i.parent = j.parent) (hc : i.children = j.children) (hs : i.state = j.state)
    (hx : i.executed = j.executed) (hf : i.fault = j.fault) : i.Continues j :=
  ⟨⟨hid, hn, hp, hc⟩, hs, hx, hf⟩

theorem Instance.Continues.sound {d : Definition} {i j : Instance} (h : i.Continues j)
    (hs : j.Sound d) : i.Sound d := by
  obtain ⟨⟨hid, hn, hp, hc⟩, hst, -, hf⟩ := h
  refine ⟨hn ▸ hs.known, hc ▸ hs.ascending, ?_, hst ▸ hs.steady, ?_, ?_⟩
  · rw [hst, hc]
    exact hs.childless
  · rw [hst, hf]
    exact hs.faulted
  · rw [hf]
    exact hs.sourced

namespace Executor

variable {e e' e'' : Executor} {X : InstanceId → Prop} {x k : InstanceId}
variable {f : Instance → Instance}

theorem lookup_modify (e : Executor) (k a : InstanceId) (f : Instance → Instance) :
    (e.modify k f).instances[a]? = if k = a then e.instances[a]?.map f else e.instances[a]? :=
  Table.lookup_modify e.instances k a f

theorem lookup_modify_self {i : Instance} (hi : e.instances[k]? = some i) :
    (e.modify k f).instances[k]? = some (f i) := by
  rw [lookup_modify, if_pos rfl, hi]
  rfl

/-- What stands in the table after a modification. -/
theorem lookup_modify_cases {a : InstanceId} {i : Instance}
    (hi : (e.modify k f).instances[a]? = some i) :
    ∃ j, e.instances[a]? = some j ∧ (a = k ∧ i = f j ∨ a ≠ k ∧ i = j) := by
  rw [lookup_modify] at hi
  split at hi
  · next hk =>
    obtain ⟨j, hj, rfl⟩ := Option.map_eq_some_iff.mp hi
    exact ⟨j, hj, .inl ⟨hk.symm, rfl⟩⟩
  · next hk => exact ⟨i, hi, .inr ⟨Ne.symm hk, rfl⟩⟩

/-- A modification that keeps an instance live, or not live, keeps who is live. -/
theorem isLive_modify
    (hf : ∀ i, e.instances[k]? = some i → (f i).state.isLive = i.state.isLive) (a : InstanceId) :
    (e.modify k f).isLive a = e.isLive a := by
  rw [isLive, isLive, instance?, instance?, lookup_modify]
  split
  · next h =>
    subst h
    cases hi : e.instances[k]? with
    | none => rfl
    | some i => simp only [Option.map_some, Option.any_some, hf i hi]
  · rfl

namespace Placed

/-- Places depend only on the instances and the queue. -/
theorem congr (h : e.Placed X) (hd : e'.definition = e.definition)
    (hi : e'.instances = e.instances) (hn : e'.nextInstance = e.nextInstance)
    (hr : e'.root = e.root) (hq : e'.queue = e.queue) : e'.Placed X := by
  cases e
  cases e'
  dsimp only at hd hi hn hr hq
  subst hd hi hn hr hq
  obtain ⟨p1, p2, p3, p4, p5, p6, p7, p8, p9⟩ := h
  exact ⟨p1, p2, p3, p4, p5, p6, p7, p8, p9⟩

/-- A modification that keeps an instance in its place, and live or terminal as it is, keeps the
places. Only an exempt instance may otherwise change its state, have run, or wait for more or less. -/
theorem remodel (h : e.Placed X)
    (hf : ∀ i, e.instances[k]? = some i → (f i).SamePlace i ∧ (f i).Sound e.definition ∧
      (f i).state.isLive = i.state.isLive ∧ (f i).state.isTerminal = i.state.isTerminal)
    (hb : X k ∨ ∀ i, e.instances[k]? = some i →
      (f i).busy = i.busy ∧ (f i).executed = i.executed ∧ (f i).state = i.state) :
    (e.modify k f).Placed X := by
  have live := isLive_modify (f := f) fun i hi => (hf i hi).2.2.1
  have back : ∀ {a : InstanceId} {i : Instance}, (e.modify k f).instances[a]? = some i →
      ∃ j, e.instances[a]? = some j ∧ i.parent = j.parent ∧
        i.state.isLive = j.state.isLive ∧ i.state.isTerminal = j.state.isTerminal ∧
        (X a ∨ i.busy = j.busy ∧ i.executed = j.executed ∧ i.state = j.state) := by
    intro a i hi
    obtain ⟨j, hj, ⟨rfl, rfl⟩ | ⟨-, rfl⟩⟩ := lookup_modify_cases hi
    · obtain ⟨hp, -, hl, ht⟩ := hf j hj
      exact ⟨j, hj, hp.parent, hl, ht, hb.imp_right (· j hj)⟩
    · exact ⟨i, hj, rfl, rfl, rfl, .inr ⟨rfl, rfl, rfl⟩⟩
  constructor
  · exact h.tree.modify fun i hi => ⟨(hf i hi).1, (hf i hi).2.1⟩
  · exact (live _).trans h.rootLive
  · intro w p c hw hr
    obtain ⟨hp, hc, ht, hl⟩ := h.reported hw hr
    refine ⟨hp, hc, fun i hi => ?_, fun hlp => ?_⟩
    · obtain ⟨j, hj, hij, -, hit, -⟩ := back hi
      rw [hit, hij]
      exact ht j hj
    · obtain ⟨i, hi⟩ := hl ((live p).symm.trans hlp)
      rw [lookup_modify, hi]
      split
      · exact ⟨f i, rfl⟩
      · exact ⟨i, rfl⟩
  · exact h.created
  · exact h.sourced
  · intro a p i hi ht hp hX
    obtain ⟨j, hj, hij, -, hit, -⟩ := back hi
    exact h.told hj (hit ▸ ht) (hij ▸ hp) hX
  · intro a p i hi ht hp hX
    obtain ⟨j, hj, hij, -, hit, -⟩ := back hi
    exact h.untold hj (hit ▸ ht) (hij ▸ hp) hX
  · intro a i hi hl hX hx
    obtain ⟨j, hj, -, hil, -, hrest⟩ := back hi
    obtain ⟨hbusy, hex, -⟩ := hrest.resolve_left hX
    rw [hbusy]
    exact h.waiting hj (hil ▸ hl) hX (hex ▸ hx)
  · intro a i hi hl hX hx
    obtain ⟨j, hj, -, hil, -, hrest⟩ := back hi
    obtain ⟨hbusy, hex, hst⟩ := hrest.resolve_left hX
    rw [hbusy, hst]
    exact h.queued hj (hil ▸ hl) hX (hex ▸ hx)

/-- A modification that goes on with an instance keeps the places. Only an exempt instance may wait
for more or less than before. -/
theorem modify (h : e.Placed X) (hf : ∀ i, e.instances[k]? = some i → (f i).Continues i)
    (hb : X k ∨ ∀ i, (f i).busy = i.busy) : (e.modify k f).Placed X := by
  refine h.remodel (fun i hi => ?_) (hb.imp_right fun hb i hi => ?_)
  · have hc := hf i hi
    exact ⟨hc.place, hc.sound (h.tree.sound hi), by rw [hc.state], by rw [hc.state]⟩
  · exact ⟨hb i, (hf i hi).executed, (hf i hi).state⟩

/-- An exempt instance may wait for less. -/
theorem release (h : e.Placed X) (hX : X k) (n : Nat) : (e.release k n).Placed X :=
  (h.modify (f := fun i => { i with busy := i.busy - n })
    (fun _ _ => .of_same rfl rfl rfl rfl rfl rfl rfl) (.inl hX)).congr rfl rfl rfl rfl rfl

/-- An item that tells of no child changes no place. -/
theorem push (h : e.Placed X) {w : WorkItem} (p : Priority) (hw : w.report? = none)
    (hr : ∀ o, w.resumes o = true → o.number < e.nextInstance) :
    Placed { e with queue := e.queue.push w p } X := by
  have silent : ∀ c, w.tellsOf c = false := fun c => by rw [WorkItem.tellsOf, hw]; rfl
  have tells : ∀ c, (e.queue.push w p).work.countP (·.tellsOf c) =
      e.queue.work.countP (·.tellsOf c) := fun c => by
    rw [WorkQueue.countP_work_push, silent c]
    rfl
  constructor
  · exact h.tree
  · exact h.rootLive
  · intro v p' c hv hvr
    rcases WorkQueue.mem_work_push.mp hv with rfl | hv
    · rw [hw] at hvr
      exact absurd hvr.symm (Option.some_ne_none _)
    · exact h.reported hv hvr
  · intro v o hv hvo
    rcases WorkQueue.mem_work_push.mp hv with rfl | hv
    · exact hr o hvo
    · exact h.created hv hvo
  · intro a c tag g hv
    rcases WorkQueue.mem_work_push.mp hv with rfl | hv
    · exact absurd hw (Option.some_ne_none _)
    · exact h.sourced hv
  · intro a p' i hi ht hp hX
    exact (tells a).trans (h.told hi ht hp hX)
  · intro a p' i hi ht hp hX
    exact (tells a).trans (h.untold hi ht hp hX)
  · exact h.waiting
  · intro a i hi hl hX hx
    obtain ⟨hs, hb, hm⟩ := h.queued hi hl hX hx
    exact ⟨hs, hb, WorkQueue.mem_work_push.mpr (.inr hm)⟩

end Placed

/-- What a callback leaves as it is. -/
structure Extends (e e' : Executor) : Prop where
  definition : e'.definition = e.definition
  root : e'.root = e.root
  /-- Instances stay in their places and states. -/
  keeps : ∀ {k : InstanceId} {i : Instance}, e.instances[k]? = some i →
    ∃ j, e'.instances[k]? = some j ∧ j.state = i.state ∧ j.parent = i.parent ∧ j.node = i.node ∧
      j.executed = i.executed

namespace Extends

theorem of_sameCore (h : SameCore e e') : Extends e e' :=
  ⟨h.definition, h.root, fun {_ i} hk => ⟨i, h.instances ▸ hk, rfl, rfl, rfl, rfl⟩⟩

theorem refl (e : Executor) : Extends e e :=
  of_sameCore (.refl e)

theorem trans (h : Extends e e') (h' : Extends e' e'') : Extends e e'' := by
  refine ⟨h'.definition.trans h.definition, h'.root.trans h.root, fun hk => ?_⟩
  obtain ⟨j, hj, h1, h2, h3, h4⟩ := h.keeps hk
  obtain ⟨l, hl, h1', h2', h3', h4'⟩ := h'.keeps hj
  exact ⟨l, hl, h1'.trans h1, h2'.trans h2, h3'.trans h3, h4'.trans h4⟩

theorem isLive (h : Extends e e') (hk : e.isLive k = true) : e'.isLive k = true := by
  obtain ⟨i, hi, hl⟩ := isLive_iff.mp hk
  obtain ⟨j, hj, hs, -⟩ := h.keeps hi
  exact isLive_iff.mpr ⟨j, hj, hs ▸ hl⟩

/-- A live instance runs the same node. -/
theorem nodeOf (h : Extends e e') (hk : e.isLive k = true) : e'.nodeOf k = e.nodeOf k := by
  obtain ⟨i, hi, -⟩ := isLive_iff.mp hk
  obtain ⟨j, hj, -, -, hn, -⟩ := h.keeps hi
  rw [Executor.nodeOf, Executor.nodeOf, instance?, instance?, hi, hj, h.definition,
    Option.map_some, Option.map_some, hn]

/-- A modification that goes on with an instance leaves the rest as it is. -/
theorem of_modified (hf : ∀ i, e.instances[k]? = some i → (f i).Continues i)
    (hi : e'.instances = e.instances.modify k f) (hd : e'.definition = e.definition)
    (hr : e'.root = e.root) : Extends e e' := by
  refine ⟨hd, hr, fun {a i} ha => ?_⟩
  rw [hi, Table.lookup_modify]
  split
  · next hk =>
    subst hk
    have h := hf i ha
    exact ⟨f i, by rw [ha]; rfl, h.state, h.place.parent, h.place.node, h.executed⟩
  · exact ⟨i, ha, rfl, rfl, rfl, rfl⟩

theorem modify (hf : ∀ i, e.instances[k]? = some i → (f i).Continues i) :
    Extends e (e.modify k f) :=
  of_modified hf rfl rfl rfl

theorem of_instances (hi : e'.instances = e.instances) (hd : e'.definition = e.definition)
    (hr : e'.root = e.root) : Extends e e' :=
  ⟨hd, hr, fun {_ i} ha => ⟨i, hi ▸ ha, rfl, rfl, rfl, rfl⟩⟩

/-- Waiting for less leaves the rest as it is. -/
theorem release (n : Nat) : Extends e (e.release k n) :=
  of_modified (f := fun i => { i with busy := i.busy - n })
    (fun _ _ => .of_same rfl rfl rfl rfl rfl rfl rfl) rfl rfl rfl

/-- Queued work leaves the instances as they are. -/
theorem enqueue (w : WorkItem) : Extends e (e.enqueue w) :=
  of_instances rfl rfl rfl

end Extends

namespace Owned

/-- Owners stay if the resources and the live instances do. -/
theorem of_live (h : e.Owned) (live : ∀ k, e.isLive k = true → e'.isLive k = true)
    (node : ∀ k, e.isLive k = true → e'.nodeOf k = e.nodeOf k)
    (hb : e'.bookmarks = e.bookmarks) (ho : e'.operations = e.operations)
    (hn : e'.nextOperation = e.nextOperation) : e'.Owned := by
  constructor
  · rw [hb]
    exact h.filed
  · rw [hb]
    exact fun hg => live _ (h.bookmark hg)
  · rw [hb]
    exact fun hs => live _ (h.scope hs)
  · rw [ho]
    intro o a ha
    obtain ⟨hl, hk⟩ := h.operation ha
    exact ⟨live a hl, node a hl ▸ hk⟩
  · rw [ho, hn]
    exact h.begun

/-- Owners stay if the resources do. -/
theorem extend (h : e.Owned) (hx : Extends e e') (hb : e'.bookmarks = e.bookmarks)
    (ho : e'.operations = e.operations) (hn : e'.nextOperation = e.nextOperation) : e'.Owned :=
  h.of_live (fun _ => hx.isLive) (fun _ => hx.nodeOf) hb ho hn

/-- A modification that goes on with an instance keeps the owners. -/
theorem modify (h : e.Owned) (hf : ∀ i, e.instances[k]? = some i → (f i).Continues i) :
    (e.modify k f).Owned :=
  h.extend (.modify hf) rfl rfl rfl

/-- An identifier that has not been given out owns nothing and is not waited for. -/
theorem dues_eq_zero (h : e.Owned) (hp : e.Placed X) {k : InstanceId}
    (hk : e.nextInstance ≤ k.number) : e.dues k = 0 := by
  have old : ∀ {o : InstanceId}, e.isLive o = true → o ≠ k := by
    rintro o ho rfl
    obtain ⟨i, hi, -⟩ := isLive_iff.mp ho
    exact absurd (hp.tree.below hi) (Nat.not_lt.mpr hk)
  have hb : e.bookmarks.blocking k = 0 :=
    Registry.blocking_eq_zero fun b g hg => old (h.bookmark hg)
  have ho : OperationTable.owed e.operations k = 0 :=
    OperationTable.owed_eq_zero _ fun o a ha => old (h.operation ha).1
  have hr : e.queue.releasing k = 0 := by
    rw [WorkQueue.releasing, List.countP_eq_zero]
    intro w hw hwk
    exact absurd (hp.created hw (WorkItem.resumes_of_releases hwk)) (Nat.not_lt.mpr hk)
  rw [dues, hb, ho, hr]

end Owned

/-- Counts stay right if one instance changes and others have the same dues. -/
theorem Balanced.change (h : e.Balanced) (hi : e'.instances = e.instances.modify x f)
    (hd : ∀ k, k ≠ x → e'.dues k = e.dues k)
    (hx : ∀ i, e.instances[x]? = some i → (f i).state.isLive = true →
      (f i).busy = (f i).children.length + e'.dues x) : e'.Balanced := by
  intro k i hk hl
  rw [hi, Table.lookup_modify] at hk
  split at hk
  · next hxk =>
    subst hxk
    obtain ⟨j, hj, rfl⟩ := Option.map_eq_some_iff.mp hk
    exact hx j hj hl
  · next hxk =>
    rw [hd k (Ne.symm hxk)]
    exact h k i hk hl

/-- Every live instance counts what it waits for, but one may count so many too many. -/
def Overcounts (e : Executor) (x : InstanceId) (n : Nat) : Prop :=
  ∀ (k : InstanceId) (i : Instance), e.instances[k]? = some i → i.state.isLive = true →
    i.busy = i.children.length + e.dues k + if k = x then n else 0

/-- An instance that counts too many can stop waiting for as many. -/
theorem Overcounts.release {n : Nat} (h : e.Overcounts x n) (hl : e.isLive x = true) :
    (e.release x n).Balanced ∧ (e.release x n).isOverdrawn = e.isOverdrawn := by
  obtain ⟨i, hi, hil⟩ := isLive_iff.mp hl
  have hb := h x i hi hil
  rw [if_pos rfl] at hb
  constructor
  · intro k j hk hjl
    change (e.modify x _).instances[k]? = some j at hk
    change j.busy = j.children.length + e.dues k
    rw [lookup_modify] at hk
    split at hk
    · next hxk =>
      subst hxk
      obtain ⟨j, hj, rfl⟩ := Option.map_eq_some_iff.mp hk
      rw [hi, Option.some.injEq] at hj
      subst hj
      exact Nat.sub_eq_of_eq_add hb
    · next hxk =>
      have := h k j hk hjl
      rwa [if_neg (Ne.symm hxk), Nat.add_zero] at this
  · change (e.isOverdrawn || (e.instance? x).any fun i => decide (i.busy < n)) = e.isOverdrawn
    have hn : ¬ i.busy < n := by omega
    rw [instance?, hi, Option.any_some, decide_eq_false hn, Bool.or_false]

/-- Counts stay right if the dues do. -/
theorem Balanced.congr (h : e.Balanced) (hi : e'.instances = e.instances)
    (hd : ∀ k, e'.dues k = e.dues k) : e'.Balanced := by
  intro k i hk hl
  rw [hd]
  exact h k i (hi ▸ hk) hl

/-- Bookmarks and resumptions that were there before, or come from a bookmark that was there before,
are for instances that have run. -/
theorem Consistent.awake_of {Y : InstanceId → Prop} (h : e.Consistent X)
    (back : ∀ {k : InstanceId} {i : Instance}, e'.instances[k]? = some i →
      k.number < e.nextInstance → i.state.isLive = true → ¬ Y k →
      ∃ j, e.instances[k]? = some j ∧ ¬ X k ∧ i.executed = j.executed ∧ j.state.isLive = true)
    (hb : ∀ {b : Bookmark} {g : Registration}, e'.bookmarks.registrations[b]? = some g →
      ¬ Y g.owner → e.bookmarks.registrations[b]? = some g)
    (hq : ∀ {w : WorkItem} {o : InstanceId}, w ∈ e'.queue.work → w.resumes o = true → ¬ Y o →
      w ∈ e.queue.work ∨
        ∃ (b : Bookmark) (g : Registration), e.bookmarks.registrations[b]? = some g ∧ g.owner = o) :
    e'.Awake Y := by
  have old : ∀ {b : Bookmark} {g : Registration}, e.bookmarks.registrations[b]? = some g →
      g.owner.number < e.nextInstance := fun hg => by
    obtain ⟨i, hi, -⟩ := isLive_iff.mp (h.owned.bookmark hg)
    exact h.placed.tree.below hi
  constructor
  · intro b g i hg hi hl hY
    have hg := hb hg hY
    obtain ⟨j, hj, hX, hx, hjl⟩ := back hi (old hg) hl hY
    exact hx.trans (h.awake.registered hg hj hjl hX)
  · intro w o i hw ho hi hl hY
    rcases hq hw ho hY with hw | ⟨b, g, hg, rfl⟩
    · obtain ⟨j, hj, hX, hx, hjl⟩ := back hi (h.placed.created hw ho) hl hY
      exact hx.trans (h.awake.resumed hw ho hj hjl hX)
    · obtain ⟨j, hj, hX, hx, hjl⟩ := back hi (old hg) hl hY
      exact hx.trans (h.awake.registered hg hj hjl hX)

/-- Without a change of instances, bookmarks and resumptions are for instances that have run if they
were there before or come from bookmarks that were. -/
theorem Consistent.awake_same (h : e.Consistent X) (hi : e'.instances = e.instances)
    (hb : ∀ {b : Bookmark} {g : Registration}, e'.bookmarks.registrations[b]? = some g →
      ¬ X g.owner → e.bookmarks.registrations[b]? = some g)
    (hq : ∀ {w : WorkItem} {o : InstanceId}, w ∈ e'.queue.work → w.resumes o = true → ¬ X o →
      w ∈ e.queue.work ∨
        ∃ (b : Bookmark) (g : Registration), e.bookmarks.registrations[b]? = some g ∧ g.owner = o) :
    e'.Awake X :=
  h.awake_of (fun {_ i} ha _ hl hX => ⟨i, hi ▸ ha, hX, rfl, hl⟩) hb hq

/-- A change that goes on with one instance and takes nothing new into the queue or the registry lets
bookmarks and resumptions be for instances that have run. -/
theorem Consistent.awake_modified (h : e.Consistent X) (hi : e'.instances = e.instances.modify k f)
    (hf : ∀ i, e.instances[k]? = some i → (f i).Continues i)
    (hb : ∀ {b : Bookmark} {g : Registration}, e'.bookmarks.registrations[b]? = some g →
      ¬ X g.owner → e.bookmarks.registrations[b]? = some g)
    (hq : ∀ {w : WorkItem} {o : InstanceId}, w ∈ e'.queue.work → w.resumes o = true → ¬ X o →
      w ∈ e.queue.work ∨
        ∃ (b : Bookmark) (g : Registration), e.bookmarks.registrations[b]? = some g ∧ g.owner = o) :
    e'.Awake X := by
  refine h.awake_of (fun {a i} ha _ hl hX => ?_) hb hq
  rw [hi] at ha
  obtain ⟨j, hj, ⟨rfl, rfl⟩ | ⟨-, rfl⟩⟩ := lookup_modify_cases (e := e) ha
  · have hc := hf j hj
    exact ⟨j, hj, hX, hc.executed, hc.state ▸ hl⟩
  · exact ⟨i, hj, hX, rfl, hl⟩

/-- A modification that goes on with an instance and lets it wait for as much keeps the invariant. -/
theorem Consistent.modify (h : e.Consistent X)
    (hf : ∀ i, e.instances[k]? = some i → (f i).Continues i) (hb : ∀ i, (f i).busy = i.busy) :
    (e.modify k f).Consistent X where
  placed := h.placed.modify hf (.inr hb)
  owned := h.owned.modify hf
  awake := h.awake_modified rfl hf (fun hg _ => hg) fun hw _ _ => .inl hw
  balanced := by
    refine h.balanced.change rfl (fun _ _ => rfl) fun i hi hl => ?_
    rw [hb, (hf i hi).place.children]
    exact h.balanced k i hi ((hf i hi).state ▸ hl)
  opened := h.opened
  sober := h.sober
  running := h.running

end Executor

end Workflow
