import Workflow.Proofs.Biography
import Workflow.Proofs.Confinement

/-!
# Where an instance stands

What is reported of an instance fits what the executor knows of it: an instance of which nothing was
reported is still to come, one that was scheduled has not run, one whose run was reported goes on, and
one whose end was reported has ended or is gone. Whatever does not concern the instance leaves it there.
-/

namespace Workflow

/-- An instance `j` is what an instance `i` was, as far as the records about it tell. -/
structure Instance.Persists (i j : Instance) : Prop where
  executed : j.executed = i.executed := by rfl
  asked : i.cancelRequested = true → j.cancelRequested = true := by exact id
  terminal : j.state.isTerminal = i.state.isTerminal := by rfl
  final : i.state.isTerminal = true → j.state = i.state := by exact fun _ => rfl

theorem Instance.Persists.trans {i j l : Instance} (h : i.Persists j) (h' : j.Persists l) :
    i.Persists l where
  executed := h'.executed.trans h.executed
  asked hi := h'.asked (h.asked hi)
  terminal := h'.terminal.trans h.terminal
  final hi := (h'.final (h.terminal.trans hi)).trans (h.final hi)

namespace Executor

variable {e e' e'' : Executor} {k x : InstanceId} {f : Instance → Instance}

/-! ### What records say of an instance -/

theorem id_of_info {a : ActivityInfo} (h : e.info? x = some a) : a.id = x := by
  obtain ⟨i, -, rfl⟩ := Option.map_eq_some_iff.mp h
  rfl

theorem exists_info {i : Instance} (hi : e.instances[x]? = some i) : ∃ a, e.info? x = some a :=
  ⟨_, congrArg _ hi⟩

/-! ### What does not concern an instance -/

/-- Nothing that happens on the way from one executor to another concerns an instance. -/
structure Ignores (k : InstanceId) (e e' : Executor) : Prop where
  tells : ∃ xs, e.Tells xs e' ∧ ∀ y ∈ xs, TrackingEvent.concerns k y = false
  root : e'.root = e.root
  later : e.nextInstance ≤ e'.nextInstance
  /-- An instance that is still to come does not come. -/
  fresh : e.nextInstance ≤ k.number → e'.nextInstance ≤ k.number
  there : Option.Rel Instance.Persists e.instances[k]? e'.instances[k]?

namespace Ignores

/-- The instance is what it was. -/
theorem rel_refl (o : Option Instance) : Option.Rel Instance.Persists o o := by
  cases o with
  | none => exact .none
  | some i => exact .some {}

theorem refl (e : Executor) : Ignores k e e :=
  ⟨⟨[], ⟨rfl, rfl⟩, by simp⟩, rfl, Nat.le_refl _, id, rel_refl _⟩

theorem trans (h : Ignores k e e') (h' : Ignores k e' e'') : Ignores k e e'' := by
  obtain ⟨xs, hxs, hk⟩ := h.tells
  obtain ⟨ys, hys, hk'⟩ := h'.tells
  refine ⟨⟨xs ++ ys, hxs.trans hys, fun y hy => (List.mem_append.mp hy).elim (hk y) (hk' y)⟩,
    h'.root.trans h.root, Nat.le_trans h.later h'.later, fun hn => h'.fresh (h.fresh hn), ?_⟩
  have first := h.there
  have second := h'.there
  generalize e.instances[k]? = o at first ⊢
  generalize e'.instances[k]? = o' at first second
  generalize e''.instances[k]? = o'' at second ⊢
  cases first with
  | none =>
    cases second
    exact .none
  | some hij =>
    cases second with
    | some hjl => exact .some (hij.trans hjl)

/-- Nothing is reported, and the instance is what it was. -/
theorem of_mum (h : Mum e e') (hr : e'.root = e.root) (hn : e'.nextInstance = e.nextInstance)
    (ht : Option.Rel Instance.Persists e.instances[k]? e'.instances[k]?) : Ignores k e e' :=
  ⟨⟨[], ⟨h.workflow, h.tracking⟩, by simp⟩, hr, Nat.le_of_eq hn.symm, fun h => hn ▸ h, ht⟩

theorem of_instances (h : Mum e e') (hr : e'.root = e.root)
    (hn : e'.nextInstance = e.nextInstance) (hi : e'.instances = e.instances) : Ignores k e e' :=
  .of_mum h hr hn (hi ▸ rel_refl _)

/-- What is reported does not concern the instance. -/
theorem of_tells {xs : List TrackingEvent} (hc : SameCore e e') (ht : e.Tells xs e')
    (hx : ∀ y ∈ xs, TrackingEvent.concerns k y = false) : Ignores k e e' :=
  ⟨⟨xs, ht, hx⟩, hc.root, Nat.le_of_eq hc.nextInstance.symm, fun h => hc.nextInstance ▸ h,
    hc.instances ▸ rel_refl _⟩

/-- One instance changes; if it is the one, it is still what it was. -/
theorem of_modified (h : Mum e e') (hr : e'.root = e.root) (hn : e'.nextInstance = e.nextInstance)
    (hi : e'.instances = e.instances.modify x f)
    (hf : x = k → ∀ i, e.instances[x]? = some i → i.Persists (f i)) : Ignores k e e' := by
  refine .of_mum h hr hn ?_
  rw [hi, Table.lookup_modify]
  split
  · next hx =>
    subst hx
    cases hk : e.instances[x]? with
    | none => exact .none
    | some i => exact .some (hf rfl i hk)
  · exact rel_refl _

theorem modify (hf : x = k → ∀ i, e.instances[x]? = some i → i.Persists (f i)) :
    Ignores k e (e.modify x f) :=
  .of_modified (.modify e x f) rfl rfl rfl hf

/-- Another instance leaves. -/
theorem erase (hx : x ≠ k) : Ignores k e { e with instances := e.instances.erase x } := by
  refine .of_mum ⟨rfl, rfl, rfl, rfl, .inl rfl⟩ rfl rfl ?_
  rw [Table.lookup_erase, if_neg hx]
  exact rel_refl _

theorem foldl {α : Type} {g : Executor → α → Executor} (hg : ∀ e a, Ignores k e (g e a))
    (l : List α) : Ignores k e (l.foldl g e) := by
  induction l generalizing e with
  | nil => exact .refl e
  | cons a l ih => exact (hg e a).trans ih

theorem log (entry : JournalEntry) : Ignores k e (e.log entry) :=
  .of_instances (.log e entry) rfl rfl rfl

theorem enqueue (w : WorkItem) : Ignores k e (e.enqueue w) :=
  .of_instances (.enqueue e w) rfl rfl rfl

theorem taken (q : WorkQueue) : Ignores k e { e with queue := q } :=
  .of_instances ⟨rfl, rfl, rfl, rfl, .inl rfl⟩ rfl rfl rfl

theorem release (n : Nat) : Ignores k e (e.release x n) :=
  .of_modified (.release e x n) rfl rfl rfl fun _ _ _ => {}

theorem beginOperation : Ignores k e (e.beginOperation x).2 :=
  .of_modified (x := x) (f := Instance.incrementBusy) ⟨rfl, rfl, rfl, rfl, .inl rfl⟩ rfl rfl rfl
    fun _ _ _ => {}

theorem abandonOperations : Ignores k e (e.abandonOperations x) := by
  have forgotten : Ignores k e { e with operations := e.operations.filter fun _ o => o != x } :=
    .of_instances ⟨rfl, rfl, rfl, rfl, .inl rfl⟩ rfl rfl rfl
  exact forgotten.trans (.release _)

theorem releaseResources : Ignores k e (e.releaseResources x) :=
  .of_instances ⟨rfl, rfl, rfl, rfl, .inl rfl⟩ rfl rfl rfl

theorem recordResult (result : Option Value) : Ignores k e (e.recordResult x result) := by
  cases result with
  | none => exact .refl e
  | some v => exact .modify fun _ _ _ => {}

theorem callAbortHook (reason : Fault) : Ignores k e (e.callAbortHook x reason) := by
  have core := sameCore_callAbortHook (e := e) x reason
  exact .of_instances (.callAbortHook e x reason) core.root core.nextInstance core.instances

theorem copyOutputs (c : Instance) : Ignores k e (e.copyOutputs x c) := by
  unfold Executor.copyOutputs
  refine foldl (fun e a => ?_) _
  split
  · split
    · exact .modify fun _ _ _ => {}
    · exact .refl e
  · exact .refl e

theorem track {event : TrackingEvent} (h : event.concerns k = false) : Ignores k e (e.track event) :=
  .of_tells (sameCore_track event) (e.tells_track event) fun _ hy => List.mem_singleton.mp hy ▸ h

theorem trackState (hx : x ≠ k) (s : ActivityState) : Ignores k e (e.trackState x s) := by
  unfold Executor.trackState
  split
  · next hi => exact .track (by simp [TrackingEvent.concerns, id_of_info hi, hx])
  · exact .refl e

theorem trackResumed (hx : x ≠ k) (b : Bookmark) : Ignores k e (e.trackResumed b x) := by
  unfold Executor.trackResumed
  split
  · next hi => exact .track (by simp [TrackingEvent.concerns, id_of_info hi, hx])
  · exact .refl e

theorem trackFault (f : Fault) (handler : Option InstanceId) : Ignores k e (e.trackFault f handler) :=
  .track rfl

theorem finishWorkflow : Ignores k e e.finishWorkflow := by
  unfold Executor.finishWorkflow
  split
  · exact .refl e
  · next event _ =>
    exact ⟨⟨[.lifecycle event], ⟨rfl, rfl⟩, by simp [TrackingEvent.concerns]⟩, rfl, Nat.le_refl _, id,
      rel_refl _⟩

theorem settle : Ignores k e e.settle.2 := by
  unfold Executor.settle
  split
  · exact .refl e
  · split
    · exact .refl e
    · exact ⟨⟨[.lifecycle .idle], ⟨rfl, rfl⟩, by simp [TrackingEvent.concerns]⟩, rfl, Nat.le_refl _,
        id, rel_refl _⟩

/-- A participant is told nothing more of the instance. -/
theorem seen {n : Nat} (h : Ignores k e e') (hn : e.Informs n) : e'.Informs n ∧
    (e'.seenBy n).filter (TrackingEvent.concerns k) =
      (e.seenBy n).filter (TrackingEvent.concerns k) := by
  obtain ⟨xs, ht, hx⟩ := h.tells
  obtain ⟨informs, seen⟩ := hn.tells ht
  have nothing : xs.filter (TrackingEvent.concerns k) = [] :=
    List.filter_eq_nil_iff.mpr fun y hy => by simp [hx y hy]
  refine ⟨informs, ?_⟩
  rw [seen, List.filter_append, nothing, List.append_nil]

end Ignores

/-! ### The instance and the records about it -/

/-- Where an instance stands in an executor when the records about it have come to a phase. If
`running` holds, its body may be running for the first time. -/
inductive Standing (k : InstanceId) (running : Prop) (e : Executor) : Phase → Prop
  | unborn (hn : e.nextInstance ≤ k.number) (ha : e.instances[k]? = none) :
      Standing k running e .unborn
  | dormant {i : Instance} (hn : k.number < e.nextInstance) (hi : e.instances[k]? = some i)
      (ht : i.state.isTerminal = false) (hx : i.executed = false) : Standing k running e .dormant
  | awake {i : Instance} {c : Bool} (hn : k.number < e.nextInstance)
      (hi : e.instances[k]? = some i) (ht : i.state.isTerminal = false)
      (hx : i.executed = true ∨ running) (hc : c = true → i.cancelRequested = true) :
      Standing k running e (.awake c)
  | dead {s : ActivityState} (hn : k.number < e.nextInstance)
      (hi : ∀ i, e.instances[k]? = some i → i.state.isTerminal = true ∧ i.state = s) :
      Standing k running e (.dead s)

variable {n : Nat} {p : Phase} {running running' : Prop} {i : Instance}

/-- What persists is still there. -/
theorem exists_persists {o : Option Instance} (h : Option.Rel Instance.Persists (some i) o) :
    ∃ j, o = some j ∧ i.Persists j := by
  cases h with
  | some h => exact ⟨_, rfl, h⟩

/-- An instance that is what it was stands where it stood. -/
theorem Standing.persists (h : Standing k running e p) (later : e.nextInstance ≤ e'.nextInstance)
    (fresh : e.nextInstance ≤ k.number → e'.nextInstance ≤ k.number)
    (there : Option.Rel Instance.Persists e.instances[k]? e'.instances[k]?) :
    Standing k running e' p := by
  cases h with
  | unborn hn ha =>
    rw [ha] at there
    refine .unborn (fresh hn) ?_
    generalize e'.instances[k]? = o at there
    cases there
    rfl
  | dormant hn hi ht hx =>
    obtain ⟨j, hj, same⟩ := exists_persists (hi ▸ there)
    exact .dormant (Nat.lt_of_lt_of_le hn later) hj (same.terminal.trans ht) (same.executed.trans hx)
  | awake hn hi ht hx hc =>
    obtain ⟨j, hj, same⟩ := exists_persists (hi ▸ there)
    exact .awake (Nat.lt_of_lt_of_le hn later) hj (same.terminal.trans ht)
      (hx.imp_left same.executed.trans) fun h => same.asked (hc h)
  | dead hn hi =>
    refine .dead (Nat.lt_of_lt_of_le hn later) fun j hj => ?_
    rw [hj] at there
    generalize ho : e.instances[k]? = o at there
    cases there with
    | some same =>
      obtain ⟨ht, hs⟩ := hi _ ho
      exact ⟨same.terminal.trans ht, (same.final ht).trans hs⟩

theorem Standing.ignores (h : Standing k running e p) (hi : Ignores k e e') :
    Standing k running e' p :=
  h.persists hi.later hi.fresh hi.there

/-- A participant has been told of an instance what fits where it stands. -/
structure Recounts (n : Nat) (k : InstanceId) (running : Prop) (e : Executor)
    (p : Phase) : Prop where
  informs : e.Informs n
  /-- The root is not scheduled by anyone. -/
  root : e.root ≠ k
  stands : Standing k running e p
  biography : Biography k ((e.seenBy n).filter (TrackingEvent.concerns k)) p

namespace Recounts

/-- More has been reported, and the instance stands where it should. -/
theorem tells (h : Recounts n k running e p) {xs : List TrackingEvent} {q : Phase}
    (ht : e.Tells xs e') (hr : e'.root = e.root) (hs : Standing k running' e' q)
    (hb : ∀ {ys : List TrackingEvent}, Biography k ys p →
      Biography k (ys ++ xs.filter (TrackingEvent.concerns k)) q) :
    Recounts n k running' e' q := by
  obtain ⟨informs, seen⟩ := h.informs.tells ht
  refine ⟨informs, hr ▸ h.root, hs, ?_⟩
  rw [seen, List.filter_append]
  exact hb h.biography

/-- What does not concern an instance changes nothing of what is told of it. -/
theorem ignores (h : Recounts n k running e p) (hi : Ignores k e e') : Recounts n k running e' p := by
  obtain ⟨informs, same⟩ := hi.seen h.informs
  exact ⟨informs, hi.root ▸ h.root, h.stands.ignores hi, same ▸ h.biography⟩

/-- The body of an instance has run for the first time, or it has ended. -/
theorem settled (h : Recounts n k running e p)
    (hx : running → ∀ i, e.instances[k]? = some i → i.state.isTerminal = false → i.executed = true) :
    Recounts n k running' e p := by
  refine ⟨h.informs, h.root, ?_, h.biography⟩
  cases h.stands with
  | unborn hn ha => exact .unborn hn ha
  | dormant hn hi ht hx => exact .dormant hn hi ht hx
  | awake hn hi ht hr hc =>
    exact .awake hn hi ht (.inl (hr.elim id fun hr => hx hr _ hi ht)) hc
  | dead hn hi => exact .dead hn hi

/-- A live instance that has run is awake. -/
theorem awake (h : Recounts n k False e p) (hi : e.instances[k]? = some i)
    (ht : i.state.isTerminal = false) (hx : i.executed = true) : ∃ c, p = .awake c := by
  cases h.stands with
  | unborn _ ha => exact absurd (ha.symm.trans hi) (Option.some_ne_none i).symm
  | dormant _ hj _ hn =>
    cases hi.symm.trans hj
    rw [hx] at hn
    cases hn
  | awake => exact ⟨_, rfl⟩
  | dead _ hj =>
    rw [(hj i hi).1] at ht
    cases ht

/-- An instance that has not ended goes on. -/
theorem goesOn (h : Recounts n k running e p) (hi : e.instances[k]? = some i)
    (ht : i.state.isTerminal = false) : p.goesOn = true ∧ k.number < e.nextInstance := by
  cases h.stands with
  | unborn _ ha => exact absurd (ha.symm.trans hi) (Option.some_ne_none i).symm
  | dormant hn | awake hn => exact ⟨rfl, hn⟩
  | dead _ hj =>
    rw [(hj i hi).1] at ht
    cases ht

end Recounts

end Executor

end Workflow
