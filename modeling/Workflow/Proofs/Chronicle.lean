import Workflow.Proofs.Obituary

/-!
# What is reported while a body runs

Whatever a body asks for, only what it schedules concerns an instance as far as records tell: the child
that comes, and the parent that schedules it. So the parent has begun when that is reported, and the
child has not.
-/

namespace Workflow.Executor

variable {e e' : Executor} {X : InstanceId → Prop} {k x : InstanceId} {n : Nat}
variable {running : Prop} {i : Instance} {b : BodyKind}

/-- A request that schedules nobody concerns no instance. -/
theorem Ignores.answer (h : e.Consistent X) (hX : X x) (hl : e.isLive x = true) (q : Request b)
    (hq : q.schedules = false) : Ignores k e (e.answer x q).2 := by
  cases hh : q.usesHandle with
  | true =>
    cases q with
    | operation q =>
      have core := sameCore_answerOperation (e := e) q
      exact .of_instances (.answerOperation e q) core.root core.nextInstance core.instances
    | _ => cases hh
  | false =>
    have confined : Confined e x q (e.answer x q).2 := .answer h.placed.tree h.balanced hl q hh
    have follows : Follows e X (e.answer x q).2 := .answer h hX hl q
    have passage : Passage Nobody Nobody e [] (e.answer x q).2 := .perform (.ask q .done) h hX hl
    have alone : ∀ {r : Prop}, ¬ (q.schedules = true ∧ r) := by
      rintro r ⟨hs, -⟩
      rw [hq] at hs
      cases hs
    have silent := confined.tracking.resolve_right alone
    have next := confined.nextInstance.resolve_right alone
    refine ⟨⟨[], ⟨confined.workflow, silent⟩, by simp⟩, confined.root, Nat.le_of_eq next.symm,
      fun hn => next ▸ hn, ?_⟩
    cases hi : e.instances[k]? with
    | none =>
      cases hj : (e.answer x q).2.instances[k]? with
      | none => exact .none
      | some j => exact absurd (confined.instances.newborn hi hj) alone
    | some i =>
      obtain ⟨j, hj, state, -, -, executed⟩ := follows.extension.keeps hi
      obtain ⟨o, ho, ages⟩ := passage.old hj (h.placed.tree.below hi)
      cases hi.symm.trans ho
      rw [hj]
      exact .some ⟨executed, ages.asked, by rw [state], fun _ => state⟩

/-! ### Scheduling -/

/-- An instance that is there is reported as scheduled. -/
theorem tells_trackScheduled (hi : e.instances[k]? = some i) (parent : Option ActivityInfo) :
    ∃ a : ActivityInfo, a.id = k ∧ e.Tells [.scheduled parent a] (e.trackScheduled parent k) := by
  obtain ⟨a, ha⟩ := exists_info hi
  refine ⟨a, id_of_info ha, ?_⟩
  rw [trackScheduled, ha]
  exact e.tells_track _

/-- A child is reported with its parent when it has been adopted. -/
theorem tells_addChild (h : e.Consistent X) (hi : e.instances[x]? = some i) (node : NodeId)
    (scope : Scope) (options : ScheduleOptions) :
    ∃ parent child : ActivityInfo, parent.id = x ∧ child.id = ⟨e.nextInstance⟩ ∧
      e.Tells [.scheduled (some parent) child] (e.addChild x node scope options).2 := by
  have planted := h.placed.planted (c := e.newChild x node scope options) hi rfl
  have silent : Mum e (e.adopt x (e.newChild x node scope options)) := ⟨rfl, rfl, rfl, rfl, .inl rfl⟩
  obtain ⟨parent, known⟩ := exists_info planted.at_parent
  obtain ⟨child, hchild, told⟩ := tells_trackScheduled planted.at_child (some parent)
  refine ⟨parent, child, id_of_info known, hchild, ?_⟩
  unfold addChild
  dsimp only
  rw [known]
  exact silent.tells told

/-- An instance that is there is not the next one to come. -/
theorem Consistent.not_next (h : e.Consistent X) (hi : e.instances[x]? = some i) :
    x ≠ ⟨e.nextInstance⟩ := by
  rintro rfl
  exact absurd (h.placed.tree.below hi) (Nat.lt_irrefl _)

theorem sameCore_addChild (e : Executor) (x : InstanceId) (node : NodeId) (scope : Scope)
    (options : ScheduleOptions) : SameCore (e.adopt x (e.newChild x node scope options))
      (e.addChild x node scope options).2 :=
  sameCore_trackScheduled _ _

theorem nextInstance_addChild (e : Executor) (x : InstanceId) (node : NodeId) (scope : Scope)
    (options : ScheduleOptions) :
    (e.addChild x node scope options).2.nextInstance = e.nextInstance + 1 :=
  (sameCore_addChild e x node scope options).nextInstance

/-- A child concerns nobody but its parent and itself. -/
theorem Ignores.addChild (h : e.Consistent X) (hi : e.instances[x]? = some i) (hx : x ≠ k)
    (hk : k ≠ ⟨e.nextInstance⟩) (node : NodeId) (scope : Scope) (options : ScheduleOptions) :
    Ignores k e (e.addChild x node scope options).2 := by
  obtain ⟨parent, child, hparent, hchild, tells⟩ := tells_addChild h hi node scope options
  have core := sameCore_addChild e x node scope options
  have next := nextInstance_addChild e x node scope options
  have planted := h.placed.planted (c := e.newChild x node scope options) hi rfl
  have elder : child.id ≠ k := fun hc => hk (hc.symm.trans hchild)
  refine ⟨⟨_, tells, ?_⟩, core.root, next ▸ Nat.le_succ _, fun hn => ?_, ?_⟩
  · simp [TrackingEvent.concerns, hparent, hx, elder]
  · have apart : k.number ≠ e.nextInstance := fun hn => hk (congrArg InstanceId.mk hn)
    rw [next]
    omega
  · rw [core.instances, planted.look, if_neg hx, if_neg (Ne.symm hk)]
    exact Ignores.rel_refl _

/-- A child of which nothing was told comes up. -/
theorem Recounts.born {node : NodeId} {scope : Scope} {options : ScheduleOptions}
    (told : Recounts n k running e p) (h : e.Consistent X) (hi : e.instances[x]? = some i)
    (hk : k = ⟨e.nextInstance⟩) :
    Recounts n k running (e.addChild x node scope options).2 .dormant := by
  obtain ⟨parent, child, hparent, hchild, tells⟩ := tells_addChild h hi node scope options
  have core := sameCore_addChild e x node scope options
  have planted := h.placed.planted (c := e.newChild x node scope options) hi rfl
  have other : x ≠ k := hk ▸ h.not_next hi
  have unborn : p = .unborn := by
    cases told.stands with
    | unborn => rfl
    | dormant hn | awake hn | dead hn =>
      rw [hk] at hn
      exact absurd hn (Nat.lt_irrefl _)
  subst unborn
  have there : (e.addChild x node scope options).2.instances[k]? =
      some (e.newChild x node scope options) := by
    rw [core.instances, hk]
    exact planted.at_child
  have old : k.number < (e.addChild x node scope options).2.nextInstance := by
    rw [nextInstance_addChild, hk]
    exact Nat.lt_succ_self _
  refine told.tells tells core.root (.dormant old there rfl rfl) fun hb => ?_
  have scheduled := hb.scheduled (hchild.trans hk.symm) (hparent ▸ other)
  simpa [TrackingEvent.concerns, hchild, hk] using scheduled

/-- A parent that runs goes on after it has scheduled a child. -/
theorem Recounts.bears {node : NodeId} {scope : Scope} {options : ScheduleOptions} {c : Bool}
    (told : Recounts n x running e (.awake c)) (h : e.Consistent X)
    (hi : e.instances[x]? = some i) :
    Recounts n x running (e.addChild x node scope options).2 (.awake c) := by
  obtain ⟨parent, child, hparent, hchild, tells⟩ := tells_addChild h hi node scope options
  have core := sameCore_addChild e x node scope options
  have planted := h.placed.planted (c := e.newChild x node scope options) hi rfl
  have elder : child.id ≠ x := hchild ▸ (h.not_next hi).symm
  have stands : Standing x running (e.addChild x node scope options).2 (.awake c) := by
    cases told.stands with
    | awake hn hj ht hr hc =>
      cases hi.symm.trans hj
      have there := planted.at_parent
      rw [← core.instances] at there
      refine .awake ?_ there ht hr hc
      rw [nextInstance_addChild]
      exact Nat.lt_succ_of_lt hn
  refine told.tells tells core.root stands fun hb => ?_
  have scheduled := hb.schedules hparent elder
  simpa [TrackingEvent.concerns, hparent] using scheduled

/-- An instance whose body is called has been told of as one that is awake. -/
def Ready (n : Nat) (k : InstanceId) (running : Prop) (x : InstanceId)
    (e : Executor) : Prop :=
  ∃ p, Recounts n k running e p ∧ (x = k → ∃ c, p = .awake c)

namespace Ready

theorem recounted (h : Ready n k running x e) : Recounted n k running e := by
  obtain ⟨p, told, -⟩ := h
  exact ⟨p, told⟩

theorem ignores (h : Ready n k running x e) (hi : Ignores k e e') :
    Ready n k running x e' := by
  obtain ⟨p, told, awake⟩ := h
  exact ⟨p, told.ignores hi, awake⟩

/-- An instance that schedules a child. -/
theorem scheduleChild (hr : Ready n k running x e) (h : e.Consistent X) (node : NodeId)
    (options : ScheduleOptions) : Ready n k running x (e.scheduleChild x node options).2 := by
  unfold Executor.scheduleChild
  split
  · exact hr
  · next j scope hs =>
    obtain ⟨hi, -⟩ := checkSchedule_ok hs
    obtain ⟨p, told, awake⟩ := hr
    by_cases hk : k = ⟨e.nextInstance⟩
    · exact ⟨.dormant, told.born h hi hk, fun hx => absurd (hx.trans hk) (h.not_next hi)⟩
    · by_cases hx : x = k
      · subst hx
        obtain ⟨c, rfl⟩ := awake rfl
        exact ⟨.awake c, told.bears h hi, fun _ => ⟨c, rfl⟩⟩
      · exact ⟨p, told.ignores (.addChild h hi hx hk node scope options), fun hx' => absurd hx' hx⟩

/-- Whatever a body asks for. -/
theorem answer (hr : Ready n k running x e) (h : e.Consistent X) (hX : X x)
    (hl : e.isLive x = true) (q : Request b) : Ready n k running x (e.answer x q).2 := by
  cases hq : q.schedules with
  | false => exact hr.ignores (.answer h hX hl q hq)
  | true =>
    cases q with
    | scheduling q =>
      cases q with
      | schedule node options => exact hr.scheduleChild h node options
      | _ => cases hq
    | _ => cases hq

/-- A program that is performed for a live instance. -/
theorem perform {α : Type} (program : Program b α) (hr : Ready n k running x e)
    (h : e.Consistent X) (hX : X x) (hl : e.isLive x = true) :
    Ready n k running x (e.perform x program).2 := by
  induction program generalizing e with
  | done a => exact hr
  | crash c => exact hr
  | ask q next ih =>
    have follows : Follows e X (e.answer x q).2 := .answer h hX hl q
    exact ih _ (hr.answer h hX hl q) follows.consistent (follows.extension.isLive hl)

/-- A callback goes on from before, or it ends in a fault. -/
theorem invoke {α : Type} (hr : Ready n k running x e) (h : e.Consistent X) (hX : X x)
    (hl : e.isLive x = true) (callback : Callback) (program : Program b α) :
    (∃ a e', e.invoke x callback program = (some a, e') ∧ Ready n k running x e') ∨
      ∃ e', e.invoke x callback program = (none, e') ∧ Recounted n k running e' := by
  unfold Executor.invoke
  dsimp only
  have logged : Follows e X (e.log (.call x (e.nodeOf x).body.label callback)) :=
    .of_sameCore h (sameCore_log _)
  have ready : Ready n k running x (e.log (.call x (e.nodeOf x).body.label callback)) :=
    hr.ignores (.log _)
  have performed := ready.perform program logged.consistent hX (logged.extension.isLive hl)
  generalize Executor.perform _ x program = result at performed ⊢
  obtain ⟨crash | a, e'⟩ := result
  · exact .inr ⟨_, rfl, performed.recounted.raise x _⟩
  · exact .inl ⟨a, e', rfl, performed⟩

/-- A callback after which the instance may complete. -/
theorem callBack (hr : Ready n k running x e) (h : e.Consistent X) (hX : X x)
    (hl : e.isLive x = true) (callback : Callback) (program : Program .native Unit) :
    Recounted n k running (e.callBack x callback program) := by
  unfold Executor.callBack
  obtain ⟨a, e', he, ready⟩ | ⟨e', he, told⟩ := hr.invoke h hX hl callback program
  · rw [he]
    exact ready.recounted.tryComplete x
  · rw [he]
    exact told

/-- The body of an instance that is run for the first time. -/
theorem runBody (hr : Ready n k running x e) (h : e.Consistent (· = x))
    (hl : e.isLive x = true) {body : Behaviour} (hb : e.behaviour? x = some body) :
    (∃ e', e.runBody x body = (true, e') ∧ Ready n k running x e') ∨
      ∃ e', e.runBody x body = (false, e') ∧ Recounted n k running e' := by
  unfold Executor.runBody
  cases body with
  | code program =>
    dsimp only
    obtain ⟨a, e', he, ready⟩ | ⟨e', he, told⟩ := hr.invoke h rfl hl .execute program
    · rw [he]
      exact .inl ⟨_, rfl, ready.ignores (.recordResult a)⟩
    · rw [he]
      exact .inr ⟨_, rfl, told⟩
  | native body =>
    dsimp only
    obtain ⟨a, e', he, ready⟩ | ⟨e', he, told⟩ := hr.invoke h rfl hl .execute body.execute
    · rw [he]
      exact .inl ⟨_, rfl, ready⟩
    · rw [he]
      exact .inr ⟨_, rfl, told⟩
  | async body =>
    dsimp only
    have hk : (e.nodeOf x).body.kind = .async := by
      rw [Body.kind, behaviour_eq hb]
      rfl
    have begun : Follows e (· = x) (e.beginOperation x).2 := .beginOperation h rfl hl hk
    have ready : Ready n k running x (e.beginOperation x).2 := hr.ignores .beginOperation
    obtain ⟨a, e', he, ready⟩ | ⟨e', he, told⟩ := ready.invoke begun.consistent rfl
      (begun.extension.isLive hl) (.start (e.beginOperation x).1) (body.start (e.beginOperation x).1)
    · rw [he]
      exact .inl ⟨_, rfl, ready⟩
    · rw [he]
      exact .inr ⟨_, rfl, told⟩

/-- The body of an instance that is asked to cancel. -/
theorem runCancel (hr : Ready n k running x e) (h : e.Consistent (· = x))
    (hl : e.isLive x = true) (body : Behaviour) :
    Recounted n k running (e.runCancel x body).2 := by
  unfold Executor.runCancel
  cases body with
  | code program => exact hr.recounted
  | native body =>
    dsimp only
    obtain ⟨a, e', he, ready⟩ | ⟨e', he, told⟩ := hr.invoke h rfl hl .cancel body.cancel
    · rw [he]
      exact ready.recounted
    · rw [he]
      exact told
  | async body =>
    dsimp only
    obtain ⟨a, e', he, ready⟩ | ⟨e', he, told⟩ := hr.invoke h rfl hl .cancel body.cancel
    · rw [he]
      dsimp only
      split
      · exact ready.recounted.ignores .abandonOperations
      · exact ready.recounted
    · rw [he]
      exact told

end Ready

end Workflow.Executor
