import Workflow.Proofs.RecordNumbers
import Workflow.Proofs.WorkRecords

/-!
# The records about an activity

Over a whole run a participant that keeps every record is told of each instance that is scheduled: first
of its scheduling, then that its body runs, then of its work, and last of its end. The end has been told
whenever the instance has ended or was torn down, and nothing of the kind follows.
-/

namespace Workflow

/-- Whether an operation may do work on a workflow or tear it down. -/
def HostOperation.acts : HostOperation → Bool
  | call (.run _) => true
  | call .runOneStep => true
  | call .cancel => true
  | call (.terminate _) => true
  | call (.abort _) => true
  | _ => false

namespace Executor

variable {e e' m : Executor} {k x : InstanceId} {n : Nat} {p : Phase} {running : Prop}
variable {op : HostOperation}

/-! ### What concerns no instance that is scheduled -/

namespace Ignores

theorem withState (s : WorkflowState) : Ignores k e { e with state := s } :=
  ⟨⟨[], ⟨rfl, rfl⟩, by simp⟩, rfl, Nat.le_refl _, id, rel_refl _⟩

theorem trackScheduled (hx : x ≠ k) : Ignores k e (e.trackScheduled none x) := by
  unfold Executor.trackScheduled
  split
  · next hi => exact .track (by simp [TrackingEvent.concerns, id_of_info hi, hx])
  · exact .refl e

/-- The announcement of a workflow concerns its root. -/
theorem announce (hr : e.root ≠ k) : Ignores k e e.announce := by
  unfold Executor.announce
  split
  · exact .refl e
  · next event _ =>
    have opened : Ignores k e ({ e with announcement := none }.trackLifecycle event) :=
      ⟨⟨[.lifecycle event], ⟨rfl, rfl⟩, by simp [TrackingEvent.concerns]⟩, rfl, Nat.le_refl _, id,
        rel_refl _⟩
    dsimp only
    split
    · exact opened.trans (.trackScheduled hr)
    · exact opened

theorem resumeBookmark (b : Bookmark) (v : Value) (q : Priority) :
    Ignores k e (e.resumeBookmark b v q).2 := by
  obtain ⟨root, next, same⟩ : (e.resumeBookmark b v q).2.root = e.root ∧
      (e.resumeBookmark b v q).2.nextInstance = e.nextInstance ∧
        (e.resumeBookmark b v q).2.instances = e.instances := by
    unfold Executor.resumeBookmark
    split
    · exact ⟨rfl, rfl, rfl⟩
    · split <;> exact ⟨rfl, rfl, rfl⟩
  exact .of_instances (.resumeBookmark e b v q) root next same

theorem save (store : Store) (s : Surroundings) (owner : OwnerId) (unlock : Bool) :
    Ignores k e (e.save store s owner unlock).2.1 := by
  have core := sameCore_save (e := e) store s owner unlock
  obtain ⟨xs, tells, aside⟩ : ∃ xs, e.Tells xs (e.save store s owner unlock).2.1 ∧
      ∀ y ∈ xs, TrackingEvent.concerns k y = false := by
    unfold Executor.save
    split
    · exact ⟨[], ⟨rfl, rfl⟩, by simp⟩
    · dsimp only
      split
      · exact ⟨[], ⟨rfl, rfl⟩, by simp⟩
      · cases unlock with
        | true =>
          exact ⟨[.lifecycle .persisted, .lifecycle .unloaded], ⟨rfl, rfl⟩,
            by simp [TrackingEvent.concerns]⟩
        | false => exact ⟨[.lifecycle .persisted], ⟨rfl, rfl⟩, by simp [TrackingEvent.concerns]⟩
  exact .of_tells core tells aside

/-- An operation that does no work. -/
theorem after (hl : op.leavesRecords = true) (hq : op.acts = false) : Ignores k e (op.after e) := by
  cases op with
  | capture now => exact .refl e
  | save store s owner unlock => exact .save store s owner unlock
  | call c =>
    cases c with
    | resumeBookmark b v q => exact .resumeBookmark b v q
    | complete o result =>
      have core := sameCore_completeHandle (e := e) (e.handleOf o) result
      exact .of_instances (.completeHandle e _ result) core.root core.nextInstance core.instances
    | drainInbox => exact .of_instances (.drainInbox e) rfl rfl rfl
    | listBookmarks => exact .refl e
    | track _ | withTracking _ => exact absurd hl Bool.false_ne_true
    | run _ | runOneStep | cancel | terminate _ | abort _ => exact absurd hq.symm Bool.false_ne_true
    | _ => exact .of_instances ⟨rfl, rfl, rfl, rfl, .inl rfl⟩ rfl rfl rfl

end Ignores

/-! ### Calls of the host -/

namespace Recounted

theorem announce (h : Recounted n k running e) : Recounted n k running e.announce := by
  obtain ⟨p, told⟩ := h
  exact ⟨p, told.ignores (.announce told.root)⟩

/-- Items are done one after the other. -/
theorem drainQueue {limit : Nat} (h : Recounted n k False e) (hp : e.Proper)
    (hd : Executor.drainQueue limit e = some e') : Recounted n k False e' :=
  (drainQueue_keeps (P := fun m => m.Proper ∧ Recounted n k False m) ⟨hp, h⟩
    (fun ⟨hm, told⟩ ho hst => ⟨hm.regular.step ho hm.not_aborted hst,
      told.step hm.regular ho hm.not_aborted hst⟩) hd).1.2

theorem run (h : Recounted n k False e) (hr : e.Regular) (limit : Nat) :
    Recounted n k False (e.run limit).2 := by
  have announced := h.announce
  have ran := e.ran limit
  generalize e.run limit = r at ran ⊢
  cases ran with
  | refused _ => exact h
  | ended _ _ | unsettled _ _ _ => exact announced
  | settled ha ho hd hs =>
    have drained := (announced.ignores (.withState .runnable)).drainQueue (.inl (hr.enter ho ha)) hd
    have settled := drained.ignores .settle
    rw [hs] at settled
    exact settled

theorem runOneStep (h : Recounted n k False e) (hr : e.Regular) :
    Recounted n k False e.runOneStep.2 := by
  have announced := h.announce
  have regular : e.announce.Regular := sameCore_announce.regular hr
  have ran := e.ranOnce
  generalize e.runOneStep = r at ran ⊢
  cases ran with
  | refused _ => exact h
  | ended _ _ => exact announced
  | unemployed _ _ _ => exact announced.ignores .settle
  | settled ha ho hs _ => exact (announced.step regular ho ha hs).ignores .settle
  | working ha ho hs _ _ => exact (announced.step regular ho ha hs).ignores (.withState .runnable)
  | completed ha ho hs _ _ => exact announced.step regular ho ha hs

/-- A workflow is canceled later, or at once if its root has not run. -/
theorem cancelWorkflow (h : Recounted n k running e) : Recounted n k running e.cancelWorkflow.2 := by
  unfold Executor.cancelWorkflow
  split
  · exact h
  · split
    · exact h.ignores ((Ignores.enqueue _).trans (.withState _))
    · next hx =>
      have announced := h.announce
      have core := sameCore_announce (e := e)
      unfold Executor.cancelInstance
      dsimp only
      split
      · next i _ hi _ =>
        have hi : e.announce.instances[e.root]? = some i := hi
        rw [instance?, ← core.instances, hi] at hx
        split
        · exact announced
        · next hn =>
          have unexecuted : (!i.executed) = true := by simpa using hx
          rw [not_or] at hn
          rw [if_pos unexecuted]
          exact announced.cancelUnexecuted hi (by simpa using hn.1)
      · exact announced

theorem terminate (h : Recounted n k running e) (reason : String) :
    Recounted n k running (e.terminate reason).2 := by
  unfold Executor.terminate
  split
  · exact h
  · exact h.faultInstance e.root _

end Recounted

/-! ### Workflows that were torn down -/

/-- What a participant has been told of an instance before its workflow was torn down. -/
structure Remembered (n : Nat) (k : InstanceId) (e : Executor) (p : Phase) : Prop where
  torn : e.state = .aborted
  informs : e.Informs n
  /-- Only of an instance that was still to come nothing has been told. -/
  told : p = .unborn → e.nextInstance ≤ k.number
  biography : Biography k ((e.seenBy n).filter (TrackingEvent.concerns k)) p

/-- What a participant has been told of an instance is right, and the workflow goes on or was torn
down. -/
def Accounted (n : Nat) (k : InstanceId) (e : Executor) : Prop :=
  Recounted n k False e ∨ ∃ p, Remembered n k e p

namespace Accounted

theorem recounted (h : Accounted n k e) (ha : e.state ≠ .aborted) : Recounted n k False e :=
  h.resolve_right fun ⟨_, remembered⟩ => ha remembered.torn

theorem ignores (h : Accounted n k e) (hi : Ignores k e e')
    (ha : e.state = .aborted → e'.state = .aborted) : Accounted n k e' := by
  rcases h with told | ⟨p, remembered⟩
  · exact .inl (told.ignores hi)
  · obtain ⟨informs, same⟩ := hi.seen remembered.informs
    exact .inr ⟨p, ha remembered.torn, informs, fun hp => hi.fresh (remembered.told hp),
      same ▸ remembered.biography⟩

end Accounted

/-- A workflow is torn down, which concerns no instance as far as records tell. -/
theorem Recounted.abort (h : Recounted n k False e) (reason : String) :
    Accounted n k (e.abort reason) := by
  unfold Executor.abort
  split
  · exact .inl h
  · obtain ⟨p, told⟩ := h
    have hooks := Mum.foldl (fun m k => Mum.callAbortHook m k
      (.aborted reason e.root .root e.definition.root.name))
      ((e.instances.values.filter fun i => !i.state.isTerminal).map (·.id)).reverse e
    have core := sameCore_callAbortHooks (e := e)
      (.aborted reason e.root .root e.definition.root.name)
      ((e.instances.values.filter fun i => !i.state.isTerminal).map (·.id)).reverse
    dsimp only
    generalize List.foldl _ e _ = m at hooks core ⊢
    have last : m.Tells [.lifecycle .aborted] ({ m with
        queue := m.queue.clear, bookmarks := {}, operations := ∅, instances := ∅
        state := .aborted }.trackLifecycle .aborted) := ⟨rfl, rfl⟩
    obtain ⟨informs, seen⟩ := told.informs.tells (hooks.tells last)
    refine .inr ⟨p, rfl, informs, fun hp => ?_, ?_⟩
    · subst hp
      cases told.stands with
      | unborn hn => exact core.nextInstance ▸ hn
    · rw [seen, List.filter_append]
      simpa [TrackingEvent.concerns] using told.biography

/-- What comes back from an image is what it was. -/
theorem Regular.persists {s : Snapshot} {d : Definition} {now : Timestamp} {mailbox : Nat}
    (h : e.Regular) (hc : e.capture now = .ok s) (hs : s.restore d mailbox = .ok m) :
    m.root = e.root ∧ m.nextInstance = e.nextInstance ∧
      Option.Rel Instance.Persists e.instances[k]? m.instances[k]? := by
  obtain ⟨u, back, -, rfl⟩ := h.of_restore hc hs
  obtain ⟨same, root, -, next, -⟩ := finishWorkflow_keeps (e := e.returned d u mailbox)
  have kept : ∀ b : Bool, ∃ r : Executor, r = (if b = true then
      (e.returned d u mailbox).finishWorkflow else e.returned d u mailbox) ∧
        r.root = e.root ∧ r.nextInstance = e.nextInstance ∧ r.instances = u := by
    intro b
    refine ⟨_, rfl, ?_⟩
    split
    · exact ⟨root, next, same⟩
    · exact ⟨rfl, rfl, rfl⟩
  obtain ⟨r, hr, root, next, same⟩ := kept e.state.isCompleted
  rw [← hr]
  refine ⟨root, next, ?_⟩
  dsimp only
  rw [same]
  cases hi : e.instances[k]? with
  | some i =>
    obtain ⟨node, fault, hj⟩ := back.exists_of_lookup hi
    rw [hj]
    exact .some {}
  | none =>
    cases hj : u[k]? with
    | none => exact .none
    | some j =>
      obtain ⟨i, hi', -⟩ := back.back hj
      exact absurd (hi.symm.trans hi') (Option.some_ne_none i).symm

/-- Participants that are handed on keep what they have been told. -/
theorem Informs.handedOn {t : TrackingProvider} (h : e.Informs n) (ht : t.isActive = true)
    (hp : t.participants = e.tracking.participants) :
    (m.withTracking t).Informs n ∧ (m.withTracking t).seenBy n = e.seenBy n := by
  obtain ⟨-, q, hq, keeps⟩ := h
  refine ⟨⟨ht, q, ?_, keeps⟩, ?_⟩
  · rw [withTracking, hp]
    exact hq
  · rw [seenBy, seenBy, withTracking, hp]

/-- A workflow comes back from an image, and what has been told of it stays right. -/
theorem Accounted.restored {s : Snapshot} {d : Definition} {now : Timestamp} {mailbox : Nat}
    {t : TrackingProvider} (h : Accounted n k e) (hr : e.Regular) (hc : e.capture now = .ok s)
    (hs : s.restore d mailbox = .ok m) (ht : t.isActive = true)
    (hp : t.participants = e.tracking.participants) : Accounted n k (m.withTracking t) := by
  have present : e.state ≠ .aborted := by
    rcases (hr.of_capture hc).1 with resting | finished
    · rw [resting.state]
      exact WorkflowState.noConfusion
    · exact finished.state_ne rfl
  obtain ⟨p, told⟩ := h.recounted present
  obtain ⟨root, next, there⟩ := hr.persists (k := k) hc hs
  obtain ⟨informs, seen⟩ := told.informs.handedOn (m := m) ht hp
  have stands : Standing k False (m.withTracking t) p :=
    told.stands.persists (Nat.le_of_eq next.symm) (fun hn => next ▸ hn) there
  exact .inl ⟨p, informs, root ▸ told.root, stands, seen ▸ told.biography⟩

/-- An operation on a workflow that was torn down does nothing if it would do work otherwise. -/
theorem after_of_aborted (ha : e.state = .aborted) (hq : op.acts = true) : op.after e = e := by
  have final : e.state.isFinal = true := by rw [ha]; rfl
  cases op with
  | capture now => exact absurd hq Bool.false_ne_true
  | save store s owner unlock => exact absurd hq Bool.false_ne_true
  | call c =>
    cases c with
    | run limit => exact congrArg Prod.snd (run_of_aborted ha limit)
    | runOneStep => exact congrArg Prod.snd (runOneStep_of_aborted ha)
    | cancel => exact cancelWorkflow_of_final final
    | terminate reason => exact terminate_of_final final reason
    | abort reason => exact if_pos ha
    | _ => exact absurd hq Bool.false_ne_true

/-- Whatever a host does with a workflow. -/
theorem Accounted.after (h : Accounted n k e) (hr : e.Regular) (hl : op.leavesRecords = true) :
    Accounted n k (op.after e) := by
  cases hq : op.acts with
  | false =>
    refine h.ignores (.after hl hq) fun ha => ?_
    rw [(hr.after_keeps (by rw [ha]; rfl) op).2, ha, ite_self]
  | true =>
    rcases h with told | ⟨p, remembered⟩
    · cases op with
      | capture now => exact .inl told
      | save store s owner unlock => exact absurd hq Bool.false_ne_true
      | call c =>
        cases c with
        | run limit => exact .inl (told.run hr limit)
        | runOneStep => exact .inl (told.runOneStep hr)
        | cancel => exact .inl told.cancelWorkflow
        | terminate reason => exact .inl (told.terminate reason)
        | abort reason => exact told.abort reason
        | _ => exact absurd hq Bool.false_ne_true
    · rw [after_of_aborted remembered.torn hq]
      exact .inr ⟨p, remembered⟩

/-! ### Whole runs -/

/-- What becomes of a workflow while the receivers of its records stay the same. -/
inductive Continues (e : Executor) : Executor → Prop
  | refl : Continues e e
  /-- The host has done something with it. -/
  | done {m : Executor} (h : Continues e m) (op : HostOperation) (hl : op.leavesRecords = true) :
      Continues e (op.after m)
  /-- A run has begun and done no work yet. -/
  | entered {m : Executor} (h : Continues e m) (ho : m.outcome = none) (ha : m.state ≠ .aborted) :
      Continues e { m.announce with state := .runnable }
  /-- A run has done one more item. -/
  | stepped {m e' : Executor} (h : Continues e m) (ho : m.outcome = none) (ha : m.state ≠ .aborted)
      (hs : m.step? = some e') : Continues e e'
  /-- The host has created scopes elsewhere, or an application now hosts the workflow. -/
  | hosted {m : Executor} (h : Continues e m) {n : Nat} (hn : m.scopeCount ≤ n) (isHosted : Bool) :
      Continues e { m with scopeCount := n, isHosted }
  /-- Bodies that keep a state of their own have changed it. -/
  | altered {m : Executor} {d : Definition} (h : Continues e m) (ha : m.definition.Alike d) :
      Continues e { m with definition := d }
  /-- The workflow has been restored from its image for the same receivers, still in use. -/
  | restored {m r : Executor} {now : Timestamp} {s : Snapshot} {a : Activity} {mailbox : Nat}
      {t : TrackingProvider} (h : Continues e m) (hc : m.capture now = .ok s)
      (hr : s.restore a.prepare mailbox = .ok r) (ht : t.isActive = true)
      (hp : t.participants = m.tracking.participants) : Continues e (r.withTracking t)

namespace Continues

theorem regular (h : Continues e e') (hr : e.Regular) : e'.Regular := by
  induction h with
  | refl => exact hr
  | done _ op _ ih => exact ih.after op
  | entered _ ho ha ih =>
    exact .working (ih.enter (sameCore_announce.outcome.trans ho) (sameCore_announce.state.symm ▸ ha))
  | stepped _ ho ha hs ih => exact (ih.step ho ha hs).regular
  | @hosted m _ _ _ _ ih => exact SameCore.regular (e := m) {} ih
  | altered _ ha ih => exact ih.alike ha
  | restored _ hc hs _ _ ih =>
    exact (ih.restore hc (Activity.prepare_wellFormed _) hs).serve (.withTracking _)

/-- What a participant is told of an instance stays right. -/
theorem accounted (h : Continues e e') (hr : e.Regular) (ha : Accounted n k e) :
    Accounted n k e' := by
  induction h with
  | refl => exact ha
  | done h op hl ih => exact ih.after (h.regular hr) hl
  | entered _ _ hn ih =>
    exact .inl ((ih.recounted hn).announce.ignores (.withState .runnable))
  | stepped h ho hn hs ih => exact .inl ((ih.recounted hn).step (h.regular hr) ho hn hs)
  | hosted _ _ _ ih =>
    exact ih.ignores (.of_instances ⟨rfl, rfl, rfl, rfl, .inl rfl⟩ rfl rfl rfl) id
  | altered _ _ ih =>
    exact ih.ignores (.of_instances ⟨rfl, rfl, rfl, rfl, .inl rfl⟩ rfl rfl rfl) id
  | restored h hc hs ht hp ih => exact ih.restored (h.regular hr) hc hs ht hp

/-- What was told stays told. -/
theorem seen (h : Continues e e') (hn : e.Informs n) :
    e'.Informs n ∧ ∃ xs, e'.seenBy n = e.seenBy n ++ xs := by
  have told : ∀ {m e' : Executor}, (m.Informs n ∧ ∃ xs, m.seenBy n = e.seenBy n ++ xs) →
      (∃ ys, m.Tells ys e') → e'.Informs n ∧ ∃ xs, e'.seenBy n = e.seenBy n ++ xs := by
    rintro m e' ⟨informs, xs, seen⟩ ⟨ys, tells⟩
    obtain ⟨informs', more⟩ := informs.tells tells
    exact ⟨informs', xs ++ ys, by rw [more, seen, List.append_assoc]⟩
  induction h with
  | refl => exact ⟨hn, [], (List.append_nil _).symm⟩
  | done _ op hl ih => exact told ih (op.tells _ hl)
  | @entered m _ _ _ ih =>
    obtain ⟨⟨ys, announced⟩, -⟩ := m.announce_moves (p := False)
    exact told ih ⟨ys, announced.tells.workflow, announced.tells.tracking⟩
  | stepped _ _ _ hs ih => exact told ih (HostOperation.tells_of_effect (Effect.step hs))
  | hosted _ _ _ ih | altered _ _ ih => exact told ih ⟨[], rfl, rfl⟩
  | restored _ _ _ ht hp ih =>
    obtain ⟨informs, xs, seen⟩ := ih
    obtain ⟨informs', same⟩ := informs.handedOn ht hp
    exact ⟨informs', xs, same.trans seen⟩

end Continues

/-- When records begin to be kept nothing has been told of an instance that is still to come. -/
theorem Regular.accounted (h : e.Regular) {t : TrackingProvider} (ht : t.isActive = true)
    (hn : t.participants[n]? = some ⟨.keep, []⟩) (hk : e.nextInstance ≤ k.number) :
    Accounted n k (e.withTracking t) := by
  have informs : (e.withTracking t).Informs n := ⟨ht, _, hn, rfl⟩
  have untold : Biography k (((e.withTracking t).seenBy n).filter (TrackingEvent.concerns k))
      .unborn := by
    rw [seenBy, withTracking, hn]
    exact .nil
  by_cases ha : e.state = .aborted
  · exact .inr ⟨.unborn, ha, informs, fun _ => hk, untold⟩
  · have tree := h.tree ha
    obtain ⟨r, hr, -⟩ := tree.rooted
    have root : e.root ≠ k := by
      rintro rfl
      exact absurd (tree.below hr) (Nat.not_lt.mpr hk)
    have absent : e.instances[k]? = none := by
      rw [Option.eq_none_iff_forall_ne_some]
      intro i hi
      exact absurd (tree.below hi) (Nat.not_lt.mpr hk)
    exact .inl ⟨.unborn, informs, root, .unborn hk absent, untold⟩

/-! ### What has been told in the end -/

namespace Accounted

theorem informs (h : Accounted n k e) : e.Informs n := by
  rcases h with ⟨_, told⟩ | ⟨_, remembered⟩
  · exact told.informs
  · exact remembered.informs

/-- How far the records about an instance have come when it has been scheduled: they have come to its
end if it has ended or is gone, unless the workflow was torn down. -/
theorem phase (h : Accounted n k e) (hr : e.Regular) (hk : k.number < e.nextInstance) :
    ∃ p, p ≠ .unborn ∧ Biography k ((e.seenBy n).filter (TrackingEvent.concerns k)) p ∧
      (∀ i, e.instances[k]? = some i → (i.state.isTerminal = false → p.goesOn = true) ∧
        (i.state.isTerminal = true → p = .dead i.state)) ∧
      (e.state ≠ .aborted → (∀ i, e.instances[k]? = some i → i.state.isTerminal = true) →
        ∃ s, p = .dead s) := by
  rcases h with ⟨p, told⟩ | ⟨p, remembered⟩
  · refine ⟨p, ?_, told.biography, fun i hi => ⟨fun ht => (told.goesOn hi ht).1, fun ht => ?_⟩,
      fun _ ended => ?_⟩
    · rintro rfl
      cases told.stands with
      | unborn hn => exact absurd hk (Nat.not_lt.mpr hn)
    · cases told.stands with
      | unborn hn => exact absurd hk (Nat.not_lt.mpr hn)
      | dormant _ hj hn | awake _ hj hn =>
        cases hi.symm.trans hj
        exact absurd (hn.symm.trans ht) Bool.false_ne_true
      | dead _ hj => exact congrArg Phase.dead (hj i hi).2.symm
    · cases told.stands with
      | unborn hn => exact absurd hk (Nat.not_lt.mpr hn)
      | dormant _ hj hn | awake _ hj hn => exact absurd (hn.symm.trans (ended _ hj)) Bool.false_ne_true
      | dead => exact ⟨_, rfl⟩
  · have gone : ∀ i, e.instances[k]? ≠ some i := by
      intro i hi
      rcases hr.final_cases (by rw [remembered.torn]; rfl) with finished | aborted
      · exact finished.state_ne rfl remembered.torn
      · rw [aborted.instances] at hi
        simp at hi
    refine ⟨p, fun hp => ?_, remembered.biography, fun i hi => absurd hi (gone i),
      fun ha => absurd remembered.torn ha⟩
    exact absurd hk (Nat.not_lt.mpr (remembered.told hp))

end Accounted

/-- Whatever a host and its bodies do, of every instance that is scheduled while a participant keeps
the records it is told in turn. The end of the instance has been reported if it has ended or is gone,
unless its workflow was torn down, and it stays reported. -/
theorem Reachable.records_in_turn (h : e.Reachable) {t : TrackingProvider} (ht : t.isActive = true)
    (hn : t.participants[n]? = some ⟨.keep, []⟩) (hc : Continues (e.withTracking t) e')
    (hk : e.nextInstance ≤ k.number) (hs : k.number < e'.nextInstance) :
    ∃ parent child start work finish,
      (e'.seenBy n).filter (TrackingEvent.concerns k) =
        .scheduled (some parent) child :: (start ++ work ++ finish) ∧
      InTurn k parent child start work finish ∧
      (∀ i, e'.instances[k]? = some i → i.state.isTerminal = false → finish = []) ∧
      (∀ i, e'.instances[k]? = some i → i.state.isTerminal = true →
        ∃ a, finish = [.stateChanged a i.state]) ∧
      (∀ m, Continues (e.withTracking t) m → Continues m e' → m.state ≠ .aborted →
        k.number < m.nextInstance → (∀ i, m.instances[k]? = some i → i.state.isTerminal = true) →
          finish ≠ []) := by
  have regular : (e.withTracking t).Regular := h.regular.serve (.withTracking t)
  have begun : Accounted n k (e.withTracking t) := h.regular.accounted ht hn hk
  obtain ⟨p, born, biography, there, -⟩ := (hc.accounted regular begun).phase (hc.regular regular) hs
  obtain ⟨parent, child, start, work, finish, seen, turn, told⟩ := biography.inTurn born
  refine ⟨parent, child, start, work, finish, seen, turn, fun i hi hl => ?_, fun i hi hl => ?_,
    fun m hm hme ha hkm ended => ?_⟩
  · exact told.unfinished ((there i hi).1 hl)
  · rw [(there i hi).2 hl] at told
    exact told
  · have before := hm.accounted regular begun
    obtain ⟨q, born', biography', -, dead⟩ := before.phase (hm.regular regular) hkm
    obtain ⟨s, rfl⟩ := dead ha ended
    obtain ⟨_, _, _, _, _, seen', -, a, rfl⟩ := biography'.inTurn born'
    obtain ⟨-, xs, grown⟩ := hme.seen before.informs
    refine turn.finished_of_mem (a := a) (s := s) ?_ biography'.terminal
    rw [← seen, grown, List.filter_append, seen']
    simp

/-- A workflow with an activity that waits, before it runs. -/
def attended : Executor :=
  begun (.parallel [.waitAt "stay"])

/-- The workflow has been run, canceled and run again. -/
def withdrawn : Executor :=
  HostOperation.afterAll (attended.withTracking keeper) [.call (.run 5), .call .cancel, .call (.run 5)]

/-- An activity that waits when its workflow is canceled has been reported to begin and to end. -/
theorem records_in_turn_withdrawn : attended.nextInstance ≤ 2 ∧ 2 < withdrawn.nextInstance ∧
    ∃ parent child start work finish,
      (withdrawn.seenBy 0).filter (TrackingEvent.concerns ⟨2⟩) =
        .scheduled (some parent) child :: (start ++ work ++ finish) ∧
      InTurn ⟨2⟩ parent child start work finish ∧ finish ≠ [] := by
  have reachable : attended.Reachable := .begun rfl rfl
  have course : Continues (attended.withTracking keeper) withdrawn := by
    have ran := (Continues.refl (e := attended.withTracking keeper)).done (.call (.run 5)) rfl
    have canceled := ran.done (.call .cancel) rfl
    exact canceled.done (.call (.run 5)) rfl
  have later : attended.nextInstance ≤ 2 := by decide +kernel
  have scheduled : 2 < withdrawn.nextInstance := by decide +kernel
  have present : withdrawn.state ≠ .aborted := by decide +kernel
  have gone : withdrawn.instances[(⟨2⟩ : InstanceId)]?.isNone = true := by decide +kernel
  obtain ⟨parent, child, start, work, finish, seen, turn, -, -, ended⟩ :=
    reachable.records_in_turn (t := keeper) rfl (n := 0) rfl course (k := ⟨2⟩) later scheduled
  exact ⟨later, scheduled, parent, child, start, work, finish, seen, turn,
    ended withdrawn course .refl present scheduled (forall_of_isNone gone)⟩

end Executor

end Workflow
