import Workflow.Proofs.Exchange
import Workflow.Proofs.Reloading

/-!
# Bindings at run time

A definition without errors binds arguments to names that are seen. So in every run of it, however its
host and its bodies act, arguments are taken from and copied to locations that are there.
-/

namespace Workflow

namespace Executor

variable {e e' : Executor} {x k : InstanceId}

namespace Flows

/-! ### Runs -/

/-- One item of work. -/
theorem step (h : e.Regular) (hb : e.Bound) (ho : e.outcome = none) (ha : e.state ≠ .aborted)
    (hs : e.step? = some e') : Flows e e' := by
  rw [step?_eq, Option.map_eq_some_iff] at hs
  obtain ⟨⟨w, q⟩, hq, rfl⟩ := hs
  have hw := WorkQueue.work_of_pop? hq
  have drained : Flows e e.drainInbox.2 := .keeps (.of_instances rfl rfl rfl)
  have hc := h.drained ho ha (by rw [hw]; exact List.cons_ne_nil w _)
  exact drained.trans (.dispatch hc (drained.bound hb) hw)

/-- Items are done one after the other. -/
theorem drainQueue {limit : Nat} (h : e.Proper) (hb : e.Bound)
    (hs : Executor.drainQueue limit e = some e') : Flows e e' := by
  obtain ⟨⟨-, flows⟩, -⟩ := drainQueue_keeps (P := fun m => m.Proper ∧ Flows e m) ⟨h, .refl e⟩
    (fun ⟨hm, flows⟩ ho hst => ⟨hm.regular.step ho hm.not_aborted hst,
      flows.trans (.step hm.regular (flows.bound hb) ho hm.not_aborted hst)⟩) hs
  exact flows

theorem settle : Flows e e.settle.2 := by
  unfold Executor.settle
  split
  · exact .refl e
  · split
    · exact .refl e
    · exact .keeps (.of_instances rfl rfl rfl)

theorem announce : Flows e e.announce :=
  .of_sameCore sameCore_announce

/-- A run begins. -/
theorem enter : Flows e { e.announce with state := .runnable } :=
  announce.keep (.of_instances rfl rfl rfl)

theorem run (h : e.Regular) (hb : e.Bound) (limit : Nat) : Flows e (e.run limit).2 := by
  have ran := e.ran limit
  generalize e.run limit = r at ran ⊢
  cases ran with
  | refused _ => exact .refl e
  | ended _ _ | unsettled _ _ _ => exact announce
  | settled ha ho hd hs =>
    have drained := enter.trans (.drainQueue (.inl (h.enter ho ha)) (enter.bound hb) hd)
    have settled := drained.trans settle
    rw [hs] at settled
    exact settled

theorem runOneStep (h : e.Regular) (hb : e.Bound) : Flows e e.runOneStep.2 := by
  have announced : e.announce.Regular := sameCore_announce.regular h
  have bound : e.announce.Bound := announce.bound hb
  have ran := e.ranOnce
  generalize e.runOneStep = r at ran ⊢
  cases ran with
  | refused _ => exact .refl e
  | ended _ _ => exact announce
  | unemployed ha ho hs => exact announce.trans settle
  | settled ha ho hs _ => exact announce.trans ((Flows.step announced bound ho ha hs).trans settle)
  | working ha ho hs _ _ =>
    exact announce.trans ((Flows.step announced bound ho ha hs).keep (.of_instances rfl rfl rfl))
  | completed ha ho hs _ _ => exact announce.trans (.step announced bound ho ha hs)

/-! ### Other calls -/

/-- An instance that is canceled before it has run completes at once. -/
theorem cancelUnexecuted (hx : ∀ i, e.instances[x]? = some i → i.executed = false) :
    Flows e (e.cancelInstance x) := by
  unfold Executor.cancelInstance
  split
  · next i _ hi _ =>
    split
    · exact .refl e
    · have unexecuted : (!i.executed) = true := by rw [hx i hi]; rfl
      rw [if_pos unexecuted]
      exact (Flows.keeps (.modify fun _ => {})).keep .completeInstance
  · exact .refl e

theorem cancelWorkflow : Flows e e.cancelWorkflow.2 := by
  unfold Executor.cancelWorkflow
  split
  · exact .refl e
  · split
    · exact .keeps (.of_instances rfl rfl rfl)
    · next hx =>
      refine announce.trans (cancelUnexecuted fun i hi => ?_)
      rw [sameCore_announce.instances] at hi
      rw [instance?, hi, Option.map_some, Option.getD_some] at hx
      exact Bool.eq_false_iff.mpr hx

theorem terminate (h : e.Regular) (reason : String) : Flows e (e.terminate reason).2 := by
  unfold Executor.terminate
  split
  · exact .refl e
  · next hok =>
    have known : (e.definition.get? NodeId.root).isSome = true := rfl
    have opened := h.open_of_accepting hok
    exact .keeps (.falls (.propagate _ _) opened.placed.tree (opened.faultRoot known).2)

theorem abort (reason : String) : Flows e (e.abort reason) := by
  unfold Executor.abort
  split
  · exact .refl e
  · have gone : ∀ k : InstanceId, (∅ : InstanceTable)[k]? = none := fun k => by simp
    refine .keeps ⟨⟨(sameCore_callAbortHooks _ _).definition,
      (sameCore_callAbortHooks _ _).nextInstance, fun {k i} hi => ?_⟩, fun {k p j} _ _ => ?_⟩
    · exact absurd ((gone k).symm.trans hi) (Option.some_ne_none i).symm
    · exact .inr fun r hr => absurd ((gone p).symm.trans hr) (Option.some_ne_none r).symm

/-- Every call of the host. -/
theorem serve (h : e.Regular) (hb : e.Bound) (c : ExecutorCall) : Flows e (c.serve e).2 := by
  cases c with
  | run limit => exact .run h hb limit
  | runOneStep => exact .runOneStep h hb
  | resumeBookmark b v p => exact .keeps (.resumeBookmark b v p)
  | cancel => exact .cancelWorkflow
  | terminate reason => exact .terminate h reason
  | abort reason => exact .abort reason
  | complete operation result =>
    rw [ExecutorCall.serve, completeHandle_own]
    exact .keeps (.of_instances rfl rfl rfl)
  | _ => exact .keeps (.of_instances rfl rfl rfl)

end Flows

/-! ### Every run of a definition -/

variable {a : Activity} {inputs : Environment}

/-- A new executor owns what its root declares. -/
theorem furnished_fresh (workflow : WorkflowId) (d : Definition) (inputs : Environment)
    (mailbox : Nat) : (fresh workflow d inputs mailbox).Furnished := by
  intro k i hi name
  obtain ⟨-, rfl⟩ := lookup_rootOnly.mp hi
  exact mem_firstValues _ _

/-- What is owned in a definition is owned in one that is alike. -/
theorem Bound.alike {d : Definition} (hb : e.Bound) (ha : e.definition.Alike d) :
    Bound { e with definition := d } := by
  refine ⟨ha.wellScoped hb.wellScoped, fun {k i} hi name => ?_⟩
  rw [hb.furnished hi, Declares, Declares, ha.declared]

/-- What comes back owns what it did. -/
theorem Reloaded.bound {d : Definition} (hl : Reloaded e d e') (hb : e.Bound)
    (ha : e.definition.Alike d) : e'.Bound := by
  refine ⟨hl.definition ▸ ha.wellScoped hb.wellScoped, fun {k i} hi name => ?_⟩
  rw [hl.instances, Std.ExtTreeMap.getElem?_map, Option.map_eq_some_iff] at hi
  obtain ⟨j, hj, rfl⟩ := hi
  rw [Declares, hl.definition, ← ha.declared]
  exact hb.furnished hj name

/-- The executors of the runs of one definition: it is created, its host calls it in any order, it is
captured and restored, and its bodies may change their state. -/
inductive RunOf (a : Activity) : Executor → Prop
  /-- A new executor. -/
  | created {e : Executor} {workflow : WorkflowId} {inputs : Environment} {mailbox : Nat}
      (h : create workflow a.prepare inputs mailbox = .ok e) : RunOf a e
  /-- An executor that is restored from an image with the same definition. -/
  | restored {e r : Executor} {now : Timestamp} {s : Snapshot} {b : Activity} {mailbox : Nat}
      (h : RunOf a e) (hc : e.capture now = .ok s) (hb : a.prepare.Alike b.prepare)
      (hr : s.restore b.prepare mailbox = .ok r) : RunOf a r
  /-- A call of the host has been served. -/
  | served {e : Executor} (h : RunOf a e) (c : ExecutorCall) : RunOf a (c.serve e).2
  /-- A run has begun and done no work yet. -/
  | entered {e : Executor} (h : RunOf a e) (ho : e.outcome = none) (ha : e.state ≠ .aborted) :
      RunOf a { e.announce with state := .runnable }
  /-- A run has done one more item. -/
  | stepped {e e' : Executor} (h : RunOf a e) (ho : e.outcome = none) (ha : e.state ≠ .aborted)
      (hs : e.step? = some e') : RunOf a e'
  /-- The host has created scopes elsewhere, or an application now hosts the workflow. -/
  | hosted {e : Executor} (h : RunOf a e) {n : Nat} (hn : e.scopeCount ≤ n) (isHosted : Bool) :
      RunOf a { e with scopeCount := n, isHosted }
  /-- Bodies that keep a state of their own have changed it. -/
  | altered {e : Executor} {d : Definition} (h : RunOf a e) (ha : e.definition.Alike d) :
      RunOf a { e with definition := d }

namespace RunOf

theorem reachable (h : RunOf a e) : e.Reachable := by
  induction h with
  | created h => exact .created h
  | restored _ hc _ hr ih => exact .restored ih hc hr
  | served _ c ih => exact .served ih c
  | entered _ ho ha ih => exact .entered ih ho ha
  | stepped _ ho ha hs ih => exact .stepped ih ho ha hs
  | hosted _ hn isHosted ih => exact .hosted ih hn isHosted
  | altered _ ha ih => exact .altered ih ha

/-- A flow of values changes no definition. -/
theorem bound_of_flows (hf : Flows e e') (h : e.Bound ∧ a.prepare.Alike e.definition) :
    e'.Bound ∧ a.prepare.Alike e'.definition := by
  refine ⟨hf.bound h.1, ?_⟩
  rw [hf.definition]
  exact h.2

/-- Every instance of a run owns what its activity declares, and the definition stays what it was. -/
theorem bound (h : RunOf a e) : e.Bound ∧ a.prepare.Alike e.definition := by
  induction h with
  | created h =>
    obtain ⟨valid, -, rfl⟩ := create_eq_ok.mp h
    exact ⟨⟨Activity.prepare_wellScoped valid, furnished_fresh _ _ _ _⟩, .refl _⟩
  | restored h hc hb hr ih =>
    obtain ⟨bound, same⟩ := ih
    have back : Definition.Alike _ _ := Eq.trans (Eq.symm same) hb
    have reloaded := h.reachable.regular.reloaded hc back hr
    exact ⟨reloaded.bound bound back, reloaded.definition ▸ hb⟩
  | served h c ih => exact bound_of_flows (.serve h.reachable.regular ih.1 c) ih
  | entered _ _ _ ih => exact bound_of_flows .enter ih
  | stepped h ho ha hs ih => exact bound_of_flows (.step h.reachable.regular ih.1 ho ha hs) ih
  | hosted _ _ _ ih => exact ⟨⟨ih.1.wellScoped, ih.1.furnished⟩, ih.2⟩
  | altered _ ha ih => exact ⟨ih.1.alike ha, Eq.trans ih.2 ha⟩

end RunOf

end Executor

namespace Activity

end Activity

namespace Executor

end Executor

end Workflow
