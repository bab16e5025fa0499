import Workflow.Proofs.Turn

/-!
# Histories

A history lists what the turns of a workflow have shown since it was created. Every reachable executor
has one: a run is a sequence of turns, and so is every other call of the host.
-/

namespace Workflow.Executor

variable {e e' e'' m : Executor} {d : Deed} {ds ds' : List Deed} {x k : InstanceId}
variable {call : Option Callback} {hooks : List Call}

/-- One executor becomes another in some turns. -/
inductive Leads (e : Executor) : List Deed → Executor → Prop
  | refl : Leads e [] e
  | turn {e' e'' : Executor} {ds : List Deed} {d : Deed} (h : Leads e ds e') (t : Turn e' d e'') :
      Leads e (ds ++ [d]) e''

/-- A new executor becomes this one in some turns. -/
inductive HasHistory : Executor → List Deed → Prop
  | created {e : Executor} {workflow : WorkflowId} {a : Activity} {inputs : Environment}
      {mailbox : Nat} (h : create workflow a.prepare inputs mailbox = .ok e) : HasHistory e []
  | turn {e e' : Executor} {ds : List Deed} {d : Deed} (h : HasHistory e ds) (t : Turn e d e') :
      HasHistory e' (ds ++ [d])

namespace Leads

theorem single (t : Turn e d e') : Leads e [d] e' :=
  .turn .refl t

theorem trans (h : Leads e ds e') (h' : Leads e' ds' e'') : Leads e (ds ++ ds') e'' := by
  induction h' with
  | refl => exact (List.append_nil ds).symm ▸ h
  | turn _ t ih => exact List.append_assoc .. ▸ Leads.turn ih t

/-- Turns lead from a regular executor to a regular one. -/
theorem regular (h : Leads e ds e') (hr : e.Regular) : e'.Regular := by
  induction h with
  | refl => exact hr
  | turn _ t ih => exact ih.turn t

end Leads

namespace HasHistory

/-- A history goes on. -/
theorem leads (h : e.HasHistory ds) (h' : Leads e ds' e') : e'.HasHistory (ds ++ ds') := by
  induction h' with
  | refl => exact (List.append_nil ds).symm ▸ h
  | turn _ t ih => exact List.append_assoc .. ▸ ih.turn t

/-- What has a history is regular. -/
theorem regular (h : e.HasHistory ds) : e.Regular := by
  induction h with
  | created h => exact .working (create_consistent (Activity.prepare_wellFormed _) h)
  | turn _ t ih => exact ih.turn t

end HasHistory

/-- What a turn does to the instances, whoever has the journal. -/
theorem Conduct.passage (h : Conduct e d e' x call m hooks) :
    ∃ j, Passage (Runs x call) d.Observes e (Workflow.calls d.entries)
      { e' with journal := j } := by
  obtain ⟨j, ha⟩ := h.after
  refine ⟨j, ?_⟩
  rw [h.calls]
  exact h.before.trans ha.passage.weaken

/-- What a turn does to the instances. -/
theorem Regular.passage (h : e.Regular) (t : Turn e d e') :
    ∃ S j, Passage S d.Observes e (Workflow.calls d.entries) { e' with journal := j } := by
  obtain ⟨x, call, m, hooks, hc⟩ := h.conduct t
  obtain ⟨j, hp⟩ := hc.passage
  exact ⟨_, j, hp⟩

/-- Identifiers are given out in order, and none is given out again. -/
structure Lasts (e e' : Executor) : Prop where
  next : e.nextInstance ≤ e'.nextInstance
  /-- Who is there with an old identifier was there, with the same parent. -/
  kept : ∀ {k : InstanceId} {i : Instance}, e'.instances[k]? = some i → k.number < e.nextInstance →
    ∃ j, e.instances[k]? = some j ∧ i.parent = j.parent

namespace Lasts

theorem refl (e : Executor) : Lasts e e :=
  ⟨Nat.le_refl _, fun hi _ => ⟨_, hi, rfl⟩⟩

theorem trans (h : Lasts e e') (h' : Lasts e' e'') : Lasts e e'' := by
  refine ⟨Nat.le_trans h.next h'.next, fun {k i} hi hk => ?_⟩
  obtain ⟨j, hj, hij⟩ := h'.kept hi (Nat.lt_of_lt_of_le hk h.next)
  obtain ⟨o, ho, hjo⟩ := h.kept hj hk
  exact ⟨o, ho, hij.trans hjo⟩

/-- Who has left does not come back. -/
theorem gone (h : Lasts e e') (hn : k.number < e.nextInstance) (hk : e.instances[k]? = none) :
    e'.instances[k]? = none := by
  rw [Option.eq_none_iff_forall_ne_some]
  intro i hi
  obtain ⟨j, hj, -⟩ := h.kept hi hn
  exact absurd (hk.symm.trans hj) (Option.some_ne_none j).symm

end Lasts

/-- No turn gives out an identifier again. -/
theorem Regular.lasts (h : e.Regular) (t : Turn e d e') : Lasts e e' := by
  obtain ⟨S, j, hp⟩ := h.passage t
  refine ⟨hp.later, fun hi hn => ?_⟩
  obtain ⟨o, ho, ha⟩ := hp.old hi hn
  exact ⟨o, ho, ha.parent⟩

/-- No identifier is given out again. -/
theorem Leads.lasts (h : Leads e ds e') (hr : e.Regular) : Lasts e e' := by
  induction h with
  | refl => exact .refl e
  | turn h t ih => exact ih.trans ((h.regular hr).lasts t)

/-! ### Calls of the host are turns -/

/-- One item of work is one turn. -/
theorem Regular.leads_step (h : e.Regular) (ho : e.outcome = none) (ha : e.state ≠ .aborted)
    (hs : e.step? = some e') : ∃ d, Turn e d e' := by
  obtain ⟨D, hw, -⟩ := h.stepped ho ha hs
  obtain ⟨l, hl⟩ := hw.journal
  exact ⟨_, .stepped ho ha hs hl⟩

/-- Items that are done one after the other are turns. -/
theorem Proper.leads_drainQueue {limit : Nat} (h : e.Proper)
    (hs : drainQueue limit e = some e') : ∃ ds, Leads e ds e' := by
  obtain ⟨⟨-, leads⟩, -⟩ := drainQueue_keeps (P := fun m => m.Proper ∧ ∃ ds, Leads e ds m)
    ⟨h, [], .refl⟩ (fun ⟨hm, ds, hds⟩ ho hst => by
      obtain ⟨d, t⟩ := hm.regular.leads_step ho hm.not_aborted hst
      exact ⟨hm.regular.step ho hm.not_aborted hst, _, hds.trans (.single t)⟩) hs
  exact leads

/-- A run is a sequence of turns. -/
theorem Regular.leads_run (h : e.Regular) (limit : Nat) : ∃ ds, Leads e ds (e.run limit).2 := by
  have announced : Leads e [{}] e.announce := .single (.announced e)
  have ran := e.ran limit
  generalize e.run limit = r at ran ⊢
  cases ran with
  | refused _ => exact ⟨[], .refl⟩
  | ended _ _ | unsettled _ _ _ => exact ⟨_, announced⟩
  | settled ha ho hd hs =>
    have working := h.enter ho ha
    obtain ⟨hp, hw⟩ := drainQueue_proper (.inl working) hd
    obtain ⟨ds, hds⟩ := Proper.leads_drainQueue (.inl working) hd
    have settled := hds.turn (.settled hp.not_aborted hw)
    rw [hs] at settled
    exact ⟨_, (announced.turn (.entered ho ha)).trans settled⟩

/-- One step is a sequence of turns. -/
theorem Regular.leads_runOneStep (h : e.Regular) : ∃ ds, Leads e ds e.runOneStep.2 := by
  have announced : Leads e [{}] e.announce := .single (.announced e)
  have hr : e.announce.Regular := sameCore_announce.regular h
  have ran := e.ranOnce
  generalize e.runOneStep = r at ran ⊢
  cases ran with
  | refused _ => exact ⟨[], .refl⟩
  | ended _ _ => exact ⟨_, announced⟩
  | unemployed ha ho hs =>
    exact ⟨_, announced.turn (.settled ha fun _ => (of_step?_none hs).2)⟩
  | settled ha ho hs hw =>
    obtain ⟨d, t⟩ := hr.leads_step ho ha hs
    exact ⟨_, (announced.turn t).turn (.settled (hr.step ho ha hs).not_aborted fun _ => hw)⟩
  | working ha ho hs _ hn =>
    obtain ⟨d, t⟩ := hr.leads_step ho ha hs
    exact ⟨_, (announced.turn t).turn (.entered hn (hr.step ho ha hs).not_aborted)⟩
  | completed ha ho hs _ _ =>
    obtain ⟨d, t⟩ := hr.leads_step ho ha hs
    exact ⟨_, announced.turn t⟩

/-- A call that is served without work is one turn. -/
theorem Regular.turn_serve (h : e.Regular) {c : ExecutorCall} (hc : c.isSingle = true) :
    ∃ d, Turn e d (c.serve e).2 := by
  have hj : ∃ l, (c.serve e).2.journal = e.journal ++ l := by
    rcases h.serves hc with ⟨hooks, ha, -⟩ | hw
    · obtain ⟨l, hl, -⟩ := ha.passage.journal
      exact ⟨l, hl⟩
    · exact hw.journal
  obtain ⟨l, hl⟩ := hj
  exact ⟨_, .served hc hl⟩

/-- Every call of the host is a sequence of turns. -/
theorem Regular.leads_serve (h : e.Regular) (c : ExecutorCall) : ∃ ds, Leads e ds (c.serve e).2 := by
  by_cases hc : c.isSingle = true
  · obtain ⟨d, t⟩ := h.turn_serve hc
    exact ⟨_, .single t⟩
  · cases c with
    | run limit => exact h.leads_run limit
    | runOneStep => exact h.leads_runOneStep
    | takeJournal => exact ⟨_, .single (.collected e)⟩
    | _ => exact absurd rfl hc

/-- Every reachable executor has a history. -/
theorem Reachable.exists_history (h : e.Reachable) : ∃ ds, e.HasHistory ds := by
  induction h with
  | created h => exact ⟨_, .created h⟩
  | restored _ hc hr ih =>
    obtain ⟨ds, ih⟩ := ih
    exact ⟨_, ih.turn (.restored hc hr)⟩
  | served _ c ih =>
    obtain ⟨ds, ih⟩ := ih
    obtain ⟨ds', hds⟩ := ih.regular.leads_serve c
    exact ⟨_, ih.leads hds⟩
  | @entered e _ ho ha ih =>
    obtain ⟨ds, ih⟩ := ih
    have hs : SameCore e e.announce := sameCore_announce
    exact ⟨_, (ih.turn (.announced e)).turn
      (.entered (hs.outcome.trans ho) fun hn => ha (hs.state.symm.trans hn))⟩
  | stepped _ ho ha hs ih =>
    obtain ⟨ds, ih⟩ := ih
    obtain ⟨d, t⟩ := ih.regular.leads_step ho ha hs
    exact ⟨_, ih.turn t⟩
  | hosted _ hn isHosted ih =>
    obtain ⟨ds, ih⟩ := ih
    exact ⟨_, ih.turn (.hosted hn isHosted)⟩
  | altered _ ha ih =>
    obtain ⟨ds, ih⟩ := ih
    exact ⟨_, ih.turn (.altered ha)⟩

end Workflow.Executor
