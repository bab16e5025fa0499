import Workflow.Proofs.Advance
import Workflow.Proofs.Finality
import Workflow.Proofs.Waiting

/-!
# Composite activities end

A workflow of composite activities never waits for anything but its own work, and every piece of work
leaves less to do. So a run ends, within four units of work for every activity. The workflow faults
exactly if a failing leaf is below no handler, and if nothing fails every leaf has been executed once.
-/

namespace Workflow

namespace Shape

variable (s : Shape)

/-- A shape has no failing leaf if it is below one that has none. -/
theorem throws_plan {s : Shape} (h : s.throws = false) (k : NodeId) : (s.plan k).throws = false := by
  have mem : s.plan k ∈ s.listed := by
    rw [plan]
    cases hk : s.listed[k.number]? with
    | some t => exact List.mem_of_getElem? hk
    | none =>
      rw [listed_eq]
      exact List.mem_cons_self
  rw [throws, List.any_eq_false] at h ⊢
  exact fun t ht => h t (listed_subset mem ht)

/-- The root stands for the whole shape. -/
theorem plan_root : s.plan .root = s := by
  rw [plan, listed_eq]
  rfl

/-- The root has no arguments. -/
theorem arguments_root : s.build.prepare.root.arguments = [] :=
  s.blueprint.arguments (k := .root) rfl

/-- Composite activities may run. -/
theorem ensureValid : s.build.prepare.ensureValid = .ok () := by
  have calm : s.build.prepare.findings.hasErrors = false := by
    rw [Findings.hasErrors, List.any_eq_false]
    intro f hf
    obtain ⟨n, hn, hfn⟩ := List.mem_flatMap.mp hf
    obtain ⟨k, hk⟩ := List.mem_iff_getElem?.mp hn
    have stands := (s.exists_stands (k := ⟨k⟩) hk).2
    rw [stands.findings] at hfn
    exact absurd hfn List.not_mem_nil
  rw [Definition.ensureValid, calm]
  rfl

/-- Composite activities need no inputs. -/
theorem checkInputs : s.build.prepare.checkInputs ∅ = .ok () := by
  have none_given : (∅ : Environment).keys = [] := rfl
  rw [Definition.checkInputs, Definition.inputFindings, s.arguments_root, none_given]
  rfl

end Shape

namespace Executor

variable {e e' : Executor} {plan : NodeId → Shape} {todo : InstanceId → List NodeId}
variable {n limit : Nat} {account : Account} {s : Shape}

/-! ### Runs -/

/-- The node whose body the next item executes, if it executes one. -/
def nextExecuted? (e : Executor) : Option NodeId :=
  e.drainInbox.2.queue.pop?.bind fun next => e.executes? next.1

/-- The nodes whose bodies are executed, in order, while up to the given number of items is done. -/
def executions : Nat → Executor → List NodeId
  | 0, _ => []
  | limit + 1, e =>
    if e.outcome.isSome then []
    else
      match e.step? with
      | none => []
      | some e' => e.nextExecuted?.toList ++ executions limit e'

/-- The nodes whose bodies a run executes, in order. -/
def runExecutions (limit : Nat) (e : Executor) : List NodeId :=
  executions limit { e.announce with state := .runnable }

/-- A workflow that has an outcome executes nothing more. -/
theorem executions_of_outcome {o : Outcome} (h : e.outcome = some o) : executions limit e = [] := by
  cases limit with
  | zero => rfl
  | succ limit =>
    rw [executions, h]
    rfl

/-- Leaves are executed by one part of the work or by the other. -/
theorem records_append (l l' : List NodeId) :
    ((0, records plan (l ++ l')) : Account) = (0, records plan l) + (0, records plan l') := by
  rw [records, List.filter_append, ← Multiset.coe_add]
  exact Prod.ext (zero_add 0).symm rfl

/-- While a plan is pursued there is something to do. -/
theorem Pursues.exists_next (h : e.Pursues plan todo Nobody n lines) :
    ∃ w q, e.queue.pop? = some (w, q) := by
  cases hq : e.queue.pop? with
  | some next => exact ⟨next.1, next.2, rfl⟩
  | none =>
    -- Otherwise some instance would wait for a bookmark or an operation, and there is none.
    have rest := h.consistent.settle (WorkQueue.work_of_pop?_none hq)
    obtain ⟨k, i, hi, hc⟩ := rest.exists_childless
    have same : e.settle.2.bookmarks = e.bookmarks ∧ e.settle.2.operations = e.operations := by
      rw [Executor.settle, h.consistent.opened, h.consistent.running]
      exact ⟨rfl, rfl⟩
    rcases rest.awaits hi hc with ⟨b, g, hg, -⟩ | ⟨o, ho⟩
    · rw [same.1, h.registrations] at hg
      simp at hg
    · rw [same.2, h.operations] at ho
      simp at ho

/-- The next item is done. -/
theorem Pursues.step (h : e.Pursues plan todo Nobody (n + 1) account) :
    ∃ e', e.step? = some e' ∧ Yields plan n account e.nextExecuted?.toList e' := by
  obtain ⟨w, q, hq⟩ := h.exists_next
  have quiet : e.drainInbox.2 = e := by
    rw [drainInbox, h.inbox]
    have hinbox := h.inbox
    cases e
    subst hinbox
    rfl
  have next : e.nextExecuted? = e.executes? w := by
    rw [nextExecuted?, quiet, hq]
    rfl
  rw [next]
  refine ⟨Executor.dispatch { e with queue := q } w, ?_, h.dispatch (WorkQueue.work_of_pop? hq)⟩
  rw [step?_eq, quiet, hq]
  rfl

/-- Work ends within its bound, and then the plan has been achieved. -/
theorem Pursues.drainQueue (h : e.Pursues plan todo Nobody n account) (hn : n ≤ limit) :
    ∃ e' rest, drainQueue limit e = some e' ∧ e'.Achieves plan rest ∧
      ((∀ k, (plan k).throws = false) →
        account = (0, records plan (executions limit e)) + rest) := by
  induction limit generalizing e todo n account with
  | zero =>
    obtain ⟨r, hr, hl⟩ := isLive_iff.mp h.consistent.placed.rootLive
    obtain ⟨m, rfl⟩ := h.exists_bound hr hl
    omega
  | succ limit ih =>
    obtain ⟨e₁, hs, rest₁, first, onward⟩ := (h.weaken hn).step
    have more : Executor.drainQueue (limit + 1) e = Executor.drainQueue limit e₁ := by
      conv_lhs => unfold Executor.drainQueue
      rw [h.consistent.opened, hs]
      rfl
    have executed : executions (limit + 1) e = e.nextExecuted?.toList ++ executions limit e₁ := by
      rw [executions, h.consistent.opened, hs]
      rfl
    rw [more, executed]
    obtain ⟨todo', later⟩ | achieved := onward
    · obtain ⟨e', rest, hd, achieved, others⟩ := ih later (Nat.le_refl limit)
      refine ⟨e', rest, hd, achieved, fun hp => ?_⟩
      rw [first hp, others hp, records_append, add_assoc]
    · obtain ⟨o, event, -, ho⟩ := achieved.concluded.ending
      refine ⟨e₁, rest₁, ?_, achieved, fun hp => ?_⟩
      · unfold Executor.drainQueue
        rw [ho]
        rfl
      · rw [executions_of_outcome ho, List.append_nil]
        exact first hp

/-- A run achieves the plan if it may do as many items as there are left to do. -/
theorem Pursues.run (h : e.Pursues plan todo Nobody n account) (hn : n ≤ limit) :
    ∃ o e', e.run limit = (.ok o, e') ∧ e'.outcome = some o ∧ ∃ rest, e'.Achieves plan rest ∧
      ((∀ k, (plan k).throws = false) →
        account = (0, records plan (runExecutions limit e)) + rest) := by
  have announced := h.of_silent silent_announce
  have runs : { e.announce with state := .runnable } = e.announce := by
    have hs := announced.consistent.running
    generalize e.announce = e₁ at hs
    cases e₁
    subst hs
    rfl
  obtain ⟨e', rest, hd, achieved, told⟩ := announced.drainQueue hn
  obtain ⟨o, event, -, ho⟩ := achieved.concluded.ending
  have present : e.state ≠ .aborted := by
    rw [h.consistent.running]
    exact WorkflowState.noConfusion
  have drained : Executor.drainQueue limit { e.announce with state := .runnable } = some e' :=
    (congrArg (Executor.drainQueue limit) runs).trans hd
  have executed : runExecutions limit e = executions limit e.announce :=
    congrArg (executions limit) runs
  refine ⟨o, e', ?_, ho, rest, achieved, fun hp => executed ▸ told hp⟩
  have ran := e.ran limit
  generalize e.run limit = result at ran ⊢
  cases ran with
  | refused ha => exact absurd ha present
  | ended _ hn => exact absurd (announced.consistent.opened.symm.trans hn) (Option.some_ne_none _).symm
  | unsettled _ _ hd' => exact absurd (hd'.symm.trans drained) (Option.some_ne_none e').symm
  | settled _ _ hd' hs =>
    cases drained.symm.trans hd'
    rw [settle, ho] at hs
    cases hs
    rfl

/-- The outcome of a workflow that has achieved its plan is a fault exactly if one escapes. -/
theorem Achieves.outcome_cases {o : Outcome} (h : e.Achieves plan account) (ho : e.outcome = some o) :
    ((plan .root).escapes = true → ∃ f, o = .faulted f) ∧
      ((plan .root).escapes = false → ∃ result outputs, o = .completed result outputs) := by
  obtain ⟨r, hr, -, hn⟩ := h.concluded.tree.rooted
  have fits := h.root hr
  have terminal : r.state.isTerminal = true := h.concluded.ended hr
  rw [← hn]
  refine ⟨fun he => ?_, fun he => ?_⟩
  · have faulted := fits.faulted terminal he
    cases h.concluded.ended_root hr with
    | closed _ hs _ => exact absurd (hs.symm.trans faulted) ActivityState.noConfusion
    | canceled _ hs _ => exact absurd (hs.symm.trans faulted) ActivityState.noConfusion
    | faulted _ _ _ hf => exact ⟨_, Option.some.inj (ho.symm.trans hf)⟩
  · have closed := fits.closed terminal he
    cases h.concluded.ended_root hr with
    | closed _ _ hc => exact ⟨_, _, Option.some.inj (ho.symm.trans hc)⟩
    | canceled _ hs _ => exact absurd (hs.symm.trans closed) ActivityState.noConfusion
    | faulted _ hs _ _ => exact absurd (hs.symm.trans closed) ActivityState.noConfusion

/-! ### New workflows -/

/-- All that a new workflow stands for is the whole. -/
theorem remaining_fresh {M : Type} [AddCommMonoid M] {v : Tally M} {d : Definition} (h : v.Adds d) :
    v.start + InstanceTable.remaining v (fun _ => d.root.children) (rootOnly d ∅) 2 =
      v.whole .root := by
  have nobody : InstanceTable.share v (fun _ => d.root.children) (rootOnly d ∅) ⟨0⟩ = 0 := by
    refine InstanceTable.share_eq_zero fun i hi => ?_
    obtain ⟨hk, -⟩ := lookup_rootOnly.mp hi
    cases hk
  have root : InstanceTable.share v (fun _ => d.root.children) (rootOnly d ∅) ⟨1⟩ =
      v.own .root + (d.root.children.map v.whole).sum :=
    InstanceTable.share_live (lookup_rootOnly.mpr ⟨rfl, rfl⟩) rfl
  have whole : v.whole .root = v.start + v.own .root + (d.root.children.map v.whole).sum :=
    h (k := .root) rfl
  rw [InstanceTable.remaining, Finset.sum_range_succ, Finset.sum_range_one, nobody, root, zero_add,
    whole, add_assoc]

/-- A new workflow has everything to do. -/
theorem fresh_pursues (s : Shape) (workflow : WorkflowId) (mailbox : Nat) :
    (fresh workflow s.build.prepare ∅ mailbox).Pursues s.plan
      (fun _ => s.build.prepare.root.children) Nobody (4 * s.size)
      (↑s.lines, ↑(recordsFrom s.plan 0 s.size)) where
  blueprint := s.blueprint
  consistent := create_consistent s.build.prepare_wellFormed
    (create_eq_ok.mpr ⟨s.ensureValid, s.checkInputs, rfl⟩)
  onPlan {k i} hi := by
    obtain ⟨-, rfl⟩ := lookup_rootOnly.mp hi
    have fits : (newRoot s.build.prepare ∅).Fits s.build.prepare s.plan :=
      { unasked := rfl
        unmarked := rfl
        called := fun hp => absurd (s.build.prepare_rising hp) (Nat.not_lt_zero _)
        verdict := .inl rfl }
    exact .of_awaits fits rfl (.unstarted rfl rfl)
  registrations := rfl
  operations := rfl
  inbox := rfl
  expected w hw := by
    rcases WorkQueue.mem_work_push.mp hw with rfl | hw
    · trivial
    · exact absurd hw List.not_mem_nil
  bounded := by
    have whole := remaining_fresh s.blueprint.workTally_adds
    have load : (WorkQueue.empty.push (.execute ⟨1⟩)).load = 1 := WorkQueue.load_push _ _ _
    have size : (workTally s.plan).whole .root = 4 * s.size := congrArg (4 * ·.size) s.plan_root
    change InstanceTable.remaining (workTally s.plan) (fun _ => s.build.prepare.root.children)
      (rootOnly s.build.prepare ∅) 2 + (WorkQueue.empty.push (.execute ⟨1⟩)).load ≤ 4 * s.size
    rw [load, Nat.add_comm, ← size]
    exact Nat.le_of_eq whole
  told _ := by
    have whole := remaining_fresh s.blueprint.accountTally_adds
    have root : (accountTally s.plan).whole .root = (↑s.lines, ↑(recordsFrom s.plan 0 s.size)) :=
      congrArg (fun t : Shape => (((↑t.lines : Multiset String),
        (↑(recordsFrom s.plan 0 t.size) : Multiset NodeId)) : Account)) s.plan_root
    exact whole.trans root

/-- If all leaves have been executed that write their labels, every one has been executed once. -/
theorem count_executed {executed : List NodeId}
    (h : records s.plan executed = ↑(recordsFrom s.plan 0 s.size)) {k : Nat} {label : String}
    (hk : s.listed[k]? = some (.record label)) : executed.count ⟨k⟩ = 1 := by
  have isRecord : (s.plan ⟨k⟩).isRecord = true := by
    rw [Shape.plan, hk]
    rfl
  have below : k < s.size := (List.getElem?_eq_some_iff.mp hk).1
  have mem : NodeId.mk k ∈ (List.range' 0 s.size).map NodeId.mk :=
    List.mem_map_of_mem (List.mem_range'_1.mpr ⟨Nat.zero_le k, by omega⟩)
  have nodup : ((List.range' 0 s.size).map NodeId.mk).Nodup :=
    List.Nodup.map (fun _ _ h => NodeId.mk.inj h) List.nodup_range'
  have perm : (executed.filter fun k => (s.plan k).isRecord).Perm
      (((List.range' 0 s.size).map NodeId.mk).filter fun k => (s.plan k).isRecord) :=
    Multiset.coe_eq_coe.mp h
  have counts := perm.count_eq ⟨k⟩
  rw [List.count_filter (p := fun k => (s.plan k).isRecord) isRecord,
    List.count_filter (p := fun k => (s.plan k).isRecord) isRecord] at counts
  rw [counts]
  exact List.count_eq_one_of_mem nodup mem

/-- Every tree of composite activities is accepted and runs to its end: it faults if some failing leaf
is below no handler, and completes otherwise, and no bookmark is left. If it has no failing leaf, every
leaf that writes its label is executed once, wherever it stands in the tree, and the lines that are
written are those of all activities. -/
theorem runs_to_end (s : Shape) (workflow : WorkflowId) (mailbox : Nat) (x : Extensions)
    (t : TrackingProvider) :
    ∃ e, create workflow s.build.prepare ∅ mailbox = .ok e ∧ ∀ limit, 4 * s.size ≤ limit →
      ∃ o e', ((e.withExtensions x).withTracking t).run limit = (.ok o, e') ∧
        (s.escapes = true → ∃ f, o = .faulted f) ∧
        (s.escapes = false → ∃ result outputs, o = .completed result outputs) ∧
        e'.state.isCompleted = true ∧ e'.bookmarks = {} ∧ e'.bookmarkInfos = [] ∧
        (s.throws = false → e'.written.Perm s.lines ∧
          ∀ (k : Nat) (label : String), s.listed[k]? = some (.record label) →
            (((e.withExtensions x).withTracking t).runExecutions limit).count ⟨k⟩ = 1) := by
  refine ⟨fresh workflow s.build.prepare ∅ mailbox,
    create_eq_ok.mpr ⟨s.ensureValid, s.checkInputs, rfl⟩, fun limit hlimit => ?_⟩
  have hosted : Silent (fresh workflow s.build.prepare ∅ mailbox)
      (((fresh workflow s.build.prepare ∅ mailbox).withExtensions x).withTracking t) := {}
  obtain ⟨o, e', ran, ho, rest, achieved, told⟩ :=
    ((fresh_pursues s workflow mailbox).of_silent hosted).run hlimit
  have outcome := achieved.outcome_cases ho
  rw [s.plan_root] at outcome
  have infos : e'.bookmarkInfos = [] := by
    rw [bookmarkInfos, achieved.concluded.bookmarks]
    rfl
  refine ⟨o, e', ran, outcome.1, outcome.2, achieved.concluded.isCompleted,
    achieved.concluded.bookmarks, infos, fun hs => ?_⟩
  have account := told (Shape.throws_plan hs)
  rw [← achieved.told (Shape.throws_plan hs), said, Prod.mk_add_mk, zero_add, add_zero] at account
  obtain ⟨lines, executed⟩ := Prod.mk.inj account
  exact ⟨(Multiset.coe_eq_coe.mp lines).symm, fun k label hk => count_executed executed.symm hk⟩

/-- A tree in which nothing fails. -/
def calmTree : Shape :=
  .sequence "all" [.record "a", .tryCatch (.parallel "both" [.record "b", .record "b"])]

/-- A tree in which one fault is handled and another one is not. -/
def stormyTree : Shape :=
  .parallel "all" [.tryCatch (.throw "handled"), .sequence "steps" [.record "a", .throw "escapes"]]

/-- The one completes with all lines written, the other one faults. -/
theorem runs_to_end_trees :
    (∃ e o e', create ⟨.ofNat 1⟩ calmTree.build.prepare ∅ 0 = .ok e ∧
      ((e.withExtensions {}).withTracking {}).run 24 = (.ok o, e') ∧
      (∃ result outputs, o = .completed result outputs) ∧ e'.bookmarks = {} ∧
      e'.written.Perm ["a", "done:Closed", "b", "b"] ∧
      (((e.withExtensions {}).withTracking {}).runExecutions 24).count ⟨5⟩ = 1) ∧
    ∃ e o e', create ⟨.ofNat 1⟩ stormyTree.build.prepare ∅ 0 = .ok e ∧
      ((e.withExtensions {}).withTracking {}).run 24 = (.ok o, e') ∧ (∃ f, o = .faulted f) ∧
      e'.bookmarks = {} := by
  constructor
  · obtain ⟨e, he, ends⟩ := runs_to_end calmTree ⟨.ofNat 1⟩ 0 {} {}
    obtain ⟨o, e', ran, -, completes, -, hb, -, told⟩ := ends 24 (by decide)
    obtain ⟨written, executed⟩ := told rfl
    exact ⟨e, o, e', he, ran, completes rfl, hb, written, executed 5 "b" rfl⟩
  · obtain ⟨e, he, ends⟩ := runs_to_end stormyTree ⟨.ofNat 1⟩ 0 {} {}
    obtain ⟨o, e', ran, faults, -, -, hb, -, -⟩ := ends 24 (by decide)
    exact ⟨e, o, e', he, ran, faults rfl, hb⟩

end Executor

end Workflow
