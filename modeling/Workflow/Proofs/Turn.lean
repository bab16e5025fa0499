import Workflow.Proofs.Reachable

/-!
# Turns

The life of a workflow is a sequence of turns: an item of work is done, a call of the host is served,
or the workflow is saved and restored. What a turn shows is its deed. Every turn of a regular executor
calls at most one body and then abort hooks, and does to the instances what a passage allows.
-/

namespace Workflow

/-- What a turn shows. -/
structure Deed where
  /-- What it adds to the journal. -/
  entries : List JournalEntry := []
  /-- The parent and the child whose completion it observes. -/
  observed : Option (InstanceId × InstanceId) := none

/-- Whether the completion of an instance is observed. -/
def Deed.Observes (d : Deed) (k : InstanceId) : Prop :=
  ∃ p, d.observed = some (p, k)

/-- Whether a call of the host is served without work. -/
def ExecutorCall.isSingle : ExecutorCall → Bool
  | run _ => false
  | runOneStep => false
  | takeJournal => false
  | _ => true

namespace Executor

variable {e e' r : Executor} {d : Deed} {D : InstanceId → Prop} {x k : InstanceId}
variable {hooks cs : List Call} {l : List JournalEntry}

/-- The parent and the child whose completion it observes when the next item is done. -/
def observation? (e : Executor) : Option (InstanceId × InstanceId) :=
  match e.drainInbox.2.queue.pop? with
  | some (.completion parent child, _) =>
    if e.isLive parent && e.instances.contains child then some (parent, child) else none
  | _ => none

/-- One turn of a workflow. -/
inductive Turn : Executor → Deed → Executor → Prop
  /-- The change that is waiting to be reported is reported. -/
  | announced (e : Executor) : Turn e {} e.announce
  /-- Work begins. -/
  | entered {e : Executor} (ho : e.outcome = none) (ha : e.state ≠ .aborted) :
      Turn e {} { e with state := .runnable }
  /-- An item of work is done. -/
  | stepped {e e' : Executor} {l : List JournalEntry} (ho : e.outcome = none)
      (ha : e.state ≠ .aborted) (hs : e.step? = some e') (hj : e'.journal = e.journal ++ l) :
      Turn e ⟨l, e.observation?⟩ e'
  /-- Work ends. -/
  | settled {e : Executor} (ha : e.state ≠ .aborted) (hw : e.outcome = none → e.queue.work = []) :
      Turn e {} e.settle.2
  /-- A call of the host is served. -/
  | served {e : Executor} {c : ExecutorCall} {l : List JournalEntry} (hc : c.isSingle = true)
      (hj : (c.serve e).2.journal = e.journal ++ l) : Turn e ⟨l, none⟩ (c.serve e).2
  /-- The host takes the journal. -/
  | collected (e : Executor) : Turn e {} e.takeJournal.2
  /-- The workflow is captured and restored. -/
  | restored {e r : Executor} {now : Timestamp} {s : Snapshot} {a : Activity} {mailbox : Nat}
      (hc : e.capture now = .ok s) (hr : s.restore a.prepare mailbox = .ok r) : Turn e {} r
  /-- The host has created scopes elsewhere, or an application now hosts the workflow. -/
  | hosted {e : Executor} {n : Nat} (hn : e.scopeCount ≤ n) (isHosted : Bool) :
      Turn e {} { e with scopeCount := n, isHosted }
  /-- Bodies that keep a state of their own have changed it. -/
  | altered {e : Executor} {d : Definition} (ha : e.definition.Alike d) :
      Turn e {} { e with definition := d }

/-- A turn leads from a regular executor to a regular one. -/
theorem Regular.turn (h : e.Regular) (t : Turn e d e') : e'.Regular := by
  cases t with
  | announced => exact sameCore_announce.regular h
  | entered ho ha => exact .working (h.open ho ha).1
  | stepped ho ha hs _ => exact (h.step ho ha hs).regular
  | settled ha hw =>
    cases h with
    | working h => exact Proper.settle (.inl h) hw
    | finished h => exact h.settle.symm ▸ .finished h
    | aborted h => exact absurd h.state ha
    | resting h =>
      have hs : e.settle.2 = e := by
        rw [settle, h.consistent.opened, if_pos h.state]
      exact hs.symm ▸ .resting h
  | served => exact h.serve _
  | collected => exact SameCore.regular (e := e) {} h
  | restored hc hr => exact h.restore hc (Activity.prepare_wellFormed _) hr
  | hosted => exact SameCore.regular (e := e) {} h
  | altered ha => exact h.alike ha

/-- What a turn does: it calls a body or none, which leads to `m`, and then abort hooks. -/
structure Conduct (e : Executor) (d : Deed) (e' : Executor) (x : InstanceId)
    (call : Option Callback) (m : Executor) (hooks : List Call) : Prop where
  /-- These are all calls. -/
  calls : calls d.entries = call.toList.map (x, ·) ++ hooks
  /-- Who is called is in a condition to be called. -/
  accepted : ∀ c, call = some c → ∃ i, e.instances[x]? = some i ∧ i.Accepts c
  /-- Who is called and goes on has answered. -/
  answered : ∀ {c : Callback} {i : Instance}, call = some c → e'.instances[x]? = some i →
    i.state.isLive = true → i.Answered c
  before : Passage (Runs x call) d.Observes e (call.toList.map (x, ·)) m
  /-- What becomes of the instances, whoever has the journal. -/
  after : ∃ j, Told m hooks { e' with journal := j }
  /-- Neither who is called nor who is above is told, unless the host aborts the workflow. -/
  spared : (call = none → e'.state ≠ .aborted) → ∀ c ∈ hooks, c.1 ≠ x ∧ ¬ Under m.instances c.1 x
  /-- Who is observed has ended, and leaves a live parent. -/
  observed : ∀ {p k : InstanceId}, d.observed = some (p, k) → e.isLive p = true ∧
    (∃ i, e.instances[k]? = some i ∧ i.state.isTerminal = true ∧ i.parent = some p) ∧
    e'.instances[k]? = none

namespace Conduct

/-- A turn that only tears down. -/
theorem of_told {j : List JournalEntry} (h : Told e hooks { e' with journal := j })
    (hs : e'.state ≠ .aborted → ∀ c ∈ hooks, c.1 ≠ e.root ∧ ¬ Under e.instances c.1 e.root)
    (hc : Workflow.calls d.entries = hooks) (ho : d.observed = none) :
    Conduct e d e' e.root none e hooks :=
  ⟨hc, fun _ hc => absurd hc.symm (Option.some_ne_none _),
    fun hc => absurd hc.symm (Option.some_ne_none _), .refl e, ⟨j, h⟩, fun hn => hs (hn rfl),
    fun hk => absurd (ho.symm.trans hk) (Option.some_ne_none _).symm⟩

/-- A turn in which nobody is told. -/
theorem of_passage {j : List JournalEntry}
    (h : Passage Nobody Nobody e [] { e' with journal := j })
    (hc : Workflow.calls d.entries = []) (ho : d.observed = none) :
    Conduct e d e' e.root none e [] :=
  .of_told (Aftermath.of_passage (x := e.root) h).toTold
    (fun _ _ hc => absurd hc List.not_mem_nil) hc ho

/-- A turn that changes no instance. -/
theorem still (hi : e'.instances = e.instances) (hr : e'.root = e.root)
    (hn : e'.nextInstance = e.nextInstance) : Conduct e {} e' e.root none e [] :=
  of_passage (j := e.journal) (.of_eq hr hn hi rfl) rfl rfl

end Conduct

/-- What a journal adds is fixed. -/
theorem Passage.calls_eq {S : InstanceId → Prop} (h : Passage S D e cs e')
    (hj : e'.journal = e.journal ++ l) : calls l = cs := by
  obtain ⟨r, hr, rfl⟩ := h.journal
  rw [List.append_cancel_left (hj.symm.trans hr)]

/-- The journal goes on while a piece of work is done. -/
theorem Works.journal (h : Works D e e') : ∃ l, e'.journal = e.journal ++ l := by
  obtain ⟨x, call, -, -, -, m, hooks, hm, ha⟩ := h
  obtain ⟨l, hl, -⟩ := hm.journal
  obtain ⟨r, hr, -⟩ := ha.passage.journal
  exact ⟨l ++ r, by rw [hr, hl, List.append_assoc]⟩

/-- A turn that is a piece of work. -/
theorem Works.conduct (h : Works D e e') (hj : e'.journal = e.journal ++ d.entries)
    (hD : ∀ {k : InstanceId} {i : Instance}, e.instances[k]? = some i → D k → d.Observes k)
    (ho : ∀ {p k : InstanceId}, d.observed = some (p, k) → e.isLive p = true ∧
      (∃ i, e.instances[k]? = some i ∧ i.state.isTerminal = true ∧ i.parent = some p) ∧
      e'.instances[k]? = none) :
    ∃ x call m hooks, Conduct e d e' x call m hooks := by
  obtain ⟨x, call, hacc, -, hans, m, hooks, hm, ha⟩ := h
  refine ⟨x, call, m, hooks, ?_, hacc, hans, hm.mono (fun _ => id) hD, ⟨_, ha.toTold⟩,
    fun _ => ha.spared, ho⟩
  obtain ⟨l, hl, hlc⟩ := hm.journal
  obtain ⟨r, hr, hrc⟩ := ha.passage.journal
  rw [hl, List.append_assoc] at hr
  rw [List.append_cancel_left (hj.symm.trans hr), calls_append, hlc, hrc]

/-! ### Items of work -/

/-- Doing an item is a piece of work, in which a child leaves only if it is observed. -/
theorem Regular.stepped (h : e.Regular) (ho : e.outcome = none) (ha : e.state ≠ .aborted)
    (hs : e.step? = some e') : ∃ D, Works D e e' ∧
      (∀ {k : InstanceId} {i : Instance}, e.instances[k]? = some i → D k →
        ∃ p, e.observation? = some (p, k)) ∧
      ∀ {p k : InstanceId}, e.observation? = some (p, k) → e.isLive p = true ∧
        (∃ i, e.instances[k]? = some i ∧ i.state.isTerminal = true ∧ i.parent = some p) ∧
        e'.instances[k]? = none := by
  rw [step?_eq, Option.map_eq_some_iff] at hs
  obtain ⟨⟨w, q⟩, hq, rfl⟩ := hs
  have hw := WorkQueue.work_of_pop? hq
  have hc := h.drained ho ha (by rw [hw]; exact List.cons_ne_nil w _)
  refine ⟨w.observes, (hc.dispatch hw).after rfl rfl rfl rfl, fun {k i} hi hk => ?_,
    fun {p k} hk => ?_⟩
  · cases w with
    | completion p c =>
      cases hk
      obtain ⟨r, leaving⟩ := hc.leaving hw hi
      have hl : e.isLive p = true := isLive_iff.mpr ⟨r, leaving.parent, leaving.live⟩
      have hm : e.instances.contains k = true := by
        rw [Std.ExtTreeMap.contains_eq_isSome_getElem?, hi]
        rfl
      refine ⟨p, ?_⟩
      rw [observation?, hq]
      dsimp only
      rw [hl, hm]
      rfl
    | _ => exact hk.elim
  · rw [observation?, hq] at hk
    split at hk
    · next p' c' _ hwq =>
      cases hwq
      split at hk
      · next hlm =>
        cases hk
        obtain ⟨hl, hm⟩ := Bool.and_eq_true_iff.mp hlm
        rw [Std.ExtTreeMap.contains_eq_isSome_getElem?, Option.isSome_iff_exists] at hm
        obtain ⟨i, hi⟩ := hm
        obtain ⟨r, leaving⟩ := hc.leaving hw hi
        exact ⟨hl, ⟨i, hi, leaving.terminal, leaving.linked⟩, (hc.deliverCompletion hw).2⟩
      · exact absurd hk.symm (Option.some_ne_none _)
    · exact absurd hk.symm (Option.some_ne_none _)

/-! ### Calls of the host -/

/-- The bodies of some instances are told, in order. -/
theorem journal_callAbortHooks (reason : Fault) (told : List InstanceId) :
    ∃ (l : List JournalEntry) (hooks : List InstanceId),
      (told.foldl (fun e k => e.callAbortHook k reason) e).journal = e.journal ++ l ∧
      calls l = hooks.map (·, .abort reason) ∧ hooks.Sublist told := by
  induction told generalizing e with
  | nil => exact ⟨[], [], (List.append_nil _).symm, rfl, .slnil⟩
  | cons k rest ih =>
    obtain ⟨l, hooks, hl, hc, hs⟩ := ih (e := e.callAbortHook k reason)
    obtain ⟨l₀, hl₀, hc₀⟩ := journal_callAbortHook (e := e) k reason
    have journal : ((k :: rest).foldl (fun e k => e.callAbortHook k reason) e).journal =
        e.journal ++ (l₀ ++ l) := by
      rw [List.foldl_cons, hl, hl₀, List.append_assoc]
    rcases hc₀ with hc₀ | hc₀
    · exact ⟨l₀ ++ l, hooks, journal, by rw [calls_append, hc₀, hc, List.nil_append], hs.cons k⟩
    · exact ⟨l₀ ++ l, k :: hooks, journal, by rw [calls_append, hc₀, hc]; rfl, hs.cons_cons k⟩

/-- The live instances, the oldest first. -/
def livingIds (e : Executor) : List InstanceId :=
  (e.instances.values.filter fun i => !i.state.isTerminal).map (·.id)

section Living

variable (ht : IsTree e.definition e.root e.nextInstance e.instances)
include ht

theorem livingIds_eq :
    e.livingIds = (e.instances.toList.filter fun a => !a.2.state.isTerminal).map Prod.fst := by
  rw [livingIds, Table.values_eq_map, List.filter_map, List.map_map]
  refine List.map_congr_left fun a ha => ?_
  exact ht.keyed (e.instances.mem_toList_iff_getElem?_eq_some.mp (List.mem_of_mem_filter ha))

theorem isLive_of_mem_livingIds (hk : k ∈ e.livingIds) : e.isLive k = true := by
  rw [livingIds_eq ht] at hk
  obtain ⟨⟨k, i⟩, hm, rfl⟩ := List.mem_map.mp hk
  obtain ⟨hm, hn⟩ := List.mem_filter.mp hm
  have hi := e.instances.mem_toList_iff_getElem?_eq_some.mp hm
  exact isLive_iff.mpr ⟨i, hi, ActivityState.isLive_of_not_terminal (ht.sound hi).steady
    (by simpa using hn)⟩

/-- The youngest first is every one after those below it. -/
theorem pairwise_livingIds_reverse :
    e.livingIds.reverse.Pairwise fun a b => a ≠ b ∧ ¬ Under e.instances a b := by
  rw [List.pairwise_reverse, livingIds_eq ht, List.pairwise_map]
  refine (Table.ordered_toList _).filter _ |>.imp fun {a b} hab => ?_
  have hlt : a.1.number < b.1.number := Nat.compare_eq_lt.mp hab
  refine ⟨?_, fun hu => Nat.lt_asymm hlt (ht.lt_of_under hu)⟩
  intro he
  rw [he] at hlt
  exact Nat.lt_irrefl _ hlt

end Living

/-- Some instances are told and leave. The root is not among them unless the workflow is aborted. -/
def TearsDown (e e' : Executor) : Prop :=
  ∃ hooks, Told e hooks e' ∧
    (e'.state ≠ .aborted → ∀ c ∈ hooks, c.1 ≠ e.root ∧ ¬ Under e.instances c.1 e.root)

/-- Nobody need be told. -/
theorem TearsDown.of_passage (h : Passage Nobody Nobody e [] e') : TearsDown e e' :=
  ⟨[], (Aftermath.of_passage (x := e.root) h).toTold, fun _ _ hc => absurd hc List.not_mem_nil⟩

/-- When a workflow is aborted, the bodies of live instances are told, and everything leaves. -/
theorem Regular.abort_tearsDown (h : e.Regular) (reason : String) : TearsDown e (e.abort reason) := by
  unfold Executor.abort
  split
  · exact .of_passage (.refl e)
  · next ha =>
    have ht := h.tree ha
    have hs := sameCore_callAbortHooks (e := e)
      (.aborted reason e.root .root e.definition.root.name) e.livingIds.reverse
    obtain ⟨l, hooks, hl, hc, hsub⟩ := journal_callAbortHooks (e := e)
      (.aborted reason e.root .root e.definition.root.name) e.livingIds.reverse
    have gone : ∀ k : InstanceId, (∅ : InstanceTable)[k]? = none := fun k => by simp
    refine ⟨_, ⟨⟨hs.root, Nat.le_of_eq hs.nextInstance.symm, ⟨l, hl, hc⟩, fun {k i} hi => ?_,
      fun {k p j} _ _ _ _ => .inr (.inr fun r hr => ?_)⟩, fun c hc => ?_, fun _ => ht, ?_,
      fun c hc => ?_, fun c _ => gone c.1⟩, fun hn => absurd rfl hn⟩
    · exact absurd ((gone k).symm.trans hi) (Option.some_ne_none i).symm
    · exact absurd ((gone p).symm.trans hr) (Option.some_ne_none r).symm
    · obtain ⟨k, -, rfl⟩ := List.mem_map.mp hc
      exact ⟨_, rfl⟩
    · exact List.pairwise_map.mpr ((pairwise_livingIds_reverse ht).sublist hsub)
    · obtain ⟨k, hk, rfl⟩ := List.mem_map.mp hc
      exact isLive_of_mem_livingIds ht (List.mem_reverse.mp (hsub.subset hk))

/-- The host may ask a workflow to cancel; one whose root has not run is canceled at once. -/
theorem Regular.cancels (h : e.Regular) :
    TearsDown e e.cancelWorkflow.2 ∨ Works Nobody e e.cancelWorkflow.2 := by
  unfold Executor.cancelWorkflow
  split
  · exact .inl (.of_passage (.refl e))
  · next hok =>
    split
    · exact .inl (.of_passage (.of_eq rfl rfl rfl rfl))
    · next hx => exact .inr (h.cancelUnexecuted hok hx)

/-- When a workflow is terminated, the bodies of live instances below the root are told. -/
theorem Regular.terminate_tearsDown (h : e.Regular) (reason : String) :
    TearsDown e (e.terminate reason).2 := by
  unfold Executor.terminate
  split
  · exact .of_passage (.refl e)
  · next hok =>
    have known : (e.definition.get? NodeId.root).isSome = true := rfl
    have hc := h.open_of_accepting hok
    have torn : ∀ {f : Fault}, (e.definition.get? f.sourceNode).isSome = true →
        TearsDown e (e.faultInstance e.root f) := by
      intro f hf
      obtain ⟨hooks, ha⟩ := (hc.faultRoot hf).2.aftermath
      exact ⟨hooks, ha.toTold, fun _ => ha.spared⟩
    exact torn known

/-- A call of the host only tears down, or it is a piece of work. -/
theorem Regular.serves (h : e.Regular) {c : ExecutorCall} (hc : c.isSingle = true) :
    TearsDown e (c.serve e).2 ∨ Works Nobody e (c.serve e).2 := by
  cases c with
  | run | runOneStep | takeJournal => exact absurd hc Bool.false_ne_true
  | resumeBookmark b v p => exact .inl (.of_passage (.resumeBookmark b v p))
  | cancel => exact h.cancels
  | terminate reason => exact .inl (h.terminate_tearsDown reason)
  | abort reason => exact .inl (h.abort_tearsDown reason)
  | complete operation result =>
    rw [ExecutorCall.serve, completeHandle_own]
    exact .inl (.of_passage (.of_eq rfl rfl rfl rfl))
  | _ => exact .inl (.of_passage (.of_eq rfl rfl rfl rfl))

/-- Nothing happens to the instances while a workflow is saved and restored. -/
theorem Regular.returns (h : e.Regular) {now : Timestamp} {s : Snapshot} {d : Definition}
    {mailbox : Nat} (hc : e.capture now = .ok s) (hr : s.restore d mailbox = .ok r) :
    Passage Nobody Nobody e [] { r with journal := e.journal } := by
  obtain ⟨u, hu, -, hr⟩ := h.of_restore hc hr
  have same : r.instances = u ∧ r.root = e.root ∧ r.nextInstance = e.nextInstance := by
    rw [hr]
    split
    · unfold finishWorkflow
      split <;> exact ⟨rfl, rfl, rfl⟩
    · exact ⟨rfl, rfl, rfl⟩
  obtain ⟨rfl, hroot, hnext⟩ := same
  refine ⟨hroot, Nat.le_of_eq hnext.symm, ⟨[], (List.append_nil _).symm, rfl⟩, fun hj => ?_,
    fun hj _ _ _ => ?_⟩
  · obtain ⟨i, node, fault, hi, -, rfl⟩ := hu.cases hj
    exact .inl ⟨i, hi, {}⟩
  · obtain ⟨node, fault, hi⟩ := hu.exists_of_lookup hj
    exact .inr (.inl ⟨_, hi⟩)

/-- What every turn of a regular executor does. -/
theorem Regular.conduct (h : e.Regular) (t : Turn e d e') :
    ∃ x call m hooks, Conduct e d e' x call m hooks := by
  cases t with
  | announced => exact ⟨_, _, _, _, .still sameCore_announce.instances sameCore_announce.root
      sameCore_announce.nextInstance⟩
  | entered | collected | hosted | altered => exact ⟨_, _, _, _, .still rfl rfl rfl⟩
  | stepped ho ha hs hj =>
    obtain ⟨D, hw, hD, hob⟩ := h.stepped ho ha hs
    exact hw.conduct hj hD hob
  | settled =>
    have hs : e.settle.2.instances = e.instances ∧ e.settle.2.root = e.root ∧
        e.settle.2.nextInstance = e.nextInstance := by
      unfold Executor.settle
      split
      · exact ⟨rfl, rfl, rfl⟩
      · split <;> exact ⟨rfl, rfl, rfl⟩
    exact ⟨_, _, _, _, .still hs.1 hs.2.1 hs.2.2⟩
  | served hc hj =>
    rcases h.serves hc with ⟨hooks, ha, hs⟩ | hw
    · exact ⟨_, _, _, _, .of_told (j := _) ha hs (ha.passage.calls_eq hj) rfl⟩
    · refine hw.conduct hj (fun _ hk => hk.elim) fun hk => ?_
      exact absurd hk.symm (Option.some_ne_none _)
  | restored hc hr => exact ⟨_, _, _, _, .of_passage (h.returns hc hr) rfl rfl⟩

end Executor

end Workflow
