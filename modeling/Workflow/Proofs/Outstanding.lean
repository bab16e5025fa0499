import Workflow.Proofs.Possession
import Workflow.Proofs.Reliance

/-!
# Operations complete at most once

An operation is outstanding from the start of its owner until its completion is done, it is abandoned,
or its owner ends. Its identifier is given out once. A completion that comes too late finds it gone. As
long as its owner is live between two items of work, it is outstanding, and the workflow cannot be
captured.
-/

namespace Workflow

open Moment

variable {P : Moment → Event → Prop} {m m' : Moment} {ev : Event} {evs : List Event}
variable {x k : InstanceId} {o : OperationId} {i : Instance} {w : WorkItem} {r : Errand}
variable {e e' : Executor} {a : QueuedItem} {call : Option Call}

/-- The operations that begin, with their owners, in order. -/
def beginnings (evs : List Event) : List (InstanceId × OperationId) :=
  evs.filterMap Event.begins?

theorem beginnings_cons (ev : Event) (evs : List Event) :
    beginnings (ev :: evs) = ev.begins?.toList ++ beginnings evs :=
  filterMap_cons_toList Event.begins? ev evs

namespace Executor

/-! ### The start of an operation -/

/-- Only the first run of an asynchronous activity starts an operation. -/
theorem Sends.of_start (h : Sends e w r) (hr : r.callback = .start o) :
    ∃ i body, w = .execute r.id ∧ e.instances[r.id]? = some i ∧ i.executed = false ∧
      i.state = .executing ∧ e.behaviour? r.id = some (.async body) ∧
      r = (e.trackState r.id .executing).startErrand r.id (.async body) := by
  cases h with
  | @execute x i b hi hb hx hs =>
    cases b with
    | code program | native body => cases hr
    | async body => exact ⟨i, body, rfl, hi, hx, hs, hb, rfl⟩
  | @cancel x i b r hi hb hl hc hx hr' =>
    cases b with
    | code program => cases hr'
    | native body | async body =>
      cases hr'
      cases hr
  | _ => cases hr

/-- What is done when the start of an operation has ended. -/
theorem Sends.after_start (h : Sends e w r) (hr : r.callback = .start o) (a : r.Result) :
    r.after a e' = e'.hasRun r.id := by
  cases h with
  | @execute x i b =>
    cases b with
    | code program | native body => cases hr
    | async body => rfl
  | @cancel x i b r hi hb hl hc hx hr' =>
    cases b with
    | code program => cases hr'
    | native body | async body =>
      cases hr'
      cases hr
  | _ => cases hr

/-- Whoever has run has run after that. -/
theorem executed_hasRun (hi : (e.hasRun x).instances[x]? = some i) : i.executed = true := by
  obtain ⟨j, hj, wanes⟩ := (Wanes.tryComplete (B := Nobody)).back hi
  obtain ⟨l, -, ⟨-, rfl⟩ | ⟨hx, -⟩⟩ := lookup_modify_cases hj
  · exact wanes.executed rfl
  · exact absurd rfl hx

/-! ### Faults -/

/-- Whoever faults is not live any more. -/
theorem not_isLive_markFaulted (f : Fault) : (e.markFaulted x f).isLive x = false := by
  rw [Bool.eq_false_iff]
  intro hl
  obtain ⟨i, hi, live⟩ := isLive_iff.mp hl
  rw [faulted_markFaulted hi] at live
  exact Bool.false_ne_true live

theorem not_isLive_propagate (n : Nat) (f : Fault) : (propagate (n + 1) x f e).isLive x = false := by
  unfold propagate
  cases hi : e.instance? x with
  | none =>
    rw [isLive, hi]
    rfl
  | some i =>
    dsimp only
    have dead := not_isLive_markFaulted (e := e) (x := x) f
    split
    · next ht =>
      rw [isLive, hi, Option.any_some, Bool.eq_false_iff]
      intro live
      exact absurd ht (by rw [ActivityState.not_terminal_of_isLive live]; decide)
    · have tracked : ∀ handler, Wanes Nobody (e.markFaulted x f)
          ((e.markFaulted x f).trackFault f handler) :=
        fun handler => .of_sameCore (sameCore_trackFault f handler)
      split
      · exact ((tracked none).trans .finishWorkflow).not_isLive dead
      · next parent _ _ _ => exact ((tracked (some parent)).trans (.enqueue _)).not_isLive dead
      · exact (Wanes.propagate (B := Nobody) n f).not_isLive dead

theorem not_isLive_faultInstance (hi : e.instances[x]? = some i) (f : Fault) :
    (e.faultInstance x f).isLive x = false := by
  obtain ⟨n, hn⟩ : ∃ n, e.instances.size = n + 1 := by
    refine Nat.exists_eq_succ_of_ne_zero fun hz => ?_
    rw [Std.ExtTreeMap.eq_empty_iff_size_eq_zero.mpr hz] at hi
    simp at hi
  rw [faultInstance, hn]
  exact not_isLive_propagate n f

theorem not_isLive_raise (error : ActivityError) : (e.raise x error).isLive x = false := by
  unfold raise
  cases hi : e.instance? x with
  | none =>
    dsimp only
    rw [isLive, hi]
    rfl
  | some i => exact not_isLive_faultInstance hi _

end Executor

/-! ### An operation begins -/

/-- An operation begins when an asynchronous activity runs for the first time. -/
theorem Goes.begins (g : Goes m ev m') (hb : ev.begins? = some (x, o)) :
    ∃ e a q r, m = between e ∧ m' = during r r.called r.program ∧ e.queue.items = a :: q.items ∧
      ¬ e.IsOver ∧ r.id = x ∧ r.callback = .start o ∧ Executor.Sends { e with queue := q } a.item r := by
  cases g with
  | @opened e a q r ho ha hi hn hr =>
    obtain ⟨id, callback, program, before, after⟩ := r
    cases callback with
    | start o' =>
      cases hb
      exact ⟨e, a, q, _, rfl, rfl, hi, Executor.not_isOver ho ha, rfl, rfl,
        Executor.sends_of_errand hr⟩
    | _ => cases hb
  | _ => cases hb

/-- It gets the next number. -/
theorem Goes.begins_next (g : Goes m ev m') (hb : ev.begins? = some (x, o)) :
    o = ⟨m.executor.nextOperation⟩ ∧
      m'.executor.nextOperation = m.executor.nextOperation + 1 := by
  obtain ⟨e, a, q, r, rfl, rfl, -, -, rfl, hc, sends⟩ := g.begins hb
  obtain ⟨i, body, -, -, -, -, -, hr⟩ := sends.of_start hc
  have next : (Executor.trackState { e with queue := q } r.id .executing).nextOperation =
      e.nextOperation := (Executor.sameCore_trackState _ _).nextOperation
  rw [hr] at hc ⊢
  cases hc
  exact ⟨congrArg OperationId.mk next, congrArg (· + 1) next⟩

/-- An operation that is outstanding was outstanding, or it has just begun. -/
theorem Goes.outstanding (g : Goes m ev m') (h : m.Sound) (ho : m'.executor.operations[o]? = some k) :
    m.executor.operations[o]? = some k ∨ ev.begins? = some (k, o) := by
  refine ((g.brings h).operations ho).imp_right fun ⟨⟨o', hb⟩, low⟩ => ?_
  obtain ⟨rfl, next⟩ := g.begins_next hb
  have given := (g.sound h).owned.begun ho
  have same : o.number = m.executor.nextOperation := by omega
  have latest : o = ⟨m.executor.nextOperation⟩ := congrArg OperationId.mk same
  exact latest ▸ hb

/-! ### Along a life -/

namespace Lifetime

/-- Numbers of operations are given out in ascending order. -/
theorem nextOperation_le (t : Lifetime P m evs m') (h : m.Sound) :
    m.executor.nextOperation ≤ m'.executor.nextOperation := by
  refine (t.induct (Q := fun m' => m.executor.nextOperation ≤ m'.executor.nextOperation)
    (fun sound le _ g => Nat.le_trans le (g.brings sound).nextOperation)
    (fun sound le hc hr => ?_) h (Nat.le_refl _)).2
  exact Nat.le_trans le
    (Executor.Wanes.restored (B := Executor.Nobody) sound.regular hc hr).nextOperation

/-- The operations that begin in a life have numbers of that life. -/
theorem begun (t : Lifetime P m evs m') (h : m.Sound) (hb : (x, o) ∈ beginnings evs) :
    m.executor.nextOperation ≤ o.number ∧ o.number < m'.executor.nextOperation := by
  induction t with
  | refl => exact absurd hb List.not_mem_nil
  | @step m m₁ m' ev evs g hp t ih =>
    rw [beginnings_cons, List.mem_append, Option.mem_toList] at hb
    rcases hb with hb | hb
    · obtain ⟨rfl, next⟩ := g.begins_next hb
      have later := t.nextOperation_le (g.sound h)
      rw [next] at later
      exact ⟨Nat.le_refl _, later⟩
    · obtain ⟨low, high⟩ := ih (g.sound h) hb
      exact ⟨Nat.le_trans (g.brings h).nextOperation low, high⟩
  | @restored e r _ _ _ _ _ _ hc hr t ih =>
    have sound : Executor.Sound e := h
    obtain ⟨low, high⟩ := ih (sound.restored hc hr) hb
    have next := (Executor.Wanes.restored (B := Executor.Nobody) sound.regular hc hr).nextOperation
    exact ⟨Nat.le_trans next low, high⟩

/-- No identifier of an operation is given out twice. -/
theorem ascending (t : Lifetime P m evs m') (h : m.Sound) :
    (beginnings evs).Pairwise fun a b => a.2.number < b.2.number := by
  induction t with
  | refl => exact .nil
  | @step m m₁ m' ev evs g hp t ih =>
    rw [beginnings_cons]
    cases hb : ev.begins? with
    | none => exact ih (g.sound h)
    | some b =>
      refine .cons (fun c hc => ?_) (ih (g.sound h))
      obtain ⟨same, next⟩ := g.begins_next hb
      obtain ⟨low, -⟩ := t.begun (g.sound h) hc
      rw [same]
      exact Nat.lt_of_lt_of_le (by rw [next]; exact Nat.lt_succ_self _) low
  | @restored e r _ _ _ _ _ _ hc hr t ih =>
    have sound : Executor.Sound e := h
    exact ih (sound.restored hc hr)

/-- An operation that is outstanding was outstanding, or it has begun since. -/
theorem outstanding (t : Lifetime P m evs m') (h : m.Sound)
    (ho : m'.executor.operations[o]? = some k) :
    m.executor.operations[o]? = some k ∨ (k, o) ∈ beginnings evs := by
  induction t with
  | refl => exact .inl ho
  | @step m m₁ m' ev evs g hp t ih =>
    rw [beginnings_cons, List.mem_append, Option.mem_toList]
    rcases ih (g.sound h) ho with old | new
    · exact (g.outstanding h old).imp_right .inl
    · exact .inr (.inr new)
  | @restored e r _ _ _ _ _ _ hc hr t ih =>
    have sound : Executor.Sound e := h
    refine (ih (sound.restored hc hr) ho).imp_left fun old => ?_
    exact ((Executor.Wanes.restored (B := Executor.Nobody) sound.regular hc hr).operations
      old).resolve_right fun new => new.1

/-- An operation that has begun and is not outstanding is not outstanding any more. -/
theorem gone (t : Lifetime P m evs m') (h : m.Sound) (hn : o.number < m.executor.nextOperation)
    (ho : m.executor.operations[o]? = none) : m'.executor.operations[o]? = none := by
  rw [Option.eq_none_iff_forall_ne_some] at ho ⊢
  intro k hk
  rcases t.outstanding h hk with old | new
  · exact ho k old
  · exact absurd (t.begun h new).1 (Nat.not_le.mpr hn)

end Lifetime

/-! ### The owner of an operation -/

/-- Who is alone runs no child, and no bookmark or resumption makes it wait. -/
theorem Executor.Alone.busy_eq {X : InstanceId → Prop} (h : e.Alone x) (hc : e.Consistent X)
    (hi : e.instances[x]? = some i) (hl : i.state.isLive = true) :
    i.busy = OperationTable.owed e.operations x := by
  have childless : i.children = [] := by
    refine List.eq_nil_iff_forall_not_mem.mpr fun c hm => ?_
    obtain ⟨j, hj, hp⟩ := hc.placed.tree.linked hi hm
    exact h.childless hj hp
  have unbooked : e.bookmarks.blocking x = 0 := Registry.blocking_eq_zero fun _ _ hg => h.unbooked hg
  have unresumed : e.queue.releasing x = 0 := by
    refine List.countP_eq_zero.mpr fun w hw hr => ?_
    exact absurd (WorkItem.resumes_of_releases hr) (by rw [h.unresumed hw]; exact Bool.false_ne_true)
  have busy := hc.balanced x i hi hl
  rw [Executor.dues, unbooked, unresumed, childless] at busy
  simpa using busy

/-- Nobody relies on a live instance that has not run. -/
theorem Executor.Consistent.alone (h : e.Consistent Executor.Nobody) (hi : e.instances[x]? = some i)
    (hl : i.state.isLive = true) (hx : i.executed = false) : e.Alone x where
  childless hj hp := by
    obtain ⟨-, idle, -⟩ := h.placed.queued hi hl id hx
    obtain ⟨q, hq, hm⟩ := h.placed.tree.listed hj hp
    cases hi.symm.trans hq
    have busy := h.balanced x i hi hl
    have none_left := List.length_pos_of_mem hm
    omega
  unbooked hg owner := by
    subst owner
    exact absurd (h.awake.registered hg hi hl id) (by rw [hx]; exact Bool.false_ne_true)
  unresumed hw := by
    rw [Bool.eq_false_iff]
    intro resumes
    exact absurd (h.awake.resumed hw resumes hi hl id) (by rw [hx]; exact Bool.false_ne_true)

/-- An instance runs an asynchronous activity and is being started or has run. Nobody relies on it, and
it waits for one operation at most. -/
structure Moment.Engaged (m : Moment) (x : InstanceId) (o : OperationId) : Prop where
  async : ∀ {i : Instance}, m.executor.instances[x]? = some i →
    (m.executor.definition.node i.node).body.kind = .async
  alone : m.executor.Alone x
  only : ∀ {o' : OperationId}, m.executor.operations[o']? = some x → o' = o
  ran : ∀ {i : Instance}, m.executor.instances[x]? = some i →
    i.executed = true ∨ ∃ r e rest, m = during r e rest ∧ r.id = x ∧ r.callback = .start o
  apart : ∀ r e rest, m = during r e rest → r.kind = .native → r.id ≠ x

/-- Whoever begins an operation is engaged with it. -/
theorem Goes.engages (g : Goes m ev m') (h : m.Sound) (hb : ev.begins? = some (x, o)) :
    x.number < m'.executor.nextInstance ∧ m'.Engaged x o := by
  have sound := g.sound h
  have abides := (g.ensues h).abides
  have new {o' : OperationId} (ho : m'.executor.operations[o']? = some x) :=
    (g.outstanding h ho).imp_right fun hb' => congrArg Prod.snd (Option.some.inj (hb'.symm.trans hb))
  have goesAlone := g.alone (x := x) h
  obtain ⟨e, a, q, r, rfl, rfl, hi, hn, rfl, hc, sends⟩ := g.begins hb
  obtain ⟨consistent, -⟩ := Executor.Regular.working_of_items (Executor.Sound.regular h) hn hi
  obtain ⟨i, body, -, there, hx, hs, behaviour, hr⟩ := sends.of_start hc
  have live : i.state.isLive = true := by rw [hs]; rfl
  have below := consistent.placed.tree.below there
  have alone := consistent.alone there live hx
  have busy := alone.busy_eq consistent there live
  obtain ⟨-, idle, -⟩ := consistent.placed.queued there live id hx
  obtain ⟨_, _, _, pending⟩ := sound
  obtain ⟨X, running⟩ := pending.running
  refine ⟨Nat.lt_of_lt_of_le below abides.next, fun hj => ?_,
    goesAlone alone (fun _ _ _ hm => by cases hm) running.consistent.opened, fun ho => ?_,
    fun _ => .inr ⟨r, _, _, rfl, rfl, hc⟩, fun _ _ _ hm native => ?_⟩
  · obtain ⟨j, hj, same⟩ := abides.kinds hj below
    cases there.symm.trans hj
    obtain ⟨l, hl, code⟩ := Option.map_eq_some_iff.mp behaviour
    cases there.symm.trans hl
    refine same.trans ?_
    change ((e.definition.node i.node).body.behaviour).kind = .async
    rw [code]
    rfl
  · refine (new ho).resolve_left fun old => ?_
    have owes := OperationTable.owed_erase e.operations old r.id
    rw [if_pos rfl] at owes
    omega
  · cases hm
    rw [hr] at native
    cases native

/-- It has run once its start is over. -/
theorem Goes.ran (g : Goes m ev m') (h : m.Sound) (hx : x.number < m.executor.nextInstance)
    (he : m.Engaged x o) (hl : m'.executor.isLive x = true)
    (hi : m'.executor.instances[x]? = some i) :
    i.executed = true ∨ ∃ r e rest, m' = during r e rest ∧ r.id = x ∧ r.callback = .start o := by
  obtain ⟨j, hj, wanes⟩ :=
    ((g.brings h).back hi).resolve_right fun ⟨new, _⟩ => absurd hx (Nat.not_lt.mpr new)
  rcases he.ran hj with done | ⟨r, e, rest, rfl, rfl, hc⟩
  · exact .inl (wanes.executed done)
  · cases g with
    | answered => exact .inr ⟨r, _, _, rfl, rfl, hc⟩
    | @closed _ _ a =>
      obtain ⟨_, _, _, pending⟩ := h
      change (r.after a e).instances[r.id]? = some _ at hi
      rw [(Executor.sends_of_errand pending.errand).after_start hc a] at hi
      exact .inl (Executor.executed_hasRun hi)
    | crashed => exact absurd hl (by rw [executor, Executor.not_isLive_raise]; exact Bool.false_ne_true)

/-- It runs no callback of a native activity. -/
theorem Goes.apart (g : Goes m ev m') (h : m.Sound) (he : m.Engaged x o)
    (hi : m'.executor.instances[x]? = some i)
    (async : (m'.executor.definition.node i.node).body.kind = .async) {r : Errand} {e : Executor}
    {rest : Program r.kind r.Result} (hm : m' = during r e rest) (native : r.kind = .native) :
    r.id ≠ x := by
  intro own
  have sound := g.sound h
  cases g with
  | opened _ _ _ _ hr =>
    cases hm
    obtain ⟨body, hb⟩ := (Executor.sends_of_errand hr).native native
    have kind := (Executor.IsNative.of_nativeBody (fun {i} hi => (sound.tree hi).below hi) hb).native
      (own ▸ hi)
    cases kind.symm.trans async
  | answered =>
    cases hm
    exact he.apart _ _ _ rfl native own
  | _ => cases hm

/-- It stays engaged as long as it is live. -/
theorem Goes.engaged (g : Goes m ev m') (h : m.Sound) (hx : x.number < m.executor.nextInstance)
    (he : m.Engaged x o) (hl : m'.executor.isLive x = true) : m'.Engaged x o := by
  have async {i : Instance} (hi : m'.executor.instances[x]? = some i) :
      (m'.executor.definition.node i.node).body.kind = .async := by
    obtain ⟨j, hj, same⟩ := (g.ensues h).abides.kinds hi hx
    exact same.trans (he.async hj)
  refine ⟨async, g.alone h he.alone he.apart ((g.sound h).outcome_of_isLive hl), fun ho => ?_,
    g.ran h hx he hl, fun r e rest hm native => ?_⟩
  · refine (g.outstanding h ho).elim he.only fun hb => ?_
    -- An instance that has run is not started again.
    obtain ⟨e, a, q, r, rfl, rfl, -, -, rfl, hc, sends⟩ := g.begins hb
    obtain ⟨i, body, -, there, fresh, -⟩ := sends.of_start hc
    rcases he.ran there with done | ⟨_, _, _, hm, -⟩
    · exact absurd done (by rw [fresh]; exact Bool.false_ne_true)
    · cases hm
  · obtain ⟨i, hi, -⟩ := Executor.isLive_iff.mp hl
    exact g.apart h he hi (async hi) hm native

/-- Between two items of work a live instance waits for the operation that it is engaged with. -/
theorem Moment.Engaged.outstanding (he : (between e).Engaged x o) (h : e.Sound)
    (hl : e.isLive x = true) : e.operations[o]? = some x := by
  have consistent := h.regular.consistent_of_isLive hl
  obtain ⟨i, hi, live⟩ := Executor.isLive_iff.mp hl
  have ran : i.executed = true := by
    rcases he.ran hi with done | ⟨_, _, _, hm, -⟩
    · exact done
    · cases hm
  have alone : Executor.Alone { e with state := .runnable } x :=
    ⟨he.alone.childless, he.alone.unbooked, he.alone.unresumed⟩
  have waits : OperationTable.owed e.operations x ≠ 0 :=
    alone.busy_eq consistent hi live ▸ consistent.placed.waiting hi live id ran
  obtain ⟨o', ho⟩ := OperationTable.exists_of_owed_ne_zero _ waits
  exact he.only ho ▸ ho

/-- While an operation is outstanding the workflow cannot be captured. -/
theorem Executor.capture_of_outstanding (ho : e.operations[o]? = some x) (now : Timestamp) :
    (∃ reason, e.capture now = .error (.notIdle reason)) ∨
      ∃ n, e.capture now = .error (.operationsOutstanding n) := by
  have some_left : e.operations.size ≠ 0 := fun hz => by
    rw [Std.ExtTreeMap.eq_empty_iff_size_eq_zero.mpr hz] at ho
    simp at ho
  have refused : (∃ reason, e.ensureCapturable = .error (.notIdle reason)) ∨
      ∃ n, e.ensureCapturable = .error (.operationsOutstanding n) := by
    unfold ensureCapturable
    split
    · exact .inl ⟨_, rfl⟩
    · split
      · exact .inl ⟨_, rfl⟩
      · split
        · exact .inl ⟨_, rfl⟩
        · exact .inr ⟨_, rfl⟩
  refine refused.imp (fun ⟨reason, hr⟩ => ⟨reason, ?_⟩) fun ⟨n, hr⟩ => ⟨n, ?_⟩
  · rw [Executor.capture, hr]
    rfl
  · rw [Executor.capture, hr]
    rfl

/-- Whoever has begun an operation is engaged with it as long as it is live. -/
theorem Lifetime.engaged (t : Lifetime P m evs m') (h : m.Sound) (hb : (x, o) ∈ beginnings evs)
    (hl : m'.executor.isLive x = true) : m'.Engaged x o := by
  have goesOn {m m' : Moment} {evs : List Event} (t : Lifetime P m evs m') (h : m.Sound)
      (he : x.number < m.executor.nextInstance ∧ (m.executor.isLive x = true → m.Engaged x o)) :
      x.number < m'.executor.nextInstance ∧ (m'.executor.isLive x = true → m'.Engaged x o) := by
    refine (t.induct (Q := fun m => x.number < m.executor.nextInstance ∧
      (m.executor.isLive x = true → m.Engaged x o)) (fun sound he _ g => ?_)
      (fun sound he hc hr => ?_) h he).2
    · refine ⟨Nat.lt_of_lt_of_le he.1 (g.ensues sound).abides.next, fun hl => ?_⟩
      obtain ⟨i, hi, live⟩ := Executor.isLive_iff.mp hl
      obtain ⟨j, hj, wanes⟩ := ((g.brings sound).back hi).resolve_right fun ⟨new, _⟩ =>
        absurd he.1 (Nat.not_lt.mpr new)
      exact g.engaged sound he.1 (he.2 (Executor.isLive_iff.mpr ⟨j, hj, wanes.live live⟩)) hl
    · -- A workflow with a live owner is not captured.
      refine ⟨Nat.lt_of_lt_of_le he.1 (sound.regular.returns hc hr).later, fun hl => ?_⟩
      have was := (Executor.Wanes.restored (B := Executor.Nobody) sound.regular hc hr).isLive hl
      rcases Executor.capture_of_outstanding ((he.2 was).outstanding sound was) _ with
        ⟨_, refused⟩ | ⟨_, refused⟩
      · cases refused.symm.trans hc
      · cases refused.symm.trans hc
  suffices engaged : x.number < m'.executor.nextInstance ∧
    (m'.executor.isLive x = true → m'.Engaged x o) from engaged.2 hl
  clear hl
  induction t with
  | refl => exact absurd hb List.not_mem_nil
  | @step m m₁ m' ev evs g hp t ih =>
    rw [beginnings_cons, List.mem_append, Option.mem_toList] at hb
    rcases hb with hb | hb
    · obtain ⟨below, engaged⟩ := g.engages h hb
      exact goesOn t (g.sound h) ⟨below, fun _ => engaged⟩
    · exact ih (g.sound h) hb
  | @restored e r _ _ _ _ _ _ hc hr t ih =>
    have sound : Executor.Sound e := h
    exact ih (sound.restored hc hr) hb

/-! ### Completions -/

/-- An item is taken, and nothing else happens. -/
def Skips (m : Moment) (a : QueuedItem) (call : Option Call) (m' : Moment) : Prop :=
  call = none ∧ ∃ (e : Executor) (q : WorkQueue), m = between e ∧ e.queue.items = a :: q.items ∧
    q.nextArrival = e.queue.nextArrival ∧ m' = between { e with queue := q }

/-- The completion of an operation that is not outstanding does nothing. -/
theorem Goes.skips {result : Except ActivityError Value} (g : Goes m (.took a call) m')
    (ha : a.item = .operation o result) (ho : m.executor.operations[o]? = none) :
    Skips m a call m' := by
  cases g with
  | @passed e a q _ _ hi hn hr =>
    refine ⟨rfl, e, q, rfl, hi, hn, congrArg between ?_⟩
    have idle : e.operations[o]? = none := ho
    rw [ha, Executor.dispatch, Executor.completeOperation]
    dsimp only
    rw [idle]
  | @opened e a q r _ _ _ _ hr =>
    have idle : e.operations[o]? = none := ho
    rw [ha, Executor.errand?, Executor.operationErrand?] at hr
    dsimp only at hr
    rw [idle] at hr
    cases hr

/-- What the completion of an operation does while its owner waits for it. -/
structure Completes (m : Moment) (x : InstanceId) (o : OperationId)
    (result : Except ActivityError Value) (a : QueuedItem) (call : Option Call) (m' : Moment) :
    Prop where
  live : m.executor.isLive x = true
  removed : m'.executor.operations[o]? = none
  /-- A value is passed to the owner. -/
  finishes : ∀ v, result = .ok v → call = some (x, .finish v)
  /-- An error is a fault of the owner. -/
  faults : ∀ error, result = .error error → call = none ∧ m'.executor.isLive x = false ∧
    ∃ i q, m.executor.instances[x]? = some i ∧ m.executor.queue.items = a :: q.items ∧
      m' = between ((Executor.completed { m.executor with queue := q } o x).faultInstance x
        ⟨error, x, i.node, (m.executor.definition.node i.node).name, false⟩)
  /-- No body is called but for that, apart from abort hooks. -/
  journal : ∃ l, m'.executor.journal = m.executor.journal ++ l ∧
    ((calls l).filter fun c => !c.2.isAbort) = call.toList

namespace Executor

/-- Completing an operation leaves its owner where it is. -/
theorem lookup_completed (hi : e.instances[x]? = some i) :
    (e.completed o x).instances[x]? = some { i with busy := i.busy - 1 } := by
  refine (lookup_modify e x x fun i => { i with busy := i.busy - 1 }).trans ?_
  rw [if_pos rfl, hi]
  rfl

theorem completeOperation_error (ho : e.operations[o]? = some x) (hi : e.instances[x]? = some i)
    (hl : i.state.isLive = true) (error : ActivityError) :
    e.completeOperation o (.error error) = (e.completed o x).faultInstance x
      ⟨error, x, i.node, (e.definition.node i.node).name, false⟩ := by
  have live : isLive { e with operations := e.operations.erase o } x = true :=
    isLive_iff.mpr ⟨i, hi, hl⟩
  have there : (e.completed o x).instance? x = some { i with busy := i.busy - 1 } :=
    lookup_completed hi
  unfold completeOperation
  rw [ho]
  dsimp only
  rw [live]
  change (e.completed o x).raise x error = _
  unfold raise
  rw [there]
  rfl

/-- Nobody is called for an error. -/
theorem operationErrand?_error (error : ActivityError) :
    e.operationErrand? o (.error error) = none := by
  unfold operationErrand?
  split
  · rfl
  · dsimp only
    split <;> rfl

theorem operationErrand?_value (ho : e.operations[o]? = some x) (hi : e.instances[x]? = some i)
    (hl : i.state.isLive = true) (hk : (e.definition.node i.node).body.kind = .async) (v : Value) :
    ∃ body, e.operationErrand? o (.ok v) = some ((e.completed o x).finishErrand x v body) := by
  have live : isLive { e with operations := e.operations.erase o } x = true :=
    isLive_iff.mpr ⟨i, hi, hl⟩
  obtain ⟨body, hb⟩ : ∃ body, (e.definition.node i.node).body.behaviour = .async body := by
    unfold Body.kind at hk
    cases hb : (e.definition.node i.node).body.behaviour with
    | async body => exact ⟨body, rfl⟩
    | code _ | native _ =>
      rw [hb] at hk
      cases hk
  have behaviour : (e.completed o x).behaviour? x = some (.async body) := by
    have there : (e.completed o x).instance? x = some { i with busy := i.busy - 1 } :=
      lookup_completed hi
    rw [behaviour?, there]
    exact congrArg some hb
  refine ⟨body, ?_⟩
  unfold operationErrand?
  rw [ho]
  dsimp only
  rw [live, behaviour]
  rfl

end Executor

/-- What is not outstanding before a fault is not outstanding after it. -/
theorem Executor.operations_completed_faultInstance (g : Fault) :
    ((e.completed o x).faultInstance x g).operations[o]? = none := by
  refine Option.eq_none_iff_forall_ne_some.mpr fun k hk => ?_
  have left := ((Executor.Wanes.faultInstance (B := Executor.Nobody) g).operations
    hk).resolve_right fun new => new.1
  have erased : (e.completed o x).operations[o]? = none := (Table.lookup_erase ..).trans (if_pos rfl)
  exact Option.some_ne_none k (left.symm.trans erased)

/-- Taking the result of an outstanding operation completes it. -/
theorem Goes.completes {result : Except ActivityError Value} (g : Goes m (.took a call) m')
    (h : m.Sound) (ha : a.item = .operation o result) (ho : m.executor.operations[o]? = some x) :
    Completes m x o result a call m' := by
  obtain ⟨live, kind⟩ := h.owned.operation ho
  have journal := (g.ensues h).journal rfl
  obtain ⟨i, hi, hl⟩ := Executor.isLive_iff.mp live
  rw [Executor.nodeOf, Executor.instance?, hi] at kind
  -- The body is called for a value, and only then.
  cases g with
  | @passed e a q _ _ items _ hr =>
    rw [ha] at hr
    cases result with
    | ok v =>
      obtain ⟨body, errand⟩ :=
        Executor.operationErrand?_value (e := { e with queue := q }) ho hi hl kind v
      cases hr.symm.trans errand
    | error error =>
      have ends := Executor.completeOperation_error (e := { e with queue := q }) ho hi hl error
      change ∃ l, (Executor.dispatch { e with queue := q } a.item).journal = _ ∧ _ at journal
      rw [ha] at journal ⊢
      change ∃ l, (Executor.completeOperation { e with queue := q } o _).journal = _ ∧ _ at journal
      rw [ends] at journal
      rw [Executor.dispatch, ends]
      refine ⟨live, Executor.operations_completed_faultInstance _, fun _ hv => (by cases hv),
        fun error' he => ?_, journal⟩
      cases he
      have there := Executor.lookup_completed (e := { e with queue := q }) (o := o) hi
      exact ⟨rfl, Executor.not_isLive_faultInstance there _, i, q, hi, items, rfl⟩
  | @opened e a q r _ _ _ _ hr =>
    rw [ha] at hr
    cases result with
    | ok v =>
      obtain ⟨body, errand⟩ :=
        Executor.operationErrand?_value (e := { e with queue := q }) ho hi hl kind v
      cases hr.symm.trans errand
      refine ⟨live, (Table.lookup_erase ..).trans (if_pos rfl), fun v' hv => ?_,
        fun _ he => (by cases he), journal⟩
      cases hv
      rfl
    | error error => cases hr.symm.trans (Executor.operationErrand?_error error)

/-! ### Once -/

/-- What holds of the operations of a workflow at a moment, after what has happened in its life. -/
structure CompletesOnce (evs : List Event) (m : Moment) : Prop where
  /-- No identifier of an operation was given out twice. -/
  ascending : (beginnings evs).Pairwise fun a b => a.2.number < b.2.number
  /-- Whatever is outstanding was begun by its owner, which is live. -/
  begun : ∀ {o : OperationId} {x : InstanceId}, m.executor.operations[o]? = some x →
    (x, o) ∈ beginnings evs ∧ m.executor.isLive x = true
  /-- The completion of an outstanding operation ends it and passes the result to its owner. -/
  completes : ∀ {m' : Moment} {a : QueuedItem} {call : Option Call} {o : OperationId}
    {result : Except ActivityError Value} {x : InstanceId}, Goes m (.took a call) m' →
    a.item = .operation o result → m.executor.operations[o]? = some x →
    Completes m x o result a call m'
  /-- The completion of an operation that is not outstanding does nothing. -/
  skips : ∀ {m' : Moment} {a : QueuedItem} {call : Option Call} {o : OperationId}
    {result : Except ActivityError Value}, Goes m (.took a call) m' →
    a.item = .operation o result → m.executor.operations[o]? = none → Skips m a call m'
  /-- Once an operation is not outstanding any more, its completions do nothing, whatever happens. -/
  gone : ∀ {P : Moment → Event → Prop} {later : List Event} {n n' : Moment} {a : QueuedItem}
    {call : Option Call} {o : OperationId} {result : Except ActivityError Value} {x : InstanceId},
    (x, o) ∈ beginnings evs → m.executor.operations[o]? = none → Lifetime P m later n →
    Goes n (.took a call) n' → a.item = .operation o result → Skips n a call n'
  /-- As long as the owner of an operation is live, the operation is outstanding and the workflow cannot
  be captured. -/
  uncapturable : ∀ {e : Executor} {x : InstanceId} {o : OperationId}, m = between e →
    (x, o) ∈ beginnings evs → e.isLive x = true → e.operations[o]? = some x ∧ ∀ now,
      (∃ reason, e.capture now = .error (.notIdle reason)) ∨
        ∃ n, e.capture now = .error (.operationsOutstanding n)

/-- Whatever hosts and bodies do in the life of a workflow, over captures and restores, an operation
completes at most once. -/
theorem operations_complete_once {m₀ : Moment} (h : m₀.IsFirst) (t : Lifetime P m₀ evs m) :
    CompletesOnce evs m := by
  have sound := t.sound h.sound
  refine ⟨t.ascending h.sound, fun ho => ⟨?_, (sound.owned.operation ho).1⟩,
    fun g ha ho => g.completes sound ha ho, fun g ha ho => g.skips ha ho,
    fun hb ho life g ha => ?_, fun {e x o} he hb hl => ?_⟩
  · refine (t.outstanding h.sound ho).resolve_left fun old => ?_
    obtain ⟨workflow, a, inputs, mailbox, e, created, rfl⟩ := h
    obtain ⟨-, -, rfl⟩ := Executor.create_eq_ok.mp created
    have nothing : (∅ : OperationTable)[_]? = some _ := old
    simp at nothing
  · exact g.skips ha (life.gone sound (t.begun h.sound hb).2 ho)
  · subst he
    have outstanding := (t.engaged h.sound hb hl).outstanding sound hl
    exact ⟨outstanding, Executor.capture_of_outstanding outstanding⟩

/-- An activity waits for its operation, and the completion of that is queued. -/
def answeredCall : Executor :=
  (ExecutorCall.converse (Executor.begun (.pending "call"))
    [.run 5, .complete ⟨1⟩ (.ok .null), .drainInbox]).2

/-- When the completion is taken, the activity finishes with its value. -/
theorem operations_complete_once_answered : ∃ m evs, m.IsFirst ∧
    Lifetime (fun _ _ => True) m evs (between answeredCall) ∧
    CompletesOnce evs (between answeredCall) ∧ (⟨1⟩, ⟨1⟩) ∈ beginnings evs ∧
    ∃ a m', Goes (between answeredCall) (.took a (some (⟨1⟩, .finish .null))) m' ∧
      Completes (between answeredCall) ⟨1⟩ ⟨1⟩ (.ok .null) a (some (⟨1⟩, .finish .null)) m' := by
  have reachable : answeredCall.Reachable := (Executor.Reachable.begun rfl rfl).converse _
  obtain ⟨m, evs, first, life⟩ := reachable.lifetime
  have once := operations_complete_once first life
  have calls : (answeredCall.operations[(⟨1⟩ : OperationId)]?).any (· == ⟨1⟩) = true := by
    decide +kernel
  obtain ⟨o, ho, hoo⟩ := (Option.any_eq_true _ _).mp calls
  rw [beq_iff_eq.mp hoo] at ho
  have finishes : Goes (between answeredCall) (.took ⟨.normal, 1, .operation ⟨1⟩ (.ok .null)⟩ _) _ :=
    .opened (q := answeredCall.queue.clear) (r := (Executor.completed { answeredCall with
      queue := answeredCall.queue.clear } ⟨1⟩ ⟨1⟩).finishErrand ⟨1⟩ .null { start := fun _ => .done () })
      rfl (by decide +kernel) rfl rfl rfl
  exact ⟨m, evs, first, life, once, (once.begun ho).1, _, _, finishes, once.completes finishes rfl ho⟩

end Workflow
