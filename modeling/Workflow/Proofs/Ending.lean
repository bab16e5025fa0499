import Workflow.Proofs.Progress

/-!
# Ends on a plan

An instance that has run and waits for nothing completes; no fault has escaped below it. A failing
leaf faults, and so does everything above it up to the first handler or to the root. A parent that
has seen a child end stops waiting for it.
-/

namespace Workflow.Executor

variable {e e' : Executor} {plan : NodeId → Shape} {todo : InstanceId → List NodeId}
variable {X : InstanceId → Prop} {n m : Nat} {account rest : Account}
variable {x k p c : InstanceId} {i j r : Instance} {f : Fault}

namespace Pursues

/-- An instance that has run goes on to wait for its children. -/
theorem wait (h : e.Pursues plan todo (· = x) n account) (hi : e.instances[x]? = some i)
    (hl : i.state.isLive = true) (hx : i.executed = true) (hc : i.children ≠ [])
    (ha : Awaits e.definition plan e.instances i (todo x)) :
    e.Pursues plan todo Nobody n account :=
  { h with
    consistent := by
      refine h.consistent.excuse fun {k j} hk hj => ?_
      subst hk
      cases hi.symm.trans hj
      refine ⟨hl, hx, fun hb => hc ?_⟩
      exact List.eq_nil_of_length_eq_zero ((h.busy_eq hi hl).symm.trans hb)
    onPlan := by
      intro k j hj
      by_cases hk : k = x
      · subst hk
        cases hi.symm.trans hj
        exact .of_awaits (h.onPlan hi).fits hl ha
      · have planned := h.onPlan hj
        exact ⟨planned.fits, fun hf _ => planned.handled hf hk, fun hjl _ => planned.awaits hjl hk⟩ }

/-! ### The end of an instance -/

section Retiring

variable {gone : List InstanceId}

/-- Who is left when an instance has ended and what is below it has left is on the plan. -/
theorem onPlan_retired (h : e.Pursues plan todo X n account) (hr : Retires e e' x gone j)
    (hX : ∀ {k : InstanceId} {i : Instance}, X k → e.instances[k]? = some i → k = x ∨ k ∈ gone)
    (hj : j.Fits e.definition plan) :
    OnPlan e'.definition plan todo (· = x) e'.instances := by
  obtain ⟨i, hi, -⟩ := isLive_iff.mp hr.live
  rw [hr.definition]
  intro k o ho
  obtain ⟨hg, ⟨rfl, rfl⟩ | ⟨hk, ho⟩⟩ := hr.lookup_cases ho
  · exact .of_exempt hj rfl
  · refine (h.onPlan ho).keep rfl (fun hx => (hX hx ho).resolve_right hg) fun b hb a ha => ?_
    obtain ⟨s, hs, hsk⟩ := h.consistent.placed.tree.linked ho hb
    have stays : b ∉ gone := fun hbg => (hr.prunable.up hs hsk hbg).elim hg hk
    obtain ⟨o, ho, rfl⟩ := ha
    by_cases hbx : b = x
    · subst hbx
      cases hi.symm.trans ho
      exact ⟨j, hr.lookup_self, (hr.place hi).node⟩
    · exact ⟨o, (hr.lookup_of_ne stays hbx).trans ho, rfl⟩

/-- An instance that has ended stands for nothing, and nobody stands for more than before. -/
theorem bounded_retired (h : e.Pursues plan todo X (m + 3) account) (hr : Retires e e' x gone j) :
    e'.toDo plan todo ≤ m := by
  obtain ⟨i, hi, hl⟩ := isLive_iff.mp hr.live
  have live : ∀ {o : Instance}, j = o → o.state.isLive = false := by
    rintro o rfl
    rw [Bool.eq_false_iff]
    intro hl
    exact absurd hr.terminal (by rw [ActivityState.not_terminal_of_isLive hl]; decide)
  have ended : InstanceTable.share (workTally plan) todo e'.instances x = 0 :=
    InstanceTable.share_eq_zero fun o ho => live (Option.some.inj (hr.lookup_self.symm.trans ho))
  have less : ∀ k, InstanceTable.share (workTally plan) todo e'.instances k ≤
      InstanceTable.share (workTally plan) todo e.instances k := by
    intro k
    by_cases hg : k ∈ gone
    · rw [InstanceTable.share_eq_zero fun o ho => by
        rw [hr.lookup, if_pos hg] at ho
        exact absurd ho.symm (Option.some_ne_none o)]
      exact Nat.zero_le _
    · by_cases hk : k = x
      · rw [hk, ended]
        exact Nat.zero_le _
      · exact Nat.le_of_eq (InstanceTable.share_congr (hr.lookup_of_ne hg hk) rfl)
  have own : 3 ≤ InstanceTable.share (workTally plan) todo e.instances x := by
    rw [InstanceTable.share_live hi hl]
    exact Nat.le_add_right 3 _
  have left := InstanceTable.remaining_le (h.consistent.placed.tree.below hi) less
    (n := 3) (by rw [ended]; exact own)
  have before := h.bounded
  rw [toDo] at before ⊢
  rw [hr.nextInstance, hr.queue]
  omega

/-- The plan is pursued when an instance has ended below the root, and nobody has been told. -/
theorem retire (h : e.Pursues plan todo X (m + 3) account) (hr : Retires e e' x gone j)
    (hX : ∀ {k : InstanceId} {i : Instance}, X k → e.instances[k]? = some i → k = x ∨ k ∈ gone)
    (hj : j.Fits e.definition plan) (hx : x ≠ e.root) (hb : e'.inbox = e.inbox)
    (ht : (∀ k, (plan k).throws = false) → e'.toTell plan todo = rest) :
    e'.Pursues plan todo (· = x) m rest where
  blueprint := hr.definition ▸ h.blueprint
  consistent := hr.consistent hX h.consistent hx
  onPlan := h.onPlan_retired hr hX hj
  registrations := by
    refine Std.ExtTreeMap.ext_getElem? fun b => ?_
    rw [hr.registrations, h.registrations]
    simp
  operations := by
    refine Std.ExtTreeMap.ext_getElem? fun o => ?_
    rw [hr.operations, h.operations]
    simp
  inbox := hb.trans h.inbox
  expected w hw := by
    rw [hr.queue] at hw
    refine (h.expected w hw).of_states fun {_ k o} hreport ho => ?_
    obtain ⟨-, ⟨rfl, -⟩ | ⟨-, ho⟩⟩ := hr.lookup_cases ho
    · -- Nobody is told yet of an instance that was live.
      obtain ⟨i, hi, hl⟩ := isLive_iff.mp hr.live
      have ht := ((h.consistent.placed.reported hw hreport).2.2.1 i hi).1
      rw [ActivityState.not_terminal_of_isLive hl] at ht
      exact absurd ht Bool.false_ne_true
    · exact ⟨o, ho, rfl⟩
  bounded := h.bounded_retired hr
  told := ht

end Retiring

/-- A parent is told of a child that has ended, and whose fault it handles if there is one. -/
theorem report (h : e.Pursues plan todo (· = x) n account) {w : WorkItem}
    (hc : (e.enqueue w).Consistent Nobody) (hi : e.instances[x]? = some i)
    (ht : i.state.isTerminal = true) (hw : w.Expected e.instances)
    (hf : i.state = .faulted → ∀ {p : NodeId}, e.definition.isDeclaredChild p i.node = true →
      (plan p).isCatch = true) :
    (e.enqueue w).Pursues plan todo Nobody (n + w.load) account :=
  { h with
    consistent := hc
    onPlan := by
      intro k j hj
      by_cases hk : k = x
      · subst hk
        cases hi.symm.trans hj
        exact .of_terminal (h.onPlan hi).fits ht fun hs _ => hf hs
      · have planned := h.onPlan hj
        exact ⟨planned.fits, fun hs _ => planned.handled hs hk, fun hl _ => planned.awaits hl hk⟩
    expected := by
      intro v hv
      rcases WorkQueue.mem_work_push.mp hv with rfl | hv
      · exact hw
      · exact h.expected v hv
    bounded := by
      have before := h.bounded
      rw [toDo] at before
      change InstanceTable.remaining (workTally plan) todo e.instances e.nextInstance +
        (e.queue.push w).load ≤ n + w.load
      rw [WorkQueue.load_push]
      omega }

/-! ### Completion of an instance -/

/-- An instance that has run and waits for nothing completes. -/
theorem close (h : e.Pursues plan todo (· = x) n account) (hi : e.instances[x]? = some i)
    (hl : i.state.isLive = true) (hc : i.children = []) (ht : todo x = [])
    (he : (plan i.node).escapes = false)
    (hacc : (∀ k, (plan k).throws = false) → account = (accountTally plan).own i.node + rest) :
    Onward plan n rest (e.completeInstance x) := by
  have fits := (h.onPlan hi).fits
  have hb : i.busy = 0 := by rw [h.busy_eq hi hl, hc]; rfl
  have state : (if i.markedCanceled then ActivityState.canceled else .closed) = .closed := by
    rw [fits.unmarked]
    rfl
  have hr := h.consistent.retires_ended hi hl hb (.inr rfl)
  have silent := silent_trackState (e := { e.modify x fun i => { i with state := .closed } with
    bookmarks := (e.bookmarks.removeOwned x).removeScopes x }) x .closed
  have closed : Instance.Fits e.definition plan { i with state := .closed } :=
    ⟨fits.unasked, fits.unmarked, fits.called, .inr (.inl ⟨rfl, he⟩)⟩
  have said : (e.ended x .closed).said = e.said := said_congr silent.journal
  have told : (∀ k, (plan k).throws = false) → (e.ended x .closed).toTell plan todo = rest := by
    intro hp
    have before := h.told hp
    have parts : InstanceTable.remaining (accountTally plan) todo e.instances e.nextInstance =
        (accountTally plan).own i.node + InstanceTable.remaining (accountTally plan) todo
          (e.ended x .closed).instances e.nextInstance := by
      refine InstanceTable.remaining_ended (h.consistent.placed.tree.below hi) hi hl ht
        (fun o ho => ?_) fun k hk => hr.lookup_of_ne List.not_mem_nil hk
      cases hr.lookup_self.symm.trans ho
      rfl
    rw [toTell, parts, hacc hp, add_left_comm] at before
    rw [toTell, said, hr.nextInstance]
    exact add_left_cancel before
  cases hp : i.parent with
  | some p =>
    have hx : x ≠ e.root := h.consistent.placed.tree.ne_root hi hp
    have consistent := h.consistent.completeBelow (fun hk _ => hk) hi hl hb hp
    obtain ⟨m, rfl⟩ := h.exists_bound hi hl
    rw [completeInstance_below hi hp, state] at consistent ⊢
    have retired := h.retire hr (fun hk _ => .inl hk) closed hx silent.inbox told
    refine .inl ⟨todo, (retired.report consistent hr.lookup_self rfl trivial ?_).weaken ?_⟩
    · exact fun hf => ActivityState.noConfusion hf
    · exact Nat.add_le_add_left (show 1 ≤ 3 by decide) m
  | none =>
    have concluded := h.consistent.completeRoot hi hl hb hp
    have hx : x = e.root := h.consistent.placed.tree.orphan hi hp
    rw [completeInstance_root hi hp, state] at concluded ⊢
    obtain ⟨hinst, hroot, hdef, -, hjournal⟩ := finishWorkflow_keeps (e := e.ended x .closed)
    refine .inr ⟨concluded, fun {r} hr' => ?_, fun hp => ?_⟩
    · rw [hinst, hroot, hr.root, ← hx, hr.lookup_self] at hr'
      rw [hdef, hr.definition]
      cases hr'
      exact closed
    · have nothing : InstanceTable.remaining (accountTally plan) todo (e.ended x .closed).instances
          (e.ended x .closed).nextInstance = 0 := by
        refine InstanceTable.remaining_eq_zero fun {k o} ho => ?_
        rw [Bool.eq_false_iff]
        intro hol
        have dead := concluded.not_isLive k
        rw [isLive_iff.mpr ⟨o, hinst ▸ ho, hol⟩] at dead
        exact absurd dead.symm Bool.false_ne_true
      have all := told hp
      rw [toTell, nothing, add_zero] at all
      rw [said_congr hjournal]
      exact all

/-- An instance that has run completes if it waits for nothing, and otherwise goes on to wait. -/
theorem tryComplete (h : e.Pursues plan todo (· = x) n account) (hi : e.instances[x]? = some i)
    (hl : i.state.isLive = true) (hx : i.executed = true)
    (ha : Awaits e.definition plan e.instances i (todo x)) (ht : (plan i.node).isThrow = false)
    (hacc : (∀ k, (plan k).throws = false) →
      account = (if i.children = [] then (accountTally plan).own i.node else 0) + rest) :
    Onward plan n rest (e.tryComplete x) := by
  have busy := h.busy_eq hi hl
  unfold Executor.tryComplete
  rw [instance?, hi, Option.any_some, Instance.canComplete, hx,
    ActivityState.not_terminal_of_isLive hl, busy]
  by_cases hc : i.children = []
  · have nothing := ha.eq_nil hx hc
    rw [if_pos hc] at hacc
    rw [hc]
    refine h.close hi hl hc nothing ?_ hacc
    exact (nothing ▸ ha.covers).escapes h.blueprint (h.consistent.placed.tree.sound hi).known hc ht
  · have some_left : (i.children.length == 0) = false := by
      rw [beq_eq_false_iff_ne, Ne, List.length_eq_zero_iff]
      exact hc
    rw [if_neg hc, zero_add] at hacc
    rw [some_left]
    refine .inl ⟨todo, ?_⟩
    have waits := h.wait hi hl hx hc ha
    exact { waits with told := fun hp => (waits.told hp).trans (hacc hp) }

end Pursues

/-! ### Faults -/

/-- There may be less to do. -/
theorem Onward.weaken (h : Onward plan n account e) (hn : n ≤ m) : Onward plan m account e := by
  obtain ⟨todo, h⟩ | h := h
  · exact .inl ⟨todo, h.weaken hn⟩
  · exact .inr h

/-- The shape of a declared child is a child of the shape. -/
theorem mem_children_of_declared {d : Definition} (hb : Blueprint d plan) {a b : NodeId}
    (ha : (d.get? a).isSome = true) (hd : d.isDeclaredChild a b = true) :
    plan b ∈ (plan a).children := by
  obtain ⟨n, hn⟩ := Option.isSome_iff_exists.mp ha
  rw [← hb.children hn]
  exact List.mem_map_of_mem ((hb.declared hn).mp hd)

theorem inbox_callAbortHook (k : InstanceId) (reason : Fault) :
    (e.callAbortHook k reason).inbox = e.inbox := by
  unfold callAbortHook
  split
  · rfl
  · dsimp only
    split <;> rfl

/-- The removal of an instance brings no news of operations. -/
theorem inbox_abortInstance (reason : Fault) (k : InstanceId) :
    (e.abortInstance reason k).inbox = e.inbox := by
  unfold abortInstance
  split
  · rfl
  · dsimp only
    split
    · rfl
    · exact (silent_trackState k .faulted).inbox.trans (inbox_callAbortHook k reason)

/-- A fault brings no news of operations. -/
theorem inbox_markFaulted : (e.markFaulted x f).inbox = e.inbox := by
  have all : ∀ (below : List InstanceId) (e : Executor),
      (below.foldl (fun e k => e.abortInstance f k) e).inbox = e.inbox := by
    intro below
    induction below with
    | nil => exact fun _ => rfl
    | cons k rest ih => exact fun e => (ih _).trans (inbox_abortInstance f k)
  unfold markFaulted
  exact (silent_trackState x .faulted).inbox.trans (all _ _)

namespace Pursues

/-- Where a fault escapes, something can fail. -/
theorem not_throws {i : Instance} (he : (plan i.node).escapes = true)
    (hp : ∀ k, (plan k).throws = false) : False := by
  have throws := Shape.throws_of_escapes he
  rw [hp] at throws
  exact absurd throws Bool.false_ne_true

/-- A fault that escapes from a child that its parent does not handle escapes from the parent. -/
theorem escapes_parent (h : e.Pursues plan todo X n account) (hi : e.instances[x]? = some i)
    (hp : i.parent = some p) (hr : e.instances[p]? = some r) (hcb : i.faultCallback = none)
    (he : (plan i.node).escapes = true) : (plan r.node).escapes = true := by
  have declared := h.consistent.placed.tree.declared hi hp hr
  have called := (h.onPlan hi).fits.called declared
  have unhandled := Shape.isCatch_of_onFaulted_none (called.2.symm.trans hcb)
  have mem := mem_children_of_declared h.blueprint (h.consistent.placed.tree.sound hr).known declared
  rw [Shape.escapes_eq, unhandled, Bool.not_false, Bool.true_and, Bool.or_eq_true]
  exact .inr (List.any_eq_true.mpr ⟨_, mem, he⟩)

/-- A fault that escapes ends at a handler, who is told, or at the end of the workflow. -/
theorem propagate (fuel : Nat) (h : e.Pursues plan todo X n account) (hi : e.instances[x]? = some i)
    (hl : i.state.isLive = true)
    (hX : ∀ {k : InstanceId}, X k → k = x ∨ ∃ i, e.instances[k]? = some i ∧ i.parent = some x)
    (hn : InstanceTable.countUpTo e.instances x ≤ fuel) (he : (plan i.node).escapes = true)
    (hf : (e.definition.get? f.sourceNode).isSome = true) :
    Onward plan n account (Executor.propagate fuel x f e) := by
  induction fuel generalizing e X x i n with
  | zero => exact absurd (InstanceTable.countUpTo_pos hi) (Nat.not_lt.mpr hn)
  | succ fuel ih =>
    have hs := struck h.consistent.placed.tree h.consistent.owned hi hl hf
    have hr := hs.retires
    have ht := h.consistent.placed.tree
    have fits := (h.onPlan hi).fits
    have faulted : Instance.Fits e.definition plan
        { i with state := .faulted, children := [], busy := 0, fault := some f } :=
      ⟨fits.unasked, fits.unmarked, fits.called, .inr (.inr ⟨rfl, he⟩)⟩
    cases hp : i.parent with
    | none =>
      have hx : x = e.root := ht.orphan hi hp
      subst hx
      have concluded := (h.consistent.placed.propagate_root fuel h.consistent.owned
        h.consistent.sober hf).1
      unfold Executor.propagate at concluded ⊢
      rw [instance?, hi] at concluded ⊢
      dsimp only at concluded ⊢
      rw [ActivityState.not_terminal_of_isLive hl, if_neg Bool.false_ne_true, hp] at concluded ⊢
      obtain ⟨hinst, hroot, hdef, -, -⟩ :=
        finishWorkflow_keeps (e := (e.markFaulted e.root f).trackFault f none)
      refine .inr ⟨concluded, fun {r} hr' => ?_, fun hp => (not_throws he hp).elim⟩
      have found := hr.lookup_root
      rw [hinst, hroot] at hr'
      cases found.symm.trans hr'
      rw [hdef]
      exact hr.definition ▸ faulted
    | some p =>
      have hx : x ≠ e.root := ht.ne_root hi hp
      obtain ⟨m, rfl⟩ := h.exists_bound hi hl
      have retired : (e.markFaulted x f).Pursues plan todo (· = x) m account :=
        h.retire hr (fun hk _ => (hX hk).imp_right fun held => held.elim fun _ hj =>
          (mem_descendants_iff ht hi).mpr (.child hj.1 hj.2)) faulted hx inbox_markFaulted
          fun hp => (not_throws he hp).elim
      have hf' : ((e.markFaulted x f).definition.get? f.sourceNode).isSome = true :=
        hr.definition ▸ hf
      unfold Executor.propagate
      rw [instance?, hi]
      dsimp only
      rw [ActivityState.not_terminal_of_isLive hl, if_neg Bool.false_ne_true, hp]
      cases hcb : i.faultCallback with
      | some callback =>
        have consistent := retired.consistent.tellFault hr.lookup_self rfl hp hf' callback
        refine .inl ⟨todo, ((retired.of_silent (silent_trackFault f (some p))).report consistent
          hr.lookup_self rfl (fun o ho => ?_) fun _ {a} hd => ?_).weaken
            (Nat.add_le_add_left (show 2 ≤ 3 by decide) m)⟩
        · cases hr.lookup_self.symm.trans ho
          rfl
        · rw [show ((e.markFaulted x f).trackFault f (some p)).definition = e.definition from
            hr.definition] at hd
          exact Shape.isCatch_of_onFaulted ((fits.called hd).2.symm.trans hcb)
      | none =>
        obtain ⟨r, hr₀, hrl, -⟩ := parent_live h.consistent.placed.tree hi hp
        obtain ⟨hpx, hpg⟩ := parent_stays h.consistent.placed.tree hi hp
        refine Onward.weaken (ih retired ((hr.lookup_of_ne hpg hpx).trans hr₀) hrl (fun {k} hk => ?_) ?_
          (h.escapes_parent hi hp hr₀ hcb he) hf') (Nat.le_add_right m 3)
        · rw [hk]
          exact .inr ⟨_, hr.lookup_self, hp⟩
        · refine Nat.le_of_lt_succ (Nat.lt_of_le_of_lt (InstanceTable.countUpTo_mono ?_ p)
            (Nat.lt_of_lt_of_le (InstanceTable.countUpTo_lt hi (ht.older hi hp)) hn))
          intro k j hj
          obtain ⟨-, ⟨rfl, -⟩ | ⟨-, hj⟩⟩ := hr.lookup_cases hj
          · exact ⟨i, hi⟩
          · exact ⟨j, hj⟩

/-- A live instance from which a fault escapes faults with an error of its own. -/
theorem raise (h : e.Pursues plan todo (· = x) n account) (hi : e.instances[x]? = some i)
    (hl : i.state.isLive = true) (he : (plan i.node).escapes = true) (error : ActivityError) :
    Onward plan n account (e.raise x error) := by
  unfold Executor.raise
  rw [instance?, hi]
  exact h.propagate _ hi hl .inl (InstanceTable.countUpTo_le _ x) he
    (h.consistent.placed.tree.sound hi).known

/-! ### Children that have ended -/

/-- A parent that has seen a child stops waiting for it. -/
theorem drop (h : e.Pursues plan todo (· = c) n account) (hl : Leaving e p c i r) :
    ((e.dropChild p c).release p 1).Pursues plan todo (· = p) n account ∧
      ((e.dropChild p c).release p 1).instances[p]? =
        some { r with children := r.children.filter (· != c), busy := r.busy - 1 } ∧
      ∀ {b : InstanceId} {a : NodeId}, b ≠ c → Enacts e.instances b a →
        Enacts ((e.dropChild p c).release p 1).instances b a := by
  obtain ⟨s, hs⟩ : ∃ s : Instance, s =
    { r with children := r.children.filter (· != c), busy := r.busy - 1 } := ⟨_, rfl⟩
  obtain ⟨u, hu⟩ : ∃ u : InstanceTable, u = ((e.dropChild p c).release p 1).instances := ⟨_, rfl⟩
  have look : ∀ k : InstanceId, u[k]? =
      if k = c then none else if k = p then some s else e.instances[k]? := by
    intro k
    rw [hu]
    change ((e.dropChild p c).modify p _).instances[k]? = _
    rw [lookup_modify, hl.look]
    by_cases hk : p = k
    · subst hk
      rw [if_pos rfl, if_neg hl.ne, if_pos rfl, if_neg hl.ne, if_pos rfl, hs]
      rfl
    · rw [if_neg hk, if_neg (Ne.symm hk), if_neg (Ne.symm hk)]
  have found : u[p]? = some s := by
    rw [look, if_neg hl.ne, if_pos rfl]
  have sn : s.node = r.node := by rw [hs]
  have ss : s.state = r.state := by rw [hs]
  have cases : ∀ {k : InstanceId} {j : Instance}, u[k]? = some j →
      (k = p ∧ j = s) ∨ (k ≠ c ∧ k ≠ p ∧ e.instances[k]? = some j) := by
    intro k j hj
    rw [look] at hj
    split at hj
    · exact absurd hj.symm (Option.some_ne_none j)
    · next hkc =>
      split at hj
      · next hkp => exact .inl ⟨hkp, (Option.some.inj hj).symm⟩
      · next hkp => exact .inr ⟨hkc, hkp, hj⟩
  have enacts : ∀ {b : InstanceId} {a : NodeId}, b ≠ c → Enacts e.instances b a → Enacts u b a := by
    rintro b a hb ⟨o, ho, rfl⟩
    by_cases hbp : b = p
    · subst hbp
      cases hl.parent.symm.trans ho
      exact ⟨s, found, sn⟩
    · exact ⟨o, by rw [look, if_neg hb, if_neg hbp, ho], rfl⟩
  have shares : ∀ {M : Type} [AddCommMonoid M] (v : Tally M),
      InstanceTable.remaining v todo u e.nextInstance =
        InstanceTable.remaining v todo e.instances e.nextInstance := by
    intro M _ v
    refine InstanceTable.remaining_congr fun k => ?_
    by_cases hkc : k = c
    · subst hkc
      rw [InstanceTable.share_eq_zero fun o ho => by
          rw [look, if_pos rfl] at ho
          exact absurd ho.symm (Option.some_ne_none o),
        InstanceTable.share_eq_zero fun o ho => by
          cases hl.child.symm.trans ho
          exact Bool.eq_false_iff.mpr fun ho => hl.ne_of_live hl.child ho rfl]
    · by_cases hkp : k = p
      · subst hkp
        exact InstanceTable.share_same found hl.parent sn ss rfl
      · exact InstanceTable.share_congr (by rw [look, if_neg hkc, if_neg hkp]) rfl
  refine ⟨⟨h.blueprint, hl.dropped, ?_, h.registrations, h.operations, h.inbox, ?_, ?_, ?_⟩,
    hs ▸ hu ▸ found, hu ▸ enacts⟩
  · rw [← hu]
    intro k j hj
    rcases cases hj with ⟨rfl, rfl⟩ | ⟨hkc, hkp, hj⟩
    · refine .of_exempt ((h.onPlan hl.parent).fits.of_same sn ss ?_ ?_ ?_ ?_) rfl
      all_goals rw [hs]
    · refine (h.onPlan hj).keep rfl (fun hk => absurd hk hkc) fun b hb a => enacts ?_
      rintro rfl
      obtain ⟨o, ho, hok⟩ := h.consistent.placed.tree.linked hj hb
      cases hl.child.symm.trans ho
      exact hkp (Option.some.inj (hok.symm.trans hl.linked))
  · rw [← hu]
    intro w hw
    refine (h.expected w hw).of_states fun {_ k j} _ hj => ?_
    rcases cases hj with ⟨rfl, rfl⟩ | ⟨-, -, hj⟩
    · exact ⟨r, hl.parent, ss⟩
    · exact ⟨j, hj, rfl⟩
  · rw [toDo, ← hu]
    change InstanceTable.remaining (workTally plan) todo u e.nextInstance + e.queue.load ≤ n
    rw [shares]
    exact h.bounded
  · rw [toTell, ← hu]
    change _ → e.said + InstanceTable.remaining (accountTally plan) todo u e.nextInstance = account
    rw [shares]
    exact h.told

end Pursues

end Workflow.Executor
