import Workflow.Proofs.Retention

/-!
# What work takes away

Apart from what activities ask for, work brings nobody and takes away. Who is there was there, below
the same parent and in the same scope, and is live only if it was. A scope goes only with its owner,
and an operation that is gone does not come back.
-/

namespace Workflow

/-- An instance has kept its place and its scope, is live only if it was, and has run if it had. -/
structure Instance.Wanes (i j : Instance) : Prop where
  parent : i.parent = j.parent
  scope : i.scope = j.scope
  live : i.state.isLive = true → j.state.isLive = true
  executed : j.executed = true → i.executed = true

theorem Instance.Wanes.refl (i : Instance) : i.Wanes i :=
  ⟨rfl, rfl, fun h => h, fun h => h⟩

theorem Instance.Wanes.trans {i j l : Instance} (h : i.Wanes j) (h' : j.Wanes l) : i.Wanes l :=
  ⟨h.parent.trans h'.parent, h.scope.trans h'.scope, fun hi => h'.live (h.live hi),
    fun hl => h.executed (h'.executed hl)⟩

namespace Executor

variable {e e' e'' : Executor} {x k : InstanceId} {f : Instance → Instance}
variable {B : InstanceId → Prop}

/-- An executor goes on from another, and nobody comes. Only instances of `B` begin operations. -/
structure Wanes (B : InstanceId → Prop) (e e' : Executor) : Prop where
  back : ∀ {k : InstanceId} {i : Instance}, e'.instances[k]? = some i →
    ∃ j, e.instances[k]? = some j ∧ i.Wanes j
  /-- A scope stays as long as its owner is live. -/
  scopes : ∀ {s : Uuid} {o : InstanceId}, e.bookmarks.scopes[s]? = some o →
    e'.bookmarks.scopes[s]? = some o ∨ e'.isLive o = false
  nextOperation : e.nextOperation ≤ e'.nextOperation
  /-- An outstanding operation was outstanding, or it is new. -/
  operations : ∀ {o : OperationId} {k : InstanceId}, e'.operations[o]? = some k →
    e.operations[o]? = some k ∨ (B k ∧ e.nextOperation ≤ o.number)

/-- Who is put into a state that is not live is not live. -/
theorem not_isLive_modify (hf : ∀ i, (f i).state.isLive = false) : (e.modify x f).isLive x = false := by
  rw [isLive, instance?, lookup_modify, if_pos rfl]
  cases e.instances[x]? with
  | none => rfl
  | some i => exact hf i

namespace Wanes

/-- Who is live was live. -/
theorem isLive (h : Wanes B e e') (hl : e'.isLive k = true) : e.isLive k = true := by
  obtain ⟨i, hi, hl⟩ := isLive_iff.mp hl
  obtain ⟨j, hj, wanes⟩ := h.back hi
  exact isLive_iff.mpr ⟨j, hj, wanes.live hl⟩

theorem not_isLive (h : Wanes B e e') (hl : e.isLive k = false) : e'.isLive k = false := by
  rw [Bool.eq_false_iff] at hl ⊢
  exact fun hl' => hl (h.isLive hl')

theorem of_back (back : ∀ {k : InstanceId} {i : Instance}, e'.instances[k]? = some i →
      ∃ j, e.instances[k]? = some j ∧ i.Wanes j)
    (hb : e'.bookmarks.scopes = e.bookmarks.scopes) (hn : e'.nextOperation = e.nextOperation)
    (ho : e'.operations = e.operations) : Wanes B e e' :=
  ⟨back, fun hs => .inl (hb ▸ hs), Nat.le_of_eq hn.symm, fun hk => .inl (ho ▸ hk)⟩

theorem of_eq (hi : e'.instances = e.instances) (hb : e'.bookmarks.scopes = e.bookmarks.scopes)
    (hn : e'.nextOperation = e.nextOperation) (ho : e'.operations = e.operations) : Wanes B e e' :=
  .of_back (fun hk => ⟨_, hi ▸ hk, .refl _⟩) hb hn ho

theorem of_sameCore (h : SameCore e e') : Wanes B e e' :=
  .of_eq h.instances (by rw [h.bookmarks]) h.nextOperation h.operations

theorem refl (e : Executor) : Wanes B e e :=
  .of_sameCore (.refl e)

theorem enqueue (item : WorkItem) : Wanes B e (e.enqueue item) :=
  .of_eq rfl rfl rfl rfl

theorem trans (h : Wanes B e e') (h' : Wanes B e' e'') : Wanes B e e'' where
  back hk := by
    obtain ⟨j, hj, wanes'⟩ := h'.back hk
    obtain ⟨l, hl, wanes⟩ := h.back hj
    exact ⟨l, hl, wanes'.trans wanes⟩
  scopes hs := by
    rcases h.scopes hs with hs | hl
    · exact h'.scopes hs
    · exact .inr (h'.not_isLive hl)
  nextOperation := Nat.le_trans h.nextOperation h'.nextOperation
  operations hk := by
    rcases h'.operations hk with hk | hn
    · exact h.operations hk
    · exact .inr ⟨hn.1, Nat.le_trans h.nextOperation hn.2⟩

theorem foldl {α : Type} {g : Executor → α → Executor} (hg : ∀ e a, Wanes B e (g e a)) (l : List α) :
    Wanes B e (l.foldl g e) := by
  induction l generalizing e with
  | nil => exact refl e
  | cons a rest ih => exact (hg e a).trans ih

/-- One instance wanes. -/
theorem of_modified (hf : ∀ i, e.instances[x]? = some i → (f i).Wanes i)
    (hi : e'.instances = e.instances.modify x f) (hb : e'.bookmarks.scopes = e.bookmarks.scopes)
    (hn : e'.nextOperation = e.nextOperation) (ho : e'.operations = e.operations) :
    Wanes B e e' := by
  refine .of_back (fun {k i} hk => ?_) hb hn ho
  rw [hi] at hk
  obtain ⟨j, hj, ⟨rfl, rfl⟩ | ⟨-, rfl⟩⟩ := lookup_modify_cases (e := e) hk
  · exact ⟨j, hj, hf j hj⟩
  · exact ⟨i, hj, .refl i⟩

theorem modify (hf : ∀ i, e.instances[x]? = some i → (f i).Wanes i) : Wanes B e (e.modify x f) :=
  .of_modified hf rfl rfl rfl rfl

theorem release (n : Nat) : Wanes B e (e.release x n) :=
  .of_modified (x := x) (f := fun i => { i with busy := i.busy - n }) (fun _ _ => ⟨rfl, rfl, id, id⟩)
    rfl rfl rfl rfl

/-- Operations go. -/
theorem drop {operations : Std.ExtTreeMap OperationId InstanceId}
    (ho : ∀ {o : OperationId} {k : InstanceId}, operations[o]? = some k →
      e.operations[o]? = some k) : Wanes B e { e with operations } :=
  ⟨fun hk => ⟨_, hk, .refl _⟩, .inl, Nat.le_refl _, fun hk => .inl (ho hk)⟩

/-- Operations of some owners go. -/
theorem drop_filter (p : OperationId → InstanceId → Bool) :
    Wanes B e { e with operations := e.operations.filter p } :=
  .drop fun hk => (Option.filter_eq_some_iff.mp ((Table.lookup_filter e.operations p _) ▸ hk)).1

/-- An instance leaves. -/
theorem erase (x : InstanceId) : Wanes B e { e with instances := e.instances.erase x } := by
  refine .of_back (fun {k i} hk => ?_) rfl rfl rfl
  rw [Table.lookup_erase] at hk
  split at hk
  · exact absurd hk.symm (Option.some_ne_none i)
  · exact ⟨i, hk, .refl i⟩

/-- Who is not live loses its scopes. -/
theorem removeScopes (hl : e.isLive x = false) : Wanes B e { e with
    bookmarks := (e.bookmarks.removeOwned x).removeScopes x } where
  back hk := ⟨_, hk, .refl _⟩
  scopes {s o} hs := by
    by_cases ho : o = x
    · exact .inr (ho ▸ hl)
    · refine .inl ?_
      change (e.bookmarks.scopes.filter fun _ o => o != x)[s]? = some o
      rw [Table.lookup_filter, hs, Option.filter_some, if_pos (bne_iff_ne.mpr ho)]
  nextOperation := Nat.le_refl _
  operations := .inl

theorem releaseResources (hl : e.isLive x = false) : Wanes B e (e.releaseResources x) := by
  have removed : Wanes B e _ := .removeScopes hl
  exact removed.trans (drop_filter fun _ o => o != x)

/-! ### Faults and completion -/

theorem finishWorkflow : Wanes B e e.finishWorkflow := by
  unfold Executor.finishWorkflow
  split
  · exact .refl e
  · next state o event _ =>
    have nothing : Wanes B e { e with operations := ∅ } := .drop fun hk => by simp at hk
    exact nothing.trans (.of_eq rfl rfl rfl rfl)

theorem abortInstance (reason : Fault) : Wanes B e (e.abortInstance reason x) := by
  unfold Executor.abortInstance
  split
  · exact .refl e
  · dsimp only
    split
    · exact .erase x
    · have hooked := sameCore_callAbortHook (e := e.releaseResources x) x reason
      have core := hooked.trans (sameCore_trackState (e := (e.releaseResources x).callAbortHook x reason)
        x .faulted)
      -- What the instance owned goes with it; it makes no difference that it goes first.
      have erased : Wanes B e { e with instances := e.instances.erase x } := .erase x
      have gone : Executor.isLive { e with instances := e.instances.erase x } x = false := by
        rw [Executor.isLive, instance?, Table.lookup_erase, if_pos rfl]
        rfl
      refine (erased.trans (.releaseResources gone)).trans
        (.of_eq ?_ ?_ core.nextOperation core.operations)
      · change Std.ExtTreeMap.erase _ x = _
        rw [core.instances]
        rfl
      · exact congrArg Registry.scopes core.bookmarks

theorem markFaulted (g : Fault) : Wanes B e (e.markFaulted x g) := by
  unfold Executor.markFaulted
  have marked : Wanes B e (e.modify x fun i => { i with state := .faulting, children := [] }) :=
    .modify fun _ _ => ⟨rfl, rfl, fun h => absurd h Bool.false_ne_true, id⟩
  have dead : (e.modify x fun i => { i with state := .faulting, children := [] }).isLive x = false :=
    not_isLive_modify fun _ => rfl
  have torn : Wanes B _ _ :=
    foldl (e := e.modify x fun i => { i with state := .faulting, children := [] })
      (fun e k => abortInstance (e := e) (x := k) g) (e.descendants x)
  have released := torn.trans (.releaseResources (torn.not_isLive dead))
  have struck := (marked.trans released).trans (modify (x := x)
    (f := fun i => { i with state := .faulted, busy := 0, fault := some g })
    fun _ _ => ⟨rfl, rfl, fun h => absurd h Bool.false_ne_true, id⟩)
  exact struck.trans (.of_sameCore (sameCore_trackState x .faulted))

theorem propagate (n : Nat) (g : Fault) : Wanes B e (propagate n x g e) := by
  induction n generalizing e x with
  | zero => exact .refl e
  | succ n ih =>
    unfold Executor.propagate
    split
    · exact .refl e
    · split
      · exact .refl e
      · have struck : Wanes B e (e.markFaulted x g) := .markFaulted g
        dsimp only
        split
        · exact (struck.trans (.of_sameCore (sameCore_trackFault g none))).trans .finishWorkflow
        · next parent _ _ _ =>
          have told := struck.trans (.of_sameCore (sameCore_trackFault g (some parent)))
          exact told.trans (.enqueue _)
        · exact struck.trans ih

theorem faultInstance (g : Fault) : Wanes B e (e.faultInstance x g) :=
  .propagate _ g

theorem raise (error : ActivityError) : Wanes B e (e.raise x error) := by
  unfold Executor.raise
  split
  · exact .refl e
  · exact .faultInstance _

theorem completeInstance : Wanes B e (e.completeInstance x) := by
  unfold Executor.completeInstance
  split
  · exact .refl e
  · next i _ =>
    dsimp only
    generalize hs : (if i.markedCanceled then ActivityState.canceled else .closed) = s
    have final : s.isLive = false := by
      rw [← hs]
      cases i.markedCanceled <;> rfl
    have marked : Wanes B e (e.modify x fun i => { i with state := s }) :=
      .modify fun _ _ => ⟨rfl, rfl, fun h => absurd (final.symm.trans h) Bool.false_ne_true, id⟩
    have dead : (e.modify x fun i => { i with state := s }).isLive x = false :=
      not_isLive_modify fun _ => final
    have ended : Wanes B e (e.ended x s) :=
      (marked.trans (.removeScopes dead)).trans (.of_sameCore (sameCore_trackState x s))
    split
    · exact ended.trans (.enqueue _)
    · exact ended.trans .finishWorkflow

theorem tryComplete : Wanes B e (e.tryComplete x) := by
  unfold Executor.tryComplete
  split
  · exact .completeInstance
  · exact .refl e

/-- A new operation has a number of its own. -/
theorem beginOperation (hx : B x) : Wanes B e (e.beginOperation x).2 where
  back {k i} hk := by
    obtain ⟨j, hj, ⟨rfl, rfl⟩ | ⟨-, rfl⟩⟩ := lookup_modify_cases
      (e := { e with nextOperation := e.nextOperation + 1 }) (f := Instance.incrementBusy) hk
    · exact ⟨j, hj, ⟨rfl, rfl, id, id⟩⟩
    · exact ⟨i, hj, .refl i⟩
  scopes := .inl
  nextOperation := Nat.le_succ _
  operations {o k} hk := by
    change (e.operations.insert _ x)[o]? = some k at hk
    rw [Table.lookup_insert] at hk
    split at hk
    · next ho =>
      cases hk
      exact .inr ⟨hx, Nat.le_of_eq (congrArg OperationId.number ho)⟩
    · exact .inl hk

end Wanes

end Executor

end Workflow
