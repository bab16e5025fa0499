import Workflow.Proofs.History
import Workflow.Proofs.Reloading

/-!
# Possession

Bookmarks, scopes and outstanding operations belong to live instances. An instance that completes,
faults or leaves has nothing any more when the turn is over.
-/

namespace Workflow

/-- An asynchronous activity that waits for its operation. -/
def Activity.pending (name : String) : Activity :=
  .mk name ⟨name, name, fun _ => [], .async { start := fun _ => .done () }⟩ [] [] []

namespace Executor

variable {e : Executor} {k : InstanceId}

/-- An instance owns a registered bookmark, a scope or an outstanding operation. -/
def Owns (e : Executor) (k : InstanceId) : Prop :=
  (∃ (b : Bookmark) (g : Registration), e.bookmarks.registrations[b]? = some g ∧ g.owner = k) ∨
    (∃ s : Uuid, e.bookmarks.scopes[s]? = some k) ∨
    ∃ o : OperationId, e.operations[o]? = some k

/-- Who owns something is live. -/
theorem Owned.isLive (h : e.Owned) (hk : e.Owns k) : e.isLive k = true := by
  rcases hk with ⟨b, g, hg, rfl⟩ | ⟨s, hs⟩ | ⟨o, ho⟩
  · exact h.bookmark hg
  · exact h.scope hs
  · exact (h.operation ho).1

/-- Between two items of work the owner of every bookmark, scope and outstanding operation is an
instance that executes or cancels. So one that has completed or left when a turn is over, whatever was
done in it, owns nothing any more. -/
theorem Reachable.owners_live (h : e.Reachable) :
    (∀ k : InstanceId, e.Owns k →
      ∃ i, e.instances[k]? = some i ∧ (i.state = .executing ∨ i.state = .canceling)) ∧
    ∀ (d : Deed) (e' : Executor), Turn e d e' → ∀ k : InstanceId,
      (∀ i, e'.instances[k]? = some i → i.state.isTerminal = true) → ¬ e'.Owns k := by
  refine ⟨fun k hk => ?_, fun d e' t k hend hk => ?_⟩
  · obtain ⟨i, hi, hl⟩ := isLive_iff.mp (h.regular.owned.isLive hk)
    refine ⟨i, hi, ?_⟩
    revert hl
    cases i.state <;> simp [ActivityState.isLive]
  · obtain ⟨i, hi, hl⟩ := isLive_iff.mp ((h.regular.turn t).owned.isLive hk)
    have ended := hend i hi
    rw [ActivityState.not_terminal_of_isLive hl] at ended
    exact absurd ended Bool.false_ne_true

/-- One activity waits with a scope and a bookmark, another one for its operation. -/
def holders : Executor :=
  (ExecutorCall.converse (begun (.parallel [.scopeKeeper "keeper", .pending "call"])) [.run 5]).2

/-- Both after the workflow was terminated. -/
def dispossessed : Executor :=
  ((ExecutorCall.terminate "stop").serve holders).2

/-- Both are live and own something, until the workflow is terminated. -/
theorem owners_live_holders : holders.Owns ⟨2⟩ ∧ holders.Owns ⟨3⟩ ∧
    (∀ k : InstanceId, holders.Owns k → ∃ i, holders.instances[k]? = some i ∧
      (i.state = .executing ∨ i.state = .canceling)) ∧
    ¬ dispossessed.Owns ⟨2⟩ ∧ ¬ dispossessed.Owns ⟨3⟩ := by
  have h : holders.Reachable := (Reachable.begun rfl rfl).converse _
  have waits : (holders.bookmarks.registrations[(⟨.default, "keeper"⟩ : Bookmark)]?).any
      (·.owner == ⟨2⟩) = true := by decide +kernel
  have calls : (holders.operations[(⟨1⟩ : OperationId)]?).any (· == ⟨3⟩) = true := by decide +kernel
  obtain ⟨g, hg, hgo⟩ := (Option.any_eq_true _ _).mp waits
  obtain ⟨o, ho, hoo⟩ := (Option.any_eq_true _ _).mp calls
  rw [beq_iff_eq.mp hoo] at ho
  obtain ⟨d, ends⟩ : ∃ d, Turn holders d dispossessed := h.regular.turn_serve rfl
  exact ⟨.inl ⟨_, g, hg, beq_iff_eq.mp hgo⟩, .inr (.inr ⟨_, ho⟩),
    h.owners_live.1, h.owners_live.2 d _ ends ⟨2⟩ (forall_of_isNone (by decide +kernel)),
    h.owners_live.2 d _ ends ⟨3⟩ (forall_of_isNone (by decide +kernel))⟩

end Executor

end Workflow
