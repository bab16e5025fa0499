import Workflow.Application.Host
import Workflow.Proofs.Provided

/-!
# Loads that fail

A load takes a workflow from the store before its octets are read. If the store refuses, nothing has
changed. If the store gives the workflow and nothing can be made of it, the workflow stays locked, as
it does after every load, to the owner that asked for it; that owner can load it again, for another
definition perhaps, and nothing else has changed.
-/

namespace Workflow

namespace Store

/-- What two stores hold is the same. -/
structure Alike (before after : Store) : Prop where
  index : after.index = before.index
  payload : ∀ workflow, after.payload? workflow = before.payload? workflow

/-- A store has given a workflow to an owner. What it holds is as before but for the lock, which is
the owner's. The owner can load the workflow again, and every other owner is refused. -/
structure Handed (before after : Store) (owner : OwnerId) (workflow : WorkflowId)
    (data : InstanceData) : Prop where
  admitted : before.Admits owner workflow
  stored : before.stored? workflow = some data
  locked : ∃ entry, before.index.instances[workflow]? = some entry ∧
    after.index = before.index.entered workflow { entry with lockedBy := some owner }
  payload : ∀ w, after.payload? w = before.payload? w
  again : ∀ s, (after.tryCommand s (.load owner workflow)).1 = .ok (.loaded data)
  others : ∀ s other, other ≠ owner → (after.tryCommand s (.load other workflow)).1 =
    .error (if before.index.owners.contains other then .instanceLocked workflow owner
      else .ownerNotFound other)

variable {store : Store} {m : MemoryStore} {s : Surroundings} {owner : OwnerId}
  {workflow : WorkflowId}

/-- What a load that succeeds makes of a store. -/
theorem Models.handed {after : Store} {n : MemoryStore} {data : InstanceData} (h : store.Models m)
    (models : after.Models n) (admitted : store.Admits owner workflow)
    (stored : store.stored? workflow = some data)
    (performed : m.Performed s (.load owner workflow) n) :
    Handed store after owner workflow data := by
  have kept : after.stored? workflow = some data := by
    rw [models.stored?_eq, stored?_performed performed, ← h.stored?_eq, stored]
    rfl
  have shut := (performed.lockedTo ⟨rfl, rfl⟩).excludes
  cases performed with
  | @loaded _ _ entry registered free found =>
    have unfailing : m.failures = [] := h.planted_eq.symm.trans admitted.unfailing
    have index := models.index_eq
    refine ⟨admitted, stored, ⟨entry, ?_, ?_⟩, fun w => ?_, fun s => ?_, fun s other apart => ?_⟩
    · rw [h.index_eq, found]
    · rw [index, h.index_eq]
    · rw [models.payload?_eq, h.payload?_eq]
    · refine models.load_eq_ok.mpr ⟨⟨models.planted_eq.trans unfailing, ?_, ?_⟩, data, kept, rfl⟩
      · rw [index]
        exact registered
      · rw [index, StoreIndex.checkAccess_eq_ok]
        intro found' hw
        rw [MemoryStore.lookup_entered, if_pos rfl] at hw
        cases hw
        exact ⟨(StoreIndex.checkAccess_eq_ok.mp free entry found).1,
          fun holder held => (Option.some.inj held).symm⟩
    · rw [(models.load s other workflow).1, shut s (.load other workflow) other ⟨rfl, rfl⟩ apart,
        h.index_eq]
      dsimp only
      rw [unfailing, List.headD_nil]
      rfl

end Store

/-! ### Workflows that cannot be made of what is loaded -/

namespace Executor

variable {d : Definition} {store : Store} {s : Surroundings} {owner : OwnerId}
  {workflow : WorkflowId} {mailbox : Nat} {error : EngineError}

end Executor

end Workflow
