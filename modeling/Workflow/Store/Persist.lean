import Workflow.Snapshot.Packed
import Workflow.Snapshot.Restore
import Workflow.Store

/-!
# Saving and loading workflows

An executor is saved as the octets of its snapshot and loaded from them. A failed save leaves the
executor as it was.
-/

namespace Workflow.Executor

/-- Save a workflow for an owner, releasing it if asked to. -/
def save (e : Executor) (store : Store) (s : Surroundings) (owner : OwnerId) (unlock : Bool) :
    Except EngineError Unit × Executor × Store :=
  match e.capture s.now with
  | .error error => (.error (.persistence error), e, store)
  | .ok snapshot =>
    let data : InstanceData := ⟨snapshot.encode, snapshot.summary s.now⟩
    match store.tryCommand s (.save owner e.workflow data e.state.isCompleted unlock) with
    | (.error error, store) => (.error (.store error), e, store)
    | (.ok _, store) =>
      let e := { e with persistRequested := false }.trackLifecycle .persisted
      (.ok (), if unlock then e.trackLifecycle .unloaded else e, store)

/-- The executor of loaded octets that are to be a given workflow. -/
def ofLoaded (definition : Definition) (workflow : WorkflowId) (mailbox : Nat)
    (outcome : CommandOutcome) : Except EngineError Executor :=
  match outcome.loaded? with
  | none => .error (.persistence (.invalidSnapshot "store returned no instance data"))
  | some data =>
    match Snapshot.decode data.bytes with
    | .error error => .error (.persistence error)
    | .ok snapshot =>
      if snapshot.workflow ≠ workflow then
        .error (.persistence (.invalidSnapshot
          ("store returned instance " ++ toString snapshot.workflow ++ " for " ++
            toString workflow)))
      else snapshot.restore definition mailbox

/-- Load a workflow for an owner. -/
def load (definition : Definition) (store : Store) (s : Surroundings) (owner : OwnerId)
    (workflow : WorkflowId) (mailbox : Nat) : Except EngineError Executor × Store :=
  match store.tryCommand s (.load owner workflow) with
  | (.error error, store) => (.error (.store error), store)
  | (.ok outcome, store) => (ofLoaded definition workflow mailbox outcome, store)

end Workflow.Executor
