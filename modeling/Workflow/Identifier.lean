import Workflow.Uuid

/-!
# Identifiers

Workflows and owners carry identifiers of 128 bits. Activity instances and operations are numbered
within their workflow, and nodes within their definition; no number is given out twice.
-/

namespace Workflow

/-- The identifier of an activity instance, unique within its workflow. -/
structure InstanceId where
  /-- The position in the order of creation. -/
  number : Nat
deriving DecidableEq

namespace InstanceId

instance : Ord InstanceId := ⟨compareOn number⟩

instance : Std.TransOrd InstanceId :=
  inferInstanceAs (Std.TransCmp (compareOn number))

instance : Std.LawfulEqOrd InstanceId where
  eq_of_compare {a b} h := by
    cases a
    cases b
    simpa using Std.LawfulEqOrd.eq_of_compare (α := Nat) h

instance : Inhabited InstanceId := ⟨⟨0⟩⟩

instance : ToString InstanceId := ⟨fun i => toString i.number⟩

end InstanceId

/-- The identifier of a node of a prepared definition. -/
structure NodeId where
  /-- The position among the nodes in pre-order. -/
  number : Nat
deriving DecidableEq

namespace NodeId

instance : Ord NodeId := ⟨compareOn number⟩

instance : Std.TransOrd NodeId :=
  inferInstanceAs (Std.TransCmp (compareOn number))

instance : Std.LawfulEqOrd NodeId where
  eq_of_compare {a b} h := by
    cases a
    cases b
    simpa using Std.LawfulEqOrd.eq_of_compare (α := Nat) h

instance : Inhabited NodeId := ⟨⟨0⟩⟩

instance : ToString NodeId := ⟨fun n => "#" ++ toString n.number⟩

/-- The root of every definition. -/
def root : NodeId := ⟨0⟩

end NodeId

/-- The identifier of an asynchronous operation, unique within its workflow. -/
structure OperationId where
  /-- The position in the order of beginning. -/
  number : Nat
deriving DecidableEq

namespace OperationId

instance : Ord OperationId := ⟨compareOn number⟩

instance : Std.TransOrd OperationId :=
  inferInstanceAs (Std.TransCmp (compareOn number))

instance : Std.LawfulEqOrd OperationId where
  eq_of_compare {a b} h := by
    cases a
    cases b
    simpa using Std.LawfulEqOrd.eq_of_compare (α := Nat) h

instance : Inhabited OperationId := ⟨⟨0⟩⟩

instance : ToString OperationId := ⟨fun o => "op-" ++ toString o.number⟩

end OperationId

/-- The identifier of a workflow, the unit that is saved and loaded. -/
structure WorkflowId where
  /-- The bits of the identifier. -/
  uuid : Uuid
deriving DecidableEq

namespace WorkflowId

instance : Ord WorkflowId := ⟨compareOn uuid⟩

instance : Std.TransOrd WorkflowId :=
  inferInstanceAs (Std.TransCmp (compareOn uuid))

instance : Std.LawfulEqOrd WorkflowId where
  eq_of_compare {a b} h := by
    cases a
    cases b
    simpa using Std.LawfulEqOrd.eq_of_compare (α := Uuid) h

instance : Inhabited WorkflowId := ⟨⟨default⟩⟩

instance : ToString WorkflowId := ⟨fun i => i.uuid.print⟩

end WorkflowId

/-- The identifier of a host registered with a store. -/
structure OwnerId where
  /-- The bits of the identifier. -/
  uuid : Uuid
deriving DecidableEq

namespace OwnerId

instance : Ord OwnerId := ⟨compareOn uuid⟩

instance : Std.TransOrd OwnerId :=
  inferInstanceAs (Std.TransCmp (compareOn uuid))

instance : Std.LawfulEqOrd OwnerId where
  eq_of_compare {a b} h := by
    cases a
    cases b
    simpa using Std.LawfulEqOrd.eq_of_compare (α := Uuid) h

instance : Inhabited OwnerId := ⟨⟨default⟩⟩

instance : ToString OwnerId := ⟨fun i => i.uuid.print⟩

end OwnerId

/-- The name under which an activity receives a callback; it is looked up again when the callback
is due, so a pending callback can be saved. -/
abbrev CallbackTag := String

end Workflow
