import Workflow.Bookmark
import Workflow.State

/-!
# Tracking

An executor reports every change of state as a numbered record. Each participant receives every
record; a participant that fails stops neither the others nor the workflow.
-/

namespace Workflow

/-- A change in the life of a workflow. -/
inductive LifecycleEvent where
  /-- The root was scheduled for the first time. -/
  | started
  /-- The workflow was restored. -/
  | loaded
  /-- The queue is empty. -/
  | idle
  /-- The workflow was saved. -/
  | persisted
  /-- The workflow was removed from memory. -/
  | unloaded
  /-- The root closed. -/
  | completed
  /-- The root was canceled. -/
  | canceled
  /-- The root faulted. -/
  | faulted
  /-- The host terminated the workflow. -/
  | terminated
  /-- The workflow was torn down. -/
  | aborted
deriving DecidableEq

/-- The name of a change in the life of a workflow. -/
def LifecycleEvent.label : LifecycleEvent → String
  | started => "Started"
  | loaded => "Loaded"
  | idle => "Idle"
  | persisted => "Persisted"
  | unloaded => "Unloaded"
  | completed => "Completed"
  | canceled => "Canceled"
  | faulted => "Faulted"
  | terminated => "Terminated"
  | aborted => "Aborted"

/-- How records refer to an instance. -/
structure ActivityInfo where
  /-- The instance. -/
  id : InstanceId
  /-- The path of its activity. -/
  path : String
  /-- The display name of its activity. -/
  name : String
deriving DecidableEq

/-- What a record reports. -/
inductive TrackingEvent where
  /-- The workflow changed. -/
  | lifecycle (event : LifecycleEvent)
  /-- A child was scheduled; the root has no parent. -/
  | scheduled (parent : Option ActivityInfo) (child : ActivityInfo)
  /-- An instance changed its state. -/
  | stateChanged (activity : ActivityInfo) (state : ActivityState)
  /-- A resumption reached the owner of its bookmark. -/
  | bookmarkResumed (b : Bookmark) (owner : ActivityInfo)
  /-- A fault reached a handler, or the root if there is none. -/
  | faultPropagated (source : ActivityInfo) (handler : Option ActivityInfo) (message : String)
deriving DecidableEq

/-- A numbered report. -/
structure TrackingRecord where
  /-- The workflow. -/
  workflow : WorkflowId
  /-- The number of the record. -/
  number : Nat
  /-- What is reported. -/
  event : TrackingEvent
deriving DecidableEq

/-- What a participant does with a record. -/
inductive Reaction where
  /-- It keeps the record. -/
  | keep
  /-- It returns an error. -/
  | fail
  /-- It breaks off. -/
  | panic
  /-- It looks at the record, and at those that it has kept, and keeps it or returns an error. -/
  | pick (keeps : List TrackingRecord → TrackingRecord → Bool)

/-- A participant and the records that it has kept. -/
structure Participant where
  /-- What it does with a record. -/
  reaction : Reaction
  /-- The records that it has kept, the latest first. -/
  kept : List TrackingRecord := []

/-- Pass a record to a participant. -/
def Participant.receive (p : Participant) (r : TrackingRecord) : Participant :=
  match p.reaction with
  | .keep => { p with kept := r :: p.kept }
  | .pick keeps => if keeps p.kept r then { p with kept := r :: p.kept } else p
  | .fail | .panic => p

/-- The participants of an executor and the numbering of its records. -/
structure TrackingProvider where
  /-- The participants. -/
  participants : List Participant := []
  /-- The number of the next record. -/
  nextRecord : Nat := 0
  /-- Whether records are passed on at all. -/
  enabled : Bool := true

namespace TrackingProvider

/-- Whether a record would reach a participant. -/
def isActive (t : TrackingProvider) : Bool :=
  t.enabled && !t.participants.isEmpty

/-- Number a report and pass it to every participant. -/
def emit (t : TrackingProvider) (workflow : WorkflowId) (event : TrackingEvent) :
    TrackingProvider :=
  if t.isActive then
    { t with
      participants := t.participants.map (·.receive ⟨workflow, t.nextRecord, event⟩)
      nextRecord := t.nextRecord + 1 }
  else t

/-- The fields of a provider for inspection. -/
def inspect (t : TrackingProvider) : String :=
  "TrackingProvider \x7b participants: " ++ toString t.participants.length ++
    ", next_record: " ++ toString t.nextRecord ++ ", enabled: " ++
    (if t.enabled then "true" else "false") ++ " \x7d"

end TrackingProvider

end Workflow
