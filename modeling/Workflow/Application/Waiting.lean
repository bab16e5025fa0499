import Workflow.Application.Host

/-!
# Waiting for operations

A host waits until one of its workflow's operations is completed. The completions that arrive while
it waits are given as a list; when none is left the waiting goes on without a result.
-/

namespace Workflow.Host

variable (h : Host)

/-- Whether there is work to do or nothing to wait for. -/
def isReady : Except HostError (Bool × Host) :=
  h.useExecutor fun e =>
    let (count, e) := e.drainInbox
    (decide (0 < count) || e.hasRunnableWork || e.operations.size == 0, e)

/-- Wait for operations while completions arrive. -/
def waitForOperations (completions : List Completion) :
    List Arrival → Host → Waiting Unit × Host
  | arrivals, h =>
    match h.isReady with
    | .error error => (⟨completions, arrivals, some (.error error)⟩, h)
    | .ok (true, h) => (⟨completions, arrivals, some (.ok ())⟩, h)
    | .ok (false, h) =>
      match arrivals with
      | [] => (⟨completions, [], none⟩, h)
      | (operation, result) :: rest =>
        let (completion, h) := h.complete operation result
        waitForOperations (completions ++ [completion]) rest h

/-- Run and wait by turns, at most the given number of times, until the workflow completes or waits
for bookmarks alone. -/
def runUntilIdle (react : React) : Nat → Waiting Outcome → Host → Waiting Outcome × Host
  | 0, w, h => (w, h)
  | turns + 1, w, h =>
    match h.run react with
    | (.error error, h) => ({ w with result := some (.error error) }, h)
    | (.ok outcome, h) =>
      if outcome.isCompleted then ({ w with result := some (.ok outcome) }, h)
      else
        match h.application.executor with
        | none => ({ w with result := some (.error (.notLoaded h.application.id)) }, h)
        | some e =>
          if e.operations.size = 0 then ({ w with result := some (.ok outcome) }, h)
          else
            match waitForOperations w.completions w.arrivals h with
            | (⟨completions, arrivals, some (.ok ())⟩, h) =>
              runUntilIdle react turns ⟨completions, arrivals, none⟩ h
            | (⟨completions, arrivals, some (.error error)⟩, h) =>
              (⟨completions, arrivals, some (.error error)⟩, h)
            | (⟨completions, arrivals, none⟩, h) => (⟨completions, arrivals, none⟩, h)

end Workflow.Host
