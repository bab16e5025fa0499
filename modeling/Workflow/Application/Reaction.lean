import Workflow.Application.Waiting

/-!
# Calls, and reactions written as data

A host may hold its reactions as lists of steps, one list for each notice of a kind. This module
answers calls and plays reactions, whose steps are calls again.
-/

namespace Workflow.Host

variable (h : Host)

/-- Answer a call that is done or refused. -/
def answer {α : Type} (reply : α → Reply) : Except HostError α × Host → Reply × Host
  | (.ok a, h) => (reply a, h)
  | (.error error, h) => (.refused error, h)

/-- Make a call. -/
def perform (react : React) : HostCall → Reply × Host
  | .run => answer .outcome (h.run react)
  | .resume b v =>
    let (resumption, h) := h.resume b v
    (.resumption resumption, h)
  | .resumeAndRun b v => answer (fun r => .resumptionAndOutcome r.1 r.2) (h.resumeAndRun react b v)
  | .cancel => answer .outcome (h.cancel react)
  | .terminate reason => answer .outcome (h.terminate react reason)
  | .abort reason => answer (fun _ => .done) (h.abort react reason)
  | .persist => answer (fun _ => .done) h.persist
  | .unload => answer (fun _ => .done) (h.unload react)
  | .reload => answer (fun _ => .done) h.reload
  | .complete operation result =>
    let (completion, h) := h.complete operation result
    (.completion completion, h)
  | .waitForOperations arrivals =>
    let (w, h) := waitForOperations [] arrivals h
    (.waited w, h)
  | .runUntilIdle arrivals =>
    let (w, h) := runUntilIdle react h.stepLimit ⟨[], arrivals, none⟩ h
    (.ranUntilIdle w, h)
  | .isLoaded => (.truth h.application.isLoaded, h)
  | .state => (.state h.application.state?, h)
  | .bookmarks => answer .bookmarks (match h.application.executor with
    | some e => (.ok e.bookmarkInfos, h)
    | none => (.error (.notLoaded h.application.id), h))
  | .inspect => (.text h.application.inspect, h)

/-- Take the next reaction to a kind of notice. -/
def takeReaction (kind : NoticeKind) : Option (List ReactionStep × Host) :=
  match h.reactions.find? (·.1 == kind) with
  | none => none
  | some (_, steps) =>
    some (steps, { h with reactions := h.reactions.eraseP (·.1 == kind) })

/-- Take the steps of a reaction, the last choice counting. -/
def play (react : React) (kind : NoticeKind) :
    List ReactionStep → Option IdleAction × Host → Option IdleAction × Host
  | [], chosen => chosen
  | .choose action :: rest, (_, h) => play react kind rest (some action, h)
  | .call read :: rest, (chosen, h) =>
    let (reply, h) := match read h.scopeCount with
      | .ok c => h.perform react c
      | .error error => (.unreadable error, h)
    play react kind rest (chosen, h.log (.reply kind reply))

/-- React with the next list of steps, nested at most to a depth. -/
def reactTo : Nat → React
  | 0, _, h => (none, h)
  | depth + 1, n, h =>
    match h.takeReaction n.kind with
    | none => (none, h)
    | some (steps, h) => play (reactTo depth) n.kind steps (none, h)

/-- React with the next list of steps. Every reaction takes one list, so they nest no deeper than
there are lists. -/
def reaction : React := fun n h =>
  reactTo h.reactions.length n h

end Workflow.Host
