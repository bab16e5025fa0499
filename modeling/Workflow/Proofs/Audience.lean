import Workflow.Proofs.Telling

/-!
# Audiences

The receivers of records are the audience of a workflow. If it is enabled, every participant is passed
the same records, numbered one after another, whatever the others do with theirs.
-/

namespace Workflow

/-- The records of events, numbered from a number on. -/
def numbered (w : WorkflowId) : Nat → List TrackingEvent → List TrackingRecord
  | _, [] => []
  | n, x :: xs => ⟨w, n, x⟩ :: numbered w (n + 1) xs

theorem map_event_numbered (w : WorkflowId) (n : Nat) (xs : List TrackingEvent) :
    (numbered w n xs).map (·.event) = xs := by
  induction xs generalizing n with
  | nil => rfl
  | cons x xs ih => exact congrArg (x :: ·) (ih (n + 1))

/-- Pass records to a participant one after another. -/
def Participant.receiveAll (p : Participant) (rs : List TrackingRecord) : Participant :=
  rs.foldl receive p

/-- A participant that keeps records has all that were passed to it. -/
theorem Participant.receiveAll_keep {p : Participant} (hp : p.reaction = .keep)
    (rs : List TrackingRecord) : p.receiveAll rs = { p with kept := rs.reverse ++ p.kept } := by
  induction rs generalizing p with
  | nil => rfl
  | cons r rs ih =>
    have hr : p.receive r = { p with kept := r :: p.kept } := by
      unfold receive
      rw [hp]
    change (p.receive r).receiveAll rs = _
    rw [hr, ih (show Participant.reaction { p with kept := r :: p.kept } = .keep from hp),
      List.reverse_cons, List.append_assoc]
    rfl

namespace TrackingProvider

variable {t : TrackingProvider} {w : WorkflowId} {xs : List TrackingEvent}

theorem emit_of_active (ht : t.isActive = true) (w : WorkflowId) (x : TrackingEvent) :
    t.emit w x = { t with
      participants := t.participants.map (·.receive ⟨w, t.nextRecord, x⟩)
      nextRecord := t.nextRecord + 1 } :=
  if_pos ht

theorem isActive_emit (t : TrackingProvider) (w : WorkflowId) (x : TrackingEvent) :
    (t.emit w x).isActive = t.isActive := by
  cases ht : t.isActive with
  | false => rw [emit, if_neg (ht ▸ Bool.false_ne_true), ht]
  | true =>
    rw [emit_of_active ht]
    unfold isActive at ht ⊢
    rw [List.isEmpty_map]
    exact ht

theorem isActive_tell (t : TrackingProvider) (w : WorkflowId) (xs : List TrackingEvent) :
    (t.tell w xs).isActive = t.isActive := by
  induction xs generalizing t with
  | nil => rfl
  | cons x xs ih => exact (ih (t.emit w x)).trans (t.isActive_emit w x)

/-- Nobody is told anything if nobody listens. -/
theorem tell_of_inactive (ht : t.isActive = false) (w : WorkflowId) (xs : List TrackingEvent) :
    t.tell w xs = t := by
  induction xs with
  | nil => rfl
  | cons x xs ih =>
    have hx : t.emit w x = t := if_neg (ht ▸ Bool.false_ne_true)
    change (t.emit w x).tell w xs = t
    rw [hx, ih]

/-- Every participant is passed the same records, whatever the others do. -/
theorem tell_of_active (ht : t.isActive = true) (w : WorkflowId) (xs : List TrackingEvent) :
    t.tell w xs = { t with
      participants := t.participants.map (·.receiveAll (numbered w t.nextRecord xs))
      nextRecord := t.nextRecord + xs.length } := by
  induction xs generalizing t with
  | nil =>
    change t = { t with participants := t.participants.map id, nextRecord := t.nextRecord }
    rw [List.map_id]
  | cons x xs ih =>
    change (t.emit w x).tell w xs = _
    rw [ih ((t.isActive_emit w x).trans ht), emit_of_active ht]
    dsimp only
    rw [List.map_map, List.length_cons, Nat.add_right_comm, Nat.add_assoc]
    rfl

/-- What has become of the participants that were told of events. -/
theorem participants_tell (t : TrackingProvider) (w : WorkflowId) (xs : List TrackingEvent) :
    (t.tell w xs).participants =
      if t.enabled then t.participants.map (·.receiveAll (numbered w t.nextRecord xs))
      else t.participants := by
  cases ht : t.isActive with
  | true =>
    rw [tell_of_active ht, if_pos (Bool.and_eq_true_iff.mp ht).1]
  | false =>
    rw [tell_of_inactive ht]
    split
    · next he =>
      rw [isActive, he, Bool.true_and, Bool.not_eq_false', List.isEmpty_iff] at ht
      rw [ht]
      rfl
    · rfl

end TrackingProvider

end Workflow
