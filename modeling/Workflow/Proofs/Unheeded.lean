import Workflow.Proofs.Conversation
import Workflow.Proofs.Hosting
import Workflow.Proofs.RecordOrder

/-!
# Audiences make no difference

Whoever listens to the reports of a workflow, its host gets the same answers and ends with the same
executor, and the same events are reported.
-/

namespace Workflow

/-- Only the receivers of records differ, in a way that reports do not change. -/
def Bond.ofTracking (T : WorkflowId → TrackingProvider → TrackingProvider → Prop)
    (hT : ∀ {w t t'}, T w t t' → ∀ x, T w (t.emit w x) (t'.emit w x)) : Bond where
  holds w g g' := T w g.tracking g'.tracking ∧ g' = { g with tracking := g'.tracking }
  lanes h := by rw [h.2]
  emit h x := ⟨hT h.1 x, by rw [h.2]; rfl⟩
  announce {w g g'} h root := by
    obtain ⟨ht, hg⟩ := h
    obtain ⟨m, t, a, q⟩ := g
    obtain ⟨m', t', a', q'⟩ := g'
    cases hg
    cases a with
    | none => exact ⟨ht, rfl⟩
    | some event =>
      unfold Guise.announce
      dsimp only
      split
      · cases root with
        | none => exact ⟨hT ht _, rfl⟩
        | some x => exact ⟨hT (hT ht _) x, rfl⟩
      · exact ⟨hT ht _, rfl⟩
  push h item p := ⟨h.1, by rw [h.2]⟩
  pop {w g g' item q q'} h hq hq' := by
    rw [h.2] at hq'
    cases hq.symm.trans hq'
    exact ⟨h.1, by rw [h.2]⟩
  clear h := ⟨h.1, by rw [h.2]⟩

namespace Executor

variable {e r : Executor} {t t' : TrackingProvider}

/-- Executors are so bonded if one has other receivers of records and is the same for the rest. -/
theorem bonded_ofTracking_iff {T : WorkflowId → TrackingProvider → TrackingProvider → Prop}
    {hT : ∀ {w t t'}, T w t t' → ∀ x, T w (t.emit w x) (t'.emit w x)} :
    Bonded (.ofTracking T hT) e r ↔ ∃ t, T e.workflow e.tracking t ∧ r = e.withTracking t := by
  constructor
  · rintro ⟨g, ⟨ht, hg⟩, rfl⟩
    refine ⟨g.tracking, ht, ?_⟩
    rw [hg]
    rfl
  · rintro ⟨t, ht, rfl⟩
    exact ⟨{ e.guise with tracking := t }, ⟨ht, rfl⟩, rfl⟩

/-- Of the same events two providers have been told. -/
def ToldAlike (t t' : TrackingProvider) (w : WorkflowId) (u u' : TrackingProvider) : Prop :=
  ∃ xs, u = t.tell w xs ∧ u' = t'.tell w xs

theorem ToldAlike.emit {w : WorkflowId} {u u' : TrackingProvider} (h : ToldAlike t t' w u u')
    (x : TrackingEvent) : ToldAlike t t' w (u.emit w x) (u'.emit w x) := by
  obtain ⟨xs, rfl, rfl⟩ := h
  exact ⟨xs ++ [x], (t.tell_append w xs [x]).symm, (t'.tell_append w xs [x]).symm⟩

/-- The receivers of one have been told what the receivers of the other have. -/
def retelling (t t' : TrackingProvider) : Bond :=
  .ofTracking (ToldAlike t t') ToldAlike.emit

theorem bonded_retelling_iff : Bonded (retelling t t') e r ↔
    ∃ xs, e.tracking = t.tell e.workflow xs ∧ r = e.withTracking (t'.tell e.workflow xs) := by
  rw [retelling, bonded_ofTracking_iff]
  constructor
  · rintro ⟨-, ⟨xs, he, rfl⟩, hr⟩
    exact ⟨xs, he, hr⟩
  · rintro ⟨xs, he, hr⟩
    exact ⟨_, ⟨xs, he, rfl⟩, hr⟩

/-- Nothing has been reported yet. -/
theorem bonded_attached (e : Executor) (t t' : TrackingProvider) :
    Bonded (retelling t t') (e.withTracking t) (e.withTracking t') :=
  bonded_retelling_iff.mpr ⟨[], rfl, rfl⟩

end Executor

namespace HostOperation

/-- Whether the receivers of records change. -/
def attaches : HostOperation → Bool
  | call c => c.attaches
  | _ => false

/-- What an answer to an operation is. -/
abbrev Response : HostOperation → Type
  | call c => c.Response
  | capture _ => Except PersistenceError Snapshot
  | save _ _ _ _ => Except EngineError Unit × Store

/-- The answer to an operation. -/
def answer (e : Executor) : (op : HostOperation) → op.Response
  | call c => (c.serve e).1
  | capture now => e.capture now
  | save store s owner unlock =>
    let (result, _, store) := e.save store s owner unlock
    (result, store)

end HostOperation

/-- What a host may do that has one audience for its workflow. -/
inductive HostMove where
  /-- It does something with its executor, and leaves the audience. -/
  | operate (op : HostOperation) (h : op.attaches = false)
  /-- It gives the audience to the executor, as if nothing had been reported yet. -/
  | attach
  /-- It puts an executor that is restored from the image of the present one in its place. -/
  | reload (now : Timestamp) (d : Definition) (mailbox : Nat)

namespace HostMove

/-- What an answer to a step is. -/
abbrev Response : HostMove → Type
  | operate op _ => op.Response
  | attach => Unit
  | reload _ _ _ => Except EngineError Unit

/-- Take a step with an audience. -/
def take (t : TrackingProvider) (e : Executor) : (s : HostMove) → s.Response × Executor
  | operate op _ => (op.answer e, op.after e)
  | attach => ((), e.withTracking t)
  | reload now d mailbox =>
    match e.capture now with
    | .error error => (.error (.persistence error), e)
    | .ok s =>
      match s.restore d mailbox with
      | .error error => (.error error, e)
      | .ok r => (.ok (), r.withTracking t)

/-- Take one step after another; the answers and the executor at the end. -/
def takeAll (t : TrackingProvider) (e : Executor) :
    List HostMove → List ((s : HostMove) × s.Response) × Executor
  | [] => ([], e)
  | s :: rest =>
    let (answer, e) := s.take t e
    let (answers, e) := takeAll t e rest
    (⟨s, answer⟩ :: answers, e)

end HostMove

namespace Executor

open HostMove (takeAll)

variable {e r : Executor} {t t' : TrackingProvider}

/-- The image of a workflow does not depend on the audience. -/
theorem capture_withTracking (e : Executor) (t : TrackingProvider) (now : Timestamp) :
    (e.withTracking t).capture now = e.capture now := by
  have hs : SameCore e (e.withTracking t) := {}
  exact hs.capture rfl now

namespace Bonded

/-- A workflow is saved alike by both. -/
theorem save (h : Bonded (retelling t t') e r) (store : Store) (s : Surroundings) (owner : OwnerId)
    (unlock : Bool) : (r.save store s owner unlock).1 = (e.save store s owner unlock).1 ∧
      (r.save store s owner unlock).2.2 = (e.save store s owner unlock).2.2 ∧
      Bonded (retelling t t') (e.save store s owner unlock).2.1 (r.save store s owner unlock).2.1 := by
  obtain ⟨xs, he, rfl⟩ := bonded_retelling_iff.mp h
  have hp : Bonded (retelling t t') { e with persistRequested := false }
      { e.withTracking (t'.tell e.workflow xs) with persistRequested := false } :=
    bonded_retelling_iff.mpr ⟨xs, he, rfl⟩
  unfold Executor.save
  rw [capture_withTracking]
  cases e.capture s.now with
  | error error => exact ⟨rfl, rfl, h⟩
  | ok snapshot =>
    dsimp only [withTracking]
    split
    · exact ⟨rfl, rfl, h⟩
    · have ht := hp.track (.lifecycle .persisted)
      refine ⟨rfl, rfl, ?_⟩
      dsimp only
      split
      · exact ht.track (.lifecycle .unloaded)
      · exact ht

/-- An operation is done alike with both. -/
theorem operate (h : Bonded (retelling t t') e r) {o : HostOperation} (ho : o.attaches = false) :
    Accord (retelling t t') (o.answer e, o.after e) (o.answer r, o.after r) := by
  cases o with
  | call c => exact h.serve ho
  | capture now =>
    refine ⟨?_, h⟩
    obtain ⟨_, -, rfl⟩ := bonded_retelling_iff.mp h
    exact e.capture_withTracking _ _
  | save store s owner unlock =>
    obtain ⟨hr, hs, hb⟩ := h.save store s owner unlock
    exact ⟨Prod.ext hr hs, hb⟩

/-- A step leads both to the same answer, and they still differ in the audience only. -/
theorem take (h : Bonded (retelling t t') e r) (s : HostMove) :
    Accord (retelling t t') (s.take t e) (s.take t' r) := by
  cases s with
  | operate op hop => exact h.operate hop
  | attach =>
    obtain ⟨xs, -, rfl⟩ := bonded_retelling_iff.mp h
    exact ⟨rfl, bonded_attached e t t'⟩
  | reload now d mailbox =>
    have hc : r.capture now = e.capture now := (h.operate (o := .capture now) rfl).1
    unfold HostMove.take
    dsimp only
    rw [hc]
    cases e.capture now with
    | error error => exact ⟨rfl, h⟩
    | ok s =>
      dsimp only
      cases s.restore d mailbox with
      | error error => exact ⟨rfl, h⟩
      | ok r => exact ⟨rfl, bonded_attached r t t'⟩

/-- So does one step after another. -/
theorem takeAll (h : Bonded (retelling t t') e r) (steps : List HostMove) :
    Accord (retelling t t') (HostMove.takeAll t e steps) (HostMove.takeAll t' r steps) := by
  induction steps generalizing e r with
  | nil => exact ⟨rfl, h⟩
  | cons s rest ih =>
    obtain ⟨ha, hb⟩ := h.take s
    obtain ⟨has, hbs⟩ := ih hb
    unfold HostMove.takeAll
    dsimp only
    rw [ha]
    exact ⟨congrArg (_ :: ·) has, hbs⟩

end Bonded

/-- A participant that keeps every record can tell what was reported. -/
theorem keeper_tell_inj {w : WorkflowId} {xs ys : List TrackingEvent}
    (h : keeper.tell w xs = keeper.tell w ys) : xs = ys := by
  have kept : ∀ zs, (keeper.tell w zs).participants.map (·.kept) = [(numbered w 0 zs).reverse] := by
    intro zs
    rw [TrackingProvider.tell_of_active rfl]
    change [(Participant.receiveAll _ _).kept] = _
    rw [Participant.receiveAll_keep rfl]
    exact congrArg ([·]) (List.append_nil _)
  have hk : [(numbered w 0 xs).reverse] = [(numbered w 0 ys).reverse] := by
    rw [← kept, h, kept]
  rw [← map_event_numbered w 0 xs, List.reverse_inj.mp (List.cons.inj hk).1, map_event_numbered]

/-- Whatever a host does, there are answers, an executor and events that do not depend on its audience:
with every audience it gets those answers and ends with that executor, whose audience has been told of
those events. The participants of an enabled audience have received their records one after another,
numbered from the next number of the audience on, and have received nothing else. One that keeps every
record has kept all of these, whatever the others do. -/
theorem audience_irrelevant (e : Executor) (steps : List HostMove) :
    ∃ (answers : List ((s : HostMove) × s.Response)) (final : Executor) (xs : List TrackingEvent),
      ∀ t : TrackingProvider,
        takeAll t (e.withTracking t) steps =
          (answers, final.withTracking (t.tell final.workflow xs)) ∧
        (t.tell final.workflow xs).participants =
          (if t.enabled then
            t.participants.map (·.receiveAll (numbered final.workflow t.nextRecord xs))
          else t.participants) ∧
        ∀ (n : Nat) (p : Participant), t.enabled = true → t.participants[n]? = some p →
          p.reaction = .keep → ((t.tell final.workflow xs).participants[n]?).map (·.kept) =
            some ((numbered final.workflow t.nextRecord xs).reverse ++ p.kept) := by
  cases hr : takeAll keeper (e.withTracking keeper) steps with | mk answers final
  have meet : ∀ t, ∃ xs, final.tracking = keeper.tell final.workflow xs ∧
      takeAll t (e.withTracking t) steps =
        (answers, final.withTracking (t.tell final.workflow xs)) := by
    intro t
    obtain ⟨ha, hb⟩ := (bonded_attached e keeper t).takeAll steps
    rw [hr] at ha hb
    obtain ⟨xs, he, ht⟩ := bonded_retelling_iff.mp hb
    exact ⟨xs, he, Prod.ext ha ht⟩
  obtain ⟨xs, hxs, -⟩ := meet keeper
  refine ⟨answers, final, xs, fun t => ⟨?_, t.participants_tell _ xs, fun n p he hn hp => ?_⟩⟩
  · obtain ⟨ys, hys, ht⟩ := meet t
    rw [keeper_tell_inj (hxs.symm.trans hys)]
    exact ht
  · rw [TrackingProvider.participants_tell, if_pos he, List.getElem?_map, hn, Option.map_some,
      Option.map_some, Participant.receiveAll_keep hp]

end Executor

end Workflow
