import Workflow.Proofs.Audience
import Workflow.Proofs.Finality

/-!
# The order of records

What is reported of a workflow as a whole follows one plot. Its beginning is announced first and once;
work and saves are reported after it; its end is reported at most once, and then only saves and an abort
are. A host that terminates, aborts or saves a workflow before the beginning is announced disturbs the
beginning, but nothing is announced twice and no second end is reported even then.
-/

namespace Workflow

/-- Whether a change of the workflow is its beginning, at all or after it was loaded. -/
def LifecycleEvent.isBeginning : LifecycleEvent → Bool
  | started => true
  | loaded => true
  | _ => false

/-- A beginning is no end. -/
theorem LifecycleEvent.isEnding_of_isBeginning {x : LifecycleEvent} (h : x.isBeginning = true) :
    x.isEnding = false := by
  cases x <;> first | rfl | exact absurd h Bool.false_ne_true

namespace TrackingEvent

/-- Whether an event is the beginning of the workflow. -/
def begins : TrackingEvent → Bool
  | lifecycle x => x.isBeginning
  | _ => false

/-- Whether an event is the end of the workflow. -/
def ends : TrackingEvent → Bool
  | lifecycle x => x.isEnding
  | _ => false

/-- Whether an event is a save of the workflow or its removal from memory. -/
def isSave : TrackingEvent → Bool
  | lifecycle .persisted => true
  | lifecycle .unloaded => true
  | _ => false

/-- Whether an event may be reported while the workflow goes on. -/
def isOrdinary (x : TrackingEvent) : Bool :=
  !x.begins && !x.ends && x != .lifecycle .aborted

theorem isOrdinary_of_activity {x : TrackingEvent} (h : x.isLifecycle = false) :
    x.isOrdinary = true := by
  cases x with
  | lifecycle x => exact absurd h.symm Bool.false_ne_true
  | _ => rfl

theorem isOrdinary_of_save {x : TrackingEvent} (h : x.isSave = true) : x.isOrdinary = true := by
  cases x with
  | lifecycle x => cases x <;> first | rfl | exact absurd h Bool.false_ne_true
  | _ => exact absurd h Bool.false_ne_true

theorem isOrdinary_iff {x : TrackingEvent} : x.isOrdinary = true ↔
    x.begins = false ∧ x.ends = false ∧ x ≠ .lifecycle .aborted := by
  unfold isOrdinary
  cases x.begins <;> cases x.ends <;> simp

end TrackingEvent

namespace Executor

variable {e e' e'' : Executor} {xs ys : List TrackingEvent} {p : Prop}

/-! ### What a participant keeps -/

/-- The events that the n-th participant has kept, in the order in which they came. -/
def seenBy (e : Executor) (n : Nat) : List TrackingEvent :=
  ((e.tracking.participants[n]?).map fun p => p.kept.reverse.map (·.event)).getD []

/-- Whether every record reaches the n-th participant, which keeps it. -/
def Informs (e : Executor) (n : Nat) : Prop :=
  e.tracking.isActive = true ∧ ∃ p, e.tracking.participants[n]? = some p ∧ p.reaction = .keep

/-- A participant that keeps records has kept every event that was reported. -/
theorem Informs.tells {n : Nat} (h : e.Informs n) (ht : e.Tells xs e') :
    e'.Informs n ∧ e'.seenBy n = e.seenBy n ++ xs := by
  obtain ⟨ha, p, hp, hk⟩ := h
  have hq : e'.tracking.participants[n]? =
      some (p.receiveAll (numbered e.workflow e.tracking.nextRecord xs)) := by
    rw [ht.tracking, TrackingProvider.tell_of_active ha, List.getElem?_map, hp]
    rfl
  have hr := Participant.receiveAll_keep hk (numbered e.workflow e.tracking.nextRecord xs)
  refine ⟨⟨?_, _, hq, by rw [hr, hk]⟩, ?_⟩
  · rw [ht.tracking, TrackingProvider.isActive_tell]
    exact ha
  · rw [seenBy, seenBy, hq, hp, Option.map_some, hr]
    change ((_ ++ p.kept).reverse).map _ = (p.kept.reverse).map _ ++ xs
    rw [List.reverse_append, List.reverse_reverse, List.map_append, map_event_numbered]

/-! ### Moves -/

/-- Whether the workflow has neither ended nor been torn down. -/
def GoesOn (e : Executor) : Prop :=
  e.outcome = none ∧ e.state ≠ .aborted

/-- A workflow with an outcome is in a final state. -/
def Sealed (e : Executor) : Prop :=
  e.outcome.isSome = true → e.state.isFinal = true

/-- What may happen to a workflow as a whole, with what is reported of it. If `p` holds nothing is
reported before the announcement. -/
inductive Move (p : Prop) (e : Executor) : List TrackingEvent → Executor → Prop
  /-- Nothing is reported. Only a workflow that goes on may change its state. -/
  | silent {e' : Executor} (ht : e.Tells [] e') (ho : e'.outcome = e.outcome)
      (ha : e'.announcement = e.announcement)
      (hs : e'.state = e.state ∨ e.GoesOn ∧ e'.state ≠ .aborted) : Move p e [] e'
  /-- The beginning is announced, perhaps with the first activity. -/
  | announces {e' : Executor} {first : LifecycleEvent} {xs : List TrackingEvent}
      (ha : e.announcement = some first) (hx : ∀ x ∈ xs, x.isLifecycle = false)
      (ht : e.Tells (.lifecycle first :: xs) e') (ho : e'.outcome = e.outcome)
      (ha' : e'.announcement = none) (hs : e'.state = e.state) :
      Move p e (.lifecycle first :: xs) e'
  /-- A workflow that goes on reports work, or that it waits. -/
  | reports {e' : Executor} {xs : List TrackingEvent} (hp : p → e.announcement = none)
      (hg : e.GoesOn) (hx : ∀ x ∈ xs, x.isOrdinary = true) (ht : e.Tells xs e')
      (ho : e'.outcome = e.outcome) (ha : e'.announcement = e.announcement)
      (hs : e'.state ≠ .aborted) : Move p e xs e'
  /-- The workflow ends. -/
  | ends {e' : Executor} {x : LifecycleEvent} (hp : p → e.announcement = none) (hg : e.GoesOn)
      (hx : x.isEnding = true) (ht : e.Tells [.lifecycle x] e') (ho : e'.outcome.isSome = true)
      (ha : e'.announcement = e.announcement) (hs : e'.state.isCompleted = true) :
      Move p e [.lifecycle x] e'
  /-- The workflow has been saved. -/
  | saves {e' : Executor} {xs : List TrackingEvent} (hp : p → e.announcement = none)
      (hn : e.state ≠ .aborted) (hx : ∀ x ∈ xs, x.isSave = true) (ht : e.Tells xs e')
      (ho : e'.outcome = e.outcome) (ha : e'.announcement = e.announcement)
      (hs : e'.state = e.state) : Move p e xs e'
  /-- The workflow is torn down. -/
  | aborts {e' : Executor} (hp : p → e.announcement = none) (hn : e.state ≠ .aborted)
      (ht : e.Tells [.lifecycle .aborted] e') (ho : e'.outcome = e.outcome)
      (ha : e'.announcement = e.announcement) (hs : e'.state = .aborted) :
      Move p e [.lifecycle .aborted] e'

/-- Several moves, with all that is reported of them. -/
inductive Moves (p : Prop) : Executor → List TrackingEvent → Executor → Prop
  /-- Nothing happens. -/
  | refl (e : Executor) : Moves p e [] e
  /-- One more move. -/
  | move {e m e' : Executor} {xs ys : List TrackingEvent} (h : Moves p e xs m)
      (hm : Move p m ys e') : Moves p e (xs ++ ys) e'

theorem Move.tells (h : Move p e xs e') : e.Tells xs e' := by
  cases h <;> assumption

theorem Move.mono {q : Prop} (hq : q → p) (h : Move p e xs e') : Move q e xs e' := by
  cases h with
  | silent ht ho ha hs => exact .silent ht ho ha hs
  | announces ha hx ht ho ha' hs => exact .announces ha hx ht ho ha' hs
  | reports hp hg hx ht ho ha hs => exact .reports (hp ∘ hq) hg hx ht ho ha hs
  | ends hp hg hx ht ho ha hs => exact .ends (hp ∘ hq) hg hx ht ho ha hs
  | saves hp hn hx ht ho ha hs => exact .saves (hp ∘ hq) hn hx ht ho ha hs
  | aborts hp hn ht ho ha hs => exact .aborts (hp ∘ hq) hn ht ho ha hs

/-- A workflow with an outcome stays in a final state. -/
theorem Move.sealed (h : Move p e xs e') (hs : e.Sealed) : e'.Sealed := by
  intro ho'
  cases h with
  | silent _ ho _ hst =>
    rw [ho] at ho'
    rcases hst with hst | ⟨hg, -⟩
    · exact hst ▸ hs ho'
    · rw [hg.1] at ho'
      exact absurd ho' Bool.false_ne_true
  | announces _ _ _ ho _ hst => exact hst ▸ hs (ho ▸ ho')
  | reports _ hg _ _ ho _ _ =>
    rw [ho, hg.1] at ho'
    exact absurd ho' Bool.false_ne_true
  | ends _ _ _ _ _ _ hst => rw [WorkflowState.isFinal, hst, Bool.true_or]
  | saves _ _ _ _ ho _ hst => exact hst ▸ hs (ho ▸ ho')
  | aborts _ _ _ _ _ hst =>
    rw [hst]
    rfl

namespace Moves

theorem single (h : Move p e xs e') : Moves p e xs e' :=
  (refl e).move h

theorem trans (h : Moves p e xs e') (h' : Moves p e' ys e'') : Moves p e (xs ++ ys) e'' := by
  induction h' with
  | refl => rwa [List.append_nil]
  | move _ hm ih =>
    rw [← List.append_assoc]
    exact ih.move hm

theorem mono {q : Prop} (hq : q → p) (h : Moves p e xs e') : Moves q e xs e' := by
  induction h with
  | refl => exact .refl _
  | move _ hm ih => exact ih.move (hm.mono hq)

theorem tells (h : Moves p e xs e') : e.Tells xs e' := by
  induction h with
  | refl => exact ⟨rfl, rfl⟩
  | move _ hm ih => exact ih.trans hm.tells

theorem sealed (h : Moves p e xs e') (hs : e.Sealed) : e'.Sealed := by
  induction h with
  | refl => exact hs
  | move _ hm ih => exact hm.sealed ih

end Moves

/-! ### Calls are moves -/

theorem Mum.move (h : Mum e e') (hs : e'.state = e.state ∨ e.GoesOn) : Move p e [] e' := by
  refine .silent ⟨h.workflow, h.tracking⟩ h.outcome h.announcement ?_
  rcases h.state with hst | ⟨-, hst⟩
  · exact .inl hst
  · refine hs.imp_right fun hg => ⟨hg, ?_⟩
    rw [hst]
    exact WorkflowState.noConfusion

/-- A workflow that becomes runnable goes on. -/
theorem Sealed.mum_move (hs : e.Sealed) (h : Mum e e') : Move p e [] e' := by
  refine h.move (h.state.imp_right fun ⟨hi, _⟩ => ⟨?_, ?_⟩)
  · have unfinished : ¬ e.outcome.isSome = true := fun ho => by
      have := hs ho
      rw [hi] at this
      exact absurd this Bool.false_ne_true
    simpa using unfinished
  · rw [hi]
    exact WorkflowState.noConfusion

theorem Quiet.move (h : Quiet e e') (hp : p → e.announcement = none) (hg : e.GoesOn) :
    ∃ xs, Move p e xs e' := by
  obtain ⟨xs, ht, hx⟩ := h.tells
  refine ⟨xs, .reports hp hg (fun x hm => TrackingEvent.isOrdinary_of_activity (hx x hm)) ht
    h.outcome h.announcement ?_⟩
  rcases h.state with hst | ⟨-, hst⟩
  · exact hst ▸ hg.2
  · rw [hst]
    exact WorkflowState.noConfusion

theorem Quiet.goesOn (h : Quiet e e') (hg : e.GoesOn) : e'.GoesOn := by
  refine ⟨h.outcome.trans hg.1, ?_⟩
  rcases h.state with hst | ⟨-, hst⟩
  · exact hst ▸ hg.2
  · rw [hst]
    exact WorkflowState.noConfusion

theorem ne_aborted_of_completed {s : WorkflowState} (h : s.isCompleted = true) : s ≠ .aborted := by
  rintro rfl
  exact absurd h Bool.false_ne_true

/-- Work that is done while the workflow goes on. -/
theorem Effect.moves (h : Effect e e') (hp : p → e.announcement = none) (hg : e.GoesOn) :
    (∃ xs, Moves p e xs e') ∧ e'.state ≠ .aborted ∧ e'.announcement = e.announcement := by
  cases h with
  | quiet h =>
    obtain ⟨xs, hm⟩ := h.move hp hg
    exact ⟨⟨xs, .single hm⟩, (h.goesOn hg).2, h.announcement⟩
  | ends h hf =>
    obtain ⟨xs, hm⟩ := h.move hp hg
    obtain ⟨x, hx, ht⟩ := hf.tells
    obtain ⟨o, ho, -⟩ := hf.outcome
    refine ⟨⟨_, (Moves.single hm).move (.ends (fun hq => h.announcement.trans (hp hq)) (h.goesOn hg)
      hx ht ?_ hf.announcement hf.state)⟩, ne_aborted_of_completed hf.state,
      hf.announcement.trans h.announcement⟩
    rw [ho]
    rfl

theorem announce_moves (e : Executor) : (∃ xs, Moves p e xs e.announce) ∧
    e.announce.announcement = none ∧ e.announce.outcome = e.outcome ∧
      e.announce.state = e.state := by
  unfold announce
  split
  · next ha => exact ⟨⟨[], .refl e⟩, ha, rfl, rfl⟩
  · next first ha =>
    dsimp only
    split
    · -- A new workflow also reports its root.
      next hf =>
      have scheduled :=
        Quiet.trackScheduled (trackLifecycle { e with announcement := none } first) none e.root
      obtain ⟨xs, ht, hx⟩ := scheduled.tells
      have told : e.Tells [.lifecycle first] (trackLifecycle { e with announcement := none } first) :=
        ⟨rfl, rfl⟩
      have state : (trackScheduled (trackLifecycle { e with announcement := none } first) none
          e.root).state = e.state := by
        unfold trackScheduled
        split <;> rfl
      exact ⟨⟨_, .single (.announces ha hx (told.trans ht) scheduled.outcome scheduled.announcement
        state)⟩, scheduled.announcement, scheduled.outcome, state⟩
    · have announced : Move p e [.lifecycle first]
          (trackLifecycle { e with announcement := none } first) :=
        .announces ha (fun _ hx => absurd hx List.not_mem_nil) ⟨rfl, rfl⟩ rfl rfl rfl
      exact ⟨⟨_, .single announced⟩, rfl, rfl, rfl⟩

/-- Items that are done until the workflow ends or waits. -/
theorem drainQueue_moves {limit : Nat} (hp : p → e.announcement = none) (hn : e.state ≠ .aborted)
    (hd : drainQueue limit e = some e') :
    (∃ xs, Moves p e xs e') ∧ e'.state ≠ .aborted ∧ e'.announcement = e.announcement := by
  refine (drainQueue_keeps (P := fun m => (∃ xs, Moves p e xs m) ∧ m.state ≠ .aborted ∧
    m.announcement = e.announcement) ⟨⟨[], .refl e⟩, hn, rfl⟩ (fun ⟨⟨xs, hm⟩, hn, ha⟩ ho hst => ?_)
      hd).1
  obtain ⟨⟨ys, hr⟩, hnr, har⟩ := (Effect.step hst).moves (fun hq => ha.trans (hp hq)) ⟨ho, hn⟩
  exact ⟨⟨_, hm.trans hr⟩, hnr, har.trans ha⟩

/-- A workflow that settles may report that it waits. -/
theorem settle_moves (hp : p → e.announcement = none) (hn : e.state ≠ .aborted) :
    ∃ xs, Moves p e xs e.settle.2 := by
  unfold settle
  split
  · exact ⟨[], .refl e⟩
  · next ho =>
    split
    · exact ⟨[], .refl e⟩
    · have waits : Move p e [.lifecycle .idle] ({ e with state := .idle }.trackLifecycle .idle) := by
        refine .reports hp ⟨ho, hn⟩ (fun x hx => ?_) ⟨rfl, rfl⟩ rfl rfl WorkflowState.noConfusion
        rw [List.mem_singleton.mp hx]
        rfl
      exact ⟨_, .single waits⟩

theorem run_moves (e : Executor) (limit : Nat) : ∃ xs, Moves p e xs (e.run limit).2 := by
  obtain ⟨⟨xs, announced⟩, quiet, -, -⟩ := e.announce_moves (p := p)
  have ran := e.ran limit
  generalize e.run limit = r at ran ⊢
  cases ran with
  | refused _ => exact ⟨[], .refl e⟩
  | ended _ _ => exact ⟨xs, announced⟩
  | unsettled _ _ _ => exact ⟨xs, announced⟩
  | @settled m n o ha ho hd hs =>
    have opened : Move p e.announce [] { e.announce with state := .runnable } :=
      .silent ⟨rfl, rfl⟩ rfl rfl (.inr ⟨⟨ho, ha⟩, WorkflowState.noConfusion⟩)
    obtain ⟨⟨ys, drained⟩, hn, hq⟩ := drainQueue_moves (p := p)
      (e := { e.announce with state := .runnable }) (fun _ => quiet) WorkflowState.noConfusion hd
    obtain ⟨zs, settled⟩ := settle_moves (p := p) (fun _ => hq.trans quiet) hn
    rw [hs] at settled
    exact ⟨_, (announced.move opened).trans (drained.trans settled)⟩

theorem runOneStep_moves (e : Executor) : ∃ xs, Moves p e xs e.runOneStep.2 := by
  obtain ⟨⟨xs, announced⟩, quiet, -, -⟩ := e.announce_moves (p := p)
  have ran := e.ranOnce
  have stepped : ∀ {m : Executor}, e.announce.state ≠ .aborted → e.announce.outcome = none →
      e.announce.step? = some m →
      (∃ ys, Moves p e ys m) ∧ m.state ≠ .aborted ∧ m.announcement = none := by
    intro m ha ho hs
    obtain ⟨⟨ys, hm⟩, hn, hq⟩ := (Effect.step hs).moves (p := p) (fun _ => quiet) ⟨ho, ha⟩
    exact ⟨⟨_, announced.trans hm⟩, hn, hq.trans quiet⟩
  generalize e.runOneStep = r at ran ⊢
  cases ran with
  | refused _ => exact ⟨[], .refl e⟩
  | ended _ _ => exact ⟨xs, announced⟩
  | unemployed ha _ _ =>
    obtain ⟨ys, settled⟩ := settle_moves (p := p) (fun _ => quiet) ha
    exact ⟨_, announced.trans settled⟩
  | settled ha ho hs _ =>
    obtain ⟨⟨ys, hm⟩, hn, hq⟩ := stepped ha ho hs
    obtain ⟨zs, settled⟩ := settle_moves (p := p) (fun _ => hq) hn
    exact ⟨_, hm.trans settled⟩
  | working ha ho hs _ hn =>
    obtain ⟨⟨ys, hm⟩, hna, -⟩ := stepped ha ho hs
    exact ⟨_, hm.move (.silent ⟨rfl, rfl⟩ rfl rfl (.inr ⟨⟨hn, hna⟩, WorkflowState.noConfusion⟩))⟩
  | completed ha ho hs _ _ => exact (stepped ha ho hs).1

/-- A workflow to which something can still happen goes on. -/
theorem Sealed.goesOn (hs : e.Sealed) (hk : e.ensureAccepting = .ok ()) : e.GoesOn := by
  have final : ¬ e.state.isFinal = true := fun hf => not_accepting_of_final hf hk
  refine ⟨?_, fun ha => final (ha ▸ rfl)⟩
  have unfinished : ¬ e.outcome.isSome = true := fun ho => final (hs ho)
  simpa using unfinished

theorem cancelWorkflow_moves (hs : e.Sealed) : ∃ xs, Moves p e xs e.cancelWorkflow.2 := by
  unfold cancelWorkflow
  split
  · exact ⟨[], .refl e⟩
  · next hk =>
    have hg := hs.goesOn hk
    split
    · exact ⟨_, .single (.silent ⟨rfl, rfl⟩ rfl rfl (.inr ⟨hg, WorkflowState.noConfusion⟩))⟩
    · obtain ⟨⟨xs, announced⟩, quiet, ho, hst⟩ := e.announce_moves (p := p)
      obtain ⟨⟨ys, hm⟩, -⟩ := (Effect.cancelInstance e.announce e.root).moves (p := p)
        (fun _ => quiet) ⟨ho.trans hg.1, hst ▸ hg.2⟩
      exact ⟨_, announced.trans hm⟩

theorem terminate_moves (hs : e.Sealed) (reason : String)
    (hp : p → e.ensureAccepting = .ok () → e.announcement = none) :
    ∃ xs, Moves p e xs (e.terminate reason).2 := by
  unfold terminate
  split
  · exact ⟨[], .refl e⟩
  · next hk =>
    exact ((Effect.faultInstance e e.root _).moves (fun hq => hp hq hk) (hs.goesOn hk)).1

theorem abort_moves (reason : String) (hp : p → e.state ≠ .aborted → e.announcement = none) :
    ∃ xs, Moves p e xs (e.abort reason) := by
  unfold abort
  split
  · exact ⟨[], .refl e⟩
  · next hn =>
    dsimp only
    have told := Mum.foldl (fun m k => Mum.callAbortHook m k
      (.aborted reason e.root .root e.definition.root.name))
      ((e.instances.values.filter fun i => !i.state.isTerminal).map (·.id)).reverse e
    refine ⟨_, .single (.aborts (fun hq => hp hq hn) hn ⟨told.workflow, ?_⟩ told.outcome
      told.announcement rfl)⟩
    exact congrArg₂ (fun (t : TrackingProvider) w => t.emit w _) told.tracking told.workflow

theorem save_moves (store : Store) (s : Surroundings) (owner : OwnerId) (unlock : Bool)
    (hp : p → (e.save store s owner unlock).1 = .ok () → e.announcement = none) :
    ∃ xs, Moves p e xs (e.save store s owner unlock).2.1 := by
  unfold save at hp ⊢
  split
  · exact ⟨[], .refl e⟩
  · next image hc =>
    have present : e.state ≠ .aborted := by
      intro ha
      rw [capture, ensureCapturable, if_pos ha] at hc
      exact absurd hc (by simp [bind, Except.bind])
    rw [hc] at hp
    dsimp only at hp ⊢
    split
    · exact ⟨[], .refl e⟩
    · next hs =>
      rw [hs] at hp
      have quiet : p → e.announcement = none := fun hq => hp hq rfl
      have saved : ∀ {m : Executor} {xs : List TrackingEvent},
          (∀ x ∈ xs, TrackingEvent.isSave x = true) → e.Tells xs m → m.outcome = e.outcome →
          m.announcement = e.announcement → m.state = e.state → ∃ xs, Moves p e xs m :=
        fun hx ht ho ha hs => ⟨_, .single (.saves quiet present hx ht ho ha hs)⟩
      cases unlock with
      | true =>
        have both : ∀ x ∈ [TrackingEvent.lifecycle .persisted, .lifecycle .unloaded],
            x.isSave = true := by
          intro x hx
          rcases List.mem_pair.mp hx with rfl | rfl <;> rfl
        exact saved both ⟨rfl, rfl⟩ rfl rfl rfl
      | false =>
        have one : ∀ x ∈ [TrackingEvent.lifecycle .persisted], x.isSave = true := by
          intro x hx
          rw [List.mem_singleton.mp hx]
          rfl
        exact saved one ⟨rfl, rfl⟩ rfl rfl rfl

end Executor

namespace HostOperation

open Executor

variable {e : Executor} {p : Prop}

/-- Whether an operation leaves reporting to the executor and the receivers of records as they are. -/
def leavesRecords : HostOperation → Bool
  | call (.track _) => false
  | call (.withTracking _) => false
  | _ => true

/-- Whether an operation reports something of the workflow without announcing its beginning first. -/
def isHasty (e : Executor) : HostOperation → Prop
  | call (.terminate _) => e.ensureAccepting = .ok ()
  | call (.abort _) => e.state ≠ .aborted
  | save store s owner unlock => (e.save store s owner unlock).1 = .ok ()
  | _ => False

/-- Whether a host terminates, aborts or saves the workflow only when its beginning has been announced;
attempts that are refused do not count. -/
def Patient (e : Executor) : List HostOperation → Prop
  | [] => True
  | op :: rest => (op.isHasty e → e.announcement = none) ∧ Patient (op.after e) rest

/-- An operation makes moves, and early ones only if it is hasty. -/
theorem moves (hs : e.Sealed) {op : HostOperation} (hl : op.leavesRecords = true) :
    ∃ xs, Moves (op.isHasty e → e.announcement = none) e xs (op.after e) := by
  have mum : ∀ {m : Executor}, Mum e m →
      ∃ xs, Moves (op.isHasty e → e.announcement = none) e xs m :=
    fun h => ⟨[], .single (hs.mum_move h)⟩
  cases op with
  | call c =>
    cases c with
    | run limit => exact e.run_moves limit
    | runOneStep => exact e.runOneStep_moves
    | resumeBookmark b v q => exact mum (.resumeBookmark e b v q)
    | cancel => exact cancelWorkflow_moves hs
    | terminate reason => exact terminate_moves hs reason id
    | abort reason => exact abort_moves reason id
    | complete o result => exact mum (.completeHandle e _ result)
    | drainInbox => exact mum (.drainInbox e)
    | listBookmarks => exact ⟨[], .refl e⟩
    | track _ => exact absurd hl Bool.false_ne_true
    | withTracking _ => exact absurd hl Bool.false_ne_true
    | _ => exact mum ⟨rfl, rfl, rfl, rfl, .inl rfl⟩
  | capture now => exact ⟨[], .refl e⟩
  | save store s owner unlock => exact save_moves store s owner unlock id

/-- A whole history is made of moves, and of early ones only if the host is not patient. -/
theorem afterAll_moves (hs : e.Sealed) (ops : List HostOperation)
    (hl : ∀ op ∈ ops, op.leavesRecords = true) :
    ∃ xs, Moves (Patient e ops) e xs (afterAll e ops) := by
  induction ops generalizing e with
  | nil => exact ⟨[], .refl e⟩
  | cons op rest ih =>
    obtain ⟨xs, hm⟩ := op.moves hs (hl op List.mem_cons_self)
    obtain ⟨ys, hr⟩ := ih (hm.sealed hs) fun op hop => hl op (List.mem_cons_of_mem _ hop)
    exact ⟨_, (hm.mono And.left).trans (hr.mono And.right)⟩

end HostOperation

namespace Executor

open HostOperation (afterAll Patient)

variable {e e' : Executor} {xs ys : List TrackingEvent} {first : LifecycleEvent} {p : Prop}

/-! ### Nothing twice -/

/-- How often the beginning and the end have been reported. -/
structure Sparse (first : LifecycleEvent) (e : Executor) (xs : List TrackingEvent) : Prop where
  /-- Only the beginning waits to be announced. -/
  pending : e.announcement = none ∨
    e.announcement = some first ∧ xs.countP TrackingEvent.begins = 0
  begins : xs.countP TrackingEvent.begins ≤ 1
  /-- A workflow that goes on has not ended before. -/
  unended : e.outcome.isSome = true ∨ xs.countP TrackingEvent.ends = 0
  ends : xs.countP TrackingEvent.ends ≤ 1

theorem countP_of_ordinary (h : ∀ x ∈ xs, x.isOrdinary = true) :
    xs.countP TrackingEvent.begins = 0 ∧ xs.countP TrackingEvent.ends = 0 := by
  rw [List.countP_eq_zero, List.countP_eq_zero]
  refine ⟨fun x hx hb => ?_, fun x hx he => ?_⟩
  · exact absurd ((TrackingEvent.isOrdinary_iff.mp (h x hx)).1.symm.trans hb) Bool.false_ne_true
  · exact absurd ((TrackingEvent.isOrdinary_iff.mp (h x hx)).2.1.symm.trans he) Bool.false_ne_true

/-- Events that are neither the beginning nor the end change nothing of what has been reported. -/
theorem Sparse.neutral (h : e.Sparse first xs)
    (hy : ys.countP TrackingEvent.begins = 0 ∧ ys.countP TrackingEvent.ends = 0)
    (ho : e'.outcome = e.outcome) (ha : e'.announcement = e.announcement) :
    e'.Sparse first (xs ++ ys) := by
  constructor
  · rw [ha, List.countP_append, hy.1]
    exact h.pending
  · rw [List.countP_append, hy.1]
    exact h.begins
  · rw [ho, List.countP_append, hy.2]
    exact h.unended
  · rw [List.countP_append, hy.2]
    exact h.ends

/-- No move reports a second beginning or a second end. -/
theorem Sparse.move (hb : first.isBeginning = true) (h : e.Sparse first xs) (hm : Move p e ys e') :
    e'.Sparse first (xs ++ ys) := by
  cases hm with
  | silent _ ho ha _ => exact h.neutral ⟨rfl, rfl⟩ ho ha
  | reports _ _ hx _ ho ha _ => exact h.neutral (countP_of_ordinary hx) ho ha
  | saves _ _ hx _ ho ha _ =>
    exact h.neutral (countP_of_ordinary fun y hy => TrackingEvent.isOrdinary_of_save (hx y hy)) ho ha
  | aborts _ _ _ ho ha _ => exact h.neutral ⟨rfl, rfl⟩ ho ha
  | announces ha hx _ ho ha' _ =>
    obtain ⟨noBegin, noEnd⟩ :=
      countP_of_ordinary fun z hz => TrackingEvent.isOrdinary_of_activity (hx z hz)
    obtain ⟨hf, unbegun⟩ := h.pending.resolve_left fun hn => by
      rw [hn] at ha
      cases ha
    cases ha.symm.trans hf
    have ending : (TrackingEvent.lifecycle first).ends = false :=
      LifecycleEvent.isEnding_of_isBeginning hb
    constructor
    · exact .inl ha'
    · rw [List.countP_append, List.countP_cons, unbegun, noBegin]
      split <;> omega
    · rw [ho, List.countP_append, List.countP_cons, noEnd, ending]
      exact h.unended
    · rw [List.countP_append, List.countP_cons, noEnd, ending]
      exact h.ends
  | @ends _ x _ hg hx _ ho ha _ =>
    have unended := h.unended.resolve_left fun hs => by
      rw [hg.1] at hs
      exact absurd hs Bool.false_ne_true
    have beginning : (TrackingEvent.lifecycle x).begins = false := by
      rw [← Bool.not_eq_true]
      intro hx'
      exact absurd ((LifecycleEvent.isEnding_of_isBeginning hx').symm.trans hx) Bool.false_ne_true
    constructor
    · rw [ha, List.countP_append, List.countP_singleton, beginning]
      exact h.pending
    · rw [List.countP_append, List.countP_singleton, beginning]
      exact h.begins
    · exact .inl ho
    · rw [List.countP_append, List.countP_singleton, unended]
      split <;> omega

/-! ### The plot -/

/-- What has been reported of a workflow while its host was patient. -/
inductive Plot (first : LifecycleEvent) (e : Executor) : List TrackingEvent → Prop
  /-- Nothing has been reported. -/
  | unannounced (ha : e.announcement = some first) (hn : e.state ≠ .aborted) : Plot first e []
  /-- The beginning came first, then what is ordinary, then perhaps the end and saves after it, and at
  last perhaps an abort. -/
  | announced {middle closing last : List TrackingEvent} (ha : e.announcement = none)
      (hm : ∀ x ∈ middle, x.isOrdinary = true)
      (hc : closing = [] ∨ e.outcome.isSome = true ∧ ∃ x saves, x.isEnding = true ∧
        (∀ y ∈ saves, TrackingEvent.isSave y = true) ∧ closing = .lifecycle x :: saves)
      (hl : last = [] ∧ e.state ≠ .aborted ∨
        last = [.lifecycle .aborted] ∧ e.state = .aborted) :
      Plot first e (.lifecycle first :: (middle ++ closing ++ last))

/-- Every move of a patient host carries the plot on. -/
theorem Plot.move (h : e.Plot first xs) (hm : Move True e ys e') : e'.Plot first (xs ++ ys) := by
  cases h with
  | unannounced ha hn =>
    have early : ¬ (True → e.announcement = none) := fun h => by
      rw [h trivial] at ha
      cases ha
    cases hm with
    | silent _ _ ha' hs =>
      refine .unannounced (ha'.trans ha) ?_
      rcases hs with hs | ⟨-, hs⟩
      · exact hs ▸ hn
      · exact hs
    | @announces _ _ zs hf hx _ _ ha' hs =>
      cases hf.symm.trans ha
      have told : e'.Plot first (.lifecycle first :: (zs ++ [] ++ [])) :=
        .announced ha' (fun z hz => TrackingEvent.isOrdinary_of_activity (hx z hz)) (.inl rfl)
          (.inl ⟨rfl, hs ▸ hn⟩)
      rwa [List.append_nil, List.append_nil] at told
    | reports hp => exact absurd hp early
    | ends hp => exact absurd hp early
    | saves hp => exact absurd hp early
    | aborts hp => exact absurd hp early
  | @announced middle closing last ha hmid hc hl =>
    -- A workflow that goes on has not ended, and one that was not aborted is not at the last record.
    have going : e.GoesOn → closing = [] ∧ last = [] := by
      rintro ⟨ho, hn⟩
      refine ⟨hc.resolve_right fun hc => ?_, (hl.resolve_right fun hl => hn hl.2).1⟩
      rw [ho] at hc
      exact absurd hc.1 Bool.false_ne_true
    have unaborted : e.state ≠ .aborted → last = [] := fun hn =>
      (hl.resolve_right fun hl => hn hl.2).1
    cases hm with
    | silent _ ho ha' hs =>
      rw [List.append_nil]
      refine .announced (ha'.trans ha) hmid (ho ▸ hc) ?_
      rcases hs with hs | ⟨hg, hs⟩
      · exact hs ▸ hl
      · exact .inl ⟨(going hg).2, hs⟩
    | announces hf =>
      rw [ha] at hf
      cases hf
    | @reports _ zs _ hg hx _ ho ha' hs =>
      obtain ⟨rfl, rfl⟩ := going hg
      have told : e'.Plot first (.lifecycle first :: ((middle ++ ys) ++ [] ++ [])) := by
        refine .announced (ha'.trans ha) (fun z hz => ?_) (.inl rfl) (.inl ⟨rfl, hs⟩)
        exact (List.mem_append.mp hz).elim (hmid z) (hx z)
      simpa only [List.append_nil, List.cons_append] using told
    | @ends _ x _ hg hx _ ho ha' hs =>
      obtain ⟨rfl, rfl⟩ := going hg
      have told : e'.Plot first (.lifecycle first :: (middle ++ [.lifecycle x] ++ [])) :=
        .announced (ha'.trans ha) hmid
          (.inr ⟨ho, x, [], hx, fun _ hy => absurd hy List.not_mem_nil, rfl⟩)
          (.inl ⟨rfl, ne_aborted_of_completed hs⟩)
      simpa only [List.append_nil, List.cons_append] using told
    | saves _ hn hx _ ho ha' hs =>
      obtain rfl := unaborted hn
      rcases hc with rfl | ⟨hout, x, saves, hend, hsaves, rfl⟩
      · have told : e'.Plot first (.lifecycle first :: ((middle ++ ys) ++ [] ++ [])) := by
          refine .announced (ha'.trans ha) (fun z hz => ?_) (.inl rfl) (.inl ⟨rfl, hs ▸ hn⟩)
          exact (List.mem_append.mp hz).elim (hmid z)
            fun hz => TrackingEvent.isOrdinary_of_save (hx z hz)
        simpa only [List.append_nil, List.cons_append] using told
      · have told : e'.Plot first
            (.lifecycle first :: (middle ++ (.lifecycle x :: (saves ++ ys)) ++ [])) := by
          refine .announced (ha'.trans ha) hmid
            (.inr ⟨ho ▸ hout, x, saves ++ ys, hend, fun y hy => ?_, rfl⟩) (.inl ⟨rfl, hs ▸ hn⟩)
          exact (List.mem_append.mp hy).elim (hsaves y) (hx y)
        simpa only [List.append_nil, List.cons_append, List.append_assoc] using told
    | aborts _ hn _ ho ha' hs =>
      obtain rfl := unaborted hn
      have told : e'.Plot first
          (.lifecycle first :: (middle ++ closing ++ [.lifecycle .aborted])) :=
        .announced (ha'.trans ha) hmid (ho ▸ hc) (.inr ⟨rfl, hs⟩)
      simpa only [List.append_nil, List.cons_append] using told

/-- Over a whole history nothing is reported twice, and a patient host is told the plot. -/
theorem Moves.told (hb : first.isBeginning = true) (h : Moves p e xs e')
    (ha : e.announcement = some first) (hn : e.state ≠ .aborted) :
    e'.Sparse first xs ∧ (p → e'.Plot first xs) := by
  induction h with
  | refl =>
    exact ⟨⟨.inr ⟨ha, rfl⟩, Nat.zero_le 1, .inr rfl, Nat.zero_le 1⟩, fun _ => .unannounced ha hn⟩
  | move _ hm ih =>
    obtain ⟨sparse, plot⟩ := ih
    exact ⟨sparse.move hb hm, fun hp => (plot hp).move (hm.mono fun _ => hp)⟩

/-- A list is divided in only one way at the only element of a kind. -/
theorem after_eq_of_only {α : Type} {P : α → Bool} {a b before after : List α} {c d : α}
    (h : a ++ c :: b = before ++ d :: after) (ha : ∀ y ∈ a, P y = false) (hb : ∀ y ∈ b, P y = false)
    (hd : P d = true) : after = b := by
  rcases List.append_eq_append_iff.mp h with ⟨m, -, hm⟩ | ⟨m, hm, hr⟩
  · cases m with
    | nil => exact (List.cons.inj hm).2.symm
    | cons y m =>
      obtain ⟨-, rfl⟩ := List.cons.inj hm
      exact absurd ((hb d (by simp)).symm.trans hd) Bool.false_ne_true
  · cases m with
    | nil => exact (List.cons.inj hr).2
    | cons y m =>
      obtain ⟨rfl, -⟩ := List.cons.inj hr
      exact absurd ((ha d (by simp [hm])).symm.trans hd) Bool.false_ne_true

/-- In the plot only saves and an abort come after the end. -/
theorem Plot.after_ending (hb : first.isBeginning = true) (h : e.Plot first xs)
    {before after : List TrackingEvent} {x : LifecycleEvent} (hx : x.isEnding = true)
    (hs : xs = before ++ .lifecycle x :: after) :
    ∃ saves, (∀ y ∈ saves, TrackingEvent.isSave y = true) ∧
      (after = saves ∨ after = saves ++ [.lifecycle .aborted]) := by
  have ending : (TrackingEvent.lifecycle x).ends = true := hx
  cases h with
  | unannounced => simp at hs
  | @announced middle closing last _ hm hc hl =>
    have opening : ∀ y ∈ .lifecycle first :: middle, TrackingEvent.ends y = false := by
      intro y hy
      rcases List.mem_cons.mp hy with rfl | hy
      · exact LifecycleEvent.isEnding_of_isBeginning hb
      · exact (TrackingEvent.isOrdinary_iff.mp (hm y hy)).2.1
    have aborted : ∀ y ∈ last, TrackingEvent.ends y = false := by
      intro y hy
      rcases hl with ⟨rfl, -⟩ | ⟨rfl, -⟩
      · exact absurd hy List.not_mem_nil
      · rw [List.mem_singleton.mp hy]
        rfl
    rcases hc with rfl | ⟨-, z, saves, -, hsaves, rfl⟩
    · -- Without an end in the plot there is none.
      have mem : TrackingEvent.lifecycle x ∈ .lifecycle first :: middle ++ last := by
        rw [List.append_nil] at hs
        rw [List.cons_append, hs]
        simp
      refine absurd ending ?_
      rw [Bool.not_eq_true]
      exact (List.mem_append.mp mem).elim (opening _) (aborted _)
    · have saved : ∀ y ∈ saves ++ last, TrackingEvent.ends y = false := by
        intro y hy
        refine (List.mem_append.mp hy).elim (fun hy => ?_) (aborted y)
        exact (TrackingEvent.isOrdinary_iff.mp (TrackingEvent.isOrdinary_of_save (hsaves y hy))).2.1
      have divided : (.lifecycle first :: middle) ++ .lifecycle z :: (saves ++ last) =
          before ++ .lifecycle x :: after := by
        rw [← hs]
        simp
      refine ⟨saves, hsaves, ?_⟩
      rw [after_eq_of_only divided opening saved ending]
      rcases hl with ⟨rfl, -⟩ | ⟨rfl, -⟩
      · exact .inl (List.append_nil _)
      · exact .inr rfl

/-! ### From the beginning -/

/-- How an executor begins, and what it announces then. -/
inductive Begins : Executor → LifecycleEvent → Prop
  /-- It is new. -/
  | created {e : Executor} {workflow : WorkflowId} {d : Definition} {inputs : Environment}
      {mailbox : Nat} (h : create workflow d inputs mailbox = .ok e) : Begins e .started
  /-- It was restored. -/
  | restored {e : Executor} {s : Snapshot} {d : Definition} {mailbox : Nat}
      (h : s.restore d mailbox = .ok e) : Begins e .loaded

/-- A workflow that goes on with its work is not aborted, and has no outcome before it is final. -/
theorem Effect.sealed (h : Effect e e') (hg : e.GoesOn) : e'.state ≠ .aborted ∧ e'.Sealed := by
  cases h with
  | quiet h =>
    refine ⟨(h.goesOn hg).2, fun ho => ?_⟩
    rw [(h.goesOn hg).1] at ho
    exact absurd ho Bool.false_ne_true
  | ends _ hf =>
    refine ⟨ne_aborted_of_completed hf.state, fun _ => ?_⟩
    rw [WorkflowState.isFinal, hf.state, Bool.true_or]

/-- A restored executor announces that it was loaded; it has an outcome only if it has completed. -/
theorem sealed_of_restore {s : Snapshot} {d : Definition} {mailbox : Nat}
    (h : s.restore d mailbox = .ok e) :
    e.announcement = some .loaded ∧ e.state ≠ .aborted ∧ e.Sealed := by
  obtain ⟨-, m, hm, rfl⟩ := Snapshot.restore_eq_ok.mp h
  have opened : m.GoesOn := by
    obtain ⟨hr, u, root, g, -, -, -, -, -, rfl⟩ := Snapshot.restoreExecutor_eq_ok.mp hm
    refine ⟨rfl, fun ha : s.state = .aborted => ?_⟩
    rw [Snapshot.ensureRestorable] at hr
    split at hr
    · cases hr
    · rw [if_pos (.inr ha)] at hr
      cases hr
  have effect : Effect m (if m.state.isCompleted then m.finishWorkflow else m) := by
    split
    · exact .finishWorkflow m
    · exact .refl m
  exact ⟨rfl, effect.sealed opened⟩

theorem Begins.sealed (h : Begins e first) : first.isBeginning = true ∧
    e.announcement = some first ∧ e.state ≠ .aborted ∧ e.Sealed := by
  cases h with
  | created h =>
    obtain ⟨-, -, rfl⟩ := create_eq_ok.mp h
    exact ⟨rfl, rfl, WorkflowState.noConfusion, fun ho => absurd ho Bool.false_ne_true⟩
  | restored h => exact ⟨rfl, sealed_of_restore h⟩

/-- The order of the events that are reported of a workflow. -/
structure InOrder (first : LifecycleEvent) (xs : List TrackingEvent) : Prop where
  /-- The beginning comes first. -/
  opening : xs ≠ [] → xs.head? = some (.lifecycle first)
  /-- After an end come only saves and at last perhaps an abort. -/
  closing : ∀ {before after : List TrackingEvent} {x : LifecycleEvent}, x.isEnding = true →
    xs = before ++ .lifecycle x :: after → ∃ saves, (∀ y ∈ saves, TrackingEvent.isSave y = true) ∧
      (after = saves ∨ after = saves ++ [.lifecycle .aborted])

theorem Plot.inOrder (hb : first.isBeginning = true) (h : e.Plot first xs) : InOrder first xs := by
  refine ⟨fun hx => ?_, fun hx hs => h.after_ending hb hx hs⟩
  cases h with
  | unannounced => exact absurd rfl hx
  | announced => rfl

/-- Whatever a host does with a workflow, a participant is told of its beginning at most once and of its
end at most once. If the host does not terminate, abort or save the workflow before the beginning is
announced, the beginning comes first, and only saves, and an abort at last, come after the end. -/
theorem Begins.records_ordered (h : Begins e first) {t : TrackingProvider} (ht : t.isActive = true)
    {n : Nat} (hn : t.participants[n]? = some ⟨.keep, []⟩) (ops : List HostOperation)
    (hl : ∀ op ∈ ops, op.leavesRecords = true) :
    ((afterAll (e.withTracking t) ops).seenBy n).countP TrackingEvent.begins ≤ 1 ∧
      ((afterAll (e.withTracking t) ops).seenBy n).countP TrackingEvent.ends ≤ 1 ∧
      (Patient (e.withTracking t) ops →
        InOrder first ((afterAll (e.withTracking t) ops).seenBy n)) := by
  obtain ⟨hb, ha, hs, sealed⟩ := h.sealed
  have informs : (e.withTracking t).Informs n := ⟨ht, _, hn, rfl⟩
  have unseen : (e.withTracking t).seenBy n = [] := by
    rw [seenBy, withTracking, hn]
    rfl
  obtain ⟨xs, hm⟩ := HostOperation.afterAll_moves (e := e.withTracking t) sealed ops hl
  obtain ⟨-, seen⟩ := informs.tells hm.tells
  rw [unseen, List.nil_append] at seen
  obtain ⟨sparse, plot⟩ := hm.told hb ha hs
  rw [seen]
  exact ⟨sparse.begins, sparse.ends, fun patient => (plot patient).inOrder hb⟩

/-- Receivers of which one keeps every record. -/
def keeper : TrackingProvider :=
  { participants := [{ reaction := .keep }] }

/-- A new workflow that closes when it is run, with a receiver of its records. -/
def recorded : Executor :=
  (begun (.parallel [])).withTracking keeper

theorem begins_recorded : Begins (begun (.parallel [])) .started :=
  .created (create_eq_ok.mpr ⟨rfl, rfl, rfl⟩)

/-- The records of a workflow that is run and then aborted are in order. -/
theorem records_ordered_recorded :
    (afterAll recorded [.call (.run 5), .call (.abort "late")]).seenBy 0 ≠ [] ∧
    ((afterAll recorded [.call (.run 5), .call (.abort "late")]).seenBy 0).countP
      TrackingEvent.ends ≤ 1 ∧
    InOrder .started ((afterAll recorded [.call (.run 5), .call (.abort "late")]).seenBy 0) := by
  have announced : ((ExecutorCall.run 5).serve recorded).2.announcement = none := by decide +kernel
  have patient : Patient recorded [.call (.run 5), .call (.abort "late")] :=
    ⟨fun h => h.elim, fun _ => announced, trivial⟩
  have leaves : ∀ op ∈ [HostOperation.call (.run 5), .call (.abort "late")],
      op.leavesRecords = true := by
    intro op hop
    rcases List.mem_pair.mp hop with rfl | rfl <;> rfl
  obtain ⟨-, ends, inOrder⟩ :=
    begins_recorded.records_ordered (t := keeper) rfl (n := 0) rfl _ leaves
  exact ⟨by decide +kernel, ends, inOrder patient⟩

/-- An abort is reported after the end of a workflow, and a termination before its beginning. -/
theorem not_records_ordered :
    (¬ ∀ (e : Executor) (first : LifecycleEvent), Begins e first → ∀ (ops : List HostOperation)
      (before : List TrackingEvent) (x : LifecycleEvent) (after : List TrackingEvent),
      (afterAll (e.withTracking keeper) ops).seenBy 0 = before ++ .lifecycle x :: after →
      x.isEnding = true → ∀ y ∈ after, y.isSave = true) ∧
    ¬ ∀ (e : Executor) (first : LifecycleEvent), Begins e first → ∀ ops : List HostOperation,
      (afterAll (e.withTracking keeper) ops).seenBy 0 ≠ [] →
      ((afterAll (e.withTracking keeper) ops).seenBy 0).head? = some (.lifecycle first) := by
  constructor
  · intro only
    have events : ∃ before, (afterAll recorded [.call (.run 5), .call (.abort "late")]).seenBy 0 =
        before ++ [.lifecycle .completed, .lifecycle .aborted] :=
      ⟨((afterAll recorded [.call (.run 5)]).seenBy 0).dropLast, by decide +kernel⟩
    obtain ⟨before, hs⟩ := events
    exact absurd (only _ _ begins_recorded _ before .completed _ hs rfl _ (List.mem_singleton_self _))
      Bool.false_ne_true
  · intro opening
    have missed := opening _ _ begins_recorded [.call (.terminate "stop"), .call (.run 5)]
    exact absurd (missed (by decide +kernel)) (by decide +kernel)

end Executor

end Workflow
