import Workflow.Proofs.Confinement

/-!
# Lifetimes

The life of a workflow goes on when it is captured and restored. A lifetime is a journey that may lead
from an executor to one that is restored from its image. Every executor that hosts and bodies can bring
about has such a life behind it.
-/

namespace Workflow

open Moment

/-- What happens from one moment to a later one in the life of a workflow, over captures and restores.
Every step is as is asked of it. -/
inductive Lifetime (P : Moment → Event → Prop) : Moment → List Event → Moment → Prop
  | refl (m : Moment) : Lifetime P m [] m
  | step {m m' m'' : Moment} {ev : Event} {evs : List Event} (g : Goes m ev m') (hp : P m ev)
      (t : Lifetime P m' evs m'') : Lifetime P m (ev :: evs) m''
  /-- The workflow is captured and restored. -/
  | restored {e r : Executor} {now : Timestamp} {s : Snapshot} {a : Activity} {mailbox : Nat}
      {m : Moment} {evs : List Event} (hc : e.capture now = .ok s)
      (hr : s.restore a.prepare mailbox = .ok r) (t : Lifetime P (between r) evs m) :
      Lifetime P (between e) evs m

/-- A moment at which a workflow has just been created. -/
def Moment.IsFirst (m : Moment) : Prop :=
  ∃ (workflow : WorkflowId) (a : Activity) (inputs : Environment) (mailbox : Nat) (e : Executor),
    Executor.create workflow a.prepare inputs mailbox = .ok e ∧ m = between e

/-- A new workflow is sound. -/
theorem Moment.IsFirst.sound {m : Moment} (h : m.IsFirst) : m.Sound := by
  obtain ⟨workflow, a, inputs, mailbox, e, created, rfl⟩ := h
  exact (Executor.Reachable.created created).sound

namespace Lifetime

variable {P : Moment → Event → Prop} {m m' m'' : Moment} {evs evs' : List Event}

theorem trans (t : Lifetime P m evs m') (t' : Lifetime P m' evs' m'') :
    Lifetime P m (evs ++ evs') m'' := by
  induction t with
  | refl => exact t'
  | step g hp _ ih => exact .step g hp (ih t')
  | restored hc hr _ ih => exact .restored hc hr (ih t')

/-- A journey is part of a life. -/
theorem of_journey (t : Journey m evs m') (hp : ∀ m ev, P m ev) : Lifetime P m evs m' := by
  induction t with
  | refl => exact .refl _
  | step g _ ih => exact .step g (hp _ _) ih

/-- Whatever holds of sound moments and goes on from step to step and over restores holds in all of a
life. -/
theorem induct {Q : Moment → Prop}
    (goes : ∀ {m m' : Moment} {ev : Event}, m.Sound → Q m → P m ev → Goes m ev m' → Q m')
    (restored : ∀ {e r : Executor} {now : Timestamp} {s : Snapshot} {a : Activity} {mailbox : Nat},
      e.Sound → Q (between e) → e.capture now = .ok s → s.restore a.prepare mailbox = .ok r →
        Q (between r))
    (t : Lifetime P m evs m') (h : m.Sound) (hq : Q m) : m'.Sound ∧ Q m' := by
  induction t with
  | refl => exact ⟨h, hq⟩
  | step g hp _ ih => exact ih (g.sound h) (goes h hq hp g)
  | restored hc hr _ ih =>
    have sound : Executor.Sound _ := h
    exact ih (sound.restored hc hr) (restored sound hq hc hr)

theorem sound (t : Lifetime P m evs m') (h : m.Sound) : m'.Sound :=
  (t.induct (Q := fun _ => True) (fun _ _ _ _ => trivial) (fun _ _ _ _ => trivial) h trivial).1

end Lifetime

/-- Every executor that hosts and bodies can bring about has a life behind it. -/
theorem Executor.Reachable.lifetime {e : Executor} (h : e.Reachable) :
    ∃ m evs, m.IsFirst ∧ Lifetime (fun _ _ => True) m evs (between e) := by
  have goOn {e e' : Executor} {evs : List Event}
      (h : ∃ m evs, m.IsFirst ∧ Lifetime (fun _ _ => True) m evs (between e))
      (t : Journey (between e) evs (between e')) :
      ∃ m evs, m.IsFirst ∧ Lifetime (fun _ _ => True) m evs (between e') := by
    obtain ⟨m, evs', first, life⟩ := h
    exact ⟨m, _, first, life.trans (.of_journey t fun _ _ => trivial)⟩
  induction h with
  | created h => exact ⟨_, [], ⟨_, _, _, _, _, h, rfl⟩, .refl _⟩
  | restored _ hc hr ih =>
    obtain ⟨m, evs, first, life⟩ := ih
    exact ⟨m, _, first, life.trans (.restored hc hr (.refl _))⟩
  | served h c ih =>
    obtain ⟨evs, t⟩ := h.regular.journey_serve c
    exact goOn ih t
  | @entered e _ ho ha ih =>
    have core : SameCore e e.announce := sameCore_announce
    exact goOn ih (.step (.announced e) (.single (.entered (core.outcome.trans ho)
      (core.state.symm ▸ ha))))
  | stepped _ ho ha hs ih =>
    obtain ⟨evs, t, -⟩ := stretch_step ho ha hs
    exact goOn ih t
  | hosted _ hn isHosted ih => exact goOn ih (.single (.hosted hn isHosted))
  | altered _ ha ih => exact goOn ih (.single (.altered ha))

/-! ### What a step takes away -/

namespace Event

/-- Whether an activity has asked to schedule a child. -/
def schedules : Event → Bool
  | asked _ q _ => q.schedules
  | _ => false

/-- Whether an activity has asked for a scope. -/
def createsScope : Event → Bool
  | asked _ q _ => q.createsScope
  | _ => false

/-- The operation that begins, and who begins it. -/
def begins? : Event → Option (InstanceId × OperationId)
  | took _ (some (x, .start o)) => some (x, o)
  | _ => none

/-- Whether an instance begins an operation. -/
def Begins (ev : Event) (x : InstanceId) : Prop :=
  ∃ o, ev.begins? = some (x, o)

end Event

namespace Executor

variable {e r : Executor} {x : InstanceId} {k : BodyKind} {B : InstanceId → Prop}

/-- Whether no scope has the identifier that the next scope will get. -/
def DrawsFresh (e : Executor) : Prop :=
  e.bookmarks.scopes[scopeUuid (e.scopeCount + 1)]? = none

namespace Wanes

/-! ### Answers -/

/-- A resumption brings nobody. -/
theorem resumeBookmark (b : Bookmark) (v : Value) (p : Priority) :
    Wanes B e (e.resumeBookmark b v p).2 := by
  unfold Executor.resumeBookmark
  split
  · exact .refl e
  · split
    · exact .refl e
    · dsimp only
      split <;> exact .of_eq rfl rfl rfl rfl

theorem cancelChild (c : InstanceId) : Wanes B e (e.cancelChild x c).2 := by
  unfold Executor.cancelChild
  split
  · exact .refl e
  · split
    · exact .enqueue _
    · exact .refl e

theorem createBookmark (g : Registration) : Wanes B e (e.createBookmark g).2 := by
  unfold Executor.createBookmark
  split
  · split
    · exact .refl e
    · next o registry hr =>
      have scopes : registry.scopes = e.bookmarks.scopes := by
        obtain ⟨-, rfl⟩ | ⟨-, -, -, rfl⟩ := Registry.register_ok hr <;> rfl
      dsimp only
      split
      · exact .of_modified (x := g.owner) (f := Instance.incrementBusy)
          (fun _ _ => ⟨rfl, rfl, id, id⟩) rfl scopes rfl
          rfl
      · exact .of_eq rfl scopes rfl rfl
  · exact .refl e

theorem removeBookmark (b : Bookmark) : Wanes B e (e.removeBookmark x b).2 := by
  unfold Executor.removeBookmark
  split
  · exact .refl e
  · split
    · have removed : Wanes B e { e with bookmarks := e.bookmarks.unregister b } :=
        .of_eq rfl rfl rfl rfl
      dsimp only
      split
      · exact removed.trans (.release 1)
      · exact removed
    · exact .refl e

theorem removeAllBookmarks : Wanes B e (e.removeAllBookmarks x) := by
  have removed : Wanes B e { e with bookmarks := e.bookmarks.removeOwned x } := .of_eq rfl rfl rfl rfl
  exact removed.trans (.release _)

/-- A new scope takes no other scope's place. -/
theorem createScope (fresh : e.DrawsFresh) : Wanes B e (e.createScope x).2 := by
  unfold Executor.createScope
  split
  · exact .refl e
  · split
    · refine ⟨fun hk => ⟨_, hk, .refl _⟩, fun {s o} hs => .inl ?_, Nat.le_refl _, .inl⟩
      change (e.bookmarks.scopes.insert _ x)[s]? = some o
      rw [Table.lookup_insert]
      split
      · next heq =>
        rw [DrawsFresh, heq, hs] at fresh
        exact absurd fresh (Option.some_ne_none o)
      · exact hs
    · exact .refl e

theorem answerContext (q : ContextRequest) : Wanes B e (e.answerContext x q).2 := by
  cases q with
  | write l v =>
    unfold Executor.answerContext Executor.writeLocation
    dsimp only
    split
    · exact .modify fun _ _ => ⟨rfl, rfl, id, id⟩
    · exact .refl e
  | setArgument name v =>
    unfold Executor.answerContext Executor.assignArgument
    dsimp only
    split
    · exact .refl e
    · split
      · exact .refl e
      · split
        · exact .modify fun _ _ => ⟨rfl, rfl, id, id⟩
        · exact .refl e
  | _ => exact .of_eq rfl rfl rfl rfl

theorem answerCancellation (q : CancellationRequest) : Wanes B e (e.answerCancellation x q).2 := by
  cases q with
  | isRequested => exact .refl e
  | accept =>
    unfold Executor.answerCancellation Executor.markCanceled
    dsimp only
    split
    · exact .refl e
    · split
      · exact .modify fun _ _ => ⟨rfl, rfl, id, id⟩
      · exact .refl e

theorem answerScheduling (q : SchedulingRequest)
    (hq : ∀ node options, q ≠ .schedule node options) (fresh : q = .createScope → e.DrawsFresh) :
    Wanes B e (e.answerScheduling x q).2 := by
  cases q with
  | schedule node options => exact absurd rfl (hq node options)
  | cancelChild c => exact .cancelChild c
  | cancelChildren =>
    exact .foldl (g := fun e c => e.enqueue (.cancel c)) (fun _ _ => .enqueue _) _
  | createBookmark name scope callback options => exact .createBookmark _
  | removeBookmark b => exact .removeBookmark b
  | removeAllBookmarks => exact .removeAllBookmarks
  | createScope => exact .createScope (fresh rfl)
  | resume b v => exact .resumeBookmark b v .normal
  | setResult v | addProperty name v | removeProperty name =>
    exact .modify fun _ _ => ⟨rfl, rfl, id, id⟩
  | _ => exact .of_eq rfl rfl rfl rfl

/-- No answer brings anybody but a child that is scheduled. -/
theorem answer (q : Request k) (hq : q.schedules = false)
    (fresh : q.createsScope = true → e.DrawsFresh) : Wanes B e (e.answer x q).2 := by
  cases q with
  | context q => exact .answerContext q
  | cancellation q hk => exact .answerCancellation q
  | operation q => exact .of_sameCore (sameCore_answerOperation q)
  | scheduling q =>
    refine .answerScheduling q (fun node options he => ?_) fun he => fresh (he ▸ rfl)
    exact absurd (he ▸ hq) Bool.noConfusion

/-! ### Calls of the host -/

/-- Nobody is left when a workflow is aborted. -/
theorem abort (reason : String) : Wanes B e (e.abort reason) := by
  unfold Executor.abort
  split
  · exact .refl e
  · dsimp only
    generalize (List.map _ (List.filter _ e.instances.values)).reverse = told
    have core := sameCore_callAbortHooks (e := e)
      (.aborted reason e.root .root e.definition.root.name) told
    have nobody (k : InstanceId) : (∅ : InstanceTable)[k]? = none := Std.ExtTreeMap.getElem?_empty
    refine ⟨fun {k i} hk => ?_, fun {_ o} _ => .inr (congrArg (Option.any _) (nobody o)),
      Nat.le_of_eq core.nextOperation.symm, fun hk => ?_⟩
    · exact absurd ((nobody k).symm.trans hk) (Option.some_ne_none _).symm
    · simp [trackLifecycle, track] at hk

/-- A call of the host brings nobody. -/
theorem serve {c : ExecutorCall} (hc : c.isSingle = true) : Wanes B e (c.serve e).2 := by
  cases c with
  | run | runOneStep | takeJournal => exact absurd hc Bool.false_ne_true
  | resumeBookmark b v p => exact .resumeBookmark b v p
  | cancel =>
    change Wanes B e e.cancelWorkflow.2
    rcases e.cancelWorkflow_cases with same | asked | concludes
    · exact same.symm ▸ .refl e
    · exact asked.symm ▸ .of_eq rfl rfl rfl rfl
    · have announced : Wanes B e e.announce := .of_sameCore sameCore_announce
      exact announced.trans concludes.wanes
  | terminate reason =>
    change Wanes B e (e.terminate reason).2
    unfold Executor.terminate
    split
    · exact .refl e
    · exact .faultInstance _
  | abort reason => exact .abort reason
  | complete operation result =>
    rw [ExecutorCall.serve, completeHandle_own]
    exact .of_eq rfl rfl rfl rfl
  | _ => exact .of_eq rfl rfl rfl rfl

theorem settle : Wanes B e e.settle.2 := by
  unfold Executor.settle
  split
  · exact .refl e
  · split
    · exact .refl e
    · exact .of_eq rfl rfl rfl rfl

/-- Nobody comes when a workflow is restored. -/
theorem restored {now : Timestamp} {s : Snapshot} {a : Activity} {mailbox : Nat} (h : e.Regular)
    (hc : e.capture now = .ok s) (hr : s.restore a.prepare mailbox = .ok r) : Wanes B e r := by
  obtain ⟨u, returned, -, rfl⟩ := h.of_restore hc hr
  have back : Wanes B e (e.returned a.prepare u mailbox) := by
    refine ⟨fun hk => ?_, .inl, Nat.le_refl _, fun hk => ?_⟩
    · obtain ⟨i, node, fault, hi, -, rfl⟩ := returned.cases hk
      exact ⟨i, hi, ⟨rfl, rfl, id, id⟩⟩
    · simp [Executor.returned] at hk
  dsimp only
  split
  · exact (back.trans .finishWorkflow).trans (.of_eq rfl rfl rfl rfl)
  · exact back.trans (.of_eq rfl rfl rfl rfl)

end Wanes

end Executor

/-- No step brings anybody but a child that an activity schedules, and no operation but one that is
started. -/
theorem Goes.wanes {m m' : Moment} {ev : Event} (g : Goes m ev m') (h : m.Sound)
    (hq : ev.schedules = false) (fresh : ev.createsScope = true → m.executor.DrawsFresh) :
    Executor.Wanes ev.Begins m.executor m'.executor := by
  cases g with
  | announced e => exact .of_sameCore Executor.sameCore_announce
  | entered | gathered | collected | hosted | altered => exact .of_eq rfl rfl rfl rfl
  | settled ha hw => exact .settle
  | served hc => exact .serve hc
  | @passed e a q ho ha hi hn hr =>
    have taken : Executor.Wanes (Event.took a none).Begins e { e with queue := q } :=
      .of_eq rfl rfl rfl rfl
    exact taken.trans (Executor.Concludes.dispatch hr).wanes
  | @opened e a q r ho ha hi hn hr =>
    have taken : Executor.Wanes (Event.took a (some (r.id, r.callback))).Begins e
      { e with queue := q } := .of_eq rfl rfl rfl rfl
    have prepared := taken.trans ((Executor.sends_of_errand hr).before.wanes fun o ho =>
      ⟨o, by rw [ho]; rfl⟩)
    exact prepared.trans (.of_eq rfl rfl rfl rfl)
  | answered => exact .answer _ hq fresh
  | @closed r e a =>
    obtain ⟨_, _, _, pending⟩ := h
    exact ((Executor.sends_of_errand pending.errand).after a e).wanes
  | crashed => exact .raise _

end Workflow
