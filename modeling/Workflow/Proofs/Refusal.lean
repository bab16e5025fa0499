import Workflow.Proofs.Moment
import Workflow.Proofs.Progress
import Workflow.Proofs.Waiting
import Workflow.Script.Perform

/-!
# Requests that are refused

A request that the engine refuses leaves no trace. All checks of an operation come before its first
change, so code that is refused something, and goes on all the same, goes on from the very workflow
that it asked.
-/

namespace Workflow

/-! ### Refusals -/

/-- Whether the answer to a question about the context refuses it. -/
def ContextRequest.isRefusal : (q : ContextRequest) → q.Response → Bool
  | .locate _, answer => !answer.isOk
  | .read _, answer => !answer.isOk
  | .write _ _, answer => !answer.isOk
  | .argument _, answer => !answer.isOk
  | .setArgument _ _, answer => !answer.isOk
  | .rerun, answer => answer.isSome
  | _, _ => false

/-- Whether the answer to a question about cancellation refuses it. -/
def CancellationRequest.isRefusal : (q : CancellationRequest) → q.Response → Bool
  | .isRequested, answer => !answer
  | .accept, answer => !answer.isOk

/-- Whether the use of a handle is refused. -/
def OperationRequest.isRefusal : (q : OperationRequest) → q.Response → Bool
  | .complete _ _, answer => !answer.isOk
  | .discard _, _ => false

/-- Whether the answer of the scheduler refuses a request. -/
def SchedulingRequest.isRefusal : (q : SchedulingRequest) → q.Response → Bool
  | .schedule _ _, answer => !answer.isOk
  | .cancelChild _, answer => !answer.isOk
  | .createBookmark _ _ _ _, answer => !answer.isOk
  | .removeBookmark _, answer => !answer
  | .createScope, answer => !answer.isOk
  | .resume _ _, answer => answer != .success
  | _, _ => false

/-- Whether an answer refuses a request: with an error, with a no, or because there is no such
bookmark or the workflow takes no resumptions. -/
def Request.isRefusal {k : BodyKind} : (q : Request k) → q.Response → Bool
  | .context q, answer => q.isRefusal answer
  | .cancellation q _, answer => q.isRefusal answer
  | .operation q, answer => q.isRefusal answer
  | .scheduling q, answer => q.isRefusal answer

/-- Whether a request only asks and never changes anything. -/
def Request.onlyAsks {k : BodyKind} : Request k → Bool
  | .context (.say _) | .context (.write _ _) | .context (.setArgument _ _) => false
  | .context _ => true
  | .cancellation .isRequested _ => true
  | .cancellation .accept _ => false
  | .operation _ => false
  | .scheduling .children | .scheduling .childInstances => true
  | .scheduling .latestScope | .scheduling (.createdScope _) => true
  | .scheduling _ => false

/-- Write the nearest location of a name. -/
def Program.writeNearest {k : BodyKind} (name : String) (v : Value) : Program k Unit := do
  let l ← ofContract (← context (.locate name))
  ofContract (← context (.write l v))

namespace Executor

variable {e : Executor} {x : InstanceId} {k : BodyKind} {α β : Type}

/-! ### Operations -/

theorem writeLocation_refused {l : Location} {v : Value}
    (h : (e.writeLocation x l v).1.isOk = false) : (e.writeLocation x l v).2 = e := by
  unfold writeLocation at h ⊢
  dsimp only at h ⊢
  split
  · next hw henv =>
    rw [hw, henv] at h
    exact absurd h Bool.noConfusion
  · rfl

theorem assignArgument_refused {name : String} {v : Value}
    (h : (e.assignArgument x name v).1.isOk = false) : (e.assignArgument x name v).2 = e := by
  unfold assignArgument at h ⊢
  split at h
  · rfl
  · split at h
    · next hd => rw [if_pos hd]
    · next hd =>
      rw [if_neg hd]
      split at h
      · exact absurd h Bool.noConfusion
      · next hc => rw [if_neg hc]

theorem markCanceled_refused (h : (e.markCanceled x).1.isOk = false) : (e.markCanceled x).2 = e := by
  unfold markCanceled at h ⊢
  split at h
  · rfl
  · split at h
    · exact absurd h Bool.noConfusion
    · next hc => rw [if_neg hc]

theorem scheduleChild_refused {node : NodeId} {options : ScheduleOptions}
    (h : (e.scheduleChild x node options).1.isOk = false) : (e.scheduleChild x node options).2 = e := by
  unfold scheduleChild at h ⊢
  split at h
  · rfl
  · exact absurd h Bool.noConfusion

theorem cancelChild_refused {c : InstanceId} (h : (e.cancelChild x c).1.isOk = false) :
    (e.cancelChild x c).2 = e := by
  unfold cancelChild at h ⊢
  split at h
  · rfl
  · split at h
    · exact absurd h Bool.noConfusion
    · next hc => rw [if_neg hc]

theorem createBookmark_refused {g : Registration} (h : (e.createBookmark g).1.isOk = false) :
    (e.createBookmark g).2 = e := by
  unfold createBookmark at h ⊢
  split at h
  · next hl =>
    rw [if_pos hl]
    split at h
    · rfl
    · dsimp only at h
      split at h <;> exact absurd h Bool.noConfusion
  · next hl => rw [if_neg hl]

theorem removeBookmark_refused {b : Bookmark} (h : (e.removeBookmark x b).1 = false) :
    (e.removeBookmark x b).2 = e := by
  unfold removeBookmark at h ⊢
  split at h
  · rfl
  · split at h
    · exact absurd h Bool.noConfusion
    · next ho => rw [if_neg ho]

theorem createScope_refused (h : (e.createScope x).1.isOk = false) : (e.createScope x).2 = e := by
  unfold createScope at h ⊢
  split at h
  · rfl
  · split at h
    · exact absurd h Bool.noConfusion
    · next hl => rw [if_neg hl]

theorem resumeBookmark_refused {b : Bookmark} {v : Value} {p : Priority}
    (h : (e.resumeBookmark b v p).1 ≠ .success) : (e.resumeBookmark b v p).2 = e := by
  unfold resumeBookmark at h ⊢
  split at h
  · next hs => rw [if_pos hs]
  · next hs =>
    rw [if_neg hs]
    split at h
    · rfl
    · exact absurd rfl h

/-- A handle that has been used is not used again. -/
theorem complete_refused {o : OperationId} {result : Except ActivityError Value}
    (h : (e.answerOperation (.complete o result)).1.isOk = false) :
    (e.answerOperation (.complete o result)).2 = e := by
  unfold answerOperation at h ⊢
  dsimp only at h ⊢
  split at h
  · rw [completeHandle_own] at h
    exact absurd h Bool.noConfusion
  · next hm => rw [if_neg hm]

/-! ### Requests -/

theorem answerContext_refused {q : ContextRequest}
    (h : q.isRefusal (e.answerContext x q).1 = true) : (e.answerContext x q).2 = e := by
  cases q with
  | write l v => exact writeLocation_refused (Bool.not_eq_true' _ ▸ h)
  | setArgument name v => exact assignArgument_refused (Bool.not_eq_true' _ ▸ h)
  | say text => exact absurd h Bool.noConfusion
  | _ => rfl

theorem answerCancellation_refused {q : CancellationRequest}
    (h : q.isRefusal (e.answerCancellation x q).1 = true) : (e.answerCancellation x q).2 = e := by
  cases q with
  | isRequested => rfl
  | accept => exact markCanceled_refused (Bool.not_eq_true' _ ▸ h)

theorem answerOperation_refused {q : OperationRequest}
    (h : q.isRefusal (e.answerOperation q).1 = true) : (e.answerOperation q).2 = e := by
  cases q with
  | complete o result => exact complete_refused (Bool.not_eq_true' _ ▸ h)
  | discard o => exact absurd h Bool.noConfusion

theorem answerScheduling_refused {q : SchedulingRequest}
    (h : q.isRefusal (e.answerScheduling x q).1 = true) : (e.answerScheduling x q).2 = e := by
  cases q with
  | schedule node options => exact scheduleChild_refused (Bool.not_eq_true' _ ▸ h)
  | cancelChild c => exact cancelChild_refused (Bool.not_eq_true' _ ▸ h)
  | createBookmark name scope callback options =>
    exact createBookmark_refused (Bool.not_eq_true' _ ▸ h)
  | removeBookmark b => exact removeBookmark_refused (Bool.not_eq_true' _ ▸ h)
  | createScope => exact createScope_refused (Bool.not_eq_true' _ ▸ h)
  | resume b v => exact resumeBookmark_refused (bne_iff_ne.mp h)
  | children | childInstances | latestScope | createdScope => rfl
  | _ => exact absurd h Bool.noConfusion

/-- A request that is refused changes nothing. -/
theorem answer_refused {q : Request k} (h : q.isRefusal (e.answer x q).1 = true) :
    (e.answer x q).2 = e := by
  cases q with
  | context q => exact answerContext_refused h
  | cancellation q hk => exact answerCancellation_refused h
  | operation q => exact answerOperation_refused h
  | scheduling q => exact answerScheduling_refused h

/-- A request that only asks changes nothing. -/
theorem answer_of_onlyAsks {q : Request k} (h : q.onlyAsks = true) : (e.answer x q).2 = e := by
  cases q with
  | context q =>
    cases q with
    | say | write | setArgument => exact absurd h Bool.noConfusion
    | _ => rfl
  | cancellation q hk =>
    cases q with
    | isRequested => rfl
    | accept => exact absurd h Bool.noConfusion
  | operation q => exact absurd h Bool.noConfusion
  | scheduling q =>
    cases q with
    | children | childInstances | latestScope | createdScope => rfl
    | _ => exact absurd h Bool.noConfusion

/-! ### Programs -/

/-- Whether a program gets nothing done here: it is refused all that it does not merely ask. -/
def isFutile (e : Executor) (x : InstanceId) : Program k α → Bool
  | .done _ => true
  | .crash _ => true
  | .ask q next =>
    (q.onlyAsks || q.isRefusal (e.answer x q).1) && e.isFutile x (next (e.answer x q).1)

/-- A program that gets nothing done changes nothing. -/
theorem perform_futile {p : Program k α} (h : e.isFutile x p = true) : (e.perform x p).2 = e := by
  induction p with
  | done a => rfl
  | crash c => rfl
  | ask q next ih =>
    obtain ⟨hq, hnext⟩ := Bool.and_eq_true_iff.mp h
    have kept : (e.answer x q).2 = e := by
      rcases Bool.or_eq_true_iff.mp hq with asks | refused
      · exact answer_of_onlyAsks asks
      · exact answer_refused refused
    change ((e.answer x q).2.perform x (next (e.answer x q).1)).2 = e
    rw [kept]
    exact ih _ hnext

/-- What a program ends with when its errors are caught. -/
def caught : Except Crash α → Except Crash (Except ActivityError α)
  | .ok a => .ok (.ok a)
  | .error (.error error) => .ok (.error error)
  | .error crash => .error crash

/-- A program whose errors are caught does what it does without. -/
theorem perform_attempt (p : Program k α) :
    e.perform x p.attempt = (caught (e.perform x p).1, (e.perform x p).2) := by
  induction p generalizing e with
  | done a => rfl
  | crash c => cases c <;> rfl
  | ask q next ih => exact ih _

/-- To read a location by its name gets nothing done. -/
theorem isFutile_readNearest (name : String) :
    e.isFutile x (Script.readNearest name : Program k Value) = true := by
  change e.isFutile x ((Program.ofContract (e.locate x name) : Program k Location) >>= fun l =>
    Program.context (.read l) >>= fun answer => Program.ofContract answer) = true
  cases e.locate x name with
  | error v => rfl
  | ok l =>
    change e.isFutile x (Program.ofContract (e.readLocation x l) : Program k Value) = true
    cases e.readLocation x l <;> rfl

/-- To fail to write a location by its name gets nothing done. -/
theorem isFutile_writeNearest {name : String} {v : Value} {c : Crash}
    (h : (e.perform x (Program.writeNearest name v : Program k Unit)).1 = .error c) :
    e.isFutile x (Program.writeNearest name v : Program k Unit) = true := by
  let write (l : Location) : Program k Unit :=
    Program.context (.write l v) >>= fun answer => Program.ofContract answer
  change (e.perform x (Program.ofContract (e.locate x name) >>= write)).1 = .error c at h
  change e.isFutile x (Program.ofContract (e.locate x name) >>= write) = true
  cases hl : e.locate x name with
  | error violation => rfl
  | ok l =>
    rw [hl] at h
    change ((e.writeLocation x l v).2.perform x
      (Program.ofContract (e.writeLocation x l v).1 : Program k Unit)).1 = .error c at h
    change ((false || !(e.writeLocation x l v).1.isOk) &&
      e.isFutile x (Program.ofContract (e.writeLocation x l v).1 : Program k Unit)) = true
    cases hw : (e.writeLocation x l v).1 with
    | ok _ =>
      rw [hw] at h
      cases h
    | error violation => rfl

/-- Whatever the engine refuses, nothing of the workflow changes, and the code that asked goes on from
the workflow as it was. The same goes for a whole program that gets nothing done: its errors are caught,
and what follows finds the workflow as it was. Such a program is one that reads a location by its name,
or fails to write it. -/
theorem refusals_change_nothing (e : Executor) (x : InstanceId) :
    (∀ {k : BodyKind} (q : Request k), q.isRefusal (e.answer x q).1 = true →
      (e.answer x q).2 = e ∧
        ∀ {α : Type} (next : q.Response → Program k α),
          e.perform x (.ask q next) = e.perform x (next (e.answer x q).1)) ∧
    (∀ {k : BodyKind} {α : Type} (p : Program k α), e.isFutile x p = true →
      (e.perform x p).2 = e ∧
        ∀ {β : Type} (f : Except ActivityError α → Program k β),
          e.perform x (p.attempt >>= f) =
            match caught (e.perform x p).1 with
            | .ok answer => e.perform x (f answer)
            | .error crash => (.error crash, e)) ∧
    ∀ {k : BodyKind} (name : String),
      (e.perform x (Script.readNearest name : Program k Value)).2 = e ∧
        ∀ (v : Value) (c : Crash),
          (e.perform x (Program.writeNearest name v : Program k Unit)).1 = .error c →
            (e.perform x (Program.writeNearest name v : Program k Unit)).2 = e := by
  refine ⟨fun q refused => ?_, fun p futile => ?_, fun name => ⟨?_, fun v c hc => ?_⟩⟩
  · have kept := answer_refused refused
    refine ⟨kept, fun next => ?_⟩
    change (e.answer x q).2.perform x (next (e.answer x q).1) = _
    rw [kept]
  · have kept := perform_futile futile
    refine ⟨kept, fun f => ?_⟩
    rw [perform_bind, perform_attempt, kept]
    cases caught (e.perform x p).1 <;> rfl
  · exact perform_futile (isFutile_readNearest name)
  · exact perform_futile (isFutile_writeNearest hc)

/-- Of two activities that wait side by side, the first tries to schedule a child that it has not, to
agree to cancel, to register its bookmark once more, to take the bookmark of the other, and to resume
one that is not there. -/
def stubborn : Program .native Unit := do
  discard (Program.scheduling (.schedule ⟨1⟩ {}))
  discard (Program.request (.cancellation .accept BodyKind.native_ne_code))
  discard (Program.scheduling (.createBookmark "go" none none ⟨false, false⟩))
  discard (Program.scheduling (.removeBookmark ⟨.default, "stay"⟩))
  discard (Program.scheduling (.resume ⟨.default, "gone"⟩ .null))

/-- It gets nothing done, and both go on to wait. -/
theorem refusals_change_nothing_stubborn : waitingPair.Reachable ∧
    (waitingPair.scheduleChild ⟨2⟩ ⟨1⟩ {}).1 = .error (.notADeclaredChild "1.1" "1.1") ∧
    (waitingPair.scheduleChild ⟨2⟩ ⟨1⟩ {}).2 = waitingPair ∧
    (waitingPair.perform ⟨2⟩ stubborn).2 = waitingPair ∧
    (waitingPair.perform ⟨2⟩ (Program.writeNearest "gone" .null : Program .native Unit)).2 =
      waitingPair := by
  have refused : (waitingPair.scheduleChild ⟨2⟩ ⟨1⟩ {}).1 =
      .error (.notADeclaredChild "1.1" "1.1") := by decide +kernel
  have futile : waitingPair.isFutile ⟨2⟩ stubborn = true := by decide +kernel
  have failed : (waitingPair.perform ⟨2⟩ (Program.writeNearest "gone" .null :
      Program .native Unit)).1 = .error (.error (.contract (.unknownLocation "gone"))) := by
    decide +kernel
  obtain ⟨ofRequest, ofProgram, ofName⟩ := refusals_change_nothing waitingPair ⟨2⟩
  exact ⟨reachable_waitingPair, refused,
    (ofRequest (.scheduling (.schedule ⟨1⟩ {})) (by rw [Request.isRefusal]; decide +kernel)).1,
    (ofProgram stubborn futile).1, (ofName "gone").2 .null _ failed⟩

end Executor

end Workflow
