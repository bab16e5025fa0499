import Workflow.Proofs.Admission
import Workflow.Proofs.Conversation
import Workflow.Proofs.Finality
import Workflow.Proofs.LastSave

/-!
# Outcomes of workflows that come back

An image of a workflow that has completed does not hold its outcome. The outcome is made anew from the
record of the root: from the state, the result, the environment and the text of the fault. So it is as
faithful as the values of the record are, and the error of a fault is one message with all causes.
-/

namespace Workflow

/-! ### Faults that come back -/

/-- The causes of an error, down to the root cause. -/
def ActivityError.causes : ActivityError → List String
  | custom _ causes => causes
  | _ => []

/-- What a host learns of a fault `f` that has come back as `g`. -/
structure Fault.Retold (f g : Fault) : Prop where
  /-- The message is that of the fault with all causes. -/
  message : g.error.message = f.error.describe
  /-- It is the message of the fault just if there are no causes. -/
  message_iff : g.error.message = f.error.message ↔ f.error.causes = []
  /-- The text is the same. -/
  print : g.print = f.print
  source : g.source = f.source
  sourceNode : g.sourceNode = f.sourceNode
  sourceName : g.sourceName = f.sourceName
  isTermination : g.isTermination = f.isTermination

section Values

variable {R : Value → Value → Prop}

/-- Two named values have one name, and the values are related. -/
def NamedValue.Related (R : Value → Value → Prop) (a b : NamedValue) : Prop :=
  a.name = b.name ∧ R a.value b.value

namespace Environment

/-- Two environments have the same names, and the values of each name are related. -/
def Related (R : Value → Value → Prop) (a b : Environment) : Prop :=
  ∀ name : String, Option.Rel R a[name]? b[name]?

theorem Related.empty : Related R ∅ ∅ := by
  intro name
  rw [Std.ExtTreeMap.getElem?_empty]
  exact .none

theorem Related.insert {a b : Environment} (h : a.Related R b) {v w : Value} (hv : R v w)
    (name : String) : Related R (a.insert name v) (b.insert name w) := by
  intro x
  rw [Table.lookup_insert, Table.lookup_insert]
  split
  · exact .some hv
  · exact h x

/-- Related records of values lead to related environments. -/
theorem Related.ofRecords {l m : List NamedValue} (h : List.Forall₂ (NamedValue.Related R) l m) :
    (ofRecords l).Related R (ofRecords m) := by
  refine List.rel_foldl ?_ .empty h
  rintro a b hab ⟨name, v⟩ ⟨_, w⟩ ⟨rfl, hvw⟩
  exact hab.insert hvw name

end Environment

/-- Two instances have completed alike, with related values. -/
structure Instance.Related (R : Value → Value → Prop) (i j : Instance) : Prop where
  state : j.state = i.state
  environment : i.environment.Related R j.environment
  result : Option.Rel R i.result j.result
  fault : Option.Rel Fault.Retold i.fault j.fault

/-- Two outcomes are alike: the values are related, and a fault is told again. -/
inductive Outcome.Related (R : Value → Value → Prop) : Outcome → Outcome → Prop
  | completed {v w : Option Value} {a b : Environment} (result : Option.Rel R v w)
      (outputs : a.Related R b) : Related R (.completed v a) (.completed w b)
  | canceled : Related R .canceled .canceled
  | faulted {f g : Fault} (h : f.Retold g) : Related R (.faulted f) (.faulted g)

namespace Executor

variable {e r : Executor} {i j : Instance}

end Executor

/-! ### Images that come back -/

/-- Two records of instances differ in values only, and those of the outcome are related. -/
structure InstanceRecord.Related (R : Value → Value → Prop) (a b : InstanceRecord) : Prop where
  rest : b = { a with environment := b.environment, properties := b.properties, result := b.result }
  environment : List.Forall₂ (NamedValue.Related R) a.environment b.environment
  result : Option.Rel R a.result b.result

/-- Two images differ in values only, and those of outcomes are related. -/
structure Snapshot.Related (R : Value → Value → Prop) (s t : Snapshot) : Prop where
  rest : t = { s with instances := t.instances }
  instances : List.Forall₂ (InstanceRecord.Related R) s.instances t.instances

variable {d : Definition}

/-- A record with other values leads to the instance with these values. -/
theorem InstanceRecord.Related.restore {a b : InstanceRecord} (h : a.Related R b) {i : Instance}
    (hi : a.restore d = .ok i) : b.restore d = .ok { i with
      environment := .ofRecords b.environment
      properties := .ofRecords b.properties
      result := b.result } := by
  rw [h.rest]
  unfold InstanceRecord.restore at hi ⊢
  dsimp only
  cases hn : d.resolvePath a.path with
  | error _ =>
    rw [hn] at hi
    cases hi
  | ok node =>
    cases hf : a.fault.mapM (·.restore d) with
    | error _ =>
      rw [hn, hf] at hi
      cases hi
    | ok fault =>
      rw [hn, hf] at hi
      cases hi
      rfl

namespace Executor

variable {e : Executor} {s t : Snapshot} {now : Timestamp}

/-- The image of a finished workflow holds the record of the root and nothing else. -/
theorem Finished.image (h : e.Finished) (hc : e.capture now = .ok s) {i : Instance}
    (hi : e.instances[e.root]? = some i) :
    s.instances = [i.record e.definition] ∧ s.bookmarks = [] ∧ s.scopes = [] := by
  obtain ⟨-, l, hl, -, rfl⟩ := of_capture hc
  obtain ⟨m, j, below, -, hj, rfl, hb⟩ := of_listDown hl
  cases hi.symm.trans hj
  rw [(h.tree.sound hi).childless (h.ended hi)] at hb
  cases hb
  refine ⟨rfl, ?_, ?_⟩
  · change e.bookmarks.toList = []
    rw [h.bookmarks]
    rfl
  · change e.bookmarks.scopes.toList.map _ = []
    rw [h.bookmarks]
    rfl

end Executor

end Values

namespace Activity

/-- An activity that assigns its outgoing argument and returns a value. -/
def telling (v : Value) : Activity :=
  .mk "tell" ⟨"tell", "tell", fun _ => [], .code do
    discard <| Program.context (.setArgument "total" v)
    return some v⟩ [] [] [⟨"total", .output, false, .unbound⟩]

end Activity

namespace Executor

/-- A workflow that has told a value. -/
def told (v : Value) : Executor :=
  (ExecutorCall.converse (begun (.telling v)) [.run 5]).2

/-- Whether an answer is there and satisfies a condition. -/
def answers {ε α : Type} (answer : Except ε α) (p : α → Bool) : Bool :=
  answer.toOption.any p

end Executor

end Workflow
