import Workflow.Proofs.Locating
import Workflow.Proofs.Reachable

/-!
# Inputs of the root

Nobody sees the root from above, so the host supplies the values of its arguments. A new workflow is
refused if a required input has neither a value nor a binding. Any binding will do for that, but only a
literal says with which value the argument begins: nothing is visible at the root to which a location
could refer.
-/

namespace Workflow

variable {inputs : Environment}

namespace Argument

/-- The value is required, and it flows in. -/
def Demanded (b : Argument) : Prop :=
  b.required = true ∧ b.direction.isInput = true

/-- The value that the host, or else a literal, says for an argument. -/
inductive Said (inputs : Environment) (b : Argument) : Value → Prop
  /-- The host supplies it. -/
  | supplied {v : Value} (h : inputs[b.name]? = some v) : Said inputs b v
  /-- The host does not, and the argument is bound to it. -/
  | fixed {v : Value} (absent : b.name ∉ inputs) (h : b.binding = .literal v) : Said inputs b v

/-- An argument for which no value is said, although it is bound to a location. -/
structure Overlooked (inputs : Environment) (b : Argument) : Prop where
  absent : b.name ∉ inputs
  bound : ∃ name, b.binding = .location name

variable {b : Argument} {v : Value}

/-- Nothing is said for an argument that is overlooked. -/
theorem Overlooked.not_said (h : b.Overlooked inputs) : ¬ b.Said inputs v := by
  rintro (hv | ⟨-, hv⟩)
  · exact h.absent (Std.ExtTreeMap.mem_iff_isSome_getElem?.mpr (Option.isSome_of_eq_some hv))
  · obtain ⟨name, hb⟩ := h.bound
    rw [hv] at hb
    cases hb

/-- An argument of the root begins with the value that is said for it. -/
theorem Said.rootArgument (h : b.Said inputs v) (hb : b.direction.isInput = true) :
    Executor.rootArgument inputs b = v := by
  unfold Executor.rootArgument
  cases h with
  | supplied h => rw [h]
  | fixed absent h => rw [Std.ExtTreeMap.getElem?_eq_none absent, h]; exact if_pos hb

/-- It begins without one if it is overlooked. -/
theorem Overlooked.rootArgument (h : b.Overlooked inputs) :
    Executor.rootArgument inputs b = .null := by
  obtain ⟨name, hb⟩ := h.bound
  rw [Executor.rootArgument, Std.ExtTreeMap.getElem?_eq_none h.absent, hb]

end Argument

namespace Definition

variable {d : Definition}

/-- The inputs of a host fit if no required one lacks both a value and a binding, and every value is
that of an argument. -/
theorem checkInputs_eq_ok : d.checkInputs inputs = .ok () ↔
    (∀ b ∈ d.root.arguments, b.Demanded → b.binding = .unbound → b.name ∈ inputs) ∧
      ∀ name ∈ inputs, ∃ b, d.root.argument? name = some b := by
  have clean : (d.inputFindings inputs).hasErrors = false ↔ (d.inputFindings inputs).toList = [] := by
    rw [Findings.hasErrors, List.any_eq_false, List.eq_nil_iff_forall_not_mem]
    refine forall₂_congr fun f hf => ?_
    have isError : f.isError = true := by
      rcases List.mem_append.mp hf with hf | hf
      · obtain ⟨b, -, rfl⟩ := List.mem_map.mp hf
        rfl
      · obtain ⟨name, -, rfl⟩ := List.mem_map.mp hf
        rfl
    exact iff_of_false (not_not.mpr isError) id
  have accepted : d.checkInputs inputs = .ok () ↔ (d.inputFindings inputs).toList = [] := by
    rw [← clean, checkInputs]
    cases (d.inputFindings inputs).hasErrors with
    | false => exact iff_of_true rfl rfl
    | true => exact iff_of_false nofun Bool.noConfusion
  rw [accepted, inputFindings, List.append_eq_nil_iff, List.map_eq_nil_iff, List.map_eq_nil_iff,
    List.filter_eq_nil_iff, List.filter_eq_nil_iff]
  refine and_congr (forall₂_congr fun b _ => ?_) (forall_congr' fun name => ?_)
  · cases b.binding <;> simp [Argument.Demanded, and_assoc]
  · rw [Std.ExtTreeMap.mem_keys, Bool.not_eq_true, Option.isNone_eq_false_iff, Option.isSome_iff_exists]

/-- Where inputs fit, every demanded one is said or overlooked. -/
theorem said_or_overlooked (h : d.checkInputs inputs = .ok ()) {b : Argument}
    (hb : b ∈ d.root.arguments) (demanded : b.Demanded) :
    (∃ v, b.Said inputs v) ∨ b.Overlooked inputs := by
  by_cases given : b.name ∈ inputs
  · exact .inl ⟨inputs[b.name], .supplied (Std.ExtTreeMap.getElem?_eq_some_getElem given)⟩
  · cases hbind : b.binding with
    | literal v => exact .inl ⟨v, .fixed given hbind⟩
    | location name => exact .inr ⟨given, name, hbind⟩
    | unbound => exact absurd ((checkInputs_eq_ok.mp h).1 b hb demanded hbind) given

end Definition

namespace Executor

/-- In a new workflow, a required input of the root begins with the value that the host supplies, else
with that of its literal, unless it has neither and is bound to a location: then it begins without a
value. -/
theorem required_inputs_begin {a : Activity} {workflow : WorkflowId} {mailbox : Nat} {e : Executor}
    (created : create workflow a.prepare inputs mailbox = .ok e) :
    ∃ r, e.instances[e.root]? = some r ∧ ∀ b ∈ a.prepare.root.arguments, b.Demanded →
      ((∃ v, b.Said inputs v) ∨ b.Overlooked inputs) ∧
      (∀ v, b.Said inputs v → r.environment[b.name]? = some v) ∧
      (b.Overlooked inputs → r.environment[b.name]? = some .null ∧ ∀ v, ¬ b.Said inputs v) := by
  obtain ⟨valid, fit, rfl⟩ := create_eq_ok.mp created
  have distinct : a.prepare.root.declared.Nodup :=
    (Activity.prepare_wellScoped valid).distinct (k := .root) rfl
  refine ⟨newRoot a.prepare inputs, lookup_rootOnly.mpr ⟨rfl, rfl⟩, fun b hb demanded => ?_⟩
  have begins : (newRoot a.prepare inputs).environment[b.name]? = some (rootArgument inputs b) :=
    lookup_firstValues distinct hb
  refine ⟨Definition.said_or_overlooked fit hb demanded, fun v hv => ?_,
    fun h => ⟨?_, fun v => h.not_said⟩⟩
  · rw [begins, hv.rootArgument demanded.2]
  · rw [begins, h.rootArgument]

/-- A workflow that demands three values: one from the host, one with a literal, and one of a location
that there is not. -/
def demanding : Activity :=
  .mk "demanding" ⟨"demanding", "demanding", fun _ => [], .code (.done none)⟩ [] []
    [⟨"order", .input, true, .unbound⟩, ⟨"loan", .both, true, .literal (.boolean true)⟩,
      ⟨"stock", .input, true, .location "shelf"⟩]

/-- The only value that its host supplies. -/
def ordered : Environment :=
  (∅ : Environment).insert "order" (.boolean false)

/-- The definition and the value are accepted. -/
theorem create_demanding : create ⟨.ofNat 1⟩ demanding.prepare ordered 0 =
    .ok (fresh ⟨.ofNat 1⟩ demanding.prepare ordered 0) :=
  create_eq_ok.mpr ⟨by decide +kernel, by decide +kernel, rfl⟩

theorem mem_ordered {name : String} : name ∈ ordered ↔ name = "order" := by
  rw [ordered, Std.ExtTreeMap.mem_insert, Std.LawfulEqOrd.compare_eq_iff_eq, eq_comm]
  exact or_iff_left Std.ExtTreeMap.not_mem_empty

/-- The first two of the arguments begin with their values, and the third one begins without. -/
theorem required_inputs_begin_demanding : ∃ e r,
    create ⟨.ofNat 1⟩ demanding.prepare ordered 0 = .ok e ∧ e.instances[e.root]? = some r ∧
    r.environment["order"]? = some (.boolean false) ∧
    r.environment["loan"]? = some (.boolean true) ∧ r.environment["stock"]? = some .null := by
  obtain ⟨r, hr, begins⟩ := required_inputs_begin create_demanding
  have given : ordered["order"]? = some (.boolean false) := by
    rw [ordered, Std.ExtTreeMap.getElem?_insert_self]
  have order := begins ⟨"order", .input, true, .unbound⟩ List.mem_cons_self ⟨rfl, rfl⟩
  have loan := begins ⟨"loan", .both, true, .literal (.boolean true)⟩
    (List.mem_cons_of_mem _ List.mem_cons_self) ⟨rfl, rfl⟩
  have stock := begins ⟨"stock", .input, true, .location "shelf"⟩
    (List.mem_cons_of_mem _ (List.mem_cons_of_mem _ List.mem_cons_self)) ⟨rfl, rfl⟩
  refine ⟨_, r, create_demanding, hr, order.2.1 _ (.supplied given), ?_, ?_⟩
  · exact loan.2.1 _ (.fixed (mt mem_ordered.mp (by decide)) rfl)
  · exact (stock.2.2 ⟨mt mem_ordered.mp (by decide), "shelf", rfl⟩).1

/-- So a new workflow is accepted in which nothing is said for a required input. -/
theorem not_required_inputs_said :
    ¬ ∀ (a : Activity) (workflow : WorkflowId) (inputs : Environment) (mailbox : Nat) (e : Executor),
      create workflow a.prepare inputs mailbox = .ok e →
        ∀ b ∈ a.prepare.root.arguments, b.Demanded → ∃ r v, e.instances[e.root]? = some r ∧
          r.environment[b.name]? = some v ∧ b.Said inputs v := by
  intro claim
  obtain ⟨r, v, -, -, said⟩ := claim _ _ _ _ _ create_demanding
    ⟨"stock", .input, true, .location "shelf"⟩
    (List.mem_cons_of_mem _ (List.mem_cons_of_mem _ List.mem_cons_self)) ⟨rfl, rfl⟩
  exact Argument.Overlooked.not_said ⟨mt mem_ordered.mp (by decide), "shelf", rfl⟩ said

end Executor

end Workflow
