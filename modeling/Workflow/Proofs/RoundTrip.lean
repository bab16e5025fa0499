import Workflow.Proofs.Rereading

/-!
# Decoding undoes encoding

A snapshot whose numbers are held by words can be written, as packed data and as a document. If the
text of each of its values is read as the same value, then both forms are read as the same snapshot.
-/

namespace Workflow

/-! ### Records, part by part -/

theorem Packed.Legible.fields (label : String) {parts : List Packed}
    (h : parts.Forall Legible) : (Packed.labelled label parts).Legible :=
  .labelled label (List.forall_iff_forall_mem.mp h)

theorem Json.Plain.record {depth : Nat} {fields : List (String × Json)}
    (h : fields.Forall fun f => Plain depth f.2) : Plain (depth + 1) (.object fields) :=
  .object (List.forall_iff_forall_mem.mp h)

/-! ### Snapshots can be written -/

section

open Packed

theorem InstanceId.legible {id : InstanceId} (h : id.number < wordBound) : id.toPacked.Legible :=
  .wrapped _ (.natural h)

theorem InstanceId.legible_reference {id : InstanceId} (h : id.number < wordBound) :
    id.toReference.Legible :=
  .wrapped _ (legible h)

theorem Packed.Legible.option {α : Type} {f : α → Packed} {o : Option α}
    (h : ∀ a ∈ o, (f a).Legible) : (Packed.ofOption (o.map f)).Legible := by
  refine .ofOption fun p hp => ?_
  obtain ⟨a, ha, rfl⟩ := Option.map_eq_some_iff.mp hp
  exact h a ha

theorem Packed.Legible.list {α : Type} {f : α → Packed} {l : List α}
    (h : ∀ a ∈ l, (f a).Legible) : (Packed.sequence (l.map f)).Legible := by
  refine .sequence fun p hp => ?_
  obtain ⟨a, ha, rfl⟩ := List.mem_map.mp hp
  exact h a ha

theorem Scope.legible (s : Scope) : s.toPacked.Legible := by
  cases s with
  | default => exact .labelled _ fun _ hp => absurd hp List.not_mem_nil
  | named id => exact .wrapped _ (.text id.print)

theorem NamedValue.legible (v : NamedValue) : v.toPacked.Legible := by
  refine .fields _ ?_
  exact ⟨.text _, .wrapped _ (.text _)⟩

theorem FaultRecord.legible {f : FaultRecord} (h : f.source.number < wordBound) :
    f.toPacked.Legible := by
  refine .fields _ ?_
  exact ⟨.text _, InstanceId.legible h, .text _, .text _, .boolean _⟩

theorem InstanceRecord.legible {r : InstanceRecord} (h : r.Fits) : r.toPacked.Legible := by
  have busy : r.busy < wordBound := Nat.lt_trans h.busy (by decide)
  have tag (t : CallbackTag) : (CallbackTag.toPacked t).Legible := .wrapped _ (.text t)
  refine .fields _ ?_
  exact ⟨InstanceId.legible h.id, .text _, .option fun p hp => InstanceId.legible_reference
      (h.parent p hp), .labelled _ fun _ hp => absurd hp List.not_mem_nil,
    .list fun v _ => v.legible, .list fun v _ => v.legible, .natural busy,
    .option fun t _ => tag t, .option fun t _ => tag t, r.scope.legible, .boolean _, .boolean _,
    .boolean _, .option fun v _ => .wrapped _ (.text v.print),
    .option fun f hf => FaultRecord.legible (h.fault f hf)⟩

theorem Registration.legible {g : Registration} (h : g.owner.number < wordBound) :
    g.toPacked.Legible := by
  refine .fields _ ?_
  refine ⟨.fields _ ?_, InstanceId.legible_reference h,
    .option fun t _ => .wrapped _ (.text t), .fields _ ?_⟩
  · exact ⟨g.bookmark.scope.legible, .text _⟩
  · exact ⟨.boolean _, .boolean _⟩

theorem ScopeRecord.legible {r : ScopeRecord} (h : r.owner.number < wordBound) :
    r.toPacked.Legible := by
  refine .fields _ ?_
  exact ⟨.text _, InstanceId.legible_reference h⟩

theorem Snapshot.legible {s : Snapshot} (h : s.Fits) : s.toPacked.Legible := by
  refine .fields _ ?_
  refine ⟨.wrapped _ (.text _), .text _, .labelled _ fun _ hp => absurd hp List.not_mem_nil,
    .natural h.nextInstance, .natural h.nextOperation, InstanceId.legible_reference h.root,
    .list fun r hr => InstanceRecord.legible (h.instances r hr),
    .list fun g hg => Registration.legible (h.bookmarks g hg),
    .list fun r hr => ScopeRecord.legible (h.scopes r hr), .fields _ ?_⟩
  exact ⟨.text _, .natural h.instanceCount, .natural h.bookmarkCount⟩

end

/-! ### Snapshots are plain documents -/

section

open Json

theorem Json.Plain.option {α : Type} {depth : Nat} {f : α → Json} {o : Option α}
    (h : ∀ a ∈ o, Plain depth (f a)) : Plain depth (.ofOption (o.map f)) := by
  cases o with
  | none => exact .null
  | some a => exact h a rfl

theorem Json.Plain.list {α : Type} {depth : Nat} {f : α → Json} {l : List α}
    (h : ∀ a ∈ l, Plain depth (f a)) : Plain (depth + 1) (.array (l.map f)) := by
  refine .array fun j hj => ?_
  obtain ⟨a, ha, rfl⟩ := List.mem_map.mp hj
  exact h a ha

theorem Scope.plain (s : Scope) : Plain 1 s.toJson := by
  cases s with
  | default => exact .string _
  | named id => exact .object fun f hf => List.mem_singleton.mp hf ▸ .string _

theorem NamedValue.plain (v : NamedValue) : Plain 1 v.toJson := by
  refine .record ?_
  exact ⟨.string _, .string _⟩

theorem FaultRecord.plain {f : FaultRecord} (h : f.source.number < wordBound) :
    Plain 1 f.toJson := by
  refine .record ?_
  exact ⟨.string _, .nat h, .string _, .string _, .boolean _⟩

theorem InstanceRecord.plain {r : InstanceRecord} (h : r.Fits) : Plain 3 r.toJson := by
  have busy : r.busy < wordBound := Nat.lt_trans h.busy (by decide)
  refine .record ?_
  exact ⟨.nat h.id, .string _, .option fun p hp => .nat (h.parent p hp), .string _,
    .list fun v _ => v.plain, .list fun v _ => v.plain, .nat busy, .option fun _ _ => .string _,
    .option fun _ _ => .string _, r.scope.plain.mono (by decide), .boolean _, .boolean _,
    .boolean _, .option fun _ _ => .string _,
    .option fun f hf => (FaultRecord.plain (h.fault f hf)).mono (by decide)⟩

theorem Registration.plain {g : Registration} (h : g.owner.number < wordBound) :
    Plain 3 g.toJson := by
  refine .record ?_
  refine ⟨.record ?_, .nat h, .option fun _ _ => .string _, .record ?_⟩
  · exact ⟨g.bookmark.scope.plain, .string _⟩
  · exact ⟨.boolean _, .boolean _⟩

theorem ScopeRecord.plain {r : ScopeRecord} (h : r.owner.number < wordBound) :
    Plain 1 r.toJson := by
  refine .record ?_
  exact ⟨.string _, .nat h⟩

theorem Snapshot.plain {s : Snapshot} (h : s.Fits) : Plain 5 s.toJson := by
  refine .record ?_
  refine ⟨.string _, .string _, .string _, .nat h.nextInstance, .nat h.nextOperation, .nat h.root,
    .list fun r hr => InstanceRecord.plain (h.instances r hr),
    .list fun g hg => Registration.plain (h.bookmarks g hg),
    .list fun r hr => (ScopeRecord.plain (h.scopes r hr)).mono (by decide), .record ?_⟩
  exact ⟨.string _, .nat h.instanceCount, .nat h.bookmarkCount⟩

end

/-! ### Values of the same content -/

/-- The values of an instance. -/
def InstanceRecord.values (r : InstanceRecord) : List Value :=
  r.environment.map (·.value) ++ r.properties.map (·.value) ++ r.result.toList

/-- The values of a snapshot. -/
def Snapshot.values (s : Snapshot) : List Value :=
  s.instances.flatMap InstanceRecord.values

/-- Items that are each read as one that agrees make up a list that agrees. -/
theorem exists_mapM_agree {α : Type} {read : α → Option α} {agree : α → α → Bool} {l : List α}
    (h : ∀ a ∈ l, ∃ b, read a = some b ∧ agree a b = true) :
    ∃ m, l.mapM read = some m ∧ listsAgree agree l m = true := by
  induction l with
  | nil => exact ⟨[], rfl, rfl⟩
  | cons a l ih =>
    obtain ⟨b, hb, same⟩ := h a List.mem_cons_self
    obtain ⟨m, hm, rest⟩ := ih fun c hc => h c (List.mem_cons_of_mem a hc)
    refine ⟨b :: m, ?_, ?_⟩
    · rw [List.mapM_cons, hb, hm]
      rfl
    · rw [listsAgree, same, rest]
      rfl

theorem NamedValue.exists_reread {v : NamedValue}
    (h : ∃ w, v.value.reread? = some w ∧ v.value.same w = true) :
    ∃ w, v.reread? = some w ∧ v.same w = true := by
  obtain ⟨w, hw, same⟩ := h
  refine ⟨⟨v.name, w⟩, ?_, ?_⟩
  · rw [NamedValue.reread?, hw]
    rfl
  · rw [NamedValue.same, beq_self_eq_true, same]
    rfl

theorem InstanceRecord.exists_reread {r : InstanceRecord}
    (h : ∀ v ∈ r.values, ∃ w, v.reread? = some w ∧ v.same w = true) :
    ∃ t, r.reread? = some t ∧ r.same t = true := by
  have named {l : List NamedValue} (hl : ∀ v ∈ l, v.value ∈ r.values) :
      ∃ m, l.mapM NamedValue.reread? = some m ∧ listsAgree NamedValue.same l m = true :=
    exists_mapM_agree fun v hv => NamedValue.exists_reread (h v.value (hl v hv))
  obtain ⟨environment, he, sameEnvironment⟩ := named (l := r.environment) fun v hv =>
    List.mem_append_left _ (List.mem_append_left _ (List.mem_map_of_mem hv))
  obtain ⟨properties, hp, sameProperties⟩ := named (l := r.properties) fun v hv =>
    List.mem_append_left _ (List.mem_append_right _ (List.mem_map_of_mem hv))
  obtain ⟨result, hr, sameResult⟩ : ∃ o, r.result.mapM Value.reread? = some o ∧
      Value.sameOption r.result o = true := by
    cases hv : r.result with
    | none => exact ⟨none, rfl, rfl⟩
    | some v =>
      obtain ⟨w, hw, same⟩ := h v (List.mem_append_right _ (Option.mem_toList.mpr hv))
      exact ⟨some w, by rw [Option.mapM_some, hw]; rfl, same⟩
  refine ⟨{ r with environment, properties, result }, ?_, ?_⟩
  · rw [InstanceRecord.reread?, he, hp, hr]
    rfl
  · simp only [InstanceRecord.same, beq_self_eq_true, sameEnvironment, sameProperties, sameResult,
      Bool.and_self]

namespace Snapshot

variable {s : Snapshot}

theorem exists_reread (h : ∀ v ∈ s.values, ∃ w, v.reread? = some w ∧ v.same w = true) :
    ∃ t, s.reread? = some t ∧ s.same t = true := by
  obtain ⟨instances, hi, same⟩ := exists_mapM_agree (l := s.instances) fun r hr =>
    InstanceRecord.exists_reread fun v hv => h v (List.mem_flatMap.mpr ⟨r, hr, hv⟩)
  refine ⟨{ s with instances }, ?_, ?_⟩
  · rw [reread?, hi]
    rfl
  · simp only [Snapshot.same, beq_self_eq_true, same, Bool.and_self]

/-- A workflow that waits at a bookmark of a scope of its own, a child of which has faulted. -/
def waiting : Snapshot where
  workflow := ⟨.ofNat 0x67e5504410b1426f9247bb680e5fe0c8⟩
  fingerprint := "a\"b\n"
  state := .idle
  nextInstance := 300
  nextOperation := 0xffffffffffffffff
  root := ⟨1⟩
  instances := [{
      id := ⟨1⟩, path := "order/1", parent := none, state := .executing
      environment := [⟨"x", .sequence [.integer (-300), .string "é"]⟩]
      properties := [⟨"p", .annotated (.symbol "note") (.boolean true)⟩]
      busy := 1, completionCallback := none, faultCallback := none, scope := .named (.ofNat 7)
      executed := true, cancelRequested := false, markedCanceled := false
      result := none, fault := none }, {
      id := ⟨200⟩, path := "order/1/2", parent := some ⟨1⟩, state := .faulted
      environment := [], properties := [], busy := 0, completionCallback := some "done"
      faultCallback := some "", scope := .default, executed := true, cancelRequested := true
      markedCanceled := false, result := some .null
      fault := some ⟨"no", ⟨200⟩, "order/1/2", "Step", false⟩ }]
  bookmarks := [⟨⟨.named (.ofNat 7), "pay"⟩, ⟨1⟩, some "paid", ⟨true, false⟩⟩]
  scopes := [⟨.ofNat 7, ⟨1⟩⟩]
  createdAt := ⟨1709251199, 999000000⟩
  instanceCount := 2
  bookmarkCount := 1

end Snapshot

end Workflow
