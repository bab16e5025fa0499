import Workflow.Proofs.Calendar
import Workflow.Proofs.JsonText
import Workflow.Proofs.Unpacking
import Workflow.Snapshot.Json
import Workflow.Snapshot.Packed

/-!
# Snapshots are read back

Only the values of a snapshot are written as texts of a language of their own. Every other part is
read back from packed data and from JSON as it was, so that reading gives the snapshot with each
value replaced by what its text is read as, in both forms alike.
-/

namespace Workflow

/-! ### Lists and options -/

section

variable {α β : Type} {f g : α → Option β}

theorem bind_eq_bind {o p : Option α} (h : o = p) (hf : ∀ a, f a = g a) : o >>= f = p >>= g := by
  rw [h, funext hf]

theorem mapM_congr {l : List α} (h : ∀ a ∈ l, f a = g a) : l.mapM f = l.mapM g := by
  induction l with
  | nil => rfl
  | cons a l ih =>
    rw [List.mapM_cons, List.mapM_cons, h a List.mem_cons_self,
      ih fun b hb => h b (List.mem_cons_of_mem a hb)]

theorem mapM_eq_some {h : α → Option α} {l : List α} (hl : ∀ a ∈ l, h a = some a) :
    l.mapM h = some l := by
  induction l with
  | nil => rfl
  | cons a l ih =>
    rw [List.mapM_cons, hl a List.mem_cons_self, ih fun b hb => hl b (List.mem_cons_of_mem a hb)]
    rfl

end

/-! ### Parts of packed data -/

namespace Packed

variable {α β : Type}

theorem fieldsOf?_labelled (label : String) (fields : List Packed) :
    (labelled label fields).fieldsOf? label = some fields :=
  if_pos rfl

theorem record?_labelled (label : String) (fields : List Packed) :
    (labelled label fields).record? = some (label, fields) := by
  rw [labelled, record?, Utf8.decode?_encode]
  rfl

theorem case?_labelled (label : String) (fields : List Packed) :
    (labelled label fields).case? = some label := by
  rw [case?, record?_labelled]
  rfl

theorem string?_text (s : String) : (text s).string? = some s :=
  Utf8.decode?_encode s

theorem natBelow?_integer {bound n : Nat} (h : n < bound) :
    (integer n).natBelow? bound = some n :=
  if_pos h

theorem wrapped?_wrapped (label : String) (read : Packed → Option α) (p : Packed) :
    (wrapped label p).wrapped? label read = read p := by
  rw [wrapped?, wrapped, fieldsOf?_labelled]
  rfl

theorem list?_sequence {f : α → Packed} {read : Packed → Option β} {g : α → Option β} {l : List α}
    (h : ∀ a ∈ l, read (f a) = g a) : (sequence (l.map f)).list? read = l.mapM g := by
  rw [list?, List.mapM_map]
  exact mapM_congr h

theorem option?_ofOption {f : α → Packed} {read : Packed → Option β} {g : α → Option β}
    {o : Option α} (h : ∀ a ∈ o, read (f a) = g a) :
    (ofOption (o.map f)).option? read = o.mapM g := by
  cases o with
  | none =>
    rw [Option.map_none, ofOption, option?, record?_labelled]
    rfl
  | some a =>
    rw [Option.map_some, ofOption, option?, record?_labelled]
    simp only [Option.bind_eq_bind, Option.bind_some, h a rfl]
    rfl

theorem option?_eq_some {f : α → Packed} {read : Packed → Option α} {o : Option α}
    (h : ∀ a ∈ o, read (f a) = some a) : (ofOption (o.map f)).option? read = some o := by
  rw [option?_ofOption h]
  cases o <;> rfl

theorem list?_eq_some {f : α → Packed} {read : Packed → Option α} {l : List α}
    (h : ∀ a ∈ l, read (f a) = some a) : (sequence (l.map f)).list? read = some l := by
  rw [list?_sequence h]
  exact mapM_eq_some fun _ _ => rfl

end Packed

/-! ### What values are read as -/

/-- What the text of a value is read as. -/
def Value.reread? (v : Value) : Option Value :=
  parse? v.print

/-- A named value with its value read again. -/
def NamedValue.reread? (v : NamedValue) : Option NamedValue := do
  return { v with value := ← v.value.reread? }

/-- The record of an instance with its values read again. -/
def InstanceRecord.reread? (r : InstanceRecord) : Option InstanceRecord := do
  let environment ← r.environment.mapM NamedValue.reread?
  let properties ← r.properties.mapM NamedValue.reread?
  let result ← r.result.mapM Value.reread?
  return { r with environment, properties, result }

/-- A snapshot with its values read again. -/
def Snapshot.reread? (s : Snapshot) : Option Snapshot := do
  let instances ← s.instances.mapM InstanceRecord.reread?
  return { s with instances }

/-! ### Bounds -/

/-- The numbers of the record of an instance are held by words. -/
structure InstanceRecord.Fits (r : InstanceRecord) : Prop where
  id : r.id.number < wordBound
  parent : ∀ p ∈ r.parent, p.number < wordBound
  busy : r.busy < halfWordBound
  fault : ∀ f ∈ r.fault, f.source.number < wordBound

instance (r : InstanceRecord) : Decidable r.Fits :=
  decidable_of_iff (_ ∧ _ ∧ _ ∧ _)
    ⟨fun h => ⟨h.1, h.2.1, h.2.2.1, h.2.2.2⟩, fun h => ⟨h.1, h.2, h.3, h.4⟩⟩

/-- The numbers of a snapshot are held by words, and the calendar holds its point in time. -/
structure Snapshot.Fits (s : Snapshot) : Prop where
  nextInstance : s.nextInstance < wordBound
  nextOperation : s.nextOperation < wordBound
  root : s.root.number < wordBound
  instances : ∀ r ∈ s.instances, r.Fits
  bookmarks : ∀ g ∈ s.bookmarks, g.owner.number < wordBound
  scopes : ∀ r ∈ s.scopes, r.owner.number < wordBound
  createdAt : s.createdAt.Fits
  instanceCount : s.instanceCount < wordBound
  bookmarkCount : s.bookmarkCount < wordBound

instance (s : Snapshot) : Decidable s.Fits :=
  decidable_of_iff (_ ∧ _ ∧ _ ∧ _ ∧ _ ∧ _ ∧ _ ∧ _ ∧ _)
    ⟨fun h => ⟨h.1, h.2.1, h.2.2.1, h.2.2.2.1, h.2.2.2.2.1, h.2.2.2.2.2.1, h.2.2.2.2.2.2.1,
      h.2.2.2.2.2.2.2.1, h.2.2.2.2.2.2.2.2⟩,
    fun h => ⟨h.1, h.2, h.3, h.4, h.5, h.6, h.7, h.8, h.9⟩⟩

/-! ### Packed records -/

section

open Packed

theorem InstanceId.ofPacked?_toPacked {id : InstanceId} (h : id.number < wordBound) :
    ofPacked? id.toPacked = some id := by
  rw [ofPacked?, toPacked, wrapped?_wrapped, natBelow?_integer h]
  rfl

theorem InstanceId.ofReference?_toReference {id : InstanceId} (h : id.number < wordBound) :
    ofReference? id.toReference = some id := by
  rw [ofReference?, toReference, wrapped?_wrapped, ofPacked?_toPacked h]

theorem Uuid.ofPacked?_toPacked (u : Uuid) : ofPacked? u.toPacked = some u := by
  rw [ofPacked?, toPacked, string?_text, Option.bind_some, parse?_print]

theorem CallbackTag.ofPacked?_toPacked (tag : CallbackTag) :
    ofPacked? (toPacked tag) = some tag := by
  rw [ofPacked?, toPacked, wrapped?_wrapped, string?_text]

theorem Value.ofPacked?_toPacked (v : Value) : ofPacked? v.toPacked = v.reread? := by
  rw [ofPacked?, toPacked, wrapped?_wrapped, string?_text, Option.bind_some, reread?]

theorem Scope.ofPacked?_toPacked (s : Scope) : ofPacked? s.toPacked = some s := by
  cases s with
  | default =>
    rw [ofPacked?, toPacked, record?_labelled]
    rfl
  | named id =>
    rw [ofPacked?, toPacked, wrapped, record?_labelled]
    simp only [Option.bind_eq_bind, Option.bind_some, Uuid.ofPacked?_toPacked]
    rfl

theorem ActivityState.ofLabel?_label (s : ActivityState) : ofLabel? s.label = some s := by
  cases s <;> rfl

theorem WorkflowState.ofLabel?_label (s : WorkflowState) : ofLabel? s.label = some s := by
  cases s <;> rfl

theorem ActivityState.ofPacked?_labelled (s : ActivityState) :
    ofPacked? (.labelled s.label []) = some s := by
  rw [ofPacked?, case?_labelled, Option.bind_some, ofLabel?_label]

theorem WorkflowState.ofPacked?_labelled (s : WorkflowState) :
    ofPacked? (.labelled s.label []) = some s := by
  rw [ofPacked?, case?_labelled, Option.bind_some, ofLabel?_label]

theorem NamedValue.ofPacked?_toPacked (v : NamedValue) : ofPacked? v.toPacked = v.reread? := by
  rw [ofPacked?, toPacked, fieldsOf?_labelled]
  simp only [Option.bind_eq_bind, Option.bind_some, string?_text, Value.ofPacked?_toPacked]
  rfl

theorem FaultRecord.ofPacked?_toPacked {f : FaultRecord} (h : f.source.number < wordBound) :
    ofPacked? f.toPacked = some f := by
  rw [ofPacked?, toPacked, fieldsOf?_labelled]
  simp only [Option.bind_eq_bind, Option.bind_some, string?_text, InstanceId.ofPacked?_toPacked h]
  rfl

theorem InstanceRecord.ofPacked?_toPacked {r : InstanceRecord} (h : r.Fits) :
    ofPacked? r.toPacked = r.reread? := by
  have parent := option?_eq_some fun p hp => InstanceId.ofReference?_toReference (h.parent p hp)
  have completed := option?_eq_some (o := r.completionCallback) fun tag _ =>
    CallbackTag.ofPacked?_toPacked tag
  have faulted := option?_eq_some (o := r.faultCallback) fun tag _ =>
    CallbackTag.ofPacked?_toPacked tag
  have fault := option?_eq_some fun f hf => FaultRecord.ofPacked?_toPacked (h.fault f hf)
  have environment := list?_sequence (l := r.environment) fun v _ => v.ofPacked?_toPacked
  have properties := list?_sequence (l := r.properties) fun v _ => v.ofPacked?_toPacked
  have result := option?_ofOption (o := r.result) fun v _ => v.ofPacked?_toPacked
  rw [ofPacked?, toPacked, fieldsOf?_labelled]
  refine (bind_of_some (InstanceId.ofPacked?_toPacked h.id) _).trans ?_
  refine (bind_of_some (string?_text r.path) _).trans ?_
  refine (bind_of_some parent _).trans ?_
  refine (bind_of_some r.state.ofPacked?_labelled _).trans ?_
  refine bind_eq_bind environment fun _ => bind_eq_bind properties fun _ => ?_
  refine (bind_of_some (natBelow?_integer h.busy) _).trans ?_
  refine (bind_of_some completed _).trans ?_
  refine (bind_of_some faulted _).trans ?_
  refine (bind_of_some r.scope.ofPacked?_toPacked _).trans ?_
  refine bind_eq_bind result fun _ => ?_
  exact bind_of_some fault _

theorem Bookmark.ofPacked?_toPacked (b : Bookmark) : ofPacked? b.toPacked = some b := by
  rw [ofPacked?, toPacked, fieldsOf?_labelled]
  simp only [Option.bind_eq_bind, Option.bind_some, string?_text, Scope.ofPacked?_toPacked]
  rfl

theorem Registration.ofPacked?_toPacked {g : Registration} (h : g.owner.number < wordBound) :
    ofPacked? g.toPacked = some g := by
  have callback := option?_eq_some (o := g.callback) fun tag _ =>
    CallbackTag.ofPacked?_toPacked tag
  have options : BookmarkOptions.ofPacked? g.options.toPacked = some g.options := by
    rw [BookmarkOptions.ofPacked?, BookmarkOptions.toPacked, fieldsOf?_labelled]
    rfl
  rw [ofPacked?, toPacked, fieldsOf?_labelled]
  simp only [Option.bind_eq_bind, Option.bind_some, Bookmark.ofPacked?_toPacked,
    InstanceId.ofReference?_toReference h, callback, options]
  rfl

theorem ScopeRecord.ofPacked?_toPacked {r : ScopeRecord} (h : r.owner.number < wordBound) :
    ofPacked? r.toPacked = some r := by
  rw [ofPacked?, toPacked, fieldsOf?_labelled]
  simp only [Option.bind_eq_bind, Option.bind_some, Uuid.ofPacked?_toPacked,
    InstanceId.ofReference?_toReference h]
  rfl

namespace Snapshot

theorem metadataOfPacked?_metadataToPacked {s : Snapshot} (h : s.Fits) :
    metadataOfPacked? s.metadataToPacked =
      some (s.createdAt, s.instanceCount, s.bookmarkCount) := by
  rw [metadataOfPacked?, metadataToPacked, fieldsOf?_labelled]
  simp only [Option.bind_eq_bind, Option.bind_some, string?_text,
    Timestamp.parse?_print h.createdAt, natBelow?_integer h.instanceCount,
    natBelow?_integer h.bookmarkCount]
  rfl

/-- A snapshot is read from packed data with its values read again. -/
theorem ofPacked?_toPacked {s : Snapshot} (h : s.Fits) : ofPacked? s.toPacked = s.reread? := by
  have instances := list?_sequence fun r hr =>
    InstanceRecord.ofPacked?_toPacked (h.instances r hr)
  have bookmarks := list?_eq_some fun g hg => Registration.ofPacked?_toPacked (h.bookmarks g hg)
  have scopes := list?_eq_some fun r hr => ScopeRecord.ofPacked?_toPacked (h.scopes r hr)
  rw [ofPacked?, toPacked, fieldsOf?_labelled]
  simp only [Option.bind_eq_bind, Option.bind_some, metadataOfPacked?_metadataToPacked h,
    wrapped?_wrapped, Uuid.ofPacked?_toPacked, string?_text, WorkflowState.ofPacked?_labelled,
    natBelow?_integer h.nextInstance, natBelow?_integer h.nextOperation,
    InstanceId.ofReference?_toReference h.root, instances, bookmarks, scopes]
  rfl

end Snapshot

end

/-! ### Parts of documents -/

namespace Json

variable {α β : Type} {j v : Json} {name : String}

theorem natBelow?_nat {bound n : Nat} (h : n < bound) : (nat n).natBelow? bound = some n :=
  if_pos h

theorem list?_array {f : α → Json} {read : Json → Option β} {g : α → Option β} {l : List α}
    (h : ∀ a ∈ l, read (f a) = g a) : list? read (array (l.map f)) = l.mapM g := by
  rw [list?, items?, Option.bind_some, List.mapM_map]
  exact mapM_congr h

theorem list?_eq_some {f : α → Json} {read : Json → Option α} {l : List α}
    (h : ∀ a ∈ l, read (f a) = some a) : list? read (array (l.map f)) = some l := by
  rw [list?_array h]
  exact mapM_eq_some fun _ _ => rfl

theorem required?_of_values (h : j.valuesOf name = some [v]) (read : Json → Option α) :
    j.required? name read = read v := by
  rw [required?, h]

/-- A field that holds nothing is null, and what it holds is not. -/
theorem optional?_of_values {f : α → Json} {read : Json → Option β} {g : α → Option β}
    {o : Option α} (h : j.valuesOf name = some [ofOption (o.map f)]) (hn : ∀ a, f a ≠ null)
    (hr : ∀ a ∈ o, read (f a) = g a) : j.optional? name read = o.mapM g := by
  rw [optional?, h]
  cases o with
  | none => rfl
  | some a =>
    rw [Option.map_some, ofOption]
    split
    · next he => cases he
    · next he => exact absurd (List.cons.inj (Option.some.inj he)).1 (hn a)
    · next he =>
      rw [← (List.cons.inj (Option.some.inj he)).1, hr a rfl]
      rfl
    · next other => exact absurd rfl (other (f a))

theorem optional?_eq_some {f : α → Json} {read : Json → Option α} {o : Option α}
    (h : j.valuesOf name = some [ofOption (o.map f)]) (hn : ∀ a, f a ≠ null)
    (hr : ∀ a ∈ o, read (f a) = some a) : j.optional? name read = some o := by
  rw [optional?_of_values h hn hr]
  cases o <;> rfl

end Json

/-! ### Records as documents -/

section

open Json

theorem InstanceId.ofJson?_toJson {id : InstanceId} (h : id.number < wordBound) :
    ofJson? id.toJson = some id := by
  rw [ofJson?, toJson, natBelow?_nat h]
  rfl

theorem Uuid.ofJson?_print (u : Uuid) : ofJson? (.string u.print) = some u := by
  rw [ofJson?, string?, Option.bind_some, parse?_print]

theorem Timestamp.ofJson?_print {t : Timestamp} (h : t.Fits) :
    ofJson? (.string t.print) = some t := by
  rw [ofJson?, string?, Option.bind_some, parse?_print h]

theorem Scope.ofJson?_toJson (s : Scope) : ofJson? s.toJson = some s := by
  cases s with
  | default => rfl
  | named id =>
    rw [toJson, ofJson?, Uuid.ofJson?_print]
    rfl

theorem ActivityState.ofJson?_label (s : ActivityState) : ofJson? (.string s.label) = some s :=
  s.ofLabel?_label

theorem WorkflowState.ofJson?_label (s : WorkflowState) : ofJson? (.string s.label) = some s :=
  s.ofLabel?_label

theorem Value.ofJson?_toJson (v : Value) : ofJson? v.toJson = v.reread? :=
  rfl

theorem NamedValue.ofJson?_toJson (v : NamedValue) : ofJson? v.toJson = v.reread? :=
  rfl

theorem FaultRecord.ofJson?_toJson {f : FaultRecord} (h : f.source.number < wordBound) :
    ofJson? f.toJson = some f := by
  have source : f.toJson.required? "source" InstanceId.ofJson? = some f.source :=
    (required?_of_values rfl _).trans (InstanceId.ofJson?_toJson h)
  exact bind_of_some source _

theorem InstanceRecord.ofJson?_toJson {r : InstanceRecord} (h : r.Fits) :
    ofJson? r.toJson = r.reread? := by
  have id : r.toJson.required? "id" InstanceId.ofJson? = some r.id :=
    (required?_of_values rfl _).trans (InstanceId.ofJson?_toJson h.id)
  have path : r.toJson.required? "activity_path" string? = some r.path :=
    required?_of_values (v := .string r.path) rfl _
  have parent : r.toJson.optional? "parent" InstanceId.ofJson? = some r.parent :=
    optional?_eq_some rfl (fun _ he => nomatch he) fun p hp =>
      InstanceId.ofJson?_toJson (h.parent p hp)
  have state : r.toJson.required? "state" ActivityState.ofJson? = some r.state :=
    (required?_of_values rfl _).trans r.state.ofJson?_label
  have environment : r.toJson.required? "environment" (list? NamedValue.ofJson?) =
      r.environment.mapM NamedValue.reread? :=
    (required?_of_values rfl _).trans (list?_array fun v _ => v.ofJson?_toJson)
  have properties : r.toJson.required? "properties" (list? NamedValue.ofJson?) =
      r.properties.mapM NamedValue.reread? :=
    (required?_of_values rfl _).trans (list?_array fun v _ => v.ofJson?_toJson)
  have busy : r.toJson.required? "busy_count" (natBelow? halfWordBound) = some r.busy :=
    (required?_of_values rfl _).trans (natBelow?_nat h.busy)
  have completed : r.toJson.optional? "completion_callback" string? = some r.completionCallback :=
    optional?_eq_some rfl (fun _ he => nomatch he) fun _ _ => rfl
  have faulted : r.toJson.optional? "fault_callback" string? = some r.faultCallback :=
    optional?_eq_some rfl (fun _ he => nomatch he) fun _ _ => rfl
  have scope : r.toJson.required? "bookmark_scope" Scope.ofJson? = some r.scope :=
    (required?_of_values rfl _).trans r.scope.ofJson?_toJson
  have executed : r.toJson.required? "executed" boolean? = some r.executed :=
    required?_of_values (v := .boolean r.executed) rfl _
  have requested : r.toJson.required? "cancel_requested" boolean? = some r.cancelRequested :=
    required?_of_values (v := .boolean r.cancelRequested) rfl _
  have marked : r.toJson.required? "marked_canceled" boolean? = some r.markedCanceled :=
    required?_of_values (v := .boolean r.markedCanceled) rfl _
  have result : r.toJson.optional? "result" Value.ofJson? = r.result.mapM Value.reread? :=
    optional?_of_values rfl (fun _ he => nomatch he) fun v _ => v.ofJson?_toJson
  have fault : r.toJson.optional? "fault" FaultRecord.ofJson? = some r.fault :=
    optional?_eq_some rfl (fun _ he => nomatch he) fun f hf =>
      FaultRecord.ofJson?_toJson (h.fault f hf)
  refine (bind_of_some id _).trans ?_
  refine (bind_of_some path _).trans ?_
  refine (bind_of_some parent _).trans ?_
  refine (bind_of_some state _).trans ?_
  refine bind_eq_bind environment fun _ => bind_eq_bind properties fun _ => ?_
  refine (bind_of_some busy _).trans ?_
  refine (bind_of_some completed _).trans ?_
  refine (bind_of_some faulted _).trans ?_
  refine (bind_of_some scope _).trans ?_
  refine (bind_of_some executed _).trans ?_
  refine (bind_of_some requested _).trans ?_
  refine (bind_of_some marked _).trans ?_
  exact bind_eq_bind result fun _ => bind_of_some fault _

theorem Bookmark.ofJson?_toJson (b : Bookmark) : ofJson? b.toJson = some b := by
  have scope : b.toJson.required? "scope" Scope.ofJson? = some b.scope :=
    (required?_of_values rfl _).trans b.scope.ofJson?_toJson
  exact bind_of_some scope _

theorem Registration.ofJson?_toJson {g : Registration} (h : g.owner.number < wordBound) :
    ofJson? g.toJson = some g := by
  have bookmark : g.toJson.required? "bookmark" Bookmark.ofJson? = some g.bookmark :=
    (required?_of_values rfl _).trans g.bookmark.ofJson?_toJson
  have owner : g.toJson.required? "owner" InstanceId.ofJson? = some g.owner :=
    (required?_of_values rfl _).trans (InstanceId.ofJson?_toJson h)
  have callback : g.toJson.optional? "callback" string? = some g.callback :=
    optional?_eq_some rfl (fun _ he => nomatch he) fun _ _ => rfl
  have options : g.toJson.required? "options" BookmarkOptions.ofJson? = some g.options :=
    required?_of_values (v := g.options.toJson) rfl _
  refine (bind_of_some bookmark _).trans ?_
  refine (bind_of_some owner _).trans ?_
  refine (bind_of_some callback _).trans ?_
  exact bind_of_some options _

theorem ScopeRecord.ofJson?_toJson {r : ScopeRecord} (h : r.owner.number < wordBound) :
    ofJson? r.toJson = some r := by
  have id : r.toJson.required? "id" Uuid.ofJson? = some r.id :=
    (required?_of_values rfl _).trans r.id.ofJson?_print
  have owner : r.toJson.required? "owner" InstanceId.ofJson? = some r.owner :=
    (required?_of_values rfl _).trans (InstanceId.ofJson?_toJson h)
  refine (bind_of_some id _).trans ?_
  exact bind_of_some owner _

namespace Snapshot

/-- What a snapshot states about itself, as a document. -/
def metadataToJson (s : Snapshot) : Json :=
  .object [("created_at", .string s.createdAt.print), ("instance_count", .nat s.instanceCount),
    ("bookmark_count", .nat s.bookmarkCount)]

/-- A snapshot is read from a document with its values read again. -/
theorem ofJson?_toJson {s : Snapshot} (h : s.Fits) : ofJson? s.toJson = s.reread? := by
  have metadata : s.toJson.required? "metadata" some = some s.metadataToJson :=
    required?_of_values rfl _
  have workflow : s.toJson.required? "workflow_id" Uuid.ofJson? = some s.workflow.uuid :=
    (required?_of_values rfl _).trans s.workflow.uuid.ofJson?_print
  have fingerprint : s.toJson.required? "definition_fingerprint" string? = some s.fingerprint :=
    required?_of_values (v := .string s.fingerprint) rfl _
  have state : s.toJson.required? "state" WorkflowState.ofJson? = some s.state :=
    (required?_of_values rfl _).trans s.state.ofJson?_label
  have nextInstance : s.toJson.required? "next_instance_id" (natBelow? wordBound) =
      some s.nextInstance := (required?_of_values rfl _).trans (natBelow?_nat h.nextInstance)
  have nextOperation : s.toJson.required? "next_async_id" (natBelow? wordBound) =
      some s.nextOperation := (required?_of_values rfl _).trans (natBelow?_nat h.nextOperation)
  have root : s.toJson.required? "root" InstanceId.ofJson? = some s.root :=
    (required?_of_values rfl _).trans (InstanceId.ofJson?_toJson h.root)
  have instances : s.toJson.required? "instances" (list? InstanceRecord.ofJson?) =
      s.instances.mapM InstanceRecord.reread? :=
    (required?_of_values rfl _).trans (list?_array fun r hr =>
      InstanceRecord.ofJson?_toJson (h.instances r hr))
  have bookmarks : s.toJson.required? "bookmarks" (list? Registration.ofJson?) =
      some s.bookmarks :=
    (required?_of_values rfl _).trans (list?_eq_some fun g hg =>
      Registration.ofJson?_toJson (h.bookmarks g hg))
  have scopes : s.toJson.required? "scopes" (list? ScopeRecord.ofJson?) = some s.scopes :=
    (required?_of_values rfl _).trans (list?_eq_some fun r hr =>
      ScopeRecord.ofJson?_toJson (h.scopes r hr))
  have createdAt : s.metadataToJson.required? "created_at" Timestamp.ofJson? =
      some s.createdAt := (required?_of_values rfl _).trans (Timestamp.ofJson?_print h.createdAt)
  have instanceCount : s.metadataToJson.required? "instance_count" (natBelow? wordBound) =
      some s.instanceCount := (required?_of_values rfl _).trans (natBelow?_nat h.instanceCount)
  have bookmarkCount : s.metadataToJson.required? "bookmark_count" (natBelow? wordBound) =
      some s.bookmarkCount := (required?_of_values rfl _).trans (natBelow?_nat h.bookmarkCount)
  refine (bind_of_some metadata _).trans ?_
  refine (bind_of_some workflow _).trans ?_
  refine (bind_of_some fingerprint _).trans ?_
  refine (bind_of_some state _).trans ?_
  refine (bind_of_some nextInstance _).trans ?_
  refine (bind_of_some nextOperation _).trans ?_
  refine (bind_of_some root _).trans ?_
  refine bind_eq_bind instances fun _ => ?_
  refine (bind_of_some bookmarks _).trans ?_
  refine (bind_of_some scopes _).trans ?_
  refine (bind_of_some createdAt _).trans ?_
  refine (bind_of_some instanceCount _).trans ?_
  exact bind_of_some bookmarkCount _

end Snapshot

end

end Workflow
