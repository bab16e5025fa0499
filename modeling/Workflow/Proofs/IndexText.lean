import Workflow.Disk.Document
import Workflow.Proofs.RoundTrip
import Workflow.Proofs.Table
import Workflow.Store.IndexJson

/-!
# The index is read back

An index is kept as an indented document. A document nests no deeper than its text is long, so that
the whole text is read, and the owners and saved workflows are found under the names they have.
-/

namespace Workflow

namespace Json

/-! ### Documents in octets -/

theorem length_le_commas {texts : List (List Char)} {text : List Char} (h : text ∈ texts) :
    text.length ≤ (commas texts).length := by
  induction texts with
  | nil => exact absurd h List.not_mem_nil
  | cons first others ih =>
    cases others with
    | nil => exact List.mem_singleton.mp h ▸ Nat.le_refl _
    | cons second others =>
      rw [commas, List.length_append, List.length_cons]
      · rcases List.mem_cons.mp h with rfl | h
        · omega
        · have := ih h
          omega
      · exact List.cons_ne_nil second others

/-- A document nests no deeper than its indented text is long. -/
theorem Plain.shallow {depth : Nat} {j : Json} (h : Plain depth j) (level : Nat) :
    Plain (j.indentedChars level).length j := by
  induction h generalizing level with
  | null => exact .null
  | boolean b => exact .boolean b
  | nat hn => exact .nat hn
  | string s => exact .string s
  | @array _ js _ ih =>
    cases js with
    | nil => exact .array fun _ hj => absurd hj List.not_mem_nil
    | cons j js =>
      rw [indentedChars, List.append_assoc, List.cons_append, List.length_cons, List.length_append]
      refine .array fun k hk => (ih k hk (level + 1)).mono ?_
      have listed := length_le_commas (List.mem_map_of_mem
        (f := fun j => lineBreak (level + 1) ++ indentedChars (level + 1) j) hk)
      rw [← indentedItems_eq, List.length_append] at listed
      omega
  | @object _ fs _ ih =>
    cases fs with
    | nil => exact .object fun _ hf => absurd hf List.not_mem_nil
    | cons f fs =>
      rw [indentedChars, List.append_assoc, List.cons_append, List.length_cons, List.length_append]
      refine .object fun g hg => (ih g hg (level + 1)).mono ?_
      have listed := length_le_commas (List.mem_map_of_mem (f := fun f => lineBreak (level + 1) ++
        printString f.1 ++ ':' :: ([' '] ++ indentedChars (level + 1) f.2)) hg)
      rw [← indentedFields_eq] at listed
      simp only [List.length_append, List.length_cons] at listed
      omega

/-- A text has at least as many octets as characters. -/
theorem length_le_octets (text : List Char) :
    text.length ≤ (Utf8.encode (String.ofList text)).length := by
  rw [← List.length_map octetChar, spelled_encode]
  induction text with
  | nil => exact Nat.le_refl 0
  | cons c text ih =>
    rw [spelled, List.flatMap_cons, List.length_append, List.length_map,
      String.length_utf8EncodeChar, List.length_cons]
    have := c.utf8Size_pos
    have : text.length ≤ (spelled text).length := ih
    rw [spelled] at this
    omega

/-- The octets of an indented document are read as the document. -/
theorem ofBytes?_indented {depth : Nat} {j : Json} (h : Plain depth j) :
    ofBytes? (Utf8.encode j.indented) = some j :=
  (((h.shallow 0).mono (length_le_octets _)).takes_indented 0).readDocument

end Json

/-! ### The parts of an index -/

section

open Json

/-- A summary that a machine can hold. -/
structure InstanceMetadata.Fits (m : InstanceMetadata) : Prop where
  instanceCount : m.instanceCount < wordBound
  savedAt : m.savedAt.Fits

theorem InstanceMetadata.ofJson?_toJson {m : InstanceMetadata} (h : m.Fits) :
    ofJson? m.toJson = some m := by
  have fingerprint : m.toJson.required? "definition_fingerprint" string? = some m.fingerprint :=
    required?_of_values (v := .string m.fingerprint) rfl _
  have state : m.toJson.required? "state" WorkflowState.ofJson? = some m.state :=
    (required?_of_values rfl _).trans m.state.ofJson?_label
  have bookmarks : m.toJson.required? "bookmarks" (list? string?) = some m.bookmarks :=
    (required?_of_values rfl _).trans (list?_eq_some fun _ _ => rfl)
  have instanceCount : m.toJson.required? "instance_count" (natBelow? wordBound) =
      some m.instanceCount := (required?_of_values rfl _).trans (natBelow?_nat h.instanceCount)
  have savedAt : m.toJson.required? "saved_at" Timestamp.ofJson? = some m.savedAt :=
    (required?_of_values rfl _).trans (Timestamp.ofJson?_print h.savedAt)
  refine (bind_of_some fingerprint _).trans ?_
  refine (bind_of_some state _).trans ?_
  refine (bind_of_some bookmarks _).trans ?_
  refine (bind_of_some instanceCount _).trans ?_
  exact bind_of_some savedAt _

theorem InstanceMetadata.plain {m : InstanceMetadata} (h : m.Fits) : Plain 2 m.toJson := by
  refine .record ?_
  exact ⟨.string _, .string _, .list fun _ _ => .string _, .nat h.instanceCount, .string _⟩

theorem OwnerRecord.ofJson?_toJson {r : OwnerRecord} (h : r.createdAt.Fits) :
    ofJson? r.toJson = some r := by
  have name : r.toJson.required? "name" string? = some r.name :=
    required?_of_values (v := .string r.name) rfl _
  have createdAt : r.toJson.required? "created_at" Timestamp.ofJson? = some r.createdAt :=
    (required?_of_values rfl _).trans (Timestamp.ofJson?_print h)
  refine (bind_of_some name _).trans ?_
  exact bind_of_some createdAt _

theorem OwnerRecord.plain (r : OwnerRecord) : Plain 1 r.toJson := by
  refine .record ?_
  exact ⟨.string _, .string _⟩

theorem InstanceEntry.ofJson?_toJson {entry : InstanceEntry} (h : entry.metadata.Fits) :
    ofJson? entry.toJson = some entry := by
  have lockedBy : entry.toJson.optional? "locked_by" Uuid.ofJson? =
      some (entry.lockedBy.map (·.uuid)) := by
    obtain ⟨_ | owner, complete, metadata⟩ := entry
    · rfl
    · exact optional?_eq_some (f := fun u : Uuid => .string u.print) (o := some owner.uuid) rfl
        (fun _ he => nomatch he) fun u _ => u.ofJson?_print
  have complete : entry.toJson.required? "complete" boolean? = some entry.complete :=
    required?_of_values (v := .boolean entry.complete) rfl _
  have metadata : entry.toJson.required? "metadata" InstanceMetadata.ofJson? =
      some entry.metadata :=
    (required?_of_values rfl _).trans (InstanceMetadata.ofJson?_toJson h)
  refine (bind_of_some lockedBy _).trans ?_
  refine (bind_of_some complete _).trans ?_
  refine (bind_of_some metadata _).trans ?_
  have holder : (entry.lockedBy.map (·.uuid)).map OwnerId.mk = entry.lockedBy := by
    cases entry.lockedBy <;> rfl
  exact congrArg (fun lockedBy => some { entry with lockedBy }) holder

theorem InstanceEntry.plain {entry : InstanceEntry} (h : entry.metadata.Fits) :
    Plain 3 entry.toJson := by
  refine .record ?_
  exact ⟨.option fun _ _ => .string _, .boolean _, InstanceMetadata.plain h⟩

end

/-! ### The whole index -/

namespace StoreIndex

/-- An index that a machine can hold. -/
structure Fits (x : StoreIndex) : Prop where
  owners : ∀ (owner : OwnerId) (r : OwnerRecord), x.owners[owner]? = some r → r.createdAt.Fits
  instances : ∀ (workflow : WorkflowId) (entry : InstanceEntry),
    x.instances[workflow]? = some entry → entry.metadata.Fits

variable {x : StoreIndex}

theorem Fits.owner (h : x.Fits) {e : OwnerId × OwnerRecord} (he : e ∈ x.owners.toList) :
    e.2.createdAt.Fits :=
  h.owners e.1 e.2 (Std.ExtTreeMap.mem_toList_iff_getElem?_eq_some.mp he)

theorem Fits.entry (h : x.Fits) {e : WorkflowId × InstanceEntry} (he : e ∈ x.instances.toList) :
    e.2.metadata.Fits :=
  h.instances e.1 e.2 (Std.ExtTreeMap.mem_toList_iff_getElem?_eq_some.mp he)

/-- Fields that are named by identifiers are read with these. -/
theorem fieldsById?_object {α κ : Type} {read : Json → Option α} {write : α → Json}
    (id : κ → Uuid) {l : List (κ × α)} (h : ∀ e ∈ l, read (write e.2) = some e.2) :
    fieldsById? read (.object (l.map fun e => ((id e.1).print, write e.2))) =
      some (l.map fun e => (id e.1, e.2)) := by
  rw [fieldsById?, Json.fields?, Option.bind_some, List.mapM_map]
  induction l with
  | nil => rfl
  | cons e l ih =>
    rw [List.mapM_cons, ih fun e he => h e (List.mem_cons_of_mem _ he)]
    have first : (do return (← Uuid.parse? (id e.1).print, ← read (write e.2)) :
        Option (Uuid × α)) = some (id e.1, e.2) := by
      rw [Uuid.parse?_print, h e List.mem_cons_self]
      rfl
    exact bind_of_some first _

/-- **An index is read from its document.** -/
theorem ofJson?_toJson (h : x.Fits) : ofJson? x.toJson = some x := by
  have owners : x.toJson.required? "owners" (fieldsById? OwnerRecord.ofJson?) =
      some (x.owners.toList.map fun e => (e.1.uuid, e.2)) :=
    (Json.required?_of_values rfl _).trans (fieldsById?_object OwnerId.uuid fun _ he =>
      OwnerRecord.ofJson?_toJson (h.owner he))
  have instances : x.toJson.required? "instances" (fieldsById? InstanceEntry.ofJson?) =
      some (x.instances.toList.map fun e => (e.1.uuid, e.2)) :=
    (Json.required?_of_values rfl _).trans (fieldsById?_object WorkflowId.uuid fun _ he =>
      InstanceEntry.ofJson?_toJson (h.entry he))
  refine (bind_of_some owners _).trans ?_
  refine (bind_of_some instances _).trans ?_
  rw [List.foldl_map, List.foldl_map]
  exact congrArg some (congrArg₂ StoreIndex.mk (Table.foldl_insert_toList x.owners)
    (Table.foldl_insert_toList x.instances))

theorem plain (h : x.Fits) : Json.Plain 5 x.toJson := by
  have owners : Json.Plain 4
      (.object (x.owners.toList.map fun e => (toString e.1, e.2.toJson))) := by
    refine .object fun f hf => ?_
    obtain ⟨e, _, rfl⟩ := List.mem_map.mp hf
    exact e.2.plain.mono (by decide)
  have instances : Json.Plain 4
      (.object (x.instances.toList.map fun e => (toString e.1, e.2.toJson))) := by
    refine .object fun f hf => ?_
    obtain ⟨e, he, rfl⟩ := List.mem_map.mp hf
    exact InstanceEntry.plain (h.entry he)
  refine .record ?_
  exact ⟨owners, instances⟩

/-- The octets of an index. -/
def octets (x : StoreIndex) : Bytes :=
  Utf8.encode x.toJson.indented

/-- **The octets of an index are read as the index.** -/
theorem ofBytes?_octets (h : x.Fits) : (Json.ofBytes? x.octets).bind ofJson? = some x := by
  rw [octets, Json.ofBytes?_indented (plain h), Option.bind_some, ofJson?_toJson h]

theorem fits_empty : ({} : StoreIndex).Fits where
  owners _ _ h := absurd h (by simp)
  instances _ _ h := absurd h (by simp)

end StoreIndex

end Workflow
