import Workflow.Proofs.DiskSteps
import Workflow.Proofs.IndexText
import Workflow.Store.File

/-!
# The files of a store are kept

Under a root that held nothing a store keeps its index and one snapshot for each saved workflow, and
nothing else. What was written is read back, other files stay as they are, and no temporary file is
left, so that opening the store again changes nothing.
-/

namespace Workflow

theorem FileStore.storage_ok {α : Type} {steps : DiskM α} {d d' : Disk} {a : α}
    (h : steps.run d = (.ok a, d')) : (storage steps).run d = (.ok a, d') := by
  have adapted : (storage steps).run d = ((steps.run d).1.mapError .storage, (steps.run d).2) := rfl
  rw [adapted, h]
  rfl

/-! ### Names with extensions -/

theorem Path.splitName_extended {stem extension : String} (hs : stem ≠ "")
    (he : '.' ∉ extension.toList) :
    splitName (stem ++ "." ++ extension) = (stem, some extension) := by
  have reversed : (stem ++ "." ++ extension).toList.reverse =
      extension.toList.reverse ++ '.' :: stem.toList.reverse := by
    simp
  have other : ∀ c ∈ extension.toList.reverse, (c != '.') = true := by
    intro c hc
    rw [bne_iff_ne]
    rintro rfl
    exact he (List.mem_reverse.mp hc)
  have nonempty : stem.toList.reverse.isEmpty = false := by
    simpa using hs
  rw [splitName, reversed, List.takeWhile_append_of_pos other, List.dropWhile_append_of_pos other,
    List.takeWhile_cons_of_neg (by decide), List.dropWhile_cons_of_neg (by decide)]
  simp only [List.drop_one, List.tail_cons, nonempty, Bool.false_eq_true, if_false, List.append_nil,
    List.reverse_reverse, String.ofList_toList]

theorem Path.withExtension_child (p : Path) (name extension : String) :
    (p.child name).withExtension extension = p.child ((splitName name).1 ++ "." ++ extension) := by
  rw [withExtension, getLast?_child]
  dsimp only
  rw [child_eq, child_eq, List.dropLast_concat]

theorem Path.extension?_child (p : Path) (name : String) :
    (p.child name).extension? = (splitName name).2 := by
  rw [extension?, getLast?_child, Option.bind_some]

theorem Path.bare_append (p : Path) {name : String} (hn : name ≠ "") :
    (p ++ [name]).bare = p ++ [name] := by
  rw [bare, List.getLast?_concat, if_neg fun h => hn (Option.some.inj h)]

/-- A text of ASCII characters has as many octets. -/
theorem Json.utf8ByteSize_ascii {cs : List Char} (h : ∀ c ∈ cs, c.toNat < 128) :
    (String.ofList cs).utf8ByteSize = cs.length := by
  have octets := congrArg List.length (spelled_encode cs)
  rw [spelled_ascii h, List.length_map] at octets
  exact octets

theorem Uuid.utf8ByteSize_print (u : Uuid) : u.print.utf8ByteSize = 36 := by
  rw [print, Json.utf8ByteSize_ascii, length_hyphenate u.length_digits]
  intro c hc
  have visible := visible_of_mem_print (u := u) (c := c) (by rwa [print, String.toList_ofList])
  omega

theorem Disk.IsOrdinary.of_size {name : String} (hl : 2 < name.utf8ByteSize)
    (hs : name.utf8ByteSize ≤ nameLimit) : IsOrdinary name := by
  refine ⟨?_, ?_, ?_, hs⟩ <;> rintro rfl <;> exact absurd hl (by decide)

/-! ### Where the files of a store are -/

namespace Layout

/-- The name of the file of a workflow's snapshot. -/
def snapshotName (workflow : WorkflowId) : String :=
  toString workflow ++ "." ++ snapshotExtension

/-- The name of the temporary file beside it. -/
def temporaryName (workflow : WorkflowId) : String :=
  toString workflow ++ "." ++ Disk.temporaryExtension

theorem utf8ByteSize_workflow (workflow : WorkflowId) : (toString workflow).utf8ByteSize = 36 :=
  workflow.uuid.utf8ByteSize_print

theorem utf8ByteSize_named (workflow : WorkflowId) (extension : String) :
    (toString workflow ++ "." ++ extension).utf8ByteSize = 37 + extension.utf8ByteSize := by
  rw [String.utf8ByteSize_append, String.utf8ByteSize_append, utf8ByteSize_workflow]
  rfl

/-- Names of files do not hold the character that ends texts. -/
theorem clean_named (workflow : WorkflowId) {extension : String}
    (he : Char.ofNat 0 ∉ extension.toList) :
    Char.ofNat 0 ∉ (toString workflow ++ "." ++ extension).toList := by
  simp only [String.toList_append, List.mem_append, not_or]
  refine ⟨⟨fun hc => ?_, by decide⟩, he⟩
  exact absurd (Uuid.visible_of_mem_print hc).1 (by decide)

theorem isOrdinary_snapshotName (workflow : WorkflowId) :
    Disk.IsOrdinary (snapshotName workflow) := by
  have size := utf8ByteSize_named workflow snapshotExtension
  exact .of_size (size ▸ by decide) (size ▸ by decide)

theorem isOrdinary_temporaryName (workflow : WorkflowId) :
    Disk.IsOrdinary (temporaryName workflow) := by
  have size := utf8ByteSize_named workflow Disk.temporaryExtension
  exact .of_size (size ▸ by decide) (size ▸ by decide)

theorem workflow_ne_empty (workflow : WorkflowId) : toString workflow ≠ "" := by
  intro he
  have size := utf8ByteSize_workflow workflow
  rw [he] at size
  cases size

theorem splitName_snapshotName (workflow : WorkflowId) :
    Path.splitName (snapshotName workflow) = (toString workflow, some snapshotExtension) :=
  Path.splitName_extended (workflow_ne_empty workflow) (by decide)

theorem extension_snapshotName (workflow : WorkflowId) :
    (Path.splitName (snapshotName workflow)).2 = some snapshotExtension :=
  congrArg Prod.snd (splitName_snapshotName workflow)

theorem snapshotName_inj {v w : WorkflowId} (h : snapshotName v = snapshotName w) : v = w := by
  have same := congrArg (fun name => (Path.splitName name).1) h
  simp only [splitName_snapshotName] at same
  have read := congrArg Uuid.parse? same
  change Uuid.parse? v.uuid.print = Uuid.parse? w.uuid.print at read
  rw [Uuid.parse?_print, Uuid.parse?_print] at read
  cases v
  cases w
  cases read
  rfl

theorem snapshotName_ne_temporaryName (v w : WorkflowId) : snapshotName v ≠ temporaryName w := by
  intro h
  have temporary : (Path.splitName (temporaryName w)).2 = some Disk.temporaryExtension :=
    congrArg Prod.snd (Path.splitName_extended (workflow_ne_empty w) (by decide))
  rw [← h, extension_snapshotName] at temporary
  exact absurd temporary (by decide)

theorem instancesDirectory_eq (l : Layout) : l.instancesDirectory = l.root.bare ++ ["instances"] :=
  Path.child_eq ..

theorem child_instances (l : Layout) (name : String) :
    l.instancesDirectory.child name = l.root.bare ++ ["instances", name] := by
  rw [Path.child_eq, instancesDirectory_eq, Path.bare_append _ (by decide), List.append_assoc]
  rfl

theorem snapshotFile_eq (l : Layout) (workflow : WorkflowId) :
    l.snapshotFile workflow = l.root.bare ++ ["instances", snapshotName workflow] :=
  child_instances ..

/-- The path of a snapshot can be asked for if that of its directory leaves room for its name. -/
theorem isAskable_snapshotFile {l : Layout} (h : Disk.isAskable l.instancesDirectory = true)
    (room : l.instancesDirectory.print.utf8ByteSize + 46 ≤ Disk.pathLimit)
    (workflow : WorkflowId) : Disk.isAskable (l.snapshotFile workflow) = true := by
  have size : (snapshotName workflow).utf8ByteSize = 45 := utf8ByteSize_named ..
  have clean : Char.ofNat 0 ∉ (snapshotName workflow).toList := clean_named _ (by decide)
  rw [snapshotFile_eq, List.append_cons, ← instancesDirectory_eq]
  refine Disk.isAskable_iff.mpr ⟨?_, fun name hn => ?_⟩
  · have named : l.instancesDirectory ≠ [] := by
      rw [instancesDirectory_eq]
      exact List.append_ne_nil_of_right_ne_nil _ (List.cons_ne_nil _ _)
    rw [Path.print_append named (List.cons_ne_nil _ []), Path.print, Path.print,
      String.intercalate_singleton, String.utf8ByteSize_append, String.utf8ByteSize_append, size]
    exact room
  · rcases List.mem_append.mp hn with hn | hn
    · exact (Disk.isAskable_iff.mp h).2 name hn
    · exact List.mem_singleton.mp hn ▸ clean

/-- The directories of a store are there and hold no others, and every file can be asked for. -/
structure Stands (l : Layout) (d : Disk) (r : Address) : Prop where
  calm : d.faults = []
  top : d.find l.root = .directory r
  inner : d.find l.instancesDirectory = .directory (r ++ ["instances"])
  reach : ∀ workflow, Disk.isAskable (l.snapshotFile workflow) = true
  topOnly : ∀ name, d.directories.contains (r ++ [name]) = true → name = "instances"
  innerNone : ∀ name, d.directories.contains (r ++ ["instances"] ++ [name]) = false

namespace Stands

variable {l : Layout} {d : Disk} {r : Address}

/-- Whether a store stands does not depend on the files. -/
theorem files (h : l.Stands d r) (files : Std.ExtTreeMap Address Bytes) :
    l.Stands { d with files } r :=
  ⟨h.calm, Disk.find_directory_files h.top files, Disk.find_directory_files h.inner files, h.reach,
    h.topOnly, h.innerNone⟩

theorem isAskable_top (h : l.Stands d r) {name : String} (hs : name.utf8ByteSize ≤ 10)
    (hc : Char.ofNat 0 ∉ name.toList) : Disk.isAskable (l.root.child name) = true := by
  have reach := h.reach default
  rw [snapshotFile_eq] at reach
  rw [Path.child_eq]
  have longer : 10 ≤ (Path.print ["instances", snapshotName default]).utf8ByteSize := by
    have joined : Path.print ["instances", snapshotName default] =
        "instances" ++ "/" ++ Path.print [snapshotName default] :=
      Path.print_append (List.cons_ne_nil _ []) (List.cons_ne_nil _ [])
    rw [joined, String.utf8ByteSize_append]
    exact Nat.le_add_right 10 _
  exact Disk.isAskable_of_longer reach (List.cons_ne_nil _ _) (Nat.le_trans hs longer) hc

theorem seats_index (h : l.Stands d r) : d.Seats l.indexFile (r ++ ["index.json"]) := by
  refine Disk.seats_child h.top (h.isAskable_top (by decide) (by decide))
    (.of_size (by decide) (by decide)) ?_
  exact Bool.eq_false_iff.mpr fun hd => absurd (h.topOnly _ hd) (by decide)

theorem seats_indexTemporary (h : l.Stands d r) :
    d.Seats (l.indexFile.withExtension Disk.temporaryExtension) (r ++ ["index.tmp"]) := by
  rw [indexFile, Path.withExtension_child]
  refine Disk.seats_child h.top (h.isAskable_top (by decide) (by decide))
    (.of_size (by decide) (by decide)) ?_
  exact Bool.eq_false_iff.mpr fun hd => absurd (h.topOnly _ hd) (by decide)

theorem seats_snapshot (h : l.Stands d r) (workflow : WorkflowId) :
    d.Seats (l.snapshotFile workflow) (r ++ ["instances"] ++ [snapshotName workflow]) :=
  Disk.seats_child h.inner (h.reach workflow) (isOrdinary_snapshotName workflow) (h.innerNone _)

theorem seats_snapshotTemporary (h : l.Stands d r) (workflow : WorkflowId) :
    d.Seats ((l.snapshotFile workflow).withExtension Disk.temporaryExtension)
      (r ++ ["instances"] ++ [temporaryName workflow]) := by
  have name : (l.snapshotFile workflow).withExtension Disk.temporaryExtension =
      l.instancesDirectory.child (temporaryName workflow) := by
    rw [snapshotFile, ← snapshotName, Path.withExtension_child, splitName_snapshotName]
    rfl
  rw [name]
  refine Disk.seats_child h.inner ?_ (isOrdinary_temporaryName workflow) (h.innerNone _)
  have reach := h.reach workflow
  rw [snapshotFile_eq, List.append_cons] at reach
  rw [child_instances, List.append_cons]
  have clean : Char.ofNat 0 ∉ (temporaryName workflow).toList := clean_named _ (by decide)
  refine Disk.isAskable_of_longer reach (List.cons_ne_nil _ _) ?_ clean
  rw [Path.print, String.intercalate_singleton, temporaryName, snapshotName, utf8ByteSize_named,
    utf8ByteSize_named]
  decide

end Stands

/-! ### What the files hold -/

/-- The files of a store hold an index, if it was written, and snapshots, and nothing else is under
the root. -/
structure Keeps (l : Layout) (d : Disk) (r : Address) (index : Option Bytes)
    (payloads : Std.ExtTreeMap WorkflowId Bytes) : Prop extends l.Stands d r where
  index : d.files[r ++ ["index.json"]]? = index
  payloads : ∀ workflow,
    d.files[r ++ ["instances"] ++ [snapshotName workflow]]? = payloads[workflow]?
  topOthers : ∀ name, d.files.contains (r ++ [name]) = true →
    name = "index.json" ∨ name = "instances"
  innerOthers : ∀ name, d.files.contains (r ++ ["instances"] ++ [name]) = true →
    ∃ workflow, name = snapshotName workflow

namespace Keeps

variable {l : Layout} {d : Disk} {r : Address} {index : Option Bytes}
  {payloads : Std.ExtTreeMap WorkflowId Bytes}

theorem readIndex_none (h : l.Keeps d r none payloads) :
    (FileStore.readIndex l).run d = (.ok {}, d) := by
  have read := Disk.readDocument_none h.calm h.seats_index h.index StoreIndex.ofJson?
  exact Disk.run_bind_ok (FileStore.storage_ok read) _

theorem readIndex_some {x : StoreIndex} (h : l.Keeps d r (some x.octets) payloads) (hx : x.Fits) :
    (FileStore.readIndex l).run d = (.ok x, d) := by
  have read := Disk.readDocument_some h.calm h.seats_index h.index (StoreIndex.ofBytes?_octets hx)
  exact Disk.run_bind_ok (FileStore.storage_ok read) _

theorem readPayload_run (h : l.Keeps d r index payloads) (workflow : WorkflowId) :
    (FileStore.readPayload l workflow).run d =
      (payloads[workflow]?.elim (.error (.instanceNotFound workflow)) .ok, d) := by
  have read := Disk.read_run h.calm (h.seats_snapshot workflow)
  rw [h.payloads] at read
  refine (Disk.run_bind_ok (FileStore.storage_ok read) _).trans ?_
  cases payloads[workflow]? <;> rfl

/-- The index is written, and the snapshots stay. -/
theorem writeIndex (h : l.Keeps d r index payloads) (x : StoreIndex) :
    ∃ d', (Disk.writeDocument l.indexFile x.toJson).run d = (.ok (), d') ∧
      l.Keeps d' r (some x.octets) payloads := by
  have unused : d.files[r ++ ["index.tmp"]]? = none := by
    refine Option.eq_none_iff_forall_ne_some.mpr fun bytes hb => ?_
    have known := h.topOthers _ (Table.contains_of_lookup _ hb)
    exact absurd known (by decide)
  have inner (name : String) : r ++ ["index.json"] ≠ r ++ ["instances"] ++ [name] := by
    simp
  have replaced := Disk.replace_run h.calm h.seats_index h.seats_indexTemporary unused
    (Disk.find_parent h.top) x.octets
  refine ⟨_, replaced, h.toStands.files _, ?_, fun workflow => ?_, fun name hn => ?_,
    fun name hn => ?_⟩
  · exact Std.ExtTreeMap.getElem?_insert_self
  · rw [Table.lookup_insert, if_neg (inner _), h.payloads]
  · rcases (Table.contains_insert ..).mp hn with he | he
    · exact .inl (by simpa using he.symm)
    · exact h.topOthers name he
  · rcases (Table.contains_insert ..).mp hn with he | he
    · exact absurd he (inner name)
    · exact h.innerOthers name he

/-- A snapshot is written, and the index and the other snapshots stay. -/
theorem writeSnapshot (h : l.Keeps d r index payloads) (workflow : WorkflowId) (bytes : Bytes) :
    ∃ d', (l.writeSnapshot workflow bytes).run d = (.ok (), d') ∧
      l.Keeps d' r index (payloads.insert workflow bytes) := by
  have unused : d.files[r ++ ["instances"] ++ [temporaryName workflow]]? = none := by
    refine Option.eq_none_iff_forall_ne_some.mpr fun bytes hb => ?_
    obtain ⟨other, he⟩ := h.innerOthers _ (Table.contains_of_lookup _ hb)
    exact snapshotName_ne_temporaryName other workflow he.symm
  have top (name : String) :
      r ++ ["instances"] ++ [snapshotName workflow] ≠ r ++ [name] := by
    simp
  have replaced := Disk.replace_run h.calm (h.seats_snapshot workflow)
    (h.seats_snapshotTemporary workflow) unused (Disk.find_parent h.inner) bytes
  refine ⟨_, replaced, h.toStands.files _, ?_, fun other => ?_, fun name hn => ?_,
    fun name hn => ?_⟩
  · rw [Table.lookup_insert, if_neg (top _), h.index]
  · rw [Table.lookup_insert, Table.lookup_insert, h.payloads]
    by_cases hw : workflow = other
    · rw [if_pos (hw ▸ rfl), if_pos hw]
    · refine (if_neg fun he => hw ?_).trans (if_neg hw).symm
      exact snapshotName_inj (by simpa using he)
  · rcases (Table.contains_insert ..).mp hn with he | he
    · exact absurd he (top name)
    · exact h.topOthers name he
  · rcases (Table.contains_insert ..).mp hn with he | he
    · exact ⟨workflow, by simpa using he.symm⟩
    · exact h.innerOthers name he

/-- No temporary file is left. -/
theorem staleFiles_run (h : l.Keeps d r index payloads) : l.staleFiles.run d = (.ok [], d) := by
  refine (Disk.run_bind_ok (Disk.list_run h.calm h.top) _).trans ?_
  refine (Disk.run_bind_ok (Disk.list_run h.calm h.inner) _).trans ?_
  have fresh : ((d.namesIn r).map l.root.child ++
      (d.namesIn (r ++ ["instances"])).map l.instancesDirectory.child).filter
        (fun p => p.extension? == some Disk.temporaryExtension) = [] := by
    refine List.filter_eq_nil_iff.mpr fun p hp => ?_
    rcases List.mem_append.mp hp with hp | hp
    · obtain ⟨name, hn, rfl⟩ := List.mem_map.mp hp
      rw [Path.extension?_child]
      have known : name = "index.json" ∨ name = "instances" := by
        rcases Disk.mem_namesIn.mp hn with hd | hf
        · exact .inr (h.topOnly name hd)
        · exact h.topOthers name hf
      rcases known with rfl | rfl <;> decide
    · obtain ⟨name, hn, rfl⟩ := List.mem_map.mp hp
      rw [Path.extension?_child]
      rcases Disk.mem_namesIn.mp hn with hd | hf
      · exact absurd hd (Bool.eq_false_iff.mp (h.innerNone name))
      · obtain ⟨workflow, rfl⟩ := h.innerOthers name hf
        rw [extension_snapshotName]
        decide
  rw [fresh]
  rfl

/-- When the directories are made, the store is open. -/
theorem init_made (h : l.Keeps d r index payloads) {before : Disk}
    (made : (Disk.createDirectories l.instancesDirectory).run before = (.ok (), d)) :
    l.init.run before = (.ok (), d) :=
  (Disk.run_bind_ok made _).trans (Disk.run_bind_ok h.staleFiles_run _)

/-- Opening the store again changes nothing. -/
theorem init_run (h : l.Keeps d r index payloads) : l.init.run d = (.ok (), d) :=
  h.init_made (Disk.createDirectories_again h.calm h.inner)

end Keeps

/-! ### Roots that hold nothing -/

/-- When the root is made, if it is not there, it holds nothing, and neither does the place of the
directory for the snapshots. -/
def IsEmptyOn (l : Layout) (d : Disk) : Prop :=
  ∃ d' r, (Disk.createDirectories l.root).run d = (.ok (), d') ∧ d'.find l.root = .directory r ∧
    d'.namesIn r = [] ∧ d'.namesIn (r ++ ["instances"]) = []

variable {l : Layout} {d : Disk}

/-- In a root that was made a directory is made by its name. -/
theorem makeAll_child {d' : Disk} {r : Address} {name : String}
    (made : Disk.makeAll l.root.start.2 l.root.start.1 d = (true, d'))
    (led : d'.find l.root = .directory r) (hn : name ≠ "") :
    Disk.makeAll (l.root.child name).start.2 (l.root.child name).start.1 d =
      Disk.makeAll [name] r d' := by
  obtain ⟨⟨-, slash⟩, -, resolved⟩ := Disk.find_eq_directory.mp led
  obtain ⟨b, leads, further⟩ := Disk.makeAll_append made
  cases leads.symm.trans resolved
  rw [← further [name], Path.child_eq, Path.start_append (.inl hn)]
  rcases l.root.bare_cases with he | he
  · rw [← he]
  · have some_name : l.root.bare ≠ [] := fun hb => slash (by rw [he, hb]; rfl)
    have start : l.root.start = (l.root.bare.start.1, l.root.bare.start.2 ++ [""]) := by
      rw [← Path.start_append (.inr some_name), ← he]
    rw [start, List.append_assoc]
    exact (Disk.makeAll_slash ..).symm

/-- A directory for the snapshots, in a root that holds nothing, makes it a store. -/
theorem keeps_made {r : Address} (calm : d.faults = []) (led : d.find l.root = .directory r)
    (top : d.namesIn r = []) (inner : d.namesIn (r ++ ["instances"]) = [])
    (reach : ∀ workflow, Disk.isAskable (l.snapshotFile workflow) = true)
    (askable : Disk.isAskable l.instancesDirectory = true) :
    l.Keeps { d with directories := d.directories.insert (r ++ ["instances"]) } r none ∅ := by
  have contains (q : Address) : (d.directories.insert (r ++ ["instances"])).contains q = true ↔
      r ++ ["instances"] = q ∨ d.directories.contains q = true := by
    rw [Std.ExtTreeSet.contains_insert, Bool.or_eq_true, beq_iff_eq,
      Std.LawfulEqOrd.compare_eq_iff_eq]
  have led' : ({ d with directories := d.directories.insert (r ++ ["instances"]) } : Disk).find
      l.root = .directory r := Disk.find_directory led fun q hq => (contains q).mpr (.inr hq)
  have ordinary : Disk.IsOrdinary "instances" := .of_size (by decide) (by decide)
  have absent (name : String) := Disk.absent_of_namesIn top name
  have absent' (name : String) := Disk.absent_of_namesIn inner name
  refine ⟨⟨calm, led', ?_, reach, fun name hn => ?_, fun name => ?_⟩, ?_, fun workflow => ?_,
    fun name hn => ?_, fun name hn => ?_⟩
  · refine (Disk.find_child led' askable ordinary.nonempty).trans ?_
    rw [Disk.enter_of_ordinary ordinary]
    exact if_pos ((Bool.or_eq_true ..).mpr (.inr ((contains _).mpr (.inl rfl))))
  · rcases (contains _).mp hn with he | hd
    · simpa using he.symm
    · exact absurd hd (Bool.eq_false_iff.mp (absent name).1)
  · refine Bool.eq_false_iff.mpr fun hn => ?_
    rcases (contains _).mp hn with he | hd
    · simp at he
    · exact absurd hd (Bool.eq_false_iff.mp (absent' name).1)
  · exact Std.ExtTreeMap.getElem?_eq_none_of_contains_eq_false (absent "index.json").2
  · rw [Std.ExtTreeMap.getElem?_empty]
    exact Std.ExtTreeMap.getElem?_eq_none_of_contains_eq_false (absent' _).2
  · exact absurd hn (Bool.eq_false_iff.mp (absent name).2)
  · exact absurd hn (Bool.eq_false_iff.mp (absent' name).2)

/-- **A root that holds nothing is opened.** -/
theorem IsEmptyOn.init_run (h : l.IsEmptyOn d) (calm : d.faults = [])
    (reach : ∀ workflow, Disk.isAskable (l.snapshotFile workflow) = true) :
    ∃ d' r, l.init.run d = (.ok (), d') ∧ l.Keeps d' r none ∅ := by
  obtain ⟨d', r, made, led, top, inner⟩ := h
  have making := ((Disk.createDirectories_eq_ok calm).mp made).2
  have askable : Disk.isAskable l.instancesDirectory = true := by
    have reached := reach default
    rw [snapshotFile_eq, List.append_cons, ← instancesDirectory_eq] at reached
    exact Disk.isAskable_left reached
  have ordinary : Disk.IsOrdinary "instances" := .of_size (by decide) (by decide)
  have free : d'.enter r "instances" = .free (r ++ ["instances"]) := by
    obtain ⟨undirected, unfiled⟩ := Disk.absent_of_namesIn top "instances"
    rw [Disk.enter_of_ordinary ordinary, Disk.placeAt, Disk.isGiven_append ordinary, undirected,
      Std.ExtTreeMap.getElem?_eq_none_of_contains_eq_false unfiled]
    rfl
  have kept := keeps_made ((Disk.makeAll_grows making).2.trans calm) led top inner reach askable
  refine ⟨_, r, kept.init_made ((Disk.createDirectories_eq_ok calm).mpr ⟨askable, ?_⟩), kept⟩
  rw [instancesDirectory, makeAll_child making led ordinary.nonempty, Disk.makeAll, free]
  rfl

end Layout

end Workflow
