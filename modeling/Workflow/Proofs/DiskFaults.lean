import Workflow.Proofs.DiskSteps

/-!
# Steps that fail

Any step on a disk may fail. Which address a path leads to depends on the directories alone, and a
replacement makes none: where one of its steps fails, the file is as it was, or it has been replaced and
only the names in its directory are not known to be kept.
-/

namespace Workflow

namespace Place

/-- What a place is, whether a file is there or not. -/
def shape : Place → Option Address ⊕ Address
  | directory l => .inr l
  | file l _ => .inl (some l)
  | free l => .inl (some l)
  | missing => .inl none
  | blocked => .inl none

/-- The address at which a file is or can be put. -/
def address? (here : Place) : Option Address :=
  here.shape.elim id fun _ => none

theorem shape_eq_directory {here : Place} {l : Address} :
    here.shape = .inr l ↔ here = .directory l := by
  cases here <;> simp [shape]

end Place

namespace Disk

variable {d d' : Disk} {p q : Path} {l a b : Address} {name : String} {names : List String}

/-! ### Addresses -/

theorem shape_placeAt (hd : d'.directories = d.directories) (l : Address) :
    (d'.placeAt l).shape = (d.placeAt l).shape := by
  unfold placeAt
  rw [hd]
  split
  · rfl
  · cases d.files[l]? <;> cases d'.files[l]? <;> rfl

theorem shape_follow (hd : d'.directories = d.directories) {here here' : Place}
    (h : here'.shape = here.shape) (name : String) :
    (d'.follow here' name).shape = (d.follow here name).shape := by
  have entered : ∀ l, (d'.enter l name).shape = (d.enter l name).shape := by
    intro l
    unfold enter
    split
    · rfl
    · rfl
    · rfl
    · split
      · rfl
      · exact shape_placeAt hd _
  cases here <;> cases here' <;> simp_all [Place.shape, follow]

theorem shape_foldl (hd : d'.directories = d.directories) (names : List String) {here here' : Place}
    (h : here'.shape = here.shape) :
    (names.foldl d'.follow here').shape = (names.foldl d.follow here).shape := by
  induction names generalizing here here' with
  | nil => exact h
  | cons name rest ih => exact ih (shape_follow hd h name)

/-- Which address a path leads to depends on the directories alone. -/
theorem shape_find (hd : d'.directories = d.directories) (p : Path) :
    (d'.find p).shape = (d.find p).shape := by
  unfold find
  split
  · rfl
  · split
    · exact shape_foldl hd _ rfl
    · rfl

theorem address_find (hd : d'.directories = d.directories) (p : Path) :
    (d'.find p).address? = (d.find p).address? :=
  congrArg (Sum.elim id fun _ => none) (shape_find hd p)

theorem find_directory_of_same (hd : d'.directories = d.directories) :
    d'.find p = .directory l ↔ d.find p = .directory l := by
  rw [← Place.shape_eq_directory, ← Place.shape_eq_directory, shape_find hd]

/-- A place at which a file can be has the file that the disk has there. -/
def Tells (d : Disk) (here : Place) : Prop :=
  ∀ a, here.address? = some a → here = d.files[a]?.elim (.free a) (.file a)

theorem tells_of_no_address {here : Place} (h : here.address? = none) : d.Tells here := by
  intro a ha
  rw [h] at ha
  cases ha

theorem tells_placeAt (d : Disk) (l : Address) : d.Tells (d.placeAt l) := by
  intro a ha
  unfold placeAt at ha ⊢
  split at ha
  · cases ha
  · next hn =>
    rw [if_neg hn]
    cases hf : d.files[l]? with
    | none =>
      rw [hf] at ha
      cases ha
      rw [hf]
      rfl
    | some bytes =>
      rw [hf] at ha
      cases ha
      rw [hf]
      rfl

theorem tells_follow (d : Disk) (here : Place) (name : String) : d.Tells (d.follow here name) := by
  cases here with
  | directory l =>
    change d.Tells (d.enter l name)
    unfold enter
    split
    · exact tells_of_no_address rfl
    · exact tells_of_no_address rfl
    · exact tells_of_no_address rfl
    · split
      · exact tells_of_no_address rfl
      · exact tells_placeAt d _
  | _ => exact tells_of_no_address rfl

theorem tells_foldl (names : List String) {here : Place} (h : d.Tells here) :
    d.Tells (names.foldl d.follow here) := by
  induction names generalizing here with
  | nil => exact h
  | cons name rest ih => exact ih (tells_follow d here name)

/-- What a path leads to, by its address and the files. -/
theorem find_of_address (h : (d.find p).address? = some a) :
    d.find p = d.files[a]?.elim (.free a) (.file a) := by
  have tells : d.Tells (d.find p) := by
    unfold find
    split
    · exact tells_of_no_address rfl
    · split
      · exact tells_foldl _ (tells_of_no_address rfl)
      · exact tells_of_no_address rfl
  exact tells a h

theorem put_eq (d : Disk) (p : Path) (bytes : Bytes) : d.put p bytes =
    (d.find p).address?.map fun a => { d with files := d.files.insert a bytes } := by
  unfold put
  cases d.find p <;> rfl

/-! ### Steps -/

/-- A disk that differs in which steps will fail. -/
theorem find_faults (d : Disk) (faults : List Bool) (p : Path) :
    ({ d with faults } : Disk).find p = d.find p :=
  rfl

theorem nextFault_run (d : Disk) :
    nextFault.run d = (.ok (d.faults.headD false), { d with faults := d.faults.tail }) := by
  cases hf : d.faults with
  | nil =>
    obtain ⟨files, directories, faults⟩ := d
    cases hf
    exact nextFault_calm rfl
  | cons fault rest =>
    refine (run_bind_ok (get_run d) _).trans ?_
    rw [hf]
    rfl

/-- What a step does. -/
theorem step_run {α : Type} (message : String) (change : Disk → Option (α × Disk)) (d : Disk) :
    (step message change).run d =
      match d.faults.headD false, change { d with faults := d.faults.tail } with
      | false, some (a, d') => (.ok a, d')
      | _, _ => (.error message, { d with faults := d.faults.tail }) := by
  refine (run_bind_ok (nextFault_run d) _).trans ?_
  refine (run_bind_ok (get_run _) _).trans ?_
  cases d.faults.headD false <;> cases change { d with faults := d.faults.tail } <;> rfl

/-- A step is done, or it fails and changes nothing but which steps will fail. -/
theorem step_cases {α : Type} {message : String} {change : Disk → Option (α × Disk)}
    {r : Except String α} (h : (step message change).run d = (r, d')) :
    (∃ a, change { d with faults := d.faults.tail } = some (a, d') ∧ r = .ok a) ∨
      (r = .error message ∧ d' = { d with faults := d.faults.tail }) := by
  rw [step_run] at h
  split at h
  · next a m _ changed =>
    obtain ⟨rfl, rfl⟩ := Prod.mk.inj h
    exact .inl ⟨a, changed, rfl⟩
  · obtain ⟨rfl, rfl⟩ := Prod.mk.inj h
    exact .inr ⟨rfl, rfl⟩

/-- Steps one after another: the first ones fail, or the others follow. -/
theorem run_bind_cases {ε α β : Type} {m : ExceptT ε (StateM Disk) α}
    {k : α → ExceptT ε (StateM Disk) β} {r : Except ε β} (h : (m >>= k).run d = (r, d')) :
    (∃ a m', m.run d = (.ok a, m') ∧ (k a).run m' = (r, d')) ∨
      ∃ error, m.run d = (.error error, d') ∧ r = .error error := by
  cases hm : m.run d with
  | mk x m' =>
    cases x with
    | ok a => exact .inl ⟨a, m', rfl, (run_bind_ok hm k).symm.trans h⟩
    | error error =>
      obtain ⟨rfl, rfl⟩ := Prod.mk.inj ((run_bind_error hm k).symm.trans h)
      exact .inr ⟨error, rfl, rfl⟩

/-! ### Replacements that fail -/

/-- The directories are the same, and so are the files but for those at some addresses. -/
structure Spares (d d' : Disk) (P : Address → Prop) : Prop where
  directories : d'.directories = d.directories
  files : ∀ c, ¬ P c → d'.files[c]? = d.files[c]?

theorem Spares.refl (d : Disk) (P : Address → Prop) : Spares d d P :=
  ⟨rfl, fun _ _ => rfl⟩

theorem Spares.faults {P : Address → Prop} (h : Spares d d' P) (faults : List Bool) :
    Spares d { d' with faults } P :=
  ⟨h.directories, h.files⟩

/-- A temporary file has some contents, and all other files are as they were. -/
structure Draft (d : Disk) (t : Path) (bytes : Bytes) (d' : Disk) : Prop where
  directories : d'.directories = d.directories
  holds : ∃ b, (d.find t).address? = some b ∧ d'.files[b]? = some bytes ∧
    ∀ c, c ≠ b → d'.files[c]? = d.files[c]?

theorem Draft.spares {t : Path} {bytes : Bytes} (h : Draft d t bytes d') :
    Spares d d' fun c => (d.find t).address? = some c := by
  obtain ⟨b, hb, -, others⟩ := h.holds
  exact ⟨h.directories, fun c hc => others c fun he => hc (he ▸ hb)⟩

theorem Draft.faults {t : Path} {bytes : Bytes} (h : Draft d t bytes d') (faults : List Bool) :
    Draft d t bytes { d' with faults } :=
  ⟨h.directories, h.holds⟩

/-- The temporary file is found with what it holds. -/
theorem Draft.find {t : Path} {bytes : Bytes} (h : Draft d t bytes d') :
    ∃ b, (d.find t).address? = some b ∧ d'.find t = .file b bytes := by
  obtain ⟨b, hb, held, -⟩ := h.holds
  refine ⟨b, hb, ?_⟩
  rw [find_of_address (address_find h.directories t ▸ hb), held]
  rfl

/-- A file is put at its address and nowhere else. -/
theorem put_draft (d' : Disk) {t : Path} {bytes : Bytes} {m : Disk}
    (hd : d'.directories = d.directories)
    (others : ∀ b, (d.find t).address? = some b → ∀ c, c ≠ b → d'.files[c]? = d.files[c]?)
    (h : d'.put t bytes = some m) : Draft d t bytes m := by
  rw [put_eq, address_find hd] at h
  obtain ⟨b, hb, rfl⟩ := Option.map_eq_some_iff.mp h
  refine ⟨hd, b, hb, Std.ExtTreeMap.getElem?_insert_self, fun c hc => ?_⟩
  rw [Table.lookup_insert, if_neg (Ne.symm hc)]
  exact others b hb c hc

/-- The message of a temporary file that cannot be made. -/
def createMessage (t : Path) : String :=
  "Failed to create temp file: " ++ t.quote

/-- The message of a file that cannot be given another path. -/
def renameMessage (t p : Path) : String :=
  "Failed to rename " ++ t.quote ++ " to " ++ p.quote

theorem create_cases {t : Path} {r : Except String Unit} (h : (create t).run d = (r, d')) :
    (r = .ok () ∧ Draft d t [] d') ∨
      (r = .error (createMessage t) ∧ Spares d d' fun c => (d.find t).address? = some c) := by
  rcases step_cases h with ⟨_, made, rfl⟩ | ⟨rfl, rfl⟩
  · obtain ⟨m, hm, same⟩ := Option.map_eq_some_iff.mp made
    cases same
    exact .inl ⟨rfl, put_draft { d with faults := d.faults.tail } rfl (fun _ _ _ _ => rfl) hm⟩
  · exact .inr ⟨rfl, (Spares.refl d _).faults _⟩

theorem fill_cases {t : Path} {x bytes : Bytes} {m : Disk} {r : Except String Unit}
    (hm : Draft d t x m) (h : (fill t bytes).run m = (r, d')) :
    (r = .ok () ∧ Draft d t bytes d') ∨ (r = .error "Failed to write data" ∧ Draft d t x d') := by
  rcases step_cases h with ⟨_, put, rfl⟩ | ⟨rfl, rfl⟩
  · obtain ⟨b, hb, found⟩ := hm.find
    obtain ⟨b', hb', -, others⟩ := hm.holds
    rw [find_faults, found] at put
    obtain ⟨n, hn, same⟩ := Option.map_eq_some_iff.mp put
    cases same
    have beside : ∀ c, (d.find t).address? = some c → ∀ a, a ≠ c → m.files[a]? = d.files[a]? :=
      fun c hc => Option.some.inj (hb'.symm.trans hc) ▸ others
    exact .inl ⟨rfl, put_draft { m with faults := m.faults.tail } hm.directories beside hn⟩
  · exact .inr ⟨rfl, hm.faults _⟩

theorem syncFile_cases {t : Path} {bytes : Bytes} {m : Disk} {r : Except String Unit}
    (hm : Draft d t bytes m) (h : syncFile.run m = (r, d')) :
    (r = .ok () ∨ r = .error "Failed to sync file") ∧ Draft d t bytes d' := by
  rcases step_cases h with ⟨_, same, rfl⟩ | ⟨rfl, rfl⟩
  · cases same
    exact ⟨.inl rfl, hm.faults _⟩
  · exact ⟨.inr rfl, hm.faults _⟩

/-- A file has new contents, and all others are as they were but for a temporary file. -/
structure Placed (d : Disk) (p t : Path) (bytes : Bytes) (d' : Disk) : Prop where
  holds : ∃ a, (d.find p).address? = some a ∧ d'.files[a]? = some bytes
  spares : Spares d d' fun c => (d.find p).address? = some c ∨ (d.find t).address? = some c

theorem Placed.of_faults {t : Path} {bytes : Bytes} {faults : List Bool}
    (h : Placed { d with faults } p t bytes d') : Placed d p t bytes d' :=
  ⟨h.holds, h.spares.directories, h.spares.files⟩

theorem Placed.find {t : Path} {bytes : Bytes} (h : Placed d p t bytes d') :
    ∃ a, d'.find p = .file a bytes := by
  obtain ⟨a, ha, held⟩ := h.holds
  refine ⟨a, ?_⟩
  rw [find_of_address (address_find h.spares.directories p ▸ ha), held]
  rfl

theorem rename_cases {t : Path} {bytes : Bytes} {m : Disk} {r : Except String Unit}
    (hm : Draft d t bytes m) (h : (rename t p).run m = (r, d')) :
    (r = .ok () ∧ Placed d p t bytes d') ∨
      (r = .error (renameMessage t p) ∧ Draft d t bytes d') := by
  rcases step_cases h with ⟨_, moved, rfl⟩ | ⟨rfl, rfl⟩
  · obtain ⟨b, hb, found⟩ := hm.find
    obtain ⟨b', hb', -, others⟩ := hm.holds
    have alone : b' = b := Option.some.inj (hb'.symm.trans hb)
    rw [find_faults, found] at moved
    obtain ⟨n, hn, same⟩ := Option.map_eq_some_iff.mp moved
    cases same
    have led : ∀ files faults, (({ m with files, faults } : Disk).find p).address? =
        (d.find p).address? := by
      intro files faults
      have same : ({ m with files, faults } : Disk).directories = d.directories := hm.directories
      exact address_find same p
    rw [put_eq, led] at hn
    obtain ⟨a, ha, rfl⟩ := Option.map_eq_some_iff.mp hn
    refine .inl ⟨rfl, ⟨a, ha, Std.ExtTreeMap.getElem?_insert_self⟩, hm.directories, fun c hc => ?_⟩
    obtain ⟨other, unlike⟩ := not_or.mp hc
    rw [Table.lookup_insert, if_neg fun he : a = c => other (he ▸ ha), Table.lookup_erase,
      if_neg fun he : b = c => unlike (he ▸ hb)]
    exact others c fun he => unlike (he ▸ hb')
  · exact .inr ⟨rfl, hm.faults _⟩

/-- The temporary file through which a file is replaced. -/
def draftOf (p : Path) : Path :=
  p.withExtension temporaryExtension

/-- What is said when a step of a replacement fails before the file is replaced. -/
def unreplacedMessages (p : Path) : List String :=
  [createMessage (draftOf p), "Failed to write data", "Failed to sync file",
    renameMessage (draftOf p) p]

/-- What is said when only the names in the directory of the file are not known to be kept. -/
def unsyncedMessage (p : Path) : String :=
  "Failed to sync directory: " ++ p.parent.quote

/-- What may come of a replacement. -/
inductive Replaced (p : Path) (bytes : Bytes) (d : Disk) : Except String Unit → Disk → Prop
  /-- A step fails, and at most the temporary file is another. -/
  | never {message : String} {d' : Disk} (hm : message ∈ unreplacedMessages p)
      (spares : Spares d d' fun c => (d.find (draftOf p)).address? = some c) :
      Replaced p bytes d (.error message) d'
  /-- The file is replaced, but the last step may fail. -/
  | done {r : Except String Unit} {d' : Disk}
      (hr : r = .ok () ∨ r = .error (unsyncedMessage p)) (placed : Placed d p (draftOf p) bytes d') :
      Replaced p bytes d r d'

/-- Whichever step fails, a replacement leaves the file as it was or puts the new contents there as a
whole. -/
theorem replace_cases {bytes : Bytes} {r : Except String Unit}
    (h : (replace p bytes).run d = (r, d')) : Replaced p bytes d r d' := by
  unfold replace at h
  rcases run_bind_cases h with ⟨_, m, created, h⟩ | ⟨message, failed, rfl⟩
  swap
  · obtain ⟨he, spares⟩ := (create_cases failed).resolve_left fun ⟨ho, _⟩ => nomatch ho
    cases he
    exact .never (by simp [unreplacedMessages, draftOf]) spares
  obtain ⟨-, empty⟩ := (create_cases created).resolve_right fun ⟨he, _⟩ => nomatch he
  rcases run_bind_cases h with ⟨_, m, filled, h⟩ | ⟨message, failed, rfl⟩
  swap
  · obtain ⟨he, draft⟩ := (fill_cases empty failed).resolve_left fun ⟨ho, _⟩ => nomatch ho
    cases he
    exact .never (by simp [unreplacedMessages]) draft.spares
  obtain ⟨-, full⟩ := (fill_cases empty filled).resolve_right fun ⟨he, _⟩ => nomatch he
  rcases run_bind_cases h with ⟨_, m, synced, h⟩ | ⟨message, failed, rfl⟩
  swap
  · obtain ⟨he, draft⟩ := syncFile_cases full failed
    cases he.resolve_left fun ho => nomatch ho
    exact .never (by simp [unreplacedMessages]) draft.spares
  obtain ⟨-, kept⟩ := syncFile_cases full synced
  rcases run_bind_cases h with ⟨_, m, renamed, h⟩ | ⟨message, failed, rfl⟩
  swap
  · obtain ⟨he, draft⟩ := (rename_cases kept failed).resolve_left fun ⟨ho, _⟩ => nomatch ho
    cases he
    exact .never (by simp [unreplacedMessages, draftOf]) draft.spares
  obtain ⟨-, placed⟩ := (rename_cases kept renamed).resolve_right fun ⟨he, _⟩ => nomatch he
  have settled : ∀ faults, Placed d p (draftOf p) bytes { m with faults } := fun faults =>
    ⟨placed.holds, placed.spares.faults faults⟩
  rcases step_cases h with ⟨_, known, rfl⟩ | ⟨rfl, rfl⟩
  · split at known
    · cases known
      exact .done (.inl rfl) (settled _)
    · cases known
  · exact .done (.inr rfl) (settled _)

/-! ### Paths under a directory -/

theorem foldl_of_not_directory {here : Place} (h : ∀ l, here ≠ .directory l) :
    names.foldl d'.follow here = names.foldl d.follow here := by
  induction names generalizing here with
  | nil => rfl
  | cons name rest ih =>
    have same : d'.follow here name = d.follow here name := by
      cases here with
      | directory l => exact absurd rfl (h l)
      | _ => rfl
    have dead : ∀ l, d.follow here name ≠ .directory l := fun l hl =>
      have ⟨a, ha, _⟩ := follow_eq_directory hl
      h a ha
    rw [List.foldl_cons, List.foldl_cons, same]
    exact ih dead

theorem resolve_names (ho : ∀ name ∈ names, name ≠ "") (q : Path) :
    d.resolve (q ++ names) = names.foldl d.follow (d.resolve q) := by
  induction names generalizing q with
  | nil => rw [List.append_nil]; rfl
  | cons name rest ih =>
    obtain ⟨named, others⟩ := List.forall_mem_cons.mp ho
    rw [List.append_cons, ih others, resolve_append (.inl named)]
    rfl

theorem address_foldl {here : Place} (hn : names ≠ []) (ho : ∀ name ∈ names, IsOrdinary name)
    (h : (names.foldl d.follow here).address? = some a) :
    ∃ l, here = .directory l ∧ a = l ++ names := by
  induction names generalizing here with
  | nil => exact absurd rfl hn
  | cons name rest ih =>
    obtain ⟨ordinary, others⟩ := List.forall_mem_cons.mp ho
    have entered : ∀ l, d.follow (.directory l) name = d.placeAt (l ++ [name]) := fun l =>
      enter_of_ordinary ordinary
    by_cases last : rest = []
    · subst last
      cases here with
      | directory l =>
        refine ⟨l, rfl, ?_⟩
        rw [List.foldl_cons, List.foldl_nil, entered, placeAt] at h
        split at h
        · cases h
        · split at h <;> exact (Option.some.inj h).symm
      | _ => cases h
    · obtain ⟨b, hb, rfl⟩ := ih last others h
      obtain ⟨l, rfl, -⟩ := follow_eq_directory hb
      refine ⟨l, rfl, ?_⟩
      rw [entered, placeAt] at hb
      split at hb
      · cases hb
        rw [List.append_assoc]
        rfl
      · split at hb <;> cases hb

/-- Ordinary names lead to an address only from a directory, and then to the one they make up. -/
theorem address_append {q : Path} (hn : names ≠ []) (ho : ∀ name ∈ names, IsOrdinary name)
    (h : (d.find (q ++ names)).address? = some a) :
    ∃ l, d.resolve q = .directory l ∧ a = l ++ names := by
  rw [find] at h
  split at h
  · cases h
  · split at h
    · change (d.resolve (q ++ names)).address? = some a at h
      rw [resolve_names fun name hm => (ho name hm).nonempty] at h
      exact address_foldl hn ho h
    · cases h

theorem foldl_of_files (hd : d'.directories = d.directories)
    (ho : ∀ name ∈ names, IsOrdinary name)
    (hf : ∀ more, more <+: names → d'.files[l ++ more]? = d.files[l ++ more]?) :
    names.foldl d'.follow (.directory l) = names.foldl d.follow (.directory l) := by
  induction names generalizing l with
  | nil => rfl
  | cons name rest ih =>
    obtain ⟨ordinary, others⟩ := List.forall_mem_cons.mp ho
    have first := hf [name] ⟨rest, rfl⟩
    have same : d'.placeAt (l ++ [name]) = d.placeAt (l ++ [name]) := by
      rw [placeAt, placeAt, hd, first]
    have entered : ∀ e : Disk, (name :: rest).foldl e.follow (.directory l) =
        rest.foldl e.follow (e.placeAt (l ++ [name])) := fun e =>
      congrArg (rest.foldl e.follow) (enter_of_ordinary ordinary)
    rw [entered, entered, same]
    cases hp : d.placeAt (l ++ [name]) with
    | directory b =>
      have there : b = l ++ [name] := by
        unfold placeAt at hp
        split at hp
        · exact (Place.directory.inj hp).symm
        · split at hp <;> cases hp
      refine ih others fun more hm => ?_
      have further := hf (name :: more) (List.cons_prefix_cons.mpr ⟨rfl, hm⟩)
      rwa [there, List.append_assoc]
    | _ =>
      refine foldl_of_not_directory fun _ hl => ?_
      cases hl

/-- What is under a directory stays as it is when files under that directory change that are not on the
way. -/
theorem find_append {q : Path} {P : Address → Prop} (h : Spares d d' P)
    (ho : ∀ name ∈ names, IsOrdinary name)
    (apart : ∀ c, P c → ∃ l other, d.resolve q = .directory l ∧ c = l ++ other ∧ ¬ other <+: names) :
    d'.find (q ++ names) = d.find (q ++ names) := by
  by_cases led : ∃ l, d.resolve q = .directory l
  · obtain ⟨l, hl⟩ := led
    have hl' : d'.resolve q = .directory l := by
      rw [← Place.shape_eq_directory, resolve, shape_foldl h.directories _ rfl]
      exact Place.shape_eq_directory.mpr hl
    have same : d'.resolve (q ++ names) = d.resolve (q ++ names) := by
      have named : ∀ name ∈ names, name ≠ "" := fun name hm => (ho name hm).nonempty
      rw [resolve_names named, resolve_names named, hl, hl']
      refine foldl_of_files h.directories ho fun more hm => h.files _ fun hc => ?_
      obtain ⟨b, other, hb, he, off⟩ := apart _ hc
      cases hl.symm.trans hb
      exact off (List.append_cancel_left he ▸ hm)
    rw [find, find]
    split
    · rfl
    · split
      · exact same
      · rfl
  · -- Nothing under the directory has an address, so all files are the same.
    have files : d'.files = d.files := by
      refine Std.ExtTreeMap.ext_getElem? fun c => h.files c fun hc => ?_
      obtain ⟨l, -, hl, -⟩ := apart c hc
      exact led ⟨l, hl⟩
    have same : d' = { d with faults := d'.faults } := by
      obtain ⟨_, _, _⟩ := d'
      cases h.directories
      cases files
      rfl
    rw [same, find_faults]

/-! ### Disks that differ at some addresses -/

/-- Two disks have certain directories and the same faults, and the same files but for those at some
addresses. -/
structure Parallel (D : Std.ExtTreeSet Address) (P : Address → Prop) (d d' : Disk) : Prop
    extends Spares d d' P where
  faults : d'.faults = d.faults
  certain : d.directories = D

/-- Steps on two disks that differ at some addresses end alike, and leave disks that differ there. -/
def Alongside {ρ : Type} (D : Std.ExtTreeSet Address) (P : Address → Prop) (x x' : ρ × Disk) : Prop :=
  x'.1 = x.1 ∧ Parallel D P x.2 x'.2

section

variable {D : Std.ExtTreeSet Address} {P : Address → Prop} {ε α β : Type}

theorem Parallel.tail (h : Parallel D P d d') :
    Parallel D P { d with faults := d.faults.tail } { d' with faults := d'.faults.tail } :=
  ⟨⟨h.directories, h.files⟩, congrArg List.tail h.faults, h.certain⟩

theorem Parallel.put {p : Path} (h : Parallel D P d d') (bytes : Bytes) :
    Option.Rel (Parallel D P) (d.put p bytes) (d'.put p bytes) := by
  rw [put_eq, put_eq, address_find h.directories]
  cases (d.find p).address? with
  | none => exact .none
  | some a =>
    refine .some ⟨⟨h.directories, fun c hc => ?_⟩, h.faults, h.certain⟩
    have same := h.files c hc
    rw [Table.lookup_insert, Table.lookup_insert, same]

theorem alongside_bind {m : ExceptT ε (StateM Disk) α} {k : α → ExceptT ε (StateM Disk) β}
    (hm : Alongside D P (m.run d) (m.run d'))
    (hk : ∀ a e e', m.run d = (.ok a, e) → m.run d' = (.ok a, e') → Parallel D P e e' →
      Alongside D P ((k a).run e) ((k a).run e')) :
    Alongside D P ((m >>= k).run d) ((m >>= k).run d') := by
  cases hd : m.run d with
  | mk x e =>
    cases hd' : m.run d' with
    | mk x' e' =>
      rw [hd, hd'] at hm
      obtain ⟨same, parallel⟩ := hm
      cases (same : x' = x)
      cases x with
      | ok a =>
        rw [run_bind_ok hd, run_bind_ok hd']
        exact hk a e e' hd hd' parallel
      | error error =>
        rw [run_bind_error hd, run_bind_error hd']
        exact ⟨rfl, parallel⟩

theorem alongside_step {message : String} {change : Disk → Option (α × Disk)} (h : Parallel D P d d')
    (hc : Option.Rel (Alongside D P) (change { d with faults := d.faults.tail })
      (change { d' with faults := d'.faults.tail })) :
    Alongside D P ((step message change).run d) ((step message change).run d') := by
  have drawn : d'.faults.headD false = d.faults.headD false := congrArg (List.headD · false) h.faults
  have failed : Alongside D P ((.error message : Except String α), { d with faults := d.faults.tail })
      (.error message, { d' with faults := d'.faults.tail }) := ⟨rfl, h.tail⟩
  rw [step_run, step_run, drawn]
  generalize change { d with faults := d.faults.tail } = x at hc ⊢
  generalize change { d' with faults := d'.faults.tail } = x' at hc ⊢
  cases hc with
  | none => cases d.faults.headD false <;> exact failed
  | some done =>
    cases d.faults.headD false with
    | true => exact failed
    | false => exact ⟨congrArg Except.ok done.1, done.2⟩

theorem rel_done {x x' : Option Disk} (h : Option.Rel (Parallel D P) x x') :
    Option.Rel (Alongside D P) (x.map ((), ·)) (x'.map ((), ·)) := by
  cases h with
  | none => exact .none
  | some same => exact .some ⟨rfl, same⟩

theorem alongside_fill {m m' : Disk} {t : Path} {x x' : Bytes} (h : Parallel D P m m')
    (hm : Draft d t x m) (hm' : Draft d' t x' m') (bytes : Bytes) :
    Alongside D P ((fill t bytes).run m) ((fill t bytes).run m') := by
  obtain ⟨b, -, found⟩ := hm.find
  obtain ⟨b', -, found'⟩ := hm'.find
  refine alongside_step h ?_
  rw [find_faults m, find_faults m', found, found']
  dsimp only
  exact rel_done (h.tail.put bytes)

theorem alongside_rename {m m' : Disk} {t p : Path} {bytes : Bytes} (h : Parallel D P m m')
    (hm : Draft d t bytes m) (hm' : Draft d' t bytes m') :
    Alongside D P ((rename t p).run m) ((rename t p).run m') := by
  obtain ⟨b, hb, found⟩ := hm.find
  obtain ⟨b', hb', found'⟩ := hm'.find
  have led : (m'.find t).address? = (m.find t).address? := address_find h.directories t
  rw [found, found'] at led
  cases led
  refine alongside_step h ?_
  rw [find_faults m, find_faults m', found, found']
  have taken : Parallel D P { m with files := m.files.erase b, faults := m.faults.tail }
      { m' with files := m'.files.erase b, faults := m'.faults.tail } := by
    refine ⟨⟨h.directories, fun c hc => ?_⟩, congrArg List.tail h.faults, h.certain⟩
    have same := h.files c hc
    rw [Table.lookup_erase, Table.lookup_erase, same]
  exact rel_done (taken.put bytes)

theorem alongside_syncDirectory (h : Parallel D P d d') (p : Path) :
    Alongside D P ((syncDirectory p).run d) ((syncDirectory p).run d') := by
  refine alongside_step h ?_
  rw [find_faults d, find_faults d']
  by_cases led : ∃ l, d.find p = .directory l
  · obtain ⟨l, hl⟩ := led
    rw [hl, (find_directory_of_same h.directories).mpr hl]
    exact .some ⟨rfl, h.tail⟩
  · have led' : ¬ ∃ l, d'.find p = .directory l := fun ⟨l, hl⟩ =>
      led ⟨l, (find_directory_of_same h.directories).mp hl⟩
    split
    · next l hl => exact absurd ⟨l, hl⟩ led
    · split
      · next l hl => exact absurd ⟨l, hl⟩ led'
      · exact .none

/-- A replacement ends alike. -/
theorem alongside_replace (h : Parallel D P d d') (p : Path) (bytes : Bytes) :
    Alongside D P ((replace p bytes).run d) ((replace p bytes).run d') := by
  refine alongside_bind (alongside_step h (rel_done (h.tail.put []))) fun _ e e' he he' h => ?_
  obtain ⟨-, empty⟩ := (create_cases he).resolve_right fun ⟨hr, _⟩ => nomatch hr
  obtain ⟨-, empty'⟩ := (create_cases he').resolve_right fun ⟨hr, _⟩ => nomatch hr
  refine alongside_bind (alongside_fill h empty empty' bytes) fun _ e e' he he' h => ?_
  obtain ⟨-, full⟩ := (fill_cases empty he).resolve_right fun ⟨hr, _⟩ => nomatch hr
  obtain ⟨-, full'⟩ := (fill_cases empty' he').resolve_right fun ⟨hr, _⟩ => nomatch hr
  refine alongside_bind (alongside_step h (.some ⟨rfl, h.tail⟩)) fun _ e e' he he' h => ?_
  obtain ⟨-, kept⟩ := syncFile_cases full he
  obtain ⟨-, kept'⟩ := syncFile_cases full' he'
  exact alongside_bind (alongside_rename h kept kept') fun _ _ _ _ _ h =>
    alongside_syncDirectory h p.parent

/-- What can be seen at a path is read alike. -/
theorem alongside_read {p : Path} (h : Parallel D P d d') (same : d'.find p = d.find p) :
    Alongside D P ((read p).run d) ((read p).run d') := by
  refine alongside_step h ?_
  rw [find_faults d, find_faults d', same]
  cases d.find p with
  | file => exact .some ⟨rfl, h.tail⟩
  | free => exact .some ⟨rfl, h.tail⟩
  | missing => exact .some ⟨rfl, h.tail⟩
  | directory => exact .none
  | blocked => exact .none

end

end Disk

end Workflow
