import Workflow.Disk.Document
import Workflow.Proofs.Table
import Mathlib.Data.List.Basic

/-!
# Steps on a disk

Where a path leads depends on the directories alone, as long as only files come and go. A file whose
directory is there is read as it is, and it is replaced as a whole if nothing has the path of its
temporary file.
-/

namespace Workflow

/-! ### Paths -/

namespace Path

variable {p q : Path} {name : String}

/-- The path without a slash at its end. -/
def bare (p : Path) : Path :=
  if p.getLast? = some "" then p.dropLast else p

theorem bare_cases (p : Path) : p = p.bare ∨ p = p.bare ++ [""] := by
  rw [bare]
  split
  · next h => exact .inr (List.dropLast_append_getLast? "" h).symm
  · exact .inl rfl

theorem child_eq (p : Path) (name : String) : p.child name = p.bare ++ [name] := by
  rw [child, bare]
  split
  · next h => rw [if_pos h]
  · next h => rw [if_neg h]

@[simp]
theorem getLast?_child (p : Path) (name : String) : (p.child name).getLast? = some name := by
  rw [child_eq, List.getLast?_concat]

theorem start_append (hn : name ≠ "" ∨ p ≠ []) :
    (p ++ [name]).start = (p.start.1, p.start.2 ++ [name]) := by
  cases p with
  | nil =>
    have other : name ≠ "" := hn.resolve_right fun h => h rfl
    rw [List.nil_append, start.eq_def]
    split
    · next h => exact absurd (List.cons.inj h).1 other
    · rfl
  | cons first rest =>
    rw [List.cons_append, start.eq_def, start.eq_def]
    split
    · next h =>
      obtain ⟨rfl, rfl⟩ := List.cons.inj h
      rfl
    · next h =>
      split
      · next h' => exact absurd (congrArg (· ++ [name]) h') (h _)
      · rfl

theorem print_append (hp : p ≠ []) (hq : q ≠ []) : print (p ++ q) = print p ++ "/" ++ print q :=
  String.intercalate_append_of_ne_nil hp hq

end Path

namespace Disk

variable {d : Disk} {p q : Path} {l : Address} {name : String}

/-! ### Where paths lead -/

theorem isAskable_iff : isAskable p = true ↔ p.print.utf8ByteSize ≤ pathLimit ∧
    ∀ name ∈ p, Char.ofNat 0 ∉ name.toList := by
  simp [isAskable]

/-- A path can be asked for if a longer one can. -/
theorem isAskable_left (h : isAskable (p ++ q) = true) : isAskable p = true := by
  obtain ⟨short, clean⟩ := isAskable_iff.mp h
  refine isAskable_iff.mpr ⟨?_, fun name hn => clean name (List.mem_append_left q hn)⟩
  by_cases hp : p = []
  · subst hp
    exact Nat.zero_le _
  by_cases hq : q = []
  · rwa [hq, List.append_nil] at short
  · rw [Path.print_append hp hq, String.utf8ByteSize_append, String.utf8ByteSize_append] at short
    omega

/-- A path can be asked for if one can that ends with a longer text. -/
theorem isAskable_of_longer (h : isAskable (p ++ q) = true) (hq : q ≠ [])
    (hs : name.utf8ByteSize ≤ q.print.utf8ByteSize) (hc : Char.ofNat 0 ∉ name.toList) :
    isAskable (p ++ [name]) = true := by
  obtain ⟨short, clean⟩ := isAskable_iff.mp h
  refine isAskable_iff.mpr ⟨?_, fun other ho => ?_⟩
  · have single : Path.print [name] = name := String.intercalate_singleton
    by_cases hp : p = []
    · subst hp
      rw [List.nil_append] at short ⊢
      rw [single]
      omega
    · rw [Path.print_append hp hq, String.utf8ByteSize_append, String.utf8ByteSize_append] at short
      rw [Path.print_append hp (List.cons_ne_nil name []), single, String.utf8ByteSize_append,
        String.utf8ByteSize_append]
      omega
  · rcases List.mem_append.mp ho with ho | ho
    · exact clean other (List.mem_append_left q ho)
    · exact List.mem_singleton.mp ho ▸ hc

/-- What names lead to from the start of a path. -/
def resolve (d : Disk) (p : Path) : Place :=
  p.start.2.foldl d.follow (.directory p.start.1)

theorem find_eq_directory : d.find p = .directory l ↔
    (p ≠ [] ∧ p ≠ [""]) ∧ isAskable p = true ∧ d.resolve p = .directory l := by
  rw [find, resolve]
  split
  · next h => simp only [reduceCtorEq, false_iff, not_and]; tauto
  · next h =>
    split
    · next ha => simp only [ha, true_and]; tauto
    · next ha => simp [ha]

theorem find_eq_resolve (hn : p ≠ [] ∧ p ≠ [""]) (ha : isAskable p = true) :
    d.find p = d.resolve p := by
  rw [find, if_neg (not_or.mpr hn), if_pos ha]
  rfl

theorem resolve_append (hn : name ≠ "" ∨ p ≠ []) :
    d.resolve (p ++ [name]) = d.follow (d.resolve p) name := by
  rw [resolve, Path.start_append hn, List.foldl_append]
  rfl

theorem follow_eq_directory {here : Place} (h : d.follow here name = .directory l) :
    ∃ a, here = .directory a ∧ d.enter a name = .directory l := by
  cases here with
  | directory a => exact ⟨a, rfl, h⟩
  | _ => cases h

/-- A slash at the end leads nowhere else. -/
theorem resolve_bare (hp : p ≠ [""]) (h : d.resolve p = .directory l) :
    d.resolve p.bare = .directory l := by
  rcases p.bare_cases with he | he
  · rwa [← he]
  · have some_name : p.bare ≠ [] := fun hb => hp (by rw [he, hb]; rfl)
    rw [he, resolve_append (.inr some_name)] at h
    obtain ⟨a, ha, entered⟩ := follow_eq_directory h
    exact ha.trans entered

/-- In a directory that a path leads to, names are entered one by one. -/
theorem find_child (h : d.find p = .directory l) (ha : isAskable (p.child name) = true)
    (hn : name ≠ "") : d.find (p.child name) = d.enter l name := by
  obtain ⟨⟨-, slash⟩, -, led⟩ := find_eq_directory.mp h
  rw [Path.child_eq] at ha ⊢
  have named : p.bare ++ [name] ≠ [] ∧ p.bare ++ [name] ≠ [""] := by
    refine ⟨List.append_ne_nil_of_right_ne_nil _ (List.cons_ne_nil _ _), fun he => hn ?_⟩
    simpa using congrArg List.getLast? he
  rw [find_eq_resolve named ha, resolve_append (.inl hn), resolve_bare slash led]
  rfl

/-- The path around what is in a directory leads to the directory. -/
theorem find_parent (h : d.find p = .directory l) :
    d.find (p.child name).parent = .directory l := by
  obtain ⟨⟨nonempty, slash⟩, askable, led⟩ := find_eq_directory.mp h
  have around := resolve_bare slash led
  rw [Path.child_eq, Path.parent, List.dropLast_concat]
  split
  · next hb =>
    rcases p.bare_cases with he | he
    · exact absurd (he.trans hb) nonempty
    · exact absurd (by rw [he, hb]; rfl) slash
  · next hb =>
    rcases p.bare_cases with he | he
    · exact absurd (he.trans hb) slash
    · rwa [he, hb] at h
  · next other top =>
    have askable' : isAskable p.bare = true := by
      rcases p.bare_cases with he | he
      · rwa [← he]
      · exact isAskable_left (he ▸ askable)
    exact (find_eq_resolve ⟨other, top⟩ askable').trans around

/-- A name that is neither empty nor made of dots, and that something may have. -/
structure IsOrdinary (name : String) : Prop where
  nonempty : name ≠ ""
  dot : name ≠ "."
  dots : name ≠ ".."
  short : name.utf8ByteSize ≤ nameLimit

theorem enter_of_ordinary (h : IsOrdinary name) : d.enter l name = d.placeAt (l ++ [name]) := by
  unfold enter
  split
  · exact absurd rfl h.nonempty
  · exact absurd rfl h.dot
  · exact absurd rfl h.dots
  · exact if_neg (Nat.not_lt.mpr h.short)

theorem isGiven_append (h : IsOrdinary name) : Address.isGiven (l ++ [name]) = false := by
  rw [Address.isGiven, Bool.or_eq_false_iff]
  refine ⟨beq_eq_false_iff_ne.mpr fun he => h.nonempty ?_, ?_⟩
  · simpa using congrArg List.getLast? he
  · simp [h.dots]

/-- A directory that is there is still entered when others have been made. -/
theorem enter_directory {d' : Disk} {a : Address} (h : d.enter l name = .directory a)
    (grown : ∀ q, d.directories.contains q = true → d'.directories.contains q = true) :
    d'.enter l name = .directory a := by
  unfold enter at h ⊢
  split at h
  · exact h
  · exact h
  · exact h
  · split at h
    · cases h
    · next short =>
      rw [if_neg short]
      unfold placeAt at h ⊢
      split at h
      · next there =>
        rw [← h]
        exact if_pos ((Bool.or_eq_true ..).mpr
          (((Bool.or_eq_true ..).mp there).imp_right (grown _)))
      · split at h <;> cases h

/-- Where nothing was, a directory is entered when it has been made. -/
theorem enter_made {d' : Disk} {a : Address} (h : d.enter l name = .free a)
    (made : d'.directories.contains a = true) : d'.enter l name = .directory a := by
  unfold enter at h ⊢
  split at h
  · cases h
  · cases h
  · cases h
  · split at h
    · cases h
    · next short =>
      rw [if_neg short]
      unfold placeAt at h ⊢
      split at h
      · cases h
      · split at h
        · cases h
        · cases h
          exact if_pos ((Bool.or_eq_true ..).mpr (.inr made))

theorem directory_of_foldl {names : List String} {here : Place}
    (h : names.foldl d.follow here = .directory l) : ∃ a, here = .directory a := by
  induction names generalizing here with
  | nil => exact ⟨l, h⟩
  | cons name names ih =>
    obtain ⟨b, hb⟩ := ih h
    obtain ⟨a, ha, -⟩ := follow_eq_directory hb
    exact ⟨a, ha⟩

theorem leads_cons {names : List String} {a : Address} :
    (name :: names).foldl d.follow (.directory a) = .directory l ↔
      ∃ b, d.enter a name = .directory b ∧ names.foldl d.follow (.directory b) = .directory l := by
  refine ⟨fun h => ?_, fun ⟨b, entered, rest⟩ => ?_⟩
  · have led : names.foldl d.follow (d.enter a name) = .directory l := h
    obtain ⟨b, entered⟩ := directory_of_foldl led
    exact ⟨b, entered, entered ▸ h⟩
  · exact (congrArg (names.foldl d.follow) entered).trans rest

theorem leads_of_grown {d' : Disk} {names : List String} {a : Address}
    (h : names.foldl d.follow (.directory a) = .directory l)
    (grown : ∀ q, d.directories.contains q = true → d'.directories.contains q = true) :
    names.foldl d'.follow (.directory a) = .directory l := by
  induction names generalizing a with
  | nil => exact h
  | cons name names ih =>
    obtain ⟨b, entered, rest⟩ := leads_cons.mp h
    exact leads_cons.mpr ⟨b, enter_directory entered grown, ih rest⟩

/-- Where a path leads to a directory, it does so still when others have been made, and whichever
files there are. -/
theorem find_directory {d' : Disk} (h : d.find p = .directory l)
    (grown : ∀ q, d.directories.contains q = true → d'.directories.contains q = true) :
    d'.find p = .directory l := by
  obtain ⟨named, askable, led⟩ := find_eq_directory.mp h
  exact find_eq_directory.mpr ⟨named, askable, leads_of_grown led grown⟩

theorem find_directory_files (h : d.find p = .directory l)
    (files : Std.ExtTreeMap Address Bytes) :
    ({ d with files } : Disk).find p = .directory l :=
  find_directory h fun _ => id

/-- Where names lead to a directory, none has to be made. -/
theorem makeAll_of_leads {names : List String} {a : Address}
    (h : names.foldl d.follow (.directory a) = .directory l) : makeAll names a d = (true, d) := by
  induction names generalizing a with
  | nil => rfl
  | cons name names ih =>
    obtain ⟨b, entered, rest⟩ := leads_cons.mp h
    rw [makeAll, entered]
    exact ih rest

/-- Making directories leaves those that are there. -/
theorem makeAll_grows {names : List String} {a : Address} {d' : Disk}
    (h : makeAll names a d = (true, d')) :
    (∀ q, d.directories.contains q = true → d'.directories.contains q = true) ∧
      d'.faults = d.faults := by
  induction names generalizing a d with
  | nil =>
    cases h
    exact ⟨fun _ => id, rfl⟩
  | cons name names ih =>
    rw [makeAll] at h
    split at h
    · exact ih h
    · obtain ⟨grown, faults⟩ := ih h
      refine ⟨fun q hq => grown q ?_, faults⟩
      rw [Std.ExtTreeSet.contains_insert, hq, Bool.or_true]
    · cases h

/-- No directory is made for an empty name. -/
theorem makeAll_slash (names more : List String) (a : Address) (d : Disk) :
    makeAll (names ++ "" :: more) a d = makeAll (names ++ more) a d := by
  induction names generalizing a d with
  | nil => rfl
  | cons name names ih =>
    rw [List.cons_append, List.cons_append, makeAll, makeAll]
    split
    · exact ih ..
    · exact ih ..
    · rfl

/-- Names lead to a directory when they have been made, and further ones are made there. -/
theorem makeAll_append {names : List String} {a : Address} {d' : Disk}
    (h : makeAll names a d = (true, d')) :
    ∃ b, names.foldl d'.follow (.directory a) = .directory b ∧
      ∀ more, makeAll (names ++ more) a d = makeAll more b d' := by
  -- The disk before changes from name to name. What it led to is still there on the disk after.
  induction names generalizing a d with
  | nil =>
    cases h
    exact ⟨a, rfl, fun _ => rfl⟩
  | cons name names ih =>
    rw [makeAll] at h
    split at h
    · next here entered =>
      obtain ⟨b, led, further⟩ := ih h
      have there := enter_directory entered (makeAll_grows h).1
      refine ⟨b, leads_cons.mpr ⟨here, there, led⟩, fun more => ?_⟩
      rw [List.cons_append, makeAll, entered]
      exact further more
    · next here entered =>
      obtain ⟨b, led, further⟩ := ih h
      have there := enter_made entered ((makeAll_grows h).1 here (by simp))
      refine ⟨b, leads_cons.mpr ⟨here, there, led⟩, fun more => ?_⟩
      rw [List.cons_append, makeAll, entered]
      exact further more
    · cases h

/-! ### Files -/

/-- Whichever files there are, a path leads to the file of an address, if there is one. -/
def Seats (d : Disk) (p : Path) (a : Address) : Prop :=
  ∀ files : Std.ExtTreeMap Address Bytes,
    ({ d with files } : Disk).find p = files[a]?.elim (.free a) (.file a)

theorem seats_child (h : d.find p = .directory l) (ha : isAskable (p.child name) = true)
    (hn : IsOrdinary name) (hd : d.directories.contains (l ++ [name]) = false) :
    d.Seats (p.child name) (l ++ [name]) := by
  intro files
  rw [find_child (find_directory_files h files) ha hn.nonempty, enter_of_ordinary hn, placeAt,
    isGiven_append hn, hd]
  cases files[l ++ [name]]? <;> rfl

/-- What is in a directory. -/
theorem mem_namesIn : name ∈ d.namesIn l ↔
    d.directories.contains (l ++ [name]) = true ∨ d.files.contains (l ++ [name]) = true := by
  have last (q : Address) : (if q.dropLast == l then q.getLast? else none) = some name ↔
      q = l ++ [name] := by
    refine ⟨fun h => ?_, fun h => by simp [h]⟩
    split at h
    · next same => rw [← beq_iff_eq.mp same, List.dropLast_append_getLast? name h]
    · cases h
  rw [namesIn, List.mem_filterMap]
  simp only [last, List.mem_append, Std.ExtTreeSet.mem_toList, Std.ExtTreeMap.mem_keys]
  exact ⟨fun ⟨_, h, he⟩ => he ▸ h, fun h => ⟨_, h, rfl⟩⟩

theorem absent_of_namesIn (h : d.namesIn l = []) (name : String) :
    d.directories.contains (l ++ [name]) = false ∧ d.files.contains (l ++ [name]) = false := by
  have absent : name ∉ d.namesIn l := h ▸ List.not_mem_nil
  rw [mem_namesIn, not_or] at absent
  exact ⟨Bool.eq_false_iff.mpr absent.1, Bool.eq_false_iff.mpr absent.2⟩

/-! ### Steps that do not fail -/

section

variable {ε α β : Type} {m : ExceptT ε (StateM Disk) α} {d' : Disk}

/-- Steps that succeed are followed by the steps that depend on them. -/
theorem run_bind_ok {a : α} (h : m.run d = (.ok a, d')) (k : α → ExceptT ε (StateM Disk) β) :
    (m >>= k).run d = (k a).run d' := by
  rw [ExceptT.run_bind]
  simp only [bind, StateT.bind, h]

/-- Steps that fail are followed by nothing. -/
theorem run_bind_error {error : ε} (h : m.run d = (.error error, d'))
    (k : α → ExceptT ε (StateM Disk) β) : (m >>= k).run d = (.error error, d') := by
  rw [ExceptT.run_bind]
  simp only [bind, StateT.bind, h]
  rfl

end

/-- A disk has been looked at. -/
theorem get_run {ε : Type} (d : Disk) : (get : ExceptT ε (StateM Disk) Disk).run d = (.ok d, d) :=
  rfl

theorem nextFault_calm (calm : d.faults = []) : nextFault.run d = (.ok false, d) := by
  refine (run_bind_ok (get_run d) _).trans ?_
  rw [calm]
  rfl

/-- A step that does not fail and that can be done changes the disk. -/
theorem step_ok {α : Type} {a : α} {d' : Disk} {change : Disk → Option (α × Disk)}
    (calm : d.faults = []) (h : change d = some (a, d')) (message : String) :
    (step message change).run d = (.ok a, d') := by
  have sound := nextFault_calm calm
  refine (run_bind_ok sound _).trans ?_
  refine (run_bind_ok (get_run d) _).trans ?_
  rw [h]
  rfl

theorem list_run (calm : d.faults = []) (h : d.find p = .directory l) :
    (list p).run d = (.ok ((d.namesIn l).map p.child), d) := by
  refine step_ok calm ?_ _
  rw [h]

/-- What comes of making a directory, if no step fails. -/
theorem createDirectories_run_eq (calm : d.faults = []) (p : Path) :
    (createDirectories p).run d =
      if isAskable p = true ∧ (makeAll p.start.2 p.start.1 d).1 = true then
        (.ok (), (makeAll p.start.2 p.start.1 d).2)
      else (.error ("Failed to create directory: " ++ p.quote),
        if isAskable p then (makeAll p.start.2 p.start.1 d).2 else d) := by
  refine (run_bind_ok (nextFault_calm calm) _).trans ?_
  refine (run_bind_ok (get_run d) _).trans ?_
  rw [Bool.false_or]
  cases isAskable p with
  | false => rfl
  | true =>
    rw [Bool.not_true, if_neg Bool.false_ne_true, if_pos rfl]
    obtain ⟨made, d'⟩ := makeAll p.start.2 p.start.1 d
    cases made <;> rfl

theorem createDirectories_eq_ok (calm : d.faults = []) {d' : Disk} :
    (createDirectories p).run d = (.ok (), d') ↔
      isAskable p = true ∧ makeAll p.start.2 p.start.1 d = (true, d') := by
  rw [createDirectories_run_eq calm, Prod.ext_iff (x := makeAll p.start.2 p.start.1 d), ← and_assoc]
  split
  · next h => exact ⟨fun he => ⟨h, (Prod.mk.inj he).2⟩, fun he => congrArg (Prod.mk _) he.2⟩
  · next h =>
    refine ⟨fun he => ?_, fun he => absurd he.1 h⟩
    cases (Prod.mk.inj he).1

/-- Directories that are there are not made again. -/
theorem createDirectories_again (calm : d.faults = []) (h : d.find p = .directory l) :
    (createDirectories p).run d = (.ok (), d) := by
  obtain ⟨-, askable, led⟩ := find_eq_directory.mp h
  exact (createDirectories_eq_ok calm).mpr ⟨askable, makeAll_of_leads led⟩

theorem read_run (calm : d.faults = []) {a : Address} (h : d.Seats p a) :
    (read p).run d = (.ok d.files[a]?, d) := by
  refine step_ok calm ?_ _
  have led : d.find p = d.files[a]?.elim (.free a) (.file a) := h d.files
  rw [led]
  cases d.files[a]? <;> rfl

theorem put_seated {a : Address} (h : d.Seats p a) (files : Std.ExtTreeMap Address Bytes)
    (bytes : Bytes) :
    ({ d with files } : Disk).put p bytes = some { d with files := files.insert a bytes } := by
  rw [put, h files]
  cases files[a]? <;> rfl

/-- A file is replaced as a whole, and nothing is left of the temporary file. -/
theorem replace_run (calm : d.faults = []) {a b : Address} (h : d.Seats p a)
    (ht : d.Seats (p.withExtension temporaryExtension) b) (unused : d.files[b]? = none)
    (around : d.find p.parent = .directory l) (bytes : Bytes) :
    (replace p bytes).run d = (.ok (), { d with files := d.files.insert a bytes }) := by
  have still (files : Std.ExtTreeMap Address Bytes) : ({ d with files } : Disk).faults = [] := calm
  have created : (create (p.withExtension temporaryExtension)).run d =
      (.ok (), { d with files := d.files.insert b [] }) := by
    refine step_ok calm ?_ _
    rw [put_seated ht d.files]
    rfl
  have filled : (fill (p.withExtension temporaryExtension) bytes).run
      { d with files := d.files.insert b [] } =
      (.ok (), { d with files := (d.files.insert b []).insert b bytes }) := by
    refine step_ok (still _) ?_ _
    rw [ht, Std.ExtTreeMap.getElem?_insert_self, put_seated ht]
    rfl
  -- The temporary file is gone from its own address before the other address is filled.
  have removed : ((d.files.insert b []).insert b bytes).erase b = d.files := by
    refine Std.ExtTreeMap.ext_getElem? fun k => ?_
    rw [Table.lookup_erase, Table.lookup_insert, Table.lookup_insert]
    split
    · next hk => rw [← hk, unused]
    · rfl
  have renamed : (rename (p.withExtension temporaryExtension) p).run
      { d with files := (d.files.insert b []).insert b bytes } =
      (.ok (), { d with files := d.files.insert a bytes }) := by
    refine step_ok (still _) ?_ _
    rw [ht, Std.ExtTreeMap.getElem?_insert_self]
    dsimp only [Option.elim]
    rw [removed, put_seated h]
    rfl
  have synced : (syncDirectory p.parent).run { d with files := d.files.insert a bytes } =
      (.ok (), { d with files := d.files.insert a bytes }) := by
    refine step_ok (still _) ?_ _
    rw [find_directory_files around]
  refine (run_bind_ok created _).trans ?_
  refine (run_bind_ok filled _).trans ?_
  refine (run_bind_ok (step_ok (still _) rfl _) _).trans ?_
  exact (run_bind_ok renamed _).trans synced

theorem readDocument_none {α : Type} (calm : d.faults = []) {a : Address} (h : d.Seats p a)
    (hf : d.files[a]? = none) (ofJson? : Json → Option α) :
    (readDocument p ofJson?).run d = (.ok none, d) := by
  refine (run_bind_ok (read_run calm h) _).trans ?_
  rw [hf]
  rfl

theorem readDocument_some {α : Type} (calm : d.faults = []) {a : Address} (h : d.Seats p a)
    {bytes : Bytes} (hf : d.files[a]? = some bytes) {ofJson? : Json → Option α} {x : α}
    (hx : (Json.ofBytes? bytes).bind ofJson? = some x) :
    (readDocument p ofJson?).run d = (.ok (some x), d) := by
  refine (run_bind_ok (read_run calm h) _).trans ?_
  rw [hf]
  dsimp only
  rw [hx]
  rfl

end Disk

end Workflow
