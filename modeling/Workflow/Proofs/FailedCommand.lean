import Workflow.Proofs.DiskFaults
import Workflow.Proofs.FileRefinement

/-!
# Commands that fail

A command of a store in files ends with an error when the store refuses it, and when any step on the
disk fails. Most often nothing that the store keeps is another then. But a save replaces the snapshot
and the index one after the other, and both are replaced before their directory is known to be kept:
where a step fails in between, the octets of the failed save stay beside the summary of an earlier one,
and where the very last step fails, the command was carried out.
-/

namespace Workflow

open Disk (Spares Parallel Alongside Replaced draftOf unreplacedMessages unsyncedMessage)

/-! ### The files that a store keeps -/

namespace Layout

variable {l : Layout} {d d' : Disk} {p k : Path}

/-- The index and the snapshots. -/
inductive IsKept (l : Layout) : Path → Prop
  | index : IsKept l l.indexFile
  | snapshot (workflow : WorkflowId) : IsKept l (l.snapshotFile workflow)

/-- The files that may change while another one is kept: the temporary ones and those that are kept as
well. -/
inductive MayChange (l : Layout) (p : Path) : Path → Prop
  | draft {k : Path} (hk : l.IsKept k) : MayChange l p (draftOf k)
  | other {k : Path} (hk : l.IsKept k) (hn : k ≠ p) : MayChange l p k

theorem draftOf_index (l : Layout) : draftOf l.indexFile = l.root.bare ++ ["index.tmp"] := by
  rw [draftOf, indexFile, Path.withExtension_child, Path.child_eq]
  rfl

theorem draftOf_snapshot (l : Layout) (workflow : WorkflowId) :
    draftOf (l.snapshotFile workflow) = l.root.bare ++ ["instances", temporaryName workflow] := by
  rw [draftOf, snapshotFile, ← snapshotName, Path.withExtension_child, splitName_snapshotName]
  exact child_instances ..

theorem isOrdinary_top {name : String}
    (h : name = "index.json" ∨ name = "index.tmp" ∨ name = "instances") : Disk.IsOrdinary name := by
  rcases h with rfl | rfl | rfl <;> exact .of_size (by decide) (by decide)

/-- Names under the root that stand for a file of the store, or for a temporary one. -/
inductive Named : List String → Prop
  | index : Named ["index.json"]
  | indexDraft : Named ["index.tmp"]
  | snapshot (workflow : WorkflowId) : Named ["instances", snapshotName workflow]
  | snapshotDraft (workflow : WorkflowId) : Named ["instances", temporaryName workflow]

theorem Named.ordinary {names : List String} (h : Named names) :
    ∀ name ∈ names, Disk.IsOrdinary name := by
  cases h <;> simp only [List.forall_mem_cons, List.not_mem_nil, false_imp_iff, implies_true,
    and_true, isOrdinary_top, isOrdinary_snapshotName, isOrdinary_temporaryName, true_or, or_true]

theorem Named.nonempty {names : List String} (h : Named names) : names ≠ [] := by
  cases h <;> exact List.cons_ne_nil _ _

theorem IsKept.names (h : l.IsKept p) : ∃ names, Named names ∧ p = l.root.bare ++ names := by
  cases h with
  | index => exact ⟨_, .index, Path.child_eq ..⟩
  | snapshot workflow => exact ⟨_, .snapshot workflow, snapshotFile_eq ..⟩

/-- A file that may change is not on the way to the one that is kept. -/
theorem MayChange.apart (h : l.MayChange p k) (hp : l.IsKept p) :
    ∃ names other, Named names ∧ Named other ∧ p = l.root.bare ++ names ∧
      k = l.root.bare ++ other ∧ ¬ other <+: names := by
  cases h with
  | draft hk =>
    cases hp <;> cases hk
    · exact ⟨_, _, .index, .indexDraft, Path.child_eq .., draftOf_index l, by decide⟩
    · refine ⟨_, _, .index, .snapshotDraft _, Path.child_eq .., draftOf_snapshot .., ?_⟩
      simp
    · exact ⟨_, _, .snapshot _, .indexDraft, snapshotFile_eq .., draftOf_index l, by simp⟩
    · next v w =>
      refine ⟨_, _, .snapshot v, .snapshotDraft w, snapshotFile_eq .., draftOf_snapshot .., ?_⟩
      simpa using (snapshotName_ne_temporaryName v w).symm
  | other hk hn =>
    cases hp <;> cases hk
    · exact absurd rfl hn
    · exact ⟨_, _, .index, .snapshot _, Path.child_eq .., snapshotFile_eq .., by simp⟩
    · exact ⟨_, _, .snapshot _, .index, snapshotFile_eq .., Path.child_eq .., by simp⟩
    · next v w =>
      refine ⟨_, _, .snapshot v, .snapshot w, snapshotFile_eq .., snapshotFile_eq .., ?_⟩
      have unlike : snapshotName w ≠ snapshotName v := fun he => hn (snapshotName_inj he ▸ rfl)
      simpa using unlike

/-- Only files change that may change while a file is kept. -/
def Changes (l : Layout) (p : Path) (d d' : Disk) : Prop :=
  Spares d d' fun c => ∃ k, l.MayChange p k ∧ (d.find k).address? = some c

/-- What is kept is found as before. -/
theorem Changes.find (h : l.Changes p d d') (hp : l.IsKept p) : d'.find p = d.find p := by
  obtain ⟨names, named, rfl⟩ := hp.names
  refine Disk.find_append h named.ordinary fun c ⟨k, hk, hc⟩ => ?_
  obtain ⟨names', other, -, hother, he, rfl, off⟩ := hk.apart hp
  obtain ⟨r, hr, rfl⟩ := Disk.address_append hother.nonempty hother.ordinary hc
  exact ⟨r, other, hr, rfl, List.append_cancel_left he ▸ off⟩

theorem Changes.mono {P : Address → Prop} (h : Spares d d' P)
    (hP : ∀ c, P c → ∃ k, l.MayChange p k ∧ (d.find k).address? = some c) : l.Changes p d d' :=
  ⟨h.directories, fun c hc => h.files c fun hp => hc (hP c hp)⟩

theorem changes_of_draft (h : Spares d d' fun c => (d.find (draftOf k)).address? = some c)
    (hk : l.IsKept k) (p : Path) : l.Changes p d d' :=
  .mono h fun _ hc => ⟨_, .draft hk, hc⟩

theorem changes_of_placed {bytes : Bytes} (h : Disk.Placed d k (draftOf k) bytes d')
    (hk : l.IsKept k) (hn : k ≠ p) : l.Changes p d d' := by
  refine .mono h.spares fun c hc => ?_
  rcases hc with hc | hc
  · exact ⟨k, .other hk hn, hc⟩
  · exact ⟨_, .draft hk, hc⟩

theorem snapshotFile_ne_indexFile (l : Layout) (workflow : WorkflowId) :
    l.snapshotFile workflow ≠ l.indexFile := by
  rw [snapshotFile_eq, indexFile, Path.child_eq]
  simp

theorem snapshotFile_inj {v w : WorkflowId} (h : l.snapshotFile v = l.snapshotFile w) : v = w := by
  rw [snapshotFile_eq, snapshotFile_eq] at h
  exact snapshotName_inj (by simpa using h)

/-- At most temporary files are other ones. -/
def OnlyDrafts (l : Layout) (d : Disk) (c : Address) : Prop :=
  ∃ k, l.IsKept k ∧ (d.find (draftOf k)).address? = some c

theorem find_of_onlyDrafts (h : Spares d d' (l.OnlyDrafts d)) (hp : l.IsKept p) :
    d'.find p = d.find p :=
  have changes : l.Changes p d d' := .mono h fun _ ⟨k, hk, hc⟩ => ⟨draftOf k, .draft hk, hc⟩
  changes.find hp

theorem onlyDrafts_eq (hd : d'.directories = d.directories) : l.OnlyDrafts d' = l.OnlyDrafts d := by
  funext c
  simp only [OnlyDrafts, Disk.address_find hd]

/-- Two disks with the same directories and faults, on which at most temporary files of a store are other
ones. -/
def Twins (l : Layout) (d₀ : Disk) : Disk → Disk → Prop :=
  Parallel d₀.directories (l.OnlyDrafts d₀)

/-- Steps on such disks end alike and leave such disks. -/
def Agree {ρ : Type} (l : Layout) (d₀ : Disk) : ρ × Disk → ρ × Disk → Prop :=
  Alongside d₀.directories (l.OnlyDrafts d₀)

theorem Twins.find {d₀ : Disk} (h : l.Twins d₀ d d') (hp : l.IsKept p) : d'.find p = d.find p := by
  have same : l.OnlyDrafts d = l.OnlyDrafts d₀ := onlyDrafts_eq h.certain
  exact find_of_onlyDrafts (same ▸ h.toSpares) hp

end Layout

/-- The workflow whose snapshot a command writes, with the octets. -/
def Command.payload? : Command → Option (WorkflowId × Bytes)
  | .save _ workflow data _ _ => some (workflow, data.bytes)
  | _ => none

/-- The index that a command makes of an index. -/
def StoreIndex.revised (x : StoreIndex) (s : Surroundings) : Command → Except StoreError StoreIndex
  | .createOwner name => .ok (x.createOwner ⟨s.fresh⟩ name s.now)
  | .deleteOwner owner => x.deleteOwner owner
  | .save owner workflow data complete unlock => x.save owner workflow data.metadata complete unlock
  | .load owner workflow => (x.load owner workflow).map Prod.snd

namespace FileStore

variable {l : Layout} {d₀ d d' : Disk} {x y : StoreIndex} {s : Surroundings} {c : Command}

/-! ### Later commands -/

/-- The store, with the steps that will fail. -/
def facing (f : FileStore) (faults : List Bool) : FileStore :=
  { f with disk := { f.disk with faults } }

/-- The answers to commands, one after another. -/
def answers (f : FileStore) : List (Surroundings × Command) → List (Except StoreError CommandOutcome)
  | [] => []
  | (s, c) :: rest => (f.tryCommand s c).1 :: (f.tryCommand s c).2.answers rest

theorem agree_storage {α : Type} {m : DiskM α} (h : l.Agree d₀ (m.run d) (m.run d')) :
    l.Agree d₀ ((storage m).run d) ((storage m).run d') :=
  ⟨congrArg (Except.mapError StoreError.storage) h.1, h.2⟩

theorem agree_pure {α : Type} (h : l.Twins d₀ d d') (r : Except StoreError α) :
    l.Agree d₀ ((ExceptT.mk (pure r) : StoreM α).run d) ((ExceptT.mk (pure r) : StoreM α).run d') :=
  ⟨rfl, h⟩

theorem agree_readIndex (h : l.Twins d₀ d d') :
    l.Agree d₀ ((readIndex l).run d) ((readIndex l).run d') := by
  refine Disk.alongside_bind (agree_storage ?_) fun _ _ _ _ _ h => ⟨rfl, h⟩
  refine Disk.alongside_bind (Disk.alongside_read h (h.find .index)) fun found _ _ _ _ h => ?_
  cases found with
  | none => exact ⟨rfl, h⟩
  | some bytes =>
    dsimp only
    split <;> exact ⟨rfl, h⟩

theorem agree_readPayload (h : l.Twins d₀ d d') (workflow : WorkflowId) :
    l.Agree d₀ ((readPayload l workflow).run d) ((readPayload l workflow).run d') := by
  have read := Disk.alongside_read h (h.find (.snapshot workflow))
  refine Disk.alongside_bind (agree_storage read) fun found _ _ _ _ h => ?_
  cases found <;> exact ⟨rfl, h⟩

theorem agree_perform (h : l.Twins d₀ d d') :
    l.Agree d₀ ((perform l s x c).run d) ((perform l s x c).run d') := by
  cases c with
  | createOwner name => exact ⟨rfl, h⟩
  | deleteOwner owner => exact Disk.alongside_bind (agree_pure h _) fun _ _ _ _ _ h => ⟨rfl, h⟩
  | save owner workflow data complete unlock =>
    refine Disk.alongside_bind (agree_pure h _) fun _ _ _ _ _ h => ?_
    have written := Disk.alongside_replace h (l.snapshotFile workflow) data.bytes
    exact Disk.alongside_bind (agree_storage written) fun _ _ _ _ _ h => ⟨rfl, h⟩
  | load owner workflow =>
    refine Disk.alongside_bind (agree_pure h _) fun ⟨_, _⟩ _ _ _ _ h => ?_
    exact Disk.alongside_bind (agree_readPayload h workflow) fun _ _ _ _ _ h => ⟨rfl, h⟩

/-- A command does not notice which temporary files there are. -/
theorem agree_steps (h : l.Twins d₀ d d') :
    l.Agree d₀ ((steps l s c).run d) ((steps l s c).run d') := by
  refine Disk.alongside_bind (agree_readIndex h) fun _ _ _ _ _ h => ?_
  refine Disk.alongside_bind (agree_perform h) fun ⟨_, y⟩ _ _ _ _ h => ?_
  have written := Disk.alongside_replace h l.indexFile y.octets
  exact Disk.alongside_bind (agree_storage written) fun _ _ _ _ _ h => ⟨rfl, h⟩

/-- Neither do any commands, one after another. -/
theorem answers_eq (h : l.Twins d₀ d d') (commands : List (Surroundings × Command)) :
    (FileStore.mk l d').answers commands = (FileStore.mk l d).answers commands := by
  induction commands generalizing d d' with
  | nil => rfl
  | cons command rest ih =>
    obtain ⟨s, c⟩ := command
    obtain ⟨same, twins⟩ := agree_steps (s := s) (c := c) h
    exact congrArg₂ List.cons same (ih twins)

/-! ### The parts of a command, when any step may fail -/

theorem storage_cases {α : Type} {m : DiskM α} {r : Except StoreError α}
    (h : (storage m).run d = (r, d')) :
    ∃ r₀, m.run d = (r₀, d') ∧ r = r₀.mapError StoreError.storage := by
  cases hm : m.run d with
  | mk r₀ e =>
    have adapted : (storage m).run d = ((m.run d).1.mapError .storage, (m.run d).2) := rfl
    rw [adapted, hm] at h
    obtain ⟨rfl, rfl⟩ := Prod.mk.inj h
    exact ⟨r₀, rfl, rfl⟩

/-- Nothing on the disk is another but which steps will fail. -/
def Unwritten (d d' : Disk) : Prop :=
  ∃ faults, d' = { d with faults }

theorem Unwritten.onlyDrafts (h : Unwritten d d') : Spares d d' (l.OnlyDrafts d) := by
  obtain ⟨faults, rfl⟩ := h
  exact (Spares.refl d _).faults faults

/-- Reading changes nothing, and where it succeeds, it does so when no step fails. -/
theorem read_cases {p : Path} {r : Except String (Option Bytes)}
    (h : (Disk.read p).run d = (r, d')) : Unwritten d d' ∧ ∀ found, r = .ok found →
      (Disk.read p).run { d with faults := [] } = (.ok found, { d with faults := [] }) := by
  rcases Disk.step_cases h with ⟨found, looked, rfl⟩ | ⟨rfl, rfl⟩
  · rw [Disk.find_faults] at looked
    refine ⟨?_, fun _ hr => Disk.step_ok rfl ?_ _⟩
    · cases hp : d.find p <;> rw [hp] at looked <;> cases looked <;> exact ⟨_, rfl⟩
    · cases hr
      rw [Disk.find_faults]
      cases hp : d.find p <;> rw [hp] at looked <;> cases looked <;> rfl
  · exact ⟨⟨_, rfl⟩, fun _ hr => nomatch hr⟩

/-- The index in the octets of a file; an empty one if there is no file. -/
def indexIn (l : Layout) : Option Bytes → Except StoreError StoreIndex
  | none => .ok {}
  | some bytes =>
    match (Json.ofBytes? bytes).bind StoreIndex.ofJson? with
    | some x => .ok x
    | none => .error (.storage ("Failed to parse " ++ l.indexFile.quote))

theorem readIndex_of_read {found : Option Bytes}
    (h : (Disk.read l.indexFile).run d = (.ok found, d')) :
    (readIndex l).run d = (indexIn l found, d') := by
  have document : ∀ r : Except String (Option StoreIndex),
      (Disk.readDocument l.indexFile StoreIndex.ofJson?).run d = (r, d') →
      (readIndex l).run d = ((r.mapError StoreError.storage).map (·.getD {}), d') := by
    intro r hd
    have adapted : (storage (Disk.readDocument l.indexFile StoreIndex.ofJson?)).run d =
        (r.mapError StoreError.storage, d') :=
      congrArg (fun q : _ × Disk => (Except.mapError StoreError.storage q.1, q.2)) hd
    cases r with
    | error message => exact Disk.run_bind_error adapted _
    | ok found => exact Disk.run_bind_ok adapted _
  cases found with
  | none => exact document (.ok none) (Disk.run_bind_ok h _)
  | some bytes =>
    have parsed : (Disk.readDocument l.indexFile StoreIndex.ofJson?).run d = _ := Disk.run_bind_ok h _
    rw [indexIn]
    dsimp only at parsed
    cases hp : (Json.ofBytes? bytes).bind StoreIndex.ofJson? with
    | none =>
      rw [hp] at parsed
      exact document (.error _) parsed
    | some x =>
      rw [hp] at parsed
      exact document (.ok (some x)) parsed

theorem readIndex_of_unread {message : String}
    (h : (Disk.read l.indexFile).run d = (.error message, d')) :
    (readIndex l).run d = (.error (.storage message), d') := by
  have unread : (Disk.readDocument l.indexFile StoreIndex.ofJson?).run d = (.error message, d') :=
    Disk.run_bind_error h _
  have adapted : (storage (Disk.readDocument l.indexFile StoreIndex.ofJson?)).run d =
      (.error (.storage message), d') :=
    congrArg (fun q : _ × Disk => (Except.mapError StoreError.storage q.1, q.2)) unread
  exact Disk.run_bind_error adapted _

/-- What is read of an index is read also when no step fails. -/
theorem readIndex_cases {r : Except StoreError StoreIndex} (h : (readIndex l).run d = (r, d')) :
    Unwritten d d' ∧ ∀ x, r = .ok x → (readIndex l).run { d with faults := [] } =
      (.ok x, { d with faults := [] }) := by
  cases hr : (Disk.read l.indexFile).run d with
  | mk found e =>
    obtain ⟨unwritten, again⟩ := read_cases hr
    cases found with
    | error message =>
      obtain ⟨rfl, rfl⟩ := Prod.mk.inj (h.symm.trans (readIndex_of_unread hr))
      exact ⟨unwritten, fun _ hx => nomatch hx⟩
    | ok found =>
      obtain ⟨rfl, rfl⟩ := Prod.mk.inj (h.symm.trans (readIndex_of_read hr))
      refine ⟨unwritten, fun x hx => ?_⟩
      rw [readIndex_of_read (again found rfl), hx]

theorem readPayload_cases {workflow : WorkflowId} {r : Except StoreError Bytes}
    (h : (readPayload l workflow).run d = (r, d')) : Unwritten d d' := by
  rcases Disk.run_bind_cases h with ⟨found, m, read, h⟩ | ⟨error, failed, rfl⟩
  · obtain ⟨_, read, -⟩ := storage_cases read
    have unwritten := (read_cases read).1
    cases found <;> exact (Prod.mk.inj h).2 ▸ unwritten
  · obtain ⟨_, read, -⟩ := storage_cases failed
    exact (read_cases read).1

/-- What may come of carrying out a command on an index. -/
inductive Works (l : Layout) (s : Surroundings) (x : StoreIndex) (c : Command) (d : Disk) :
    Except StoreError (CommandOutcome × StoreIndex) → Disk → Prop
  /-- It fails, and at most temporary files are other ones. -/
  | failed {error : StoreError} {d' : Disk} (spares : Spares d d' (l.OnlyDrafts d)) :
      Works l s x c d (.error error) d'
  /-- It writes no snapshot. -/
  | apart {outcome : CommandOutcome} {y : StoreIndex} {d' : Disk} (hc : c.payload? = none)
      (hy : x.revised s c = .ok y) (unwritten : Unwritten d d') :
      Works l s x c d (.ok (outcome, y)) d'
  /-- It replaces a snapshot. -/
  | written {workflow : WorkflowId} {bytes : Bytes} {y : StoreIndex}
      {r : Except StoreError (CommandOutcome × StoreIndex)} {d' : Disk}
      (hc : c.payload? = some (workflow, bytes)) (hy : x.revised s c = .ok y)
      (hr : r = .ok (.saved, y) ∨ r = .error (.storage (unsyncedMessage (l.snapshotFile workflow))))
      (placed : Disk.Placed d (l.snapshotFile workflow) (draftOf (l.snapshotFile workflow)) bytes d') :
      Works l s x c d r d'

theorem pure_cases {α β : Type} {r : Except StoreError α} {k : α → StoreM β}
    {r' : Except StoreError β}
    (h : ((ExceptT.mk (pure r) : StoreM α) >>= k).run d = (r', d')) :
    (∃ a, r = .ok a ∧ (k a).run d = (r', d')) ∨
      ∃ error, r = .error error ∧ r' = .error error ∧ d' = d := by
  cases r with
  | ok a => exact .inl ⟨a, rfl, h⟩
  | error error =>
    obtain ⟨rfl, rfl⟩ := Prod.mk.inj h
    exact .inr ⟨error, rfl, rfl, rfl⟩

theorem perform_cases {r : Except StoreError (CommandOutcome × StoreIndex)}
    (h : (perform l s x c).run d = (r, d')) : Works l s x c d r d' := by
  have kept : Unwritten d d := ⟨d.faults, rfl⟩
  cases c with
  | createOwner name =>
    obtain ⟨rfl, rfl⟩ := Prod.mk.inj h
    exact .apart rfl rfl kept
  | deleteOwner owner =>
    rcases pure_cases h with ⟨y, hy, h⟩ | ⟨error, -, rfl, rfl⟩
    · obtain ⟨rfl, rfl⟩ := Prod.mk.inj h
      exact .apart rfl hy kept
    · exact .failed kept.onlyDrafts
  | save owner workflow data complete unlock =>
    rcases pure_cases h with ⟨y, hy, h⟩ | ⟨error, -, rfl, rfl⟩
    · rcases Disk.run_bind_cases h with ⟨_, m, stored, h⟩ | ⟨error, stored, rfl⟩
      · obtain ⟨rfl, rfl⟩ := Prod.mk.inj h
        obtain ⟨r₀, ran, hr₀⟩ := storage_cases stored
        cases Disk.replace_cases ran with
        | never => cases hr₀
        | done hr placed => exact .written rfl hy (.inl rfl) placed
      · obtain ⟨r₀, ran, hr₀⟩ := storage_cases stored
        cases Disk.replace_cases ran with
        | never hm spares =>
          cases hr₀
          exact .failed ⟨spares.directories, fun a ha => spares.files a fun hd =>
            ha ⟨_, .snapshot workflow, hd⟩⟩
        | done hr placed =>
          rcases hr with rfl | rfl
          · cases hr₀
          · cases hr₀
            exact .written rfl hy (.inr rfl) placed
    · exact .failed kept.onlyDrafts
  | load owner workflow =>
    rcases pure_cases h with ⟨⟨metadata, y⟩, hy, h⟩ | ⟨error, -, rfl, rfl⟩
    · rcases Disk.run_bind_cases h with ⟨_, m, found, h⟩ | ⟨error, found, rfl⟩
      · obtain ⟨rfl, rfl⟩ := Prod.mk.inj h
        exact .apart rfl (congrArg (Except.map Prod.snd) hy) (readPayload_cases found)
      · exact .failed (readPayload_cases found).onlyDrafts
    · exact .failed kept.onlyDrafts

/-! ### What a failed command leaves -/

/-- The index and all snapshots are the same. -/
structure SameFiles (f g : FileStore) : Prop where
  index : g.disk.find f.layout.indexFile = f.disk.find f.layout.indexFile
  snapshots : ∀ workflow,
    g.disk.find (f.layout.snapshotFile workflow) = f.disk.find (f.layout.snapshotFile workflow)

/-- Of a snapshot that a command has written, the octets are there, and all others are the same. -/
structure Stored (f : FileStore) (c : Command) (g : FileStore) : Prop where
  own : ∀ workflow bytes, c.payload? = some (workflow, bytes) →
    ∃ a, g.disk.find (f.layout.snapshotFile workflow) = .file a bytes
  others : ∀ workflow, (∀ bytes, c.payload? ≠ some (workflow, bytes)) →
    g.disk.find (f.layout.snapshotFile workflow) = f.disk.find (f.layout.snapshotFile workflow)

/-- What a failed command may leave. -/
inductive Failed (f : FileStore) (s : Surroundings) (c : Command) : StoreError → FileStore → Prop
  /-- Everything is the same, and whatever is asked later is answered as if nothing had been asked. -/
  | untouched {error : StoreError} {g : FileStore} (same : f.SameFiles g)
      (later : ∀ faults commands,
        (g.facing faults).answers commands = (f.facing faults).answers commands) :
      Failed f s c error g
  /-- A save has replaced the snapshot, and the index is the same. -/
  | unrecorded {workflow : WorkflowId} {bytes : Bytes} {x y : StoreIndex} {message : String}
      {g : FileStore} (hc : c.payload? = some (workflow, bytes))
      (read : ((f.facing []).onDisk readIndex).1 = .ok x) (revised : x.revised s c = .ok y)
      (index : g.disk.find f.layout.indexFile = f.disk.find f.layout.indexFile)
      (stored : f.Stored c g)
      (late : message ∈
        unsyncedMessage (f.layout.snapshotFile workflow) :: unreplacedMessages f.layout.indexFile) :
      Failed f s c (.storage message) g
  /-- The command was carried out, and only the names in the root are not known to be kept. -/
  | unconfirmed {x y : StoreIndex} {g : FileStore} (read : ((f.facing []).onDisk readIndex).1 = .ok x)
      (revised : x.revised s c = .ok y)
      (index : ∃ a, g.disk.find f.layout.indexFile = .file a y.octets) (stored : f.Stored c g) :
      Failed f s c (.storage (unsyncedMessage f.layout.indexFile)) g

theorem Failed.of_spares {f g : FileStore} {error : StoreError} (hl : g.layout = f.layout)
    (h : Spares f.disk g.disk (f.layout.OnlyDrafts f.disk)) : Failed f s c error g := by
  obtain ⟨l, d⟩ := f
  obtain ⟨_, d'⟩ := g
  cases hl
  refine .untouched ⟨Layout.find_of_onlyDrafts h .index, fun workflow =>
    Layout.find_of_onlyDrafts h (.snapshot workflow)⟩ fun faults commands => ?_
  have twins : l.Twins d { d with faults } { d' with faults } := ⟨⟨h.directories, h.files⟩, rfl, rfl⟩
  exact answers_eq twins commands

theorem stored_of_none (hc : c.payload? = none)
    (same : ∀ v, d'.find (l.snapshotFile v) = d.find (l.snapshotFile v)) :
    Stored ⟨l, d⟩ c ⟨l, d'⟩ := by
  refine ⟨fun workflow bytes hp => ?_, fun workflow _ => same workflow⟩
  cases hc.symm.trans hp

theorem stored_of_placed {workflow : WorkflowId} {bytes : Bytes} {m : Disk}
    (hc : c.payload? = some (workflow, bytes))
    (placed : Disk.Placed d (l.snapshotFile workflow) (draftOf (l.snapshotFile workflow)) bytes m)
    (same : ∀ v, d'.find (l.snapshotFile v) = m.find (l.snapshotFile v)) :
    Stored ⟨l, d⟩ c ⟨l, d'⟩ := by
  refine ⟨fun v octets hp => ?_, fun v unlike => ?_⟩
  · cases hc.symm.trans hp
    obtain ⟨a, found⟩ := placed.find
    exact ⟨a, (same _).trans found⟩
  · have other : l.snapshotFile workflow ≠ l.snapshotFile v := fun he =>
      unlike bytes (Layout.snapshotFile_inj he ▸ hc)
    have changes := Layout.changes_of_placed placed (.snapshot workflow) other
    exact (same v).trans (changes.find (.snapshot v))

/-- What the last steps leave, which replace the index, if one of them fails. -/
theorem Failed.of_index {outcome : CommandOutcome} {m : Disk} {faults : List Bool} {message : String}
    (read : (((FileStore.mk l d).facing []).onDisk readIndex).1 = .ok x)
    (works : Works l s x c { d with faults } (.ok (outcome, y)) m)
    (put : Replaced l.indexFile y.octets m (.error message) d') :
    Failed ⟨l, d⟩ s c (.storage message) ⟨l, d'⟩ := by
  have apart : ∀ v, l.indexFile ≠ l.snapshotFile v := fun v => (l.snapshotFile_ne_indexFile v).symm
  cases works with
  | apart hc hy unwritten =>
    obtain ⟨_, rfl⟩ := unwritten
    cases put with
    | never hm spares =>
      refine .of_spares rfl ⟨spares.directories, fun a ha => spares.files a fun hd => ?_⟩
      exact ha ⟨_, .index, hd⟩
    | done hr placed =>
      cases hr.resolve_left fun ho => nomatch ho
      refine .unconfirmed read hy placed.find (stored_of_none hc fun v => ?_)
      exact (Layout.changes_of_placed placed .index (apart v)).find (.snapshot v)
  | written hc hy hr stored =>
    cases hr.resolve_right fun ho => nomatch ho
    have changes := Layout.changes_of_placed stored (.snapshot _) (apart _).symm
    cases put with
    | never hm spares =>
      have same : ∀ p, l.IsKept p → d'.find p = m.find p := fun p hp =>
        (Layout.changes_of_draft spares .index p).find hp
      refine .unrecorded hc read hy ?_ (stored_of_placed hc stored.of_faults fun v => ?_)
        (List.mem_cons_of_mem _ hm)
      · exact (same _ .index).trans (changes.find .index)
      · exact same _ (.snapshot v)
    | done hr placed =>
      cases hr.resolve_left fun ho => nomatch ho
      refine .unconfirmed read hy placed.find (stored_of_placed hc stored.of_faults fun v => ?_)
      exact (Layout.changes_of_placed placed .index (apart v)).find (.snapshot v)

theorem tryCommand_of_run {r : Except StoreError CommandOutcome}
    (h : (steps l s c).run d = (r, d')) : (FileStore.mk l d).tryCommand s c = (r, ⟨l, d'⟩) := by
  rw [tryCommand, onDisk, h]

/-- **What a failed command leaves.** Whatever steps fail on whatever disk: a command that ends with an
error has changed nothing that is kept or that any later command notices, or it is a save of which the
snapshot was replaced and the index not, or it was carried out and only the names in the root are not
known to be kept. -/
theorem failed_command {f : FileStore} {error : StoreError}
    (h : (f.tryCommand s c).1 = .error error) : Failed f s c error (f.tryCommand s c).2 := by
  obtain ⟨l, d⟩ := f
  cases hrun : (steps l s c).run d with
  | mk r d' =>
    rw [tryCommand_of_run hrun] at h ⊢
    obtain rfl : r = .error error := h
    rcases Disk.run_bind_cases hrun with ⟨x, m, hread, rest⟩ | ⟨_, unread, -⟩
    · obtain ⟨⟨faults, rfl⟩, calm⟩ := readIndex_cases hread
      have read : (((FileStore.mk l d).facing []).onDisk readIndex).1 = .ok x :=
        congrArg Prod.fst (calm x rfl)
      rcases Disk.run_bind_cases rest with ⟨⟨outcome, y⟩, m, performed, rest⟩ | ⟨_, performed, he⟩
      · -- The command was carried out, so that the index could not be replaced.
        rcases Disk.run_bind_cases rest with ⟨_, _, -, ended⟩ | ⟨_, wrote, he⟩
        · cases (Prod.mk.inj ended).1
        · obtain ⟨r₀, put, hr₀⟩ := storage_cases wrote
          cases he
          cases r₀ with
          | ok => cases hr₀
          | error message =>
            cases hr₀
            exact .of_index read (perform_cases performed) (Disk.replace_cases put)
      · cases he
        cases perform_cases performed with
        | failed spares => exact .of_spares rfl ⟨spares.directories, spares.files⟩
        | written hc hy hr placed =>
          cases hr.resolve_left fun ho => nomatch ho
          have changes := Layout.changes_of_placed placed (.snapshot _) (l.snapshotFile_ne_indexFile _)
          exact .unrecorded hc read hy (changes.find .index)
            (stored_of_placed hc placed.of_faults fun _ => rfl) List.mem_cons_self
    · exact .of_spares rfl (readIndex_cases unread).1.onlyDrafts

/-! ### A save between its two files -/

/-- An owner, and a workflow that nobody has locked. -/
def listed : StoreIndex where
  owners := .insert ∅ ⟨.ofNat 1⟩ ⟨"a", (moment 0 0).now⟩
  instances := .insert ∅ ⟨.ofNat 3⟩ ⟨none, false, pending.metadata⟩

/-- The directory of the snapshots. -/
def shelf : Address := ["store", "instances"]

/-- The disk of a store with an index and a snapshot. A directory is in the way of the temporary file of
the index. -/
def obstructed : Disk where
  files := .insert (.insert ∅ ["store", "index.json"] listed.octets)
    (shelf ++ [Layout.snapshotName ⟨.ofNat 3⟩]) pending.bytes
  directories := .insert (.insert (.insert ∅ ["store"]) shelf) ["store", "index.tmp"]

/-- The same disk when the snapshot has been replaced. -/
def overwritten : Disk :=
  { obstructed with
    files := obstructed.files.insert (shelf ++ [Layout.snapshotName ⟨.ofNat 3⟩]) [0x81, 0] }

/-- The workflow is saved again. -/
def resaved : Command :=
  .save ⟨.ofNat 1⟩ ⟨.ofNat 3⟩ ⟨[0x81, 0], pending.metadata⟩ false true

theorem fits_listed : listed.Fits := by
  refine ⟨fun _ _ h => ?_, fun _ _ h => ?_⟩
  · rw [listed, Table.lookup_insert] at h
    split at h
    · cases h
      exact moment_fits 0 0
    · simp at h
  · rw [listed, Table.lookup_insert] at h
    split at h
    · cases h
      exact pending_fits
    · simp at h

theorem isAskable_obstructed (workflow : WorkflowId) :
    Disk.isAskable ((Layout.mk ["store"]).snapshotFile workflow) = true :=
  Layout.isAskable_snapshotFile (by decide +kernel) (by decide +kernel) workflow

theorem seats_shelf {name : String} (hn : Disk.IsOrdinary name)
    (ha : Disk.isAskable ((Layout.mk ["store"]).instancesDirectory.child name) = true) :
    obstructed.Seats ((Layout.mk ["store"]).instancesDirectory.child name) (shelf ++ [name]) := by
  refine Disk.seats_child rfl ha hn (Bool.eq_false_iff.mpr fun hd => ?_)
  simp [obstructed, shelf] at hd

theorem readIndex_obstructed :
    (readIndex ⟨["store"]⟩).run obstructed = (.ok listed, obstructed) := by
  have seats : obstructed.Seats (Layout.mk ["store"]).indexFile (["store"] ++ ["index.json"]) :=
    Disk.seats_child rfl (by decide +kernel) (.of_size (by decide) (by decide)) (by decide +kernel)
  have held : obstructed.files[(["store"] ++ ["index.json"] : Address)]? = some listed.octets := by
    rw [obstructed, Table.lookup_insert, Table.lookup_insert]
    simp [shelf]
  have read := Disk.readDocument_some rfl seats held (StoreIndex.ofBytes?_octets fits_listed)
  exact Disk.run_bind_ok (storage_ok read) _

theorem writeSnapshot_obstructed : ((Layout.mk ["store"]).writeSnapshot ⟨.ofNat 3⟩ [0x81, 0]).run
    obstructed = (.ok (), overwritten) := by
  have seats := seats_shelf (Layout.isOrdinary_snapshotName ⟨.ofNat 3⟩) (isAskable_obstructed _)
  have askable : Disk.isAskable
      ((Layout.mk ["store"]).instancesDirectory.child (Layout.temporaryName ⟨.ofNat 3⟩)) = true := by
    decide +kernel
  have draft := seats_shelf (Layout.isOrdinary_temporaryName ⟨.ofNat 3⟩) askable
  rw [Layout.child_instances, ← Layout.draftOf_snapshot] at draft
  have unused : obstructed.files[shelf ++ [Layout.temporaryName ⟨.ofNat 3⟩]]? = none := by
    have other := Layout.snapshotName_ne_temporaryName ⟨.ofNat 3⟩ ⟨.ofNat 3⟩
    rw [obstructed, Table.lookup_insert, Table.lookup_insert]
    simp [shelf, other]
  have inner : obstructed.find (Layout.mk ["store"]).instancesDirectory = .directory shelf := rfl
  exact Disk.replace_run rfl seats draft unused (Disk.find_parent inner) [0x81, 0]

/-- What the save makes of the index. -/
def relisted : StoreIndex :=
  { listed with
    instances := listed.instances.insert ⟨.ofNat 3⟩ ⟨none, false, pending.metadata⟩ }

theorem perform_obstructed : (perform ⟨["store"]⟩ (moment 3 0) listed resaved).run obstructed =
    (.ok (.saved, relisted), overwritten) := by
  have saved : listed.save ⟨.ofNat 1⟩ ⟨.ofNat 3⟩ pending.metadata false true = .ok relisted := rfl
  refine (Disk.run_bind_ok (congrArg (·, obstructed) saved) _).trans ?_
  exact Disk.run_bind_ok (storage_ok writeSnapshot_obstructed) _

/-- The snapshot is replaced, and the index cannot be. -/
theorem tryCommand_obstructed :
    (FileStore.mk ⟨["store"]⟩ obstructed).tryCommand (moment 3 0) resaved =
      (.error (.storage (Disk.createMessage ["store", "index.tmp"])), ⟨⟨["store"]⟩, overwritten⟩) := by
  have failed : (storage (Disk.writeDocument (Layout.mk ["store"]).indexFile relisted.toJson)).run
      overwritten =
      (.error (.storage (Disk.createMessage ["store", "index.tmp"])), overwritten) := rfl
  refine tryCommand_of_run ((Disk.run_bind_ok readIndex_obstructed _).trans ?_)
  exact (Disk.run_bind_ok perform_obstructed _).trans (Disk.run_bind_error failed _)

theorem failed_command_obstructed :
    ((FileStore.mk ⟨["store"]⟩ obstructed).tryCommand (moment 3 0) resaved).1 =
        .error (.storage (Disk.createMessage ["store", "index.tmp"])) ∧
      Failed ⟨⟨["store"]⟩, obstructed⟩ (moment 3 0) resaved
        (.storage (Disk.createMessage ["store", "index.tmp"]))
        ((FileStore.mk ⟨["store"]⟩ obstructed).tryCommand (moment 3 0) resaved).2 :=
  have refused := congrArg Prod.fst tryCommand_obstructed
  ⟨refused, failed_command refused⟩

/-- **A failed save may leave its octets.** Then they are beside the summary of an earlier save. -/
theorem not_failed_command_sameFiles :
    ¬ ∀ (f : FileStore) (s : Surroundings) (c : Command) (error : StoreError),
      (f.tryCommand s c).1 = .error error → f.SameFiles (f.tryCommand s c).2 := by
  intro h
  have same := (h ⟨⟨["store"]⟩, obstructed⟩ (moment 3 0) resaved _
    (congrArg Prod.fst tryCommand_obstructed)).snapshots ⟨.ofNat 3⟩
  rw [tryCommand_obstructed] at same
  have seats := seats_shelf (Layout.isOrdinary_snapshotName ⟨.ofNat 3⟩) (isAskable_obstructed _)
  have before := seats obstructed.files
  have after := seats overwritten.files
  rw [overwritten, Std.ExtTreeMap.getElem?_insert_self] at after
  rw [obstructed, Std.ExtTreeMap.getElem?_insert_self] at before
  have places := before.symm.trans (same.symm.trans after)
  cases (Place.file.inj places).2

end FileStore

end Workflow
