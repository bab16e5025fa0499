import Workflow.Proofs.Locking
import Workflow.Proofs.StoreFiles

/-!
# A store in files answers like one in memory

A store in files reads its index anew for every command and writes the index and the snapshots to
files of their own. It answers every command like a store in memory, also when it is closed and
opened again in between, and keeps the same owners, entries and octets.
-/

namespace Workflow

/-! ### What is done with a store -/

/-- What is done with a store. -/
inductive StoreAct where
  /-- A command is sent. -/
  | command (s : Surroundings) (c : Command)
  /-- The store is opened, for the first time or again. -/
  | reopen

/-- The summary that a command brings is one that a machine can hold. -/
def Command.Fits : Command → Prop
  | save _ _ data _ _ => data.metadata.Fits
  | _ => True

/-- So are the time and the summary of what is done with a store. -/
def StoreAct.Fits : StoreAct → Prop
  | command s c => s.now.Fits ∧ c.Fits
  | reopen => True

namespace MemoryStore

/-- What a store in memory answers, and the store then. There is nothing to open. -/
def act (m : MemoryStore) : StoreAct → Except StoreError (Option CommandOutcome) × MemoryStore
  | .command s c => ((m.tryCommand s c).1.map some, (m.tryCommand s c).2)
  | .reopen => (.ok none, m)

/-- What a store in memory answers one after the other, and the store then. -/
def actAll (m : MemoryStore) :
    List StoreAct → List (Except StoreError (Option CommandOutcome)) × MemoryStore
  | [] => ([], m)
  | a :: rest => ((m.act a).1 :: (actAll (m.act a).2 rest).1, (actAll (m.act a).2 rest).2)

end MemoryStore

namespace FileStore

/-- What a store in files answers, and the store then. -/
def act (f : FileStore) : StoreAct → Except StoreError (Option CommandOutcome) × FileStore
  | .command s c => ((f.tryCommand s c).1.map some, (f.tryCommand s c).2)
  | .reopen => ((f.onDisk openAt).1.map fun _ => none, (f.onDisk openAt).2)

/-- What a store in files answers one after the other, and the store then. -/
def actAll (f : FileStore) :
    List StoreAct → List (Except StoreError (Option CommandOutcome)) × FileStore
  | [] => ([], f)
  | a :: rest => ((f.act a).1 :: (actAll (f.act a).2 rest).1, (actAll (f.act a).2 rest).2)

end FileStore

/-! ### Indexes that a machine can hold -/

theorem StoreIndex.metadata_released (owner : OwnerId) (entry : InstanceEntry) :
    (released owner entry).metadata = entry.metadata := by
  rw [released]
  split <;> rfl

namespace MemoryStore

variable {m n : MemoryStore} {s : Surroundings} {c : Command}

theorem Performed.fits (hp : m.Performed s c n) (h : m.index.Fits) (hn : s.now.Fits)
    (hc : c.Fits) : n.index.Fits := by
  have entered {workflow : WorkflowId} {entry : InstanceEntry} (he : entry.metadata.Fits) :
      (m.index.entered workflow entry).Fits := by
    refine ⟨h.owners, fun k old hk => ?_⟩
    rw [StoreIndex.entered, Table.lookup_insert] at hk
    split at hk
    · cases hk
      exact he
    · exact h.instances k old hk
  cases hp with
  | created name =>
    refine ⟨fun k r hk => ?_, h.instances⟩
    simp only [StoreIndex.createOwner, Table.lookup_insert] at hk
    split at hk
    · cases hk
      exact hn
    · exact h.owners k r hk
  | deleted ho =>
    refine ⟨fun k r hk => ?_, fun k entry hk => ?_⟩
    · rw [Table.lookup_erase] at hk
      split at hk
      · cases hk
      · exact h.owners k r hk
    · rw [Std.ExtTreeMap.getElem?_map] at hk
      obtain ⟨old, lookup, rfl⟩ := Option.map_eq_some_iff.mp hk
      rw [StoreIndex.metadata_released]
      exact h.instances k old lookup
  | saved ho ha => exact entered hc
  | loaded ho ha hw =>
    have known := h.instances _ _ hw
    exact entered known

end MemoryStore

/-! ### One command -/

namespace FileStore

variable {l : Layout} {d : Disk} {r : Address} {index : Option Bytes} {m : MemoryStore}

/-- On the index of a store in memory a command does the same as in memory, and changes the
snapshots alike. -/
theorem perform_like (h : l.Keeps d r index m.payloads) (hm : m.Sound) (s : Surroundings)
    (c : Command) :
    (∃ error, (perform l s m.index c).run d = (.error error, d) ∧
      m.perform s c = (.error error, m)) ∨
    ∃ outcome n d', (perform l s m.index c).run d = (.ok (outcome, n.index), d') ∧
      m.perform s c = (.ok outcome, n) ∧ l.Keeps d' r index n.payloads := by
  cases c with
  | createOwner name => exact .inr ⟨_, _, d, rfl, rfl, h⟩
  | deleteOwner owner =>
    rw [MemoryStore.perform]
    cases hd : m.index.deleteOwner owner with
    | error error => exact .inl ⟨error, Disk.run_bind_error (congrArg (·, d) hd) _, rfl⟩
    | ok x => exact .inr ⟨_, _, d, Disk.run_bind_ok (congrArg (·, d) hd) _, rfl, h⟩
  | save owner workflow data complete unlock =>
    rw [MemoryStore.perform]
    cases hs : m.index.save owner workflow data.metadata complete unlock with
    | error error => exact .inl ⟨error, Disk.run_bind_error (congrArg (·, d) hs) _, rfl⟩
    | ok x =>
      obtain ⟨d', written, kept⟩ := h.writeSnapshot workflow data.bytes
      refine .inr ⟨_, _, d', ?_, rfl, kept⟩
      refine (Disk.run_bind_ok (congrArg (·, d) hs) _).trans ?_
      exact Disk.run_bind_ok (storage_ok written) _
  | load owner workflow =>
    rw [MemoryStore.perform]
    cases hl : m.index.load owner workflow with
    | error error => exact .inl ⟨error, Disk.run_bind_error (congrArg (·, d) hl) _, rfl⟩
    | ok loaded =>
      obtain ⟨metadata, x⟩ := loaded
      obtain ⟨-, -, entry, hw, -, -⟩ := StoreIndex.load_eq_ok.mp hl
      obtain ⟨bytes, hb⟩ := hm.backed workflow entry hw
      have read := h.readPayload_run workflow
      rw [hb] at read
      dsimp only
      rw [hb]
      refine .inr ⟨_, _, d, ?_, rfl, h⟩
      refine (Disk.run_bind_ok (congrArg (·, d) hl) _).trans ?_
      exact Disk.run_bind_ok read _

/-- What is read from the files of a store is what a store in memory holds: the owners, the entries
and, of every workflow, the octets. -/
structure SameContents (f : FileStore) (m : MemoryStore) : Prop where
  index : (f.onDisk readIndex).1 = .ok m.index
  payload : ∀ workflow : WorkflowId, (f.onDisk fun l => readPayload l workflow).1 =
    m.payloads[workflow]?.elim (.error (.instanceNotFound workflow)) .ok

/-- The files of a store are those of what a store in memory holds. -/
structure Mirrors (f : FileStore) (m : MemoryStore) : Prop where
  kept : ∃ r index, f.layout.Keeps f.disk r index m.payloads ∧
    (index = some m.index.octets ∨ index = none ∧ m.index = {})
  fits : m.index.Fits
  sound : m.Sound
  unfailing : m.failures = []

namespace Mirrors

variable {f : FileStore}

theorem readIndex_run (h : f.Mirrors m) :
    (readIndex f.layout).run f.disk = (.ok m.index, f.disk) := by
  obtain ⟨r, index, kept, rfl | ⟨rfl, empty⟩⟩ := h.kept
  · exact kept.readIndex_some h.fits
  · rw [empty]
    exact kept.readIndex_none

/-- A command is answered alike, and what is held then is the same. -/
theorem tryCommand (h : f.Mirrors m) {s : Surroundings} {c : Command} (hn : s.now.Fits)
    (hc : c.Fits) : (f.tryCommand s c).1 = (m.tryCommand s c).1 ∧
      (f.tryCommand s c).2.Mirrors (m.tryCommand s c).2 := by
  have unfailing : m.tryCommand s c = m.perform s c := by
    rw [MemoryStore.tryCommand, h.unfailing]
  obtain ⟨r, index, kept, written⟩ := h.kept
  rcases perform_like kept h.sound s c with
    ⟨error, failed, same⟩ | ⟨outcome, n, d', performed, same, kept'⟩
  · -- A command that is refused ends before anything is written.
    have ran : (steps f.layout s c).run f.disk = (.error error, f.disk) :=
      (Disk.run_bind_ok h.readIndex_run _).trans (Disk.run_bind_error failed _)
    rw [FileStore.tryCommand, onDisk, ran, unfailing, same]
    exact ⟨rfl, h⟩
  · obtain ⟨d'', indexed, kept''⟩ := kept'.writeIndex n.index
    have ran : (steps f.layout s c).run f.disk = (.ok outcome, d'') := by
      refine (Disk.run_bind_ok h.readIndex_run _).trans ?_
      refine (Disk.run_bind_ok performed _).trans ?_
      exact Disk.run_bind_ok (storage_ok indexed) _
    have done : m.Performed s c n := by
      rcases h.sound.perform s c with ⟨error, he⟩ | ⟨_, -, done⟩
      · cases same.symm.trans he
      · rwa [same] at done
    rw [FileStore.tryCommand, onDisk, ran, unfailing, same]
    refine ⟨rfl, ⟨r, _, kept'', .inl rfl⟩, done.fits h.fits hn hc, h.sound.of_performed done, ?_⟩
    cases done <;> exact h.unfailing

theorem reopen (h : f.Mirrors m) : f.onDisk openAt = (.ok (), f) := by
  obtain ⟨r, index, kept, -⟩ := h.kept
  rw [onDisk, openAt, storage_ok kept.init_run]

theorem act (h : f.Mirrors m) {a : StoreAct} (ha : a.Fits) :
    (f.act a).1 = (m.act a).1 ∧ (f.act a).2.Mirrors (m.act a).2 := by
  cases a with
  | command s c =>
    obtain ⟨answer, mirrors⟩ := h.tryCommand ha.1 ha.2
    exact ⟨congrArg (Except.map some) answer, mirrors⟩
  | reopen =>
    rw [FileStore.act, h.reopen]
    exact ⟨rfl, h⟩

theorem actAll (h : f.Mirrors m) {acts : List StoreAct} (ha : ∀ a ∈ acts, a.Fits) :
    (f.actAll acts).1 = (m.actAll acts).1 ∧ (f.actAll acts).2.Mirrors (m.actAll acts).2 := by
  induction acts generalizing f m with
  | nil => exact ⟨rfl, h⟩
  | cons a rest ih =>
    obtain ⟨answer, mirrors⟩ := h.act (ha a List.mem_cons_self)
    obtain ⟨answers, mirrors⟩ := ih mirrors fun b hb => ha b (List.mem_cons_of_mem a hb)
    exact ⟨congrArg₂ List.cons answer answers, mirrors⟩

end Mirrors

theorem Mirrors.sameContents {f : FileStore} (h : f.Mirrors m) : f.SameContents m := by
  refine ⟨congrArg Prod.fst h.readIndex_run, fun workflow => ?_⟩
  obtain ⟨r, index, kept, -⟩ := h.kept
  exact congrArg Prod.fst (kept.readPayload_run workflow)

/-- A store that is opened on a root that holds nothing. -/
theorem act_opening (empty : l.IsEmptyOn d) (calm : d.faults = [])
    (reach : ∀ workflow, Disk.isAskable (l.snapshotFile workflow) = true) :
    ((FileStore.mk l d).act .reopen).1 = .ok none ∧
      ((FileStore.mk l d).act .reopen).2.Mirrors {} := by
  obtain ⟨d', r, opened, kept⟩ := empty.init_run calm reach
  have ran : (FileStore.mk l d).onDisk openAt = (.ok (), ⟨l, d'⟩) := by
    rw [onDisk, openAt, storage_ok opened]
  rw [FileStore.act, ran]
  exact ⟨rfl, ⟨r, none, kept, .inr ⟨rfl, rfl⟩⟩, StoreIndex.fits_empty, MemoryStore.sound_empty, rfl⟩

/-- **A store in files does what a store in memory does.** It is opened on a root that holds
nothing, no step on the disk fails, and every path can be asked for. Then it answers whatever it is
asked, by any owners and also when it is opened again in between, like a store in memory that no
failure was planted in, and in the end both hold the same owners, entries and octets. -/
theorem refines_memory (empty : l.IsEmptyOn d) (calm : d.faults = [])
    (reach : ∀ workflow, Disk.isAskable (l.snapshotFile workflow) = true) {acts : List StoreAct}
    (fits : ∀ a ∈ acts, a.Fits) :
    ((FileStore.mk l d).actAll (.reopen :: acts)).1 =
        (({} : MemoryStore).actAll (.reopen :: acts)).1 ∧
      ((FileStore.mk l d).actAll (.reopen :: acts)).2.SameContents
        (({} : MemoryStore).actAll (.reopen :: acts)).2 := by
  obtain ⟨opened, mirrors⟩ := act_opening empty calm reach
  obtain ⟨answers, mirrors⟩ := mirrors.actAll fits
  exact ⟨congrArg₂ List.cons opened answers, mirrors.sameContents⟩

/-- A minute has seconds. -/
instance neZeroSixty : NeZero 60 :=
  ⟨by decide⟩

/-- The surroundings of a command in the first minute of time, with an identifier to give out. -/
def moment (seconds : Fin 60) (fresh : Nat) : Surroundings :=
  ⟨⟨(seconds.val : Int), 0⟩, .ofNat fresh⟩

/-- The calendar holds the first minute of time. -/
theorem moment_fits (seconds : Fin 60) (fresh : Nat) : (moment seconds fresh).now.Fits := by
  have within : ∀ s : Fin 60,
      Timestamp.isWithinCalendar ((s.val : Int).fdiv 86400) = true := by decide
  exact ⟨within seconds, .inl (by decide : 0 < 1000000000)⟩

/-- A saved workflow that waits at a bookmark. -/
def pending : InstanceData :=
  ⟨[0x80, 0], ⟨"f", .idle, ["go"], 1, ⟨1709251199, 999000000⟩⟩⟩

theorem pending_fits : pending.metadata.Fits :=
  ⟨by decide, by decide, .inl (by decide)⟩

/-- Two owners share a store: one saves a workflow, and the other loads it when the store has been
opened again and the first owner was removed, and saves it for the last time. -/
def handover : List StoreAct :=
  let first : OwnerId := ⟨.ofNat 1⟩
  let second : OwnerId := ⟨.ofNat 2⟩
  let workflow : WorkflowId := ⟨.ofNat 3⟩
  [.command (moment 0 1) (.createOwner "a"), .command (moment 1 2) (.createOwner "b"),
    .command (moment 2 0) (.load first workflow),
    .command (moment 3 0) (.save first workflow pending false false), .reopen,
    .command (moment 4 0) (.load second workflow), .command (moment 5 0) (.deleteOwner first),
    .command (moment 6 0) (.load second workflow), .reopen,
    .command (moment 7 0) (.save second workflow pending true true),
    .command (moment 8 0) (.load second workflow)]

theorem refines_memory_handover :
    (Layout.mk ["store"]).IsEmptyOn {} ∧ ({} : Disk).faults = [] ∧
      (∀ workflow, Disk.isAskable ((Layout.mk ["store"]).snapshotFile workflow) = true) ∧
      (∀ a ∈ handover, a.Fits) ∧
      ((FileStore.mk ⟨["store"]⟩ {}).actAll (.reopen :: handover)).1 =
          (({} : MemoryStore).actAll (.reopen :: handover)).1 ∧
        ((FileStore.mk ⟨["store"]⟩ {}).actAll (.reopen :: handover)).2.SameContents
          (({} : MemoryStore).actAll (.reopen :: handover)).2 := by
  have empty : (Layout.mk ["store"]).IsEmptyOn {} :=
    ⟨_, ["store"], rfl, rfl, by decide +kernel, by decide +kernel⟩
  have reach : ∀ workflow, Disk.isAskable ((Layout.mk ["store"]).snapshotFile workflow) = true :=
    Layout.isAskable_snapshotFile (by decide +kernel) (by decide +kernel)
  have now := moment_fits
  have summary := pending_fits
  have fits : ∀ a ∈ handover, a.Fits := by
    simp only [handover, List.forall_mem_cons, List.not_mem_nil, false_imp_iff, implies_true,
      and_true]
    exact ⟨⟨now .., trivial⟩, ⟨now .., trivial⟩, ⟨now .., trivial⟩, ⟨now .., summary⟩, trivial,
      ⟨now .., trivial⟩, ⟨now .., trivial⟩, ⟨now .., trivial⟩, trivial, ⟨now .., summary⟩,
      ⟨now .., trivial⟩⟩
  exact ⟨empty, rfl, reach, fits, refines_memory empty rfl reach fits⟩

end FileStore

end Workflow
