import Workflow.Proofs.FileRefinement
import Workflow.Proofs.Hosting

/-!
# Stores in use

A store in memory or in files is used by any owners: they send commands and save executors, failures
are planted, and the files are closed and opened again. What can be read of the store at any time is
what a store in memory holds, and decides what a load answers.
-/

namespace Workflow

/-! ### What can be read of a store -/

namespace Store

/-- The index of a store. -/
def index : Store → StoreIndex
  | memory m => m.index
  | files f => (f.onDisk FileStore.readIndex).1.toOption.getD {}
  | heedless => {}

/-- The octets that a store holds of a workflow. -/
def payload? (workflow : WorkflowId) : Store → Option Bytes
  | memory m => m.payloads[workflow]?
  | files f => (f.onDisk fun l => FileStore.readPayload l workflow).1.toOption
  | heedless => none

/-- The failures that were planted in a store for commands to come. -/
def planted : Store → List StoreError
  | memory m => m.failures
  | _ => []

/-- The entry of a workflow with its octets. -/
def stored? (store : Store) (workflow : WorkflowId) : Option InstanceData := do
  let entry ← store.index.instances[workflow]?
  let bytes ← store.payload? workflow
  return ⟨bytes, entry.metadata⟩

/-- A load of a workflow by an owner is not refused: no failure is planted for it, the owner is
registered, and the workflow is not complete and not locked by another owner. -/
structure Admits (store : Store) (owner : OwnerId) (workflow : WorkflowId) : Prop where
  unfailing : store.planted = []
  registered : store.index.owners.contains owner = true
  free : store.index.checkAccess owner workflow = .ok ()

end Store

/-! ### What is done with a store -/

/-- What is done with a store. -/
inductive StoreUse where
  /-- An owner sends a command. -/
  | command (s : Surroundings) (c : Command)
  /-- An executor is saved for an owner. -/
  | persist (e : Executor) (s : Surroundings) (owner : OwnerId) (unlock : Bool)
  /-- A failure is planted for a command to come, where the store is in memory. -/
  | plant (error : StoreError)
  /-- The store is opened again, where it is in files. -/
  | reopen

/-- What a command brings of a workflow to be kept. -/
def Command.data? (workflow : WorkflowId) : Command → Option InstanceData
  | save _ saved data _ _ => if saved = workflow then some data else none
  | _ => none

namespace StoreUse

/-- The command that reaches the store, with its surroundings. -/
def command? : StoreUse → Option (Surroundings × Command)
  | command s c => some (s, c)
  | persist e s owner unlock =>
    (e.capture s.now).toOption.map fun image => (s, e.saveCommand owner s.now image unlock)
  | plant _ => none
  | reopen => none

/-- What is brought of a workflow to be kept. -/
def data? (u : StoreUse) (workflow : WorkflowId) : Option InstanceData :=
  u.command?.bind fun sent => sent.2.data? workflow

/-- A machine can hold the time, the summary and the snapshot of what is done. -/
def Fits : StoreUse → Prop
  | command s c => s.now.Fits ∧ c.Fits
  | persist e s _ _ => s.now.Fits ∧ ∀ image, e.capture s.now = .ok image →
      image.Fits ∧ image.encode.length < wordBound
  | _ => True

end StoreUse

namespace Store

/-- A store after it was used. -/
def after (store : Store) : StoreUse → Store
  | .command s c => (store.tryCommand s c).2
  | .persist e s owner unlock => (e.save store s owner unlock).2.2
  | .plant error =>
    match store with
    | memory m => memory (m.plant error)
    | store => store
  | .reopen =>
    match store with
    | files f => files (f.onDisk FileStore.openAt).2
    | store => store

/-- A store after it was used several times. -/
def afterAll (store : Store) : List StoreUse → Store
  | [] => store
  | u :: rest => (store.after u).afterAll rest

/-- A store that was just made: one in memory, or one in files that is opened on a root that holds
nothing, where no step on the disk fails and every path can be asked for. -/
inductive Opened : Store → Prop
  /-- The store is in memory. -/
  | memory : Opened (.memory {})
  /-- The store is in files. -/
  | files {l : Layout} {d : Disk} (empty : l.IsEmptyOn d) (calm : d.faults = [])
      (reach : ∀ workflow, Disk.isAskable (l.snapshotFile workflow) = true) :
      Opened (.files ((FileStore.mk l d).onDisk FileStore.openAt).2)

/-- A store that was made and then used. -/
def Provided (store : Store) : Prop :=
  ∃ (start : Store) (uses : List StoreUse), start.Opened ∧ (∀ u ∈ uses, u.Fits) ∧
    start.afterAll uses = store

end Store

/-! ### A store in memory that holds the same -/

namespace Store

/-- A store holds what a sound store in memory holds. -/
def Models : Store → MemoryStore → Prop
  | memory m, n => m = n ∧ n.Sound
  | files f, n => f.Mirrors n
  | heedless, _ => False

variable {store : Store} {m n : MemoryStore} {s : Surroundings} {c : Command} {owner : OwnerId}
  {workflow : WorkflowId}

namespace Models

theorem sound (h : store.Models m) : m.Sound :=
  match store, h with
  | memory _, h => h.2
  | files _, h => FileStore.Mirrors.sound h

theorem index_eq (h : store.Models m) : store.index = m.index := by
  match store, h with
  | memory _, h => exact congrArg MemoryStore.index h.1
  | files f, h =>
    rw [index, (FileStore.Mirrors.sameContents h).index]
    rfl

theorem payload?_eq (h : store.Models m) : store.payload? workflow = m.payloads[workflow]? := by
  match store, h with
  | memory _, h => exact congrArg (·.payloads[workflow]?) h.1
  | files f, h =>
    rw [payload?, (FileStore.Mirrors.sameContents h).payload]
    cases m.payloads[workflow]? <;> rfl

theorem planted_eq (h : store.Models m) : store.planted = m.failures := by
  match store, h with
  | memory _, h => exact congrArg MemoryStore.failures h.1
  | files f, h => exact (FileStore.Mirrors.unfailing h).symm

/-- A command is answered alike, and what is held then is the same. -/
theorem tryCommand (h : store.Models m) (hn : s.now.Fits) (hc : c.Fits) :
    (store.tryCommand s c).1 = (m.tryCommand s c).1 ∧
      (store.tryCommand s c).2.Models (m.tryCommand s c).2 := by
  match store, h with
  | memory m', ⟨same, sound⟩ =>
    subst same
    refine ⟨rfl, rfl, ?_⟩
    rcases sound.tryCommand s c with ⟨error, failed⟩ | ⟨_, -, performed⟩
    · rw [failed]
      exact sound.of_same rfl rfl
    · exact sound.of_performed performed
  | files f, h => exact FileStore.Mirrors.tryCommand h hn hc

/-- A load does not ask for the time. -/
theorem load (h : store.Models m) (s : Surroundings) (owner : OwnerId) (workflow : WorkflowId) :
    (store.tryCommand s (.load owner workflow)).1 = (m.tryCommand s (.load owner workflow)).1 ∧
      (store.tryCommand s (.load owner workflow)).2.Models
        (m.tryCommand s (.load owner workflow)).2 := by
  have timeless : store.tryCommand s (.load owner workflow) =
      store.tryCommand (FileStore.moment 0 0) (.load owner workflow) := by
    cases store <;> rfl
  rw [timeless]
  exact h.tryCommand (FileStore.moment_fits 0 0) trivial

end Models

/-! ### Uses -/

/-- The command of a use was carried out. -/
def accepts (store : Store) (u : StoreUse) : Bool :=
  u.command?.any fun sent => (store.tryCommand sent.1 sent.2).1.isOk

/-- A machine can hold what reaches a store. -/
theorem fits_of_sent {u : StoreUse} (h : u.Fits) (hs : u.command? = some (s, c)) :
    s.now.Fits ∧ c.Fits := by
  cases u with
  | command s' c' =>
    cases hs
    exact h
  | persist e s' owner unlock =>
    obtain ⟨image, captured, sent⟩ := Option.map_eq_some_iff.mp hs
    cases sent
    cases hc : e.capture s.now with
    | error _ =>
      rw [hc] at captured
      cases captured
    | ok taken =>
      rw [hc] at captured
      cases captured
      obtain ⟨-, l, -, -, taken⟩ := Executor.of_capture hc
      have counted := (h.2 image hc).1.instanceCount
      refine ⟨h.1, ?_, h.1⟩
      subst taken
      rw [← List.length_map (f := (·.record e.definition))] at counted
      exact counted
  | plant _ => cases hs
  | reopen => cases hs

theorem after_sent {u : StoreUse} (store : Store) (hs : u.command? = some (s, c)) :
    store.after u = (store.tryCommand s c).2 := by
  cases u with
  | command s' c' =>
    cases hs
    rfl
  | persist e s' owner unlock =>
    obtain ⟨image, captured, sent⟩ := Option.map_eq_some_iff.mp hs
    cases sent
    cases hc : e.capture s.now with
    | error _ =>
      rw [hc] at captured
      cases captured
    | ok taken =>
      rw [hc] at captured
      cases captured
      exact (Executor.save_of_capture hc store owner unlock).2
  | plant _ => cases hs
  | reopen => cases hs

/-- Where no command reaches a store, it holds what it held. -/
theorem Models.after_unsent {u : StoreUse} (h : store.Models m) (hs : u.command? = none) :
    ∃ n, (store.after u).Models n ∧ n.index = m.index ∧ n.payloads = m.payloads := by
  cases u with
  | command s c => cases hs
  | persist e s owner unlock =>
    have refused : store.after (.persist e s owner unlock) = store := by
      cases hc : e.capture s.now with
      | error _ => rw [Store.after, Executor.save, hc]
      | ok _ =>
        rw [StoreUse.command?, hc] at hs
        cases hs
    rw [refused]
    exact ⟨m, h, rfl, rfl⟩
  | plant error =>
    cases store with
    | memory m' =>
      obtain ⟨same, sound⟩ := h
      exact ⟨m.plant error, ⟨congrArg (·.plant error) same, sound.of_same rfl rfl⟩, rfl, rfl⟩
    | files f => exact ⟨m, h, rfl, rfl⟩
    | heedless => cases h
  | reopen =>
    cases store with
    | memory m' => exact ⟨m, h, rfl, rfl⟩
    | files f =>
      rw [Store.after, FileStore.Mirrors.reopen h]
      exact ⟨m, h, rfl, rfl⟩
    | heedless => cases h

/-- A use leaves what a store holds as it was, or its command was carried out. -/
theorem Models.after {u : StoreUse} (h : store.Models m) (fits : u.Fits) :
    ∃ n, (store.after u).Models n ∧
      (store.accepts u = false ∧ n.index = m.index ∧ n.payloads = m.payloads ∨
        ∃ s c, u.command? = some (s, c) ∧ store.accepts u = true ∧ m.Performed s c n) := by
  cases hs : u.command? with
  | none =>
    obtain ⟨n, models, same⟩ := h.after_unsent hs
    exact ⟨n, models, .inl ⟨by rw [accepts, hs]; rfl, same⟩⟩
  | some sent =>
    obtain ⟨s, c⟩ := sent
    obtain ⟨now, command⟩ := fits_of_sent fits hs
    obtain ⟨answer, models⟩ := h.tryCommand now command
    have accepted : store.accepts u = (m.tryCommand s c).1.isOk := by
      rw [accepts, hs, Option.any_some, answer]
    rw [after_sent store hs]
    refine ⟨_, models, ?_⟩
    rcases h.sound.tryCommand s c with ⟨error, failed⟩ | ⟨outcome, succeeded, performed⟩
    · refine .inl ⟨?_, ?_⟩
      · rw [accepted, failed]
        rfl
      · rw [failed]
        exact ⟨rfl, rfl⟩
    · refine .inr ⟨s, c, rfl, ?_, performed⟩
      rw [accepted, succeeded]
      rfl

theorem Models.afterAll {uses : List StoreUse} (h : store.Models m) (fits : ∀ u ∈ uses, u.Fits) :
    ∃ n, (store.afterAll uses).Models n := by
  induction uses generalizing store m with
  | nil => exact ⟨m, h⟩
  | cons u rest ih =>
    obtain ⟨n, models, -⟩ := h.after (fits u List.mem_cons_self)
    exact ih models fun v hv => fits v (List.mem_cons_of_mem u hv)

/-- A store that was just made holds nothing. -/
theorem Opened.models (h : store.Opened) : store.Models {} := by
  cases h with
  | memory => exact ⟨rfl, MemoryStore.sound_empty⟩
  | files empty calm reach => exact (FileStore.act_opening empty calm reach).2

/-- What was done with a store keeps its tables in order. -/
theorem Provided.models (h : store.Provided) : ∃ m, store.Models m := by
  obtain ⟨start, uses, opened, fits, rfl⟩ := h
  exact opened.models.afterAll fits

/-! ### Loads -/

theorem Models.stored?_eq (h : store.Models m) :
    store.stored? workflow = (memory m).stored? workflow := by
  rw [stored?, stored?, h.index_eq, h.payload?_eq]
  rfl

/-- A command that was carried out has stored what it brought, and left what else was stored. -/
theorem stored?_performed (hp : m.Performed s c n) : (memory n).stored? workflow =
    (c.data? workflow).or ((memory m).stored? workflow) := by
  cases hp with
  | created name => rfl
  | @deleted owner ho =>
    simp only [stored?, index, payload?, Std.ExtTreeMap.getElem?_map, Command.data?,
      Option.none_or]
    cases m.index.instances[workflow]? with
    | none => rfl
    | some entry =>
      simp only [Option.map_some, Option.bind_eq_bind, Option.bind_some,
        StoreIndex.metadata_released]
  | @saved owner saved data complete unlock ho ha =>
    simp only [stored?, index, payload?, MemoryStore.lookup_entered, Table.lookup_insert,
      Command.data?]
    by_cases same : saved = workflow
    · simp [same]
    · simp [same]
  | @loaded owner loaded entry ho ha hw =>
    simp only [stored?, index, payload?, MemoryStore.lookup_entered, Command.data?,
      Option.none_or]
    by_cases same : loaded = workflow
    · subst same
      simp [hw]
    · simp [same]

/-- A load that is not refused gives what is stored. -/
theorem Models.load_eq_ok (h : store.Models m) {outcome : CommandOutcome} :
    (store.tryCommand s (.load owner workflow)).1 = .ok outcome ↔
      store.Admits owner workflow ∧
        ∃ data, store.stored? workflow = some data ∧ outcome = .loaded data := by
  rw [(h.load s owner workflow).1, h.stored?_eq]
  have admits : store.Admits owner workflow ↔ m.failures = [] ∧
      m.index.owners.contains owner = true ∧ m.index.checkAccess owner workflow = .ok () := by
    constructor
    · rintro ⟨unfailing, registered, free⟩
      rw [h.index_eq] at registered free
      exact ⟨h.planted_eq.symm.trans unfailing, registered, free⟩
    · rintro ⟨unfailing, registered, free⟩
      refine ⟨h.planted_eq.trans unfailing, ?_, ?_⟩ <;> rwa [h.index_eq]
  rw [admits, MemoryStore.tryCommand]
  cases hf : m.failures with
  | cons error rest => simp
  | nil =>
    simp only [true_and, MemoryStore.perform]
    cases hl : m.index.load owner workflow with
    | error error =>
      refine iff_of_false (fun he => by cases he) ?_
      rintro ⟨⟨registered, free⟩, data, held, -⟩
      obtain ⟨entry, found, -⟩ := Option.bind_eq_some_iff.mp held
      have loads := StoreIndex.load_eq_ok.mpr ⟨registered, free, entry, found, rfl, rfl⟩
      cases hl.symm.trans loads
    | ok loaded =>
      obtain ⟨metadata, x⟩ := loaded
      obtain ⟨registered, free, entry, found, rfl, rfl⟩ := StoreIndex.load_eq_ok.mp hl
      obtain ⟨bytes, kept⟩ := h.sound.backed workflow entry found
      have held : (memory m).stored? workflow = some ⟨bytes, entry.metadata⟩ := by
        rw [stored?, index, payload?, found, kept]
        rfl
      simp only [kept, held, registered, free, true_and, Option.some.injEq, Except.ok.injEq]
      constructor
      · rintro rfl
        exact ⟨_, rfl, rfl⟩
      · rintro ⟨_, rfl, rfl⟩
        rfl

end Store

end Workflow
