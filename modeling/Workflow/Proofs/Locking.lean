import Workflow.Proofs.Table
import Workflow.Store.Memory

/-!
# Locks of a store in memory

Owners send commands to a store in memory, in any order, and some of them are made to fail. A workflow
that an owner has locked is closed to all others until the owner releases it or is removed, and a
workflow that was saved for the last time stays as it is. A command that fails changes nothing.
-/

namespace Workflow

namespace StoreIndex

variable {x y : StoreIndex} {owner : OwnerId} {workflow : WorkflowId}

/-! ### When the index is changed -/

/-- Access is free to a workflow that is not complete and that no other owner has locked. -/
theorem checkAccess_eq_ok : x.checkAccess owner workflow = .ok () ↔
    ∀ entry, x.instances[workflow]? = some entry →
      entry.complete = false ∧ ∀ holder, entry.lockedBy = some holder → holder = owner := by
  unfold checkAccess
  cases hw : x.instances[workflow]? with
  | none => simp
  | some entry =>
    cases hc : entry.complete <;> cases hl : entry.lockedBy with
    | none => simp [hc, hl]
    | some holder => by_cases ho : holder = owner <;> simp [hc, hl, ho]

theorem ensureOwner_of_registered (ho : x.owners.contains owner = true) :
    x.ensureOwner owner = .ok () := by
  rw [ensureOwner, if_pos ho]

theorem ensureOwner_of_not_registered (ho : ¬ x.owners.contains owner = true) :
    x.ensureOwner owner = .error (.ownerNotFound owner) := by
  rw [ensureOwner, if_neg ho]

/-- The index with an entry of a workflow. -/
def entered (x : StoreIndex) (workflow : WorkflowId) (entry : InstanceEntry) : StoreIndex :=
  { x with instances := x.instances.insert workflow entry }

/-- When a save is entered, and what the index is then. -/
theorem save_eq_ok {data : InstanceMetadata} {complete unlock : Bool} :
    x.save owner workflow data complete unlock = .ok y ↔
      x.owners.contains owner = true ∧ x.checkAccess owner workflow = .ok () ∧
        x.entered workflow ⟨if unlock || complete then none else some owner, complete, data⟩ = y := by
  unfold save
  by_cases ho : x.owners.contains owner = true
  · rw [ensureOwner_of_registered ho]
    cases x.checkAccess owner workflow with
    | error _ => simp [bind, Except.bind]
    | ok _ => simp [bind, Except.bind, pure, Except.pure, ho, entered]
  · rw [ensureOwner_of_not_registered ho]
    simp [bind, Except.bind, ho]

/-- When a workflow is locked by a load, and what the index is then. -/
theorem load_eq_ok {data : InstanceMetadata} :
    x.load owner workflow = .ok (data, y) ↔
      x.owners.contains owner = true ∧ x.checkAccess owner workflow = .ok () ∧
        ∃ entry, x.instances[workflow]? = some entry ∧ entry.metadata = data ∧
          x.entered workflow { entry with lockedBy := some owner } = y := by
  unfold load
  by_cases ho : x.owners.contains owner = true
  · rw [ensureOwner_of_registered ho]
    cases x.instances[workflow]? with
    | none => simp [bind, Except.bind]
    | some entry =>
      cases x.checkAccess owner workflow with
      | error _ => simp [bind, Except.bind]
      | ok _ => simp [bind, Except.bind, pure, Except.pure, ho, entered]
  · rw [ensureOwner_of_not_registered ho]
    simp [bind, Except.bind, ho]

section Locked

variable {entry : InstanceEntry} {holder : OwnerId} (hw : x.instances[workflow]? = some entry)
  (hc : entry.complete = false) (hl : entry.lockedBy = some holder) (ho : owner ≠ holder)
include hw hc hl ho

/-- A workflow that another owner has locked is refused. -/
theorem checkAccess_of_locked :
    x.checkAccess owner workflow = .error (.instanceLocked workflow holder) := by
  rw [checkAccess, hw]
  dsimp only
  rw [hc, if_neg Bool.false_ne_true, hl]
  dsimp only
  rw [if_neg (Ne.symm ho)]

theorem save_of_locked (data : InstanceMetadata) (complete unlock : Bool) :
    x.save owner workflow data complete unlock =
      .error (if x.owners.contains owner then .instanceLocked workflow holder
        else .ownerNotFound owner) := by
  unfold save ensureOwner
  split
  · rw [checkAccess_of_locked hw hc hl ho]
    rfl
  · rfl

theorem load_of_locked :
    x.load owner workflow =
      .error (if x.owners.contains owner then .instanceLocked workflow holder
        else .ownerNotFound owner) := by
  unfold load ensureOwner
  split
  · rw [hw, checkAccess_of_locked hw hc hl ho]
    rfl
  · rfl

end Locked

/-- The entry of a workflow when an owner has been removed. -/
def released (owner : OwnerId) (entry : InstanceEntry) : InstanceEntry :=
  if entry.lockedBy = some owner then { entry with lockedBy := none } else entry

/-- When an owner is removed, and what the index is then. -/
theorem deleteOwner_eq_ok : x.deleteOwner owner = .ok y ↔
    x.owners.contains owner = true ∧
      ⟨x.owners.erase owner, x.instances.map fun _ entry => released owner entry⟩ = y := by
  unfold deleteOwner
  by_cases ho : x.owners.contains owner = true
  · rw [if_pos ho]
    simp only [ho, Except.ok.injEq, true_and]
    rfl
  · rw [if_neg ho]
    simp [ho]

end StoreIndex

namespace Command

/-- The command saves or loads a workflow for an owner. -/
def Accesses (owner : OwnerId) (workflow : WorkflowId) : Command → Prop
  | save o w _ _ _ => o = owner ∧ w = workflow
  | load o w => o = owner ∧ w = workflow
  | _ => False

/-- The command, if it succeeds, locks a workflow for an owner. -/
def Locks (owner : OwnerId) (workflow : WorkflowId) : Command → Prop
  | save o w _ complete unlock => o = owner ∧ w = workflow ∧ complete = false ∧ unlock = false
  | load o w => o = owner ∧ w = workflow
  | _ => False

/-- The command, if it succeeds, ends the lock of an owner on a workflow. -/
def Releases (owner : OwnerId) (workflow : WorkflowId) : Command → Prop
  | save o w _ complete unlock => o = owner ∧ w = workflow ∧ (complete = true ∨ unlock = true)
  | deleteOwner o => o = owner
  | _ => False

end Command

namespace MemoryStore

open StoreIndex (released)

variable {m n : MemoryStore} {s : Surroundings} {c : Command} {owner holder : OwnerId}
  {workflow : WorkflowId} {entry : InstanceEntry}

/-! ### Sound stores -/

/-- The owner and lock tables of a store agree with each other and with the octets. -/
structure Sound (m : MemoryStore) : Prop where
  /-- Only registered owners hold locks. -/
  held : ∀ (k : WorkflowId) (entry : InstanceEntry) (owner : OwnerId), m.index.instances[k]? = some entry → entry.lockedBy = some owner →
    m.index.owners.contains owner = true
  /-- A complete workflow is not locked. -/
  unlocked : ∀ (k : WorkflowId) (entry : InstanceEntry), m.index.instances[k]? = some entry → entry.complete = true →
    entry.lockedBy = none
  /-- The octets of every entry are there. -/
  backed : ∀ (k : WorkflowId) (entry : InstanceEntry), m.index.instances[k]? = some entry → ∃ bytes, m.payloads[k]? = some bytes

/-- What a command that succeeds makes of a store. -/
inductive Performed (m : MemoryStore) (s : Surroundings) : Command → MemoryStore → Prop
  /-- The owner is registered. -/
  | created (name : String) : Performed m s (.createOwner name)
      { m with index := m.index.createOwner ⟨s.fresh⟩ name s.now }
  /-- The owner was registered, and its locks are gone with it. -/
  | deleted {owner : OwnerId} (ho : m.index.owners.contains owner = true) :
      Performed m s (.deleteOwner owner)
        { m with index := ⟨m.index.owners.erase owner,
                           m.index.instances.map fun _ entry => released owner entry⟩ }
  /-- The workflow was open to its owner and is entered with its octets. -/
  | saved {owner : OwnerId} {workflow : WorkflowId} {data : InstanceData} {complete unlock : Bool}
      (ho : m.index.owners.contains owner = true)
      (ha : m.index.checkAccess owner workflow = .ok ()) :
      Performed m s (.save owner workflow data complete unlock)
        { m with
          index := m.index.entered workflow
              ⟨if unlock || complete then none else some owner, complete, data.metadata⟩
          payloads := m.payloads.insert workflow data.bytes }
  /-- The workflow was open to its owner, who has locked it now. -/
  | loaded {owner : OwnerId} {workflow : WorkflowId} {entry : InstanceEntry}
      (ho : m.index.owners.contains owner = true)
      (ha : m.index.checkAccess owner workflow = .ok ())
      (hw : m.index.instances[workflow]? = some entry) :
      Performed m s (.load owner workflow)
        { m with index := m.index.entered workflow { entry with lockedBy := some owner } }

/-- A command on a sound store either fails and changes nothing, or it does what it should. -/
theorem Sound.perform (h : m.Sound) (s : Surroundings) (c : Command) :
    (∃ error, m.perform s c = (.error error, m)) ∨
      ∃ outcome, (m.perform s c).1 = .ok outcome ∧ m.Performed s c (m.perform s c).2 := by
  cases c with
  | createOwner name => exact .inr ⟨_, rfl, .created name⟩
  | deleteOwner owner =>
    rw [MemoryStore.perform]
    cases hd : m.index.deleteOwner owner with
    | error error => exact .inl ⟨error, rfl⟩
    | ok index =>
      obtain ⟨ho, rfl⟩ := StoreIndex.deleteOwner_eq_ok.mp hd
      exact .inr ⟨_, rfl, .deleted ho⟩
  | save owner workflow data complete unlock =>
    rw [MemoryStore.perform]
    cases hs : m.index.save owner workflow data.metadata complete unlock with
    | error error => exact .inl ⟨error, rfl⟩
    | ok index =>
      obtain ⟨ho, ha, rfl⟩ := StoreIndex.save_eq_ok.mp hs
      exact .inr ⟨_, rfl, .saved ho ha⟩
  | load owner workflow =>
    rw [MemoryStore.perform]
    cases hl : m.index.load owner workflow with
    | error error => exact .inl ⟨error, rfl⟩
    | ok loaded =>
      obtain ⟨data, index⟩ := loaded
      obtain ⟨ho, ha, entry, hw, -, rfl⟩ := StoreIndex.load_eq_ok.mp hl
      -- The index is changed before the octets are fetched; they are there.
      obtain ⟨bytes, hb⟩ := h.backed workflow entry hw
      dsimp only
      rw [hb]
      exact .inr ⟨_, rfl, .loaded ho ha hw⟩

/-- A command that fails, on its own or because it is made to, uses up one failure at most. -/
theorem Sound.tryCommand (h : m.Sound) (s : Surroundings) (c : Command) :
    (∃ error, m.tryCommand s c = (.error error, { m with failures := m.failures.tail })) ∨
      ∃ outcome, (m.tryCommand s c).1 = .ok outcome ∧ m.Performed s c (m.tryCommand s c).2 := by
  cases hf : m.failures with
  | cons error rest =>
    rw [MemoryStore.tryCommand, hf]
    exact .inl ⟨error, rfl⟩
  | nil =>
    rw [MemoryStore.tryCommand, hf]
    rcases h.perform s c with ⟨error, hp⟩ | performed
    · have same : { m with failures := [].tail } = m := by
        rw [List.tail_nil, ← hf]
      exact .inl ⟨error, same ▸ hp⟩
    · exact .inr performed

/-- A command that succeeds has done what it should. -/
theorem Sound.performed (h : m.Sound) (hk : (m.tryCommand s c).1.isOk = true) :
    m.Performed s c (m.tryCommand s c).2 := by
  rcases h.tryCommand s c with ⟨error, he⟩ | ⟨_, -, performed⟩
  · rw [he] at hk
    cases hk
  · exact performed

/-- The store without anything is sound. -/
theorem sound_empty : ({} : MemoryStore).Sound := by
  have none : ∀ (k : WorkflowId) (entry : InstanceEntry),
      ({} : MemoryStore).index.instances[k]? ≠ some entry := by
    intro k entry
    simp
  exact ⟨fun k entry _ hk => absurd hk (none k entry), fun k entry hk => absurd hk (none k entry),
    fun k entry hk => absurd hk (none k entry)⟩

/-- A removed owner holds no lock; other locks stay. -/
theorem lockedBy_released {entry : InstanceEntry} :
    (released owner entry).lockedBy = some holder ↔
      entry.lockedBy = some holder ∧ holder ≠ owner := by
  unfold released
  split
  · next hl =>
    rw [hl]
    simp only [Option.some.injEq, false_iff, reduceCtorEq]
    exact fun h => h.2 h.1.symm
  · next hl =>
    refine ⟨fun hh => ⟨hh, fun he => hl (he ▸ hh)⟩, fun h => h.1⟩

theorem complete_released {entry : InstanceEntry} :
    (released owner entry).complete = entry.complete := by
  unfold released
  split <;> rfl

/-- The entries of an index with one entry more. -/
theorem lookup_entered (x : StoreIndex) (new : InstanceEntry) (k : WorkflowId) :
    (x.entered workflow new).instances[k]? =
      if workflow = k then some new else x.instances[k]? :=
  Table.lookup_insert x.instances workflow k new

/-- A store stays sound when an entry is put in, if its octets are there and its lock is in order. -/
theorem Sound.enter (h : m.Sound) {new : InstanceEntry}
    (hl : ∀ owner, new.lockedBy = some owner → m.index.owners.contains owner = true)
    (hc : new.complete = true → new.lockedBy = none)
    {payloads : Std.ExtTreeMap WorkflowId Bytes} (hb : ∃ bytes, payloads[workflow]? = some bytes)
    (ho : ∀ k, workflow ≠ k → payloads[k]? = m.payloads[k]?) :
    Sound { m with index := m.index.entered workflow new, payloads } := by
  have found : ∀ {k : WorkflowId} {entry : InstanceEntry},
      (m.index.entered workflow new).instances[k]? = some entry →
        workflow = k ∧ entry = new ∨ workflow ≠ k ∧ m.index.instances[k]? = some entry := by
    intro k entry hk
    rw [lookup_entered] at hk
    split at hk
    · next same => exact .inl ⟨same, (Option.some.inj hk).symm⟩
    · next other => exact .inr ⟨other, hk⟩
  refine ⟨fun k entry owner hk held => ?_, fun k entry hk complete => ?_, fun k entry hk => ?_⟩
  · rcases found hk with ⟨-, rfl⟩ | ⟨-, hk⟩
    · exact hl owner held
    · exact h.held k entry owner hk held
  · rcases found hk with ⟨-, rfl⟩ | ⟨-, hk⟩
    · exact hc complete
    · exact h.unlocked k entry hk complete
  · rcases found hk with ⟨rfl, -⟩ | ⟨other, hk⟩
    · exact hb
    · exact (ho k other).symm ▸ h.backed k entry hk

/-- A store stays sound when an owner is removed together with its locks. -/
theorem Sound.remove (h : m.Sound) (owner : OwnerId) :
    Sound { m with
      index := ⟨m.index.owners.erase owner,
        m.index.instances.map fun _ entry => released owner entry⟩ } := by
  have found : ∀ {k : WorkflowId} {entry : InstanceEntry},
      (m.index.instances.map fun _ e => released owner e)[k]? = some entry →
        ∃ old, m.index.instances[k]? = some old ∧ released owner old = entry := by
    intro k entry hk
    rw [Std.ExtTreeMap.getElem?_map] at hk
    exact Option.map_eq_some_iff.mp hk
  refine ⟨fun k entry holder hk held => ?_, fun k entry hk complete => ?_, fun k entry hk => ?_⟩
  · obtain ⟨old, hold, rfl⟩ := found hk
    obtain ⟨held, other⟩ := lockedBy_released.mp held
    have registered := h.held k old holder hold held
    have apart : compare owner holder ≠ .eq := fun he =>
      other (Std.LawfulEqOrd.eq_of_compare he).symm
    dsimp only
    rw [Std.ExtTreeMap.contains_erase, registered, Bool.and_true]
    exact bne_iff_ne.mpr apart
  · obtain ⟨old, hold, rfl⟩ := found hk
    have free := h.unlocked k old hold (complete_released.symm.trans complete)
    exact Option.eq_none_iff_forall_ne_some.mpr fun o ho =>
      absurd ((lockedBy_released.mp ho).1.symm.trans free) (Option.some_ne_none o)
  · obtain ⟨old, hold, -⟩ := found hk
    exact h.backed k old hold

/-- A command that succeeds leaves a sound store. -/
theorem Sound.of_performed (h : m.Sound) (hp : m.Performed s c n) : n.Sound := by
  cases hp with
  | created name =>
    refine ⟨fun k entry owner hk hl => ?_, h.unlocked, h.backed⟩
    have registered := h.held k entry owner hk hl
    dsimp only [StoreIndex.createOwner]
    rw [Std.ExtTreeMap.contains_insert, registered, Bool.or_true]
  | @deleted owner ho => exact h.remove owner
  | @saved owner workflow data complete unlock ho ha =>
    refine h.enter (fun holder hl => ?_) (fun hc => ?_)
      ⟨data.bytes, (Table.lookup_insert ..).trans (if_pos rfl)⟩
      fun k other => (Table.lookup_insert ..).trans (if_neg other)
    · dsimp only at hl
      split at hl
      · cases hl
      · cases hl
        exact ho
    · have last : complete = true := hc
      rw [last, Bool.or_true]
      rfl
  | @loaded owner workflow entry ho ha hw =>
    have unfinished := (StoreIndex.checkAccess_eq_ok.mp ha entry hw).1
    refine h.enter (fun holder hl => ?_) (fun hc => absurd hc (unfinished ▸ Bool.false_ne_true))
      (h.backed workflow entry hw) fun _ _ => rfl
    cases hl
    exact ho

/-! ### Locks and last saves -/

/-- An owner has locked a workflow. -/
def LockedTo (m : MemoryStore) (owner : OwnerId) (workflow : WorkflowId) : Prop :=
  ∃ entry, m.index.instances[workflow]? = some entry ∧ entry.complete = false ∧
    entry.lockedBy = some owner

/-- A workflow was saved for the last time, with its summary and octets. -/
def Final (m : MemoryStore) (workflow : WorkflowId) (data : InstanceData) : Prop :=
  m.index.instances[workflow]? = some ⟨none, true, data.metadata⟩ ∧
    m.payloads[workflow]? = some data.bytes

/-- A command that locks a workflow leaves it locked. -/
theorem Performed.lockedTo (hp : m.Performed s c n) (hc : c.Locks owner workflow) :
    n.LockedTo owner workflow := by
  cases hp with
  | created name => exact hc.elim
  | deleted ho => exact hc.elim
  | saved ho ha =>
    obtain ⟨rfl, rfl, rfl, rfl⟩ := hc
    exact ⟨_, (lookup_entered ..).trans (if_pos rfl), rfl, rfl⟩
  | loaded ho ha hw =>
    obtain ⟨rfl, rfl⟩ := hc
    exact ⟨_, (lookup_entered ..).trans (if_pos rfl),
      (StoreIndex.checkAccess_eq_ok.mp ha _ hw).1, rfl⟩

/-- A lock outlasts every command that does not end it. -/
theorem Performed.keeps_lock (hp : m.Performed s c n) (hl : m.LockedTo holder workflow)
    (hc : ¬ c.Releases holder workflow) : n.LockedTo holder workflow := by
  obtain ⟨entry, he, unfinished, locked⟩ := hl
  cases hp with
  | created name => exact ⟨entry, he, unfinished, locked⟩
  | @deleted owner ho =>
    refine ⟨released owner entry, ?_, complete_released.trans unfinished,
      lockedBy_released.mpr ⟨locked, fun same => hc same.symm⟩⟩
    dsimp only
    rw [Std.ExtTreeMap.getElem?_map, he, Option.map_some]
  | @saved owner w data complete unlock ho ha =>
    by_cases hw : w = workflow
    · subst hw
      -- Only the holder may save the workflow, and he does not release it.
      have same : holder = owner :=
        (StoreIndex.checkAccess_eq_ok.mp ha entry he).2 holder locked
      subst same
      have kept : complete = false ∧ unlock = false := by
        simpa [Command.Releases] using hc
      obtain ⟨rfl, rfl⟩ := kept
      exact ⟨_, (lookup_entered ..).trans (if_pos rfl), rfl, rfl⟩
    · exact ⟨entry, (lookup_entered ..).trans ((if_neg hw).trans he), unfinished, locked⟩
  | @loaded owner w old ho ha hold =>
    by_cases hw : w = workflow
    · subst hw
      have same : holder = owner :=
        (StoreIndex.checkAccess_eq_ok.mp ha entry he).2 holder locked
      subst same
      exact ⟨_, (lookup_entered ..).trans (if_pos rfl),
        (StoreIndex.checkAccess_eq_ok.mp ha old hold).1, rfl⟩
    · exact ⟨entry, (lookup_entered ..).trans ((if_neg hw).trans he), unfinished, locked⟩

/-- A save for the last time is final. -/
theorem Performed.final {data : InstanceData} {unlock : Bool}
    (hp : m.Performed s (.save owner workflow data true unlock) n) : n.Final workflow data := by
  cases hp with
  | saved ho ha =>
    refine ⟨?_, ?_⟩
    · rw [lookup_entered, if_pos rfl, Bool.or_true]
      rfl
    · exact (Table.lookup_insert ..).trans (if_pos rfl)

/-- What is final stays under every command. -/
theorem Performed.keeps_final {data : InstanceData} (hp : m.Performed s c n)
    (hf : m.Final workflow data) : n.Final workflow data := by
  obtain ⟨he, hb⟩ := hf
  -- A complete workflow is open to nobody.
  have shut : ∀ {owner : OwnerId} {w : WorkflowId}, m.index.checkAccess owner w = .ok () →
      w ≠ workflow := by
    rintro owner w ha rfl
    exact Bool.false_ne_true (StoreIndex.checkAccess_eq_ok.mp ha _ he).1.symm
  cases hp with
  | created name => exact ⟨he, hb⟩
  | @deleted owner ho =>
    refine ⟨?_, hb⟩
    dsimp only
    rw [Std.ExtTreeMap.getElem?_map, he, Option.map_some]
    rfl
  | saved ho ha =>
    exact ⟨(lookup_entered ..).trans ((if_neg (shut ha)).trans he),
      (Table.lookup_insert ..).trans ((if_neg (shut ha)).trans hb)⟩
  | loaded ho ha hw => exact ⟨(lookup_entered ..).trans ((if_neg (shut ha)).trans he), hb⟩

/-- Every save or load of a workflow by another owner fails, because of a failure that was planted for
it, because the owner is not registered, or because of the lock; nothing but the failure is used up. -/
def Excludes (m : MemoryStore) (holder : OwnerId) (workflow : WorkflowId) : Prop :=
  ∀ (s : Surroundings) (c : Command) (owner : OwnerId), c.Accesses owner workflow → owner ≠ holder →
    m.tryCommand s c =
      (.error (m.failures.headD (if m.index.owners.contains owner then .instanceLocked workflow holder
        else .ownerNotFound owner)), { m with failures := m.failures.tail })

/-- A lock keeps all others out. -/
theorem LockedTo.excludes (hl : m.LockedTo holder workflow) : m.Excludes holder workflow := by
  obtain ⟨entry, he, unfinished, locked⟩ := hl
  intro s c owner hc other
  rw [MemoryStore.tryCommand]
  split
  · next error rest hf =>
    rw [hf]
    rfl
  · next hf =>
    have same : { m with failures := m.failures.tail } = m := by
      rw [hf, List.tail_nil, ← hf]
    rw [same, hf, List.headD_nil]
    cases c with
    | createOwner name => exact hc.elim
    | deleteOwner o => exact hc.elim
    | save o w data complete unlock =>
      obtain ⟨rfl, rfl⟩ := hc
      rw [MemoryStore.perform, StoreIndex.save_of_locked he unfinished locked other]
    | load o w =>
      obtain ⟨rfl, rfl⟩ := hc
      rw [MemoryStore.perform, StoreIndex.load_of_locked he unfinished locked other]

end MemoryStore

/-- What happens to a store in memory. -/
inductive StoreEvent where
  /-- An owner sends a command. -/
  | command (s : Surroundings) (c : Command)
  /-- A failure is planted for a command to come. -/
  | plant (error : StoreError)

namespace StoreEvent

/-- The store after an event. -/
def after (m : MemoryStore) : StoreEvent → MemoryStore
  | command s c => (m.tryCommand s c).2
  | plant error => m.plant error

/-- The store after several events. -/
def afterAll (m : MemoryStore) : List StoreEvent → MemoryStore
  | [] => m
  | event :: rest => afterAll (event.after m) rest

/-- A command ends the lock of an owner on a workflow, and succeeds. -/
def Frees (m : MemoryStore) (owner : OwnerId) (workflow : WorkflowId) : StoreEvent → Prop
  | command s c => c.Releases owner workflow ∧ (m.tryCommand s c).1.isOk = true
  | plant _ => False

/-- None of several events ends the lock of an owner on a workflow. -/
def KeepLock (owner : OwnerId) (workflow : WorkflowId) : MemoryStore → List StoreEvent → Prop
  | _, [] => True
  | m, event :: rest => ¬ event.Frees m owner workflow ∧ KeepLock owner workflow (event.after m) rest

end StoreEvent

namespace MemoryStore

open StoreEvent (after afterAll KeepLock)

variable {m : MemoryStore} {owner holder : OwnerId} {workflow : WorkflowId}

/-! ### Sequences of events -/

/-- An event leaves the tables as they were, or a command has succeeded. -/
theorem Sound.after_cases (h : m.Sound) (event : StoreEvent) :
    ((event.after m).index = m.index ∧ (event.after m).payloads = m.payloads) ∨
      ∃ s c, event = .command s c ∧ (m.tryCommand s c).1.isOk = true ∧
        m.Performed s c (event.after m) := by
  cases event with
  | plant error => exact .inl ⟨rfl, rfl⟩
  | command s c =>
    rcases h.tryCommand s c with ⟨error, failed⟩ | ⟨outcome, succeeded, performed⟩
    · rw [after, failed]
      exact .inl ⟨rfl, rfl⟩
    · refine .inr ⟨s, c, rfl, ?_, performed⟩
      rw [succeeded]
      rfl

theorem Sound.of_same {n : MemoryStore} (h : m.Sound) (hi : n.index = m.index)
    (hp : n.payloads = m.payloads) : n.Sound := by
  refine ⟨?_, ?_, ?_⟩
  · rw [hi]
    exact h.held
  · rw [hi]
    exact h.unlocked
  · rw [hi, hp]
    exact h.backed

/-- Every event leaves a sound store. -/
theorem Sound.after (h : m.Sound) (event : StoreEvent) : (event.after m).Sound := by
  rcases h.after_cases event with ⟨hi, hp⟩ | ⟨s, c, -, -, performed⟩
  · exact h.of_same hi hp
  · exact h.of_performed performed

theorem Sound.afterAll (h : m.Sound) (events : List StoreEvent) : (afterAll m events).Sound := by
  induction events generalizing m with
  | nil => exact h
  | cons event rest ih => exact ih (h.after event)

/-- A lock lasts as long as nothing ends it. -/
theorem LockedTo.afterAll (hl : m.LockedTo holder workflow) (h : m.Sound)
    {events : List StoreEvent} (hk : KeepLock holder workflow m events) :
    (afterAll m events).LockedTo holder workflow := by
  induction events generalizing m with
  | nil => exact hl
  | cons event rest ih =>
    obtain ⟨keeps, hk⟩ := hk
    refine ih ?_ (h.after event) hk
    rcases h.after_cases event with ⟨hi, -⟩ | ⟨s, c, rfl, succeeded, performed⟩
    · rw [LockedTo, hi]
      exact hl
    · exact performed.keeps_lock hl fun releases => keeps ⟨releases, succeeded⟩

/-- What is final stays for ever. -/
theorem Final.afterAll {data : InstanceData} (hf : m.Final workflow data) (h : m.Sound)
    (events : List StoreEvent) : (afterAll m events).Final workflow data := by
  induction events generalizing m with
  | nil => exact hf
  | cons event rest ih =>
    refine ih ?_ (h.after event)
    rcases h.after_cases event with ⟨hi, hp⟩ | ⟨s, c, rfl, -, performed⟩
    · rw [Final, hi, hp]
      exact hf
    · exact performed.keeps_final hf

/-- How a store guards its workflows from here on. -/
structure Guards (m : MemoryStore) : Prop where
  /-- A command that fails leaves owners, entries and octets as they were. -/
  atomic : ∀ (s : Surroundings) (c : Command) (error : StoreError),
    (m.tryCommand s c).1 = .error error →
      (m.tryCommand s c).2 = { m with failures := m.failures.tail }
  /-- An owner that has saved a workflow without releasing it, or has loaded it, keeps all others out
  until it saves the workflow unlocked or complete, or is removed. -/
  exclusive : ∀ (s : Surroundings) (c : Command) (owner : OwnerId) (workflow : WorkflowId),
    c.Locks owner workflow → (m.tryCommand s c).1.isOk = true →
      ∀ later, KeepLock owner workflow (m.tryCommand s c).2 later →
        (afterAll (m.tryCommand s c).2 later).Excludes owner workflow
  /-- The entry and the octets of a workflow that was saved for the last time never change. -/
  final : ∀ (s : Surroundings) (owner : OwnerId) (workflow : WorkflowId) (data : InstanceData)
    (unlock : Bool), (m.tryCommand s (.save owner workflow data true unlock)).1.isOk = true →
      ∀ later, (afterAll (m.tryCommand s (.save owner workflow data true unlock)).2 later).Final
        workflow data

theorem Sound.guards (h : m.Sound) : m.Guards where
  atomic s c error failed := by
    rcases h.tryCommand s c with ⟨_, unchanged⟩ | ⟨outcome, succeeded, -⟩
    · rw [unchanged]
    · rw [succeeded] at failed
      cases failed
  exclusive s c owner workflow locks succeeded later keeps := by
    have performed := h.performed succeeded
    have locked := (performed.lockedTo locks).afterAll (h.of_performed performed) keeps
    exact locked.excludes
  final s owner workflow data unlock succeeded later := by
    have performed := h.performed succeeded
    exact performed.final.afterAll (h.of_performed performed) later

/-- Locks are exclusive and last saves are final. Whatever any owners have sent to a store in memory,
and whatever was made to fail, locks are held by registered owners, complete workflows are not locked
and every entry has its octets; and from there on the store guards its workflows. -/
theorem locks_exclusive (events : List StoreEvent) :
    (afterAll {} events).Sound ∧ (afterAll {} events).Guards := by
  have sound := sound_empty.afterAll events
  exact ⟨sound, sound.guards⟩

/-- The surroundings in which an identifier with some bits is fresh. -/
def around (bits : Nat) : Surroundings :=
  ⟨⟨0, 0⟩, .ofNat bits⟩

/-- A store with the owners 1 and 2. -/
def contended : List StoreEvent :=
  [.command (around 1) (.createOwner "first"), .command (around 2) (.createOwner "second")]

/-- A save of the workflow 7 by the first owner, which keeps it locked. -/
def claimed : Command :=
  .save ⟨.ofNat 1⟩ ⟨.ofNat 7⟩ ⟨[1, 2], "fp", .idle, [], 1, ⟨0, 0⟩⟩ false false

/-- The second owner tries to load the workflow, with a failure planted for a second try. -/
def attempts : List StoreEvent :=
  [.command (around 3) (.load ⟨.ofNat 2⟩ ⟨.ofNat 7⟩), .plant (.transient "disk busy")]

/-- The first owner has saved the workflow; all others are kept out, also after an attempt of the second
owner and while a failure is planted. -/
theorem locks_exclusive_contended :
    ((afterAll {} contended).tryCommand (around 3) claimed).1.isOk = true ∧
      (afterAll ((afterAll {} contended).tryCommand (around 3) claimed).2 attempts).Excludes
        ⟨.ofNat 1⟩ ⟨.ofNat 7⟩ ∧
      (afterAll ((afterAll {} contended).tryCommand (around 3) claimed).2 attempts).failures.length
        = 1 := by
  have succeeded : ((afterAll {} contended).tryCommand (around 3) claimed).1.isOk = true := by
    decide +kernel
  refine ⟨succeeded, ?_, by decide +kernel⟩
  exact (locks_exclusive contended).2.exclusive (around 3) claimed _ _ ⟨rfl, rfl, rfl, rfl⟩ succeeded
    attempts ⟨fun frees => frees.1.elim, fun frees => frees.elim, trivial⟩

end MemoryStore

end Workflow
