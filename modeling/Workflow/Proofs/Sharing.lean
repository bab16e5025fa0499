import Workflow.Proofs.FileRefinement

/-!
# Handles on one root

Several handles may be open on the root of one store. The commands of one handle follow each other, but
those of different handles interleave: a command reads the index, then does its work on it and writes
or reads the snapshot, and then replaces the index, and other handles may act in between. Nothing keeps
a handle from replacing an index that another one has replaced since it was read. As long as that does
not happen, the commands that succeed do what they would do one after another.
-/

namespace Workflow

/-! ### Commands in steps -/

/-- A command that has been answered. -/
structure StoreReply where
  /-- What the command took from its surroundings. -/
  surroundings : Surroundings
  /-- The command. -/
  command : Command
  /-- The answer. -/
  answer : Except StoreError CommandOutcome

/-- What handles share, and how a command works on it. -/
structure Medium (S : Type) where
  /-- Read the index. -/
  readIndex : ExceptT StoreError (StateM S) StoreIndex
  /-- Carry out a command on an index that was read, up to replacing the index. -/
  perform (s : Surroundings) (x : StoreIndex) (c : Command) :
    ExceptT StoreError (StateM S) (CommandOutcome × StoreIndex)
  /-- Replace the index. -/
  writeIndex (y : StoreIndex) : ExceptT StoreError (StateM S) Unit

namespace Medium

/-- The files of a store. -/
def files (l : Layout) : Medium Disk where
  readIndex := FileStore.readIndex l
  perform := FileStore.perform l
  writeIndex y := FileStore.storage (Disk.writeDocument l.indexFile y.toJson)

/-- A store in memory, the index of which is replaced apart from the octets. -/
def memory : Medium MemoryStore where
  readIndex := ExceptT.mk fun m => (.ok m.index, m)
  perform s x c := ExceptT.mk fun m =>
    match (MemoryStore.mk x m.payloads []).perform s c with
    | (.error error, _) => (.error error, m)
    | (.ok outcome, n) => (.ok (outcome, n.index), { m with payloads := n.payloads })
  writeIndex y := ExceptT.mk fun m => (.ok (), { m with index := y })

end Medium

/-- How far a handle has got. -/
inductive Stage where
  /-- It has no command. -/
  | free
  /-- It has taken a command. -/
  | taken (s : Surroundings) (c : Command)
  /-- It has read the index. -/
  | read (s : Surroundings) (c : Command) (x : StoreIndex)
  /-- It has carried out the command on the index that it has read, and has still to replace it. -/
  | performed (s : Surroundings) (c : Command) (x : StoreIndex) (outcome : CommandOutcome)
      (y : StoreIndex)

/-- Take the next step of a command; tells where the handle is then, and the answer after the last
step. -/
def Stage.advance {S : Type} (M : Medium S) (state : S) : Stage → Stage × Option StoreReply × S
  | free => (free, none, state)
  | taken s c =>
    match M.readIndex.run state with
    | (.error error, state) => (free, some ⟨s, c, .error error⟩, state)
    | (.ok x, state) => (read s c x, none, state)
  | read s c x =>
    match (M.perform s x c).run state with
    | (.error error, state) => (free, some ⟨s, c, .error error⟩, state)
    | (.ok (outcome, y), state) => (performed s c x outcome y, none, state)
  | performed s c _ outcome y =>
    match (M.writeIndex y).run state with
    | (.error error, state) => (free, some ⟨s, c, .error error⟩, state)
    | (.ok (), state) => (free, some ⟨s, c, .ok outcome⟩, state)

/-- Handles, and what they share. -/
structure Shared (S H : Type) where
  /-- What is shared. -/
  state : S
  /-- How far each handle has got. -/
  stage : H → Stage := fun _ => .free
  /-- The commands that have been answered, in the order of their answers. -/
  replies : List StoreReply := []

/-- What happens at one of several handles. -/
inductive Move (H : Type) where
  /-- It is sent a command. -/
  | send (h : H) (s : Surroundings) (c : Command)
  /-- It takes the next step of its command. -/
  | go (h : H)

/-- A handle that is about to replace the index replaces the one that it has read. -/
def Stage.Heeds {S : Type} (M : Medium S) (state : S) : Stage → Prop
  | .performed _ _ x _ _ => (M.readIndex.run state).1 = .ok x
  | _ => True

namespace Shared

variable {S H : Type} [DecidableEq H]

/-- The handles have no commands yet. -/
def opened (state : S) : Shared S H where
  state

/-- A handle gets somewhere. -/
def setStage (w : Shared S H) (h : H) (stage : Stage) : H → Stage :=
  fun k => if k = h then stage else w.stage k

@[simp] theorem setStage_self (w : Shared S H) (h : H) (stage : Stage) :
    w.setStage h stage h = stage :=
  if_pos rfl

theorem setStage_of_ne (w : Shared S H) {h k : H} (hk : k ≠ h) (stage : Stage) :
    w.setStage h stage k = w.stage k :=
  if_neg hk

/-- What a move leads to. A handle that has a command takes no other one. -/
def after (M : Medium S) (w : Shared S H) : Move H → Shared S H
  | .send h s c =>
    match w.stage h with
    | .free => { w with stage := w.setStage h (.taken s c) }
    | _ => w
  | .go h =>
    let (stage, reply, state) := (w.stage h).advance M w.state
    { state, stage := w.setStage h stage, replies := w.replies ++ reply.toList }

/-- What several moves lead to. -/
def afterAll (M : Medium S) (w : Shared S H) : List (Move H) → Shared S H
  | [] => w
  | move :: rest => afterAll M (w.after M move) rest

/-- A move replaces no index but the one that was read for it. -/
def Heeds (M : Medium S) (w : Shared S H) : Move H → Prop
  | .send .. => True
  | .go h => (w.stage h).Heeds M w.state

/-- No handle replaces an index that another one has replaced since it was read. -/
def Timely (M : Medium S) : Shared S H → List (Move H) → Prop
  | _, [] => True
  | w, move :: rest => w.Heeds M move ∧ Timely M (w.after M move) rest

/-- All steps of one command. -/
def undivided (h : H) (s : Surroundings) (c : Command) : List (Move H) :=
  [.send h s c, .go h, .go h, .go h]

/-- The steps of a command that no other handle disturbs are those that a store takes. -/
theorem afterAll_undivided {l : Layout} {w : Shared Disk H} {h : H} (free : w.stage h = .free)
    (s : Surroundings) (c : Command) :
    w.afterAll (.files l) (undivided h s c) =
      { w with
        state := ((FileStore.mk l w.state).tryCommand s c).2.disk
        replies := w.replies ++ [⟨s, c, ((FileStore.mk l w.state).tryCommand s c).1⟩] } := by
  have moves {stage next : Stage} {reply : Option StoreReply} {d d' : Disk} (replies : List StoreReply)
      (step : stage.advance (.files l) d = (next, reply, d')) :
      ({ state := d, stage := w.setStage h stage, replies } : Shared Disk H).after (.files l) (.go h) =
        { state := d', stage := w.setStage h next, replies := replies ++ reply.toList } := by
    dsimp only [after]
    rw [setStage_self, step]
    congr 1
    funext k
    by_cases hk : k = h <;> simp [setStage, hk]
  have freed : w.setStage h .free = w.stage := by
    funext k
    by_cases hk : k = h
    · rw [hk, setStage_self, free]
    · rw [w.setStage_of_ne hk]
  have sent : w.after (.files l) (.send h s c) = { w with stage := w.setStage h (.taken s c) } := by
    rw [after, free]
  have rests (d : Disk) (replies : List StoreReply) :
      ({ state := d, stage := w.setStage h .free, replies } : Shared Disk H).after (.files l) (.go h) =
        { state := d, stage := w.setStage h .free, replies } := by
    rw [moves replies (Stage.advance.eq_1 ..), Option.toList_none, List.append_nil]
  simp only [undivided, afterAll]
  rw [sent, FileStore.tryCommand, FileStore.onDisk, FileStore.steps]
  rcases hr : (FileStore.readIndex l).run w.state with ⟨error | x, d⟩
  · rw [Disk.run_bind_error hr, moves w.replies (by rw [Stage.advance, Medium.files, hr]), rests,
      rests, freed]
    rfl
  rw [Disk.run_bind_ok hr, moves w.replies (by rw [Stage.advance, Medium.files, hr])]
  rcases hp : (FileStore.perform l s x c).run d with ⟨error | ⟨outcome, y⟩, d'⟩
  · rw [Disk.run_bind_error hp, moves _ (by rw [Stage.advance, Medium.files, hp]), rests, freed]
    simp only [Option.toList_none, Option.toList_some, List.append_nil]
  rw [Disk.run_bind_ok hp, moves _ (by rw [Stage.advance, Medium.files, hp])]
  dsimp only
  rcases hw : (FileStore.storage (Disk.writeDocument l.indexFile y.toJson)).run d' with
    ⟨error | _, d''⟩
  · rw [Disk.run_bind_error hw, moves _ (by rw [Stage.advance, Medium.files, hw]), freed]
    simp only [Option.toList_none, Option.toList_some, List.append_nil]
  · rw [Disk.run_bind_ok hw, moves _ (by rw [Stage.advance, Medium.files, hw]), freed]
    simp only [Option.toList_none, Option.toList_some, List.append_nil]
    rfl

end Shared

deriving instance DecidableEq for InstanceMetadata, InstanceEntry, OwnerRecord, StoreIndex
deriving instance DecidableEq for Surroundings, InstanceData, Command, CommandOutcome

instance decidableEqExcept {ε α : Type} [DecidableEq ε] [DecidableEq α] : DecidableEq (Except ε α)
  | .ok a, .ok b => decidable_of_iff (a = b) ⟨congrArg Except.ok, Except.ok.inj⟩
  | .error a, .error b => decidable_of_iff (a = b) ⟨congrArg Except.error, Except.error.inj⟩
  | .ok _, .error _ | .error _, .ok _ => isFalse nofun

deriving instance DecidableEq for StoreReply

/-- Whether a handle heeds the index can be evaluated. -/
instance {S : Type} (M : Medium S) (state : S) : (stage : Stage) → Decidable (stage.Heeds M state)
  | .performed _ _ x _ _ => inferInstanceAs (Decidable ((M.readIndex.run state).1 = .ok x))
  | .free | .taken .. | .read .. => isTrue trivial

namespace Shared

variable {S H : Type} [DecidableEq H]

instance (M : Medium S) (w : Shared S H) : (move : Move H) → Decidable (w.Heeds M move)
  | .send .. => isTrue trivial
  | .go h => inferInstanceAs (Decidable ((w.stage h).Heeds M w.state))

instance decidableTimely (M : Medium S) :
    (w : Shared S H) → (moves : List (Move H)) → Decidable (w.Timely M moves)
  | _, [] => isTrue trivial
  | w, move :: rest =>
    have := decidableTimely M (w.after M move) rest
    inferInstanceAs (Decidable (w.Heeds M move ∧ (w.after M move).Timely M rest))

end Shared

/-! ### What commands keep -/

namespace Command

/-- The command, if it succeeds, gives a workflow to an owner: it loads it, or saves it without
unlocking it. -/
def Claims (owner : OwnerId) (workflow : WorkflowId) : Command → Prop
  | save o w _ _ unlock => o = owner ∧ w = workflow ∧ unlock = false
  | load o w => o = owner ∧ w = workflow
  | _ => False

/-- The command saves a workflow. -/
def Saves (workflow : WorkflowId) : Command → Prop
  | save _ w _ _ _ => w = workflow
  | _ => False

end Command

/-- A workflow is closed to all but an owner: it is complete, or the owner has locked it. -/
def StoreIndex.Shut (x : StoreIndex) (owner : OwnerId) (workflow : WorkflowId) : Prop :=
  ∃ entry, x.instances[workflow]? = some entry ∧
    (entry.complete = true ∨ entry.lockedBy = some owner)

/-- Only the owner for whom a workflow is closed to all others has access to it, and not even he if it
is complete. -/
theorem StoreIndex.Shut.access {x : StoreIndex} {owner other : OwnerId} {workflow : WorkflowId}
    (hs : x.Shut owner workflow) (ha : x.checkAccess other workflow = .ok ()) :
    other = owner ∧ ∃ entry, x.instances[workflow]? = some entry ∧ entry.complete = false := by
  obtain ⟨entry, he, hc⟩ := hs
  obtain ⟨unfinished, held⟩ := checkAccess_eq_ok.mp ha entry he
  obtain hc | hl := hc
  · exact absurd (unfinished.symm.trans hc) Bool.false_ne_true
  · exact ⟨(held owner hl).symm, entry, he, unfinished⟩

/-- The index has the summary of a save, and whether it was the last one. -/
def StoreIndex.Lists (x : StoreIndex) (workflow : WorkflowId) (metadata : InstanceMetadata)
    (complete : Bool) : Prop :=
  ∃ entry, x.instances[workflow]? = some entry ∧ entry.metadata = metadata ∧
    entry.complete = complete

namespace MemoryStore

open StoreIndex (released)

variable {m n : MemoryStore} {s : Surroundings} {c : Command} {owner other : OwnerId}
  {workflow : WorkflowId} {metadata : InstanceMetadata} {complete : Bool}

/-- A command that gives a workflow to an owner closes it to all others. -/
theorem Performed.shuts (hp : m.Performed s c n) (hc : c.Claims owner workflow) :
    n.index.Shut owner workflow := by
  cases hp with
  | created name => exact hc.elim
  | deleted ho => exact hc.elim
  | @saved _ _ _ complete _ ho ha =>
    obtain ⟨rfl, rfl, rfl⟩ := hc
    refine ⟨_, (lookup_entered ..).trans (if_pos rfl), ?_⟩
    cases complete with
    | true => exact .inl rfl
    | false => exact .inr rfl
  | loaded ho ha hw =>
    obtain ⟨rfl, rfl⟩ := hc
    exact ⟨_, (lookup_entered ..).trans (if_pos rfl), .inr rfl⟩

/-- It stays closed until the owner gives it up. -/
theorem Performed.keeps_shut (hp : m.Performed s c n) (hs : m.index.Shut owner workflow)
    (hc : ¬ c.Releases owner workflow) : n.index.Shut owner workflow := by
  cases hp with
  | created name => exact hs
  | @deleted o ho =>
    obtain ⟨entry, he, shut⟩ := hs
    refine ⟨released o entry, ?_, shut.imp complete_released.trans fun hl =>
      lockedBy_released.mpr ⟨hl, fun same => hc same.symm⟩⟩
    dsimp only
    rw [Std.ExtTreeMap.getElem?_map, he, Option.map_some]
  | @saved o w data complete unlock ho ha =>
    by_cases hw : w = workflow
    · subst hw
      obtain ⟨rfl, -⟩ := hs.access ha
      have kept : complete = false ∧ unlock = false := by
        simpa [Command.Releases] using hc
      obtain ⟨rfl, rfl⟩ := kept
      exact ⟨_, (lookup_entered ..).trans (if_pos rfl), .inr rfl⟩
    · obtain ⟨entry, he, shut⟩ := hs
      exact ⟨entry, (lookup_entered ..).trans ((if_neg hw).trans he), shut⟩
  | @loaded o w old ho ha hold =>
    by_cases hw : w = workflow
    · subst hw
      obtain ⟨rfl, -⟩ := hs.access ha
      exact ⟨_, (lookup_entered ..).trans (if_pos rfl), .inr rfl⟩
    · obtain ⟨entry, he, shut⟩ := hs
      exact ⟨entry, (lookup_entered ..).trans ((if_neg hw).trans he), shut⟩

/-- No other owner is given the workflow. -/
theorem Performed.claims_of_shut (hp : m.Performed s c n) (hs : m.index.Shut owner workflow)
    (hc : c.Claims other workflow) : other = owner := by
  cases hp with
  | created name => exact hc.elim
  | deleted ho => exact hc.elim
  | saved ho ha =>
    obtain ⟨rfl, rfl, -⟩ := hc
    exact (hs.access ha).1
  | loaded ho ha hw =>
    obtain ⟨rfl, rfl⟩ := hc
    exact (hs.access ha).1

/-- Only the making of an owner tells of a new owner. -/
theorem createOwner_of_ownerCreated (h : m.perform s c = (.ok (.ownerCreated owner), n)) :
    (∃ name, c = .createOwner name) ∧ owner = ⟨s.fresh⟩ := by
  cases c with
  | createOwner name =>
    cases h
    exact ⟨⟨name, rfl⟩, rfl⟩
  | deleteOwner o =>
    rw [perform] at h
    cases hd : m.index.deleteOwner o <;> simp [hd] at h
  | save o w data complete unlock =>
    rw [perform] at h
    cases hs : m.index.save o w data.metadata complete unlock <;> simp [hs] at h
  | load o w =>
    rw [perform] at h
    cases hl : m.index.load o w with
    | error error => simp [hl] at h
    | ok loaded => cases hb : m.payloads[w]? <;> simp [hl, hb] at h

/-- A new owner is registered. -/
theorem Performed.registers (hp : m.Performed s c n)
    (told : m.perform s c = (.ok (.ownerCreated owner), n)) :
    n.index.owners.contains owner = true := by
  obtain ⟨⟨name, rfl⟩, rfl⟩ := createOwner_of_ownerCreated told
  cases hp
  exact Std.ExtTreeMap.contains_insert_self

/-- What is saved is in the index. -/
theorem Performed.lists {data : InstanceData} {unlock : Bool}
    (hp : m.Performed s (.save owner workflow data complete unlock) n) :
    n.index.Lists workflow data.metadata complete := by
  cases hp with
  | saved _ _ => exact ⟨_, (lookup_entered ..).trans (if_pos rfl), rfl, rfl⟩

/-- An owner stays registered until it is removed. -/
theorem Performed.keeps_owner (hp : m.Performed s c n) (ho : m.index.owners.contains owner = true)
    (hc : c ≠ .deleteOwner owner) : n.index.owners.contains owner = true := by
  cases hp with
  | created name =>
    dsimp only [StoreIndex.createOwner]
    rw [Std.ExtTreeMap.contains_insert, ho, Bool.or_true]
  | @deleted o _ =>
    have apart : compare o owner ≠ .eq := fun he =>
      hc (congrArg Command.deleteOwner (Std.LawfulEqOrd.eq_of_compare he))
    dsimp only
    rw [Std.ExtTreeMap.contains_erase, ho, Bool.and_true]
    exact bne_iff_ne.mpr apart
  | saved _ _ => exact ho
  | loaded _ _ _ => exact ho

/-- What was saved of a workflow stays in the index until it is saved again. -/
theorem Performed.keeps_listed (hp : m.Performed s c n)
    (hl : m.index.Lists workflow metadata complete) (hc : ¬ c.Saves workflow) :
    n.index.Lists workflow metadata complete := by
  obtain ⟨entry, he, hm, hcomplete⟩ := hl
  cases hp with
  | created name => exact ⟨entry, he, hm, hcomplete⟩
  | @deleted o _ =>
    refine ⟨released o entry, ?_, (StoreIndex.metadata_released o entry).trans hm,
      complete_released.trans hcomplete⟩
    dsimp only
    rw [Std.ExtTreeMap.getElem?_map, he, Option.map_some]
  | @saved _ w _ _ _ _ _ =>
    exact ⟨entry, (lookup_entered ..).trans ((if_neg hc).trans he), hm, hcomplete⟩
  | @loaded o w old _ _ hold =>
    by_cases hw : w = workflow
    · subst hw
      cases hold.symm.trans he
      exact ⟨_, (lookup_entered ..).trans (if_pos rfl), hm, hcomplete⟩
    · exact ⟨entry, (lookup_entered ..).trans ((if_neg hw).trans he), hm, hcomplete⟩

/-- The octets of a workflow stay there. -/
theorem Performed.keeps_payload (hp : m.Performed s c n)
    (hb : ∃ bytes, m.payloads[workflow]? = some bytes) :
    ∃ bytes, n.payloads[workflow]? = some bytes := by
  cases hp with
  | @saved _ w data _ _ _ _ =>
    by_cases hw : w = workflow
    · exact ⟨_, (Table.lookup_insert ..).trans (if_pos hw)⟩
    · obtain ⟨bytes, hb⟩ := hb
      exact ⟨bytes, (Table.lookup_insert ..).trans ((if_neg hw).trans hb)⟩
  | _ => exact hb

end MemoryStore

/-! ### What answered commands make of an index -/

/-- What a command that succeeds makes of an index. -/
def StoreIndex.Becomes (x : StoreIndex) (s : Surroundings) (c : Command) (outcome : CommandOutcome)
    (y : StoreIndex) : Prop :=
  ∃ m n : MemoryStore, m.Sound ∧ m.index = x ∧ n.index = y ∧ m.perform s c = (.ok outcome, n)

/-- What commands make of an index, one after another. Those that fail leave it. -/
inductive Enacted : StoreIndex → List StoreReply → StoreIndex → Prop
  | nil (x : StoreIndex) : Enacted x [] x
  | failed {x y : StoreIndex} {replies : List StoreReply} {s : Surroundings} {c : Command}
      {error : StoreError} (h : Enacted x replies y) : Enacted x (⟨s, c, .error error⟩ :: replies) y
  | done {x y z : StoreIndex} {replies : List StoreReply} {s : Surroundings} {c : Command}
      {outcome : CommandOutcome} (he : x.Becomes s c outcome y) (h : Enacted y replies z) :
      Enacted x (⟨s, c, .ok outcome⟩ :: replies) z

/-- The command succeeded. -/
def StoreReply.Succeeds (r : StoreReply) : Prop :=
  r.answer.isOk = true

theorem StoreIndex.Becomes.performed {x y : StoreIndex} {s : Surroundings} {c : Command}
    {outcome : CommandOutcome} (h : x.Becomes s c outcome y) :
    ∃ m n : MemoryStore, m.index = x ∧ n.index = y ∧ m.Performed s c n ∧
      m.perform s c = (.ok outcome, n) := by
  obtain ⟨m, n, sound, rfl, rfl, hp⟩ := h
  rcases sound.perform s c with ⟨error, he⟩ | ⟨_, -, performed⟩
  · cases hp.symm.trans he
  · rw [hp] at performed
    exact ⟨m, n, rfl, rfl, performed, hp⟩

namespace Enacted

variable {x y z : StoreIndex} {replies rest : List StoreReply} {r : StoreReply} {n : Nat}

theorem append (h : Enacted x replies y) (h' : Enacted y rest z) : Enacted x (replies ++ rest) z := by
  induction h with
  | nil => exact h'
  | failed _ ih => exact .failed (ih h')
  | done he _ ih => exact .done he (ih h')

theorem split (h : Enacted x (replies ++ rest) z) :
    ∃ y, Enacted x replies y ∧ Enacted y rest z := by
  induction replies generalizing x with
  | nil => exact ⟨x, .nil x, h⟩
  | cons r replies ih =>
    cases h with
    | failed h =>
      obtain ⟨y, hy, hz⟩ := ih h
      exact ⟨y, .failed hy, hz⟩
    | done he h =>
      obtain ⟨y, hy, hz⟩ := ih h
      exact ⟨y, .done he hy, hz⟩

/-- A command that succeeded, and what was made of the index before and after it. -/
theorem at_reply (h : Enacted x replies z) (hr : replies[n]? = some r) (hok : r.Succeeds) :
    ∃ (m m' : MemoryStore), Enacted x (replies.take n) m.index ∧
      m.Performed r.surroundings r.command m' ∧ m.perform r.surroundings r.command = (r.answer, m') ∧
      Enacted m'.index (replies.drop (n + 1)) z := by
  obtain ⟨hn, rfl⟩ := List.getElem?_eq_some_iff.mp hr
  rw [← List.take_append_drop n replies, List.drop_eq_getElem_cons hn] at h
  obtain ⟨y, before, behind⟩ := h.split
  generalize replies[n] = r at behind hok
  cases behind with
  | failed _ => exact absurd hok Bool.false_ne_true
  | done he after =>
    obtain ⟨m, m', rfl, rfl, performed, hp⟩ := he.performed
    exact ⟨m, m', before, performed, hp, after⟩

/-- What every command that succeeds keeps is kept by all of them. -/
theorem keeps {P : StoreIndex → Prop} (h : Enacted x replies y) (hx : P x)
    (step : ∀ (m m' : MemoryStore) (r : StoreReply), r ∈ replies → r.Succeeds →
      m.Performed r.surroundings r.command m' → P m.index → P m'.index) : P y := by
  induction h with
  | nil => exact hx
  | failed _ ih => exact ih hx fun m m' r hr => step m m' r (List.mem_cons_of_mem _ hr)
  | done he _ ih =>
    obtain ⟨m, m', rfl, rfl, performed, -⟩ := he.performed
    exact ih (step m m' _ List.mem_cons_self rfl performed hx) fun m m' r hr =>
      step m m' r (List.mem_cons_of_mem _ hr)

end Enacted

/-- No two owners are given a workflow without the first one giving it up in between. -/
def Exclusive (replies : List StoreReply) : Prop :=
  ∀ (i j : Nat) (a b : StoreReply) (owner other : OwnerId) (workflow : WorkflowId), i < j →
    replies[i]? = some a → replies[j]? = some b → a.Succeeds → b.Succeeds →
    a.command.Claims owner workflow → b.command.Claims other workflow → owner ≠ other →
    ∃ n r, i < n ∧ n < j ∧ replies[n]? = some r ∧ r.Succeeds ∧ r.command.Releases owner workflow

/-- Every owner that was registered is in an index unless it was removed later, and so is what was saved
last of every workflow. -/
structure Remembered (replies : List StoreReply) (x : StoreIndex) : Prop where
  owner : ∀ (i : Nat) (a : StoreReply) (owner : OwnerId), replies[i]? = some a →
    a.answer = .ok (.ownerCreated owner) →
    (∀ r ∈ replies.drop (i + 1), r.Succeeds → r.command ≠ .deleteOwner owner) →
    x.owners.contains owner = true
  saved : ∀ (i : Nat) (a : StoreReply) (owner : OwnerId) (workflow : WorkflowId) (data : InstanceData)
    (complete unlock : Bool), replies[i]? = some a → a.Succeeds →
    a.command = .save owner workflow data complete unlock →
    (∀ r ∈ replies.drop (i + 1), r.Succeeds → ¬ r.command.Saves workflow) →
    x.Lists workflow data.metadata complete

namespace Enacted

variable {x y : StoreIndex} {replies : List StoreReply}

/-- Commands that take effect one after another keep locks exclusive. -/
theorem exclusive (h : Enacted x replies y) : Exclusive replies := by
  intro i j a b owner other workflow hij hi hj ha hb ca cb different
  by_contra hn
  obtain ⟨m, m', -, performed, -, rest⟩ := h.at_reply hi ha
  have hj' : (replies.drop (i + 1))[j - (i + 1)]? = some b := by
    rw [List.getElem?_drop, Nat.add_sub_cancel' hij]
    exact hj
  obtain ⟨p, p', between, performed', -, -⟩ := rest.at_reply hj' hb
  -- The workflow stays closed to all but the first owner.
  have shut : p.index.Shut owner workflow := by
    refine between.keeps (P := fun x => x.Shut owner workflow) (performed.shuts ca)
      fun q q' r hr ok done closed => done.keeps_shut closed fun releases => hn ?_
    obtain ⟨n, hlt, rfl⟩ := List.mem_take_iff_getElem.mp hr
    rw [List.length_drop] at hlt
    refine ⟨i + 1 + n, _, by omega, by omega, ?_, ok, releases⟩
    rw [List.getElem_drop]
    exact List.getElem?_eq_getElem (by omega)
  exact different (performed'.claims_of_shut shut cb).symm

/-- They keep what was registered and saved. -/
theorem remembered (h : Enacted x replies y) : Remembered replies y where
  owner i a owner hi ha hr := by
    have ok : a.Succeeds := by rw [StoreReply.Succeeds, ha]; rfl
    obtain ⟨m, m', -, performed, answered, rest⟩ := h.at_reply hi ok
    rw [ha] at answered
    exact rest.keeps (P := fun x => x.owners.contains owner = true) (performed.registers answered)
      fun q q' r hm ok done registered => done.keeps_owner registered (hr r hm ok)
  saved i a owner workflow data complete unlock hi ok hc hr := by
    obtain ⟨m, m', -, performed, -, rest⟩ := h.at_reply hi ok
    rw [hc] at performed
    exact rest.keeps (P := fun x => x.Lists workflow data.metadata complete) performed.lists
      fun q q' r hm ok done listed => done.keeps_listed listed (hr r hm ok)

end Enacted

/-! ### Handles that do not get in each other's way -/

/-- What a command brings is such that a machine can hold it. -/
def Move.Fits {H : Type} : Move H → Prop
  | .send _ s c => s.now.Fits ∧ c.Fits
  | .go _ => True

/-- How far a handle has got goes with the octets that are there, if the index that it read was one of
a store and so is the one that it is about to write. -/
def Stage.Sound (payloads : Std.ExtTreeMap WorkflowId Bytes) : Stage → Prop
  | .free => True
  | .taken s c => s.now.Fits ∧ c.Fits
  | .read s c x => s.now.Fits ∧ c.Fits ∧ x.Fits ∧ (MemoryStore.mk x payloads []).Sound
  | .performed s c x outcome y =>
    y.Fits ∧ (MemoryStore.mk y payloads []).Sound ∧ x.Becomes s c outcome y

/-- The octets of the same workflows are there, and maybe of others. -/
def Grows (payloads payloads' : Std.ExtTreeMap WorkflowId Bytes) : Prop :=
  ∀ workflow : WorkflowId, (∃ bytes, payloads[workflow]? = some bytes) →
    ∃ bytes, payloads'[workflow]? = some bytes

theorem MemoryStore.Sound.grows {m : MemoryStore} (h : m.Sound)
    {payloads : Std.ExtTreeMap WorkflowId Bytes} (grows : Grows m.payloads payloads)
    (failures : List StoreError) : (MemoryStore.mk m.index payloads failures).Sound :=
  ⟨h.held, h.unlocked, fun workflow entry hw => grows workflow (h.backed workflow entry hw)⟩

theorem Stage.Sound.grows {stage : Stage} {payloads payloads' : Std.ExtTreeMap WorkflowId Bytes}
    (h : stage.Sound payloads) (grows : Grows payloads payloads') : stage.Sound payloads' := by
  cases stage with
  | free => trivial
  | taken s c => exact h
  | read s c x => exact ⟨h.1, h.2.1, h.2.2.1, h.2.2.2.grows grows []⟩
  | performed s c x outcome y => exact ⟨h.1, h.2.1.grows grows [], h.2.2⟩

/-- The store that is opened on a root and then takes these acts. -/
def FileStore.started (l : Layout) (d : Disk) (acts : List StoreAct) : FileStore :=
  ((FileStore.mk l d).actAll (.reopen :: acts)).2

namespace FileStore.Mirrors

variable {l : Layout} {d : Disk} {m : MemoryStore} {stage : Stage}

/-- A store that is opened on a root that holds nothing, after some commands. -/
theorem started (empty : l.IsEmptyOn d) (calm : d.faults = [])
    (reach : ∀ workflow, Disk.isAskable (l.snapshotFile workflow) = true) {acts : List StoreAct}
    (fits : ∀ a ∈ acts, a.Fits) :
    (FileStore.started l d acts).Mirrors (({} : MemoryStore).actAll acts).2 :=
  ((act_opening empty calm reach).2.actAll fits).2

theorem heeds_iff (h : (FileStore.mk l d).Mirrors m) :
    stage.Heeds (.files l) d ↔ stage.Heeds .memory m := by
  cases stage with
  | performed s c x outcome y =>
    dsimp only [Stage.Heeds, Medium.files]
    rw [h.readIndex_run]
    rfl
  | _ => exact Iff.rfl

/-- One step of a command is alike in files and in memory. If no index is replaced but the one that was
read, the step does what an answered command does, or nothing. -/
theorem advance (h : (FileStore.mk l d).Mirrors m) (hs : stage.Sound m.payloads) :
    ∃ next reply d' m', stage.advance (.files l) d = (next, reply, d') ∧
      stage.advance .memory m = (next, reply, m') ∧ (FileStore.mk l d').Mirrors m' ∧
      Grows m.payloads m'.payloads ∧ next.Sound m'.payloads ∧
      (stage.Heeds .memory m → Enacted m.index reply.toList m'.index) := by
  have still : Grows m.payloads m.payloads := fun _ hb => hb
  cases stage with
  | free => exact ⟨_, _, d, m, rfl, rfl, h, still, trivial, fun _ => .nil _⟩
  | taken s c =>
    refine ⟨_, _, d, m, ?_, rfl, h, still, ⟨hs.1, hs.2, h.fits, h.sound.grows still []⟩,
      fun _ => .nil _⟩
    rw [Stage.advance, Medium.files, h.readIndex_run]
  | read s c x =>
    obtain ⟨now, brought, fits, sound⟩ := hs
    obtain ⟨r, index, kept, written⟩ := h.kept
    rcases perform_like (m := ⟨x, m.payloads, []⟩) kept sound s c with
      ⟨error, failed, same⟩ | ⟨outcome, n, d', performed, same, kept'⟩
    · have failed' : (Medium.memory.perform s x c).run m = (.error error, m) := by
        rw [Medium.memory, ExceptT.run_mk, same]
      refine ⟨.free, some ⟨s, c, .error error⟩, d, m, ?_, ?_, h, still, trivial,
        fun _ => .failed (.nil _)⟩
      · rw [Stage.advance, Medium.files, failed]
      · rw [Stage.advance, failed']
    · have done : (MemoryStore.mk x m.payloads []).Performed s c n := by
        rcases sound.perform s c with ⟨error, he⟩ | ⟨_, -, done⟩
        · cases same.symm.trans he
        · rwa [same] at done
      have performed' : (Medium.memory.perform s x c).run m =
          (.ok (outcome, n.index), { m with payloads := n.payloads }) := by
        rw [Medium.memory, ExceptT.run_mk, same]
      -- The octets of a save are written ahead of the index.
      have grows : Grows m.payloads n.payloads := fun workflow => done.keeps_payload
      have sound' := (sound.of_performed done).grows (fun _ hb => hb) []
      refine ⟨.performed s c x outcome n.index, none, d', { m with payloads := n.payloads }, ?_, ?_,
        ⟨⟨r, index, kept', written⟩, h.fits, h.sound.grows grows _, h.unfailing⟩, grows,
        ⟨done.fits fits now brought, sound', _, n, sound, rfl, rfl, same⟩, fun _ => .nil _⟩
      · rw [Stage.advance, Medium.files, performed]
      · rw [Stage.advance, performed']
  | performed s c x outcome y =>
    obtain ⟨fits, sound, enacts⟩ := hs
    obtain ⟨r, index, kept, -⟩ := h.kept
    obtain ⟨d', indexed, kept'⟩ := kept.writeIndex y
    refine ⟨_, _, d', _, ?_, rfl, ⟨⟨r, _, kept', .inl rfl⟩, fits, sound.grows still _, h.unfailing⟩,
      still, trivial, ?_⟩
    · rw [Stage.advance, Medium.files, storage_ok indexed]
    · intro heeds
      cases heeds
      exact .done enacts (.nil _)

end FileStore.Mirrors

namespace Shared

variable {H : Type} [DecidableEq H] {l : Layout} {w : Shared Disk H} {v : Shared MemoryStore H}

/-- Handles on files have got as far as handles on a store in memory, and the files are those of the
store. -/
structure Mirrors (l : Layout) (w : Shared Disk H) (v : Shared MemoryStore H) : Prop where
  files : (FileStore.mk l w.state).Mirrors v.state
  stage : w.stage = v.stage
  replies : w.replies = v.replies
  sound : ∀ h, (v.stage h).Sound v.state.payloads

omit [DecidableEq H] in
theorem Mirrors.readIndex_eq (h : w.Mirrors l v) :
    ((FileStore.readIndex l).run w.state).1 = .ok v.state.index :=
  congrArg Prod.fst h.files.readIndex_run

theorem sound_setStage {payloads : Std.ExtTreeMap WorkflowId Bytes}
    (h : ∀ k, (v.stage k).Sound payloads) (k : H) {stage : Stage} (hs : stage.Sound payloads)
    (k' : H) : (v.setStage k stage k').Sound payloads := by
  by_cases hk : k' = k
  · rw [hk, setStage_self]
    exact hs
  · rw [setStage_of_ne v hk]
    exact h k'

omit [DecidableEq H] in
theorem Mirrors.heeds_iff (h : w.Mirrors l v) {move : Move H} :
    w.Heeds (.files l) move ↔ v.Heeds .memory move := by
  cases move with
  | send => exact Iff.rfl
  | go k =>
    rw [Heeds, h.stage]
    exact h.files.heeds_iff

theorem Mirrors.after (h : w.Mirrors l v) {move : Move H} (fits : move.Fits) :
    (w.after (.files l) move).Mirrors l (v.after .memory move) ∧
      ∃ replies, (v.after .memory move).replies = v.replies ++ replies ∧
        (v.Heeds .memory move →
          Enacted v.state.index replies (v.after .memory move).state.index) := by
  obtain ⟨files, stage, answered, sound⟩ := h
  obtain ⟨d, stages, replies⟩ := w
  subst stage answered
  cases move with
  | send k s c =>
    simp only [Shared.after]
    cases v.stage k with
    | free =>
      exact ⟨⟨files, rfl, rfl, sound_setStage sound k fits⟩, [], (List.append_nil _).symm,
        fun _ => .nil _⟩
    | _ => exact ⟨⟨files, rfl, rfl, sound⟩, [], (List.append_nil _).symm, fun _ => .nil _⟩
  | go k =>
    obtain ⟨next, reply, d', m', inFiles, inMemory, files', grows, next_sound, enacted⟩ :=
      files.advance (sound k)
    simp only [Shared.after]
    rw [inFiles, inMemory]
    have others : ∀ k', (v.stage k').Sound m'.payloads := fun k' => (sound k').grows grows
    exact ⟨⟨files', rfl, rfl, sound_setStage others k next_sound⟩, _, rfl, enacted⟩

theorem Mirrors.afterAll (h : w.Mirrors l v) {moves : List (Move H)}
    (fits : ∀ move ∈ moves, move.Fits) :
    (w.afterAll (.files l) moves).Mirrors l (v.afterAll .memory moves) ∧
      (w.Timely (.files l) moves ↔ v.Timely .memory moves) ∧
      ∃ replies, (v.afterAll .memory moves).replies = v.replies ++ replies ∧
        (v.Timely .memory moves →
          Enacted v.state.index replies (v.afterAll .memory moves).state.index) := by
  induction moves generalizing w v with
  | nil => exact ⟨h, Iff.rfl, [], (List.append_nil _).symm, fun _ => .nil _⟩
  | cons move rest ih =>
    obtain ⟨h', first, answered, enacted⟩ := h.after (fits move List.mem_cons_self)
    obtain ⟨h'', timely, later, answered', enacted'⟩ :=
      ih h' fun x hx => fits x (List.mem_cons_of_mem _ hx)
    refine ⟨h'', and_congr h.heeds_iff timely, first ++ later, ?_, fun timely =>
      (enacted timely.1).append (enacted' timely.2)⟩
    rw [Shared.afterAll, answered', answered, List.append_assoc]

omit [DecidableEq H] in
theorem mirrors_opened {f : FileStore} {m : MemoryStore} (h : f.Mirrors m) :
    (opened f.disk : Shared Disk H).Mirrors f.layout (opened m) :=
  ⟨h, rfl, rfl, fun _ => trivial⟩

/-- **Handles on one root keep locks exclusive unless they overtake each other.** The steps of their
commands interleave in any way, but no handle replaces an index that another one has replaced since it
was read. Then the commands that succeed make of the index what they would make of it one after another:
no two owners are given a workflow without the first one giving it up in between, and no owner that was
made and no save is lost. -/
theorem exclusive_of_timely {f : FileStore} {m : MemoryStore} (h : f.Mirrors m)
    {moves : List (Move H)} (fits : ∀ move ∈ moves, move.Fits)
    (timely : (opened f.disk : Shared Disk H).Timely (.files f.layout) moves) :
    ∃ x, ((FileStore.readIndex f.layout).run
        ((opened f.disk).afterAll (.files f.layout) moves).state).1 = .ok x ∧
      Enacted m.index ((opened f.disk).afterAll (.files f.layout) moves).replies x ∧
      Exclusive ((opened f.disk).afterAll (.files f.layout) moves).replies ∧
      Remembered ((opened f.disk).afterAll (.files f.layout) moves).replies x := by
  obtain ⟨mirrors, timely_iff, replies, answered, enacted⟩ := (mirrors_opened h).afterAll fits
  refine ⟨_, mirrors.readIndex_eq, ?_⟩
  rw [mirrors.replies, answered, opened, List.nil_append]
  have done := enacted (timely_iff.mp timely)
  exact ⟨done, done.exclusive, done.remembered⟩

/-! ### Handles that take turns, and handles that overtake each other -/

open FileStore (moment moment_fits pending pending_fits)

/-- Two owners share a store, with a workflow that neither has locked. -/
def founding : List StoreAct :=
  [.command (moment 0 1) (.createOwner "a"), .command (moment 1 2) (.createOwner "b"),
    .command (moment 2 0) (.save ⟨.ofNat 1⟩ ⟨.ofNat 3⟩ pending false true)]

/-- The store in files. -/
def founded : FileStore :=
  ((FileStore.mk ⟨["store"]⟩ {}).actAll (.reopen :: founding)).2

/-- The store in memory. -/
def foundedMemory : MemoryStore :=
  (({} : MemoryStore).actAll founding).2

theorem mirrors_founded : founded.Mirrors foundedMemory := by
  have empty : (Layout.mk ["store"]).IsEmptyOn {} :=
    ⟨_, ["store"], rfl, rfl, by decide +kernel, by decide +kernel⟩
  have reach : ∀ workflow, Disk.isAskable ((Layout.mk ["store"]).snapshotFile workflow) = true :=
    Layout.isAskable_snapshotFile (by decide +kernel) (by decide +kernel)
  have fits : ∀ a ∈ founding, a.Fits := by
    simp only [founding, List.forall_mem_cons, List.not_mem_nil, false_imp_iff, implies_true,
      and_true]
    exact ⟨⟨moment_fits .., trivial⟩, ⟨moment_fits .., trivial⟩, moment_fits .., pending_fits⟩
  -- Against a projection the kernel would run the store, so `founded` is not unfolded here.
  exact FileStore.Mirrors.started empty rfl reach fits

/-- The first owner, with a handle of its own, locks the workflow and gives it up. In the meantime the
second one is refused, and then it gets the workflow. -/
def turns : List (Move Bool) :=
  undivided false (moment 3 0) (.load ⟨.ofNat 1⟩ ⟨.ofNat 3⟩) ++
    [.send true (moment 4 0) (.load ⟨.ofNat 2⟩ ⟨.ofNat 3⟩),
      .send false (moment 4 0) (.save ⟨.ofNat 1⟩ ⟨.ofNat 3⟩ pending false true),
      .go true, .go false, .go true, .go false, .go false] ++
    undivided true (moment 5 0) (.load ⟨.ofNat 2⟩ ⟨.ofNat 3⟩)

theorem exclusive_of_timely_turns :
    founded.Mirrors foundedMemory ∧ (∀ move ∈ turns, move.Fits) ∧
      (opened founded.disk).Timely (.files founded.layout) turns ∧
      Exclusive ((opened founded.disk).afterAll (.files founded.layout) turns).replies := by
  have fits : ∀ move ∈ turns, move.Fits := by
    simp only [turns, undivided, List.cons_append, List.nil_append, List.forall_mem_cons,
      List.not_mem_nil, false_imp_iff, implies_true, and_true, Move.Fits, Command.Fits,
      moment_fits, pending_fits]
  have timely := ((mirrors_opened mirrors_founded).afterAll fits).2.1.mpr (by decide +kernel)
  obtain ⟨-, -, -, exclusive, -⟩ := exclusive_of_timely mirrors_founded fits timely
  exact ⟨mirrors_founded, fits, timely, exclusive⟩

/-- Both owners load the workflow, and then both make an owner. Every time both handles read the index
before either replaces it. -/
def races : List (Move Bool) :=
  [.send false (moment 3 0) (.load ⟨.ofNat 1⟩ ⟨.ofNat 3⟩),
    .send true (moment 3 0) (.load ⟨.ofNat 2⟩ ⟨.ofNat 3⟩),
    .go false, .go true, .go false, .go true, .go false, .go true,
    .send false (moment 4 4) (.createOwner "c"), .send true (moment 4 5) (.createOwner "d"),
    .go false, .go true, .go false, .go true, .go false, .go true]

/-- **Handles that overtake each other break locks.** Both owners are given the workflow, and the owner
that is made first is lost. -/
theorem not_exclusive_races :
    (∀ move ∈ races, move.Fits) ∧
      ¬ Exclusive ((opened founded.disk).afterAll (.files founded.layout) races).replies ∧
      ∃ x, ((FileStore.readIndex founded.layout).run
          ((opened founded.disk).afterAll (.files founded.layout) races).state).1 = .ok x ∧
        ¬ Remembered ((opened founded.disk).afterAll (.files founded.layout) races).replies x := by
  have fits : ∀ move ∈ races, move.Fits := by
    simp only [races, List.forall_mem_cons, List.not_mem_nil, false_imp_iff, implies_true, and_true,
      Move.Fits, Command.Fits, moment_fits]
  have mirrors := ((mirrors_opened mirrors_founded).afterAll fits).1
  have answers : ((opened foundedMemory).afterAll .memory races).replies =
      [⟨moment 3 0, .load ⟨.ofNat 1⟩ ⟨.ofNat 3⟩, .ok (.loaded pending)⟩,
        ⟨moment 3 0, .load ⟨.ofNat 2⟩ ⟨.ofNat 3⟩, .ok (.loaded pending)⟩,
        ⟨moment 4 4, .createOwner "c", .ok (.ownerCreated ⟨.ofNat 4⟩)⟩,
        ⟨moment 4 5, .createOwner "d", .ok (.ownerCreated ⟨.ofNat 5⟩)⟩] := by decide +kernel
  have lost : ((opened foundedMemory).afterAll .memory races).state.index.owners.contains
      ⟨.ofNat 4⟩ = false := by decide +kernel
  rw [mirrors.replies, answers]
  refine ⟨fits, fun h => ?_, _, mirrors.readIndex_eq, fun h => ?_⟩
  · -- Nothing is between the two loads.
    obtain ⟨n, r, low, high, -⟩ := h 0 1 _ _ ⟨.ofNat 1⟩ ⟨.ofNat 2⟩ ⟨.ofNat 3⟩ Nat.zero_lt_one rfl
      rfl rfl rfl ⟨rfl, rfl⟩ ⟨rfl, rfl⟩ (by decide)
    omega
  · have kept := h.owner 2 _ ⟨.ofNat 4⟩ rfl rfl (by simp)
    exact Bool.false_ne_true (lost.symm.trans kept)

end Shared

end Workflow
