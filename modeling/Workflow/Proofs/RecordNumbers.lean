import Workflow.Proofs.Conduct
import Workflow.Proofs.PatientRun

/-!
# The numbers of records

An application hands its receivers to every executor that it has in memory, and each executor numbers
its records from the number at which the receivers were installed. What a participant has kept over the
life of the application is a row of consecutive numbers for each executor: as long as no workflow is
loaded the numbers increase, and after a load they begin anew.
-/

namespace Workflow

theorem map_number_numbered (w : WorkflowId) (n : Nat) (xs : List TrackingEvent) :
    (numbered w n xs).map (·.number) = List.range' n xs.length := by
  induction xs generalizing n with
  | nil => rfl
  | cons x xs ih => exact congrArg (n :: ·) (ih (n + 1))

/-- The numbers of the records that a participant has kept, in the order in which they came. -/
def Participant.numbers (p : Participant) : List Nat :=
  p.kept.reverse.map (·.number)

/-- A participant that keeps records has kept a row of numbers more. -/
theorem Participant.numbers_receiveAll {p : Participant} (hp : p.reaction = .keep) (w : WorkflowId)
    (n : Nat) (xs : List TrackingEvent) :
    (p.receiveAll (numbered w n xs)).reaction = .keep ∧
      (p.receiveAll (numbered w n xs)).numbers = p.numbers ++ List.range' n xs.length := by
  have received := Participant.receiveAll_keep hp (numbered w n xs)
  refine ⟨received ▸ hp, ?_⟩
  rw [received, numbers, List.reverse_append, List.reverse_reverse, List.map_append,
    map_number_numbered]
  rfl

/-- The numbers of the records that the n-th participant of an application has kept. -/
def Application.numbers (a : Application) (n : Nat) : List Nat :=
  ((a.participants[n]?).map Participant.numbers).getD []

namespace HostOperation

open Executor

variable {e : Executor}

theorem tells_of_effect {e' : Executor} (h : Effect e e') : ∃ xs, e.Tells xs e' := by
  cases h with
  | quiet h =>
    obtain ⟨xs, told, -⟩ := h.tells
    exact ⟨xs, told⟩
  | ends h hf =>
    obtain ⟨xs, told, -⟩ := h.tells
    obtain ⟨x, -, ended⟩ := hf.tells
    exact ⟨_, told.trans ended⟩

/-- An operation that leaves the receivers as they are only reports to them. -/
theorem tells (e : Executor) {op : HostOperation} (hl : op.leavesRecords = true) :
    ∃ xs, e.Tells xs (op.after e) := by
  have mum : ∀ {m : Executor}, Mum e m → ∃ xs, e.Tells xs m :=
    fun h => tells_of_effect (.of_mum h)
  have moved : ∀ {m : Executor}, (∃ xs, Moves False e xs m) → ∃ xs, e.Tells xs m :=
    fun ⟨xs, hm⟩ => ⟨xs, hm.tells⟩
  cases op with
  | call c =>
    cases c with
    | run limit => exact moved (e.run_moves limit)
    | runOneStep => exact moved e.runOneStep_moves
    | resumeBookmark b v q => exact mum (.resumeBookmark e b v q)
    | cancel =>
      obtain ⟨⟨xs, announced⟩, -⟩ := e.announce_moves (p := False)
      obtain ⟨ys, canceled⟩ := tells_of_effect (Effect.cancelInstance e.announce e.root)
      change ∃ xs, e.Tells xs e.cancelWorkflow.2
      unfold cancelWorkflow
      split
      · exact ⟨[], rfl, rfl⟩
      · split
        · exact ⟨[], rfl, rfl⟩
        · exact ⟨_, announced.tells.trans canceled⟩
    | terminate reason =>
      change ∃ xs, e.Tells xs (e.terminate reason).2
      unfold Executor.terminate
      split
      · exact ⟨[], rfl, rfl⟩
      · exact tells_of_effect (Effect.faultInstance e e.root _)
    | abort reason => exact moved (abort_moves reason False.elim)
    | complete o result => exact mum (.completeHandle e _ result)
    | drainInbox => exact mum (.drainInbox e)
    | track _ => exact absurd hl Bool.false_ne_true
    | withTracking _ => exact absurd hl Bool.false_ne_true
    | _ => exact ⟨[], rfl, rfl⟩
  | capture now => exact ⟨[], rfl, rfl⟩
  | save store s owner unlock => exact moved (save_moves store s owner unlock False.elim)

theorem afterAll_tells (e : Executor) (ops : List HostOperation)
    (hl : ∀ op ∈ ops, op.leavesRecords = true) : ∃ xs, e.Tells xs (afterAll e ops) := by
  induction ops generalizing e with
  | nil => exact ⟨[], rfl, rfl⟩
  | cons op rest ih =>
    obtain ⟨xs, first⟩ := tells e (hl op List.mem_cons_self)
    obtain ⟨ys, others⟩ := ih (op.after e) fun op hop => hl op (List.mem_cons_of_mem _ hop)
    exact ⟨_, first.trans others⟩

end HostOperation

namespace Host

open HostOperation (afterAll)

variable {h h' : Host} {n base current : Nat} {past : List Nat}

/-- Rows of consecutive numbers, all from the same number on, by their lengths. -/
def rows (base : Nat) (lengths : List Nat) : List Nat :=
  lengths.flatMap (List.range' base)

theorem rows_grow (base : Nat) (past : List Nat) (current more : Nat) :
    rows base (past ++ [current + more]) =
      rows base (past ++ [current]) ++ List.range' (base + current) more := by
  simp only [rows, List.flatMap_append, List.flatMap_singleton, List.append_assoc,
    ← List.range'_append_1]

theorem rows_begin (base : Nat) (lengths : List Nat) : rows base (lengths ++ [0]) = rows base lengths := by
  simp [rows]

/-- What the n-th participant has kept so far: a row for each executor that has left, and one for the
executor in memory or the one that was there last. -/
structure Tally (n base : Nat) (past : List Nat) (current : Nat) (h : Host) : Prop where
  enabled : h.application.tracking.enabled = true
  begins : h.application.tracking.nextRecord = base
  keeps : ∃ p, h.application.participants[n]? = some p ∧ p.reaction = .keep ∧
    p.numbers = rows base (past ++ [current])
  loaded : ∀ e, h.application.executor = some e →
    e.tracking.enabled = true ∧ e.tracking.nextRecord = base + current

theorem Tally.numbers (ht : Tally n base past current h) :
    h.application.numbers n = rows base (past ++ [current]) := by
  obtain ⟨p, hp, -, hk⟩ := ht.keeps
  rw [Application.numbers, hp]
  exact hk

/-- The executor in memory goes on with its row. -/
theorem Tally.keep {e e' : Executor} {xs : List TrackingEvent} (ht : Tally n base past current h)
    (he : h.application.executor = some e) (told : (h.ready e).Tells xs e') :
    Tally n base past (current + xs.length) (h.keep e') := by
  obtain ⟨enabled, next⟩ := ht.loaded e he
  obtain ⟨p, hp, hk, numbers⟩ := ht.keeps
  have listed : e.tracking.participants[n]? = some p := by
    rwa [Application.participants, he] at hp
  have active : e.tracking.isActive = true := by
    have some_one : e.tracking.participants ≠ [] := by
      intro hn
      rw [hn] at listed
      cases listed
    simp [TrackingProvider.isActive, enabled, some_one]
  have after : e'.tracking = _ :=
    told.tracking.trans (TrackingProvider.tell_of_active active (h.ready e).workflow xs)
  obtain ⟨keep, more⟩ := Participant.numbers_receiveAll hk (h.ready e).workflow
    e.tracking.nextRecord xs
  refine ⟨ht.enabled, ht.begins, ⟨_, ?_, keep, ?_⟩, fun i hi => ?_⟩
  · change e'.tracking.participants[n]? = _
    rw [after, List.getElem?_map, listed]
    rfl
  · rw [more, numbers, next, rows_grow]
  · cases hi
    change e'.tracking.enabled = true ∧ e'.tracking.nextRecord = base + (current + xs.length)
    rw [after]
    exact ⟨enabled, by simp only [next, Nat.add_assoc]⟩

/-- The participants keep what they have when the executor leaves. -/
theorem Tally.drop (ht : Tally n base past current h) :
    Tally n base past current (h.withApplication (·.dropExecutor)) :=
  ⟨ht.enabled, ht.begins, ht.keeps, fun _ he => nomatch he⟩

/-- An executor that comes begins a new row. -/
theorem Tally.adopt {e : Executor} (ht : Tally n base past current h)
    (he : h.application.executor = none) (ha : h'.application = h.application.adopt e) :
    Tally n base (past ++ [current]) 0 h' := by
  obtain ⟨p, hp, hk, numbers⟩ := ht.keeps
  have tracking : h'.application.tracking = h.application.tracking := congrArg (·.tracking) ha
  have given : ∀ i, h'.application.executor = some i → i.tracking = h.application.tracking := by
    intro i hi
    rw [ha] at hi
    cases hi
    rfl
  refine ⟨tracking ▸ ht.enabled, tracking ▸ ht.begins, ⟨p, ?_, hk, ?_⟩, fun i hi => ?_⟩
  · rw [Application.participants, he] at hp
    rw [ha]
    exact hp
  · rw [numbers, rows_begin]
  · rw [given i hi]
    exact ⟨ht.enabled, ht.begins⟩

/-- Over what happens to an application the participants go on in rows, with a new one at most for each
mailbox that is made. -/
def GoesOnInRows (n base : Nat) (h h' : Host) : Prop :=
  h.mailboxCount ≤ h'.mailboxCount ∧ ∀ past current, Tally n base past current h →
    ∃ past' current', Tally n base past' current' h' ∧
      past'.length + h.mailboxCount ≤ past.length + h'.mailboxCount

theorem lasting_rows (n base : Nat) : Lasting (GoesOnInRows n base) where
  trans := by
    rintro h m h' ⟨later, first⟩ ⟨later', second⟩
    refine ⟨later.trans later', fun past current ht => ?_⟩
    obtain ⟨past', current', ht', counted⟩ := first past current ht
    obtain ⟨past'', current'', ht'', counted'⟩ := second past' current' ht'
    exact ⟨past'', current'', ht'', by omega⟩
  aside := by
    intro h h' ha hm
    refine ⟨hm, fun past current ht => ⟨past, current, ?_, by omega⟩⟩
    obtain ⟨enabled, hbase, keeps, loaded⟩ := ht
    exact ⟨ha ▸ enabled, ha ▸ hbase, ha ▸ keeps, ha ▸ loaded⟩
  noted := by
    intro h
    refine ⟨Nat.le_refl _, fun past current ht => ⟨past, current, ?_, Nat.le_refl _⟩⟩
    exact ⟨ht.enabled, ht.begins, ht.keeps, ht.loaded⟩
  used := by
    intro h e ops he hl
    obtain ⟨xs, told⟩ := HostOperation.afterAll_tells (h.ready e) ops hl
    exact ⟨Nat.le_refl _, fun past current ht => ⟨past, _, ht.keep he told, Nat.le_refl _⟩⟩
  dropped := fun h => ⟨Nat.le_refl _, fun past current ht => ⟨past, current, ht.drop, Nat.le_refl _⟩⟩
  adopted := by
    intro h h' e he ha old new
    have hm : h.mailboxCount < h'.mailboxCount := old.trans_lt new
    refine ⟨hm.le, fun past current ht => ⟨_, 0, ht.adopt he ha, ?_⟩⟩
    rw [List.length_append, List.length_singleton]
    omega

/-- An application has the receivers, and so has its executor if there is one. -/
structure Installs (h : Host) (t : TrackingProvider) : Prop where
  application : h.application.tracking = t
  executor : ∀ e, h.application.executor = some e → e.tracking = t

theorem Installs.tally {t : TrackingProvider} (hi : h.Installs t) (ht : t.isActive = true)
    (hn : t.participants[n]? = some ⟨.keep, []⟩) : Tally n t.nextRecord [] 0 h := by
  have enabled : t.enabled = true := (Bool.and_eq_true_iff.mp ht).1
  have participants : h.application.participants = t.participants := by
    unfold Application.participants
    split
    · next e he => rw [hi.executor e he]
    · rw [hi.application]
  refine ⟨hi.application ▸ enabled, congrArg _ hi.application, ⟨_, participants ▸ hn, rfl, rfl⟩,
    fun e he => ?_⟩
  rw [hi.executor e he]
  exact ⟨enabled, rfl⟩

/-- Over the life of an application, whatever its host and its listeners call for, a participant that
keeps records has kept rows of consecutive numbers, all from the number on at which the receivers were
installed: one row for the executor that was there then, and at most one for each load. If nothing was
loaded the numbers increase. -/
theorem record_numbers_in_rows (hh : History h h') {t : TrackingProvider} (hi : h.Installs t)
    (ht : t.isActive = true) (hn : t.participants[n]? = some ⟨.keep, []⟩) :
    ∃ past current, h'.application.numbers n =
        (past ++ [current]).flatMap (List.range' t.nextRecord) ∧
      past.length ≤ h'.mailboxCount - h.mailboxCount ∧
      (∀ e, h'.application.executor = some e → e.tracking.nextRecord = t.nextRecord + current) ∧
      (h'.mailboxCount = h.mailboxCount → (h'.application.numbers n).Pairwise (· < ·)) := by
  obtain ⟨-, goesOn⟩ := (lasting_rows n t.nextRecord).history hh
  obtain ⟨past, current, tally, counted⟩ := goesOn [] 0 (hi.tally ht hn)
  rw [List.length_nil] at counted
  refine ⟨past, current, tally.numbers, by omega, fun e he => (tally.loaded e he).2, fun unloaded => ?_⟩
  have alone : past = [] := List.length_eq_zero_iff.mp (by omega)
  rw [tally.numbers, alone, rows, List.nil_append, List.flatMap_singleton]
  exact List.pairwise_lt_range'

/-- A host of a workflow that waits, with a participant that keeps every record. -/
def tracked : Host :=
  (waiting .keep).withApplication fun a =>
    { a with tracking := Executor.keeper, executor := some (saving.withTracking Executor.keeper) }

theorem tracked_installs : tracked.Installs Executor.keeper where
  application := rfl
  executor e he := by
    cases he
    rfl

/-- The workflow is unloaded and loaded again between two runs. -/
def interlude : List HostCall :=
  [.run, .unload, .reload, .run]

theorem kept_interlude :
    (interlude.foldl (fun h c => (h.perform unmoved c).2) tracked).application.numbers 0 =
        [0, 1, 2, 3, 4, 5, 6, 0, 1] ∧
      (interlude.foldl (fun h c => (h.perform unmoved c).2) tracked).mailboxCount -
        tracked.mailboxCount = 1 := by
  decide +kernel

/-- What the participant has kept then is two rows. -/
theorem record_numbers_interlude : ∃ past current,
    [0, 1, 2, 3, 4, 5, 6, 0, 1] = (past ++ [current]).flatMap (List.range' 0) ∧ past.length ≤ 1 := by
  have history : History tracked (interlude.foldl (fun h c => (h.perform unmoved c).2) tracked) :=
    .calls (fun _ m => .still m) tracked interlude
  obtain ⟨past, current, rows, loads, -⟩ :=
    record_numbers_in_rows history tracked_installs rfl (n := 0) rfl
  obtain ⟨numbers, mailboxes⟩ := kept_interlude
  exact ⟨past, current, numbers ▸ rows, mailboxes ▸ loads⟩

/-- After a load the numbers do not go on: the participant is told two records of the same number. -/
theorem not_record_numbers_increase : ¬ ∀ (h : Host) (t : TrackingProvider) (n : Nat)
    (calls : List HostCall), h.Installs t → t.isActive = true →
      t.participants[n]? = some ⟨.keep, []⟩ →
      ((calls.foldl (fun h c => (h.perform unmoved c).2) h).application.numbers n).Pairwise
        (· < ·) := by
  intro increase
  have claimed := increase tracked Executor.keeper 0 interlude tracked_installs rfl rfl
  rw [kept_interlude.1] at claimed
  exact absurd claimed (by decide)

end Host

end Workflow
