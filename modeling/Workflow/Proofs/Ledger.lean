import Workflow.Executor.Run
import Workflow.Proofs.Queue
import Workflow.Proofs.Table

/-!
# What an instance waits for

An instance waits for its children, for the blocking bookmarks that it owns, for its outstanding
operations, and for the queued resumptions that release it. The counts change one by one as
bookmarks, operations and items come and go.
-/

namespace Workflow

namespace Registry

/-- The number of blocking bookmarks that an instance owns. -/
def blocking (r : Registry) (owner : InstanceId) : Nat :=
  (r.ownedBy owner).countP (·.options.isBlocking)

theorem blocking_eq_count (r : Registry) (owner : InstanceId) :
    r.blocking owner = Table.count r.registrations fun g => g.options.isBlocking && g.owner == owner := by
  rw [blocking, ownedBy, List.countP_filter]
  rfl

/-- A new registration counts for its owner if it blocks. -/
theorem blocking_insert (r : Registry) {b : Bookmark} (g : Registration)
    (hb : r.registrations[b]? = none) (owner : InstanceId) :
    Registry.blocking { r with registrations := r.registrations.insert b g } owner =
      r.blocking owner + if g.options.isBlocking && g.owner == owner then 1 else 0 := by
  rw [blocking_eq_count, blocking_eq_count, Table.count_insert _ _ hb]

/-- A registration that is removed counts no longer. -/
theorem blocking_unregister (r : Registry) {b : Bookmark} {g : Registration}
    (hb : r.registrations[b]? = some g) (owner : InstanceId) :
    r.blocking owner =
      (r.unregister b).blocking owner + if g.options.isBlocking && g.owner == owner then 1 else 0 := by
  rw [blocking_eq_count, blocking_eq_count, Table.count_erase _ _ hb]
  rfl

/-- An owner whose registrations are removed owns none, and others own as many as before. -/
theorem blocking_removeOwned (r : Registry) (owner other : InstanceId) :
    (r.removeOwned owner).blocking other = if other = owner then 0 else r.blocking other := by
  rw [blocking_eq_count, blocking_eq_count, removeOwned]
  split
  · next h =>
    subst h
    refine (Table.count_eq_zero_iff _).mpr fun b g hg => ?_
    rw [Table.lookup_filter, Option.filter_eq_some_iff] at hg
    simpa using fun _ => by simpa using hg.2
  · next h =>
    refine Table.count_filter _ fun b g _ hg => ?_
    simp only [Bool.and_eq_true, beq_iff_eq] at hg
    simpa [hg.2] using h

/-- An instance that owns no registration waits for none. -/
theorem blocking_eq_zero {r : Registry} {owner : InstanceId}
    (h : ∀ (b : Bookmark) (g : Registration), r.registrations[b]? = some g → g.owner ≠ owner) :
    r.blocking owner = 0 := by
  rw [blocking_eq_count, Table.count_eq_zero_iff]
  intro b g hg
  simp [h b g hg]

/-- An instance that waits for a bookmark owns one. -/
theorem exists_of_blocking_ne_zero {r : Registry} {owner : InstanceId} (h : r.blocking owner ≠ 0) :
    ∃ (b : Bookmark) (g : Registration), r.registrations[b]? = some g ∧ g.owner = owner ∧
      g.options.isBlocking = true := by
  rw [blocking_eq_count] at h
  obtain ⟨b, g, hg, hp⟩ := Table.exists_of_count_ne_zero _ h
  simp only [Bool.and_eq_true, beq_iff_eq] at hp
  exact ⟨b, g, hg, hp.2, hp.1⟩

/-- A registration that is accepted repeats an old one, or it is new and in a scope that exists. -/
theorem register_ok {r r' : Registry} {g : Registration} {o : RegisterOutcome}
    (h : r.register g = .ok (o, r')) :
    (o = .alreadyRegistered ∧ r' = r) ∨
      (o = .registered ∧ r.scopeExists g.bookmark.scope = true ∧
        r.registrations[g.bookmark]? = none ∧
        r' = { r with registrations := r.registrations.insert g.bookmark g }) := by
  unfold register at h
  split at h
  · next hs =>
    cases hg : r.resolve? g.bookmark with
    | some old =>
      simp only [hg] at h
      split at h
      · obtain ⟨rfl, rfl⟩ := Prod.mk.inj (Except.ok.inj h)
        exact .inl ⟨rfl, rfl⟩
      · exact absurd h (by simp)
    | none =>
      simp only [hg] at h
      obtain ⟨rfl, rfl⟩ := Prod.mk.inj (Except.ok.inj h)
      exact .inr ⟨rfl, hs, hg, rfl⟩
  · exact absurd h (by simp)

end Registry

/-- The owners of outstanding operations. -/
abbrev OperationTable := Std.ExtTreeMap OperationId InstanceId

namespace OperationTable

variable (t : OperationTable)

/-- The number of outstanding operations of an instance. -/
def owed (owner : InstanceId) : Nat :=
  t.values.count owner

theorem owed_eq_count (owner : InstanceId) : owed t owner = Table.count t (· == owner) := rfl

/-- A new operation counts for its owner. -/
theorem owed_insert {o : OperationId} (k : InstanceId) (ho : t[o]? = none) (owner : InstanceId) :
    owed (t.insert o k) owner = owed t owner + if k = owner then 1 else 0 := by
  rw [owed_eq_count, owed_eq_count, Table.count_insert _ _ ho]
  simp only [beq_iff_eq]

/-- A completed operation counts no longer. -/
theorem owed_erase {o : OperationId} {k : InstanceId} (ho : t[o]? = some k) (owner : InstanceId) :
    owed t owner = owed (t.erase o) owner + if k = owner then 1 else 0 := by
  rw [owed_eq_count, owed_eq_count, Table.count_erase _ _ ho]
  simp only [beq_iff_eq]

/-- An owner whose operations are forgotten owns none, and others own as many as before. -/
theorem owed_filter (owner other : InstanceId) :
    owed (t.filter fun _ o => o != owner) other = if other = owner then 0 else owed t other := by
  rw [owed_eq_count, owed_eq_count]
  split
  · next h =>
    subst h
    refine (Table.count_eq_zero_iff _).mpr fun o k hk => ?_
    rw [Table.lookup_filter, Option.filter_eq_some_iff] at hk
    simpa using hk.2
  · next h =>
    refine Table.count_filter _ fun o k _ hk => ?_
    simp only [beq_iff_eq] at hk
    simpa [hk] using h

/-- An instance that owns no operation waits for none. -/
theorem owed_eq_zero {owner : InstanceId}
    (h : ∀ (o : OperationId) (k : InstanceId), t[o]? = some k → k ≠ owner) : owed t owner = 0 := by
  rw [owed_eq_count, Table.count_eq_zero_iff]
  intro o k hk
  simp [h o k hk]

/-- An instance that waits for an operation owns one. -/
theorem exists_of_owed_ne_zero {owner : InstanceId} (h : owed t owner ≠ 0) :
    ∃ o : OperationId, t[o]? = some owner := by
  rw [owed_eq_count] at h
  obtain ⟨o, k, hk, hp⟩ := Table.exists_of_count_ne_zero _ h
  rw [beq_iff_eq] at hp
  exact ⟨o, hp ▸ hk⟩

end OperationTable

namespace WorkQueue

/-- The number of queued resumptions that release an instance. -/
def releasing (q : WorkQueue) (owner : InstanceId) : Nat :=
  q.work.countP (·.releases owner)

theorem releasing_push (q : WorkQueue) (w : WorkItem) (p : Priority) (owner : InstanceId) :
    (q.push w p).releasing owner = q.releasing owner + if w.releases owner then 1 else 0 :=
  countP_work_push q w p _

end WorkQueue

namespace Executor

/-- How many bookmarks, operations and queued resumptions an instance waits for. -/
def dues (e : Executor) (id : InstanceId) : Nat :=
  e.bookmarks.blocking id + OperationTable.owed e.operations id + e.queue.releasing id

/-- Every live instance counts what it waits for: its children, the blocking bookmarks and the
operations that it owns, and the queued resumptions that release it. -/
def Balanced (e : Executor) : Prop :=
  ∀ (k : InstanceId) (i : Instance), e.instances[k]? = some i → i.state.isLive = true →
    i.busy = i.children.length + e.dues k

end Executor

end Workflow
