import Workflow.Proofs.Lifecycle
import Workflow.Proofs.Recast

/-!
# Restored executors

What is restored from the image of an executor has the same instances, bookmarks and scopes. So it
waits or has completed as the captured one did.
-/

namespace Workflow

open Executor

variable {e r : Executor} {d d' : Definition} {s : Snapshot} {u : InstanceTable} {now : Timestamp}
variable {mailbox : Nat}

/-- A table that has the instances of an executor as they come back in a definition. -/
structure Returned (e : Executor) (d : Definition) (u : InstanceTable) : Prop where
  /-- What is there comes from the executor. -/
  back : ∀ {k : InstanceId} {j : Instance}, u[k]? = some j →
    ∃ i, e.instances[k]? = some i ∧ i.recast e.definition d = .ok j
  /-- Everything of the executor is there. -/
  forth : ∀ {k : InstanceId} {i : Instance}, e.instances[k]? = some i →
    ∃ j, u[k]? = some j ∧ i.recast e.definition d = .ok j
  /-- Children run declared children in the definition. -/
  declared : ∀ {k p : InstanceId} {i q : Instance}, u[k]? = some i → i.parent = some p →
    u[p]? = some q → d.isDeclaredChild q.node i.node = true

section Instances

variable (ht : IsTree e.definition e.root e.nextInstance e.instances) (hc : e.capture now = .ok s)
include ht hc

/-- The records of a snapshot are those of the instances, and they list the children in order. -/
theorem Snapshot.records_of_capture : (s.instances.map (·.id)).Nodup ∧
    (∀ rec ∈ s.instances, ∃ i, e.instances[rec.id]? = some i ∧ rec = i.record e.definition) ∧
    (∀ {k : InstanceId} {i : Instance}, e.instances[k]? = some i →
      i.record e.definition ∈ s.instances ∧ InstanceTable.childrenIn s.instances k = i.children) := by
  obtain ⟨-, l, hl, -, rfl⟩ := of_capture hc
  refine ⟨?_, ?_, ?_⟩
  · rw [List.map_map]
    exact (perm_listDown ht hl).nodup_iff.mpr (Table.nodup_keys _)
  · intro rec hr
    obtain ⟨i, hi, rfl⟩ := List.mem_map.mp hr
    exact ⟨i, lookup_of_mem_listDown ht.forest hl hi, rfl⟩
  · intro k i hi
    have hk : k ∈ l.map (·.id) :=
      (perm_listDown ht hl).mem_iff.mpr ((Table.mem_keys_iff _).mpr ⟨i, hi⟩)
    obtain ⟨a, ha, rfl⟩ := List.mem_map.mp hk
    cases hi.symm.trans (lookup_of_mem_listDown ht.forest hl ha)
    refine ⟨List.mem_map_of_mem ha, ?_⟩
    rw [InstanceTable.childrenIn, List.filter_map, List.map_map]
    exact filter_listDown ht hl ha

/-- What the records add to an empty table: every instance as it comes back, without children. -/
theorem Snapshot.lookup_added {t : InstanceTable}
    (ha : s.instances.foldlM (InstanceTable.addRecord d s.nextInstance) ∅ = .ok t)
    (k : InstanceId) (j : Instance) : t[k]? = some j ↔ ∃ i j', e.instances[k]? = some i ∧
      i.recast e.definition d = .ok j' ∧ j = { j' with children := [] } := by
  obtain ⟨-, known, listed⟩ := Snapshot.records_of_capture ht hc
  rw [InstanceTable.of_addRecords ha]
  constructor
  · rintro (hk | ⟨rec, hr, rfl, hj⟩)
    · simp at hk
    · obtain ⟨i, hi, rfl⟩ := known rec hr
      rw [Instance.restore_record] at hj
      cases hi' : i.recast e.definition d with
      | error _ =>
        rw [hi'] at hj
        cases hj
      | ok j' =>
        rw [hi'] at hj
        cases hj
        exact ⟨i, j', hi, hi', rfl⟩
  · rintro ⟨i, j', hi, hj, rfl⟩
    refine .inr ⟨_, (listed hi).1, ht.keyed hi, ?_⟩
    rw [Instance.restore_record, hj]
    rfl

/-- An instance gets the children back that it had. -/
theorem Snapshot.children_back {k : InstanceId} {i j : Instance} (hi : e.instances[k]? = some i)
    (hj : i.recast e.definition d = .ok j) : { { j with children := [] } with
      children := [] ++ InstanceTable.childrenIn s.instances k } = j := by
  obtain ⟨-, -, listed⟩ := Snapshot.records_of_capture ht hc
  obtain ⟨node, fault, -, -, rfl⟩ := Instance.of_recast hj
  rw [(listed hi).2]
  rfl

/-- What the records lead to. -/
theorem Returned.of_restoreInstances (h : s.restoreInstances d = .ok u) : Returned e d u := by
  obtain ⟨-, -, listed⟩ := Snapshot.records_of_capture ht hc
  unfold Snapshot.restoreInstances at h
  cases ha : s.instances.foldlM (InstanceTable.addRecord d s.nextInstance) ∅ with
  | error _ =>
    rw [ha] at h
    cases h
  | ok t =>
    rw [ha] at h
    obtain ⟨hu, hd⟩ := InstanceTable.of_linkRecords h
    have added := Snapshot.lookup_added ht hc ha
    constructor
    · intro k j hj
      rw [hu, Option.map_eq_some_iff] at hj
      obtain ⟨j₀, hj₀, rfl⟩ := hj
      obtain ⟨i, j', hi, hj', rfl⟩ := (added k j₀).mp hj₀
      refine ⟨i, hi, ?_⟩
      rw [hj']
      exact congrArg Except.ok (Snapshot.children_back ht hc hi hj').symm
    · intro k i hi
      obtain ⟨j₀, hj₀⟩ := InstanceTable.restored_of_addRecords ha (listed hi).1
      rw [Instance.restore_record] at hj₀
      cases hj : i.recast e.definition d with
      | error _ =>
        rw [hj] at hj₀
        cases hj₀
      | ok j =>
        refine ⟨j, ?_, rfl⟩
        rw [hu, (added k _).mpr ⟨i, j, hi, hj, rfl⟩, Option.map_some]
        exact congrArg some (Snapshot.children_back ht hc hi hj)
    · intro k p i q hi hp hq
      rw [hu, Option.map_eq_some_iff] at hi hq
      obtain ⟨i₀, hi₀, rfl⟩ := hi
      obtain ⟨q₀, hq₀, rfl⟩ := hq
      obtain ⟨i', j', hi', hj', rfl⟩ := (added k i₀).mp hi₀
      have hp' : i'.parent = some p := by
        obtain ⟨node, fault, -, -, rfl⟩ := Instance.of_recast hj'
        exact hp
      obtain ⟨c, q', hc', hq', hd'⟩ := hd _ (listed hi').1 p hp'
      have hc' : t[i'.id]? = some c := hc'
      rw [ht.keyed hi', hi₀] at hc'
      cases hc'
      cases hq₀.symm.trans hq'
      exact hd'

/-- The records lead to instances if every instance comes back and runs a declared child then. -/
theorem exists_restoreInstances
    (back : ∀ {k : InstanceId} {i : Instance}, e.instances[k]? = some i →
      ∃ j, i.recast e.definition d = .ok j)
    (declared : ∀ {k p : InstanceId} {i q j o : Instance}, e.instances[k]? = some i →
      i.parent = some p → e.instances[p]? = some q → i.recast e.definition d = .ok j →
      q.recast e.definition d = .ok o → d.isDeclaredChild o.node j.node = true) :
    ∃ u, s.restoreInstances d = .ok u := by
  obtain ⟨hd, known, listed⟩ := Snapshot.records_of_capture ht hc
  have hn : s.nextInstance = e.nextInstance := by
    obtain ⟨-, l, -, -, rfl⟩ := of_capture hc
    rfl
  have leads : ∀ {k : InstanceId} {i : Instance}, e.instances[k]? = some i → ∃ j,
      i.recast e.definition d = .ok j ∧
        (i.record e.definition).restore d = .ok { j with children := [] } := by
    intro k i hi
    obtain ⟨j, hj⟩ := back hi
    exact ⟨j, hj, by rw [Instance.restore_record, hj]; rfl⟩
  obtain ⟨t, ha⟩ : ∃ t, s.instances.foldlM (InstanceTable.addRecord d s.nextInstance) ∅ = .ok t :=
    InstanceTable.exists_addRecords hd fun rec hr => by
      obtain ⟨i, hi, rfl⟩ := known rec hr
      obtain ⟨j, -, hj⟩ := leads hi
      exact ⟨hn ▸ ht.below hi, by simp, _, hj⟩
  obtain ⟨u, hu⟩ : ∃ u, s.instances.foldlM (InstanceTable.linkRecord d) t = .ok u :=
    InstanceTable.exists_linkRecords fun rec hr p hp => by
      obtain ⟨i, hi, rfl⟩ := known rec hr
      obtain ⟨q, hq, -⟩ := ht.listed hi hp
      obtain ⟨j, hj, hjr⟩ := leads hi
      obtain ⟨o, ho, hor⟩ := leads hq
      refine ⟨_, _, (InstanceTable.of_addRecords ha _ _).mpr (.inr ⟨_, hr, rfl, hjr⟩),
        (InstanceTable.of_addRecords ha _ _).mpr (.inr ⟨_, (listed hq).1, ht.keyed hq, hor⟩), ?_⟩
      exact declared (j := j) (o := o) hi hp hq hj ho
  refine ⟨u, ?_⟩
  unfold Snapshot.restoreInstances
  rw [ha]
  exact hu

end Instances

namespace Returned

/-- What is there differs in its node and its fault at most from what it comes from. -/
theorem cases (h : Returned e d u) {k : InstanceId} {j : Instance} (hj : u[k]? = some j) :
    ∃ i node fault, e.instances[k]? = some i ∧ i.recast e.definition d = .ok j ∧
      j = { i with node, fault } := by
  obtain ⟨i, hi, hij⟩ := h.back hj
  obtain ⟨node, fault, -, -, rfl⟩ := Instance.of_recast hij
  exact ⟨i, node, fault, hi, hij, rfl⟩

/-- What was in the executor differs in its node and its fault at most. -/
theorem exists_of_lookup (h : Returned e d u) {k : InstanceId} {i : Instance}
    (hi : e.instances[k]? = some i) : ∃ node fault, u[k]? = some { i with node, fault } := by
  obtain ⟨j, hj, hij⟩ := h.forth hi
  obtain ⟨node, fault, -, -, rfl⟩ := Instance.of_recast hij
  exact ⟨node, fault, hj⟩

/-- What comes back of an executor's tree is a tree. -/
theorem tree (h : Returned e d u) (hw : d.Runnable)
    (ht : IsTree e.definition e.root e.nextInstance e.instances)
    (hr : ∀ {j : Instance}, u[e.root]? = some j → j.node = .root) :
    IsTree d e.root e.nextInstance u := by
  refine ⟨hw, ?_, ?_, ?_, ?_, ?_, ?_, ?_, ?_, h.declared⟩
  · intro k j hj
    obtain ⟨i, node, fault, hi, -, rfl⟩ := h.cases hj
    exact (ht.keyed hi : i.id = k)
  · intro k j hj
    obtain ⟨i, -, -, hi, -⟩ := h.cases hj
    exact ht.below hi
  · intro k j hj
    obtain ⟨i, -, -, hi, hij, -⟩ := h.cases hj
    exact (ht.sound hi).recast hw.wellFormed hij
  · obtain ⟨r, hr₀, hp, -⟩ := ht.rooted
    obtain ⟨node, fault, hj⟩ := h.exists_of_lookup hr₀
    exact ⟨_, hj, hp, hr hj⟩
  · intro k j hj hp
    obtain ⟨i, node, fault, hi, -, rfl⟩ := h.cases hj
    exact ht.orphan hi hp
  · intro k p j hj hp
    obtain ⟨i, node, fault, hi, -, rfl⟩ := h.cases hj
    obtain ⟨q, hq, hk⟩ := ht.listed hi hp
    obtain ⟨node, fault, hq⟩ := h.exists_of_lookup hq
    exact ⟨_, hq, hk⟩
  · intro p c q hq hc
    obtain ⟨o, node, fault, ho, -, rfl⟩ := h.cases hq
    obtain ⟨i, hi, hp⟩ := ht.linked ho hc
    obtain ⟨node, fault, hi⟩ := h.exists_of_lookup hi
    exact ⟨_, hi, hp⟩
  · intro k p j hj hp
    obtain ⟨i, node, fault, hi, -, rfl⟩ := h.cases hj
    exact ht.older hi hp

end Returned

namespace Registry

variable {g g' : Registry}

/-- A recorded scope is added if its owner is there. -/
theorem restoreScope_eq_ok {rec : ScopeRecord} : restoreScope u g rec = .ok g' ↔
    ∃ o, u[rec.owner]? = some o ∧ g' = g.addScope rec.id o.id := by
  unfold restoreScope InstanceTable.resolve
  cases ho : u[rec.owner]? with
  | none => exact ⟨fun h => (by cases h), fun ⟨_, h, _⟩ => (by cases h)⟩
  | some o =>
    constructor
    · intro h
      cases h
      exact ⟨o, rfl, rfl⟩
    · rintro ⟨o', ho', rfl⟩
      cases ho'
      rfl

/-- A recorded bookmark is added if its owner is live and its scope exists, unless it is there. -/
theorem restoreBookmark_eq_ok {rec : Registration} (hn : g.registrations[rec.bookmark]? = none) :
    restoreBookmark u g rec = .ok g' ↔
      (∃ o, u[rec.owner]? = some o ∧ o.state.isLive = true) ∧
        g.scopeExists rec.bookmark.scope = true ∧
        g' = { g with registrations := g.registrations.insert rec.bookmark rec } := by
  have hr : g.resolve? rec.bookmark = none := hn
  unfold restoreBookmark InstanceTable.resolve
  cases ho : u[rec.owner]? with
  | none => exact ⟨fun h => (by cases h), fun ⟨⟨_, h, _⟩, _⟩ => (by cases h)⟩
  | some o =>
    simp only [bind, Except.bind, pure, Except.pure, Option.some.injEq, exists_eq_left']
    cases hl : o.state.isLive with
    | false =>
      simp only [Bool.not_false, if_true]
      exact ⟨fun h => (by cases h), fun ⟨h, _⟩ => absurd h Bool.false_ne_true⟩
    | true =>
      simp only [Bool.not_true, Bool.false_eq_true, if_false, register]
      cases hs : g.scopeExists rec.bookmark.scope with
      | false =>
        simp only [Bool.false_eq_true, if_false]
        exact ⟨fun h => (by cases h), fun ⟨_, h, _⟩ => h.elim⟩
      | true =>
        simp only [if_true, hr, true_and]
        exact ⟨fun h => (Except.ok.inj h).symm, fun h => congrArg Except.ok h.symm⟩

/-- Recorded scopes are added if their owners are there. -/
theorem restoreScopes_eq_ok {recs : List ScopeRecord}
    (hk : ∀ {k : InstanceId} {i : Instance}, u[k]? = some i → i.id = k) :
    recs.foldlM (restoreScope u) g = .ok g' ↔
      (∀ rec ∈ recs, ∃ o, u[rec.owner]? = some o) ∧
        g' = { g with scopes := recs.foldl (fun t rec => t.insert rec.id rec.owner) g.scopes } := by
  induction recs generalizing g with
  | nil => exact ⟨fun h => ⟨fun _ hr => absurd hr List.not_mem_nil, (Except.ok.inj h).symm⟩,
      fun h => congrArg Except.ok h.2.symm⟩
  | cons rec rest ih =>
    rw [InstanceTable.foldlM_cons_eq_ok, List.forall_mem_cons]
    constructor
    · rintro ⟨g₁, h₁, h⟩
      obtain ⟨o, ho, rfl⟩ := restoreScope_eq_ok.mp h₁
      obtain ⟨hr, rfl⟩ := ih.mp h
      rw [addScope, hk ho]
      exact ⟨⟨⟨o, ho⟩, hr⟩, rfl⟩
    · rintro ⟨⟨⟨o, ho⟩, hr⟩, rfl⟩
      refine ⟨_, restoreScope_eq_ok.mpr ⟨o, ho, rfl⟩, ih.mpr ⟨hr, ?_⟩⟩
      rw [addScope, hk ho]
      rfl

/-- Recorded bookmarks are added if their owners are live and their scopes exist. -/
theorem restoreBookmarks_eq_ok {recs : List Registration} (hd : (recs.map (·.bookmark)).Nodup)
    (hn : ∀ rec ∈ recs, g.registrations[rec.bookmark]? = none) :
    recs.foldlM (restoreBookmark u) g = .ok g' ↔
      (∀ rec ∈ recs, (∃ o, u[rec.owner]? = some o ∧ o.state.isLive = true) ∧
        g.scopeExists rec.bookmark.scope = true) ∧
      g' = { g with
        registrations := recs.foldl (fun t rec => t.insert rec.bookmark rec) g.registrations } := by
  induction recs generalizing g with
  | nil => exact ⟨fun h => ⟨fun _ hr => absurd hr List.not_mem_nil, (Except.ok.inj h).symm⟩,
      fun h => congrArg Except.ok h.2.symm⟩
  | cons rec rest ih =>
    obtain ⟨hr₀, hd⟩ := List.nodup_cons.mp hd
    obtain ⟨hn₀, hn⟩ := List.forall_mem_cons.mp hn
    have later : ∀ a ∈ rest, (g.registrations.insert rec.bookmark rec)[a.bookmark]? = none := by
      intro a ha
      have hk : rec.bookmark ≠ a.bookmark := fun hk => hr₀ (List.mem_map.mpr ⟨a, ha, hk.symm⟩)
      rw [Table.lookup_insert, if_neg hk, hn a ha]
    rw [InstanceTable.foldlM_cons_eq_ok, List.forall_mem_cons]
    constructor
    · rintro ⟨g₁, h₁, h⟩
      obtain ⟨ho, hs, rfl⟩ := (restoreBookmark_eq_ok hn₀).mp h₁
      obtain ⟨hr, rfl⟩ := (ih hd later).mp h
      exact ⟨⟨⟨ho, hs⟩, hr⟩, rfl⟩
    · rintro ⟨⟨⟨ho, hs⟩, hr⟩, rfl⟩
      exact ⟨_, (restoreBookmark_eq_ok hn₀).mpr ⟨ho, hs, rfl⟩, (ih hd later).mpr ⟨hr, rfl⟩⟩

end Registry

/-- The listed registrations stand under their bookmarks. -/
theorem Executor.Owned.map_toList (h : e.Owned) :
    (e.bookmarks.toList.map fun g => (g.bookmark, g)) = e.bookmarks.registrations.toList := by
  rw [Registry.toList, Table.values_eq_map, List.map_map]
  refine (List.map_congr_left fun b hb => ?_).trans (List.map_id _)
  have hg := e.bookmarks.registrations.mem_toList_iff_getElem?_eq_some.mp hb
  exact Prod.ext (h.filed hg) rfl

/-- The bookmarks and scopes of a snapshot come back as they were if every bookmark is in a scope
that exists, and otherwise not at all. -/
theorem Snapshot.restoreRegistry_eq_ok (hc : e.capture now = .ok s) (ho : e.Owned)
    (hu : Returned e d u)
    (hk : ∀ {k : InstanceId} {i : Instance}, u[k]? = some i → i.id = k) {g : Registry} :
    s.restoreRegistry u = .ok g ↔
      (∀ rec ∈ s.bookmarks, e.bookmarks.scopeExists rec.bookmark.scope = true) ∧
        g = e.bookmarks := by
  obtain ⟨-, l, -, -, rfl⟩ := of_capture hc
  have live : ∀ {k : InstanceId}, e.isLive k = true →
      ∃ o, u[k]? = some o ∧ o.state.isLive = true := by
    intro k hl
    obtain ⟨i, hi, hil⟩ := isLive_iff.mp hl
    obtain ⟨node, fault, hj⟩ := hu.exists_of_lookup hi
    exact ⟨_, hj, hil⟩
  have scopes : ∀ recs : List ScopeRecord,
      recs = e.bookmarks.scopes.toList.map (fun p => ⟨p.1, p.2⟩) →
        recs.foldlM (Registry.restoreScope u) {} = .ok { scopes := e.bookmarks.scopes } := by
    intro recs hrecs
    refine (Registry.restoreScopes_eq_ok hk).mpr ⟨fun rec hr => ?_, ?_⟩
    · rw [hrecs] at hr
      obtain ⟨⟨id, o⟩, hm, rfl⟩ := List.mem_map.mp hr
      obtain ⟨o, ho, -⟩ := live (ho.scope
        (e.bookmarks.scopes.mem_toList_iff_getElem?_eq_some.mp hm))
      exact ⟨o, ho⟩
    · rw [hrecs, List.foldl_map]
      exact congrArg (Registry.mk ∅) (Table.foldl_insert_toList e.bookmarks.scopes).symm
  have hlist := ho.map_toList
  have hd : (e.bookmarks.toList.map (·.bookmark)).Nodup := by
    have hm := congrArg (List.map Prod.fst) hlist
    rw [List.map_map, Std.ExtTreeMap.map_fst_toList_eq_keys] at hm
    refine Eq.mpr (congrArg List.Nodup ?_) (Table.nodup_keys e.bookmarks.registrations)
    exact hm
  have hfold : e.bookmarks.toList.foldl (fun t g => t.insert g.bookmark g) ∅ =
      e.bookmarks.registrations := by
    rw [← Table.foldl_insert_toList e.bookmarks.registrations, ← hlist, List.foldl_map]
  unfold restoreRegistry
  rw [scopes _ rfl]
  refine (Registry.restoreBookmarks_eq_ok hd fun _ _ => by simp).trans ?_
  rw [hfold]
  refine and_congr_left fun _ => ⟨fun h rec hr => (h rec hr).2, fun h rec hr => ⟨?_, h rec hr⟩⟩
  obtain ⟨⟨b, g⟩, hm, rfl⟩ : ∃ p ∈ e.bookmarks.registrations.toList, p.2 = rec := by
    rw [← hlist]
    exact ⟨_, List.mem_map_of_mem hr, rfl⟩
  exact live (ho.bookmark (e.bookmarks.registrations.mem_toList_iff_getElem?_eq_some.mp hm))

/-- When the executor of a snapshot can be made and what it is. -/
theorem Snapshot.restoreExecutor_eq_ok : s.restoreExecutor d mailbox = .ok r ↔
    s.ensureRestorable d = .ok () ∧ ∃ u root g, s.restoreInstances d = .ok u ∧
      u[s.root]? = some root ∧ root.parent = none ∧ root.node = .root ∧
      s.restoreRegistry u = .ok g ∧
      r = {
        workflow := s.workflow, definition := d, instances := u, mailbox, bookmarks := g
        nextInstance := s.nextInstance
        nextOperation := s.nextOperation
        root := root.id
        state := s.state } := by
  unfold restoreExecutor InstanceTable.resolve
  constructor
  · intro h
    cases he : s.ensureRestorable d with
    | error _ =>
      rw [he] at h
      cases h
    | ok =>
      cases hu : s.restoreInstances d with
      | error _ =>
        rw [he, hu] at h
        cases h
      | ok u =>
        cases hr : u[s.root]? with
        | none =>
          simp only [he, hu, bind, Except.bind, hr] at h
          cases h
        | some root =>
          simp only [he, hu, bind, Except.bind, pure, Except.pure, hr] at h
          split at h
          · cases h
          · next hroot =>
            rw [not_or, Bool.not_eq_true, Option.isSome_eq_false_iff, Option.isNone_iff_eq_none,
              not_not] at hroot
            cases hg : s.restoreRegistry u with
            | error _ =>
              rw [hg] at h
              cases h
            | ok g =>
              rw [hg] at h
              exact ⟨rfl, u, root, g, rfl, hr, hroot.1, hroot.2, hg, (Except.ok.inj h).symm⟩
  · rintro ⟨he, u, root, g, hu, hr, hp, hn, hg, rfl⟩
    simp only [he, hu, bind, Except.bind, pure, Except.pure, hr, hp, hn, hg, Option.isSome_none,
      Bool.false_eq_true, ne_eq, not_true_eq_false, or_self, if_false]

/-- When a snapshot can be restored and what is restored. -/
theorem Snapshot.restore_eq_ok : s.restore d mailbox = .ok r ↔
    d.ensureValid = .ok () ∧ ∃ r₀, s.restoreExecutor d mailbox = .ok r₀ ∧
      r = { if r₀.state.isCompleted then r₀.finishWorkflow else r₀ with
        announcement := some .loaded } := by
  unfold restore
  cases d.ensureValid with
  | error _ => exact ⟨fun h => (by cases h), fun ⟨h, _⟩ => (by cases h)⟩
  | ok =>
    cases s.restoreExecutor d mailbox with
    | error _ => exact ⟨fun h => (by cases h), fun ⟨_, _, h, _⟩ => (by cases h)⟩
    | ok r₀ =>
      simp only [bind, Except.bind, pure, Except.pure, true_and, Except.ok.injEq, exists_eq_left']
      exact eq_comm

namespace Executor

/-- A workflow that can be captured waits or has completed, and no operation is outstanding. -/
theorem Regular.of_capture (h : e.Regular) (hc : e.capture now = .ok s) :
    (e.Resting ∨ e.Finished) ∧ e.queue.work = [] ∧ e.operations = ∅ := by
  have hok := (Executor.of_capture hc).1
  unfold ensureCapturable at hok
  split at hok
  · cases hok
  · next ha =>
    split at hok
    · cases hok
    · next hq =>
      split at hok
      · cases hok
      · next hs =>
        split at hok
        · cases hok
        · next ho =>
          refine ⟨?_, ?_, ?_⟩
          · cases h with
            | working h => exact absurd h.running hs
            | resting h => exact .inl h
            | finished h => exact .inr h
            | aborted h => exact absurd h.state ha
          · exact WorkQueue.isEmpty_iff.mp (by simpa using hq)
          · exact Std.ExtTreeMap.eq_empty_iff_size_eq_zero.mpr (not_not.mp ho)

/-- An executor as it comes back with a table of instances. -/
def returned (e : Executor) (d : Definition) (u : InstanceTable) (mailbox : Nat) : Executor where
  workflow := e.workflow
  definition := d
  instances := u
  nextInstance := e.nextInstance
  root := e.root
  bookmarks := e.bookmarks
  nextOperation := e.nextOperation
  state := e.state
  mailbox := mailbox

/-- The instances that can be captured form a tree. -/
theorem Regular.tree_of_capture (h : e.Regular) (hc : e.capture now = .ok s) :
    IsTree e.definition e.root e.nextInstance e.instances := by
  rcases (h.of_capture hc).1 with h | h
  · exact h.consistent.placed.tree
  · exact h.tree

/-- What a captured executor comes back as. -/
theorem Regular.of_restore (h : e.Regular) (hc : e.capture now = .ok s)
    (hr : s.restore d mailbox = .ok r) :
    ∃ u, Returned e d u ∧ (∀ {j : Instance}, u[e.root]? = some j → j.node = .root) ∧
      r = { if e.state.isCompleted then (e.returned d u mailbox).finishWorkflow
        else e.returned d u mailbox with announcement := some .loaded } := by
  have ht := h.tree_of_capture hc
  obtain ⟨-, r₀, hr₀, rfl⟩ := Snapshot.restore_eq_ok.mp hr
  obtain ⟨-, u, root, g, hu, hroot, -, hn, hg, rfl⟩ := Snapshot.restoreExecutor_eq_ok.mp hr₀
  have hret := Returned.of_restoreInstances ht hc hu
  have keyed : ∀ {k : InstanceId} {j : Instance}, u[k]? = some j → j.id = k := by
    intro k j hj
    obtain ⟨i, node, fault, hi, -, rfl⟩ := hret.cases hj
    exact (ht.keyed hi : i.id = k)
  obtain ⟨-, rfl⟩ := (Snapshot.restoreRegistry_eq_ok hc h.owned hret keyed).mp hg
  obtain ⟨-, l, -, -, rfl⟩ := Executor.of_capture hc
  refine ⟨u, hret, fun hj => ?_, ?_⟩
  · cases hroot.symm.trans hj
    exact hn
  · rw [keyed hroot]
    rfl

end Executor

/-- What comes back of a workflow that waits goes on as it did. -/
theorem Returned.consistent (h : Returned e d u) (hw : d.Runnable)
    (hroot : ∀ {j : Instance}, u[e.root]? = some j → j.node = .root) (hr : e.Resting)
    (ho : e.operations = ∅) :
    Consistent { e.returned d u mailbox with state := .runnable } Nobody := by
  obtain ⟨p, o, a, b, -, -, -⟩ := hr.consistent
  have hwork : e.queue.work = [] := hr.work
  have live : ∀ k, e.isLive k = true → (e.returned d u mailbox).isLive k = true := by
    intro k hl
    obtain ⟨i, hi, hil⟩ := isLive_iff.mp hl
    obtain ⟨node, fault, hj⟩ := h.exists_of_lookup hi
    exact isLive_iff.mpr ⟨_, hj, hil⟩
  have idle : ∀ {w : WorkItem}, w ∉ WorkQueue.empty.work := fun hm => absurd hm List.not_mem_nil
  refine ⟨⟨h.tree hw p.tree hroot, live _ p.rootLive, fun hm => (idle hm).elim,
    fun hm => (idle hm).elim, fun hm => (idle hm).elim, ?_, fun _ _ _ hX => hX.elim, ?_, ?_⟩, ?_, ?_,
    ?_, rfl, rfl, rfl⟩
  · intro k q j hj ht hp _
    obtain ⟨i, node, fault, hi, -, rfl⟩ := h.cases hj
    have ht : i.state.isTerminal = true := ht
    rw [ActivityState.not_terminal_of_isLive (hr.live_executed hi).1] at ht
    exact absurd ht Bool.false_ne_true
  · intro k j hj hl _ hx
    obtain ⟨i, node, fault, hi, -, rfl⟩ := h.cases hj
    exact p.waiting (i := i) hi hl id hx
  · intro k j hj hl _ hx
    obtain ⟨i, node, fault, hi, -, rfl⟩ := h.cases hj
    have hx : i.executed = false := hx
    rw [(hr.live_executed hi).2] at hx
    exact absurd hx.symm Bool.false_ne_true
  · refine ⟨o.filed, fun hg => live _ (o.bookmark hg), fun hs => live _ (o.scope hs), fun hk => ?_,
      fun hk => ?_⟩
    · exact absurd hk (by simp [returned])
    · exact absurd hk (by simp [returned])
  · refine ⟨fun hg hj hl _ => ?_, fun hm => (idle hm).elim⟩
    obtain ⟨i, node, fault, hi, -, rfl⟩ := h.cases hj
    exact (hr.live_executed hi).2
  · intro k j hj hl
    obtain ⟨i, node, fault, hi, -, rfl⟩ := h.cases hj
    have hb : i.busy = i.children.length + e.dues k := b k i hi hl
    rw [dues, ho, WorkQueue.releasing, hwork] at hb
    exact hb

/-- What comes back of a workflow is regular. -/
theorem Executor.Regular.restore (h : e.Regular) (hc : e.capture now = .ok s) (hw : d.WellFormed)
    (hr : s.restore d mailbox = .ok r) : r.Regular := by
  have hw : d.Runnable := ⟨hw, (Snapshot.restore_eq_ok.mp hr).1⟩
  obtain ⟨u, hu, hroot, rfl⟩ := h.of_restore hc hr
  have hs : ∀ e : Executor, SameCore e { e with announcement := some .loaded } := fun _ =>
    {}
  obtain ⟨hrf, hwork, ho⟩ := h.of_capture hc
  refine (hs _).regular ?_
  rcases hrf with hr | hf
  · have hn : e.state.isCompleted = false := by
      rw [hr.state]
      rfl
    rw [hn, if_neg Bool.false_ne_true]
    exact .resting ⟨hr.state, rfl, hu.consistent hw hroot hr ho⟩
  · rw [hf.isCompleted, if_pos rfl]
    obtain ⟨i, hi, -⟩ := hf.tree.rooted
    obtain ⟨node, fault, hj⟩ := hu.exists_of_lookup hi
    have ended : i.state.isTerminal = true := hf.ended hi
    exact .finished <| Concluded.toFinished <|
      finishWorkflow_concluded (hu.tree hw hf.tree hroot) hj ended hf.bookmarks rfl

end Workflow
