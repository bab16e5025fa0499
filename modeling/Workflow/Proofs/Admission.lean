import Workflow.Proofs.Finality
import Workflow.Proofs.Integrity

/-!
# What restoring admits

Restoring looks up the references of a snapshot. It does not count again, and it does not ask whether
the records belong to one workflow. So whatever the snapshot says, the links of what is restored lead
somewhere; that the instances make up one tree, that their counts are right and that the root agrees
with the workflow holds exactly if the records say so.
-/

namespace Workflow

variable {d : Definition} {s : Snapshot} {e e' : Executor} {mailbox : Nat}

/-! ### Instances -/

/-- What an instance takes from its record. -/
theorem InstanceRecord.of_restore {r : InstanceRecord} {j : Instance} (h : r.restore d = .ok j) :
    j.id = r.id ∧ j.parent = r.parent ∧ j.state = r.state ∧ j.busy = r.busy ∧ j.children = [] ∧
      j.fault.isSome = r.fault.isSome ∧ d.findByPath? r.path = some j.node := by
  unfold restore Definition.resolvePath at h
  cases hn : d.findByPath? r.path with
  | none =>
    rw [hn] at h
    cases h
  | some node =>
    rw [hn] at h
    cases hf : r.fault with
    | none =>
      rw [hf] at h
      cases h
      exact ⟨rfl, rfl, rfl, rfl, rfl, rfl, rfl⟩
    | some f =>
      rw [hf] at h
      cases hr : f.restore d with
      | error _ =>
        simp only [Option.mapM_some, hr] at h
        cases h
      | ok g =>
        simp only [Option.mapM_some, hr] at h
        cases h
        exact ⟨rfl, rfl, rfl, rfl, rfl, rfl, rfl⟩

namespace InstanceTable

variable {next : Nat} {t u : InstanceTable} {records : List InstanceRecord}

/-- Records that were added have different identifiers, which have been given out and were free. -/
theorem distinct_of_addRecords (h : records.foldlM (addRecord d next) t = .ok u) :
    (records.map (·.id)).Nodup ∧ ∀ r ∈ records, r.id.number < next ∧ t[r.id]? = none := by
  induction records generalizing t with
  | nil => exact ⟨.nil, fun _ hr => absurd hr List.not_mem_nil⟩
  | cons r rest ih =>
    obtain ⟨t₁, h₁, h⟩ := foldlM_cons_eq_ok.mp h
    obtain ⟨hn, ht, j, -, rfl⟩ := addRecord_eq_ok.mp h₁
    obtain ⟨distinct, free⟩ := ih h
    have others : ∀ a ∈ rest, r.id ≠ a.id ∧ t[a.id]? = none := by
      intro a ha
      have hf := (free a ha).2
      rw [Table.lookup_insert] at hf
      split at hf
      · cases hf
      · next other => exact ⟨other, hf⟩
    refine ⟨?_, fun a ha => ?_⟩
    · rw [List.map_cons, List.nodup_cons]
      refine ⟨fun hm => ?_, distinct⟩
      obtain ⟨a, ha, hk⟩ := List.mem_map.mp hm
      exact (others a ha).1 hk.symm
    · rcases List.mem_cons.mp ha with rfl | ha
      · exact ⟨hn, ht⟩
      · exact ⟨(free a ha).1, (others a ha).2⟩

theorem mem_childrenIn {c k : InstanceId} :
    c ∈ childrenIn records k ↔ ∃ r ∈ records, r.parent = some k ∧ r.id = c := by
  rw [childrenIn, List.mem_map]
  constructor
  · rintro ⟨r, hr, rfl⟩
    obtain ⟨hr, hp⟩ := List.mem_filter.mp hr
    exact ⟨r, hr, beq_iff_eq.mp hp, rfl⟩
  · rintro ⟨r, hr, hp, rfl⟩
    exact ⟨r, List.mem_filter.mpr ⟨hr, beq_iff_eq.mpr hp⟩, rfl⟩

end InstanceTable

/-- A table that has the instances of the records of a snapshot. -/
structure Recorded (s : Snapshot) (d : Definition) (u : InstanceTable) : Prop where
  /-- No instance is recorded twice, and the identifiers have been given out. -/
  distinct : (s.instances.map (·.id)).Nodup
  below : ∀ r ∈ s.instances, r.id.number < s.nextInstance
  /-- Every record leads to an instance. -/
  leads : ∀ r ∈ s.instances, ∃ j, r.restore d = .ok j
  /-- The instance of a record stands under its identifier. Its children are the instances whose records name it as their
  parent, in the order of the records. -/
  instances : ∀ (k : InstanceId) (i : Instance), u[k]? = some i ↔ ∃ r ∈ s.instances, r.id = k ∧
    ∃ j, r.restore d = .ok j ∧ i = { j with children := InstanceTable.childrenIn s.instances k }
  /-- A parent is there, and its child runs a declared child of its activity. -/
  attached : ∀ (k p : InstanceId) (i : Instance), u[k]? = some i → i.parent = some p →
    ∃ q, u[p]? = some q ∧ d.isDeclaredChild q.node i.node = true

/-- The instances that are restored are those of the records. -/
theorem recorded_of_restoreInstances {u : InstanceTable} (h : s.restoreInstances d = .ok u) :
    Recorded s d u := by
  unfold Snapshot.restoreInstances at h
  cases ha : s.instances.foldlM (InstanceTable.addRecord d s.nextInstance) ∅ with
  | error _ =>
    rw [ha] at h
    cases h
  | ok t =>
    rw [ha] at h
    obtain ⟨distinct, free⟩ := InstanceTable.distinct_of_addRecords ha
    obtain ⟨linked, declared⟩ := InstanceTable.of_linkRecords h
    have added : ∀ (k : InstanceId) (j : Instance), t[k]? = some j ↔
        ∃ r ∈ s.instances, r.id = k ∧ r.restore d = .ok j := by
      intro k j
      rw [InstanceTable.of_addRecords ha]
      simp
    have found : ∀ (k : InstanceId) (i : Instance), u[k]? = some i ↔ ∃ j, t[k]? = some j ∧
        i = { j with children := InstanceTable.childrenIn s.instances k } := by
      intro k i
      rw [linked, Option.map_eq_some_iff]
      refine exists_congr fun j => and_congr_right fun hj => ?_
      obtain ⟨r, -, -, hr⟩ := (added k j).mp hj
      rw [(InstanceRecord.of_restore hr).2.2.2.2.1, List.nil_append]
      exact eq_comm
    refine ⟨distinct, fun r hr => (free r hr).1,
      fun r hr => InstanceTable.restored_of_addRecords ha hr, fun k i => ?_, fun k p i hi hp => ?_⟩
    · rw [found]
      constructor
      · rintro ⟨j, hj, rfl⟩
        obtain ⟨r, hr, rfl, hrj⟩ := (added k j).mp hj
        exact ⟨r, hr, rfl, j, hrj, rfl⟩
      · rintro ⟨r, hr, rfl, j, hrj, rfl⟩
        exact ⟨j, (added _ j).mpr ⟨r, hr, rfl, hrj⟩, rfl⟩
    · obtain ⟨j, hj, rfl⟩ := (found k i).mp hi
      obtain ⟨r, hr, rfl, hrj⟩ := (added k j).mp hj
      have named : r.parent = some p := (InstanceRecord.of_restore hrj).2.1.symm.trans hp
      obtain ⟨c, q, hc, hq, hd⟩ := declared r hr p named
      cases hj.symm.trans hc
      exact ⟨_, (found p _).mpr ⟨q, hq, rfl⟩, hd⟩

namespace Recorded

variable {u : InstanceTable} {k p c : InstanceId} {i q : Instance}

/-- What a restored instance takes from its record. -/
theorem record (h : Recorded s d u) (hi : u[k]? = some i) : ∃ r ∈ s.instances, r.id = k ∧
    i.id = k ∧ i.parent = r.parent ∧ i.state = r.state ∧ i.busy = r.busy ∧
      i.fault.isSome = r.fault.isSome ∧ i.children = InstanceTable.childrenIn s.instances k := by
  obtain ⟨r, hr, hk, j, hj, rfl⟩ := (h.instances k i).mp hi
  obtain ⟨id, parent, state, busy, -, fault, -⟩ := InstanceRecord.of_restore hj
  exact ⟨r, hr, hk, id.trans hk, parent, state, busy, fault, rfl⟩

/-- Every record has its instance. -/
theorem exists_instance (h : Recorded s d u) {r : InstanceRecord} (hr : r ∈ s.instances) :
    ∃ i, u[r.id]? = some i ∧ i.parent = r.parent ∧ i.state = r.state ∧ i.busy = r.busy ∧
      i.fault.isSome = r.fault.isSome ∧ i.children = InstanceTable.childrenIn s.instances r.id := by
  obtain ⟨j, hj⟩ := h.leads r hr
  obtain ⟨-, parent, state, busy, -, fault, -⟩ := InstanceRecord.of_restore hj
  exact ⟨_, (h.instances _ _).mpr ⟨r, hr, rfl, j, hj, rfl⟩, parent, state, busy, fault, rfl⟩

/-- What holds of an instance in terms of what it takes from its record holds of all instances if it
holds of all records. -/
theorem forall_iff (h : Recorded s d u) {P : InstanceId → Instance → Prop}
    {Q : InstanceRecord → Prop}
    (hpq : ∀ {r : InstanceRecord} {i : Instance}, r ∈ s.instances → u[r.id]? = some i →
      i.parent = r.parent → i.state = r.state → i.busy = r.busy →
      i.children = InstanceTable.childrenIn s.instances r.id → (P r.id i ↔ Q r)) :
    (∀ (k : InstanceId) (i : Instance), u[k]? = some i → P k i) ↔ ∀ r ∈ s.instances, Q r := by
  constructor
  · intro hp r hr
    obtain ⟨i, hi, parent, state, busy, -, children⟩ := h.exists_instance hr
    exact (hpq hr hi parent state busy children).mp (hp _ i hi)
  · intro hq k i hi
    obtain ⟨r, hr, rfl, -, parent, state, busy, -, children⟩ := h.record hi
    exact (hpq hr hi parent state busy children).mpr (hq r hr)

/-- There is one record of an instance. -/
theorem record_unique (h : Recorded s d u) {r r' : InstanceRecord} (hr : r ∈ s.instances)
    (hr' : r' ∈ s.instances) (hk : r.id = r'.id) : r = r' :=
  List.inj_on_of_nodup_map h.distinct hr hr' hk

end Recorded

/-- Where the activity of an instance stands in the definition. -/
def InstanceTable.position (t : InstanceTable) (k : InstanceId) : Nat :=
  (t[k]?.map (·.node.number)).getD 0

/-- The instances that are restored make up a forest: a child runs an activity below that of its
parent, so that the links lead to greater positions. -/
theorem Recorded.forest {a : Activity} {u : InstanceTable} (h : Recorded s a.prepare u) :
    IsForest u.position u where
  keyed hi := by
    obtain ⟨-, -, -, id, -⟩ := h.record hi
    exact id
  nodup hi := by
    obtain ⟨-, -, -, -, -, -, -, -, children⟩ := h.record hi
    rw [children]
    exact (List.filter_sublist.map _).nodup h.distinct
  listed {k p i} hi hp := by
    obtain ⟨q, hq, -⟩ := h.attached k p i hi hp
    obtain ⟨r, hr, hk, -, parent, -⟩ := h.record hi
    obtain ⟨-, -, -, -, -, -, -, -, children⟩ := h.record hq
    refine ⟨q, hq, ?_⟩
    rw [children]
    exact InstanceTable.mem_childrenIn.mpr ⟨r, hr, parent.symm.trans hp, hk⟩
  linked {p c q} hq hc := by
    obtain ⟨-, -, -, -, -, -, -, -, children⟩ := h.record hq
    rw [children] at hc
    obtain ⟨r, hr, hp, rfl⟩ := InstanceTable.mem_childrenIn.mp hc
    obtain ⟨i, hi, parent, -⟩ := h.exists_instance hr
    exact ⟨i, hi, parent.trans hp⟩
  rising {k p i} hi hp := by
    obtain ⟨q, hq, declared⟩ := h.attached k p i hi hp
    rw [InstanceTable.position, InstanceTable.position, hi, hq]
    exact a.prepare_rising declared

/-! ### Bookmarks -/

namespace Registry

variable {u : InstanceTable} {g g' : Registry} {recs : List Registration} {rec : Registration}

/-- A recorded bookmark has a live owner and a scope that exists. It is added unless there is one. -/
theorem of_restoreBookmark (h : restoreBookmark u g rec = .ok g') :
    (∃ o, u[rec.owner]? = some o ∧ o.state.isLive = true) ∧
      g.scopeExists rec.bookmark.scope = true ∧ g'.scopes = g.scopes ∧
      ∀ b, g'.registrations[b]? =
        (g.registrations[b]?).or (if rec.bookmark == b then some rec else none) := by
  cases hn : g.registrations[rec.bookmark]? with
  | none =>
    obtain ⟨owner, scope, rfl⟩ := (restoreBookmark_eq_ok hn).mp h
    refine ⟨owner, scope, rfl, fun b => ?_⟩
    rw [Table.lookup_insert]
    by_cases hb : rec.bookmark = b
    · subst hb
      simp [hn]
    · simp [hb]
  | some old =>
    unfold restoreBookmark InstanceTable.resolve at h
    cases ho : u[rec.owner]? with
    | none =>
      rw [ho] at h
      cases h
    | some o =>
      simp only [ho, bind, Except.bind, pure, Except.pure] at h
      cases hl : o.state.isLive with
      | false =>
        simp only [hl, Bool.not_false, if_true] at h
        cases h
      | true =>
        simp only [hl, Bool.not_true, Bool.false_eq_true, if_false] at h
        cases hr : g.register rec with
        | error _ =>
          rw [hr] at h
          cases h
        | ok answer =>
          obtain ⟨outcome, g₁⟩ := answer
          rw [hr] at h
          cases h
          rcases register_ok hr with ⟨-, rfl⟩ | ⟨-, -, new, -⟩
          · refine ⟨⟨o, rfl, hl⟩, ?_, rfl, fun b => ?_⟩
            · unfold register at hr
              split at hr
              · next scope => exact scope
              · cases hr
            · by_cases hb : rec.bookmark = b
              · subst hb
                simp [hn]
              · simp [hb]
          · rw [hn] at new
            cases new

/-- Of several recorded bookmarks the first of each name and scope is added. -/
theorem of_restoreBookmarks (h : recs.foldlM (restoreBookmark u) g = .ok g') :
    (∀ rec ∈ recs, (∃ o, u[rec.owner]? = some o ∧ o.state.isLive = true) ∧
        g'.scopeExists rec.bookmark.scope = true) ∧
      g'.scopes = g.scopes ∧
      ∀ b, g'.registrations[b]? = (g.registrations[b]?).or (recs.find? (·.bookmark == b)) := by
  induction recs generalizing g with
  | nil =>
    cases h
    exact ⟨fun _ hr => absurd hr List.not_mem_nil, rfl, fun b => by simp⟩
  | cons rec rest ih =>
    obtain ⟨g₁, h₁, h⟩ := InstanceTable.foldlM_cons_eq_ok.mp h
    obtain ⟨owner, scope, same, added⟩ := of_restoreBookmark h₁
    obtain ⟨others, scopes, later⟩ := ih h
    have exists' : g'.scopeExists rec.bookmark.scope = true := by
      unfold scopeExists
      rw [scopes, same]
      exact scope
    refine ⟨List.forall_mem_cons.mpr ⟨⟨owner, exists'⟩, others⟩, scopes.trans same, fun b => ?_⟩
    rw [later, added, List.find?_cons]
    cases hb : rec.bookmark == b <;> simp

/-- The first registration of each bookmark. -/
def firstOf : List Registration → List Registration
  | [] => []
  | g :: rest => g :: (firstOf rest).filter fun h => !(g.bookmark == h.bookmark)

theorem mem_firstOf : rec ∈ firstOf recs ↔ recs.find? (·.bookmark == rec.bookmark) = some rec := by
  induction recs with
  | nil => simp [firstOf]
  | cons g rest ih =>
    rw [firstOf, List.mem_cons, List.mem_filter, ih, List.find?_cons]
    by_cases hg : g.bookmark = rec.bookmark
    · have same : (g.bookmark == rec.bookmark) = true := beq_iff_eq.mpr hg
      simp only [same, Bool.not_true, Bool.false_eq_true, and_false, or_false, Option.some.injEq]
      exact eq_comm
    · have other : (g.bookmark == rec.bookmark) = false := beq_eq_false_iff_ne.mpr hg
      have apart : rec ≠ g := fun he => hg (he ▸ rfl)
      simp only [other, Bool.not_false, and_true, apart, false_or]

theorem nodup_firstOf : (firstOf recs).Nodup := by
  induction recs with
  | nil => exact .nil
  | cons g rest ih =>
    rw [firstOf, List.nodup_cons]
    refine ⟨fun hm => ?_, ih.filter _⟩
    have other := (List.mem_filter.mp hm).2
    simp at other

/-- What is registered are the first registrations of a list if every bookmark leads to its first. -/
theorem blocking_of_find (hg : ∀ b, g.registrations[b]? = recs.find? (·.bookmark == b))
    (owner : InstanceId) : g.blocking owner =
      (firstOf recs).countP fun h => h.options.isBlocking && h.owner == owner := by
  have listed : g.registrations.toList.Perm ((firstOf recs).map fun h => (h.bookmark, h)) := by
    refine (List.perm_ext_iff_of_nodup (Table.nodup_toList _) ?_).mpr fun entry => ?_
    · exact nodup_firstOf.map fun x y he => (Prod.mk.inj he).2
    · obtain ⟨b, h⟩ := entry
      rw [g.registrations.mem_toList_iff_getElem?_eq_some, hg, List.mem_map]
      constructor
      · intro hf
        have hb : h.bookmark = b := by simpa using List.find?_some hf
        subst hb
        exact ⟨h, mem_firstOf.mpr hf, rfl⟩
      · rintro ⟨h', hm, he⟩
        cases he
        exact mem_firstOf.mp hm
  rw [blocking_eq_count, Table.count_eq_countP_toList, listed.countP_eq, List.countP_map]
  rfl

end Registry

namespace Executor

/-! ### One tree -/

section Forest

variable {rank : InstanceId → Nat} {now : Timestamp} {k : InstanceId} {r : Instance}
  (hf : IsForest rank e.instances)
include hf

/-- What is found from the root is the root and what is below it. -/
theorem found_iff : e.Found k ↔ k = e.root ∨ Under e.instances e.root k := by
  constructor
  · intro hk
    induction hk with
    | root => exact .inl rfl
    | child _ hp hc ih =>
      obtain ⟨i, hi, hip⟩ := hf.linked hp hc
      rcases ih with rfl | hu
      · exact .inr (.child hi hip)
      · exact .inr (.deeper hi hip hu)
  · rintro (rfl | hu)
    · exact .root
    · induction hu with
      | child hi hp =>
        obtain ⟨q, hq, hc⟩ := hf.listed hi hp
        exact .child .root hq hc
      | deeper hi hp _ ih =>
        obtain ⟨q, hq, hc⟩ := hf.listed hi hp
        exact .child ih hq hc

/-- Everything is found from the root exactly if nothing else is without a parent. -/
theorem all_found_iff :
    (∀ (k : InstanceId) (i : Instance), e.instances[k]? = some i → e.Found k) ↔
      ∀ (k : InstanceId) (i : Instance), e.instances[k]? = some i → i.parent = none → k = e.root := by
  constructor
  · intro found k i hi hn
    rcases (found_iff hf).mp (found k i hi) with hk | hu
    · exact hk
    · cases hu with
      | child hi' hp' =>
        cases hi.symm.trans hi'
        exact absurd (hn.symm.trans hp').symm (Option.some_ne_none _)
      | deeper hi' hp' _ =>
        cases hi.symm.trans hi'
        exact absurd (hn.symm.trans hp').symm (Option.some_ne_none _)
  · intro only k i hi
    induction hn : rank k using Nat.strongRecOn generalizing k i with
    | _ n ih =>
      cases hip : i.parent with
      | none => exact only k i hi hip ▸ .root
      | some p =>
        obtain ⟨q, hq, hc⟩ := hf.listed hi hip
        exact .child (ih (rank p) (hn ▸ hf.rising hi hip) p q hq rfl) hq hc

/-- A workflow that may be captured is captured exactly if everything is found from the root. -/
theorem capture_iff_found (hr : e.instances[e.root]? = some r) (hok : e.ensureCapturable = .ok ()) :
    (∃ image, e.capture now = .ok image) ↔
      ∀ (k : InstanceId) (i : Instance), e.instances[k]? = some i → e.Found k := by
  obtain ⟨l, hl⟩ := exists_listDown hf (n := e.instances.size + 1) hr
    (Nat.le_succ_of_le (InstanceTable.countFrom_le _ _ _))
  have counted : (∃ image, e.capture now = .ok image) ↔ l.length = e.instances.size := by
    unfold capture
    rw [hok, hl]
    by_cases hn : l.length = e.instances.size
    · simp only [bind, Except.bind, ne_eq, hn, not_true_eq_false, if_false]
      exact ⟨fun _ => trivial, fun _ => ⟨_, rfl⟩⟩
    · simp only [bind, Except.bind, ne_eq, hn, not_false_eq_true, if_true, iff_false]
      rintro ⟨_, h⟩
      cases h
  have listed : ∀ {k}, k ∈ l.map (·.id) ↔ e.Found k := (mem_listDown_iff hf hl).trans (found_iff hf).symm
  have nodup := nodup_listDown hf hl
  have there : l.map (·.id) ⊆ e.instances.keys := by
    intro k hk
    obtain ⟨j, hj, rfl⟩ := List.mem_map.mp hk
    exact (Table.mem_keys_iff _).mpr ⟨j, lookup_of_mem_listDown hf hl hj⟩
  rw [counted, ← Table.length_keys, ← List.length_map (·.id)]
  constructor
  · intro hlen k i hi
    have all := (List.subperm_of_subset nodup there).perm_of_length_le (Nat.le_of_eq hlen.symm)
    exact listed.mp (all.mem_iff.mpr ((Table.mem_keys_iff _).mpr ⟨i, hi⟩))
  · intro found
    refine ((List.perm_ext_iff_of_nodup nodup (Table.nodup_keys _)).mpr fun k => ?_).length_eq
    refine ⟨fun hk => there hk, fun hk => ?_⟩
    obtain ⟨i, hi⟩ := (Table.mem_keys_iff _).mp hk
    exact listed.mpr (found k i hi)

end Forest

/-! ### The end of a workflow -/

/-- A workflow is completed with the end that follows from its root, or nothing happens. -/
theorem finishWorkflow_cases (e : Executor) : (e.ending? = none ∧ e.finishWorkflow = e) ∨
    ∃ state o event, e.ending? = some (state, o, event) ∧
      SameCore { e with queue := e.queue.clear, operations := ∅, state, outcome := some o }
        e.finishWorkflow := by
  unfold finishWorkflow
  split
  · next hn => exact .inl ⟨hn, rfl⟩
  · next state o event he => exact .inr ⟨state, o, event, he, {}⟩

end Executor

/-! ### What the records say -/

namespace Snapshot

/-- The records make up one tree: no instance but the root is without a parent. -/
def OneTree (s : Snapshot) : Prop :=
  ∀ r ∈ s.instances, r.parent = none → r.id = s.root

/-- How many of the recorded bookmarks keep an instance busy. -/
def blocking (s : Snapshot) (owner : InstanceId) : Nat :=
  (Registry.firstOf s.bookmarks).countP fun g => g.options.isBlocking && g.owner == owner

/-- Every live instance is recorded as busy with its children and its blocking bookmarks. -/
def Counted (s : Snapshot) : Prop :=
  ∀ r ∈ s.instances, r.state.isLive = true →
    r.busy = (InstanceTable.childrenIn s.instances r.id).length + s.blocking r.id

/-- The root is recorded as live. -/
def RootLive (s : Snapshot) : Prop :=
  ∃ r ∈ s.instances, r.id = s.root ∧ r.state.isLive = true

/-- The root is recorded as completed, with a fault if it has faulted. -/
def RootEnded (s : Snapshot) : Prop :=
  ∃ r ∈ s.instances, r.id = s.root ∧ r.state.isTerminal = true ∧
    (r.state = .faulted → r.fault.isSome = true)

instance : Decidable s.OneTree :=
  inferInstanceAs (Decidable (∀ r ∈ s.instances, _))

instance : Decidable s.Counted :=
  inferInstanceAs (Decidable (∀ r ∈ s.instances, _))

instance : Decidable s.RootLive :=
  inferInstanceAs (Decidable (∃ r ∈ s.instances, _))

instance : Decidable s.RootEnded :=
  inferInstanceAs (Decidable (∃ r ∈ s.instances, _))

/-- Only a workflow that waits or has completed can be restored. -/
theorem state_of_ensureRestorable (h : s.ensureRestorable d = .ok ()) :
    s.state = .idle ∨ s.state.isCompleted = true := by
  unfold ensureRestorable at h
  split at h
  · cases h
  · split at h
    · cases h
    · next hs =>
      cases hst : s.state with
      | runnable => exact absurd (.inl hst) hs
      | aborted => exact absurd (.inr hst) hs
      | idle => exact .inl rfl
      | closed | canceled | faulted => exact .inr rfl

end Snapshot

/-! ### What restoring makes sure of -/

/-- An executor of which all that a snapshot refers to is there. -/
structure Admitted (s : Snapshot) (d : Definition) (e : Executor) : Prop where
  recorded : Recorded s d e.instances
  /-- The links of the instances do not run in a circle. -/
  forest : IsForest (InstanceTable.position e.instances) e.instances
  /-- The root is that of the snapshot and runs the whole definition. -/
  root : e.root = s.root
  rooted : ∃ r, e.instances[e.root]? = some r ∧ r.parent = none ∧ r.node = .root
  /-- The bookmarks are those of the snapshot, each with a live owner in a scope that exists. -/
  bookmarks : ∀ b, e.bookmarks.registrations[b]? = s.bookmarks.find? (·.bookmark == b)
  owned : ∀ g ∈ s.bookmarks, e.isLive g.owner = true ∧
    e.bookmarks.scopeExists g.bookmark.scope = true
  scopes : ∀ g ∈ s.scopes, ∃ o, e.instances[g.owner]? = some o
  /-- The counters are those of the snapshot. -/
  counters : e.nextInstance = s.nextInstance ∧ e.nextOperation = s.nextOperation
  /-- Nothing is queued or outstanding, and the workflow waits or has completed. -/
  work : e.queue.work = []
  operations : e.operations = ∅
  state : s.state = .idle ∧ e.state = .idle ∨
    s.state.isCompleted = true ∧ e.state.isCompleted = true

/-- The registry of a snapshot has its bookmarks. -/
theorem Snapshot.of_restoreRegistry {u : InstanceTable} {g : Registry}
    (hk : ∀ {k : InstanceId} {i : Instance}, u[k]? = some i → i.id = k)
    (h : s.restoreRegistry u = .ok g) :
    (∀ b, g.registrations[b]? = s.bookmarks.find? (·.bookmark == b)) ∧
      (∀ rec ∈ s.bookmarks, (∃ o, u[rec.owner]? = some o ∧ o.state.isLive = true) ∧
        g.scopeExists rec.bookmark.scope = true) ∧
      ∀ rec ∈ s.scopes, ∃ o, u[rec.owner]? = some o := by
  unfold restoreRegistry at h
  cases hs : s.scopes.foldlM (Registry.restoreScope u) {} with
  | error _ =>
    rw [hs] at h
    cases h
  | ok g₀ =>
    rw [hs] at h
    obtain ⟨scopes, rfl⟩ := (Registry.restoreScopes_eq_ok hk).mp hs
    obtain ⟨owned, -, found⟩ := Registry.of_restoreBookmarks h
    refine ⟨fun b => (found b).trans ?_, owned, scopes⟩
    rw [Std.ExtTreeMap.getElem?_empty, Option.none_or]

/-- What is settled and keeps the instances, bookmarks and counters has all that the snapshot refers
to. -/
theorem Admitted.settled (h : Admitted s d e) {e₁ : Executor} (hs : Executor.SameCore e₁ e')
    (hi : e₁.instances = e.instances) (hr : e₁.root = e.root) (hb : e₁.bookmarks = e.bookmarks)
    (hn : e₁.nextInstance = e.nextInstance ∧ e₁.nextOperation = e.nextOperation)
    (hw : e₁.queue.work = []) (ho : e₁.operations = ∅)
    (hst : s.state = .idle ∧ e₁.state = .idle ∨
      s.state.isCompleted = true ∧ e₁.state.isCompleted = true) : Admitted s d e' := by
  have instances := hs.instances.trans hi
  have root := hs.root.trans hr
  have bookmarks := hs.bookmarks.trans hb
  constructor
  · exact instances ▸ h.recorded
  · exact instances ▸ h.forest
  · exact root.trans h.root
  · rw [instances, root]
    exact h.rooted
  · exact bookmarks ▸ h.bookmarks
  · intro g hg
    rw [bookmarks]
    refine ⟨?_, (h.owned g hg).2⟩
    rw [Executor.isLive_iff, instances, ← Executor.isLive_iff]
    exact (h.owned g hg).1
  · exact instances ▸ h.scopes
  · rw [hs.nextInstance, hs.nextOperation, hn.1, hn.2]
    exact h.counters
  · rw [hs.queue]
    exact hw
  · rw [hs.operations]
    exact ho
  · rw [hs.state]
    exact hst

/-- The executor that a snapshot describes has all that the snapshot refers to. -/
theorem Snapshot.admitted_of_restoreExecutor {a : Activity}
    (hr : s.restoreExecutor a.prepare mailbox = .ok e) : Admitted s a.prepare e := by
  obtain ⟨hok, u, root, g, hu, hroot, hp, hn, hg, rfl⟩ := restoreExecutor_eq_ok.mp hr
  have recorded := recorded_of_restoreInstances hu
  have keyed : root.id = s.root := recorded.forest.keyed hroot
  obtain ⟨bookmarks, owned, scopes⟩ := of_restoreRegistry recorded.forest.keyed hg
  exact {
    recorded, forest := recorded.forest, root := keyed
    rooted := ⟨root, keyed ▸ hroot, hp, hn⟩
    bookmarks, owned := fun rec hrec => ⟨Executor.isLive_iff.mpr (owned rec hrec).1, (owned rec hrec).2⟩
    scopes, counters := ⟨rfl, rfl⟩, work := rfl, operations := rfl
    state := (state_of_ensureRestorable hok).imp (fun h => ⟨h, h⟩) fun h => ⟨h, h⟩ }

/-- Whatever a snapshot says, what it refers to is there when it has been restored. If the workflow has
completed, it ends as follows from its root. -/
theorem Snapshot.admitted_of_restore {a : Activity} (hr : s.restore a.prepare mailbox = .ok e) :
    Admitted s a.prepare e ∧ (e.state.isCompleted = true → (∃ x, e.ending? = some x) →
      ∃ o event, e.ending? = some (e.state, o, event) ∧ e.outcome = some o) := by
  obtain ⟨-, r, hr', he⟩ := restore_eq_ok.mp hr
  have h := admitted_of_restoreExecutor hr'
  have core : Executor.SameCore (if r.state.isCompleted then r.finishWorkflow else r) e := by
    rw [he]
    exact {}
  have left : Executor.SameCore r e → Admitted s a.prepare e := fun hs =>
    h.settled hs rfl rfl rfl ⟨rfl, rfl⟩ h.work h.operations h.state
  cases hc : r.state.isCompleted with
  | false =>
    rw [hc, if_neg Bool.false_ne_true] at core
    refine ⟨left core, fun hc' => ?_⟩
    rw [core.state, hc] at hc'
    exact absurd hc' Bool.false_ne_true
  | true =>
    rw [hc, if_pos rfl] at core
    rcases r.finishWorkflow_cases with ⟨hn, same⟩ | ⟨state, o, event, hend, hs⟩
    · rw [same] at core
      refine ⟨left core, ?_⟩
      rintro - ⟨x, hx⟩
      rw [core.ending?, hn] at hx
      cases hx
    · have core := hs.trans core
      refine ⟨h.settled core rfl rfl rfl ⟨rfl, rfl⟩ rfl rfl
        (.inr ⟨?_, Executor.isCompleted_of_ending hend⟩), fun _ _ => ⟨o, event, ?_, core.outcome⟩⟩
      · rcases h.state with ⟨-, hi⟩ | ⟨hs, -⟩
        · rw [hi] at hc
          exact absurd hc Bool.false_ne_true
        · exact hs
      · rw [core.ending?, core.state]
        exact hend

namespace Admitted

variable {now : Timestamp} (h : Admitted s d e)
include h

/-- What is recorded as waiting waits. -/
theorem state_eq_idle (hs : s.state = .idle) : e.state = .idle := by
  rcases h.state with ⟨-, hi⟩ | ⟨hc, -⟩
  · exact hi
  · rw [hs] at hc
    exact absurd hc Bool.false_ne_true

/-- What is recorded as completed has completed. -/
theorem isCompleted (hs : s.state.isCompleted = true) : e.state.isCompleted = true := by
  rcases h.state with ⟨hi, -⟩ | ⟨-, hc⟩
  · rw [hi] at hs
    exact absurd hs Bool.false_ne_true
  · exact hc

/-- Everything is found from the root exactly if the records make up one tree. -/
theorem all_found_iff : (∀ (k : InstanceId) (i : Instance), e.instances[k]? = some i → e.Found k) ↔
    s.OneTree := by
  rw [Executor.all_found_iff h.forest, h.root]
  refine h.recorded.forall_iff fun _ _ parent _ _ _ => ?_
  rw [parent]

/-- What was restored can be captured exactly if the records make up one tree. -/
theorem capture_iff : (∃ image, e.capture now = .ok image) ↔ s.OneTree := by
  obtain ⟨r, hr, -⟩ := h.rooted
  refine (Executor.capture_iff_found h.forest hr ?_).trans h.all_found_iff
  have settled : ∀ state, e.state = state → state = .idle ∨ state.isCompleted = true := by
    rintro _ rfl
    exact h.state.imp And.right And.right
  refine Executor.ensureCapturable_ok (fun hs => ?_) (fun hs => ?_) h.work ?_
  · exact absurd (settled _ hs) (by decide)
  · exact absurd (settled _ hs) (by decide)
  · rw [h.operations]
    rfl

/-- Every live instance is busy with its children and its blocking bookmarks exactly if the records say
so. -/
theorem counted_iff : (∀ (k : InstanceId) (i : Instance), e.instances[k]? = some i →
    i.state.isLive = true → i.busy = i.children.length + e.bookmarks.blocking k) ↔ s.Counted := by
  refine h.recorded.forall_iff fun {r i} _ _ _ state busy children => ?_
  rw [state, busy, children, Registry.blocking_of_find h.bookmarks]
  rfl

/-- The root is live exactly if its record says so. -/
theorem rootLive_iff : (∃ r, e.instances[e.root]? = some r ∧ r.state.isLive = true) ↔ s.RootLive := by
  rw [h.root]
  constructor
  · rintro ⟨i, hi, hl⟩
    obtain ⟨r, hr, hk, -, -, state, -⟩ := h.recorded.record hi
    exact ⟨r, hr, hk, state ▸ hl⟩
  · rintro ⟨r, hr, hk, hl⟩
    obtain ⟨i, hi, -, state, -⟩ := h.recorded.exists_instance hr
    exact ⟨i, hk ▸ hi, state.symm ▸ hl⟩

/-- The root has ended, so that the end of the workflow follows, exactly if its record says so. -/
theorem ending_iff : (∃ x, e.ending? = some x) ↔ s.RootEnded := by
  obtain ⟨i, hi, -⟩ := h.rooted
  rw [Executor.exists_ending_iff hi]
  rw [h.root] at hi
  obtain ⟨r, hr, hk, -, -, state, -, fault, -⟩ := h.recorded.record hi
  rw [state, fault]
  constructor
  · exact fun he => ⟨r, hr, hk, he⟩
  · rintro ⟨r', hr', hk', he⟩
    rw [h.recorded.record_unique hr hr' (hk.trans hk'.symm)]
    exact he

end Admitted

/-- Whatever a snapshot says, all that it refers to is there when it has been restored. The instances
make up one tree, so that they can be captured again, their counts are right and the root agrees with
the state of the workflow exactly if the records say so. -/
theorem Snapshot.restored_as_recorded {a : Activity} (hr : s.restore a.prepare mailbox = .ok e) :
    Admitted s a.prepare e ∧
      ((∀ (k : InstanceId) (i : Instance), e.instances[k]? = some i → e.Found k) ↔ s.OneTree) ∧
      (∀ now, (∃ image, e.capture now = .ok image) ↔ s.OneTree) ∧
      ((∀ (k : InstanceId) (i : Instance), e.instances[k]? = some i → i.state.isLive = true →
        i.busy = i.children.length + e.bookmarks.blocking k) ↔ s.Counted) ∧
      (e.state = .idle →
        ((∃ r, e.instances[e.root]? = some r ∧ r.state.isLive = true) ↔ s.RootLive)) ∧
      (e.state.isCompleted = true →
        ((∃ r, e.instances[e.root]? = some r ∧ e.Ended r) ↔ s.RootEnded)) := by
  obtain ⟨h, ending⟩ := admitted_of_restore hr
  obtain ⟨r, hroot, -⟩ := h.rooted
  refine ⟨h, h.all_found_iff, fun _ => h.capture_iff, h.counted_iff, fun _ => h.rootLive_iff,
    fun hc => ⟨?_, fun recorded => ?_⟩⟩
  · rintro ⟨r', hr', ended⟩
    exact h.ending_iff.mp (ended.exists_ending hr')
  · obtain ⟨o, event, he, ho⟩ := ending hc (h.ending_iff.mpr recorded)
    exact ⟨r, hroot, Executor.ended_of_ending he ho hroot⟩

/-- A record of an instance of the whole definition that has no parent. -/
def parentless (number : Nat) (state : ActivityState) (busy : Nat) : InstanceRecord where
  id := ⟨number⟩
  path := "1"
  parent := none
  state := state
  environment := []
  properties := []
  busy := busy
  completionCallback := none
  faultCallback := none
  scope := .default
  executed := true
  cancelRequested := false
  markedCanceled := false
  result := none
  fault := none

/-- An image of an activity that waits, with records of instances and with its bookmark, if it has
one. -/
def imageOfWait (state : WorkflowState) (instances : List InstanceRecord) (bookmarks : List Registration) :
    Snapshot where
  workflow := default
  fingerprint := (Activity.waitAt "go").prepare.fingerprint
  state := state
  nextInstance := 3
  nextOperation := 1
  root := ⟨1⟩
  instances := instances
  bookmarks := bookmarks
  scopes := []
  createdAt := ⟨0, 0⟩
  instanceCount := instances.length
  bookmarkCount := bookmarks.length

/-- A snapshot of an activity that waits is restored. -/
theorem exists_restored (s : Snapshot)
    (h : (s.restore (Activity.waitAt "go").prepare 1).toOption.isSome = true) :
    ∃ e, s.restore (Activity.waitAt "go").prepare 1 = .ok e := by
  cases hr : s.restore (Activity.waitAt "go").prepare 1 with
  | ok e => exact ⟨e, rfl⟩
  | error _ =>
    rw [hr] at h
    exact absurd h Bool.false_ne_true

/-- The image of an activity that waits. -/
def soundImage : Snapshot :=
  imageOfWait .idle [parentless 1 .executing 1] [⟨⟨.default, "go"⟩, ⟨1⟩, none, .once⟩]

/-- As the records of an activity that waits agree, what is restored is sound. -/
theorem restored_sound : ∃ e, soundImage.restore (Activity.waitAt "go").prepare 1 = .ok e ∧
    (∀ (k : InstanceId) (i : Instance), e.instances[k]? = some i → e.Found k) ∧
    (∀ now, ∃ image, e.capture now = .ok image) ∧
    (∀ (k : InstanceId) (i : Instance), e.instances[k]? = some i → i.state.isLive = true →
      i.busy = i.children.length + e.bookmarks.blocking k) ∧
    ∃ r, e.instances[e.root]? = some r ∧ r.state.isLive = true := by
  obtain ⟨e, hr⟩ := exists_restored soundImage (by decide +kernel)
  obtain ⟨h, found, captured, counted, live, -⟩ := Snapshot.restored_as_recorded hr
  refine ⟨e, hr, found.mpr (by decide +kernel), fun now => (captured now).mpr (by decide +kernel),
    counted.mpr (by decide +kernel), (live ?_).mpr (by decide +kernel)⟩
  exact h.state_eq_idle rfl

/-- An image with a second tree, whose instance waits for something that is not there. -/
def partedImage : Snapshot :=
  imageOfWait .idle [parentless 1 .executing 0, parentless 2 .executing 5] []

/-- An image of a workflow that waits although its root has closed. -/
def rootlessImage : Snapshot :=
  imageOfWait .idle [parentless 1 .closed 0] []

/-- An image of a workflow that has closed although its root is live. -/
def unfinishedImage : Snapshot :=
  imageOfWait .closed [parentless 1 .executing 0] []

/-- Images that no workflow leaves are admitted. One has an instance that cannot be found and a wrong
count, and what was restored from it cannot be captured. -/
theorem unsound_restored :
    (∃ e, partedImage.restore (Activity.waitAt "go").prepare 1 = .ok e ∧
      (¬ ∀ (k : InstanceId) (i : Instance), e.instances[k]? = some i → e.Found k) ∧
      (¬ ∀ (k : InstanceId) (i : Instance), e.instances[k]? = some i → i.state.isLive = true →
        i.busy = i.children.length + e.bookmarks.blocking k) ∧
      ∀ now image, e.capture now ≠ .ok image) ∧
    (∃ e, rootlessImage.restore (Activity.waitAt "go").prepare 1 = .ok e ∧ e.state = .idle ∧
      ¬ ∃ r, e.instances[e.root]? = some r ∧ r.state.isLive = true) ∧
    ∃ e, unfinishedImage.restore (Activity.waitAt "go").prepare 1 = .ok e ∧
      e.state.isCompleted = true ∧ ¬ ∃ r, e.instances[e.root]? = some r ∧ e.Ended r := by
  refine ⟨?_, ?_, ?_⟩
  · obtain ⟨e, hr⟩ := exists_restored partedImage (by decide +kernel)
    obtain ⟨h, -⟩ := Snapshot.admitted_of_restore hr
    refine ⟨e, hr, fun found => ?_, fun counted => ?_, fun now image captured => ?_⟩
    · exact absurd (h.all_found_iff.mp found) (by decide +kernel)
    · exact absurd (h.counted_iff.mp counted) (by decide +kernel)
    · exact absurd (h.capture_iff.mp ⟨image, captured⟩) (by decide +kernel)
  · obtain ⟨e, hr⟩ := exists_restored rootlessImage (by decide +kernel)
    obtain ⟨h, -⟩ := Snapshot.admitted_of_restore hr
    refine ⟨e, hr, h.state_eq_idle rfl, fun live => ?_⟩
    exact absurd (h.rootLive_iff.mp live) (by decide +kernel)
  · obtain ⟨e, hr⟩ := exists_restored unfinishedImage (by decide +kernel)
    obtain ⟨h, -⟩ := Snapshot.admitted_of_restore hr
    refine ⟨e, hr, h.isCompleted rfl, fun ⟨r, hroot, ended⟩ => ?_⟩
    exact absurd (h.ending_iff.mp (ended.exists_ending hroot)) (by decide +kernel)

end Workflow
