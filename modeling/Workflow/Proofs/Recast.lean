import Workflow.Proofs.Listing

/-!
# Instances from records

The record of an instance leads to an instance that runs the activity of the same path. Its fault is
one message; everything else is as it was, and its children find it again.
-/

namespace Workflow

/-- The values of a record are the values that were recorded. -/
theorem Environment.ofRecords_records (env : Environment) : Environment.ofRecords env.records = env := by
  unfold Environment.ofRecords Environment.records
  rw [List.foldl_map]
  exact Table.foldl_insert_toList env

/-- An instance as it comes back in another definition. -/
def Instance.recast (d d' : Definition) (i : Instance) : Except PersistenceError Instance := do
  let node ← d'.resolvePath (d.node i.node).path
  let fault ← i.fault.mapM fun f => (f.record d).restore d'
  return { i with node, fault }

/-- A record leads to the instance as it comes back, without its children. -/
theorem Instance.restore_record (d d' : Definition) (i : Instance) :
    (i.record d).restore d' = (i.recast d d').map fun j => { j with children := [] } := by
  have he : Environment.ofRecords (i.record d).environment = i.environment :=
    Environment.ofRecords_records _
  have hp : Environment.ofRecords (i.record d).properties = i.properties :=
    Environment.ofRecords_records _
  have hf : (i.record d).fault.mapM (·.restore d') = i.fault.mapM fun f => (f.record d).restore d' := by
    unfold Instance.record
    cases i.fault <;> rfl
  unfold InstanceRecord.restore Instance.recast
  rw [he, hp, hf]
  unfold Instance.record
  dsimp only
  cases d'.resolvePath (d.node i.node).path with
  | error _ => rfl
  | ok node =>
    cases i.fault.mapM fun f => (f.record d).restore d' with
    | error _ => rfl
    | ok fault => rfl

/-- What comes back of an instance. -/
theorem Instance.of_recast {d d' : Definition} {i j : Instance} (h : i.recast d d' = .ok j) :
    ∃ node fault, d'.findByPath? (d.node i.node).path = some node ∧
      (i.fault.mapM fun f => (f.record d).restore d') = .ok fault ∧
      j = { i with node, fault } := by
  unfold recast Definition.resolvePath at h
  cases hn : d'.findByPath? (d.node i.node).path with
  | none =>
    rw [hn] at h
    cases h
  | some node =>
    rw [hn] at h
    cases hf : i.fault.mapM fun f => (f.record d).restore d' with
    | error _ =>
      simp only [hf] at h
      cases h
    | ok fault =>
      simp only [hf] at h
      cases h
      exact ⟨node, fault, rfl, rfl, rfl⟩

/-- The fault that comes back of a fault. -/
theorem Fault.of_restore_record {d d' : Definition} {f g : Fault}
    (h : (f.record d).restore d' = .ok g) : ∃ node,
      d'.findByPath? (d.node f.sourceNode).path = some node ∧
        g = { f with error := .custom f.error.describe [], sourceNode := node } := by
  unfold FaultRecord.restore Definition.resolvePath Fault.record at h
  dsimp only at h
  cases hn : d'.findByPath? (d.node f.sourceNode).path with
  | none =>
    rw [hn] at h
    cases h
  | some node =>
    rw [hn] at h
    cases h
    exact ⟨node, rfl, rfl⟩

/-- A sound instance comes back sound. -/
theorem Instance.Sound.recast {d d' : Definition} {i j : Instance} (h : i.Sound d)
    (hw : d'.WellFormed) (hj : i.recast d d' = .ok j) : j.Sound d' := by
  have known : ∀ {path : String} {k : NodeId}, d'.findByPath? path = some k →
      (d'.get? k).isSome = true := by
    intro path k hk
    obtain ⟨n, hn, -⟩ := hw.get?_of_findByPath? hk
    rw [hn]
    rfl
  obtain ⟨node, fault, hn, hf, rfl⟩ := Instance.of_recast hj
  have faults : fault.isSome = i.fault.isSome ∧
      ∀ g, fault = some g → (d'.get? g.sourceNode).isSome = true := by
    cases hif : i.fault with
    | none =>
      rw [hif] at hf
      cases hf
      exact ⟨rfl, fun g hg => absurd hg.symm (Option.some_ne_none g)⟩
    | some f =>
      rw [hif] at hf
      cases hr : (f.record d).restore d' with
      | error _ =>
        simp only [Option.mapM_some, hr] at hf
        cases hf
      | ok g =>
        simp only [Option.mapM_some, hr] at hf
        cases hf
        obtain ⟨k, hk, rfl⟩ := Fault.of_restore_record hr
        refine ⟨rfl, fun a ha => ?_⟩
        cases ha
        exact known hk
  refine ⟨known hn, h.ascending, h.childless, h.steady, ?_, faults.2⟩
  rw [← h.faulted]
  exact Bool.eq_iff_iff.mp faults.1

namespace InstanceTable

variable {d d' : Definition} {next : Nat} {t u : InstanceTable} {r : InstanceRecord}
variable {records : List InstanceRecord}

/-- A record is added if it is new, its number has been given out and it leads to an instance. -/
theorem addRecord_eq_ok : addRecord d next t r = .ok u ↔
    r.id.number < next ∧ t[r.id]? = none ∧ ∃ j, r.restore d = .ok j ∧ u = t.insert r.id j := by
  unfold addRecord
  by_cases hn : next ≤ r.id.number
  · rw [if_pos hn]
    refine ⟨fun h => (by cases h), fun h => absurd h.1 (Nat.not_lt.mpr hn)⟩
  · rw [if_neg hn]
    cases hr : r.restore d with
    | error _ =>
      refine ⟨fun h => (by cases h), fun ⟨_, _, j, hj, _⟩ => (by cases hj)⟩
    | ok j =>
      cases ht : t[r.id]? with
      | some i =>
        have hc : t.contains r.id = true := by
          rw [Std.ExtTreeMap.contains_eq_isSome_getElem?, ht]
          rfl
        simp only [bind, Except.bind, pure, Except.pure, hc, if_true]
        exact ⟨fun h => (by cases h), fun ⟨_, h, _⟩ => (by cases h)⟩
      | none =>
        have hc : t.contains r.id = false := by
          rw [Std.ExtTreeMap.contains_eq_isSome_getElem?, ht]
          rfl
        simp only [bind, Except.bind, pure, Except.pure, hc, Bool.false_eq_true, if_false]
        constructor
        · intro h
          cases h
          exact ⟨Nat.lt_of_not_le hn, trivial, j, rfl, rfl⟩
        · rintro ⟨-, -, j', hj, rfl⟩
          cases hj
          rfl

/-- A record is entered among the children of its parent if it runs a declared child. -/
theorem linkRecord_eq_ok {p : InstanceId} (hp : r.parent = some p) : linkRecord d t r = .ok u ↔
    ∃ c q, t[r.id]? = some c ∧ t[p]? = some q ∧ d.isDeclaredChild q.node c.node = true ∧
      u = t.insert p { q with children := q.children ++ [r.id] } := by
  unfold linkRecord resolve
  rw [hp]
  dsimp only
  cases hc : t[r.id]? with
  | none => exact ⟨fun h => (by cases h), fun ⟨_, _, h, _⟩ => (by cases h)⟩
  | some c =>
    cases hq : t[p]? with
    | none => exact ⟨fun h => (by cases h), fun ⟨_, _, _, h, _⟩ => (by cases h)⟩
    | some q =>
      simp only [bind, Except.bind, pure, Except.pure]
      cases hd : d.isDeclaredChild q.node c.node with
      | false =>
        simp only [Bool.not_false, if_true]
        refine ⟨fun h => (by cases h), ?_⟩
        rintro ⟨c', q', hc', hq', hd', -⟩
        cases hc'
        cases hq'
        rw [hd] at hd'
        exact absurd hd' Bool.false_ne_true
      | true =>
        simp only [Bool.not_true, Bool.false_eq_true, if_false]
        constructor
        · intro h
          cases h
          exact ⟨c, q, rfl, rfl, hd, rfl⟩
        · rintro ⟨c', q', hc', hq', -, rfl⟩
          cases hc'
          cases hq'
          rfl

/-- A traversal that succeeds has succeeded with the first item and then with the rest. -/
theorem foldlM_cons_eq_ok {ε α β : Type} {f : β → α → Except ε β} {a : α} {as : List α} {b c : β} :
    (a :: as).foldlM f b = .ok c ↔ ∃ b', f b a = .ok b' ∧ as.foldlM f b' = .ok c := by
  rw [List.foldlM_cons]
  cases f b a with
  | error _ => exact ⟨fun h => (by cases h), fun ⟨_, h, _⟩ => (by cases h)⟩
  | ok b' => exact ⟨fun h => ⟨b', rfl, h⟩, fun ⟨_, h, h'⟩ => by cases h; exact h'⟩

/-- What is there after records were added was there before or comes from a record. -/
theorem of_addRecords (h : records.foldlM (addRecord d next) t = .ok u) (k : InstanceId)
    (j : Instance) :
    u[k]? = some j ↔ t[k]? = some j ∨ ∃ r ∈ records, r.id = k ∧ r.restore d = .ok j := by
  induction records generalizing t with
  | nil =>
    cases h
    simp
  | cons r rest ih =>
    obtain ⟨t₁, h₁, h⟩ := foldlM_cons_eq_ok.mp h
    obtain ⟨-, hn, i, hi, rfl⟩ := addRecord_eq_ok.mp h₁
    rw [ih h, Table.lookup_insert]
    by_cases hk : r.id = k
    · subst hk
      rw [if_pos rfl, hn]
      constructor
      · rintro (hj | ⟨a, ha, hak, haj⟩)
        · cases hj
          exact .inr ⟨r, List.mem_cons_self, rfl, hi⟩
        · exact .inr ⟨a, List.mem_cons_of_mem r ha, hak, haj⟩
      · rintro (hj | ⟨a, ha, hak, haj⟩)
        · exact absurd hj.symm (Option.some_ne_none j)
        · rcases List.mem_cons.mp ha with rfl | ha
          · cases hi.symm.trans haj
            exact .inl rfl
          · exact .inr ⟨a, ha, hak, haj⟩
    · rw [if_neg hk]
      refine or_congr_right ⟨fun ⟨a, ha, h⟩ => ⟨a, List.mem_cons_of_mem r ha, h⟩, ?_⟩
      rintro ⟨a, ha, hak, haj⟩
      rcases List.mem_cons.mp ha with rfl | ha
      · exact absurd hak hk
      · exact ⟨a, ha, hak, haj⟩

/-- Every record that was added leads to an instance. -/
theorem restored_of_addRecords (h : records.foldlM (addRecord d next) t = .ok u)
    (hr : r ∈ records) : ∃ j, r.restore d = .ok j := by
  induction records generalizing t with
  | nil => exact absurd hr List.not_mem_nil
  | cons a rest ih =>
    obtain ⟨t₁, h₁, h⟩ := foldlM_cons_eq_ok.mp h
    rcases List.mem_cons.mp hr with rfl | hr
    · obtain ⟨-, -, j, hj, -⟩ := addRecord_eq_ok.mp h₁
      exact ⟨j, hj⟩
    · exact ih h hr

/-- Records of different new instances can be added if each leads to an instance. -/
theorem exists_addRecords (hd : (records.map (·.id)).Nodup)
    (hr : ∀ r ∈ records, r.id.number < next ∧ t[r.id]? = none ∧ ∃ j, r.restore d = .ok j) :
    ∃ u, records.foldlM (addRecord d next) t = .ok u := by
  induction records generalizing t with
  | nil => exact ⟨t, rfl⟩
  | cons r rest ih =>
    obtain ⟨hr₀, hd⟩ := List.nodup_cons.mp hd
    obtain ⟨hn, ht, j, hj⟩ := hr r List.mem_cons_self
    obtain ⟨u, hu⟩ := ih (t := t.insert r.id j) hd fun a ha => by
      obtain ⟨han, hat, hai⟩ := hr a (List.mem_cons_of_mem r ha)
      have hk : r.id ≠ a.id := fun hk => hr₀ (List.mem_map.mpr ⟨a, ha, hk.symm⟩)
      exact ⟨han, by rw [Table.lookup_insert, if_neg hk, hat], hai⟩
    exact ⟨u, foldlM_cons_eq_ok.mpr ⟨_, addRecord_eq_ok.mpr ⟨hn, ht, j, hj, rfl⟩, hu⟩⟩

/-- One more child of an instance. -/
theorem lookup_link {p : InstanceId} {q : Instance} (hq : t[p]? = some q) (c k : InstanceId) :
    (t.insert p { q with children := q.children ++ [c] })[k]? =
      t[k]?.map fun i => { i with children := i.children ++ if p = k then [c] else [] } := by
  rw [Table.lookup_insert]
  by_cases hk : p = k
  · subst hk
    simp only [if_true, hq, Option.map_some]
  · simp only [if_neg hk, List.append_nil]
    exact Option.map_id'.symm

/-- The children that records enter for an instance. -/
def childrenIn (records : List InstanceRecord) (k : InstanceId) : List InstanceId :=
  (records.filter (·.parent == some k)).map (·.id)

/-- Records that are entered one after another run declared children, and every instance gets its
children in the order of the records. -/
theorem of_linkRecords (h : records.foldlM (linkRecord d) t = .ok u) :
    (∀ k : InstanceId, u[k]? =
      t[k]?.map fun i => { i with children := i.children ++ childrenIn records k }) ∧
    ∀ r ∈ records, ∀ p, r.parent = some p →
      ∃ c q, t[r.id]? = some c ∧ t[p]? = some q ∧ d.isDeclaredChild q.node c.node = true := by
  induction records generalizing t with
  | nil =>
    cases h
    refine ⟨fun k => ?_, fun r hr => absurd hr List.not_mem_nil⟩
    simp only [childrenIn, List.filter_nil, List.map_nil, List.append_nil]
    exact Option.map_id'.symm
  | cons r rest ih =>
    obtain ⟨t₁, h₁, h⟩ := foldlM_cons_eq_ok.mp h
    obtain ⟨hu, hr⟩ := ih h
    cases hp : r.parent with
    | none =>
      unfold linkRecord at h₁
      rw [hp] at h₁
      cases h₁
      refine ⟨fun k => ?_, fun a ha p hap => ?_⟩
      · rw [hu, childrenIn, childrenIn, List.filter_cons_of_neg (by rw [hp]; simp)]
      · rcases List.mem_cons.mp ha with rfl | ha
        · rw [hp] at hap
          exact absurd hap.symm (Option.some_ne_none p)
        · exact hr a ha p hap
    | some p =>
      obtain ⟨c, q, hc, hq, hd, rfl⟩ := (linkRecord_eq_ok hp).mp h₁
      refine ⟨fun k => ?_, fun a ha b hab => ?_⟩
      · rw [hu, lookup_link hq, Option.map_map]
        refine congrArg (fun f => Option.map f t[k]?) (funext fun i => ?_)
        simp only [Function.comp, childrenIn]
        by_cases hk : p = k
        · subst hk
          rw [if_pos rfl, List.filter_cons_of_pos (by rw [hp]; simp), List.map_cons,
            List.append_assoc]
          rfl
        · rw [if_neg hk, List.append_nil, List.filter_cons_of_neg (by rw [hp]; simpa using hk)]
      · rcases List.mem_cons.mp ha with rfl | ha
        · cases hp.symm.trans hab
          exact ⟨c, q, hc, hq, hd⟩
        · obtain ⟨c', q', hc', hq', hd'⟩ := hr a ha b hab
          rw [lookup_link hq, Option.map_eq_some_iff] at hc' hq'
          obtain ⟨c', hc', rfl⟩ := hc'
          obtain ⟨q', hq', rfl⟩ := hq'
          exact ⟨c', q', hc', hq', hd'⟩

/-- Records that run declared children can be entered. -/
theorem exists_linkRecords (h : ∀ r ∈ records, ∀ p, r.parent = some p →
      ∃ c q, t[r.id]? = some c ∧ t[p]? = some q ∧ d.isDeclaredChild q.node c.node = true) :
    ∃ u, records.foldlM (linkRecord d) t = .ok u := by
  induction records generalizing t with
  | nil => exact ⟨t, rfl⟩
  | cons r rest ih =>
    have later : ∀ a ∈ rest, ∀ p, a.parent = some p →
        ∃ c q, t[a.id]? = some c ∧ t[p]? = some q ∧ d.isDeclaredChild q.node c.node = true :=
      fun a ha => h a (List.mem_cons_of_mem r ha)
    cases hp : r.parent with
    | none =>
      obtain ⟨u, hu⟩ := ih later
      refine ⟨u, foldlM_cons_eq_ok.mpr ⟨t, ?_, hu⟩⟩
      rw [linkRecord, hp]
    | some p =>
      obtain ⟨c, q, hc, hq, hd⟩ := h r List.mem_cons_self p hp
      obtain ⟨u, hu⟩ := ih (t := t.insert p { q with children := q.children ++ [r.id] })
        fun a ha b hab => by
          obtain ⟨c', q', hc', hq', hd'⟩ := later a ha b hab
          simp only [lookup_link hq, hc', hq', Option.map_some]
          exact ⟨_, _, rfl, rfl, hd'⟩
      exact ⟨u, foldlM_cons_eq_ok.mpr ⟨_, (linkRecord_eq_ok hp).mpr ⟨c, q, hc, hq, hd, rfl⟩, hu⟩⟩

end InstanceTable

end Workflow
