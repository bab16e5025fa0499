import Workflow.Proofs.Demolition

/-!
# What was restored can be walked

A snapshot may come from anywhere, and restoring it looks at one link after another only: every parent
that is named must be there, and must run the activity above that of its child. That is enough. The
levels of the activities decrease along the links, so that there is no circle, and whatever follows
the links ends.
-/

namespace Workflow

variable {s : Snapshot} {a : Activity} {e : Executor} {mailbox : Nat}

/-- The level of the activity that an instance runs. -/
def InstanceTable.depth (d : Definition) (t : InstanceTable) (k : InstanceId) : Nat :=
  d.level ((t[k]?.map (·.node)).getD .root)

/-- What refers to instances leads to them. -/
structure Connected (s : Snapshot) (a : Activity) (e : Executor) : Prop where
  /-- No identifier is recorded twice. -/
  distinct : (s.instances.map (·.id)).Nodup
  /-- The instances are those of the records. -/
  recorded : ∀ k : InstanceId, (∃ i, e.instances[k]? = some i) ↔ ∃ r ∈ s.instances, r.id = k
  /-- They stand under their identifiers, which have been given out. -/
  keyed : ∀ (k : InstanceId) (i : Instance), e.instances[k]? = some i →
    i.id = k ∧ k.number < e.nextInstance
  /-- An instance has those as children, once each and in the order of the records, that have it as
  their parent. -/
  children : ∀ (k : InstanceId) (i : Instance), e.instances[k]? = some i →
    i.children = InstanceTable.childrenIn s.instances k ∧ i.children.Nodup ∧
      ∀ c, c ∈ i.children ↔ ∃ j, e.instances[c]? = some j ∧ j.parent = some k
  /-- A parent is there, and runs the activity above. -/
  declared : ∀ (k p : InstanceId) (i : Instance), e.instances[k]? = some i → i.parent = some p →
    ∃ q, e.instances[p]? = some q ∧ a.prepare.isDeclaredChild q.node i.node = true
  /-- The way up from an instance leads to one without a parent, past no more than one for each level
  of the definition. -/
  climbs : ∀ (k : InstanceId) (i : Instance), e.instances[k]? = some i →
    ∃ l, Climbs e.instances k l ∧ l.length ≤ a.height
  /-- A bookmark has a live owner, and its scope exists. -/
  bookmarks : ∀ (b : Bookmark) (g : Registration), e.bookmarks.registrations[b]? = some g →
    g.bookmark = b ∧ (∃ o, e.instances[g.owner]? = some o ∧ o.state.isLive = true) ∧
      e.bookmarks.scopeExists b.scope = true

/-- Whatever follows the links of the instances ends, and it does so with what the executor reports. -/
structure Navigable (height : Nat) (e : Executor) : Prop where
  /-- The search for the owner of a location. -/
  locations : ∀ (k : InstanceId) (name : String), ∃ n ≤ height,
    Loops (e.search (Executor.ownLocation name)) (some k) n (e.resolve? k name)
  /-- The search for a property. -/
  properties : ∀ (k : InstanceId) (name : String), ∃ n ≤ height,
    Loops (e.search (Executor.ownProperty name)) (some k) n (e.property? k name)
  /-- The comparison with an ancestor. -/
  ancestors : ∀ ancestor k : InstanceId, ∃ n ≤ height,
    Loops (e.compare ancestor) (some k) n (e.isAncestorOrSelf ancestor k)
  /-- The teardown of an instance, which takes away what is at or below it and nothing else. -/
  aborts : ∀ (f : Fault) (x : InstanceId), ∃ e', Executor.Aborts f height [x] e e' ∧
    e' = (e.descend e.instances.size x).foldl (fun e k => e.abortInstance f k) e ∧
    ∀ k, (Within e.instances x k → e'.instances[k]? = none) ∧
      (¬ Within e.instances x k → e'.instances[k]? = e.instances[k]?)
  /-- A fault. -/
  faults : ∀ (f : Fault) (x : InstanceId), ∃ n ≤ height,
    Executor.Faults f height n x e (e.faultInstance x f)
  /-- The visits of a capture, each of another instance. -/
  visits : ∃ l, e.listDown (e.instances.size + 1) e.root = .ok l ∧ l.length ≤ e.instances.size ∧
    Loops e.visit ([e.root], []) l.length (.ok l)

namespace Admitted

variable (h : Admitted s a.prepare e)
include h

/-- The levels of the activities are ranks of the instances that run them. -/
theorem terraced :
    Terraced (InstanceTable.depth a.prepare e.instances) a.height e.instances where
  forest := {
    keyed := h.forest.keyed
    nodup := h.forest.nodup
    listed := h.forest.listed
    linked := h.forest.linked
    rising {k p i} hi hp := by
      obtain ⟨q, hq, declared⟩ := h.recorded.attached k p i hi hp
      have level := Definition.level_of_isDeclaredChild declared
      simp only [InstanceTable.depth, hi, hq, Option.map_some, Option.getD_some]
      omega }
  bounded _ := Definition.level_lt_height a _

/-- What was restored is connected as the snapshot says. -/
theorem connected : Connected s a e where
  distinct := h.recorded.distinct
  recorded k := by
    constructor
    · rintro ⟨i, hi⟩
      obtain ⟨r, hr, hk, -⟩ := h.recorded.record hi
      exact ⟨r, hr, hk⟩
    · rintro ⟨r, hr, rfl⟩
      obtain ⟨i, hi, -⟩ := h.recorded.exists_instance hr
      exact ⟨i, hi⟩
  keyed k i hi := by
    obtain ⟨r, hr, rfl, id, -⟩ := h.recorded.record hi
    exact ⟨id, h.counters.1 ▸ h.recorded.below r hr⟩
  children k i hi := by
    obtain ⟨-, -, -, -, -, -, -, -, children⟩ := h.recorded.record hi
    refine ⟨children, h.forest.nodup hi, fun c => ⟨h.forest.linked hi, ?_⟩⟩
    rintro ⟨j, hj, hp⟩
    obtain ⟨q, hq, hc⟩ := h.forest.listed hj hp
    cases hi.symm.trans hq
    exact hc
  declared := h.recorded.attached
  climbs _ _ hi := h.terraced.exists_climbs hi
  bookmarks b g hg := by
    rw [h.bookmarks] at hg
    obtain rfl : g.bookmark = b := by simpa using List.find?_some hg
    obtain ⟨live, scope⟩ := h.owned g (List.mem_of_find?_eq_some hg)
    exact ⟨rfl, Executor.isLive_iff.mp live, scope⟩

/-- What was restored can be walked. -/
theorem navigable : Navigable a.height e where
  locations := Executor.location_search_ends h.terraced
  properties := Executor.property_search_ends h.terraced
  ancestors := Executor.comparison_ends h.terraced a.height_pos
  aborts := Executor.abort_ends h.terraced a.height_pos
  faults := Executor.fault_ends h.terraced
  visits := by
    obtain ⟨r, hr, -⟩ := h.rooted
    exact Executor.visits_end h.forest hr

end Admitted

/-- Whatever snapshot was restored, its records are linked to one forest: the children are those that
name their parent, and every way up ends at the latest at the level of the whole definition. So the
searches upwards, the teardown of instances, faults and the visits of a capture end. -/
theorem Snapshot.restored_walks (hr : s.restore a.prepare mailbox = .ok e) :
    Connected s a e ∧ Navigable a.height e := by
  obtain ⟨h, -⟩ := admitted_of_restore hr
  exact ⟨h.connected, h.navigable⟩

/-- An activity with another one below it. -/
def twoLevels : Activity :=
  .parallel [.waitAt "go"]

/-- An image of it that no workflow leaves: the child is recorded before its parent and is the older
one. -/
def youngParentImage : Snapshot where
  workflow := default
  fingerprint := twoLevels.prepare.fingerprint
  state := .idle
  nextInstance := 3
  nextOperation := 1
  root := ⟨2⟩
  instances := [{ parentless 1 .executing 1 with path := "1.1", parent := some ⟨2⟩ },
    parentless 2 .executing 1]
  bookmarks := [⟨⟨.default, "go"⟩, ⟨1⟩, none, .once⟩]
  scopes := []
  createdAt := ⟨0, 0⟩
  instanceCount := 2
  bookmarkCount := 1

/-- The image is restored, its older child leads up to its parent, and whatever follows its links
ends. -/
theorem restored_walks_youngParent : ∃ e, youngParentImage.restore twoLevels.prepare 1 = .ok e ∧
    Connected youngParentImage twoLevels e ∧ Navigable 2 e ∧
    ∃ i, e.instances[(⟨2⟩ : InstanceId)]? = some i ∧ i.children = [⟨1⟩] := by
  have restored : (youngParentImage.restore twoLevels.prepare 1).toOption.isSome = true := by
    decide +kernel
  cases hr : youngParentImage.restore twoLevels.prepare 1 with
  | error _ =>
    rw [hr] at restored
    exact absurd restored Bool.false_ne_true
  | ok e =>
    obtain ⟨connected, navigable⟩ := Snapshot.restored_walks hr
    obtain ⟨i, hi⟩ :=
      (connected.recorded ⟨2⟩).mpr ⟨_, List.mem_cons_of_mem _ List.mem_cons_self, rfl⟩
    exact ⟨e, rfl, connected, navigable, i, hi, (connected.children _ i hi).1⟩

end Workflow
