import Workflow.Proofs.Admission
import Workflow.Proofs.Places

/-!
# Walks over instances

A walk goes up the parent links until something is found, or down the links to the children. It is
stated here by what one round or one call does, without a limit. In a forest of bounded rank every walk
ends, and what it finds is what the executor reports, whose own walks count down from the number of
instances. Whatever snapshot was restored, the levels of the activities are such ranks, although
nothing looks for circles among the recorded links.
-/

namespace Workflow

/-! ### Loops -/

/-- A loop that ends after so many rounds. Its body stops with a result, or says with what to go on. -/
inductive Loops {σ ρ : Type} (body : σ → ρ ⊕ σ) : σ → Nat → ρ → Prop
  | stop {s : σ} {r : ρ} (h : body s = .inl r) : Loops body s 0 r
  | again {s s' : σ} {n : Nat} {r : ρ} (h : body s = .inr s') (rest : Loops body s' n r) :
      Loops body s (n + 1) r

/-! ### Up -/

/-- The instances from one up to one without a parent. -/
inductive Climbs (t : InstanceTable) : InstanceId → List InstanceId → Prop
  /-- It has none. -/
  | top {k : InstanceId} {i : Instance} (hi : t[k]? = some i) (hp : i.parent = none) : Climbs t k [k]
  /-- Its parent comes next. -/
  | up {k p : InstanceId} {i : Instance} {l : List InstanceId} (hi : t[k]? = some i)
      (hp : i.parent = some p) (rest : Climbs t p l) : Climbs t k (k :: l)

namespace Climbs

variable {rank : InstanceId → Nat} {t u : InstanceTable} {k : InstanceId} {l : List InstanceId}

/-- Whoever is met on the way up is there, and has no greater rank. -/
theorem met (hf : IsForest rank t) (h : Climbs t k l) :
    ∀ x ∈ l, (∃ i, t[x]? = some i) ∧ rank x ≤ rank k := by
  induction h with
  | top hi _ =>
    intro x hx
    rw [List.mem_singleton.mp hx]
    exact ⟨⟨_, hi⟩, Nat.le_refl _⟩
  | up hi hp _ ih =>
    intro x hx
    rcases List.mem_cons.mp hx with rfl | hx
    · exact ⟨⟨_, hi⟩, Nat.le_refl _⟩
    · obtain ⟨found, le⟩ := ih x hx
      exact ⟨found, Nat.le_trans le (Nat.le_of_lt (hf.rising hi hp))⟩

/-- Nobody is met twice, so no more are met than there are. -/
theorem length_le_size (hf : IsForest rank t) (h : Climbs t k l) : l.length ≤ t.size := by
  have nodup : l.Nodup := by
    induction h with
    | top _ _ => exact List.nodup_singleton _
    | up hi hp rest ih =>
      refine List.nodup_cons.mpr ⟨fun hm => ?_, ih⟩
      exact Nat.lt_irrefl _ (Nat.lt_of_le_of_lt (rest.met hf _ hm).2 (hf.rising hi hp))
  have there : l ⊆ t.keys := fun x hx => (Table.mem_keys_iff t).mpr (h.met hf x hx).1
  rw [← Table.length_keys]
  exact (List.subperm_of_subset nodup there).length_le

/-- The way up is the same in a table that agrees up to the rank where it begins. -/
theorem of_agree (hf : IsForest rank t) (h : Climbs t k l)
    (agree : ∀ x, rank x ≤ rank k → u[x]? = t[x]?) : Climbs u k l := by
  induction h with
  | top hi hp => exact .top ((agree _ (Nat.le_refl _)).trans hi) hp
  | up hi hp _ ih =>
    have rising := hf.rising hi hp
    exact .up ((agree _ (Nat.le_refl _)).trans hi) hp
      (ih fun x hx => agree x (Nat.le_trans hx (Nat.le_of_lt rising)))

end Climbs

/-- From every instance of a forest the way leads up to one without a parent, over no more links than
its rank. -/
theorem IsForest.exists_climbs {rank : InstanceId → Nat} {t : InstanceTable} (hf : IsForest rank t)
    {k : InstanceId} {i : Instance} (hi : t[k]? = some i) :
    ∃ l, Climbs t k l ∧ l.length ≤ rank k + 1 := by
  induction hn : rank k using Nat.strongRecOn generalizing k i with
  | _ n ih =>
    cases hp : i.parent with
    | none => exact ⟨[k], .top hi hp, Nat.succ_le_succ (Nat.zero_le n)⟩
    | some p =>
      obtain ⟨q, hq, -⟩ := hf.listed hi hp
      have rising := hf.rising hi hp
      obtain ⟨l, climbs, short⟩ := ih (rank p) (hn ▸ rising) hq rfl
      exact ⟨k :: l, .up hi hp climbs, by rw [List.length_cons]; omega⟩

namespace Executor

variable {e : Executor} {rank : InstanceId → Nat} {k : InstanceId} {l : List InstanceId}

/-- A climb that is allowed enough links meets whoever is on the way. -/
theorem climb_of_climbs (h : Climbs e.instances k l) {n : Nat} (hn : l.length ≤ n) :
    e.climb n (some k) = l := by
  induction h generalizing n with
  | top hi hp =>
    obtain ⟨n, rfl⟩ := Nat.exists_eq_add_of_le' hn
    rw [List.length_singleton, climb, instance?, hi, Option.bind_some, hp]
    cases n <;> rfl
  | up hi hp _ ih =>
    rw [List.length_cons] at hn
    obtain ⟨n, rfl⟩ := Nat.exists_eq_add_of_le' (Nat.le_trans (Nat.le_add_left 1 _) hn)
    rw [climb, instance?, hi, Option.bind_some, hp, ih (by omega)]

theorem lineage_of_climbs (hf : IsForest rank e.instances) (h : Climbs e.instances k l) :
    e.lineage k = l :=
  climb_of_climbs h (Nat.le_succ_of_le (h.length_le_size hf))

/-- Nobody is met above an instance that is not there. -/
theorem lineage_of_absent (hk : e.instance? k = none) : e.lineage k = [k] := by
  rw [lineage, climb, hk, Option.bind_none]
  cases e.instances.size <;> rfl

/-- One round of a search upwards. An instance gives what is looked for, or the search goes on at its
parent. -/
def search {α : Type} (e : Executor) (pick : InstanceId → Instance → Option α) :
    Option InstanceId → Option α ⊕ Option InstanceId
  | none => .inl none
  | some k =>
    match e.instance? k with
    | none => .inl none
    | some i =>
      match pick k i with
      | some a => .inl (some a)
      | none => .inr i.parent

/-- One round of the comparison of an instance and its ancestors with another one. -/
def compare (e : Executor) (ancestor : InstanceId) : Option InstanceId → Bool ⊕ Option InstanceId
  | none => .inl false
  | some k => if k = ancestor then .inl true else .inr ((e.instance? k).bind (·.parent))

/-- The instance itself, if it owns a location of a name. -/
def ownLocation (name : String) (k : InstanceId) (i : Instance) : Option InstanceId :=
  if i.environment.contains name then some k else none

/-- The value of a property of its own. -/
def ownProperty (name : String) (_ : InstanceId) (i : Instance) : Option Value :=
  i.properties[name]?

/-- A search ends with what the first on the way gives. -/
theorem search_climbs {α : Type} (pick : InstanceId → Instance → Option α)
    (h : Climbs e.instances k l) : ∃ n ≤ l.length,
      Loops (e.search pick) (some k) n (l.findSome? fun x => (e.instance? x).bind (pick x)) := by
  induction h with
  | @top k i hi hp =>
    have here : e.instance? k = some i := hi
    cases hpick : pick k i with
    | some a =>
      refine ⟨0, Nat.zero_le _, .stop ?_⟩
      simp [search, here, hpick]
    | none =>
      have next : e.search pick (some k) = .inr none := by simp [search, here, hpick, hp]
      refine ⟨1, Nat.le_refl _, .again next (.stop ?_)⟩
      simp [search, here, hpick]
  | @up k p i l hi hp _ ih =>
    have here : e.instance? k = some i := hi
    cases hpick : pick k i with
    | some a =>
      refine ⟨0, Nat.zero_le _, .stop ?_⟩
      simp [search, here, hpick]
    | none =>
      obtain ⟨n, hn, loops⟩ := ih
      have next : e.search pick (some k) = .inr (some p) := by simp [search, here, hpick, hp]
      refine ⟨n + 1, Nat.succ_le_succ hn, .again next ?_⟩
      simpa [here, hpick] using loops

/-- A comparison ends with whether the other one is on the way. -/
theorem compare_climbs (ancestor : InstanceId) (h : Climbs e.instances k l) :
    ∃ n ≤ l.length, Loops (e.compare ancestor) (some k) n (l.contains ancestor) := by
  induction h with
  | @top k i hi hp =>
    have here : e.instance? k = some i := hi
    by_cases hk : k = ancestor
    · refine ⟨0, Nat.zero_le _, .stop ?_⟩
      simp [compare, hk]
    · have next : e.compare ancestor (some k) = .inr none := by simp [compare, here, hk, hp]
      refine ⟨1, Nat.le_refl _, .again next (.stop ?_)⟩
      simp [compare, Ne.symm hk]
  | @up k p i l hi hp _ ih =>
    have here : e.instance? k = some i := hi
    by_cases hk : k = ancestor
    · refine ⟨0, Nat.zero_le _, .stop ?_⟩
      simp [compare, hk]
    · obtain ⟨n, hn, loops⟩ := ih
      have next : e.compare ancestor (some k) = .inr (some p) := by simp [compare, here, hk, hp]
      refine ⟨n + 1, Nat.succ_le_succ hn, .again next ?_⟩
      simpa [Ne.symm hk] using loops

end Executor

/-- A table whose instances make up a forest with so many ranks. -/
structure Terraced (rank : InstanceId → Nat) (height : Nat) (t : InstanceTable) : Prop where
  forest : IsForest rank t
  bounded : ∀ {k : InstanceId} {i : Instance}, t[k]? = some i → rank k < height

namespace Terraced

variable {rank : InstanceId → Nat} {height : Nat} {t : InstanceTable} {k : InstanceId} {i : Instance}

/-- The way up from an instance meets no more instances than there are ranks. -/
theorem exists_climbs (h : Terraced rank height t) (hi : t[k]? = some i) :
    ∃ l, Climbs t k l ∧ l.length ≤ height := by
  obtain ⟨l, climbs, short⟩ := h.forest.exists_climbs hi
  exact ⟨l, climbs, Nat.le_trans short (h.bounded hi)⟩

end Terraced

namespace Executor

variable {e : Executor} {rank : InstanceId → Nat} {height : Nat}

/-- Every search upwards ends, and finds the first on the way. -/
theorem search_ends {α : Type} (pick : InstanceId → Instance → Option α)
    (h : Terraced rank height e.instances) (k : InstanceId) : ∃ n ≤ height,
      Loops (e.search pick) (some k) n
        ((e.lineage k).findSome? fun x => (e.instance? x).bind (pick x)) := by
  cases hk : e.instance? k with
  | none =>
    refine ⟨0, Nat.zero_le _, .stop ?_⟩
    rw [lineage_of_absent hk]
    simp [search, hk]
  | some i =>
    obtain ⟨l, climbs, short⟩ := h.exists_climbs hk
    obtain ⟨n, hn, loops⟩ := search_climbs pick climbs
    rw [lineage_of_climbs h.forest climbs]
    exact ⟨n, Nat.le_trans hn short, loops⟩

/-- The search for a location ends, and finds the owner that the executor finds. -/
theorem location_search_ends (h : Terraced rank height e.instances) (k : InstanceId) (name : String) :
    ∃ n ≤ height, Loops (e.search (ownLocation name)) (some k) n (e.resolve? k name) := by
  obtain ⟨n, hn, loops⟩ := search_ends (ownLocation name) h k
  refine ⟨n, hn, ?_⟩
  have same : (e.lineage k).find? (fun x => (e.instance? x).any (·.environment.contains name)) =
      (e.lineage k).findSome? fun x => (e.instance? x).bind (ownLocation name x) := by
    rw [List.find?_eq_findSome?_guard]
    refine congrArg (List.findSome? · _) (funext fun x => ?_)
    cases hx : e.instance? x with
    | none => simp [Option.guard, hx]
    | some i => simp [Option.guard, ownLocation, hx]
  rwa [resolve?, same]

/-- The search for a property ends, and finds the value that the executor finds. -/
theorem property_search_ends (h : Terraced rank height e.instances) (k : InstanceId) (name : String) :
    ∃ n ≤ height, Loops (e.search (ownProperty name)) (some k) n (e.property? k name) :=
  search_ends (ownProperty name) h k

/-- The comparison with an ancestor ends, and tells what the executor tells. -/
theorem comparison_ends (h : Terraced rank height e.instances) (positive : 0 < height)
    (ancestor k : InstanceId) :
    ∃ n ≤ height, Loops (e.compare ancestor) (some k) n (e.isAncestorOrSelf ancestor k) := by
  rw [isAncestorOrSelf]
  cases hk : e.instance? k with
  | none =>
    rw [lineage_of_absent hk]
    by_cases same : k = ancestor
    · refine ⟨0, Nat.zero_le _, .stop ?_⟩
      simp [compare, same]
    · have next : e.compare ancestor (some k) = .inr none := by simp [compare, hk, same]
      refine ⟨1, positive, .again next (.stop ?_)⟩
      simp [compare, Ne.symm same]
  | some i =>
    obtain ⟨l, climbs, short⟩ := h.exists_climbs hk
    obtain ⟨n, hn, loops⟩ := compare_climbs ancestor climbs
    rw [lineage_of_climbs h.forest climbs]
    exact ⟨n, Nat.le_trans hn short, loops⟩

/-! ### Down -/

/-- One round of a capture. The uppermost of the pending instances is listed, and its children are
pending before the others. -/
def visit (e : Executor) : List InstanceId × List Instance →
    Except PersistenceError (List Instance) ⊕ (List InstanceId × List Instance)
  | ([], found) => .inl (.ok found)
  | (k :: pending, found) =>
    match e.instance? k with
    | none => .inl (.error (.unresolvedReference k))
    | some i => .inr (i.children ++ pending, found ++ [i])

/-- The visits of an instance and of what is below it come one after another. -/
theorem visits_of_listDown {n : Nat} {x : InstanceId} {l : List Instance} (h : e.listDown n x = .ok l)
    {pending : List InstanceId} {found : List Instance} {m : Nat}
    {r : Except PersistenceError (List Instance)} (rest : Loops e.visit (pending, found ++ l) m r) :
    Loops e.visit (x :: pending, found) (l.length + m) r := by
  induction n generalizing x l pending found m with
  | zero => cases h
  | succ n ih =>
    obtain ⟨_, i, below, hn, hi, rfl, lists⟩ := of_listDown h
    cases hn
    have children : ∀ {cs : List InstanceId} {ls : List (List Instance)} {found : List Instance},
        List.Forall₂ (fun c b => e.listDown n c = .ok b) cs ls →
          Loops e.visit (pending, found ++ ls.flatten) m r →
            Loops e.visit (cs ++ pending, found) (ls.flatten.length + m) r := by
      intro cs ls found hls rest
      induction hls generalizing found with
      | nil => simpa using rest
      | @cons c b cs ls hc _ ihls =>
        rw [List.flatten_cons, ← List.append_assoc] at rest
        rw [List.flatten_cons, List.length_append, Nat.add_assoc]
        exact ih hc (ihls rest)
    have here : e.instance? x = some i := hi
    have next : e.visit (x :: pending, found) = .inr (i.children ++ pending, found ++ [i]) := by
      simp [visit, here]
    rw [← List.singleton_append, ← List.append_assoc] at rest
    rw [List.length_cons, Nat.succ_add]
    exact .again next (children lists rest)

/-- A capture visits every instance at or below the root once, and ends with their list. -/
theorem visits_end (hf : IsForest rank e.instances) {i : Instance} (hi : e.instances[e.root]? = some i) :
    ∃ l, e.listDown (e.instances.size + 1) e.root = .ok l ∧ l.length ≤ e.instances.size ∧
      Loops e.visit ([e.root], []) l.length (.ok l) := by
  obtain ⟨l, hl⟩ := exists_listDown hf (n := e.instances.size + 1) hi
    (Nat.le_succ_of_le (InstanceTable.countFrom_le _ _ _))
  have there : l.map (·.id) ⊆ e.instances.keys := by
    intro k hk
    obtain ⟨j, hj, rfl⟩ := List.mem_map.mp hk
    exact (Table.mem_keys_iff _).mpr ⟨j, lookup_of_mem_listDown hf hl hj⟩
  have short : l.length ≤ e.instances.size := by
    rw [← Table.length_keys, ← List.length_map (·.id)]
    exact (List.subperm_of_subset (nodup_listDown hf hl) there).length_le
  exact ⟨l, hl, short, visits_of_listDown hl (.stop rfl)⟩

end Executor

end Workflow
