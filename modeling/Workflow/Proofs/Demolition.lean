import Workflow.Proofs.Teardown
import Workflow.Proofs.Walks

/-!
# Faults, call by call

A fault takes down what is below an instance, and goes on at the parent unless it is handled. Both are
recursive, and both change the table while they follow its links: an instance that is taken down is
gone before its parent goes, and its siblings are not touched. In a forest of bounded rank no call is
nested deeper than there are ranks, and what the calls do in turn is what the executor does with the
list of all that is below.
-/

namespace Workflow.Executor

variable {e e₀ e₁ e' : Executor} {rank : InstanceId → Nat} {height n : Nat} {x k p : InstanceId}
variable {i j : Instance} {f : Fault}

/-! ### One call -/

/-- Take an instance away. Unless it has completed, what it owns goes with it and its body is told. -/
def dismiss (f : Fault) (x : InstanceId) (isTerminal : Bool) (e : Executor) : Executor :=
  let e :=
    if isTerminal then e
    else ((e.releaseResources x).callAbortHook x f).trackState x .faulted
  { e with instances := e.instances.erase x }

/-- Instances are taken down one after another, each after its own children. The calls are nested at
most so deep. -/
inductive Aborts (f : Fault) : Nat → List InstanceId → Executor → Executor → Prop
  /-- None is left. -/
  | done {n : Nat} {e : Executor} : Aborts f n [] e e
  /-- One that is not there is left out. -/
  | gone {n : Nat} {x : InstanceId} {xs : List InstanceId} {e e' : Executor}
      (hx : e.instance? x = none) (rest : Aborts f (n + 1) xs e e') : Aborts f (n + 1) (x :: xs) e e'
  /-- The children of one go, then itself. -/
  | down {n : Nat} {x : InstanceId} {xs : List InstanceId} {e e₁ e' : Executor} {i : Instance}
      (hx : e.instance? x = some i) (below : Aborts f n i.children e e₁)
      (rest : Aborts f (n + 1) xs (e₁.dismiss f x i.state.isTerminal) e') :
      Aborts f (n + 1) (x :: xs) e e'

/-- A live instance faults: its children are taken down, and what it owns is released. The instance
that is left then is `j`. -/
structure Clears (f : Fault) (n : Nat) (x : InstanceId) (e : Executor) (j : Instance) (e₁ : Executor) :
    Prop where
  live : ∃ i, e.instance? x = some i ∧ i.state.isTerminal = false ∧
    ∃ e', Aborts f n i.children (e.modify x fun i => { i with state := .faulting, children := [] }) e' ∧
      e₁ = e'.releaseResources x
  left : e₁.instance? x = some j

/-- The fault of an instance is recorded. -/
def recordFault (f : Fault) (x : InstanceId) (e : Executor) : Executor :=
  (e.modify x fun i => { i with state := .faulted, busy := 0, fault := some f }).trackState x .faulted

/-- An instance faults, and the fault goes on at its parent unless it is handled or ends the workflow.
It goes up at most so many links, and nothing is taken down deeper than `height`. -/
inductive Faults (f : Fault) (height : Nat) : Nat → InstanceId → Executor → Executor → Prop
  /-- The instance is not there. -/
  | gone {n : Nat} {x : InstanceId} {e : Executor} (hx : e.instance? x = none) : Faults f height n x e e
  /-- It has completed. -/
  | ended {n : Nat} {x : InstanceId} {e : Executor} {i : Instance} (hx : e.instance? x = some i)
      (ht : i.state.isTerminal = true) : Faults f height n x e e
  /-- It has no parent. -/
  | root {n : Nat} {x : InstanceId} {e e₁ : Executor} {j : Instance} (cleared : Clears f height x e j e₁)
      (hp : j.parent = none) :
      Faults f height n x e ((e₁.recordFault f x).trackFault f none).finishWorkflow
  /-- Its parent handles the fault. -/
  | handled {n : Nat} {x p : InstanceId} {e e₁ : Executor} {j : Instance} {callback : CallbackTag}
      (cleared : Clears f height x e j e₁) (hp : j.parent = some p)
      (hc : j.faultCallback = some callback) :
      Faults f height n x e
        (((e₁.recordFault f x).trackFault f (some p)).enqueue (.fault p x callback f))
  /-- Its parent faults. -/
  | passed {n : Nat} {x p : InstanceId} {e e₁ e' : Executor} {j : Instance}
      (cleared : Clears f height x e j e₁) (hp : j.parent = some p) (hc : j.faultCallback = none)
      (rest : Faults f height n p (e₁.recordFault f x) e') : Faults f height (n + 1) x e e'

/-! ### What is taken down -/

theorem abortInstance_of_some (hx : e.instance? x = some i) :
    e.abortInstance f x = e.dismiss f x i.state.isTerminal := by
  rw [abortInstance, hx]
  rfl

theorem instances_dismiss (isTerminal : Bool) :
    (e.dismiss f x isTerminal).instances = e.instances.erase x := by
  cases isTerminal with
  | true => rfl
  | false =>
    have core : SameCore (e.releaseResources x)
        (((e.releaseResources x).callAbortHook x f).trackState x .faulted) :=
      (sameCore_callAbortHook x f).trans (sameCore_trackState x .faulted)
    change Std.ExtTreeMap.erase _ x = _
    rw [if_neg Bool.false_ne_true, core.instances]
    rfl

theorem instances_releaseResources (e : Executor) (x : InstanceId) :
    (e.releaseResources x).instances = e.instances :=
  rfl

/-- The table after instances were taken away. -/
theorem lookup_abortAll (l : List InstanceId) (k : InstanceId) :
    (l.foldl (fun e x => e.abortInstance f x) e).instances[k]? =
      if k ∈ l then none else e.instances[k]? := by
  induction l generalizing e with
  | nil => rfl
  | cons x rest ih =>
    have one : (e.abortInstance f x).instances[k]? = if x = k then none else e.instances[k]? := by
      cases hx : e.instance? x with
      | none =>
        have absent : e.abortInstance f x = e := by rw [abortInstance, hx]
        rw [absent]
        by_cases same : x = k
        · rw [if_pos same, ← same]
          exact hx
        · rw [if_neg same]
      | some i => rw [abortInstance_of_some hx, instances_dismiss, Table.lookup_erase]
    rw [List.foldl_cons, ih, one]
    simp only [List.mem_cons, eq_comm]
    by_cases hr : k ∈ rest <;> by_cases hk : x = k <;> simp [hr, hk]

/-- Instances of which none stands at or below another. -/
def Apart (t : InstanceTable) (xs : List InstanceId) : Prop :=
  xs.Pairwise fun a b => ∀ k, Within t a k → ¬ Within t b k

/-- Children stand apart. -/
theorem apart_children (hf : IsForest rank e.instances) (hi : e.instances[x]? = some i) :
    Apart e.instances i.children := by
  refine (hf.nodup hi).imp_of_mem fun {a b} ha hb hab k hk hk' => ?_
  obtain ⟨q, hq, hqx⟩ := hf.linked hi ha
  obtain ⟨r, hr, hrx⟩ := hf.linked hi hb
  exact (hf.apart hq hqx hr hrx hab hk hk').1 rfl

/-- Nobody is below itself. -/
theorem not_within_child (hf : IsForest rank e.instances) (hi : e.instances[x]? = some i)
    {c : InstanceId} (hc : c ∈ i.children) : ¬ Within e.instances c x := by
  intro hw
  obtain ⟨q, hq, hqx⟩ := hf.linked hi hc
  exact Nat.lt_irrefl _ (hf.lt_of_under (hw.under_parent hq hqx))

/-- What is found at or below the children of an instance is below it. -/
theorem within_of_mem_children (hf : IsForest rank e.instances) (hi : e.instances[x]? = some i)
    {n : Nat} {k : InstanceId} (hk : k ∈ i.children.flatMap (e.descend n)) :
    k ≠ x ∧ Within e.instances x k := by
  obtain ⟨c, hc, hk⟩ := List.mem_flatMap.mp hk
  obtain ⟨q, hq, hqx⟩ := hf.linked hi hc
  have hw : Within e.instances c k := under_of_mem_descend hf n hk
  refine ⟨?_, .inr (hw.under_parent hq hqx)⟩
  rintro rfl
  exact not_within_child hf hi hc hw

/-- Instances that stand apart are taken down one after another, as far as the table still is what it
was at and below them. -/
theorem aborts (h : Terraced rank height e₀.instances) (f : Fault) {m n : Nat} {xs : List InstanceId}
    (there : ∀ x ∈ xs, ∃ i, e₀.instances[x]? = some i) (low : ∀ x ∈ xs, height ≤ rank x + m)
    (enough : ∀ x ∈ xs, InstanceTable.countFrom e₀.instances rank x ≤ n)
    (apart : Apart e₀.instances xs)
    (agree : ∀ x ∈ xs, ∀ k, Within e₀.instances x k → e.instances[k]? = e₀.instances[k]?) :
    Aborts f m xs e ((xs.flatMap (e₀.descend n)).foldl (fun e x => e.abortInstance f x) e) := by
  induction m generalizing n xs e with
  | zero =>
    cases xs with
    | nil => exact .done
    | cons x rest =>
      obtain ⟨i, hi⟩ := there x List.mem_cons_self
      have bounded := h.bounded hi
      have deep := low x List.mem_cons_self
      omega
  | succ m ih =>
    induction xs generalizing e with
    | nil => exact .done
    | cons x rest ihxs =>
      obtain ⟨i, hi⟩ := there x List.mem_cons_self
      obtain ⟨n, rfl⟩ : ∃ n', n = n' + 1 := Nat.exists_eq_add_of_le'
        (Nat.le_trans (InstanceTable.countFrom_pos hi) (enough x List.mem_cons_self))
      obtain ⟨first, later⟩ := List.pairwise_cons.mp apart
      have hx : e.instance? x = some i := (agree x List.mem_cons_self x (.refl _ x)).trans hi
      have listed : e₀.descend (n + 1) x = i.children.flatMap (e₀.descend n) ++ [x] := by
        rw [descend, instance?, hi]
      -- The children first: they are deeper, and fewer instances have their rank or a greater one.
      have child : ∀ c ∈ i.children, ∃ q, e₀.instances[c]? = some q ∧ q.parent = some x ∧
          rank x < rank c := by
        intro c hc
        obtain ⟨q, hq, hqx⟩ := h.forest.linked hi hc
        exact ⟨q, hq, hqx, h.forest.rising hq hqx⟩
      have below : Aborts f m i.children e
          ((i.children.flatMap (e₀.descend n)).foldl (fun e x => e.abortInstance f x) e) := by
        refine ih (fun c hc => (child c hc).imp fun q hq => hq.1) (fun c hc => ?_) (fun c hc => ?_)
          (apart_children h.forest hi) fun c hc k hk => ?_
        · obtain ⟨q, -, -, rising⟩ := child c hc
          have deep := low x List.mem_cons_self
          omega
        · obtain ⟨q, -, -, rising⟩ := child c hc
          have fewer := InstanceTable.countFrom_lt hi rising
          have all := enough x List.mem_cons_self
          omega
        · obtain ⟨q, hq, hqx, -⟩ := child c hc
          exact agree x List.mem_cons_self k (.inr (hk.under_parent hq hqx))
      rw [List.flatMap_cons, listed, List.foldl_append, List.foldl_append, List.foldl_cons, List.foldl_nil]
      generalize taken : (i.children.flatMap (e₀.descend n)).foldl (fun e x => e.abortInstance f x) e = e₁
        at below ⊢
      have lookup : ∀ k, e₁.instances[k]? =
          if k ∈ i.children.flatMap (e₀.descend n) then none else e.instances[k]? := by
        intro k
        rw [← taken]
        exact lookup_abortAll _ k
      have kept : e₁.instance? x = some i := by
        have stays : x ∉ i.children.flatMap (e₀.descend n) := fun hm =>
          (within_of_mem_children h.forest hi hm).1 rfl
        rw [instance?, lookup, if_neg stays]
        exact hx
      rw [abortInstance_of_some kept]
      refine .down hx below (ihxs (fun y hy => there y (List.mem_cons_of_mem x hy))
        (fun y hy => low y (List.mem_cons_of_mem x hy)) (fun y hy => enough y (List.mem_cons_of_mem x hy))
        later fun y hy k hk => ?_)
      -- What is at or below a later instance has not been touched.
      have outside : ¬ Within e₀.instances x k := fun hw => first y hy k hw hk
      have other : x ≠ k := fun same => outside (same ▸ .refl _ x)
      have untaken : k ∉ i.children.flatMap (e₀.descend n) := fun hm =>
        outside (within_of_mem_children h.forest hi hm).2
      rw [instances_dismiss, Table.lookup_erase, if_neg other, lookup, if_neg untaken]
      exact agree y (List.mem_cons_of_mem x hy) k hk

/-- Nothing is found at or below an instance that is not there. -/
theorem descend_of_absent (hx : e.instance? x = none) (n : Nat) : e.descend n x = [] := by
  cases n with
  | zero => rfl
  | succ n => rw [descend, hx]

/-- An instance is taken down with all that is below it, and with nothing else. -/
theorem abort_ends (h : Terraced rank height e.instances) (positive : 0 < height) (f : Fault)
    (x : InstanceId) : ∃ e', Aborts f height [x] e e' ∧
      e' = (e.descend e.instances.size x).foldl (fun e k => e.abortInstance f k) e ∧
      ∀ k, (Within e.instances x k → e'.instances[k]? = none) ∧
        (¬ Within e.instances x k → e'.instances[k]? = e.instances[k]?) := by
  cases hx : e.instance? x with
  | none =>
    obtain ⟨m, rfl⟩ := Nat.exists_eq_add_of_le' positive
    have nobody : (e.descend e.instances.size x).foldl (fun e k => e.abortInstance f k) e = e := by
      rw [descend_of_absent hx, List.foldl_nil]
    refine ⟨e, .gone hx .done, nobody.symm, fun k => ⟨?_, fun _ => rfl⟩⟩
    rintro (rfl | hu)
    · exact hx
    · -- A child would have its parent in the table.
      obtain ⟨c, q, hq, hqx, -⟩ := hu.split
      obtain ⟨i, hi, -⟩ := h.forest.listed hq hqx
      cases hx.symm.trans hi
  | some i =>
    have hi : e.instances[x]? = some i := hx
    have listed : ∀ k, k ∈ e.descend e.instances.size x ↔ Within e.instances x k := fun k =>
      ⟨under_of_mem_descend h.forest _, mem_descend h.forest hi (InstanceTable.countFrom_le _ _ _)⟩
    have alone : Aborts f height [x] e
        (([x].flatMap (e.descend e.instances.size)).foldl (fun e k => e.abortInstance f k) e) := by
      refine aborts h f (fun y hy => ?_) (fun y hy => ?_) (fun y hy => ?_) (List.pairwise_singleton _ _)
        fun y hy k _ => rfl
      · exact ⟨i, List.mem_singleton.mp hy ▸ hi⟩
      · exact Nat.le_add_left height _
      · exact InstanceTable.countFrom_le _ _ _
    rw [List.flatMap_singleton] at alone
    refine ⟨_, alone, rfl, fun k => ?_⟩
    rw [lookup_abortAll]
    exact ⟨fun hw => if_pos ((listed k).mpr hw), fun hw => if_neg (mt (listed k).mp hw)⟩

/-! ### Faults -/

/-- What is left of an instance whose children have been taken down. -/
theorem exists_clears (h : Terraced rank height e.instances) (hi : e.instances[x]? = some i)
    (live : i.state.isTerminal = false) (f : Fault) :
    ∃ e₁, Clears f height x e { i with state := .faulting, children := [] } e₁ ∧
      e.markFaulted x f = e₁.recordFault f x := by
  have found : e.instance? x = some i := hi
  have below : e.descendants x = i.children.flatMap (e.descend e.instances.size) := by
    rw [descendants, found, Option.map_some, Option.getD_some]
  refine ⟨((e.descendants x).foldl (fun e k => e.abortInstance f k)
    (e.modify x fun i => { i with state := .faulting, children := [] })).releaseResources x,
    ⟨⟨i, hi, live, _, ?_, rfl⟩, ?_⟩, ?_⟩
  · rw [below]
    refine aborts h f (fun c hc => ?_) (fun c hc => Nat.le_add_left height _)
      (fun c hc => InstanceTable.countFrom_le _ _ _) (apart_children h.forest hi) fun c hc k hk => ?_
    · obtain ⟨q, hq, -⟩ := h.forest.linked hi hc
      exact ⟨q, hq⟩
    · -- The instance itself is not below any of its children.
      have other : x ≠ k := fun same => not_within_child h.forest hi hc (same ▸ hk)
      rw [lookup_modify, if_neg other]
  · have stays : x ∉ e.descendants x := fun hm =>
      Nat.lt_irrefl _ (h.forest.lt_of_under ((mem_descendants_of_forest h.forest hi).mp hm))
    rw [instance?, instances_releaseResources, lookup_abortAll, if_neg stays, lookup_modify, if_pos rfl, hi]
    rfl
  · unfold markFaulted recordFault
    rfl

/-- The table after an instance has faulted. -/
theorem lookup_markFaulted (e : Executor) (f : Fault) (x k : InstanceId) :
    (e.markFaulted x f).instances[k]? =
      if k ∈ e.descendants x then none
      else if x = k then
        e.instances[k]?.map fun i => { i with state := .faulted, children := [], busy := 0, fault := some f }
      else e.instances[k]? := by
  unfold markFaulted
  dsimp only
  rw [(sameCore_trackState x .faulted).instances, lookup_modify, instances_releaseResources,
    lookup_abortAll, lookup_modify]
  by_cases hk : x = k
  · subst hk
    by_cases hm : x ∈ e.descendants x <;> simp [hm, Function.comp_def]
  · by_cases hm : k ∈ e.descendants x <;> simp [hm, hk]

/-- Who is there after a fault was there before, not below the instance that has faulted. -/
theorem was_markFaulted (h : Terraced rank height e.instances) (hi : e.instances[x]? = some i)
    (hj : (e.markFaulted x f).instances[k]? = some j) : ¬ Under e.instances x k ∧
      ∃ q, e.instances[k]? = some q ∧ j.id = q.id ∧ j.parent = q.parent ∧
        (k = x ∧ j.children = [] ∨ k ≠ x ∧ j.children = q.children) := by
  rw [lookup_markFaulted] at hj
  split at hj
  · cases hj
  · next stays =>
    refine ⟨mt (mem_descendants_of_forest h.forest hi).mpr stays, ?_⟩
    split at hj
    · next same =>
      obtain ⟨q, hq, rfl⟩ := Option.map_eq_some_iff.mp hj
      exact ⟨q, hq, rfl, rfl, .inl ⟨same.symm, rfl⟩⟩
    · next other => exact ⟨j, hj, rfl, rfl, .inr ⟨Ne.symm other, rfl⟩⟩

/-- Who was there, not below the instance that has faulted, is there, and but for that instance as it
was. -/
theorem still_markFaulted (h : Terraced rank height e.instances) (hi : e.instances[x]? = some i)
    (f : Fault) (hj : e.instances[k]? = some j) (stays : ¬ Under e.instances x k) :
    ∃ q, (e.markFaulted x f).instances[k]? = some q ∧ q.parent = j.parent ∧ (k ≠ x → q = j) := by
  have unlisted : k ∉ e.descendants x := mt (mem_descendants_of_forest h.forest hi).mp stays
  rw [lookup_markFaulted, if_neg unlisted, hj]
  by_cases hk : x = k
  · exact ⟨_, if_pos hk, rfl, fun other => absurd hk.symm other⟩
  · exact ⟨j, if_neg hk, rfl, fun _ => rfl⟩

/-- The instances still make up a forest when one of them has faulted. -/
theorem terraced_markFaulted (h : Terraced rank height e.instances) (hi : e.instances[x]? = some i)
    (f : Fault) : Terraced rank height (e.markFaulted x f).instances := by
  constructor
  · constructor
    · intro k j hj
      obtain ⟨-, q, hq, id, -⟩ := was_markFaulted h hi hj
      exact id.trans (h.forest.keyed hq)
    · intro k j hj
      obtain ⟨-, q, hq, -, -, ⟨-, none⟩ | ⟨-, same⟩⟩ := was_markFaulted h hi hj
      · exact none ▸ .nil
      · exact same ▸ h.forest.nodup hq
    · intro k p j hj hp
      obtain ⟨stays, q, hq, -, parent, -⟩ := was_markFaulted h hi hj
      have hqp : q.parent = some p := parent.symm.trans hp
      obtain ⟨r, hr, hk⟩ := h.forest.listed hq hqp
      obtain ⟨r', hr', -, same⟩ := still_markFaulted h hi f hr fun hu => stays (.deeper hq hqp hu)
      have other : p ≠ x := fun hpx => stays (hpx ▸ .child hq hqp)
      exact ⟨r', hr', (same other).symm ▸ hk⟩
    · intro p c q hq hc
      obtain ⟨stays, r, hr, -, -, ⟨-, none⟩ | ⟨other, same⟩⟩ := was_markFaulted h hi hq
      · rw [none] at hc
        exact absurd hc List.not_mem_nil
      · obtain ⟨j, hj, hjp⟩ := h.forest.linked hr (same ▸ hc)
        have outside : ¬ Under e.instances x c := by
          intro hu
          cases hu with
          | child hj' hp' =>
            cases hj.symm.trans hj'
            exact other (Option.some.inj (hjp.symm.trans hp'))
          | deeper hj' hp' hu =>
            cases hj.symm.trans hj'
            exact stays (Option.some.inj (hjp.symm.trans hp') ▸ hu)
        obtain ⟨j', hj', parent, -⟩ := still_markFaulted h hi f hj outside
        exact ⟨j', hj', parent.trans hjp⟩
    · intro k p j hj hp
      obtain ⟨-, q, hq, -, parent, -⟩ := was_markFaulted h hi hj
      exact h.forest.rising hq (parent.symm.trans hp)
  · intro k j hj
    obtain ⟨-, q, hq, -⟩ := was_markFaulted h hi hj
    exact h.bounded hq

/-- The way up from the parent is the same when an instance has faulted. -/
theorem climbs_markFaulted (h : Terraced rank height e.instances) (hi : e.instances[x]? = some i)
    (f : Fault) (hp : i.parent = some p) {l : List InstanceId} (climbs : Climbs e.instances p l) :
    Climbs (e.markFaulted x f).instances p l := by
  refine climbs.of_agree h.forest fun k hk => ?_
  have above : rank k < rank x := Nat.lt_of_le_of_lt hk (h.forest.rising hi hp)
  have unlisted : k ∉ e.descendants x := fun hm =>
    Nat.lt_asymm above (h.forest.lt_of_under ((mem_descendants_of_forest h.forest hi).mp hm))
  have other : x ≠ k := fun same => Nat.lt_irrefl _ (same ▸ above)
  rw [lookup_markFaulted, if_neg unlisted, if_neg other]

/-- A fault that goes up the way from an instance ends, with what the executor does with it. -/
theorem faults_of_climbs (h : Terraced rank height e.instances) (f : Fault) {l : List InstanceId}
    (climbs : Climbs e.instances x l) {fuel : Nat} (enough : l.length ≤ fuel) :
    Faults f height l.length x e (propagate fuel x f e) := by
  induction l generalizing x e fuel with
  | nil => cases climbs
  | cons y rest ih =>
    obtain ⟨fuel, rfl⟩ := Nat.exists_eq_add_of_le' (Nat.le_trans (Nat.le_add_left 1 rest.length) enough)
    cases climbs with
    | @top _ i hi hp =>
      have found : e.instance? y = some i := hi
      rw [propagate, found]
      cases ht : i.state.isTerminal with
      | true => simpa [ht] using Faults.ended found ht
      | false =>
        obtain ⟨e₁, cleared, marked⟩ := exists_clears h hi ht f
        simpa [ht, hp, marked] using Faults.root cleared hp
    | @up _ p i _ hi hp climbs =>
      have found : e.instance? y = some i := hi
      rw [propagate, found]
      cases ht : i.state.isTerminal with
      | true => simpa [ht] using Faults.ended found ht
      | false =>
        obtain ⟨e₁, cleared, marked⟩ := exists_clears h hi ht f
        cases hc : i.faultCallback with
        | some callback => simpa [ht, hp, hc, marked] using Faults.handled cleared hp hc
        | none =>
          have rest := ih (terraced_markFaulted h hi f) (climbs_markFaulted h hi f hp climbs)
            (Nat.le_of_succ_le_succ enough)
          rw [marked] at rest
          simpa [ht, hp, hc, marked] using Faults.passed cleared hp hc rest

/-- Every fault ends, with what the executor does with it. -/
theorem fault_ends (h : Terraced rank height e.instances) (f : Fault) (x : InstanceId) :
    ∃ n ≤ height, Faults f height n x e (e.faultInstance x f) := by
  cases hx : e.instance? x with
  | none =>
    have nothing : e.faultInstance x f = e := by
      rw [faultInstance]
      cases e.instances.size with
      | zero => rfl
      | succ n => rw [propagate, hx]
    rw [nothing]
    exact ⟨0, Nat.zero_le _, .gone hx⟩
  | some i =>
    obtain ⟨l, climbs, short⟩ := h.exists_climbs hx
    exact ⟨l.length, short, faults_of_climbs h f climbs (climbs.length_le_size h.forest)⟩

end Workflow.Executor
