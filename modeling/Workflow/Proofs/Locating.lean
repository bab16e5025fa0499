import Workflow.Proofs.Callback
import Workflow.Proofs.Descent
import Workflow.Proofs.Visibility

/-!
# Locations of a workflow

An instance owns a location for every name that its activity declares, and for no other. So the
search upwards for a name ends at the nearest instance whose activity declares it. As instances stand
below each other like the nodes that they run, it finds every name that is seen in the definition.
-/

namespace Workflow.Executor

variable {e : Executor} {name : String} {k o : InstanceId} {i : Instance}

/-- The activity of an instance declares a name. -/
def Declares (e : Executor) (i : Instance) (name : String) : Prop :=
  name ∈ (e.definition.node i.node).declared

/-- Every instance owns locations for exactly the names that its activity declares. -/
def Furnished (e : Executor) : Prop :=
  ∀ {k : InstanceId} {i : Instance}, e.instances[k]? = some i →
    ∀ name, name ∈ i.environment ↔ e.Declares i name

/-- The nearest instance, from one upwards, whose activity declares a name. -/
inductive Nearest (e : Executor) (name : String) : InstanceId → InstanceId → Prop
  /-- It is the first one. -/
  | here {k : InstanceId} {i : Instance} (hi : e.instances[k]? = some i) (h : e.Declares i name) :
      Nearest e name k k
  /-- It is above an instance whose activity does not. -/
  | above {k p o : InstanceId} {i : Instance} (hi : e.instances[k]? = some i)
      (h : ¬ e.Declares i name) (hp : i.parent = some p) (ho : Nearest e name p o) :
      Nearest e name k o

namespace Nearest

/-- The instance that is found declares the name. -/
theorem found (h : e.Nearest name k o) : ∃ j, e.instances[o]? = some j ∧ e.Declares j name := by
  induction h with
  | here hi h => exact ⟨_, hi, h⟩
  | above _ _ _ _ ih => exact ih

/-- There is a value at the location that is found. -/
theorem exists_value (h : e.Nearest name k o) (hf : e.Furnished) :
    ∃ j v, e.instances[o]? = some j ∧ j.environment[name]? = some v := by
  obtain ⟨j, hj, hd⟩ := h.found
  have there : name ∈ j.environment := (hf hj name).mpr hd
  exact ⟨j, j.environment[name], hj, Std.ExtTreeMap.getElem?_eq_some_getElem there⟩

/-- The search finds the nearest instance. -/
theorem climb (h : e.Nearest name k o) (hf : e.Furnished)
    (ht : IsTree e.definition e.root e.nextInstance e.instances) {n : Nat}
    (hn : InstanceTable.countUpTo e.instances k ≤ n) :
    (e.climb n (some k)).find? (fun a => (e.instance? a).any (·.environment.contains name)) =
      some o := by
  have owns {k : InstanceId} {i : Instance} (hi : e.instances[k]? = some i) :
      (e.instance? k).any (·.environment.contains name) = true ↔ e.Declares i name := by
    rw [instance?, hi, Option.any_some, Std.ExtTreeMap.contains_iff_mem, hf hi]
  -- A parent is older, so fewer instances are as old as it is.
  induction h generalizing n with
  | @here k i hi h =>
    obtain ⟨n, rfl⟩ := Nat.exists_eq_succ_of_ne_zero
      (Nat.ne_of_gt (Nat.lt_of_lt_of_le (InstanceTable.countUpTo_pos hi) hn))
    rw [Executor.climb]
    exact List.find?_cons_of_pos ((owns hi).mpr h)
  | @above k p o i hi h hp _ ih =>
    obtain ⟨n, rfl⟩ := Nat.exists_eq_succ_of_ne_zero
      (Nat.ne_of_gt (Nat.lt_of_lt_of_le (InstanceTable.countUpTo_pos hi) hn))
    have fewer := InstanceTable.countUpTo_lt hi (ht.older hi hp)
    rw [Executor.climb, instance?, hi, Option.bind_some, hp]
    refine Eq.trans ?_ (ih (n := n) (by omega))
    exact List.find?_cons_of_neg (mt (owns hi).mp h)

theorem resolve? (h : e.Nearest name k o) (hf : e.Furnished)
    (ht : IsTree e.definition e.root e.nextInstance e.instances) : e.resolve? k name = some o := by
  have enough : InstanceTable.countUpTo e.instances k ≤ e.instances.size + 1 :=
    Nat.le_succ_of_le (InstanceTable.countUpTo_le _ k)
  exact h.climb hf ht enough

end Nearest

/-- Instances stand below each other like the nodes that they run, so a name that is seen at a node
is found from every instance that runs it. -/
theorem exists_nearest (ht : IsTree e.definition e.root e.nextInstance e.instances)
    (hw : e.definition.WellScoped) (hi : e.instances[k]? = some i)
    (h : e.definition.Sees name i.node) : ∃ o, e.Nearest name k o := by
  have node {n : NodeId} {m : Node} (hm : e.definition.get? n = some m) : e.definition.node n = m := by
    rw [Definition.node, hm, Option.getD_some]
  generalize hn : i.node = n at h
  induction h generalizing k i with
  | @here n m hm hname =>
    refine ⟨k, .here hi ?_⟩
    rw [Declares, hn, node hm]
    exact hname
  | @above n p m hm hp _ ih =>
    by_cases hd : e.Declares i name
    · exact ⟨k, .here hi hd⟩
    · cases hip : i.parent with
      | none =>
        -- The root of the workflow runs the root of the definition, which has nothing above.
        obtain ⟨r, hr, -, hroot⟩ := ht.rooted
        rw [← ht.orphan hi hip, hi] at hr
        cases hr
        have top : m = e.definition.root := by
          rw [← hn, hroot] at hm
          exact (Option.some.inj hm).symm
        rw [top, hw.top] at hp
        exact absurd hp.symm (Option.some_ne_none p)
      | some q =>
        obtain ⟨r, hr, -⟩ := ht.listed hi hip
        have declared := ht.declared hi hip hr
        rw [Definition.isDeclaredChild, hn, hm, Option.bind_some, hp, beq_iff_eq] at declared
        obtain ⟨o, ho⟩ := ih hr (Option.some.inj declared).symm
        exact ⟨o, .above hi hd hip ho⟩

/-! ### First values -/

/-- Declaring values one after the other adds their names. -/
theorem mem_foldl_declare {α : Type} (key : α → String) (value : α → Value) (l : List α)
    (env : Environment) : name ∈ l.foldl (fun env a => env.declare (key a) (value a)) env ↔
      name ∈ env ∨ name ∈ l.map key := by
  induction l generalizing env with
  | nil => simp
  | cons a l ih =>
    rw [List.foldl_cons, ih, Environment.declare, List.map_cons, List.mem_cons,
      Std.ExtTreeMap.mem_insert, Std.LawfulEqOrd.compare_eq_iff_eq]
    tauto

/-- A value that is declared under a name of its own is found there. -/
theorem lookup_foldl_declare {α : Type} {key : α → String} {value : α → Value} {l : List α}
    (hd : (l.map key).Nodup) {a : α} (ha : a ∈ l) (env : Environment) :
    (l.foldl (fun env a => env.declare (key a) (value a)) env)[key a]? = some (value a) := by
  have pairs : l.foldl (fun env a => env.declare (key a) (value a)) env =
      (l.map fun a => (key a, value a)).foldl (fun t e => t.insert e.1 e.2) env := by
    rw [List.foldl_map]
    rfl
  rw [pairs, Table.lookup_foldl_insert _ (by rwa [List.map_map])]
  exact .inl (List.mem_map_of_mem ha)

/-- An instance begins with exactly the names that its activity declares. -/
theorem mem_firstValues (n : Node) (argument : Argument → Value) :
    name ∈ firstValues n argument ↔ name ∈ n.declared := by
  have locals : name ∈ n.locals.foldl
      (fun (env : Environment) v => env.declare v.name (v.initial.getD .null)) ∅ ↔
        name ∈ n.locals.map (·.name) := by
    refine (mem_foldl_declare (·.name) (fun v => v.initial.getD .null) n.locals ∅).trans ?_
    simp
  rw [Node.declared, Activity.declaredNames, List.mem_append, ← locals]
  exact mem_foldl_declare (·.name) argument n.arguments _

/-- If names are distinct, every argument begins with its value. -/
theorem lookup_firstValues {n : Node} (hd : n.declared.Nodup) {argument : Argument → Value}
    {a : Argument} (ha : a ∈ n.arguments) : (firstValues n argument)[a.name]? = some (argument a) := by
  rw [Node.declared, Activity.declaredNames] at hd
  exact lookup_foldl_declare hd.of_append_right ha _

end Workflow.Executor
