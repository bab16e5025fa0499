import Mathlib.Logic.Relation
import Workflow.Proofs.Retention

/-!
# The flow of values

Values pass between instances at two points. A child that is scheduled takes the values of the
locations that its incoming arguments are bound to, and one that closes leaves the values of its
outgoing arguments in theirs. Besides, bodies write to locations that are there.
-/

namespace Workflow.Executor

variable {e e' e'' : Executor} {X : InstanceId → Prop} {x k p c o : InstanceId}
variable {i j r : Instance} {name : String} {v : Value}

/-- Write a value to a location. -/
def put (e : Executor) (o : InstanceId) (name : String) (v : Value) : Executor :=
  e.modify o fun i => { i with environment := i.environment.declare name v }

/-- Incoming arguments that are bound to locations, and that the parent does not supply, have the
values that are in the nearest locations from the parent upwards. -/
def Receives (e : Executor) (parent : InstanceId) (supplied : Environment) (c : Instance) : Prop :=
  ∀ a ∈ (e.definition.node c.node).arguments, a.direction.isInput = true →
    supplied[a.name]? = none → ∀ target, a.binding = .location target →
      ∃ o j v, e.Nearest target parent o ∧ e.instances[o]? = some j ∧
        j.environment[target]? = some v ∧ c.environment[a.name]? = some v

/-- Outgoing arguments that are bound to locations are copied to the nearest ones from the parent
upwards, one after the other. -/
inductive Copies (parent : InstanceId) (c : Instance) : List Argument → Executor → Executor → Prop
  | done (e : Executor) : Copies parent c [] e e
  /-- The next argument is not outgoing, or it is not bound to a location. -/
  | passed {e e' : Executor} {a : Argument} {l : List Argument}
      (ha : a.direction.isOutput = true → ∀ target, a.binding ≠ .location target)
      (h : Copies parent c l e e') : Copies parent c (a :: l) e e'
  /-- The value of the next argument is written. -/
  | copied {e e' : Executor} {a : Argument} {l : List Argument} {target : String} {o : InstanceId}
      {v : Value} (ha : a.direction.isOutput = true) (hb : a.binding = .location target)
      (hv : c.environment[a.name]? = some v) (ho : e.Nearest target parent o)
      (h : Copies parent c l (e.put o target v) e') : Copies parent c (a :: l) e e'

/-- Tell a live parent of a child that has left: its body is called if it has asked for that. -/
def informParent (e : Executor) (parent : InstanceId) (c : Instance) : Executor :=
  match c.completionCallback, e.nativeBody? parent with
  | some tag, some body =>
    e.callBack parent (.childCompleted tag c.completed) (body.childCompleted tag c.completed)
  | _, _ => e.tryComplete parent

/-- A child has been scheduled, and received its inputs. -/
structure Scheduled (e : Executor) (parent : InstanceId) (options : ScheduleOptions) (k : InstanceId)
    (c : Instance) (e' : Executor) : Prop where
  accepted : e.scheduleChild parent c.node options = (.ok k, e')
  there : e'.instances[k]? = some c
  linked : c.parent = some parent
  receives : e.Receives parent options.arguments c

/-- A live parent observes a child that has completed. -/
structure Observed (e : Executor) (p k : InstanceId) (i : Instance) (e' : Executor) : Prop where
  child : e.instances[k]? = some i
  terminal : i.state.isTerminal = true
  linked : i.parent = some p
  live : e.isLive p = true
  /-- If the child has closed, its outgoing arguments are copied once it has left. -/
  closed : i.state = .closed → Copies p i (e.definition.node i.node).arguments
    ((e.dropChild p k).release p 1) e'
  /-- If it has not, it only leaves. -/
  canceled : i.state ≠ .closed → e' = (e.dropChild p k).release p 1
  /-- The parent is told after that. -/
  told : e.deliverCompletion p k = e'.informParent p i

/-- What happens to locations in one step of a workflow. -/
inductive Flow (e e' : Executor) : Prop
  /-- Nothing happens to locations, nobody comes, and no child leaves a parent that goes on. -/
  | keeps (h : Keeps e e')
  /-- A location of an instance that declares it is written to. -/
  | writes {o : InstanceId} {j : Instance} {name : String} {v : Value}
      (hj : e.instances[o]? = some j) (hd : e.Declares j name) (he : e' = e.put o name v)
  /-- A child is scheduled. -/
  | schedules {parent k : InstanceId} {options : ScheduleOptions} {c : Instance}
      (h : Scheduled e parent options k c e')
  /-- A child is observed. -/
  | observes {p k : InstanceId} {i : Instance} (h : Observed e p k i e')

/-- What happens to locations in several steps. -/
def Flows : Executor → Executor → Prop :=
  Relation.ReflTransGen Flow

/-- An executor of a definition in which arguments are bound to what is seen, and in which every
instance owns what its activity declares. -/
structure Bound (e : Executor) : Prop where
  wellScoped : e.definition.WellScoped
  furnished : e.Furnished

/-! ### What flows leave as it is -/

theorem Retains.bound (h : Retains e e') (hb : e.Bound) : e'.Bound := by
  refine ⟨h.definition ▸ hb.wellScoped, fun hk name => ?_⟩
  obtain ⟨j, hj, same⟩ := h.back hk
  rw [same.environment, hb.furnished hj, Declares, Declares, h.definition, same.node]

/-- Writing to what an instance declares adds no names. -/
theorem Bound.put (hb : e.Bound) (hj : e.instances[o]? = some j) (hd : e.Declares j name) :
    (e.put o name v).Bound := by
  refine ⟨hb.wellScoped, fun {k i} hi other => ?_⟩
  obtain ⟨l, hl, ⟨rfl, rfl⟩ | ⟨-, rfl⟩⟩ := lookup_modify_cases (e := e) hi
  · cases hj.symm.trans hl
    rw [Environment.declare, Std.ExtTreeMap.mem_insert, Std.LawfulEqOrd.compare_eq_iff_eq,
      hb.furnished hl]
    constructor
    · rintro (rfl | hd)
      · exact hd
      · exact hd
    · exact .inr
  · exact hb.furnished hl other

theorem Copies.definition {l : List Argument} (h : Copies p i l e e') :
    e'.definition = e.definition := by
  induction h with
  | done e => rfl
  | passed _ _ ih => exact ih
  | copied _ _ _ _ _ ih => exact ih

theorem Copies.bound {l : List Argument} (h : Copies p i l e e') (hb : e.Bound) : e'.Bound := by
  induction h with
  | done e => exact hb
  | passed _ _ ih => exact ih hb
  | copied _ _ _ ho _ ih =>
    obtain ⟨j, hj, hd⟩ := ho.found
    exact ih (hb.put hj hd)

/-- A child that leaves takes no names from others. -/
theorem Retains.dropChild : Retains e ((e.dropChild p c).release p 1) := by
  have dropped : Retains e (e.dropChild p c) :=
    (Retains.erase c).trans (.modify fun _ => ⟨rfl, rfl, rfl⟩)
  exact dropped.trans (.release 1 rfl rfl rfl)

section Schedule

variable {node : NodeId} {options : ScheduleOptions} {id : InstanceId}

/-- A child that is scheduled was accepted. -/
theorem scheduleChild_eq_ok (h : e.scheduleChild x node options = (.ok id, e')) :
    ∃ p scope, e.checkSchedule x node options = .ok (p, scope) ∧ id = ⟨e.nextInstance⟩ ∧
      SameCore (e.adopt x (e.newChild x node scope options)) e' := by
  unfold Executor.scheduleChild at h
  split at h
  · cases h
  · next p scope hs =>
    cases h
    exact ⟨p, scope, hs, rfl, sameCore_trackScheduled _ _⟩

/-- The new child is there, and everybody else has the same locations as before. -/
theorem lookup_scheduleChild (h : e.scheduleChild x node options = (.ok id, e')) :
    ∃ scope, ∀ k, ∃ f : Instance → Instance, (∀ i, (f i).SameLocations i) ∧
      e'.instances[k]? =
        (if id = k then some (e.newChild x node scope options) else e.instances[k]?).map f := by
  obtain ⟨p, scope, -, rfl, core⟩ := scheduleChild_eq_ok h
  refine ⟨scope, fun k => ?_⟩
  rw [core.instances]
  change ∃ f : Instance → Instance, _ ∧ (Executor.modify { e with
    instances := e.instances.insert ⟨e.nextInstance⟩ (e.newChild x node scope options) } x
      _).instances[k]? = _
  rw [lookup_modify, Table.lookup_insert]
  split
  · exact ⟨_, fun _ => {}, rfl⟩
  · exact ⟨fun i => i, fun _ => {}, Option.map_id'.symm⟩

/-- A new child owns what its activity declares, and all others own what they did. -/
theorem Bound.schedule (hb : e.Bound) (h : e.scheduleChild x node options = (.ok id, e')) :
    e'.Bound := by
  obtain ⟨_, _, -, -, core⟩ := scheduleChild_eq_ok h
  have same : e'.definition = e.definition := core.definition
  obtain ⟨scope, look⟩ := lookup_scheduleChild h
  refine ⟨same ▸ hb.wellScoped, fun {k i} hi name => ?_⟩
  obtain ⟨f, hf, hk⟩ := look k
  rw [hk, Option.map_eq_some_iff] at hi
  obtain ⟨j, hj, rfl⟩ := hi
  rw [(hf j).environment, Declares, same, (hf j).node]
  split at hj
  · cases hj
    exact mem_firstValues _ _
  · exact hb.furnished hj name

end Schedule

/-- One step leaves instances what their activities declare. -/
theorem Flow.bound (h : Flow e e') (hb : e.Bound) : e'.Bound := by
  cases h with
  | keeps h => exact h.bound hb
  | writes hj hd he => exact he ▸ hb.put hj hd
  | schedules h => exact hb.schedule h.accepted
  | @observes p k i h =>
    have dropped : ((e.dropChild p k).release p 1).Bound := Retains.dropChild.bound hb
    by_cases hs : i.state = .closed
    · exact (h.closed hs).bound dropped
    · exact h.canceled hs ▸ dropped

theorem Flow.definition (h : Flow e e') : e'.definition = e.definition := by
  cases h with
  | keeps h => exact h.definition
  | writes _ _ he => rw [he]; rfl
  | schedules h =>
    obtain ⟨p, scope, -, -, core⟩ := scheduleChild_eq_ok h.accepted
    exact core.definition
  | @observes p k i h =>
    by_cases hs : i.state = .closed
    · exact (h.closed hs).definition
    · rw [h.canceled hs]; rfl

/-! ### Who comes and who leaves -/

/-- Who is there when outputs have been copied was there, and the other way round. -/
theorem Copies.isSome {l : List Argument} (h : Copies p i l e e') (k : InstanceId) :
    e'.instances[k]?.isSome = e.instances[k]?.isSome := by
  induction h with
  | done e => rfl
  | passed _ _ ih => exact ih
  | copied _ _ _ _ _ ih =>
    rw [ih, Executor.put, lookup_modify]
    split
    · exact Option.isSome_map
    · rfl

namespace Observed

/-- Only the child has left. -/
theorem isSome (h : Observed e p k i e') (a : InstanceId) :
    e'.instances[a]?.isSome = if a = k then false else e.instances[a]?.isSome := by
  have dropped : ((e.dropChild p k).release p 1).instances[a]?.isSome =
      if a = k then false else e.instances[a]?.isSome := by
    change ((Executor.modify { e with instances := e.instances.erase k } p _).modify p
      _).instances[a]?.isSome = _
    simp only [lookup_modify, Table.lookup_erase, @eq_comm _ k a]
    repeat' split
    all_goals simp
  by_cases hs : i.state = .closed
  · exact ((h.closed hs).isSome a).trans dropped
  · exact h.canceled hs ▸ dropped

end Observed

/-- Who comes was scheduled, and received its inputs. -/
theorem Flow.scheduled (h : Flow e e') (hc : e'.instances[k]? = some i) (hn : e.instances[k]? = none) :
    ∃ parent options, Scheduled e parent options k i e' := by
  cases h with
  | keeps h =>
    obtain ⟨j, hj, -⟩ := h.back hc
    exact absurd (hn.symm.trans hj) (Option.some_ne_none j).symm
  | writes _ _ he =>
    obtain ⟨j, hj, -⟩ := lookup_modify_cases (he ▸ hc)
    exact absurd (hn.symm.trans hj) (Option.some_ne_none j).symm
  | @schedules parent id options c h =>
    obtain ⟨scope, look⟩ := lookup_scheduleChild h.accepted
    obtain ⟨f, -, hk⟩ := look k
    split at hk
    · next new =>
      subst new
      cases hc.symm.trans h.there
      exact ⟨parent, options, h⟩
    · rw [hn, hc] at hk
      cases hk
  | observes h =>
    have there := h.isSome k
    rw [hc, hn] at there
    split at there <;> cases there

/-- A child that leaves a parent that goes on was observed. -/
theorem Flow.observed (h : Flow e e') (hi : e.instances[k]? = some i) (hp : i.parent = some p)
    (hn : e'.instances[k]? = none) :
    Observed e p k i e' ∨ ∀ r, e'.instances[p]? = some r → r.state = .faulted := by
  cases h with
  | keeps h =>
    refine (h.stays hi hp).imp_left fun ⟨j, hj⟩ => ?_
    exact absurd (hn.symm.trans hj) (Option.some_ne_none j).symm
  | writes _ _ he =>
    rw [he, put, lookup_modify, hi] at hn
    split at hn <;> cases hn
  | schedules h =>
    obtain ⟨scope, look⟩ := lookup_scheduleChild h.accepted
    obtain ⟨f, -, hk⟩ := look k
    rw [hn, hi] at hk
    split at hk <;> cases hk
  | @observes q k' j h =>
    have gone := h.isSome k
    rw [hn, hi] at gone
    split at gone
    · next hk =>
      subst hk
      cases hi.symm.trans h.child
      cases hp.symm.trans h.linked
      exact .inl h
    · cases gone

namespace Flows

theorem refl (e : Executor) : Flows e e :=
  Relation.ReflTransGen.refl

theorem trans (h : Flows e e') (h' : Flows e' e'') : Flows e e'' :=
  Relation.ReflTransGen.trans h h'

theorem single (h : Flow e e') : Flows e e' :=
  Relation.ReflTransGen.single h

theorem keeps (h : Keeps e e') : Flows e e' :=
  .single (.keeps h)

theorem of_sameCore (h : SameCore e e') : Flows e e' :=
  .keeps (.of_sameCore h)

/-- A step that does nothing to locations may follow. -/
theorem keep (h : Flows e e') (h' : Keeps e' e'') : Flows e e'' :=
  h.trans (.keeps h')

theorem definition (h : Flows e e') : e'.definition = e.definition := by
  unfold Flows at h
  induction h with
  | refl => rfl
  | tail _ h ih => exact h.definition.trans ih

/-- Whatever happens, instances own what their activities declare. -/
theorem bound (h : Flows e e') (hb : e.Bound) : e'.Bound := by
  unfold Flows at h
  induction h with
  | refl => exact hb
  | tail _ h ih => exact h.bound ih

end Flows

/-! ### Scheduling -/

/-- A name that is seen is found, and there is a value. -/
theorem Bound.exists_value (hb : e.Bound)
    (ht : IsTree e.definition e.root e.nextInstance e.instances) (hr : e.instances[p]? = some r)
    (hs : e.definition.Sees name r.node) : ∃ o j v, e.Nearest name p o ∧ e.resolve? p name = some o ∧
      e.instances[o]? = some j ∧ j.environment[name]? = some v := by
  obtain ⟨o, ho⟩ := exists_nearest ht hb.wellScoped hr hs
  obtain ⟨j, v, hj, hv⟩ := ho.exists_value hb.furnished
  exact ⟨o, j, v, ho, ho.resolve? hb.furnished ht, hj, hv⟩

/-- The activity of a child is in the definition, below that of its parent. -/
theorem exists_get?_of_isDeclaredChild {d : Definition} {m n : NodeId}
    (h : d.isDeclaredChild m n = true) :
    ∃ a, d.get? n = some a ∧ d.node n = a ∧ a.parent = some m := by
  rw [Definition.isDeclaredChild, beq_iff_eq, Option.bind_eq_some_iff] at h
  obtain ⟨a, ha, hp⟩ := h
  exact ⟨a, ha, by rw [Definition.node, ha, Option.getD_some], hp⟩

/-- A child that is scheduled receives its inputs. -/
theorem Flow.scheduleChild (h : e.Consistent X) (hb : e.Bound) (node : NodeId)
    (options : ScheduleOptions) : Flow e (e.scheduleChild x node options).2 := by
  cases hs : e.scheduleChild x node options with
  | mk answer e' =>
    cases answer with
    | error v =>
      unfold Executor.scheduleChild at hs
      split at hs
      · cases hs
        exact .keeps (.refl e)
      · cases hs
    | ok id =>
      obtain ⟨p, scope, hok, rfl, core⟩ := scheduleChild_eq_ok hs
      obtain ⟨hp, -, hd, -⟩ := checkSchedule_ok hok
      have planted := h.placed.planted (c := e.newChild x node scope options) hp rfl
      have hc : e'.instances[(⟨e.nextInstance⟩ : InstanceId)]? =
          some (e.newChild x node scope options) := by
        rw [core.instances]
        exact planted.at_child
      refine .schedules (c := e.newChild x node scope options)
        ⟨hs, hc, rfl, fun a ha hin hsup target hbind => ?_⟩
      obtain ⟨n, hn, rfl, hnp⟩ := exists_get?_of_isDeclaredChild hd
      obtain ⟨o, j, v, ho, found, hj, hv⟩ := hb.exists_value h.placed.tree hp
        (hb.wellScoped.bound hn hnp a ha target hbind)
      refine ⟨o, j, v, ho, hj, hv, ?_⟩
      have value : e.firstArgument x options.arguments a = v := by
        have seen : e.visibleValue? x target = some v := by
          rw [visibleValue?, found, Option.bind_some, instance?, hj, Option.bind_some, hv]
        rw [firstArgument, if_pos hin, hsup, hbind]
        exact congrArg (·.getD .null) seen
      exact (lookup_firstValues (hb.wellScoped.distinct hn) ha).trans (congrArg some value)

/-! ### Outputs -/

/-- Changes that agree on the instance that is there are one change. -/
theorem modify_congr {f g : Instance → Instance} (h : ∀ i, e.instances[k]? = some i → f i = g i) :
    e.modify k f = e.modify k g := by
  have same : e.instances.modify k f = e.instances.modify k g := by
    refine Std.ExtTreeMap.ext_getElem? fun a => ?_
    rw [Table.lookup_modify, Table.lookup_modify]
    split
    · next hk =>
      subst hk
      cases hi : e.instances[k]? with
      | none => rfl
      | some i => exact congrArg some (h i hi)
    · rfl
  rw [modify, modify, same]

/-- Copy the value of one argument of a closed child, if it is outgoing. -/
def copyOutput (parent : InstanceId) (child : Instance) (e : Executor) (a : Argument) : Executor :=
  match a.direction.isOutput, a.binding, child.environment[a.name]? with
  | true, .location target, some v =>
    match e.resolve? parent target with
    | some owner => e.modify owner fun i =>
      { i with environment := (i.environment.assign? target v).getD i.environment }
    | none => e
  | _, _, _ => e

theorem copyOutputs_eq_foldl (p : InstanceId) (i : Instance) :
    e.copyOutputs p i = (e.definition.node i.node).arguments.foldl (copyOutput p i) e :=
  rfl

/-- A value is written to a location of a name that is there. -/
theorem copyOutput_eq_put {a : Argument} {target : String} (hf : e.Furnished)
    (ha : a.direction.isOutput = true) (hb : a.binding = .location target)
    (hv : i.environment[a.name]? = some v) (ho : e.Nearest target p o)
    (found : e.resolve? p target = some o) : copyOutput p i e a = e.put o target v := by
  rw [copyOutput, ha, hb, hv]
  dsimp only
  rw [found]
  refine modify_congr fun j hj => ?_
  obtain ⟨l, hl, hd⟩ := ho.found
  cases hj.symm.trans hl
  have there : j.environment.contains target = true :=
    Std.ExtTreeMap.contains_iff_mem.mpr ((hf hj target).mpr hd)
  rw [Environment.assign?, if_pos there]
  rfl

/-- An instance that is written to goes on as it was. -/
theorem Follows.put (h : e.Consistent X) : Follows e X (e.put o name v) :=
  .modify h (fun _ => .of_same rfl rfl rfl rfl rfl rfl rfl) fun _ => rfl

/-- Arguments are copied one after the other to what the parent sees. -/
theorem Copies.of_foldl (l : List Argument) (h : e.Consistent X) (hb : e.Bound)
    (hr : e.instances[p]? = some r) (owns : ∀ a ∈ l, a.name ∈ i.environment)
    (sees : ∀ a ∈ l, ∀ target, a.binding = .location target → e.definition.Sees target r.node) :
    Copies p i l e (l.foldl (copyOutput p i) e) := by
  induction l generalizing e r with
  | nil => exact .done e
  | cons a rest ih =>
    have ownsRest : ∀ a ∈ rest, a.name ∈ i.environment := fun b hb => owns b (List.mem_cons_of_mem a hb)
    rw [List.foldl_cons]
    by_cases bound : a.direction.isOutput = true ∧ ∃ target, a.binding = .location target
    · obtain ⟨ha, target, hbind⟩ := bound
      obtain ⟨o, j, -, ho, found, hj, -⟩ :=
        hb.exists_value h.placed.tree hr (sees a List.mem_cons_self target hbind)
      obtain ⟨v, hv⟩ : ∃ v, i.environment[a.name]? = some v :=
        ⟨_, Std.ExtTreeMap.getElem?_eq_some_getElem (owns a List.mem_cons_self)⟩
      rw [copyOutput_eq_put hb.furnished ha hbind hv ho found]
      obtain ⟨j, hj, hd⟩ := ho.found
      have follows : Follows e X (e.put o target v) := .put h
      obtain ⟨s, hs, -, -, hn, -⟩ := follows.extension.keeps hr
      refine .copied ha hbind hv ho (ih follows.consistent (hb.put hj hd) hs ownsRest ?_)
      intro b hb target ht
      rw [hn]
      exact sees b (List.mem_cons_of_mem a hb) target ht
    · have same : copyOutput p i e a = e := by
        rw [copyOutput]
        split
        · next hout hloc _ => exact absurd ⟨hout, _, hloc⟩ bound
        · rfl
      rw [same]
      refine .passed (fun ha target ht => bound ⟨ha, target, ht⟩) (ih h hb hr ownsRest ?_)
      exact fun b hb => sees b (List.mem_cons_of_mem a hb)

/-- The outgoing arguments of a child are copied. -/
theorem Copies.copyOutputs (h : e.Consistent X) (hb : e.Bound) (hr : e.instances[p]? = some r)
    (hd : e.definition.isDeclaredChild r.node i.node = true)
    (hi : ∀ name, name ∈ i.environment ↔ e.Declares i name) :
    Copies p i (e.definition.node i.node).arguments e (e.copyOutputs p i) := by
  obtain ⟨n, hn, rfl, hnp⟩ := exists_get?_of_isDeclaredChild hd
  rw [copyOutputs_eq_foldl]
  refine .of_foldl _ h hb hr (fun a ha => ?_) fun a ha => hb.wellScoped.bound hn hnp a ha
  refine (hi a.name).mpr (List.mem_append_right _ ?_)
  exact List.mem_map_of_mem ha

/-- A child that a live parent observes leaves its outputs, and the parent is told then. -/
theorem Leaving.observes (h : Leaving e p k i r) (hb : e.Bound) : ∃ m, Flow e m ∧
    Follows ((e.dropChild p k).release p 1) (· = p) m ∧
      e.deliverCompletion p k = m.informParent p i := by
  obtain ⟨m, hm⟩ : ∃ m, m = if i.state = .closed then ((e.dropChild p k).release p 1).copyOutputs p i
      else (e.dropChild p k).release p 1 := ⟨_, rfl⟩
  have live : isLive { e with instances := e.instances.erase k } p = true := by
    refine isLive_iff.mpr ⟨r, ?_, h.live⟩
    rw [Table.lookup_erase, if_neg h.ne.symm]
    exact h.parent
  have delivered : e.deliverCompletion p k = m.informParent p i := by
    rw [hm]
    unfold Executor.deliverCompletion
    rw [instance?, h.child]
    dsimp only
    rw [live, if_neg (by decide)]
    rfl
  refine ⟨m, .observes ⟨h.child, h.terminal, h.linked, isLive_iff.mpr ⟨r, h.parent, h.live⟩,
    fun hs => ?_, fun hs => ?_, delivered⟩, ?_, delivered⟩
  · rw [hm, if_pos hs]
    -- The child has left, but it owned what its activity declares, as did all others.
    have hd := h.consistent.placed.tree.declared h.child h.linked h.parent
    obtain ⟨s, hs, -, -⟩ := lookup_dropChild_release h.parent h.ne
    have node : s.node = r.node := by
      obtain ⟨j, hj, same⟩ := (Retains.dropChild (e := e) (p := p) (c := k)).back hs
      cases hj.symm.trans h.parent
      exact same.node
    exact .copyOutputs h.dropped (Retains.dropChild.bound hb) hs (node ▸ hd)
      (hb.furnished h.child)
  · rw [hm, if_neg hs]
  · rw [hm]
    split
    · exact .copyOutputs h.dropped i
    · exact .refl h.dropped

end Workflow.Executor
