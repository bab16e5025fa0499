import Workflow.Proofs.Dispatch
import Workflow.Proofs.Ending

/-!
# Work on a plan

Whatever item of work is done while a plan is pursued, the plan is pursued after it with less left to
do, or the workflow has completed as its shape says. An item executes an instance, or it tells a
parent of a child that has ended.
-/

namespace Workflow

section Waiting

variable {d : Definition} {plan : NodeId → Shape} {t u : InstanceTable} {i j r : Instance}
variable {l rest seen : List NodeId} {started : List InstanceId} {c : InstanceId}

/-- An instance without children waits for the next of its declared children, once that is scheduled,
or for nothing if there is none. -/
theorem Covers.first (h : Covers d plan t i l) (hc : i.children = [])
    (hl : (d.node i.node).children = seen ++ l) (hp : (plan i.node).isParallel = false)
    (hrest : l = l.take 1 ++ rest) (hn : j.node = i.node) (hx : j.executed = true)
    (hj : j.children = i.children ++ started) (hr : List.Forall₂ (Enacts u) started (l.take 1)) :
    Awaits d plan u j rest where
  fresh hf := absurd (hf.symm.trans hx) Bool.false_ne_true
  covers := h.start hrest hn hj hr fun b hb => absurd (hc ▸ hb) List.not_mem_nil
  together _ hpar := by
    rw [hn, hp] at hpar
    exact absurd hpar Bool.false_ne_true
  single _ _ := by
    have same : j.children = started := by rw [hj, hc, List.nil_append]
    rw [same, hn]
    cases l with
    | nil =>
      cases hr
      exact .inl ⟨rfl, hrest.symm⟩
    | cons a l =>
      have tail : l = rest := (List.cons.inj hrest).2
      obtain ⟨b, _, hb, hnil, rfl⟩ := List.forall₂_cons_right_iff.mp hr
      cases hnil
      exact .inr ⟨b, a, seen, rfl, hb, tail ▸ hl⟩

/-- An instance without children waits for all its declared children, once they are scheduled. -/
theorem Covers.all (h : Covers d plan t i l) (hc : i.children = [])
    (hp : (plan i.node).isParallel = true) (hn : j.node = i.node) (hx : j.executed = true)
    (hj : j.children = i.children ++ started) (hr : List.Forall₂ (Enacts u) started l) :
    Awaits d plan u j [] where
  fresh hf := absurd (hf.symm.trans hx) Bool.false_ne_true
  covers := h.start (List.append_nil l).symm hn hj hr fun b hb => absurd (hc ▸ hb) List.not_mem_nil
  together _ _ := rfl
  single _ hpar := by
    rw [hn, hp] at hpar
    exact absurd hpar.symm Bool.false_ne_true

/-- The children are covered as before when one has left whose fault, if it has one, is handled. -/
theorem Covers.leave (h : Covers d plan t r l) (hi : t[c]? = some i)
    (he : (plan r.node).isCatch = false → (plan i.node).escapes = false)
    (hu : ∀ {b : InstanceId} {a : NodeId}, b ≠ c → Enacts t b a → Enacts u b a)
    (hn : j.node = r.node) (hj : j.children = r.children.filter (· != c)) : Covers d plan u j l := by
  intro hcatch a ha
  rw [hn] at hcatch ha
  rcases h hcatch a ha with hl | ⟨b, hb, hr⟩ | hesc
  · exact .inl hl
  · by_cases hbc : b = c
    · subst hbc
      obtain ⟨o, ho, rfl⟩ := hr
      cases hi.symm.trans ho
      exact .inr (.inr (he hcatch))
    · refine .inr (.inl ⟨b, ?_, hu hbc hr⟩)
      rw [hj, List.mem_filter]
      exact ⟨hb, bne_iff_ne.mpr hbc⟩
  · exact .inr (.inr hesc)

end Waiting

/-- What comes after an element of a list without duplicates. -/
theorem drop_dropWhile_of_nodup {l l' : List NodeId} {a : NodeId} (h : (l ++ a :: l').Nodup) :
    ((l ++ a :: l').dropWhile (· != a)).drop 1 = l' := by
  have before : ∀ b ∈ l, (b != a) = true := by
    intro b hb
    rw [bne_iff_ne]
    rintro rfl
    exact (List.nodup_append.mp h).2.2 b hb b List.mem_cons_self rfl
  rw [List.dropWhile_append_of_pos before, List.dropWhile_cons_of_neg (by simp)]
  rfl

namespace Executor

variable {e e' : Executor} {plan : NodeId → Shape} {todo : InstanceId → List NodeId}
variable {X : InstanceId → Prop} {n m : Nat} {account rest : Account}
variable {x k p c : InstanceId} {i j r : Instance} {q : WorkQueue}

/-- Everybody runs what they ran when an instance changes that keeps its node. -/
theorem enacts_modify {f : Instance → Instance} (hf : ∀ i, (f i).node = i.node) {b : InstanceId}
    {a : NodeId} (h : Enacts e.instances b a) : Enacts (e.modify x f).instances b a := by
  obtain ⟨o, ho, rfl⟩ := h
  by_cases hb : x = b
  · subst hb
    refine ⟨f o, ?_, hf o⟩
    rw [lookup_modify, if_pos rfl, ho]
    rfl
  · refine ⟨o, ?_, rfl⟩
    rw [lookup_modify, if_neg hb]
    exact ho

/-- The node of an instance that is there. -/
theorem nodeOf_found (hi : e.instances[x]? = some i) : e.nodeOf x = e.definition.node i.node := by
  rw [nodeOf, instance?, hi]
  rfl

/-- A native body that performs its program to the end has run. -/
theorem runBody_native {b : Behaviour} {body : NativeBody} (hb : b = .native body)
    (h : (e.log (.call x (e.nodeOf x).body.label .execute)).perform x body.execute = (.ok (), e')) :
    e.runBody x b = (true, e') := by
  subst hb
  unfold runBody invoke
  dsimp only
  rw [h]
  rfl

/-- A callback that performs its program to the end is followed by completion, if nothing is waited
for. -/
theorem callBack_ok {callback : Callback} {program : Program .native Unit}
    (h : (e.log (.call x (e.nodeOf x).body.label callback)).perform x program = (.ok (), e')) :
    e.callBack x callback program = e'.tryComplete x := by
  unfold callBack invoke
  dsimp only
  rw [h]

/-- The node whose body an item executes, if it executes one. -/
def executes? (e : Executor) : WorkItem → Option NodeId
  | .execute x =>
    (e.instance? x).bind fun i => if i.executed ∨ i.state ≠ .executing then none else some i.node
  | _ => none

/-- An instance that has not run is executed. -/
theorem executes?_eq_some (hi : e.instances[x]? = some i) (hx : ¬ (i.executed ∨ i.state ≠ .executing)) :
    e.executes? (.execute x) = some i.node := by
  rw [executes?, instance?, hi]
  exact if_neg hx

/-- One that has run, or is not there, is not executed. -/
theorem executes?_eq_none (hx : ∀ i, e.instances[x]? = some i → i.executed ∨ i.state ≠ .executing) :
    e.executes? (.execute x) = none := by
  rw [executes?, Option.bind_eq_none_iff]
  exact fun i hi => if_pos (hx i hi)

/-- The leaves that write their labels among the nodes that are executed. -/
def records (plan : NodeId → Shape) (executed : List NodeId) : Multiset NodeId :=
  ↑(executed.filter fun k => (plan k).isRecord)

/-- What an item yields while a plan is pursued: unless something can fail, what it executes has been
accounted for. -/
def Yields (plan : NodeId → Shape) (n : Nat) (account : Account) (executed : List NodeId)
    (e : Executor) : Prop :=
  ∃ rest, ((∀ k, (plan k).throws = false) → account = (0, records plan executed) + rest) ∧
    Onward plan n rest e

/-- An item that executes no leaf that writes its label. -/
theorem Onward.yields (h : Onward plan n account e) {executed : List NodeId}
    (hr : ∀ k ∈ executed, (plan k).isRecord = false) : Yields plan n account executed e := by
  have none_left : records plan executed = 0 := by
    rw [records, List.filter_eq_nil_iff.mpr fun k hk => Bool.eq_false_iff.mp (hr k hk)]
    rfl
  refine ⟨account, fun _ => ?_, h⟩
  rw [none_left]
  exact (zero_add account).symm

/-- An item that executes nothing. -/
theorem Onward.yields_nil (h : Onward plan n account e) : Yields plan n account [] e :=
  h.yields fun _ hk => absurd hk List.not_mem_nil

namespace Pursues

/-- The declared children may be scheduled. -/
theorem declared (h : e.Pursues plan todo X n account) (hi : e.instances[x]? = some i) {a : NodeId}
    (ha : a ∈ (e.definition.node i.node).children) :
    e.definition.isDeclaredChild i.node a = true :=
  (h.blueprint.declared (h.exists_node hi)).mpr ha

/-- The declared children stand for the children of the shape. -/
theorem map_children (h : e.Pursues plan todo X n account) (hi : e.instances[x]? = some i) :
    (e.definition.node i.node).children.map plan = (plan i.node).children :=
  h.blueprint.children (h.exists_node hi)

/-- A live instance has its own part left. -/
theorem exists_others (h : e.Pursues plan todo X n account) (hi : e.instances[x]? = some i)
    (hl : i.state.isLive = true) : ∃ others, (∀ k, (plan k).throws = false) →
      account = (accountTally plan).own i.node + others := by
  obtain ⟨others, left, -⟩ := InstanceTable.exists_rest (v := accountTally plan) (u := e.instances)
    (h.consistent.placed.tree.below hi) fun k _ _ => (rfl : _ = InstanceTable.share _ todo _ k)
  refine ⟨e.said + (((todo x).map (accountTally plan).whole).sum + others), fun hp => ?_⟩
  rw [← h.told hp, toTell, left, InstanceTable.share_live hi hl]
  abel

/-! ### Execution -/

/-- An instance whose body has run completes if it waits for nothing, and otherwise goes on to wait. -/
theorem ran (h : e.Pursues plan todo (· = x) n account) (hi : e.instances[x]? = some i)
    (hl : i.state.isLive = true)
    (ha : Awaits e.definition plan e.instances { i with executed := true } (todo x))
    (ht : (plan i.node).isThrow = false)
    (hacc : (∀ k, (plan k).throws = false) →
      account = (if i.children = [] then (accountTally plan).own i.node else 0) + rest) :
    Onward plan n rest ((e.modify x fun i => { i with executed := true }).tryComplete x) := by
  have marked := h.remodel (f := fun i => { i with executed := true }) hi hl {}
  have found : (e.modify x fun i => { i with executed := true }).instances[x]? =
      some { i with executed := true } := by
    rw [lookup_modify, if_pos rfl, hi]
    rfl
  have waits := ha.mono (u := (e.modify x fun i => { i with executed := true }).instances)
    fun b _ a => enacts_modify (f := fun i => { i with executed := true }) fun _ => rfl
  exact marked.tryComplete found hl rfl waits ht hacc

section Execution

variable (h : e.Pursues plan todo (· = x) n account) (hi : e.instances[x]? = some i)
variable (hs : i.state = .executing) (hc : i.children = [])
variable (ht : todo x = (e.definition.node i.node).children)
variable (hcov : Covers e.definition plan e.instances i (todo x))
include h hi hs hc ht hcov

/-- An activity that schedules its first child, if it has one, has run. -/
theorem runsFirst (hp : (plan i.node).isParallel = false) (hn : (plan i.node).isThrow = false)
    (hown : (accountTally plan).own i.node = 0 ∨ todo x ≠ [])
    (hrun : ∀ {e' : Executor}, (e.log (.call x (e.nodeOf x).body.label .execute)).perform x
      (Program.scheduleFirst (plan i.node).options (e.nodeOf x).children) = (.ok (), e') →
        e.runBody x (plan i.node).behaviour = (true, e')) :
    ∃ e', e.runBody x (plan i.node).behaviour = (true, e') ∧
      Onward plan n account ((e'.modify x fun i => { i with executed := true }).tryComplete x) := by
  have hl : i.state.isLive = true := by rw [hs]; rfl
  have node : (e.nodeOf x).children = todo x := by rw [nodeOf_found hi, ht]
  have called := h.call x (e.nodeOf x).body.label .execute
  obtain ⟨e', todo', j, started, performed, later, hrest, grown⟩ :=
    called.scheduleFirst hi hs fun a ha => h.declared hi (ht ▸ ha)
  rw [← node] at performed
  have hdef : e'.definition = e.definition := grown.definition
  refine ⟨e', hrun performed, later.ran grown.found (grown.state.symm ▸ hl) ?_ (grown.node ▸ hn)
    fun _ => ?_⟩
  · rw [hdef]
    have all : (e.definition.node i.node).children = [] ++ todo x := ht.symm
    exact hcov.first hc all hp hrest grown.node rfl grown.children grown.run
  · rw [grown.node]
    rcases hown with hnil | hne
    · rw [hnil, ite_self, zero_add]
    · have some_run : j.children ≠ [] := by
        intro hnil
        have none_run : started = [] := (List.append_eq_nil_iff.mp (grown.children.symm.trans hnil)).2
        have len := grown.run.length_eq
        rw [none_run, List.length_take, List.length_nil] at len
        have pos : 0 < (todo x).length := List.length_pos_of_ne_nil hne
        omega
      rw [if_neg some_run, zero_add]

/-- An activity that schedules all its children has run. -/
theorem runsAll (hp : (plan i.node).isParallel = true) (hn : (plan i.node).isThrow = false)
    (hown : (accountTally plan).own i.node = 0)
    (hrun : ∀ {e' : Executor}, (e.log (.call x (e.nodeOf x).body.label .execute)).perform x
      (Program.scheduleAll (plan i.node).options (e.nodeOf x).children) = (.ok (), e') →
        e.runBody x (plan i.node).behaviour = (true, e')) :
    ∃ e', e.runBody x (plan i.node).behaviour = (true, e') ∧
      Onward plan n account ((e'.modify x fun i => { i with executed := true }).tryComplete x) := by
  have hl : i.state.isLive = true := by rw [hs]; rfl
  have node : (e.nodeOf x).children = todo x := by rw [nodeOf_found hi, ht]
  have called := h.call x (e.nodeOf x).body.label .execute
  obtain ⟨e', todo', j, started, performed, later, hrest, grown⟩ :=
    called.scheduleAll hi hs (List.append_nil (todo x)).symm fun a ha => h.declared hi (ht ▸ ha)
  rw [← node] at performed
  have hdef : e'.definition = e.definition := grown.definition
  refine ⟨e', hrun performed, later.ran grown.found (grown.state.symm ▸ hl) ?_ (grown.node ▸ hn)
    fun _ => ?_⟩
  · rw [hdef, hrest]
    exact hcov.all hc hp grown.node rfl grown.children grown.run
  · rw [grown.node, hown, ite_self, zero_add]

/-- An instance that has not run is executed: it fails, or its body runs to the end. -/
theorem runsBody : Yields plan n account [i.node] (match e.runBody x (plan i.node).behaviour with
    | (true, e) => (e.modify x fun i => { i with executed := true }).tryComplete x
    | (false, e) => e) := by
  have hl : i.state.isLive = true := by rw [hs]; rfl
  have shapes := h.map_children hi
  have called := h.call x (e.nodeOf x).body.label .execute
  have runsFirst := h.runsFirst hi hs hc ht hcov
  have runsAll := h.runsAll hi hs hc ht hcov
  rw [← ht] at shapes
  generalize hshape : plan i.node = s at shapes runsFirst runsAll ⊢
  have other (hr : s.isRecord = false) : ∀ k ∈ [i.node], (plan k).isRecord = false := by
    intro k hk
    rw [List.mem_singleton.mp hk, hshape]
    exact hr
  cases s with
  | record label =>
    have hnil : todo x = [] := List.map_eq_nil_iff.mp shapes
    have leaf : (e.definition.node i.node).children = [] ++ [] := ht.symm.trans hnil
    have recorded := (called.say label).remodel
      (f := fun i => { i with result := some (.symbol label) }) hi hl {}
    have found : (((e.log (.call x (e.nodeOf x).body.label .execute)).log (.line label)).modify x
        fun i => { i with result := some (.symbol label) }).instances[x]? =
        some { i with result := some (.symbol label) } := by
      rw [lookup_modify, if_pos rfl]
      exact congrArg (Option.map _) hi
    have parts : (accountTally plan).own i.node = (0, {i.node}) + ({label}, 0) := own_eq hshape
    have executed : records plan [i.node] = {i.node} := by
      rw [records, List.filter_singleton, hshape]
      rfl
    obtain ⟨others, due⟩ := h.exists_others hi hl
    refine ⟨({label}, 0) + others, fun hp => ?_, recorded.ran found hl (hnil ▸ ?_)
      (by rw [hshape]; rfl) fun hp => ?_⟩
    · rw [due hp, parts, executed, add_assoc]
    · rw [hnil] at hcov
      exact hcov.first hc leaf (by rw [hshape]; rfl) rfl rfl rfl (List.append_nil _).symm .nil
    · rw [if_pos hc, due hp, add_right_comm, add_assoc]
  | throw message =>
    have escapes : (plan i.node).escapes = true := by rw [hshape]; rfl
    exact (called.raise hi hl escapes (.custom message [])).yields (other rfl)
  | sequence name children =>
    obtain ⟨e', ran, onward⟩ := runsFirst rfl rfl (.inl (own_eq hshape)) fun hr => runBody_native rfl hr
    rw [ran]
    exact onward.yields (other rfl)
  | parallel name children =>
    obtain ⟨e', ran, onward⟩ := runsAll rfl rfl (own_eq hshape) fun hr => runBody_native rfl hr
    rw [ran]
    exact onward.yields (other rfl)
  | tryCatch body =>
    have hne : todo x ≠ [] := by
      intro hnil
      rw [hnil] at shapes
      exact absurd shapes.symm (List.cons_ne_nil body [])
    obtain ⟨e', ran, onward⟩ := runsFirst rfl rfl (.inr hne) fun hr => runBody_native rfl hr
    rw [ran]
    exact onward.yields (other rfl)

end Execution

/-- A queued instance is executed. -/
theorem executeActivity (h : e.Pursues plan todo Nobody (n + 1) account)
    (hq : e.queue.work = .execute x :: q.work) :
    Yields plan n account (e.executes? (.execute x)).toList
      (executeActivity { e with queue := q } x) := by
  have skipped : (∀ i, e.instances[x]? = some i → i.executed = true ∨ i.state ≠ .executing) →
      Yields plan n account (e.executes? (.execute x)).toList { e with queue := q } := by
    intro hx
    rw [executes?_eq_none hx]
    exact Onward.yields_nil (.inl ⟨todo, h.pop hq (h.consistent.pop_skipped hq hx)
      (Nat.le_of_eq (Nat.add_comm n 1))⟩)
  unfold Executor.executeActivity
  split
  · next i b hi hb =>
    have hi : e.instances[x]? = some i := hi
    have hb : b = (plan i.node).behaviour :=
      Option.some.inj (hb.symm.trans (h.behaviour?_eq hi))
    subst hb
    split
    · next hx =>
      refine skipped fun j hj => ?_
      cases hi.symm.trans hj
      exact hx
    · next hx =>
      rw [executes?_eq_some hi hx]
      rw [not_or, not_not, Bool.not_eq_true] at hx
      obtain ⟨hx, hs⟩ := hx
      have hl : i.state.isLive = true := by rw [hs]; rfl
      have awaits := (h.onPlan hi).awaits hl id
      have ht : todo x = (e.definition.node i.node).children := awaits.fresh hx
      -- It waits for nothing yet, so all its declared children are still to be scheduled.
      have idle : i.busy = 0 := (h.consistent.placed.queued hi hl id hx).2.1
      have hc : i.children = [] := List.eq_nil_of_length_eq_zero ((h.busy_eq hi hl).symm.trans idle)
      have popped := h.pop (m := n) hq (h.consistent.pop_execute hq hi hl)
        (Nat.le_of_eq (Nat.add_comm n 1))
      have tracked := silent_trackState (e := { e with queue := q }) x .executing
      have ready := popped.of_silent tracked
      generalize hE : trackState { e with queue := q } x .executing = e₁ at tracked ready
      have hi₁ : e₁.instances[x]? = some i := tracked.instances ▸ hi
      have ht₁ : todo x = (e₁.definition.node i.node).children := tracked.definition ▸ ht
      have hcov : Covers e₁.definition plan e₁.instances i (todo x) := by
        rw [tracked.definition, tracked.instances]
        exact awaits.covers
      exact ready.runsBody hi₁ hs hc ht₁ hcov
  · next hn =>
    refine skipped fun i hi => ?_
    exact (hn i _ hi (h.behaviour?_eq hi)).elim

/-! ### Observation -/

section Observation

variable (h : e.Pursues plan todo (· = p) n account) (hr : e.instances[p]? = some r)
variable (hl : r.state.isLive = true) (hx : r.executed = true)
include h hr hl hx

/-- A parent that runs its children at once waits for the others. -/
theorem observesAll (ha : Awaits e.definition plan e.instances r (todo p))
    (ht : (plan r.node).isThrow = false) (hown : (accountTally plan).own r.node = 0) :
    Onward plan n account (e.tryComplete p) := by
  refine h.tryComplete hr hl hx ha ht fun _ => ?_
  rw [hown, ite_self, zero_add]

/-- A parent that runs its children one after the other schedules the next one. -/
theorem observesNext {seen : List NodeId} {a : NodeId} {child : CompletedChild}
    (hc : r.children = []) (hcov : Covers e.definition plan e.instances r (todo p))
    (hnodes : (e.definition.node r.node).children = seen ++ a :: todo p) (ha : child.node = a)
    (hp : (plan r.node).isParallel = false) (ht : (plan r.node).isThrow = false)
    (hown : (accountTally plan).own r.node = 0) (callback : Callback) :
    Onward plan n account
      (e.callBack p callback (Shape.advance (plan r.node).options child)) := by
  have executing := (h.onPlan hr).fits.executing hl
  have called := h.call p (e.nodeOf p).body.label callback
  have declared : ∀ b ∈ todo p, e.definition.isDeclaredChild r.node b = true := by
    refine fun b hb => h.declared hr ?_
    rw [hnodes]
    exact List.mem_append_right _ (List.mem_cons_of_mem a hb)
  obtain ⟨e', todo', j, started, performed, later, hrest, grown⟩ :=
    called.scheduleFirst hr executing declared
  have after : ((e.nodeOf p).children.dropWhile (· != child.node)).drop 1 = todo p := by
    have nodup := h.blueprint.nodup (h.exists_node hr)
    rw [nodeOf_found hr, hnodes, ha]
    exact drop_dropWhile_of_nodup (hnodes ▸ nodup)
  have asked : (e.log (.call p (e.nodeOf p).body.label callback)).perform p
      (Shape.advance (plan r.node).options child) = (.ok (), e') := by
    have unasked : (e.instance? p).any (·.cancelRequested) = false := by
      rw [instance?, hr]
      exact (h.onPlan hr).fits.unasked
    rw [← after] at performed
    rw [Shape.advance, perform_bind]
    change (e.log _).perform p (if (e.instance? p).any (·.cancelRequested) = true then _ else _) = _
    rw [unasked]
    exact performed
  rw [callBack_ok asked]
  have hdef : e'.definition = e.definition := grown.definition
  have waits : Awaits e'.definition plan e'.instances j (todo' p) := by
    have all : (e.definition.node r.node).children = (seen ++ [a]) ++ todo p := by
      rw [hnodes, List.append_assoc]
      rfl
    rw [hdef]
    exact hcov.first hc all hp hrest grown.node (grown.executed.trans hx) grown.children grown.run
  exact later.observesAll grown.found (grown.state ▸ hl) (grown.executed.trans hx) waits
    (grown.node ▸ ht) (grown.node ▸ hown)

/-- A handler closes after its child, or is closed by it. -/
theorem observesBody {tag : String} {callback : Callback} (hc : r.children = []) (ht : todo p = [])
    (hcov : Covers e.definition plan e.instances r (todo p)) {body : Shape}
    (hplan : plan r.node = .tryCatch body)
    (hlabel : (∀ k, (plan k).throws = false) → tag = "Closed") :
    Onward plan n account (e.callBack p callback (Program.context (.say ("done:" ++ tag)))) := by
  have said := (h.call p (e.nodeOf p).body.label callback).say ("done:" ++ tag)
  have waits : Awaits e.definition plan e.instances r (todo p) :=
    { fresh := fun hf => absurd (hf.symm.trans hx) Bool.false_ne_true
      covers := hcov
      together := fun _ _ => ht
      single := fun _ _ => .inl ⟨hc, ht⟩ }
  have performed : (e.log (.call p (e.nodeOf p).body.label callback)).perform p
      (Program.context (k := .native) (.say ("done:" ++ tag))) =
        (.ok (), (e.log (.call p (e.nodeOf p).body.label callback)).log (.line ("done:" ++ tag))) :=
    rfl
  rw [callBack_ok performed]
  refine said.tryComplete hr hl hx waits (by rw [hplan]; rfl) fun hp => ?_
  rw [if_pos hc, hlabel hp, own_eq hplan, add_comm]
  rfl

/-- A parent goes on when a child has left. -/
theorem observes (hcb : i.completionCallback = (plan r.node).options.onCompleted)
    (hm : plan i.node ∈ (plan r.node).children)
    (hcov : Covers e.definition plan e.instances r (todo p))
    (together : (plan r.node).isParallel = true → todo p = [])
    (single : (plan r.node).isParallel = false → r.children = [] ∧
      ∃ seen, (e.definition.node r.node).children = seen ++ i.node :: todo p)
    (closed : (∀ k, (plan k).throws = false) → i.state = .closed) :
    Onward plan n account (match i.completionCallback, e.nativeBody? p with
      | some tag, some body =>
        e.callBack p (.childCompleted tag i.completed) (body.childCompleted tag i.completed)
      | _, _ => e.tryComplete p) := by
  rw [hcb, nativeBody?, h.behaviour?_eq hr]
  generalize hplan : plan r.node = s at hm together single ⊢
  -- A leaf has no child that could end.
  cases s with
  | record label => exact absurd hm List.not_mem_nil
  | throw message => exact absurd hm List.not_mem_nil
  | sequence name children =>
    obtain ⟨hc, seen, hnodes⟩ := single rfl
    have next := h.observesNext hr hl hx hc hcov hnodes (rfl : i.completed.node = i.node)
      (by rw [hplan]; rfl) (by rw [hplan]; rfl) (own_eq hplan)
      (.childCompleted "next" i.completed)
    rw [hplan] at next
    exact next
  | parallel name children =>
    have waits : Awaits e.definition plan e.instances r (todo p) :=
      { fresh := fun hf => absurd (hf.symm.trans hx) Bool.false_ne_true
        covers := hcov
        together := fun _ _ => together rfl
        single := fun _ hp => by
          rw [hplan] at hp
          exact absurd hp.symm Bool.false_ne_true }
    exact h.observesAll hr hl hx waits (by rw [hplan]; rfl) (own_eq hplan)
  | tryCatch body =>
    obtain ⟨hc, seen, hnodes⟩ := single rfl
    have nodes := congrArg List.length (h.map_children hr)
    rw [hplan, List.length_map, hnodes, List.length_append, List.length_cons] at nodes
    have one : (Shape.tryCatch body).children.length = 1 := rfl
    have ht : todo p = [] := List.eq_nil_of_length_eq_zero (by omega)
    refine h.observesBody hr hl hx hc ht hcov hplan fun hp => ?_
    change i.state.label = _
    rw [closed hp]
    rfl

end Observation

/-- A child that has ended closed, or its fault is handled. -/
theorem leaves (h : e.Pursues plan todo Nobody n account) (hi : e.instances[c]? = some i)
    (ht : i.state.isTerminal = true) (hd : e.definition.isDeclaredChild r.node i.node = true) :
    ((plan r.node).isCatch = false → (plan i.node).escapes = false) ∧
      ((∀ k, (plan k).throws = false) → i.state = .closed) := by
  have planned := h.onPlan hi
  refine ⟨fun hcatch => ?_, fun hp => planned.fits.closed ht ?_⟩
  · rcases planned.fits.verdict with hs | ⟨-, he⟩ | ⟨hs, -⟩
    · rw [hs] at ht
      exact absurd ht Bool.false_ne_true
    · exact he
    · exact absurd (hcatch.symm.trans (planned.handled hs id hd)) Bool.false_ne_true
  · rw [Bool.eq_false_iff]
    exact fun he => not_throws he hp

/-- A parent is told of a child that has ended. -/
theorem deliverCompletion (h : e.Pursues plan todo Nobody (n + 1) account)
    (hq : e.queue.work = .completion p c :: q.work) :
    Onward plan n account (deliverCompletion { e with queue := q } p c) := by
  unfold Executor.deliverCompletion
  cases hi : instance? { e with queue := q } c with
  | none =>
    exact .inl ⟨todo, h.pop hq (h.consistent.pop_lost_completion hq hi)
      (Nat.le_of_eq (Nat.add_comm n 1))⟩
  | some i =>
    obtain ⟨r, leaving⟩ := h.consistent.leaving hq hi
    have hi : e.instances[c]? = some i := hi
    have hr : e.instances[p]? = some r := leaving.parent
    have hl : r.state.isLive = true := leaving.live
    have hx : r.executed = true := h.consistent.parent_executed id hr hl leaving.listed
    have hlive : isLive { e with queue := q, instances := e.instances.erase c } p = true := by
      refine isLive_iff.mpr ⟨r, ?_, hl⟩
      rw [Table.lookup_erase, if_neg leaving.ne.symm]
      exact hr
    have declared := h.consistent.placed.tree.declared hi leaving.linked hr
    have called := ((h.onPlan hi).fits.called declared).1
    have member := mem_children_of_declared h.blueprint
      (h.consistent.placed.tree.sound hr).known declared
    obtain ⟨harmless, closed⟩ := h.leaves hi leaving.terminal declared
    have awaits := (h.onPlan hr).awaits hl id
    have popped := h.pop (m := n) hq leaving.consistent (Nat.le_of_eq (Nat.add_comm n 1))
    obtain ⟨left, found, keeps⟩ := popped.drop leaving
    -- A parent that runs one child at a time has no other one, and goes on behind its node.
    have single : (plan r.node).isParallel = false → r.children.filter (· != c) = [] ∧
        ∃ seen, (e.definition.node r.node).children = seen ++ i.node :: todo p := by
      intro hp
      rcases awaits.single hx hp with ⟨hnil, -⟩ | ⟨b, a, seen, hb, ⟨o, ho, rfl⟩, hnodes⟩
      · exact absurd (hnil ▸ leaving.listed) List.not_mem_nil
      · obtain rfl : c = b := List.mem_singleton.mp (hb ▸ leaving.listed)
        cases hi.symm.trans ho
        exact ⟨by rw [hb]; simp, seen, hnodes⟩
    dsimp only
    rw [hlive, if_neg (by decide)]
    generalize hE : Executor.release _ p 1 = e₁
    have left : e₁.Pursues plan todo (· = p) n account := hE ▸ left
    have hr₁ : e₁.instances[p]? = some
        { r with children := r.children.filter (· != c), busy := r.busy - 1 } := hE ▸ found
    have hdef : e₁.definition = e.definition := hE ▸ rfl
    -- Composite activities have no arguments, so nothing is copied.
    have copied : e₁.copyOutputs p i = e₁ := by
      rw [copyOutputs, hdef, h.blueprint.arguments (h.exists_node hi)]
      rfl
    have covers : Covers e₁.definition plan e₁.instances
        { r with children := r.children.filter (· != c), busy := r.busy - 1 } (todo p) := by
      rw [hdef, ← hE]
      exact awaits.covers.leave hi harmless keeps rfl rfl
    rw [copied, ite_self]
    refine left.observes hr₁ hl hx called member covers (awaits.together hx) ?_ closed
    rw [hdef]
    exact single

/-- A handler is told of the fault of a child, and handles it. -/
theorem deliverFault {tag : CallbackTag} {f : Fault} (h : e.Pursues plan todo Nobody (n + 1) account)
    (hq : e.queue.work = .fault p c tag f :: q.work) :
    Onward plan n account (deliverFault { e with queue := q } p c tag f) := by
  have hw : WorkItem.fault p c tag f ∈ e.queue.work := by
    rw [hq]
    exact List.mem_cons_self
  obtain ⟨-, -, hterm, hthere⟩ := h.consistent.placed.reported hw rfl
  unfold Executor.deliverFault
  change Onward plan n account (if !e.isLive p then _ else _ : Executor)
  cases hl : e.isLive p with
  | false =>
    have fewer : n + 1 ≤ 2 + n := by omega
    exact .inl ⟨todo, h.pop hq (h.consistent.pop_lost_fault hq hl) fewer⟩
  | true =>
    obtain ⟨i, hi⟩ := hthere hl
    obtain ⟨ht, hp⟩ := hterm i hi
    obtain ⟨r, hr, hrl, hm⟩ := parent_live h.consistent.placed.tree hi hp
    have hx : r.executed = true := h.consistent.parent_executed id hr hrl hm
    have declared := h.consistent.placed.tree.declared hi hp hr
    have faulted : i.state = .faulted := h.expected _ hw i hi
    have hcatch : (plan r.node).isCatch = true := (h.onPlan hi).handled faulted id declared
    have escapes : (plan i.node).escapes = true := by
      rcases (h.onPlan hi).fits.verdict with hs | ⟨hs, -⟩ | ⟨-, he⟩
      · exact absurd (hs.symm.trans faulted) ActivityState.noConfusion
      · exact absurd (hs.symm.trans faulted) ActivityState.noConfusion
      · exact he
    obtain ⟨body, hplan⟩ : ∃ body, plan r.node = .tryCatch body := by
      cases hs : plan r.node with
      | tryCatch body => exact ⟨body, rfl⟩
      | _ =>
        rw [hs] at hcatch
        exact absurd hcatch Bool.false_ne_true
    -- The live handler itself makes work, so there is room for the completion.
    obtain ⟨m, hm⟩ := h.exists_bound hr hrl
    obtain rfl : n = m + 2 := by omega
    have popped := h.pop (m := m + 1) hq (h.consistent.pop_fault hq hr hrl)
      (show m + 2 + 1 ≤ 2 + (m + 1) by omega)
    rw [Bool.not_true, if_neg Bool.false_ne_true, nativeBody?, popped.behaviour?_eq hr, hplan]
    dsimp only
    generalize (⟨f, c, ((instance? { e with queue := q } c).map (·.node)).getD f.sourceNode⟩ :
      FaultContext) = context
    have told := (popped.call p (nodeOf { e with queue := q } p).body.label
      (.childFaulted tag context)).say ("caught:" ++ context.fault.error.message)
    have consistent := told.consistent.handled hi ht hp hr hrl hx
    refine .inl ⟨todo, { h with
      consistent := consistent
      onPlan := fun hj => (h.onPlan hj).keep rfl False.elim fun _ _ _ => id
      expected := fun w hw => ?_
      bounded := ?_
      told := fun hp => (not_throws escapes hp).elim }⟩
    · rcases WorkQueue.mem_work_push.mp hw with rfl | hw
      · trivial
      · exact popped.expected w hw
    · have before : InstanceTable.remaining (workTally plan) todo e.instances e.nextInstance +
          q.load ≤ m + 1 := popped.bounded
      have load : (q.push (.completion p c)).load = 1 + q.load := q.load_push _ _
      change InstanceTable.remaining (workTally plan) todo e.instances e.nextInstance +
        (q.push (.completion p c)).load ≤ m + 2
      omega

/-! ### Every item -/

/-- Whatever is queued, the plan is pursued after it is done, or it has been achieved. -/
theorem dispatch {w : WorkItem} (h : e.Pursues plan todo Nobody (n + 1) account)
    (hq : e.queue.work = w :: q.work) :
    Yields plan n account (e.executes? w).toList (dispatch { e with queue := q } w) := by
  have expected : w.Expected e.instances := h.expected w (by rw [hq]; exact List.mem_cons_self)
  cases w with
  | execute x => exact h.executeActivity hq
  | completion p c => exact (h.deliverCompletion hq).yields_nil
  | fault p c tag f => exact (h.deliverFault hq).yields_nil
  | cancel x => exact expected.elim
  | bookmark o b callback v releases => exact expected.elim
  | operation o result => exact expected.elim

end Pursues

end Executor

end Workflow
