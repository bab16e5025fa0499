import Workflow.Proofs.Passage
import Workflow.Proofs.Teardown

/-!
# Abort hooks

A fault that travels up takes down what is below each instance on its way. The bodies of those that
were live are told, once each and after all that are below them.
-/

namespace Workflow.Executor

variable {e e' e'' : Executor} {X S D : InstanceId → Prop} {x k : InstanceId} {i : Instance}
variable {f : Fault} {gone : List InstanceId}

/-- Instances leave, and their bodies are told that they are torn down. -/
structure Told (e : Executor) (hooks : List Call) (e' : Executor) : Prop where
  passage : Passage Nobody Nobody e hooks e'
  /-- The calls are abort hooks. -/
  reason : ∀ c ∈ hooks, ∃ f, c.2 = .abort f
  /-- They are told while the instances form a tree. -/
  tree : hooks ≠ [] → IsTree e.definition e.root e.nextInstance e.instances
  /-- Everybody is told once, after all that are below. -/
  order : hooks.Pairwise fun a b => a.1 ≠ b.1 ∧ ¬ Under e.instances a.1 b.1
  /-- Those that are told were live. -/
  live : ∀ c ∈ hooks, e.isLive c.1 = true
  /-- They leave. -/
  gone : ∀ c ∈ hooks, e'.instances[c.1]? = none

/-- What becomes of an executor when the work on an instance is over and the bodies of those that it
takes down with it have been told. A fault strikes the instance and passes on to those above it, and
none of them is told. -/
structure Aftermath (e : Executor) (x : InstanceId) (hooks : List Call) (e' : Executor) : Prop
    extends Told e hooks e' where
  /-- Neither the instance nor who is above it is told. -/
  spared : ∀ c ∈ hooks, c.1 ≠ x ∧ ¬ Under e.instances c.1 x

/-- Nobody need be told. -/
theorem Aftermath.of_passage (h : Passage Nobody Nobody e [] e') : Aftermath e x [] e' :=
  ⟨⟨h, fun _ hc => absurd hc List.not_mem_nil, fun hn => absurd rfl hn, .nil,
    fun _ hc => absurd hc List.not_mem_nil, fun _ hc => absurd hc List.not_mem_nil⟩,
    fun _ hc => absurd hc List.not_mem_nil⟩

/-- A body is told at most once. -/
theorem journal_callAbortHook (k : InstanceId) (reason : Fault) :
    ∃ l, (e.callAbortHook k reason).journal = e.journal ++ l ∧
      (calls l = [] ∨ calls l = [(k, .abort reason)]) := by
  unfold callAbortHook
  split
  · exact ⟨[], (List.append_nil _).symm, .inl rfl⟩
  · dsimp only
    split
    · exact ⟨[], (List.append_nil _).symm, .inl rfl⟩
    · exact ⟨_, rfl, .inr rfl⟩

/-- The body of an instance is told only if the instance has not completed. -/
theorem journal_abortInstance (reason : Fault) (k : InstanceId) :
    ∃ l, (e.abortInstance reason k).journal = e.journal ++ l ∧
      (calls l = [] ∨ calls l = [(k, .abort reason)] ∧
        ∃ i, e.instances[k]? = some i ∧ i.state.isTerminal = false) := by
  unfold abortInstance
  cases hi : e.instance? k with
  | none => exact ⟨[], (List.append_nil _).symm, .inl rfl⟩
  | some i =>
    dsimp only
    cases ht : i.state.isTerminal with
    | true => exact ⟨[], (List.append_nil _).symm, .inl rfl⟩
    | false =>
      obtain ⟨l, hl, hc⟩ := journal_callAbortHook (e := e.releaseResources k) k reason
      refine ⟨l, ?_, hc.imp_right fun hc => ⟨hc, i, hi, ht⟩⟩
      rw [if_neg Bool.false_ne_true]
      exact (journal_trackState k .faulted).trans hl

/-- Of some instances that are removed, the bodies of those that have not completed are told in
turn. -/
theorem journal_abortAll (ha : e.Attended) (reason : Fault) (gone : List InstanceId) :
    ∃ (l : List JournalEntry) (hooks : List InstanceId),
      (gone.foldl (fun e k => e.abortInstance reason k) e).journal = e.journal ++ l ∧
      calls l = hooks.map (·, .abort reason) ∧ hooks.Sublist gone ∧
      ∀ k ∈ hooks, ∃ i, e.instances[k]? = some i ∧ i.state.isTerminal = false := by
  induction gone generalizing e with
  | nil =>
    exact ⟨[], [], (List.append_nil _).symm, rfl, .slnil, fun _ hk => absurd hk List.not_mem_nil⟩
  | cons a rest ih =>
    have torn : Torn e (e.abortInstance reason a) [a] := .abortInstance ha reason a
    obtain ⟨l, hooks, hl, hc, hs, hlive⟩ := ih (torn.attended ha)
    obtain ⟨l₀, hl₀, hc₀⟩ := journal_abortInstance (e := e) reason a
    have journal : (rest.foldl (fun e k => e.abortInstance reason k)
        (e.abortInstance reason a)).journal = e.journal ++ (l₀ ++ l) := by
      rw [hl, hl₀, List.append_assoc]
    have live : ∀ k ∈ hooks, ∃ i, e.instances[k]? = some i ∧ i.state.isTerminal = false := by
      intro k hk
      obtain ⟨i, hi, ht⟩ := hlive k hk
      rw [torn.lookup] at hi
      split at hi
      · exact absurd hi.symm (Option.some_ne_none i)
      · exact ⟨i, hi, ht⟩
    rcases hc₀ with hc₀ | ⟨hc₀, ha⟩
    · exact ⟨l₀ ++ l, hooks, journal, by rw [calls_append, hc₀, hc, List.nil_append], hs.cons a, live⟩
    · refine ⟨l₀ ++ l, a :: hooks, journal, by rw [calls_append, hc₀, hc]; rfl, hs.cons_cons a, ?_⟩
      exact List.forall_mem_cons.mpr ⟨ha, live⟩

/-- An instance of a tree that faults with all that is below it. -/
structure Struck (e : Executor) (x : InstanceId) (f : Fault) (i : Instance) : Prop where
  tree : IsTree e.definition e.root e.nextInstance e.instances
  owned : e.Owned
  found : e.instances[x]? = some i
  retires : Retires e (e.markFaulted x f) x (e.descendants x)
    { i with state := .faulted, children := [], busy := 0, fault := some f }

theorem struck (ht : IsTree e.definition e.root e.nextInstance e.instances) (how : e.Owned)
    (hi : e.instances[x]? = some i) (hl : i.state.isLive = true)
    (hf : (e.definition.get? f.sourceNode).isSome = true) : Struck e x f i :=
  ⟨ht, how, hi, retires_markFaulted ht how hi hl hf⟩

namespace Struck

variable (h : Struck e x f i)
include h

/-- The bodies of live instances below are told. -/
theorem journal : ∃ (l : List JournalEntry) (hooks : List InstanceId),
    (e.markFaulted x f).journal = e.journal ++ l ∧ calls l = hooks.map (·, .abort f) ∧
      hooks.Sublist (e.descendants x) ∧ ∀ k ∈ hooks, e.isLive k = true := by
  have attended : (e.modify x fun i => { i with state := .faulting, children := [] }).Attended :=
    h.owned.attended fun _ => rfl
  obtain ⟨l, hooks, hl, hc, hs, hlive⟩ := journal_abortAll attended f (e.descendants x)
  refine ⟨l, hooks, ?_, hc, hs, fun k hk => ?_⟩
  · unfold markFaulted
    exact (journal_trackState x .faulted).trans hl
  · obtain ⟨j, hj, ht⟩ := hlive k hk
    obtain ⟨o, ho, ⟨rfl, -⟩ | ⟨-, rfl⟩⟩ := lookup_modify_cases hj
    · exact absurd (hs.subset hk) h.retires.prunable.keeps
    · exact isLive_iff.mpr
        ⟨j, ho, ActivityState.isLive_of_not_terminal (h.tree.sound ho).steady ht⟩

/-- What is below an instance leaves when it faults. -/
theorem passage : ∃ hooks : List InstanceId,
    Passage S D e (hooks.map (·, .abort f)) (e.markFaulted x f) ∧
      hooks.Sublist (e.descendants x) ∧ ∀ k ∈ hooks, e.isLive k = true := by
  obtain ⟨l, hooks, hl, hc, hs, hlive⟩ := h.journal
  have hr := h.retires
  obtain ⟨o, ho, hol⟩ := isLive_iff.mp hr.live
  cases h.found.symm.trans ho
  refine ⟨hooks, ⟨hr.root, Nat.le_of_eq hr.nextInstance.symm, ⟨l, hl, hc⟩, ?_, ?_⟩, hs, hlive⟩
  · intro k j hj
    obtain ⟨-, ⟨rfl, rfl⟩ | ⟨-, hj⟩⟩ := hr.lookup_cases hj
    · refine .inl ⟨i, ho, rfl, fun ht => ?_, id, fun _ ht => ?_, fun hx hc => ⟨hx, hc⟩⟩
      · rw [ActivityState.not_terminal_of_isLive hol] at ht
        exact absurd ht Bool.false_ne_true
      · exact absurd ht.symm Bool.false_ne_true
    · exact .inl ⟨j, hj, {}⟩
  · intro k p j hj hp _ _
    by_cases hk : k ∈ e.descendants x
    · refine .inr (.inr fun r hr' => ?_)
      rcases hr.prunable.up hj hp hk with hg | rfl
      · rw [hr.lookup, if_pos hg] at hr'
        exact absurd hr'.symm (Option.some_ne_none r)
      · cases hr.lookup_self.symm.trans hr'
        rfl
    · refine .inr (.inl ?_)
      by_cases hx : k = x
      · rw [hx]
        exact ⟨_, hr.lookup_self⟩
      · exact ⟨j, (hr.lookup_of_ne hk hx).trans hj⟩

/-- Those that leave are told children first. -/
theorem aftermath : ∃ hooks, Aftermath e x hooks (e.markFaulted x f) := by
  obtain ⟨hooks, hp, hs, hlive⟩ := h.passage (S := Nobody) (D := Nobody)
  refine ⟨_, ⟨hp, fun c hc => ?_, fun _ => h.tree, ?_, fun c hc => ?_, fun c hc => ?_⟩, fun c hc => ?_⟩
  · obtain ⟨k, -, rfl⟩ := List.mem_map.mp hc
    exact ⟨f, rfl⟩
  · exact List.pairwise_map.mpr ((pairwise_descendants h.tree x).sublist hs)
  · obtain ⟨k, hk, rfl⟩ := List.mem_map.mp hc
    exact hlive k hk
  · obtain ⟨k, hk, rfl⟩ := List.mem_map.mp hc
    rw [h.retires.lookup, if_pos (hs.subset hk)]
  · obtain ⟨k, hk, rfl⟩ := List.mem_map.mp hc
    have younger := h.tree.lt_of_under ((mem_descendants_iff h.tree h.found).mp (hs.subset hk))
    refine ⟨?_, fun hu => Nat.lt_asymm younger (h.tree.lt_of_under hu)⟩
    rintro rfl
    exact Nat.lt_irrefl _ younger

end Struck

/-- A fault strikes an instance and travels up, from one executor to another: it stops at the root or
at a parent that handles faults, or it passes on to the parent. -/
inductive Falls (f : Fault) : Executor → InstanceId → Executor → Prop
  | stops {e e' : Executor} {x : InstanceId} {i : Instance} (h : Struck e x f i)
      (hs : Passage Nobody Nobody (e.markFaulted x f) [] e') : Falls f e x e'
  | passes {e e' : Executor} {x p : InstanceId} {i : Instance} (h : Struck e x f i)
      (hp : i.parent = some p) (hf : Falls f (e.markFaulted x f) p e') : Falls f e x e'

/-- Whatever stays below what stays is still below it. -/
theorem Passage.under {cs : List Call} (h : Passage S D e cs e')
    (ht : IsTree e.definition e.root e.nextInstance e.instances)
    (ht' : IsTree e'.definition e'.root e'.nextInstance e'.instances) {a b : InstanceId}
    (hu : Under e.instances a b) (hb : ∃ i, e'.instances[b]? = some i) :
    Under e'.instances a b := by
  induction hu with
  | child hk hp =>
    obtain ⟨i, hi⟩ := hb
    obtain ⟨j, hj, ha⟩ := h.old hi (ht.below hk)
    cases hk.symm.trans hj
    exact .child hi (ha.parent.trans hp)
  | deeper hk hp _ ih =>
    obtain ⟨i, hi⟩ := hb
    obtain ⟨j, hj, ha⟩ := h.old hi (ht.below hk)
    cases hk.symm.trans hj
    have hip := ha.parent.trans hp
    obtain ⟨q, hq, -⟩ := ht'.listed hi hip
    exact .deeper hi hip (ih ⟨q, hq⟩)

/-- Who has left does not come back. -/
theorem Told.stay_gone {hooks cs : List Call} (h : Told e hooks e')
    (ht : IsTree e.definition e.root e.nextInstance e.instances)
    (h' : Passage S D e' cs e'') : ∀ c ∈ hooks, e''.instances[c.1]? = none := by
  intro c hc
  obtain ⟨i, hi, -⟩ := isLive_iff.mp (h.live c hc)
  exact h'.absent (h.gone c hc) (Nat.lt_of_lt_of_le (ht.below hi) h.passage.later)

/-- More may be taken down above. -/
theorem Told.trans {hooks hooks' : List Call} (h : Told e hooks e') (h' : Told e' hooks' e'')
    (ht : IsTree e.definition e.root e.nextInstance e.instances)
    (ht' : IsTree e'.definition e'.root e'.nextInstance e'.instances)
    (hl : ∀ k, e'.isLive k = true → e.isLive k = true) : Told e (hooks ++ hooks') e'' := by
  -- Who is told later was still there when the first had left, so it was not below one of them.
  have later : ∀ {a : InstanceId}, ∀ c ∈ hooks', Under e.instances a c.1 →
      ∃ i, e'.instances[a]? = some i := by
    intro a c hc hu
    obtain ⟨i, hi, -⟩ := isLive_iff.mp (h'.live c hc)
    obtain ⟨s, j, hj, hp, -⟩ := (h.passage.under ht ht' hu ⟨i, hi⟩).split
    obtain ⟨q, hq, -⟩ := ht'.listed hj hp
    exact ⟨q, hq⟩
  refine ⟨h.passage.trans h'.passage, fun c hc => ?_, fun _ => ht,
    List.pairwise_append.mpr ⟨h.order, ?_, ?_⟩, fun c hc => ?_, fun c hc => ?_⟩
  · exact (List.mem_append.mp hc).elim (h.reason c) (h'.reason c)
  · refine h'.order.imp_of_mem fun {a b} _ hb hab => ⟨hab.1, fun hu => hab.2 ?_⟩
    obtain ⟨i, hi, -⟩ := isLive_iff.mp (h'.live b hb)
    exact h.passage.under ht ht' hu ⟨i, hi⟩
  · intro a ha b hb
    refine ⟨fun hab => ?_, fun hu => ?_⟩
    · obtain ⟨i, hi, -⟩ := isLive_iff.mp (h'.live b hb)
      exact absurd ((h.gone a ha).symm.trans (hab ▸ hi)) (Option.some_ne_none i).symm
    · obtain ⟨i, hi⟩ := later b hb hu
      exact absurd ((h.gone a ha).symm.trans hi) (Option.some_ne_none i).symm
  · exact (List.mem_append.mp hc).elim (h.live c) fun hc => hl _ (h'.live c hc)
  · exact (List.mem_append.mp hc).elim (h.stay_gone ht h'.passage c) (h'.gone c)

/-- A fault that has struck an instance and passes on to its parent spares both, and all above. -/
theorem Struck.spared {p : InstanceId} {hooks : List Call} (h : Struck e x f i) (hp : i.parent = some p)
    {cs : List Call} (hs : Passage Nobody Nobody e cs (e.markFaulted x f))
    (ha : Aftermath (e.markFaulted x f) p hooks e') :
    ∀ c ∈ hooks, c.1 ≠ x ∧ ¬ Under e.instances c.1 x := by
  have ht' := h.retires.tree h.tree
  intro c hc
  obtain ⟨hcp, hup⟩ := ha.spared c hc
  have hl := ha.live c hc
  constructor
  · intro hcx
    obtain ⟨j, hj, hjl⟩ := isLive_iff.mp (hcx ▸ hl)
    cases h.retires.lookup_self.symm.trans hj
    exact absurd hjl Bool.false_ne_true
  · -- Who is above the instance is its parent or above the parent, which is still there.
    intro hu
    have parent : ∃ q, (e.markFaulted x f).instances[p]? = some q := by
      obtain ⟨q, hq, -⟩ := ht'.listed h.retires.lookup_self hp
      exact ⟨q, hq⟩
    cases hu with
    | child hk hp' =>
      cases h.found.symm.trans hk
      exact hcp (Option.some.inj (hp'.symm.trans hp))
    | deeper hk hp' hu =>
      cases h.found.symm.trans hk
      cases hp.symm.trans hp'
      exact hup (hs.under h.tree ht' hu parent)

/-- Those that a fault takes down on its way are told once each, and after all that are below them. -/
theorem Falls.aftermath (h : Falls f e x e') : ∃ hooks, Aftermath e x hooks e' := by
  induction h with
  | stops h hs =>
    obtain ⟨hooks, ha⟩ := h.aftermath
    refine ⟨hooks, ⟨?_, ha.reason, ha.tree, ha.order, ha.live, ha.stay_gone h.tree hs⟩, ha.spared⟩
    simpa only [List.append_nil] using ha.passage.trans hs
  | passes h hp _ ih =>
    obtain ⟨hooks, ha⟩ := h.aftermath
    obtain ⟨hooks', ha'⟩ := ih
    refine ⟨_, ha.toTold.trans ha'.toTold h.tree (h.retires.tree h.tree) fun k hk => ?_, fun c hc => ?_⟩
    · exact (h.retires.isLive_iff_and.mp hk).1
    · exact (List.mem_append.mp hc).elim (ha.spared c) (h.spared hp ha.passage ha' c)

/-- Who is struck by a fault is faulted from then on. -/
theorem Struck.faulted (h : Struck e x f i) {cs : List Call}
    (hp : Passage S D (e.markFaulted x f) cs e') {j : Instance} (hj : e'.instances[x]? = some j) :
    j.state = .faulted := by
  have old : x.number < (e.markFaulted x f).nextInstance := by
    rw [h.retires.nextInstance]
    exact h.tree.below h.found
  obtain ⟨o, ho, ha⟩ := hp.old hj old
  cases h.retires.lookup_self.symm.trans ho
  exact ha.final rfl

/-- A fault leaves the instance that it has struck faulted. -/
theorem Falls.faulted (h : Falls f e x e') {j : Instance} (hj : e'.instances[x]? = some j) :
    j.state = .faulted := by
  cases h with
  | stops h hs => exact h.faulted hs hj
  | passes h _ hf =>
    obtain ⟨hooks, ha⟩ := hf.aftermath
    exact h.faulted ha.passage hj

end Workflow.Executor
