import Workflow.Proofs.Observation
import Workflow.Proofs.Remainder

/-!
# Pursuing a plan

While a workflow of composite activities runs, every instance that has ended has done so as its shape
says, and every live one still has its children to schedule, has them running, or has seen them end
without a fault that it would have to pass on. What is left to do, with what is queued, is bounded, and
as long as nothing can fail the lines that are written and those that are left stay the same together.
-/

namespace Workflow

namespace Shape

/-- Whether all children are scheduled at once. -/
def isParallel : Shape → Bool
  | parallel _ _ => true
  | _ => false

theorem scope_options (s : Shape) : s.options.scope = none := by
  cases s <;> rfl

theorem arguments_options (s : Shape) : s.options.arguments = ∅ := by
  cases s <;> rfl

/-- Faults of children are handled if a callback is given for them. -/
theorem isCatch_of_onFaulted {s : Shape} {tag : CallbackTag} (h : s.options.onFaulted = some tag) :
    s.isCatch = true := by
  cases s with
  | tryCatch body => rfl
  | _ => exact absurd h.symm (Option.some_ne_none tag)

/-- Faults of children are not handled if no callback is given for them. -/
theorem isCatch_of_onFaulted_none {s : Shape} (h : s.options.onFaulted = none) :
    s.isCatch = false := by
  cases s with
  | tryCatch body => exact absurd h (Option.some_ne_none _)
  | _ => rfl

end Shape

section Instances

variable (d : Definition) (plan : NodeId → Shape) (todo : InstanceId → List NodeId)
variable (X : InstanceId → Prop) (t : InstanceTable) (k : InstanceId) (i : Instance)

/-- An instance that nobody cancels, and that is running or has ended as its shape says. -/
structure Instance.Fits : Prop where
  unasked : i.cancelRequested = false
  unmarked : i.markedCanceled = false
  /-- Its parent has the callbacks of its shape. -/
  called : ∀ {p : NodeId}, d.isDeclaredChild p i.node = true →
    i.completionCallback = (plan p).options.onCompleted ∧
      i.faultCallback = (plan p).options.onFaulted
  /-- It faults exactly if a fault escapes. -/
  verdict : i.state = .executing ∨ (i.state = .closed ∧ (plan i.node).escapes = false) ∨
    (i.state = .faulted ∧ (plan i.node).escapes = true)

/-- An instance runs a node. -/
def Enacts (c : InstanceId) (n : NodeId) : Prop :=
  ∃ j : Instance, t[c]? = some j ∧ j.node = n

/-- Every child of an instance that does not handle faults is still to be scheduled, is run, or has
no fault that escapes. -/
def Covers (l : List NodeId) : Prop :=
  (plan i.node).isCatch = false → ∀ c ∈ (d.node i.node).children,
    c ∈ l ∨ (∃ b ∈ i.children, Enacts t b c) ∨ (plan c).escapes = false

/-- An instance that waits for children, with those that it still has to schedule. -/
structure Awaits (l : List NodeId) : Prop where
  /-- One that has not run has to schedule all its children. -/
  fresh : i.executed = false → l = (d.node i.node).children
  covers : Covers d plan t i l
  /-- One that runs its children at once has scheduled all of them. -/
  together : i.executed = true → (plan i.node).isParallel = true → l = []
  /-- Another one runs one of its children, and those after it are still to be scheduled. -/
  single : i.executed = true → (plan i.node).isParallel = false →
    (i.children = [] ∧ l = []) ∨ ∃ b c seen, i.children = [b] ∧ Enacts t b c ∧
      (d.node i.node).children = seen ++ c :: l

/-- An instance does what its shape says. Some may be exempt while work is done on them. -/
structure Planned : Prop where
  fits : i.Fits d plan
  /-- The parent of one that has faulted handles the fault. -/
  handled : i.state = .faulted → ¬ X k → ∀ {p : NodeId}, d.isDeclaredChild p i.node = true →
    (plan p).isCatch = true
  awaits : i.state.isLive = true → ¬ X k → Awaits d plan t i (todo k)

/-- All instances do what their shapes say. -/
def OnPlan : Prop :=
  ∀ {k : InstanceId} {i : Instance}, t[k]? = some i → Planned d plan todo X t k i

end Instances

section Changes

variable {d : Definition} {plan : NodeId → Shape} {todo todo' : InstanceId → List NodeId}
variable {X Y : InstanceId → Prop} {t u : InstanceTable} {k : InstanceId} {i j : Instance}
variable {l rest : List NodeId}

namespace Instance.Fits

/-- What has not ended is executing. -/
theorem executing (h : i.Fits d plan) (hl : i.state.isLive = true) : i.state = .executing := by
  rcases h.verdict with hs | ⟨hs, -⟩ | ⟨hs, -⟩
  · exact hs
  · rw [hs] at hl
    exact absurd hl Bool.false_ne_true
  · rw [hs] at hl
    exact absurd hl Bool.false_ne_true

/-- What has ended without a fault that escapes has closed. -/
theorem closed (h : i.Fits d plan) (ht : i.state.isTerminal = true)
    (he : (plan i.node).escapes = false) : i.state = .closed := by
  rcases h.verdict with hs | ⟨hs, -⟩ | ⟨-, hf⟩
  · rw [hs] at ht
    exact absurd ht Bool.false_ne_true
  · exact hs
  · exact absurd (he.symm.trans hf) Bool.false_ne_true

/-- What has ended with a fault that escapes has faulted. -/
theorem faulted (h : i.Fits d plan) (ht : i.state.isTerminal = true)
    (he : (plan i.node).escapes = true) : i.state = .faulted := by
  rcases h.verdict with hs | ⟨-, hf⟩ | ⟨hs, -⟩
  · rw [hs] at ht
    exact absurd ht Bool.false_ne_true
  · exact absurd (hf.symm.trans he) Bool.false_ne_true
  · exact hs

/-- An instance that neither changes what it is called for nor its state still fits. -/
theorem of_same (h : i.Fits d plan) (hn : j.node = i.node) (hs : j.state = i.state)
    (hm : j.markedCanceled = i.markedCanceled) (hr : j.cancelRequested = i.cancelRequested)
    (hc : j.completionCallback = i.completionCallback) (hf : j.faultCallback = i.faultCallback) :
    j.Fits d plan where
  unasked := hr.trans h.unasked
  unmarked := hm.trans h.unmarked
  called hp := by
    rw [hc, hf]
    exact h.called (hn ▸ hp)
  verdict := by
    rw [hs, hn]
    exact h.verdict

end Instance.Fits

/-- An instance waits as before if its children run what they ran. -/
theorem Awaits.mono (h : Awaits d plan t i l)
    (hu : ∀ b ∈ i.children, ∀ n, Enacts t b n → Enacts u b n) : Awaits d plan u i l where
  fresh := h.fresh
  covers hc c hm := by
    rcases h.covers hc c hm with hl | ⟨b, hb, hr⟩ | he
    · exact .inl hl
    · exact .inr (.inl ⟨b, hb, hu b hb c hr⟩)
    · exact .inr (.inr he)
  together := h.together
  single hx hp := by
    rcases h.single hx hp with hn | ⟨b, c, seen, hb, hr, hc⟩
    · exact .inl hn
    · exact .inr ⟨b, c, seen, hb, hu b (hb ▸ List.mem_singleton_self b) c hr, hc⟩

/-- An instance that has not run has all its declared children to schedule. -/
theorem Awaits.unstarted (hx : i.executed = false) (hl : l = (d.node i.node).children) :
    Awaits d plan t i l where
  fresh _ := hl
  covers _ _ hc := .inl (hl ▸ hc)
  together h := absurd (hx.symm.trans h) Bool.false_ne_true
  single h := absurd (hx.symm.trans h) Bool.false_ne_true

/-- Nothing is to be scheduled any more when no child is left of an instance that has run. -/
theorem Awaits.eq_nil (h : Awaits d plan t i l) (hx : i.executed = true) (hc : i.children = []) :
    l = [] := by
  cases hp : (plan i.node).isParallel with
  | true => exact h.together hx hp
  | false =>
    rcases h.single hx hp with ⟨-, hl⟩ | ⟨b, c, seen, hb, -⟩
    · exact hl
    · exact absurd (hc.symm.trans hb) (List.cons_ne_nil b []).symm

/-- When everything has been scheduled and no child is left, no fault escapes. -/
theorem Covers.escapes (h : Covers d plan t i []) (hb : Blueprint d plan)
    (hi : (d.get? i.node).isSome = true) (hc : i.children = [])
    (ht : (plan i.node).isThrow = false) : (plan i.node).escapes = false := by
  obtain ⟨n, hn⟩ := Option.isSome_iff_exists.mp hi
  have node : d.node i.node = n := by rw [Definition.node, hn]; rfl
  rw [Shape.escapes_eq, ht, Bool.false_or]
  cases hcatch : (plan i.node).isCatch with
  | true => rfl
  | false =>
    rw [Bool.not_false, Bool.true_and, List.any_eq_false]
    intro s hs
    rw [← hb.children hn, List.mem_map] at hs
    obtain ⟨c, hcn, rfl⟩ := hs
    rcases h hcatch c (node ▸ hcn) with hl | ⟨b, hbm, -⟩ | he
    · exact absurd hl List.not_mem_nil
    · exact absurd (hc ▸ hbm) List.not_mem_nil
    · rw [he]
      exact Bool.false_ne_true

/-- What was to be scheduled and has been is run. -/
theorem Covers.start (h : Covers d plan t i l) {picked : List NodeId} (hl : l = picked ++ rest)
    (hn : j.node = i.node) {started : List InstanceId} (hc : j.children = i.children ++ started)
    (hr : List.Forall₂ (Enacts u) started picked)
    (hu : ∀ b ∈ i.children, ∀ n, Enacts t b n → Enacts u b n) : Covers d plan u j rest := by
  intro hcatch c hm
  rw [hn] at hcatch hm
  rw [hc]
  rcases h hcatch c hm with hcl | ⟨b, hb, hbr⟩ | he
  · rcases List.mem_append.mp (hl ▸ hcl) with hp | hp
    · obtain ⟨n, hn, hget⟩ := List.getElem_of_mem hp
      have hlen : n < started.length := hr.length_eq ▸ hn
      refine .inr (.inl ⟨started[n], List.mem_append_right _ (List.getElem_mem hlen), ?_⟩)
      rw [← hget]
      exact List.Forall₂.get hr hlen hn
    · exact .inl hp
  · exact .inr (.inl ⟨b, List.mem_append_left _ hb, hu b hb c hbr⟩)
  · exact .inr (.inr he)

/-- An instance to which nothing happens stays on its plan. -/
theorem Planned.keep (h : Planned d plan todo X t k i) (ht : todo' k = todo k)
    (hX : X k → Y k) (hu : ∀ b ∈ i.children, ∀ n, Enacts t b n → Enacts u b n) :
    Planned d plan todo' Y u k i where
  fits := h.fits
  handled hf hY := h.handled hf fun hk => hY (hX hk)
  awaits hl hY := by
    rw [ht]
    exact (h.awaits hl fun hk => hY (hX hk)).mono hu

/-- A live instance that is exempt only has to fit. -/
theorem Planned.of_exempt (h : i.Fits d plan) (hX : X k) : Planned d plan todo X t k i where
  fits := h
  handled _ hn := absurd hX hn
  awaits _ hn := absurd hX hn

/-- A live instance has not faulted. -/
theorem Planned.of_awaits (h : i.Fits d plan) (hl : i.state.isLive = true)
    (ha : Awaits d plan t i (todo k)) : Planned d plan todo X t k i where
  fits := h
  handled hf _ := by
    rw [hf] at hl
    exact absurd hl Bool.false_ne_true
  awaits _ _ := ha

/-- An instance that has ended and whose fault is handled, if it has one, waits for nothing. -/
theorem Planned.of_terminal (h : i.Fits d plan) (ht : i.state.isTerminal = true)
    (hf : i.state = .faulted → ¬ X k → ∀ {p : NodeId}, d.isDeclaredChild p i.node = true →
      (plan p).isCatch = true) : Planned d plan todo X t k i where
  fits := h
  handled := hf
  awaits hl := by
    rw [ActivityState.not_terminal_of_isLive hl] at ht
    exact absurd ht Bool.false_ne_true

end Changes

end Workflow
