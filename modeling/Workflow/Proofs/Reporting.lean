import Workflow.Proofs.History
import Workflow.Proofs.Waiting

/-!
# Children are observed once

A child that has completed or faulted stays until its parent observes it, and one queued item tells of
it. Over a whole history no child is observed twice, and none is missed by a parent that goes on or
completes.
-/

namespace Workflow.Executor

variable {e e' e₀ : Executor} {d : Deed} {ds ds₀ ds₁ : List Deed} {k p : InstanceId} {i : Instance}

/-! ### Between two items of work -/

/-- Which items are queued that tell of children. -/
structure Reporting (e : Executor) : Prop where
  /-- A child that has ended has a live parent, which lists it, and one item tells of it to that
  parent. -/
  told : ∀ {k : InstanceId} {i : Instance}, e.instances[k]? = some i → i.state.isTerminal = true →
    k ≠ e.root → ∃ p q w, i.parent = some p ∧ e.instances[p]? = some q ∧ q.state.isLive = true ∧
      k ∈ q.children ∧ e.queue.work.filter (·.tellsOf k) = [w] ∧ w.report? = some (p, k)
  /-- No item tells of an instance that has not ended. -/
  untold : ∀ {k : InstanceId} {i : Instance}, e.instances[k]? = some i →
    i.state.isTerminal = false → ∀ w ∈ e.queue.work, w.tellsOf k = false

/-- An item that tells of a child says who is told. -/
theorem exists_report {w : WorkItem} (hw : w.tellsOf k = true) : ∃ p, w.report? = some (p, k) := by
  obtain ⟨⟨p, c⟩, hr, hc⟩ := (Option.any_eq_true _ _).mp hw
  cases beq_iff_eq.mp hc
  exact ⟨p, hr⟩

/-- Children are reported while work is done. -/
theorem Placed.reporting (h : e.Placed Nobody) : e.Reporting where
  told {k i} hi ht hk := by
    cases hp : i.parent with
    | none => exact absurd (h.tree.orphan hi hp) hk
    | some p =>
      obtain ⟨q, hq, hl, hc⟩ := parent_live h.tree hi hp
      have one := h.told hi ht hp id
      rw [List.countP_eq_length_filter, List.length_eq_one_iff] at one
      obtain ⟨w, hw⟩ := one
      obtain ⟨hm, hwk⟩ := List.mem_filter.mp (hw ▸ List.mem_singleton_self w)
      obtain ⟨p', hr⟩ := exists_report hwk
      obtain ⟨-, -, hparent, -⟩ := h.reported hm hr
      cases hp.symm.trans (hparent i hi).2
      exact ⟨p, q, w, rfl, hq, hl, hc, hw, hr⟩
  untold {k i} hi ht w hw := by
    rw [Bool.eq_false_iff]
    intro hwk
    obtain ⟨p, hr⟩ := exists_report hwk
    obtain ⟨-, -, hended, -⟩ := h.reported hw hr
    exact absurd (ht.symm.trans (hended i hi).1) Bool.false_ne_true

/-- Between two items of work children are reported. -/
theorem Regular.reporting (h : e.Regular) : e.Reporting := by
  cases h with
  | working h => exact h.placed.reporting
  | resting h =>
    obtain ⟨told, untold⟩ := h.consistent.placed.reporting
    exact ⟨told, untold⟩
  | finished h =>
    -- Only the root is left, and it has ended.
    obtain ⟨r, hr, -⟩ := h.tree.rooted
    have ended : r.state.isTerminal = true := h.ended hr
    have only : ∀ {k : InstanceId} {i : Instance}, e.instances[k]? = some i → k = e.root :=
      fun hi => h.tree.eq_root hr ((h.tree.sound hr).childless ended) hi
    refine ⟨fun hi _ hk => absurd (only hi) hk, fun hi ht => ?_⟩
    cases only hi
    cases hr.symm.trans hi
    exact absurd (ht.symm.trans ended) Bool.false_ne_true
  | aborted h =>
    constructor
    all_goals
      intro k i hi
      rw [h.instances] at hi
      simp at hi

/-! ### Over a history -/

/-- How often an instance is observed. -/
def observations (k : InstanceId) (ds : List Deed) : Nat :=
  ds.countP fun d => d.observed.any (·.2 == k)

theorem observations_append (k : InstanceId) (ds ds' : List Deed) :
    observations k (ds ++ ds') = observations k ds + observations k ds' :=
  List.countP_append

/-- A turn observes an instance at most once. -/
theorem observations_single (k : InstanceId) (d : Deed) :
    (observations k [d] = 1 ∧ d.Observes k) ∨ (observations k [d] = 0 ∧ ¬ d.Observes k) := by
  unfold observations
  rw [List.countP_singleton]
  cases ho : d.observed with
  | none =>
    refine .inr ⟨rfl, fun ⟨p, hp⟩ => ?_⟩
    exact absurd (ho.symm.trans hp) (Option.some_ne_none _).symm
  | some pk =>
    obtain ⟨p, c⟩ := pk
    rw [Option.any_some]
    by_cases hc : c = k
    · cases hc
      exact .inl ⟨if_pos (beq_self_eq_true k), p, ho⟩
    · refine .inr ⟨if_neg fun hb => hc (beq_iff_eq.mp hb), fun ⟨p', hp⟩ => ?_⟩
      cases ho.symm.trans hp
      exact hc rfl

/-- Who is observed in a turn is a child that has ended, has a live parent, and leaves. -/
theorem Regular.observed (h : e.Regular) (t : Turn e d e') (ho : d.observed = some (p, k)) :
    e.isLive p = true ∧ (∃ i, e.instances[k]? = some i ∧ i.state.isTerminal = true ∧
      i.parent = some p) ∧ e'.instances[k]? = none := by
  obtain ⟨x, call, m, hooks, hc⟩ := h.conduct t
  exact hc.observed ho

/-- An instance is observed at most once, and not while it is there or before it comes. -/
theorem HasHistory.observations_le (h : e.HasHistory ds) (k : InstanceId) :
    observations k ds ≤ 1 ∧
      ((∃ i, e.instances[k]? = some i) ∨ e.nextInstance ≤ k.number → observations k ds = 0) := by
  induction h with
  | created => exact ⟨Nat.zero_le 1, fun _ => rfl⟩
  | @turn e e' ds d h t ih =>
    obtain ⟨once, never⟩ := ih
    have lasts := h.regular.lasts t
    rw [observations_append]
    rcases observations_single k d with ⟨hk, p, hp⟩ | ⟨hk, -⟩
    · obtain ⟨-, ⟨i, hi, -⟩, gone⟩ := h.regular.observed t hp
      have old : k.number < e'.nextInstance :=
        Nat.lt_of_lt_of_le ((h.regular.tree_of_lookup hi).below hi) lasts.next
      rw [hk, never (.inl ⟨i, hi⟩)]
      refine ⟨Nat.le_refl 1, fun hn => absurd hn ?_⟩
      rintro (⟨j, hj⟩ | hn)
      · exact absurd (gone.symm.trans hj) (Option.some_ne_none j).symm
      · exact Nat.not_lt.mpr hn old
    · rw [hk, Nat.add_zero]
      refine ⟨once, fun hn => never ?_⟩
      by_cases hold : k.number < e.nextInstance
      · rcases hn with ⟨i, hi⟩ | hn
        · obtain ⟨j, hj, -⟩ := lasts.kept hi hold
          exact .inl ⟨j, hj⟩
        · exact absurd (Nat.le_trans lasts.next hn) (Nat.not_le.mpr hold)
      · exact .inr (Nat.le_of_not_lt hold)

/-- A turn keeps account of a child: while its parent has not faulted, the child is there, or it is
observed in that turn, or it has left before. -/
theorem Regular.keeps_child (h : e.Regular) (t : Turn e d e') (hi : e.instances[k]? = some i)
    (hp : i.parent = some p) {q : Instance} (hq : e'.instances[p]? = some q)
    (hf : q.state ≠ .faulted) :
    (∃ j, e'.instances[k]? = some j ∧ j.parent = some p) ∨ d.Observes k := by
  have tree := h.tree_of_lookup hi
  have hk := tree.below hi
  have hpk := Nat.lt_trans (tree.older hi hp) hk
  obtain ⟨S, j, passage⟩ := h.passage t
  rcases passage.fate hi hp hk hpk with ho | ⟨i', hi'⟩ | faulted
  · exact .inr ho
  · obtain ⟨o, ho, ha⟩ := passage.old hi' hk
    cases hi.symm.trans ho
    exact .inl ⟨i', hi', ha.parent.trans hp⟩
  · exact absurd (faulted q hq) hf

/-- While a parent has not faulted, a child of it is there, or it has been observed once. -/
theorem HasHistory.accounts (h₀ : e₀.HasHistory ds₀) (h : Leads e₀ ds₁ e) {j q : Instance}
    (hj : e₀.instances[k]? = some j) (hp : j.parent = some p) (hq : e.instances[p]? = some q)
    (hf : q.state ≠ .faulted) : (∃ i, e.instances[k]? = some i ∧ i.parent = some p) ∨
      (e.instances[k]? = none ∧ observations k ds₁ = 1) := by
  have tree := h₀.regular.tree_of_lookup hj
  have hk := tree.below hj
  have hpk := Nat.lt_trans (tree.older hj hp) hk
  induction h generalizing q with
  | refl => exact .inl ⟨j, hj, hp⟩
  | @turn e e' ds d h t ih =>
    have history := h₀.leads h
    have regular := history.regular
    have lasted := h.lasts h₀.regular
    have lasts := regular.lasts t
    -- The parent was there and had not faulted.
    obtain ⟨S, o, passage⟩ := regular.passage t
    obtain ⟨r, hr, ha⟩ := passage.old hq (Nat.lt_of_lt_of_le hpk lasted.next)
    have hrf : r.state ≠ .faulted := fun hs =>
      hf ((ha.final (by rw [hs]; rfl)).trans hs)
    have single := observations_single k d
    rcases ih hr hrf with ⟨i, hi, hip⟩ | ⟨gone, once⟩
    · refine (regular.keeps_child t hi hip hq hf).imp_right fun observed => ?_
      obtain ⟨p', hp'⟩ := observed
      have never := (history.observations_le k).2 (.inl ⟨i, hi⟩)
      rw [observations_append] at never ⊢
      refine ⟨(regular.observed t hp').2.2, ?_⟩
      have one := (single.resolve_right fun hn => hn.2 ⟨p', hp'⟩).1
      omega
    · refine .inr ⟨lasts.gone (Nat.lt_of_lt_of_le hk lasted.next) gone, ?_⟩
      rw [observations_append]
      rcases single with ⟨-, p', hp'⟩ | ⟨hn, -⟩
      · obtain ⟨-, ⟨i, hi, -⟩, -⟩ := regular.observed t hp'
        exact absurd (gone.symm.trans hi) (Option.some_ne_none i).symm
      · omega

/-- Over a history an instance was seen as a child of another one. -/
def Begot (e : Executor) (ds : List Deed) (p k : InstanceId) : Prop :=
  ∃ e₀ ds₀ ds₁ j, HasHistory e₀ ds₀ ∧ Leads e₀ ds₁ e ∧ ds = ds₀ ++ ds₁ ∧
    e₀.instances[k]? = some j ∧ j.parent = some p

/-- While a parent has not faulted, a child of it is there and was not observed, or it has left and
was observed once. -/
theorem Begot.accounts (h : e.Begot ds p k) {q : Instance} (hq : e.instances[p]? = some q)
    (hf : q.state ≠ .faulted) :
    ((∃ i, e.instances[k]? = some i ∧ i.parent = some p) ∧ observations k ds = 0) ∨
      (e.instances[k]? = none ∧ observations k ds = 1) := by
  obtain ⟨e₀, ds₀, ds₁, j, h₀, hl, rfl, hj, hp⟩ := h
  have never := (h₀.observations_le k).2 (.inl ⟨j, hj⟩)
  refine (h₀.accounts hl hj hp hq hf).imp (fun ⟨i, hi, hip⟩ => ⟨⟨i, hi, hip⟩, ?_⟩)
    fun ⟨gone, once⟩ => ⟨gone, ?_⟩
  · exact ((h₀.leads hl).observations_le k).2 (.inl ⟨i, hi⟩)
  · rw [observations_append, never, once]

/-- A parent that completes has observed every child. -/
theorem Begot.observed (h : e.Begot ds p k) (hr : e.Regular) {q : Instance}
    (hq : e.instances[p]? = some q) (ht : q.state.isTerminal = true) (hf : q.state ≠ .faulted) :
    observations k ds = 1 := by
  rcases h.accounts hq hf with ⟨⟨i, hi, hp⟩, -⟩ | ⟨-, once⟩
  · have live := (hr.tree_of_lookup hi).parent_not_terminal hi hp hq
    exact absurd (live.symm.trans ht) Bool.false_ne_true
  · exact once

/-- When nothing is queued, a child that has ended was observed once, if its parent has not faulted. -/
theorem Begot.settled (h : e.Begot ds p k) (hr : e.Regular) {q : Instance}
    (hq : e.instances[p]? = some q) (hf : q.state ≠ .faulted) (hw : e.queue.work = [])
    (hend : ∀ i, e.instances[k]? = some i → i.state.isTerminal = true) : observations k ds = 1 := by
  rcases h.accounts hq hf with ⟨⟨i, hi, hp⟩, -⟩ | ⟨-, once⟩
  · have child : k ≠ e.root := (hr.tree_of_lookup hi).ne_root hi hp
    obtain ⟨-, -, w, -, -, -, -, told, -⟩ := hr.reporting.told hi (hend i hi) child
    rw [hw] at told
    exact absurd told (by simp)
  · exact once

/-- Between two items of work, a child that has ended has a live parent that lists it, and exactly one
queued item tells of it, to that parent; none tells of an instance that has not ended. Over every
history, whoever is observed is a child that has ended, is observed by its parent, which is live, and
leaves; nobody is observed twice. A child whose parent is live is there and was not observed, or it has
left and was observed once; if nothing is queued and the child has ended, it was observed once. When its
parent has closed or was canceled, it was observed once. -/
theorem Reachable.reports_once (h : e.Reachable) :
    e.Reporting ∧
    (∀ (d : Deed) (e' : Executor) (p k : InstanceId), Turn e d e' → d.observed = some (p, k) →
      e.isLive p = true ∧ (∃ i, e.instances[k]? = some i ∧ i.state.isTerminal = true ∧
        i.parent = some p) ∧ e'.instances[k]? = none) ∧
    (∃ ds, e.HasHistory ds) ∧
    ∀ ds : List Deed, e.HasHistory ds →
      (∀ k : InstanceId, observations k ds ≤ 1) ∧
      ∀ (p k : InstanceId) (q : Instance), e.Begot ds p k → e.instances[p]? = some q →
        (q.state.isLive = true →
          ((∃ i, e.instances[k]? = some i ∧ i.parent = some p) ∧ observations k ds = 0) ∨
          (e.instances[k]? = none ∧ observations k ds = 1)) ∧
        (q.state.isLive = true → e.queue.work = [] →
          (∀ i, e.instances[k]? = some i → i.state.isTerminal = true) → observations k ds = 1) ∧
        (q.state = .closed ∨ q.state = .canceled → observations k ds = 1) := by
  refine ⟨h.regular.reporting, fun d e' p k t ho => h.regular.observed t ho, h.exists_history,
    fun ds hds => ⟨fun k => (hds.observations_le k).1, fun p k q begot hq => ?_⟩⟩
  have unfaulted : q.state.isLive = true → q.state ≠ .faulted := by
    intro hl hf
    rw [hf] at hl
    exact absurd hl Bool.false_ne_true
  refine ⟨fun hl => begot.accounts hq (unfaulted hl),
    fun hl hw hend => begot.settled h.regular hq (unfaulted hl) hw hend, fun hs => ?_⟩
  rcases hs with hs | hs
  · exact begot.observed h.regular hq (by rw [hs]; rfl) (by rw [hs]; decide)
  · exact begot.observed h.regular hq (by rw [hs]; rfl) (by rw [hs]; decide)

/-- The first of two activities that waited side by side has completed: one item tells of it, and then
it was observed once. -/
theorem reports_once_pair :
    (∃ p q w, closedPair.instances[p]? = some q ∧ q.state.isLive = true ∧
      (⟨2⟩ : InstanceId) ∈ q.children ∧
      closedPair.queue.work.filter (·.tellsOf ⟨2⟩) = [w] ∧ w.report? = some (p, ⟨2⟩)) ∧
    ∃ ds, partedPair.HasHistory ds ∧ partedPair.Begot ds ⟨1⟩ ⟨2⟩ ∧ observations ⟨2⟩ ds = 1 := by
  have first : closedPair.Reachable :=
    (reachable_waitingPair.served (.resumeBookmark ⟨.default, "go"⟩ .null .low)).served .runOneStep
  have second : partedPair.Reachable := first.served .runOneStep
  have closed : (closedPair.instances[(⟨2⟩ : InstanceId)]?).any (·.state.isTerminal) = true := by
    decide +kernel
  have child : (waitingPair.instances[(⟨2⟩ : InstanceId)]?).any (·.parent == some ⟨1⟩) = true := by
    decide +kernel
  have parent : partedPair.isLive ⟨1⟩ = true := by decide +kernel
  have quiet : partedPair.queue.isEmpty = true := by decide +kernel
  have gone : (partedPair.instances[(⟨2⟩ : InstanceId)]?).isNone = true := by decide +kernel
  have notRoot : (⟨2⟩ : InstanceId) ≠ closedPair.root := by decide +kernel
  constructor
  · obtain ⟨i, hi, ht⟩ := (Option.any_eq_true _ _).mp closed
    obtain ⟨p, q, w, -, hq, hl, hc, hw, hr⟩ := first.reports_once.1.told hi ht notRoot
    exact ⟨p, q, w, hq, hl, hc, hw, hr⟩
  · obtain ⟨i, hi, hp⟩ := (Option.any_eq_true _ _).mp child
    obtain ⟨q, hq, hl⟩ := isLive_iff.mp parent
    obtain ⟨ds₀, h₀⟩ := reachable_waitingPair.exists_history
    obtain ⟨ds₁, h₁⟩ : ∃ ds₁, Leads waitingPair ds₁ resumedPair :=
      h₀.regular.leads_serve (.resumeBookmark ⟨.default, "go"⟩ .null .low)
    obtain ⟨ds₂, h₂⟩ : ∃ ds₂, Leads resumedPair ds₂ closedPair :=
      (h₁.regular h₀.regular).leads_serve .runOneStep
    obtain ⟨ds₃, h₃⟩ : ∃ ds₃, Leads closedPair ds₃ partedPair :=
      first.regular.leads_serve .runOneStep
    have leads := (h₁.trans h₂).trans h₃
    have begot : partedPair.Begot (ds₀ ++ (ds₁ ++ ds₂ ++ ds₃)) ⟨1⟩ ⟨2⟩ :=
      ⟨_, _, _, i, h₀, leads, rfl, hi, beq_iff_eq.mp hp⟩
    refine ⟨_, h₀.leads leads, begot, ?_⟩
    exact ((second.reports_once.2.2.2 _ (h₀.leads leads)).2 _ _ q begot hq).2.1 hl
      (WorkQueue.isEmpty_iff.mp quiet) (forall_of_isNone gone)

end Workflow.Executor
