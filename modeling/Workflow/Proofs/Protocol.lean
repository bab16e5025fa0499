import Workflow.Proofs.History
import Workflow.Proofs.Waiting

/-!
# The callbacks of an instance

Over a whole history the callbacks of one instance form a word. Its body is run first and only once, it
is asked to cancel at most once, and the abort hook comes last. Who has ended is not called again.
-/

namespace Workflow

/-- The callbacks of one instance among some calls, in order. -/
def callbacksOf (k : InstanceId) (cs : List Call) : List Callback :=
  (cs.filter (·.1 == k)).map Prod.snd

/-- The callbacks of one instance in some turns, in order. -/
def word (k : InstanceId) (ds : List Deed) : List Callback :=
  callbacksOf k (ds.flatMap fun d => calls d.entries)

/-- The order in which callbacks of one instance may come. -/
structure Orderly (w : List Callback) : Prop where
  /-- Before anything but the abort hook the body is run, and it is run only then. -/
  first : ∀ c ∈ w, c.isAbort = false →
    ∃ s rest, w = s :: rest ∧ s.isStart = true ∧ ∀ b ∈ rest, b.isStart = false
  /-- The body is asked to cancel at most once. -/
  asked : w.countP Callback.isCancel ≤ 1
  /-- Nothing comes after the abort hook. -/
  last : ∀ l c r, w = l ++ c :: r → c.isAbort = true → r = []

section Words

variable {k : InstanceId} {c : Callback} {cs cs' : List Call} {ds ds' : List Deed} {w : List Callback}

theorem callbacksOf_append : callbacksOf k (cs ++ cs') = callbacksOf k cs ++ callbacksOf k cs' := by
  rw [callbacksOf, List.filter_append, List.map_append]
  rfl

theorem callbacksOf_cons_self : callbacksOf k ((k, c) :: cs) = c :: callbacksOf k cs := by
  simp [callbacksOf]

theorem callbacksOf_cons_of_ne {x : InstanceId} (h : x ≠ k) :
    callbacksOf k ((x, c) :: cs) = callbacksOf k cs := by
  simp [callbacksOf, h]

theorem word_append : word k (ds ++ ds') = word k ds ++ word k ds' := by
  rw [word, List.flatMap_append, callbacksOf_append]
  rfl

theorem word_single (d : Deed) : word k [d] = callbacksOf k (calls d.entries) := by
  rw [word, List.flatMap_singleton]

/-- If nobody is called twice, an instance has at most one callback. -/
theorem callbacksOf_of_pairwise (h : cs.Pairwise fun a b => a.1 ≠ b.1) (k : InstanceId) :
    callbacksOf k cs = [] ∨ ∃ c, (k, c) ∈ cs ∧ callbacksOf k cs = [c] := by
  induction h with
  | nil => exact .inl rfl
  | @cons a rest ha _ ih =>
    obtain ⟨x, c⟩ := a
    by_cases hx : x = k
    · subst hx
      have none : callbacksOf x rest = [] := by
        rw [callbacksOf, List.map_eq_nil_iff, List.filter_eq_nil_iff]
        intro b hb
        simpa using Ne.symm (ha b hb)
      exact .inr ⟨c, List.mem_cons_self, by rw [callbacksOf_cons_self, none]⟩
    · rw [callbacksOf_cons_of_ne hx]
      exact ih.imp_right fun ⟨c', hc, he⟩ => ⟨c', List.mem_cons_of_mem _ hc, he⟩

theorem Orderly.nil : Orderly [] :=
  ⟨fun _ hc => absurd hc List.not_mem_nil, Nat.zero_le 1, fun l c r h _ => absurd h (by simp)⟩

/-- One more callback keeps the order. The first one runs the body or tells it that it is torn down; a
later one does not run it. -/
theorem Orderly.snoc (h : Orderly w) (hs : c.isStart = true → w = [])
    (hn : c.isStart = false → c.isAbort = false → w ≠ [])
    (hc : c.isCancel = true → ∀ b ∈ w, b.isCancel = false) (ha : ∀ b ∈ w, b.isAbort = false) :
    Orderly (w ++ [c]) where
  first b hb hba := by
    cases w with
    | nil =>
      rw [List.nil_append, List.mem_singleton] at hb
      subst hb
      refine ⟨b, [], rfl, ?_, fun _ hr => absurd hr List.not_mem_nil⟩
      rw [← Bool.not_eq_false]
      exact fun hbs => hn hbs hba rfl
    | cons a rest =>
      obtain ⟨s, r, hw, hstart, hr⟩ := h.first a List.mem_cons_self (ha a List.mem_cons_self)
      refine ⟨s, r ++ [c], by rw [hw, List.cons_append], hstart, ?_⟩
      rw [List.forall_mem_append, List.forall_mem_singleton, Bool.eq_false_iff]
      exact ⟨hr, fun hcs => absurd (hs hcs) (List.cons_ne_nil a rest)⟩
  asked := by
    rw [List.countP_append, List.countP_singleton]
    split
    · next hcc =>
      have none : w.countP Callback.isCancel = 0 :=
        List.countP_eq_zero.mpr fun b hb => Bool.eq_false_iff.mp (hc hcc b hb)
      exact Nat.le_of_eq (by rw [none])
    · exact h.asked
  last l b r hw hb := by
    rcases List.append_eq_append_iff.mp hw with ⟨u, -, hu⟩ | ⟨u, hu, hr⟩
    · cases u with
      | nil =>
        rw [List.nil_append, List.cons.injEq] at hu
        exact hu.2.symm
      | cons _ _ =>
        rw [List.cons_append, List.cons.injEq, List.nil_eq, List.append_eq_nil_iff] at hu
        exact absurd hu.2.2 (List.cons_ne_nil b r)
    · cases u with
      | nil =>
        rw [List.nil_append, List.cons.injEq] at hr
        exact hr.2
      | cons b' u =>
        rw [List.cons_append, List.cons.injEq] at hr
        obtain ⟨rfl, -⟩ := hr
        have hm : b ∈ w := hu ▸ List.mem_append_right _ List.mem_cons_self
        exact absurd (hb.symm.trans (ha b hm)) Bool.false_ne_true.symm

end Words

namespace Executor

variable {e e' e'' m : Executor} {d : Deed} {ds ds' : List Deed} {x k : InstanceId} {i : Instance}
variable {call : Option Callback} {hooks cs : List Call} {w : List Callback}

/-! ### One turn -/

/-- An instance has ended: it is in a terminal state, or it has left. -/
def Over (e : Executor) (k : InstanceId) : Prop :=
  k.number < e.nextInstance ∧ ∀ i, e.instances[k]? = some i → i.state.isTerminal = true

/-- In a turn an instance is called back, or it is not and has not come to have run. -/
theorem Conduct.own (h : Conduct e d e' x call m hooks) (k : InstanceId) :
    (callbacksOf k (call.toList.map (x, ·)) = [] ∧ ¬ Runs x call k) ∨
      ∃ c i, callbacksOf k (call.toList.map (x, ·)) = [c] ∧ k = x ∧ call = some c ∧
        e.instances[k]? = some i ∧ i.Accepts c := by
  cases hc : call with
  | none => exact .inl ⟨rfl, fun ⟨_, c, hs, _⟩ => Option.some_ne_none c hs.symm⟩
  | some c =>
    by_cases hx : x = k
    · subst hx
      obtain ⟨i, hi, ha⟩ := h.accepted c hc
      exact .inr ⟨c, i, callbacksOf_cons_self, rfl, rfl, hi, ha⟩
    · exact .inl ⟨callbacksOf_cons_of_ne hx, fun hk => hx hk.1.symm⟩

/-- An instance is told at most once, while it is live, and leaves. -/
theorem Told.hook (h : Told m hooks e') (k : InstanceId) :
    callbacksOf k hooks = [] ∨
      ∃ f, callbacksOf k hooks = [.abort f] ∧ m.isLive k = true ∧ e'.instances[k]? = none ∧
        k.number < m.nextInstance := by
  refine (callbacksOf_of_pairwise (h.order.imp And.left) k).imp_right fun ⟨c, hm, hc⟩ => ?_
  obtain ⟨f, rfl⟩ := h.reason _ hm
  have live := h.live _ hm
  obtain ⟨i, hi, -⟩ := isLive_iff.mp live
  exact ⟨f, hc, live, h.gone _ hm, (h.tree (List.ne_nil_of_mem hm)).below hi⟩

/-- The callbacks of an instance in a turn: that of its body and the abort hook. -/
theorem Conduct.callbacks (h : Conduct e d e' x call m hooks) (k : InstanceId) :
    callbacksOf k (Workflow.calls d.entries) =
      callbacksOf k (call.toList.map (x, ·)) ++ callbacksOf k hooks := by
  rw [h.calls, callbacksOf_append]

/-- An instance that has ended is not called, and stays ended. -/
theorem Over.turn (ho : e.Over k) (h : e.Regular) (t : Turn e d e') :
    callbacksOf k (calls d.entries) = [] ∧ e'.Over k := by
  obtain ⟨x, call, m, hooks, hc⟩ := h.conduct t
  obtain ⟨j, told⟩ := hc.after
  have own : callbacksOf k (call.toList.map (x, ·)) = [] := by
    rcases hc.own k with ⟨hn, -⟩ | ⟨c, i, -, -, -, hi, ha⟩
    · exact hn
    · exact absurd ((ho.2 i hi).symm.trans ha.not_terminal) Bool.false_ne_true.symm
  have hook : callbacksOf k hooks = [] := by
    rcases told.hook k with hn | ⟨f, -, hl, -⟩
    · exact hn
    · obtain ⟨i, hi, hil⟩ := isLive_iff.mp hl
      obtain ⟨o, hoi, ha⟩ := hc.before.old hi ho.1
      have live := ha.not_terminal (ActivityState.not_terminal_of_isLive hil)
      exact absurd ((ho.2 o hoi).symm.trans live) Bool.false_ne_true.symm
  obtain ⟨j, passage⟩ := hc.passage
  refine ⟨by rw [hc.callbacks, own, hook, List.append_nil], Nat.lt_of_lt_of_le ho.1 passage.later,
    fun i hi => ?_⟩
  obtain ⟨o, hoi, ha⟩ := passage.old hi ho.1
  have ended := ho.2 o hoi
  rw [ha.final ended, ended]

/-- An instance that has ended is never called again. -/
theorem Over.silent (ho : e.Over k) (h : e.Regular) (hl : Leads e ds e') :
    word k ds = [] ∧ e'.Over k := by
  induction hl with
  | refl => exact ⟨rfl, ho⟩
  | turn hl t ih =>
    obtain ⟨silent, ended⟩ := ih
    obtain ⟨uncalled, ended⟩ := ended.turn (hl.regular h) t
    exact ⟨by rw [word_append, word_single, silent, uncalled, List.append_nil], ended⟩

/-! ### A whole history -/

/-- What the callbacks of an instance so far have to do with its state. -/
structure Kept (e : Executor) (k : InstanceId) (w : List Callback) : Prop where
  orderly : Orderly w
  /-- Nobody is called before it comes. -/
  unborn : e.nextInstance ≤ k.number → w = []
  /-- Who has not run was not called, and is not asked to cancel. -/
  fresh : ∀ i, e.instances[k]? = some i → i.state.isTerminal = false → i.executed = false →
    w = [] ∧ i.cancelRequested = false
  /-- Who has run was called. -/
  started : ∀ i, e.instances[k]? = some i → i.state.isTerminal = false → i.executed = true → w ≠ []
  /-- The body was asked to cancel only if the instance was. -/
  uncanceled : ∀ i, e.instances[k]? = some i → i.state.isTerminal = false →
    i.cancelRequested = false → ∀ c ∈ w, c.isCancel = false
  /-- Who is there was not told that it is torn down. -/
  unaborted : ∀ i, e.instances[k]? = some i → ∀ c ∈ w, c.isAbort = false

namespace Kept

/-- An instance that comes to be there, or stays there, was not told that it is torn down. -/
theorem not_aborted {S D : InstanceId → Prop} (h : Kept e k w) (hp : Passage S D e cs m)
    (hi : m.instances[k]? = some i) : ∀ c ∈ w, c.isAbort = false := by
  rcases hp.back hi with ⟨o, ho, -⟩ | ⟨new, -⟩
  · exact h.unaborted o ho
  · rw [h.unborn new]
    exact fun _ hc => absurd hc List.not_mem_nil

/-- A callback that an instance accepts comes in order. -/
theorem called (h : Kept e k w) (hi : e.instances[k]? = some i) {c : Callback} (ha : i.Accepts c) :
    Orderly (w ++ [c]) := by
  have live := ha.not_terminal
  exact h.orderly.snoc (fun hc => (h.fresh i hi live (ha.unexecuted hc)).1)
    (fun hc _ => h.started i hi live (ha.executed hc))
    (fun hc => h.uncanceled i hi live (ha.unrequested hc)) (h.unaborted i hi)

/-- What is called in a turn comes in order. -/
theorem orderly_turn (h : Kept e k w) (hc : Conduct e d e' x call m hooks) :
    Orderly (w ++ callbacksOf k (calls d.entries)) := by
  obtain ⟨j, told⟩ := hc.after
  -- The call of the body comes in order, and it is not the abort hook.
  have called : Orderly (w ++ callbacksOf k (call.toList.map (x, ·))) := by
    rcases hc.own k with ⟨hn, -⟩ | ⟨c, i, hk, -, -, hi, ha⟩
    · rw [hn, List.append_nil]
      exact h.orderly
    · exact hk ▸ h.called hi ha
  rw [hc.callbacks, ← List.append_assoc]
  rcases told.hook k with hn | ⟨f, hk, hl, -⟩
  · rwa [hn, List.append_nil]
  · obtain ⟨i, hi, -⟩ := isLive_iff.mp hl
    have unaborted : ∀ c ∈ w ++ callbacksOf k (call.toList.map (x, ·)), c.isAbort = false := by
      refine List.forall_mem_append.mpr ⟨h.not_aborted hc.before hi, ?_⟩
      rcases hc.own k with ⟨hn, -⟩ | ⟨c, i, hk, -, -, -, ha⟩
      · rw [hn]
        exact fun _ hc => absurd hc List.not_mem_nil
      · rw [hk, List.forall_mem_singleton]
        exact ha.not_abort
    rw [hk]
    refine called.snoc (fun hs => absurd hs Bool.false_ne_true)
      (fun _ ha => absurd ha.symm Bool.false_ne_true) (fun hs => absurd hs Bool.false_ne_true) unaborted

end Kept

/-- Who is there after a turn was not called, or it was there and was called once. -/
theorem Regular.present (hr : e.Regular) (h : Conduct e d e' x call m hooks)
    (hi : e'.instances[k]? = some i) :
    (callbacksOf k (calls d.entries) = [] ∧
      ((∃ o, e.instances[k]? = some o ∧ i.Ages False o) ∨
        (e.nextInstance ≤ k.number ∧ i.IsNew False))) ∨
    ∃ c o, callbacksOf k (calls d.entries) = [c] ∧ e.instances[k]? = some o ∧ o.Accepts c ∧
      i.Ages (c.isStart = true) o ∧ (i.state.isLive = true → i.Answered c) := by
  obtain ⟨j, told⟩ := h.after
  obtain ⟨j, passage⟩ := h.passage
  have untold : callbacksOf k hooks = [] := by
    rcases told.hook k with hn | ⟨f, -, -, gone, -⟩
    · exact hn
    · exact absurd (gone.symm.trans hi) (Option.some_ne_none i).symm
  rw [h.callbacks, untold, List.append_nil]
  rcases h.own k with ⟨hn, hs⟩ | ⟨c, o, hk, rfl, rfl, ho, ha⟩
  · refine .inl ⟨hn, (passage.back hi).imp (fun ⟨o, ho, ha⟩ => ⟨o, ho, ha.mono hs⟩) ?_⟩
    exact fun ⟨new, hx⟩ => ⟨new, fun _ => hx.ran hs, hx.unrun⟩
  · obtain ⟨o', ho', ages⟩ := passage.old hi ((hr.tree_of_lookup ho).below ho)
    cases ho.symm.trans ho'
    refine .inr ⟨c, o, hk, ho, ha, ages.mono ?_, h.answered rfl hi⟩
    rintro ⟨-, c', hc, hs⟩
    cases hc
    exact hs

/-- Who has not come by the end of a turn was not called. -/
theorem Regular.unborn (hr : e.Regular) (h : Conduct e d e' x call m hooks)
    (hn : e'.nextInstance ≤ k.number) : callbacksOf k (calls d.entries) = [] := by
  obtain ⟨j, told⟩ := h.after
  have later : m.nextInstance ≤ k.number := Nat.le_trans told.passage.later hn
  rw [h.callbacks, List.append_eq_nil_iff]
  constructor
  · rcases h.own k with ⟨hk, -⟩ | ⟨c, i, -, -, -, hi, -⟩
    · exact hk
    · have below := (hr.tree_of_lookup hi).below hi
      exact absurd (Nat.le_trans h.before.later later) (Nat.not_le.mpr below)
  · rcases told.hook k with hk | ⟨f, -, -, -, below⟩
    · exact hk
    · exact absurd later (Nat.not_le.mpr below)

/-- Each turn keeps the order. -/
theorem Kept.turn (h : Kept e k w) (hr : e.Regular) (t : Turn e d e') :
    Kept e' k (w ++ callbacksOf k (calls d.entries)) := by
  obtain ⟨x, call, m, hooks, hc⟩ := hr.conduct t
  have live : ∀ {i}, e'.instances[k]? = some i → i.state.isTerminal = false →
      i.state.isLive = true := fun hi =>
    ActivityState.isLive_of_not_terminal (((hr.turn t).tree_of_lookup hi).sound hi).steady
  refine ⟨h.orderly_turn hc, fun hn => ?_, fun i hi ht hx => ?_, fun i hi ht hx => ?_,
    fun i hi ht hq => ?_, fun i hi => ?_⟩
  · rw [h.unborn (Nat.le_trans (hr.lasts t).next hn), hr.unborn hc hn, List.append_nil]
  · rcases hr.present hc hi with ⟨hn, ⟨o, ho, ages⟩ | ⟨new, hnew⟩⟩ | ⟨c, o, -, ho, ha, ages, answered⟩
    · obtain ⟨hw, hq⟩ := h.fresh o ho (ages.not_terminal ht) ((ages.ran not_false ht).symm.trans hx)
      refine ⟨by rw [hn, hw]; rfl, Bool.eq_false_iff.mpr fun hiq => ?_⟩
      exact absurd (hq.symm.trans (ages.unrun hx hiq).2) Bool.false_ne_true
    · exact ⟨by rw [hn, h.unborn new]; rfl, hnew.unrun hx⟩
    · have ran := ha.executed_after ages (answered (live hi ht)) ht
      exact absurd (hx.symm.trans ran) Bool.false_ne_true
  · rcases hr.present hc hi with ⟨hn, ⟨o, ho, ages⟩ | ⟨-, hnew⟩⟩ | ⟨c, o, hk, -⟩
    · rw [hn, List.append_nil]
      exact h.started o ho (ages.not_terminal ht) ((ages.ran not_false ht).symm.trans hx)
    · exact absurd ((hnew.ran not_false ht).symm.trans hx) Bool.false_ne_true
    · rw [hk]
      exact List.append_ne_nil_of_right_ne_nil _ (List.cons_ne_nil c [])
  · have unrequested : ∀ {p : Prop} {o : Instance}, i.Ages p o → o.cancelRequested = false :=
      fun ages => Bool.eq_false_iff.mpr fun ho =>
        absurd (hq.symm.trans (ages.asked ho)) Bool.false_ne_true
    rcases hr.present hc hi with ⟨hn, ⟨o, ho, ages⟩ | ⟨new, -⟩⟩ | ⟨c, o, hk, ho, ha, ages, answered⟩
    · rw [hn, List.append_nil]
      exact h.uncanceled o ho (ages.not_terminal ht) (unrequested ages)
    · rw [hn, h.unborn new]
      exact fun _ hc => absurd hc List.not_mem_nil
    · rw [hk, List.forall_mem_append, List.forall_mem_singleton, Bool.eq_false_iff]
      refine ⟨h.uncanceled o ho ha.not_terminal (unrequested ages), fun hcc => ?_⟩
      have requested := (answered (live hi ht)).requested hcc
      exact absurd (hq.symm.trans requested) Bool.false_ne_true
  · rcases hr.present hc hi with ⟨hn, ⟨o, ho, -⟩ | ⟨new, -⟩⟩ | ⟨c, o, hk, ho, ha, -⟩
    · rw [hn, List.append_nil]
      exact h.unaborted o ho
    · rw [hn, h.unborn new]
      exact fun _ hc => absurd hc List.not_mem_nil
    · rw [hk, List.forall_mem_append, List.forall_mem_singleton]
      exact ⟨h.unaborted o ho, ha.not_abort⟩

/-- A live instance has run if its body was called, and the first call ran it. -/
theorem Kept.begins (h : Kept e k w) (hi : e.instances[k]? = some i) (hl : i.state.isLive = true) :
    (i.executed = false → w = []) ∧ (i.executed = true →
      ∃ s rest, w = s :: rest ∧ s.isStart = true ∧ ∀ b ∈ rest, b.isStart = false) := by
  have live := ActivityState.not_terminal_of_isLive hl
  refine ⟨fun hx => (h.fresh i hi live hx).1, fun hx => ?_⟩
  obtain ⟨c, hc⟩ := List.exists_mem_of_ne_nil w (h.started i hi live hx)
  exact h.orderly.first c hc (h.unaborted i hi c hc)

/-- The callbacks of every instance are in order, whatever has happened. -/
theorem HasHistory.kept (h : e.HasHistory ds) (k : InstanceId) : Kept e k (word k ds) := by
  induction h with
  | created h =>
    obtain ⟨-, -, rfl⟩ := create_eq_ok.mp h
    refine ⟨.nil, fun _ => rfl, fun i hi _ _ => ?_, fun i hi _ hx => ?_,
      fun _ _ _ _ _ hc => absurd hc List.not_mem_nil, fun _ _ _ hc => absurd hc List.not_mem_nil⟩
    · obtain ⟨-, rfl⟩ := lookup_rootOnly.mp hi
      exact ⟨rfl, rfl⟩
    · obtain ⟨-, rfl⟩ := lookup_rootOnly.mp hi
      exact absurd hx Bool.false_ne_true
  | turn h t ih =>
    rw [word_append, word_single]
    exact ih.turn h.regular t

/-! ### Cancellation before the body has run -/

/-- In a turn an instance is asked to cancel: by an item of work, or, if it is the root, by the
host. -/
def Cancels (e : Executor) (k : InstanceId) (e' : Executor) : Prop :=
  ((∃ q, e.drainInbox.2.queue.pop? = some (.cancel k, q)) ∧ e.step? = some e') ∨
    (k = e.root ∧ e' = (ExecutorCall.cancel.serve e).2)

/-- An instance that has not run is canceled at once, and nobody is called. -/
theorem cancelInstance_of_unexecuted (hi : e.instances[k]? = some i) (hl : i.state.isLive = true)
    (hx : i.executed = false) (hq : i.cancelRequested = false) :
    (∃ j, (e.cancelInstance k).instances[k]? = some j ∧ j.state = .canceled) ∧
      (e.cancelInstance k).journal = e.journal := by
  unfold cancelInstance
  rw [behaviour?, instance?, hi]
  dsimp only [Option.map_some]
  rw [if_neg (by simp [hl, hq]), if_pos (by simp [hx])]
  generalize hm : e.modify k (fun i =>
    { i with cancelRequested := true, executed := true, markedCanceled := true }) = m
  have hi' : m.instances[k]? =
      some { i with cancelRequested := true, executed := true, markedCanceled := true } := by
    rw [← hm, lookup_modify, if_pos rfl, hi]
    rfl
  obtain ⟨hinst, -, -, hj⟩ := completeInstance_eq hi' rfl
  have found : (m.completeInstance k).instances[k]? = some { i with
      cancelRequested := true, executed := true, markedCanceled := true, state := .canceled } := by
    rw [hinst, Table.lookup_modify, if_pos rfl, hi']
    rfl
  refine ⟨⟨_, found, rfl⟩, ?_⟩
  rw [hj, ← hm]
  rfl

/-- An instance that is asked to cancel before it has run is canceled, and nobody is called. -/
theorem Regular.cancels_unexecuted (h : e.Regular) (hi : e.instances[k]? = some i)
    (hl : i.state.isLive = true) (hx : i.executed = false) (hq : i.cancelRequested = false)
    (hc : e.Cancels k e') : (∃ j, e'.instances[k]? = some j ∧ j.state = .canceled) ∧
      e'.journal = e.journal := by
  rcases hc with ⟨⟨q, hw⟩, hs⟩ | ⟨rfl, rfl⟩
  · rw [step?_eq, hw, Option.map_some, Option.some.injEq] at hs
    subst hs
    exact cancelInstance_of_unexecuted (e := { e.drainInbox.2 with queue := q }) hi hl hx hq
  · have same : SameCore e e.announce := sameCore_announce
    have announced : e.announce.instances[e.root]? = some i := by rw [same.instances, hi]
    obtain ⟨canceled, hj⟩ := cancelInstance_of_unexecuted announced hl hx hq
    rw [ExecutorCall.serve, Executor.cancelWorkflow, h.accepting (isLive_iff.mpr ⟨i, hi, hl⟩), instance?, hi,
      Option.map_some, Option.getD_some, hx]
    exact ⟨canceled, hj.trans journal_announce⟩

/-- What leaves the journal as it is shows nothing. -/
theorem Turn.entries_eq_nil (t : Turn e d e') (hj : e'.journal = e.journal) : d.entries = [] := by
  cases t with
  | stepped _ _ _ hl => exact List.self_eq_append_right.mp (hj.symm.trans hl)
  | served _ hl => exact List.self_eq_append_right.mp (hj.symm.trans hl)
  | _ => rfl

/-- Those that are told in a turn are told after all that were below them when it began. -/
theorem Conduct.order (h : Conduct e d e' x call m hooks) (hr : e.Regular) :
    hooks.Pairwise fun a b => a.1 ≠ b.1 ∧ ¬ Under m.instances a.1 b.1 ∧
      ¬ Under e.instances a.1 b.1 := by
  obtain ⟨j, told⟩ := h.after
  refine told.order.imp_of_mem fun {a b} _ hb hab => ⟨hab.1, hab.2, fun hu => hab.2 ?_⟩
  obtain ⟨i, hi, -⟩ := isLive_iff.mp (told.live b hb)
  obtain ⟨o, ho⟩ := hu.found
  exact h.before.under (hr.tree_of_lookup ho) (told.tree (List.ne_nil_of_mem hb)) hu ⟨i, hi⟩

/-- Over every history the callbacks of every instance are in order: the body is run before anything
else but the abort hook, and once; it is asked to cancel at most once; nothing comes after the abort
hook. A live instance that has not run was never called, and one that has run was run first. In every
turn at most one body is called, of an instance in a condition to be called: only one that executes and
has not run is run, and only one that is live and has run is called otherwise. This leads to `m`; then
abort hooks are called of instances that are live there and leave, of each once and after those of all
that are below it, but, unless the host aborts the workflow, neither of the instance itself nor of one
above it. An instance that has ended is never called again. One that is asked to cancel before it has
run is canceled, and never called at all. -/
theorem Reachable.keeps_protocol (h : e.Reachable) :
    (∃ ds, e.HasHistory ds) ∧
    (∀ ds : List Deed, e.HasHistory ds → ∀ k : InstanceId, Orderly (word k ds) ∧
      ∀ i, e.instances[k]? = some i → i.state.isLive = true →
        (i.executed = false → word k ds = []) ∧ (i.executed = true →
          ∃ s rest, word k ds = s :: rest ∧ s.isStart = true ∧ ∀ b ∈ rest, b.isStart = false)) ∧
    (∀ (d : Deed) (e' : Executor), Turn e d e' →
      ∃ (x : InstanceId) (call : Option Callback) (m : Executor) (hooks : List Call),
        calls d.entries = call.toList.map (x, ·) ++ hooks ∧
        (∀ c, call = some c → ∃ i, e.instances[x]? = some i ∧ i.Accepts c) ∧
        Passage (Runs x call) d.Observes e (call.toList.map (x, ·)) m ∧
        (∀ a ∈ hooks, (∃ f, a.2 = .abort f) ∧ m.isLive a.1 = true ∧ e'.instances[a.1]? = none) ∧
        (hooks.Pairwise fun a b => a.1 ≠ b.1 ∧ ¬ Under m.instances a.1 b.1 ∧
          ¬ Under e.instances a.1 b.1) ∧
        ((call = none → e'.state ≠ .aborted) →
          ∀ a ∈ hooks, a.1 ≠ x ∧ ¬ Under m.instances a.1 x)) ∧
    (∀ k : InstanceId, e.Over k → ∀ (ds : List Deed) (e' : Executor), Leads e ds e' →
      word k ds = []) ∧
    ∀ (k : InstanceId) (i : Instance), e.instances[k]? = some i → i.state.isLive = true →
      i.executed = false → ∀ (d : Deed) (e' : Executor), Turn e d e' → e.Cancels k e' →
        (∃ j, e'.instances[k]? = some j ∧ j.state = .canceled) ∧
        ∀ (ds ds' : List Deed) (e'' : Executor), e.HasHistory ds → Leads e' ds' e'' →
          word k (ds ++ d :: ds') = [] := by
  have hr := h.regular
  refine ⟨h.exists_history, fun ds hds k =>
      ⟨(hds.kept k).orderly, fun i hi hl => (hds.kept k).begins hi hl⟩, fun d e' t => ?_,
    fun k ho ds e' hl => (ho.silent hr hl).1, fun k i hi hl hx d e' t hc => ?_⟩
  · obtain ⟨x, call, m, hooks, conduct⟩ := hr.conduct t
    obtain ⟨j, told⟩ := conduct.after
    exact ⟨x, call, m, hooks, conduct.calls, conduct.accepted, conduct.before,
      fun a ha => ⟨told.reason a ha, told.live a ha, told.gone a ha⟩, conduct.order hr,
      conduct.spared⟩
  · have live := ActivityState.not_terminal_of_isLive hl
    have fresh : ∀ {ds}, e.HasHistory ds → word k ds = [] ∧ i.cancelRequested = false :=
      fun hds => (hds.kept k).fresh i hi live hx
    obtain ⟨ds₀, h₀⟩ := h.exists_history
    obtain ⟨⟨j, hj, canceled⟩, still⟩ := hr.cancels_unexecuted hi hl hx (fresh h₀).2 hc
    have ended : e'.Over k := by
      refine ⟨((hr.turn t).tree_of_lookup hj).below hj, fun i hi => ?_⟩
      cases hj.symm.trans hi
      rw [canceled]
      rfl
    refine ⟨⟨j, hj, canceled⟩, fun ds ds' e'' hds hl => ?_⟩
    rw [← List.singleton_append, word_append, word_append, word_single, (fresh hds).1,
      t.entries_eq_nil still, (ended.silent (hr.turn t) hl).1]
    rfl

/-- Two activities that are to run side by side, before anything has run. -/
def newPair : Executor :=
  begun (.parallel [.waitAt "go", .waitAt "stay"])

/-- The two after the host has canceled the workflow. -/
def canceledPair : Executor :=
  (ExecutorCall.cancel.serve newPair).2

/-- The root of a workflow that the host cancels before it runs is never called. An activity that has
completed and was observed was called in order, and is never called again. -/
theorem keeps_protocol_pair :
    (∃ j, canceledPair.instances[newPair.root]? = some j ∧ j.state = .canceled) ∧
    (∃ ds, canceledPair.HasHistory ds ∧ word newPair.root ds = []) ∧
    ∃ ds, partedPair.HasHistory ds ∧ Orderly (word ⟨2⟩ ds) ∧
      ∀ (ds' : List Deed) (e' : Executor), Leads partedPair ds' e' → word ⟨2⟩ ds' = [] := by
  have h : newPair.Reachable := Reachable.begun rfl rfl
  have parted : partedPair.Reachable :=
    ((reachable_waitingPair.served (.resumeBookmark ⟨.default, "go"⟩ .null .low)).served
      .runOneStep).served .runOneStep
  have ready : (newPair.instances[newPair.root]?).any
      (fun i => i.state.isLive && !i.executed) = true := by decide +kernel
  have born : (⟨2⟩ : InstanceId).number < partedPair.nextInstance := by decide +kernel
  have gone : (partedPair.instances[(⟨2⟩ : InstanceId)]?).isNone = true := by decide +kernel
  obtain ⟨i, hi, hready⟩ := (Option.any_eq_true _ _).mp ready
  obtain ⟨hl, hx⟩ := Bool.and_eq_true_iff.mp hready
  obtain ⟨d, t⟩ : ∃ d, Turn newPair d canceledPair := h.regular.turn_serve rfl
  obtain ⟨⟨ds, hds⟩, -, -, -, cancels⟩ := h.keeps_protocol
  obtain ⟨canceled, silent⟩ :=
    cancels newPair.root i hi hl (by simpa using hx) d canceledPair t (.inr ⟨rfl, rfl⟩)
  obtain ⟨⟨ds₁, h₁⟩, orderly, -, silent₁, -⟩ := parted.keeps_protocol
  exact ⟨canceled, ⟨ds ++ [d], hds.turn t, silent ds [] canceledPair hds .refl⟩,
    ds₁, h₁, (orderly ds₁ h₁ ⟨2⟩).1, silent₁ ⟨2⟩ ⟨born, forall_of_isNone gone⟩⟩

end Executor

end Workflow
