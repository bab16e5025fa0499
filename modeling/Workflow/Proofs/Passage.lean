import Workflow.Proofs.Callback

/-!
# Calls, and what becomes of instances

While work is done, bodies are called and instances come, grow older and leave. A passage from one
executor to another lists the calls in between. Identifiers are not given out twice, a terminal state
is final, and a child does not leave unseen while its parent goes on.
-/

namespace Workflow

/-- A call of the engine to the body of an instance. -/
abbrev Call := InstanceId × Callback

/-- The call that an entry of the journal tells of. -/
def JournalEntry.call? : JournalEntry → Option Call
  | call id _ callback => some (id, callback)
  | line _ => none

/-- The calls that some entries tell of, in order. -/
def calls (entries : List JournalEntry) : List Call :=
  entries.filterMap JournalEntry.call?

@[simp]
theorem calls_append (l r : List JournalEntry) : calls (l ++ r) = calls l ++ calls r :=
  List.filterMap_append

/-- An instance `i` is what has become of an instance `j`, which may have run in between. -/
structure Instance.Ages (mayRun : Prop) (i j : Instance) : Prop where
  /-- It has the same parent. -/
  parent : i.parent = j.parent := by rfl
  /-- A terminal state is final. -/
  final : j.state.isTerminal = true → i.state = j.state := by exact fun _ => rfl
  /-- It stays asked to cancel. -/
  asked : j.cancelRequested = true → i.cancelRequested = true := by exact id
  /-- If it has not ended and may not run in between, it has run only if it had. -/
  ran : ¬ mayRun → i.state.isTerminal = false → i.executed = j.executed := by exact fun _ _ => rfl
  /-- If it has been asked to cancel without having run, it had been. -/
  unrun : i.executed = false → i.cancelRequested = true →
    j.executed = false ∧ j.cancelRequested = true := by exact fun hx hc => ⟨hx, hc⟩

/-- An instance that has come in between, and may have run since. -/
structure Instance.IsNew (mayRun : Prop) (i : Instance) : Prop where
  /-- If it has not ended and may not run in between, it has not run. -/
  ran : ¬ mayRun → i.state.isTerminal = false → i.executed = false
  /-- It is not asked to cancel before it has run. -/
  unrun : i.executed = false → i.cancelRequested = false

namespace Instance.Ages

variable {p q : Prop} {i j l : Instance}

/-- With the parent, the state and the marks the same, nothing has happened. -/
theorem of_same (hp : i.parent = j.parent) (hs : i.state = j.state)
    (hc : i.cancelRequested = j.cancelRequested) (hx : i.executed = j.executed) : i.Ages p j :=
  ⟨hp, fun _ => hs, fun h => hc.trans h, fun _ _ => hx, fun h h' => ⟨hx ▸ h, hc ▸ h'⟩⟩

theorem refl (i : Instance) : i.Ages p i :=
  .of_same rfl rfl rfl rfl

theorem mono (h : i.Ages p j) (hpq : p → q) : i.Ages q j :=
  ⟨h.parent, h.final, h.asked, fun hq => h.ran fun hp => hq (hpq hp), h.unrun⟩

/-- What has not ended had not ended. -/
theorem not_terminal (h : i.Ages p j) (hi : i.state.isTerminal = false) :
    j.state.isTerminal = false := by
  rw [Bool.eq_false_iff]
  intro hj
  rw [h.final hj, hj] at hi
  exact absurd hi.symm Bool.false_ne_true

theorem trans (h : i.Ages p j) (h' : j.Ages p l) : i.Ages p l where
  parent := h.parent.trans h'.parent
  final hl := by
    have hj := h'.final hl
    exact (h.final (hj ▸ hl)).trans hj
  asked hl := h.asked (h'.asked hl)
  ran hp hi := (h.ran hp hi).trans (h'.ran hp (h.not_terminal hi))
  unrun hx hc := by
    obtain ⟨hx, hc⟩ := h.unrun hx hc
    exact h'.unrun hx hc

/-- What has become of a newcomer is a newcomer. -/
theorem isNew (h : i.Ages p j) (hj : j.IsNew p) : i.IsNew p where
  ran hp hi := (h.ran hp hi).trans (hj.ran hp (h.not_terminal hi))
  unrun hx := by
    rw [Bool.eq_false_iff]
    intro hc
    obtain ⟨hx, hc⟩ := h.unrun hx hc
    rw [hj.unrun hx] at hc
    exact absurd hc Bool.false_ne_true

end Instance.Ages

namespace Executor

variable {e e' e'' : Executor} {X S S' D D' : InstanceId → Prop} {x k : InstanceId}
variable {cs cs' : List Call} {f : Instance → Instance}

/-- An executor goes on from another. In between the listed calls are made, only instances of `S` come
to have run, and those of `D` may leave. -/
structure Passage (S D : InstanceId → Prop) (e : Executor) (cs : List Call) (e' : Executor) :
    Prop where
  root : e'.root = e.root
  /-- Identifiers are given out in order. -/
  later : e.nextInstance ≤ e'.nextInstance
  /-- The journal goes on with the calls. -/
  journal : ∃ l, e'.journal = e.journal ++ l ∧ calls l = cs
  /-- What is there was there, or it is new and has not run. -/
  back : ∀ {k : InstanceId} {i : Instance}, e'.instances[k]? = some i →
    (∃ j, e.instances[k]? = some j ∧ i.Ages (S k) j) ∨
      (e.nextInstance ≤ k.number ∧ i.IsNew (S k))
  /-- A child stays unless it may leave, or its parent has left or faulted. -/
  fate : ∀ {k p : InstanceId} {j : Instance}, e.instances[k]? = some j → j.parent = some p →
    k.number < e.nextInstance → p.number < e.nextInstance →
    D k ∨ (∃ i, e'.instances[k]? = some i) ∨ ∀ r, e'.instances[p]? = some r → r.state = .faulted

namespace Passage

/-- Nothing happens to the instances, and nobody is called. -/
theorem of_eq (hr : e'.root = e.root) (hn : e'.nextInstance = e.nextInstance)
    (hi : e'.instances = e.instances) (hj : e'.journal = e.journal) : Passage S D e [] e' where
  root := hr
  later := Nat.le_of_eq hn.symm
  journal := ⟨[], by rw [hj, List.append_nil], rfl⟩
  back hk := .inl ⟨_, hi ▸ hk, .refl _⟩
  fate hk _ _ _ := .inr (.inl ⟨_, hi ▸ hk⟩)

theorem refl (e : Executor) : Passage S D e [] e :=
  .of_eq rfl rfl rfl rfl

theorem of_sameCore (h : SameCore e e') (hj : e'.journal = e.journal) : Passage S D e [] e' :=
  .of_eq h.root h.nextInstance h.instances hj

/-- More may happen. -/
theorem mono (h : Passage S D e cs e') (hS : ∀ k, S k → S' k)
    (hD : ∀ {k : InstanceId} {i : Instance}, e.instances[k]? = some i → D k → D' k) :
    Passage S' D' e cs e' where
  root := h.root
  later := h.later
  journal := h.journal
  back hk := (h.back hk).imp (fun ⟨j, hj, ha⟩ => ⟨j, hj, ha.mono (hS _)⟩)
    fun ⟨hn, hx⟩ => ⟨hn, fun hs => hx.ran fun hk => hs (hS _ hk), hx.unrun⟩
  fate hk hp hkn hpn := (h.fate hk hp hkn hpn).imp_left (hD hk)

/-- What was there and is not new was there before. -/
theorem old (h : Passage S D e cs e') {i : Instance} (hi : e'.instances[k]? = some i)
    (hk : k.number < e.nextInstance) : ∃ j, e.instances[k]? = some j ∧ i.Ages (S k) j :=
  (h.back hi).resolve_right fun hn => absurd hk (Nat.not_lt.mpr hn.1)

/-- Who was not there and is not new is not there. -/
theorem absent (h : Passage S D e cs e') (hk : e.instances[k]? = none)
    (hn : k.number < e.nextInstance) : e'.instances[k]? = none := by
  cases hi : e'.instances[k]? with
  | none => rfl
  | some i =>
    obtain ⟨j, hj, -⟩ := h.old hi hn
    exact absurd (hk.symm.trans hj) (Option.some_ne_none j).symm

/-- Who has ended need not have run. -/
theorem ended (h : Passage S D e cs e')
    (hS : ∀ {k : InstanceId} {i : Instance}, S k → e'.instances[k]? = some i →
      i.state.isTerminal = true) : Passage S' D e cs e' where
  root := h.root
  later := h.later
  journal := h.journal
  back {k i} hi := by
    have ended : i.state.isTerminal = false → ¬ S k := fun ht hk =>
      absurd (ht.symm.trans (hS hk hi)) Bool.false_ne_true
    rcases h.back hi with ⟨j, hj, ha⟩ | ⟨hn, hx⟩
    · exact .inl ⟨j, hj, ha.parent, ha.final, ha.asked, fun _ ht => ha.ran (ended ht) ht, ha.unrun⟩
    · exact .inr ⟨hn, fun _ ht => hx.ran (ended ht) ht, hx.unrun⟩
  fate := h.fate

theorem trans (h : Passage S D e cs e') (h' : Passage S D e' cs' e'') :
    Passage S D e (cs ++ cs') e'' where
  root := h'.root.trans h.root
  later := Nat.le_trans h.later h'.later
  journal := by
    obtain ⟨l, hl, rfl⟩ := h.journal
    obtain ⟨r, hr, rfl⟩ := h'.journal
    exact ⟨l ++ r, by rw [hr, hl, List.append_assoc], calls_append l r⟩
  back {k i} hi := by
    rcases h'.back hi with ⟨j, hj, ha⟩ | ⟨hn, hx⟩
    · rcases h.back hj with ⟨o, ho, hb⟩ | ⟨hn, hx⟩
      · exact .inl ⟨o, ho, ha.trans hb⟩
      · exact .inr ⟨hn, ha.isNew hx⟩
    · exact .inr ⟨Nat.le_trans h.later hn, hx⟩
  fate {k p j} hj hp hkn hpn := by
    rcases h.fate hj hp hkn hpn with hD | ⟨i, hi⟩ | hf
    · exact .inl hD
    · obtain ⟨o, ho, ha⟩ := h.old hi hkn
      cases hj.symm.trans ho
      exact h'.fate hi (ha.parent.trans hp) (Nat.lt_of_lt_of_le hkn h.later)
        (Nat.lt_of_lt_of_le hpn h.later)
    · refine .inr (.inr fun r hr => ?_)
      obtain ⟨q, hq, ha⟩ := h'.old hr (Nat.lt_of_lt_of_le hpn h.later)
      have hqf := hf q hq
      exact (ha.final (by rw [hqf]; rfl)).trans hqf

/-- One instance grows older. -/
theorem of_modified (hf : ∀ i, e.instances[k]? = some i → (f i).Ages (S k) i)
    (hi : e'.instances = e.instances.modify k f) (hr : e'.root = e.root)
    (hn : e'.nextInstance = e.nextInstance) (hj : e'.journal = e.journal) :
    Passage S D e [] e' where
  root := hr
  later := Nat.le_of_eq hn.symm
  journal := ⟨[], by rw [hj, List.append_nil], rfl⟩
  back {a i} ha := by
    rw [hi] at ha
    obtain ⟨j, hj, ⟨rfl, rfl⟩ | ⟨-, rfl⟩⟩ := lookup_modify_cases (e := e) ha
    · exact .inl ⟨j, hj, hf j hj⟩
    · exact .inl ⟨i, hj, .refl i⟩
  fate {a p j} ha _ _ _ := by
    refine .inr (.inl ?_)
    rw [hi, Table.lookup_modify, ha]
    split
    · exact ⟨f j, rfl⟩
    · exact ⟨j, rfl⟩

theorem modify (hf : ∀ i, e.instances[k]? = some i → (f i).Ages (S k) i) :
    Passage S D e [] (e.modify k f) :=
  .of_modified hf rfl rfl rfl rfl

/-- Waiting for less does not matter. -/
theorem release (n : Nat) (hi : e'.instances = e.instances) (hr : e'.root = e.root)
    (hn : e'.nextInstance = e.nextInstance) (hj : e'.journal = e.journal) :
    Passage S D e [] (e'.release k n) := by
  refine .of_modified (k := k) (f := fun i => { i with busy := i.busy - n })
    (fun _ _ => .of_same rfl rfl rfl rfl) ?_ hr hn hj
  rw [← hi]
  rfl

/-- Queued work does not matter. -/
theorem enqueue (w : WorkItem) : Passage S D e [] (e.enqueue w) :=
  .of_eq rfl rfl rfl rfl

/-- A new entry of the journal may be a call. -/
theorem log (entry : JournalEntry) : Passage S D e (calls [entry]) (e.log entry) where
  root := rfl
  later := Nat.le_refl _
  journal := ⟨[entry], rfl, rfl⟩
  back hi := .inl ⟨_, hi, .refl _⟩
  fate hj _ _ _ := .inr (.inl ⟨_, hj⟩)

/-- A new child has the next identifier and has not run. -/
theorem adopt {p c : Instance} (h : e.Placed X) (hp : e.instances[x]? = some p)
    (hc : e.IsNewborn x c) : Passage S D e [] (e.adopt x c) where
  root := rfl
  later := Nat.le_succ _
  journal := ⟨[], (List.append_nil _).symm, rfl⟩
  back {a i} hi := by
    rcases (h.planted hp hc.id).cases hi with ⟨rfl, rfl⟩ | ⟨rfl, rfl⟩ | ⟨-, -, hi⟩
    · exact .inl ⟨p, hp, .of_same rfl rfl rfl rfl⟩
    · exact .inr ⟨Nat.le_refl _, fun _ _ => hc.executed, fun _ => hc.cancelRequested⟩
    · exact .inl ⟨i, hi, .refl i⟩
  fate {a b j} hj _ _ _ := by
    obtain ⟨i, hi, -⟩ := (h.extends_adopt hp hc.id).keeps hj
    exact .inr (.inl ⟨i, hi⟩)

end Passage

/-! ### Records leave the journal as it is -/

@[simp]
theorem journal_trackState (k : InstanceId) (s : ActivityState) :
    (e.trackState k s).journal = e.journal := by
  unfold trackState
  split <;> rfl

@[simp]
theorem journal_trackScheduled (parent : Option ActivityInfo) (k : InstanceId) :
    (e.trackScheduled parent k).journal = e.journal := by
  unfold trackScheduled
  split <;> rfl

@[simp]
theorem journal_trackResumed (b : Bookmark) (owner : InstanceId) :
    (e.trackResumed b owner).journal = e.journal := by
  unfold trackResumed
  split <;> rfl

@[simp]
theorem journal_announce : e.announce.journal = e.journal := by
  unfold announce
  split
  · rfl
  · dsimp only
    split
    · exact journal_trackScheduled _ _
    · rfl

theorem inbox_announce : e.announce.inbox = e.inbox := by
  unfold announce
  split
  · rfl
  · dsimp only
    split
    · unfold trackScheduled
      split <;> rfl
    · rfl

/-! ### Answers -/

namespace Passage

theorem scheduleChild (h : e.Placed X) (node : NodeId) (options : ScheduleOptions) :
    Passage S D e [] (e.scheduleChild x node options).2 := by
  unfold Executor.scheduleChild
  split
  · exact .refl e
  · next p scope hs =>
    obtain ⟨hp, -, -⟩ := checkSchedule_ok hs
    have ha : Passage S D e [] (e.adopt x (e.newChild x node scope options)) := .adopt h hp {}
    exact ha.trans (.of_sameCore (sameCore_trackScheduled _ _) (journal_trackScheduled _ _))

/-- Steps in which nobody is called make up one. -/
theorem foldl {α : Type} {f : Executor → α → Executor} (hf : ∀ e a, Passage S D e [] (f e a))
    (l : List α) : Passage S D e [] (l.foldl f e) := by
  induction l generalizing e with
  | nil => exact .refl e
  | cons a rest ih => exact (hf e a).trans ih

theorem cancelAll (children : List InstanceId) :
    Passage S D e [] (children.foldl (fun e child => e.enqueue (.cancel child)) e) :=
  .foldl (fun _ _ => .enqueue _) children

theorem cancelChild (child : InstanceId) : Passage S D e [] (e.cancelChild x child).2 := by
  unfold Executor.cancelChild
  split
  · exact .refl e
  · split
    · exact .enqueue _
    · exact .refl e

theorem createBookmark (g : Registration) : Passage S D e [] (e.createBookmark g).2 := by
  unfold Executor.createBookmark
  split
  · split
    · exact .refl e
    · dsimp only
      split
      · exact .of_modified (k := g.owner) (f := Instance.incrementBusy)
          (fun _ _ => .of_same rfl rfl rfl rfl) rfl rfl rfl rfl
      · exact .of_eq rfl rfl rfl rfl
  · exact .refl e

theorem removeBookmark (b : Bookmark) : Passage S D e [] (e.removeBookmark x b).2 := by
  unfold Executor.removeBookmark
  split
  · exact .refl e
  · next g _ =>
    split
    · dsimp only
      split
      · exact .release 1 rfl rfl rfl rfl
      · exact .of_eq rfl rfl rfl rfl
    · exact .refl e

theorem removeAllBookmarks : Passage S D e [] (e.removeAllBookmarks x) :=
  .release _ rfl rfl rfl rfl

theorem createScope : Passage S D e [] (e.createScope x).2 := by
  unfold Executor.createScope
  split
  · exact .refl e
  · split
    · exact .of_eq rfl rfl rfl rfl
    · exact .refl e

theorem resumeBookmark (b : Bookmark) (v : Value) (p : Priority) :
    Passage S D e [] (e.resumeBookmark b v p).2 := by
  unfold Executor.resumeBookmark
  split
  · exact .refl e
  · split
    · exact .refl e
    · exact .of_eq rfl rfl rfl rfl

theorem beginOperation : Passage S D e [] (e.beginOperation x).2 :=
  .of_modified (k := x) (f := Instance.incrementBusy) (fun _ _ => .of_same rfl rfl rfl rfl)
    rfl rfl rfl rfl

theorem abandonOperations : Passage S D e [] (e.abandonOperations x) :=
  .release _ rfl rfl rfl rfl

theorem answerScheduling (h : e.Placed X) (q : SchedulingRequest) :
    Passage S D e [] (e.answerScheduling x q).2 := by
  cases q with
  | schedule node options => exact .scheduleChild h node options
  | cancelChild child => exact .cancelChild child
  | cancelChildren => exact .cancelAll _
  | createBookmark name scope callback options => exact .createBookmark _
  | removeBookmark b => exact .removeBookmark b
  | removeAllBookmarks => exact .removeAllBookmarks
  | createScope => exact .createScope
  | resume b v => exact .resumeBookmark b v .normal
  | setResult v | addProperty name v | removeProperty name =>
    exact .modify fun _ _ => .of_same rfl rfl rfl rfl
  | _ => exact .of_eq rfl rfl rfl rfl

theorem answerContext (q : ContextRequest) : Passage S D e [] (e.answerContext x q).2 := by
  cases q with
  | say text => exact .log (.line text)
  | write l v =>
    unfold Executor.answerContext Executor.writeLocation
    dsimp only
    split
    · exact .modify fun _ _ => .of_same rfl rfl rfl rfl
    · exact .refl e
  | setArgument name v =>
    unfold Executor.answerContext Executor.assignArgument
    dsimp only
    split
    · exact .refl e
    · split
      · exact .refl e
      · split
        · exact .modify fun _ _ => .of_same rfl rfl rfl rfl
        · exact .refl e
  | _ => exact .refl e

theorem answerCancellation (q : CancellationRequest) :
    Passage S D e [] (e.answerCancellation x q).2 := by
  cases q with
  | isRequested => exact .refl e
  | accept =>
    unfold Executor.answerCancellation Executor.markCanceled
    split
    · exact .refl e
    · split
      · exact .modify fun _ _ => .of_same rfl rfl rfl rfl
      · exact .refl e

theorem answerOperation (q : OperationRequest) : Passage S D e [] (e.answerOperation q).2 := by
  refine .of_sameCore (sameCore_answerOperation q) ?_
  cases q with
  | discard o => rfl
  | complete o result =>
    unfold Executor.answerOperation completeHandle
    dsimp only
    split
    · split <;> rfl
    · rfl

/-- A program that is performed for a live instance calls nobody. -/
theorem perform {k : BodyKind} {α : Type} (p : Program k α) (h : e.Consistent X) (hX : X x)
    (hl : e.isLive x = true) : Passage S D e [] (e.perform x p).2 := by
  induction p generalizing e with
  | done a => exact .refl e
  | crash c => exact .refl e
  | ask q next ih =>
    have hf : Follows e X (e.answer x q).2 := .answer h hX hl q
    have hq : Passage S D e [] (e.answer x q).2 := by
      cases q with
      | context q => exact .answerContext q
      | cancellation q hq => exact .answerCancellation q
      | operation q => exact .answerOperation q
      | scheduling q => exact .answerScheduling h.placed q
    exact hq.trans (ih _ hf.consistent (hf.extension.isLive hl))

end Passage

end Executor

end Workflow
