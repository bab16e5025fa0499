import Workflow.Proofs.Dependents

/-!
# Modest callbacks

A callback is modest if it asks for nothing that its instance would have to wait for, resumes nobody, and
does not crash. It may ask its children to cancel, and it may give bookmarks back. It leaves every
instance where it is.
-/

namespace Workflow

/-- Whether a request schedules nobody, registers no bookmark, resumes none, and uses no handle. -/
def Request.isModest {k : BodyKind} : Request k → Bool
  | .operation _ => false
  | .scheduling (.schedule _ _) => false
  | .scheduling (.createBookmark _ _ _ _) => false
  | .scheduling (.resume _ _) => false
  | _ => true

/-- An instance is the same as another one, but for values and for what it counts; it may have agreed to
cancel. -/
structure Instance.Endures (i j : Instance) : Prop where
  state : i.state = j.state
  parent : i.parent = j.parent
  children : i.children = j.children
  executed : i.executed = j.executed
  requested : i.cancelRequested = j.cancelRequested
  agreed : j.markedCanceled = true → i.markedCanceled = true

theorem Instance.Endures.trans {i j l : Instance} (h : i.Endures j) (h' : j.Endures l) :
    i.Endures l where
  state := h.state.trans h'.state
  parent := h.parent.trans h'.parent
  children := h.children.trans h'.children
  executed := h.executed.trans h'.executed
  requested := h.requested.trans h'.requested
  agreed hl := h.agreed (h'.agreed hl)

namespace Executor

variable {e e' e'' : Executor} {x k c : InstanceId} {i : Instance} {f : Instance → Instance}

/-- A program that an instance performs comes to an end, and all its requests are modest. -/
def Modest {k : BodyKind} {α : Type} (e : Executor) (x : InstanceId) : Program k α → Prop
  | .done _ => True
  | .crash _ => False
  | .ask q next => q.isModest = true ∧ Modest (e.answer x q).2 x (next (e.answer x q).1)

/-- All instances are there that were there, and no others; no bookmark and no operation is new; and
nothing is queued but the cancellation of children of one instance. -/
structure Abates (x : InstanceId) (e e' : Executor) : Prop where
  definition : e'.definition = e.definition
  root : e'.root = e.root
  nextInstance : e'.nextInstance = e.nextInstance
  inbox : e'.inbox = e.inbox
  look : ∀ k : InstanceId, ∃ f : Instance → Instance, (∀ i, (f i).Endures i) ∧
    e'.instances[k]? = e.instances[k]?.map f
  bookmarks : Sheds e e'
  operations : ∀ {o : OperationId} {k : InstanceId}, e'.operations[o]? = some k →
    e.operations[o]? = some k
  keeps : ∀ {w : WorkItem}, w ∈ e.queue.work → w ∈ e'.queue.work
  queued : ∀ {w : WorkItem}, w ∈ e'.queue.work → w ∈ e.queue.work ∨
    ∃ c i, w = .cancel c ∧ e.instances[x]? = some i ∧ c ∈ i.children

namespace Abates

/-- What is there was there. -/
theorem back (h : Abates x e e') (hi : e'.instances[k]? = some i) :
    ∃ j, e.instances[k]? = some j ∧ i.Endures j := by
  obtain ⟨f, hf, hk⟩ := h.look k
  rw [hk, Option.map_eq_some_iff] at hi
  obtain ⟨j, hj, rfl⟩ := hi
  exact ⟨j, hj, hf j⟩

/-- What was there is there. -/
theorem forth (h : Abates x e e') (hi : e.instances[k]? = some i) :
    ∃ j, e'.instances[k]? = some j ∧ j.Endures i := by
  obtain ⟨f, hf, hk⟩ := h.look k
  rw [hi] at hk
  exact ⟨f i, hk, hf i⟩

theorem look_of_eq (h : e'.instances = e.instances) (k : InstanceId) :
    ∃ f : Instance → Instance, (∀ i, (f i).Endures i) ∧
      e'.instances[k]? = e.instances[k]?.map f :=
  ⟨id, fun _ => ⟨rfl, rfl, rfl, rfl, rfl, id⟩, by rw [h, Option.map_id_fun, id]⟩

/-- Nothing is queued, and no operation goes. -/
theorem of_look (hd : e'.definition = e.definition) (hr : e'.root = e.root)
    (hn : e'.nextInstance = e.nextInstance) (hi : e'.inbox = e.inbox)
    (ho : e'.operations = e.operations) (hq : e'.queue = e.queue)
    (look : ∀ k : InstanceId, ∃ f : Instance → Instance, (∀ i, (f i).Endures i) ∧
      e'.instances[k]? = e.instances[k]?.map f) (bookmarks : Sheds e e') : Abates x e e' where
  definition := hd
  root := hr
  nextInstance := hn
  inbox := hi
  look := look
  bookmarks := bookmarks
  operations hk := ho ▸ hk
  keeps hw := hq ▸ hw
  queued hw := .inl (hq ▸ hw)

/-- Only the bookmarks change, and no bookmark is new. -/
theorem of_sheds {b : Registry} {n : Nat} {p : Bool} (h : Sheds e { e with bookmarks := b }) :
    Abates x e { e with bookmarks := b, scopeCount := n, persistRequested := p } :=
  .of_look rfl rfl rfl rfl rfl rfl (look_of_eq rfl) h

theorem of_sameCore (h : SameCore e e') (hi : e'.inbox = e.inbox) : Abates x e e' :=
  .of_look h.definition h.root h.nextInstance hi h.operations h.queue (look_of_eq h.instances)
    (.of_sameCore h)

theorem refl (x : InstanceId) (e : Executor) : Abates x e e :=
  .of_sameCore (.refl e) rfl

theorem trans (h : Abates x e e') (h' : Abates x e' e'') : Abates x e e'' where
  definition := h'.definition.trans h.definition
  root := h'.root.trans h.root
  nextInstance := h'.nextInstance.trans h.nextInstance
  inbox := h'.inbox.trans h.inbox
  look k := by
    obtain ⟨f, hf, hk⟩ := h.look k
    obtain ⟨f', hf', hk'⟩ := h'.look k
    exact ⟨f' ∘ f, fun i => (hf' (f i)).trans (hf i), by rw [hk', hk, Option.map_map]⟩
  bookmarks := h.bookmarks.trans h'.bookmarks
  operations ho := h.operations (h'.operations ho)
  keeps hw := h'.keeps (h.keeps hw)
  queued hw := by
    obtain hw | ⟨c, i, rfl, hi, hc⟩ := h'.queued hw
    · exact h.queued hw
    · obtain ⟨j, hj, same⟩ := h.back hi
      exact .inr ⟨c, j, rfl, hj, same.children ▸ hc⟩

/-! ### Answers -/

theorem look_modify (hf : ∀ i, (f i).Endures i) (a k : InstanceId) :
    ∃ g : Instance → Instance, (∀ i, (g i).Endures i) ∧
      (e.modify a f).instances[k]? = e.instances[k]?.map g := by
  rw [lookup_modify]
  split
  · exact ⟨f, hf, rfl⟩
  · exact look_of_eq rfl k

theorem modify (hf : ∀ i, (f i).Endures i) (a : InstanceId) : Abates x e (e.modify a f) :=
  .of_look rfl rfl rfl rfl rfl rfl (look_modify hf a) (.of_eq rfl)

/-- What an instance holds does not matter. -/
theorem hold (hs : ∀ i, (f i).state = i.state ∧ (f i).parent = i.parent ∧
      (f i).children = i.children ∧ (f i).executed = i.executed ∧
      (f i).cancelRequested = i.cancelRequested ∧ (f i).markedCanceled = i.markedCanceled)
    (a : InstanceId) : Abates x e (e.modify a f) := by
  refine .modify (fun i => ?_) a
  obtain ⟨state, parent, children, executed, requested, agreed⟩ := hs i
  exact ⟨state, parent, children, executed, requested, fun hm => agreed.trans hm⟩

/-- An instance waits for less, as bookmarks have gone. -/
theorem release (n : Nat) (h : Abates x e e') : Abates x e (e'.release k n) := by
  refine h.trans (.of_look rfl rfl rfl rfl rfl rfl (look_modify ?_ k) (.of_eq rfl))
  exact fun _ => ⟨rfl, rfl, rfl, rfl, rfl, id⟩

/-- A child is asked to cancel. -/
theorem cancel (hi : e.instances[x]? = some i) (hc : c ∈ i.children) :
    Abates x e (e.enqueue (.cancel c)) where
  definition := rfl
  root := rfl
  nextInstance := rfl
  inbox := rfl
  look := look_of_eq rfl
  bookmarks := .of_eq rfl
  operations := id
  keeps hw := WorkQueue.mem_work_push.mpr (.inr hw)
  queued hw := (WorkQueue.mem_work_push.mp hw).elim (fun he => .inr ⟨c, i, he, hi, hc⟩) .inl

theorem cancelAll {l : List InstanceId} (hi : e.instances[x]? = some i)
    (hl : ∀ c ∈ l, c ∈ i.children) :
    Abates x e (l.foldl (fun e child => e.enqueue (.cancel child)) e) := by
  induction l generalizing e with
  | nil => exact .refl x e
  | cons c rest ih =>
    refine (cancel hi (hl c List.mem_cons_self)).trans (ih hi fun b hb => ?_)
    exact hl b (List.mem_cons_of_mem c hb)

theorem markCanceled : Abates x e (e.markCanceled x).2 := by
  unfold Executor.markCanceled
  split
  · exact .refl x e
  · split
    · refine modify ?_ x
      exact fun _ => ⟨rfl, rfl, rfl, rfl, rfl, fun _ => rfl⟩
    · exact .refl x e

theorem removeAllBookmarks : Abates x e (e.removeAllBookmarks x) := by
  have removed : Abates x e { e with bookmarks := e.bookmarks.removeOwned x } :=
    .of_sheds (.removeOwned (x := x) rfl)
  exact removed.release _

theorem answerContext (q : ContextRequest) : Abates x e (e.answerContext x q).2 := by
  cases q with
  | say text => exact .of_sameCore (sameCore_log _) rfl
  | write l v =>
    unfold Executor.answerContext Executor.writeLocation
    dsimp only
    split
    · refine hold ?_ l.owner
      exact fun _ => ⟨rfl, rfl, rfl, rfl, rfl, rfl⟩
    · exact .refl x e
  | setArgument name v =>
    unfold Executor.answerContext Executor.assignArgument
    dsimp only
    split
    · exact .refl x e
    · split
      · exact .refl x e
      · split
        · refine hold ?_ x
          exact fun _ => ⟨rfl, rfl, rfl, rfl, rfl, rfl⟩
        · exact .refl x e
  | _ => exact .refl x e

theorem answerScheduling (q : SchedulingRequest)
    (hq : (Request.scheduling q).isModest = true) : Abates x e (e.answerScheduling x q).2 := by
  cases q with
  | schedule node options => exact absurd hq Bool.false_ne_true
  | createBookmark name scope callback options => exact absurd hq Bool.false_ne_true
  | resume b v => exact absurd hq Bool.false_ne_true
  | cancelChild child =>
    unfold Executor.answerScheduling Executor.cancelChild
    dsimp only
    split
    · exact .refl x e
    · next hi =>
      split
      · next hc => exact .cancel hi hc
      · exact .refl x e
  | cancelChildren =>
    unfold Executor.answerScheduling Executor.cancelChildren
    cases hi : e.instance? x with
    | none => exact .refl x e
    | some i => exact .cancelAll hi fun _ hc => hc
  | removeBookmark b =>
    unfold Executor.answerScheduling Executor.removeBookmark
    dsimp only
    split
    · exact .refl x e
    · split
      · have removed : Abates x e { e with bookmarks := e.bookmarks.unregister b } :=
          .of_sheds (.unregister (b := b) rfl)
        dsimp only
        split
        · exact removed.release 1
        · exact removed
      · exact .refl x e
  | removeAllBookmarks => exact .removeAllBookmarks
  | createScope =>
    unfold Executor.answerScheduling Executor.createScope
    dsimp only
    split
    · exact .refl x e
    · split
      · exact .of_sheds (.of_eq rfl)
      · exact .refl x e
  | setResult v =>
    refine hold ?_ x
    exact fun _ => ⟨rfl, rfl, rfl, rfl, rfl, rfl⟩
  | addProperty name v =>
    refine hold ?_ x
    exact fun _ => ⟨rfl, rfl, rfl, rfl, rfl, rfl⟩
  | removeProperty name =>
    refine hold ?_ x
    exact fun _ => ⟨rfl, rfl, rfl, rfl, rfl, rfl⟩
  | requestPersist => exact .of_sheds (.of_eq rfl)
  | _ => exact .refl x e

theorem answer {k : BodyKind} (q : Request k) (hq : q.isModest = true) :
    Abates x e (e.answer x q).2 := by
  cases q with
  | context q => exact .answerContext q
  | cancellation q _ =>
    cases q with
    | isRequested => exact .refl x e
    | accept => exact .markCanceled
  | operation q => exact absurd hq Bool.false_ne_true
  | scheduling q => exact .answerScheduling q hq

end Abates

/-- A modest program comes to an end and takes nothing on. -/
theorem Modest.perform {k : BodyKind} {α : Type} {p : Program k α} (h : e.Modest x p) :
    ∃ a e', e.perform x p = (.ok a, e') ∧ Abates x e e' := by
  induction p generalizing e with
  | done a => exact ⟨a, e, rfl, .refl x e⟩
  | crash c => exact h.elim
  | ask q next ih =>
    obtain ⟨hq, hn⟩ := h
    obtain ⟨a, e', he, ha⟩ := ih _ hn
    exact ⟨a, e', he, (Abates.answer q hq).trans ha⟩

/-- An executor as the body of an instance is called. -/
def called (e : Executor) (x : InstanceId) (callback : Callback) : Executor :=
  e.log (.call x (e.nodeOf x).body.label callback)

theorem Abates.called (callback : Callback) : Abates x e (e.called x callback) :=
  .of_sameCore (sameCore_log _) rfl

theorem invoke_of_perform {k : BodyKind} {α : Type} {callback : Callback} {p : Program k α} {a : α}
    (h : (e.called x callback).perform x p = (.ok a, e')) : e.invoke x callback p = (some a, e') := by
  unfold Executor.invoke
  dsimp only
  rw [Executor.called] at h
  rw [h]

/-- A modest callback comes to an end and takes nothing on. -/
theorem Modest.invoke {k : BodyKind} {α : Type} {callback : Callback} {p : Program k α}
    (h : (e.called x callback).Modest x p) :
    ∃ a e', e.invoke x callback p = (some a, e') ∧ Abates x e e' := by
  obtain ⟨a, e', he, ha⟩ := h.perform
  exact ⟨a, e', invoke_of_perform he, (Abates.called callback).trans ha⟩

end Executor

/-! ### Canceling by default -/

/-- The programs say nothing else about cancellation than what is done if nothing is said. -/
def Behaviour.CancelsByDefault : Behaviour → Prop
  | .code _ => True
  | .native body => body.cancel = ({ execute := body.execute } : NativeBody).cancel
  | .async body => body.cancel = ({ start := body.start } : AsyncBody).cancel

/-- No activity of a definition says anything else about cancellation. -/
def Definition.CancelsByDefault (d : Definition) : Prop :=
  ∀ n ∈ d.nodes, n.body.behaviour.CancelsByDefault

namespace Executor

variable {e e' : Executor} {x k c : InstanceId} {i : Instance}

/-- An instance has agreed to cancel, owns no bookmarks and no operations, and has had its children
asked. -/
structure Yielded (e : Executor) (x : InstanceId) : Prop where
  agreed : ∀ {i : Instance}, e.instances[x]? = some i → i.markedCanceled = true
  unbooked : ∀ {b : Bookmark} {g : Registration}, e.bookmarks.registrations[b]? = some g → g.owner ≠ x
  unoccupied : ∀ {o : OperationId}, e.operations[o]? ≠ some x
  passed : ∀ {c : InstanceId} {i : Instance}, e.instances[x]? = some i → c ∈ i.children →
    .cancel c ∈ e.queue.work

theorem markCanceled_eq (hi : e.instances[x]? = some i) (hr : i.cancelRequested = true) :
    e.markCanceled x = (.ok (), e.modify x fun i => { i with markedCanceled := true }) := by
  unfold Executor.markCanceled
  rw [instance?, hi]
  exact if_pos hr

/-- Every listed child is asked. -/
theorem mem_cancelAll {l : List InstanceId} (hc : c ∈ l) :
    .cancel c ∈ (l.foldl (fun e child => e.enqueue (.cancel child)) e).queue.work := by
  induction l generalizing e with
  | nil => exact absurd hc List.not_mem_nil
  | cons b rest ih =>
    rcases List.mem_cons.mp hc with rfl | hc
    · have keeps : ∀ (l : List InstanceId) (e : Executor), .cancel c ∈ e.queue.work →
          .cancel c ∈ (l.foldl (fun e child => e.enqueue (.cancel child)) e).queue.work := by
        intro l
        induction l with
        | nil => exact fun _ hw => hw
        | cons a rest ih => exact fun e hw => ih _ (WorkQueue.mem_work_push.mpr (.inr hw))
      exact keeps rest _ (WorkQueue.mem_work_push.mpr (.inl rfl))
    · exact ih hc

/-- A native activity that is canceled by default gives up its bookmarks, agrees and asks its children. -/
theorem perform_nativeCancel (hi : e.instances[x]? = some i) (hr : i.cancelRequested = true)
    (execute : Program .native Unit) :
    ∃ e', e.perform x ({ execute } : NativeBody).cancel = (.ok (), e') ∧ Abates x e e' ∧
      (∀ {j : Instance}, e'.instances[x]? = some j → j.markedCanceled = true) ∧
      (∀ {b : Bookmark} {g : Registration}, e'.bookmarks.registrations[b]? = some g → g.owner ≠ x) ∧
      ∀ {c : InstanceId}, c ∈ i.children → .cancel c ∈ e'.queue.work := by
  have removed : Abates x e (e.removeAllBookmarks x) := .removeAllBookmarks
  obtain ⟨j, hj, same⟩ := removed.forth hi
  have agreed := markCanceled_eq hj (same.requested.trans hr)
  have marked : Abates x e ((e.removeAllBookmarks x).markCanceled x).2 := removed.trans .markCanceled
  have hm : ((e.removeAllBookmarks x).markCanceled x).2.instances[x]? =
      some { j with markedCanceled := true } := by
    rw [agreed]
    exact (lookup_modify ..).trans (by rw [if_pos rfl, hj]; rfl)
  have asked : Abates x ((e.removeAllBookmarks x).markCanceled x).2
      (((e.removeAllBookmarks x).markCanceled x).2.cancelChildren x) :=
    .answerScheduling .cancelChildren rfl
  refine ⟨((e.removeAllBookmarks x).markCanceled x).2.cancelChildren x, ?_, marked.trans asked, ?_, ?_, ?_⟩
  · change Executor.perform (Executor.markCanceled _ x).2 x
      ((Program.ofContract (Executor.markCanceled _ x).1).bind _) = _
    rw [show ((e.removeAllBookmarks x).markCanceled x).1 = .ok () by rw [agreed]]
    rfl
  · intro l hl
    obtain ⟨n, hn, same⟩ := asked.back hl
    cases hm.symm.trans hn
    exact same.agreed rfl
  · intro b g hg
    have hg : (e.removeAllBookmarks x).bookmarks.registrations[b]? = some g :=
      (Abates.markCanceled (x := x)).bookmarks b g (asked.bookmarks b g hg)
    rw [show (e.removeAllBookmarks x).bookmarks = e.bookmarks.removeOwned x from rfl,
      Registry.removeOwned, Table.lookup_filter] at hg
    simpa using (Option.filter_eq_some_iff.mp hg).2
  · intro c hc
    unfold Executor.cancelChildren
    rw [instance?, hm]
    exact mem_cancelAll (same.children ▸ hc)

/-- An asynchronous activity that is canceled by default agrees. -/
theorem perform_asyncCancel (hi : e.instances[x]? = some i) (hr : i.cancelRequested = true)
    (start : OperationId → Program .async Unit) :
    e.perform x ({ start } : AsyncBody).cancel =
      (.ok (), e.modify x fun i => { i with markedCanceled := true }) := by
  change (e.markCanceled x).2.perform x (Program.ofContract (e.markCanceled x).1) = _
  rw [markCanceled_eq hi hr]
  rfl

/-- The operations of an owner go, and it waits for less. -/
theorem Abates.abandonOperations : Abates x e (e.abandonOperations x) := by
  have gone : Abates x e { e with operations := e.operations.filter fun _ o => o != x } := by
    refine ⟨rfl, rfl, rfl, rfl, look_of_eq rfl, .of_eq rfl, fun {o k} ho => ?_, id, .inl⟩
    change (e.operations.filter fun _ o => o != x)[o]? = some k at ho
    rw [Table.lookup_filter] at ho
    exact (Option.filter_eq_some_iff.mp ho).1
  exact gone.release _

section Canceling

variable {N X : InstanceId → Prop} {b : Behaviour} (h : e.Consistent X) (hs : e.Suited N)
variable (hi : e.instances[x]? = some i) (hb : e.behaviour? x = some b)
include hi hb

/-- Who runs a native activity has native programs. -/
theorem kind_of_isNative (hx : e.IsNative x) : b.kind = .native := by
  have hk := hx.native hi
  rw [behaviour?, instance?, hi, Option.map_some, Option.some.injEq] at hb
  rw [Body.kind, hb] at hk
  exact hk

include h hs

/-- Who does not run a native activity has no children. -/
theorem childless_of_kind (hk : b.kind ≠ .native) : i.children = [] := by
  refine List.eq_nil_iff_forall_not_mem.mpr fun c hc => ?_
  obtain ⟨j, hj, hp⟩ := h.placed.tree.linked hi hc
  exact hk (kind_of_isNative hi hb (hs.parent hj hp))

omit h in
/-- Who does not run a native activity has no bookmarks. -/
theorem unbooked_of_kind (hk : b.kind ≠ .native) {m : Bookmark} {g : Registration}
    (hg : e.bookmarks.registrations[m]? = some g) : g.owner ≠ x := by
  rintro rfl
  exact hk (kind_of_isNative hi hb (hs.owner hg))

omit hs hi in
/-- Who does not run an asynchronous activity has no operations. -/
theorem unoccupied_of_kind (hk : b.kind ≠ .async) {o : OperationId} : e.operations[o]? ≠ some x := by
  intro ho
  have hx := (h.owned.operation ho).2
  rw [Body.kind, behaviour_eq hb] at hx
  exact hk hx

/-- An instance that is canceled by default yields. -/
theorem runCancel_yields (hr : i.cancelRequested = true) (hk : b.kind ≠ .code)
    (hd : b.CancelsByDefault) :
    ∃ e', e.runCancel x b = (true, e') ∧ Abates x e e' ∧ Yielded e' x := by
  have hc : (e.called x .cancel).instances[x]? = some i := hi
  cases b with
  | code _ => exact absurd rfl hk
  | native body =>
    obtain ⟨e', he, ha, agreed, unbooked, passed⟩ := perform_nativeCancel hc hr body.execute
    rw [← show body.cancel = _ from hd] at he
    have abates := (Abates.called .cancel).trans ha
    refine ⟨e', ?_, abates, agreed, unbooked, fun {o} ho => ?_, fun {c j} hj hm => ?_⟩
    · unfold Executor.runCancel
      dsimp only
      rw [invoke_of_perform he]
      rfl
    · exact unoccupied_of_kind h hb (fun hn => BodyKind.noConfusion hn) (abates.operations ho)
    · obtain ⟨l, hl, same⟩ := abates.back hj
      cases hi.symm.trans hl
      exact passed (same.children ▸ hm)
  | async body =>
    have he := perform_asyncCancel hc hr body.start
    rw [← show body.cancel = _ from hd] at he
    generalize hm : Executor.modify (e.called x .cancel) x _ = m at he
    have marked : m.instances[x]? = some { i with markedCanceled := true } := by
      rw [← hm]
      exact (lookup_modify ..).trans (by rw [if_pos rfl, hc]; rfl)
    have agrees : Abates x e m := by
      rw [← hm]
      refine (Abates.called .cancel).trans (.modify ?_ x)
      exact fun _ => ⟨rfl, rfl, rfl, rfl, rfl, fun _ => rfl⟩
    have abates : Abates x e (m.abandonOperations x) := agrees.trans .abandonOperations
    have notNative : (Behaviour.async body).kind ≠ .native := fun hn => BodyKind.noConfusion hn
    refine ⟨m.abandonOperations x, ?_, abates, fun {j} hj => ?_,
      fun hg => unbooked_of_kind hs hi hb notNative (abates.bookmarks _ _ hg), fun {o} ho => ?_,
      fun {c j} hj hc => ?_⟩
    · unfold Executor.runCancel
      dsimp only
      rw [invoke_of_perform he]
      dsimp only
      rw [instance?, marked]
      rfl
    · obtain ⟨l, hl, same⟩ := (Abates.abandonOperations (e := m) (x := x)).back hj
      cases marked.symm.trans hl
      exact same.agreed rfl
    · change (m.operations.filter fun _ o => o != x)[o]? = some x at ho
      rw [Table.lookup_filter] at ho
      simpa using (Option.filter_eq_some_iff.mp ho).2
    · obtain ⟨l, hl, same⟩ := abates.back hj
      cases hi.symm.trans hl
      rw [same.children, childless_of_kind h hs hi hb notNative] at hc
      exact absurd hc List.not_mem_nil

end Canceling

end Executor

end Workflow
