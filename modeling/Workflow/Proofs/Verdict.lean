import Workflow.Application.Reaction
import Workflow.Proofs.CompletionReport
import Workflow.Proofs.Conversation
import Workflow.Proofs.RecordOrder

/-!
# The end of a workflow is told once

Over the life of an application its host is told at most once that the workflow has completed, and at
most once, before that, that it has faulted. If there is a store, it has accepted the last save of the
completed workflow by then. Listeners may make calls of their own while they are told something, and the
store may fail at any time.
-/

namespace Workflow

/-- What a store in files finds when the given steps of its disk fail. -/
def Store.withFaults (faults : List Bool) : Store → Store
  | files f => files { f with disk := { f.disk with faults } }
  | store => store

/-- A store has at some time accepted the last save of a workflow that had completed. -/
inductive Store.TookLast (workflow : WorkflowId) : Store → Prop
  /-- It accepts it. -/
  | accepted {store : Store} {s : Surroundings} {owner : OwnerId} {e : Executor} {image : Snapshot}
      {unlock : Bool} (hw : e.workflow = workflow) (hc : e.state.isCompleted = true)
      (hi : e.capture s.now = .ok image)
      (ho : (store.tryCommand s (e.saveCommand owner s.now image unlock)).1.isOk = true) :
      TookLast workflow (store.tryCommand s (e.saveCommand owner s.now image unlock)).2
  /-- Other commands and failures follow. -/
  | later {store : Store} (h : TookLast workflow store) (event : StoreEvent) :
      TookLast workflow (store.afterEvent event)
  /-- The disk begins to fail, or stops. -/
  | failing {store : Store} (h : TookLast workflow store) (faults : List Bool) :
      TookLast workflow (store.withFaults faults)

/-- Whether a notice tells of the end of the workflow. -/
def Notice.isVerdict (n : Notice) : Bool :=
  n.kind == .completed || n.kind == .exception

/-- The notice of the end of the workflow that an event is. -/
def HostEvent.verdict? : HostEvent → Option Notice
  | notice n => if n.isVerdict then some n else none
  | _ => none

namespace Executor

variable {e e' : Executor} {p : Prop}

/-- An executor of a workflow that has an outcome only if it is final. -/
def Settles (e : Executor) (workflow : WorkflowId) : Prop :=
  e.Sealed ∧ e.workflow = workflow

variable {workflow : WorkflowId}

theorem Settles.moves (h : e.Settles workflow) (hm : ∃ xs, Moves p e xs e') : e'.Settles workflow := by
  obtain ⟨xs, hm⟩ := hm
  exact ⟨hm.sealed h.1, hm.tells.workflow.trans h.2⟩

theorem Settles.mum (h : e.Settles workflow) (hm : Mum e e') : e'.Settles workflow :=
  h.moves ⟨[], .single (p := True) (h.1.mum_move hm)⟩

/-- A run that ends with a completion leaves a workflow that has completed with that outcome. -/
theorem Settles.run_completed (h : e.Settles workflow) {limit : Nat} {o : Outcome}
    (hr : e.run limit = (.ok o, e')) (ho : o.isCompleted = true) :
    e'.outcome = some o ∧ e'.state.isCompleted = true := by
  have completed : ∀ {m : Executor}, m.Sealed → m.outcome = some o → m.state ≠ .aborted →
      m.state.isCompleted = true := by
    intro m hs hm hn
    have final := hs (hm ▸ rfl)
    rw [WorkflowState.isFinal, Bool.or_eq_true] at final
    exact final.resolve_right fun ha => hn (beq_iff_eq.mp ha)
  obtain ⟨⟨xs, announced⟩, quiet, -, -⟩ := e.announce_moves (p := True)
  have ran := e.ran limit
  rw [hr] at ran
  cases ran with
  | ended ha ho' => exact ⟨ho', completed (announced.sealed h.1) ho' ha⟩
  | @settled m _ _ ha ho' hd hs =>
    have opened : Move True e.announce [] { e.announce with state := .runnable } :=
      .silent ⟨rfl, rfl⟩ rfl rfl (.inr ⟨⟨ho', ha⟩, WorkflowState.noConfusion⟩)
    obtain ⟨⟨ys, drained⟩, hn, -⟩ := drainQueue_moves (p := True)
      (e := { e.announce with state := .runnable }) (fun _ => quiet) WorkflowState.noConfusion hd
    have sealed := drained.sealed (opened.sealed (announced.sealed h.1))
    cases hm : m.outcome with
    | none =>
      rw [settle_of_none hm] at hs
      have idle : o = .idle := by
        split at hs <;> exact (Prod.mk.inj hs).1.symm
      rw [idle] at ho
      cases ho
    | some q =>
      rw [settle_of_some hm] at hs
      cases hs
      exact ⟨hm, completed sealed hm hn⟩

/-- A loaded executor has an outcome only if it is final. -/
theorem settles_of_loaded {d : Definition} {mailbox : Nat} {outcome : CommandOutcome}
    (h : ofLoaded d workflow mailbox outcome = .ok e) : e.Settles workflow := by
  unfold ofLoaded at h
  split at h
  · cases h
  · split at h
    · cases h
    · split at h
      · cases h
      · next s _ hw =>
        refine ⟨(sealed_of_restore h).2.2, Eq.trans ?_ (not_not.mp hw)⟩
        obtain ⟨-, m, hm, rfl⟩ := Snapshot.restore_eq_ok.mp h
        obtain ⟨-, u, root, g, -, -, -, -, -, rfl⟩ := Snapshot.restoreExecutor_eq_ok.mp hm
        dsimp only
        split
        · unfold finishWorkflow
          split <;> rfl
        · rfl

end Executor

namespace Host

variable {h h' m : Host} {e e' : Executor} {react react' : React} {o : Outcome}

/-! ### Books -/

/-- What the host has been told of the end of the workflow. -/
def verdicts (h : Host) : List Notice :=
  h.events.filterMap HostEvent.verdict?

/-- A completion is told once, and a fault once and before it. -/
inductive Verdict : List Notice → Prop
  /-- Nothing has been told. -/
  | untold : Verdict []
  /-- A completion has been told. -/
  | completed (workflow : WorkflowId) {o : Outcome} (ho : o.isCompleted = true) :
      Verdict [.completed workflow o]
  /-- A fault has been told. -/
  | faulted (workflow : WorkflowId) (f : Fault) : Verdict [.exception workflow f]
  /-- A fault has been told, and then the completion by that fault. -/
  | concluded (workflow : WorkflowId) (f : Fault) :
      Verdict [.exception workflow f, .completed workflow (.faulted f)]

/-- The books of a host are in order. -/
structure Booked (h : Host) : Prop where
  settles : ∀ e, h.application.executor = some e → e.Settles h.application.id
  pending : h.application.completionReported = false → h.verdicts = []
  verdict : Verdict h.verdicts
  saved : h.application.owner.isSome = true → h.verdicts ≠ [] →
    h.store.TookLast h.application.id

/-- The books are in order when a listener is told something, and it is told of a fault only when the
workflow has that outcome. -/
structure Hears (n : Notice) (h : Host) : Prop where
  booked : h.Booked
  faulted : ∀ w f, n = .exception w f →
    ∃ e, h.application.executor = some e ∧ e.outcome = some (.faulted f)

/-- The books are kept from one host to another, and a completion that was reported is not told
again. -/
structure Keeps (h h' : Host) : Prop where
  booked : h.Booked → h'.Booked
  reported : h.Booked → h.application.completionReported = true →
    h'.application.completionReported = true ∧ h'.verdicts = h.verdicts

theorem Keeps.refl (h : Host) : Keeps h h :=
  ⟨id, fun _ hr => ⟨hr, rfl⟩⟩

theorem Keeps.trans (hm : Keeps h m) (hn : Keeps m h') : Keeps h h' := by
  refine ⟨fun hb => hn.booked (hm.booked hb), fun hb hr => ?_⟩
  obtain ⟨reported, same⟩ := hm.reported hb hr
  obtain ⟨reported', same'⟩ := hn.reported (hm.booked hb) reported
  exact ⟨reported', same'.trans same⟩

/-- Two listeners bring about the same from a host, and the books are kept. -/
structure Agrees {α : Type} (h : Host) (x y : α × Host) : Prop where
  same : h.Booked → x = y
  keeps : Keeps h x.2

/-- Two listeners do the same where they are told something, and keep the books. -/
def Concur (react react' : React) : Prop :=
  ∀ n m, Hears n m → react n m = react' n m ∧ Keeps m (react n m).2

theorem Keeps.of_booked (hk : h.Booked → Keeps h h') : Keeps h h' :=
  ⟨fun hb => (hk hb).booked hb, fun hb => (hk hb).reported hb⟩

/-- Events that are no notices tell nothing of the end. -/
theorem verdicts_append {more : List HostEvent} (hm : ∀ x ∈ more, x.verdict? = none)
    (he : h'.events = h.events ++ more) : h'.verdicts = h.verdicts := by
  rw [verdicts, verdicts, he, List.filterMap_append, List.filterMap_eq_nil_iff.mpr hm,
    List.append_nil]

theorem verdicts_log (h : Host) (n : Notice) : (h.log (.notice n)).verdicts =
    h.verdicts ++ if n.isVerdict then [n] else [] := by
  change (h.events ++ [HostEvent.notice n]).filterMap HostEvent.verdict? = _
  rw [List.filterMap_append, List.filterMap_cons, List.filterMap_nil, HostEvent.verdict?]
  cases n.isVerdict <;> rfl

/-- The books are kept if nothing is reported, and nothing but the executor and the store changes. -/
theorem Keeps.quiet (hx : h.Booked → ∀ e, h'.application.executor = some e →
      e.Settles h.application.id)
    (hi : h'.application.id = h.application.id) (ho : h'.application.owner = h.application.owner)
    (hr : h'.application.completionReported = h.application.completionReported)
    (hv : h'.verdicts = h.verdicts)
    (hs : h.store.TookLast h.application.id → h'.store.TookLast h.application.id) : Keeps h h' := by
  refine ⟨fun hb => ⟨fun e he => ?_, fun hp => ?_, ?_, fun howned hn => ?_⟩, fun _ hp => ⟨hr.trans hp, hv⟩⟩
  · exact hi ▸ hx hb e he
  · exact hv.trans (hb.pending (hr ▸ hp))
  · exact hv ▸ hb.verdict
  · exact hi ▸ hs (hb.saved (ho ▸ howned) (hv ▸ hn))

/-- The books are kept when an executor that settles is kept. -/
theorem keeps_keep (hx : h.Booked → e.Settles h.application.id) : Keeps h (h.keep e) := by
  refine .quiet (fun hb k hk => ?_) rfl rfl rfl ?_ id
  · cases hk
    exact (hx hb).mum ⟨rfl, rfl, rfl, rfl, .inl rfl⟩
  · have journal : ∀ x ∈ e.journal.map HostEvent.journal, x.verdict? = none := by
      intro x hx
      obtain ⟨entry, -, rfl⟩ := List.mem_map.mp hx
      rfl
    exact verdicts_append journal rfl

theorem settles_ready (hb : h.Booked) (he : h.application.executor = some e) :
    (h.ready e).Settles h.application.id :=
  (hb.settles e he).mum ⟨rfl, rfl, rfl, rfl, .inl rfl⟩

/-- The books are kept through a use of the executor. -/
theorem keeps_use {α : Type} {f : Executor → α × Executor} {a : α}
    (hf : ∀ (e : Executor) (w : WorkflowId), e.Settles w → (f e).2.Settles w)
    (hu : h.useExecutor f = .ok (a, h')) : Keeps h h' := by
  cases he : h.application.executor with
  | none =>
    rw [useExecutor_none f he] at hu
    cases hu
  | some e =>
    rw [useExecutor_some f he] at hu
    cases hu
    exact keeps_keep fun hb => hf _ _ (settles_ready hb he)

/-! ### Saves -/

theorem settles_save (hs : e.Settles workflow) (store : Store) (s : Surroundings) (owner : OwnerId)
    (unlock : Bool) : (e.save store s owner unlock).2.1.Settles workflow :=
  hs.moves (Executor.save_moves (p := False) store s owner unlock False.elim)

theorem keeps_save (h : Host) (unlock : Bool) : Keeps h (h.save unlock).2 := by
  cases ho : h.application.owner with
  | none =>
    rw [Host.save, ho]
    exact .refl h
  | some owner =>
    cases he : h.application.executor with
    | none =>
      rw [Host.save, ho]
      dsimp only
      rw [useExecutor_none _ he]
      exact .refl h
    | some e =>
      rw [save_eq ho he]
      have kept : Keeps h (h.keep ((h.ready e).save h.store h.surroundings owner unlock).2.1) :=
        keeps_keep fun hb => settles_save (settles_ready hb he) _ _ _ _
      refine kept.trans (.quiet (fun hb => hb.settles) rfl rfl rfl rfl fun hs => ?_)
      dsimp only
      rcases (h.ready e).store_save h.store h.surroundings owner unlock with hst | ⟨c, hst⟩
      · rw [hst]
        exact hs
      · rw [hst, ← Store.afterEvent_command]
        exact hs.later _

/-- The save of a workflow that has completed is the last one, if the store accepts it. -/
theorem tookLast_save {owner : OwnerId} (ho : h.application.owner = some owner)
    (he : h.application.executor = some e) (hc : e.state.isCompleted = true) {unlock : Bool}
    (hs : (h.save unlock).1 = .ok ()) : (h.save unlock).2.store.TookLast e.workflow := by
  rw [save_eq ho he] at hs ⊢
  dsimp only at hs ⊢
  cases hi : (h.ready e).capture h.surroundings.now with
  | error error =>
    rw [Executor.save, hi] at hs
    cases hs
  | ok image =>
    obtain ⟨answer, stored⟩ := Executor.save_of_capture hi h.store owner unlock
    rw [answer] at hs
    rw [stored]
    refine .accepted (e := h.ready e) rfl hc hi ?_
    generalize (h.store.tryCommand _ _).1 = outcome at hs ⊢
    cases outcome with
    | error _ => cases hs
    | ok _ => rfl

/-- What a host does before it reports a completion: it saves the workflow, if there is a store. -/
def secure (h : Host) : Except HostError Unit × Host :=
  if h.application.owner.isSome then h.persist else (.ok (), h)

/-- What has become of a host that has secured its completed workflow. -/
structure Secured (h : Host) (o : Outcome) (result : Except HostError Unit) (m : Host) : Prop where
  keeps : Keeps h m
  same : SameReports h m
  executor : ∃ e, m.application.executor = some e ∧ e.outcome = some o
  saved : result = .ok () → m.application.owner.isSome = true →
    m.store.TookLast m.application.id

theorem secured (hb : h.Booked) (he : h.application.executor = some e) (hs : e.outcome = some o)
    (hd : e.state.isCompleted = true) : h.Secured o h.secure.1 h.secure.2 := by
  unfold secure
  split
  · next howned =>
    obtain ⟨owner, ho⟩ := Option.isSome_iff_exists.mp howned
    refine ⟨keeps_save h false, (quiet_save h false).toSameReports, ?_, fun saved _ => ?_⟩
    · have same : Executor.SameCore (h.ready e) ((h.ready e).save h.store h.surroundings owner
          false).2.1 := Executor.sameCore_save _ _ _ _
      rw [persist, save_eq ho he]
      exact ⟨_, rfl, same.outcome.trans hs⟩
    · have named : h.persist.2.application.id = e.workflow := by
        rw [persist, save_eq ho he]
        exact (hb.settles e he).2.symm
      rw [named]
      exact tookLast_save ho he hd saved
  · next hn => exact ⟨.refl h, .refl h, ⟨e, he, hs⟩, fun _ ho => absurd ho hn⟩

/-! ### Calls without notices -/

theorem settles_resumeBookmark {w : WorkflowId} (hs : e.Settles w) (b : Bookmark) (v : Value) :
    (e.resumeBookmark b v).2.Settles w :=
  hs.mum (.resumeBookmark e b v .normal)

theorem keeps_resume (h : Host) (b : Bookmark) (v : Value) : Keeps h (h.resume b v).2 := by
  unfold Host.resume
  split
  · exact .refl h
  · next hu => exact keeps_use (fun _ _ hs => settles_resumeBookmark hs b v) hu

theorem keeps_complete (h : Host) (operation : OperationId) (result : OperationResult) :
    Keeps h (h.complete operation result).2 := by
  unfold Host.complete
  split
  · exact .refl h
  · next handle _ =>
    have unused : Keeps h { h with handles := h.handles.filter (·.operation != operation) } :=
      .quiet (fun hb => hb.settles) rfl rfl rfl rfl id
    dsimp only
    split
    · exact unused
    · next r =>
      have used : ∀ (e : Executor) (w : WorkflowId), e.Settles w →
          (e.completeHandle handle r).2.Settles w :=
        fun e _ hs => hs.mum (.completeHandle e handle r)
      split
      · exact unused
      · next hu => exact unused.trans (keeps_use used hu)
      · next hu => exact unused.trans (keeps_use used hu)

theorem keeps_isReady {ready : Bool} (hr : h.isReady = .ok (ready, h')) : Keeps h h' := by
  unfold isReady at hr
  refine keeps_use (fun e _ hs => ?_) hr
  exact hs.mum (.drainInbox e)

theorem keeps_waitForOperations (completions : List Completion) (arrivals : List Arrival)
    (h : Host) : Keeps h (waitForOperations completions arrivals h).2 := by
  induction arrivals generalizing completions h with
  | nil =>
    unfold waitForOperations
    split
    · exact .refl h
    · next hr => exact keeps_isReady hr
    · next hr => exact keeps_isReady hr
  | cons arrival rest ih =>
    unfold waitForOperations
    split
    · exact .refl h
    · next hr => exact keeps_isReady hr
    · next hr =>
      obtain ⟨operation, result⟩ := arrival
      exact ((keeps_isReady hr).trans (keeps_complete _ operation result)).trans (ih _ _)

/-- A workflow that is loaded has an outcome only if it is final, and one that has completed counts as
reported. -/
theorem keeps_adopt (h : Host) (he : e.Settles h.application.id) :
    Keeps h (h.withApplication (·.adopt e)) := by
  refine ⟨fun hb => ⟨fun k hk => ?_, fun hp => ?_, hb.verdict, hb.saved⟩, fun _ hr => ⟨?_, rfl⟩⟩
  · cases hk
    exact he
  · exact hb.pending (Bool.or_eq_false_iff.mp hp).1
  · exact Bool.or_eq_true_iff.mpr (.inl hr)

theorem keeps_reload (h : Host) : Keeps h h.reload.2 := by
  unfold Host.reload
  split
  · exact .refl h
  · next owner _ =>
    split
    · exact .refl h
    · have asked : ∀ (store : Store) (n : Nat),
          (h.store.TookLast h.application.id → store.TookLast h.application.id) →
          Keeps h { h with store, mailboxCount := n } := fun _ _ hs =>
        .quiet (fun hb => hb.settles) rfl rfl rfl rfl hs
      have sent : ∀ c, h.store.TookLast h.application.id →
          (h.store.tryCommand h.surroundings c).2.TookLast h.application.id := by
        intro c hs
        rw [← Store.afterEvent_command]
        exact hs.later _
      unfold Executor.load
      have answered := sent (.load owner h.application.id)
      generalize h.store.tryCommand h.surroundings (.load owner h.application.id) = answer at answered
      obtain ⟨outcome, store⟩ := answer
      cases outcome with
      | error error => exact asked _ _ answered
      | ok outcome =>
        dsimp only
        split
        · exact asked _ _ answered
        · next e he =>
          exact (asked _ _ answered).trans (keeps_adopt _ (Executor.settles_of_loaded he))

/-! ### Notices -/

/-- A notice that does not tell of the end leaves the books as they are. -/
theorem keeps_log {n : Notice} (hn : n.isVerdict = false) (h : Host) :
    Keeps h (h.log (.notice n)) := by
  refine .quiet (fun hb => hb.settles) rfl rfl rfl ?_ id
  rw [verdicts_log, hn]
  exact List.append_nil _

/-- A completion has been reported, or is about to be, and the store has taken the last save. -/
structure Primed (h : Host) (told : List Notice) : Prop where
  settles : ∀ e, h.application.executor = some e → e.Settles h.application.id
  reported : h.application.completionReported = true
  verdicts : h.verdicts = told
  verdict : Verdict told
  saved : h.application.owner.isSome = true → h.store.TookLast h.application.id

theorem Primed.booked {told : List Notice} (hp : h.Primed told) : h.Booked where
  settles := hp.settles
  pending hr := absurd (hr.symm.trans hp.reported) Bool.false_ne_true
  verdict := hp.verdicts ▸ hp.verdict
  saved ho _ := hp.saved ho

section Concur

variable (hc : Concur react react')
include hc

/-- The host is told of something other than the end. -/
theorem Concur.tell {n : Notice} (hn : n.isVerdict = false) (h : Host) :
    Agrees h (h.tell react n) (h.tell react' n) := by
  have other : ∀ w f, n ≠ .exception w f := by
    rintro w f rfl
    exact absurd hn.symm Bool.false_ne_true
  have logged := keeps_log hn h
  unfold Host.tell
  split
  · have told : h.Booked → react n (h.log (.notice n)) = react' n (h.log (.notice n)) ∧
        Keeps (h.log (.notice n)) (react n (h.log (.notice n))).2 := fun hb =>
      hc n _ ⟨logged.booked hb, fun w f hw => absurd hw (other w f)⟩
    exact ⟨fun hb => (told hb).1, .of_booked fun hb => logged.trans (told hb).2⟩
  · exact ⟨fun _ => rfl, .refl h⟩

/-- The host is told of the end, if it listens. -/
theorem Concur.tell_verdict {n : Notice} {told : List Notice} (hp : h.Primed told)
    (hn : n.isVerdict = true) (hv : Verdict (told ++ [n]))
    (hf : ∀ w f, n = .exception w f →
      ∃ e, h.application.executor = some e ∧ e.outcome = some (.faulted f)) :
    h.tell react n = h.tell react' n ∧
      ((h.tell react n).2.Primed (told ++ [n]) ∨ (h.tell react n).2 = h) := by
  unfold Host.tell
  split
  · have verdicts : (h.log (.notice n)).verdicts = told ++ [n] := by
      rw [verdicts_log, hn, if_pos rfl, hp.verdicts]
    have primed : (h.log (.notice n)).Primed (told ++ [n]) :=
      ⟨hp.settles, hp.reported, verdicts, hv, hp.saved⟩
    obtain ⟨same, keeps⟩ := hc n _ ⟨primed.booked, hf⟩
    obtain ⟨reported, still⟩ := keeps.reported primed.booked primed.reported
    have booked := keeps.booked primed.booked
    have now := still.trans verdicts
    refine ⟨same, .inl ⟨booked.settles, reported, now, hv, fun ho => booked.saved ho ?_⟩⟩
    rw [now]
    exact List.append_ne_nil_of_right_ne_nil _ (List.cons_ne_nil _ _)
  · exact ⟨rfl, .inr rfl⟩

/-- A fault is told before the completion by it. -/
theorem Concur.tell_faulted {t : Host} {f : Fault} (hp : t.Primed [])
    (he : ∃ e, t.application.executor = some e ∧ e.outcome = some (.faulted f)) (id : WorkflowId) :
    (t.tell react (.exception id f)).2.tell react (.completed id (.faulted f)) =
        (t.tell react' (.exception id f)).2.tell react' (.completed id (.faulted f)) ∧
      ∃ told, ((t.tell react (.exception id f)).2.tell react
        (.completed id (.faulted f))).2.Primed told := by
  have exact' : ∀ w g, Notice.exception id f = .exception w g →
      ∃ e, t.application.executor = some e ∧ e.outcome = some (.faulted g) := by
    intro w g hw
    cases hw
    exact he
  obtain ⟨same, first⟩ := hc.tell_verdict hp rfl (.faulted id f) exact'
  rw [← same]
  rcases first with primed | still
  · obtain ⟨same', second⟩ :=
      hc.tell_verdict primed rfl (.concluded id f) fun w g hw => absurd hw Notice.noConfusion
    exact ⟨same', second.elim (⟨_, ·⟩) fun still' => ⟨_, still' ▸ primed⟩⟩
  · rw [still]
    obtain ⟨same', second⟩ :=
      hc.tell_verdict hp rfl (.completed id (o := .faulted f) rfl) fun w g hw => absurd hw Notice.noConfusion
    exact ⟨same', second.elim (⟨_, ·⟩) fun still' => ⟨_, still' ▸ hp⟩⟩

/-- A completion without a fault is told. -/
theorem Concur.tell_completed {t : Host} (hp : t.Primed []) (ho : o.isCompleted = true)
    (id : WorkflowId) :
    t.tell react (.completed id o) = t.tell react' (.completed id o) ∧
      ∃ told, (t.tell react (.completed id o)).2.Primed told := by
  obtain ⟨same, told⟩ :=
    hc.tell_verdict hp rfl (.completed id ho) fun w g hw => absurd hw Notice.noConfusion
  exact ⟨same, told.elim (⟨_, ·⟩) fun still => ⟨_, still ▸ hp⟩⟩

/-- The report of a completion: if there is a store, it has taken the last save by then. -/
theorem Concur.reportCompletion (hb : h.Booked) (he : h.application.executor = some e)
    (hs : e.outcome = some o) (hd : e.state.isCompleted = true) (ho : o.isCompleted = true) :
    h.reportCompletion react o = h.reportCompletion react' o ∧
      Keeps h (h.reportCompletion react o).2 := by
  unfold Host.reportCompletion
  split
  · exact ⟨rfl, .refl h⟩
  · next hr =>
    have unreported : h.application.completionReported = false := by simpa using hr
    have after := secured hb he hs hd
    rw [secure] at after
    generalize (if h.application.owner.isSome then h.persist else (.ok (), h)) = m at after
    obtain ⟨result, m⟩ := m
    obtain ⟨kept, same, executor, saved⟩ := after
    dsimp only at kept same executor saved ⊢
    cases result with
    | error error => exact ⟨rfl, kept⟩
    | ok _ =>
      have booked := kept.booked hb
      dsimp only
      generalize ht : m.withApplication (fun a => { a with completionReported := true }) = t
      have primed : t.Primed [] := by
        rw [← ht]
        refine ⟨booked.settles, rfl, booked.pending (same.reported.trans unreported), .untold,
          fun howned => saved rfl howned⟩
      have done : ∀ {x : Option IdleAction × Host}, (∃ told, x.2.Primed told) → Keeps h x.2 :=
        fun ⟨told, hx⟩ =>
          ⟨fun _ => hx.booked, fun _ hr' => absurd (unreported.symm.trans hr') Bool.false_ne_true⟩
      cases o with
      | faulted f =>
        have faulted : ∃ e, t.application.executor = some e ∧ e.outcome = some (.faulted f) :=
          ht ▸ executor
        obtain ⟨told, concluded⟩ := hc.tell_faulted primed faulted t.application.id
        exact ⟨congrArg (fun x => (Except.ok (), x.2)) told, done concluded⟩
      | idle | completed | canceled =>
        obtain ⟨told, concluded⟩ := hc.tell_completed primed ho t.application.id
        exact ⟨congrArg (fun x => (Except.ok (), x.2)) told, done concluded⟩

/-! ### Calls -/

theorem Concur.unload (h : Host) : Agrees h (h.unload react) (h.unload react') := by
  unfold Host.unload
  have saved := keeps_save h true
  generalize h.save true = m at saved
  obtain ⟨result, m⟩ := m
  cases result with
  | error error => exact ⟨fun _ => rfl, saved⟩
  | ok _ =>
    have dropped : Keeps m (m.withApplication (·.dropExecutor)) :=
      .quiet (fun _ e he => absurd he.symm (Option.some_ne_none e)) rfl rfl rfl rfl id
    have told := hc.tell rfl (m.withApplication (·.dropExecutor)) (n := .unloaded m.application.id)
    refine ⟨fun hb => ?_, (saved.trans dropped).trans told.keeps⟩
    have same := told.same (dropped.booked (saved.booked hb))
    exact congrArg (fun x => (Except.ok (), x.2)) same

theorem Concur.act (h : Host) (wanted : IdleAction) (requested : Bool) :
    Agrees h (act react h wanted requested) (act react' h wanted requested) := by
  cases wanted with
  | unload => exact hc.unload h
  | persist => exact ⟨fun _ => rfl, keeps_save h false⟩
  | keep =>
    unfold Host.act
    dsimp only
    split
    · exact ⟨fun _ => rfl, keeps_save h false⟩
    · exact ⟨fun _ => rfl, .refl h⟩

theorem Concur.choose (h : Host) (report : IdleReport) :
    Agrees h (choose react h report) (choose react' h report) := by
  unfold Host.choose
  split
  · obtain ⟨same, keeps⟩ := hc.tell (n := .persistableIdle report) rfl h
    exact ⟨fun hb => congrArg (fun x => (x.1.getD .keep, x.2)) (same hb), keeps⟩
  · exact ⟨fun _ => rfl, .refl h⟩

theorem Concur.handleIdle (h : Host) (report : IdleReport) (requested : Bool) :
    Agrees h (h.handleIdle react report requested) (h.handleIdle react' report requested) := by
  obtain ⟨same, told⟩ := hc.tell (n := .idle report) rfl h
  refine ⟨fun hb => ?_, ?_⟩
  · rw [handleIdle_eq, handleIdle_eq, ← same hb]
    split
    · rfl
    · have chosen := hc.choose (h.tell react (.idle report)).2 report
      rw [← chosen.same (told.booked hb)]
      exact (hc.act _ _ requested).same (chosen.keeps.booked (told.booked hb))
  · rw [handleIdle_eq]
    split
    · exact told
    · exact (told.trans (hc.choose _ report).keeps).trans (hc.act _ _ requested).keeps

/-- A run tells of the end of the workflow only if it ends with it. -/
theorem Concur.run (h : Host) : Agrees h (h.run react) (h.run react') := by
  cases he : h.application.executor with
  | none =>
    rw [Host.run, Host.run, useExecutor_none _ he]
    exact ⟨fun _ => rfl, .refl h⟩
  | some e =>
    have moves := (h.ready e).run_moves (p := True) h.stepLimit
    obtain ⟨r, e', hr⟩ : ∃ r e', (h.ready e).run h.stepLimit = (r, e') := ⟨_, _, rfl⟩
    rw [hr] at moves
    have settles : h.Booked → e'.Settles h.application.id := fun hb =>
      (settles_ready hb he).moves moves
    cases r with
    | error error =>
      rw [run_of_error react he hr, run_of_error react' he hr]
      exact ⟨fun _ => rfl, keeps_keep settles⟩
    | ok o =>
      rw [run_of_ok react he hr rfl, run_of_ok react' he hr rfl]
      have taken : Executor.Mum e' e'.takePersistRequest.2 := ⟨rfl, rfl, rfl, rfl, .inl rfl⟩
      have kept : Keeps h (h.keep e'.takePersistRequest.2) :=
        keeps_keep fun hb => (settles hb).mum taken
      cases ho : o.isCompleted with
      | false =>
        rw [if_neg Bool.false_ne_true, if_neg Bool.false_ne_true]
        obtain ⟨same, keeps⟩ := hc.handleIdle (h.keep e'.takePersistRequest.2)
          (h.idleReport e'.takePersistRequest.2) e'.persistRequested
        exact ⟨fun hb => congrArg (fun x => (x.1.map fun _ => o, x.2)) (same (kept.booked hb)),
          kept.trans keeps⟩
      | true =>
        rw [if_pos rfl, if_pos rfl]
        have reported : h.Booked → _ := fun hb => by
          obtain ⟨outcome, completed⟩ := (settles_ready hb he).run_completed hr ho
          exact hc.reportCompletion (kept.booked hb) (executor_keep _ _) outcome completed ho
        exact ⟨fun hb => congrArg (fun x => (x.1.map fun _ => o, x.2)) (reported hb).1,
          .of_booked fun hb => kept.trans (reported hb).2⟩

theorem Concur.requestAndRun (h : Host)
    {request : Executor → Except ContractViolation Unit × Executor}
    (hr : ∀ (e : Executor) (w : WorkflowId), e.Settles w → (request e).2.Settles w) :
    Agrees h (h.requestAndRun react request) (h.requestAndRun react' request) := by
  unfold Host.requestAndRun
  split
  · exact ⟨fun _ => rfl, .refl h⟩
  · next hu => exact ⟨fun _ => rfl, keeps_use hr hu⟩
  · next hu =>
    have used := keeps_use hr hu
    exact ⟨fun hb => (hc.run _).same (used.booked hb), used.trans (hc.run _).keeps⟩

theorem Concur.resumeAndRun (h : Host) (b : Bookmark) (v : Value) :
    Agrees h (h.resumeAndRun react b v) (h.resumeAndRun react' b v) := by
  have resumed := keeps_resume h b v
  unfold Host.resumeAndRun
  generalize h.resume b v = answered at resumed
  obtain ⟨answer, m⟩ := answered
  cases answer with
  | success =>
    obtain ⟨same, keeps⟩ := hc.run m
    dsimp only at resumed ⊢
    refine ⟨fun hb => by rw [same (resumed.booked hb)], resumed.trans ?_⟩
    generalize m.run react = ran at keeps
    obtain ⟨result, n⟩ := ran
    cases result <;> exact keeps
  | notFound => exact ⟨fun _ => rfl, resumed⟩
  | notReady => exact ⟨fun _ => rfl, resumed⟩

theorem Concur.abort (h : Host) (reason : String) :
    Agrees h (h.abort react reason) (h.abort react' reason) := by
  unfold Host.abort
  split
  · exact ⟨fun _ => rfl, .refl h⟩
  · next m hu =>
    have used : Keeps h m := keeps_use (f := fun e => ((), e.abort reason))
      (fun e _ hs => hs.moves (Executor.abort_moves (p := False) reason False.elim)) hu
    have told := hc.tell rfl m (n := .aborted m.application.id reason)
    exact ⟨fun hb => congrArg (fun x => (Except.ok (), x.2)) (told.same (used.booked hb)),
      used.trans told.keeps⟩

theorem Concur.runUntilIdle (turns : Nat) (w : Waiting Outcome) (h : Host) :
    Agrees h (runUntilIdle react turns w h) (runUntilIdle react' turns w h) := by
  induction turns generalizing w h with
  | zero => exact ⟨fun _ => rfl, .refl h⟩
  | succ turns ih =>
    obtain ⟨same, ran⟩ := hc.run h
    unfold Host.runUntilIdle
    constructor
    · intro hb
      rw [← same hb]
      have booked := ran.booked hb
      generalize h.run react = x at booked
      obtain ⟨result, m⟩ := x
      cases result with
      | error error => rfl
      | ok o =>
        dsimp only at booked ⊢
        split
        · rfl
        · split
          · rfl
          · split
            · rfl
            · have waited := keeps_waitForOperations w.completions w.arrivals m
              generalize waitForOperations w.completions w.arrivals m = y at waited
              obtain ⟨⟨completions, arrivals, last⟩, n⟩ := y
              rcases last with _ | _ | _
              · rfl
              · rfl
              · exact (ih _ _).same (waited.booked booked)
    · generalize h.run react = x at ran
      obtain ⟨result, m⟩ := x
      cases result with
      | error error => exact ran
      | ok o =>
        dsimp only at ran ⊢
        split
        · exact ran
        · split
          · exact ran
          · split
            · exact ran
            · have waited := keeps_waitForOperations w.completions w.arrivals m
              generalize waitForOperations w.completions w.arrivals m = y at waited
              obtain ⟨⟨completions, arrivals, last⟩, n⟩ := y
              rcases last with _ | _ | _
              · exact ran.trans waited
              · exact ran.trans waited
              · exact (ran.trans waited).trans (ih _ _).keeps

/-- Whatever the host calls for, the books are kept. -/
theorem Concur.perform (h : Host) (c : HostCall) :
    Agrees h (h.perform react c) (h.perform react' c) := by
  have answered : ∀ {α : Type} (reply : α → Reply) {x y : Except HostError α × Host},
      Agrees h x y → Agrees h (answer reply x) (answer reply y) := by
    intro α reply x y hx
    refine ⟨fun hb => congrArg _ (hx.same hb), ?_⟩
    obtain ⟨result, m⟩ := x
    have keeps := hx.keeps
    cases result <;> exact keeps
  have only : ∀ {m : Host}, Keeps h m → ∀ reply : Reply, Agrees h (reply, m) (reply, m) :=
    fun hk _ => ⟨fun _ => rfl, hk⟩
  cases c with
  | run => exact answered _ (hc.run h)
  | resume b v => exact only (keeps_resume h b v) _
  | resumeAndRun b v => exact answered _ (hc.resumeAndRun h b v)
  | cancel =>
    exact answered _ (hc.requestAndRun h fun e _ hs =>
      hs.moves (Executor.cancelWorkflow_moves (p := True) hs.1))
  | terminate reason =>
    exact answered _ (hc.requestAndRun h fun e _ hs =>
      hs.moves (Executor.terminate_moves (p := False) hs.1 reason False.elim))
  | abort reason => exact answered _ (hc.abort h reason)
  | persist => exact answered _ ⟨fun _ => rfl, keeps_save h false⟩
  | unload => exact answered _ (hc.unload h)
  | reload => exact answered _ ⟨fun _ => rfl, keeps_reload h⟩
  | complete operation result => exact only (keeps_complete h operation result) _
  | waitForOperations arrivals => exact only (keeps_waitForOperations [] arrivals h) _
  | runUntilIdle arrivals =>
    obtain ⟨same, keeps⟩ := hc.runUntilIdle h.stepLimit ⟨[], arrivals, none⟩ h
    exact ⟨fun hb => congrArg (fun x => (Reply.ranUntilIdle x.1, x.2)) (same hb), keeps⟩
  | isLoaded => exact only (.refl h) _
  | state => exact only (.refl h) _
  | bookmarks =>
    refine answered _ ?_
    split <;> exact ⟨fun _ => rfl, .refl h⟩
  | inspect => exact only (.refl h) _

end Concur

/-! ### The life of an application -/

/-- What may happen to a host and its application. -/
inductive Life : Host → Host → Prop
  /-- Nothing happens. -/
  | still (h : Host) : Life h h
  /-- One thing happens after another. -/
  | andThen {h m h' : Host} (first : Life h m) (second : Life m h') : Life h h'
  /-- A call is made. The listener, where it is told something, may do what may happen to a host. -/
  | call {react : React} (h : Host) (c : HostCall)
      (lawful : ∀ n m, Hears n m → Life m (react n m).2) : Life h (h.perform react c).2
  /-- The answer to a call that a listener has made is noted. -/
  | reply (h : Host) (kind : NoticeKind) (r : Reply) : Life h (h.log (.reply kind r))
  /-- The host changes what is its own: the time, its handles and the reactions to come. -/
  | arrange {h h' : Host} (ha : h'.application = h.application) (hs : h'.store = h.store)
      (he : h'.events = h.events) : Life h h'
  /-- Others send a command to the store, or a failure of the store is planted. -/
  | meanwhile (h : Host) (event : StoreEvent) :
      Life h { h with store := h.store.afterEvent event }
  /-- The disk of the store begins to fail, or stops. -/
  | failing (h : Host) (faults : List Bool) :
      Life h { h with store := h.store.withFaults faults }

/-- Whatever happens, the books are kept. -/
theorem Life.keeps (hl : Life h h') : Keeps h h' := by
  induction hl with
  | still => exact .refl _
  | andThen _ _ first second => exact first.trans second
  | call h c _ ih => exact (Concur.perform (fun n m hn => ⟨rfl, ih n m hn⟩) h c).keeps
  | reply h kind r =>
    have none : ∀ x ∈ [HostEvent.reply kind r], x.verdict? = none := by
      intro x hx
      rw [List.mem_singleton.mp hx]
      rfl
    exact .quiet (fun hb => hb.settles) rfl rfl rfl (verdicts_append none rfl) id
  | arrange ha hs he =>
    refine .quiet (fun hb => ?_) (congrArg _ ha) (congrArg _ ha) (congrArg _ ha) ?_ (hs ▸ id)
    · rw [ha]
      exact hb.settles
    · rw [verdicts, verdicts, he]
  | meanwhile h event => exact .quiet (fun hb => hb.settles) rfl rfl rfl rfl (·.later event)
  | failing h faults => exact .quiet (fun hb => hb.settles) rfl rfl rfl rfl (·.failing faults)

/-- A listener that calls nothing is lawful. -/
theorem Passive.life (hp : Passive react) (n : Notice) (m : Host) : Life m (react n m).2 :=
  .arrange (hp.mute n m).application (hp.mute n m).store (hp.silent n m)

theorem life_play (hr : ∀ n m, Life m (react n m).2) (kind : NoticeKind) (steps : List ReactionStep)
    (chosen : Option IdleAction) (h : Host) : Life h (play react kind steps (chosen, h)).2 := by
  induction steps generalizing chosen h with
  | nil => exact .still h
  | cons step rest ih =>
    cases step with
    | choose action => exact ih (some action) h
    | call read =>
      unfold play
      cases read h.scopeCount with
      | error error => exact .andThen (.reply h kind _) (ih _ _)
      | ok c =>
        exact .andThen (.call h c fun n m _ => hr n m) (.andThen (.reply _ kind _) (ih _ _))

/-- A listener that makes written calls, with listeners of the same sort, is lawful. -/
theorem life_reactTo (depth : Nat) (n : Notice) (m : Host) : Life m (reactTo depth n m).2 := by
  induction depth generalizing n m with
  | zero => exact .still m
  | succ depth ih =>
    unfold reactTo
    split
    · exact .still m
    · next steps m' ht =>
      have taken : Life m m' := by
        unfold takeReaction at ht
        split at ht
        · cases ht
        · cases ht
          exact .arrange rfl rfl rfl
      exact .andThen taken (life_play ih n.kind steps none m')

/-- A host at the beginning of the life of its application. The workflow is new or not in memory yet. -/
structure Starts (h : Host) : Prop where
  fresh : ∀ e, h.application.executor = some e → e.outcome = none ∧ e.workflow = h.application.id
  unreported : h.application.completionReported = false
  untold : h.verdicts = []

theorem Starts.booked (hs : h.Starts) : h.Booked where
  settles e he := by
    obtain ⟨outcome, named⟩ := hs.fresh e he
    refine ⟨fun ho => ?_, named⟩
    rw [outcome] at ho
    exact absurd ho Bool.false_ne_true
  pending _ := hs.untold
  verdict := hs.untold ▸ .untold
  saved _ hn := absurd hs.untold hn

/-- Over the life of an application its host is told at most once that the workflow has completed, and
at most once, before that, of the fault with which it completes; where there is a store, it has accepted
the last save of the completed workflow by then. This holds whenever a listener is told something: what
a listener would do elsewhere makes no difference to any call. -/
theorem told_once_when_saved {h₀ h : Host} (hs : h₀.Starts) (hl : Life h₀ h) :
    Verdict h.verdicts ∧
      (h.application.owner.isSome = true → h.verdicts ≠ [] →
        h.store.TookLast h.application.id) ∧
      ∀ (c : HostCall) (react react' : React), (∀ n m, Hears n m → Life m (react n m).2) →
        (∀ n m, Hears n m → react n m = react' n m) → h.perform react c = h.perform react' c := by
  have booked := hl.keeps.booked hs.booked
  refine ⟨booked.verdict, booked.saved, fun c react react' lawful agree => ?_⟩
  have concur : Concur react react' := fun n m hn => ⟨agree n m hn, (lawful n m hn).keeps⟩
  exact (concur.perform h c).same booked

/-- A host of a workflow that faults at once, with a store whose next command fails. It listens, and
when it is told of the fault it runs the workflow again. -/
def alarmed : Host where
  application :=
    { id := ⟨.ofNat 1⟩, definition := (Activity.failing (.custom "outer" [])).prepare
      executor := some (.begun (.failing (.custom "outer" []))), owner := some keeper
      listening := [.completed, .exception] }
  store := troubled
  surroundings := ⟨⟨0, 0⟩, .ofNat 9⟩
  stepLimit := 5
  reactions := [(.exception, [.call fun _ => .ok .run])]

theorem alarmed_starts : alarmed.Starts where
  fresh e he := by
    cases he
    exact ⟨rfl, rfl⟩
  unreported := rfl
  untold := rfl

/-- The first run fails with the store; the second tells of the fault, in answer to which the workflow
is run again, and then of the completion. -/
theorem told_once_alarmed :
    (((alarmed.perform reaction .run).2.perform reaction .run).2.verdicts.length = 2) ∧
      Verdict ((alarmed.perform reaction .run).2.perform reaction .run).2.verdicts ∧
      ((alarmed.perform reaction .run).2.perform reaction .run).2.store.TookLast ⟨.ofNat 1⟩ := by
  have lawful : ∀ n m, Hears n m → Life m (reaction n m).2 := fun n m _ => life_reactTo _ n m
  have life : Life alarmed ((alarmed.perform reaction .run).2.perform reaction .run).2 :=
    .andThen (.call _ .run lawful) (.call _ .run lawful)
  have told : ((alarmed.perform reaction .run).2.perform reaction .run).2.verdicts.length = 2 := by
    decide +kernel
  obtain ⟨verdict, saved, -⟩ := told_once_when_saved alarmed_starts life
  refine ⟨told, verdict, ?_⟩
  have owned : ((alarmed.perform reaction .run).2.perform reaction
      .run).2.application.owner.isSome = true := by decide +kernel
  have named : ((alarmed.perform reaction .run).2.perform reaction .run).2.application.id =
      ⟨.ofNat 1⟩ := by decide +kernel
  rw [← named]
  refine saved owned fun hn => ?_
  rw [hn] at told
  cases told

end Host

end Workflow
