import Workflow.Proofs.CompletionReport
import Workflow.Proofs.DeliveryOrder

/-!
# Resumptions between a run and its save

A run that ends idle lets go of the workflow before it tells the host and saves. Until the save, the
handlers of the host and other callers may resume bookmarks. What they resume stays queued for the next
run. But a workflow for which something is queued cannot be captured, so the save is refused and the run
fails.
-/

namespace Workflow

/-- A bookmark that somebody resumes, and the value for it. -/
abbrev ResumeRequest := Bookmark × Value

namespace Executor

variable {e k : Executor} {rs : List ResumeRequest}

/-! ### Resumptions one after the other -/

/-- Resume bookmarks one after the other, with normal priority. -/
def resumeEach (e : Executor) (rs : List ResumeRequest) : Executor :=
  e.resumeAll (rs.map fun r => (r.1, r.2, .normal))

/-- The items that are queued for the resumptions that are accepted. -/
def takes (e : Executor) (rs : List ResumeRequest) : List WorkItem :=
  (e.accepted (rs.map fun r => (r.1, r.2, .normal))).map (·.2)

theorem resumeEach_append (e : Executor) (rs rs' : List ResumeRequest) :
    e.resumeEach (rs ++ rs') = (e.resumeEach rs).resumeEach rs' := by
  rw [resumeEach, List.map_append, resumeAll, List.foldl_append]
  rfl

/-- What is accepted has the priority with which it was resumed. -/
theorem priority_of_accepted {l : List (Bookmark × Value × Priority)} {p : Priority}
    (hl : ∀ r ∈ l, r.2.2 = p) : ∀ x ∈ e.accepted l, x.1 = p := by
  induction l generalizing e with
  | nil => exact fun x hx => absurd hx List.not_mem_nil
  | cons r rest ih =>
    obtain ⟨b, v, q⟩ := r
    have first : q = p := hl _ List.mem_cons_self
    have later := fun r hr => hl r (List.mem_cons_of_mem _ hr)
    rw [accepted]
    rcases e.resumeBookmark_cases b v q with ⟨-, hr⟩ | ⟨-, -, hr⟩ | ⟨g, -, hg, hr⟩
    · rw [hr]
      exact ih later
    · rw [hr]
      exact ih later
    · rw [hr, hg]
      exact List.forall_mem_cons.mpr ⟨first, ih later⟩

/-- What is accepted while nothing is queued is queued in the order of the resumptions. -/
theorem work_resumeEach (hw : e.queue.work = []) (rs : List ResumeRequest) :
    (e.resumeEach rs).queue.work = e.takes rs := by
  have normal : ∀ x ∈ e.accepted (rs.map fun r => (r.1, r.2, .normal)), x.1 = .normal := by
    refine priority_of_accepted fun r hr => ?_
    obtain ⟨r, -, rfl⟩ := List.mem_map.mp hr
    rfl
  have none_low : (e.accepted (rs.map fun r => (r.1, r.2, .normal))).filter (·.1 = .low) = [] := by
    refine List.filter_eq_nil_iff.mpr fun x hx => ?_
    rw [normal x hx]
    decide
  rw [resumeEach, work_resumeAll_of_empty _ hw, inTurn, none_low, List.filter_eq_self.mpr fun x hx =>
    decide_eq_true (normal x hx), List.map_nil, List.append_nil, takes]

/-- Where nothing is accepted, nothing changes. -/
theorem resumeAll_of_accepted_eq_nil {l : List (Bookmark × Value × Priority)}
    (hl : e.accepted l = []) : e.resumeAll l = e := by
  induction l with
  | nil => rfl
  | cons r rest ih =>
    obtain ⟨b, v, p⟩ := r
    change (e.resumeBookmark b v p).2.resumeAll rest = e
    rw [accepted] at hl
    rcases e.resumeBookmark_cases b v p with ⟨-, hr⟩ | ⟨-, -, hr⟩ | ⟨g, -, hg, hr⟩
    · rw [hr] at hl ⊢
      exact ih hl
    · rw [hr] at hl ⊢
      exact ih hl
    · rw [hr, hg] at hl
      exact absurd hl (List.cons_ne_nil _ _)

theorem resumeEach_of_takes_eq_nil (hn : e.takes rs = []) : e.resumeEach rs = e :=
  resumeAll_of_accepted_eq_nil (List.map_eq_nil_iff.mp hn)

/-- No resumption aborts a workflow. -/
theorem state_resumeAll_ne_aborted (ha : e.state ≠ .aborted) (l : List (Bookmark × Value × Priority)) :
    (e.resumeAll l).state ≠ .aborted := by
  induction l generalizing e with
  | nil => exact ha
  | cons r rest ih =>
    obtain ⟨b, v, p⟩ := r
    refine ih (e := (e.resumeBookmark b v p).2) ?_
    rcases e.resumeBookmark_cases b v p with ⟨-, hr⟩ | ⟨-, -, hr⟩ | ⟨g, -, -, hr⟩
    · rw [hr]
      exact ha
    · rw [hr]
      exact ha
    · rw [hr]
      dsimp only
      split
      · exact WorkflowState.noConfusion
      · exact ha

theorem sameCore_resumeBookmark (same : SameCore e k) (b : Bookmark) (v : Value) (p : Priority) :
    SameCore (e.resumeBookmark b v p).2 (k.resumeBookmark b v p).2 := by
  rw [resumeBookmark, resumeBookmark, same.state, same.bookmarks]
  split
  · exact same
  · split
    · exact same
    · obtain ⟨definition, instances, nextInstance, root, queue, -, operations, nextOperation, -, outcome,
        isOverdrawn⟩ := same
      exact ⟨definition, instances, nextInstance, root, congrArg (WorkQueue.push · _ p) queue, rfl,
        operations, nextOperation, rfl, outcome, isOverdrawn⟩

theorem workflow_resumeBookmark (e : Executor) (b : Bookmark) (v : Value) (p : Priority) :
    (e.resumeBookmark b v p).2.workflow = e.workflow := by
  rcases e.resumeBookmark_cases b v p with ⟨-, hr⟩ | ⟨-, -, hr⟩ | ⟨g, -, -, hr⟩ <;> rw [hr]

/-! ### Saves that are refused -/

/-- A workflow for which something is queued cannot be captured. -/
theorem ensureCapturable_busy (ha : e.state ≠ .aborted) (hw : e.queue.work ≠ []) :
    e.ensureCapturable = .error (.notIdle (toString e.queue.work.length ++ " work items queued")) := by
  have queued : (!e.queue.isEmpty) = true := by
    cases hi : e.queue.isEmpty with
    | true => exact absurd (WorkQueue.isEmpty_iff.mp hi) hw
    | false => rfl
  rw [ensureCapturable, if_neg ha, if_pos queued, WorkQueue.length_work]

/-- What cannot be captured is not saved. -/
theorem save_refused {error : PersistenceError} (hc : e.ensureCapturable = .error error) (store : Store)
    (s : Surroundings) (owner : OwnerId) (unlock : Bool) :
    e.save store s owner unlock = (.error (.persistence error), e, store) := by
  have refused : e.capture s.now = .error error := by
    rw [capture, hc]
    rfl
  rw [save, refused]

/-- After resumptions, the work of a workflow that waited is what was accepted. -/
theorem Resting.work_of_resumed (h : e.Resting) (same : SameCore (e.resumeEach rs) k) :
    k.queue.work = e.takes rs := by
  rw [same.queue]
  exact work_resumeEach h.work rs

/-- A workflow that waited cannot be captured any more if a resumption was accepted. -/
theorem Resting.busy_of_takes (h : e.Resting) (hn : e.takes rs ≠ []) :
    (e.resumeEach rs).ensureCapturable =
      .error (.notIdle (toString (e.takes rs).length ++ " work items queued")) := by
  have work := work_resumeEach h.work rs
  have present : e.state ≠ .aborted := by
    rw [h.state]
    exact WorkflowState.noConfusion
  rw [← work]
  exact ensureCapturable_busy (state_resumeAll_ne_aborted present _) (work ▸ hn)

end Executor

namespace Host

open Executor

variable {h h' m : Host} {e : Executor} {owner : OwnerId} {react : React}

/-- Resume bookmarks one after the other. -/
def resumeEach (h : Host) (rs : List ResumeRequest) : Host :=
  rs.foldl (fun h r => (h.resume r.1 r.2).2) h

/-- A workflow that is not in memory takes no resumptions. -/
theorem resumeEach_unloaded (hn : h.application.executor = none) (rs : List ResumeRequest) :
    h.resumeEach rs = h := by
  induction rs with
  | nil => rfl
  | cons r rest ih =>
    have first : (h.resume r.1 r.2).2 = h := by rw [Host.resume, useExecutor_none _ hn]
    change (h.resume r.1 r.2).2.resumeEach rest = h
    rw [first, ih]

/-- A host is another one, at most with another executor and with more events: it has the same owner and
store, and wants the same. -/
structure SameTerms (h h' : Host) : Prop where
  owner : h'.application.owner = h.application.owner := by rfl
  config : h'.application.config = h.application.config := by rfl
  listening : h'.application.listening = h.application.listening := by rfl
  store : h'.store = h.store := by rfl
  surroundings : h'.surroundings = h.surroundings := by rfl

/-- On the same terms as before, a host has an executor. -/
structure Holds (h : Host) (e : Executor) (h' : Host) : Prop extends SameTerms h h' where
  has : h'.Has e

theorem Holds.of_setting (hh : h.Holds e m) (same : SameSetting m h') : h.Holds e h' where
  owner := same.application ▸ hh.owner
  config := same.application ▸ hh.config
  listening := same.application ▸ hh.listening
  store := same.store.trans hh.store
  surroundings := same.surroundings.trans hh.surroundings
  has := hh.has.of_application (congrArg Application.executor same.application)

theorem Holds.resume (hh : h.Holds e m) (b : Bookmark) (v : Value) :
    h.Holds (e.resumeBookmark b v).2 (m.resume b v).2 := by
  obtain ⟨⟨owner, config, listening, store, surroundings⟩, k, hk, same, named⟩ := hh
  have ready : SameCore e (m.ready k) := same.trans (sameCore_ready m k)
  rw [Host.resume, useExecutor_some _ hk]
  refine ⟨⟨owner, config, listening, store, surroundings⟩, ?_⟩
  have after := sameCore_resumeBookmark ready b v .normal
  refine ⟨_, executor_keep m _, after.trans (sameCore_kept _), ?_⟩
  exact ((m.ready k).workflow_resumeBookmark b v .normal).trans
    (named.trans (e.workflow_resumeBookmark b v .normal).symm)

/-- What is resumed through a host is resumed by its executor. -/
theorem Holds.resumeEach (hh : h.Holds e m) (rs : List ResumeRequest) :
    h.Holds (e.resumeEach rs) (m.resumeEach rs) := by
  induction rs generalizing e m with
  | nil => exact hh
  | cons r rest ih => exact ih (hh.resume r.1 r.2)

/-! ### Handlers and other callers -/

/-- What the handlers of an idle workflow do: which bookmarks they resume when they are told of it and
when they are asked what to do with it, and what they answer. -/
structure IdleHandlers where
  /-- Told of an idle workflow, they resume these. -/
  told : IdleReport → List ResumeRequest
  /-- Asked about an idle workflow, they resume these. -/
  asked : IdleReport → List ResumeRequest
  /-- What they want. -/
  answer : IdleReport → IdleAction

/-- A reaction does to the workflow what the handlers do, and nothing once it is unloaded. -/
structure IdleHandlers.Describes (i : IdleHandlers) (react : React) : Prop where
  told : ∀ report h, SameSetting (h.resumeEach (i.told report)) (react (.idle report) h).2
  asked : ∀ report h, SameSetting (h.resumeEach (i.asked report)) (react (.persistableIdle report) h).2
  answer : ∀ report h, (react (.persistableIdle report) h).1.getD .keep = i.answer report
  unloaded : ∀ w (h : Host), h.application.executor = none → SameSetting h (react (.unloaded w) h).2

/-- What other callers resume once a run has let go of the workflow. What they resume while a handler is
at work counts with what the handler resumes. -/
structure Callers where
  /-- Before the host is told. -/
  beforeTold : List ResumeRequest := []
  /-- After that, and before it is asked. -/
  beforeAsked : List ResumeRequest := []
  /-- After that, and before the workflow is saved. -/
  beforeSave : List ResumeRequest := []
  /-- Afterwards. -/
  afterSave : List ResumeRequest := []

/-- Run the workflow, let go of it, and do something about the outcome. -/
def runThen (deal : Outcome → Bool → IdleReport → Host → Except HostError Unit × Host) (h : Host) :
    Except HostError Outcome × Host :=
  match h.useExecutor (fun e =>
    match e.run h.stepLimit with
    | (.error error, e) => (Except.error error, e)
    | (.ok outcome, e) =>
      let (requested, e) := e.takePersistRequest
      (Except.ok (outcome, requested, h.idleReport e), e)) with
  | .error error => (.error error, h)
  | .ok (.error error, h) => (.error (.engine error), h)
  | .ok (.ok (outcome, requested, report), h) =>
    let (result, h) := deal outcome requested report h
    match result with
    | .error error => (.error error, h)
    | .ok () => (.ok outcome, h)

/-- A run reports a completion, and deals with an idle workflow. -/
theorem run_eq_runThen (react : React) (h : Host) :
    h.run react = h.runThen fun outcome requested report h =>
      if outcome.isCompleted then h.reportCompletion react outcome
      else h.handleIdle react report requested :=
  rfl

/-- Deal with an idle workflow while other callers resume bookmarks. -/
def handleIdleAmid (react : React) (c : Callers) (report : IdleReport) (requested : Bool) (h : Host) :
    Except HostError Unit × Host :=
  let told := ((h.resumeEach c.beforeTold).tell react (.idle report)).2.resumeEach c.beforeAsked
  let (result, h) :=
    if told.application.owner.isNone ∨ 0 < report.outstanding then (.ok (), told.resumeEach c.beforeSave)
    else
      let (wanted, h) := choose react told report
      act react (h.resumeEach c.beforeSave) wanted requested
  (result, h.resumeEach c.afterSave)

/-- Run the workflow while other callers resume bookmarks as soon as they can. -/
def runAmid (react : React) (c : Callers) (h : Host) : Except HostError Outcome × Host :=
  h.runThen fun outcome requested report h =>
    if outcome.isCompleted then h.reportCompletion react outcome
    else h.handleIdleAmid react c report requested

/-- A run without other callers is a run. -/
theorem runAmid_alone (react : React) (h : Host) : h.runAmid react {} = h.run react := by
  have alone : ∀ report requested (m : Host),
      m.handleIdleAmid react {} report requested = m.handleIdle react report requested := by
    intro report requested m
    rw [handleIdle_eq, handleIdleAmid]
    rfl
  rw [run_eq_runThen, runAmid]
  simp only [alone]

/-- What the handlers want to be done with an idle workflow, or the configuration if they are not asked. -/
def wanted (h : Host) (i : IdleHandlers) (report : IdleReport) : IdleAction :=
  if .persistableIdle ∈ h.application.listening then i.answer report else h.application.config.idleAction

/-- What is resumed before an idle workflow is saved, in order. Nobody is asked about a workflow with
outstanding operations. -/
def early (h : Host) (i : IdleHandlers) (c : Callers) (report : IdleReport) : List ResumeRequest :=
  c.beforeTold ++ (if .idle ∈ h.application.listening then i.told report else []) ++ c.beforeAsked ++
    (if .persistableIdle ∈ h.application.listening ∧ report.outstanding = 0 then i.asked report else []) ++
    c.beforeSave

section Dealing

variable {i : IdleHandlers} {wanted : IdleAction} {requested : Bool}

theorem Holds.tell_idle (hd : i.Describes react) (hh : h.Holds e m) (report : IdleReport) :
    h.Holds (e.resumeEach (if .idle ∈ h.application.listening then i.told report else []))
      (m.tell react (.idle report)).2 := by
  have logged : SameSetting m (m.log (.notice (.idle report))) := {}
  rw [Host.tell, Notice.kind, hh.listening]
  split
  · exact ((hh.of_setting logged).resumeEach _).of_setting (hd.told report _)
  · exact hh

theorem Holds.choose (hd : i.Describes react) (hh : h.Holds e m) (report : IdleReport) :
    (choose react m report).1 = h.wanted i report ∧
      h.Holds (e.resumeEach (if .persistableIdle ∈ h.application.listening then i.asked report else []))
        (choose react m report).2 := by
  have logged : SameSetting m (m.log (.notice (.persistableIdle report))) := {}
  rw [Host.choose, Host.wanted, Host.tell, Notice.kind, hh.listening, hh.config]
  split
  · exact ⟨hd.answer report _, ((hh.of_setting logged).resumeEach _).of_setting (hd.asked report _)⟩
  · exact ⟨rfl, hh⟩

/-- While operations are outstanding, an idle workflow is left alone. -/
theorem Holds.handleIdleAmid_outstanding (hd : i.Describes react) (hh : h.Holds e m) (c : Callers)
    {report : IdleReport} (hn : 0 < report.outstanding) (requested : Bool) :
    (m.handleIdleAmid react c report requested).1 = .ok () ∧
      h.Holds (e.resumeEach (h.early i c report ++ c.afterSave))
        (m.handleIdleAmid react c report requested).2 := by
  have nobody : ¬ (NoticeKind.persistableIdle ∈ h.application.listening ∧ report.outstanding = 0) :=
    fun ha => Nat.ne_of_gt hn ha.2
  have told := ((hh.resumeEach c.beforeTold).tell_idle hd report).resumeEach c.beforeAsked
  have left := (told.resumeEach c.beforeSave).resumeEach c.afterSave
  rw [handleIdleAmid, early, if_neg nobody, List.append_nil]
  simp only [resumeEach_append, if_pos (Or.inr hn)]
  exact ⟨trivial, left⟩

/-- Else it is dealt with as is wanted, when all those have had their turn who come before the save. -/
theorem Holds.handleIdleAmid_free (hd : i.Describes react) (hh : h.Holds e m) (c : Callers)
    (ho : h.application.owner = some owner) {report : IdleReport} (hn : report.outstanding = 0)
    (requested : Bool) :
    ∃ n, h.Holds (e.resumeEach (h.early i c report)) n ∧
      m.handleIdleAmid react c report requested =
        ((act react n (h.wanted i report) requested).1,
          (act react n (h.wanted i report) requested).2.resumeEach c.afterSave) := by
  have told := ((hh.resumeEach c.beforeTold).tell_idle hd report).resumeEach c.beforeAsked
  obtain ⟨t, ht⟩ : ∃ t, t = ((m.resumeEach c.beforeTold).tell react (.idle report)).2.resumeEach
      c.beforeAsked := ⟨_, rfl⟩
  rw [← ht] at told
  obtain ⟨answer, asked⟩ := told.choose hd report
  have goes : ¬ (t.application.owner.isNone = true ∨ 0 < report.outstanding) := by
    rw [told.owner, ho, hn]
    simp
  refine ⟨(Host.choose react t report).2.resumeEach c.beforeSave, ?_, ?_⟩
  · have ready := asked.resumeEach c.beforeSave
    have everybody : (NoticeKind.persistableIdle ∈ h.application.listening ∧ report.outstanding = 0) ↔
        NoticeKind.persistableIdle ∈ h.application.listening := and_iff_left hn
    rw [early]
    simp only [resumeEach_append, everybody]
    exact ready
  · rw [handleIdleAmid, ← ht, ← answer]
    simp only [if_neg goes]

/-! ### Saves of what others have touched -/

/-- A workflow for which something is queued is not saved. -/
theorem Holds.save_refused (hh : h.Holds e m) (ho : h.application.owner = some owner)
    {error : PersistenceError} (he : e.ensureCapturable = .error error) (unlock : Bool) :
    (m.save unlock).1 = .error (.engine (.persistence error)) ∧ h.Holds e (m.save unlock).2 := by
  have saved := hh.has.save (hh.owner.trans ho) unlock
  obtain ⟨k, hk, same, named⟩ := hh.has
  have ready : SameCore e (m.ready k) := same.trans (sameCore_ready m k)
  have busy : (m.ready k).ensureCapturable = .error error := by
    rw [ensureCapturable, ready.state, ready.queue, ready.operations]
    exact he
  rw [save_eq (hh.owner.trans ho) hk, Executor.save_refused busy] at saved ⊢
  exact ⟨rfl, ⟨hh.owner, hh.config, hh.listening, hh.store, hh.surroundings⟩, saved⟩

/-- So whatever is wanted but keeping it, it fails, and all stays as it is. -/
theorem Holds.act_refused (hh : h.Holds e m) (ho : h.application.owner = some owner)
    {error : PersistenceError} (he : e.ensureCapturable = .error error)
    (hw : wanted ≠ .keep ∨ requested = true) :
    (act react m wanted requested).1 = .error (.engine (.persistence error)) ∧
      h.Holds e (act react m wanted requested).2 := by
  cases wanted with
  | unload =>
    have refused := hh.save_refused ho he true
    rw [act, Host.unload]
    split
    · next hs =>
      rw [hs] at refused
      exact refused
    · next hs =>
      rw [hs] at refused
      cases refused.1
  | persist => exact hh.save_refused ho he false
  | keep =>
    rw [act, if_pos (hw.resolve_left fun hk => hk rfl)]
    exact hh.save_refused ho he false

/-- A workflow that can be captured is saved. -/
theorem Holds.act_issues (hd : i.Describes react) (hh : h.Holds e m)
    (ho : h.application.owner = some owner) {image : Snapshot}
    (hc : e.capture h.surroundings.now = .ok image) (hw : wanted ≠ .keep ∨ requested = true) :
    h.Issues owner e (act react m wanted requested).1 (act react m wanted requested).2 := by
  have unloaded : ∀ (m : Host) w, m.application.executor = none →
      SameSetting m (m.tell react (.unloaded w)).2 := by
    intro m w hm
    rw [Host.tell]
    split
    · obtain ⟨application, store, surroundings⟩ := hd.unloaded w (m.log (.notice (.unloaded w))) hm
      exact ⟨application, store, surroundings⟩
    · exact .refl m
  obtain ⟨k, hk, same, named⟩ := hh.has
  have captured : k.capture m.surroundings.now = .ok image := by
    rw [hh.surroundings, same.capture named]
    exact hc
  have issues := Host.act_issues unloaded (hh.owner.trans ho) hk captured hw
  exact issues.congr hh.store hh.surroundings same named rfl

/-- Whatever is done with an idle workflow, it is the same as before unless it was unloaded. -/
theorem Holds.act_has (hd : i.Describes react) (hh : h.Holds e m)
    (ho : h.application.owner = some owner) (wanted : IdleAction) (requested : Bool) :
    (act react m wanted requested).2.Has e ∨
      wanted = .unload ∧ (act react m wanted requested).1 = .ok () ∧
        (act react m wanted requested).2.application.executor = none := by
  have saved := hh.has.save (hh.owner.trans ho)
  cases wanted with
  | unload =>
    have released := saved true
    rw [act, Host.unload]
    split
    · next hs =>
      rw [hs] at released
      exact .inl released
    · next n hs =>
      refine .inr ⟨rfl, rfl, ?_⟩
      dsimp only
      rw [Host.tell]
      split
      · rw [(hd.unloaded _ _ rfl).application]
        rfl
      · rfl
  | persist => exact .inl (saved false)
  | keep =>
    rw [act]
    split
    · exact .inl (saved false)
    · exact .inl hh.has

end Dealing

/-! ### Runs that end idle -/

/-- When a run has ended, something is done about its outcome. -/
theorem runThen_of_ok {e' : Executor} {o : Outcome}
    (deal : Outcome → Bool → IdleReport → Host → Except HostError Unit × Host)
    (he : h.application.executor = some e) (hr : (h.ready e).run h.stepLimit = (.ok o, e'))
    {done : Except HostError Unit × Host}
    (hd : done = deal o e'.persistRequested (h.idleReport e') (h.keep e'.takePersistRequest.2)) :
    h.runThen deal = (done.1.map fun _ => o, done.2) := by
  have taken : h.idleReport e'.takePersistRequest.2 = h.idleReport e' := rfl
  rw [runThen, useExecutor_some _ he, hr]
  dsimp only [Executor.takePersistRequest] at hd taken ⊢
  rw [taken, ← hd]
  obtain ⟨result, h'⟩ := done
  cases result <;> rfl

/-- What comes of a run that has ended idle with an executor, while handlers and other callers resume
bookmarks. -/
structure EndsAmid (h : Host) (i : IdleHandlers) (c : Callers) (owner : OwnerId) (e : Executor)
    (ran : Except HostError Outcome × Host) : Prop where
  /-- While operations are outstanding, nothing is sent to the store. -/
  outstanding : 0 < e.operations.size → ran.1 = .ok .idle ∧ ran.2.store = h.store
  /-- Nor is it if the workflow is to be kept and nothing was requested. -/
  unsaved : h.wanted i (h.idleReport e) = .keep → e.persistRequested = false →
    ran.1 = .ok .idle ∧ ran.2.store = h.store
  /-- Else the workflow that has run is saved, if no resumption was accepted before that. -/
  saved : e.operations.size = 0 → h.wanted i (h.idleReport e) ≠ .keep ∨ e.persistRequested = true →
    e.takes (h.early i c (h.idleReport e)) = [] →
    ∃ result, h.Issues owner e result ran.2 ∧ ran.1 = result.map fun _ => .idle
  /-- If one was, the save is refused, and nothing is sent to the store. -/
  refused : e.operations.size = 0 → h.wanted i (h.idleReport e) ≠ .keep ∨ e.persistRequested = true →
    e.takes (h.early i c (h.idleReport e)) ≠ [] →
    ran.1 = .error (.engine (.persistence (.notIdle
      (toString (e.takes (h.early i c (h.idleReport e))).length ++ " work items queued")))) ∧
    ran.2.store = h.store
  /-- In each case nothing happens to the workflow but the resumptions. -/
  left : ∀ k, ran.2.application.executor = some k →
    SameCore (e.resumeEach (h.early i c (h.idleReport e) ++ c.afterSave)) k
  /-- What was accepted is queued for the next run, in the order of the calls. -/
  queued : ∀ k, ran.2.application.executor = some k →
    k.queue.work = e.takes (h.early i c (h.idleReport e) ++ c.afterSave)
  /-- A workflow is gone from memory only if it was saved, and nothing was accepted before that. -/
  unloaded : ran.2.application.executor = none → e.operations.size = 0 ∧
    h.wanted i (h.idleReport e) = .unload ∧ e.takes (h.early i c (h.idleReport e)) = [] ∧
    ran.1 = .ok .idle

theorem store_resumeEach (hh : h.Has e ∨ h.application.executor = none) (rs : List ResumeRequest) :
    (h.resumeEach rs).store = h.store := by
  rcases hh with has | gone
  · have holds : h.Holds e h := ⟨{}, has⟩
    exact (holds.resumeEach rs).store
  · rw [resumeEach_unloaded gone]

/-- A host that has an executor, or none any more, after further resumptions. -/
theorem left_resumeEach (hh : h.Has e ∨ h.application.executor = none) (rs : List ResumeRequest)
    {k : Executor} (hk : (h.resumeEach rs).application.executor = some k) :
    SameCore (e.resumeEach rs) k := by
  rcases hh with has | gone
  · have holds : h.Holds e h := ⟨{}, has⟩
    obtain ⟨k', hk', same, -⟩ := (holds.resumeEach rs).has
    cases hk.symm.trans hk'
    exact same
  · rw [resumeEach_unloaded gone, gone] at hk
    cases hk

section Ending

variable {i : IdleHandlers} {c : Callers} {done : Except HostError Unit × Host}

/-- While operations are outstanding, a run ends well. -/
theorem Holds.endsAmid_outstanding (hd : i.Describes react) (hh : h.Holds e m) (hr : e.Resting)
    (hn : 0 < e.operations.size)
    (hdone : done = m.handleIdleAmid react c (h.idleReport e) e.persistRequested) :
    h.EndsAmid i c owner e (done.1.map fun _ => .idle, done.2) := by
  have counted : 0 < (h.idleReport e).outstanding := hn
  obtain ⟨ok, left⟩ := hh.handleIdleAmid_outstanding hd c counted e.persistRequested
  rw [← hdone] at ok left
  obtain ⟨k, hk, same, -⟩ := left.has
  have only {k' : Executor} (hk' : done.2.application.executor = some k') :
      SameCore (e.resumeEach (h.early i c (h.idleReport e) ++ c.afterSave)) k' := by
    cases hk.symm.trans hk'
    exact same
  have well : done.1.map (fun _ => Outcome.idle) = .ok .idle := by
    rw [ok]
    rfl
  have busy : e.operations.size ≠ 0 := Nat.ne_of_gt hn
  exact {
    outstanding := fun _ => ⟨well, left.store⟩
    unsaved := fun _ _ => ⟨well, left.store⟩
    saved := fun hfree => absurd hfree busy
    refused := fun hfree => absurd hfree busy
    left := fun _ => only
    queued := fun _ hk' => hr.work_of_resumed (only hk')
    unloaded := fun gone => absurd (gone.symm.trans hk) (Option.some_ne_none k).symm }

/-- Else it ends as the save does that is wanted, and a save is refused if anything was accepted. -/
theorem Holds.endsAmid_free (hd : i.Describes react) (hh : h.Holds e m) (hr : e.Resting)
    (ho : h.application.owner = some owner) (hn : e.operations.size = 0)
    (hdone : done = m.handleIdleAmid react c (h.idleReport e) e.persistRequested) :
    h.EndsAmid i c owner e (done.1.map fun _ => .idle, done.2) := by
  have counted : (h.idleReport e).outstanding = 0 := hn
  obtain ⟨n, ready, acts⟩ := hh.handleIdleAmid_free hd c ho counted e.persistRequested
  have after := ready.act_has hd ho (h.wanted i (h.idleReport e)) e.persistRequested
  obtain ⟨acted, hacted⟩ : ∃ acted,
      acted = act react n (h.wanted i (h.idleReport e)) e.persistRequested := ⟨_, rfl⟩
  rw [← hacted] at acts after
  rw [← hdone] at acts
  have remains := after.imp_right fun gone => gone.2.2
  have stored : done.2.store = acted.2.store := by
    rw [acts]
    exact store_resumeEach remains _
  have left (k : Executor) (hk : done.2.application.executor = some k) :
      SameCore (e.resumeEach (h.early i c (h.idleReport e) ++ c.afterSave)) k := by
    rw [acts] at hk
    rw [resumeEach_append]
    exact left_resumeEach remains _ hk
  have refused (hw : h.wanted i (h.idleReport e) ≠ .keep ∨ e.persistRequested = true)
      (hn : e.takes (h.early i c (h.idleReport e)) ≠ []) :
      acted.1 = .error (.engine (.persistence (.notIdle
        (toString (e.takes (h.early i c (h.idleReport e))).length ++ " work items queued")))) ∧
      acted.2.store = h.store := by
    obtain ⟨error, same⟩ := ready.act_refused ho (hr.busy_of_takes hn) hw
    exact hacted ▸ ⟨error, same.store⟩
  refine ⟨fun hout => absurd hn (Nat.ne_of_gt hout), fun hk hq => ?unsaved, fun free hw hn => ?saved,
    fun _ hw hn => ?refused, left, fun k hk => hr.work_of_resumed (left k hk), fun gone => ?unloaded⟩
  case unsaved =>
    rw [hk, hq, act, if_neg Bool.false_ne_true] at hacted
    rw [stored, acts, hacted]
    exact ⟨rfl, ready.store⟩
  case saved =>
    rw [resumeEach_of_takes_eq_nil hn] at ready
    obtain ⟨image, captured⟩ := hr.captured free h.surroundings.now
    have issues := ready.act_issues hd ho captured hw
    rw [← hacted] at issues
    refine ⟨acted.1, issues.congr rfl rfl (.refl e) rfl stored, ?_⟩
    rw [acts]
  case refused =>
    obtain ⟨error, same⟩ := refused hw hn
    rw [stored, acts, error]
    exact ⟨rfl, same⟩
  case unloaded =>
    rcases after with has | ⟨hw, ok, -⟩
    · -- The workflow would still be in memory.
      have held : acted.2.Holds _ acted.2 := ⟨{}, has⟩
      obtain ⟨k, hk, -⟩ := (held.resumeEach c.afterSave).has
      rw [acts, hk] at gone
      cases gone
    · refine ⟨hn, hw, by_contra fun taken => ?_, ?_⟩
      · have failed := (refused (.inl (hw ▸ IdleAction.noConfusion)) taken).1
        cases ok.symm.trans failed
      · rw [acts, ok]
        rfl

end Ending

/-- Handlers and other callers may resume bookmarks of an idle workflow at any time after its run. What
is accepted stays queued for the next run. A save that follows is refused then, so that the run fails
because the workflow is not idle; the run ends well, or as the store has it, if nothing is to be saved
or nothing was accepted before the save. -/
theorem idle_run_amid_resumptions {e' : Executor} {i : IdleHandlers} (hd : i.Describes react)
    (c : Callers) (ho : h.application.owner = some owner) (he : h.application.executor = some e)
    (hr : e.Reachable) (run : (h.ready e).run h.stepLimit = (.ok .idle, e')) :
    h.EndsAmid i c owner e' (h.runAmid react c) := by
  have resting : e'.Resting := (regular_ready hr.regular).resting_of_run run
  have holds : h.Holds e' (h.keep e'.takePersistRequest.2) := by
    have same : SameCore e' e'.takePersistRequest.2 := {}
    exact ⟨{}, has_keep h same rfl⟩
  obtain ⟨done, hdone⟩ : ∃ done, done = (h.keep e'.takePersistRequest.2).handleIdleAmid react c
      (h.idleReport e') e'.persistRequested := ⟨_, rfl⟩
  have ran : h.runAmid react c = (done.1.map fun _ => .idle, done.2) := runThen_of_ok _ he run hdone
  rw [ran]
  rcases Nat.eq_zero_or_pos e'.operations.size with hfree | hout
  · exact holds.endsAmid_free hd resting ho hfree hdone
  · exact holds.endsAmid_outstanding hd resting hout hdone

/-! ### A host that resumes at once -/

/-- Handlers that resume the bookmark of a waiting workflow as soon as they are told of it. -/
def eager : IdleHandlers where
  told _ := [(⟨.default, "wait"⟩, .null)]
  asked _ := []
  answer _ := .keep

/-- The reaction of these handlers. -/
def resumingAtOnce : React
  | .idle report, h => (none, h.resumeEach (eager.told report))
  | _, h => (none, h)

theorem eager_describes : eager.Describes resumingAtOnce where
  told _ _ := .refl _
  asked _ h := .refl h
  answer _ _ := rfl
  unloaded _ h _ := .refl h

/-- A host that saves whenever its workflow is idle, and is told of that before. -/
def eagerHost : Host where
  application :=
    { id := ⟨.ofNat 1⟩, definition := (Activity.saver "wait").prepare
      executor := some saving, owner := some keeper
      config := { idleAction := .persist }, listening := [.idle] }
  store := .memory {}
  surroundings := ⟨⟨0, 0⟩, .ofNat 9⟩
  stepLimit := 5

/-- Its first run ends idle, and the resumption that is accepted makes the save fail. -/
theorem idle_run_amid_resumptions_eager :
    ∃ e', (eagerHost.ready saving).run eagerHost.stepLimit = (.ok .idle, e') ∧
      eagerHost.EndsAmid eager {} keeper e' (eagerHost.runAmid resumingAtOnce {}) ∧
      (eagerHost.runAmid resumingAtOnce {}).1 =
        .error (.engine (.persistence (.notIdle "1 work items queued"))) := by
  have ends : (eagerHost.ready saving).run eagerHost.stepLimit =
      (.ok .idle, ((eagerHost.ready saving).run eagerHost.stepLimit).2) :=
    Executor.run_eq_idle (by decide +kernel)
  have free : ((eagerHost.ready saving).run eagerHost.stepLimit).2.operations.size = 0 := by
    decide +kernel
  have one : (((eagerHost.ready saving).run eagerHost.stepLimit).2.takes
      (eagerHost.early eager {} (eagerHost.idleReport
        ((eagerHost.ready saving).run eagerHost.stepLimit).2))).length = 1 := by
    decide +kernel
  have amid := idle_run_amid_resumptions eager_describes {} rfl rfl (.begun rfl rfl) ends
  obtain ⟨failed, -⟩ := amid.refused free (.inl IdleAction.noConfusion) fun hn => by
    rw [hn] at one
    cases one
  rw [one] at failed
  exact ⟨_, ends, amid, failed⟩

/-- So it is not so that such a run always ends well or as the store has it. -/
theorem not_idle_or_store_error :
    ¬ ∀ (h : Host) (react : React) (i : IdleHandlers) (c : Callers) (owner : OwnerId) (e e' : Executor),
      i.Describes react → h.application.owner = some owner → h.application.executor = some e →
      e.Reachable → (h.ready e).run h.stepLimit = (.ok .idle, e') →
      (h.runAmid react c).1 = .ok .idle ∨
        ∃ error, (h.runAmid react c).1 = .error (.engine (.store error)) := by
  intro claim
  have ends : (eagerHost.ready saving).run eagerHost.stepLimit =
      (.ok .idle, ((eagerHost.ready saving).run eagerHost.stepLimit).2) :=
    Executor.run_eq_idle (by decide +kernel)
  have fails : ((eagerHost.runAmid resumingAtOnce {}).1.map fun _ => ()) =
      .error (.engine (.persistence (.notIdle "1 work items queued"))) := by
    decide +kernel
  rcases claim eagerHost resumingAtOnce eager {} keeper saving _ eager_describes rfl rfl
    (.begun rfl rfl) ends with ok | ⟨error, stored⟩
  · rw [ok] at fails
    cases fails
  · rw [stored] at fails
    cases fails

end Host

end Workflow
