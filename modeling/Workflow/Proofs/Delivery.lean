import Workflow.Proofs.CompletionReport
import Workflow.Proofs.DeliveryOrder
import Workflow.Proofs.Modesty

/-!
# Resumptions are delivered once

A resumption that succeeds is queued as one item under a number of its own. The item is taken once, and
then the value is passed to the owner of the bookmark, or it stays queued, or the workflow is over.
While it is queued the workflow cannot be saved.
-/

namespace Workflow

namespace Event

/-- The resumption that is asked for, and its answer. -/
def resumes? : Event → Option (Bookmark × Value × Priority × Resumption)
  | served (.resumeBookmark b v p) answer => some (b, v, p, answer)
  | asked _ (.scheduling (.resume b v)) answer => some (b, v, .normal, answer)
  | _ => none

/-- The bookmark that an activity has created. -/
def creates? : Event → Option Bookmark
  | asked _ (.scheduling (.createBookmark _ _ _ _)) answer => Except.toOption answer
  | _ => none

end Event

open Moment

variable {m m' : Moment} {ev : Event} {evs : List Event} {b : Bookmark} {g : Registration} {v : Value}
variable {p : Priority} {r : Resumption} {x : QueuedItem} {e : Executor}

/-- Hosts and activities resume bookmarks in the same way. -/
theorem Goes.resumeBookmark (h : Goes m ev m') (hr : ev.resumes? = some (b, v, p, r)) :
    m.executor.resumeBookmark b v p = (r, m'.executor) := by
  cases h with
  | @served e c hc =>
    cases c with
    | resumeBookmark => cases hr; rfl
    | _ => cases hr
  | @answered r e q rest =>
    cases r
    cases q with
    | scheduling q =>
      cases q with
      | resume => cases hr; rfl
      | _ => cases hr
    | _ => cases hr
  | _ => cases hr

/-! ### Registrations -/

/-- A call of the host registers no bookmark. -/
theorem Executor.Sheds.serve {c : ExecutorCall} (hc : c.isSingle = true) : Sheds e (c.serve e).2 := by
  cases c with
  | run | runOneStep | takeJournal => exact absurd hc Bool.false_ne_true
  | resumeBookmark b v p => exact .resumeBookmark b v p
  | cancel =>
    change Sheds e e.cancelWorkflow.2
    rcases e.cancelWorkflow_cases with same | asked | concludes
    · exact same.symm ▸ .refl e
    · exact asked.symm ▸ .of_eq rfl
    · have announced : Sheds e e.announce := .of_sameCore sameCore_announce
      exact announced.trans concludes.sheds
  | terminate reason =>
    change Sheds e (e.terminate reason).2
    unfold Executor.terminate
    split
    · exact .refl e
    · exact .propagate _ _
  | abort reason =>
    change Sheds e (e.abort reason)
    unfold Executor.abort
    split
    · exact .refl e
    · intro b g hg
      simp [trackLifecycle, track] at hg
  | complete operation result =>
    rw [ExecutorCall.serve, completeHandle_own]
    exact .of_eq rfl
  | _ => exact .of_eq rfl

namespace Executor

/-- A bookmark that is new after a request for it was not registered and is the owner's. -/
theorem createBookmark_cases {new : Registration}
    (hg : (e.createBookmark new).2.bookmarks.registrations[b]? = some g) :
    e.bookmarks.registrations[b]? = some g ∨
      (e.bookmarks.registrations[b]? = none ∧ g = new ∧ (e.createBookmark new).1 = .ok b) := by
  unfold createBookmark at hg ⊢
  by_cases hl : e.isLive new.owner = true
  · rw [if_pos hl] at hg ⊢
    cases hr : e.bookmarks.register new with
    | error error =>
      rw [hr] at hg
      exact .inl hg
    | ok result =>
      obtain ⟨o, registry⟩ := result
      rw [hr] at hg
      have registered : registry.registrations[b]? = some g := by
        dsimp only at hg
        split at hg <;> exact hg
      obtain ⟨-, rfl⟩ | ⟨-, -, hn, rfl⟩ := Registry.register_ok hr
      · exact .inl registered
      · rw [Table.lookup_insert] at registered
        split at registered
        · next hb =>
          cases registered
          refine .inr ⟨hb ▸ hn, rfl, ?_⟩
          dsimp only
          split <;> exact congrArg Except.ok hb
        · exact .inl registered
  · rw [if_neg hl] at hg
    exact .inl hg

/-- When work ends, only the state changes. -/
theorem settle_keeps (e : Executor) : e.settle.2.bookmarks = e.bookmarks ∧
    e.settle.2.queue = e.queue ∧ e.settle.2.outcome = e.outcome := by
  unfold settle
  split
  · exact ⟨rfl, rfl, rfl⟩
  · split <;> exact ⟨rfl, rfl, rfl⟩

/-- No answer registers a bookmark but that to a request for one. -/
theorem registered_answer {k : BodyKind} {x : InstanceId} (q : Request k)
    (hg : (e.answer x q).2.bookmarks.registrations[b]? = some g) :
    e.bookmarks.registrations[b]? = some g ∨
      (e.bookmarks.registrations[b]? = none ∧ k = .native ∧ g.owner = x ∧
        Event.creates? (.asked x q (e.answer x q).1) = some b) := by
  cases q with
  | context q => exact .inl ((Abates.answerContext q).bookmarks b g hg)
  | cancellation q => exact .inl (Sheds.answerCancellation q b g hg)
  | operation q => exact .inl ((sameCore_answerOperation q).bookmarks ▸ hg)
  | scheduling q =>
    by_cases hq : ∃ name scope callback options, q = .createBookmark name scope callback options
    · obtain ⟨name, scope, callback, options, rfl⟩ := hq
      refine (createBookmark_cases hg).imp_right fun ⟨hn, new, created⟩ => ?_
      exact ⟨hn, rfl, new ▸ rfl, congrArg Except.toOption created⟩
    · refine .inl (Sheds.answerScheduling q (fun name scope callback options he => ?_) b g hg)
      exact hq ⟨name, scope, callback, options, he⟩

end Executor

/-- A bookmark that is new at a moment was not registered, and an activity has created it. -/
theorem Goes.registration (h : Goes m ev m') (sound : m.Sound)
    (hg : m'.executor.bookmarks.registrations[b]? = some g) :
    m.executor.bookmarks.registrations[b]? = some g ∨
      (m.executor.bookmarks.registrations[b]? = none ∧ ev.creates? = some b ∧
        ∃ r e rest, m = during r e rest ∧ r.kind = .native ∧ g.owner = r.id) := by
  cases h with
  | announced e => exact .inl (Executor.Sheds.of_sameCore Executor.sameCore_announce b g hg)
  | entered | collected | hosted | altered => exact .inl hg
  | @settled e =>
    exact .inl (e.settle_keeps.1 ▸ hg)
  | gathered e => exact .inl hg
  | served hc => exact .inl (Executor.Sheds.serve hc b g hg)
  | passed ho ha hi hn hr => exact .inl ((Executor.Concludes.dispatch hr).sheds b g hg)
  | opened ho ha hi hn hr =>
    exact .inl ((Executor.sends_of_errand hr).before.bookmarks ▸ hg)
  | @answered r e q rest =>
    refine (Executor.registered_answer q hg).imp_right fun ⟨hn, native, owner, created⟩ => ?_
    exact ⟨hn, created, r, e, _, rfl, native, owner⟩
  | @closed r e a =>
    obtain ⟨_, _, _, pending⟩ := sound
    exact .inl (((Executor.sends_of_errand pending.errand).after a e).sheds b g hg)
  | @crashed r e c =>
    exact .inl ((Executor.Concludes.raises (.refl e) r.id c.toError).sheds b g hg)

/-! ### Owners that run native activities -/

/-- Whoever owns a bookmark at a moment runs a native activity, and so does the instance of a native
program. -/
structure Moment.Fit (m : Moment) : Prop where
  owner : ∀ {b : Bookmark} {g : Registration}, m.executor.bookmarks.registrations[b]? = some g →
    m.executor.IsNative g.owner
  performer : ∀ {r : Errand} {e : Executor} {rest : Program r.kind r.Result}, m = during r e rest →
    r.kind = .native → e.IsNative r.id

/-- The instance that performs a native program runs a native activity. -/
theorem Executor.Sends.native {w : WorkItem} {r : Errand} (h : e.Sends w r) (hk : r.kind = .native) :
    ∃ body, r.before.nativeBody? r.id = some body := by
  have same {e e' : Executor} {x : InstanceId} {body : NativeBody} (hs : SameCore e e')
      (hb : e.behaviour? x = some (.native body)) : e'.nativeBody? x = some body := by
    have still : e'.behaviour? x = e.behaviour? x := by
      rw [behaviour?, behaviour?, instance?, instance?, hs.instances, hs.definition]
    rw [nativeBody?, still, hb]
  cases h with
  | @execute x i b hi hb hx hs =>
    cases b with
    | native body => exact ⟨body, same (sameCore_trackState x .executing) hb⟩
    | code _ | async _ => cases hk
  | completion hi hl ht hb => exact ⟨_, hb⟩
  | fault hl hb => exact ⟨_, hb⟩
  | @cancel x i b r hi hb hl hc hx hr =>
    cases b with
    | code program => cases hr
    | native body =>
      cases hr
      refine ⟨body, same (.refl _) (behaviour?_canceling hb)⟩
    | async body =>
      cases hr
      cases hk
  | bookmark hl hb => exact ⟨_, hb⟩
  | operation => cases hk

theorem Goes.fit (h : Goes m ev m') (sound : m.Sound) (fit : m.Fit) : m'.Fit := by
  have abides := (h.ensues sound).abides
  refine ⟨fun {b g} hg => ?_, fun {r e rest} hm hk => ?_⟩
  · rcases h.registration sound hg with old | ⟨-, -, r, e, rest, hm, native, owner⟩
    · exact abides.isNative (fit.owner old)
    · have performs := fit.performer hm native
      rw [← owner] at performs
      subst hm
      exact abides.isNative performs
  · have later := h.sound sound
    cases h with
    | opened ho ha hi hn hr =>
      cases hm
      obtain ⟨body, hb⟩ := (Executor.sends_of_errand hr).native hk
      have below {i : Instance} (hi : r.called.instances[r.id]? = some i) := (later.tree hi).below hi
      exact .of_nativeBody below hb
    | answered =>
      cases hm
      exact abides.isNative (fit.performer rfl hk)
    | _ => cases hm

/-- In a run of one definition every owner of a bookmark runs a native activity. -/
theorem Journey.fit (t : Journey m evs m') (sound : m.Sound) (fit : m.Fit) : m'.Fit := by
  induction t with
  | refl => exact fit
  | step g _ ih => exact ih (g.sound sound) (g.fit sound fit)

theorem Executor.RunOf.fit {a : Activity} (h : RunOf a e) : (between e).Fit :=
  ⟨h.suited.owner, nofun⟩

/-! ### One item for each resumption -/

/-- The items of a list that arrived under a number. -/
def arrivedAs (n : Nat) (l : List QueuedItem) : List QueuedItem :=
  l.filter fun a => decide (a.arrival = n)

theorem arrivedAs_append (n : Nat) (l r : List QueuedItem) :
    arrivedAs n (l ++ r) = arrivedAs n l ++ arrivedAs n r :=
  List.filter_append ..

/-- Whatever arrived under a number arrived before the greater ones. -/
theorem arrivedAs_before {n k : Nat} (h : n < k) (l : List QueuedItem) :
    arrivedAs n (before k l) = arrivedAs n l := by
  unfold arrivedAs before
  rw [List.filter_filter]
  refine List.filter_congr fun a _ => ?_
  by_cases ha : a.arrival = n
  · have earlier : a.arrival < k := by omega
    simp [ha, h]
  · simp [ha]

/-- An item arrives under a number of its own. -/
theorem WorkQueue.arrivedAs_push (q : WorkQueue) (w : WorkItem) (p : Priority) :
    arrivedAs q.nextArrival (q.push w p).items = [⟨p, q.nextArrival, w⟩] := by
  have others : arrivedAs q.nextArrival q.items = [] :=
    List.filter_eq_nil_iff.mpr fun a ha => by
      have earlier := q.numbered a ha
      simp only [decide_eq_true_eq]
      omega
  have among := (insert_perm ⟨p, q.nextArrival, w⟩ q.items).filter
    fun a => decide (a.arrival = q.nextArrival)
  have own : arrivedAs q.nextArrival (⟨p, q.nextArrival, w⟩ :: q.items) =
      ⟨p, q.nextArrival, w⟩ :: arrivedAs q.nextArrival q.items :=
    List.filter_cons_of_pos (decide_eq_true rfl)
  exact List.perm_singleton.mp (among.trans (.of_eq (own.trans (congrArg _ others))))

/-- An item that arrived under a number of its own is taken once, or it stays queued or the workflow is
over. -/
theorem Journey.taken_once {n : Nat} (t : Journey m evs m') (h : m.Sound)
    (hx : arrivedAs n m.items = [x]) (hn : n < m.next) :
    (arrivedAs n (takings evs) = [x] ∧ arrivedAs n m'.items = []) ∨
      (arrivedAs n (takings evs) = [] ∧ (arrivedAs n m'.items = [x] ∨ m'.IsOver)) := by
  have kept := t.succession h (Nat.le_refl _)
  rw [before_items] at kept
  rcases kept with items | ⟨ended, ⟨rest, items⟩, none_left⟩
  · have split := congrArg (arrivedAs n) items
    rw [hx, arrivedAs_append, arrivedAs_before hn, arrivedAs_before hn] at split
    rcases List.append_eq_singleton_iff.mp split.symm with ⟨taken, waits⟩ | ⟨taken, waits⟩
    · exact .inr ⟨taken, .inl waits⟩
    · exact .inl ⟨taken, waits⟩
  · have split := congrArg (arrivedAs n) items
    rw [hx, arrivedAs_append, arrivedAs_before hn] at split
    rcases List.append_eq_singleton_iff.mp split with ⟨taken, -⟩ | ⟨taken, -⟩
    · exact .inr ⟨taken, .inr ended⟩
    · refine .inl ⟨taken, ?_⟩
      rw [← arrivedAs_before hn, none_left]
      rfl

/-! ### Runs -/

namespace Executor

/-- A run that ends leaves nothing queued, or the workflow is over. -/
theorem Regular.run_ends (h : e.Regular) {limit : Nat} {o : Outcome} (hr : (e.run limit).1 = .ok o) :
    (e.run limit).2.IsOver ∨ (e.run limit).2.queue.items = [] := by
  have ran := e.ran limit
  generalize e.run limit = result at ran hr ⊢
  cases ran with
  | refused | unsettled => cases hr
  | ended ha ho => exact .inl (.inl (by rw [ho]; exact Option.some_ne_none _))
  | @settled m n o ha ho hd hs =>
    obtain ⟨-, nothing⟩ := drainQueue_proper (.inl (h.enter ho ha)) hd
    obtain ⟨-, queue, outcome⟩ := m.settle_keeps
    rw [hs] at queue outcome
    by_cases open_ : m.outcome = none
    · refine .inr ?_
      dsimp only at queue ⊢
      rw [queue]
      exact List.map_eq_nil_iff.mp (nothing open_)
    · exact .inl (.inl (outcome ▸ open_))

/-! ### Saves -/

/-- A save is a journey on which nothing is taken, whether it succeeds or not. -/
theorem journey_save (e : Executor) (store : Store) (s : Surroundings) (owner : OwnerId)
    (unlock : Bool) : ∃ evs, Journey (between e) evs (between (e.save store s owner unlock).2.1) ∧
      takings evs = [] := by
  have reports (event : TrackingEvent) (e : Executor) :
      Goes (between e) (.served (.track event) ()) (between (e.track event)) :=
    .served (c := .track event) rfl
  unfold save
  split
  · exact ⟨[], .refl _, rfl⟩
  · dsimp only
    split
    · exact ⟨[], .refl _, rfl⟩
    · have requested : Goes (between e) (.served .takePersistRequest e.persistRequested)
          (between { e with persistRequested := false }) := .served (c := .takePersistRequest) rfl
      have saved := Journey.step requested (.single (reports (.lifecycle .persisted) _))
      cases unlock with
      | false => exact ⟨_, saved, rfl⟩
      | true => exact ⟨_, saved.trans (.single (reports (.lifecycle .unloaded) _)), rfl⟩

/-- A workflow cannot be saved: whoever tries is refused, and nothing changes. -/
structure Unsavable (e : Executor) : Prop where
  capture : ∀ now, ∃ error, e.capture now = .error error
  save : ∀ (store : Store) (s : Surroundings) (owner : OwnerId) (unlock : Bool),
    ∃ error, e.save store s owner unlock = (.error (.persistence error), e, store)
  /-- A host that persists it keeps it as it is. -/
  persist : ∀ h : Host, h.application.executor = some e →
    (∃ error, h.persist.1 = .error error) ∧ h.persist.2.Has e
  /-- A host that unloads it keeps it as it is. -/
  unload : ∀ (h : Host) (react : Host.React), h.application.executor = some e →
    (∃ error, (h.unload react).1 = .error error) ∧ (h.unload react).2.Has e

/-- While something is queued the workflow cannot be saved. -/
theorem unsavable_of_queued (hx : x ∈ e.queue.items) : e.Unsavable := by
  have refused : ∃ error, e.ensureCapturable = .error error := by
    have busy : e.queue.isEmpty = false :=
      List.isEmpty_eq_false_iff.mpr (List.ne_nil_of_mem hx)
    unfold ensureCapturable
    split
    · exact ⟨_, rfl⟩
    · exact ⟨_, by rw [busy]; rfl⟩
  have capture (e : Executor) (hq : ∃ error, e.ensureCapturable = .error error) (now : Timestamp) :
      ∃ error, e.capture now = .error error := by
    obtain ⟨error, refused⟩ := hq
    exact ⟨error, by rw [Executor.capture, refused]; rfl⟩
  have save (e : Executor) (hq : ∃ error, e.ensureCapturable = .error error) (store : Store)
      (s : Surroundings) (owner : OwnerId) (unlock : Bool) :
      ∃ error, e.save store s owner unlock = (.error (.persistence error), e, store) := by
    obtain ⟨error, failed⟩ := capture e hq s.now
    exact ⟨error, by rw [Executor.save, failed]⟩
  have host (h : Host) (he : h.application.executor = some e) (unlock : Bool) :
      (∃ error, (h.save unlock).1 = .error error) ∧ (h.save unlock).2.Has e := by
    have has : h.Has e := ⟨e, he, .refl e, rfl⟩
    cases ho : h.application.owner with
    | none =>
      rw [Host.save, ho]
      exact ⟨⟨_, rfl⟩, has⟩
    | some owner =>
      refine ⟨?_, has.save ho unlock⟩
      obtain ⟨error, failed⟩ := save (h.ready e) refused h.store h.surroundings owner unlock
      rw [Host.save_eq ho he, failed]
      exact ⟨_, rfl⟩
  refine ⟨capture e refused, save e refused, fun h he => host h he false, fun h react he => ?_⟩
  obtain ⟨⟨error, failed⟩, has⟩ := host h he true
  unfold Host.unload
  generalize h.save true = saved at failed has
  obtain ⟨answer, h'⟩ := saved
  cases failed
  exact ⟨⟨error, rfl⟩, has⟩

end Executor

/-! ### Resumptions that succeed -/

/-- A bookmark that has come to be registered along a journey was created by an activity. -/
theorem Journey.registration (t : Journey m evs m') (sound : m.Sound)
    (hn : m.executor.bookmarks.resolve? b = none) (hg : m'.executor.bookmarks.resolve? b = some g) :
    ∃ pre ev post n n', evs = pre ++ ev :: post ∧ Journey m pre n ∧ Goes n ev n' ∧
      ev.creates? = some b ∧ n.executor.bookmarks.resolve? b = none := by
  induction t with
  | refl => exact absurd (hg.symm.trans hn) (Option.some_ne_none g)
  | @step m m₁ m' ev evs h t ih =>
    cases hb : m₁.executor.bookmarks.resolve? b with
    | none =>
      obtain ⟨pre, ev', post, n, n', rfl, t', h', created, free⟩ := ih (h.sound sound) hb hg
      exact ⟨ev :: pre, ev', post, n, n', rfl, .step h t', h', created, free⟩
    | some g' =>
      rcases h.registration sound hb with old | ⟨-, created, -⟩
      · exact absurd (old.symm.trans hn) (Option.some_ne_none g')
      · exact ⟨[], ev, evs, m, m₁, rfl, .refl m, h, created, hn⟩

/-- What follows when a resumption has led from one moment to the next and is queued as an item. -/
structure Delivers (m m' : Moment) (x : QueuedItem) (b : Bookmark) (g : Registration) (v : Value) :
    Prop where
  /-- The item is queued under a number of its own. -/
  queued : arrivedAs x.arrival m'.items = [x]
  /-- It is taken once, or it stays queued, or the workflow is over before its turn. -/
  taken : ∀ {evs : List Event} {n : Moment}, Journey m' evs n →
    (arrivedAs x.arrival (takings evs) = [x] ∧ arrivedAs x.arrival n.items = []) ∨
      (arrivedAs x.arrival (takings evs) = [] ∧ (arrivedAs x.arrival n.items = [x] ∨ n.IsOver))
  /-- When it is taken, the owner of the bookmark is called once with the bookmark and the value, if
  there is a callback and the owner is live and runs a native activity. -/
  called : ∀ {evs : List Event} {n n' : Moment} {y : QueuedItem} {call : Option Call},
    Journey m' evs n → Goes n (.took y call) n' → y.arrival = x.arrival → y = x ∧
      call = if n.executor.receives g.owner then
        g.callback.map fun tag => (g.owner, .bookmarkResumed tag b v) else none
  /-- In a run of one definition it does as long as it is live. -/
  native : ∀ {a : Activity} {e : Executor} {pre evs : List Event} {n : Moment}, Executor.RunOf a e →
    Journey (between e) pre m → Journey m' evs n →
    n.executor.receives g.owner = n.executor.isLive g.owner
  /-- The run that goes on, or a later one, has taken it when it ends, or the workflow is over. -/
  ends : ∀ {e : Executor} {limit : Nat} {o : Outcome} {evs : List Event}, (between e).Occurs →
    (e.run limit).1 = .ok o → Journey m' evs (between (e.run limit).2) →
    arrivedAs x.arrival (takings evs) = [x] ∨ (e.run limit).2.IsOver
  /-- Runs go on from there. -/
  runs : ∀ {evs : List Event} {e : Executor}, Journey m' evs (between e) → ∀ limit : Nat,
    ∃ later, Journey m' (evs ++ later) (between (e.run limit).2)
  /-- A bookmark for one resumption is resumed again only when it has been created again. -/
  once : g.options.multipleResume = false → ∀ {evs : List Event} {ev : Event} {n n' : Moment}
    {v' : Value} {p' : Priority}, Journey m' evs n → Goes n ev n' →
    ev.resumes? = some (b, v', p', .success) →
    ∃ pre ev' post k k', evs = pre ++ ev' :: post ∧ Journey m' pre k ∧ Goes k ev' k' ∧
      ev'.creates? = some b ∧ k.executor.bookmarks.resolve? b = none
  /-- While the item is queued the workflow cannot be saved. -/
  kept : ∀ {evs : List Event} {e : Executor}, Journey m' evs (between e) → x ∈ e.queue.items →
    e.Unsavable
  /-- Saves go on from there and take nothing. -/
  saves : ∀ {evs : List Event} {e : Executor}, Journey m' evs (between e) →
    ∀ (store : Store) (s : Surroundings) (owner : OwnerId) (unlock : Bool),
      ∃ later, Journey m' (evs ++ later) (between (e.save store s owner unlock).2.1) ∧
        takings later = []

/-- What is answered to a resumption, and what follows. -/
structure Resumes (m : Moment) (b : Bookmark) (v : Value) (p : Priority) (r : Resumption)
    (m' : Moment) : Prop where
  notReady : r = .notReady ↔ m.executor.state = .aborted
  notFound : r = .notFound ↔ m.executor.state ≠ .aborted ∧ m.executor.bookmarks.resolve? b = none
  refused : r ≠ .success → m'.executor = m.executor
  accepted : r = .success → ∃ g, m.executor.bookmarks.resolve? b = some g ∧
    Delivers m m' ⟨p, m.next, Executor.resumption b g v⟩ b g v

/-- A resumption that is accepted is delivered once. -/
theorem Goes.delivers (h : Goes m ev m') (sound : m.Sound)
    (hg : m.executor.bookmarks.resolve? b = some g)
    (bookmarks : m'.executor.bookmarks = m.executor.resumedRegistry b g)
    (queue : m'.executor.queue = m.executor.queue.push (Executor.resumption b g v) p) :
    Delivers m m' ⟨p, m.next, Executor.resumption b g v⟩ b g v := by
  have sound' := h.sound sound
  have queued : arrivedAs m.next m'.items = [⟨p, m.next, Executor.resumption b g v⟩] :=
    (congrArg (fun q => arrivedAs m.next q.items) queue).trans (WorkQueue.arrivedAs_push ..)
  have next : m.next < m'.next := by
    have later : m'.next = m.next + 1 := congrArg WorkQueue.nextArrival queue
    omega
  have taken {evs : List Event} {n : Moment} (t : Journey m' evs n) := t.taken_once sound' queued next
  refine ⟨queued, taken, fun {evs n n' y call} t h' hy => ?_, fun run pre t => ?_,
    fun occurs hr t => ?_, fun t limit => ?_, fun single {evs ev n n' v' p'} t h' hr => ?_,
    fun t hx => Executor.unsavable_of_queued hx, fun {evs e} t store s owner unlock => ?_⟩
  · have mem : y ∈ takings (evs ++ [.took y call]) := by
      rw [takings_append]
      exact List.mem_append_right _ List.mem_cons_self
    have among : y ∈ arrivedAs m.next m'.items :=
      List.mem_filter.mpr ⟨(t.trans (.single h')).mem_items sound' mem (hy ▸ next), decide_eq_true hy⟩
    rw [queued, List.mem_singleton] at among
    subst among
    refine ⟨rfl, (h'.resumption rfl).trans ?_⟩
    have call : Executor.resumptionCall? (Executor.resumption b g v) =
        g.callback.map fun tag => (g.owner, .bookmarkResumed tag b v) := by
      unfold Executor.resumption
      cases g.callback <;> rfl
    rw [call]
  · have owner := (pre.fit run.reachable.sound run.fit).owner hg
    exact Executor.receives_eq ((Journey.step h t).abides sound |>.isNative owner)
  · rcases taken t with ⟨done, -⟩ | ⟨-, waits | ended⟩
    · exact .inl done
    · rcases occurs.sound.regular.run_ends hr with ended | nothing
      · exact .inr ended
      · rw [Moment.items, executor, nothing] at waits
        cases waits
    · exact .inr ended
  · obtain ⟨later, t', -⟩ := (t.sound sound').regular.stretch_run limit
    exact ⟨later, t.trans t'⟩
  · have gone : m'.executor.bookmarks.resolve? b = none := by
      rw [bookmarks, Executor.resumedRegistry, single]
      exact (Table.lookup_erase ..).trans (if_pos rfl)
    rcases n.executor.resumeBookmark_cases b v' p' with ⟨-, hc⟩ | ⟨-, -, hc⟩ | ⟨g', -, hg', -⟩
    · cases hc.symm.trans (h'.resumeBookmark hr)
    · cases hc.symm.trans (h'.resumeBookmark hr)
    · exact t.registration sound' gone hg'
  · obtain ⟨later, t', nothing⟩ := e.journey_save store s owner unlock
    exact ⟨later, t.trans t', nothing⟩

/-- Whatever hosts and bodies bring about, a resumption that succeeds is delivered once. -/
theorem Moment.Occurs.delivers_once (occurs : m.Occurs) (h : Goes m ev m')
    (hr : ev.resumes? = some (b, v, p, r)) : Resumes m b v p r m' := by
  have answer := h.resumeBookmark hr
  rcases m.executor.resumeBookmark_cases b v p with ⟨ha, hc⟩ | ⟨ha, hn, hc⟩ | ⟨g, ha, hg, hc⟩
  · obtain ⟨rfl, same⟩ := Prod.mk.inj (answer.symm.trans hc)
    exact ⟨by simp [ha], by simp [ha], fun _ => same, nofun⟩
  · obtain ⟨rfl, same⟩ := Prod.mk.inj (answer.symm.trans hc)
    exact ⟨by simp [ha], by simp [ha, hn], fun _ => same, nofun⟩
  · obtain ⟨rfl, same⟩ := Prod.mk.inj (answer.symm.trans hc)
    refine ⟨by simp [ha], by simp [hg], nofun, fun _ => ⟨g, hg, h.delivers occurs.sound hg ?_ ?_⟩⟩
    · rw [same]
    · rw [same]

/-- A resumption of one of two bookmarks that are waited for is delivered once. -/
theorem Moment.delivers_once_pair : (between Executor.waitingPair).Occurs ∧
    Goes (between Executor.waitingPair)
      (.served (.resumeBookmark ⟨.default, "go"⟩ .null .low) .success)
      (between Executor.resumedPair) ∧
    Resumes (between Executor.waitingPair) ⟨.default, "go"⟩ .null .low .success
      (between Executor.resumedPair) := by
  have occurs := Executor.reachable_waitingPair.occurs
  have answer : (Executor.waitingPair.resumeBookmark ⟨.default, "go"⟩ .null .low).1 = .success := by
    decide +kernel
  have goes : Goes (between Executor.waitingPair)
      (.served (.resumeBookmark ⟨.default, "go"⟩ .null .low) .success)
      (between Executor.resumedPair) :=
    answer ▸ .served (c := .resumeBookmark ⟨.default, "go"⟩ .null .low) rfl
  exact ⟨occurs, goes, occurs.delivers_once goes rfl⟩

end Workflow
