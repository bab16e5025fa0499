import Workflow.Proofs.Moment
import Workflow.Proofs.Waiting

/-!
# What an activity can change

A program asks the engine on behalf of an instance, and may name anything in the workflow. Whatever it
asks, the answer changes only this instance, what it owns and the children that it schedules. Of the
rest it changes the value of a location that an ancestor has, and a bookmark for one resumption is gone
when it is resumed.
-/

namespace Workflow

namespace Request

variable {k : BodyKind}

/-- Whether a request uses the handle of an operation and not the context of a callback. -/
def usesHandle : Request k → Bool
  | .operation _ => true
  | _ => false

/-- Whether a request schedules a child. -/
def schedules : Request k → Bool
  | .scheduling (.schedule _ _) => true
  | _ => false

/-- Whether a request creates a scope. -/
def createsScope : Request k → Bool
  | .scheduling .createScope => true
  | _ => false

/-- The location that a request writes and the new value. -/
def written? : Request k → Option (Location × Value)
  | .context (.write l v) => some (l, v)
  | _ => none

/-- The bookmark that a request resumes. -/
def resumed? : Request k → Option Bookmark
  | .scheduling (.resume b _) => some b
  | _ => none

end Request

namespace Executor

variable {e e' : Executor} {x a : InstanceId} {k : BodyKind} {q : Request k} {i : Instance}
variable {f : Instance → Instance}

/-! ### Other instances -/

/-- An answer changes no other instance but in the value of a location of an ancestor, and adds none
but a scheduled child. -/
structure Spares (e : Executor) (x : InstanceId) (q : Request k) (e' : Executor) : Prop where
  others : ∀ {a : InstanceId} {i : Instance}, a ≠ x → e.instances[a]? = some i →
    e'.instances[a]? = some i ∨
      ∃ l v, q.written? = some (l, v) ∧ l.owner = a ∧ Under e.instances a x ∧
        i.environment.contains l.name = true ∧
        e'.instances[a]? = some { i with environment := i.environment.insert l.name v }
  newborn : ∀ {a : InstanceId} {i : Instance}, e.instances[a]? = none → e'.instances[a]? = some i →
    q.schedules = true ∧ a = ⟨e.nextInstance⟩ ∧ i.parent = some x

namespace Spares

/-- Only the instance itself changes. -/
theorem own (hi : e'.instances = e.instances.modify x f) : Spares e x q e' where
  others ha hk := by
    rw [hi, Table.lookup_modify, if_neg (Ne.symm ha)]
    exact .inl hk
  newborn hn hk := by
    rw [hi, Table.lookup_modify, hn] at hk
    split at hk <;> exact absurd hk.symm (Option.some_ne_none _)

/-- No instance changes. -/
theorem same (hi : e'.instances = e.instances) : Spares e x q e' where
  others _ hk := .inl (hi ▸ hk)
  newborn hn hk := absurd ((hi ▸ hk).symm.trans hn) (Option.some_ne_none _)

/-- A child is scheduled. -/
theorem adopt (ht : IsTree e.definition e.root e.nextInstance e.instances) (hq : q.schedules = true)
    {c : Instance} (hc : c.id = ⟨e.nextInstance⟩) (hp : c.parent = some x) (hx : x ≠ c.id)
    (hi : e'.instances = (e.adopt x c).instances) : Spares e x q e' := by
  have lookup : ∀ {a}, a ≠ x → e'.instances[a]? = if c.id = a then some c else e.instances[a]? := by
    intro a ha
    rw [hi]
    change (Executor.modify { e with instances := e.instances.insert c.id c } x _).instances[a]? = _
    rw [lookup_modify, if_neg (Ne.symm ha), Table.lookup_insert]
  constructor
  · intro a i ha hk
    have older : c.id ≠ a := by
      rintro rfl
      have below := ht.below hk
      rw [hc] at below
      exact Nat.lt_irrefl _ below
    rw [lookup ha, if_neg older]
    exact .inl hk
  · intro a i hn hk
    by_cases ha : a = x
    · subst ha
      rw [hi] at hk
      obtain ⟨j, hj, -⟩ :=
        lookup_modify_cases (e := { e with instances := e.instances.insert c.id c }) hk
      rw [Table.lookup_insert, if_neg (Ne.symm hx), hn] at hj
      exact absurd hj.symm (Option.some_ne_none j)
    · rw [lookup ha] at hk
      split at hk
      · next hca =>
        cases hk
        exact ⟨hq, hca.symm.trans hc, hp⟩
      · exact absurd (hk.symm.trans hn) (Option.some_ne_none i)

end Spares

/-! ### Bookmarks and scopes of others -/

/-- An answer changes no bookmark and no scope of another instance, but a bookmark for one resumption
is gone when it is resumed. The identifier of a new scope is to name no other scope. -/
structure Respects (e : Executor) (x : InstanceId) (q : Request k) (e' : Executor) : Prop where
  kept : ∀ {b : Bookmark} {g : Registration}, e.bookmarks.registrations[b]? = some g → g.owner ≠ x →
    e'.bookmarks.registrations[b]? = some g ∨
      (q.resumed? = some b ∧ g.options.multipleResume = false ∧
        e'.bookmarks.registrations[b]? = none)
  added : ∀ {b : Bookmark} {g : Registration}, e'.bookmarks.registrations[b]? = some g →
    e.bookmarks.registrations[b]? = some g ∨ g.owner = x
  scopes_kept : e.bookmarks.scopes[scopeUuid (e.scopeCount + 1)]? = none →
    ∀ {s : Uuid} {o : InstanceId}, e.bookmarks.scopes[s]? = some o → e'.bookmarks.scopes[s]? = some o
  scopes_added : ∀ {s : Uuid} {o : InstanceId}, e'.bookmarks.scopes[s]? = some o →
    e.bookmarks.scopes[s]? = some o ∨ (q.createsScope = true ∧ o = x)

namespace Respects

/-- No scope changes. -/
theorem of_scopes (hs : e'.bookmarks.scopes = e.bookmarks.scopes)
    (kept : ∀ {b : Bookmark} {g : Registration}, e.bookmarks.registrations[b]? = some g → g.owner ≠ x →
      e'.bookmarks.registrations[b]? = some g ∨
        (q.resumed? = some b ∧ g.options.multipleResume = false ∧
          e'.bookmarks.registrations[b]? = none))
    (added : ∀ {b : Bookmark} {g : Registration}, e'.bookmarks.registrations[b]? = some g →
      e.bookmarks.registrations[b]? = some g ∨ g.owner = x) : Respects e x q e' :=
  ⟨kept, added, fun _ _ _ ho => hs ▸ ho, fun ho => .inl (hs ▸ ho)⟩

/-- No bookmark and no scope changes. -/
theorem same (hb : e'.bookmarks = e.bookmarks) : Respects e x q e' :=
  of_scopes (by rw [hb]) (fun hg _ => .inl (hb ▸ hg)) fun hg => .inl (hb ▸ hg)

/-- A bookmark of the instance itself is registered. -/
theorem register {g : Registration} (hn : e.bookmarks.registrations[g.bookmark]? = none)
    (hx : g.owner = x) (hb : e'.bookmarks =
      { e.bookmarks with registrations := e.bookmarks.registrations.insert g.bookmark g }) :
    Respects e x q e' := by
  refine of_scopes (by rw [hb]) (fun {b g'} hg _ => .inl ?_) fun {b g'} hg => ?_
  · rw [hb, Table.lookup_insert]
    split
    · next h =>
      rw [h, hg] at hn
      exact absurd hn (Option.some_ne_none _)
    · exact hg
  · rw [hb, Table.lookup_insert] at hg
    split at hg
    · cases hg
      exact .inr hx
    · exact .inl hg

/-- A bookmark is removed, which the instance itself owned or which has been resumed. -/
theorem unregister {b : Bookmark} {g : Registration} (hg : e.bookmarks.registrations[b]? = some g)
    (hx : g.owner = x ∨ q.resumed? = some b ∧ g.options.multipleResume = false)
    (hb : e'.bookmarks = e.bookmarks.unregister b) : Respects e x q e' := by
  refine of_scopes (by rw [hb]; rfl) (fun {b' g'} hg' ho => ?_) fun hg' =>
    .inl (lookup_unregister (hb ▸ hg'))
  rw [hb, Registry.unregister, Table.lookup_erase]
  split
  · next h =>
    subst h
    cases hg.symm.trans hg'
    obtain ⟨hq, hm⟩ := hx.resolve_left ho
    exact .inr ⟨hq, hm, rfl⟩
  · exact .inl hg'

/-- The bookmarks of the instance itself are removed. -/
theorem removeOwned (hb : e'.bookmarks = e.bookmarks.removeOwned x) : Respects e x q e' := by
  refine of_scopes (by rw [hb]; rfl) (fun {b g} hg ho => .inl ?_) fun hg => ?_
  · rw [hb, Registry.removeOwned, Table.lookup_filter, hg, Option.filter_some_eq_some]
    simpa using ho
  · rw [hb, Registry.removeOwned, Table.lookup_filter, Option.filter_eq_some_iff] at hg
    exact .inl hg.1

/-- A scope is created. -/
theorem createScope (hq : q.createsScope = true)
    (hb : e'.bookmarks = e.bookmarks.addScope (scopeUuid (e.scopeCount + 1)) x) :
    Respects e x q e' where
  kept hg _ := .inl (by rw [hb]; exact hg)
  added hg := .inl (by rw [hb] at hg; exact hg)
  scopes_kept hn {s o} ho := by
    rw [hb, Registry.addScope, Table.lookup_insert]
    split
    · next hs =>
      rw [hs, ho] at hn
      exact absurd hn (Option.some_ne_none o)
    · exact ho
  scopes_added {s o} ho := by
    rw [hb, Registry.addScope, Table.lookup_insert] at ho
    split at ho
    · cases ho
      exact .inr ⟨hq, rfl⟩
    · exact .inl ho

end Respects

/-! ### Answers -/

/-- All that an answer changes apart from the instance itself and what it owns. -/
structure Confined (e : Executor) (x : InstanceId) (q : Request k) (e' : Executor) : Prop where
  instances : Spares e x q e' := by exact .same rfl
  bookmarks : Respects e x q e' := by exact .same rfl
  /-- Items are queued, and none that was queued is lost. -/
  queue : e.queue.Gains (fun _ => True) e'.queue := by exact .refl _
  nextInstance : e'.nextInstance = e.nextInstance ∨
    (q.schedules = true ∧ e'.nextInstance = e.nextInstance + 1) := by exact .inl rfl
  scopeCount : e'.scopeCount = e.scopeCount ∨
    (q.createsScope = true ∧ e'.scopeCount = e.scopeCount + 1) := by exact .inl rfl
  persistRequested : e'.persistRequested = e.persistRequested ∨ e'.persistRequested = true := by
    exact .inl rfl
  /-- A workflow that waits has work when a bookmark is resumed. -/
  state : e'.state = e.state ∨
    (q.resumed?.isSome = true ∧ e.state = .idle ∧ e'.state = .runnable) := by exact .inl rfl
  /-- A scheduled child is reported. -/
  tracking : e'.tracking = e.tracking ∨ (q.schedules = true ∧ ∃ parent child,
    child.id = ⟨e.nextInstance⟩ ∧
      e'.tracking = e.tracking.emit e.workflow (.scheduled parent child)) := by exact .inl rfl
  /-- The journal gains a line. -/
  journal : e'.journal = e.journal ∨ ∃ text, e'.journal = e.journal ++ [.line text] := by
    exact .inl rfl
  workflow : e'.workflow = e.workflow := by rfl
  definition : e'.definition = e.definition := by rfl
  root : e'.root = e.root := by rfl
  operations : e'.operations = e.operations := by rfl
  nextOperation : e'.nextOperation = e.nextOperation := by rfl
  outcome : e'.outcome = e.outcome := by rfl
  mailbox : e'.mailbox = e.mailbox := by rfl
  inbox : e'.inbox = e.inbox := by rfl
  handles : e'.handles = e.handles := by rfl
  extensions : e'.extensions = e.extensions := by rfl
  announcement : e'.announcement = e.announcement := by rfl
  isHosted : e'.isHosted = e.isHosted := by rfl
  isOverdrawn : e'.isOverdrawn = e.isOverdrawn := by rfl

namespace Confined

theorem refl (e : Executor) : Confined e x q e := {}

theorem modify : Confined e x q (e.modify x f) :=
  { refl (x := x) e with instances := .own rfl, bookmarks := .same rfl }

/-- An instance waits for each blocking bookmark that it owns, so it can stop waiting for them. -/
theorem isOverdrawn_release (hb : e.Balanced) {n : Nat} (hn : n ≤ e.bookmarks.blocking x)
    (hl : e.isLive x = true) (r : Registry) :
    (release { e with bookmarks := r } x n).isOverdrawn = e.isOverdrawn := by
  obtain ⟨i, hi, hil⟩ := isLive_iff.mp hl
  have busy := hb x i hi hil
  rw [dues] at busy
  have enough : ¬ i.busy < n := by omega
  change (e.isOverdrawn || (e.instance? x).any fun i => decide (i.busy < n)) = e.isOverdrawn
  rw [instance?, hi, Option.any_some, decide_eq_false enough, Bool.or_false]

theorem scheduleChild (ht : IsTree e.definition e.root e.nextInstance e.instances)
    (hl : e.isLive x = true) (node : NodeId) (options : ScheduleOptions) :
    Confined e x (.scheduling (.schedule node options)) (e.scheduleChild x node options).2 := by
  unfold Executor.scheduleChild
  split
  · exact refl e
  · next scope _ =>
    have older : x ≠ (e.newChild x node scope options).id := by
      rintro hx
      obtain ⟨i, hi, -⟩ := isLive_iff.mp hl
      have below := ht.below hi
      rw [hx] at below
      exact Nat.lt_irrefl _ below
    have spares : Spares e x (.scheduling (.schedule node options))
        (e.adopt x (e.newChild x node scope options)) := .adopt ht rfl rfl rfl older rfl
    dsimp only [addChild]
    rw [trackScheduled]
    split
    · next info hinfo =>
      obtain ⟨j, -, rfl⟩ := Option.map_eq_some_iff.mp hinfo
      exact { refl (x := x) e with
        instances := ⟨spares.others, spares.newborn⟩, bookmarks := .same rfl
        queue := .push _ trivial, nextInstance := .inr ⟨rfl, rfl⟩
        tracking := .inr ⟨rfl, _, _, rfl, rfl⟩ }
    · exact { refl (x := x) e with
        instances := spares, bookmarks := .same rfl
        queue := .push _ trivial, nextInstance := .inr ⟨rfl, rfl⟩ }

/-- Items are queued, and nothing else happens. -/
theorem queues {w : WorkQueue} (hw : e.queue.Gains (fun _ => True) w) :
    Confined e x q { e with queue := w } :=
  { refl (x := x) e with instances := .same rfl, bookmarks := .same rfl, queue := hw }

theorem cancelChild (c : InstanceId) : Confined e x q (e.cancelChild x c).2 := by
  unfold Executor.cancelChild
  split
  · exact refl e
  · split
    · exact .queues (.push _ trivial)
    · exact refl e

theorem cancelChildren : Confined e x q (e.cancelChildren x) := by
  have asks : ∀ (l : List InstanceId) (w : WorkQueue), e.queue.Gains (fun _ => True) w →
      Confined e x q (l.foldl (fun e c => e.enqueue (.cancel c)) { e with queue := w }) := by
    intro l
    induction l with
    | nil => exact fun w hw => .queues hw
    | cons c rest ih => exact fun w hw => ih _ (hw.trans (.push w trivial))
  exact asks _ e.queue (.refl _)

theorem createBookmark {g : Registration} (hx : g.owner = x) :
    Confined e x q (e.createBookmark g).2 := by
  subst hx
  unfold Executor.createBookmark
  split
  · split
    · exact refl e
    · next o r hr =>
      obtain ⟨rfl, rfl⟩ | ⟨rfl, -, hn, rfl⟩ := Registry.register_ok hr
      · exact refl e
      · dsimp only
        split
        · exact { refl (x := g.owner) e with instances := .own rfl, bookmarks := .register hn rfl rfl }
        · exact { refl (x := g.owner) e with instances := .same rfl, bookmarks := .register hn rfl rfl }
  · exact refl e

theorem removeBookmark (hb : e.Balanced) (hl : e.isLive x = true) (b : Bookmark) :
    Confined e x q (e.removeBookmark x b).2 := by
  unfold Executor.removeBookmark
  split
  · exact refl e
  · next g hg =>
    split
    · next ho =>
      dsimp only
      split
      · next hblocks =>
        have count := Registry.blocking_unregister e.bookmarks hg x
        rw [hblocks, ho, Bool.true_and, if_pos (beq_self_eq_true x)] at count
        exact { refl (x := x) e with
          instances := .own rfl, bookmarks := .unregister hg (.inl ho) rfl
          isOverdrawn := isOverdrawn_release hb (by omega) hl _ }
      · exact { refl (x := x) e with instances := .same rfl, bookmarks := .unregister hg (.inl ho) rfl }
    · exact refl e

theorem removeAllBookmarks (hb : e.Balanced) (hl : e.isLive x = true) :
    Confined e x q (e.removeAllBookmarks x) :=
  { refl (x := x) e with
    instances := .own rfl
    bookmarks := .removeOwned rfl
    isOverdrawn := isOverdrawn_release hb (Nat.le_refl _) hl _ }

theorem createScope (hq : q.createsScope = true) : Confined e x q (e.createScope x).2 := by
  unfold Executor.createScope
  split
  · exact refl e
  · split
    · exact { refl (x := x) e with
        instances := .same rfl, bookmarks := .createScope hq rfl, scopeCount := .inr ⟨hq, rfl⟩ }
    · exact refl e

theorem resumeBookmark {b : Bookmark} (hq : q.resumed? = some b) (v : Value) (p : Priority) :
    Confined e x q (e.resumeBookmark b v p).2 := by
  unfold Executor.resumeBookmark
  split
  · exact refl e
  · split
    · exact refl e
    · next g hg =>
      dsimp only
      refine { refl (x := x) e with
        instances := .same rfl, bookmarks := ?_, queue := .push _ trivial, state := ?_ }
      · cases hm : g.options.multipleResume with
        | true => exact .same rfl
        | false => exact .unregister hg (.inr ⟨hq, hm⟩) rfl
      · dsimp only
        split
        · next hs => exact .inr ⟨hq ▸ rfl, hs, rfl⟩
        · exact .inl rfl

/-- Requests to the scheduler. -/
theorem scheduling (ht : IsTree e.definition e.root e.nextInstance e.instances) (hb : e.Balanced)
    (hl : e.isLive x = true) (q : SchedulingRequest) :
    Confined e x (.scheduling q) (e.answerScheduling x q).2 := by
  cases q with
  | schedule node options => exact scheduleChild ht hl node options
  | cancelChild c => exact cancelChild c
  | cancelChildren => exact cancelChildren
  | createBookmark name scope callback options => exact createBookmark rfl
  | removeBookmark b => exact removeBookmark hb hl b
  | removeAllBookmarks => exact removeAllBookmarks hb hl
  | createScope => exact createScope rfl
  | resume b v => exact resumeBookmark rfl v .normal
  | setResult v | addProperty name v | removeProperty name => exact modify
  | requestPersist =>
    exact { refl (x := x) e with
      instances := .same rfl, bookmarks := .same rfl, persistRequested := .inr rfl }
  | _ => exact refl e

/-- Requests about cancellation. -/
theorem cancellation (q : CancellationRequest) (hk : k ≠ .code) :
    Confined e x (.cancellation q hk) (e.answerCancellation x q).2 := by
  cases q with
  | isRequested => exact refl e
  | accept =>
    unfold Executor.answerCancellation Executor.markCanceled
    split
    · exact refl e
    · split
      · exact modify
      · exact refl e

end Confined

/-! ### Locations -/

/-- The ancestors of an instance are its parent and the ancestors of its parent. -/
theorem under_iff_within {t : InstanceTable} {y p : InstanceId} (hi : t[x]? = some i)
    (hp : i.parent = some p) : Under t y x ↔ Within t y p := by
  constructor
  · intro hu
    cases hu with
    | child hi' hp' =>
      cases hi.symm.trans hi'
      exact .inl (Option.some.inj (hp.symm.trans hp'))
    | deeper hi' hp' hu =>
      cases hi.symm.trans hi'
      cases hp.symm.trans hp'
      exact .inr hu
  · rintro (rfl | hu)
    · exact .child hi hp
    · exact .deeper hi hp hu

/-- The way up from an instance leads over the instance and its ancestors. -/
theorem mem_climb (ht : IsTree e.definition e.root e.nextInstance e.instances)
    (hi : e.instances[x]? = some i) {n : Nat} (hn : InstanceTable.countUpTo e.instances x ≤ n) :
    a ∈ e.climb n (some x) ↔ Within e.instances a x := by
  induction n generalizing x i with
  | zero => exact absurd (InstanceTable.countUpTo_pos hi) (Nat.not_lt.mpr hn)
  | succ n ih =>
    rw [climb, instance?, hi, Option.bind_some, List.mem_cons, Within, @eq_comm _ a x]
    refine or_congr Iff.rfl ?_
    cases hp : i.parent with
    | none =>
      have top : e.climb n none = [] := by cases n <;> rfl
      rw [top]
      refine iff_of_false List.not_mem_nil fun hu => ?_
      cases hu with
      | child hi' hp' =>
        cases hi.symm.trans hi'
        cases hp.symm.trans hp'
      | deeper hi' hp' _ =>
        cases hi.symm.trans hi'
        cases hp.symm.trans hp'
    | some p =>
      obtain ⟨r, hr, -⟩ := ht.listed hi hp
      have fewer := InstanceTable.countUpTo_lt hi (ht.older hi hp)
      rw [under_iff_within hi hp]
      exact ih hr (by omega)

theorem isAncestorOrSelf_iff (ht : IsTree e.definition e.root e.nextInstance e.instances)
    (hl : e.isLive x = true) : e.isAncestorOrSelf a x = true ↔ Within e.instances a x := by
  obtain ⟨i, hi, -⟩ := isLive_iff.mp hl
  rw [isAncestorOrSelf, lineage, List.contains_iff_mem]
  exact mem_climb ht hi (Nat.le_succ_of_le (InstanceTable.countUpTo_le _ x))

/-- An instance sees a location that it or an ancestor has. -/
def SeesLocation (e : Executor) (x : InstanceId) (l : Location) : Prop :=
  Within e.instances l.owner x ∧
    ∃ i, e.instances[l.owner]? = some i ∧ i.environment.contains l.name = true

/-- Exactly the locations that an instance sees can be read. -/
theorem readLocation_ok_iff (ht : IsTree e.definition e.root e.nextInstance e.instances)
    (hl : e.isLive x = true) (l : Location) :
    (∃ v, e.readLocation x l = .ok v) ↔ e.SeesLocation x l := by
  have seen := isAncestorOrSelf_iff (a := l.owner) ht hl
  unfold readLocation SeesLocation
  dsimp only
  rw [← seen]
  constructor
  · rintro ⟨v, hv⟩
    split at hv
    · next w hw hfound =>
      obtain ⟨i, hi, hv'⟩ := Option.bind_eq_some_iff.mp hfound
      exact ⟨hw, i, hi, Table.contains_of_lookup i.environment hv'⟩
    · cases hv
  · rintro ⟨hw, i, hi, hc⟩
    have there : l.name ∈ i.environment := Std.ExtTreeMap.contains_iff_mem.mp hc
    refine ⟨i.environment[l.name], ?_⟩
    rw [hw, instance?, hi, Option.bind_some, Std.ExtTreeMap.getElem?_eq_some_getElem there]

/-- Exactly the locations that an instance sees can be written. -/
theorem writeLocation_cases (ht : IsTree e.definition e.root e.nextInstance e.instances)
    (hl : e.isLive x = true) (l : Location) (v : Value) :
    (e.writeLocation x l v = (.error (.unknownLocation l.name), e) ∧ ¬ e.SeesLocation x l) ∨
      ∃ i, Within e.instances l.owner x ∧ e.instances[l.owner]? = some i ∧
        i.environment.contains l.name = true ∧ e.writeLocation x l v = (.ok (),
          e.modify l.owner fun j => { j with environment := i.environment.insert l.name v }) := by
  have seen := isAncestorOrSelf_iff (a := l.owner) ht hl
  unfold writeLocation SeesLocation
  dsimp only
  rw [← seen]
  cases hw : e.isAncestorOrSelf l.owner x with
  | false => exact .inl ⟨rfl, fun h => absurd h.1 Bool.false_ne_true⟩
  | true =>
    rw [instance?]
    cases hi : e.instances[l.owner]? with
    | none =>
      refine .inl ⟨rfl, ?_⟩
      rintro ⟨-, i, hi', -⟩
      cases hi'
    | some i =>
      rw [Option.bind_some, Environment.assign?]
      cases hc : i.environment.contains l.name with
      | false =>
        refine .inl ⟨rfl, ?_⟩
        rintro ⟨-, j, hj, hc'⟩
        cases hj
        exact absurd (hc.symm.trans hc') Bool.false_ne_true
      | true => exact .inr ⟨i, rfl, rfl, hc, rfl⟩

namespace Confined

/-- A location of an ancestor that is there gets another value. -/
theorem write (ht : IsTree e.definition e.root e.nextInstance e.instances) (hl : e.isLive x = true)
    (l : Location) (v : Value) :
    Confined e x (.context (.write l v) : Request k) (e.writeLocation x l v).2 := by
  rcases writeLocation_cases ht hl l v with ⟨hw, -⟩ | ⟨i, hin, hi, hc, hw⟩
  · rw [hw]
    exact refl e
  · rw [hw]
    rcases hin with hx | hu
    · exact hx ▸ modify
    · refine { refl (x := x) e with
        instances := ⟨fun {a j} _ hj => ?_, fun hn hj => ?_⟩, bookmarks := .same rfl }
      · rw [lookup_modify]
        split
        · next ha =>
          subst ha
          cases hi.symm.trans hj
          exact .inr ⟨l, v, rfl, rfl, hu, hc, by rw [hi]; rfl⟩
        · exact .inl hj
      · obtain ⟨j', hj', -⟩ := lookup_modify_cases hj
        exact absurd (hj'.symm.trans hn) (Option.some_ne_none j')

/-- Requests to the context. -/
theorem context (ht : IsTree e.definition e.root e.nextInstance e.instances) (hl : e.isLive x = true)
    (q : ContextRequest) : Confined e x (.context q : Request k) (e.answerContext x q).2 := by
  cases q with
  | say text =>
    exact { refl (x := x) e with
      instances := .same rfl, bookmarks := .same rfl, journal := .inr ⟨text, rfl⟩ }
  | write l v => exact write ht hl l v
  | setArgument name v =>
    unfold Executor.answerContext Executor.assignArgument
    dsimp only
    split
    · exact refl e
    · split
      · exact refl e
      · split
        · exact modify
        · exact refl e
  | _ => exact refl e

/-- Every answer is confined. -/
theorem answer (ht : IsTree e.definition e.root e.nextInstance e.instances) (hb : e.Balanced)
    (hl : e.isLive x = true) (q : Request k) (hq : q.usesHandle = false) :
    Confined e x q (e.answer x q).2 := by
  cases q with
  | context q => exact context ht hl q
  | cancellation q hk => exact cancellation q hk
  | operation q => exact absurd hq.symm Bool.false_ne_true
  | scheduling q => exact scheduling ht hb hl q

end Confined

end Executor

/-- At a sound moment every live instance counts what it waits for. -/
theorem Moment.Sound.balanced {m : Moment} (h : m.Sound) : m.executor.Balanced := by
  cases m with
  | between e => exact h.regular.balanced
  | during r e rest =>
    obtain ⟨s, a, q, pending⟩ := h
    obtain ⟨X, running⟩ := pending.running
    exact running.consistent.balanced

namespace Executor

/-- Whatever a live instance asks, the answer is confined to it, and through a location it reads and
writes only what it or an ancestor of it declares. -/
theorem activity_confined {m : Moment} {x : InstanceId} {k : BodyKind} (h : m.Occurs)
    (hl : m.executor.isLive x = true) (q : Request k) (hq : q.usesHandle = false) :
    Confined m.executor x q (m.executor.answer x q).2 ∧
      (∀ l, (∃ v, (m.executor.answerContext x (.read l)).1 = .ok v) ↔ m.executor.SeesLocation x l) ∧
      ∀ l v, (m.executor.answerContext x (.write l v)).1 = .ok () ↔ m.executor.SeesLocation x l := by
  obtain ⟨i, hi, -⟩ := isLive_iff.mp hl
  have tree := h.sound.tree hi
  refine ⟨.answer tree h.sound.balanced hl q hq, fun l => readLocation_ok_iff tree hl l,
    fun l v => ?_⟩
  rw [answerContext]
  rcases writeLocation_cases tree hl l v with ⟨hw, hn⟩ | ⟨j, hin, hj, hc, hw⟩
  · rw [hw]
    exact iff_of_false nofun hn
  · rw [hw]
    exact iff_of_true rfl ⟨hin, j, hj, hc⟩

/-- Of two activities that wait side by side, one resumes the bookmark of the other. -/
theorem activity_confined_pair : waitingPair.isLive ⟨2⟩ = true ∧
    Confined waitingPair ⟨2⟩ (.scheduling (.resume ⟨.default, "stay"⟩ .null))
      (waitingPair.resumeBookmark ⟨.default, "stay"⟩ .null).2 := by
  have live : waitingPair.isLive ⟨2⟩ = true := by decide +kernel
  exact ⟨live, (activity_confined (m := .between waitingPair) reachable_waitingPair.occurs live
    (.scheduling (.resume ⟨.default, "stay"⟩ .null)) rfl).1⟩

end Executor

end Workflow
