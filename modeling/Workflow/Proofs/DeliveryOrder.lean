import Workflow.Proofs.Finality
import Workflow.Proofs.Queue
import Workflow.Proofs.Succession

/-!
# The order of deliveries

A parent is told of its children in the order in which they ended, and values come to the owners of
bookmarks in the order of the calls that resumed them, those of low priority last.
-/

namespace Workflow

/-- The child about whose completion a call tells an instance. -/
def reported? (p : InstanceId) : Call → Option InstanceId
  | (x, .childCompleted _ child) => if x = p then some child.id else none
  | _ => none

theorem reported?_eq_some {p x c : InstanceId} {callback : Callback}
    (h : reported? p (x, callback) = some c) :
    x = p ∧ ∃ tag child, callback = .childCompleted tag child ∧ child.id = c := by
  cases callback with
  | childCompleted tag child =>
    obtain ⟨hx, hc⟩ := Option.ite_none_right_eq_some.mp h
    exact ⟨hx, tag, child, rfl, Option.some.inj hc⟩
  | _ => exact absurd h.symm (Option.some_ne_none c)

/-- The children about whose completion an instance is told, in order. -/
def observed (p : InstanceId) (evs : List Event) : List InstanceId :=
  (callings evs).filterMap (reported? p)

theorem observed_cons (p : InstanceId) (ev : Event) (evs : List Event) :
    observed p (ev :: evs) = (ev.call?.bind (reported? p)).toList ++ observed p evs := by
  unfold observed
  rw [callings_cons, List.filterMap_append]
  cases ev.call? with
  | none => rfl
  | some call => exact congrArg (· ++ _) (by cases h : reported? p call <;> simp [h])

/-! ### Reports -/

section Reports

open Moment

variable {m m' : Moment} {ev : Event} {evs : List Event} {a b c p : InstanceId} {w : WorkItem}
variable {e : Executor} {r : Errand} {x y : QueuedItem}

/-- The call about a completed child is made for the item that tells of it. -/
theorem Executor.Sends.of_childCompleted {tag : CallbackTag} {child : CompletedChild}
    (h : e.Sends w r) (hc : r.callback = .childCompleted tag child) :
    ∃ c i, w = .completion r.id c ∧ e.instances[c]? = some i ∧ child = i.completed := by
  cases h with
  | @execute x i b => cases b <;> cases hc
  | completion hi =>
    cases hc
    exact ⟨_, _, rfl, hi, rfl⟩
  | @cancel x i b r hi hb hl hc' hx hr =>
    cases b with
    | code program => cases hr
    | native body | async body =>
      cases hr
      cases hc
  | fault | bookmark | operation => cases hc

/-- Who is told of a child is told for an item that tells of it, and the child is there until then. -/
theorem Goes.of_reported (g : Goes m ev m') (h : m.Sound)
    (hr : ev.call?.bind (reported? p) = some c) :
    ∃ x i, ev.taken? = some x ∧ x.item = .completion p c ∧ m.executor.instances[c]? = some i := by
  cases g with
  | @opened e x q r ho ha hi hn hs =>
    obtain ⟨rfl, tag, child, hcallback, rfl⟩ := reported?_eq_some hr
    obtain ⟨c, i, hw, hc, rfl⟩ := (Executor.sends_of_errand hs).of_childCompleted hcallback
    have hc : e.instances[c]? = some i := hc
    have keyed : i.id = c := (h.tree (m := .between e) hc).keyed hc
    subst keyed
    exact ⟨x, i, rfl, hw, hc⟩
  | _ => cases hr

/-- Who is gone stays gone while identifiers are given out in order. -/
theorem Executor.Abides.gone {e e' : Executor} (h : e.Abides e') (hn : c.number < e.nextInstance)
    (hc : e.instances[c]? = none) : e'.instances[c]? = none := by
  cases hk : e'.instances[c]? with
  | none => rfl
  | some i =>
    obtain ⟨j, hj, -⟩ := h.kinds hk hn
    exact absurd (hj.symm.trans hc) (Option.some_ne_none j)

/-- A child that is seen is gone. -/
theorem Executor.gone_seen (p : InstanceId) (i : Instance) (hn : c.number < e.nextInstance) :
    (e.seen p c i).instances[c]? = none := by
  have seen : Mild { e with instances := e.instances.erase c } (e.seen p c i) := .seen_erased i
  refine (Abides.of_tends (seen.tends Plain)).gone hn ?_
  dsimp only
  rw [Table.lookup_erase, if_pos rfl]

/-- A child whose completion is dealt with is gone, also if nobody is called. -/
theorem Executor.gone_deliverCompletion (h : e.completionErrand? p c = none)
    (hn : c.number < e.nextInstance) : (e.deliverCompletion p c).instances[c]? = none := by
  rcases deliverCompletion_cases h with ⟨hd, hc⟩ | hd | ⟨i, hd⟩
  · rw [hd]
    exact hc
  · rw [hd]
    dsimp only
    rw [Table.lookup_erase, if_pos rfl]
  · have tried : Abides (e.seen p c i) ((e.seen p c i).tryComplete p) :=
      .of_tends (Concludes.tries (.refl _) p).tends
    rw [hd]
    exact tried.gone (Nat.lt_of_lt_of_le hn ((Mild.seen i).tends Plain).next) (gone_seen p i hn)

/-- A child whose completion is told of is gone. -/
theorem Goes.gone {call : Option Call} (g : Goes m (.took x call) m') (hw : x.item = .completion p c)
    (hn : c.number < m.executor.nextInstance) : m'.executor.instances[c]? = none := by
  cases g with
  | @passed e x q ho ha hi hq hr =>
    rw [hw] at hr ⊢
    exact Executor.gone_deliverCompletion (e := { e with queue := q }) hr hn
  | @opened e x q r ho ha hi hq hr =>
    have sends := Executor.sends_of_errand hr
    rw [hw] at sends
    cases sends with
    | @completion _ _ i => exact Executor.gone_seen (e := { e with queue := q }) _ i hn

/-! ### Children -/

/-- No item is taken but from a sound executor that goes on. -/
theorem Goes.taking {call : Option Call} (g : Goes m (.took x call) m') (h : m.Sound) :
    (∃ q : WorkQueue, m.items = x :: q.items) ∧ ∀ y ∈ m.items, m.executor.Sane y := by
  cases g with
  | passed ho ha hi hq hr => exact ⟨⟨_, hi⟩, h.truthful (Executor.not_isOver ho ha)⟩
  | opened ho ha hi hq hr => exact ⟨⟨_, hi⟩, h.truthful (Executor.not_isOver ho ha)⟩

/-- A completion is of normal priority. -/
theorem Executor.Sane.normal_of_completion (h : e.Sane x) (hw : x.item = .completion p c) :
    x.priority = .normal := by
  cases hp : x.priority with
  | normal => rfl
  | low =>
    obtain ⟨o, b, tag, v, r, hb⟩ := h.low hp
    rw [hw] at hb
    cases hb

/-- An instance has been there and is gone. -/
def Moment.Past (m : Moment) (a : InstanceId) : Prop :=
  a.number < m.executor.nextInstance ∧ m.executor.instances[a]? = none

theorem Goes.past (g : Goes m ev m') (h : m.Sound) (ha : m.Past a) : m'.Past a := by
  have abides := (g.ensues h).abides
  exact ⟨Nat.lt_of_lt_of_le ha.1 abides.next, abides.gone ha.1 ha.2⟩

/-- Nobody is told of a child that is gone. -/
theorem Journey.not_mem_observed (t : Journey m evs m') (h : m.Sound) (ha : m.Past a) :
    a ∉ observed p evs := by
  induction t with
  | refl => exact List.not_mem_nil
  | step g _ ih =>
    rw [observed_cons, List.mem_append, not_or]
    refine ⟨fun hr => ?_, ih (g.sound h) (g.past h ha)⟩
    obtain ⟨-, i, -, -, hi⟩ := g.of_reported h (Option.mem_toList.mp hr)
    exact absurd (hi.symm.trans ha.2) (Option.some_ne_none i)

/-- An item waits that tells of one child, and before every one that tells of another. -/
def Moment.Ahead (m : Moment) (p a b : InstanceId) : Prop :=
  ∃ x ∈ m.items, x.item = .completion p a ∧
    ∀ y ∈ m.items, y.item = .completion p b → x.arrival < y.arrival

/-- What is queued later does not change what stands before what. -/
theorem Moment.Ahead.of_before {z : List QueuedItem} (hx : x ∈ before m.next m'.items)
    (hw : x.item = .completion p a) (items : m.items = z ++ before m.next m'.items)
    (first : ∀ y ∈ m.items, y.item = .completion p b → x.arrival < y.arrival) : m'.Ahead p a b := by
  obtain ⟨hx', early⟩ := mem_before.mp hx
  refine ⟨x, hx', hw, fun y hy hb => ?_⟩
  by_cases hn : y.arrival < m.next
  · exact first y (items ▸ List.mem_append_right _ (mem_before.mpr ⟨hy, hn⟩)) hb
  · omega

/-- While the item of the first child waits, nobody is told of the other one. -/
theorem Goes.ahead (g : Goes m ev m') (h : m.Sound) (hn : a.number < m.executor.nextInstance)
    (ha : m.Ahead p a b) : (m'.IsOver ∨ m'.Past a ∨ m'.Ahead p a b) ∧
      (ev.call?.bind (reported? p) = some b → m'.Past a) := by
  have step := g.ensues h
  obtain ⟨x, hx, hw, first⟩ := ha
  cases ev with
  | took z call =>
    obtain ⟨⟨q, hi⟩, sane⟩ := g.taking h
    have past (hz : z.item = .completion p a) : m'.Past a :=
      ⟨Nat.lt_of_lt_of_le hn step.abides.next, g.gone hz hn⟩
    rcases List.mem_cons.mp (hi ▸ hx) with rfl | hq
    · exact ⟨.inr (.inl (past hw)), fun _ => past hw⟩
    · refine ⟨?_, fun hr => ?_⟩
      · refine step.items.symm.imp And.left fun items => .inr (.of_before ?_ hw items first)
        have rest : q.items = before m.next m'.items := (List.cons.inj (hi.symm.trans items)).2
        exact rest ▸ hq
      · -- The item that is taken stands before the other one, and came later.
        obtain ⟨_, -, hz, hb, -⟩ := g.of_reported h hr
        cases hz
        have there : z ∈ m.items := hi ▸ List.mem_cons_self
        have ordered : (z :: q.items).Pairwise fun c d => c.precedes d = true := hi ▸ m.ordered
        have precedes := List.rel_of_pairwise_cons ordered hq
        have later := first z there hb
        rw [QueuedItem.precedes, (sane z there).normal_of_completion hb,
          (sane x hx).normal_of_completion hw] at precedes
        exact absurd (of_decide_eq_true precedes) (Nat.lt_asymm later)
  | asked | served | silent =>
    refine ⟨step.items.symm.imp And.left fun items => .inr (.of_before ?_ hw items first),
      fun told => by cases told⟩
    have same : m.items = before m.next m'.items := items
    exact same ▸ hx

/-- Of two children whose items wait one behind the other, nobody is told of the second one first. -/
theorem Journey.observed_ahead (t : Journey m evs m') (h : m.Sound)
    (hn : a.number < m.executor.nextInstance) (ha : m.IsOver ∨ m.Past a ∨ m.Ahead p a b) :
    (observed p evs).Pairwise fun c d => c = b → d ≠ a := by
  have unheard : ∀ {l : List InstanceId}, a ∉ l → l.Pairwise fun c d => c = b → d ≠ a := fun hl =>
    List.pairwise_of_forall_mem_list fun c _ d hd _ hda => hl (hda ▸ hd)
  induction t with
  | refl => exact .nil
  | @step m m₁ m' ev evs g t ih =>
    rcases ha with hover | hpast | hahead
    · rw [observed, callings_eq_nil (stays_over (.step g t) h hover).2]
      exact .nil
    · exact unheard (Journey.not_mem_observed (.step g t) h hpast)
    · obtain ⟨next, told⟩ := g.ahead h hn hahead
      have later := Nat.lt_of_lt_of_le hn (g.ensues h).abides.next
      rw [observed_cons]
      refine List.pairwise_append.mpr ⟨?_, ih (g.sound h) later next, fun c hc d hd hb hda => ?_⟩
      · cases ev.call?.bind (reported? p) with
        | none => exact .nil
        | some c => exact List.pairwise_singleton _ _
      · subst hb hda
        exact t.not_mem_observed (g.sound h) (told (Option.mem_toList.mp hc)) hd

/-- While one child has ended and the other has not, the item that tells of the one waits before every
item that tells of the other. -/
theorem Executor.Sound.ahead {i : Instance} (h : e.Sound) (ha : e.instances[a]? = some i)
    (hp : i.parent = some p) (hs : i.HasCompleted)
    (hb : ∀ j, e.instances[b]? = some j → j.state.isTerminal = false) :
    (between e).IsOver ∨ (between e).Ahead p a b := by
  by_cases hn : e.IsOver
  · exact .inl hn
  have goesOn := hn
  rw [IsOver, not_or, not_not] at goesOn
  have placed := (h.regular.open goesOn.1 goesOn.2).1.placed
  have ended : i.state.isTerminal = true := by
    rcases hs with hs | hs <;> rw [hs] <;> rfl
  have parentLive : e.isLive p = true := by
    obtain ⟨r, hr, hc⟩ := placed.tree.listed ha hp
    have sound := placed.tree.sound hr
    refine isLive_iff.mpr ⟨r, hr, ActivityState.isLive_of_not_terminal sound.steady ?_⟩
    rw [Bool.eq_false_iff]
    intro ht
    rw [sound.childless ht] at hc
    exact absurd hc List.not_mem_nil
  have told : e.queue.work.countP (·.tellsOf a) = 1 := placed.told ha ended hp id
  obtain ⟨w, hw, tells⟩ : ∃ w ∈ e.queue.work, w.tellsOf a = true :=
    List.countP_pos_iff.mp (told ▸ Nat.one_pos)
  obtain ⟨x, hx, rfl⟩ := List.mem_map.mp hw
  have sane := h.truthful hn x hx
  refine .inr ⟨x, hx, ?_, fun y hy hyb => ?_⟩
  · cases hxw : x.item with
    | completion p' c =>
      rw [hxw] at hw tells
      have hc : c = a := beq_iff_eq.mp tells
      subst hc
      obtain ⟨-, hp'⟩ := (placed.reported hw rfl).2.2.1 i ha
      cases hp.symm.trans hp'
      rfl
    | fault p' c tag f =>
      rw [hxw] at tells
      have hc : c = a := beq_iff_eq.mp tells
      subst hc
      rw [Instance.HasCompleted, sane.faulted hxw ha] at hs
      exact absurd hs (by decide)
    | execute | cancel | bookmark | operation =>
      rw [hxw] at tells
      exact absurd tells Bool.false_ne_true
  · have queued : WorkItem.completion p b ∈ e.queue.work := hyb ▸ List.mem_map_of_mem hy
    obtain ⟨-, -, terminal, there⟩ := placed.reported queued rfl
    obtain ⟨j, hj⟩ := there parentLive
    have ended := (terminal j hj).1
    rw [hb j hj] at ended
    exact absurd ended Bool.false_ne_true

/-- Whether an instance is there and has closed or was canceled. -/
def Executor.HasCompleted (e : Executor) (k : InstanceId) : Prop :=
  ∃ i, e.instances[k]? = some i ∧ i.HasCompleted

/-- If only one completion may be told of, only one instance has come to have completed. -/
theorem Executor.Tends.hasCompleted {k : InstanceId} {n : Executor} (h : Tends (n.Only a) e e')
    (hk : e'.HasCompleted k) : e.HasCompleted k ∨ k = a := by
  obtain ⟨i, hi, hc⟩ := hk
  exact (h.completed hi hc).imp_right fun ⟨_, _, only⟩ => only.about rfl

/-- If no completion may be told of, nobody has come to have completed. -/
theorem Executor.Tends.hasCompleted_plain {k : InstanceId} (h : Tends Plain e e')
    (hk : e'.HasCompleted k) : e.HasCompleted k := by
  obtain ⟨i, hi, hc⟩ := hk
  rcases h.completed hi hc with had | ⟨_, _, plain⟩
  · exact had
  · have self : k = ⟨k.number + 1⟩ := (plain e _).about rfl
    have number : k.number = k.number + 1 := congrArg InstanceId.number self
    omega

/-- From one moment to the next at most one instance completes, and none while a program is
performed. -/
theorem Goes.one_completes (g : Goes m ev m') (h : m.Sound) :
    ∃ a, ∀ k, m'.executor.HasCompleted k →
      m.executor.HasCompleted k ∨ (k = a ∧ ∃ e, m' = between e) := by
  have nobody {m m' : Moment} (hm : ∀ k, m'.executor.HasCompleted k → m.executor.HasCompleted k) :
      ∃ a, ∀ k, m'.executor.HasCompleted k →
        m.executor.HasCompleted k ∨ (k = a ∧ ∃ e, m' = between e) :=
    ⟨m.executor.root, fun k hk => .inl (hm k hk)⟩
  have one {m : Moment} {e' : Executor} (ht : ∃ a, Executor.Tends (e'.Only a) m.executor e') :
      ∃ a, ∀ k, e'.HasCompleted k →
        m.executor.HasCompleted k ∨ (k = a ∧ ∃ e, between e' = between e) := by
    obtain ⟨a, ht⟩ := ht
    exact ⟨a, fun _ hk => (ht.hasCompleted hk).imp_right fun hk => ⟨hk, _, rfl⟩⟩
  cases g with
  | entered | collected | hosted | altered => exact nobody fun _ hk => hk
  | announced e =>
    have tends : Executor.Tends Executor.Plain e e.announce := .announce
    exact nobody fun _ hk => tends.hasCompleted_plain hk
  | @settled e =>
    have tends : Executor.Tends Executor.Plain e e.settle.2 := .settle
    exact nobody fun _ hk => tends.hasCompleted_plain hk
  | gathered e => exact nobody fun _ hk => Executor.Tends.drainInbox.hasCompleted_plain hk
  | @served e c hc =>
    by_cases ha : ∃ reason, c = .abort reason
    · obtain ⟨reason, rfl⟩ := ha
      refine nobody fun k hk => ?_
      change (e.abort reason).HasCompleted k at hk
      rcases e.abort_eq reason with hs | ⟨-, -, hi, -⟩
      · exact hs ▸ hk
      · obtain ⟨i, hk, -⟩ := hk
        rw [hi] at hk
        simp at hk
    · exact one (Executor.Tends.serve_only hc fun r hr => ha ⟨r, hr⟩)
  | @passed e x q ho ha hi hn hr =>
    exact one (m := between { e with queue := q }) (Executor.Concludes.dispatch hr).tends_only
  | @opened e x q r ho ha hi hn hr =>
    have tends := (Executor.sends_of_errand hr).before.tends Executor.Plain
    exact nobody fun _ hk => tends.hasCompleted_plain (e := { e with queue := q }) hk
  | answered => exact nobody fun _ hk => (Executor.Tends.answer _).hasCompleted_plain hk
  | @closed r e a =>
    obtain ⟨_, _, _, pending⟩ := h
    exact one (m := between e) ((Executor.sends_of_errand pending.errand).after a e).tends_only
  | @crashed r e c =>
    exact one (m := between e) (Executor.Concludes.raises (.refl e) r.id c.toError).tends_only

end Reports

/-! ### Resumptions -/

namespace Executor

variable {e e' : Executor} {o x : InstanceId} {b : Bookmark} {g : Registration} {v : Value}

/-- Whether a bookmark can be resumed, and what happens then. -/
theorem resumeBookmark_cases (e : Executor) (b : Bookmark) (v : Value) (p : Priority) :
    (e.state = .aborted ∧ e.resumeBookmark b v p = (.notReady, e)) ∨
      (e.state ≠ .aborted ∧ e.bookmarks.resolve? b = none ∧
        e.resumeBookmark b v p = (.notFound, e)) ∨
      ∃ g, e.state ≠ .aborted ∧ e.bookmarks.resolve? b = some g ∧
        e.resumeBookmark b v p = (.success, { e with
          bookmarks := e.resumedRegistry b g
          queue := e.queue.push (resumption b g v) p
          state := if e.state = .idle then .runnable else e.state }) := by
  unfold resumeBookmark
  by_cases ha : e.state = .aborted
  · exact .inl ⟨ha, if_pos ha⟩
  · rw [if_neg ha]
    cases hg : e.bookmarks.resolve? b with
    | none => exact .inr (.inl ⟨ha, rfl, rfl⟩)
    | some g => exact .inr (.inr ⟨g, ha, rfl, rfl⟩)

/-- Resume bookmarks one after the other. -/
def resumeAll (e : Executor) (l : List (Bookmark × Value × Priority)) : Executor :=
  l.foldl (fun e (b, v, p) => (e.resumeBookmark b v p).2) e

/-- The resumptions that are accepted, in the order of the calls. -/
def accepted (e : Executor) : List (Bookmark × Value × Priority) → List (Priority × WorkItem)
  | [] => []
  | (b, v, p) :: rest =>
    let later := accepted (e.resumeBookmark b v p).2 rest
    match (e.resumeBookmark b v p).1, e.bookmarks.resolve? b with
    | .success, some g => (p, resumption b g v) :: later
    | _, _ => later

/-- Items of normal priority in their order, then those of low priority in theirs. -/
def inTurn (l : List (Priority × WorkItem)) : List WorkItem :=
  (l.filter (·.1 = .normal)).map (·.2) ++ (l.filter (·.1 = .low)).map (·.2)

/-- Accepted resumptions are queued in their turn behind those that were queued before. -/
theorem work_resumeAll (l : List (Bookmark × Value × Priority)) {ns ls : List QueuedItem}
    (hi : e.queue.items = ns ++ ls) (hn : ∀ a ∈ ns, a.priority = .normal)
    (hl : ∀ a ∈ ls, a.priority = .low) : (e.resumeAll l).queue.work =
      (ns.map (·.item) ++ ((e.accepted l).filter (·.1 = .normal)).map (·.2)) ++
        (ls.map (·.item) ++ ((e.accepted l).filter (·.1 = .low)).map (·.2)) := by
  induction l generalizing e ns ls with
  | nil => simp [resumeAll, accepted, WorkQueue.work, hi]
  | cons r rest ih =>
    obtain ⟨b, v, p⟩ := r
    change ((e.resumeBookmark b v p).2.resumeAll rest).queue.work = _
    rw [accepted]
    rcases e.resumeBookmark_cases b v p with ⟨-, hr⟩ | ⟨-, -, hr⟩ | ⟨g, -, hg, hr⟩
    · rw [hr]
      exact ih hi hn hl
    · rw [hr]
      exact ih hi hn hl
    · rw [hr, hg]
      have arrived : ∀ a ∈ ns ++ ls, a.arrival < e.queue.nextArrival := fun a ha =>
        e.queue.numbered a (hi ▸ ha)
      cases p with
      | normal =>
        have pushed : (e.queue.push (resumption b g v) .normal).items =
            (ns ++ [⟨.normal, e.queue.nextArrival, resumption b g v⟩]) ++ ls := by
          rw [List.append_assoc]
          refine (congrArg (WorkQueue.insert _) hi).trans (WorkQueue.insert_normal (fun a ha => ?_) hl)
          exact ⟨hn a ha, arrived a (List.mem_append_left _ ha)⟩
        rw [ih pushed (fun a ha => ?_) hl]
        · simp
        · rcases List.mem_append.mp ha with ha | ha
          · exact hn a ha
          · rw [List.mem_singleton.mp ha]
      | low =>
        have pushed : (e.queue.push (resumption b g v) .low).items =
            ns ++ (ls ++ [⟨.low, e.queue.nextArrival, resumption b g v⟩]) := by
          rw [← List.append_assoc]
          exact (congrArg (WorkQueue.insert _) hi).trans (WorkQueue.insert_low arrived)
        rw [ih pushed hn fun a ha => ?_]
        · simp
        · rcases List.mem_append.mp ha with ha | ha
          · exact hl a ha
          · rw [List.mem_singleton.mp ha]

/-- Resumptions that are accepted while nothing is queued wait in their turn. -/
theorem work_resumeAll_of_empty (l : List (Bookmark × Value × Priority)) (hw : e.queue.work = []) :
    (e.resumeAll l).queue.work = inTurn (e.accepted l) := by
  have items : e.queue.items = [] ++ [] := List.map_eq_nil_iff.mp hw
  exact work_resumeAll l items (fun _ ha => absurd ha List.not_mem_nil)
    fun _ ha => absurd ha List.not_mem_nil

/-- Who runs a native activity runs one while identifiers are given out in order. -/
theorem Abides.isNative (h : Abides e e') (hn : e.IsNative o) : e'.IsNative o where
  given := Nat.lt_of_lt_of_le hn.given h.next
  native hi := by
    obtain ⟨j, hj, same⟩ := h.kinds hi hn.given
    exact same.trans (hn.native hj)

/-- Whether a value can be passed to an instance: it is live and runs a native activity. -/
def receives (e : Executor) (o : InstanceId) : Bool :=
  e.isLive o && (e.nativeBody? o).isSome

/-- Who runs a native activity can be passed values as long as it is live. -/
theorem receives_eq (hn : e.IsNative o) : e.receives o = e.isLive o := by
  cases hl : e.isLive o with
  | false => rw [receives, hl, Bool.false_and]
  | true =>
    obtain ⟨i, hi, -⟩ := isLive_iff.mp hl
    have native : (e.definition.node i.node).body.kind = .native := hn.native hi
    rw [receives, hl, Bool.true_and, nativeBody?, behaviour?, instance?, hi, Option.map_some]
    rw [Body.kind] at native
    cases hb : (e.definition.node i.node).body.behaviour with
    | native body => rfl
    | code _ | async _ =>
      rw [hb] at native
      cases native

/-- A live instance runs the same activity when a value has come. -/
theorem nativeBody?_resumed (hl : e.isLive o = true) (releases : Bool) :
    (e.resumed o b releases).nativeBody? o = e.nativeBody? o := by
  have same : Extends e (e.resumed o b releases) := by
    refine Extends.trans ?_ (.of_sameCore (sameCore_trackResumed b o))
    split
    · exact .release 1
    · exact .refl e
  obtain ⟨i, hi, -⟩ := isLive_iff.mp hl
  obtain ⟨j, hj, -, -, hnode, -⟩ := same.keeps hi
  rw [nativeBody?, nativeBody?, behaviour?, behaviour?, instance?, instance?, hi, hj, Option.map_some,
    Option.map_some, same.definition, hnode]

/-- The call that passes a value to the owner of a bookmark. -/
def resumptionCall? : WorkItem → Option Call
  | .bookmark o b (some tag) v _ => some (o, .bookmarkResumed tag b v)
  | _ => none

end Executor

section Resumption

variable {m m' : Moment} {x : QueuedItem} {call : Option Call} {o : InstanceId} {b : Bookmark}
variable {tag : Option CallbackTag} {v : Value} {releases : Bool}

/-- If anybody is called for a resumption, the value is passed to the owner of the bookmark. -/
theorem Goes.call_of_resumption (g : Goes m (.took x call) m')
    (hw : x.item = .bookmark o b tag v releases) :
    call = none ∨ call = Executor.resumptionCall? x.item := by
  cases g with
  | passed => exact .inl rfl
  | opened ho ha hi hq hr =>
    have sends := Executor.sends_of_errand hr
    rw [hw] at sends ⊢
    cases sends with
    | bookmark hl hb => exact .inr rfl

/-- A value is passed to the owner of its bookmark if that can be done and the bookmark has a
callback. -/
theorem Goes.resumption (g : Goes m (.took x call) m')
    (hw : x.item = .bookmark o b tag v releases) :
    call = if m.executor.receives o then Executor.resumptionCall? x.item else none := by
  cases g with
  | @passed e x q ho ha hi hq hr =>
    rw [hw] at hr ⊢
    split
    · next hreceives =>
      obtain ⟨hl, hb⟩ := (Bool.and_eq_true _ _).mp hreceives
      obtain ⟨body, hb⟩ := Option.isSome_iff_exists.mp hb
      cases tag with
      | none => rfl
      | some tag =>
        change Executor.resumptionErrand? { e with queue := q } o b (some tag) v releases = none at hr
        have live : Executor.isLive { e with queue := q } o = true := hl
        have there : Executor.nativeBody? { e with queue := q } o = some body := hb
        unfold Executor.resumptionErrand? at hr
        rw [live, Executor.nativeBody?_resumed live, there] at hr
        cases hr
    · rfl
  | @opened e x q r ho ha hi hq hr =>
    have sends := Executor.sends_of_errand hr
    rw [hw] at sends ⊢
    cases sends with
    | @bookmark _ _ tag _ _ body hl hb =>
      rw [Executor.nativeBody?_resumed hl] at hb
      have receives : e.receives o = true := by
        have live : e.isLive o = true := hl
        have there : e.nativeBody? o = some body := hb
        rw [Executor.receives, live, there]
        rfl
      exact (if_pos receives).symm

end Resumption

/-! ### Calls -/

/-- The call that is made for the item that is taken, if it arrived before a number. -/
def Event.callBefore? (n : Nat) : Event → Option Call
  | took x call => if x.arrival < n then call else none
  | _ => none

/-- The calls that are made for items that arrived before a number, in order. -/
def callingsBefore (n : Nat) (evs : List Event) : List Call :=
  evs.filterMap (Event.callBefore? n)

/-- If a call is made for an item at most as the item says, then the calls come in the order of the
items. -/
theorem Journey.callingsBefore_sublist {m m' : Moment} {evs : List Event} (t : Journey m evs m')
    {n : Nat} {f : WorkItem → Option Call}
    (hf : ∀ {pre m₁ x call m₂}, Journey m pre m₁ → Goes m₁ (.took x call) m₂ → x.arrival < n →
      call = none ∨ call = f x.item) :
    List.Sublist (callingsBefore n evs) ((before n (takings evs)).filterMap fun x => f x.item) := by
  induction t with
  | refl => exact .slnil
  | @step m m₁ m' ev evs g t ih =>
    have rest := ih fun t' => hf (.step g t')
    have here : callingsBefore n (ev :: evs) = (ev.callBefore? n).toList ++ callingsBefore n evs :=
      filterMap_cons_toList _ ev evs
    rw [here, takings_cons, before_append, List.filterMap_append]
    refine List.Sublist.append ?_ rest
    cases ev with
    | took x call =>
      by_cases hx : x.arrival < n
      · have first : before n (Event.took x call).taken?.toList = [x] := before_cons hx []
        rw [Event.callBefore?, if_pos hx, first, filterMap_cons_toList]
        rcases hf (.refl m) g hx with rfl | rfl
        · exact List.nil_sublist _
        · exact List.sublist_append_left _ _
      · rw [Event.callBefore?, if_neg hx]
        exact List.nil_sublist _
    | asked | served | silent => exact List.nil_sublist _

/-! ### The order of deliveries -/

namespace Executor

open Moment

variable {e : Executor} {l : List (Bookmark × Value × Priority)} {p : Priority} {w : WorkItem}

/-- What is accepted resumes registered bookmarks. -/
theorem registered_of_accepted (h : (p, w) ∈ e.accepted l) : ∃ b g v,
    e.bookmarks.registrations[b]? = some g ∧ w = resumption b g v := by
  induction l generalizing e with
  | nil => exact absurd h List.not_mem_nil
  | cons r rest ih =>
    obtain ⟨b, v, p'⟩ := r
    rw [accepted] at h
    rcases e.resumeBookmark_cases b v p' with ⟨-, hr⟩ | ⟨-, -, hr⟩ | ⟨g, -, hg, hr⟩
    · rw [hr] at h
      exact ih h
    · rw [hr] at h
      exact ih h
    · rw [hr, hg] at h
      rcases List.mem_cons.mp h with heq | h
      · cases heq
        exact ⟨b, g, v, hg, rfl⟩
      · obtain ⟨b', g', v', hg', rfl⟩ := ih h
        exact ⟨b', g', v', lookup_resumedRegistry hg', rfl⟩

/-- Calls to resume bookmarks are a journey. -/
theorem journey_resumeAll (l : List (Bookmark × Value × Priority)) :
    ∃ evs, Journey (between e) evs (between (e.resumeAll l)) := by
  induction l generalizing e with
  | nil => exact ⟨[], .refl _⟩
  | cons r rest ih =>
    obtain ⟨b, v, p⟩ := r
    obtain ⟨evs, t⟩ := ih (e := (e.resumeBookmark b v p).2)
    exact ⟨_, .step (.served (c := .resumeBookmark b v p) rfl) t⟩

/-- How the resumptions are delivered that are accepted one after the other. -/
structure DeliversResumptions (e : Executor) (l : List (Bookmark × Value × Priority)) : Prop where
  /-- They wait in their turn: those of normal priority in the order of the calls, then the others. -/
  queued : (e.resumeAll l).queue.work = inTurn (e.accepted l)
  /-- They are taken in their turn. Those that are not taken still wait, or the workflow is over. -/
  taken : ∀ {evs : List Event} {m : Moment}, Journey (between (e.resumeAll l)) evs m →
    ∃ rest, inTurn (e.accepted l) =
        (before (e.resumeAll l).queue.nextArrival (takings evs)).map (·.item) ++ rest ∧
      (rest = (before (e.resumeAll l).queue.nextArrival m.items).map (·.item) ∨ m.IsOver)
  /-- So the owners are called in their turn, and some may be omitted. -/
  called : ∀ {evs : List Event} {m : Moment}, Journey (between (e.resumeAll l)) evs m →
    List.Sublist (callingsBefore (e.resumeAll l).queue.nextArrival evs)
      ((inTurn (e.accepted l)).filterMap resumptionCall?)
  /-- Nobody is omitted to whom the value can be passed when its turn comes. -/
  exact : ∀ {evs : List Event} {m m' : Moment} {x : QueuedItem} {call : Option Call},
    Journey (between (e.resumeAll l)) evs m → Goes m (.took x call) m' →
    x.arrival < (e.resumeAll l).queue.nextArrival →
    ∃ o b tag v releases, x.item = .bookmark o b tag v releases ∧
      call = if m.executor.receives o then resumptionCall? x.item else none
  /-- In a run of one definition these are the owners that are live. -/
  native : ∀ {a : Activity}, RunOf a e → ∀ {evs : List Event} {m : Moment} {p : Priority}
    {o : InstanceId} {b : Bookmark} {tag : Option CallbackTag} {v : Value} {releases : Bool},
    Journey (between (e.resumeAll l)) evs m → (p, .bookmark o b tag v releases) ∈ e.accepted l →
    m.executor.receives o = m.executor.isLive o

/-- What is accepted waits in its turn. -/
theorem mem_inTurn {l : List (Priority × WorkItem)} : w ∈ inTurn l ↔ ∃ p, (p, w) ∈ l := by
  have either : ∀ p : Priority, p = .normal ∨ p = .low := fun p => by cases p <;> simp
  simp only [inTurn, List.mem_append, List.mem_map, List.mem_filter, decide_eq_true_eq]
  constructor
  · rintro (⟨⟨p, w'⟩, ⟨hl, -⟩, rfl⟩ | ⟨⟨p, w'⟩, ⟨hl, -⟩, rfl⟩) <;> exact ⟨p, hl⟩
  · rintro ⟨p, hl⟩
    exact (either p).imp (fun hp => ⟨_, ⟨hl, hp⟩, rfl⟩) fun hp => ⟨_, ⟨hl, hp⟩, rfl⟩

/-- While a workflow waits, nothing is queued. -/
theorem Regular.work_of_idle (h : e.Regular) (hs : e.state = .idle) : e.queue.work = [] := by
  cases h with
  | resting h => exact h.work
  | working h => exact absurd (h.running.symm.trans hs) (by decide)
  | finished h =>
    obtain ⟨r, hr, -⟩ := h.tree.rooted
    cases h.ended_root hr with
    | closed ended | canceled ended | faulted ended => exact absurd (ended.symm.trans hs) (by decide)
  | aborted h => exact absurd (h.state.symm.trans hs) (by decide)

/-- The resumptions that a waiting workflow accepts are delivered in their turn. -/
theorem Sound.delivers_resumptions (h : e.Sound) (hs : e.state = .idle)
    (l : List (Bookmark × Value × Priority)) : DeliversResumptions e l := by
  obtain ⟨pre, there⟩ := journey_resumeAll (e := e) l
  have sound : (between (e.resumeAll l)).Sound := there.sound h
  have queued := work_resumeAll_of_empty l (h.regular.work_of_idle hs)
  have resumes {evs : List Event} {m m' : Moment} {x : QueuedItem} {call : Option Call}
      (t : Journey (between (e.resumeAll l)) evs m) (g : Goes m (.took x call) m')
      (hn : x.arrival < (e.resumeAll l).queue.nextArrival) :
      ∃ o b tag v releases, x.item = .bookmark o b tag v releases := by
    have taken : x ∈ takings (evs ++ [.took x call]) := by
      rw [takings_append]
      exact List.mem_append_right _ List.mem_cons_self
    have mem := (t.trans (.single g)).mem_items sound taken hn
    have work : x.item ∈ (e.resumeAll l).queue.work := List.mem_map_of_mem mem
    rw [queued] at work
    obtain ⟨p, accepted⟩ := mem_inTurn.mp work
    obtain ⟨b, g, v, -, hw⟩ := registered_of_accepted accepted
    exact ⟨_, _, _, _, _, hw⟩
  refine ⟨queued, fun t => ?_, fun t => ?_, fun t g hn => ?_,
    fun {a} run {evs m p o b tag v releases} t ha => ?_⟩
  · rw [← queued]
    have kept := t.succession sound (Nat.le_refl _)
    rw [before_items] at kept
    rcases kept with items | ⟨ended, ⟨rest, items⟩, -⟩
    · exact ⟨_, (congrArg (List.map QueuedItem.item) items).trans List.map_append, .inl rfl⟩
    · exact ⟨_, (congrArg (List.map QueuedItem.item) items.symm).trans List.map_append, .inr ended⟩
  · have made := t.callingsBefore_sublist (n := (e.resumeAll l).queue.nextArrival)
      (f := resumptionCall?) fun t g hn => by
        obtain ⟨o, b, tag, v, releases, hw⟩ := resumes t g hn
        exact g.call_of_resumption hw
    refine made.trans ?_
    rw [← queued, WorkQueue.work, List.filterMap_map]
    exact (t.takings_prefix sound).sublist.filterMap _
  · obtain ⟨o, b, tag, v, releases, hw⟩ := resumes t g hn
    exact ⟨o, b, tag, v, releases, hw, g.resumption hw⟩
  · obtain ⟨b, g, v, hg, hw⟩ := registered_of_accepted ha
    cases hw
    exact receives_eq (((there.trans t).abides h).isNative (run.suited.owner hg))

/-- Items are done in the order in which they were queued, those of low priority last. -/
structure DeliversInOrder (e : Executor) : Prop where
  /-- A run is a journey, and the journal tells of the calls along it. -/
  runs : ∀ limit : Nat, ∃ evs entries, Journey (between e) evs (between (e.run limit).2) ∧
    (e.run limit).2.journal = e.journal ++ entries ∧
    ((calls entries).filter fun c => !c.2.isAbort) = callings evs
  /-- Of items of one priority the one that was queued first is taken first. -/
  in_order : ∀ {evs : List Event} {m : Moment}, Journey (between e) evs m →
    (takings evs).Pairwise fun x y => x.priority = y.priority → x.arrival < y.arrival
  /-- An item of low priority is taken only when no item of normal priority is queued. -/
  low_last : ∀ {evs : List Event} {m m' : Moment} {x : QueuedItem} {call : Option Call},
    Journey (between e) evs m → Goes m (.took x call) m' → x.priority = .low →
    ∀ y ∈ m.items, y.priority = .low
  /-- Whatever was queued with normal priority at any time has been taken before. -/
  normal_first : ∀ {evs later : List Event} {m₁ m m' : Moment} {x : QueuedItem} {call : Option Call},
    Journey (between e) evs m₁ → Journey m₁ later m → Goes m (.took x call) m' → x.priority = .low →
    ∀ y ∈ m₁.items, y.priority = .normal → y ∈ takings later
  /-- Children close or are canceled one at a time, and not while a program is performed. -/
  one_completes : ∀ {evs : List Event} {ev : Event} {m m' : Moment}, Journey (between e) evs m →
    Goes m ev m' → ∃ a, ∀ k, m'.executor.HasCompleted k →
      m.executor.HasCompleted k ∨ (k = a ∧ ∃ e', m' = between e')
  /-- If one child has closed or was canceled while another has not ended, the parent is not told of
  the other one first. -/
  children : ∀ {evs : List Event} {m : Moment} {a b p : InstanceId} {i : Instance},
    Journey (between e) evs m → e.instances[a]? = some i → i.parent = some p → i.HasCompleted →
    (∀ j, e.instances[b]? = some j → j.state.isTerminal = false) →
    ¬ List.Sublist [b, a] (observed p evs)
  /-- Resumptions that are accepted while the workflow waits are delivered in their turn. -/
  resumptions : e.state = .idle → ∀ l, DeliversResumptions e l

/-- Whatever hosts and bodies bring about, items are done in the order in which they were queued. -/
theorem delivers_in_order (h : (between e).Occurs) : DeliversInOrder e where
  runs limit := by
    obtain ⟨evs, t, silent⟩ := h.sound.regular.stretch_run limit
    obtain ⟨entries, journal, calls⟩ := t.journal h.sound silent
    exact ⟨evs, entries, t, journal, calls⟩
  in_order t := t.in_order h.sound
  low_last _ g hx := Journey.low_last g hx
  normal_first {evs later m₁ m m' x call} t t' g hx y hy hn := by
    have sound := t.sound h.sound
    have kept := t'.succession sound (Nat.le_refl _)
    rw [before_items] at kept
    rcases kept with items | ⟨ended, -⟩
    · rw [items] at hy
      rcases List.mem_append.mp hy with taken | waits
      · exact (mem_before.mp taken).1
      · have low := Journey.low_last g hx y (mem_before.mp waits).1
        exact absurd (hn.symm.trans low) (by decide)
    · have nothing := ((g.ensues (t'.sound sound)).stays ended).2
      cases nothing
  one_completes t g := g.one_completes (t.sound h.sound)
  children {evs m a b p i} t ha hp hi hb := by
    intro reversed
    have given : a.number < e.nextInstance := (h.sound.tree (m := between e) ha).below ha
    have waits : (between e).IsOver ∨ (between e).Past a ∨ (between e).Ahead p a b :=
      (Sound.ahead h.sound ha hp hi hb).imp_right .inr
    have ordered := (t.observed_ahead h.sound given waits).sublist reversed
    exact List.rel_of_pairwise_cons ordered List.mem_cons_self rfl rfl
  resumptions hs l := Sound.delivers_resumptions h.sound hs l

/-- A workflow of two activities that wait for bookmarks delivers in order. -/
theorem delivers_in_order_pair : waitingPair.state = .idle ∧ (between waitingPair).Occurs ∧
    DeliversInOrder waitingPair :=
  ⟨by decide +kernel, reachable_waitingPair.occurs, delivers_in_order reachable_waitingPair.occurs⟩

end Executor

end Workflow
