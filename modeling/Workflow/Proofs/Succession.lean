import Workflow.Proofs.Moment

/-!
# The order in which items are taken

From one moment to the next the queue loses at most its first item, and what is queued comes behind
everything of the same priority. So the items that were queued at a moment are taken in their order,
until they have all been taken or the workflow is over.
-/

namespace Workflow

namespace Event

/-- The item that is taken. -/
def taken? : Event → Option QueuedItem
  | took a _ => some a
  | _ => none

/-- The call that is made for the item that is taken. -/
def call? : Event → Option Call
  | took _ call => call
  | _ => none

end Event

/-- The items that are taken, in order. -/
def takings (evs : List Event) : List QueuedItem :=
  evs.filterMap Event.taken?

/-- The calls that are made, in order. -/
def callings (evs : List Event) : List Call :=
  evs.filterMap Event.call?

/-- What the first item of a list gives stands before what the others give. -/
theorem filterMap_cons_toList {α β : Type} (f : α → Option β) (a : α) (l : List α) :
    (a :: l).filterMap f = (f a).toList ++ l.filterMap f := by
  rw [List.filterMap_cons]
  cases f a <;> rfl

theorem takings_cons (ev : Event) (evs : List Event) :
    takings (ev :: evs) = ev.taken?.toList ++ takings evs :=
  filterMap_cons_toList Event.taken? ev evs

theorem takings_append (evs evs' : List Event) :
    takings (evs ++ evs') = takings evs ++ takings evs' :=
  List.filterMap_append

theorem callings_cons (ev : Event) (evs : List Event) :
    callings (ev :: evs) = ev.call?.toList ++ callings evs :=
  filterMap_cons_toList Event.call? ev evs

/-- Nobody is called if nothing is taken. -/
theorem callings_eq_nil {evs : List Event} (h : takings evs = []) : callings evs = [] := by
  refine List.filterMap_eq_nil_iff.mpr fun ev hev => ?_
  have none := List.filterMap_eq_nil_iff.mp h ev hev
  cases ev with
  | took a call => exact absurd none (Option.some_ne_none a)
  | asked | served | silent => rfl

/-- Whether the workflow has completed or was aborted. -/
def Moment.IsOver : Moment → Prop
  | between e => e.IsOver
  | during _ _ _ => False

/-- Every queued item has arrived. -/
theorem Moment.numbered {m : Moment} {a : QueuedItem} (h : a ∈ m.items) : a.arrival < m.next :=
  m.executor.queue.numbered a h

/-- Queued items stand in the order in which they are done. -/
theorem Moment.ordered (m : Moment) : m.items.Pairwise fun a b => a.precedes b = true :=
  m.executor.queue.ordered

theorem Moment.before_items (m : Moment) : before m.next m.items = m.items :=
  WorkQueue.Gains.before_items m.executor.queue

namespace Executor

variable {e e' e'' : Executor} {P : QueuedItem → Prop}

/-- Identifiers are given out once, and who is there and is not new runs an activity of the kind that it
ran. -/
structure Abides (e e' : Executor) : Prop where
  next : e.nextInstance ≤ e'.nextInstance
  kinds : ∀ {k : InstanceId} {i : Instance}, e'.instances[k]? = some i → k.number < e.nextInstance →
    ∃ j, e.instances[k]? = some j ∧
      (e'.definition.node i.node).body.kind = (e.definition.node j.node).body.kind

namespace Abides

theorem refl (e : Executor) : Abides e e :=
  ⟨Nat.le_refl _, fun hi _ => ⟨_, hi, rfl⟩⟩

theorem trans (h : Abides e e') (h' : Abides e' e'') : Abides e e'' where
  next := Nat.le_trans h.next h'.next
  kinds hi hk := by
    obtain ⟨j, hj, same⟩ := h'.kinds hi (Nat.lt_of_lt_of_le hk h.next)
    obtain ⟨l, hl, same'⟩ := h.kinds hj hk
    exact ⟨l, hl, same.trans same'⟩

theorem of_tends (h : Tends P e e') : Abides e e' where
  next := h.next
  kinds hi hk := by
    obtain ⟨j, hj, same⟩ := h.nodes hi hk
    exact ⟨j, hj, by rw [h.definition, same]⟩

end Abides

/-- What was queued is queued, unless the workflow has completed. -/
theorem Arrives.queued (h : Arrives P e e') :
    e.queue.items = before e.queue.nextArrival e'.queue.items ∨
      (e'.outcome ≠ none ∧ before e.queue.nextArrival e'.queue.items = []) := by
  rcases h.cases with ⟨-, gains⟩ | ⟨hn, new⟩
  · exact .inl gains.old.symm
  · refine .inr ⟨hn, List.filter_eq_nil_iff.mpr fun a ha => ?_⟩
    simpa using new a ha

end Executor

/-! ### From one moment to the next -/

/-- What one event leaves of what there was. -/
structure Ensues (m : Moment) (ev : Event) (m' : Moment) : Prop where
  next : m.next ≤ m'.next
  /-- What was queued has been taken or is queued, or the workflow is over. -/
  items : m.items = ev.taken?.toList ++ before m.next m'.items ∨
    (m'.IsOver ∧ ev.taken?.toList <+: m.items ∧ before m.next m'.items = [])
  /-- What is over stays over, and nothing is taken any more. -/
  stays : m.IsOver → m'.IsOver ∧ ev.taken? = none
  abides : Executor.Abides m.executor m'.executor
  /-- The journal tells of the call, and otherwise of calls of abort hooks only. -/
  journal : ev.collects = false → ∃ l, m'.executor.journal = m.executor.journal ++ l ∧
    ((calls l).filter fun c => !c.2.isAbort) = ev.call?.toList

namespace Ensues

open Moment

variable {m m' : Moment} {ev : Event} {e e' : Executor} {r : Errand} {P : QueuedItem → Prop}
variable {p p' : Program r.kind r.Result} {a : QueuedItem} {q : WorkQueue}

/-- Calls of abort hooks are left out. -/
theorem filter_aborts {l : List JournalEntry} (h : ∀ c ∈ calls l, c.2.isAbort = true) :
    ((calls l).filter fun c => !c.2.isAbort) = [] :=
  List.filter_eq_nil_iff.mpr fun c hc => by simp [h c hc]

theorem journal_of_tends (h : Executor.Tends P e e') : ∃ l, e'.journal = e.journal ++ l ∧
    ((calls l).filter fun c => !c.2.isAbort) = [] := by
  obtain ⟨l, hl, aborts⟩ := h.journal
  exact ⟨l, hl, filter_aborts aborts⟩

/-- Items may arrive between two items of work. -/
theorem between_of_tends (h : Executor.Tends P e e') (ht : ev.taken? = none) (hc : ev.call? = none)
    (ha : e.state = .aborted → e'.IsOver) : Ensues (between e) ev (between e') where
  next := h.arrives.next
  items := ht ▸ h.arrives.queued.imp_right fun ⟨hn, hb⟩ => ⟨.inl hn, List.nil_prefix, hb⟩
  stays ho := ⟨ho.elim (fun hn => .inl (h.outcome_ne hn)) ha, ht⟩
  abides := .of_tends h
  journal _ := hc ▸ journal_of_tends h

/-- Items may arrive when a program ends. -/
theorem ends_of_tends (h : Executor.Tends P e e') : Ensues (during r e p) .silent (between e') where
  next := h.arrives.next
  items := h.arrives.queued.imp_right fun ⟨hn, hb⟩ => ⟨.inl hn, List.nil_prefix, hb⟩
  stays := False.elim
  abides := .of_tends h
  journal _ := journal_of_tends h

/-- Items may arrive when a program is answered. -/
theorem goes_of_tends (h : Executor.Tends P e e') (ho : e'.outcome = none) (ht : ev.taken? = none)
    (hc : ev.call? = none) : Ensues (during r e p) ev (during r e' p') where
  next := h.arrives.next
  items := ht ▸ h.arrives.queued.imp_right fun ⟨hn, _⟩ => absurd ho hn
  stays := False.elim
  abides := .of_tends h
  journal _ := hc ▸ journal_of_tends h

/-- An item is taken that calls nobody. -/
theorem passed (ho : e.outcome = none) (ha : e.state ≠ .aborted) (hi : e.queue.items = a :: q.items)
    (hn : q.nextArrival = e.queue.nextArrival)
    (h : Executor.Tends P { e with queue := q } e') : Ensues (between e) (.took a none) (between e') where
  next := Nat.le_trans (Nat.le_of_eq hn.symm) h.arrives.next
  items := by
    have queued := h.arrives.queued
    dsimp only at queued
    rw [hn] at queued
    exact queued.imp (fun hq => hi.trans (congrArg (a :: ·) hq))
      fun ⟨hne, hb⟩ => ⟨.inl hne, ⟨q.items, hi.symm⟩, hb⟩
  stays hover := absurd hover (Executor.not_isOver ho ha)
  abides := ⟨(Executor.Abides.of_tends h).next, (Executor.Abides.of_tends h).kinds⟩
  journal _ := journal_of_tends (e := { e with queue := q }) h

/-- An item is taken that calls a body. -/
theorem opened (ho : e.outcome = none) (ha : e.state ≠ .aborted) (hi : e.queue.items = a :: q.items)
    (hn : q.nextArrival = e.queue.nextArrival)
    (hs : Executor.Sends { e with queue := q } a.item r) (hr : r.called.outcome = none) :
    Ensues (between e) (.took a (some (r.id, r.callback))) (during r r.called p) where
  next := Nat.le_trans (Nat.le_of_eq hn.symm) (hs.before.tends Executor.Plain).arrives.next
  items := by
    have queued := (hs.before.tends Executor.Plain).arrives.queued
    dsimp only at queued
    rw [hn] at queued
    exact queued.imp (fun hq => hi.trans (congrArg (a :: ·) hq)) fun ⟨hne, _⟩ => absurd hr hne
  stays hover := absurd hover (Executor.not_isOver ho ha)
  abides := by
    have called := Executor.Abides.of_tends (hs.before.tends Executor.Plain)
    exact ⟨called.next, called.kinds⟩
  journal _ := by
    obtain ⟨l, hl, aborts⟩ := (hs.before.tends Executor.Plain).journal
    refine ⟨l ++ [.call r.id (r.before.nodeOf r.id).body.label r.callback], ?_, ?_⟩
    · change r.before.journal ++ _ = _
      rw [hl, List.append_assoc]
      rfl
    · have told : (!r.callback.isAbort) = true := by rw [hs.not_abort]; rfl
      rw [calls_append, List.filter_append, filter_aborts aborts, List.nil_append]
      exact List.filter_cons_of_pos (l := []) told

/-- An executor changes in what does not matter for work. -/
theorem between_of_sameCore (h : Executor.SameCore e e') (hj : e'.journal = e.journal)
    (ht : ev.taken? = none) (hc : ev.call? = none) : Ensues (between e) ev (between e') :=
  between_of_tends (P := Executor.Plain) (.of_sameCore h hj) ht hc fun ha => .inr (h.state.trans ha)

end Ensues

open Moment in
/-- What every event leaves of what there was. -/
theorem Goes.ensues {m m' : Moment} {ev : Event} (g : Goes m ev m') (h : m.Sound) : Ensues m ev m' := by
  have sound := g.sound h
  cases g with
  | announced e =>
    exact .between_of_sameCore Executor.sameCore_announce Executor.journal_announce rfl rfl
  | @entered e ho ha =>
    exact .between_of_tends (P := Executor.Plain) (.of_eq rfl rfl rfl rfl rfl rfl) rfl rfl
      fun hs => absurd hs ha
  | @settled e ha hw =>
    exact .between_of_tends (P := Executor.Plain) .settle rfl rfl fun hs => absurd hs ha
  | gathered e =>
    refine .between_of_tends .drainInbox rfl rfl fun ha => ?_
    exact Executor.IsOver.serve (c := .drainInbox) (.inr ha) rfl
  | @served e c hc =>
    by_cases ha : ∃ reason, c = .abort reason
    · obtain ⟨reason, rfl⟩ := ha
      rcases e.abort_eq reason with hs | ⟨hs, hq, hi, hn, hj⟩
      · have same : (ExecutorCall.serve e (.abort reason)).2 = e := hs
        rw [same]
        exact .between_of_sameCore (.refl e) rfl rfl rfl
      · have none_left : before e.queue.nextArrival (e.abort reason).queue.items = [] := by
          rw [hq]
          rfl
        refine ⟨?_, .inr ⟨.inr hs, List.nil_prefix, none_left⟩, fun _ => ⟨.inr hs, rfl⟩,
          ⟨Nat.le_of_eq hn.symm, fun {k i} hk => ?_⟩, fun _ => ?_⟩
        · change e.queue.nextArrival ≤ (e.abort reason).queue.nextArrival
          rw [hq]
          exact Nat.le_refl _
        · change (e.abort reason).instances[k]? = some i at hk
          rw [hi] at hk
          simp at hk
        · obtain ⟨l, hl, aborts⟩ := hj
          exact ⟨l, hl, Ensues.filter_aborts aborts⟩
    · exact .between_of_tends (.serve hc fun r hr => ha ⟨r, hr⟩) rfl rfl fun hs =>
        Executor.IsOver.serve (.inr hs) hc
  | collected e =>
    have same : Ensues (between e) .silent (between e) :=
      .between_of_sameCore (.refl e) rfl rfl rfl
    exact ⟨same.next, same.items, same.stays, ⟨same.abides.next, same.abides.kinds⟩, nofun⟩
  | hosted hn isHosted =>
    exact .between_of_tends (P := Executor.Plain) (.of_eq rfl rfl rfl rfl rfl rfl) rfl rfl .inr
  | @altered e d ha =>
    have same : Ensues (between e) .silent (between e) :=
      .between_of_sameCore (.refl e) rfl rfl rfl
    refine ⟨same.next, same.items, same.stays, ⟨Nat.le_refl _, fun hi _ => ⟨_, hi, ?_⟩⟩, same.journal⟩
    exact (ha.kind _).symm
  | passed ho ha hi hn hr => exact .passed ho ha hi hn (Executor.Concludes.dispatch hr).tends
  | opened ho ha hi hn hr =>
    obtain ⟨_, _, _, pending⟩ := sound
    obtain ⟨X, running⟩ := pending.running
    exact .opened ho ha hi hn (Executor.sends_of_errand hr) running.consistent.opened
  | @answered r e q rest =>
    obtain ⟨_, _, _, pending⟩ := sound
    obtain ⟨X, running⟩ := pending.running
    exact .goes_of_tends (.answer q) running.consistent.opened rfl rfl
  | @closed r e a =>
    obtain ⟨_, _, _, pending⟩ := h
    exact .ends_of_tends ((Executor.sends_of_errand pending.errand).after a e).tends
  | @crashed r e c => exact .ends_of_tends (Executor.Concludes.raises (.refl e) r.id c.toError).tends

/-! ### Along a journey -/

namespace Journey

variable {m m' : Moment} {ev : Event} {evs : List Event}

theorem abides (t : Journey m evs m') (h : m.Sound) : Executor.Abides m.executor m'.executor := by
  induction t with
  | refl => exact .refl _
  | step g _ ih => exact (g.ensues h).abides.trans (ih (g.sound h))

/-- In a workflow that is over nothing is taken. -/
theorem stays_over (t : Journey m evs m') (h : m.Sound) (ho : m.IsOver) :
    m'.IsOver ∧ takings evs = [] := by
  induction t with
  | refl => exact ⟨ho, rfl⟩
  | step g _ ih =>
    obtain ⟨ended, none⟩ := (g.ensues h).stays ho
    obtain ⟨later, rest⟩ := ih (g.sound h) ended
    refine ⟨later, ?_⟩
    rw [takings_cons, none, rest]
    rfl

/-- The items that arrived before some time and were queued at a moment are taken in their order. Those
that are not taken are still queued, or the workflow is over. -/
theorem succession (t : Journey m evs m') (h : m.Sound) {n : Nat} (hn : n ≤ m.next) :
    before n m.items = before n (takings evs) ++ before n m'.items ∨
      (m'.IsOver ∧ before n (takings evs) <+: before n m.items ∧ before n m'.items = []) := by
  induction t with
  | refl m => exact .inl rfl
  | @step m m₁ m' ev evs g t ih =>
    have step := g.ensues h
    have later := ih (g.sound h) (Nat.le_trans hn step.next)
    have split : before n (takings (ev :: evs)) =
        before n ev.taken?.toList ++ before n (takings evs) := by
      rw [takings_cons, before_append]
    rw [split]
    rcases step.items with hi | ⟨hover, hp, hnone⟩
    · have first : before n m.items = before n ev.taken?.toList ++ before n m₁.items := by
        rw [hi, before_append, before_before hn]
      rw [first, List.append_assoc]
      refine later.imp (fun hl => by rw [hl]) fun ⟨ho, hp, hl⟩ => ⟨ho, ?_, hl⟩
      exact List.prefix_append_right_inj _ |>.mpr hp
    · obtain ⟨hover', hnothing⟩ := t.stays_over (g.sound h) hover
      have gone : before n m₁.items = [] := by
        rw [← before_before hn, hnone]
        rfl
      refine .inr ⟨hover', ?_, ?_⟩
      · rw [hnothing]
        change before n ev.taken?.toList ++ [] <+: _
        rw [List.append_nil]
        exact hp.filter _
      · rw [gone] at later
        rcases later with hl | ⟨-, -, hl⟩
        · exact (List.append_eq_nil_iff.mp hl.symm).2
        · exact hl

/-- The items that are taken and had arrived at a moment are the first ones that were queued then. -/
theorem takings_prefix (t : Journey m evs m') (h : m.Sound) :
    before m.next (takings evs) <+: m.items := by
  have kept := t.succession h (Nat.le_refl _)
  rw [m.before_items] at kept
  rcases kept with hs | ⟨-, hp, -⟩
  · exact ⟨_, hs.symm⟩
  · exact hp

/-- What is taken and had arrived at a moment was queued then. -/
theorem mem_items {a : QueuedItem} (t : Journey m evs m') (h : m.Sound) (ha : a ∈ takings evs)
    (hn : a.arrival < m.next) : a ∈ m.items :=
  (t.takings_prefix h).subset (mem_before.mpr ⟨ha, hn⟩)

/-- The item that is taken stands first. -/
theorem first {a : QueuedItem} {call : Option Call} (g : Goes m (.took a call) m') :
    ∃ q : WorkQueue, m.items = a :: q.items := by
  cases g with
  | passed ho ha hi hn hr => exact ⟨_, hi⟩
  | opened ho ha hi hn hr => exact ⟨_, hi⟩

/-- Of items of one priority the one that arrived first is taken first. -/
theorem in_order (t : Journey m evs m') (h : m.Sound) :
    (takings evs).Pairwise fun a b => a.priority = b.priority → a.arrival < b.arrival := by
  induction t with
  | refl => exact .nil
  | @step m m₁ m' ev evs g t ih =>
    have rest := ih (g.sound h)
    have whole := takings_prefix (.step g t) h
    have arrived : ∀ a, ev.taken? = some a → a.arrival < m.next := by
      intro a ha
      cases ev with
      | took b call =>
        cases ha
        obtain ⟨q, hi⟩ := first g
        exact Moment.numbered (hi ▸ List.mem_cons_self)
      | asked | served | silent => cases ha
    rw [takings_cons] at whole ⊢
    cases ht : ev.taken? with
    | none => exact rest
    | some a =>
      rw [ht] at whole
      have ordered : (before m.next (a :: takings evs)).Pairwise fun a b => a.precedes b = true :=
        m.ordered.sublist whole.sublist
      have early := arrived a ht
      rw [before_cons early] at ordered
      refine List.pairwise_cons.mpr ⟨fun b hb same => ?_, rest⟩
      by_cases hn : b.arrival < m.next
      · have precedes := List.rel_of_pairwise_cons ordered (mem_before.mpr ⟨hb, hn⟩)
        rw [QueuedItem.precedes, ← same] at precedes
        cases hp : a.priority <;> rw [hp] at precedes <;> exact of_decide_eq_true precedes
      · omega

/-- An item of low priority is taken only when no item of normal priority is queued. -/
theorem low_last {a : QueuedItem} {call : Option Call} (g : Goes m (.took a call) m')
    (ha : a.priority = .low) : ∀ b ∈ m.items, b.priority = .low := by
  obtain ⟨q, hi⟩ := first g
  have ordered : (a :: q.items).Pairwise fun a b => a.precedes b = true :=
    hi ▸ m.ordered
  intro b hb
  rw [hi] at hb
  rcases List.mem_cons.mp hb with rfl | hb
  · exact ha
  · have precedes := List.rel_of_pairwise_cons ordered hb
    cases hb : b.priority with
    | low => rfl
    | normal => rw [QueuedItem.precedes, ha, hb] at precedes; exact absurd precedes Bool.false_ne_true

/-- Unless the host takes the journal, it tells of the calls that are made, and otherwise of calls of
abort hooks only. -/
theorem journal (t : Journey m evs m') (h : m.Sound) (hc : ∀ ev ∈ evs, ev.collects = false) :
    ∃ l, m'.executor.journal = m.executor.journal ++ l ∧
      ((calls l).filter fun c => !c.2.isAbort) = callings evs := by
  induction t with
  | refl m => exact ⟨[], (List.append_nil _).symm, rfl⟩
  | @step m m₁ m' ev evs g _ ih =>
    obtain ⟨l, hl, hcalls⟩ := (g.ensues h).journal (hc ev List.mem_cons_self)
    obtain ⟨r, hr, hcalls'⟩ := ih (g.sound h) fun ev hev => hc ev (List.mem_cons_of_mem _ hev)
    refine ⟨l ++ r, by rw [hr, hl, List.append_assoc], ?_⟩
    rw [calls_append, List.filter_append, hcalls, hcalls', callings_cons]

end Journey

end Workflow
