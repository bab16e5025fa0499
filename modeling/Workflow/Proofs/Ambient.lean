import Workflow.Proofs.Lifetime

/-!
# Ambient scopes

A child runs in the scope of its parent, in the default one, or in one of its parent's own. A scope is
gone when its owner has ended, and an instance ends after all that is below it. So the scope in which a
live instance runs is there as long as the instance is.
-/

namespace Workflow

open Moment

/-- Who was below an instance is below it as long as nobody leaves or gets another parent. -/
theorem Under.keeps {t u : InstanceTable} {a k : InstanceId} (h : Under t a k)
    (keep : ∀ {k : InstanceId} {i : Instance}, t[k]? = some i →
      ∃ j, u[k]? = some j ∧ j.parent = i.parent) : Under u a k := by
  induction h with
  | child hi hp =>
    obtain ⟨j, hj, same⟩ := keep hi
    exact .child hj (same.trans hp)
  | deeper hi hp _ ih =>
    obtain ⟨j, hj, same⟩ := keep hi
    exact .deeper hj (same.trans hp) ih

namespace Executor

variable {e e' r : Executor} {x a k : InstanceId} {i : Instance} {B : InstanceId → Prop}

/-- The ambient scope of an instance is the default one, or one that is registered for an ancestor. -/
def Sheltered (e : Executor) (k : InstanceId) (scope : Scope) : Prop :=
  scope = .default ∨ ∃ s a, scope = .named s ∧ e.bookmarks.scopes[s]? = some a ∧ Under e.instances a k

/-- Every live instance runs in a scope that is there. -/
def Ambient (e : Executor) : Prop :=
  ∀ {k : InstanceId} {i : Instance}, e.instances[k]? = some i → i.state.isLive = true →
    e.Sheltered k i.scope

/-! ### What goes on -/

/-- As long as an instance is live, its ancestors are live and above it. -/
theorem Wanes.under (h : Wanes B e e')
    (ht : IsTree e'.definition e'.root e'.nextInstance e'.instances)
    (hu : Under e.instances a k) (hl : e'.isLive k = true) :
    Under e'.instances a k ∧ e'.isLive a = true := by
  induction hu with
  | child hi hp =>
    obtain ⟨i', hi', -⟩ := isLive_iff.mp hl
    obtain ⟨j, hj, wanes⟩ := h.back hi'
    cases hi.symm.trans hj
    have hp' := wanes.parent.trans hp
    obtain ⟨q, hq, hql, -⟩ := parent_live ht hi' hp'
    exact ⟨.child hi' hp', isLive_iff.mpr ⟨q, hq, hql⟩⟩
  | deeper hi hp _ ih =>
    obtain ⟨i', hi', -⟩ := isLive_iff.mp hl
    obtain ⟨j, hj, wanes⟩ := h.back hi'
    cases hi.symm.trans hj
    have hp' := wanes.parent.trans hp
    obtain ⟨q, hq, hql, -⟩ := parent_live ht hi' hp'
    obtain ⟨above, live⟩ := ih (isLive_iff.mpr ⟨q, hq, hql⟩)
    exact ⟨.deeper hi' hp' above, live⟩

/-- A scope stays as long as somebody runs in it. -/
theorem Ambient.wanes (h : e.Ambient) (hw : Wanes B e e')
    (ht : ∀ {k : InstanceId} {i : Instance}, e'.instances[k]? = some i →
      IsTree e'.definition e'.root e'.nextInstance e'.instances) : e'.Ambient := by
  intro k i hi hl
  obtain ⟨j, hj, wanes⟩ := hw.back hi
  rcases h hj (wanes.live hl) with hd | ⟨s, a, hs, ha, hu⟩
  · exact .inl (wanes.scope.trans hd)
  · obtain ⟨above, live⟩ := hw.under (ht hi) hu (isLive_iff.mpr ⟨i, hi, hl⟩)
    have stays := (hw.scopes ha).resolve_right (by rw [live]; exact Bool.noConfusion)
    exact .inr ⟨s, a, wanes.scope.trans hs, stays, above⟩

/-! ### Children -/

/-- The scope that a child gets is its parent's, the default one, or one of its parent's own. -/
theorem childScope_cases {p : Instance} {asked : Option Scope} {scope : Scope}
    (h : e.childScope p asked = .ok scope) :
    scope = p.scope ∨ scope = .default ∨ e.bookmarks.scopeOwner? scope = some p.id := by
  unfold childScope at h
  split at h
  · cases h
    exact .inl rfl
  · cases h
    exact .inr (.inl rfl)
  · split at h
    · next owned =>
      cases h
      exact owned.elim (fun ho => .inr (.inr ho)) .inl
    · cases h

/-- A new child runs in a scope that is there, and so does everybody else. -/
theorem Ambient.schedule {X : InstanceId → Prop} (h : e.Ambient) (hp : e.Placed X) (node : NodeId)
    (options : ScheduleOptions) : (e.scheduleChild x node options).2.Ambient := by
  unfold Executor.scheduleChild
  split
  · exact h
  · next p scope hs =>
    obtain ⟨hi, hstate, -, hscope⟩ := checkSchedule_ok hs
    have core : SameCore (e.adopt x (e.newChild x node scope options))
        (e.addChild x node scope options).2 := sameCore_trackScheduled _ _
    have planted := hp.planted (c := e.newChild x node scope options) hi rfl
    have extends_ := hp.extends_adopt (c := e.newChild x node scope options) hi rfl
    generalize he : e.newChild x node scope options = c at core planted extends_
    intro k i hk hl
    have keeps : ∀ {a k : InstanceId}, Under e.instances a k →
        Under (e.adopt x c).instances a k := fun hu => hu.keeps fun hi => by
      obtain ⟨j, hj, -, same, -⟩ := extends_.keeps hi
      exact ⟨j, hj, same⟩
    dsimp only at hk ⊢
    rw [Sheltered, core.bookmarks, core.instances]
    rw [core.instances] at hk
    have still : ∀ {k : InstanceId} {scope : Scope}, e.Sheltered k scope → scope = .default ∨
        ∃ s a, scope = .named s ∧ e.bookmarks.scopes[s]? = some a ∧
          Under (e.adopt x c).instances a k := fun hsh =>
      hsh.imp_right fun ⟨s, a, hs, ha, hu⟩ => ⟨s, a, hs, ha, keeps hu⟩
    have ambient : e.Sheltered x p.scope := h hi (by rw [hstate]; rfl)
    rcases planted.cases hk with ⟨rfl, rfl⟩ | ⟨rfl, rfl⟩ | ⟨-, -, hk⟩
    · exact still ambient
    · -- The child stands below its parent, and so below whoever is above the parent.
      have parent : i.parent = some x := by rw [← he]; rfl
      have given : i.scope = scope := by rw [← he]; rfl
      rw [given]
      rcases childScope_cases hscope with inherited | standard | own
      · rw [inherited]
        refine ambient.imp_right fun ⟨s, a, hs, ha, hu⟩ => ?_
        exact ⟨s, a, hs, ha, .deeper hk parent (keeps hu)⟩
      · exact .inl standard
      · cases scope with
        | default => exact .inl rfl
        | named s =>
          rw [hp.tree.keyed hi] at own
          exact .inr ⟨s, x, rfl, own, .child hk parent⟩
    · exact still (h hk hl)

end Executor

/-! ### Steps -/

/-- A scope that is drawn at a moment is to have an identifier of its own. -/
def DrawsFresh (m : Moment) (ev : Event) : Prop :=
  ev.createsScope = true → m.executor.DrawsFresh

/-- From one moment to the next the scopes stay in which live instances run. -/
theorem Goes.ambient {m m' : Moment} {ev : Event} (g : Goes m ev m') (h : m.Sound)
    (ha : m.executor.Ambient) (fresh : DrawsFresh m ev) : m'.executor.Ambient := by
  by_cases hs : ev.schedules = true
  · cases g with
    | @answered r e q rest =>
      obtain ⟨_, _, _, pending⟩ := h
      obtain ⟨X, running⟩ := pending.running
      cases r
      cases q with
      | scheduling q =>
        cases q with
        | schedule node options => exact ha.schedule running.consistent.placed node options
        | _ => exact absurd hs Bool.noConfusion
      | _ => exact absurd hs Bool.noConfusion
    | _ => exact absurd hs Bool.noConfusion
  · rw [Bool.not_eq_true] at hs
    exact ha.wanes (g.wanes h hs fresh) fun hi => (g.sound h).tree hi

/-- The root of a new workflow runs in the default scope. -/
theorem Moment.IsFirst.ambient {m : Moment} (h : m.IsFirst) : m.executor.Ambient := by
  obtain ⟨workflow, a, inputs, mailbox, e, created, rfl⟩ := h
  obtain ⟨-, -, rfl⟩ := Executor.create_eq_ok.mp created
  intro k i hi _
  obtain ⟨-, rfl⟩ := Executor.lookup_rootOnly.mp hi
  exact .inl rfl

/-- In all of a life the scopes are there in which live instances run. -/
theorem Lifetime.ambient {m m' : Moment} {evs : List Event} (t : Lifetime DrawsFresh m evs m')
    (h : m.Sound) (ha : m.executor.Ambient) : m'.executor.Ambient := by
  refine (t.induct (Q := fun m => m.executor.Ambient) (fun sound ha fresh g => g.ambient sound ha fresh)
    (fun sound ha hc hr => ?_) h ha).2
  refine Executor.Ambient.wanes ha (.restored (B := Executor.Nobody) sound.regular hc hr) fun hi => ?_
  exact (sound.restored hc hr).regular.tree_of_lookup hi

namespace Executor

variable {e : Executor} {x : InstanceId}

/-- A bookmark in a scope that is there is not refused for its scope. -/
theorem createBookmark_ne_unknownScope {g : Registration} {s : Scope}
    (h : e.isLive g.owner = true → e.bookmarks.scopeExists g.bookmark.scope = true) :
    (e.createBookmark g).1 ≠ .error (.unknownScope s) := by
  have registers (hs : e.bookmarks.scopeExists g.bookmark.scope = true) :
      e.bookmarks.register g ≠ .error (.unknownScope s) := by
    rw [Registry.register, if_pos hs]
    intro refused
    split at refused
    · split at refused <;> cases refused
    · cases refused
  unfold createBookmark
  intro refused
  split at refused
  · next hl =>
    split at refused
    · next error hr =>
      cases refused
      exact registers (h hl) hr
    · dsimp only at refused
      split at refused <;> cases refused
  · cases refused

/-- Who asks for no scope is not refused for one. -/
theorem scheduleChild_ne_scopeNotOwned {node : NodeId} {options : ScheduleOptions} {s : Scope}
    (h : options.scope = none) : (e.scheduleChild x node options).1 ≠ .error (.scopeNotOwned s) := by
  have checks : e.checkSchedule x node options ≠ .error (.scopeNotOwned s) := by
    unfold checkSchedule
    rw [h]
    cases e.instance? x with
    | none => exact nofun
    | some p =>
      dsimp only [childScope, bind, Except.bind]
      split
      · exact nofun
      · split
        · exact nofun
        · split
          · exact nofun
          · split <;> exact nofun
  unfold scheduleChild
  split
  · next v hs =>
    intro refused
    cases refused
    exact checks hs
  · exact nofun

end Executor

/-- In all of the life of a workflow, over captures and restores, a live instance runs in the default
scope or in one that is registered for a live ancestor. So nobody is refused a bookmark for the scope in
which it runs, and nobody a child for a scope when it asks for none. The identifier of a new scope is to
name no scope that is there. -/
theorem ambient_scopes_are_usable {m₀ m : Moment} {evs : List Event} (h : m₀.IsFirst)
    (t : Lifetime DrawsFresh m₀ evs m) :
    (∀ {k : InstanceId} {i : Instance}, m.executor.instances[k]? = some i → i.state.isLive = true →
      i.scope = .default ∨ ∃ s a, i.scope = .named s ∧ m.executor.bookmarks.scopes[s]? = some a ∧
        m.executor.isLive a = true ∧ Under m.executor.instances a k) ∧
    (∀ x name callback options s,
      (m.executor.answerScheduling x (.createBookmark name none callback options)).1 ≠
        .error (.unknownScope s)) ∧
    ∀ x node options s, options.scope = none →
      (m.executor.answerScheduling x (.schedule node options)).1 ≠ .error (.scopeNotOwned s) := by
  have sound := t.sound h.sound
  have ambient : m.executor.Ambient := t.ambient h.sound h.ambient
  refine ⟨fun hi hl => ?_, fun x name callback options s => ?_, fun x node options s hn =>
    Executor.scheduleChild_ne_scopeNotOwned hn⟩
  · refine (ambient hi hl).imp_right fun ⟨s, a, hs, ha, hu⟩ => ?_
    exact ⟨s, a, hs, ha, sound.owned.scope ha, hu⟩
  · refine Executor.createBookmark_ne_unknownScope fun hl => ?_
    obtain ⟨i, hi, live⟩ := Executor.isLive_iff.mp hl
    have given : ((m.executor.instance? x).map (·.scope)).getD .default = i.scope := by
      rw [Executor.instance?, hi]
      rfl
    change m.executor.bookmarks.scopeExists
      (((m.executor.instance? x).map (·.scope)).getD .default) = true
    rw [given]
    rcases ambient hi live with hd | ⟨s, a, hs, ha, -⟩
    · rw [hd]
      rfl
    · rw [hs]
      exact Table.contains_of_lookup m.executor.bookmarks.scopes ha

/-- An activity that creates a scope and schedules its children in it. -/
def Activity.shelter (children : List Activity) : Activity :=
  .ofNative "shelter" { execute := do
    let scope ← Program.ofContract (← Program.scheduling .createScope)
    let nodes ← Program.scheduling .children
    nodes.forM fun node =>
      discard <| Program.scheduling (.schedule node { scope := some scope }) } children

/-- A workflow that gives a wait a scope. -/
def sheltering : Executor := Executor.begun (.shelter [.waitAt "stay"])

/-- The start of its root. -/
def shelterErrand : Errand :=
  (Executor.trackState { sheltering with queue := sheltering.queue.clear } ⟨1⟩ .executing).startErrand ⟨1⟩
    (sheltering.definition.node .root).body.behaviour

/-- The wait of `sheltering` runs in a scope of the root, and is refused no bookmark for that. -/
theorem ambient_scopes_are_usable_sheltering : ∃ m m' evs, Moment.IsFirst m ∧
    Lifetime DrawsFresh m evs m' ∧
    (∃ i s a, m'.executor.instances[(⟨2⟩ : InstanceId)]? = some i ∧ i.scope = .named s ∧
      m'.executor.bookmarks.scopes[s]? = some a ∧ Under m'.executor.instances a ⟨2⟩) ∧
    ∀ name callback options s,
      (m'.executor.answerScheduling ⟨2⟩ (.createBookmark name none callback options)).1 ≠
        .error (.unknownScope s) := by
  have first : Moment.IsFirst (between sheltering) :=
    ⟨_, _, _, _, _, Executor.create_eq_ok.mpr ⟨by decide +kernel, by decide +kernel, rfl⟩, rfl⟩
  obtain ⟨m, evs, life, named⟩ : ∃ m evs, Lifetime DrawsFresh (between sheltering) evs m ∧
      (m.executor.instances[(⟨2⟩ : InstanceId)]?.any fun i =>
        i.state.isLive && i.scope != .default) = true :=
    ⟨_, _, .step (.opened (q := sheltering.queue.clear) (r := shelterErrand) rfl nofun rfl rfl rfl)
        (absurd · Bool.false_ne_true) <|
      .step .answered (fun _ => Std.ExtTreeMap.getElem?_empty) <|
      .step .answered (absurd · Bool.false_ne_true) <|
      .step .answered (absurd · Bool.false_ne_true) (.refl _), by decide +kernel⟩
  obtain ⟨sheltered, creates, -⟩ := ambient_scopes_are_usable first life
  refine ⟨_, m, evs, first, life, ?_, creates ⟨2⟩⟩
  obtain ⟨i, hi, apart⟩ := (Option.any_eq_true _ _).mp named
  obtain ⟨hl, other⟩ := Bool.and_eq_true_iff.mp apart
  obtain ⟨s, a, hs, ha, -, hu⟩ := (sheltered hi hl).resolve_left (bne_iff_ne.mp other)
  exact ⟨i, s, a, hi, hs, ha, hu⟩

end Workflow
