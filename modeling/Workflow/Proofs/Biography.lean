import Workflow.Proofs.RecordOrder

/-!
# What is reported of one activity

The events about one instance tell its life. It is scheduled, its body runs, then it works, and at last
it ends. A phase says how far they have come, and it says where the instance stands in the executor.
-/

namespace Workflow

namespace TrackingEvent

/-- Whether an event concerns an instance, which is scheduled or schedules another one, changes its
state or is resumed. -/
def concerns (k : InstanceId) : TrackingEvent → Bool
  | scheduled parent child => child.id == k || parent.any (·.id == k)
  | stateChanged a _ => a.id == k
  | bookmarkResumed _ owner => owner.id == k
  | _ => false

/-- Whether an event belongs to the work of an instance, which schedules another one, is asked to
cancel or is resumed. -/
def isWorkOf (k : InstanceId) : TrackingEvent → Bool
  | scheduled parent child => parent.any (·.id == k) && child.id != k
  | stateChanged a s => a.id == k && s == .canceling
  | bookmarkResumed _ owner => owner.id == k
  | _ => false

/-- Whether an event tells that an instance is asked to cancel. -/
def isCanceling : TrackingEvent → Bool
  | stateChanged _ s => s == .canceling
  | _ => false

end TrackingEvent

/-- The order of the events about an instance that was scheduled as a child. -/
structure InTurn (k : InstanceId) (parent child : ActivityInfo)
    (start work finish : List TrackingEvent) : Prop where
  /-- It is scheduled by another instance. -/
  scheduled : child.id = k ∧ parent.id ≠ k
  /-- Its body runs at most once, and before all its other work. -/
  started : (start = [] ∧ work = []) ∨ ∃ a, a.id = k ∧ start = [.stateChanged a .executing]
  worked : ∀ x ∈ work, x.isWorkOf k = true
  /-- It is asked to cancel at most once. -/
  asked : work.countP TrackingEvent.isCanceling ≤ 1
  /-- It ends at most once, and nothing follows. -/
  finished : finish = [] ∨
    ∃ a s, a.id = k ∧ ActivityState.isTerminal s = true ∧ finish = [.stateChanged a s]

/-- An instance whose body runs goes on with its work. -/
theorem InTurn.goOn {k : InstanceId} {parent child : ActivityInfo} {start work : List TrackingEvent}
    (h : InTurn k parent child start work []) (hs : start ≠ []) {x : TrackingEvent}
    (hx : x.isWorkOf k = true) (ha : (work ++ [x]).countP TrackingEvent.isCanceling ≤ 1) :
    InTurn k parent child start (work ++ [x]) [] where
  scheduled := h.scheduled
  started := .inr (h.started.resolve_left fun h => hs h.1)
  worked y hy := by
    rcases List.mem_append.mp hy with hy | hy
    · exact h.worked y hy
    · exact List.mem_singleton.mp hy ▸ hx
  asked := ha
  finished := .inl rfl

/-- The report of an end stands among the events about an instance only if it has ended. -/
theorem InTurn.finished_of_mem {k : InstanceId} {parent child a : ActivityInfo}
    {start work finish : List TrackingEvent} {s : ActivityState}
    (h : InTurn k parent child start work finish)
    (hm : .stateChanged a s ∈ .scheduled (some parent) child :: (start ++ work ++ finish))
    (hs : s.isTerminal = true) : finish ≠ [] := by
  rintro rfl
  rw [List.append_nil] at hm
  rcases List.mem_append.mp ((List.mem_cons.mp hm).resolve_left nofun) with hm | hm
  · -- Only the execution is reported before the work.
    rcases h.started with ⟨rfl, -⟩ | ⟨b, -, rfl⟩
    · exact absurd hm List.not_mem_nil
    · cases List.mem_singleton.mp hm
      cases hs
  · have asked : a.id = k ∧ s = .canceling := by simpa [TrackingEvent.isWorkOf] using h.worked _ hm
    rw [asked.2] at hs
    cases hs

/-- How far the events about an instance have come. -/
inductive Phase where
  /-- There is no such instance yet. -/
  | unborn
  /-- Its body has not run. -/
  | dormant
  /-- Its body has run or is running, and perhaps it was asked to cancel. -/
  | awake (canceling : Bool)
  /-- It has ended. -/
  | dead (s : ActivityState)

/-- Whether an instance has begun and not ended. -/
def Phase.goesOn : Phase → Bool
  | dormant => true
  | awake _ => true
  | _ => false

/-- The events about an instance, from before it comes up to a phase. -/
inductive Biography (k : InstanceId) : List TrackingEvent → Phase → Prop
  | nil : Biography k [] .unborn
  | scheduled {xs : List TrackingEvent} {parent child : ActivityInfo}
      (h : Biography k xs .unborn) (hc : child.id = k) (hp : parent.id ≠ k) :
      Biography k (xs ++ [.scheduled (some parent) child]) .dormant
  | executing {xs : List TrackingEvent} {a : ActivityInfo} (h : Biography k xs .dormant)
      (ha : a.id = k) : Biography k (xs ++ [.stateChanged a .executing]) (.awake false)
  | schedules {xs : List TrackingEvent} {c : Bool} {parent child : ActivityInfo}
      (h : Biography k xs (.awake c)) (hp : parent.id = k) (hc : child.id ≠ k) :
      Biography k (xs ++ [.scheduled (some parent) child]) (.awake c)
  | resumed {xs : List TrackingEvent} {c : Bool} {b : Bookmark} {a : ActivityInfo}
      (h : Biography k xs (.awake c)) (ha : a.id = k) :
      Biography k (xs ++ [.bookmarkResumed b a]) (.awake c)
  | canceling {xs : List TrackingEvent} {a : ActivityInfo}
      (h : Biography k xs (.awake false)) (ha : a.id = k) :
      Biography k (xs ++ [.stateChanged a .canceling]) (.awake true)
  | ended {xs : List TrackingEvent} {p : Phase} {a : ActivityInfo} {s : ActivityState}
      (h : Biography k xs p) (hp : p.goesOn = true) (ha : a.id = k)
      (hs : s.isTerminal = true) : Biography k (xs ++ [.stateChanged a s]) (.dead s)

namespace Biography

variable {k : InstanceId} {p : Phase} {xs : List TrackingEvent}

/-- Nothing is reported of an instance that has not come. -/
theorem of_unborn (h : Biography k xs .unborn) : xs = [] := by
  cases h
  rfl

/-- The end of an instance is reported as a terminal state. -/
theorem terminal {s : ActivityState} (h : Biography k xs (.dead s)) : s.isTerminal = true := by
  cases h
  assumption

/-- What has been reported of an instance at a phase, apart from its scheduling. -/
def Told (start work finish : List TrackingEvent) : Phase → Prop
  | .unborn => False
  | .dormant => start = [] ∧ finish = []
  | .awake c => start ≠ [] ∧ finish = [] ∧ (c = false → work.countP TrackingEvent.isCanceling = 0)
  | .dead s => ∃ a, finish = [.stateChanged a s]

/-- The end of an instance that goes on has not been reported. -/
theorem Told.unfinished {start work finish : List TrackingEvent} (h : Told start work finish p)
    (hp : p.goesOn = true) : finish = [] := by
  cases p with
  | dormant => exact h.2
  | awake => exact h.2.1
  | unborn | dead => cases hp

/-- The events about an instance that is scheduled as a child come in turn. -/
theorem inTurn (h : Biography k xs p) (hp : p ≠ .unborn) :
    ∃ parent child start work finish,
      xs = .scheduled (some parent) child :: (start ++ work ++ finish) ∧
        InTurn k parent child start work finish ∧ Told start work finish p := by
  induction h with
  | nil => exact absurd rfl hp
  | @scheduled _ parent child h hc hpc =>
    rw [h.of_unborn]
    exact ⟨parent, child, [], [], [], rfl, ⟨⟨hc, hpc⟩, .inl ⟨rfl, rfl⟩, by simp, Nat.zero_le 1, .inl rfl⟩,
      rfl, rfl⟩
  | @executing _ a h ha ih =>
    obtain ⟨parent, child, start, work, finish, rfl, turn, rfl, rfl⟩ := ih Phase.noConfusion
    have idle : work = [] := by
      rcases turn.started with ⟨-, idle⟩ | ⟨a, -, started⟩
      · exact idle
      · cases started
    subst idle
    exact ⟨parent, child, [.stateChanged a .executing], [], [], by simp,
      ⟨turn.scheduled, .inr ⟨a, ha, rfl⟩, by simp, Nat.zero_le 1, .inl rfl⟩, by simp, rfl,
      fun _ => rfl⟩
  | @schedules _ c parent child h hpk hck ih =>
    obtain ⟨p, q, start, work, finish, rfl, turn, started, rfl, asked⟩ := ih Phase.noConfusion
    have same : (work ++ [TrackingEvent.scheduled (some parent) child]).countP
        TrackingEvent.isCanceling = work.countP TrackingEvent.isCanceling := by
      simp [TrackingEvent.isCanceling]
    refine ⟨p, q, start, work ++ [.scheduled (some parent) child], [], by simp,
      turn.goOn started ?_ (same ▸ turn.asked), started, rfl, same ▸ asked⟩
    simp [TrackingEvent.isWorkOf, hpk, hck]
  | @resumed _ c b a h ha ih =>
    obtain ⟨p, q, start, work, finish, rfl, turn, started, rfl, asked⟩ := ih Phase.noConfusion
    have same : (work ++ [TrackingEvent.bookmarkResumed b a]).countP TrackingEvent.isCanceling =
        work.countP TrackingEvent.isCanceling := by simp [TrackingEvent.isCanceling]
    refine ⟨p, q, start, work ++ [.bookmarkResumed b a], [], by simp,
      turn.goOn started ?_ (same ▸ turn.asked), started, rfl, same ▸ asked⟩
    simp [TrackingEvent.isWorkOf, ha]
  | @canceling _ a h ha ih =>
    obtain ⟨p, q, start, work, finish, rfl, turn, started, rfl, asked⟩ := ih Phase.noConfusion
    have once : (work ++ [TrackingEvent.stateChanged a .canceling]).countP
        TrackingEvent.isCanceling = 1 := by
      simp [TrackingEvent.isCanceling, asked rfl]
    refine ⟨p, q, start, work ++ [.stateChanged a .canceling], [], by simp,
      turn.goOn started ?_ (Nat.le_of_eq once), started, rfl, nofun⟩
    simp [TrackingEvent.isWorkOf, ha]
  | @ended _ p a s h hgo ha hs ih =>
    have living : p ≠ .unborn := by
      rintro rfl
      cases hgo
    obtain ⟨parent, child, start, work, finish, rfl, turn, told⟩ := ih living
    have unfinished : finish = [] := told.unfinished hgo
    subst unfinished
    exact ⟨parent, child, start, work, [.stateChanged a s], by simp,
      ⟨turn.scheduled, turn.started, turn.worked, turn.asked, .inr ⟨a, s, ha, hs, rfl⟩⟩, a, rfl⟩

end Biography

end Workflow
