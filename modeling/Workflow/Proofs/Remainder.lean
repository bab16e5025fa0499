import Mathlib.Algebra.BigOperators.Group.Finset.Basic
import Mathlib.Algebra.BigOperators.Ring.List
import Mathlib.Algebra.Order.BigOperators.Group.Finset
import Mathlib.Data.Multiset.AddSub
import Mathlib.Tactic.Abel
import Workflow.Proofs.Blueprint
import Workflow.Proofs.Ledger
import Workflow.Proofs.Tree

/-!
# What is left to do

Of a quantity of which every node of a definition has a part, a live instance stands for the part of
its node and for those of the children that it still has to schedule. The parts of all instances
together are what is left. A scheduled child takes its part from its parent, and who completes gives
its own part away.
-/

namespace Workflow

/-- A quantity of which every node has a part. -/
structure Tally (M : Type) [AddCommMonoid M] where
  /-- The part of the queued execution of a node. -/
  start : M
  /-- The part of a node itself. -/
  own : NodeId → M
  /-- The parts of a node and of what is below it. -/
  whole : NodeId → M

/-- The whole is the sum of its parts. -/
def Tally.Adds {M : Type} [AddCommMonoid M] (v : Tally M) (d : Definition) : Prop :=
  ∀ {k : NodeId} {n : Node}, d.get? k = some n →
    v.whole k = v.start + v.own k + (n.children.map v.whole).sum

namespace Shape

/-- A shape has itself and what is below its children. -/
theorem size_eq (s : Shape) : s.size = 1 + (s.children.map size).sum := by
  have below : (s.children.flatMap listed).length = (s.children.map size).sum :=
    List.length_flatMap
  rw [size, listed_eq, List.length_cons, below, Nat.add_comm]

/-- The lines of several lists are those of each of them. -/
theorem coe_flatMap {α : Type} (f : α → List String) (l : List α) :
    (↑(l.flatMap f) : Multiset String) = (l.map fun a => (↑(f a) : Multiset String)).sum := by
  induction l with
  | nil => rfl
  | cons a rest ih =>
    rw [List.flatMap_cons, List.map_cons, List.sum_cons, ← ih, Multiset.coe_add]

/-- A shape has its own lines and those of its children. -/
theorem lines_eq (s : Shape) : (↑s.lines : Multiset String) =
    ↑s.ownLines + (s.children.map fun c => (↑c.lines : Multiset String)).sum := by
  have below : (s.children.flatMap listed).flatMap ownLines = s.children.flatMap lines :=
    List.flatMap_assoc
  rw [← coe_flatMap, lines, listed_eq, List.flatMap_cons, below, Multiset.coe_add]

end Shape

section Plans

variable (plan : NodeId → Shape)

/-- The leaves that write their labels, among several nodes from one on. -/
def recordsFrom (next count : Nat) : List NodeId :=
  ((List.range' next count).map NodeId.mk).filter fun k => (plan k).isRecord

/-- An activity is created, runs and ends: that makes four units of work. -/
def workTally : Tally Nat where
  start := 1
  own _ := 3
  whole k := 4 * (plan k).size

/-- Lines, and leaves whose bodies are executed. -/
abbrev Account : Type :=
  Multiset String × Multiset NodeId

/-- Every activity writes its own lines, and leaves are executed. -/
def accountTally : Tally Account where
  start := 0
  own k := (↑(plan k).ownLines, if (plan k).isRecord then {k} else 0)
  whole k := (↑(plan k).lines, ↑(recordsFrom plan k.number (plan k).size))

variable {plan}

/-- The part of a node is that of its shape. -/
theorem own_eq {k : NodeId} {s : Shape} (h : plan k = s) :
    (accountTally plan).own k = (↑s.ownLines, if s.isRecord then {k} else 0) := by
  rw [← h]
  rfl

/-- Pairs are added part by part. -/
theorem sum_map_pair {α M N : Type} [AddCommMonoid M] [AddCommMonoid N] (f : α → M) (g : α → N)
    (l : List α) : (l.map fun a => (f a, g a)).sum = ((l.map f).sum, (l.map g).sum) := by
  induction l with
  | nil => rfl
  | cons a rest ih =>
    rw [List.map_cons, List.sum_cons, ih]
    rfl

/-- The leaves of children that follow in pre-order follow. -/
theorem sum_recordsFrom (l : List Shape) (next : Nat)
    (h : (Activity.childIds next (l.map Shape.build)).map plan = l) :
    ((Activity.childIds next (l.map Shape.build)).map fun k =>
      (↑(recordsFrom plan k.number (plan k).size) : Multiset NodeId)).sum =
        ↑(recordsFrom plan next (l.map Shape.size).sum) := by
  induction l generalizing next with
  | nil => rfl
  | cons s rest ih =>
    rw [List.map_cons, Activity.childIds, Shape.size_build, List.map_cons] at h
    obtain ⟨first, later⟩ := List.cons.inj h
    have split : recordsFrom plan next (s.size + (rest.map Shape.size).sum) =
        recordsFrom plan next s.size ++
          recordsFrom plan (next + s.size) (rest.map Shape.size).sum := by
      rw [recordsFrom, recordsFrom, recordsFrom, ← List.filter_append, ← List.map_append,
        List.range'_append_1]
    rw [List.map_cons, Activity.childIds, Shape.size_build, List.map_cons, List.sum_cons, first,
      List.map_cons, List.sum_cons, split, ← Multiset.coe_add]
    exact congrArg (_ + ·) (ih _ later)

namespace Blueprint

variable {d : Definition} (h : Blueprint d plan)
include h

theorem workTally_adds : (workTally plan).Adds d := by
  intro k n hn
  have children := h.children hn
  have scaled : (n.children.map fun c => 4 * (plan c).size).sum =
      4 * ((plan k).children.map Shape.size).sum := by
    rw [← children, List.map_map]
    exact List.sum_map_mul_left _ _ _
  change 4 * (plan k).size = 1 + 3 + (n.children.map fun c => 4 * (plan c).size).sum
  rw [scaled, Shape.size_eq, Nat.mul_add]

theorem accountTally_adds : (accountTally plan).Adds d := by
  intro k n hn
  have children := h.children hn
  have ordered := h.ordered hn
  have lines : (↑(plan k).lines : Multiset String) =
      ↑(plan k).ownLines + (n.children.map fun c => (↑(plan c).lines : Multiset String)).sum := by
    rw [Shape.lines_eq, ← children, List.map_map]
    rfl
  have below : (n.children.map fun c =>
      (↑(recordsFrom plan c.number (plan c).size) : Multiset NodeId)).sum =
        ↑(recordsFrom plan (k.number + 1) ((plan k).children.map Shape.size).sum) := by
    rw [ordered]
    exact sum_recordsFrom _ _ (ordered ▸ children)
  have leaves : (↑(recordsFrom plan k.number (plan k).size) : Multiset NodeId) =
      (if (plan k).isRecord then {k} else 0) +
        ↑(recordsFrom plan (k.number + 1) ((plan k).children.map Shape.size).sum) := by
    rw [Shape.size_eq, Nat.add_comm 1, recordsFrom, List.range'_succ, List.map_cons,
      List.filter_cons]
    split
    · rfl
    · exact (zero_add _).symm
  change (_, _) = 0 + (_, _) + (n.children.map fun c => ((↑(plan c).lines : Multiset String),
    (↑(recordsFrom plan c.number (plan c).size) : Multiset NodeId))).sum
  rw [zero_add, sum_map_pair, below, lines, leaves]
  rfl

end Blueprint

end Plans

namespace InstanceTable

variable {M : Type} [AddCommMonoid M] (v : Tally M)
variable (todo : InstanceId → List NodeId) (t : InstanceTable)

/-- The parts for which an instance stands that still has to schedule children. -/
def share (k : InstanceId) : M :=
  match t[k]? with
  | some i =>
    if i.state.isLive then v.own i.node + ((todo k).map v.whole).sum else 0
  | none => 0

/-- The parts for which the instances stand whose identifiers have been given out. -/
def remaining (next : Nat) : M :=
  ∑ n ∈ Finset.range next, share v todo t ⟨n⟩

variable {v todo t} {todo' : InstanceId → List NodeId} {u : InstanceTable}
variable {k x : InstanceId} {i j : Instance} {next : Nat}

/-- A live instance stands for itself and for the children that it has to schedule. -/
theorem share_live (hi : t[k]? = some i) (hl : i.state.isLive = true) :
    share v todo t k =
      v.own i.node + ((todo k).map v.whole).sum := by
  rw [share, hi]
  exact if_pos hl

/-- Who is not live stands for nothing. -/
theorem share_eq_zero (h : ∀ i, t[k]? = some i → i.state.isLive = false) :
    share v todo t k = 0 := by
  unfold share
  split
  · next i hi =>
    rw [h i hi]
    exact if_neg Bool.false_ne_true
  · rfl

/-- What an instance stands for does not depend on others. -/
theorem share_congr (hu : u[k]? = t[k]?) (ht : todo' k = todo k) :
    share v todo' u k = share v todo t k := by
  rw [share, share, hu, ht]

/-- What an instance stands for depends on its state and its node. -/
theorem share_same (hu : u[k]? = some j) (hi : t[k]? = some i) (hn : j.node = i.node)
    (hs : j.state = i.state) (ht : todo' k = todo k) :
    share v todo' u k = share v todo t k := by
  rw [share, share, hu, hi, ht]
  dsimp only
  rw [hn, hs]

theorem remaining_congr (h : ∀ k, share v todo' u k = share v todo t k) :
    remaining v todo' u next = remaining v todo t next :=
  Finset.sum_congr rfl fun _ _ => h _

/-- If one instance stands for other parts, the rest stays. -/
theorem exists_rest (hx : x.number < next) (h : ∀ k, k ≠ x → k.number < next →
    share v todo' u k = share v todo t k) :
    ∃ rest, remaining v todo t next = share v todo t x + rest ∧
      remaining v todo' u next = share v todo' u x + rest := by
  have mem : x.number ∈ Finset.range next := Finset.mem_range.mpr hx
  have same : ∑ n ∈ (Finset.range next).erase x.number, share v todo' u ⟨n⟩ =
      ∑ n ∈ (Finset.range next).erase x.number, share v todo t ⟨n⟩ := by
    refine Finset.sum_congr rfl fun n hn => ?_
    obtain ⟨hne, hn⟩ := Finset.mem_erase.mp hn
    exact h ⟨n⟩ (fun he => hne (congrArg InstanceId.number he)) (Finset.mem_range.mp hn)
  refine ⟨∑ n ∈ (Finset.range next).erase x.number, share v todo t ⟨n⟩, ?_, ?_⟩
  · exact (Finset.add_sum_erase _ _ mem).symm
  · rw [← same]
    exact (Finset.add_sum_erase _ _ mem).symm

/-- Nothing is left if nobody is live. -/
theorem remaining_eq_zero (h : ∀ {k : InstanceId} {i : Instance}, t[k]? = some i →
    i.state.isLive = false) : remaining v todo t next = 0 :=
  Finset.sum_eq_zero fun _ _ => share_eq_zero fun _ hi => h hi

/-- Who completes and has scheduled all children gives its own part away. -/
theorem remaining_ended (hx : x.number < next) (hi : t[x]? = some i)
    (hl : i.state.isLive = true) (ht : todo x = [])
    (hu : ∀ j, u[x]? = some j → j.state.isLive = false) (h : ∀ k, k ≠ x → u[k]? = t[k]?) :
    remaining v todo t next = v.own i.node + remaining v todo u next := by
  obtain ⟨rest, before, later⟩ :=
    exists_rest (v:=v) hx fun k hk _ => share_congr (h k hk) (rfl : todo k = todo k)
  rw [before, later, share_live hi hl, share_eq_zero hu, ht, List.map_nil, List.sum_nil, add_zero,
    zero_add]

/-- A scheduled child takes its part from its parent. -/
theorem remaining_planted {p : InstanceId} {q q' c : Instance} {rest children : List NodeId}
    (hu : Planted t u p ⟨next⟩ q q' c) (hp : p.number < next) (hq : q.state.isLive = true)
    (hqs : q'.state = q.state) (hqn : q'.node = q.node) (hc : c.state.isLive = true)
    (ht : todo p = c.node :: rest)
    (hw : v.whole c.node = v.start + v.own c.node + (children.map v.whole).sum) :
    v.start + remaining v (Function.update (Function.update todo p rest) ⟨next⟩ children) u
      (next + 1) = remaining v todo t next := by
  obtain ⟨todo', htodo⟩ : ∃ todo' : InstanceId → List NodeId,
    todo' = Function.update (Function.update todo p rest) ⟨next⟩ children := ⟨_, rfl⟩
  have atParent : todo' p = rest := by
    rw [htodo, Function.update_of_ne hu.ne, Function.update_self]
  have atChild : todo' ⟨next⟩ = children := by
    rw [htodo, Function.update_self]
  have other : ∀ k, k ≠ p → k.number < next → share v todo' u k = share v todo t k := by
    intro k hkp hkn
    have hkc : k ≠ ⟨next⟩ := fun he => Nat.lt_irrefl _ (he ▸ hkn)
    refine share_congr ?_ ?_
    · rw [hu.look, if_neg (Ne.symm hkp), if_neg (Ne.symm hkc)]
    · rw [htodo, Function.update_of_ne hkc, Function.update_of_ne hkp]
  have child : share v todo' u ⟨next⟩ = v.own c.node + (children.map v.whole).sum := by
    rw [share_live hu.at_child hc, atChild]
  have parent : share v todo t p = v.whole c.node + share v todo' u p := by
    rw [share_live hu.parent hq, share_live hu.at_parent (hqs ▸ hq), ht, atParent, hqn, List.map_cons,
      List.sum_cons, add_left_comm]
  obtain ⟨others, before, later⟩ := exists_rest hp other
  rw [← htodo, remaining, Finset.sum_range_succ]
  change v.start + (remaining v todo' u next + share v todo' u ⟨next⟩) = _
  rw [before, later, child, parent, hw]
  abel

/-- What is left does not grow if no instance stands for more, and it shrinks with one of them. -/
theorem remaining_le {v : Tally Nat} {n : Nat} (hx : x.number < next)
    (h : ∀ k, share v todo' u k ≤ share v todo t k)
    (hxs : share v todo' u x + n ≤ share v todo t x) :
    remaining v todo' u next + n ≤ remaining v todo t next := by
  have mem : x.number ∈ Finset.range next := Finset.mem_range.mpr hx
  have others : ∑ n ∈ (Finset.range next).erase x.number, share v todo' u ⟨n⟩ ≤
      ∑ n ∈ (Finset.range next).erase x.number, share v todo t ⟨n⟩ :=
    Finset.sum_le_sum fun n _ => h ⟨n⟩
  rw [remaining, remaining, ← Finset.add_sum_erase _ (fun n => share v todo' u ⟨n⟩) mem,
    ← Finset.add_sum_erase _ (fun n => share v todo t ⟨n⟩) mem]
  change _ ≤ share v todo t x + _
  change share v todo' u x + _ + n ≤ _
  omega

/-- What an instance stands for is left. -/
theorem share_le_remaining {v : Tally Nat} (hx : x.number < next) :
    share v todo t x ≤ remaining v todo t next :=
  Finset.single_le_sum (f := fun n => share v todo t ⟨n⟩) (fun _ _ => Nat.zero_le _)
    (Finset.mem_range.mpr hx)

end InstanceTable

/-- How much work an item makes. A fault makes the work of telling a handler and the work of telling
it of the completion that follows. -/
def WorkItem.load : WorkItem → Nat
  | fault _ _ _ _ => 2
  | _ => 1

namespace WorkQueue

/-- How much work the queued items make. -/
def load (q : WorkQueue) : Nat :=
  (q.work.map WorkItem.load).sum

theorem load_push (q : WorkQueue) (w : WorkItem) (p : Priority) :
    (q.push w p).load = w.load + q.load := by
  rw [load, ((q.work_push_perm w p).map WorkItem.load).sum_eq, List.map_cons, List.sum_cons]
  rfl

theorem load_of_work {q r : WorkQueue} {w : WorkItem} (h : q.work = w :: r.work) :
    q.load = w.load + r.load := by
  rw [load, h, List.map_cons, List.sum_cons]
  rfl

end WorkQueue

namespace Executor

/-- The line that an entry of the journal holds. -/
def lineOf? : JournalEntry → Option String
  | .line text => some text
  | .call _ _ _ => none

/-- The lines that bodies have written since the journal was last taken. -/
def written (e : Executor) : List String :=
  e.journal.filterMap lineOf?

/-- What is written depends on the journal only. -/
theorem written_congr {e e' : Executor} (h : e'.journal = e.journal) : e'.written = e.written :=
  congrArg (List.filterMap lineOf?) h

/-- What the lines tell that are written. -/
def said (e : Executor) : Account :=
  ((↑e.written : Multiset String), 0)

/-- What is told depends on the journal only. -/
theorem said_congr {e e' : Executor} (h : e'.journal = e.journal) : e'.said = e.said := by
  rw [said, said, written_congr h]

/-- A call tells nothing. -/
theorem said_call (e : Executor) (k : InstanceId) (label : String) (callback : Callback) :
    (e.log (.call k label callback)).said = e.said := by
  rw [said, said, written, log, List.filterMap_append]
  exact congrArg (fun l : List String => ((↑l : Multiset String), 0)) (List.append_nil _)

/-- A line is told with the others. -/
theorem said_line (e : Executor) (text : String) :
    (e.log (.line text)).said = e.said + ({text}, 0) := by
  rw [said, said, written, log, List.filterMap_append]
  rfl

end Executor

end Workflow
