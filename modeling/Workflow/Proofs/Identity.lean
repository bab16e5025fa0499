import Workflow.Proofs.JsonText
import Workflow.Proofs.Reloading
import Workflow.Proofs.Visibility

/-!
# What a fingerprint tells of a definition

The octets under a fingerprint run together: only two of the fields of a node end with a zero, and
nothing but a letter and a colon stands before a name. They tell the structure of a tree as long as
names keep clear of these marks.
-/

namespace Workflow

/-! ### Parts of lists -/

/-- Two lists that go on after the first mark are cut there alike. -/
theorem cut_at_mark {α : Type} {c : α} {x y z w : List α} (hx : c ∉ x) (hy : c ∉ y)
    (h : x ++ c :: z = y ++ c :: w) : x = y ∧ z = w := by
  rcases List.append_eq_append_iff.mp h with ⟨a, rfl, rest⟩ | ⟨a, rfl, rest⟩
  · cases a with
    | nil => exact ⟨(List.append_nil x).symm, (List.cons.inj rest).2⟩
    | cons b a =>
      cases (List.cons.inj rest).1
      exact absurd (List.mem_append_right x List.mem_cons_self) hy
  · cases a with
    | nil => exact ⟨List.append_nil y, (List.cons.inj rest).2.symm⟩
    | cons b a =>
      cases (List.cons.inj rest).1
      exact absurd (List.mem_append_right y List.mem_cons_self) hx

/-- Two lists are cut alike at the last mark. -/
theorem cut_at_last_mark {α : Type} {c : α} {x y z w : List α} (hz : c ∉ z) (hw : c ∉ w)
    (h : x ++ c :: z = y ++ c :: w) : x = y ∧ z = w := by
  have turned := congrArg List.reverse h
  simp only [List.reverse_append, List.reverse_cons, List.append_assoc, List.singleton_append]
    at turned
  obtain ⟨hzw, hxy⟩ := cut_at_mark (mt List.mem_reverse.mp hz) (mt List.mem_reverse.mp hw) turned
  exact ⟨List.reverse_injective hxy, List.reverse_injective hzw⟩

/-- What is told alike of items that are told apart is told alike of their lists. -/
theorem map_told {α β γ : Type} {f : α → β} {g : α → γ} {as bs : List α}
    (told : ∀ a ∈ as, ∀ b ∈ bs, f a = f b → g a = g b) (h : as.map f = bs.map f) :
    as.map g = bs.map g := by
  induction as generalizing bs with
  | nil =>
    cases bs with
    | nil => rfl
    | cons b bs => cases h
  | cons a as ih =>
    cases bs with
    | nil => cases h
    | cons b bs =>
      obtain ⟨first, rest⟩ := List.cons.inj h
      have same := told a List.mem_cons_self b List.mem_cons_self first
      have others := ih (fun a ha b hb =>
        told a (List.mem_cons_of_mem _ ha) b (List.mem_cons_of_mem _ hb)) rest
      exact congrArg₂ List.cons same others

/-! ### Octets of texts -/

namespace Utf8

theorem encode_append (s t : String) : encode (s ++ t) = encode s ++ encode t := by
  rw [← Json.toUTF8_flatMap, ← Json.toUTF8_flatMap, ← Json.toUTF8_flatMap, String.toList_append,
    List.flatMap_append]

theorem encode_injective {s t : String} (h : encode s = encode t) : s = t := by
  have read := congrArg decode? h
  rw [decode?_encode, decode?_encode] at read
  exact Option.some.inj read

/-- Only the character that ends texts has a zero among its octets. -/
theorem zero_not_mem_encode {s : String} (h : Char.ofNat 0 ∉ s.toList) : 0 ∉ encode s := by
  rw [← Json.toUTF8_flatMap, List.mem_flatMap]
  rintro ⟨c, hc, hz⟩
  by_cases ascii : c.toNat < 128
  · rw [Json.encodeChar_ascii ascii, List.mem_singleton] at hz
    have zero : c.toNat = 0 := by
      have value := congrArg UInt8.toNat hz
      rw [UInt8.toNat_ofNat', Nat.mod_eq_of_lt (by omega)] at value
      exact value.symm
    have same : c = Char.ofNat 0 := by
      rw [← Char.ofNat_toNat c, zero]
    exact h (same ▸ hc)
  · exact absurd (Json.le_of_mem_encodeChar ascii hz) (by decide)

end Utf8

/-! ### Digits -/

namespace Hex

theorem digitValue?_digit : ∀ n < 16, digitValue? (digit n) = some n := by
  decide

theorem decodeChars?_encodeChars (bytes : Bytes) : decodeChars? (encodeChars bytes) = some bytes := by
  induction bytes with
  | nil => rfl
  | cons b rest ih =>
    have high := digitValue?_digit (b.toNat / 16) (by have := b.toNat_lt; omega)
    have low := digitValue?_digit (b.toNat % 16) (Nat.mod_lt _ (by decide))
    have whole : UInt8.ofNat (b.toNat / 16 * 16 + b.toNat % 16) = b := by
      rw [Nat.div_add_mod', UInt8.ofNat_toNat]
    rw [encodeChars, List.flatMap_cons, List.cons_append, List.cons_append, List.nil_append,
      decodeChars?, high, low, ← encodeChars, ih]
    exact congrArg (fun b => some (b :: rest)) whole

theorem encode_injective {a b : Bytes} (h : encode a = encode b) : a = b := by
  have read := congrArg decodeChars? (String.ofList_injective h)
  rw [decodeChars?_encodeChars, decodeChars?_encodeChars] at read
  exact Option.some.inj read

end Hex

/-! ### Marks between names -/

/-- Items that each follow a letter and a colon. -/
def marked (items : List (Char × List Char)) : List Char :=
  items.flatMap fun item => item.1 :: ':' :: item.2

/-- Every colon stands beside another one. -/
def Paired (text : List Char) : Prop :=
  ∀ i < text.length, text[i]? = some ':' →
    text[i + 1]? = some ':' ∨ i ≠ 0 ∧ text[i - 1]? = some ':'

instance (text : List Char) : Decidable (Paired text) :=
  inferInstanceAs (Decidable (∀ i < text.length, _))

/-- A colon behind a letter and before a text without colons is not beside another one. -/
theorem not_paired_mark (front back : List Char) {letter : Char} (hl : letter ≠ ':')
    (hb : ':' ∉ back) : ¬ Paired (front ++ letter :: ':' :: back) := by
  intro h
  have place : (front ++ letter :: ':' :: back)[front.length + 1]? = some ':' := by
    simp
  rcases h (front.length + 1) (by simp) place with next | ⟨-, before⟩
  · have : (front ++ letter :: ':' :: back)[front.length + 1 + 1]? = back[0]? := by
      rw [List.getElem?_append_right (by omega)]
      have : front.length + 1 + 1 - front.length = 2 := by omega
      rw [this]
      rfl
    rw [this] at next
    exact hb (List.mem_of_getElem? next)
  · have : (front ++ letter :: ':' :: back)[front.length + 1 - 1]? = some letter := by
      simp
    rw [this] at before
    exact hl (Option.some.inj before)

theorem marked_concat (items : List (Char × List Char)) (letter : Char) (back : List Char) :
    marked (items ++ [(letter, back)]) = marked items ++ letter :: ':' :: back := by
  rw [marked, List.flatMap_append]
  simp [marked]

/-- A letter and a text that can be told from what surrounds them. -/
def IsItem (item : Char × List Char) : Prop :=
  item.1 ≠ ':' ∧ ':' ∉ item.2

/-- A text in which all colons are paired, and the items that follow it, can be told apart. -/
theorem marked_inj {t u : List Char} {items items' : List (Char × List Char)} (ht : Paired t)
    (hu : Paired u) (hi : ∀ i ∈ items, IsItem i) (hi' : ∀ i ∈ items', IsItem i)
    (h : t ++ marked items = u ++ marked items') : t = u ∧ items = items' := by
  -- The last item of either side is cut off at its colon.
  induction items using List.reverseRecOn generalizing items' with
  | nil =>
    cases items' using List.reverseRecOn with
    | nil => exact ⟨by simpa [marked] using h, rfl⟩
    | append_singleton init last =>
      obtain ⟨letter, back⟩ := last
      obtain ⟨hl, hb⟩ := hi' _ (List.mem_append_right _ List.mem_cons_self)
      rw [marked_concat, marked, List.flatMap_nil, List.append_nil, ← List.append_assoc] at h
      exact absurd (h ▸ ht) (not_paired_mark _ _ hl hb)
  | append_singleton init last ih =>
    obtain ⟨letter, back⟩ := last
    obtain ⟨hl, hb⟩ := hi _ (List.mem_append_right _ List.mem_cons_self)
    cases items' using List.reverseRecOn with
    | nil =>
      rw [marked_concat, marked.eq_def [], List.flatMap_nil, List.append_nil,
        ← List.append_assoc] at h
      exact absurd (h ▸ hu) (not_paired_mark _ _ hl hb)
    | append_singleton init' last' =>
      obtain ⟨letter', back'⟩ := last'
      obtain ⟨-, hb'⟩ := hi' _ (List.mem_append_right _ List.mem_cons_self)
      rw [marked_concat, marked_concat, ← List.append_assoc, ← List.append_assoc,
        List.append_cons, List.append_cons _ letter'] at h
      obtain ⟨joined, rfl⟩ := cut_at_last_mark hb hb' h
      obtain ⟨front, same⟩ := List.append_inj' joined rfl
      cases same
      obtain ⟨rfl, rfl⟩ := ih (fun i h => hi i (List.mem_append_left _ h))
        (fun i h => hi' i (List.mem_append_left _ h)) front
      exact ⟨rfl, rfl⟩

/-! ### Nodes -/

/-- A name that keeps clear of the marks between names. -/
def IsPlain (name : String) : Prop :=
  Char.ofNat 0 ∉ name.toList ∧ ':' ∉ name.toList

/-- An argument whose name keeps clear of the marks, and does not look like the beginning of a
direction. -/
structure Argument.Orderly (a : Argument) : Prop where
  plain : IsPlain a.name
  apart : a.direction = .output → ¬ "In".toList <:+ a.name.toList

/-- A node whose names keep clear of the marks between its fields. In the names of types colons come
in pairs. -/
structure Node.Orderly (n : Node) : Prop where
  name : Char.ofNat 0 ∉ n.name.toList
  typeName : Char.ofNat 0 ∉ n.body.typeName.toList
  paired : Paired n.body.typeName.toList
  locals : ∀ v ∈ n.locals, IsPlain v.name
  arguments : ∀ a ∈ n.arguments, a.Orderly
  children : n.children.length < 2 ^ 32

instance (name : String) : Decidable (IsPlain name) :=
  inferInstanceAs (Decidable (_ ∧ _))

instance (a : Argument) : Decidable a.Orderly :=
  decidable_of_iff (IsPlain a.name ∧ (a.direction = .output → ¬ "In".toList <:+ a.name.toList))
    ⟨fun ⟨plain, apart⟩ => ⟨plain, apart⟩, fun ⟨plain, apart⟩ => ⟨plain, apart⟩⟩

instance (n : Node) : Decidable n.Orderly :=
  decidable_of_iff (Char.ofNat 0 ∉ n.name.toList ∧ Char.ofNat 0 ∉ n.body.typeName.toList ∧
      Paired n.body.typeName.toList ∧ (∀ v ∈ n.locals, IsPlain v.name) ∧
      (∀ a ∈ n.arguments, a.Orderly) ∧ n.children.length < 2 ^ 32)
    ⟨fun ⟨name, typeName, paired, locals, arguments, children⟩ =>
      ⟨name, typeName, paired, locals, arguments, children⟩,
    fun ⟨name, typeName, paired, locals, arguments, children⟩ =>
      ⟨name, typeName, paired, locals, arguments, children⟩⟩

/-- The name and the direction of an argument are told apart. -/
theorem Argument.Orderly.told {a b : Argument} (ha : a.Orderly) (hb : b.Orderly)
    (h : a.name.toList ++ a.direction.label.toList = b.name.toList ++ b.direction.label.toList) :
    a.name = b.name ∧ a.direction = b.direction := by
  have same (d : Direction) (hd : a.name.toList ++ d.label.toList = b.name.toList ++ d.label.toList) :
      a.name = b.name := String.toList_inj.mp (List.append_cancel_right hd)
  have last := congrArg List.getLast? h
  have both : Direction.both.label.toList = "In".toList ++ Direction.output.label.toList := rfl
  cases da : a.direction <;> cases db : b.direction <;> rw [da, db] at h last
  case input.input | output.output | both.both => exact ⟨same _ h, rfl⟩
  case input.output | input.both | output.input | both.input =>
    simp [Direction.label] at last
  case output.both =>
    rw [both, ← List.append_assoc] at h
    exact absurd ⟨_, (List.append_cancel_right h).symm⟩ (ha.apart da)
  case both.output =>
    rw [both, ← List.append_assoc] at h
    exact absurd ⟨_, List.append_cancel_right h⟩ (hb.apart db)

namespace Node

/-- The letters and names that stand for the variables and arguments of a node. -/
def items (n : Node) : List (Char × List Char) :=
  n.locals.map (fun v => ('v', v.name.toList)) ++
    n.arguments.map fun a => ('a', a.name.toList ++ a.direction.label.toList)

/-- The text that stands for a node behind its name. -/
def fields (n : Node) : List Char :=
  n.body.kind.label.toList ++ (n.body.typeName.toList ++ marked n.items)

variable {n m : Node}

theorem Orderly.isItem (h : n.Orderly) : ∀ i ∈ n.items, IsItem i := by
  intro i hi
  rcases List.mem_append.mp hi with hi | hi
  · obtain ⟨v, hv, rfl⟩ := List.mem_map.mp hi
    exact ⟨(by decide : 'v' ≠ ':'), (h.locals v hv).2⟩
  · obtain ⟨a, ha, rfl⟩ := List.mem_map.mp hi
    refine ⟨(by decide : 'a' ≠ ':'), fun hc => ?_⟩
    rcases List.mem_append.mp hc with hc | hc
    · exact (h.arguments a ha).plain.2 hc
    · revert hc
      cases a.direction <;> decide

/-- Items that are the same are those of the same names. -/
theorem Orderly.items_inj (hn : n.Orderly) (hm : m.Orderly) (h : n.items = m.items) :
    n.locals.map (·.name) = m.locals.map (·.name) ∧
      n.arguments.map (fun a => (a.name, a.direction)) =
        m.arguments.map fun a => (a.name, a.direction) := by
  have locals := congrArg (List.filter fun i => i.1 == 'v') h
  have arguments := congrArg (List.filter fun i => i.1 == 'a') h
  simp only [items, List.filter_append, List.filter_map, Function.comp_def, beq_self_eq_true,
    List.filter_true, show ('a' == 'v') = false from rfl, show ('v' == 'a') = false from rfl,
    List.filter_false, List.map_nil, List.append_nil, List.nil_append] at locals arguments
  constructor
  · exact map_told (fun v _ w _ hvw => String.toList_inj.mp (Prod.mk.inj hvw).2) locals
  · refine map_told (fun a ha b hb hab => ?_) arguments
    obtain ⟨name, direction⟩ := (hn.arguments a ha).told (hm.arguments b hb) (Prod.mk.inj hab).2
    exact Prod.ext name direction

/-- The fields that stand behind a name are told apart. -/
theorem Orderly.fields_inj (hn : n.Orderly) (hm : m.Orderly) (h : n.fields = m.fields) :
    n.body.kind = m.body.kind ∧ n.body.typeName = m.body.typeName ∧ n.items = m.items := by
  have kind : n.body.kind = m.body.kind := by
    have first := congrArg List.head? h
    unfold fields at first
    cases hk : n.body.kind <;> cases hk' : m.body.kind <;> simp [hk, hk', BodyKind.label] at first ⊢
  rw [fields, fields, kind] at h
  obtain ⟨type, items⟩ := marked_inj hn.paired hm.paired hn.isItem hm.isItem
    (List.append_cancel_left h)
  exact ⟨kind, String.toList_inj.mp type, items⟩

/-- No field holds a zero. -/
theorem Orderly.zero_not_mem_fields (h : n.Orderly) : Char.ofNat 0 ∉ n.fields := by
  have items : Char.ofNat 0 ∉ marked n.items := by
    rw [marked, List.mem_flatMap]
    rintro ⟨i, hi, hc⟩
    rcases List.mem_append.mp hi with hi | hi
    · obtain ⟨v, hv, rfl⟩ := List.mem_map.mp hi
      simp only [List.mem_cons] at hc
      rcases hc with hc | hc | hc
      · exact absurd hc (by decide)
      · exact absurd hc (by decide)
      · exact (h.locals v hv).1 hc
    · obtain ⟨a, ha, rfl⟩ := List.mem_map.mp hi
      simp only [List.mem_cons, List.mem_append] at hc
      rcases hc with hc | hc | hc | hc
      · exact absurd hc (by decide)
      · exact absurd hc (by decide)
      · exact (h.arguments a ha).plain.1 hc
      · revert hc
        cases a.direction <;> decide
  intro hc
  rcases List.mem_append.mp hc with hc | hc
  · revert hc
    cases n.body.kind <;> decide
  · rcases List.mem_append.mp hc with hc | hc
    · exact h.typeName hc
    · exact items hc

/-- The octets of a node, field by field. -/
theorem image_eq (n : Node) : n.image = Utf8.encode n.path ++ 0 :: (Utf8.encode n.name ++ 0 ::
    (Utf8.encode (String.ofList n.fields) ++ octetsOfCount n.children.length)) := by
  have locals : Variable.image = fun v =>
      ('v' :: ':' :: v.name.toList).flatMap String.utf8EncodeChar := by
    funext v
    rw [Variable.image, ← Utf8.encode_append, ← Json.toUTF8_flatMap, String.toList_append]
    rfl
  have arguments : Argument.image = fun a =>
      ('a' :: ':' :: (a.name.toList ++ a.direction.label.toList)).flatMap String.utf8EncodeChar := by
    funext a
    rw [Argument.image, ← Utf8.encode_append, ← Utf8.encode_append, ← Json.toUTF8_flatMap,
      String.toList_append, String.toList_append, List.append_assoc]
    rfl
  simp only [image, fields, items, marked, locals, arguments, ← Json.toUTF8_flatMap,
    String.toList_ofList, List.flatMap_append, List.flatMap_map, List.flatMap_assoc,
    List.append_assoc, List.cons_append, List.nil_append]

end Node

/-! ### Nodes one after the other -/

/-- Octets that are none or begin with one that is not zero. -/
def Opens (octets : Bytes) : Prop :=
  octets = [] ∨ ∃ b rest, octets = b :: rest ∧ b ≠ 0

theorem getElem?_octetsOfCount (n : Nat) {i : Nat} (h : i < 8) :
    (octetsOfCount n)[i]? = some (UInt8.ofNat (n / 256 ^ i)) := by
  rw [octetsOfCount, List.getElem?_map, List.getElem?_range h]
  rfl

/-- The octets of a count of which the low half is enough end with four zeros. -/
theorem zero_octetsOfCount {n : Nat} (hn : n < 2 ^ 32) {i : Nat} (low : 4 ≤ i) (high : i < 8) :
    (octetsOfCount n)[i]? = some 0 := by
  have large : 256 ^ 4 ≤ 256 ^ i := Nat.pow_le_pow_right (by decide) low
  rw [getElem?_octetsOfCount n high, Nat.div_eq_of_lt (Nat.lt_of_lt_of_le hn large)]
  rfl

theorem octetsOfCount_inj {n m : Nat} (hn : n < 2 ^ 32) (hm : m < 2 ^ 32)
    (h : octetsOfCount n = octetsOfCount m) : n = m := by
  have digit (i : Nat) (hi : i < 8) : n / 256 ^ i % 256 = m / 256 ^ i % 256 := by
    have same := congrArg (·[i]?) h
    simp only [getElem?_octetsOfCount _ hi, Option.some.injEq] at same
    have value := congrArg UInt8.toNat same
    rwa [UInt8.toNat_ofNat', UInt8.toNat_ofNat'] at value
  have := digit 0 (by decide)
  have := digit 1 (by decide)
  have := digit 2 (by decide)
  have := digit 3 (by decide)
  omega

/-- What a count and its sequel begin with is nothing, if another count follows it and it holds no
zero. -/
theorem nothing_before_count {d t u : Bytes} {n m : Nat} (hd : 0 ∉ d) (hn : n < 2 ^ 32)
    (hm : m < 2 ^ 32) (ht : Opens t)
    (h : octetsOfCount n ++ t = d ++ (octetsOfCount m ++ u)) : d = [] := by
  have length (k : Nat) : (octetsOfCount k).length = 8 := by simp [octetsOfCount]
  have short : d.length ≤ 4 := by
    by_contra long
    have fourth := congrArg (·[4]?) h
    rw [List.getElem?_append_left (by rw [length]; decide), zero_octetsOfCount hn (by decide)
      (by decide), List.getElem?_append_left (by omega)] at fourth
    exact hd (List.mem_of_getElem? fourth.symm)
  by_contra some
  have positive : 0 < d.length := List.length_pos_iff.mpr some
  -- The octet behind the first count is one of the zeros of the second.
  have ninth := congrArg (·[8]?) h
  rw [List.getElem?_append_right (by rw [length]), length, Nat.sub_self,
    List.getElem?_append_right (by omega), List.getElem?_append_left (by rw [length]; omega),
    zero_octetsOfCount hm (by omega) (by omega)] at ninth
  rcases ht with rfl | ⟨b, rest, rfl, hb⟩
  · cases ninth
  · exact hb (Option.some.inj ninth)

/-- Texts without zeros that a count follows, and what follows the counts, are told apart. -/
theorem counted_inj {x y t u : Bytes} {n m : Nat} (hx : 0 ∉ x) (hy : 0 ∉ y) (hn : n < 2 ^ 32)
    (hm : m < 2 ^ 32) (ht : Opens t) (hu : Opens u)
    (h : x ++ (octetsOfCount n ++ t) = y ++ (octetsOfCount m ++ u)) : x = y ∧ n = m ∧ t = u := by
  have same : x = y := by
    rcases List.append_eq_append_iff.mp h with ⟨d, rfl, rest⟩ | ⟨d, rfl, rest⟩
    · have none := nothing_before_count (fun hd => hy (List.mem_append_right x hd)) hn hm ht rest
      rw [none, List.append_nil]
    · have none := nothing_before_count (fun hd => hx (List.mem_append_right y hd)) hm hn hu rest
      rw [none, List.append_nil]
  subst same
  obtain ⟨count, rest⟩ := List.append_inj (List.append_cancel_left h) (by simp [octetsOfCount])
  exact ⟨rfl, octetsOfCount_inj hn hm count, rest⟩

/-! ### What is told of a definition -/

/-- What a fingerprint is to tell of a body. -/
def Body.skeleton (b : Body) : Body :=
  { label := "", typeName := b.typeName, behaviour := .blank b.kind }

/-- What a fingerprint is to tell of a node: its place in the tree, its display name, the kind and the
type of its body, the names of its variables, and the names and directions of its arguments. -/
def Node.skeleton (n : Node) : Node :=
  { n with
    body := n.body.skeleton
    locals := n.locals.map fun v => ⟨v.name, none⟩
    arguments := n.arguments.map fun a => ⟨a.name, a.direction, false, .unbound⟩
    bookmarks := []
    findings := {} }

/-- What a fingerprint is to tell of a definition. -/
def Definition.skeleton (d : Definition) : List Node :=
  d.nodes.map Node.skeleton

namespace Node

variable {n m : Node} {t u : Bytes}

/-- The octets of a node are those of its skeleton. -/
theorem image_skeleton (n : Node) : n.skeleton.image = n.image := by
  have kind : n.skeleton.body.kind = n.body.kind := Behaviour.kind_blank _
  rw [image, image, kind]
  simp only [skeleton, Body.skeleton, List.flatMap_map]
  rfl

/-- The names that a node declares are those of its skeleton. -/
theorem declared_skeleton (n : Node) : n.skeleton.declared = n.declared := by
  simp only [declared, Activity.declaredNames, skeleton, List.map_map, Function.comp_def]

/-- Nodes at one path are told apart, and so is what follows them. -/
theorem Orderly.image_inj (hn : n.Orderly) (hm : m.Orderly) (path : n.path = m.path) (ht : Opens t)
    (hu : Opens u) (h : n.image ++ t = m.image ++ u) :
    n.skeleton = { m.skeleton with id := n.id, parent := n.parent, children := n.children } ∧
      n.children.length = m.children.length ∧ t = u := by
  rw [image_eq, image_eq, path] at h
  simp only [List.append_assoc, List.cons_append] at h
  have named := (List.cons.inj (List.append_cancel_left h)).2
  obtain ⟨name, rest⟩ := cut_at_mark (Utf8.zero_not_mem_encode hn.name)
    (Utf8.zero_not_mem_encode hm.name) named
  have clear {k : Node} (hk : k.Orderly) : 0 ∉ Utf8.encode (String.ofList k.fields) :=
    Utf8.zero_not_mem_encode (by rw [String.toList_ofList]; exact hk.zero_not_mem_fields)
  obtain ⟨fields, count, sequel⟩ := counted_inj (clear hn) (clear hm) hn.children hm.children ht hu
    rest
  obtain ⟨kind, typeName, items⟩ := hn.fields_inj hm
    (String.ofList_injective (Utf8.encode_injective fields))
  obtain ⟨locals, arguments⟩ := hn.items_inj hm items
  have sameLocals : n.skeleton.locals = m.skeleton.locals :=
    map_told (fun v _ w _ h => congrArg (Variable.mk · none) h) locals
  have sameArguments : n.skeleton.arguments = m.skeleton.arguments :=
    map_told (fun a _ b _ h => congrArg₂ (Argument.mk · · false .unbound) (Prod.mk.inj h).1
      (Prod.mk.inj h).2) arguments
  have sameBody : n.skeleton.body = m.skeleton.body := by
    rw [skeleton, skeleton, Body.skeleton, Body.skeleton, kind, typeName]
  refine ⟨?_, count, sequel⟩
  dsimp only
  rw [← sameLocals, ← sameArguments, ← sameBody]
  simp only [skeleton, path, Utf8.encode_injective name]

end Node

/-- A path of which the first octet is not zero. -/
def Begins (path : String) : Prop :=
  ∃ b rest, Utf8.encode path = b :: rest ∧ b ≠ 0

theorem Begins.child {path : String} (h : Begins path) (position : Nat) :
    Begins (path ++ "." ++ toString position) := by
  obtain ⟨b, rest, he, hb⟩ := h
  refine ⟨b, rest ++ Utf8.encode "." ++ Utf8.encode (toString position), ?_, hb⟩
  rw [Utf8.encode_append, Utf8.encode_append, he, List.cons_append, List.cons_append]

namespace Activity

theorem length_nodes (parent : Option NodeId) (id : Nat) (path : String) (visible : List String)
    (a : Activity) : (a.nodes parent id path visible).length = a.size := by
  have := congrArg List.length (nodes_ids parent id path visible a)
  simpa using this

theorem opens_nodes {path : String} (hp : Begins path) (parent : Option NodeId) (id : Nat)
    (visible : List String) (a : Activity) (t : Bytes) :
    Opens ((a.nodes parent id path visible).flatMap Node.image ++ t) := by
  obtain ⟨name, body, children, locals, arguments⟩ := a
  obtain ⟨b, rest, he, hb⟩ := hp
  rw [nodes, List.flatMap_cons, Node.image_eq]
  dsimp only
  rw [he]
  exact .inr ⟨b, _, rfl, hb⟩

theorem opens_forest {path : String} (hp : Begins path) (parent : NodeId) (next position : Nat)
    (visible : List String) (l : List Activity) {t : Bytes} (ht : Opens t) :
    Opens ((forest parent next path position visible l).flatMap Node.image ++ t) := by
  cases l with
  | nil => exact ht
  | cons a rest =>
    rw [forest, List.flatMap_append, List.append_assoc]
    exact opens_nodes (hp.child position) _ _ _ a _

mutual

/-- Trees with orderly nodes are told apart by their octets, and so is what follows them. -/
theorem nodes_told {path : String} (hp : Begins path) (parent : Option NodeId) (id : Nat)
    (visible visible' : List String) : (a b : Activity) →
      (∀ n ∈ a.nodes parent id path visible, n.Orderly) →
      (∀ n ∈ b.nodes parent id path visible', n.Orderly) → ∀ {t u : Bytes}, Opens t → Opens u →
      (a.nodes parent id path visible).flatMap Node.image ++ t =
        (b.nodes parent id path visible').flatMap Node.image ++ u →
      (a.nodes parent id path visible).map Node.skeleton =
        (b.nodes parent id path visible').map Node.skeleton ∧ t = u
  | mk name body children locals arguments, mk name' body' children' locals' arguments' => by
    intro ha hb t u ht hu h
    rw [nodes] at ha hb
    obtain ⟨here, below⟩ := List.forall_mem_cons.mp ha
    obtain ⟨here', below'⟩ := List.forall_mem_cons.mp hb
    rw [nodes, nodes, List.flatMap_cons, List.flatMap_cons, List.append_assoc (Node.image _),
      List.append_assoc (Node.image _)] at h
    obtain ⟨root, count, rest⟩ := here.image_inj here' rfl
      (opens_forest hp _ _ _ _ children ht) (opens_forest hp _ _ _ _ children' hu) h
    have length : children.length = children'.length := by
      simpa [length_childIds] using count
    obtain ⟨forests, ids, sequel⟩ := forest_told hp ⟨id⟩ (id + 1) 1 _ _ children children' length
      below below' ht hu rest
    refine ⟨?_, sequel⟩
    rw [nodes, nodes, List.map_cons, List.map_cons, forests]
    refine congrArg (· :: _) (root.trans ?_)
    simp only [Node.skeleton, ids]

/-- So are several trees, if they are as many. -/
theorem forest_told {path : String} (hp : Begins path) (parent : NodeId) (next position : Nat)
    (visible visible' : List String) : (l r : List Activity) → l.length = r.length →
      (∀ n ∈ forest parent next path position visible l, n.Orderly) →
      (∀ n ∈ forest parent next path position visible' r, n.Orderly) →
      ∀ {t u : Bytes}, Opens t → Opens u →
      (forest parent next path position visible l).flatMap Node.image ++ t =
        (forest parent next path position visible' r).flatMap Node.image ++ u →
      (forest parent next path position visible l).map Node.skeleton =
        (forest parent next path position visible' r).map Node.skeleton ∧
      childIds next l = childIds next r ∧ t = u
  | [], [], _ => fun _ _ _ _ _ _ h => ⟨rfl, rfl, h⟩
  | [], _ :: _, length => nomatch length
  | _ :: _, [], length => nomatch length
  | a :: l, b :: r, length => by
    intro ha hb t u ht hu h
    rw [forest, List.forall_mem_append] at ha hb
    rw [forest, forest, List.flatMap_append, List.flatMap_append, List.append_assoc,
      List.append_assoc] at h
    obtain ⟨first, rest⟩ := nodes_told (hp.child position) (some parent) next visible visible' a b
      ha.1 hb.1 (opens_forest hp _ _ _ _ l ht) (opens_forest hp _ _ _ _ r hu) h
    have size : a.size = b.size := by
      have := congrArg List.length first
      rwa [List.length_map, List.length_map, length_nodes, length_nodes] at this
    rw [size] at ha rest
    obtain ⟨others, ids, sequel⟩ := forest_told hp parent (next + b.size) (position + 1) visible
      visible' l r (Nat.succ.inj length) ha.2 hb.2 ht hu rest
    refine ⟨?_, ?_, sequel⟩
    · rw [forest, forest, List.map_append, List.map_append, first, size, others]
    · rw [childIds, childIds, size, ids]

end

variable {a b : Activity}

/-- Findings do not count for whether a node is orderly. -/
theorem orderly_prepare (h : ∀ n ∈ a.prepare.nodes, n.Orderly) :
    ∀ n ∈ a.nodes none 0 "1" [], n.Orderly := by
  have told (n : Node) (g : Findings) : Node.Orderly { n with findings := g } = n.Orderly :=
    propext ⟨fun h => ⟨h.name, h.typeName, h.paired, h.locals, h.arguments, h.children⟩,
      fun h => ⟨h.name, h.typeName, h.paired, h.locals, h.arguments, h.children⟩⟩
  intro n hn
  have member : n.Orderly ∈ (a.nodes none 0 "1" []).map Node.Orderly := List.mem_map_of_mem hn
  rw [← prepare_nodes_map Node.Orderly told] at member
  obtain ⟨m, hm, same⟩ := List.mem_map.mp member
  exact same ▸ h m hm

theorem image_prepare (a : Activity) :
    a.prepare.image = (a.nodes none 0 "1" []).flatMap Node.image := by
  rw [Definition.image, List.flatMap_def, prepare_nodes_map Node.image fun _ _ => rfl,
    ← List.flatMap_def]

theorem skeleton_prepare (a : Activity) :
    a.prepare.skeleton = (a.nodes none 0 "1" []).map Node.skeleton :=
  prepare_nodes_map Node.skeleton (fun _ _ => rfl) a

/-- What stands under the fingerprint of orderly nodes tells their skeletons. -/
theorem image_prepare_inj (ha : ∀ n ∈ a.prepare.nodes, n.Orderly)
    (hb : ∀ n ∈ b.prepare.nodes, n.Orderly) (h : a.prepare.image = b.prepare.image) :
    a.prepare.skeleton = b.prepare.skeleton := by
  rw [image_prepare, image_prepare, ← List.append_nil (List.flatMap _ _),
    ← List.append_nil (List.flatMap _ (b.nodes none 0 "1" []))] at h
  rw [skeleton_prepare, skeleton_prepare]
  have begins : Begins "1" := ⟨49, [], by decide, by decide⟩
  exact (nodes_told begins none 0 [] [] a b (orderly_prepare ha) (orderly_prepare hb) (.inl rfl)
    (.inl rfl) h).1

end Activity

namespace Definition

/-- What stands under a fingerprint is told by the skeleton. -/
theorem image_eq_of_skeleton {d d' : Definition} (h : d.skeleton = d'.skeleton) :
    d.image = d'.image := by
  have image (d : Definition) : d.image = d.skeleton.flatMap Node.image := by
    rw [Definition.image, skeleton, List.flatMap_map]
    exact congrArg (List.flatMap · d.nodes) (funext fun n => n.image_skeleton.symm)
  rw [image, image, h]

/-- So are the names that a node declares. -/
theorem declared_eq_of_skeleton {d d' : Definition} (h : d.skeleton = d'.skeleton) (k : NodeId) :
    (d.get? k).map Node.declared = (d'.get? k).map Node.declared := by
  have declared (d : Definition) :
      (d.get? k).map Node.declared = (d.skeleton[k.number]?).map Node.declared := by
    rw [skeleton, List.getElem?_map, Option.map_map]
    exact congrArg (Option.map · _) (funext fun n => n.declared_skeleton.symm)
  rw [declared, declared, h]

theorem Alike.skeleton {d d' : Definition} (h : d.Alike d') : d.skeleton = d'.skeleton :=
  h.map_nodes fun n => by
    rw [Node.skeleton, Node.skeleton, Body.skeleton, Body.skeleton, Node.kind_outline]
    rfl

end Definition

/-- What was captured is restored to a definition of the same fingerprint only. -/
theorem Snapshot.fingerprint_of_restore {e r : Executor} {now : Timestamp} {s : Snapshot}
    {d : Definition} {mailbox : Nat} (hc : e.capture now = .ok s) (hr : s.restore d mailbox = .ok r) :
    e.definition.fingerprint = d.fingerprint := by
  obtain ⟨-, l, -, -, rfl⟩ := Executor.of_capture hc
  obtain ⟨-, r₀, hr₀, -⟩ := Snapshot.restore_eq_ok.mp hr
  have fit := (Snapshot.restoreExecutor_eq_ok.mp hr₀).1
  by_contra other
  rw [Snapshot.ensureRestorable, if_pos other] at fit
  cases fit

/-- Definitions of orderly nodes have one fingerprint if and only if they have one skeleton, unless
the digests of what stands under them collide. So what was captured of one of them is restored to the
other only if, node by node, the same names are declared. -/
theorem Activity.skeleton_of_fingerprint {a b : Activity} (ha : ∀ n ∈ a.prepare.nodes, n.Orderly)
    (hb : ∀ n ∈ b.prepare.nodes, n.Orderly)
    (apart : Blake3.digest a.prepare.image = Blake3.digest b.prepare.image →
      a.prepare.image = b.prepare.image) :
    (a.prepare.fingerprint = b.prepare.fingerprint ↔ a.prepare.skeleton = b.prepare.skeleton) ∧
    ∀ (e r : Executor) (now : Timestamp) (s : Snapshot) (mailbox : Nat),
      e.definition.Alike a.prepare → e.capture now = .ok s → s.restore b.prepare mailbox = .ok r →
      e.definition.skeleton = b.prepare.skeleton ∧
      ∀ k, (e.definition.get? k).map Node.declared = (b.prepare.get? k).map Node.declared := by
  have told (h : a.prepare.fingerprint = b.prepare.fingerprint) :
      a.prepare.skeleton = b.prepare.skeleton :=
    image_prepare_inj ha hb (apart (Hex.encode_injective h))
  refine ⟨⟨told, fun h => ?_⟩, fun e r now s mailbox alike hc hr => ?_⟩
  · rw [Definition.fingerprint, Definition.fingerprint, Definition.image_eq_of_skeleton h]
  · have same : e.definition.skeleton = b.prepare.skeleton :=
      alike.skeleton.trans (told (alike.fingerprint.symm.trans (Snapshot.fingerprint_of_restore hc hr)))
    exact ⟨same, Definition.declared_eq_of_skeleton same⟩

/-- An activity that waits at a bookmark and declares variables. -/
def Activity.waitWith (name : String) (locals : List Variable) : Activity :=
  match waitAt name with
  | mk _ body children _ arguments =>
    mk "wait" { body with typeName := "wait" } children locals arguments

/-- Activities that wait at different bookmarks, and whose variables have different first values,
have one fingerprint. -/
theorem Activity.skeleton_of_fingerprint_values :
    (waitWith "go" [⟨"a", some .null⟩, ⟨"b", none⟩]).prepare.fingerprint =
      (waitWith "on" [⟨"a", none⟩, ⟨"b", some (.boolean true)⟩]).prepare.fingerprint :=
  (skeleton_of_fingerprint (by decide +kernel) (by decide +kernel) fun _ => rfl).1.mpr rfl

/-- A variable whose name holds a mark has the fingerprint of two variables, and what is captured of
the one definition is restored to the other. -/
theorem Activity.not_skeleton_of_fingerprint :
    let one := waitWith "go" [⟨"av:b", none⟩]
    let two := waitWith "go" [⟨"a", none⟩, ⟨"b", none⟩]
    one.prepare.image = two.prepare.image ∧ one.prepare.fingerprint = two.prepare.fingerprint ∧
      one.prepare.skeleton ≠ two.prepare.skeleton ∧
      ∃ (e r : Executor) (s : Snapshot), e.Reachable ∧ e.definition = one.prepare ∧
        e.capture ⟨0, 0⟩ = .ok s ∧ s.restore two.prepare 1 = .ok r := by
  intro one two
  let e := (ExecutorCall.converse (Executor.begun one) [.run 5]).2
  have image : one.prepare.image = two.prepare.image := by decide +kernel
  refine ⟨image, congrArg (fun octets => Hex.encode (Blake3.digest octets)) image, fun same => ?_, ?_⟩
  · exact absurd (congrArg (·.map Node.declared) same) (by decide +kernel)
  · obtain ⟨s, hc⟩ : ∃ s, e.capture ⟨0, 0⟩ = .ok s := Executor.exists_captured (by decide +kernel)
    have restored : ((e.capture ⟨0, 0⟩).toOption.any fun s =>
        (s.restore two.prepare 1).toOption.isSome) = true := by decide +kernel
    rw [hc] at restored
    cases hr : s.restore two.prepare 1 with
    | ok r => exact ⟨e, r, s, (Executor.Reachable.begun rfl rfl).converse _, rfl, hc, hr⟩
    | error _ =>
      simp [Except.toOption, hr] at restored

end Workflow
