import Workflow.Collection
import Workflow.Double
import Workflow.SearchTree
import Workflow.Text.Utf8
import Workflow.Word

/-!
# Workflow values

Variables, arguments, results and bookmark payloads carry values of one dynamic type: the atoms of a
data language, its compounds, embedded values and annotated values. Values are ordered by class and
then by content; annotations take no part in order or equality.
-/

namespace Workflow

mutual

/-- A workflow value. Members of a set and keys of a dictionary are kept in the order in which they
stand to each other. -/
inductive Value where
  /-- A truth value. -/
  | boolean (b : Bool)
  /-- A double-precision number. -/
  | double (d : Double)
  /-- An integer of any size. -/
  | integer (n : Int)
  /-- A text. -/
  | string (s : String)
  /-- A byte string. -/
  | bytes (bs : Bytes)
  /-- A symbol. -/
  | symbol (s : String)
  /-- A labelled record. -/
  | record (label : Value) (fields : List Value)
  /-- A sequence. -/
  | sequence (items : List Value)
  /-- A set. -/
  | set (members : List Value)
  /-- A dictionary. -/
  | dictionary (entries : List Entry)
  /-- An embedded value. -/
  | embedded (v : Value)
  /-- A value with an annotation in front. -/
  | annotated (note : Value) (v : Value)

/-- A key of a dictionary with its value. -/
inductive Entry where
  /-- The value under a key. -/
  | mk (key : Value) (value : Value)

end

instance : Inhabited Value := ⟨.symbol "null"⟩

/-- The key of an entry. -/
def Entry.key : Entry → Value
  | .mk k _ => k

namespace Value

/-- The value of variables and outgoing arguments that were never assigned. -/
def null : Value :=
  symbol "null"

/-- The rank of a value's class in the order of values. -/
def rank : Value → Nat
  | boolean _ => 0
  | double _ => 1
  | integer _ => 2
  | string _ => 3
  | bytes _ => 4
  | symbol _ => 5
  | record _ _ => 6
  | sequence _ => 7
  | set _ => 8
  | dictionary _ => 9
  | embedded _ => 10
  | annotated _ v => v.rank

/-- The value without its outer annotations. -/
def bare : Value → Value
  | annotated _ v => v.bare
  | v => v

/-- Whether an integer is held in a word of 128 bits with sign. -/
def isNarrow (n : Int) : Bool :=
  decide (-0x80000000000000000000000000000000 ≤ n ∧ n < 0x80000000000000000000000000000000)

/-- Whether an integer is held in no word of 128 bits, with sign or without. -/
def isWide (n : Int) : Bool :=
  !isNarrow n && decide (n < 0 ∨ 0x100000000000000000000000000000000 ≤ n)

/-- How an integer stands to one that it meets. Two integers that a signed word holds, or that it
does not hold, are compared by size. Otherwise a sign decides, that of the met integer if no word
holds it and that of the first one if not: below zero comes before, the rest behind. -/
def compareIntegers (a b : Int) : Ordering :=
  if isNarrow a = isNarrow b then Ord.compare a b
  else if (if isWide b then b else a) < 0 then .lt
  else .gt

mutual

/-- Compare two values: by class, then by content, without regard to annotations. The members of
sets and the entries of dictionaries are compared in the order in which they are listed. -/
def compareListed : Value → Value → Ordering
  | annotated _ a, b => compareListed a b
  | boolean a, b =>
    match b.bare with
    | boolean b => Ord.compare a b
    | b => Ord.compare 0 b.rank
  | double a, b =>
    match b.bare with
    | double b => Ord.compare a.orderKey b.orderKey
    | b => Ord.compare 1 b.rank
  | integer a, b =>
    match b.bare with
    | integer b => compareIntegers a b
    | b => Ord.compare 2 b.rank
  | string a, b =>
    match b.bare with
    | string b => Ord.compare a b
    | b => Ord.compare 3 b.rank
  | bytes a, b =>
    match b.bare with
    | bytes b => Ord.compare a b
    | b => Ord.compare 4 b.rank
  | symbol a, b =>
    match b.bare with
    | symbol b => Ord.compare a b
    | b => Ord.compare 5 b.rank
  | record l as, b =>
    match b.bare with
    | record m bs => (compareListed l m).then (compareItems as bs)
    | b => Ord.compare 6 b.rank
  | sequence as, b =>
    match b.bare with
    | sequence bs => compareItems as bs
    | b => Ord.compare 7 b.rank
  | set as, b =>
    match b.bare with
    | set bs => compareItems as bs
    | b => Ord.compare 8 b.rank
  | dictionary as, b =>
    match b.bare with
    | dictionary bs => compareEntries as bs
    | b => Ord.compare 9 b.rank
  | embedded a, b =>
    match b.bare with
    | embedded b => compareListed a b
    | b => Ord.compare 10 b.rank
termination_by structural a => a

/-- Compare two lists item by item; a proper beginning comes first. -/
def compareItems : List Value → List Value → Ordering
  | [], [] => .eq
  | [], _ :: _ => .lt
  | _ :: _, [] => .gt
  | a :: as, b :: bs => (compareListed a b).then (compareItems as bs)
termination_by structural as => as

/-- Compare two dictionaries entry by entry. -/
def compareEntries : List Entry → List Entry → Ordering
  | [], [] => .eq
  | [], _ :: _ => .lt
  | _ :: _, [] => .gt
  | a :: as, b :: bs => (compareEntry a b).then (compareEntries as bs)
termination_by structural as => as

/-- Compare two entries, the keys before the values. -/
def compareEntry : Entry → Entry → Ordering
  | .mk k v, .mk l w => (compareListed k l).then (compareListed v w)
termination_by structural a => a

end

mutual

/-- The value with the members of its sets and the entries of its dictionaries arranged anew, the
inner ones first. -/
def arranged : Value → Value
  | record l as => record (arranged l) (arrangedItems as)
  | sequence as => sequence (arrangedItems as)
  | set as => set (Collection.arrange compareListed (arrangedItems as))
  | dictionary as =>
    dictionary (Collection.arrange (fun a b => compareListed a.key b.key) (arrangedEntries as))
  | embedded a => embedded (arranged a)
  | annotated note a => annotated note (arranged a)
  | a => a
termination_by structural a => a

/-- Each value of a list arranged anew. -/
def arrangedItems : List Value → List Value
  | [] => []
  | a :: as => arranged a :: arrangedItems as
termination_by structural as => as

/-- Each entry of a list arranged anew. -/
def arrangedEntries : List Entry → List Entry
  | [] => []
  | a :: as => arrangedEntry a :: arrangedEntries as
termination_by structural as => as

/-- An entry with its key and its value arranged anew. -/
def arrangedEntry : Entry → Entry
  | .mk k v => .mk (arranged k) (arranged v)
termination_by structural a => a

end

/-- Compare two values: by class, then by content, without regard to annotations. Sets and
dictionaries are compared as collections that are brought into order anew, however their members
and entries are listed. -/
protected def compare (a b : Value) : Ordering :=
  compareListed a.arranged b.arranged

instance : Ord Value := ⟨Value.compare⟩

/-- Equality of values without regard to annotations. -/
def same (a b : Value) : Bool :=
  Value.compare a b == .eq

/-- Items in the order of their keys; `none` if the keys of two items that meet are equal. -/
def order? {α : Type} (key : α → Value) (items : List α) : Option (List α) :=
  (SearchTree.order? (fun a b => compareListed a.1 b.1)
    (items.map fun item => ((key item).arranged, item))).map fun pairs => pairs.map (·.2)

/-- The set of the given members; `none` if one occurs twice. -/
def setOf? (members : List Value) : Option Value :=
  (order? id members).map set

/-- The dictionary of the given entries; `none` if a key occurs twice. -/
def dictionaryOf? (entries : List Entry) : Option Value :=
  (order? Entry.key entries).map dictionary

/-- The integer of a value that fits sixty-four bits with sign. -/
def int64? : Value → Option Int
  | integer n => if fitsSigned n then some n else none
  | annotated _ v => v.int64?
  | _ => none

end Value

end Workflow
