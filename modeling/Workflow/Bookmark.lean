import Workflow.Identifier

/-!
# Bookmarks

A bookmark is a named place at which a workflow waits. Names are kept apart by scope: the whole
workflow shares the default scope, and activities create further ones.
-/

namespace Workflow

/-- The scope within which a bookmark's name is unique. -/
inductive Scope where
  /-- The scope of the whole workflow. -/
  | default
  /-- A scope created by an activity. -/
  | named (id : Uuid)
deriving DecidableEq

namespace Scope

/-- The place of a scope in the order of scopes, the default scope first. -/
def rank : Scope → Nat
  | default => 0
  | named id => id.number.val + 1

theorem rank_injective {a b : Scope} (h : a.rank = b.rank) : a = b := by
  match a, b with
  | default, default => rfl
  | default, named _ => simp [rank] at h
  | named _, default => simp [rank] at h
  | named ⟨x⟩, named ⟨y⟩ =>
    have : x = y := Fin.ext (by simpa [rank] using h)
    rw [this]

instance : Ord Scope := ⟨compareOn rank⟩

instance : Std.TransOrd Scope :=
  inferInstanceAs (Std.TransCmp (compareOn rank))

instance : Std.LawfulEqOrd Scope where
  eq_of_compare h := rank_injective (Std.LawfulEqOrd.eq_of_compare (α := Nat) h)

/-- The text of a scope. -/
def print : Scope → String
  | default => "default"
  | named id => id.print

instance : ToString Scope := ⟨print⟩

end Scope

/-- A named place at which a workflow waits. -/
structure Bookmark where
  /-- The scope of the name. -/
  scope : Scope
  /-- The name, unique within its scope. -/
  name : String
deriving DecidableEq

namespace Bookmark

instance : Ord Bookmark := ⟨compareLex (compareOn scope) (compareOn name)⟩

instance : Std.TransOrd Bookmark :=
  inferInstanceAs (Std.TransCmp (compareLex (compareOn scope) (compareOn name)))

instance : Std.LawfulEqOrd Bookmark where
  eq_of_compare {a b} h := by
    have h : compareLex (compareOn scope) (compareOn name) a b = .eq := h
    rw [compareLex_eq_eq] at h
    have hs : a.scope = b.scope := Std.LawfulEqOrd.eq_of_compare (α := Scope) h.1
    have hn : a.name = b.name := Std.LawfulEqOrd.eq_of_compare (α := String) h.2
    cases a
    cases b
    simp_all

/-- The text of a bookmark: its name, followed by its scope unless that is the default one. -/
def print (b : Bookmark) : String :=
  match b.scope with
  | .default => b.name
  | .named id => b.name ++ "@" ++ id.print

instance : ToString Bookmark := ⟨print⟩

end Bookmark

/-- How a bookmark is registered. -/
structure BookmarkOptions where
  /-- The bookmark stays registered after it is resumed. -/
  multipleResume : Bool
  /-- The bookmark does not keep its owner from completing. -/
  nonBlocking : Bool
deriving DecidableEq

namespace BookmarkOptions

/-- Resumed once, and the owner waits for it. -/
def once : BookmarkOptions := ⟨false, false⟩

/-- Whether the owner waits for the bookmark. -/
def isBlocking (o : BookmarkOptions) : Bool :=
  !o.nonBlocking

end BookmarkOptions

/-- A bookmark with its owner and callback. -/
structure Registration where
  /-- The bookmark. -/
  bookmark : Bookmark
  /-- The instance that waits at it. -/
  owner : InstanceId
  /-- The owner's callback. -/
  callback : Option CallbackTag
  /-- How it is registered. -/
  options : BookmarkOptions
deriving DecidableEq

/-- What became of a request to resume a bookmark. -/
inductive Resumption where
  /-- The resumption is queued. -/
  | success
  /-- There is no such bookmark. -/
  | notFound
  /-- The workflow takes no resumptions now. -/
  | notReady
deriving DecidableEq

/-- The name of a resumption's result. -/
def Resumption.label : Resumption → String
  | success => "Success"
  | notFound => "NotFound"
  | notReady => "NotReady"

/-- What a host sees of a bookmark at which a workflow waits. -/
structure BookmarkInfo where
  /-- The bookmark. -/
  bookmark : Bookmark
  /-- The instance that waits at it. -/
  owner : InstanceId
  /-- The display name of the owner's activity. -/
  ownerName : String
  /-- How it is registered. -/
  options : BookmarkOptions

end Workflow
