import Workflow.Definition

/-!
# Preparing a definition

An activity tree becomes a list of nodes in pre-order. On the way each node's locations and
bindings are checked against what its ancestors declare, and afterwards the bookmarks that bodies
declare are checked against each other.
-/

namespace Workflow

namespace Activity

/-- The findings that a body states about itself. -/
def statedFindings (site : Site) (remarks : List Remark) : List Finding :=
  remarks.filterMap fun
    | .error text => some ⟨site.path, site.name, text, .error⟩
    | .warning text => some ⟨site.path, site.name, text, .warning⟩
    | .bookmark _ => none

/-- The bookmarks that a body declares. -/
def declaredBookmarks (remarks : List Remark) : List String :=
  remarks.filterMap fun
    | .bookmark name => some name
    | _ => none

/-- Arguments whose names are taken, by a variable or by an argument before. -/
def argumentFindings (site : Site) (taken : List String) : List Argument → List Finding
  | [] => []
  | a :: rest =>
    let later := argumentFindings site (a.name :: taken) rest
    if a.name ∈ taken then
      ⟨site.path, site.name,
        "argument '" ++ a.name ++ "' collides with another variable or argument", .error⟩ :: later
    else later

/-- Variables and arguments whose names are taken by one before. -/
def locationFindings (site : Site) (arguments : List Argument) (taken : List String) :
    List Variable → List Finding
  | [] => argumentFindings site taken arguments
  | v :: rest =>
    let later := locationFindings site arguments (v.name :: taken) rest
    if v.name ∈ taken then
      ⟨site.path, site.name, "variable '" ++ v.name ++ "' is declared more than once", .error⟩ ::
        later
    else later

/-- What is wrong with the binding of an argument below the root. -/
def bindingProblem? (visible : List String) (a : Argument) : Option String :=
  match a.binding with
  | .unbound =>
    if a.required && a.direction.isInput then
      some ("required argument '" ++ a.name ++ "' has no binding")
    else none
  | .literal _ =>
    if a.direction.isOutput then
      some ("argument '" ++ a.name ++ "' flows out and cannot bind to a literal")
    else none
  | .location name =>
    if name ∈ visible then none
    else
      some ("argument '" ++ a.name ++ "' binds to '" ++ name ++ "', which is not visible here")

/-- Arguments whose bindings cannot be used. -/
def bindingFindings (site : Site) (visible : List String) (arguments : List Argument) :
    List Finding :=
  (arguments.filterMap (bindingProblem? visible)).map fun message =>
    ⟨site.path, site.name, message, .error⟩

/-- The names that an activity declares. -/
def declaredNames (locals : List Variable) (arguments : List Argument) : List String :=
  locals.map (·.name) ++ arguments.map (·.name)

/-- The positions of the children of a node, the first of them at `next`. -/
def childIds (next : Nat) : List Activity → List NodeId
  | [] => []
  | a :: rest => ⟨next⟩ :: childIds (next + a.size) rest

mutual

/-- The nodes of a tree in pre-order, the first of them at `id`. -/
def nodes (parent : Option NodeId) (id : Nat) (path : String) (visible : List String) :
    Activity → List Node
  | mk name body children locals arguments =>
    let site : Site := ⟨path, name, children.length⟩
    let remarks := body.remarks site
    let findings := statedFindings site remarks ++ locationFindings site arguments [] locals ++
      (if parent.isSome then bindingFindings site visible arguments else [])
    ⟨⟨id⟩, parent, childIds (id + 1) children, path, name, body, locals, arguments,
        declaredBookmarks remarks, ⟨findings⟩⟩ ::
      forest ⟨id⟩ (id + 1) path 1 (visible ++ declaredNames locals arguments) children

/-- The nodes of the trees below one node, the first of them at `next`. -/
def forest (parent : NodeId) (next : Nat) (path : String) (position : Nat)
    (visible : List String) : List Activity → List Node
  | [] => []
  | a :: rest =>
    a.nodes (some parent) next (path ++ "." ++ toString position) visible ++
      forest parent (next + a.size) path (position + 1) visible rest

end

/-- The findings of a node that declares bookmarks which nodes before it, or itself, have declared,
and all declarations so far with the paths of their nodes. -/
def bookmarkFindings (site : Site) (seen : List (String × String)) :
    List String → List Finding × List (String × String)
  | [] => ([], seen)
  | name :: rest =>
    match seen.find? (·.1 == name) with
    | some (_, first) =>
      let (findings, seen) := bookmarkFindings site seen rest
      (⟨site.path, site.name,
        "bookmark '" ++ name ++ "' is already declared by activity " ++ first, .error⟩ :: findings,
        seen)
    | none => bookmarkFindings site (seen ++ [(name, site.path)]) rest

/-- The node with the findings about its bookmarks, and all declarations so far. -/
def checkBookmarks (seen : List (String × String)) (n : Node) : Node × List (String × String) :=
  let (findings, seen) := bookmarkFindings ⟨n.path, n.name, n.children.length⟩ seen n.bookmarks
  ({ n with findings := n.findings ++ ⟨findings⟩ }, seen)

/-- The nodes with the findings about their bookmarks. -/
def checkAllBookmarks (seen : List (String × String)) : List Node → List Node
  | [] => []
  | n :: rest =>
    let (n, seen) := checkBookmarks seen n
    n :: checkAllBookmarks seen rest

/-- Prepare the definition of a tree. -/
def prepare : Activity → Definition
  | mk name body children locals arguments =>
    let all := (mk name body children locals arguments).nodes none 0 "1" []
    match checkAllBookmarks [] all with
    | root :: below => ⟨root, below⟩
    | [] => ⟨⟨.root, none, [], "1", name, body, locals, arguments, [], {}⟩, []⟩

end Activity

end Workflow
