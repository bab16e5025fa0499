import Workflow.Error
import Std.Data.ExtTreeMap

/-!
# The registry of bookmarks

The registry holds the registered bookmarks and the scopes that activities created, each with its
owner. Registrations are listed by scope and name.
-/

namespace Workflow

/-- The registered bookmarks and the created scopes of a workflow. -/
structure Registry where
  /-- The registrations. -/
  registrations : Std.ExtTreeMap Bookmark Registration := ∅
  /-- The owners of the created scopes. -/
  scopes : Std.ExtTreeMap Uuid InstanceId := ∅

/-- What a successful registration did. -/
inductive RegisterOutcome where
  /-- The bookmark is new. -/
  | registered
  /-- The owner had registered the bookmark before, for any number of resumptions. -/
  | alreadyRegistered
deriving DecidableEq

namespace Registry

/-- Record a scope with its owner. -/
def addScope (r : Registry) (id : Uuid) (owner : InstanceId) : Registry :=
  { r with scopes := r.scopes.insert id owner }

/-- The owner of a created scope. -/
def scopeOwner? (r : Registry) : Scope → Option InstanceId
  | .default => none
  | .named id => r.scopes[id]?

/-- Whether bookmarks may be registered in a scope. -/
def scopeExists (r : Registry) : Scope → Bool
  | .default => true
  | .named id => r.scopes.contains id

/-- The registration of a bookmark. -/
def resolve? (r : Registry) (b : Bookmark) : Option Registration :=
  r.registrations[b]?

/-- Add a registration. An owner may repeat its own registration if both are for any number of
resumptions; otherwise a bookmark is registered once. -/
def register (r : Registry) (new : Registration) :
    Except BookmarkError (RegisterOutcome × Registry) :=
  if r.scopeExists new.bookmark.scope then
    match r.resolve? new.bookmark with
    | some old =>
      if old.options.multipleResume ∧ new.options.multipleResume ∧ old.owner = new.owner then
        .ok (.alreadyRegistered, r)
      else .error (.duplicateName new.bookmark.name new.bookmark.scope)
    | none =>
      .ok (.registered, { r with registrations := r.registrations.insert new.bookmark new })
  else .error (.unknownScope new.bookmark.scope)

/-- Remove the registration of a bookmark. -/
def unregister (r : Registry) (b : Bookmark) : Registry :=
  { r with registrations := r.registrations.erase b }

/-- The registrations in the order of scope and name. -/
def toList (r : Registry) : List Registration :=
  r.registrations.values

/-- The registrations of an owner. -/
def ownedBy (r : Registry) (owner : InstanceId) : List Registration :=
  r.toList.filter (·.owner == owner)

/-- Remove the registrations of an owner. -/
def removeOwned (r : Registry) (owner : InstanceId) : Registry :=
  { r with registrations := r.registrations.filter fun _ g => g.owner != owner }

/-- Remove the scopes of an owner. -/
def removeScopes (r : Registry) (owner : InstanceId) : Registry :=
  { r with scopes := r.scopes.filter fun _ o => o != owner }

/-- The number of registrations. -/
def size (r : Registry) : Nat :=
  r.registrations.size

/-- Whether an owner waits for some bookmark. -/
def hasBlocking (r : Registry) : Bool :=
  r.toList.any (·.options.isBlocking)

end Registry

end Workflow
