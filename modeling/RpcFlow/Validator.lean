import RpcFlow.CallError

/-!
# Validation of results

A validator accepts a result or names what is wrong with it.  The one rule here is that no member
of an object may be null; the null members are named by their paths, members by name and items by
number, in the order of the text.

* `Validator.collect` gathers the paths.  When only the first is wanted, a null member ends the walk
  of the object that holds it, and nothing is entered once something has been found.
-/

set_option autoImplicit false

namespace RpcFlow

/-- Which results are accepted. -/
inductive Validator where
  | acceptAll
  /-- No null members; `firstOnly` asks for a short report. -/
  | rejectNulls (firstOnly : Bool)
  deriving DecidableEq, Repr, Inhabited

namespace Validator

/-- The path of a member. -/
def memberPath (path name : String) : String :=
  if path.isEmpty then name else path ++ "." ++ name

/-- The path of an item. -/
def itemPath (path : String) (index : Nat) : String :=
  path ++ "[" ++ toString index ++ "]"

mutual

/-- Adds the null members below a value to the paths found so far. -/
def collect (firstOnly : Bool) (path : String) (found : List String) : Json → List String
  | .obj members =>
    if firstOnly && !found.isEmpty then found else collectMembers firstOnly path found members
  | .arr items =>
    if firstOnly && !found.isEmpty then found else collectItems firstOnly path found 0 items
  | _ => found

/-- The same for the members of an object. -/
def collectMembers (firstOnly : Bool) (path : String) (found : List String) :
    List (String × Json) → List String
  | [] => found
  | (name, .null) :: rest =>
    let found := found ++ [memberPath path name]
    if firstOnly then found else collectMembers firstOnly path found rest
  | (name, value) :: rest =>
    collectMembers firstOnly path (collect firstOnly (memberPath path name) found value) rest

/-- The same for the items of an array, from a given number on. -/
def collectItems (firstOnly : Bool) (path : String) (found : List String) (index : Nat) :
    List Json → List String
  | [] => found
  | value :: rest =>
    collectItems firstOnly path (collect firstOnly (itemPath path index) found value) (index + 1)
      rest

end

/-- The paths a validator objects to. -/
def faults : Validator → Json → List String
  | acceptAll, _ => []
  | rejectNulls firstOnly, value => collect firstOnly "" [] value

/-- Accepts a result or says why not. -/
def validate (v : Validator) (value : Json) : Except CallError Unit :=
  match v.faults value with
  | [] => .ok ()
  | faults =>
    .error (.validation ("null value in required fields: " ++ ", ".intercalate faults))

end Validator
end RpcFlow
