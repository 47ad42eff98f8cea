import Decern.CoherentMap
import Mathlib.Tactic

/-!
# The authority graph

Principals by id, each under the principal it delegates from, with the
resources they own and the organizations they belong to.
-/

namespace Decern.Graph

structure PrincipalRec where
  id : String
  kind : String
  tenant : String
  expiry : Int64
  scopes : Finset String
  delegator : Option String := none
  org : Option String := none
  roles : Finset String := ∅
  jurisdictions : Finset String := ∅
  revoked : Bool := false
  deriving DecidableEq

structure ResourceRec where
  id : String
  owner : String
  tenant : String
  org : Option String := none
  sensitivity : Option String := none
  residency : Option String := none
  viewers : Finset String := ∅
  deriving DecidableEq

/-- A customer organization, inside one tenant. -/
structure OrgRec where
  id : String
  tenant : String
  parent : Option String := none
  deriving DecidableEq

structure Directory where
  principals : StringMap PrincipalRec
  resources : StringMap ResourceRec := ∅
  orgs : StringMap OrgRec := ∅

namespace Directory

variable (dir : Directory)

/-- The delegators from here up, none of them one already seen.  Every turn
but the last meets another principal of the directory. -/
def ancestorsFrom : ℕ → List String → Option PrincipalRec → List String
  | 0, _, _ => []
  | _ + 1, _, none => []
  | fuel + 1, seen, some principal =>
      match principal.delegator with
      | none => []
      | some delegator =>
          if delegator ∈ seen then []
          else delegator :: ancestorsFrom fuel (delegator :: seen)
            dir.principals[delegator]?

def ancestorsOf (id : String) : List String :=
  dir.ancestorsFrom (dir.principals.size + 1) [id] dir.principals[id]?

/-- Revoked, or under a principal that is. -/
def revoked (id : String) : Bool :=
  let authored (principal : String) : Bool :=
    (dir.principals[principal]?.map PrincipalRec.revoked).getD false
  authored id || (dir.ancestorsOf id).any authored

end Directory

end Decern.Graph
