namespace Pishoo

/-- `crate::Error`, as far as the package code returns it. `invalidInput` is an `Io` error of that
kind, which the handlers report as a conflict. -/
inductive Error
  | badRequest (message : String)
  | invalidConfig (message : String)
  | invalidComponent (message : String)
  | packagePolicy (code : String) (status : Nat)
  | signingStatusUnavailable
  | routeNotFound
  | denied
  | io (message : String)
  | invalidInput (message : String)
  | configDatabase (message : String)
  | methodNotAllowed
  deriving DecidableEq, Repr

namespace Error

def publisherOwnershipConflict : Error := .packagePolicy "publisher_ownership_conflict" 409

def packagePolicyUpgradeRequired : Error := .packagePolicy "package_policy_upgrade_required" 422

end Error

end Pishoo
