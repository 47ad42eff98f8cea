import Decern.MissionHost
import Decern.TokenExchange
import Mathlib.Tactic

/-!
# Approving a Mission

One principal vouches for another: within its own authority and tenant, while
it is not revoked, and never for itself.  What is hashed is what was approved,
and not when.
-/

namespace Decern

namespace Identity

open Serde (Value)

section Approve

variable {S P : Type} (J : Jose)

/-- The approval of a Mission; a caller with a registry registers it. -/
def approve (model : Model S P) (mission : Mission) (now : UInt64) :
    Except IdentityError ApprovedMission :=
  match delegatorAttrs model.entities mission.approver with
  | none =>
      .error (.subjectInvalid ("approver " ++ mission.approver ++
        " is not a principal in the graph"))
  | some (approverTenant, expiry, scopes) =>
      if mission.approver = mission.agent then
        .error (.subjectInvalid ("approver " ++ mission.approver ++
          " cannot approve a mission for itself"))
      else
        match Graph.Directory.parse model.entities with
        | .error violations =>
            .error (.model ("; ".intercalate violations))
        | .ok directory =>
            if directory.revoked mission.approver then
              .error (.subjectInvalid ("approver " ++ mission.approver ++
                " is revoked"))
            else
              match mission.approvedTools.find?
                  (fun tool => decide (tool ∉ scopes)) with
              | some tool =>
                  .error (.subjectInvalid ("mission approves `" ++ tool ++
                    "`, which approver " ++ mission.approver ++
                    " does not hold"))
              | none =>
                  if expiry < mission.expiry then
                    .error (.subjectInvalid ("mission expiry " ++
                      toString mission.expiry ++ " outlives approver " ++
                      mission.approver ++ " authority (" ++
                      toString expiry ++ ")"))
                  else if mission.expiry ≤ now then
                    .error (.subjectInvalid ("mission expiry " ++
                      toString mission.expiry ++
                      " is not in the future (now " ++ toString now ++
                      "); an expired mission cannot be approved"))
                  else if ((principalAttrs model.entities
                      mission.agent).bind fun attrs =>
                        (attrs.get "tenant").bind Value.asStr) ≠
                          some approverTenant then
                    .error (.subjectInvalid ("agent " ++ mission.agent ++
                      " is not a principal in approver " ++
                      mission.approver ++ "'s tenant"))
                  else
                    let blob := jsonText mission.toDoc
                    .ok {
                      mission
                      state := .active
                      s256 := J.encodeUrl (J.sha256 blob)
                      blob }

/-- What an approver may vouch for. -/
structure Vouches (model : Model S P) (mission : Mission) (now : UInt64) :
    Prop where
  other : mission.approver ≠ mission.agent
  unrevoked : ∃ directory, Graph.Directory.parse model.entities =
    .ok directory ∧ directory.revoked mission.approver = false
  bounded : ∃ tenant expiry scopes,
    delegatorAttrs model.entities mission.approver =
      some (tenant, expiry, scopes) ∧
    (∀ tool ∈ mission.approvedTools, tool ∈ scopes) ∧
    mission.expiry ≤ expiry ∧
    (principalAttrs model.entities mission.agent).bind (fun attrs =>
      (attrs.get "tenant").bind Value.asStr) = some tenant
  current : now < mission.expiry

variable {J} {model : Model S P} {mission : Mission} {now : UInt64}
  {approved : ApprovedMission}

/-- An approval is of what its approver may vouch for, under the hash of its
own bytes. -/
theorem approve_eq_ok (happrove : approve J model mission now =
      .ok approved) :
    Vouches model mission now ∧ approved = {
      mission
      state := .active
      s256 := J.encodeUrl (J.sha256 (jsonText mission.toDoc))
      blob := jsonText mission.toDoc } := by
  unfold approve at happrove
  split at happrove
  case h_1 => cases happrove
  case h_2 tenant expiry scopes hattrs =>
    by_cases hself : mission.approver = mission.agent
    · rw [if_pos hself] at happrove
      cases happrove
    rw [if_neg hself] at happrove
    split at happrove
    case h_1 => cases happrove
    case h_2 directory hparsed =>
      by_cases hrevoked : directory.revoked mission.approver = true
      · rw [if_pos hrevoked] at happrove
        cases happrove
      rw [if_neg hrevoked] at happrove
      split at happrove
      case h_1 => cases happrove
      case h_2 hheld =>
        by_cases houtlives : expiry < mission.expiry
        · rw [if_pos houtlives] at happrove
          cases happrove
        rw [if_neg houtlives] at happrove
        by_cases hexpired : mission.expiry ≤ now
        · rw [if_pos hexpired] at happrove
          cases happrove
        rw [if_neg hexpired] at happrove
        split at happrove
        case isTrue => cases happrove
        case isFalse htenant =>
          cases happrove
          have htools : ∀ tool ∈ mission.approvedTools, tool ∈ scopes := by
            intro tool htool
            have hnot := List.find?_eq_none.mp hheld tool htool
            simpa using hnot
          exact ⟨{
            other := hself
            unrevoked := ⟨directory, hparsed,
              Bool.eq_false_of_not_eq_true hrevoked⟩
            bounded := ⟨tenant, expiry, scopes, hattrs, htools,
              UInt64.not_lt.mp houtlives, not_not.mp htenant⟩
            current := UInt64.not_le.mp hexpired }, rfl⟩

end Approve

/-! ## What is recorded and registered -/

namespace ApprovedMission

variable (approved : ApprovedMission)

/-- The context of the record of an approval. -/
def context : Value :=
  .object [
    ("agent", .string approved.mission.agent),
    ("description", .string approved.mission.description),
    ("approved_tools", .array (approved.mission.approvedTools.map
      Value.string)),
    ("capabilities", .array (approved.mission.capabilities.map
      Value.string)),
    ("expiry", .number (.posInt approved.mission.expiry)),
    ("approved_at", .number (.posInt approved.mission.approvedAt)),
    ("s256", .string approved.s256)]

def entry : MissionEntry where
  approver := approved.mission.approver
  expiry := approved.mission.expiry
  terminated := false
  agent := approved.mission.agent
  approvedTools := approved.mission.approvedTools

end ApprovedMission

end Identity

end Decern
