import Decern.AuthorityGraph
import Decern.LedgerRecord
import Decern.MissionRegistry
import Mathlib.Tactic

/-!
# Decisions under a Mission

The checks a Mission named by a request passes before it backs a decision,
and the check made once more when the decision is recorded.
-/

namespace Decern

open Serde (Value)

/-- The text of a store error. -/
def StoreError.text : StoreError → String
  | .io path err => "store I/O error at " ++ path ++ ": " ++ err
  | .serde message => "store serialization error: " ++ message
  | .invalid message => "invalid record: " ++ message

/-! ## Binding -/

inductive MissionBind where
  | none
  | ok (reference : MissionRef)
  | deny (errors : List String)
  deriving DecidableEq, Repr

def scopeForAction : String → Option String
  | "Read" => some "read"
  | "MoveMoney" => some "move_money"
  | "AccessPII" => some "pii:read"
  | _ => none

/-- A registry's answer for a content hash. -/
abbrev MissionStatus := Except StoreError (Option MissionEntry)

/-- The Mission a request names, by approver and content hash. -/
def namedMission (mission : Value) : Except String MissionRef :=
  match mission.asObject with
  | none => .error "context.mission must be an object {approver,s256}"
  | some members =>
      let field (name : String) : String :=
        ((members.get name).bind Value.asStr).getD ""
      if field "approver" = "" ∨ field "s256" = "" then
        .error "context.mission requires non-empty approver and s256"
      else .ok ⟨field "approver", field "s256"⟩

/-- The grant on record is live and covers the agent and the action. -/
def grantedScope (reference : MissionRef) (status : MissionStatus)
    (subjectId action : String) (now : UInt64) :
    Except String (MissionEntry × String) :=
  let mission := "mission " ++ reference.s256
  match status with
  | .error error => .error ("mission registry unavailable: " ++ error.text)
  | .ok none => .error (mission ++ " names no registered approval")
  | .ok (some entry) =>
      if entry.terminated then .error (mission ++ " is terminated")
      else if entry.expiry ≤ now then .error (mission ++ " is expired")
      else if entry.approver ≠ reference.approver then
        .error (mission ++ " approver mismatch (registry " ++
          entry.approver ++ ", request " ++ reference.approver ++ ")")
      else if entry.agent = "" then
        .error (mission ++ " has no agent on file (re-approve to enable " ++
          "decision-under-mission)")
      else if entry.agent ≠ subjectId then
        .error (mission ++ " authorizes agent " ++ entry.agent ++
          ", not subject " ++ subjectId)
      else if entry.approver = entry.agent then
        .error (mission ++ " was approved by its own agent, which approves " ++
          "nothing")
      else
        match scopeForAction action with
        | none =>
            .error ("action " ++ action ++ " has no scope mapping, so " ++
              mission ++ " cannot be shown to approve it")
        | some scope =>
            if scope ∈ entry.approvedTools then .ok (entry, scope)
            else .error (mission ++ " does not approve tool/scope `" ++
              scope ++ "` for action " ++ action)

/-- The approver stands in the graph, in the subject's tenant. -/
def approverStands (dir : Graph.Directory) (reference : MissionRef)
    (entry : MissionEntry) (scope subjectId : String) (now : UInt64) :
    Except String Unit :=
  let mission := "mission " ++ reference.s256
  match dir.principals[entry.approver]?, dir.principals[subjectId]? with
  | some approver, some subject =>
      if approver.tenant ≠ subject.tenant then
        .error (mission ++ " was not approved by a principal of subject " ++
          subjectId ++ "'s tenant")
      else if dir.revoked entry.approver = false ∧
          (now.toNat : ℤ) ≤ approver.expiry.toInt ∧ scope ∈ approver.scopes
      then .ok ()
      else .error (mission ++ "'s approver " ++ entry.approver ++
        " no longer holds what it approved: it is revoked, expired, or " ++
        "without `" ++ scope ++ "`")
  | _, _ =>
      .error (mission ++ " was not approved by a principal of subject " ++
        subjectId ++ "'s tenant")

/-- The checks a named Mission must pass, in order; `status` is what the
registry answers for its content hash. -/
def boundMission (status : String → MissionStatus) (dir : Graph.Directory)
    (subjectId action : String) (mission : Value) (now : UInt64) :
    Except String MissionRef := do
  let reference ← namedMission mission
  let (entry, scope) ←
    grantedScope reference (status reference.s256) subjectId action now
  approverStands dir reference entry scope subjectId now
  return reference

def bindMission (status : String → MissionStatus) (dir : Graph.Directory)
    (required : Bool) (subjectId action : String) (context : Value)
    (now : UInt64) : MissionBind :=
  match (context.get "mission").filter (fun value => !value.isNull) with
  | none =>
      if required then
        .deny ["context.mission is required (--require-mission)"]
      else if action = "MoveMoney" then
        .deny ["context.mission is required for MoveMoney"]
      else .none
  | some mission =>
      match boundMission status dir subjectId action mission now with
      | .ok reference => .ok reference
      | .error refusal => .deny [refusal]

/-! ## Settling -/

/-- The content hash an Allow is under. -/
def Entry.allowedUnder (entry : Entry) : Option String :=
  if entry.decision then entry.mission.map MissionRef.s256 else none

def settle (status : String → MissionStatus) (entry : Entry) :
    Except LedgerError Entry :=
  match entry.allowedUnder with
  | none => .ok entry
  | some s256 =>
      match status s256 with
      | .error error => .error (.io "mission registry" error.text)
      | .ok found =>
          if (found.map MissionEntry.terminated).getD false then
            .ok { entry with
              decision := false
              reasons := ["mission " ++ s256 ++
                " was terminated before this decision was recorded"] }
          else .ok entry

/-! ## What binding and settling establish -/

section Binding

variable {status : String → MissionStatus} {dir : Graph.Directory}
  {subjectId action : String} {context mission : Value} {now : UInt64}
  {reference : MissionRef}

theorem grantedScope_eq_ok {found : MissionStatus} {entry : MissionEntry}
    {scope : String}
    (hgranted : grantedScope reference found subjectId action now =
      .ok (entry, scope)) :
    found = .ok (some entry) ∧ entry.terminated = false ∧
      now < entry.expiry ∧ scopeForAction action = some scope := by
  unfold grantedScope at hgranted
  simp only at hgranted
  split at hgranted
  case h_1 => cases hgranted
  case h_2 => cases hgranted
  case h_3 found =>
    split_ifs at hgranted with hterminated hexpired
    split at hgranted
    case h_1 => cases hgranted
    case h_2 scope' hscope =>
      split_ifs at hgranted
      cases hgranted
      exact ⟨rfl, Bool.eq_false_of_not_eq_true hterminated,
        UInt64.not_le.mp hexpired, hscope⟩

/-- A Mission that binds is on record, active and unexpired. -/
theorem status_of_boundMission
    (hbound : boundMission status dir subjectId action mission now =
      .ok reference) :
    ∃ entry, status reference.s256 = .ok (some entry) ∧
      entry.terminated = false ∧ now < entry.expiry ∧
      (scopeForAction action).isSome := by
  unfold boundMission at hbound
  cases hnamed : namedMission mission with
  | error refusal =>
      rw [hnamed] at hbound
      cases hbound
  | ok named =>
      rw [hnamed] at hbound
      simp only [bind, Except.bind] at hbound
      cases hgranted : grantedScope named (status named.s256) subjectId action
          now with
      | error refusal =>
          rw [hgranted] at hbound
          cases hbound
      | ok granted =>
          rw [hgranted] at hbound
          simp only at hbound
          split at hbound
          case h_1 => cases hbound
          case h_2 =>
            cases hbound
            obtain ⟨entry, scope⟩ := granted
            obtain ⟨hstatus, hactive, hexpiry, hscope⟩ :=
              grantedScope_eq_ok hgranted
            exact ⟨entry, hstatus, hactive, hexpiry, by simp [hscope]⟩

theorem boundMission_of_bindMission {required : Bool}
    (hbind : bindMission status dir required subjectId action context now =
      .ok reference) :
    ∃ mission, boundMission status dir subjectId action mission now =
      .ok reference := by
  unfold bindMission at hbind
  split at hbind
  case h_1 =>
    split_ifs at hbind
  case h_2 mission _ =>
    cases hbound : boundMission status dir subjectId action mission now with
    | error refusal =>
        rw [hbound] at hbind
        cases hbind
    | ok found =>
        rw [hbound] at hbind
        cases hbind
        exact ⟨mission, hbound⟩

/-- Settling leaves an entry as it is, or denies it. -/
theorem settle_cases {entry settled : Entry}
    (hsettled : settle status entry = .ok settled) :
    settled = entry ∨ ∃ reasons,
      settled = { entry with decision := false, reasons } := by
  unfold settle at hsettled
  split at hsettled
  case h_1 =>
    cases hsettled
    exact Or.inl rfl
  case h_2 =>
    split at hsettled
    case h_1 => cases hsettled
    case h_2 =>
      split at hsettled
      case isTrue =>
        cases hsettled
        exact Or.inr ⟨_, rfl⟩
      case isFalse =>
        cases hsettled
        exact Or.inl rfl

end Binding

end Decern
