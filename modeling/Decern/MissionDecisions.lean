import Decern.BoundedDelegation
import Decern.DecidePrepare
import Decern.SamplePlatform
import Mathlib.Tactic

/-!
# Decisions under a named Mission

Money moves only under a live Mission another principal approved, and a named
Mission leaves no approval in the context but the one the server sets.
-/

namespace Decern.Decide

open Serde (Map Value)
open Decern.Graph (PrincipalRec)

/-! ## What backs a decision -/

/-- A Mission that is live and covers the action, approved by another
principal of the subject's tenant who still holds what it approved. -/
structure Backed (status : String → MissionStatus) (dir : Graph.Directory)
    (subjectId action : String) (mission : Value) (now : UInt64)
    (reference : MissionRef) (entry : MissionEntry) (scope : String)
    (approver subject : PrincipalRec) : Prop where
  named : namedMission mission = .ok reference
  onRecord : status reference.s256 = .ok (some entry)
  active : entry.terminated = false
  unexpired : now < entry.expiry
  asNamed : entry.approver = reference.approver
  agent : entry.agent = subjectId
  another : entry.approver ≠ subjectId
  mapped : scopeForAction action = some scope
  covered : scope ∈ entry.approvedTools
  approverKnown : dir.principals[entry.approver]? = some approver
  subjectKnown : dir.principals[subjectId]? = some subject
  tenant : approver.tenant = subject.tenant
  unrevoked : dir.revoked entry.approver = false
  stands : (now.toNat : ℤ) ≤ approver.expiry.toInt
  holds : scope ∈ approver.scopes

section Binding

variable {status : String → MissionStatus} {dir : Graph.Directory}
  {subjectId action scope : String} {mission : Value} {now : UInt64}
  {reference : MissionRef} {entry : MissionEntry}

theorem granted_facts
    (hgranted : grantedScope reference (status reference.s256) subjectId
      action now = .ok (entry, scope)) :
    entry.approver = reference.approver ∧ entry.agent = subjectId ∧
      entry.approver ≠ entry.agent ∧ scope ∈ entry.approvedTools := by
  unfold grantedScope at hgranted
  dsimp only at hgranted
  split at hgranted
  case h_1 => cases hgranted
  case h_2 => cases hgranted
  case h_3 found _ =>
    split_ifs at hgranted with _ _ hnamed _ hagent hself
    split at hgranted
    case h_1 => cases hgranted
    case h_2 =>
      split_ifs at hgranted with hcovered
      cases hgranted
      exact ⟨not_not.mp hnamed, not_not.mp hagent, hself, hcovered⟩

theorem approverStands_facts
    (hstands : approverStands dir reference entry scope subjectId now =
      .ok ()) :
    ∃ approver subject : PrincipalRec,
      dir.principals[entry.approver]? = some approver ∧
      dir.principals[subjectId]? = some subject ∧
      approver.tenant = subject.tenant ∧
      dir.revoked entry.approver = false ∧
      (now.toNat : ℤ) ≤ approver.expiry.toInt ∧ scope ∈ approver.scopes := by
  unfold approverStands at hstands
  dsimp only at hstands
  split at hstands
  case h_1 approver subject happrover hsubject =>
    split_ifs at hstands with htenant hholds
    exact ⟨approver, subject, happrover, hsubject, not_not.mp htenant,
      hholds⟩
  case h_2 => cases hstands

theorem backed_of_boundMission
    (hbound : boundMission status dir subjectId action mission now =
      .ok reference) :
    ∃ entry scope approver subject, Backed status dir subjectId action mission
      now reference entry scope approver subject := by
  obtain ⟨named, hnamed, hbound⟩ := Serde.bind_eq_ok.mp hbound
  obtain ⟨⟨entry, scope⟩, hgranted, hbound⟩ := Serde.bind_eq_ok.mp hbound
  obtain ⟨⟨⟩, hstands, hbound⟩ := Serde.bind_eq_ok.mp hbound
  obtain rfl : named = reference := Except.ok.inj hbound
  obtain ⟨honRecord, hactive, hunexpired, hmapped⟩ :=
    grantedScope_eq_ok hgranted
  obtain ⟨hasNamed, hagent, hself, hcovered⟩ := granted_facts hgranted
  obtain ⟨approver, subject, happrover, hsubject, htenant, hunrevoked,
    hexpiry, hholds⟩ := approverStands_facts hstands
  exact ⟨entry, scope, approver, subject, {
    named := hnamed
    onRecord := honRecord
    active := hactive
    unexpired := hunexpired
    asNamed := hasNamed
    agent := hagent
    another := hagent ▸ hself
    mapped := hmapped
    covered := hcovered
    approverKnown := happrover
    subjectKnown := hsubject
    tenant := htenant
    unrevoked := hunrevoked
    stands := hexpiry
    holds := hholds }⟩

end Binding

section Preparing

variable {S P E C : Type} {host : Host S P E C}
  {caller : Option Authenticated} {req : DecideReq} {p : Prepared}

/-! ## The context -/

theorem get_describe (context : Map) (key : String) (properties : Option Map)
    (name : String) :
    (describe context key properties).get name =
      if name = key then properties.map Value.object
      else context.get name := by
  unfold describe
  cases properties with
  | none => simp [Map.get_remove]
  | some members =>
      simp only [Map.get_insert, Map.get_remove, Option.map_some]
      split_ifs <;> rfl

theorem get_kernelContext (context : Map) (subject resource action : Option Map)
    (now : UInt64) (name : String) :
    (kernelContext context subject resource action now).get name =
      if name = "action" then action.map Value.object
      else if name = "resource" then resource.map Value.object
      else if name = "subject" then subject.map Value.object
      else if name = "asserted_by" then none
      else if name = "now" then some (.number (.posInt now))
      else context.get name := by
  simp only [kernelContext, Value.get_object, get_describe, Map.get_remove,
    Map.get_insert]

/-- What is left of an absent member is nothing. -/
theorem get_prune_none {shape : Declared} {members : Map} {name : String}
    (hnone : members.get name = none) :
    (shape.prune (.object members)).get name = none := by
  cases shape with
  | unread => rwa [Declared.prune_unread]
  | record attrs => simp [Declared.get_prune, hnone]

/-! ## What is prepared -/

/-- The request's context with the server's facts in it. -/
def DecideReq.merged (req : DecideReq) (now : UInt64) : Value :=
  kernelContext (req.context.getD []) (described req.subject.properties)
    (described req.resource.properties) (described req.action.properties) now

/-- What binding the request's Mission comes to. -/
def Host.bindOf (host : Host S P E C) (req : DecideReq) (now : UInt64) :
    MissionBind :=
  bindMission host.missions host.dir host.requireMission req.subject.id
    req.action.name (req.merged now) now

/-- A context without the keys the server reads itself. -/
def withoutOwnKeys (ctx : Value) : Value :=
  ((ctx.remove "mission").remove "subject_side_challenge").remove
    "decision_subject"

structure Prepares (host : Host S P E C) (req : DecideReq) (p : Prepared) :
    Prop where
  clock : host.clock = some p.now
  subject : p.subject = ⟨host.modelType req.subject.ty, req.subject.id⟩
  action : p.action = req.action.name
  resource : p.resource = ⟨host.modelType req.resource.ty, req.resource.id⟩
  bound : p.mission.bound = (applyBind (host.bindOf req p.now)
    (req.merged p.now) req.action.name).1
  errors : p.mission.errors = (applyBind (host.bindOf req p.now)
    (req.merged p.now) req.action.name).2.1
  named : p.mission.named = ((applyBind (host.bindOf req p.now)
    (req.merged p.now) req.action.name).2.2.get "mission").map namedForRecord
  ctx : p.ctx = host.kernel.pruneUndeclaredContext req.action.name
    (withoutOwnKeys (applyBind (host.bindOf req p.now) (req.merged p.now)
      req.action.name).2.2)

theorem prepareContext_eq_ok {context : Map}
    {subject resource action : Option Map} {ctx : Value} {now : UInt64}
    {asserted : Option AssertedBy}
    (hcontext : prepareContext host caller context subject resource action =
      .ok (ctx, now, asserted)) :
    host.clock = some now ∧
      ctx = kernelContext context subject resource action now := by
  unfold prepareContext at hcontext
  split at hcontext
  case h_1 => cases hcontext
  case h_2 found hclock =>
    dsimp only at hcontext
    split_ifs at hcontext
    cases hcontext
    exact ⟨hclock, rfl⟩

theorem prepares_of_ok (hprepare : prepare host caller req = .ok p) :
    Prepares host req p := by
  unfold prepare at hprepare
  cases hnames : nameTooLarge req.names with
  | some refusal =>
      rw [hnames] at hprepare
      cases hprepare
  | none =>
      rw [hnames] at hprepare
      obtain ⟨⟨ctx, now, caller⟩, hcontext, hprepare⟩ :=
        Serde.bind_eq_ok.mp hprepare
      obtain ⟨hclock, hctx⟩ := prepareContext_eq_ok hcontext
      obtain ⟨subject, hsubject, hprepare⟩ := Serde.bind_eq_ok.mp hprepare
      cases hprepare
      subst hctx
      exact {
        clock := hclock
        subject := rfl
        action := rfl
        resource := rfl
        bound := rfl
        errors := rfl
        named := rfl
        ctx := rfl }

/-! ## A named Mission -/

/-- The request names a Mission; `null` names none. -/
def DecideReq.NamesMission (req : DecideReq) : Prop :=
  ∃ mission, (req.context.getD []).get "mission" = some mission ∧
    mission.isNull = false

theorem get_mission_merged (req : DecideReq) (now : UInt64) :
    (req.merged now).get "mission" =
      (req.context.getD []).get "mission" := by
  simp [DecideReq.merged, get_kernelContext]

theorem get_strip_consent (ctx : Value) :
    (stripClientApprovalFlags ctx).get "consent" = none := by
  simp [stripClientApprovalFlags, Value.get_remove]

theorem get_strip_humanApproved (ctx : Value) :
    (stripClientApprovalFlags ctx).get "human_approved" = none := by
  simp [stripClientApprovalFlags, Value.get_remove]

theorem get_withoutOwnKeys {ctx : Value} {name : String}
    (hmission : name ≠ "mission")
    (hchallenge : name ≠ "subject_side_challenge")
    (hsubject : name ≠ "decision_subject") :
    (withoutOwnKeys ctx).get name = ctx.get name := by
  rw [withoutOwnKeys, Value.get_remove_ne hsubject,
    Value.get_remove_ne hchallenge, Value.get_remove_ne hmission]

/-- A Mission that is named is bound or forces a Deny. -/
theorem bindOf_ne_none (hnamed : req.NamesMission) (now : UInt64) :
    host.bindOf req now ≠ .none := by
  obtain ⟨mission, hmission, hnull⟩ := hnamed
  have hfilter : ((req.merged now).get "mission").filter
      (fun value => !value.isNull) = some mission := by
    rw [get_mission_merged, hmission]
    simp [hnull]
  rw [Host.bindOf, bindMission, hfilter]
  dsimp only
  split <;> simp

/-- What a request's Mission leaves of the flags is the server's own. -/
theorem flags_of_named {now : UInt64} (hnamed : req.NamesMission) :
    let after := applyBind (host.bindOf req now) (req.merged now)
      req.action.name
    after.2.2.get "consent" = none ∧
      after.2.2.get "human_approved" =
        if after.1.isSome ∧ req.action.name = "MoveMoney" then
          some (.bool true)
        else none := by
  cases hbind : host.bindOf req now with
  | none => exact absurd hbind (bindOf_ne_none hnamed now)
  | deny errors =>
      simp only [applyBind]
      exact ⟨get_strip_consent _, by simpa using get_strip_humanApproved _⟩
  | ok reference =>
      simp only [applyBind, applyMissionContext]
      by_cases hmoney : req.action.name = "MoveMoney"
      · rw [if_pos hmoney]
        obtain ⟨members, hmembers⟩ : ∃ members : Map,
            stripClientApprovalFlags (req.merged now) = .object members :=
          ⟨_, rfl⟩
        have hconsent := get_strip_consent (req.merged now)
        rw [hmembers] at hconsent ⊢
        simp only [Value.get_insert]
        exact ⟨by simpa using hconsent, by simp [hmoney]⟩
      · rw [if_neg hmoney]
        exact ⟨get_strip_consent _, by
          simpa [hmoney] using get_strip_humanApproved (req.merged now)⟩

/-- The context the kernel is asked under is an object. -/
theorem asObject_applied (req : DecideReq) (now : UInt64) (bind : MissionBind)
    (action : String) :
    ∃ members : Map, withoutOwnKeys (applyBind bind (req.merged now) action).2.2 =
      .object members := by
  cases bind with
  | none => exact ⟨_, rfl⟩
  | deny errors => exact ⟨_, rfl⟩
  | ok reference =>
      simp only [applyBind, applyMissionContext]
      split_ifs <;> exact ⟨_, rfl⟩

/-- Under a named Mission neither flag the kernel sees is the caller's. -/
theorem kernel_flags_of_named (hprepares : Prepares host req p)
    (hnamed : req.NamesMission) :
    p.ctx.get "consent" = none ∧ ∃ ctx,
      p.ctx = host.kernel.pruneUndeclaredContext p.action ctx ∧
      ctx.get "human_approved" =
        if p.mission.bound.isSome ∧ p.action = "MoveMoney" then
          some (.bool true)
        else none := by
  obtain ⟨hconsent, hflag⟩ :=
    @flags_of_named _ _ _ _ host req p.now hnamed
  obtain ⟨members, hmembers⟩ := asObject_applied req p.now
    (host.bindOf req p.now) req.action.name
  rw [← get_withoutOwnKeys (by decide) (by decide) (by decide)]
    at hconsent hflag
  rw [hprepares.bound, hprepares.action]
  refine ⟨?_, _, hprepares.ctx, hflag⟩
  rw [hmembers] at hconsent
  rw [hprepares.ctx, hmembers, Kernel.pruneUndeclaredContext]
  exact get_prune_none hconsent

/-! ## Deciding -/

theorem bindOf_eq_ok {reference : MissionRef} {now : UInt64}
    (hbind : host.bindOf req now = .ok reference) :
    ∃ mission, (req.context.getD []).get "mission" = some mission ∧
      boundMission host.missions host.dir req.subject.id req.action.name
        mission now = .ok reference := by
  rw [Host.bindOf, bindMission, get_mission_merged] at hbind
  split at hbind
  case h_1 => split_ifs at hbind
  case h_2 mission hmission =>
    split at hbind
    case h_1 found hbound =>
      cases hbind
      exact ⟨mission, (Option.filter_eq_some_iff.mp hmission).1, hbound⟩
    case h_2 => cases hbind

/-- A Deny for want of a Mission says why; without one money never moves. -/
theorem bindOf_cases (req : DecideReq) (now : UInt64) :
    (∃ reference, host.bindOf req now = .ok reference) ∨
      (∃ errors, host.bindOf req now = .deny errors ∧ errors ≠ []) ∨
      (host.bindOf req now = .none ∧ req.action.name ≠ "MoveMoney") := by
  rw [Host.bindOf, bindMission]
  split
  case h_1 =>
    split_ifs with hrequired hmoney
    · exact Or.inr (Or.inl ⟨_, rfl, by simp⟩)
    · exact Or.inr (Or.inl ⟨_, rfl, by simp⟩)
    · exact Or.inr (Or.inr ⟨rfl, hmoney⟩)
  case h_2 =>
    split
    case h_1 reference _ => exact Or.inl ⟨reference, rfl⟩
    case h_2 => exact Or.inr (Or.inl ⟨_, rfl, by simp⟩)

/-- An Allow is the kernel's, with no Mission wanting. -/
theorem allowed_of_decided (hallow : (decidePrepared host p).decision = true) :
    p.mission.errors = [] ∧
      (host.kernel.check host.engine p.subject p.action p.resource
        p.ctx).decision = true := by
  unfold decidePrepared at hallow
  dsimp only at hallow
  split_ifs at hallow with hnone
  exact ⟨List.isEmpty_iff.mp hnone, hallow⟩

/-- Money that moves is never outside a Mission. -/
theorem bindOf_of_moveMoney {now : UInt64}
    (hmoney : req.action.name = "MoveMoney")
    (herrors : (applyBind (host.bindOf req now) (req.merged now)
      req.action.name).2.1 = []) :
    ∃ reference, host.bindOf req now = .ok reference := by
  rcases @bindOf_cases _ _ _ _ host req now with
    hbound | ⟨errors, hdeny, hwhy⟩ | ⟨_, hother⟩
  · exact hbound
  · rw [hdeny] at herrors
    exact absurd herrors hwhy
  · exact absurd hmoney hother

theorem evaluateOne_cases {evaluated : Evaluated}
    (hevaluated : evaluateOne host caller req = .ok evaluated) :
    ∃ p, prepare host caller req = .ok p ∧
      evaluated.decision = (decidePrepared host p).decision ∧
      evaluated.reasons = (decidePrepared host p).reasons ∧
      evaluated.errors = (decidePrepared host p).errors := by
  obtain ⟨p, hprepare, hevaluated⟩ := Serde.bind_eq_ok.mp hevaluated
  obtain ⟨challenge, _, hevaluated⟩ := Serde.bind_eq_ok.mp hevaluated
  cases hevaluated
  exact ⟨p, hprepare, rfl, rfl, rfl⟩

end Preparing

/-- Money moves only under a live Mission of another principal, on a flag the
server set; and under any Mission that is named, no flag is the caller's. -/
theorem move_money_is_backed :
    (∀ {S : Type} (host : Host S (List Cedar.Policy) Cedar.Entities Cedar.Attrs)
        (schema : S) (entities : Value) (caller : Option Authenticated)
        (req : DecideReq) (evaluated : Evaluated),
      host.engine.ReadsAuthority schema →
      Kernel.new host.engine ⟨schema, Policies.authority, entities⟩ =
        .ok host.kernel →
      evaluateOne host caller req = .ok evaluated →
      req.action.name = "MoveMoney" → evaluated.decision = true →
      ∃ p mission reference entry approver subject,
        prepare host caller req = .ok p ∧ host.clock = some p.now ∧
        (req.context.getD []).get "mission" = some mission ∧
        Backed host.missions host.dir req.subject.id "MoveMoney" mission p.now
          reference entry "move_money" approver subject ∧
        p.mission.bound = some reference ∧
        p.ctx.get "human_approved" = some (.bool true)) ∧
    ∀ {S P E C : Type} (host : Host S P E C) (caller : Option Authenticated)
        (req : DecideReq) (p : Prepared),
      prepare host caller req = .ok p → req.NamesMission →
      p.ctx.get "consent" = none ∧ ∃ ctx,
        p.ctx = host.kernel.pruneUndeclaredContext p.action ctx ∧
        ctx.get "human_approved" =
          if p.mission.bound.isSome ∧ p.action = "MoveMoney" then
            some (.bool true)
          else none := by
  constructor
  · intro S host schema entities caller req evaluated hcedar hnew hevaluated
      hmoney hallow
    obtain ⟨p, hprepare, hdecision, -⟩ := evaluateOne_cases hevaluated
    have hprepares := prepares_of_ok hprepare
    obtain ⟨herrors, hcheck⟩ := allowed_of_decided (hdecision ▸ hallow)
    rw [hprepares.errors] at herrors
    obtain ⟨reference, hbind⟩ := bindOf_of_moveMoney hmoney herrors
    obtain ⟨mission, hmission, hbound⟩ := bindOf_eq_ok hbind
    rw [hmoney] at hbound
    obtain ⟨entry, scope, approver, subject, hbacked⟩ :=
      backed_of_boundMission hbound
    have hscope : scope = "move_money" := by
      have hmapped := hbacked.mapped
      simpa [scopeForAction, eq_comm] using hmapped
    subst hscope
    obtain ⟨_, _, _, _, hgranted⟩ := granted_of_allow hcedar hnew hcheck
    refine ⟨p, mission, reference, entry, approver, subject, hprepare,
      hprepares.clock, hmission, hbacked, ?_, ?_⟩
    · rw [hprepares.bound, hbind]
      rfl
    · exact hgranted.approved (hprepares.action.trans hmoney)
  · intro S P E C host caller req p hprepare hnamed
    exact kernel_flags_of_named (prepares_of_ok hprepare) hnamed

/-- A server on the sample model with one Mission on record. -/
def sampleHost (kernel : Kernel Unit (List Cedar.Policy) Cedar.Entities) :
    Host Unit (List Cedar.Policy) Cedar.Entities Cedar.Attrs where
  engine := declaredEngine sampleFloats
  kernel := kernel
  clock := some 100
  missions s256 :=
    .ok (if s256 = "m1" then some {
      approver := "carol", expiry := 500, terminated := false, agent := "bot",
      approvedTools := ["move_money"] } else none)
  requireMission := false
  typeAliases := ∅
  parseChallenge _ _ := .error (.malformed "challenge must be an object")
  serdeMessage _ := "unreadable"
  digest _ := ""
  authorityDigest := ""
  sharded := false

def sampleTransfer (context : Map) : DecideReq where
  subject := { ty := "Principal", id := "bot" }
  action := { name := "MoveMoney" }
  resource := { ty := "Resource", id := "acct" }
  context := some context

/-- What a sample server answers. -/
def sampleAnswer (req : DecideReq) : Option Bool :=
  (Kernel.new (declaredEngine sampleFloats) sampleModel).toOption.bind
    fun kernel => (evaluateOne (sampleHost kernel) none req).toOption.map
      Evaluated.decision

def sampleMission : Value :=
  .object [("approver", .string "carol"), ("s256", .string "m1")]

theorem sample_transfers :
    sampleAnswer (sampleTransfer [("mission", sampleMission)]) =
      some true := by
  decide +kernel

theorem move_money_is_backed_sample :
    ∃ (kernel : Kernel Unit (List Cedar.Policy) Cedar.Entities) (p : Prepared)
      (mission : Value) (reference : MissionRef) (entry : MissionEntry)
      (approver subject : PrincipalRec),
      prepare (sampleHost kernel) none
        (sampleTransfer [("mission", sampleMission)]) = .ok p ∧
      Backed (sampleHost kernel).missions kernel.directory "bot" "MoveMoney"
        mission p.now reference entry "move_money" approver subject ∧
      p.ctx.get "human_approved" = some (.bool true) ∧
      p.ctx.get "consent" = none := by
  obtain ⟨kernel, hkernel, hanswer⟩ :=
    Option.bind_eq_some_iff.mp sample_transfers
  obtain ⟨evaluated, hevaluated, hallow⟩ := Option.map_eq_some_iff.mp hanswer
  have hnew := toOption_eq_some.mp hkernel
  obtain ⟨p, mission, reference, entry, approver, subject, hprepare, _, _,
    hbacked, _, hflag⟩ := move_money_is_backed.1 (sampleHost kernel) ()
      sampleEntities none _ evaluated (declaredEngine_reads sampleFloats)
      hnew (toOption_eq_some.mp hevaluated) rfl hallow
  have hnamed : (sampleTransfer [("mission", sampleMission)]).NamesMission :=
    ⟨sampleMission, rfl, rfl⟩
  exact ⟨kernel, p, mission, reference, entry, approver, subject, hprepare,
    hbacked, hflag, (move_money_is_backed.2 _ _ _ p hprepare hnamed).1⟩

end Decern.Decide
