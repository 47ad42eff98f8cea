import Decern.ContextPruning
import Decern.MissionDecisions
import Mathlib.Tactic

/-!
# What a decision does not depend on

Two requests that differ only in what the server is to ignore are decided
alike: the kernel is asked the same question of both.
-/

namespace Decern

open Serde (Map Value)
open Serde.Value (Same SameOption)

/-- The engine reads an object by its members: their order may change what it
says of one it does not read, and nothing else. -/
def Engine.ReadsMembers {S P E C : Type} (engine : Engine S P E C) : Prop :=
  ∀ (schema : S) (action : Cedar.EntityUid) (context other : Value),
    Same context other →
      (engine.readContext schema action context).toOption =
        (engine.readContext schema action other).toOption

namespace Decide

/-- The members of a context that the server sets, or reads itself, without a
bearing on the decision. -/
def serverKeys : List String :=
  ["now", "asserted_by", "subject", "resource", "action",
    "subject_side_challenge", "decision_subject"]

def withoutServerKeys (context : Map) : Map :=
  serverKeys.foldl Map.remove context

/-- Contexts that differ only in what the server is to ignore. -/
structure Indistinct (shape : Declared) (context other : Map) : Prop where
  mission : SameOption (context.get "mission") (other.get "mission")
  rest : shape.Alike (.object (withoutServerKeys context))
    (.object (withoutServerKeys other))

theorem get_foldl_remove (keys : List String) (context : Map) (name : String) :
    (keys.foldl Map.remove context).get name =
      if name ∈ keys then none else context.get name := by
  induction keys generalizing context with
  | nil => simp
  | cons key rest ih =>
      rw [List.foldl_cons, ih, Map.get_remove]
      by_cases hkey : name = key
      · simp [hkey]
      · simp [hkey]

/-! ## The Mission -/

theorem namedMission_same {mission other : Value} (hsame : Same mission other) :
    namedMission mission = namedMission other := by
  have hfield : ∀ name, (mission.get name).bind Value.asStr =
      (other.get name).bind Value.asStr := by
    intro name
    rcases (hsame.sameOption_get name).cases with
      ⟨hvalue, hother⟩ | ⟨value, found, hvalue, hother, hsame⟩
    · rw [hvalue, hother]
    · rw [hvalue, hother]
      exact hsame.asStr
  cases hsame with
  | refl => rfl
  | array => rfl
  | object members others _ _ =>
      simp only [Value.get_object] at hfield
      simp only [namedMission, Value.asObject, hfield]

section Binding

variable {S P E C : Type} {host : Host S P E C} {req req' : DecideReq}
  {now : UInt64}

theorem bindMission_same {status : String → MissionStatus}
    {dir : Graph.Directory} {required : Bool} {subjectId action : String}
    {context other : Value}
    (hmission : SameOption (context.get "mission") (other.get "mission")) :
    bindMission status dir required subjectId action context now =
      bindMission status dir required subjectId action other now := by
  unfold bindMission
  rcases hmission.cases with
    ⟨hvalue, hother⟩ | ⟨mission, found, hvalue, hother, hsame⟩
  · rw [hvalue, hother]
  · rw [hvalue, hother]
    have hkept : (some mission).filter (fun value => !value.isNull) =
        if found.isNull then none else some mission := by
      cases hnull : found.isNull <;>
        simp [Option.filter, hsame.isNull, hnull]
    have hlike : (some found).filter (fun value => !value.isNull) =
        if found.isNull then none else some found := by
      cases hnull : found.isNull <;> simp [Option.filter, hnull]
    have hbound : boundMission status dir subjectId action mission now =
        boundMission status dir subjectId action found now := by
      simp only [boundMission, namedMission_same hsame]
    rw [hkept, hlike]
    by_cases hnull : found.isNull = true
    · rw [if_pos hnull, if_pos hnull]
    · rw [if_neg hnull, if_neg hnull]
      simp only [hbound]

/-- The requests ask for the same, with what is ignored of them aside. -/
structure SameRequest (host : Host S P E C) (req req' : DecideReq) : Prop where
  subject : req'.subject = req.subject
  action : req'.action = req.action
  resource : req'.resource = req.resource
  context : Indistinct
    ((host.kernel.contextShape[req.action.name]?).getD Declared.onlyNow)
    (req.context.getD []) (req'.context.getD [])

theorem bindOf_same (hsame : SameRequest host req req') :
    host.bindOf req' now = host.bindOf req now := by
  rw [Host.bindOf, Host.bindOf, hsame.subject, hsame.action]
  refine (bindMission_same ?_).symm
  rw [get_mission_merged, get_mission_merged]
  exact hsame.context.mission

/-! ## The context -/

theorem merged_alike (hsame : SameRequest host req req') {name : String}
    {child : Declared}
    (hchild : ((host.kernel.contextShape[req.action.name]?).getD
      Declared.onlyNow).member name = some child)
    (hchallenge : name ≠ "subject_side_challenge")
    (hsubject : name ≠ "decision_subject") :
    child.AlikeOption ((req.merged now).get name)
      ((req'.merged now).get name) := by
  simp only [DecideReq.merged, get_kernelContext, hsame.subject,
    hsame.action, hsame.resource]
  by_cases hserver : name ∈ serverKeys
  · simp only [serverKeys, List.mem_cons, List.not_mem_nil, or_false]
      at hserver
    rcases hserver with rfl | rfl | rfl | rfl | rfl | rfl | rfl
    · exact .refl _
    · exact .refl _
    · exact .refl _
    · exact .refl _
    · exact .refl _
    · exact absurd rfl hchallenge
    · exact absurd rfl hsubject
  · have hrest := hsame.context.rest.member hchild
    simp only [withoutServerKeys, get_foldl_remove, hserver, if_false]
      at hrest
    simp only [serverKeys, List.mem_cons, List.not_mem_nil, or_false,
      not_or] at hserver
    simpa [hserver] using hrest

theorem get_strip (ctx : Value) (name : String) :
    (stripClientApprovalFlags ctx).get name =
      if name = "consent" ∨ name = "human_approved" then none
      else ctx.get name := by
  simp only [stripClientApprovalFlags, Value.get_remove]
  by_cases hconsent : name = "consent"
  · simp [hconsent]
  · simp [hconsent]

theorem strip_alike {ctx other : Value} {name : String} {child : Declared}
    (halike : child.AlikeOption (ctx.get name) (other.get name)) :
    child.AlikeOption ((stripClientApprovalFlags ctx).get name)
      ((stripClientApprovalFlags other).get name) := by
  rw [get_strip, get_strip]
  split_ifs
  · exact .refl none
  · exact halike

/-- What is asked under is alike, once the Missions are bound. -/
theorem applied_alike (hsame : SameRequest host req req') {name : String}
    {child : Declared} (bind : MissionBind)
    (hchild : ((host.kernel.contextShape[req.action.name]?).getD
      Declared.onlyNow).member name = some child)
    (hchallenge : name ≠ "subject_side_challenge")
    (hsubject : name ≠ "decision_subject") :
    child.AlikeOption
      ((applyBind bind (req.merged now) req.action.name).2.2.get name)
      ((applyBind bind (req'.merged now) req.action.name).2.2.get name) := by
  have hmerged : child.AlikeOption ((req.merged now).get name)
      ((req'.merged now).get name) :=
    merged_alike hsame hchild hchallenge hsubject
  cases bind with
  | none => exact hmerged
  | deny errors => exact strip_alike hmerged
  | ok reference =>
      simp only [applyBind, applyMissionContext]
      split_ifs
      · obtain ⟨members, hmembers⟩ : ∃ members : Map,
            stripClientApprovalFlags (req.merged now) = .object members :=
          ⟨_, rfl⟩
        obtain ⟨others, hothers⟩ : ∃ others : Map,
            stripClientApprovalFlags (req'.merged now) = .object others :=
          ⟨_, rfl⟩
        have hstripped := strip_alike hmerged
        rw [hmembers, hothers] at hstripped ⊢
        rw [Value.get_insert, Value.get_insert]
        split_ifs
        · exact .refl _
        · exact hstripped
      · exact strip_alike hmerged

theorem final_alike (hsame : SameRequest host req req') (bind : MissionBind) :
    ((host.kernel.contextShape[req.action.name]?).getD
      Declared.onlyNow).Alike
      (withoutOwnKeys (applyBind bind (req.merged now) req.action.name).2.2)
      (withoutOwnKeys (applyBind bind (req'.merged now)
        req.action.name).2.2) := by
  obtain ⟨members, hmembers⟩ :=
    asObject_applied req now bind req.action.name
  obtain ⟨others, hothers⟩ :=
    asObject_applied req' now bind req.action.name
  rw [hmembers, hothers]
  refine Declared.alike_object fun name child hchild => ?_
  rw [← Value.get_object, ← Value.get_object others, ← hmembers, ← hothers]
  by_cases hmission : name = "mission"
  · simp [withoutOwnKeys, Value.get_remove, hmission, Declared.AlikeOption]
  by_cases hchallenge : name = "subject_side_challenge"
  · simp [withoutOwnKeys, Value.get_remove, hchallenge,
      Declared.AlikeOption]
  by_cases hsubject : name = "decision_subject"
  · simp [withoutOwnKeys, Value.get_remove, hsubject, Declared.AlikeOption]
  · rw [get_withoutOwnKeys hmission hchallenge hsubject,
      get_withoutOwnKeys hmission hchallenge hsubject]
    exact applied_alike hsame bind hchild hchallenge hsubject

/-- The clock survives everything but the pruning. -/
theorem get_now_final (req : DecideReq) (bind : MissionBind)
    (action : String) :
    (withoutOwnKeys (applyBind bind (req.merged now) action).2.2).get "now" =
      some (.number (.posInt now)) := by
  have hmerged : (req.merged now).get "now" =
      some (.number (.posInt now)) := by
    simp [DecideReq.merged, get_kernelContext]
  have hstripped : (stripClientApprovalFlags (req.merged now)).get "now" =
      some (.number (.posInt now)) := by
    simp [get_strip, hmerged]
  rw [get_withoutOwnKeys (by decide) (by decide) (by decide)]
  cases bind with
  | none => exact hmerged
  | deny errors => exact hstripped
  | ok reference =>
      simp only [applyBind, applyMissionContext]
      split_ifs
      · obtain ⟨members, hmembers⟩ : ∃ members : Map,
            stripClientApprovalFlags (req.merged now) = .object members :=
          ⟨_, rfl⟩
        rw [hmembers] at hstripped ⊢
        rw [Value.get_insert, if_neg (by decide)]
        exact hstripped
      · exact hstripped

theorem get_prune_congr {shape : Declared} {members others : Map}
    {name : String} (hget : members.get name = others.get name) :
    (shape.prune (.object members)).get name =
      (shape.prune (.object others)).get name := by
  cases shape with
  | unread =>
      rw [Declared.prune_unread, Declared.prune_unread]
      exact hget
  | record attrs => rw [Declared.get_prune, Declared.get_prune, hget]

end Binding

/-! ## The kernel -/

section Deciding

variable {S P E C : Type} {engine : Engine S P E C} {kernel : Kernel S P E}

/-- The same errors, but for what is said of a context that was not read. -/
def SameErrors (errors other : List String) : Prop :=
  other = errors ∨ ∃ text text' rest,
    errors = ("bad context: " ++ text) :: rest ∧
      other = ("bad context: " ++ text') :: rest

theorem SameErrors.append {errors other : List String}
    (hsame : SameErrors errors other) (more : List String) :
    SameErrors (errors ++ more) (other ++ more) := by
  rcases hsame with rfl | ⟨text, text', rest, rfl, rfl⟩
  · exact Or.inl rfl
  · exact Or.inr ⟨text, text', rest ++ more, rfl, rfl⟩

/-- The same answer: the reasons are a set, in whatever order they are
given. -/
structure SameAnswer (response other : CheckResponse) : Prop where
  decision : other.decision = response.decision
  reasons : ∀ reason, reason ∈ other.reasons ↔ reason ∈ response.reasons
  errors : SameErrors response.errors other.errors

theorem SameAnswer.refl (response : CheckResponse) :
    SameAnswer response response :=
  ⟨rfl, fun _ => Iff.rfl, Or.inl rfl⟩

theorem check_same (hread : engine.ReadsMembers) {ctx other : Value}
    (hsame : Same ctx other) (hnow : ctx.get "now" = other.get "now")
    (subject : EntityRef) (action : String) (resource : EntityRef) :
    SameAnswer (kernel.check engine subject action resource ctx)
      (kernel.check engine subject action resource other) := by
  have hobject : other.asObject.isNone = ctx.asObject.isNone := by
    rw [← Option.not_isSome, ← Option.not_isSome, hsame.isSome_asObject]
  have hclock : Kernel.clockOf engine other = Kernel.clockOf engine ctx := by
    unfold Kernel.clockOf
    rw [hnow]
  unfold Kernel.check Kernel.checked
  rw [hobject, hclock]
  rcases Kernel.uid engine subject.ty subject.id with error | principal
  · exact .refl _
  rcases Kernel.uid engine "Action" action with error | actionUid
  · exact .refl _
  rcases Kernel.uid engine resource.ty resource.id with error | resourceUid
  · exact .refl _
  by_cases hnone : ctx.asObject.isNone = true
  · simp only [hnone, if_true]
    exact .refl _
  simp only [hnone]
  rcases Kernel.clockOf engine ctx with error | now
  · exact .refl _
  -- what the engine says of a context it does not read is all that may differ
  have hcontext := hread kernel.schema actionUid ctx other hsame
  simp only [Except.mapError, bind, Except.bind, Bool.false_eq_true,
    if_false]
  generalize engine.readContext kernel.schema actionUid ctx = read
    at hcontext ⊢
  generalize engine.readContext kernel.schema actionUid other = read'
    at hcontext ⊢
  rcases read with text | read <;> rcases read' with text' | read'
  · exact ⟨rfl, fun _ => Iff.rfl, Or.inr ⟨text, text', [], rfl, rfl⟩⟩
  · cases hcontext
  · cases hcontext
  · cases hcontext
    exact .refl _

variable {host : Host S P E C} {caller : Option Authenticated}
  {req req' : DecideReq} {p p' : Prepared}

/-- The kernel is asked the same of both. -/
structure SameQuestion (p p' : Prepared) : Prop where
  subject : p'.subject = p.subject
  action : p'.action = p.action
  resource : p'.resource = p.resource
  ctx : Same p.ctx p'.ctx

theorem question_same (hsame : SameRequest host req req')
    (hprepares : Prepares host req p) (hprepares' : Prepares host req' p') :
    SameQuestion p p' ∧ p.ctx.get "now" = p'.ctx.get "now" ∧
      p'.mission.errors = p.mission.errors := by
  have hclock : p'.now = p.now := by
    have hnow := hprepares'.clock
    rw [hprepares.clock, Option.some.injEq] at hnow
    exact hnow.symm
  have hbind : host.bindOf req' p'.now = host.bindOf req p.now := by
    rw [hclock, bindOf_same hsame]
  have hctx' := hprepares'.ctx
  rw [hbind, hclock, hsame.action] at hctx'
  refine ⟨{
    subject := ?_
    action := ?_
    resource := ?_
    ctx := ?_ }, ?_, ?_⟩
  · rw [hprepares.subject, hprepares'.subject, hsame.subject]
  · rw [hprepares.action, hprepares'.action, hsame.action]
  · rw [hprepares.resource, hprepares'.resource, hsame.resource]
  · rw [hprepares.ctx, hctx']
    exact (final_alike hsame _).same_prune
  · obtain ⟨members, hmembers⟩ := asObject_applied req p.now
      (host.bindOf req p.now) req.action.name
    obtain ⟨others, hothers⟩ := asObject_applied req' p.now
      (host.bindOf req p.now) req.action.name
    have hnow := @get_now_final p.now req (host.bindOf req p.now)
      req.action.name
    have hnow' := @get_now_final p.now req' (host.bindOf req p.now)
      req.action.name
    rw [hmembers] at hnow
    rw [hothers] at hnow'
    rw [hprepares.ctx, hctx', hmembers, hothers]
    exact get_prune_congr (hnow.trans hnow'.symm)
  · rw [hprepares.errors, hprepares'.errors, hbind, hsame.action]
    cases host.bindOf req p.now <;> rfl

/-- What a server is to ignore of a request has no part in its decision. -/
theorem decision_ignores (hread : host.engine.ReadsMembers)
    {evaluated evaluated' : Evaluated}
    (hsame : SameRequest host req req')
    (hevaluated : evaluateOne host caller req = .ok evaluated)
    (hevaluated' : evaluateOne host caller req' = .ok evaluated') :
    ∃ p p', prepare host caller req = .ok p ∧
      prepare host caller req' = .ok p' ∧ SameQuestion p p' ∧
      evaluated'.decision = evaluated.decision ∧
      (∀ reason, reason ∈ evaluated'.reasons ↔ reason ∈ evaluated.reasons) ∧
      SameErrors evaluated.errors evaluated'.errors := by
  obtain ⟨p, hprepare, hdecision, hreasons, herrors⟩ :=
    evaluateOne_cases hevaluated
  obtain ⟨p', hprepare', hdecision', hreasons', herrors'⟩ :=
    evaluateOne_cases hevaluated'
  obtain ⟨hquestion, hnow, hmission⟩ := question_same hsame
    (prepares_of_ok hprepare) (prepares_of_ok hprepare')
  have hdecided : SameAnswer (decidePrepared host p)
      (decidePrepared host p') := by
    have hchecked : SameAnswer
        (host.kernel.check host.engine p.subject p.action p.resource p.ctx)
        (host.kernel.check host.engine p.subject p.action p.resource
          p'.ctx) :=
      check_same hread hquestion.ctx hnow p.subject p.action p.resource
    simp only [decidePrepared, hquestion.subject, hquestion.action,
      hquestion.resource, hmission]
    by_cases hbound : p.mission.errors.isEmpty = true
    · simpa only [hbound, if_true] using hchecked
    · simp only [hbound]
      exact ⟨rfl, fun _ => Iff.rfl, hchecked.errors.append _⟩
  refine ⟨p, p', hprepare, hprepare', hquestion, ?_, ?_, ?_⟩
  · rw [hdecision, hdecision', hdecided.decision]
  · rw [hreasons, hreasons']
    exact hdecided.reasons
  · rw [herrors, herrors']
    exact hdecided.errors

end Deciding

/-! ## Samples -/

theorem readAttrs_same {decls : List AttrDecl} {members others : Map}
    (hplain : ∀ decl ∈ decls, decl.ty = .long ∨ decl.ty = .bool)
    (hmembers : ∀ name, SameOption (members.get name) (others.get name)) :
    readAttrs decls members = readAttrs decls others := by
  induction decls with
  | nil => rfl
  | cons decl rest ih =>
      have hrest := ih fun other hother =>
        hplain other (List.mem_cons_of_mem _ hother)
      rw [readAttrs, readAttrs]
      rcases (hmembers decl.name).cases with
        ⟨hvalue, hother⟩ | ⟨value, other, hvalue, hother, hsame⟩
      · simp only [hvalue, hother, hrest]
      · have hread : decl.ty.read value = decl.ty.read other := by
          rcases hplain decl (List.mem_cons_self ..) with hlong | hbool
          · rw [hlong]
            cases hsame <;> rfl
          · rw [hbool]
            cases hsame <;> rfl
        simp only [hvalue, hother, hread, hrest]

theorem declaredEngine_readsMembers (floats : Serde.FloatText) :
    (declaredEngine floats).ReadsMembers := by
  intro schema action context other hsame
  have hplain : ∀ decl ∈ declaredContext action.id,
      decl.ty = .long ∨ decl.ty = .bool := by
    intro decl hdecl
    unfold declaredContext at hdecl
    split at hdecl <;> simp at hdecl <;> grind
  have hread : context.asObject.bind (readAttrs (declaredContext action.id)) =
      other.asObject.bind (readAttrs (declaredContext action.id)) := by
    cases hsame with
    | refl => rfl
    | array => rfl
    | object members others hkeys hmembers =>
        exact readAttrs_same hplain
          (Same.object _ _ hkeys hmembers).sameOption_get
  simp only [declaredEngine, hread]

def sampleRead (context : Map) : DecideReq where
  subject := { ty := "Principal", id := "bot" }
  action := { name := "Read" }
  resource := { ty := "Resource", id := "acct" }
  context := some context

theorem declaredShapes_moveMoney :
    (declaredShapes["MoveMoney"]?).getD Declared.onlyNow =
      .record [("now", .unread), ("human_approved", .unread),
        ("consent", .unread)] :=
  rfl

theorem mem_of_attr {attrs : List (String × Declared)} {name : String}
    {child : Declared} (hchild : Declared.attr attrs name = some child) :
    name ∈ attrs.map Prod.fst := by
  induction attrs with
  | nil => cases hchild
  | cons first rest ih =>
      obtain ⟨key, shape⟩ := first
      rw [Declared.attr] at hchild
      split_ifs at hchild with hname
      · simp [hname]
      · exact List.mem_cons_of_mem _ (ih hchild)

/-- Contexts without a declared member are alike. -/
theorem alike_of_undeclared {attrs : List (String × Declared)}
    {members others : Map}
    (hmembers : ∀ name ∈ attrs.map Prod.fst, members.get name = none)
    (hothers : ∀ name ∈ attrs.map Prod.fst, others.get name = none) :
    (Declared.record attrs).Alike (.object members) (.object others) := by
  refine .record attrs members others ?_ ?_
  · intro name child hchild
    have hname := mem_of_attr hchild
    rw [hmembers name hname, hothers name hname]
  · intro name child value other hchild hvalue
    rw [hmembers name (mem_of_attr hchild)] at hvalue
    cases hvalue

/-- A clock of the caller's own and a member nobody declares. -/
def sampleNoise : Map := [("now", .null), ("extra", .bool true)]

def sampleAbout : Map := [("decision_subject", .string "ppid:dana")]

theorem sample_reads :
    sampleAnswer (sampleRead sampleNoise) = some true ∧
      sampleAnswer (sampleRead sampleAbout) = some true := by
  decide +kernel

theorem decision_ignores_sample :
    ∃ (kernel : Kernel Unit (List Cedar.Policy) Cedar.Entities)
      (p p' : Prepared) (evaluated evaluated' : Evaluated),
      evaluateOne (sampleHost kernel) none (sampleRead sampleNoise) =
        .ok evaluated ∧
      evaluateOne (sampleHost kernel) none (sampleRead sampleAbout) =
        .ok evaluated' ∧
      prepare (sampleHost kernel) none (sampleRead sampleNoise) = .ok p ∧
      prepare (sampleHost kernel) none (sampleRead sampleAbout) = .ok p' ∧
      SameQuestion p p' ∧ evaluated'.decision = evaluated.decision ∧
      (∀ reason, reason ∈ evaluated'.reasons ↔ reason ∈ evaluated.reasons) ∧
      SameErrors evaluated.errors evaluated'.errors := by
  obtain ⟨hnoise, habout⟩ := sample_reads
  obtain ⟨kernel, hkernel, hnoise⟩ := Option.bind_eq_some_iff.mp hnoise
  obtain ⟨kernel', hkernel', habout⟩ := Option.bind_eq_some_iff.mp habout
  rw [hkernel, Option.some.injEq] at hkernel'
  subst hkernel'
  obtain ⟨evaluated, hevaluated, _⟩ := Option.map_eq_some_iff.mp hnoise
  obtain ⟨evaluated', hevaluated', _⟩ := Option.map_eq_some_iff.mp habout
  have hloaded := Kernel.new_eq_ok_iff.mp (toOption_eq_some.mp hkernel)
  have hshape : kernel.contextShape = declaredShapes :=
    (Except.ok.inj hloaded.contextShape).symm
  have hsame : SameRequest (sampleHost kernel) (sampleRead sampleNoise)
      (sampleRead sampleAbout) := {
    subject := rfl
    action := rfl
    resource := rfl
    context := {
      mission := trivial
      rest := by
        simp only [sampleHost, hshape]
        exact alike_of_undeclared (by decide) (by decide) } }
  obtain ⟨p, p', hrest⟩ := decision_ignores
    (declaredEngine_readsMembers sampleFloats) hsame
    (toOption_eq_some.mp hevaluated) (toOption_eq_some.mp hevaluated')
  exact ⟨kernel, p, p', evaluated, evaluated',
    toOption_eq_some.mp hevaluated, toOption_eq_some.mp hevaluated', hrest⟩

/-! ## What does bear on a decision -/

/-- An engine under whose schema a read may carry a set of records of one
string. -/
def itemsEngine : Engine Unit Unit Unit Value where
  floats := sampleFloats
  contextShape _ := .ok (Std.ExtTreeMap.ofList
    [("Read", Declared.record [("now", .unread), ("items", .unread)])])
  validationErrors _ _ := []
  typeName := .ok
  readEntities _ _ := .ok ()
  readContext _ _ context :=
    if (((context.get "items").bind Value.asArray).getD []).all fun item =>
        ((item.asObject).getD []).all fun member =>
          member.1 = "a" && member.2.asStr.isSome then
      .ok context
    else .error "an attribute of an item is not declared"
  validateRequest _ _ _ _ _ := .ok ()
  isAuthorized _ _ _ _ _ _ :=
    { decision := true, reasons := ["P-any"], errors := [] }

def itemsHost (kernel : Kernel Unit Unit Unit) :
    Host Unit Unit Unit Value where
  engine := itemsEngine
  kernel := kernel
  clock := some 100
  missions _ := .ok none
  requireMission := false
  typeAliases := ∅
  parseChallenge _ _ := .error (.malformed "challenge must be an object")
  serdeMessage _ := "unreadable"
  digest _ := ""
  authorityDigest := ""
  sharded := false

def itemsAnswer (items : List Value) : Option Bool :=
  (Kernel.new itemsEngine ⟨(), (), .array []⟩).toOption.bind fun kernel =>
    (evaluateOne (itemsHost kernel) none
      (sampleRead [("items", .array items)])).toOption.map
      Evaluated.decision

/-- A Mission is declared by no schema and decides; so does a member of a
record in a set, which is not looked into. -/
theorem decision_reads_undeclared :
    ((declaredShapes["MoveMoney"]?).getD Declared.onlyNow).Alike
        (.object (withoutServerKeys [("mission", sampleMission)]))
        (.object (withoutServerKeys [])) ∧
      sampleAnswer (sampleTransfer [("mission", sampleMission)]) =
        some true ∧
      sampleAnswer (sampleTransfer []) = some false ∧
      itemsAnswer [.object [("a", .string "x")]] = some true ∧
      itemsAnswer [.object [("a", .string "x"), ("note", .string "y")]] =
        some false := by
  refine ⟨?_, ?_⟩
  · rw [declaredShapes_moveMoney]
    exact alike_of_undeclared (by decide) (by decide)
  · decide +kernel

end Decide

end Decern
