import Decern.DecidePrepare
import Decern.RecordValue
import Mathlib.Tactic

/-!
# The requests of a batch

Items of one exchange inherit the fields they do not name.  Admission reads an
item in place, evaluation reads it as a request: the two see the same parties
unless one is written as an array, which only the second reads.
-/

namespace Decern.Batch

open Decide (Authenticated DecideReq Facts Host describing
  namedDecisionSubject readDecideReq)
open Serde (Map SerdeError Value expectStruct member readMap readOption
  readString required valueSource)

/-! ## The exchange -/

structure Options where
  evaluationsSemantic : Option String

structure BatchReq where
  subject : Option Value := none
  action : Option Value := none
  resource : Option Value := none
  context : Option Value := none
  evaluations : Option (List Value) := none
  options : Option Options := none

/-- When the exchange stops. -/
inductive Semantic where
  | executeAll
  | denyOnFirstDeny
  | permitOnFirstPermit
  deriving DecidableEq, Repr

/-- `quoted` is a name as an error quotes it. -/
def Semantic.parse (quoted : String → String) :
    Option String → Except String Semantic
  | none => .ok .executeAll
  | some name =>
      if name = "execute_all" then .ok .executeAll
      else if name = "deny_on_first_deny" then .ok .denyOnFirstDeny
      else if name = "permit_on_first_permit" then .ok .permitOnFirstPermit
      else .error ("options.evaluations_semantic " ++ quoted name ++
        " is not one of execute_all, deny_on_first_deny, " ++
        "permit_on_first_permit")

/-- The fields an item inherits. -/
def keys : List String := ["subject", "action", "resource", "context"]

def BatchReq.defaultFor (top : BatchReq) (key : String) : Option Value :=
  if key = "subject" then top.subject
  else if key = "action" then top.action
  else if key = "resource" then top.resource
  else if key = "context" then top.context
  else none

/-- An item's own field, or the default behind it. -/
def field (top : BatchReq) (item : Map) (key : String) : Option Value :=
  item.get key <|> top.defaultFor key

/-- A party's description, read in place. -/
def describesIn (party : Option Value) : Bool :=
  ((party.bind fun party => party.get "properties").bind
    Value.asObject).any fun members => !members.isEmpty

/-- What admission needs to know about an item. -/
def facts (top : BatchReq) (item : Value) : Facts :=
  match item.asObject with
  | none => { subjectId := none, describes := false, decisionSubject := none }
  | some item =>
      { subjectId := ((field top item "subject").bind fun party =>
          party.get "id").bind Value.asStr
        describes := ["subject", "resource", "action"].any fun key =>
          describesIn (field top item key)
        decisionSubject := namedDecisionSubject
          ((field top item "context").bind fun context =>
            context.get "decision_subject") }

/-- `trim_start_matches(": ")`. -/
def trimColons : List Char → List Char
  | ':' :: ' ' :: rest => trimColons rest
  | text => text

/-- Which item an error is about; without items there is none to name. -/
def errorAt (index : Option ℕ) (what : String) : String :=
  match index with
  | some index => "evaluations[" ++ toString index ++ "]" ++ what
  | none => String.ofList (trimColons what.toList)

/-- The fields an item comes to, in their order. -/
def mergedFields (top : BatchReq) (item : Map) : Map :=
  keys.filterMap fun key =>
    (field top item key).map fun value => (key, value)

/-- An item as the request it would be by itself. -/
def merged (serdeMessage : SerdeError → String) (top : BatchReq)
    (index : Option ℕ) (item : Value) : Except String DecideReq :=
  match item.asObject with
  | none => .error (errorAt index " is not an object")
  | some item =>
      (readDecideReq valueSource (.object (mergedFields top item))).mapError
        fun error => errorAt index (": " ++ serdeMessage error)

/-! ## What admission does not see -/

/-- A party written as an array of its fields. -/
def positional : Option Value → Bool
  | some (.array _) => true
  | _ => false

theorem get_eq_head_filter (members : Map) (name : String) :
    members.get name =
      ((members.filter fun member => member.1 == name).head?).map
        Prod.snd := by
  induction members with
  | nil => rfl
  | cons first rest ih =>
      rcases first with ⟨key, value⟩
      rw [Map.get_cons, List.filter_cons, ih]
      by_cases hkey : name = key
      · simp [hkey]
      · have hne : (key == name) = false := by
          simpa using Ne.symm hkey
        simp [hkey, hne]

theorem get_of_member {members : Map} {name : String} {found : Option Value}
    (hmember : member members name = .ok found) :
    members.get name = found := by
  rw [get_eq_head_filter]
  unfold member at hmember
  split at hmember
  case h_1 hnone =>
    rw [hnone]
    exact Except.ok.inj hmember
  case h_2 key value hone =>
    rw [hone]
    exact Except.ok.inj hmember
  case h_3 => cases hmember

theorem object_of_readMap {depth : ℕ} {tree : Value} {members : Map}
    (hread : readMap valueSource depth tree = .ok members) :
    tree = .object members := by
  cases tree <;> simp_all [readMap, valueSource]

theorem properties_of_readOption {depth : ℕ} {tree : Value}
    {properties : Option Map}
    (hread : readOption valueSource (readMap valueSource depth) tree =
      .ok properties) : properties = tree.asObject := by
  unfold readOption at hread
  split at hread
  case h_1 hnull =>
    cases tree <;> simp_all [valueSource, Value.asObject]
  case h_2 =>
    cases hmap : readMap valueSource depth tree with
    | error error =>
        rw [hmap] at hread
        cases hread
    | ok members =>
        rw [hmap] at hread
        cases hread
        rw [object_of_readMap hmap]
        rfl

/-- An object's description is the one read of it. -/
theorem describesIn_object {members : Map} {index depth : ℕ}
    {properties : Option Map}
    (hread : Serde.defaulted (.object members) index "properties" none
      (readOption valueSource (readMap valueSource depth)) =
        .ok properties) :
    describesIn (some (.object members)) = describing properties := by
  rcases Serde.defaulted_object_eq_ok hread with
    ⟨hmember, rfl⟩ | ⟨child, hmember, hchild⟩
  · simp [describesIn, describing, Value.get, get_of_member hmember]
  · rw [properties_of_readOption hchild]
    simp [describesIn, describing, Value.get, get_of_member hmember]

theorem readString_value {tree : Value} {text : String}
    (hread : readString valueSource tree = .ok text) :
    tree = .string text := by
  cases tree <;> simp_all [readString, valueSource]

/-- What admission reads of a subject or a resource. -/
theorem facts_of_readRef {depth : ℕ} {party : Value} {ref : Decide.Ref}
    (hread : Decide.readRef valueSource depth party = .ok ref) :
    (party.get "id").bind Value.asStr =
        (if positional (some party) then none else some ref.id) ∧
      describesIn (some party) =
        (!positional (some party) && describing ref.properties) := by
  unfold Decide.readRef at hread
  rcases Serde.bind_eq_ok.mp hread with ⟨_, hstruct, hread⟩
  rcases Serde.bind_eq_ok.mp hread with ⟨ty, _, hread⟩
  rcases Serde.bind_eq_ok.mp hread with ⟨id, hid, hread⟩
  rcases Serde.bind_eq_ok.mp hread with ⟨properties, hproperties, hread⟩
  cases hread
  cases party with
  | object members =>
      rcases Serde.required_object_eq_ok hid with ⟨child, hchild, htext⟩
      have hget := get_of_member hchild
      rw [readString_value htext] at hget
      constructor
      · simp [Value.get, hget, positional, Value.asStr]
      · rw [describesIn_object hproperties]
        simp [positional]
  | array items => simp [Value.get, positional, describesIn]
  | _ => cases hstruct

theorem facts_of_readAction {depth : ℕ} {party : Value}
    {action : Decide.Action}
    (hread : Decide.readAction valueSource depth party = .ok action) :
    describesIn (some party) =
      (!positional (some party) && describing action.properties) := by
  unfold Decide.readAction at hread
  rcases Serde.bind_eq_ok.mp hread with ⟨_, hstruct, hread⟩
  rcases Serde.bind_eq_ok.mp hread with ⟨name, _, hread⟩
  rcases Serde.bind_eq_ok.mp hread with ⟨properties, hproperties, hread⟩
  cases hread
  cases party with
  | object members =>
      rw [describesIn_object hproperties]
      simp [positional]
  | array items => simp [Value.get, positional, describesIn]
  | _ => cases hstruct

theorem member_mergedFields (top : BatchReq) (item : Map) {key : String}
    (hkey : key ∈ keys) :
    member (mergedFields top item) key = .ok (field top item key) := by
  simp only [keys, List.mem_cons, List.not_mem_nil, or_false] at hkey
  rcases hkey with rfl | rfl | rfl | rfl <;>
    cases hsubject : field top item "subject" <;>
    cases haction : field top item "action" <;>
    cases hresource : field top item "resource" <;>
    cases hcontext : field top item "context" <;>
    simp [mergedFields, keys, member, hsubject, haction, hresource, hcontext]

/-- The request describes a party in the open. -/
def openly (top : BatchReq) (item : Map) (req : DecideReq) : Bool :=
  (!positional (field top item "subject") &&
      describing req.subject.properties) ||
    (!positional (field top item "resource") &&
      describing req.resource.properties) ||
    (!positional (field top item "action") &&
      describing req.action.properties)

variable {serdeMessage : SerdeError → String} {top : BatchReq}
  {index : Option ℕ} {item : Map} {req : DecideReq}

/-- What the fields of an item are read as. -/
theorem parties_of_merged
    (hmerged : merged serdeMessage top index (.object item) = .ok req) :
    ∃ subject action resource,
      field top item "subject" = some subject ∧
      field top item "action" = some action ∧
      field top item "resource" = some resource ∧
      Decide.readRef valueSource 1 subject = .ok req.subject ∧
      Decide.readAction valueSource 1 action = .ok req.action ∧
      Decide.readRef valueSource 1 resource = .ok req.resource ∧
      req.context = (field top item "context").bind Value.asObject := by
  unfold merged at hmerged
  simp only [Value.asObject] at hmerged
  cases hread : readDecideReq valueSource
      (.object (mergedFields top item)) with
  | error error =>
      rw [hread] at hmerged
      cases hmerged
  | ok found =>
      rw [hread] at hmerged
      cases hmerged
      unfold readDecideReq at hread
      rcases Serde.bind_eq_ok.mp hread with ⟨_, _, hread⟩
      rcases Serde.bind_eq_ok.mp hread with ⟨subject, hsubject, hread⟩
      rcases Serde.bind_eq_ok.mp hread with ⟨action, haction, hread⟩
      rcases Serde.bind_eq_ok.mp hread with ⟨resource, hresource, hread⟩
      rcases Serde.bind_eq_ok.mp hread with ⟨context, hcontext, hread⟩
      cases hread
      have hfield : ∀ {key found}, key ∈ keys →
          member (mergedFields top item) key = .ok found →
          field top item key = found := by
        intro key found hkey hmember
        exact Except.ok.inj ((member_mergedFields top item hkey).symm.trans
          hmember)
      rcases Serde.required_object_eq_ok hsubject with ⟨s, hs, hsubject⟩
      rcases Serde.required_object_eq_ok haction with ⟨a, ha, haction⟩
      rcases Serde.required_object_eq_ok hresource with ⟨r, hr, hresource⟩
      refine ⟨s, a, r, hfield (by simp [keys]) hs, hfield (by simp [keys]) ha,
        hfield (by simp [keys]) hr, hsubject, haction, hresource, ?_⟩
      rcases Serde.defaulted_object_eq_ok hcontext with
        ⟨hmember, rfl⟩ | ⟨child, hmember, hchild⟩
      · rw [hfield (by simp [keys]) hmember]
        rfl
      · rw [hfield (by simp [keys]) hmember,
          properties_of_readOption hchild]
        rfl

/-- The facts of an item are those of the request it comes to, but for its
parties that are written as arrays. -/
theorem facts_merged
    (hmerged : merged serdeMessage top index (.object item) = .ok req) :
    facts top (.object item) =
      { subjectId :=
          if positional (field top item "subject") then none
          else some req.subject.id
        describes := openly top item req
        decisionSubject := req.facts.decisionSubject } := by
  rcases parties_of_merged hmerged with
    ⟨s, a, r, hs, ha, hr, hsubject, haction, hresource, hcontext⟩
  rcases facts_of_readRef hsubject with ⟨hid, hdescribed⟩
  have hnamed : namedDecisionSubject
      ((field top item "context").bind fun context =>
        context.get "decision_subject") = req.facts.decisionSubject := by
    rw [DecideReq.facts, hcontext]
    cases field top item "context" with
    | none => rfl
    | some context => cases context <;> rfl
  simp only [facts, Value.asObject, openly, hs, ha, hr, Option.bind_some, hid,
    List.any_cons, List.any_nil, Bool.or_false, hdescribed,
    (facts_of_readRef hresource).2, facts_of_readAction haction, hnamed,
    Bool.or_assoc]

theorem facts_eq_iff
    (hmerged : merged serdeMessage top index (.object item) = .ok req) :
    facts top (.object item) = req.facts ↔
      positional (field top item "subject") = false ∧
        (req.facts.describes = true → openly top item req = true) := by
  have hopenly : openly top item req = true → req.facts.describes = true := by
    simp only [openly, DecideReq.facts, Bool.or_eq_true, Bool.and_eq_true]
    rintro ((⟨_, hsubject⟩ | ⟨_, hresource⟩) | ⟨_, haction⟩)
    · exact Or.inl (Or.inl hsubject)
    · exact Or.inl (Or.inr hresource)
    · exact Or.inr haction
  rw [facts_merged hmerged]
  constructor
  · intro hfacts
    rcases Facts.mk.inj hfacts with ⟨hsubject, hdescribes, _⟩
    refine ⟨?_, fun hreq => hdescribes.trans hreq⟩
    cases hpositional : positional (field top item "subject") with
    | false => rfl
    | true =>
        rw [hpositional] at hsubject
        cases hsubject
  · rintro ⟨hsubject, hdescribes⟩
    have hsame : openly top item req = req.facts.describes := by
      by_cases hopen : openly top item req = true
      · rw [hopen, hopenly hopen]
      · by_cases hreq : req.facts.describes = true
        · exact absurd (hdescribes hreq) hopen
        · rw [Bool.eq_false_of_not_eq_true hopen,
            Bool.eq_false_of_not_eq_true hreq]
    rw [hsubject, hsame]
    rfl

/-- What a caller bound to itself was not refused. -/
theorem self_of_admitNamed {who : Authenticated} {found : Facts}
    (hself : who.bind = .selfOnly)
    (hadmitted : Decide.admitNamed (some who) found = none) :
    (∀ id, found.subjectId = some id → who.subject = id) ∧
      (∀ handle, found.decisionSubject = some handle →
        who.subject = handle) ∧
      found.describes = false := by
  have hadmits : ∀ name,
      Decide.refuseUnlessAdmits (some who) name = none →
        who.subject = name := by
    intro name hname
    simpa [Decide.refuseUnlessAdmits, Authenticated.admits, hself] using hname
  unfold Decide.admitNamed at hadmitted
  simp only [Option.orElse_eq_orElse, Option.orElse_eq_or,
    Option.or_eq_none_iff] at hadmitted
  rcases hadmitted with ⟨hsubject, hdecision, hdescribes⟩
  refine ⟨?_, ?_, ?_⟩
  · intro id hid
    rw [hid] at hsubject
    exact hadmits id hsubject
  · intro handle hhandle
    rw [hhandle] at hdecision
    exact hadmits handle hdecision
  · by_contra hdescribed
    rw [if_pos (by simpa using hdescribed)] at hdescribes
    simp [Decide.refuseDescriptionUnlessPep, Decide.refuseUnlessPep, hself]
      at hdescribes

/-- An item is admitted by what it comes to as a request, exactly when its
subject is no array and no array alone holds a description.  A caller bound to
itself that is admitted is evaluated about nobody else, for nobody else and
describing nothing, but for what its arrays hold. -/
theorem batch_admission (caller : Option Authenticated)
    (hmerged : merged serdeMessage top index (.object item) = .ok req) :
    (facts top (.object item) = req.facts ↔
        positional (field top item "subject") = false ∧
          (req.facts.describes = true → openly top item req = true)) ∧
      ((∀ key ∈ keys, positional (field top item key) = false) →
        Decide.admitNamed caller (facts top (.object item)) =
          Decide.admitReq caller req) ∧
      ∀ who, caller = some who → who.bind = .selfOnly →
        Decide.admitNamed caller (facts top (.object item)) = none →
        (positional (field top item "subject") = false →
          req.subject.id = who.subject) ∧
        (∀ handle, req.facts.decisionSubject = some handle →
          handle = who.subject) ∧
        (positional (field top item "subject") = false →
          describing req.subject.properties = false) ∧
        (positional (field top item "resource") = false →
          describing req.resource.properties = false) ∧
        (positional (field top item "action") = false →
          describing req.action.properties = false) := by
  refine ⟨facts_eq_iff hmerged, ?_, ?_⟩
  · intro hobjects
    have hfacts : facts top (.object item) = req.facts := by
      refine (facts_eq_iff hmerged).mpr ⟨hobjects _ (by simp [keys]), ?_⟩
      intro hdescribes
      have hsubject := hobjects "subject" (by simp [keys])
      have hresource := hobjects "resource" (by simp [keys])
      have haction := hobjects "action" (by simp [keys])
      simpa [openly, hsubject, hresource, haction, DecideReq.facts] using
        hdescribes
    rw [hfacts]
    rfl
  · rintro who rfl hself hadmitted
    rw [facts_merged hmerged] at hadmitted
    rcases self_of_admitNamed hself hadmitted with
      ⟨hsubject, hdecision, hdescribes⟩
    simp only [openly, Bool.or_eq_false_iff] at hdescribes
    rcases hdescribes with ⟨⟨hs, hr⟩, ha⟩
    refine ⟨?_, ?_, ?_, ?_, ?_⟩
    · intro hpositional
      rw [hpositional] at hsubject
      exact (hsubject req.subject.id rfl).symm
    · intro handle hhandle
      exact (hdecision handle hhandle).symm
    · intro hpositional
      simpa [hpositional] using hs
    · intro hpositional
      simpa [hpositional] using hr
    · intro hpositional
      simpa [hpositional] using ha

/-- A subject written as an array of its type and its identifier. -/
def positionalItem : Map :=
  [("subject", .array [.string "User", .string "alice"]),
    ("action", .object [("name", .string "Read")]),
    ("resource", .object [("type", .string "Document"),
      ("id", .string "report")])]

theorem batch_admission_positional :
    facts {} (.object positionalItem) ≠
        DecideReq.facts ⟨⟨"User", "alice", none⟩, ⟨"Read", none⟩,
          ⟨"Document", "report", none⟩, none⟩ := by
  have hmerged : merged (fun _ => "") {} (some 0) (.object positionalItem) =
      .ok ⟨⟨"User", "alice", none⟩, ⟨"Read", none⟩,
        ⟨"Document", "report", none⟩, none⟩ := rfl
  intro hfacts
  have hsubject := ((batch_admission none hmerged).1.mp hfacts).1
  cases hsubject

end Decern.Batch
