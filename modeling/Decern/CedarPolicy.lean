import Decern.SerdeRead
import Mathlib.Tactic

/-!
# Cedar policies

Expressions, their evaluation and the authorizer of the Cedar language, for
policies whose attributes hold primitive values and sets of them: nothing
matched is a deny, a forbid overrides every permit, and a policy that errs
does not apply.
-/

namespace Cedar

open Serde (bind_eq_ok)

structure EntityUid where
  ty : String
  id : String
  deriving DecidableEq, Repr

inductive Prim where
  | bool (value : Bool)
  | long (value : Int64)
  | string (value : String)
  | entity (uid : EntityUid)
  deriving DecidableEq, Repr

/-- What an attribute holds. -/
inductive Datum where
  | prim (value : Prim)
  | set (members : List Prim)
  deriving DecidableEq, Repr

abbrev Attrs := List (String × Datum)

inductive Value where
  | datum (value : Datum)
  | record (attrs : Attrs)
  deriving DecidableEq, Repr

inductive Var where
  | principal
  | action
  | resource
  | context
  deriving DecidableEq, Repr

inductive Expr where
  | lit (value : Prim)
  | var (name : Var)
  | getAttr (of : Expr) (attr : String)
  | hasAttr (of : Expr) (attr : String)
  | not (inner : Expr)
  | and (left right : Expr)
  | or (left right : Expr)
  | eq (left right : Expr)
  | lessEq (left right : Expr)
  | contains (set member : Expr)
  deriving DecidableEq, Repr

namespace Expr

def ne (left right : Expr) : Expr := .not (.eq left right)

def greater (left right : Expr) : Expr := .not (.lessEq left right)

/-- A chain of `&&`, which groups to the left. -/
def allOf (first : Expr) (rest : List Expr) : Expr := rest.foldl .and first

end Expr

inductive EvalError where
  | typeError
  | entityDoesNotExist (uid : EntityUid)
  | attrDoesNotExist (attr : String)
  deriving DecidableEq, Repr

structure Request where
  principal : EntityUid
  action : EntityUid
  resource : EntityUid
  context : Attrs

abbrev Entities := EntityUid → Option Attrs

/-! ## Evaluation -/

def Value.ofBool (value : Bool) : Value := .datum (.prim (.bool value))

def Value.asBool : Value → Except EvalError Bool
  | .datum (.prim (.bool value)) => .ok value
  | _ => .error .typeError

def Value.asLong : Value → Except EvalError Int64
  | .datum (.prim (.long value)) => .ok value
  | _ => .error .typeError

/-- Two sets are equal when they have the same members. -/
def Value.same : Value → Value → Bool
  | .datum (.set left), .datum (.set right) =>
      left.all (· ∈ right) && right.all (· ∈ left)
  | left, right => left == right

def Var.value (request : Request) : Var → Value
  | .principal => .datum (.prim (.entity request.principal))
  | .action => .datum (.prim (.entity request.action))
  | .resource => .datum (.prim (.entity request.resource))
  | .context => .record request.context

variable (request : Request) (entities : Entities)

def attrOf (attr : String) : Value → Except EvalError Value
  | .datum (.prim (.entity uid)) =>
      match entities uid with
      | none => .error (.entityDoesNotExist uid)
      | some attrs =>
          match attrs.lookup attr with
          | some value => .ok (.datum value)
          | none => .error (.attrDoesNotExist attr)
  | .record attrs =>
      match attrs.lookup attr with
      | some value => .ok (.datum value)
      | none => .error (.attrDoesNotExist attr)
  | _ => .error .typeError

/-- An entity that does not exist has no attribute. -/
def hasAttrOf (attr : String) : Value → Except EvalError Bool
  | .datum (.prim (.entity uid)) =>
      .ok (((entities uid).bind fun attrs => attrs.lookup attr).isSome)
  | .record attrs => .ok (attrs.lookup attr).isSome
  | _ => .error .typeError

def containsOf : Value → Value → Except EvalError Bool
  | .datum (.set members), .datum (.prim member) =>
      .ok (decide (member ∈ members))
  | .datum (.set _), _ => .ok false
  | _, _ => .error .typeError

/-- `&&` and `||` read their right side only when the left does not decide. -/
def evaluate : Expr → Except EvalError Value
  | .lit value => .ok (.datum (.prim value))
  | .var name => .ok (name.value request)
  | .getAttr of attr => do attrOf entities attr (← evaluate of)
  | .hasAttr of attr => do
      return .ofBool (← hasAttrOf entities attr (← evaluate of))
  | .not inner => do return .ofBool (!(← (← evaluate inner).asBool))
  | .and left right => do
      if ← (← evaluate left).asBool then
        return .ofBool (← (← evaluate right).asBool)
      else return .ofBool false
  | .or left right => do
      if ← (← evaluate left).asBool then return .ofBool true
      else return .ofBool (← (← evaluate right).asBool)
  | .eq left right => do
      return .ofBool ((← evaluate left).same (← evaluate right))
  | .lessEq left right => do
      let low ← (← evaluate left).asLong
      let high ← (← evaluate right).asLong
      return .ofBool (decide (low ≤ high))
  | .contains set member => do
      return .ofBool (← containsOf (← evaluate set) (← evaluate member))

section Equations

variable {request entities} (left right inner set member : Expr)
  (attr : String)

@[simp] theorem evaluate_var (name : Var) :
    evaluate request entities (.var name) = .ok (name.value request) := rfl

theorem evaluate_getAttr :
    evaluate request entities (.getAttr inner attr) =
      evaluate request entities inner >>= attrOf entities attr := rfl

theorem evaluate_hasAttr :
    evaluate request entities (.hasAttr inner attr) = do
      return .ofBool (← hasAttrOf entities attr
        (← evaluate request entities inner)) := rfl

theorem evaluate_not :
    evaluate request entities (.not inner) = do
      return .ofBool (!(← (← evaluate request entities inner).asBool)) := rfl

theorem evaluate_and :
    evaluate request entities (.and left right) = do
      if ← (← evaluate request entities left).asBool then
        return .ofBool (← (← evaluate request entities right).asBool)
      else return .ofBool false := rfl

theorem evaluate_or :
    evaluate request entities (.or left right) = do
      if ← (← evaluate request entities left).asBool then return .ofBool true
      else return .ofBool (← (← evaluate request entities right).asBool) := rfl

theorem evaluate_same :
    evaluate request entities (.eq left right) = do
      return .ofBool ((← evaluate request entities left).same
        (← evaluate request entities right)) := rfl

theorem evaluate_lessEq :
    evaluate request entities (.lessEq left right) = do
      let low ← (← evaluate request entities left).asLong
      let high ← (← evaluate request entities right).asLong
      return .ofBool (decide (low ≤ high)) := rfl

theorem evaluate_holds_member :
    evaluate request entities (.contains set member) = do
      return .ofBool (← containsOf (← evaluate request entities set)
        (← evaluate request entities member)) := rfl

end Equations

/-! ## Policies -/

inductive Effect where
  | permit
  | forbid
  deriving DecidableEq, Repr

inductive Clause where
  | when (condition : Expr)
  | unless (condition : Expr)
  deriving DecidableEq, Repr

def Clause.expr : Clause → Expr
  | .when condition => condition
  | .unless condition => .not condition

/-- A policy over any principal and resource, of one action or of any. -/
structure Policy where
  id : String
  effect : Effect
  action : Option EntityUid
  clauses : List Clause
  deriving DecidableEq, Repr

def Policy.scope (policy : Policy) : Expr :=
  match policy.action with
  | some uid => .eq (.var .action) (.lit (.entity uid))
  | none => .lit (.bool true)

def Policy.condition (policy : Policy) : Expr :=
  .allOf policy.scope (policy.clauses.map Clause.expr)

structure Response where
  allow : Bool
  reasons : List String
  errors : List (String × EvalError)
  deriving DecidableEq, Repr

def satisfied (policy : Policy) : Bool :=
  evaluate request entities policy.condition == .ok (.ofBool true)

def erring (policy : Policy) : Option (String × EvalError) :=
  match evaluate request entities policy.condition with
  | .ok _ => none
  | .error error => some (policy.id, error)

def isAuthorized (policies : List Policy) : Response :=
  let matched := policies.filter (satisfied request entities)
  let permits := matched.filter fun policy => policy.effect == .permit
  let forbids := matched.filter fun policy => policy.effect == .forbid
  let errors := policies.filterMap (erring request entities)
  if forbids.isEmpty && !permits.isEmpty then
    { allow := true, reasons := permits.map Policy.id, errors }
  else { allow := false, reasons := forbids.map Policy.id, errors }

/-! ## What holds -/

/-- The expression evaluates to true. -/
def Holds (expr : Expr) : Prop :=
  evaluate request entities expr = .ok (.ofBool true)

/-- The expression evaluates to false, which an error is not. -/
def Fails (expr : Expr) : Prop :=
  evaluate request entities expr = .ok (.ofBool false)

section Rules

variable {request entities} {left right inner set member : Expr}
  {attr : String}

@[simp] theorem asBool_ofBool (value : Bool) :
    (Value.ofBool value).asBool = .ok value := rfl

theorem asBool_eq_ok {value : Value} {flag : Bool} :
    value.asBool = .ok flag ↔ value = .ofBool flag := by
  unfold Value.asBool
  cases flag <;> split <;> simp_all [Value.ofBool]

theorem asLong_eq_ok {value : Value} {long : Int64} :
    value.asLong = .ok long ↔ value = .datum (.prim (.long long)) := by
  unfold Value.asLong
  split <;> simp_all

theorem holds_lit : Holds request entities (.lit (.bool true)) := rfl

/-- A boolean read off a value is the value's own. -/
theorem read_bool_eq_ok {value : Value} {next : Bool → Except EvalError Value}
    {result : Value} :
    (value.asBool >>= next) = .ok result ↔
      ∃ flag, value = .ofBool flag ∧ next flag = .ok result := by
  simp only [bind_eq_ok, asBool_eq_ok]

theorem holds_and :
    Holds request entities (.and left right) ↔
      Holds request entities left ∧ Holds request entities right := by
  simp only [Holds, evaluate_and]
  constructor
  · intro hand
    obtain ⟨value, hleft, hand⟩ := bind_eq_ok.mp hand
    obtain ⟨flag, hflag, hand⟩ := read_bool_eq_ok.mp hand
    cases flag with
    | false => simp [pure, Except.pure, Value.ofBool] at hand
    | true =>
        simp only [if_true] at hand
        obtain ⟨other, hright, hand⟩ := bind_eq_ok.mp hand
        obtain ⟨flag, hother, hand⟩ := read_bool_eq_ok.mp hand
        have htrue : flag = true := by
          simpa [pure, Except.pure, Value.ofBool] using hand
        exact ⟨by rw [hleft, hflag], by rw [hright, hother, htrue]⟩
  · rintro ⟨hleft, hright⟩
    simp [hleft, hright, bind, Except.bind, pure, Except.pure]

theorem holds_allOf {first : Expr} {rest : List Expr} :
    Holds request entities (.allOf first rest) ↔
      Holds request entities first ∧
        ∀ expr ∈ rest, Holds request entities expr := by
  unfold Expr.allOf
  induction rest generalizing first with
  | nil => simp
  | cons expr rest ih =>
      rw [List.foldl_cons, ih, holds_and, List.forall_mem_cons, and_assoc]

theorem fails_and (hleft : Holds request entities left)
    (hright : Fails request entities right) :
    Fails request entities (.and left right) := by
  simp only [Holds, Fails] at hleft hright ⊢
  simp [evaluate_and, hleft, hright, bind, Except.bind, pure, Except.pure]

theorem fails_and_left (hleft : Fails request entities left) :
    Fails request entities (.and left right) := by
  simp only [Fails] at hleft ⊢
  simp [evaluate_and, hleft, bind, Except.bind, pure, Except.pure]

theorem Holds.or (hor : Holds request entities (.or left right)) :
    Holds request entities left ∨ Holds request entities right := by
  simp only [Holds, evaluate_or] at hor ⊢
  obtain ⟨value, hleft, hor⟩ := bind_eq_ok.mp hor
  obtain ⟨flag, hflag, hor⟩ := read_bool_eq_ok.mp hor
  cases flag with
  | true =>
      left
      rw [hleft, hflag]
  | false =>
      right
      simp only [Bool.false_eq_true, if_false] at hor
      obtain ⟨other, hright, hor⟩ := bind_eq_ok.mp hor
      obtain ⟨flag, hother, hor⟩ := read_bool_eq_ok.mp hor
      have htrue : flag = true := by
        simpa [pure, Except.pure, Value.ofBool] using hor
      rw [hright, hother, htrue]

theorem holds_or_left (hleft : Holds request entities left) :
    Holds request entities (.or left right) := by
  simp only [Holds] at hleft ⊢
  simp [evaluate_or, hleft, bind, Except.bind, pure, Except.pure]

theorem holds_or_right (hleft : Fails request entities left)
    (hright : Holds request entities right) :
    Holds request entities (.or left right) := by
  simp only [Holds, Fails] at hleft hright ⊢
  simp [evaluate_or, hleft, hright, bind, Except.bind, pure, Except.pure]

theorem fails_or (hleft : Fails request entities left)
    (hright : Fails request entities right) :
    Fails request entities (.or left right) := by
  simp only [Fails] at hleft hright ⊢
  simp [evaluate_or, hleft, hright, bind, Except.bind, pure, Except.pure]

theorem holds_not :
    Holds request entities (.not inner) ↔ Fails request entities inner := by
  simp only [Holds, Fails, evaluate_not]
  constructor
  · intro hnot
    obtain ⟨value, hinner, hnot⟩ := bind_eq_ok.mp hnot
    obtain ⟨flag, hflag, hnot⟩ := read_bool_eq_ok.mp hnot
    have hfalse : flag = false := by
      simpa [pure, Except.pure, Value.ofBool] using hnot
    rw [hinner, hflag, hfalse]
  · intro hfails
    simp [hfails, bind, Except.bind, pure, Except.pure]

theorem fails_not (hholds : Holds request entities inner) :
    Fails request entities (.not inner) := by
  simp only [Holds, Fails, evaluate_not] at hholds ⊢
  simp [hholds, bind, Except.bind, pure, Except.pure]

theorem evaluate_eq {first second : Value}
    (hleft : evaluate request entities left = .ok first)
    (hright : evaluate request entities right = .ok second) :
    evaluate request entities (.eq left right) =
      .ok (.ofBool (first.same second)) := by
  simp [evaluate_same, hleft, hright, bind, Except.bind, pure, Except.pure]

theorem Holds.eq (heq : Holds request entities (.eq left right)) :
    ∃ first second, evaluate request entities left = .ok first ∧
      evaluate request entities right = .ok second ∧
      first.same second = true := by
  simp only [Holds, evaluate_same] at heq
  obtain ⟨first, hleft, heq⟩ := bind_eq_ok.mp heq
  obtain ⟨second, hright, heq⟩ := bind_eq_ok.mp heq
  exact ⟨first, second, hleft, hright,
    by simpa [pure, Except.pure, Value.ofBool] using heq⟩

theorem Holds.lessEq (hle : Holds request entities (.lessEq left right)) :
    ∃ low high,
      evaluate request entities left = .ok (.datum (.prim (.long low))) ∧
      evaluate request entities right = .ok (.datum (.prim (.long high))) ∧
      low ≤ high := by
  simp only [Holds, evaluate_lessEq] at hle
  obtain ⟨first, hleft, hle⟩ := bind_eq_ok.mp hle
  obtain ⟨low, hlow, hle⟩ := bind_eq_ok.mp hle
  obtain ⟨second, hright, hle⟩ := bind_eq_ok.mp hle
  obtain ⟨high, hhigh, hle⟩ := bind_eq_ok.mp hle
  rw [asLong_eq_ok] at hlow hhigh
  exact ⟨low, high, by rw [hleft, hlow], by rw [hright, hhigh],
    by simpa [pure, Except.pure, Value.ofBool] using hle⟩

theorem evaluate_contains {members : List Prim} {item : Prim}
    (hset : evaluate request entities set = .ok (.datum (.set members)))
    (hmember : evaluate request entities member =
      .ok (.datum (.prim item))) :
    evaluate request entities (.contains set member) =
      .ok (.ofBool (decide (item ∈ members))) := by
  simp [evaluate_holds_member, hset, hmember, containsOf, bind, Except.bind,
    pure, Except.pure]

theorem containsOf_eq_true {first second : Value}
    (hcontains : containsOf first second = .ok true) :
    ∃ members item, first = .datum (.set members) ∧
      second = .datum (.prim item) ∧ item ∈ members := by
  unfold containsOf at hcontains
  split at hcontains
  case h_1 members item =>
    exact ⟨members, item, rfl, rfl, by simpa using hcontains⟩
  case h_2 => simp at hcontains
  case h_3 => simp at hcontains

theorem Holds.contains
    (hholds : Holds request entities (.contains set member)) :
    ∃ members item,
      evaluate request entities set = .ok (.datum (.set members)) ∧
      evaluate request entities member = .ok (.datum (.prim item)) ∧
      item ∈ members := by
  simp only [Holds, evaluate_holds_member] at hholds
  obtain ⟨first, hset, hholds⟩ := bind_eq_ok.mp hholds
  obtain ⟨second, hmember, hholds⟩ := bind_eq_ok.mp hholds
  obtain ⟨flag, hcontains, hholds⟩ := bind_eq_ok.mp hholds
  have htrue : flag = true := by
    simpa [pure, Except.pure, Value.ofBool] using hholds
  obtain ⟨members, item, hfirst, hsecond, hmem⟩ :=
    containsOf_eq_true (htrue ▸ hcontains)
  exact ⟨members, item, by rw [hset, hfirst], by rw [hmember, hsecond], hmem⟩

/-- A variable that is an entity has the attributes the entity has. -/
theorem evaluate_attr_ok {name : Var} {uid : EntityUid} {value : Value}
    (hname : name.value request = .datum (.prim (.entity uid))) :
    evaluate request entities (.getAttr (.var name) attr) = .ok value ↔
      ∃ attrs datum, entities uid = some attrs ∧
        attrs.lookup attr = some datum ∧ value = .datum datum := by
  simp only [evaluate_getAttr, evaluate_var, hname, bind, Except.bind,
    attrOf]
  cases entities uid with
  | none => simp
  | some attrs =>
      cases hattr : attrs.lookup attr with
      | none => simp [hattr]
      | some datum => simp [hattr, eq_comm]

theorem evaluate_attr {name : Var} {uid : EntityUid} {attrs : Attrs}
    {datum : Datum} (hname : name.value request = .datum (.prim (.entity uid)))
    (huid : entities uid = some attrs)
    (hattr : attrs.lookup attr = some datum) :
    evaluate request entities (.getAttr (.var name) attr) =
      .ok (.datum datum) :=
  (evaluate_attr_ok hname).mpr ⟨attrs, datum, huid, hattr, rfl⟩

theorem evaluate_has {name : Var} {uid : EntityUid} {attrs : Attrs}
    (hname : name.value request = .datum (.prim (.entity uid)))
    (huid : entities uid = some attrs) :
    evaluate request entities (.hasAttr (.var name) attr) =
      .ok (.ofBool (attrs.lookup attr).isSome) := by
  simp [evaluate_hasAttr, hname, hasAttrOf, huid, bind, Except.bind, pure,
    Except.pure]

theorem evaluate_context_attr_ok {value : Value} :
    evaluate request entities (.getAttr (.var .context) attr) = .ok value ↔
      ∃ datum, request.context.lookup attr = some datum ∧
        value = .datum datum := by
  simp only [evaluate_getAttr, evaluate_var, Var.value, bind, Except.bind,
    attrOf]
  cases request.context.lookup attr with
  | none => simp
  | some datum => simp [eq_comm]

theorem evaluate_context_has :
    evaluate request entities (.hasAttr (.var .context) attr) =
      .ok (.ofBool (request.context.lookup attr).isSome) := by
  simp [evaluate_hasAttr, Var.value, hasAttrOf, bind, Except.bind, pure,
    Except.pure]

/-! ## Which policies apply -/

theorem satisfied_iff (policy : Policy) :
    satisfied request entities policy = true ↔
      Holds request entities policy.condition := by
  unfold satisfied Holds
  cases evaluate request entities policy.condition with
  | error error => simp [BEq.beq]
  | ok value => simp [BEq.beq]

theorem holds_condition (policy : Policy) :
    Holds request entities policy.condition ↔
      Holds request entities policy.scope ∧
        ∀ clause ∈ policy.clauses, Holds request entities clause.expr := by
  rw [Policy.condition, holds_allOf, List.forall_mem_map]

theorem holds_scope_any {policy : Policy} (hany : policy.action = none) :
    Holds request entities policy.scope := by
  rw [Policy.scope, hany]
  exact holds_lit

theorem holds_scope_iff {policy : Policy} {uid : EntityUid}
    (haction : policy.action = some uid) :
    Holds request entities policy.scope ↔ request.action = uid := by
  rw [Policy.scope, haction]
  have hleft : evaluate request entities (.var .action) =
      .ok (.datum (.prim (.entity request.action))) := rfl
  have hright : evaluate request entities (.lit (.entity uid)) =
      .ok (.datum (.prim (.entity uid))) := rfl
  simp only [Holds]
  rw [evaluate_eq hleft hright]
  simp [Value.same, Value.ofBool]

/-- Allowed is permitted by one policy and forbidden by none. -/
theorem isAuthorized_allow_iff (policies : List Policy) :
    (isAuthorized request entities policies).allow = true ↔
      (∃ policy ∈ policies, policy.effect = .permit ∧
        Holds request entities policy.condition) ∧
      ∀ policy ∈ policies, policy.effect = .forbid →
        ¬ Holds request entities policy.condition := by
  have hforbids : ((policies.filter (satisfied request entities)).filter
        fun policy => policy.effect == .forbid).isEmpty = true ↔
      ∀ policy ∈ policies, policy.effect = .forbid →
        ¬ Holds request entities policy.condition := by
    simp only [List.isEmpty_iff, List.filter_eq_nil_iff, List.mem_filter,
      satisfied_iff, beq_iff_eq, and_imp]
    exact forall₂_congr fun policy _ => imp_not_comm
  have hpermits : ((policies.filter (satisfied request entities)).filter
        fun policy => policy.effect == .permit).isEmpty = false ↔
      ∃ policy ∈ policies, policy.effect = .permit ∧
        Holds request entities policy.condition := by
    rw [← Bool.not_eq_true, List.isEmpty_iff, ← ne_eq,
      ← List.length_pos_iff, List.length_pos_iff_exists_mem]
    simp only [List.mem_filter, satisfied_iff, beq_iff_eq]
    exact exists_congr fun policy => by tauto
  rw [← hforbids, ← hpermits]
  unfold isAuthorized
  dsimp only
  split
  case isTrue hallow =>
    simpa [Bool.and_comm, and_comm] using hallow
  case isFalse hdeny =>
    simp only [Bool.false_eq_true, false_iff, not_and]
    intro hsome hnone
    rw [hsome, hnone] at hdeny
    exact hdeny rfl

end Rules

end Cedar
