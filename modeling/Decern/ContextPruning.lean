import Decern.ContextShape
import Decern.JsonData
import Mathlib.Tactic

/-!
# What pruning makes alike

Contexts that differ only in members a shape does not declare are the same
data once they are pruned to it.
-/

namespace Decern.Declared

open Serde (Map Value)
open Serde.Value (Same SameOption same_object)

/-- The shape of a member, where it is declared; a value that is not looked
into declares nothing about its members. -/
def member : Declared → String → Option Declared
  | .unread, _ => some .unread
  | .record attrs, name => attr attrs name

/-- Alike but for members that are not declared, records within records. -/
inductive Alike : Declared → Value → Value → Prop
  | same {shape : Declared} {value other : Value} :
      Same value other → Alike shape value other
  | record (attrs : List (String × Declared)) (members others : Map) :
      (∀ (name : String) (child : Declared), attr attrs name = some child →
        (members.get name).isSome = (others.get name).isSome) →
      (∀ (name : String) (child : Declared) (value other : Value),
        attr attrs name = some child → members.get name = some value →
        others.get name = some other → Alike child value other) →
      Alike (.record attrs) (.object members) (.object others)

/-- Both absent, or alike. -/
def AlikeOption (shape : Declared) : Option Value → Option Value → Prop
  | none, none => True
  | some value, some other => shape.Alike value other
  | _, _ => False

variable {shape child : Declared} {value other : Value}
  {members others : Map} {name : String}

theorem AlikeOption.refl (found : Option Value) :
    shape.AlikeOption found found := by
  cases found with
  | none => trivial
  | some value => exact .same (.refl value)

theorem alikeOption_of_same {found given : Option Value}
    (hsame : SameOption found given) : shape.AlikeOption found given := by
  cases found <;> cases given
  · trivial
  · exact hsame
  · exact hsame
  · exact .same hsame

theorem Alike.same_of_unread (halike : Alike .unread value other) :
    Same value other := by
  cases halike with
  | same hsame => exact hsame

theorem Alike.member (halike : shape.Alike (.object members) (.object others))
    (hchild : shape.member name = some child) :
    child.AlikeOption (members.get name) (others.get name) := by
  cases halike with
  | same hsame => exact alikeOption_of_same (hsame.sameOption_get name)
  | record attrs _ _ hkeys hmembers =>
      have hkey := hkeys name child hchild
      cases hvalue : members.get name with
      | none =>
          cases hother : others.get name with
          | none => trivial
          | some found => simp [hvalue, hother] at hkey
      | some item =>
          cases hother : others.get name with
          | none => simp [hvalue, hother] at hkey
          | some found =>
              exact hmembers name child item found hchild hvalue hother

theorem alike_object
    (hmembers : ∀ (name : String) (child : Declared),
      shape.member name = some child →
      child.AlikeOption (members.get name) (others.get name)) :
    shape.Alike (.object members) (.object others) := by
  cases shape with
  | unread =>
      refine .same (same_object fun name => ?_)
      have hname := hmembers name .unread rfl
      cases hvalue : members.get name <;> cases hother : others.get name
      · trivial
      · rw [hvalue, hother] at hname
        exact hname
      · rw [hvalue, hother] at hname
        exact hname
      · rw [hvalue, hother] at hname
        exact hname.same_of_unread
  | record attrs =>
      refine .record attrs members others ?_ ?_
      · intro name child hchild
        have hname := hmembers name child hchild
        revert hname
        cases members.get name <;> cases others.get name <;>
          simp [AlikeOption]
      · intro name child value other hchild hvalue hother
        have hname := hmembers name child hchild
        rwa [hvalue, hother] at hname

/-! ## Pruned -/

/-- A member that is not declared is gone either way. -/
theorem prune_remove {value : Value} (hnone : shape.member name = none) :
    shape.prune (value.remove name) = shape.prune value := by
  cases shape with
  | unread => cases hnone
  | record attrs =>
      cases value with
      | object members =>
          simp only [Value.remove, prune, Value.object.injEq]
          induction members with
          | nil => rfl
          | cons first rest ih =>
              obtain ⟨key, value⟩ := first
              by_cases hkey : key = name
              · subst hkey
                have hgone : attr attrs key = none := hnone
                have hdrop : Map.remove ((key, value) :: rest) key =
                    Map.remove rest key := by simp [Map.remove]
                rw [hdrop, ih, List.filterMap_cons, pruneMember_eq, hgone]
                rfl
              · have hkeep : Map.remove ((key, value) :: rest) name =
                    (key, value) :: Map.remove rest name := by
                  simp [Map.remove, hkey]
                rw [hkeep, List.filterMap_cons, List.filterMap_cons, ih]
      | null => rfl
      | bool flag => rfl
      | number number => rfl
      | string text => rfl
      | array items => rfl

/-- A pruned record is the same data where its declared members are. -/
theorem same_prune_record {attrs : List (String × Declared)}
    (hkeys : ∀ (name : String) (child : Declared),
      attr attrs name = some child →
      (members.get name).isSome = (others.get name).isSome)
    (hmembers : ∀ (name : String) (child : Declared) (value other : Value),
      attr attrs name = some child → members.get name = some value →
      others.get name = some other →
      Same (child.prune value) (child.prune other)) :
    Same ((Declared.record attrs).prune (.object members))
      ((Declared.record attrs).prune (.object others)) := by
  have hget := get_prune attrs members
  have hget' := get_prune attrs others
  obtain ⟨kept, hkept⟩ : ∃ kept : Map,
      (Declared.record attrs).prune (.object members) = .object kept :=
    ⟨_, rfl⟩
  obtain ⟨left, hleft⟩ : ∃ left : Map,
      (Declared.record attrs).prune (.object others) = .object left :=
    ⟨_, rfl⟩
  rw [hkept] at hget ⊢
  rw [hleft] at hget' ⊢
  simp only [Value.get_object] at hget hget'
  refine same_object fun name => ?_
  rw [hget, hget']
  cases hchild : attr attrs name with
  | none => trivial
  | some child =>
      have hkey := hkeys name child hchild
      simp only [Option.bind_some]
      cases hvalue : members.get name with
      | none =>
          cases hother : others.get name with
          | none => trivial
          | some found => simp [hvalue, hother] at hkey
      | some item =>
          cases hother : others.get name with
          | none => simp [hvalue, hother] at hkey
          | some found =>
              exact hmembers name child item found hchild hvalue hother

theorem same_prune (hsame : Same value other) :
    Same (shape.prune value) (shape.prune other) := by
  induction hsame generalizing shape with
  | refl value => exact .refl _
  | array items others hlength hitems _ =>
      rw [prune_of_asObject_eq_none rfl, prune_of_asObject_eq_none rfl]
      exact .array _ _ hlength hitems
  | object members others hkeys hmembers ih =>
      cases shape with
      | unread =>
          rw [prune_unread, prune_unread]
          exact .object _ _ hkeys hmembers
      | record attrs =>
          exact same_prune_record (fun name _ _ => hkeys name)
            fun name child value other _ hvalue hother =>
              ih name value other hvalue hother

/-- What is alike under a shape is the same once pruned to it. -/
theorem Alike.same_prune (halike : shape.Alike value other) :
    Same (shape.prune value) (shape.prune other) := by
  induction halike with
  | same hsame => exact Declared.same_prune hsame
  | record attrs members others hkeys _ ih =>
      exact same_prune_record hkeys ih

end Decern.Declared
