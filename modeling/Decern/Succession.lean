import Mathlib.Tactic

/-!
# Succession

A sequence of items each attributed to a holder, kept as the runs of one
holder in the order they took over.  A holder that another has followed may
not come back.
-/

namespace Succession

/-- A run of items under one holder, from its first position. -/
structure Span (κ : Type*) where
  kid : κ
  firstSeq : ℕ
  deriving DecidableEq, Repr

variable {κ : Type*}

def kids (spans : List (Span κ)) : List κ :=
  spans.map Span.kid

/-- The holder of the last run. -/
def current (spans : List (Span κ)) : Option κ :=
  spans.getLast?.map Span.kid

@[simp] theorem current_nil : current ([] : List (Span κ)) = none := rfl

theorem current_append_singleton (spans : List (Span κ)) (span : Span κ) :
    current (spans ++ [span]) = some span.kid := by
  simp [current]

theorem mem_kids_of_current {spans : List (Span κ)} {kid : κ}
    (hcurrent : current spans = some kid) : kid ∈ kids spans := by
  obtain ⟨span, hspan, rfl⟩ := Option.map_eq_some_iff.mp hcurrent
  exact List.mem_map_of_mem (List.mem_of_getLast? hspan)

variable [DecidableEq κ]

/-- The run after the first one of a holder. -/
def successor : List (Span κ) → κ → Option (Span κ)
  | [], _ => none
  | span :: rest, kid =>
      if span.kid = kid then rest.head? else successor rest kid

/-- One more item: the last run goes on, or a new one starts. -/
def extend (spans : List (Span κ)) (kid : κ) (seq : ℕ) : List (Span κ) :=
  if current spans = some kid then spans else spans ++ [⟨kid, seq⟩]

/-- A holder may hold the next item when it holds the last one or has not
been followed. -/
def Admits (spans : List (Span κ)) (kid : κ) : Prop :=
  current spans = some kid ∨ successor spans kid = none

instance (spans : List (Span κ)) (kid : κ) : Decidable (Admits spans kid) :=
  inferInstanceAs (Decidable (_ ∨ _))

@[simp] theorem current_extend (spans : List (Span κ)) (kid : κ) (seq : ℕ) :
    current (extend spans kid seq) = some kid := by
  unfold extend
  split
  case isTrue hcurrent => exact hcurrent
  case isFalse => exact current_append_singleton spans _

theorem successor_eq_none_of_notMem {spans : List (Span κ)} {kid : κ}
    (hkid : kid ∉ kids spans) : successor spans kid = none := by
  induction spans with
  | nil => rfl
  | cons span rest ih =>
      simp only [kids, List.map_cons, List.mem_cons, not_or] at hkid
      rw [successor, if_neg (Ne.symm hkid.1)]
      exact ih hkid.2

/-- Where no holder has two runs, only the last one is without successor. -/
theorem successor_eq_none_iff {spans : List (Span κ)}
    (hnodup : (kids spans).Nodup) (kid : κ) :
    successor spans kid = none ↔
      kid ∉ kids spans ∨ current spans = some kid := by
  induction spans with
  | nil => simp [successor, kids]
  | cons span rest ih =>
      rw [kids, List.map_cons, List.nodup_cons] at hnodup
      have hrest := ih hnodup.2
      by_cases hkid : span.kid = kid
      · subst hkid
        cases rest with
        | nil => simp [successor, kids, current]
        | cons next others =>
            have hcurrent : current (span :: next :: others) ≠
                some span.kid := by
              intro heq
              have hmem : span.kid ∈ kids (next :: others) :=
                mem_kids_of_current (by simpa [current] using heq)
              exact hnodup.1 hmem
            simp [successor, kids, hcurrent]
      · have hcurrent : kid ∈ kids (span :: rest) →
            (current (span :: rest) = some kid ↔
              current rest = some kid) := by
          intro hmem
          cases rest with
          | nil =>
              simp [kids, Ne.symm hkid] at hmem
          | cons next others => simp [current]
        rw [successor, if_neg hkid, hrest]
        constructor
        · rintro (hnot | hlast)
          · exact Or.inl (by simpa [kids, Ne.symm hkid] using hnot)
          · refine Or.inr ((hcurrent ?_).mpr hlast)
            exact List.mem_cons_of_mem _ (mem_kids_of_current hlast)
        · rintro (hnot | hlast)
          · exact Or.inl fun hmem => hnot (List.mem_cons_of_mem _ hmem)
          · exact Or.inr
              ((hcurrent (mem_kids_of_current hlast)).mp hlast)

theorem admits_iff {spans : List (Span κ)} (hnodup : (kids spans).Nodup)
    (kid : κ) :
    Admits spans kid ↔ kid ∉ kids spans ∨ current spans = some kid := by
  rw [Admits, successor_eq_none_iff hnodup]
  tauto

/-- Admitted items keep every holder in one run. -/
theorem extend_nodup {spans : List (Span κ)} {kid : κ}
    (hnodup : (kids spans).Nodup) (hadmits : Admits spans kid) (seq : ℕ) :
    (kids (extend spans kid seq)).Nodup := by
  unfold extend
  split
  case isTrue => exact hnodup
  case isFalse hcurrent =>
    have hkid : kid ∉ kids spans := by
      rcases (admits_iff hnodup kid).mp hadmits with hnot | hlast
      · exact hnot
      · exact absurd hlast hcurrent
    rw [kids, List.map_append, List.map_singleton]
    exact List.nodup_append.mpr ⟨hnodup, by simp, by
      intro left hleft right hright heq
      rw [List.mem_singleton] at hright
      subst hright
      exact hkid (heq ▸ hleft)⟩

/-- The holder of the last item has no successor. -/
theorem successor_extend_self {spans : List (Span κ)} {kid : κ}
    (hnodup : (kids spans).Nodup) (hadmits : Admits spans kid) (seq : ℕ) :
    successor (extend spans kid seq) kid = none :=
  (successor_eq_none_iff (extend_nodup hnodup hadmits seq) kid).mpr
    (Or.inr (current_extend spans kid seq))

/-! ## Spans that account for their items -/

/-- Spans that say who holds each item: every holder has one span, in the
order of their first items, and holds one run from there. -/
structure Accounts (spans : List (Span κ)) (holders : List κ) : Prop where
  nodup : (kids spans).Nodup
  ordered : spans.Pairwise fun span next => span.firstSeq < next.firstSeq
  first : ∀ span ∈ spans, holders[span.firstSeq]? = some span.kid
  earliest : ∀ span ∈ spans, ∀ position : ℕ,
    holders[position]? = some span.kid → span.firstSeq ≤ position
  contiguous : ∀ (kid : κ) (start middle stop : ℕ), start ≤ middle →
    middle ≤ stop → holders[start]? = some kid →
      holders[stop]? = some kid → holders[middle]? = some kid
  covers : ∀ kid ∈ holders, kid ∈ kids spans
  last : current spans = holders.getLast?

omit [DecidableEq κ] in
theorem accounts_nil : Accounts ([] : List (Span κ)) [] where
  nodup := List.nodup_nil
  ordered := List.Pairwise.nil
  first := by simp
  earliest := by simp
  contiguous := by simp
  covers := by simp
  last := rfl

section Extend

variable {spans : List (Span κ)} {holders : List κ} {kid : κ}

omit [DecidableEq κ] in
theorem getElem?_concat_of_lt {position : ℕ}
    (hlt : position < holders.length) :
    (holders ++ [kid])[position]? = holders[position]? :=
  List.getElem?_append_left hlt

omit [DecidableEq κ] in
/-- An item of the list with one more is an earlier one or the new one. -/
theorem getElem?_concat_cases {holder : κ} {position : ℕ}
    (hholder : (holders ++ [kid])[position]? = some holder) :
    holders[position]? = some holder ∨
      position = holders.length ∧ holder = kid := by
  rw [List.getElem?_append] at hholder
  by_cases hlt : position < holders.length
  · rw [if_pos hlt] at hholder
    exact Or.inl hholder
  · rw [if_neg hlt, List.getElem?_singleton] at hholder
    by_cases hlast : position - holders.length = 0
    · rw [if_pos hlast] at hholder
      exact Or.inr ⟨by omega, (Option.some.inj hholder).symm⟩
    · rw [if_neg hlast] at hholder
      cases hholder

omit [DecidableEq κ] in
theorem Accounts.firstSeq_lt (haccounts : Accounts spans holders) :
    ∀ span ∈ spans, span.firstSeq < holders.length := by
  intro span hspan
  exact (List.getElem?_eq_some_iff.mp (haccounts.first span hspan)).1

omit [DecidableEq κ] in
/-- The run of the last holder goes on. -/
theorem Accounts.goesOn (haccounts : Accounts spans holders)
    (hcurrent : current spans = some kid) :
    Accounts spans (holders ++ [kid]) where
  nodup := haccounts.nodup
  ordered := haccounts.ordered
  first span hspan := by
    rw [getElem?_concat_of_lt (haccounts.firstSeq_lt span hspan)]
    exact haccounts.first span hspan
  earliest span hspan position hholder := by
    rcases getElem?_concat_cases hholder with hbefore | ⟨rfl, _⟩
    · exact haccounts.earliest span hspan position hbefore
    · exact (haccounts.firstSeq_lt span hspan).le
  contiguous holder start middle stop hstart hstop hfirst hlast := by
    by_cases hmiddle : middle < holders.length
    · rw [getElem?_concat_of_lt hmiddle]
      rw [getElem?_concat_of_lt (hstart.trans_lt hmiddle)] at hfirst
      rcases getElem?_concat_cases hlast with hbefore | ⟨rfl, rfl⟩
      · exact haccounts.contiguous holder start middle stop hstart hstop
          hfirst hbefore
      · have hend := haccounts.last
        rw [hcurrent, List.getLast?_eq_getElem?] at hend
        exact haccounts.contiguous holder start middle _ hstart
          (by omega) hfirst hend.symm
    · have hsame : middle = stop := by
        have hbound := (List.getElem?_eq_some_iff.mp hlast).1
        rw [List.length_append, List.length_singleton] at hbound
        omega
      rw [hsame]
      exact hlast
  covers holder hholder := by
    rcases List.mem_append.mp hholder with hbefore | hnew
    · exact haccounts.covers holder hbefore
    · rw [List.mem_singleton.mp hnew]
      exact mem_kids_of_current hcurrent
  last := by rw [List.getLast?_concat, hcurrent]

omit [DecidableEq κ] in
/-- A new holder starts a run. -/
theorem Accounts.start (haccounts : Accounts spans holders)
    (hkid : kid ∉ kids spans) :
    Accounts (spans ++ [⟨kid, holders.length⟩]) (holders ++ [kid]) where
  nodup := by
    have hconcat := List.Nodup.concat hkid haccounts.nodup
    simpa [kids] using hconcat
  ordered := by
    rw [List.pairwise_append]
    refine ⟨haccounts.ordered, List.pairwise_singleton _ _, ?_⟩
    intro span hspan next hnext
    rw [List.mem_singleton.mp hnext]
    exact haccounts.firstSeq_lt span hspan
  first span hspan := by
    rcases List.mem_append.mp hspan with hbefore | hnew
    · rw [getElem?_concat_of_lt (haccounts.firstSeq_lt span hbefore)]
      exact haccounts.first span hbefore
    · rw [List.mem_singleton.mp hnew]
      exact List.getElem?_concat_length
  earliest span hspan position hholder := by
    rcases List.mem_append.mp hspan with hbefore | hnew
    · rcases getElem?_concat_cases hholder with hearlier | ⟨rfl, _⟩
      · exact haccounts.earliest span hbefore position hearlier
      · exact (haccounts.firstSeq_lt span hbefore).le
    · rw [List.mem_singleton.mp hnew] at hholder ⊢
      rcases getElem?_concat_cases hholder with hearlier | ⟨rfl, _⟩
      · exact absurd (haccounts.covers kid (List.mem_of_getElem? hearlier))
          hkid
      · exact le_rfl
  contiguous holder start middle stop hstart hstop hfirst hlast := by
    rcases getElem?_concat_cases hlast with hbefore | ⟨rfl, rfl⟩
    · have hbound := (List.getElem?_eq_some_iff.mp hbefore).1
      rw [getElem?_concat_of_lt (hstop.trans_lt hbound)]
      rw [getElem?_concat_of_lt
        ((hstart.trans hstop).trans_lt hbound)] at hfirst
      exact haccounts.contiguous holder start middle stop hstart hstop hfirst
        hbefore
    · rcases getElem?_concat_cases hfirst with hearlier | ⟨rfl, _⟩
      · exact absurd
          (haccounts.covers holder (List.mem_of_getElem? hearlier)) hkid
      · have hsame : middle = holders.length := by omega
        rw [hsame]
        exact hlast
  covers holder hholder := by
    rw [kids, List.map_append, List.map_singleton]
    rcases List.mem_append.mp hholder with hbefore | hnew
    · exact List.mem_append_left _ (haccounts.covers holder hbefore)
    · exact List.mem_append_right _ hnew
  last := by
    rw [current_append_singleton, List.getLast?_concat]

/-- Spans that are extended by admitted holders account for their items. -/
theorem Accounts.extend (haccounts : Accounts spans holders)
    (hadmits : Admits spans kid) :
    Accounts (extend spans kid holders.length) (holders ++ [kid]) := by
  unfold Succession.extend
  by_cases hcurrent : current spans = some kid
  · rw [if_pos hcurrent]
    exact haccounts.goesOn hcurrent
  · rw [if_neg hcurrent]
    rcases (admits_iff haccounts.nodup kid).mp hadmits with hkid | hlast
    · exact haccounts.start hkid
    · exact absurd hlast hcurrent

end Extend

end Succession
