import Decern.HttpSignature
import Decern.SerdeRead
import Mathlib.Tactic

/-!
# What a signature base says

A base has one line for each covered component, then the parameters.  No name
holds a quote, no part of a line a newline, so the lines and what they say are
read back from the text.
-/

namespace Decern

namespace HttpSig

open SeparatedFields (terminated terminated_append_inj)
open Serde (bind_eq_ok)
open Sfv (BareItem Codec InnerList Item Params)

/-! ## Names and values -/

theorem validComponentName_notMem {name : String} {c : Char}
    (hname : validComponentName name = true) (hc : tokenChar c = false)
    (hderived : ∀ derived ∈ derivedNames, c ∉ derived.toList) :
    c ∉ name.toList := by
  intro hmem
  unfold validComponentName at hname
  split at hname
  · exact hderived name (List.contains_iff_mem.mp hname) hmem
  · have hall := (Bool.and_eq_true_iff.mp hname).2
    have htoken := List.all_eq_true.mp hall c hmem
    rw [hc] at htoken
    contradiction

theorem newline_notMem_name {name : String}
    (hname : validComponentName name = true) : '\n' ∉ name.toList :=
  validComponentName_notMem hname (by decide) (by decide)

theorem quote_notMem_name {name : String}
    (hname : validComponentName name = true) : '"' ∉ name.toList :=
  validComponentName_notMem hname (by decide) (by decide)

theorem componentName_valid {components : List String} {item : Item}
    {name : String} (hname : componentName components item = .ok name) :
    validComponentName name = true := by
  unfold componentName at hname
  split at hname
  · split at hname
    · cases hname
    · split at hname
      · cases hname
      · split at hname
        · cases hname
        · cases hname
          simp_all
  · cases hname

theorem coveredComponents_valid {components names : List String}
    {items : List Item}
    (hcovered : coveredComponents components items = .ok names)
    (hcomponents : ∀ name ∈ components, validComponentName name = true) :
    ∀ name ∈ names, validComponentName name = true := by
  induction items generalizing components with
  | nil =>
      cases hcovered
      exact hcomponents
  | cons item rest ih =>
      rw [coveredComponents, bind_eq_ok] at hcovered
      rcases hcovered with ⟨name, hname, hrest⟩
      apply ih hrest
      intro other hother
      rcases List.mem_append.mp hother with hother | hother
      · exact hcomponents other hother
      · rw [List.mem_singleton.mp hother]
        exact componentName_valid hname

theorem value_eq_ok {m : Message} {name value : String}
    (hvalue : m.value name = .ok value) :
    m.draw name = .ok value ∧ signable value = true := by
  unfold Message.value at hvalue
  rcases bind_eq_ok.mp hvalue with ⟨drawn, hdrawn, hsigned⟩
  split at hsigned
  · cases hsigned
    exact ⟨hdrawn, by assumption⟩
  · cases hsigned

theorem newline_notMem_value {value : String}
    (hvalue : signable value = true) : '\n' ∉ value.toList := by
  have hnone := (Bool.and_eq_true_iff.mp hvalue).1
  simpa using hnone

/-! ## Lines -/

/-- The line of a component and its value. -/
def componentLine (component : String × String) : List Char :=
  '"' :: (component.1.toList ++ '"' :: (':' :: ' ' :: component.2.toList))

theorem newline_notMem_componentLine {component : String × String}
    (hname : validComponentName component.1 = true)
    (hvalue : signable component.2 = true) :
    '\n' ∉ componentLine component := by
  have hn := newline_notMem_name hname
  have hv := newline_notMem_value hvalue
  simp [componentLine, hn, hv]

theorem componentLine_inj {left right : String × String}
    (hleft : validComponentName left.1 = true)
    (hright : validComponentName right.1 = true)
    (hline : componentLine left = componentLine right) : left = right := by
  have hrest := SeparatedFields.append_sep_inj (quote_notMem_name hleft)
    (quote_notMem_name hright) (List.cons.inj hline).2
  have hname : left.1 = right.1 := String.toList_inj.mp hrest.1
  have hvalue : left.2 = right.2 := by
    apply String.toList_inj.mp
    simpa using hrest.2
  exact Prod.ext hname hvalue

theorem map_componentLine_inj {left right : List (String × String)}
    (hleft : ∀ c ∈ left, validComponentName c.1 = true)
    (hright : ∀ c ∈ right, validComponentName c.1 = true)
    (hlines : left.map componentLine = right.map componentLine) :
    left = right := by
  induction left generalizing right with
  | nil => exact (List.map_eq_nil_iff.mp hlines.symm).symm
  | cons c rest ih =>
      cases right with
      | nil => simp at hlines
      | cons c' rest' =>
          rw [List.map_cons, List.map_cons, List.cons.injEq] at hlines
          have hfirst := componentLine_inj (hleft c List.mem_cons_self)
            (hright c' List.mem_cons_self) hlines.1
          have hrest := ih
            (fun d hd => hleft d (List.mem_cons_of_mem _ hd))
            (fun d hd => hright d (List.mem_cons_of_mem _ hd)) hlines.2
          rw [hfirst, hrest]

/-- The components of a message's covered names, with their values. -/
structure Draws (m : Message) (names : List String)
    (components : List (String × String)) : Prop where
  names : components.map Prod.fst = names
  values : ∀ component ∈ components,
    m.value component.1 = .ok component.2

theorem pushComponents_eq_ok {m : Message} {base text : String}
    {names : List String} (hpush : pushComponents m base names = .ok text) :
    ∃ components, Draws m names components ∧
      text.toList = base.toList ++
        terminated '\n' (components.map componentLine) := by
  induction names generalizing base with
  | nil =>
      cases hpush
      exact ⟨[], ⟨rfl, by simp⟩, by simp⟩
  | cons name rest ih =>
      rw [pushComponents, bind_eq_ok] at hpush
      rcases hpush with ⟨value, hvalue, hrest⟩
      rcases ih hrest with ⟨components, hdraws, htext⟩
      refine ⟨(name, value) :: components, ⟨?_, ?_⟩, ?_⟩
      · rw [List.map_cons, hdraws.names]
      · intro component hmem
        rcases List.mem_cons.mp hmem with rfl | hmem
        · exact hvalue
        · exact hdraws.values component hmem
      · rw [htext, List.map_cons, SeparatedFields.terminated_cons]
        simp [String.toList_append, componentLine]

/-- The text of a base: its lines, and the parameters after the last. -/
theorem signatureBase_eq_ok {m : Message} {p : Presented} {base : String}
    (hbase : signatureBase m p = .ok base) :
    ∃ components, Draws m p.components components ∧
      base.toList = terminated '\n' (components.map componentLine) ++
        "\"@signature-params\": ".toList ++ p.params.toList := by
  unfold signatureBase at hbase
  rcases bind_eq_ok.mp hbase with ⟨text, hpush, hresult⟩
  rcases pushComponents_eq_ok hpush with ⟨components, hdraws, htext⟩
  cases hresult
  refine ⟨components, hdraws, ?_⟩
  rw [String.toList_append, String.toList_append, htext]
  simp

/-- The text of the base that components and parameters make. -/
def baseText (components : List (String × String)) (params : List Char) :
    List Char :=
  terminated '\n' (components.map componentLine) ++
    "\"@signature-params\": ".toList ++ params

theorem value_of_draw {m : Message} {name value : String}
    (hdraw : m.draw name = .ok value) (hsignable : signable value = true) :
    m.value name = .ok value := by
  rw [Message.value, hdraw]
  simp only [bind, Except.bind, if_pos hsignable]

theorem pushComponents_of_draws {m : Message} {names : List String}
    {components : List (String × String)} (base : String)
    (hdraws : Draws m names components) :
    ∃ text, pushComponents m base names = .ok text ∧
      text.toList = base.toList ++
        terminated '\n' (components.map componentLine) := by
  rw [← hdraws.names]
  have hvalues := hdraws.values
  clear hdraws
  induction components generalizing base with
  | nil => exact ⟨base, rfl, by simp⟩
  | cons component rest ih =>
      rcases component with ⟨name, value⟩
      rcases ih (base ++ "\"" ++ name ++ "\": " ++ value ++ "\n")
        (fun c hc => hvalues c (List.mem_cons_of_mem _ hc)) with
        ⟨text, hpush, htext⟩
      refine ⟨text, ?_, ?_⟩
      · rw [List.map_cons, pushComponents,
          hvalues (name, value) List.mem_cons_self]
        exact hpush
      · rw [htext, List.map_cons, SeparatedFields.terminated_cons]
        simp [String.toList_append, componentLine]

/-- Names whose values can be drawn have a base. -/
theorem signatureBase_of_draws {m : Message} {p : Presented}
    {components : List (String × String)}
    (hdraws : Draws m p.components components) :
    ∃ base, signatureBase m p = .ok base ∧
      base.toList = baseText components p.params.toList := by
  rcases pushComponents_of_draws "" hdraws with ⟨text, hpush, htext⟩
  refine ⟨text ++ "\"@signature-params\": " ++ p.params, ?_, ?_⟩
  · rw [signatureBase, hpush]
    rfl
  · rw [String.toList_append, String.toList_append, htext]
    simp [baseText]

/-! ## Presentations -/

section Presentations

variable {S : Codec}

/-- What a presentation was read from. -/
structure ReadFrom (S : Codec) (profile : Profile) (p : Presented)
    (list : InnerList) : Prop where
  components : coveredComponents [] list.items = .ok p.components
  times : readParams profile { created := none, expires := none }
    list.params = .ok { created := some p.created, expires := p.expires }
  params : S.serialize list = some p.params

theorem presentedUnder_eq_ok {profile : Profile} {input signature : String}
    {p : Presented}
    (hp : presentedUnder S profile input signature = .ok p) :
    ∃ list, ReadFrom S profile p list := by
  unfold presentedUnder at hp
  rcases bind_eq_ok.mp hp with ⟨inputs, _, hp⟩
  rcases bind_eq_ok.mp hp with ⟨signatures, _, hp⟩
  rcases bind_eq_ok.mp hp with ⟨label, _, hp⟩
  rcases bind_eq_ok.mp hp with ⟨list, _, hp⟩
  rcases bind_eq_ok.mp hp with ⟨components, hcomponents, hp⟩
  rcases bind_eq_ok.mp hp with ⟨times, htimes, hp⟩
  rcases times with ⟨created, expires⟩
  cases created with
  | none => cases hp
  | some created =>
      cases hparams : S.serialize list with
      | none =>
          simp only [hparams] at hp
          cases hp
      | some params =>
          simp only [hparams] at hp
          rcases bind_eq_ok.mp hp with ⟨bytes, _, hp⟩
          cases hp
          exact ⟨list, hcomponents, htimes, hparams⟩

theorem ReadFrom.valid {profile : Profile} {p : Presented} {list : InnerList}
    (hread : ReadFrom S profile p list) :
    ∀ name ∈ p.components, validComponentName name = true :=
  coveredComponents_valid hread.components (by simp)

/-- Where two profiles both accept a parameter they read it alike. -/
theorem readParam_agrees {profile profile' : Profile} {times read read' : Times}
    {key : String} {value : BareItem}
    (hread : readParam profile times key value = .ok read)
    (hread' : readParam profile' times key value = .ok read') :
    read = read' := by
  unfold readParam at hread hread'
  by_cases hcreated : key = "created"
  · rw [if_pos hcreated] at hread hread'
    rw [hread] at hread'
    exact Except.ok.inj hread'
  · by_cases hkeyid : key = "keyid"
    · rw [if_neg hcreated, if_pos hkeyid] at hread hread'
      rw [hread] at hread'
      exact Except.ok.inj hread'
    · rw [if_neg hcreated, if_neg hkeyid] at hread hread'
      by_cases halg : key = "alg"
      · subst halg
        by_cases hignore : profile.ignoreAlg = true <;>
          by_cases hignore' : profile'.ignoreAlg = true <;>
          simp_all
      · by_cases hexpires : key = "expires"
        · subst hexpires
          by_cases haccept : profile.acceptExpires = true <;>
            by_cases haccept' : profile'.acceptExpires = true <;>
            simp_all
        · simp [halg, hexpires] at hread

theorem readParams_agrees {profile profile' : Profile}
    {times read read' : Times} {params : Params}
    (hread : readParams profile times params = .ok read)
    (hread' : readParams profile' times params = .ok read') :
    read = read' := by
  induction params generalizing times with
  | nil =>
      cases hread
      cases hread'
      rfl
  | cons param rest ih =>
      rcases param with ⟨key, value⟩
      rw [readParams, bind_eq_ok] at hread hread'
      rcases hread with ⟨next, hnext, hrest⟩
      rcases hread' with ⟨next', hnext', hrest'⟩
      rw [readParam_agrees hnext hnext'] at hrest
      exact ih hrest hrest'

/-- What the serializer is relied on for. -/
structure SerializesApart (S : Codec) : Prop where
  oneLine : ∀ list text, S.serialize list = some text →
    '\n' ∉ text.toList
  injective : ∀ list list' text, S.serialize list = some text →
    S.serialize list' = some text → list = list'

theorem newline_notMem_lastLine {text : String} (htext : '\n' ∉ text.toList) :
    '\n' ∉ "\"@signature-params\": ".toList ++ text.toList := by
  have hname : '\n' ∉ "\"@signature-params\": ".toList := by decide
  simp only [List.mem_append, not_or]
  exact ⟨hname, htext⟩

/-- Names that a base can be made of, and parameters on one line. -/
structure Presented.Readable (p : Presented) : Prop where
  names : ∀ name ∈ p.components, validComponentName name = true
  oneLine : '\n' ∉ p.params.toList

theorem Presented.Readable.lines {p : Presented} (hp : p.Readable)
    {m : Message} {components : List (String × String)}
    (hdraws : Draws m p.components components) :
    (∀ c ∈ components, validComponentName c.1 = true) ∧
      ∀ row ∈ components.map componentLine, '\n' ∉ row := by
  have hvalid : ∀ c ∈ components, validComponentName c.1 = true := by
    intro c hc
    apply hp.names
    rw [← hdraws.names]
    exact List.mem_map_of_mem hc
  refine ⟨hvalid, ?_⟩
  intro row hrow
  rcases List.mem_map.mp hrow with ⟨c, hc, rfl⟩
  exact newline_notMem_componentLine (hvalid c hc)
    (value_eq_ok (hdraws.values c hc)).2

/-- One base says one thing: the same values under the same names, and the
same parameters. -/
theorem base_inj {p p' : Presented} {m m' : Message} {base : String}
    (hp : p.Readable) (hp' : p'.Readable)
    (hbase : signatureBase m p = .ok base)
    (hbase' : signatureBase m' p' = .ok base) :
    ∃ components, Draws m p.components components ∧
      Draws m' p'.components components ∧ p.params = p'.params := by
  rcases signatureBase_eq_ok hbase with ⟨components, hdraws, htext⟩
  rcases signatureBase_eq_ok hbase' with ⟨components', hdraws', htext'⟩
  have hlines := hp.lines hdraws
  have hlines' := hp'.lines hdraws'
  -- the newlines cut the two texts into the same lines
  have hsame := terminated_append_inj hlines.2 hlines'.2
    (newline_notMem_lastLine hp.oneLine)
    (newline_notMem_lastLine hp'.oneLine)
    (by rw [← List.append_assoc, ← List.append_assoc, ← htext, ← htext'])
  have hcomponents : components = components' :=
    map_componentLine_inj hlines.1 hlines'.1 hsame.1
  subst hcomponents
  exact ⟨components, hdraws, hdraws',
    String.toList_inj.mp (List.append_cancel_left hsame.2)⟩

/-- The values of the covered names, drawn from either message. -/
theorem Draws.agree {m m' : Message} {names names' : List String}
    {components : List (String × String)}
    (hdraws : Draws m names components)
    (hdraws' : Draws m' names' components) :
    ∀ name ∈ names, ∃ value,
      m.value name = .ok value ∧ m'.value name = .ok value := by
  intro name hname
  rw [← hdraws.names] at hname
  rcases List.mem_map.mp hname with ⟨c, hc, rfl⟩
  exact ⟨c.2, hdraws.values c hc, hdraws'.values c hc⟩

/-- Presentations with one base cover the same components in the same order,
with the same values, and carry the same parameters. -/
theorem signatureBase_injective (S : Codec) (hS : SerializesApart S)
    (profile profile' : Profile) (input signature input' signature' : String)
    (p p' : Presented) (m m' : Message) (base : String)
    (hp : presentedUnder S profile input signature = .ok p)
    (hp' : presentedUnder S profile' input' signature' = .ok p')
    (hbase : signatureBase m p = .ok base)
    (hbase' : signatureBase m' p' = .ok base) :
    p.components = p'.components ∧
      (∀ name ∈ p.components, ∃ value,
        m.value name = .ok value ∧ m'.value name = .ok value) ∧
      p.params = p'.params ∧ p.created = p'.created ∧
      p.expires = p'.expires := by
  rcases presentedUnder_eq_ok hp with ⟨list, hlist⟩
  rcases presentedUnder_eq_ok hp' with ⟨list', hlist'⟩
  have hreadable : p.Readable :=
    ⟨hlist.valid, hS.oneLine _ _ hlist.params⟩
  have hreadable' : p'.Readable :=
    ⟨hlist'.valid, hS.oneLine _ _ hlist'.params⟩
  rcases base_inj hreadable hreadable' hbase hbase' with
    ⟨components, hdraws, hdraws', hparams⟩
  have hlists : list = list' :=
    hS.injective _ _ _ hlist.params (hparams ▸ hlist'.params)
  have htimes := readParams_agrees hlist.times (hlists ▸ hlist'.times)
  refine ⟨?_, hdraws.agree hdraws', hparams, ?_,
    congrArg Times.expires htimes⟩
  · rw [← hdraws.names, hdraws'.names]
  · exact Option.some.inj (congrArg Times.created htimes)

/-! A presentation over the method and the path. -/

def methodAndPath : InnerList where
  items := [⟨.string "@method", []⟩, ⟨.string "@path", []⟩]
  params := [("created", .integer 1700000000)]

def sampleCodec : Codec where
  keys _ _ := some ["sig"]
  parse _ raw :=
    if raw = "sig=:AQ==:" then
      some [("sig", .item ⟨.byteSequence [1], []⟩)]
    else some [("sig", .innerList methodAndPath)]
  serialize list :=
    if list = methodAndPath then
      some "(\"@method\" \"@path\");created=1700000000"
    else none

def samplePresented : Presented where
  label := "sig"
  components := ["@method", "@path"]
  created := 1700000000
  expires := none
  params := "(\"@method\" \"@path\");created=1700000000"
  signature := [1]

def sampleMessage (authority : String) : Message where
  method := "GET"
  authority := authority
  path := "/a"
  fields := []

def sampleBase : String :=
  "\"@method\": GET\n\"@path\": /a\n\"@signature-params\": " ++
    "(\"@method\" \"@path\");created=1700000000"

theorem serializesApart_sampleCodec : SerializesApart sampleCodec where
  oneLine list text htext := by
    simp only [sampleCodec] at htext
    split at htext
    · rw [← Option.some.inj htext]
      decide
    · cases htext
  injective list list' text hlist hlist' := by
    simp only [sampleCodec] at hlist hlist'
    split at hlist
    · split at hlist'
      · simp_all
      · cases hlist'
    · cases hlist

theorem signatureBase_injective_sample :
    samplePresented.components = samplePresented.components ∧
      (∀ name ∈ samplePresented.components, ∃ value,
        (sampleMessage "a.example").value name = .ok value ∧
          (sampleMessage "b.example").value name = .ok value) ∧
      samplePresented.params = samplePresented.params ∧
      samplePresented.created = samplePresented.created ∧
      samplePresented.expires = samplePresented.expires :=
  signatureBase_injective sampleCodec serializesApart_sampleCodec
    { label := some "sig", ignoreAlg := false, acceptExpires := false }
    { label := none, ignoreAlg := true, acceptExpires := true }
    "sig=(\"@method\" \"@path\");created=1700000000" "sig=:AQ==:"
    "sig=(\"@method\" \"@path\");created=1700000000" "sig=:AQ==:"
    samplePresented samplePresented (sampleMessage "a.example")
    (sampleMessage "b.example") sampleBase (by rfl) (by rfl) (by rfl) (by rfl)

end Presentations

end HttpSig

end Decern
