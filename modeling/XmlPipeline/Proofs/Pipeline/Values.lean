import XmlPipeline.Proofs.Pipeline.Coherence
import XmlPipeline.Proofs.Pipeline.Literal

/-!
This module contains the values of the parameters of an accepted definition. The main statement is that a
value belongs to the innermost parameter around it, unless that parameter is closed before the value ends:
such a value belongs to none.
-/

namespace XmlPipeline

open Xml

namespace Step

def parameters : Step → List Parameter
  | transform step => step.parameters
  | _ => []

end Step

namespace Vocabulary

/-! ### The values in a content -/

/--
Whether no parameter that was open before the element is open behind it: the element is another parameter
or a step.
-/
def endsParameter (start : ElementStart) : Bool :=
  isNamed "parameter" start || isStep start

def keepsParameter : Content → Bool
  | .empty => true
  | .text _ rest => keepsParameter rest
  | .element start inner rest => !endsParameter start && keepsParameter inner && keepsParameter rest

def lastText (text : String) : Content → String
  | .empty => text
  | .text characters rest => lastText (text ++ characters) rest
  | .element _ _ rest => lastText "" rest

/--
The values in the content of a parameter that stand in no parameter inside of it. They are listed in the
order in which they end. One in which the parameter is closed is left out.
-/
def valuesOf : Content → List String
  | .empty => []
  | .text _ rest => valuesOf rest
  | .element start inner rest =>
    if isResponse start || isNamed "parameter" start then valuesOf rest
    else if isNamed "value" start && keepsParameter inner then
      valuesOf inner ++ lastText "" inner :: valuesOf rest
    else valuesOf inner ++ valuesOf rest

/--
The parameters in a content, wherever they stand outside of responses, with their values.
-/
def parametersOf : Content → List Parameter
  | .empty => []
  | .text _ rest => parametersOf rest
  | .element start inner rest =>
    if isResponse start then parametersOf rest
    else if isNamed "parameter" start then
      { parameterOf start .empty with values := valuesOf inner } :: parametersOf inner ++ parametersOf rest
    else parametersOf inner ++ parametersOf rest

def valueElements : Content → List Content
  | .empty => []
  | .text _ rest => valueElements rest
  | .element start inner rest =>
    if isResponse start then valueElements rest
    else if isNamed "value" start then inner :: valueElements inner ++ valueElements rest
    else valueElements inner ++ valueElements rest

theorem parametersOf_of_keeps {content : Content} (h : keepsParameter content = true) :
    parametersOf content = [] := by
  induction content with
  | empty => rfl
  | text characters rest ih => exact ih h
  | element start inner rest ihInner ihRest =>
    simp only [keepsParameter, endsParameter, isStep, Bool.and_eq_true, Bool.not_eq_true',
      Bool.or_eq_false_iff] at h
    obtain ⟨⟨⟨hparameter, ⟨-, hresponse⟩⟩, hinner⟩, hrest⟩ := h
    simp [parametersOf, hparameter, hresponse, ihInner hinner, ihRest hrest]

theorem count_valuesOf (content : Content) :
    ((parametersOf content).flatMap (·.values)).length + (valuesOf content).length
      = (valueElements content).countP keepsParameter := by
  induction content with
  | empty => rfl
  | text characters rest ih => exact ih
  | element start inner rest ihInner ihRest =>
    simp only [parametersOf, valuesOf, valueElements]
    cases hresponse : isResponse start with
    | true => simpa [-List.length_flatMap] using ihRest
    | false =>
      cases hparameter : isNamed "parameter" start with
      | true =>
        have hvalue : isNamed "value" start = false := Definition.isNamed_eq hparameter "value"
        simp [-List.length_flatMap, hvalue]
        omega
      | false =>
        cases hvalue : isNamed "value" start with
        | true =>
          cases hkeeps : keepsParameter inner <;> simp [-List.length_flatMap, hkeeps] <;> omega
        | false =>
          simp [-List.length_flatMap]
          omega

/-! ### Parameters as they are read -/

/--
The parameters that were read: those that are closed, and the one that is open.
-/
structure Account where
  settled : List Parameter := []
  current : Option Parameter := none

namespace Account

def all (account : Account) : List Parameter :=
  account.settled ++ account.current.toList

def settle (account : Account) : Account where
  settled := account.all

def add (account : Account) (values : List String) : Account where
  settled := account.settled
  current := account.current.map fun parameter => { parameter with values := parameter.values ++ values }

/--
The account after values of the open parameter. If that does not stay open, other parameters may have been
read after it.
-/
def take (account : Account) (keeps : Bool) (values : List String) (parameters : List Parameter) :
    Account :=
  if keeps then account.add values else { settled := (account.add values).all ++ parameters }

def after (account : Account) (content : Content) : Account :=
  account.take (keepsParameter content) (valuesOf content) (parametersOf content)

def opening (account : Account) (start : ElementStart) : Account :=
  if isNamed "parameter" start then
    { settled := account.all, current := some (parameterOf start .empty) }
  else if isStep start then account.settle
  else account

def closing (account : Account) (start : ElementStart) (text : String) : Account :=
  if isNamed "value" start then account.add [text]
  else if isNamed "parameter" start then account.settle
  else account

variable {account : Account} {start : ElementStart} {inner : Content}

theorem add_nil (account : Account) : account.add [] = account := by
  obtain ⟨settled, current⟩ := account
  cases current <;> simp [add]

theorem add_of_none (h : account.current = none) (values : List String) :
    account.add values = account := by
  obtain ⟨settled, current⟩ := account
  subst h
  rfl

theorem add_add (account : Account) (first second : List String) :
    (account.add first).add second = account.add (first ++ second) := by
  obtain ⟨settled, current⟩ := account
  cases current <;> simp [add]

theorem take_take {keeps keeps' : Bool} {values values' : List String}
    {parameters parameters' : List Parameter} (hkeeps : keeps = true → parameters = [])
    (hkeeps' : keeps' = true → parameters' = [])
    (hvalues : (account.take keeps values parameters).current = none → values' = []) :
    (account.take keeps values parameters).take keeps' values' parameters'
      = account.take (keeps && keeps') (values ++ values') (parameters ++ parameters') := by
  cases keeps with
  | true =>
    obtain rfl := hkeeps rfl
    cases keeps' <;> simp [take, add_add]
  | false =>
    obtain rfl : values' = [] := hvalues rfl
    cases keeps' with
    | true =>
      obtain rfl := hkeeps' rfl
      simp [take, add_nil]
    | false => simp [take, add_nil, all]

theorem valuesOf_element (start : ElementStart) (inner rest : Content) :
    valuesOf (.element start inner rest) = valuesOf (.element start inner .empty) ++ valuesOf rest := by
  simp only [valuesOf]
  split
  · rfl
  · split <;> simp

theorem after_of_none (h : account.current = none) (content : Content) :
    (account.after content).current = none := by
  unfold after take
  split
  · rw [add_of_none h, h]
  · rfl

theorem after_element {rest : Content}
    (h : (account.after (.element start inner .empty)).current = none → valuesOf rest = []) :
    (account.after (.element start inner .empty)).after rest
      = account.after (.element start inner rest) := by
  have hkeeps : keepsParameter (.element start inner rest)
      = (keepsParameter (.element start inner .empty) && keepsParameter rest) := by
    simp [keepsParameter]
  have hparameters : parametersOf (.element start inner rest)
      = parametersOf (.element start inner .empty) ++ parametersOf rest := by
    simp only [parametersOf]
    split
    · rfl
    · split <;> simp
  unfold after at h ⊢
  rw [take_take parametersOf_of_keeps parametersOf_of_keeps h, hkeeps, hparameters,
    valuesOf_element start inner rest]

theorem after_response (account : Account) (h : isResponse start = true) :
    account.after (.element start inner .empty) = account.settle := by
  simp [after, take, keepsParameter, endsParameter, isStep, h, valuesOf, parametersOf, add_nil, settle]

theorem all_after (content : Content) : (({} : Account).after content).all = parametersOf content := by
  unfold after take
  split
  · next hkeeps => simp [all, add, parametersOf_of_keeps hkeeps]
  · simp [all, add]

theorem current_opening (hparameter : isNamed "parameter" start = false)
    (h : account.current = none) : (account.opening start).current = none := by
  unfold opening
  rw [hparameter]
  split
  · contradiction
  · split
    · rfl
    · exact h

theorem closing_after_opening (hresponse : isResponse start = false)
    (hinner : (account.opening start).current = none → valuesOf inner = []) :
    ((account.opening start).after inner).closing start (lastText "" inner)
      = account.after (.element start inner .empty) := by
  cases hparameter : isNamed "parameter" start with
  | true =>
    have hvalue : isNamed "value" start = false := Definition.isNamed_eq hparameter "value"
    cases hkeeps : keepsParameter inner <;>
      simp [after, take, opening, closing, keepsParameter, endsParameter, valuesOf, parametersOf,
        hparameter, hresponse, hvalue, hkeeps, add, settle, all, parametersOf_of_keeps,
        parameterOf, Content.children]
  | false =>
    cases hstep : isStep start with
    | true =>
      have hvalue : isNamed "value" start = false := by
        by_contra hvalue
        simp [Definition.isStep_named (by simpa using hvalue)] at hstep
      have hnone : valuesOf inner = [] := by
        apply hinner
        simp [opening, hparameter, hstep, settle]
      cases hkeeps : keepsParameter inner <;>
        simp [after, take, opening, closing, keepsParameter, endsParameter, valuesOf, parametersOf,
          hparameter, hresponse, hvalue, hkeeps, hstep, hnone, add_nil, settle, all,
          parametersOf_of_keeps]
    | false =>
      cases hvalue : isNamed "value" start <;> cases hkeeps : keepsParameter inner <;>
        simp [after, take, opening, closing, keepsParameter, endsParameter, valuesOf, parametersOf,
          hparameter, hresponse, hvalue, hkeeps, hstep, add_add, add_of_none]

end Account
end Vocabulary

namespace Definition

open Vocabulary

variable {d d' : Definition} {account : Account} {start : ElementStart} {inner : Content}

structure Accounts (d : Definition) (account : Account) : Prop where
  capture : d.capture = none
  coherent : d.Coherent
  parameters : d.steps.flatMap Step.parameters = account.all
  current : d.parameter.isSome = account.current.isSome

theorem Accounts.congr (h : d.Accounts account) (hcapture : d'.capture = d.capture)
    (hsteps : d'.steps = d.steps) (hparameter : d'.parameter = d.parameter) : d'.Accounts account where
  capture := hcapture.trans h.capture
  coherent := h.coherent.congr hsteps hparameter
  parameters := hsteps ▸ h.parameters
  current := hparameter ▸ h.current

theorem Accounts.release (h : d.Accounts account) :
    ({ d with parameter := none } : Definition).Accounts account.settle where
  capture := h.capture
  coherent := coherent_of_none rfl
  parameters := by simpa [Account.settle, Account.all] using h.parameters
  current := rfl

theorem Accounts.addStep (h : d.Accounts account) {step : Step} (hstep : step.parameters = []) :
    (d.addStep step).Accounts account.settle where
  capture := h.capture
  coherent := coherent_of_none rfl
  parameters := by
    simpa [Definition.addStep, Account.settle, Account.all, hstep] using h.parameters
  current := rfl

theorem Accounts.inParameter (h : d.Accounts account) {before : List Step} {step : TransformStep}
    (hsteps : d.steps = before ++ [.transform step]) (parameter : Parameter) :
    (d.inParameter before step step.parameters parameter).Accounts
      { settled := account.all, current := some parameter } where
  capture := h.capture
  coherent := coherent_inParameter d before step step.parameters parameter
  parameters := by
    rw [← h.parameters, hsteps]
    simp [Definition.inParameter, Step.parameters, Account.all]
  current := rfl

theorem Accounts.addValue (h : d.Accounts account) (value : String) :
    (d.addValue value).Accounts (account.add [value]) := by
  obtain ⟨settled, current⟩ := account
  have hcurrent := h.current
  cases hparameter : d.parameter with
  | none =>
    obtain rfl : current = none := by simpa [hparameter] using hcurrent
    rw [addValue_of_none hparameter, Account.add_of_none rfl]
    exact h
  | some index =>
    obtain ⟨before, step, parameters, parameter, heq⟩ := h.coherent.exists_inParameter hparameter
    obtain ⟨last, rfl⟩ : ∃ last, current = some last := by
      rw [hparameter] at hcurrent
      exact Option.isSome_iff_exists.mp hcurrent.symm
    -- The open parameter is the last one, on either side.
    have hall : before.flatMap Step.parameters ++ parameters ++ [parameter] = settled ++ [last] := by
      have hparameters := h.parameters
      rw [heq] at hparameters
      simpa [Definition.inParameter, Step.parameters, Account.all] using hparameters
    obtain ⟨hsettled, hlast⟩ := List.append_inj' hall rfl
    obtain rfl := List.singleton_inj.mp hlast
    rw [heq, addValue_inParameter]
    refine ⟨h.capture, coherent_inParameter d before step parameters _, ?_, rfl⟩
    simp [Definition.inParameter, Step.parameters, Account.all, Account.add, ← hsettled,
      Parameter.addValue]

theorem Accounts.opens (h : d.Accounts account) (hopens : d.Opens start d')
    (hresponse : isResponse start = false) : d'.Accounts (account.opening start) := by
  unfold Account.opening
  cases hopens with
  | pipeline hnamed cache =>
    rw [isNamed_eq hnamed, isStep_named hnamed]
    exact h.congr rfl rfl rfl
  | transformer hnamed step hparameters =>
    rw [isNamed_eq hnamed, isStep_named hnamed]
    exact h.addStep hparameters
  | parameter hnamed before step hsteps =>
    rw [if_pos hnamed]
    exact h.inParameter hsteps _
  | value hnamed hparameter =>
    rw [isNamed_eq hnamed, isStep_named hnamed]
    exact h.congr rfl rfl rfl
  | serializer hnamed step =>
    rw [isNamed_eq hnamed, isStep_named hnamed]
    exact h.addStep rfl
  | response h => simp [h] at hresponse
  | foreign hforeign =>
    rw [isNamed_foreign hforeign, isStep_foreign hforeign]
    exact h

theorem Accounts.closes (h : d.Accounts account) (start : ElementStart) :
    (d.closeElement start.name).Accounts (account.closing start d.text) := by
  unfold closeElement Account.closing
  split
  · next hcapture => simp [h.capture] at hcapture
  · simp only [isNamed, QName.is]
    split
    · next hin =>
      split
      · next hlocal =>
        simp only [hin, hlocal]
        exact h.addValue d.text
      · next hlocal =>
        simp only [hin, hlocal]
        exact h.release
      · next hvalue hparameter =>
        have hvalue : start.name.localName ≠ "value" := hvalue
        have hparameter : start.name.localName ≠ "parameter" := hparameter
        simpa [hin, hvalue, hparameter] using h
    · next hin => simpa [hin] using h

theorem Opens.of_value (h : d.Opens start d') (hvalue : isNamed "value" start = true) :
    d.parameter.isSome = true ∧ d'.text = "" := by
  cases h with
  | value _ hparameter => exact ⟨hparameter, rfl⟩
  | response hresponse => simp [isResponse_named hvalue] at hresponse
  | foreign hforeign => simp [isNamed_foreign hforeign] at hvalue
  | _ hnamed => simp [isNamed_eq hnamed] at hvalue

theorem exists_of_element (hcapture : d.capture = none)
    (hread : d.handleAll (Content.element start inner .empty).events = .ok d') :
    ∃ opened read, (d.enter start.namespaces).Opens start opened ∧ opened.handleAll inner.events = .ok read
      ∧ (read.apply (.closing start.name)).2 = d' := by
  have hsplit : d.handleAll (.opening start :: (inner.events ++ [.closing start.name])) = .ok d' := hread
  obtain ⟨opened, hopened, hmore⟩ := exists_of_handleAll hsplit
  rw [handleAll_append] at hmore
  obtain ⟨read, hinner, hmore⟩ := exists_of_bind_ok hmore
  obtain ⟨closed, hclosed, hlast⟩ := exists_of_handleAll hmore
  refine ⟨opened, read, opens_of_apply hcapture hopened, hinner, ?_⟩
  rw [hclosed]
  exact Except.ok.inj hlast

/--
Behind a content the account is the one after it, and so is the text. A value outside of all parameters
would have been refused.
-/
structure Reads (d : Definition) (account : Account) (content : Content) (d' : Definition) : Prop where
  accounts : d'.Accounts (account.after content)
  text : d'.text = lastText d.text content
  values : account.current = none → valuesOf content = []

theorem Accounts.response (h : d.Accounts account) (hresponse : isResponse start = true)
    (hread : d.handleAll (Content.element start inner .empty).events = .ok d') :
    d.Reads account (.element start inner .empty) d' := by
  obtain ⟨_, _, -, -, hclosed⟩ := exists_of_element h.capture hread
  obtain ⟨text, hcopied⟩ := Leads.copied h.capture hresponse d.text
  refine ⟨?_, ?_, ?_⟩
  · rw [Account.after_response account hresponse, Except.ok.inj (hread.symm.trans hcopied)]
    exact (h.addStep rfl).congr rfl rfl rfl
  · rw [← hclosed]
    rfl
  · intro _
    simp [valuesOf, hresponse]

theorem Accounts.element (h : d.Accounts account) (hresponse : isResponse start = false)
    (ihInner : ∀ {d d' : Definition} {account : Account}, d.Accounts account →
      d.handleAll inner.events = .ok d' → d.Reads account inner d')
    (hread : d.handleAll (Content.element start inner .empty).events = .ok d') :
    d.Reads account (.element start inner .empty) d' := by
  obtain ⟨opened, read, hopens, hinner, hclosed⟩ := exists_of_element h.capture hread
  have hentered : (d.enter start.namespaces).Accounts account := h.congr rfl rfl rfl
  obtain ⟨haccounts, htext, hvalues⟩ := ihInner (hentered.opens hopens hresponse) hinner
  have hclosing : (read.closeElement start.name).Accounts
      (((account.opening start).after inner).closing start (lastText "" inner)) := by
    have hcloses := haccounts.closes start
    cases hvalue : isNamed "value" start with
    | true =>
      rw [htext, (hopens.of_value hvalue).2] at hcloses
      exact hcloses
    | false => simpa [Account.closing, hvalue] using hcloses
  refine ⟨?_, ?_, ?_⟩
  · rw [← Account.closing_after_opening hresponse hvalues, ← hclosed]
    exact hclosing.congr rfl rfl rfl
  · rw [← hclosed]
    rfl
  · intro hnone
    cases hnamed : isNamed "parameter" start with
    | true => simp [valuesOf, hnamed]
    | false =>
      have hvalue : isNamed "value" start = false := by
        by_contra hvalue
        have hsome := (hopens.of_value (by simpa using hvalue)).1
        simp [hentered.current, hnone] at hsome
      have hinnerNone := hvalues (Account.current_opening hnamed hnone)
      simp [valuesOf, hresponse, hvalue, hinnerNone]

theorem Accounts.reads {content : Content} (h : d.Accounts account)
    (hread : d.handleAll content.events = .ok d') : d.Reads account content d' := by
  induction content generalizing d d' account with
  | empty =>
    obtain rfl := Except.ok.inj hread
    refine ⟨?_, rfl, fun _ => rfl⟩
    simpa [Account.after, Account.take, keepsParameter, valuesOf, Account.add_nil] using h
  | text characters rest ih =>
    obtain ⟨next, hnext, hrest⟩ := exists_of_handleAll hread
    have hfirst : next = { d with text := d.text ++ characters, capture := none } := by
      rw [← (Prod.mk.inj hnext).2]
      simp [h.capture]
    have haccounts : next.Accounts account := by
      rw [hfirst]
      exact h.congr h.capture.symm rfl rfl
    have hmore := ih haccounts hrest
    refine ⟨hmore.accounts, ?_, hmore.values⟩
    rw [hmore.text, hfirst]
    rfl
  | element start inner rest ihInner ihRest =>
    rw [events_element, handleAll_append] at hread
    obtain ⟨between, hfirst, hrest⟩ := exists_of_bind_ok hread
    have helement : d.Reads account (.element start inner .empty) between := by
      cases hresponse : isResponse start with
      | true => exact h.response hresponse hfirst
      | false => exact h.element hresponse (fun h hread => ihInner h hread) hfirst
    have hmore := ihRest helement.accounts hrest
    refine ⟨?_, ?_, ?_⟩
    · rw [← Account.after_element hmore.values]
      exact hmore.accounts
    · rw [hmore.text, helement.text]
      rfl
    · intro hnone
      rw [Account.valuesOf_element, helement.values hnone,
        hmore.values (Account.after_of_none hnone _)]
      rfl

end Definition

namespace Pipeline

open Vocabulary

theorem ofEvents_values (content : Content) (pipeline : Pipeline)
    (h : ofEvents (content.events.map .ok) = .ok pipeline) :
    pipeline.steps.flatMap Step.parameters = parametersOf content
      ∧ ((pipeline.steps.flatMap Step.parameters).flatMap (·.values)).length
        = (valueElements content).countP keepsParameter := by
  unfold ofEvents at h
  rw [Definition.ofEvents_go] at h
  obtain ⟨definition, hread, hfinish⟩ := exists_of_bind_ok h
  have hinitial : ({} : Definition).Accounts {} := ⟨rfl, Definition.coherent_of_none rfl, rfl, rfl⟩
  have hreads := hinitial.reads hread
  have hsteps : pipeline.steps = definition.steps := by
    unfold Definition.finish at hfinish
    split at hfinish
    · cases hfinish
    · rw [← Except.ok.inj hfinish]
  -- No parameter is open around the content.
  have hnone : valuesOf content = [] := hreads.values rfl
  have hparameters : pipeline.steps.flatMap Step.parameters = parametersOf content := by
    rw [hsteps, hreads.accounts.parameters, Account.all_after]
  refine ⟨hparameters, ?_⟩
  rw [hparameters, ← count_valuesOf, hnone, List.length_nil, Nat.add_zero]

def elementOf (localName : String) (attributes : List (String × String)) (inner rest : Content) :
    Content :=
  .element
    { name := { localName, uri := some pipelineNamespace }
      attributes := attributes.map fun (localName, value) => { name := { localName }, value } }
    inner rest

def interruptedValue : Content :=
  elementOf "value" []
    (.text "a" <| elementOf "parameter" [("name", "q")] (elementOf "value" [] (.text "b" .empty) .empty) <|
      .text "c" .empty)
    .empty

def sampleContent : Content :=
  elementOf "transformer" [("xsl-path", "a.xsl")]
    (elementOf "parameter" [("name", "p")]
      (elementOf "value" [] (.text "d" <| .element { name := { localName := "x" } } .empty <| .text "e" .empty)
        interruptedValue)
      .empty)
    .empty

theorem ofEvents_values_sampleContent :
    ∃ pipeline, ofEvents (sampleContent.events.map .ok) = .ok pipeline
      ∧ pipeline.steps.flatMap Step.parameters = parametersOf sampleContent
      ∧ parametersOf sampleContent
        = [{ name := "p", values := ["e"] }, { name := "q", values := ["b"] }]
      ∧ ((pipeline.steps.flatMap Step.parameters).flatMap (·.values)).length
        = (valueElements sampleContent).countP keepsParameter := by
  obtain ⟨pipeline, hpipeline⟩ :
      ∃ pipeline, ofEvents (sampleContent.events.map .ok) = .ok pipeline := by
    refine ⟨{ steps := [.transform {
      name := "transformer-1", templatePath := "a.xsl", parameters := parametersOf sampleContent }] }, ?_⟩
    exact eq_ok_of_toOption (by decide +kernel)
  obtain ⟨hparameters, hcount⟩ := ofEvents_values sampleContent pipeline hpipeline
  exact ⟨pipeline, hpipeline, hparameters, by decide, hcount⟩

def droppedValue : Content :=
  elementOf "transformer" [("xsl-path", "a.xsl")]
    (elementOf "parameter" [("name", "p")]
      (elementOf "value" [] (elementOf "parameter" [("name", "q")] .empty (.text "v" .empty)) .empty)
      .empty)
    .empty

theorem ofEvents_droppedValue :
    ∃ pipeline, ofEvents (droppedValue.events.map .ok) = .ok pipeline
      ∧ ((pipeline.steps.flatMap Step.parameters).flatMap (·.values)).length
        ≠ (valueElements droppedValue).length := by
  refine ⟨{ steps := [.transform {
    name := "transformer-1", templatePath := "a.xsl"
    parameters := [{ name := "p" }, { name := "q" }] }] }, ?_, by decide⟩
  exact eq_ok_of_toOption (by decide +kernel)

end Pipeline
end XmlPipeline
