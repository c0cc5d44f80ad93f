import Mathlib.Data.List.TakeWhile
import XmlPipeline.Proofs.Xml.Nesting
import XmlPipeline.Proofs.Xml.RoundTrip
import XmlPipeline.Proofs.Xml.Scanning

/-!
This module contains what the reader yields up to the division of character data into texts. The main
statement is that a part of a text that can be read by itself adds its events to those of what comes behind
it, whatever that is.
-/

namespace XmlPipeline
namespace Xml

/-! ### Merged events -/

namespace Event

/--
The events behind another one. A text runs into the text that follows it, and one without characters is
dropped.
-/
def onto (event : Event) (events : List Event) : List Event :=
  match event, events with
  | text characters, text more :: events => text (characters ++ more) :: events
  | text characters, events => if characters = "" then events else text characters :: events
  | event, events => event :: events

/--
The events with one text for the character data between two tags, and with none where there is no such data.
-/
def merged (events : List Event) : List Event :=
  events.foldr onto []

theorem onto_empty (events : List Event) : (text "").onto events = events := by
  cases events with
  | nil => rfl
  | cons event events => cases event <;> simp [onto]

theorem onto_nil : (text "").onto = id :=
  funext onto_empty

theorem onto_text_text (first second : String) (events : List Event) :
    (text first).onto ((text second).onto events) = (text (first ++ second)).onto events := by
  have hlone : ∀ rest, (∀ more events, rest = text more :: events → False) → ∀ characters,
      (text characters).onto rest = if characters = "" then rest else text characters :: rest := by
    intro rest hrest characters
    cases rest with
    | nil => rfl
    | cons first rest =>
      cases first with
      | opening => rfl
      | text more => exact (hrest more rest rfl).elim
      | closing => rfl
  by_cases htext : ∃ more rest, events = text more :: rest
  · obtain ⟨more, rest, rfl⟩ := htext
    simp [onto, String.append_assoc]
  · have hrest : ∀ more rest, events = text more :: rest → False := fun more rest heq =>
      htext ⟨more, rest, heq⟩
    rw [hlone events hrest second, hlone events hrest (first ++ second)]
    by_cases hsecond : second = ""
    · simp [hsecond, hlone events hrest first]
    · simp [hsecond, onto, String.append_eq_empty_iff]

end Event

/-! ### References in parts of a text -/

theorem resolveReference_any_rest {size : Nat} {rest name : List Char} {c : Char}
    (h : resolveReference size rest name = .ok c) (size' : Nat) (rest' : List Char) :
    resolveReference size' rest' name = .ok c := by
  unfold resolveReference at h ⊢
  split at h
  · exact h
  · split at h
    · exact h
    · cases h

theorem unescapeRest_append {size : Nat} {raw chars : List Char} (h : unescapeRest size raw = .ok chars)
    (size' : Nat) (more : List Char) :
    unescapeRest size' (raw ++ more) = (unescapeRest size' more).map (chars ++ ·) := by
  have happend : ∀ (result : Except ReferenceError (List Char)) (c : Char) (cs : List Char),
      (result.map (cs ++ ·)).map (c :: ·) = result.map (c :: cs ++ ·) := by
    intro result c cs
    cases result <;> rfl
  fun_induction unescapeRest size raw generalizing chars with
  | case1 =>
    obtain rfl := Except.ok.inj h
    cases hmore : unescapeRest size' more <;> simp [hmore, Except.map]
  | case2 rest name after hcut error hresolve => cases h
  | case3 rest name after hcut c hresolve ih =>
    obtain ⟨cs, hafter, rfl⟩ := exists_of_map_ok h
    have hname := Text.not_stop_of_cutAt? hcut
    rw [Text.eq_of_cutAt? hcut, List.cons_append, List.append_assoc, List.cons_append,
      unescapeRest_reference hname fun text => resolveReference_any_rest hresolve size' text,
      ih hafter, happend]
  | case4 => cases h
  | case5 c rest hne ih =>
    obtain ⟨cs, hrest, rfl⟩ := exists_of_map_ok h
    rw [List.cons_append, unescapeRest, if_neg hne, ih hrest, happend]

theorem unescapeRest_any_size (size size' : Nat) (raw : List Char) :
    (unescapeRest size raw).toOption = (unescapeRest size' raw).toOption := by
  have hok : ∀ size size' chars, unescapeRest size raw = .ok chars →
      unescapeRest size' raw = .ok chars := by
    intro size size' chars h
    have hall := unescapeRest_append h size' []
    rw [List.append_nil] at hall
    rw [hall, unescapeRest]
    simp [Except.map]
  cases hfirst : unescapeRest size raw with
  | ok chars => rw [hok size size' chars hfirst]
  | error error =>
    cases hsecond : unescapeRest size' raw with
    | ok chars =>
      rw [hok size' size chars hsecond] at hfirst
      cases hfirst
    | error other => rfl

theorem toOption_unescape_append {raw chars : List Char} (h : unescape raw = .ok chars)
    (more : List Char) :
    (unescape (raw ++ more)).toOption = (unescape more).toOption.map (chars ++ ·) := by
  unfold unescape at h ⊢
  rw [unescapeRest_append h, unescapeRest_any_size _ (Utf8.size (raw ++ more))]
  cases unescapeRest (Utf8.size (raw ++ more)) more <;> rfl

namespace Reader

variable {reader next place : Reader} {event : Event} {events : List Event}

/-! ### One reader in another text -/

def ofChars (cs : List Char) : Reader :=
  { size := Utf8.size cs, rest := cs }

def within (reader : Reader) (size : Nat) (rest : List Char) : Reader :=
  { reader with size, rest }

theorem pending_within {pending : Bool} (h : reader.pending = pending) (size : Nat) (rest : List Char) :
    (reader.within size rest).pending = pending :=
  h

def Step.map (change : Reader → Reader) : Step → Step
  | .event event reader => .event event (change reader)
  | .skip reader => .skip (change reader)
  | .failure error => .failure error
  | .done => .done

theorem enter_within (reader : Reader) (size : Nat) (rest content : List Char) (isEmpty : Bool) :
    (reader.within size rest).enter content isEmpty
      = (reader.enter content isEmpty).map (·.within size rest) := by
  have hscope : (reader.within size rest).scope = reader.scope := rfl
  unfold enter
  rw [hscope]
  split <;> rfl

theorem leave_within (reader : Reader) (size : Nat) (rest name : List Char) :
    (reader.within size rest).leave name = (reader.leave name).map (·.within size rest) := by
  have hscope : (reader.within size rest).scope = reader.scope := rfl
  unfold leave
  rw [hscope]
  split <;> rfl

theorem take_within (reader : Reader) (size : Nat) (other rest rest' : List Char) (piece : Markup) :
    (reader.within size other).take piece rest'
      = (reader.take piece rest).map (·.within size rest') := by
  cases piece with
  | ignored => rfl
  | text raw =>
    simp only [take]
    split <;> rfl
  | cdata content => cases content <;> rfl
  | startTag content => exact enter_within { reader with rest } size rest' content false
  | emptyTag content => exact enter_within { reader with rest } size rest' content true
  | endTag name =>
    have htags : (reader.within size other).tags = reader.tags := rfl
    simp only [take]
    rw [htags]
    cases reader.tags with
    | nil => rfl
    | cons tag tags =>
      simp only
      split
      · exact leave_within { reader with rest, tags } size rest' name
      · rfl

theorem step_of_pending_nil (h : reader.pending = true) (htags : reader.tags = []) :
    reader.step = .done := by
  unfold step
  rw [if_pos h, htags]

theorem step_of_pending_cons {tag : List Char} {tags : List (List Char)} (h : reader.pending = true)
    (htags : reader.tags = tag :: tags) :
    reader.step = leave { reader with tags, pending := false } tag := by
  unfold step
  rw [if_pos h, htags]

theorem step_of_nil (h : reader.pending = false) (hrest : reader.rest = []) :
    reader.step
      = if reader.depth = 0 then .done else .failure (.unclosedElements reader.depth) := by
  unfold step
  simp [h, hrest]

theorem step_of_scan_error {c : Char} {cs : List Char} {error : SyntaxError} (h : reader.pending = false)
    (hrest : reader.rest = c :: cs) (hscan : Markup.scan c cs = .error error) :
    reader.step = .failure error := by
  unfold step
  simp [h, hrest, hscan]

theorem step_of_scan {c : Char} {cs rest : List Char} {piece : Markup} (h : reader.pending = false)
    (hrest : reader.rest = c :: cs) (hscan : Markup.scan c cs = .ok (piece, rest)) :
    reader.step = reader.take piece rest := by
  unfold step
  simp [h, hrest, hscan]

theorem step_within_of_pending (h : reader.pending = true) (size : Nat) (rest : List Char) :
    (reader.within size rest).step = reader.step.map (·.within size rest) := by
  cases htags : reader.tags with
  | nil =>
    rw [step_of_pending_nil h htags, step_of_pending_nil (pending_within h size rest) htags]
    rfl
  | cons tag tags =>
    rw [step_of_pending_cons h htags, step_of_pending_cons (pending_within h size rest) htags]
    exact leave_within { reader with tags, pending := false } size rest tag

theorem Step.map_congr {step : Step} {change change' : Reader → Reader}
    (h : ∀ reader, step.reader? = some reader → change reader = change' reader) :
    step.map change = step.map change' := by
  cases step with
  | event event reader => exact congrArg (Step.event event) (h reader rfl)
  | skip reader => exact congrArg Step.skip (h reader rfl)
  | failure error => rfl
  | done => rfl

theorem step_within_size (reader : Reader) (size : Nat) :
    (reader.within size reader.rest).step = reader.step.map fun next => next.within size next.rest := by
  cases hpending : reader.pending with
  | true =>
    rw [step_within_of_pending hpending]
    apply Step.map_congr
    intro next hnext
    cases htags : reader.tags with
    | nil =>
      rw [step_of_pending_nil hpending htags] at hnext
      cases hnext
    | cons tag tags =>
      rw [step_of_pending_cons hpending htags] at hnext
      rw [(leave_reader? hnext).1]
  | false =>
    cases hrest : reader.rest with
    | nil =>
      rw [step_of_nil hpending hrest, step_of_nil (pending_within hpending size []) rfl]
      split <;> simp_all [Step.map, within]
    | cons c cs =>
      cases hscan : Markup.scan c cs with
      | error error =>
        rw [step_of_scan_error hpending hrest hscan,
          step_of_scan_error (pending_within hpending size (c :: cs)) rfl hscan]
        rfl
      | ok result =>
        obtain ⟨piece, rest⟩ := result
        rw [step_of_scan hpending hrest hscan,
          step_of_scan (pending_within hpending size (c :: cs)) rfl hscan,
          take_within reader size (c :: cs) rest rest]
        apply Step.map_congr
        intro next hnext
        rw [take_reader? hnext]

/-! ### What is gathered from a reader -/

def gathered (reader : Reader) : Option (List Event) :=
  match reader.events with
  | (events, none) => some (Event.merged events)
  | (_, some _) => none

theorem gathered_of_event (h : reader.step = .event event next) :
    reader.gathered = next.gathered.map event.onto := by
  unfold gathered
  rw [events_of_event h]
  obtain ⟨events, failure⟩ := next.events
  cases failure <;> rfl

theorem gathered_of_skip (h : reader.step = .skip next) : reader.gathered = next.gathered := by
  unfold gathered
  rw [events_of_skip h]

theorem events_of_failure {error : SyntaxError} (h : reader.step = .failure error) :
    reader.events = ([], some { error, position := reader.position }) := by
  rw [events]
  split <;> simp_all

theorem gathered_of_failure {error : SyntaxError} (h : reader.step = .failure error) :
    reader.gathered = none := by
  unfold gathered
  rw [events_of_failure h]

theorem gathered_of_done (h : reader.step = .done) : reader.gathered = some [] := by
  unfold gathered
  rw [events_of_done h]
  rfl

theorem gathered_within_size (reader : Reader) (size : Nat) :
    (reader.within size reader.rest).gathered = reader.gathered := by
  fun_induction Reader.events reader with
  | case1 reader event next hstep more failure hmore ih =>
    have hsame := step_within_size reader size
    rw [hstep] at hsame
    rw [gathered_of_event hstep, gathered_of_event hsame, ih]
  | case2 reader next hstep ih =>
    have hsame := step_within_size reader size
    rw [hstep] at hsame
    rw [gathered_of_skip hstep, gathered_of_skip hsame, ih]
  | case3 reader error hstep =>
    have hsame := step_within_size reader size
    rw [hstep] at hsame
    rw [gathered_of_failure hstep, gathered_of_failure hsame]
  | case4 reader hstep =>
    have hsame := step_within_size reader size
    rw [hstep] at hsame
    rw [gathered_of_done hstep, gathered_of_done hsame]

/-! ### What comes next in a text -/

theorem gathered_within (reader : Reader) (size size' : Nat) (rest : List Char) :
    (reader.within size rest).gathered = (reader.within size' rest).gathered :=
  gathered_within_size (reader.within size' rest) size

theorem gathered_run (h : reader.pending = false) (size : Nat) (cs : List Char) :
    (reader.within size cs).gathered
      = (unescape (cs.takeWhile (· ≠ '<'))).toOption.bind fun chars =>
        (reader.within size (cs.dropWhile (· ≠ '<'))).gathered.map
          (Event.text (String.ofList chars)).onto := by
  have hempty : unescape [] = .ok [] := by simp [unescape, unescapeRest]
  cases cs with
  | nil => simp [hempty, Except.toOption, Event.onto_nil]
  | cons c cs =>
    by_cases hc : c = '<'
    · simp [hc, hempty, Except.toOption, Event.onto_nil]
    · have hscan : Markup.scan c cs
          = .ok (.text (c :: cs.takeWhile (· ≠ '<')), cs.dropWhile (· ≠ '<')) := by
        simp [Markup.scan, hc]
      have hstep := step_of_scan (pending_within h size (c :: cs)) rfl hscan
      rw [List.takeWhile_cons_of_pos (by simpa using hc), List.dropWhile_cons_of_pos (by simpa using hc)]
      simp only [take] at hstep
      cases hchars : unescape (c :: cs.takeWhile (· ≠ '<')) with
      | error error =>
        rw [hchars] at hstep
        exact gathered_of_failure hstep
      | ok chars =>
        rw [hchars] at hstep
        cases chars with
        | nil =>
          rw [gathered_of_skip hstep]
          simp [Except.toOption, Event.onto_nil, within]
        | cons first chars =>
          rw [gathered_of_event hstep]
          rfl

theorem gathered_data {raw chars : List Char} (h : reader.pending = false) (hraw : '<' ∉ raw)
    (hchars : unescape raw = .ok chars) (size : Nat) (tail : List Char) :
    (reader.within size (raw ++ tail)).gathered
      = (reader.within size tail).gathered.map (Event.text (String.ofList chars)).onto := by
  have hplain : ∀ c ∈ raw, decide (c ≠ '<') = true := by
    intro c hc
    rw [decide_eq_true_iff]
    rintro rfl
    exact hraw hc
  rw [gathered_run h, gathered_run h size tail, List.takeWhile_append_of_pos hplain,
    List.dropWhile_append_of_pos hplain, toOption_unescape_append hchars]
  cases (unescape (tail.takeWhile (· ≠ '<'))).toOption with
  | none => rfl
  | some more =>
    simp only [Option.map_some, Option.bind_some, Option.map_map]
    congr 1
    funext events
    simp [Event.onto_text_text]

theorem step_of_makes {taken : List Char} {piece : Markup} (h : reader.pending = false)
    (hmakes : Markup.Makes taken piece) (size : Nat) (tail : List Char) :
    (reader.within size ('<' :: (taken ++ tail))).step
      = (reader.within size ('<' :: (taken ++ tail))).take piece tail := by
  apply step_of_scan (pending_within h size ('<' :: (taken ++ tail))) rfl
  simpa [Markup.scan] using hmakes tail

/-! ### What comes behind a part of a text -/

def Step.yields : Step → List Event
  | .event event _ => [event]
  | _ => []

theorem gathered_of_step (h : reader.step.reader? = some next) :
    reader.gathered = next.gathered.map fun events => reader.step.yields.foldr Event.onto events := by
  cases hstep : reader.step with
  | event event other =>
    rw [hstep] at h
    obtain rfl := Option.some.inj h
    exact gathered_of_event hstep
  | skip other =>
    rw [hstep] at h
    obtain rfl := Option.some.inj h
    rw [gathered_of_skip hstep]
    exact Option.map_id_apply.symm
  | failure error =>
    rw [hstep] at h
    cases h
  | done =>
    rw [hstep] at h
    cases h

theorem Step.reader?_map (step : Step) (change : Reader → Reader) :
    (step.map change).reader? = step.reader?.map change := by
  cases step <;> rfl

theorem Step.yields_map (step : Step) (change : Reader → Reader) :
    (step.map change).yields = step.yields := by
  cases step <;> rfl

theorem gathered_of_step_map {size : Nat} {cs rest : List Char} (h : reader.step.reader? = some next)
    (hstep : (reader.within size cs).step = reader.step.map (·.within size rest)) :
    (reader.within size cs).gathered
      = (next.within size rest).gathered.map fun events =>
        reader.step.yields.foldr Event.onto events := by
  have hnext : (reader.within size cs).step.reader? = some (next.within size rest) := by
    rw [hstep, Step.reader?_map, h]
    rfl
  rw [gathered_of_step hnext, hstep, Step.yields_map]

theorem gathered_step_pending (hpending : reader.pending = true) (h : reader.step.reader? = some next)
    (size : Nat) (tail : List Char) :
    (reader.within size (reader.rest ++ tail)).gathered
      = (next.within size (next.rest ++ tail)).gathered.map fun events =>
        reader.step.yields.foldr Event.onto events := by
  have hrest : next.rest = reader.rest := by
    cases htags : reader.tags with
    | nil =>
      rw [step_of_pending_nil hpending htags] at h
      cases h
    | cons tag tags =>
      rw [step_of_pending_cons hpending htags] at h
      exact (leave_reader? h).1
  rw [hrest]
  exact gathered_of_step_map h (step_within_of_pending hpending size _)

theorem gathered_step_markup {cs : List Char} (hpending : reader.pending = false)
    (hrest : reader.rest = '<' :: cs) (h : reader.step.reader? = some next) (size : Nat) (tail : List Char) :
    (reader.within size (reader.rest ++ tail)).gathered
      = (next.within size (next.rest ++ tail)).gathered.map fun events =>
        reader.step.yields.foldr Event.onto events := by
  cases hscan : Markup.scan '<' cs with
  | error error =>
    rw [step_of_scan_error hpending hrest hscan] at h
    cases h
  | ok result =>
    obtain ⟨piece, rest⟩ := result
    have hstep := step_of_scan hpending hrest hscan
    have hnext : next.rest = rest := take_reader? (hstep ▸ h)
    have htag : Markup.scanTag cs = .ok (piece, rest) := by simpa [Markup.scan] using hscan
    obtain ⟨taken, rfl, hmakes⟩ := Markup.exists_makes htag
    rw [hrest, hnext, List.cons_append, List.append_assoc]
    apply gathered_of_step_map h
    rw [step_of_makes hpending hmakes, hstep]
    exact take_within reader size _ rest (rest ++ tail) piece

theorem gathered_step_data {c : Char} {cs : List Char} (hpending : reader.pending = false)
    (hrest : reader.rest = c :: cs) (hc : c ≠ '<') (h : reader.step.reader? = some next) (size : Nat)
    (tail : List Char) :
    (reader.within size (reader.rest ++ tail)).gathered
      = (next.within size (next.rest ++ tail)).gathered.map fun events =>
        reader.step.yields.foldr Event.onto events := by
  have hscan : Markup.scan c cs
      = .ok (.text (c :: cs.takeWhile (· ≠ '<')), cs.dropWhile (· ≠ '<')) := by
    simp [Markup.scan, hc]
  have hstep := step_of_scan hpending hrest hscan
  have hsplit : c :: cs = (c :: cs.takeWhile (· ≠ '<')) ++ cs.dropWhile (· ≠ '<') := by
    rw [List.cons_append, List.takeWhile_append_dropWhile]
  have hraw : '<' ∉ c :: cs.takeWhile (· ≠ '<') := by
    intro hmem
    cases List.mem_cons.mp hmem with
    | inl heq => exact hc heq.symm
    | inr hmem => simpa using List.mem_takeWhile_imp hmem
  rw [hstep] at h
  simp only [take] at h hstep
  rw [hrest, hsplit, List.append_assoc]
  cases hchars : unescape (c :: cs.takeWhile (· ≠ '<')) with
  | error error =>
    rw [hchars] at h
    cases h
  | ok chars =>
    rw [hchars] at h hstep
    rw [gathered_data hpending hraw hchars, hstep]
    cases chars with
    | nil =>
      obtain rfl := Option.some.inj h
      rw [String.ofList_nil, Event.onto_nil]
      rfl
    | cons first chars =>
      obtain rfl := Option.some.inj h
      rfl

theorem gathered_step (h : reader.step.reader? = some next) (size : Nat) (tail : List Char) :
    (reader.within size (reader.rest ++ tail)).gathered
      = (next.within size (next.rest ++ tail)).gathered.map fun events =>
        reader.step.yields.foldr Event.onto events := by
  cases hpending : reader.pending with
  | true => exact gathered_step_pending hpending h size tail
  | false =>
    cases hrest : reader.rest with
    | nil =>
      rw [step_of_nil hpending hrest] at h
      split at h <;> cases h
    | cons c cs =>
      rw [← hrest]
      by_cases hc : c = '<'
      · exact gathered_step_markup hpending (hc ▸ hrest) h size tail
      · exact gathered_step_data hpending hrest hc h size tail

theorem gathered_reaches {names : List QName} (h : reader.Reaches place) (hnames : reader.Tracks names) :
    ∃ events last, Nested names events last ∧ place.Tracks last
      ∧ ∀ size tail, (reader.within size (reader.rest ++ tail)).gathered
        = (place.within size (place.rest ++ tail)).gathered.map fun more =>
          events.foldr Event.onto more := by
  induction h using Relation.ReflTransGen.head_induction_on generalizing names with
  | refl => exact ⟨[], names, .nil, hnames, fun size tail => Option.map_id_apply.symm⟩
  | @head reader next hstep _ ih =>
    have hfollows : ∃ between, Nested names reader.step.yields between ∧ next.Tracks between := by
      have hfollows := hnames.step
      cases hcase : reader.step with
      | event event other =>
        rw [hcase] at hfollows hstep
        obtain ⟨between, hevent, -, hbetween⟩ := hfollows
        exact ⟨between, hevent, Option.some.inj hstep ▸ hbetween⟩
      | skip other =>
        rw [hcase] at hfollows hstep
        exact ⟨names, .nil, Option.some.inj hstep ▸ hfollows⟩
      | failure error => simp [hcase, Step.reader?] at hstep
      | done => simp [hcase, Step.reader?] at hstep
    obtain ⟨between, hfirst, hbetween⟩ := hfollows
    obtain ⟨events, last, hnested, hlast, hgathered⟩ := ih hbetween
    refine ⟨reader.step.yields ++ events, last, hfirst.append hnested, hlast, ?_⟩
    intro size tail
    rw [gathered_step hstep, hgathered, Option.map_map]
    congr 1
    funext more
    rw [List.foldr_append]
    rfl

end Reader
end Xml
end XmlPipeline
