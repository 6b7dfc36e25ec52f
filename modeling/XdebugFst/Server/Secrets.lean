import XdebugFst.Lib.Agreement
import XdebugFst.Server.Redaction

/-!
# Responses do not depend on secrets

Two engines that differ in the secrets that their errors carry, and in nothing else
(`SameUpToSecrets`), give the same responses: `dispatch_eq_of_sameUpToSecrets`. Errors reach a
response from the validation of the request and of the response, from a handler, from the frontend,
from the engine of a managed session and from the children of a batch, at any depth.

Before it is redacted, an error gets the fields that it lacks. These are put at its end and hide
nothing, so a secret change before is one after.
-/

namespace XdebugFst.Server

open Lib Lib.Json Relation

/-- Two errors that differ in secrets. -/
def Concealed : Json → Json → Prop := EqvGen (Inside Secret)

/-! ### One error -/

/-- The names of the fields that every reported error has. -/
def defaultNames : List String := ["code", "message", "error_layer", "recoverable"]

lemma ne_of_mem_defaultNames {name : String} (h : name ∈ defaultNames) :
    "received" ≠ name ∧ sensitiveDiagnosticKey name = false ∧ "invalid_arg" ≠ name ∧
      "path" ≠ name := by
  unfold defaultNames at h
  fin_cases h <;> decide

lemma hasSensitivePath_concat {fields : List (String × Json)} {name other : String} {value : Json}
    (h : other ≠ name) :
    hasSensitivePath (fields ++ [(name, value)]) other = hasSensitivePath fields other := by
  simp [hasSensitivePath, List.lookup_append, List.lookup_cons, beq_false_of_ne h]

/-- A secret change does not add or remove a field of every error. -/
lemma Secret.isSome_lookup {name : String} (hname : name ∈ defaultNames)
    {fields fields' : List (String × Json)} (h : Secret fields fields') :
    (fields.lookup name).isSome = (fields'.lookup name).isSome := by
  obtain ⟨hreceived, hkey, -, -⟩ := ne_of_mem_defaultNames hname
  cases h with
  | key pre post other item hother =>
      have hne : name ≠ other := by
        rintro rfl
        simp [hkey] at hother
      rw [List.lookup_append, List.lookup_cons, beq_false_of_ne hne, List.lookup_append]
  | received pre post item _ =>
      rw [List.lookup_append, List.lookup_cons, beq_false_of_ne hreceived.symm, List.lookup_append]
  | message pre post item item' _ =>
      rw [List.lookup_append, List.lookup_append, List.lookup_cons, List.lookup_cons]
      cases pre.lookup name with
      | some value => rfl
      | none => cases name == "message" <;> rfl

lemma Secret.concat {name : String} (hname : name ∈ defaultNames) (value : Json)
    {fields fields' : List (String × Json)} (h : Secret fields fields') :
    Secret (fields ++ [(name, value)]) (fields' ++ [(name, value)]) := by
  obtain ⟨-, -, harg, hpath⟩ := ne_of_mem_defaultNames hname
  cases h with
  | key pre post other item hother =>
      simpa using Secret.key pre (post ++ [(name, value)]) other item hother
  | received pre post item h =>
      simpa using Secret.received pre (post ++ [(name, value)]) item
        (by rwa [← List.append_assoc, hasSensitivePath_concat harg])
  | message pre post item item' h =>
      simpa using Secret.message pre (post ++ [(name, value)]) item item'
        (by rwa [← List.append_assoc, hasSensitivePath_concat harg, hasSensitivePath_concat hpath])

/-- A field is added on both sides of a secret change, or on neither. -/
lemma inside_addDefault {name : String} (hname : name ∈ defaultNames) (value : Json)
    {fields fields' : List (String × Json)} (h : Inside Secret (.object fields) (.object fields')) :
    Inside Secret (.object (addDefault name value fields))
      (.object (addDefault name value fields')) := by
  cases h with
  | here h =>
      rw [addDefault, addDefault, h.isSome_lookup hname]
      split_ifs
      · exact .here h
      · exact .here (h.concat hname value)
  | field pre post other h =>
      rename_i v w
      have hlookup : ((pre ++ (other, v) :: post).lookup name).isSome =
          ((pre ++ (other, w) :: post).lookup name).isSome := by
        rw [List.lookup_append, List.lookup_append, List.lookup_cons, List.lookup_cons]
        cases pre.lookup name with
        | some value => rfl
        | none => cases name == other <;> rfl
      rw [addDefault, addDefault, hlookup]
      split_ifs
      · exact .field pre post other h
      · simpa using Inside.field pre (post ++ [(name, value)]) other h

/-- The error that is reported does not depend on the secrets. -/
lemma normalizeDiagnosticError_congr {error error' : Json} (h : Concealed error error')
    (layer : String) :
    normalizeDiagnosticError error layer = normalizeDiagnosticError error' layer := by
  have hstep : ∀ {v w}, Inside Secret v w →
      normalizeDiagnosticError v layer = normalizeDiagnosticError w layer := by
    intro v w hstep
    have hobjects : ∀ {fields fields'}, Inside Secret (.object fields) (.object fields') →
        normalizeDiagnosticError (.object fields) layer =
          normalizeDiagnosticError (.object fields') layer := by
      intro fields fields' hstep
      have hadded := inside_addDefault (by decide : "recoverable" ∈ defaultNames) (.bool true) <|
        inside_addDefault (by decide : "error_layer" ∈ defaultNames) (.string layer) <|
        inside_addDefault (by decide : "message" ∈ defaultNames) (.string "action failed") <|
        inside_addDefault (by decide : "code" ∈ defaultNames) (.string "ACTION_FAILED") hstep
      exact redact_eq_iff.2 (EqvGen.eqvGen_mono (fun _ _ h => h.mono fun _ _ => Or.inl)
        _ _ (.rel _ _ hadded))
    cases hstep with
    | here h => exact hobjects (.here h)
    | item pre post h => rfl
    | field pre post name h => exact hobjects (.field pre post name h)
  induction h with
  | rel v w h => exact hstep h
  | refl v => rfl
  | symm v w _ ih => exact ih.symm
  | trans u v w _ _ ih ih' => exact ih.trans ih'

/-! ### Answers -/

/-- Two answers that are the same, or that fail with errors that differ in secrets. -/
inductive SameAnswer : Json → Json → Prop
  | refl (answer : Json) : SameAnswer answer answer
  | error (pre post : List (String × Json)) {error error' : Json} (h : Concealed error error')
      (hok : ((Json.object (pre ++ post)).boolValue "ok" false) = .ok false) :
      SameAnswer (.object (pre ++ ("error", error) :: post))
        (.object (pre ++ ("error", error') :: post))

/-- What of an answer can be read without its error. -/
lemma SameAnswer.field?_eq {answer answer' : Json} (h : SameAnswer answer answer') {name : String}
    (hname : name ≠ "error") : answer.field? name = answer'.field? name := by
  cases h with
  | refl => rfl
  | error pre post h hok =>
      simp only [field?_object, List.lookup_append, List.lookup_cons, beq_false_of_ne hname]

lemma SameAnswer.isObject_eq {answer answer' : Json} (h : SameAnswer answer answer') :
    answer.isObject = answer'.isObject := by
  cases h <;> rfl

lemma boolValue_error (pre post : List (String × Json)) (v : Json) :
    (Json.object (pre ++ ("error", v) :: post)).boolValue "ok" false =
      (Json.object (pre ++ post)).boolValue "ok" false := by
  refine valueWith_congr rfl ?_
  simp only [field?_object, List.lookup_append, List.lookup_cons,
    beq_false_of_ne (show "ok" ≠ "error" by decide)]

lemma SameAnswer.erase {answer answer' : Json} (h : SameAnswer answer answer') {name : String}
    (hname : "error" ≠ name) (hok : "ok" ≠ name) :
    SameAnswer (answer.erase name) (answer'.erase name) := by
  cases h with
  | refl => exact .refl _
  | error pre post h hfalse =>
      simp only [Json.erase, List.filter_append, List.filter_cons, ne_eq, hname,
        not_false_eq_true, decide_true, if_true]
      refine .error _ _ h ?_
      rw [← List.filter_append, ← hfalse]
      have hfield : ((Json.object (pre ++ post)).erase name).field? "ok" =
          (Json.object (pre ++ post)).field? "ok" := field?_erase hok
      exact valueWith_congr rfl hfield

/-- The error of two answers that differ. -/
lemma concealed_jsonValue (pre post : List (String × Json)) {error error' : Json}
    (h : Concealed error error') (default : Json) : ∃ v w,
      (Json.object (pre ++ ("error", error) :: post)).jsonValue "error" default = .ok v ∧
      (Json.object (pre ++ ("error", error') :: post)).jsonValue "error" default = .ok w ∧
      Concealed v w := by
  rw [jsonValue_of_isObject rfl, jsonValue_of_isObject rfl, field?_object, field?_object,
    List.lookup_append, List.lookup_append, List.lookup_cons, List.lookup_cons]
  cases pre.lookup "error" with
  | some v => exact ⟨v, v, rfl, rfl, .refl v⟩
  | none => exact ⟨error, error', rfl, rfl, h⟩

section Engine

variable {σ : Type} {engine engine' : Engine σ}

lemma canonicalError_congr (htool : engine.toolMetadata = engine'.toolMetadata)
    {error error' : Json} (h : Concealed error error') (request : Json) (action : String) :
    canonicalError engine request action error = canonicalError engine' request action error' := by
  rw [canonicalError, canonicalError, normalizeDiagnosticError_congr h, htool]

/-- The public form of two answers that differ in secrets. -/
lemma canonicalResponse_congr (htool : engine.toolMetadata = engine'.toolMetadata)
    {answer answer' : Json} (h : SameAnswer answer answer') (request : Json) (action : String) :
    canonicalResponse engine request action answer =
      canonicalResponse engine' request action answer' := by
  cases h with
  | refl =>
      have hok : okResponse engine request action = okResponse engine' request action := by
        funext answer session summary data
        rw [okResponse, okResponse, htool]
      rw [canonicalResponse, canonicalResponse, hok]
      have herror : canonicalError engine request action = canonicalError engine' request action :=
        funext fun error => canonicalError_congr htool (.refl error) request action
      rw [herror]
  | error pre post h hok =>
      have hread : ∀ v, (Json.object (pre ++ ("error", v) :: post)).boolValue "ok" false =
          .ok false := fun v => (boolValue_error pre post v).trans hok
      obtain ⟨v, w, hv, hw, hvw⟩ := concealed_jsonValue pre post h (.object [])
      simp only [canonicalResponse, hread, hv, hw, bind, Except.bind, Bool.not_false, if_true]
      exact canonicalError_congr htool hvw request action

/-! ### Engines that differ in secrets -/

/-- Two runs of a component. -/
inductive SameRun {ε : Type} : Except ε Answer × σ → Except ε Answer × σ → Prop
  | answer {answer answer' : Answer} (h : SameAnswer answer.val answer'.val) (s : σ) :
      SameRun (.ok answer, s) (.ok answer', s)
  | throw (what : ε) (s : σ) : SameRun (.error what, s) (.error what, s)

/-- Two handlers whose errors differ in secrets. -/
structure SameHandler (handler handler' : Handler σ) : Prop where
  needsDesign : handler.needsDesign = handler'.needsDesign
  needsWaveform : handler.needsWaveform = handler'.needsWaveform
  run : ∀ request s, SameRun (handler.run request s) (handler'.run request s)
  renderXout : handler.renderXout = handler'.renderXout

/-- Two errors that may be there and differ in secrets. -/
def SameError (error error' : Option Diagnostic) : Prop :=
  Option.Rel Concealed (error.map Subtype.val) (error'.map Subtype.val)

/-- Two engines that differ in the secrets of their errors. -/
structure SameUpToSecrets (engine engine' : Engine σ) : Prop where
  isPublicAction : engine.isPublicAction = engine'.isPublicAction
  actionSuggestions : engine.actionSuggestions = engine'.actionSuggestions
  requestError : ∀ action request,
    SameError (engine.requestError action request) (engine'.requestError action request)
  responseError : ∀ action response,
    SameError (engine.responseError action response) (engine'.responseError action response)
  toolMetadata : engine.toolMetadata = engine'.toolMetadata
  frontend : ∀ request s, SameRun (engine.handleFrontendSessionAction request s)
    (engine'.handleFrontendSessionAction request s)
  forward : ∀ request s, SameRun (engine.forwardToManagedSession request s)
    (engine'.forwardToManagedSession request s)
  actionsCatalog : engine.actionsCatalog = engine'.actionsCatalog
  schemaCatalog : ∀ args, (∃ catalog, engine.schemaCatalog args = .ok catalog ∧
      engine'.schemaCatalog args = .ok catalog) ∨
    ∃ error error', engine.schemaCatalog args = .error error ∧
      engine'.schemaCatalog args = .error error' ∧ Concealed error.val error'.val
  handler : ∀ action, Option.Rel SameHandler (engine.handler action) (engine'.handler action)
  hasDesign : engine.hasDesign = engine'.hasDesign
  hasWaveform : engine.hasWaveform = engine'.hasWaveform

variable (same : SameUpToSecrets engine engine')
include same

lemma validatePublicRequest_congr (request : Json) :
    Option.Rel Concealed (validatePublicRequest engine request)
      (validatePublicRequest engine' request) := by
  have hrefl : ∀ error, Option.Rel Concealed (some error) (some error) :=
    fun error => .some (.refl error)
  rw [validatePublicRequest, validatePublicRequest, same.isPublicAction, same.actionSuggestions]
  split
  · exact hrefl _
  split
  · exact hrefl _
  split_ifs
  · exact hrefl _
  · exact hrefl _
  · exact hrefl _
  split
  · exact hrefl _
  · exact same.requestError _ _

lemma checkedResponse_congr (request : Json) (action : String) (response : Json) :
    checkedResponse engine request action response =
      checkedResponse engine' request action response := by
  have herror := same.responseError action response
  rw [checkedResponse, checkedResponse]
  cases h : engine.responseError action response with
  | none =>
      cases h' : engine'.responseError action response with
      | none => rfl
      | some error' =>
          rw [SameError, h, h'] at herror
          cases herror
  | some error =>
      cases h' : engine'.responseError action response with
      | none =>
          rw [SameError, h, h'] at herror
          cases herror
      | some error' =>
          rw [SameError, h, h'] at herror
          cases herror with
          | some herror => exact canonicalError_congr same.toolMetadata herror request action

lemma publicForm_congr {answer answer' : Json} (h : SameAnswer answer answer') (request : Json)
    (action : String) :
    publicForm engine request action answer = publicForm engine' request action answer' := by
  have hcanonical := canonicalResponse_congr same.toolMetadata h request action
  have hok : answer.boolValue "ok" false = answer'.boolValue "ok" false :=
    valueWith_congr h.isObject_eq (h.field?_eq (by decide))
  have hversion : answer.stringValue "api_version" "" = answer'.stringValue "api_version" "" :=
    valueWith_congr h.isObject_eq (h.field?_eq (by decide))
  rw [publicForm, publicForm, hcanonical, hok, hversion]
  cases h with
  | refl => rfl
  | error pre post h hfalse =>
      rw [boolValue_error, hfalse]
      rfl

lemma forwardedResponse_congr {answer answer' : Json} (h : SameAnswer answer answer')
    (request : Json) (action : String) : forwardedResponse engine request action answer =
      forwardedResponse engine' request action answer' := by
  have hform : SameAnswer
      (if ((answer'.field? "__xdebug_internal_xout").bind Json.string?).isSome then
        answer.erase "__xdebug_internal_xout" else answer)
      (if ((answer'.field? "__xdebug_internal_xout").bind Json.string?).isSome then
        answer'.erase "__xdebug_internal_xout" else answer') := by
    split_ifs
    · exact h.erase (by decide) (by decide)
    · exact h
  have hchecked : checkedResponse engine request action = checkedResponse engine' request action :=
    funext (checkedResponse_congr same request action)
  rw [forwardedResponse, forwardedResponse, h.field?_eq (by decide)]
  dsimp only
  rw [publicForm_congr same hform, hchecked]

/-! ### Dispatch -/

lemma runHandler_agree (action : String) (request : Json) :
    Agree SameAnswer (runHandler engine action request) (runHandler engine' action request) := by
  have hhandler := same.handler action
  rw [runHandler, runHandler, same.hasDesign, same.hasWaveform]
  cases h : engine.handler action with
  | none =>
      cases h' : engine'.handler action with
      | none => exact Agree.pure (.refl _)
      | some handler' =>
          rw [h, h'] at hhandler
          cases hhandler
  | some handler =>
      cases h' : engine'.handler action with
      | none =>
          rw [h, h'] at hhandler
          cases hhandler
      | some handler' =>
          rw [h, h'] at hhandler
          cases hhandler with
          | some hhandler =>
              intro s
              dsimp only
              rw [hhandler.needsDesign, hhandler.needsWaveform]
              split_ifs
              · exact Or.inr ⟨_, _, _, rfl, rfl, .refl _⟩
              · exact Or.inr ⟨_, _, _, rfl, rfl, .refl _⟩
              · have hrun := hhandler.run request s.1
                generalize handler.run request s.1 = run at hrun ⊢
                generalize handler'.run request s.1 = run' at hrun ⊢
                cases hrun with
                | answer hanswer s' => exact Or.inr ⟨_, _, _, rfl, rfl, hanswer⟩
                | throw what s' => exact Or.inr ⟨_, _, _, rfl, rfl, .refl _⟩

/-- The text of a response is the same. -/
lemma renderXout_congr (action : String) (response : Json) :
    renderXout engine action response = renderXout engine' action response := by
  have hhandler := same.handler action
  rw [renderXout, renderXout]
  generalize engine.handler action = handler at hhandler ⊢
  generalize engine'.handler action = handler' at hhandler ⊢
  cases hhandler with
  | none => rfl
  | some h => exact congrFun h.renderXout response

omit same in
lemma callEngine_agree {call call' : σ → Except Json.TypeError Answer × σ}
    (h : ∀ s, SameRun (call s) (call' s)) :
    Agree (fun a a' => SameAnswer a.val a'.val) (callEngine call) (callEngine call') := by
  intro s
  have hrun := h s.1
  rw [callEngine, callEngine]
  generalize call s.1 = run at hrun ⊢
  generalize call' s.1 = run' at hrun ⊢
  cases hrun with
  | answer hanswer s' => exact Or.inr ⟨_, _, _, rfl, rfl, hanswer⟩
  | throw what s' => exact Or.inl ⟨_, rfl, rfl⟩

/-- The rest for an answer of the process is the same. -/
lemma localResponse_congr {answer answer' : Json} (h : SameAnswer answer answer') (request : Json)
    (action : String) :
    localResponse engine request action answer = localResponse engine' request action answer' := by
  rw [localResponse, localResponse, canonicalResponse_congr same.toolMetadata h]
  refine bind_congr fun response => ?_
  have hresponse := same.responseError action response
  rw [SameError] at hresponse
  cases h : engine.responseError action response with
  | none =>
      cases h' : engine'.responseError action response with
      | none => rw [renderXout_congr same action response]
      | some error' =>
          rw [h, h'] at hresponse
          cases hresponse
  | some error =>
      cases h' : engine'.responseError action response with
      | none =>
          rw [h, h'] at hresponse
          cases hresponse
      | some error' =>
          rw [h, h'] at hresponse
          cases hresponse with
          | some hrel => exact congrArg liftM (canonicalError_congr same.toolMetadata hrel _ _)

variable {serverContext : Bool}

omit same in
lemma runBatch_congr {requests : List Json}
    (h : ∀ child ∈ requests, dispatch engine serverContext child =
      dispatch engine' serverContext child) (acc : BatchResults) :
    runBatch engine serverContext requests acc = runBatch engine' serverContext requests acc := by
  induction requests generalizing acc with
  | nil => rw [runBatch, runBatch]
  | cons child rest ih =>
      have hrest := ih fun child hchild => h child (List.mem_cons_of_mem _ hchild)
      rw [runBatch, runBatch, h child List.mem_cons_self]
      simp only [hrest]

lemma dispatchHandler_agree {request : Json}
    (h : ∀ requests, batchRequests request = some requests → ∀ child ∈ requests,
      dispatch engine serverContext child = dispatch engine' serverContext child) :
    Agree SameAnswer (dispatchHandler engine serverContext request)
      (dispatchHandler engine' serverContext request) := by
  rw [dispatchHandler, dispatchHandler]
  refine Agree.bind fun action => ?_
  split_ifs
  · exact Agree.pure (.refl _)
  · rw [same.actionsCatalog]
    exact Agree.of_eq .refl rfl
  · refine Agree.bind fun args => ?_
    rcases same.schemaCatalog args with ⟨catalog, hc, hc'⟩ | ⟨error, error', he, he', hrel⟩
    · rw [hc, hc']
      exact Agree.pure (.refl _)
    · rw [he, he']
      exact Agree.pure (.error [("ok", .bool false)] [] hrel rfl)
  · split
    · exact Agree.pure (.refl _)
    · rename_i requests hrequests
      rw [runBatch_congr (h requests hrequests)]
      exact Agree.of_eq .refl rfl
  · exact runHandler_agree same action request

/-- The responses do not depend on the secrets in the errors of the components. -/
theorem dispatch_eq_of_sameUpToSecrets (request : Json) :
    dispatch engine serverContext request = dispatch engine' serverContext request := by
  -- induction on the size: a batch dispatches the requests that it contains
  induction hsize : sizeOf request using Nat.strong_induction_on generalizing request with
  | _ n ih =>
  have hchecked : ∀ action, checkedResponse engine request action =
      checkedResponse engine' request action :=
    fun action => funext (checkedResponse_congr same request action)
  have herror : ∀ action, canonicalError engine request action =
      canonicalError engine' request action :=
    fun action => funext fun error =>
      canonicalError_congr same.toolMetadata (.refl error) request action
  rw [dispatch, dispatch]
  refine bind_congr fun _ => bind_congr fun action => ?_
  have hvalid := validatePublicRequest_congr same request
  generalize validatePublicRequest engine request = invalid at hvalid ⊢
  generalize validatePublicRequest engine' request = invalid' at hvalid ⊢
  cases hvalid with
  | some hinvalid =>
      exact congrArg liftM (canonicalError_congr same.toolMetadata hinvalid request action)
  | none =>
      dsimp only
      split_ifs
      · rw [herror, hchecked]
      · refine (callEngine_agree (same.frontend request)).bind_eq fun answer answer' hanswer => ?_
        rw [canonicalResponse_congr same.toolMetadata hanswer, hchecked]
      · exact (callEngine_agree (same.forward request)).bind_eq fun answer answer' hanswer =>
          forwardedResponse_congr same hanswer request action
      · refine Agree.bind_eq (dispatchHandler_agree same ?_) fun answer answer' hanswer =>
          localResponse_congr same hanswer request action
        intro requests hrequests child hchild
        refine ih (sizeOf child) ?_ child rfl
        have hlt := sizeOf_batchRequests_lt hrequests
        have hmem := List.sizeOf_lt_of_mem hchild
        omega

end Engine

/-! ### A token in an error -/

/-- The answer of a frontend that reports its token. -/
def tokenAnswer (token : String) : Json :=
  .object [("ok", .bool false),
    ("error", .object [("code", .string "SESSION_EXISTS"), ("ownership_token", .string token)])]

lemma isAnswer_tokenAnswer (token : String) : IsAnswer (tokenAnswer token) := by
  refine ⟨rfl, ?_, ?_, ?_⟩
  · rintro field ⟨rfl⟩
    rfl
  · rintro field ⟨⟩
  · rintro field ⟨rfl⟩ name hname value hvalue
    fin_cases hname
    · obtain rfl := Option.some.inj hvalue
      rfl
    · cases hvalue

lemma isDiagnostic_invalidBatch :
    IsDiagnostic (diagnosticError "INVALID_REQUEST" "" true "schema" []) :=
  isDiagnostic_diagnosticError

/-- An engine whose frontend reports a token. -/
def tokenEngine (token : String) : Engine Unit where
  isUtf8 _ := true
  isUtf8_ascii _ := rfl
  parse := fun _ => .error ""
  isUtf8_parse h := nomatch h
  isPublicAction _ := true
  actionSuggestions _ := []
  requestError action _ := if action = "batch" then
    some ⟨diagnosticError "INVALID_REQUEST" "" true "schema" [], isDiagnostic_invalidBatch⟩
    else none
  batchSchema h := nomatch h
  responseError _ _ := none
  toolMetadata := .null
  handleFrontendSessionAction _ s := (.ok ⟨tokenAnswer token, isAnswer_tokenAnswer token⟩, s)
  forwardToManagedSession _ s := (.ok ⟨tokenAnswer token, isAnswer_tokenAnswer token⟩, s)
  actionsCatalog _ := (.null, .null)
  schemaCatalog _ := .ok (.null, .null)
  handler _ := none
  hasDesign _ := false
  hasWaveform _ := false
  renderXoutResponse _ text := .ok text

lemma sameAnswer_tokenAnswer (token token' : String) :
    SameAnswer (tokenAnswer token) (tokenAnswer token') := by
  have hdrop : ∀ token, Inside Secret
      (.object [("code", .string "SESSION_EXISTS"), ("ownership_token", .string token)])
      (.object [("code", .string "SESSION_EXISTS")]) :=
    fun token => .here (.key [("code", .string "SESSION_EXISTS")] [] "ownership_token" _ (by decide))
  have hrel : Concealed
      (.object [("code", .string "SESSION_EXISTS"), ("ownership_token", .string token)])
      (.object [("code", .string "SESSION_EXISTS"), ("ownership_token", .string token')]) :=
    (EqvGen.rel _ _ (hdrop token)).trans _ _ _ (.symm _ _ (.rel _ _ (hdrop token')))
  exact .error [("ok", .bool false)] [] hrel rfl

lemma sameUpToSecrets_tokenEngine (token token' : String) :
    SameUpToSecrets (tokenEngine token) (tokenEngine token') where
  isPublicAction := rfl
  actionSuggestions := rfl
  requestError action _ := by
    simp only [SameError, tokenEngine]
    split_ifs
    · exact .some (.refl _)
    · exact .none
  responseError _ _ := .none
  toolMetadata := rfl
  frontend _ s := .answer (sameAnswer_tokenAnswer token token') s
  forward _ s := .answer (sameAnswer_tokenAnswer token token') s
  actionsCatalog := rfl
  schemaCatalog _ := .inl ⟨_, rfl, rfl⟩
  handler _ := .none
  hasDesign := rfl
  hasWaveform := rfl

/-- A request that the frontend answers. -/
def openRequest : Json :=
  .object [("api_version", .string "xdebug.v1"), ("action", .string "session.open")]

/-- Another token gives the same response. -/
theorem dispatch_tokenEngine : SameUpToSecrets (tokenEngine "first") (tokenEngine "second") ∧
    dispatch (tokenEngine "first") false openRequest =
      dispatch (tokenEngine "second") false openRequest :=
  ⟨sameUpToSecrets_tokenEngine _ _,
    dispatch_eq_of_sameUpToSecrets (sameUpToSecrets_tokenEngine _ _) openRequest⟩

end XdebugFst.Server
