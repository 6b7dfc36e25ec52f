import XdebugFst.Lib.JsonTree
import XdebugFst.Server.Dispatch

/-!
# What error responses reveal

Every error that the server reports goes through `redactSensitiveDiagnostic`. An object in it, at
any depth, loses the fields that hold an ownership token. When a request path in it names a token,
it loses the value that was received and its message becomes a constant text.

`Secret` says what is to be hidden, one change at a time. `redact_eq_iff` says that the redaction
hides this and nothing else.
-/

namespace XdebugFst.Server

open Lib Lib.Json Relation

/-! ### Sensitive paths -/

/-- The loop of `sensitive_diagnostic_path`, with the segment that is being read. -/
def sensitiveFrom (segment : List Char) : List Char → Bool
  | [] => sensitiveDiagnosticKey (String.ofList segment)
  | c :: rest =>
      if c.isAlphanum || c = '_' then sensitiveFrom (segment ++ [c]) rest
      else sensitiveDiagnosticKey (String.ofList segment) || sensitiveFrom [] rest

lemma sensitiveFrom_eq (segment path : List Char) :
    sensitiveFrom segment path =
      ((path.splitOnP fun c => !(c.isAlphanum || c = '_')).modifyHead (segment ++ ·)).any fun s =>
        sensitiveDiagnosticKey (String.ofList s) := by
  induction path generalizing segment with
  | nil => simp [sensitiveFrom, List.splitOnP_nil]
  | cons c rest ih =>
      rw [sensitiveFrom, List.splitOnP_cons_eq_if_modifyHead]
      obtain ⟨s, ss, hs⟩ := List.exists_cons_of_ne_nil
        (List.splitOnP_ne_nil (fun c => !(c.isAlphanum || c = '_')) rest)
      by_cases h : (c.isAlphanum || c = '_') = true
      · rw [if_pos h, ih, hs, h]
        simp
      · rw [if_neg h, ih, hs, Bool.eq_false_of_not_eq_true h]
        simp

/-- The loop finds the segments of the path. -/
theorem sensitiveDiagnosticPath_eq (path : String) :
    sensitiveDiagnosticPath path = sensitiveFrom [] path.toList := by
  have hid : ∀ l : List (List Char), l.modifyHead ([] ++ ·) = l := by
    rintro (_ | ⟨s, ss⟩) <;> rfl
  have hkey : ∀ (segment : List Char) (key : String),
      decide (segment = key.toList) = decide (String.ofList segment = key) := by
    intro segment key
    rw [decide_eq_decide, ← String.toList_inj, String.toList_ofList]
  rw [sensitiveFrom_eq, hid, sensitiveDiagnosticPath]
  simp only [sensitiveDiagnosticKey, hkey]

/-! ### The redaction, one field at a time -/

/-- The message in place of one about a sensitive field. -/
def hiddenMessage : Json := .string "sensitive request field failed validation"

/-- What the redaction writes for one field. -/
def redactField (arg path : Bool) (field : String × Json) : Option (String × Json) :=
  if sensitiveDiagnosticKey field.1 then none
  else if arg && field.1 = "received" then none
  else if (arg || path) && field.1 = "message" then some (field.1, hiddenMessage)
  else some (field.1, redactSensitiveDiagnostic field.2)

lemma redactFields_eq (arg path : Bool) (fields : List (String × Json)) :
    redactFields arg path fields = fields.filterMap (redactField arg path) := by
  induction fields with
  | nil => rw [redactFields, List.filterMap_nil]
  | cons field rest ih =>
      obtain ⟨key, item⟩ := field
      rw [redactFields, List.filterMap_cons, redactField, ih]
      split_ifs <;> rfl

lemma redact_array (items : List Json) : redactSensitiveDiagnostic (.array items) =
    .array (items.map redactSensitiveDiagnostic) := by
  have h : ∀ items, redactItems items = items.map redactSensitiveDiagnostic := by
    intro items
    induction items with
    | nil => rw [redactItems, List.map_nil]
    | cons item rest ih => rw [redactItems, ih, List.map_cons]
  rw [redactSensitiveDiagnostic, h]

/-- The note that a value was removed. -/
def noteReceived (arg : Bool) (out : List (String × Json)) : List (String × Json) :=
  if arg then setField out "received_redacted" (.bool true) else out

lemma redact_object (fields : List (String × Json)) : redactSensitiveDiagnostic (.object fields) =
    .object (noteReceived (hasSensitivePath fields "invalid_arg") (fields.filterMap
      (redactField (hasSensitivePath fields "invalid_arg") (hasSensitivePath fields "path")))) := by
  rw [redactSensitiveDiagnostic, redactFields_eq, noteReceived]

@[simp]
lemma string?_redact (v : Json) : (redactSensitiveDiagnostic v).string? = v.string? := by
  cases v with
  | array items => rw [redact_array]; rfl
  | object fields => rw [redact_object]; rfl
  | _ => simp [redactSensitiveDiagnostic]

/-- A value that is no array and no object is kept. -/
lemma redact_leaf {v : Json} (harray : ∀ items, v ≠ .array items)
    (hobject : ∀ fields, v ≠ .object fields) : redactSensitiveDiagnostic v = v := by
  cases v with
  | array items => exact absurd rfl (harray items)
  | object fields => exact absurd rfl (hobject fields)
  | _ => simp [redactSensitiveDiagnostic]

/-! ### What is hidden -/

/-- A change of what an object hides: a token, the value received for a sensitive argument, or a
message about a sensitive field. -/
inductive Secret : List (String × Json) → List (String × Json) → Prop
  | key (pre post : List (String × Json)) (name : String) (item : Json)
      (h : sensitiveDiagnosticKey name = true) : Secret (pre ++ (name, item) :: post) (pre ++ post)
  | received (pre post : List (String × Json)) (item : Json)
      (h : hasSensitivePath (pre ++ post) "invalid_arg" = true) :
      Secret (pre ++ ("received", item) :: post) (pre ++ post)
  | message (pre post : List (String × Json)) (item item' : Json)
      (h : hasSensitivePath (pre ++ post) "invalid_arg" = true ∨
        hasSensitivePath (pre ++ post) "path" = true) :
      Secret (pre ++ ("message", item) :: post) (pre ++ ("message", item') :: post)

/-- The note of an object with a sensitive argument that its value was removed. -/
inductive Noted : List (String × Json) → List (String × Json) → Prop
  | note (fields : List (String × Json)) (h : hasSensitivePath fields "invalid_arg" = true) :
      Noted fields (setField fields "received_redacted" (.bool true))

/-- A change that the redaction does not see. -/
def Hides (fields fields' : List (String × Json)) : Prop :=
  Secret fields fields' ∨ Noted fields fields'

lemma hasSensitivePath_append_cons_of_ne {pre post : List (String × Json)} {name other : String}
    (item : Json) (h : other ≠ name) :
    hasSensitivePath (pre ++ (name, item) :: post) other = hasSensitivePath (pre ++ post) other := by
  rw [hasSensitivePath, hasSensitivePath, List.lookup_append, List.lookup_append, List.lookup_cons,
    beq_false_of_ne h]

/-- Only strings make a field sensitive. -/
lemma hasSensitivePath_replace {pre post : List (String × Json)} {name other : String} {v w : Json}
    (h : v.string? = w.string?) : hasSensitivePath (pre ++ (name, v) :: post) other =
      hasSensitivePath (pre ++ (name, w) :: post) other := by
  rw [hasSensitivePath, hasSensitivePath, List.lookup_append, List.lookup_append, List.lookup_cons,
    List.lookup_cons]
  cases pre.lookup other with
  | some item => rfl
  | none => cases other == name <;> simp [h]

/-! ### The redaction depends on nothing hidden -/

lemma redact_object_congr {fields fields' : List (String × Json)}
    (harg : hasSensitivePath fields "invalid_arg" = hasSensitivePath fields' "invalid_arg")
    (hpath : hasSensitivePath fields "path" = hasSensitivePath fields' "path")
    (hfields : fields.filterMap
        (redactField (hasSensitivePath fields "invalid_arg") (hasSensitivePath fields "path")) =
      fields'.filterMap
        (redactField (hasSensitivePath fields "invalid_arg") (hasSensitivePath fields "path"))) :
    redactSensitiveDiagnostic (.object fields) = redactSensitiveDiagnostic (.object fields') := by
  rw [redact_object, redact_object, ← harg, ← hpath, hfields]

lemma redactField_fst {arg path : Bool} {field out : String × Json}
    (h : redactField arg path field = some out) : out.1 = field.1 := by
  rw [redactField] at h
  split_ifs at h <;> cases h <;> rfl

/-- A name that the redaction leaves in every object. -/
def Kept (name : String) : Prop :=
  sensitiveDiagnosticKey name = false ∧ name ≠ "received" ∧ name ≠ "message"

lemma redactField_of_kept {name : String} (h : Kept name) (arg path : Bool) (item : Json) :
    redactField arg path (name, item) = some (name, redactSensitiveDiagnostic item) := by
  simp [redactField, h.1, h.2.1, h.2.2]

lemma lookup_filterMap_redactField {name : String} (h : Kept name) (arg path : Bool)
    (fields : List (String × Json)) : (fields.filterMap (redactField arg path)).lookup name =
      (fields.lookup name).map redactSensitiveDiagnostic := by
  induction fields with
  | nil => rfl
  | cons field rest ih =>
      obtain ⟨other, item⟩ := field
      rw [List.filterMap_cons, List.lookup_cons]
      by_cases hname : name = other
      · subst hname
        simp [redactField_of_kept h]
      · rw [beq_false_of_ne hname]
        cases hfield : redactField arg path (other, item) with
        | none => exact ih
        | some out =>
            have hout : name ≠ out.1 := by simpa only [redactField_fst hfield] using hname
            obtain ⟨key, value⟩ := out
            simpa only [List.lookup_cons, beq_false_of_ne hout] using ih

lemma hasSensitivePath_filterMap_redactField {name : String} (h : Kept name) (arg path : Bool)
    (fields : List (String × Json)) :
    hasSensitivePath (fields.filterMap (redactField arg path)) name =
      hasSensitivePath fields name := by
  have hstring : string? ∘ redactSensitiveDiagnostic = string? := funext string?_redact
  rw [hasSensitivePath, hasSensitivePath, lookup_filterMap_redactField h, Option.bind_map, hstring]

/-- A field that is kept can be set before the redaction or after it. -/
lemma filterMap_redactField_setField {name : String} (h : Kept name) (arg path : Bool)
    (fields : List (String × Json)) (value : Json) :
    (setField fields name value).filterMap (redactField arg path) =
      setField (fields.filterMap (redactField arg path)) name
        (redactSensitiveDiagnostic value) := by
  rw [setField, setField, lookup_filterMap_redactField h, Option.isSome_map]
  split_ifs
  · rw [List.filterMap_map, List.map_filterMap]
    congr 1
    funext field
    by_cases hname : field.1 = name
    · obtain ⟨key, item⟩ := field
      obtain rfl : key = name := hname
      simp [redactField_of_kept h]
    · simp only [Function.comp_apply, if_neg hname]
      cases hfield : redactField arg path field with
      | none => rfl
      | some out => simp [redactField_fst hfield, hname]
  · simp [List.filterMap_append, redactField_of_kept h]

lemma setField_setField (fields : List (String × Json)) (name : String) (value : Json) :
    setField (setField fields name value) name value = setField fields name value := by
  have hnone : ∀ l : List (String × Json), l.lookup name = none →
      (l.map fun field => if field.1 = name then (name, value) else field) = l := by
    intro l hl
    refine (List.map_congr_left fun field hfield => if_neg fun hname => ?_).trans (List.map_id l)
    have hne := List.lookup_eq_none_iff.1 hl field hfield
    simp [hname] at hne
  have hmap : ∀ l : List (String × Json), (l.lookup name).isSome = true →
      ((l.map fun field => if field.1 = name then (name, value) else field).lookup name).isSome =
        true := by
    intro l hl
    simp only [List.lookup_isSome_iff, List.mem_map, beq_iff_eq] at hl ⊢
    obtain ⟨field, hfield, hname⟩ := hl
    exact ⟨_, ⟨field, hfield, rfl⟩, by simp [hname]⟩
  by_cases h : (fields.lookup name).isSome = true
  · rw [setField.eq_def fields, if_pos h, setField, if_pos (hmap fields h), List.map_map]
    congr 1
    funext field
    by_cases hfield : field.1 = name <;> simp [hfield]
  · have hlookup : fields.lookup name = none := Option.not_isSome_iff_eq_none.1 h
    rw [setField.eq_def fields, if_neg h, setField, if_pos (by simp [List.lookup_append]),
      List.map_append, hnone fields hlookup]
    simp

/-- The note is written again by the redaction. -/
lemma redact_note {fields : List (String × Json)}
    (h : hasSensitivePath fields "invalid_arg" = true) :
    redactSensitiveDiagnostic (.object (setField fields "received_redacted" (.bool true))) =
      redactSensitiveDiagnostic (.object fields) := by
  have hflag : ∀ name, name ≠ "received_redacted" →
      hasSensitivePath (setField fields "received_redacted" (.bool true)) name =
        hasSensitivePath fields name := by
    intro name hne
    rw [hasSensitivePath, lookup_setField hne, hasSensitivePath]
  have hkept : Kept "received_redacted" := ⟨by decide, by decide, by decide⟩
  rw [redact_object, redact_object, hflag _ (by decide), hflag _ (by decide), h,
    filterMap_redactField_setField hkept, noteReceived, if_pos rfl, noteReceived, if_pos rfl]
  simp only [redactSensitiveDiagnostic]
  rw [setField_setField]

/-- One hidden change of the fields of an object. -/
lemma redact_object_of_hides {fields fields' : List (String × Json)} (h : Hides fields fields') :
    redactSensitiveDiagnostic (.object fields) = redactSensitiveDiagnostic (.object fields') := by
  rcases h with (⟨pre, post, name, item, hkey⟩ | ⟨pre, post, item, harg⟩ |
    ⟨pre, post, item, item', hflag⟩) | ⟨⟨harg⟩⟩
  · have hne : ∀ other, sensitiveDiagnosticKey other = false → other ≠ name := by
      rintro other hother rfl
      simp [hother] at hkey
    refine redact_object_congr (hasSensitivePath_append_cons_of_ne _ (hne _ (by decide)))
      (hasSensitivePath_append_cons_of_ne _ (hne _ (by decide))) ?_
    simp [List.filterMap_append, redactField, hkey]
  · refine redact_object_congr (hasSensitivePath_append_cons_of_ne _ (by decide))
      (hasSensitivePath_append_cons_of_ne _ (by decide)) ?_
    rw [hasSensitivePath_append_cons_of_ne _ (by decide), harg]
    simp [List.filterMap_append, redactField]
  · have hsame : ∀ other, other ≠ "message" → ∀ v, hasSensitivePath
        (pre ++ ("message", v) :: post) other = hasSensitivePath (pre ++ post) other :=
      fun other hne v => hasSensitivePath_append_cons_of_ne v hne
    have harg := hsame "invalid_arg" (by decide)
    have hpath := hsame "path" (by decide)
    have hkey : sensitiveDiagnosticKey "message" = false := by decide
    refine redact_object_congr (by rw [harg, harg]) (by rw [hpath, hpath]) ?_
    rw [harg, hpath]
    simp [List.filterMap_append, redactField, hflag, hkey]
  · exact (redact_note harg).symm

/-- One hidden change somewhere in a value. -/
lemma redact_congr {v w : Json} (h : Inside Hides v w) :
    redactSensitiveDiagnostic v = redactSensitiveDiagnostic w := by
  induction h with
  | here h => exact redact_object_of_hides h
  | item pre post h ih => simp [redact_array, ih]
  | field pre post name h ih =>
      rename_i v w
      have hstring : v.string? = w.string? := by
        rw [h.string?_eq_none.1, h.string?_eq_none.2]
      refine redact_object_congr (hasSensitivePath_replace hstring)
        (hasSensitivePath_replace hstring) ?_
      simp [List.filterMap_append, List.filterMap_cons, redactField, ih]

/-! ### The redaction hides nothing else -/

/-- The fields of an object are redacted one after the other, each by hidden changes. -/
lemma reflTransGen_fields {arg path : Bool} {fields : List (String × Json)}
    (ih : ∀ f ∈ fields, ReflTransGen (Inside Hides) f.2 (redactSensitiveDiagnostic f.2)) :
    ∀ pre, hasSensitivePath (pre ++ fields) "invalid_arg" = arg →
      hasSensitivePath (pre ++ fields) "path" = path →
      ReflTransGen (Inside Hides) (.object (pre ++ fields))
        (.object (pre ++ fields.filterMap (redactField arg path))) := by
  induction fields with
  | nil => exact fun pre _ _ => .refl
  | cons field rest ihrest =>
      intro pre harg hpath
      obtain ⟨name, item⟩ := field
      have hrest := ihrest fun f hf => ih f (List.mem_cons_of_mem _ hf)
      have hwritten : ∀ item', hasSensitivePath (pre ++ (name, item') :: rest) "invalid_arg" = arg →
          hasSensitivePath (pre ++ (name, item') :: rest) "path" = path →
          ReflTransGen (Inside Hides) (.object (pre ++ (name, item') :: rest))
            (.object (pre ++ (name, item') :: rest.filterMap (redactField arg path))) := by
        intro item' harg hpath
        simpa using hrest (pre ++ [(name, item')]) (by simpa using harg) (by simpa using hpath)
      rw [List.filterMap_cons, redactField]
      split_ifs with hkey hreceived hmessage
      · have hne : ∀ other, sensitiveDiagnosticKey other = false → other ≠ name := by
          rintro other hother rfl
          simp [hother] at hkey
        exact .head (.here (.inl (.key pre rest name item hkey)))
          (hrest pre ((hasSensitivePath_append_cons_of_ne item (hne _ (by decide))).symm.trans harg)
            ((hasSensitivePath_append_cons_of_ne item (hne _ (by decide))).symm.trans hpath))
      · obtain ⟨rfl, rfl⟩ : arg = true ∧ name = "received" := by simpa using hreceived
        have hflag := (hasSensitivePath_append_cons_of_ne item (by decide)).symm.trans harg
        exact .head (.here (.inl (.received pre rest item hflag))) (hrest pre hflag
          ((hasSensitivePath_append_cons_of_ne item (by decide)).symm.trans hpath))
      · obtain ⟨hflags, rfl⟩ : (arg = true ∨ path = true) ∧ name = "message" := by
          simpa using hmessage
        have harg' := (hasSensitivePath_append_cons_of_ne item (by decide)).symm.trans harg
        have hpath' := (hasSensitivePath_append_cons_of_ne item (by decide)).symm.trans hpath
        refine .head (.here (.inl (.message pre rest item hiddenMessage ?_))) (hwritten _
          ((hasSensitivePath_append_cons_of_ne _ (by decide)).trans harg')
          ((hasSensitivePath_append_cons_of_ne _ (by decide)).trans hpath'))
        rwa [harg', hpath']
      · have hsame : item.string? = (redactSensitiveDiagnostic item).string? :=
          (string?_redact item).symm
        exact (reflTransGen_field pre rest name (ih _ List.mem_cons_self)).trans
          (hwritten _ ((hasSensitivePath_replace hsame).symm.trans harg)
            ((hasSensitivePath_replace hsame).symm.trans hpath))

/-- A value becomes its redaction by hidden changes. -/
lemma reflTransGen_redact (v : Json) :
    ReflTransGen (Inside Hides) v (redactSensitiveDiagnostic v) := by
  induction v using tree_induction with
  | array items ih =>
      rw [redact_array]
      exact reflTransGen_map ih
  | object fields ih =>
      have hfields : ReflTransGen (Inside Hides) (.object fields)
          (.object (fields.filterMap (redactField (hasSensitivePath fields "invalid_arg")
            (hasSensitivePath fields "path")))) := reflTransGen_fields ih [] rfl rfl
      rw [redact_object, noteReceived]
      split_ifs with harg
      · refine hfields.tail (.here (.inr (.note _ ?_)))
        rwa [hasSensitivePath_filterMap_redactField ⟨by decide, by decide, by decide⟩]
      · exact hfields
  | leaf v harray hobject => rw [redact_leaf harray hobject]

/-- The redaction hides tokens, the values received for a sensitive argument and the messages about
a sensitive field, and nothing else. -/
theorem redact_eq_iff {v w : Json} :
    redactSensitiveDiagnostic v = redactSensitiveDiagnostic w ↔ EqvGen (Inside Hides) v w := by
  have hredact : ∀ v, EqvGen (Inside Hides) v (redactSensitiveDiagnostic v) :=
    fun v => EqvGen.reflTransGen_le_eqvGen _ _ _ (reflTransGen_redact v)
  constructor
  · intro h
    exact (hredact v).trans _ _ _ (h ▸ (hredact w).symm)
  · intro h
    induction h with
    | rel v w h => exact redact_congr h
    | refl v => rfl
    | symm v w _ ih => exact ih.symm
    | trans u v w _ _ ih ih' => exact ih.trans ih'

end XdebugFst.Server
