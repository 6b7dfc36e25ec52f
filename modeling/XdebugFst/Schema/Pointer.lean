import XdebugFst.Server.Redaction

/-!
# The path of a validation issue

The schema validator reports an issue at a JSON pointer. `pointerToArgPath` turns the pointer into
the path that an error names, and the redaction of errors decides by this path what to hide.

The conversion drops some empty tokens of the pointer, writes numbers in brackets and puts dots
between the others. `sensitiveDiagnosticPath_pointerToArgPath` says that nothing is lost on the way:
the path is sensitive exactly when a token of the pointer is.
-/

namespace XdebugFst.Schema

open Lib Server

/-! ### Pointers -/

/-- A token in a pointer, as `child_pointer` writes it. -/
def escapeToken (token : List Char) : List Char :=
  token.flatMap fun c => if c = '~' then ['~', '0'] else if c = '/' then ['~', '1'] else [c]

/-- The text of a pointer. -/
def pointerText (tokens : List (List Char)) : List Char :=
  tokens.flatMap fun token => '/' :: escapeToken token

/-- The decoding of a token. -/
def decodeToken : List Char → List Char
  | '~' :: '0' :: rest => '~' :: decodeToken rest
  | '~' :: '1' :: rest => '/' :: decodeToken rest
  | c :: rest => c :: decodeToken rest
  | [] => []

/-- A token that is written in brackets. -/
def isIndex (token : List Char) : Bool :=
  !token.isEmpty && token.all fun c => '0' ≤ c && c ≤ '9'

/-- The path after one more token. -/
def addToken (out token : List Char) : List Char :=
  if isIndex token then out ++ '[' :: (token ++ [']'])
  else (if out.isEmpty then out else out ++ ['.']) ++ token

/-- Skip a slash. -/
def skipSlash : List Char → List Char
  | '/' :: rest => rest
  | rest => rest

lemma length_skipSlash_le (rest : List Char) : (skipSlash rest).length ≤ rest.length := by
  unfold skipSlash
  split <;> simp

/-- The loop of `pointer_to_arg_path`, from the rest of the pointer. -/
def argPathFrom (rest out : List Char) : List Char :=
  if rest = [] then out
  else
    let out := addToken out (decodeToken ((skipSlash rest).takeWhile (· ≠ '/')))
    match _h : (skipSlash rest).dropWhile (· ≠ '/') with
    | [] => out
    | _ :: next => argPathFrom next out
termination_by rest.length
decreasing_by
  have hdrop := (List.dropWhile_sublist (l := skipSlash rest) (· ≠ '/')).length_le
  have hskip := length_skipSlash_le rest
  rw [_h, List.length_cons] at hdrop
  omega

/-- `pointer_to_arg_path` -/
def pointerToArgPath (pointer : List Char) : String :=
  if pointer = [] then "$"
  else
    let out := argPathFrom pointer []
    if out = [] then "$" else String.ofList out

/-! ### Tokens -/

lemma decodeToken_cons {c : Char} (h : c ≠ '~') (rest : List Char) :
    decodeToken (c :: rest) = c :: decodeToken rest := by
  rw [decodeToken]
  · rintro _ rfl
    exact absurd rfl h
  · rintro _ rfl
    exact absurd rfl h

@[simp]
lemma decodeToken_escapeToken (token : List Char) : decodeToken (escapeToken token) = token := by
  induction token with
  | nil => rfl
  | cons c rest ih =>
      rw [escapeToken, List.flatMap_cons, ← escapeToken]
      split_ifs with htilde hslash
      · rw [htilde, List.cons_append, List.cons_append, List.nil_append, decodeToken, ih]
      · rw [hslash, List.cons_append, List.cons_append, List.nil_append, decodeToken, ih]
      · rw [List.cons_append, List.nil_append, decodeToken_cons htilde, ih]

lemma ne_slash_of_mem_escapeToken {token : List Char} {c : Char} (h : c ∈ escapeToken token) :
    c ≠ '/' := by
  obtain ⟨d, -, hd⟩ := List.mem_flatMap.1 h
  split_ifs at hd with htilde hslash
  · rcases List.mem_cons.1 hd with rfl | hd
    · decide
    · rw [List.mem_singleton.1 hd]
      decide
  · rcases List.mem_cons.1 hd with rfl | hd
    · decide
    · rw [List.mem_singleton.1 hd]
      decide
  · rw [List.mem_singleton.1 hd]
    exact hslash

lemma escapeToken_eq_nil {token : List Char} (h : escapeToken token = []) : token = [] := by
  rw [← decodeToken_escapeToken token, h, decodeToken]

lemma skipSlash_escapeToken {token : List Char} (h : escapeToken token ≠ []) (rest : List Char) :
    skipSlash (escapeToken token ++ rest) = escapeToken token ++ rest := by
  obtain ⟨c, cs, hc⟩ := List.exists_cons_of_ne_nil h
  have hmem : c ∈ escapeToken token := by simp [hc]
  have hne := ne_slash_of_mem_escapeToken hmem
  rw [hc, List.cons_append, skipSlash]
  rintro _ ⟨⟩
  exact hne rfl

/-! ### The loop reads the tokens -/

lemma dropWhile_token (token : List Char) (tokens : List (List Char)) :
    (escapeToken token ++ pointerText tokens).takeWhile (· ≠ '/') = escapeToken token ∧
      (escapeToken token ++ pointerText tokens).dropWhile (· ≠ '/') = pointerText tokens := by
  have hall : ∀ c ∈ escapeToken token, decide (c ≠ '/') = true :=
    fun c hc => decide_eq_true (ne_slash_of_mem_escapeToken hc)
  rw [List.takeWhile_append_of_pos hall, List.dropWhile_append_of_pos hall]
  cases tokens with
  | nil => simp [pointerText]
  | cons token' tokens => simp [pointerText]

/-- The last token of a pointer. -/
lemma argPathFrom_last {rest : List Char} {token : List Char} (hrest : rest ≠ [])
    (h : skipSlash rest = escapeToken token) (out : List Char) :
    argPathFrom rest out = addToken out token := by
  obtain ⟨htake, hdrop⟩ := dropWhile_token token []
  rw [pointerText, List.flatMap_nil, List.append_nil] at htake hdrop
  rw [argPathFrom, if_neg hrest, h, htake, decodeToken_escapeToken]
  split
  · rfl
  · rename_i heq
    rw [hdrop] at heq
    cases heq

/-- A token of a pointer before others. -/
lemma argPathFrom_next {rest : List Char} {token token' : List Char} {tokens : List (List Char)}
    (hrest : rest ≠ []) (h : skipSlash rest = escapeToken token ++ pointerText (token' :: tokens))
    (out : List Char) : argPathFrom rest out =
      argPathFrom (escapeToken token' ++ pointerText tokens) (addToken out token) := by
  obtain ⟨htake, hdrop⟩ := dropWhile_token token (token' :: tokens)
  rw [argPathFrom, if_neg hrest, h, htake, decodeToken_escapeToken]
  split
  · rename_i heq
    rw [hdrop, pointerText, List.flatMap_cons, List.cons_append] at heq
    cases heq
  · rename_i heq
    rw [hdrop, pointerText, List.flatMap_cons, List.cons_append, List.cons.injEq] at heq
    rw [← heq.2, ← pointerText]

/-! ### Sensitive paths -/

/-- `sensitiveDiagnosticPath` of the characters of a path. -/
def sensitive (path : List Char) : Bool := sensitiveDiagnosticPath (String.ofList path)

@[simp]
lemma sensitive_nil : sensitive [] = false := by decide

lemma sensitive_append_cons {separator : Char} (h : (separator.isAlphanum || separator = '_') = false)
    (path path' : List Char) :
    sensitive (path ++ separator :: path') = (sensitive path || sensitive path') := by
  simp only [sensitive, sensitiveDiagnosticPath, String.toList_ofList]
  rw [List.splitOnP_append_cons _ _ (by rw [h]; rfl), List.any_append]

lemma sensitive_addToken (out token : List Char) :
    sensitive (addToken out token) = (sensitive out || sensitive token) := by
  rw [addToken]
  split_ifs with hindex hempty
  · rw [sensitive_append_cons (by decide), sensitive_append_cons (by decide), sensitive_nil,
      Bool.or_false]
  · rw [List.isEmpty_iff.1 hempty, List.nil_append, sensitive_nil, Bool.false_or]
  · rw [List.append_assoc, List.singleton_append, sensitive_append_cons (by decide)]

lemma sensitive_argPathFrom (token : List Char) (tokens : List (List Char)) (out : List Char) :
    sensitive (argPathFrom (escapeToken token ++ pointerText tokens) out) =
      (sensitive out || (token :: tokens).any sensitive) := by
  induction hlength : tokens.length using Nat.strong_induction_on generalizing token tokens out with
  | _ n ih =>
  -- one round of the loop reads one token
  have hround : ∀ {rest first more}, rest ≠ [] → skipSlash rest = escapeToken first ++
      pointerText more → more.length ≤ n → sensitive (argPathFrom rest out) =
        (sensitive out || (first :: more).any sensitive) := by
    intro rest first more hrest hskip hmore
    cases more with
    | nil =>
        rw [pointerText, List.flatMap_nil, List.append_nil] at hskip
        simp [argPathFrom_last hrest hskip, sensitive_addToken]
    | cons next more =>
        rw [argPathFrom_next hrest hskip, ih more.length (by simpa using hmore) next more _ rfl,
          sensitive_addToken]
        simp [Bool.or_assoc]
  by_cases hempty : escapeToken token = []
  · obtain rfl := escapeToken_eq_nil hempty
    rw [hempty, List.nil_append, List.any_cons, sensitive_nil, Bool.false_or]
    cases tokens with
    | nil => simp [pointerText, argPathFrom]
    | cons next more =>
        have htext : pointerText (next :: more) = '/' :: (escapeToken next ++ pointerText more) := by
          simp [pointerText]
        rw [htext]
        exact hround (by simp) rfl (by simp at hlength; omega)
  · exact hround (by simp [hempty]) (skipSlash_escapeToken hempty _) hlength.le

/-- The path of an issue is sensitive exactly when a token of its pointer is. -/
theorem sensitiveDiagnosticPath_pointerToArgPath (tokens : List (List Char)) :
    sensitiveDiagnosticPath (pointerToArgPath (pointerText tokens)) =
      tokens.any fun token => sensitiveDiagnosticPath (String.ofList token) := by
  have hdollar : sensitiveDiagnosticPath "$" = false := by decide
  change _ = tokens.any sensitive
  cases tokens with
  | nil =>
      rw [pointerToArgPath, if_pos (show pointerText [] = [] from rfl), hdollar]
      rfl
  | cons token tokens =>
      have htext : pointerText (token :: tokens) =
          '/' :: (escapeToken token ++ pointerText tokens) := by simp [pointerText]
      have hpath : sensitive (argPathFrom (pointerText (token :: tokens)) []) =
          (token :: tokens).any sensitive := by
        rw [htext]
        cases tokens with
        | nil =>
            have hskip : skipSlash ('/' :: (escapeToken token ++ pointerText [])) =
                escapeToken token := by simp [skipSlash, pointerText]
            rw [argPathFrom_last (by simp) hskip, sensitive_addToken]
            simp
        | cons next more =>
            rw [argPathFrom_next (by simp) rfl, sensitive_argPathFrom, sensitive_addToken]
            simp
      rw [pointerToArgPath, if_neg (by simp [htext])]
      dsimp only
      split_ifs with hout
      · rw [hdollar, ← hpath, hout, sensitive_nil]
      · exact hpath

/-- An entry of `validation_issues`. -/
def issueEntry (pointer : List Char) (message : String) : Json :=
  let path := pointerToArgPath pointer
  .object [("path", .string path),
    ("message", if sensitiveDiagnosticPath path then hiddenMessage else .string message)]

/-- The entry of an issue below a sensitive field does not have its message. -/
theorem issueEntry_hidden {tokens : List (List Char)}
    (h : ∃ token ∈ tokens, sensitiveDiagnosticPath (String.ofList token) = true)
    (message message' : String) :
    issueEntry (pointerText tokens) message = issueEntry (pointerText tokens) message' := by
  have hpath : sensitiveDiagnosticPath (pointerToArgPath (pointerText tokens)) = true := by
    rw [sensitiveDiagnosticPath_pointerToArgPath]
    simpa using h
  simp only [issueEntry, hpath, if_true]

end XdebugFst.Schema
