import XdebugFst.Expr.Atoms
import XdebugFst.Stream.Scan

/-!
# Concatenations in field expressions

A field of a stream is an expression, or a concatenation of such in braces, which may be nested.
`evaluate_field_expression` splits the text between the braces at the commas that are not inside
square brackets, and evaluates the parts. It does not look at inner braces: a part that is itself a
concatenation of two or more parts is cut at its commas, and its first piece, with more opening than
closing braces, cannot be evaluated. Braces around a single part do no harm.

So a concatenation has the bits of its parts exactly if none of them is cut, or if one of them fails
anyway: `meansConcatenation_iff`.
-/

namespace XdebugFst.Stream

open Lib Waveform XdebugFst.Expr

/-! ### Field expressions -/

/-- The depth of square brackets after a text, if it has no comma outside of them. -/
def scanDepth : ℤ → List Char → Option ℤ
  | depth, [] => some depth
  | depth, c :: rest =>
      let depth := if c = '[' then depth + 1 else if c = ']' then depth - 1 else depth
      if c = ',' ∧ depth = 0 then none else scanDepth depth rest

/-- The text of an expression without concatenations. Its square brackets are closed, and its commas
are inside of them. -/
structure Component where
  text : List Char
  noBrace : ∀ c ∈ text, c ≠ '\x7b' ∧ c ≠ '\x7d'
  closed : scanDepth 0 text = some 0

/-- Blanks, which may stand around braces. -/
structure Blanks where
  text : List Char
  blank : ∀ c ∈ text, c = ' ' ∨ c = '\t'

/-- A component, or a concatenation of at least one part. -/
inductive FieldExpr
  | component (c : Component)
  | concat (before : Blanks) (first : FieldExpr) (rest : List FieldExpr) (after : Blanks)

namespace FieldExpr

mutual

/-- The text of a field expression. -/
def text : FieldExpr → List Char
  | component c => c.text
  | concat before first rest after =>
      before.text ++ '\x7b' :: (text first ++ restText rest) ++ '\x7d' :: after.text

/-- The further parts, each with the comma before it. -/
def restText : List FieldExpr → List Char
  | [] => []
  | part :: rest => ',' :: text part ++ restText rest

end

mutual

/-- The components, from left to right. -/
def components : FieldExpr → List Component
  | component c => [c]
  | concat _ first rest _ => components first ++ restComponents rest

def restComponents : List FieldExpr → List Component
  | [] => []
  | part :: rest => components part ++ restComponents rest

end

/-- A component, possibly in braces. -/
def isSingle : FieldExpr → Bool
  | component _ => true
  | concat _ first [] _ => isSingle first
  | concat _ _ (_ :: _) _ => false

/-- No part of the expression is a concatenation of several components. -/
def isFlat : FieldExpr → Bool
  | component _ => true
  | concat _ first rest _ => (first :: rest).all isSingle

end FieldExpr

section Evaluate

variable (wf : Backend) (cfg : StreamConfig) (ti : ℕ) (point : ObservationPoint)

/-- `evaluate_field_expression` on a text. -/
def evaluate (text : List Char) : Option LogicValue :=
  evaluateFieldExpression wf cfg ti point (text.length + 1) text

/-- The value of a component. -/
def Component.value (c : Component) : Option LogicValue :=
  if trimBlanks c.text = [] then none else plainValue wf cfg ti point (trimBlanks c.text)

/-- All components of the expression have values. -/
def FieldExpr.HasValues (e : FieldExpr) : Prop :=
  ∀ c ∈ e.components, (c.value wf cfg ti point).isSome = true

/-- The text means the concatenation of the parts. -/
structure MeansConcatenation (text : List Char) (parts : List FieldExpr) : Prop where
  succeeds : (evaluate wf cfg ti point text).isSome = true ↔
    ∀ part ∈ parts, (evaluate wf cfg ti point part.text).isSome = true
  bits : ∀ value values, evaluate wf cfg ti point text = some value →
    (parts.mapM fun part => evaluate wf cfg ti point part.text) = some values →
      value.bits = String.join (values.map LogicValue.bits)

end Evaluate

/-! ### Splitting -/

lemma scanDepth_append (depth : ℤ) (u v : List Char) :
    scanDepth depth (u ++ v) = (scanDepth depth u).bind fun d => scanDepth d v := by
  induction u generalizing depth with
  | nil => rfl
  | cons c u ih =>
      rw [List.cons_append, scanDepth, scanDepth]
      generalize (if c = '[' then depth + 1 else if c = ']' then depth - 1 else depth) = depth
      split_ifs with hc
      · rfl
      · exact ih depth

/-- A text without a comma outside of brackets goes on with the part that is open. -/
lemma splitParts_append {depth depth' : ℤ} {u : List Char} (h : scanDepth depth u = some depth')
    (part rest : List Char) :
    splitParts depth part (u ++ rest) = splitParts depth' (part ++ u) rest := by
  induction u generalizing depth part with
  | nil =>
      rw [scanDepth, Option.some.injEq] at h
      rw [h, List.nil_append, List.append_nil]
  | cons c u ih =>
      rw [scanDepth] at h
      rw [List.cons_append, splitParts]
      revert h
      generalize (if c = '[' then depth + 1 else if c = ']' then depth - 1 else depth) = depth
      intro h
      split_ifs at h ⊢ with hc
      rw [ih h, List.append_assoc, List.singleton_append]

lemma splitParts_comma (part rest : List Char) :
    splitParts 0 part (',' :: rest) = part :: splitParts 0 [] rest := by
  rw [splitParts]
  simp

lemma splitParts_nil (part : List Char) : splitParts 0 part [] = [part] := rfl

lemma length_le_of_mem_splitParts {depth : ℤ} {part rest p : List Char}
    (h : p ∈ splitParts depth part rest) : p.length ≤ part.length + rest.length := by
  induction rest generalizing depth part with
  | nil =>
      rw [splitParts, List.mem_singleton] at h
      rw [h, List.length_nil, Nat.add_zero]
  | cons c rest ih =>
      rw [splitParts] at h
      -- the depth decides where the text is cut, not how long the pieces are
      revert h
      generalize (if c = '[' then depth + 1 else if c = ']' then depth - 1 else depth) = depth
      intro h
      split_ifs at h with hc
      · rcases List.mem_cons.1 h with rfl | h
        · omega
        · have hle := ih h
          rw [List.length_nil] at hle
          rw [List.length_cons]
          omega
      · have hle := ih h
        rw [List.length_append, List.length_singleton] at hle
        rw [List.length_cons]
        omega

/-! ### Trimming -/

lemma dropWhile_blanks {p : Char → Bool} {b : List Char} (h : ∀ c ∈ b, p c = true) (text : List Char) :
    (b ++ text).dropWhile p = text.dropWhile p := by
  rw [List.dropWhile_append, List.dropWhile_eq_nil_iff.2 h]
  rfl

lemma Blanks.isBlank (b : Blanks) : ∀ c ∈ b.text, (c = ' ' || c = '\t') = true := by
  intro c hc
  simpa using b.blank c hc

/-- A text in braces is trimmed to its braces. -/
lemma trimBlanks_braces (before after : Blanks) (inner : List Char) :
    trimBlanks (before.text ++ '\x7b' :: inner ++ '\x7d' :: after.text) =
      '\x7b' :: inner ++ ['\x7d'] := by
  have hreverse : ∀ c ∈ after.text.reverse, (c = ' ' || c = '\t') = true := by
    intro c hc
    exact after.isBlank c (List.mem_reverse.1 hc)
  rw [trimBlanks, List.append_assoc, dropWhile_blanks before.isBlank, List.cons_append,
    List.dropWhile_cons_of_neg (by decide), ← List.cons_append, List.reverse_append,
    List.reverse_cons (a := '\x7d'), List.append_assoc, dropWhile_blanks hreverse,
    List.singleton_append, List.dropWhile_cons_of_neg (by decide), List.reverse_cons,
    List.reverse_reverse]

/-- A text with a brace in front keeps it. -/
lemma trimBlanks_brace (before : Blanks) (rest : List Char) :
    ∃ rest', trimBlanks (before.text ++ '\x7b' :: rest) = '\x7b' :: rest' ∧
      ∀ c ∈ rest', c ∈ rest := by
  rw [trimBlanks, dropWhile_blanks before.isBlank, List.dropWhile_cons_of_neg (by decide),
    List.reverse_cons, List.dropWhile_append]
  split_ifs with hempty
  · refine ⟨[], ?_, by simp⟩
    rw [List.dropWhile_cons_of_neg (by decide)]
    rfl
  · refine ⟨(rest.reverse.dropWhile fun c => c = ' ' || c = '\t').reverse, ?_, fun c hc => ?_⟩
    · rw [List.reverse_append]
      rfl
    · have hmem := (List.dropWhile_sublist _).subset (List.mem_reverse.1 hc)
      exact List.mem_reverse.1 hmem

lemma length_trimBlanks_le (text : List Char) : (trimBlanks text).length ≤ text.length := by
  rw [trimBlanks, List.length_reverse]
  refine (List.dropWhile_sublist _).length_le.trans ?_
  rw [List.length_reverse]
  exact (List.dropWhile_sublist _).length_le

/-! ### The evaluation -/

section

variable {wf : Backend} {cfg : StreamConfig} {ti : ℕ} {point : ObservationPoint}

/-- Enough fuel is enough. -/
lemma evaluateFieldExpression_fuel {fuel fuel' : ℕ} {text : List Char} (h : text.length < fuel)
    (h' : text.length < fuel') :
    evaluateFieldExpression wf cfg ti point fuel text =
      evaluateFieldExpression wf cfg ti point fuel' text := by
  induction fuel generalizing fuel' text with
  | zero => exact absurd h (Nat.not_lt_zero _)
  | succ fuel ih =>
      obtain ⟨fuel', rfl⟩ := Nat.exists_eq_succ_of_ne_zero (Nat.ne_zero_of_lt h')
      rw [evaluateFieldExpression, evaluateFieldExpression]
      have htrim := length_trimBlanks_le text
      split_ifs with hempty hbraces
      · rfl
      · dsimp only
        rw [mapM_congr fun part hpart => ?_]
        have hpart := length_le_of_mem_splitParts hpart
        rw [List.length_nil, List.length_dropLast, List.length_drop] at hpart
        have hpos := List.length_pos_iff.2 hempty
        exact ih (by omega) (by omega)
      · rfl

/-- A text in braces that splits into parts is evaluated part by part. -/
lemma evaluate_braces (before after : Blanks) {inner : List Char} {parts : List (List Char)}
    (h : splitParts 0 [] inner = parts) :
    evaluate wf cfg ti point (before.text ++ '\x7b' :: inner ++ '\x7d' :: after.text) =
      (parts.mapM (evaluate wf cfg ti point)).map fun values =>
        logicValueFromBits (String.join (values.map LogicValue.bits))
          (String.join (values.map LogicValue.bits)).length := by
  rw [evaluate, evaluateFieldExpression, trimBlanks_braces]
  have hhead : ('\x7b' :: inner ++ ['\x7d']).head? = some '\x7b' := rfl
  have hlast : ('\x7b' :: inner ++ ['\x7d']).getLast? = some '\x7d' := List.getLast?_concat ..
  have hinner : (('\x7b' :: inner ++ ['\x7d']).drop 1).dropLast = inner := by
    rw [List.cons_append, List.drop_one, List.tail_cons, List.dropLast_concat]
  rw [if_neg (by simp), if_pos ⟨hhead, hlast⟩, hinner]
  dsimp only
  rw [h, mapM_congr fun part hpart => ?_]
  rw [← h] at hpart
  have hlength := length_le_of_mem_splitParts hpart
  rw [List.length_nil, Nat.zero_add] at hlength
  refine evaluateFieldExpression_fuel ?_ (Nat.lt_succ_self _)
  simp only [List.length_append, List.length_cons]
  omega

/-- No operand starts with a brace. -/
lemma parsePrimary_brace (fuel : ℕ) (rest : List Char) :
    ∃ error, parsePrimary (fuel + 1) ('\x7b' :: rest) = .error error := by
  have hskip : skipWs ('\x7b' :: rest) = '\x7b' :: rest := skipWs_cons (by decide) rest
  have hdecimal : ∃ error, parseDecimal ('\x7b' :: rest) = .error error := ⟨_, rfl⟩
  have hwidth : (('\x7b' :: rest).takeWhile (· ≠ '\'')).all Char.isDigit = false := by
    rw [List.takeWhile_cons_of_pos (by decide)]
    rfl
  have hprimary : parsePrimary (fuel + 1) ('\x7b' :: rest) = parseConst ('\x7b' :: rest) := by
    rw [parsePrimary, hskip]
    rfl
  rw [hprimary, parseConst, hskip]
  split
  · exact hdecimal
  · rw [if_neg (by rw [hwidth]; simp)]
    exact hdecimal

lemma parseOperands_of_error {operator : List Char → Option (BinaryOp × List Char)}
    {operand : List Char → ParseResult} {text : List Char}
    (h : ∃ error, operand text = .error error) :
    ∃ error, parseOperands operator operand text = .error error := by
  obtain ⟨error, h⟩ := h
  exact ⟨error, by rw [parseOperands, h]⟩

lemma parseExpression_brace (rest : List Char) :
    ∃ message, parseExpression (String.ofList ('\x7b' :: rest)) = .error message := by
  have hlogical : ∃ error, parseLogical ('\x7b' :: rest) = .error error := by
    rw [parseLogical, parseLogicalOver]
    iterate 9 apply parseOperands_of_error
    exact parsePrimary_brace _ rest
  obtain ⟨error, hlogical⟩ := hlogical
  delta parseExpression
  rw [String.toList_ofList, hlogical]
  exact ⟨_, rfl⟩

/-- A text with a brace in front that no brace closes has no value. -/
lemma plainValue_brace (rest : List Char) : plainValue wf cfg ti point ('\x7b' :: rest) = none := by
  have hresolve : resolveFieldExpression cfg.signals none ('\x7b' :: rest) =
      '\x7b' :: resolveFieldExpression cfg.signals none rest := by
    rw [resolveFieldExpression, if_neg (by decide)]
  obtain ⟨message, hmessage⟩ :=
    parseExpression_brace (resolveFieldExpression cfg.signals none rest)
  delta plainValue
  rw [hresolve, hmessage]

lemma evaluate_component (c : Component) :
    evaluate wf cfg ti point c.text = c.value wf cfg ti point := by
  have hhead : (trimBlanks c.text).head? ≠ some '\x7b' := by
    intro hhead
    have hmem : '\x7b' ∈ trimBlanks c.text := List.mem_of_head? hhead
    rw [trimBlanks, List.mem_reverse] at hmem
    have hmem' := List.mem_reverse.1 ((List.dropWhile_sublist _).subset hmem)
    exact (c.noBrace _ ((List.dropWhile_sublist _).subset hmem')).1 rfl
  rw [evaluate, evaluateFieldExpression, Component.value]
  split_ifs with hempty hbraces
  · rfl
  · exact absurd hbraces.1 hhead
  · rfl

/-! ### Braces around a component -/

/-- Opening braces, each with the blanks before it. -/
def openText (opens : List Blanks) : List Char := opens.flatMap fun b => b.text ++ ['\x7b']

/-- Closing braces, each with the blanks after it. -/
def closeText (closes : List Blanks) : List Char := closes.flatMap fun b => '\x7d' :: b.text

/-- A component between opening and closing braces. -/
def braced (opens : List Blanks) (c : Component) (closes : List Blanks) : List Char :=
  openText opens ++ c.text ++ closeText closes

lemma scanDepth_of_neutral {depth : ℤ} {u : List Char} (h : ∀ c ∈ u, c ≠ '[' ∧ c ≠ ']' ∧ c ≠ ',') :
    scanDepth depth u = some depth := by
  induction u generalizing depth with
  | nil => rfl
  | cons c u ih =>
      obtain ⟨hopen, hclose, hcomma⟩ := h c List.mem_cons_self
      rw [scanDepth, if_neg fun hc => hcomma hc.1, if_neg hopen, if_neg hclose]
      exact ih fun d hd => h d (List.mem_cons_of_mem c hd)

lemma Blanks.neutral (b : Blanks) : ∀ c ∈ b.text, c ≠ '[' ∧ c ≠ ']' ∧ c ≠ ',' := by
  intro c hc
  rcases b.blank c hc with rfl | rfl <;> decide

lemma openText_neutral (opens : List Blanks) :
    ∀ c ∈ openText opens, c ≠ '[' ∧ c ≠ ']' ∧ c ≠ ',' := by
  intro c hc
  obtain ⟨b, -, hc⟩ := List.mem_flatMap.1 hc
  rcases List.mem_append.1 hc with hc | hc
  · exact b.neutral c hc
  · rw [List.mem_singleton.1 hc]
    decide

lemma closeText_neutral (closes : List Blanks) :
    ∀ c ∈ closeText closes, c ≠ '[' ∧ c ≠ ']' ∧ c ≠ ',' := by
  intro c hc
  obtain ⟨b, -, hc⟩ := List.mem_flatMap.1 hc
  rcases List.mem_cons.1 hc with rfl | hc
  · decide
  · exact b.neutral c hc

/-- A component in braces is not split. -/
lemma scanDepth_braced (opens : List Blanks) (c : Component) (closes : List Blanks) :
    scanDepth 0 (braced opens c closes) = some 0 := by
  rw [braced, scanDepth_append, scanDepth_append, scanDepth_of_neutral (openText_neutral opens),
    Option.bind_some, c.closed, Option.bind_some, scanDepth_of_neutral (closeText_neutral closes)]

/-- The outermost braces. -/
lemma braced_cons_concat (b a : Blanks) (opens : List Blanks) (c : Component) (closes : List Blanks) :
    braced (b :: opens) c (closes ++ [a]) =
      b.text ++ '\x7b' :: braced opens c closes ++ '\x7d' :: a.text := by
  simp [braced, openText, closeText]

lemma braced_cons (b : Blanks) (opens : List Blanks) (c : Component) (closes : List Blanks) :
    braced (b :: opens) c closes = b.text ++ '\x7b' :: braced opens c closes := by
  simp [braced, openText]

lemma not_mem_braced_nil (opens : List Blanks) (c : Component) :
    '\x7d' ∉ braced opens c [] := by
  intro hmem
  rw [braced, closeText, List.flatMap_nil, List.append_nil] at hmem
  rcases List.mem_append.1 hmem with hmem | hmem
  · obtain ⟨b, -, hmem⟩ := List.mem_flatMap.1 hmem
    rcases List.mem_append.1 hmem with hmem | hmem
    · rcases b.blank _ hmem with hblank | hblank
      · exact absurd hblank (by decide)
      · exact absurd hblank (by decide)
    · exact absurd (List.mem_singleton.1 hmem) (by decide)
  · exact (c.noBrace _ hmem).2 rfl

/-- Opening braces that are not closed cannot be evaluated. -/
lemma evaluate_unclosed {opens closes : List Blanks} (c : Component)
    (h : closes.length < opens.length) :
    evaluate wf cfg ti point (braced opens c closes) = none := by
  induction opens generalizing closes with
  | nil => exact absurd h (Nat.not_lt_zero _)
  | cons b opens ih =>
      rcases List.eq_nil_or_concat closes with rfl | ⟨closes, a, rfl⟩
      · -- no brace is closed, so the text is parsed from the first of them on
        rw [braced_cons, evaluate, evaluateFieldExpression]
        obtain ⟨rest, htrim, hrest⟩ := trimBlanks_brace b (braced opens c [])
        have hlast : ('\x7b' :: rest).getLast? ≠ some '\x7d' := by
          intro hlast
          rcases List.mem_cons.1 (List.mem_of_getLast? hlast) with hbrace | hmem
          · exact absurd hbrace (by decide)
          · exact not_mem_braced_nil opens c (hrest _ hmem)
        rw [htrim, if_neg (List.cons_ne_nil _ _), if_neg fun hbraces => hlast hbraces.2,
          plainValue_brace]
      · -- the outermost braces are taken off
        have hlt : closes.length < opens.length := by
          rw [List.length_concat, List.length_cons] at h
          omega
        have hsplit : splitParts 0 [] (braced opens c closes) = [braced opens c closes] := by
          have happend := splitParts_append (scanDepth_braced opens c closes) [] []
          rwa [List.append_nil, List.nil_append, splitParts_nil] at happend
        rw [List.concat_eq_append, braced_cons_concat, evaluate_braces b a hsplit, List.mapM_cons,
          ih hlt]
        rfl

end

/-! ### Parts -/

namespace FieldExpr

lemma text_concat (before after : Blanks) (first : FieldExpr) (rest : List FieldExpr) :
    (concat before first rest after).text =
      before.text ++ '\x7b' :: (first.text ++ restText rest) ++ '\x7d' :: after.text := by
  rw [text]

/-- A single part is a component in as many opening as closing braces. -/
lemma exists_braced : ∀ {e : FieldExpr}, e.isSingle = true →
    ∃ opens c closes, e.text = braced opens c closes ∧ opens.length = closes.length
  | component c, _ => ⟨[], c, [], by rw [text]; simp [braced, openText, closeText], rfl⟩
  | concat before first [] after, h => by
      obtain ⟨opens, c, closes, htext, hlength⟩ := exists_braced (e := first) h
      refine ⟨before :: opens, c, closes ++ [after], ?_, by simp [hlength]⟩
      rw [braced_cons_concat, ← htext, text_concat, restText, List.append_nil]

/-- A single part is not split. -/
lemma splitParts_single {e : FieldExpr} (h : e.isSingle = true) (part rest : List Char) :
    splitParts 0 part (e.text ++ rest) = splitParts 0 (part ++ e.text) rest := by
  obtain ⟨opens, c, closes, htext, -⟩ := exists_braced h
  rw [htext]
  exact splitParts_append (scanDepth_braced opens c closes) part rest

/-- A concatenation of several components is cut, and its first piece has unclosed braces. -/
lemma splitParts_not_single : ∀ {e : FieldExpr}, e.isSingle = false → ∀ part rest : List Char,
    ∃ opens c closes pieces, closes.length < opens.length ∧
      splitParts 0 part (e.text ++ rest) = (part ++ braced opens c closes) :: pieces
  | component _, h, _, _ => by cases h
  | concat before first others after, h, part, rest => by
      -- the depth counts brackets only, so that an opening brace changes nothing
      have hneutral : scanDepth 0 (before.text ++ ['\x7b']) = some 0 := by
        have hopen := openText_neutral [before]
        simp only [openText, List.flatMap_cons, List.flatMap_nil, List.append_nil] at hopen
        exact scanDepth_of_neutral hopen
      have htext : (concat before first others after).text ++ rest =
          (before.text ++ ['\x7b']) ++
            (first.text ++ (restText others ++ '\x7d' :: after.text ++ rest)) := by
        rw [text_concat]
        simp
      rw [htext, splitParts_append hneutral]
      cases hfirst : first.isSingle with
      | false =>
          -- the cut is inside the first part
          obtain ⟨opens, c, closes, pieces, hlt, hsplit⟩ := splitParts_not_single hfirst
            (part ++ (before.text ++ ['\x7b'])) (restText others ++ '\x7d' :: after.text ++ rest)
          refine ⟨before :: opens, c, closes, pieces, by rw [List.length_cons]; omega, ?_⟩
          rw [hsplit, braced_cons]
          simp
      | true =>
          obtain ⟨opens, c, closes, hbraced, hlength⟩ := exists_braced hfirst
          cases others with
          | nil =>
              rw [isSingle, hfirst] at h
              cases h
          | cons other others =>
              -- the cut is at the comma behind the first part
              have hcomma : restText (other :: others) ++ '\x7d' :: after.text ++ rest =
                  ',' :: (other.text ++ (restText others ++ '\x7d' :: after.text ++ rest)) := by
                rw [restText]
                simp
              rw [splitParts_single hfirst, hcomma, splitParts_comma, hbraced]
              refine ⟨before :: opens, c, closes,
                splitParts 0 [] (other.text ++ (restText others ++ '\x7d' :: after.text ++ rest)),
                by rw [List.length_cons]; omega, ?_⟩
              rw [braced_cons]
              simp

/-- Single parts are the parts of the split. -/
lemma splitParts_restText {rest : List FieldExpr} (h : ∀ part ∈ rest, part.isSingle = true)
    (part : List Char) : splitParts 0 part (restText rest) = part :: rest.map text := by
  induction rest generalizing part with
  | nil => rw [restText]; rfl
  | cons e rest ih =>
      rw [restText, List.cons_append, splitParts_comma, splitParts_single (h e List.mem_cons_self),
        List.nil_append, ih fun e' he' => h e' (List.mem_cons_of_mem e he'), List.map_cons]

/-- A part of several components leaves a piece with unclosed braces. -/
lemma exists_unclosed {first : FieldExpr} {rest : List FieldExpr}
    (h : ∃ part ∈ first :: rest, part.isSingle = false) :
    ∃ opens c closes, closes.length < opens.length ∧
      braced opens c closes ∈ splitParts 0 [] (first.text ++ restText rest) := by
  induction rest generalizing first with
  | nil =>
      obtain ⟨part, hpart, hsingle⟩ := h
      rw [List.mem_singleton.1 hpart] at hsingle
      obtain ⟨opens, c, closes, pieces, hlt, hsplit⟩ := splitParts_not_single hsingle [] (restText [])
      exact ⟨opens, c, closes, hlt, by rw [hsplit]; exact List.mem_cons_self⟩
  | cons e rest ih =>
      cases hfirst : first.isSingle with
      | false =>
          obtain ⟨opens, c, closes, pieces, hlt, hsplit⟩ :=
            splitParts_not_single hfirst [] (restText (e :: rest))
          exact ⟨opens, c, closes, hlt, by rw [hsplit]; exact List.mem_cons_self⟩
      | true =>
          obtain ⟨part, hpart, hsingle⟩ := h
          rcases List.mem_cons.1 hpart with rfl | hpart
          · rw [hfirst] at hsingle
            cases hsingle
          · obtain ⟨opens, c, closes, hlt, hmem⟩ := ih ⟨part, hpart, hsingle⟩
            refine ⟨opens, c, closes, hlt, ?_⟩
            rw [splitParts_single hfirst, restText, List.cons_append, splitParts_comma]
            exact List.mem_cons_of_mem _ hmem

end FieldExpr

/-! ### What is evaluated -/

section

variable {wf : Backend} {cfg : StreamConfig} {ti : ℕ} {point : ObservationPoint}
  {before after : Blanks} {first : FieldExpr} {rest : List FieldExpr}

/-- A flat concatenation is evaluated part by part. -/
lemma evaluate_flat (h : ∀ part ∈ first :: rest, part.isSingle = true) :
    evaluate wf cfg ti point (FieldExpr.concat before first rest after).text =
      ((first :: rest).mapM fun part => evaluate wf cfg ti point part.text).map fun values =>
        logicValueFromBits (String.join (values.map LogicValue.bits))
          (String.join (values.map LogicValue.bits)).length := by
  have hsplit : splitParts 0 [] (first.text ++ FieldExpr.restText rest) =
      (first :: rest).map FieldExpr.text := by
    rw [FieldExpr.splitParts_single (h first List.mem_cons_self),
      FieldExpr.splitParts_restText fun part hpart => h part (List.mem_cons_of_mem first hpart)]
    rfl
  rw [FieldExpr.text_concat, evaluate_braces before after hsplit, List.mapM_map]
  rfl

/-- A concatenation with a part of several components cannot be evaluated. -/
lemma evaluate_not_flat {part : FieldExpr} (hpart : part ∈ first :: rest)
    (h : part.isSingle = false) :
    evaluate wf cfg ti point (FieldExpr.concat before first rest after).text = none := by
  obtain ⟨opens, c, closes, hlt, hmem⟩ := FieldExpr.exists_unclosed ⟨part, hpart, h⟩
  rw [FieldExpr.text_concat, evaluate_braces before after rfl, Option.map_eq_none_iff,
    ← Option.not_isSome_iff_eq_none, isSome_mapM]
  intro hall
  have hsome := hall _ hmem
  rw [evaluate_unclosed c hlt] at hsome
  cases hsome

lemma hasValues_component (c : Component) : (FieldExpr.component c).HasValues wf cfg ti point ↔
    (c.value wf cfg ti point).isSome = true := by
  rw [FieldExpr.HasValues, FieldExpr.components, List.forall_mem_singleton]

lemma mem_restComponents {c : Component} :
    c ∈ FieldExpr.restComponents rest ↔ ∃ part ∈ rest, c ∈ part.components := by
  induction rest with
  | nil => rw [FieldExpr.restComponents]; simp
  | cons part rest ih =>
      rw [FieldExpr.restComponents, List.mem_append, ih]
      simp

lemma hasValues_concat :
    (FieldExpr.concat before first rest after).HasValues wf cfg ti point ↔
      ∀ part ∈ first :: rest, part.HasValues wf cfg ti point := by
  simp only [FieldExpr.HasValues, FieldExpr.components, List.mem_append, mem_restComponents,
    List.mem_cons]
  constructor
  · rintro h part (rfl | hpart) c hc
    · exact h c (.inl hc)
    · exact h c (.inr ⟨part, hpart, hc⟩)
  · rintro h c (hc | ⟨part, hpart, hc⟩)
    · exact h first (.inl rfl) c hc
    · exact h part (.inr hpart) c hc

/-- Single parts are evaluated exactly if their components are. -/
lemma isSome_evaluate_single : ∀ {e : FieldExpr}, e.isSingle = true →
    ((evaluate wf cfg ti point e.text).isSome = true ↔ e.HasValues wf cfg ti point)
  | .component c, _ => by
      rw [FieldExpr.text, evaluate_component, hasValues_component]
  | .concat before first [] after, h => by
      have hfirst : ∀ part ∈ [first], part.isSingle = true := by
        intro part hpart
        rw [List.mem_singleton.1 hpart]
        exact h
      rw [evaluate_flat hfirst, Option.isSome_map, isSome_mapM, hasValues_concat,
        List.forall_mem_singleton, List.forall_mem_singleton]
      exact isSome_evaluate_single h

/-- What can be evaluated: flat expressions whose components can be. -/
lemma isSome_evaluate_iff (e : FieldExpr) : (evaluate wf cfg ti point e.text).isSome = true ↔
    e.isFlat = true ∧ e.HasValues wf cfg ti point := by
  cases e with
  | component c =>
      rw [isSome_evaluate_single rfl]
      exact (and_iff_right rfl).symm
  | concat before first rest after =>
      by_cases hflat : ∀ part ∈ first :: rest, part.isSingle = true
      · have hparts : ∀ part ∈ first :: rest,
            ((evaluate wf cfg ti point part.text).isSome = true ↔ part.HasValues wf cfg ti point) :=
          fun part hpart => isSome_evaluate_single (hflat part hpart)
        rw [evaluate_flat hflat, Option.isSome_map, isSome_mapM, hasValues_concat,
          FieldExpr.isFlat, List.all_eq_true, and_iff_right hflat]
        exact forall₂_congr hparts
      · rw [FieldExpr.isFlat, List.all_eq_true, iff_false_right fun h => hflat h.1]
        obtain ⟨part, hpart, hsingle⟩ := not_forall₂.1 hflat
        rw [evaluate_not_flat hpart (Bool.eq_false_of_not_eq_true hsingle)]
        exact Bool.false_ne_true

/-- A concatenation has the bits of its parts exactly if none of its parts is a concatenation of
several components, or if one of them cannot be evaluated, since a component has no value or since
it has itself such a part. -/
theorem meansConcatenation_iff (wf : Backend) (cfg : StreamConfig) (ti : ℕ)
    (point : ObservationPoint) (before : Blanks) (first : FieldExpr) (rest : List FieldExpr)
    (after : Blanks) :
    MeansConcatenation wf cfg ti point (FieldExpr.concat before first rest after).text
        (first :: rest) ↔
      (∀ part ∈ first :: rest, part.isSingle = true) ∨
        ∃ part ∈ first :: rest, part.isFlat = true → ¬ part.HasValues wf cfg ti point := by
  by_cases hflat : ∀ part ∈ first :: rest, part.isSingle = true
  · -- the parts are the pieces of the split
    refine iff_of_true ⟨?_, fun value values hvalue hvalues => ?_⟩ (Or.inl hflat)
    · rw [evaluate_flat hflat, Option.isSome_map, isSome_mapM]
    · rw [evaluate_flat hflat, hvalues, Option.map_some, Option.some.injEq] at hvalue
      rw [← hvalue]
      rfl
  · -- a piece has unclosed braces, so that nothing is evaluated
    obtain ⟨part, hpart, hsingle⟩ := not_forall₂.1 hflat
    have hnone : evaluate wf cfg ti point (FieldExpr.concat before first rest after).text = none :=
      evaluate_not_flat hpart (Bool.eq_false_of_not_eq_true hsingle)
    have hfails : (∃ part ∈ first :: rest, part.isFlat = true → ¬ part.HasValues wf cfg ti point) ↔
        ¬ ∀ part ∈ first :: rest, (evaluate wf cfg ti point part.text).isSome = true := by
      simp only [isSome_evaluate_iff, not_forall, not_and, exists_prop]
    rw [or_iff_right hflat, hfails]
    constructor
    · intro h hall
      have hsome := h.succeeds.2 hall
      rw [hnone] at hsome
      cases hsome
    · intro h
      refine ⟨iff_of_false ?_ h, fun value values hvalue => ?_⟩
      · rw [hnone]
        exact Bool.false_ne_true
      · rw [hnone] at hvalue
        cases hvalue

end

/-! ### A nested concatenation -/

lemma noBrace_of_isAlpha {name : List Char} (h : ∀ c ∈ name, c.isAlpha = true) :
    ∀ c ∈ name, c ≠ '\x7b' ∧ c ≠ '\x7d' := by
  intro c hc
  have halpha := h c hc
  constructor
  · rintro rfl
    exact absurd halpha (by decide)
  · rintro rfl
    exact absurd halpha (by decide)

lemma scanDepth_of_isAlpha {name : List Char} (h : ∀ c ∈ name, c.isAlpha = true) :
    scanDepth 0 name = some 0 := by
  refine scanDepth_of_neutral fun c hc => ?_
  have halpha := h c hc
  refine ⟨?_, ?_, ?_⟩
  all_goals
    rintro rfl
    exact absurd halpha (by decide)

/-- A name is a component. -/
def nameComponent (name : List Char) (h : ∀ c ∈ name, c.isAlpha = true) : Component :=
  ⟨name, noBrace_of_isAlpha h, scanDepth_of_isAlpha h⟩

lemma isAlpha_a : ∀ c ∈ ['a'], c.isAlpha = true := List.forall_mem_singleton.2 (by decide)

lemma isAlpha_b : ∀ c ∈ ['b'], c.isAlpha = true := List.forall_mem_singleton.2 (by decide)

lemma isAlpha_c : ∀ c ∈ ['c'], c.isAlpha = true := List.forall_mem_singleton.2 (by decide)

def noBlanks : Blanks := ⟨[], List.forall_mem_nil _⟩

lemma nestedTimes_sorted : [0].Pairwise (· < ·) := by decide

lemma nestedTimes_lt : ∀ t ∈ [0], t < 2 ^ 64 := by decide

def nestedTable : List (String × List (ℕ × String)) :=
  [("a", [(0, "1")]), ("b", [(0, "0")]), ("c", [(0, "1")])]

lemma nestedTable_changes : ∀ s ∈ nestedTable,
    s.2.Pairwise (fun a b => a.1 ≤ b.1) ∧ ∀ c ∈ s.2, c.1 < [0].length := by
  decide

def nestedWave : Backend :=
  Backend.ofTable [0] nestedTable nestedTimes_sorted nestedTimes_lt nestedTable_changes

def nestedConfig : StreamConfig where
  clock := "a"
  valid := "b"

/-- A signal. -/
def outerPart : FieldExpr := .component (nameComponent ['a'] isAlpha_a)

/-- A concatenation of two more. -/
def innerPart : FieldExpr :=
  .concat noBlanks (.component (nameComponent ['b'] isAlpha_b))
    [.component (nameComponent ['c'] isAlpha_c)] noBlanks

lemma parts_evaluated : ∀ part ∈ [outerPart, innerPart],
    (evaluate nestedWave nestedConfig 0 .raw part.text).isSome = true := by
  decide +kernel

/-- The concatenation of both cannot be evaluated, although each of them can be. -/
theorem nested_not_meansConcatenation :
    ¬ MeansConcatenation nestedWave nestedConfig 0 .raw
      (FieldExpr.concat noBlanks outerPart [innerPart] noBlanks).text [outerPart, innerPart] := by
  intro h
  have hsome := h.succeeds.2 parts_evaluated
  rw [evaluate_not_flat (List.mem_cons_of_mem _ List.mem_cons_self) rfl] at hsome
  cases hsome

end XdebugFst.Stream
