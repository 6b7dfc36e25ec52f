import XdebugFst.Expr.Select

/-!
# Evaluation and unknown bits

When unknown bits of the signals become known, the bits of an expression that were known
already should stay what they were. `Refines` is the relation that the operators keep: either
the two values are the same, or the first one is marked as unknown, and it shows no known bit
at all or it shows nothing that the second one does not show at the same place.

The minus sign does not keep it: it returns an operand that is not known as it is, with the
bits of the operand that are known. `MinusSafe` says that this does not happen, and
`evalExpression_refines` is the induction over the expression.
-/

namespace XdebugFst.Expr

open Waveform

/-- The bit is unknown, or it is the same bit. -/
def BitRefines (c d : Char) : Prop := isUnknownBit c = true ∨ c = d

/-- There are bits, and all of them are unknown. -/
def AllUnknown (bits : List Char) : Prop := bits ≠ [] ∧ ∀ c ∈ bits, isUnknownBit c = true

/-- The second value keeps what is known of the first one. -/
def Refines (v v' : LogicValue) : Prop :=
  v = v' ∨ v.known = false ∧ (AllUnknown v.bits.toList ∨
    v.width = v'.width ∧ List.Forall₂ BitRefines v.bits.toList v'.bits.toList)

/-- The operators without those that compare unknown bits as characters. -/
def BinaryOp.inScope : BinaryOp → Bool
  | .caseEq | .caseNe | .wildZ | .wildX | .wildInside => false
  | _ => true

/-- An expression over these operators. -/
def ExprNode.InScope : ExprNode → Prop
  | .signal _ => True
  | .slice _ _ _ => True
  | .const _ => True
  | .unary _ right => right.InScope
  | .binary op left right => op.inScope = true ∧ left.InScope ∧ right.InScope

/-- A bit of the second assignment: the same, or known where the first one was unknown. -/
def Resolves (c d : Char) : Prop := c = d ∨ (c = 'x' ∨ c = 'z') ∧ (d = '0' ∨ d = '1')

section Definitions

variable (wf wf' : Backend) (timeIdx : ℕ) (point : ObservationPoint)

/-- The second waveform assigns to the signals the texts of the first one, with some of the
unknown bits replaced by known ones. -/
structure Resolved : Prop where
  findSignal : ∀ name, wf'.findSignal name = wf.findSignal name
  width : ∀ ref, (wf'.signal ref).map SignalData.width = (wf.signal ref).map SignalData.width
  sampled : ∀ ref, Option.Rel
    (fun v v' => List.Forall₂ Resolves v.value.text.toList v'.value.text.toList)
    (wf.sampledValueAt ref timeIdx point) (wf'.sampledValueAt ref timeIdx point)

/-- The operand of a minus sign is known, or none of its bits is. -/
def MinusSafe : ExprNode → Prop
  | .signal _ => True
  | .slice _ _ _ => True
  | .const _ => True
  | .unary op right => MinusSafe right ∧ (op = .neg →
      (evalExpression wf timeIdx point right).known = true ∨
        AllUnknown (evalExpression wf timeIdx point right).bits.toList)
  | .binary _ left right => MinusSafe left ∧ MinusSafe right

end Definitions

/-! ### The relation -/

variable {v v' a a' b b' : LogicValue}

lemma Refines.refl (v : LogicValue) : Refines v v := Or.inl rfl

lemma Refines.eq_of_known (h : Refines v v') (hk : v.known = true) : v = v' := by
  rcases h with h | ⟨hunknown, -⟩
  · exact h
  · rw [hk] at hunknown
    cases hunknown

/-- A value that shows nothing is refined by every value. -/
lemma refines_of_allUnknown (hk : v.known = false) (h : AllUnknown v.bits.toList) :
    Refines v v' := Or.inr ⟨hk, Or.inl h⟩

lemma allUnknown_replicate {n : ℕ} (hn : n ≠ 0) : AllUnknown (List.replicate n 'x') := by
  constructor
  · simpa using hn
  · intro c hc
    rw [(List.mem_replicate.1 hc).2]
    decide

lemma refines_unknownBool : Refines unknownBool v' :=
  refines_of_allUnknown rfl (allUnknown_replicate (n := 1) (by decide))

/-- Where a bit is known, the refining value has the same bit at the same place. -/
lemma Refines.getElem? (h : Refines v v') {i : ℕ} {c : Char} (hc : v.bits.toList[i]? = some c)
    (hknown : c = '0' ∨ c = '1') :
    v'.bits.length = v.bits.length ∧ v'.bits.toList[i]? = some c := by
  have hbit : isUnknownBit c = false := by
    rcases hknown with rfl | rfl <;> decide
  rcases h with rfl | ⟨-, ⟨-, hall⟩ | ⟨-, hbits⟩⟩
  · exact ⟨rfl, hc⟩
  · rw [hall c (List.mem_of_getElem? hc)] at hbit
    cases hbit
  · have hlen := hbits.length_eq
    rw [String.length_toList, String.length_toList] at hlen
    refine ⟨hlen.symm, ?_⟩
    obtain ⟨hi, hci⟩ := List.getElem?_eq_some_iff.1 hc
    have hi' : i < v'.bits.toList.length := hbits.length_eq ▸ hi
    have hrel := List.forall₂_iff_get.1 hbits |>.2 i hi hi'
    rw [List.get_eq_getElem, List.get_eq_getElem, hci] at hrel
    rcases hrel with hrel | hrel
    · rw [hbit] at hrel
      cases hrel
    · rw [List.getElem?_eq_getElem hi', ← hrel]

/-! ### Bitwise operators -/

lemma forall₂_bitRefines_refl (l : List Char) : List.Forall₂ BitRefines l l :=
  List.forall₂_same.2 fun _ _ => Or.inr rfl

lemma forall₂_fitWidth {fill fill' : Char} {l l' : List Char} (hfill : BitRefines fill fill')
    (h : List.Forall₂ BitRefines l l') (w : ℕ) :
    List.Forall₂ BitRefines (fitWidth w fill l) (fitWidth w fill' l') := by
  have hreplicate : ∀ n, List.Forall₂ BitRefines (List.replicate n fill)
      (List.replicate n fill') := by
    intro n
    induction n with
    | zero => exact List.Forall₂.nil
    | succ n ih => exact List.Forall₂.cons hfill ih
  rw [fitWidth, fitWidth, h.length_eq]
  exact List.rel_append (hreplicate _) (List.forall₂_drop _ h)

lemma allUnknown_fitWidth {l : List Char} (h : AllUnknown l) {w : ℕ} (hw : w ≠ 0) :
    AllUnknown (fitWidth w 'x' l) := by
  constructor
  · intro hnil
    have := length_fitWidth w 'x' l
    rw [hnil] at this
    exact hw this.symm
  · intro c hc
    rcases List.mem_append.1 hc with hc | hc
    · rw [(List.mem_replicate.1 hc).2]
      decide
    · exact h.2 c (List.mem_of_mem_drop hc)

lemma bitRefines_bitwiseBit (op : Bool → Bool → Bool) {c c' d d' : Char} (hc : BitRefines c c')
    (hd : BitRefines d d') : BitRefines (bitwiseBit op c d) (bitwiseBit op c' d') := by
  by_cases hunknown : (isUnknownBit c || isUnknownBit d) = true
  · left
    rw [bitwiseBit, if_pos hunknown]
    decide
  · rw [Bool.not_eq_true, Bool.or_eq_false_iff] at hunknown
    have hcc : c = c' := hc.resolve_left (by simp [hunknown.1])
    have hdd : d = d' := hd.resolve_left (by simp [hunknown.2])
    rw [hcc, hdd]
    exact Or.inr rfl

lemma forall₂_zipWith_bitwiseBit (op : Bool → Bool → Bool) {l l' m m' : List Char}
    (hl : List.Forall₂ BitRefines l l') (hm : List.Forall₂ BitRefines m m') :
    List.Forall₂ BitRefines (List.zipWith (bitwiseBit op) l m)
      (List.zipWith (bitwiseBit op) l' m') := by
  induction hl generalizing m m' with
  | nil => exact List.Forall₂.nil
  | cons hc _ ih =>
      cases hm with
      | nil => exact List.Forall₂.nil
      | cons hd hm => exact List.Forall₂.cons (bitRefines_bitwiseBit op hc hd) (ih hm)

/-- Texts without an unknown pair of bits are not refined any further. -/
lemma eq_of_zip_known {l l' m m' : List Char} (hl : List.Forall₂ BitRefines l l')
    (hm : List.Forall₂ BitRefines m m') (hlen : l.length = m.length)
    (h : ∀ p ∈ l.zip m, (isUnknownBit p.1 || isUnknownBit p.2) = false) : l = l' ∧ m = m' := by
  induction hl generalizing m m' with
  | nil =>
      obtain rfl := List.length_eq_zero_iff.1 hlen.symm
      cases hm
      exact ⟨rfl, rfl⟩
  | @cons c c' l l' hc hl ih =>
      cases hm with
      | nil => cases hlen
      | @cons d d' m m' hd hm =>
          have hhead := h (c, d) List.mem_cons_self
          rw [Bool.or_eq_false_iff] at hhead
          obtain ⟨rfl, rfl⟩ := ih hm (Nat.succ.inj hlen) fun p hp => h p (List.mem_cons_of_mem _ hp)
          have hcc : c = c' := hc.resolve_left (by simp [hhead.1])
          have hdd : d = d' := hd.resolve_left (by simp [hhead.2])
          rw [hcc, hdd]
          exact ⟨rfl, rfl⟩

/-- Values that are refined bit by bit have the same width as operands. -/
lemma effectiveWidth_congr (hwidth : v.width = v'.width)
    (hbits : List.Forall₂ BitRefines v.bits.toList v'.bits.toList) :
    LogicValue.effectiveWidth v = LogicValue.effectiveWidth v' := by
  have hlen := hbits.length_eq
  rw [String.length_toList, String.length_toList] at hlen
  rw [LogicValue.effectiveWidth, LogicValue.effectiveWidth, hwidth, hlen]

lemma effectiveWidth_ne_zero (h : AllUnknown v.bits.toList) :
    LogicValue.effectiveWidth v ≠ 0 := by
  have hlen : v.bits.length ≠ 0 := by
    rw [← String.length_toList]
    exact fun hzero => h.1 (List.length_eq_zero_iff.1 hzero)
  rw [LogicValue.effectiveWidth]
  split_ifs
  · omega
  · exact hlen

/-- The character that fills up a value. -/
def LogicValue.fill (v : LogicValue) : Char := if v.known then '0' else 'x'

/-- An operand of `bitwise`, brought to its width. -/
def LogicValue.operand (w : ℕ) (v : LogicValue) : List Char :=
  fitWidth w (LogicValue.fill v) v.bits.toList

lemma bitwise_eq (op : Bool → Bool → Bool) (a b : LogicValue) :
    bitwise op a b =
      let w := max (LogicValue.effectiveWidth a) (LogicValue.effectiveWidth b)
      let unknown := ((LogicValue.operand w a).zip (LogicValue.operand w b)).filter
        fun p => isUnknownBit p.1 || isUnknownBit p.2
      { bits := String.ofList (List.zipWith (bitwiseBit op) (LogicValue.operand w a)
          (LogicValue.operand w b))
        width := w
        known := unknown.isEmpty
        hasX := unknown.any fun p => ¬ (p.1 = 'z' ∨ p.2 = 'z')
        hasZ := unknown.any fun p => p.1 = 'z' ∨ p.2 = 'z' } := rfl

/-- An operand in which nothing is known leaves nothing known. -/
lemma allUnknown_bitwise (op : Bool → Bool → Bool)
    (h : a.known = false ∧ AllUnknown a.bits.toList ∨ b.known = false ∧ AllUnknown b.bits.toList) :
    (bitwise op a b).known = false ∧ AllUnknown (bitwise op a b).bits.toList := by
  set w := max (LogicValue.effectiveWidth a) (LogicValue.effectiveWidth b) with hw
  have hw0 : w ≠ 0 := by
    rcases h with ⟨-, h⟩ | ⟨-, h⟩
    · have := effectiveWidth_ne_zero h
      omega
    · have := effectiveWidth_ne_zero h
      omega
  have hla : (LogicValue.operand w a).length = w := length_fitWidth _ _ _
  have hlb : (LogicValue.operand w b).length = w := length_fitWidth _ _ _
  -- every pair of bits has an unknown one
  have hpair : ∀ p ∈ (LogicValue.operand w a).zip (LogicValue.operand w b),
      (isUnknownBit p.1 || isUnknownBit p.2) = true := by
    intro p hp
    obtain ⟨hpa, hpb⟩ := List.of_mem_zip hp
    rcases h with ⟨hk, h⟩ | ⟨hk, h⟩
    · rw [LogicValue.operand, LogicValue.fill, hk] at hpa
      rw [(allUnknown_fitWidth h hw0).2 _ hpa, Bool.true_or]
    · rw [LogicValue.operand, LogicValue.fill, hk] at hpb
      rw [(allUnknown_fitWidth h hw0).2 _ hpb, Bool.or_true]
  have hne : (LogicValue.operand w a).zip (LogicValue.operand w b) ≠ [] := by
    intro hnil
    have := congrArg List.length hnil
    rw [List.length_zip, hla, hlb, min_self] at this
    exact hw0 this
  rw [bitwise_eq]
  constructor
  · show (List.filter _ _).isEmpty = false
    rw [List.filter_eq_self.2 hpair]
    simpa using hne
  · show AllUnknown (String.ofList _).toList
    rw [String.toList_ofList]
    constructor
    · rw [← List.map_uncurry_zip_eq_zipWith]
      simpa using hne
    · intro c hc
      rw [← List.map_uncurry_zip_eq_zipWith] at hc
      obtain ⟨p, hp, rfl⟩ := List.mem_map.1 hc
      show isUnknownBit (bitwiseBit op p.1 p.2) = true
      rw [bitwiseBit, if_pos (hpair p hp)]
      decide

/-- A value is refined by itself, or bit by bit, or it shows nothing. -/
lemma Refines.cases (h : Refines v v') :
    (v.known = false ∧ AllUnknown v.bits.toList) ∨
      (v.width = v'.width ∧ (v = v' ∨ v.known = false) ∧
        List.Forall₂ BitRefines v.bits.toList v'.bits.toList) := by
  rcases h with rfl | ⟨hk, h | h⟩
  · exact Or.inr ⟨rfl, Or.inl rfl, forall₂_bitRefines_refl _⟩
  · exact Or.inl ⟨hk, h⟩
  · exact Or.inr ⟨h.1, Or.inr hk, h.2⟩

lemma forall₂_operand (w : ℕ) (hk : v = v' ∨ v.known = false)
    (hbits : List.Forall₂ BitRefines v.bits.toList v'.bits.toList) :
    List.Forall₂ BitRefines (LogicValue.operand w v) (LogicValue.operand w v') := by
  rcases hk with rfl | hk
  · exact forall₂_bitRefines_refl _
  · refine forall₂_fitWidth (Or.inl ?_) hbits w
    rw [LogicValue.fill, hk]
    decide

/-- `bitwise` keeps the relation. -/
lemma Refines.bitwise (op : Bool → Bool → Bool) (ha : Refines a a') (hb : Refines b b') :
    Refines (Expr.bitwise op a b) (Expr.bitwise op a' b') := by
  rcases ha.cases with hall | ⟨hwa, hka, hba⟩
  · obtain ⟨hk, h⟩ := allUnknown_bitwise (b := b) op (Or.inl hall)
    exact refines_of_allUnknown hk h
  rcases hb.cases with hall | ⟨hwb, hkb, hbb⟩
  · obtain ⟨hk, h⟩ := allUnknown_bitwise (a := a) op (Or.inr hall)
    exact refines_of_allUnknown hk h
  -- both operands are refined bit by bit, and so is the result
  have hea := effectiveWidth_congr hwa hba
  have heb := effectiveWidth_congr hwb hbb
  rw [bitwise_eq, bitwise_eq, ← hea, ← heb]
  set w := max (LogicValue.effectiveWidth a) (LogicValue.effectiveWidth b) with hw
  have hoa := forall₂_operand w hka hba
  have hob := forall₂_operand w hkb hbb
  by_cases hzip : ∀ p ∈ (LogicValue.operand w a).zip (LogicValue.operand w b),
      (isUnknownBit p.1 || isUnknownBit p.2) = false
  · -- all bits are known, so nothing changes
    obtain ⟨h1, h2⟩ := eq_of_zip_known hoa hob
      ((length_fitWidth _ _ _).trans (length_fitWidth _ _ _).symm) hzip
    left
    dsimp only
    rw [h1, h2]
  · refine Or.inr ⟨?_, Or.inr ⟨rfl, ?_⟩⟩
    · show (List.filter _ _).isEmpty = false
      rw [List.isEmpty_eq_false_iff]
      intro hnil
      exact hzip fun p hp => Bool.eq_false_iff.2 (List.filter_eq_nil_iff.1 hnil p hp)
    · show List.Forall₂ BitRefines (String.ofList _).toList (String.ofList _).toList
      rw [String.toList_ofList, String.toList_ofList]
      exact forall₂_zipWith_bitwiseBit op hoa hob

/-! ### The other operators -/

lemma not_known (h : ¬ (a.known = true ∧ b.known = true)) : (!a.known || !b.known) = true := by
  rw [Bool.or_eq_true, Bool.not_eq_true', Bool.not_eq_true']
  by_contra hnot
  rw [not_or, Bool.not_eq_false, Bool.not_eq_false] at hnot
  exact h hnot

lemma Refines.arith (op : BinaryOp) (ha : Refines a a') (hb : Refines b b') :
    Refines (Expr.arith op a b) (Expr.arith op a' b') := by
  by_cases hk : a.known = true ∧ b.known = true
  · rw [ha.eq_of_known hk.1, hb.eq_of_known hk.2]
    exact Refines.refl _
  · have hunknown := not_known hk
    rw [Expr.arith]
    simp only [hunknown, if_true]
    refine refines_of_allUnknown rfl ?_
    rw [String.toList_ofList]
    exact allUnknown_replicate (by omega)

lemma Refines.cmp (op : BinaryOp) (ha : Refines a a') (hb : Refines b b') :
    Refines (Expr.cmp op a b) (Expr.cmp op a' b') := by
  by_cases hk : a.known = true ∧ b.known = true
  · rw [ha.eq_of_known hk.1, hb.eq_of_known hk.2]
    exact Refines.refl _
  · have hunknown := not_known hk
    rw [Expr.cmp, if_pos hunknown]
    exact refines_unknownBool

lemma Refines.eq {op : BinaryOp} (hop : op.inScope = true) (ha : Refines a a')
    (hb : Refines b b') : Refines (Expr.eq op a b) (Expr.eq op a' b') := by
  by_cases hk : a.known = true ∧ b.known = true
  · rw [ha.eq_of_known hk.1, hb.eq_of_known hk.2]
    exact Refines.refl _
  · have hunknown := not_known hk
    have hstrict : ¬ (op = .caseEq ∨ op = .caseNe) := by
      rintro (rfl | rfl) <;> cases hop
    rw [Expr.eq, if_pos ⟨hunknown, hstrict⟩]
    exact refines_unknownBool

/-- A truth value that is known stays. -/
lemma Refines.logicalTruth (h : Refines v v') (hk : Expr.logicalTruth v ≠ .unknown) :
    Expr.logicalTruth v' = Expr.logicalTruth v := by
  rcases h with rfl | ⟨-, ⟨hne, hall⟩ | ⟨-, hbits⟩⟩
  · rfl
  · -- nothing is known, and there is a bit
    exfalso
    apply hk
    have hone : v.bits.toList.contains '1' = false := by
      rw [List.contains_eq_mem, decide_eq_false_iff_not]
      intro hmem
      exact absurd (hall _ hmem) (by decide)
    obtain ⟨c, hc⟩ := List.exists_mem_of_ne_nil _ hne
    have hother : v.bits.toList.any (· ≠ '0') = true := by
      refine List.any_eq_true.2 ⟨c, hc, ?_⟩
      rw [decide_eq_true_eq]
      rintro rfl
      exact absurd (hall _ hc) (by decide)
    rw [Expr.logicalTruth, hone, hother]
    rfl
  · rw [Expr.logicalTruth] at hk
    split_ifs at hk with hone hother
    · -- a one stays a one
      have hone' : v'.bits.toList.contains '1' = true := by
        rw [List.contains_iff_mem] at hone ⊢
        obtain ⟨i, hi, hic⟩ := List.getElem_of_mem hone
        have hrel := (List.forall₂_iff_get.1 hbits).2 i hi (hbits.length_eq ▸ hi)
        rw [List.get_eq_getElem, List.get_eq_getElem, hic] at hrel
        rcases hrel with hrel | hrel
        · exact absurd hrel (by decide)
        · rw [hrel]
          exact List.getElem_mem _
      rw [Expr.logicalTruth, if_pos hone', Expr.logicalTruth, if_pos hone]
    · exact absurd rfl hk
    · -- a text of zeros is not refined any further
      have hzero : ∀ c ∈ v.bits.toList, c = '0' := by
        intro c hc
        by_contra hcz
        exact hother (List.any_eq_true.2 ⟨c, hc, by simpa using hcz⟩)
      have hsame : v'.bits.toList = v.bits.toList := by
        refine List.ext_getElem hbits.length_eq.symm fun i hi hi' => ?_
        have hrel := (List.forall₂_iff_get.1 hbits).2 i hi' hi
        rw [List.get_eq_getElem, List.get_eq_getElem] at hrel
        have hc := hzero _ (List.getElem_mem hi')
        rw [hc] at hrel ⊢
        rcases hrel with hrel | hrel
        · exact absurd hrel (by decide)
        · exact hrel.symm
      rw [Expr.logicalTruth, hsame, Expr.logicalTruth]

/-- The unary operators keep the relation, the minus sign under its condition. -/
lemma Refines.unary (op : UnaryOp) (h : Refines v v')
    (hminus : op = .neg → v.known = true ∨ AllUnknown v.bits.toList) :
    Refines (evalUnary op v) (evalUnary op v') := by
  by_cases hk : v.known = true
  · rw [h.eq_of_known hk]
    exact Refines.refl _
  rw [Bool.not_eq_true] at hk
  cases op with
  | bitNot =>
      rw [evalUnary, hk]
      refine refines_of_allUnknown rfl ?_
      show AllUnknown (String.ofList _).toList
      rw [String.toList_ofList]
      exact allUnknown_replicate (by omega)
  | neg =>
      have hall := (hminus rfl).resolve_left (by rw [hk]; decide)
      rw [evalUnary, hk]
      exact refines_of_allUnknown hk hall
  | logicNot =>
      by_cases htruth : Expr.logicalTruth v = .unknown
      · rw [evalUnary, htruth]
        exact refines_unknownBool
      · rw [evalUnary, evalUnary, h.logicalTruth htruth]
        exact Refines.refl _

/-- A conjunction or disjunction of truth values that is known stays. -/
lemma Refines.logicAnd (ha : Refines a a') (hb : Refines b b') :
    Refines (evalBinary .logicAnd a b) (evalBinary .logicAnd a' b') := by
  have hta := ha.logicalTruth
  have htb := hb.logicalTruth
  rw [evalBinary, evalBinary]
  cases hva : Expr.logicalTruth a with
  | «false» =>
      rw [hta (by rw [hva]; decide), hva]
      exact Refines.refl _
  | «true» =>
      rw [hta (by rw [hva]; decide), hva]
      cases hvb : Expr.logicalTruth b with
      | unknown => exact refines_unknownBool
      | «false» =>
          rw [htb (by rw [hvb]; decide), hvb]
          exact Refines.refl _
      | «true» =>
          rw [htb (by rw [hvb]; decide), hvb]
          exact Refines.refl _
  | unknown =>
      cases hvb : Expr.logicalTruth b with
      | unknown => exact refines_unknownBool
      | «true» => exact refines_unknownBool
      | «false» =>
          rw [htb (by rw [hvb]; decide), hvb]
          cases Expr.logicalTruth a' <;> exact Refines.refl _

lemma Refines.logicOr (ha : Refines a a') (hb : Refines b b') :
    Refines (evalBinary .logicOr a b) (evalBinary .logicOr a' b') := by
  have hta := ha.logicalTruth
  have htb := hb.logicalTruth
  rw [evalBinary, evalBinary]
  cases hva : Expr.logicalTruth a with
  | «true» =>
      rw [hta (by rw [hva]; decide), hva]
      exact Refines.refl _
  | «false» =>
      rw [hta (by rw [hva]; decide), hva]
      cases hvb : Expr.logicalTruth b with
      | unknown => exact refines_unknownBool
      | «false» =>
          rw [htb (by rw [hvb]; decide), hvb]
          exact Refines.refl _
      | «true» =>
          rw [htb (by rw [hvb]; decide), hvb]
          exact Refines.refl _
  | unknown =>
      cases hvb : Expr.logicalTruth b with
      | unknown => exact refines_unknownBool
      | «false» => exact refines_unknownBool
      | «true» =>
          rw [htb (by rw [hvb]; decide), hvb]
          cases Expr.logicalTruth a' <;> exact Refines.refl _

/-- The binary operators keep the relation. -/
lemma Refines.binary {op : BinaryOp} (hop : op.inScope = true) (ha : Refines a a')
    (hb : Refines b b') : Refines (evalBinary op a b) (evalBinary op a' b') := by
  cases op with
  | bitAnd => exact ha.bitwise (· && ·) hb
  | bitOr => exact ha.bitwise (· || ·) hb
  | bitXor => exact ha.bitwise xor hb
  | logicAnd => exact ha.logicAnd hb
  | logicOr => exact ha.logicOr hb
  | add => exact ha.arith .add hb
  | sub => exact ha.arith .sub hb
  | mul => exact ha.arith .mul hb
  | div => exact ha.arith .div hb
  | mod => exact ha.arith .mod hb
  | shl => exact ha.arith .shl hb
  | shr => exact ha.arith .shr hb
  | lt => exact ha.cmp .lt hb
  | le => exact ha.cmp .le hb
  | gt => exact ha.cmp .gt hb
  | ge => exact ha.cmp .ge hb
  | eq => exact @Refines.eq _ _ _ _ .eq hop ha hb
  | ne => exact @Refines.eq _ _ _ _ .ne hop ha hb
  | caseEq => cases hop
  | caseNe => cases hop
  | wildZ => cases hop
  | wildX => cases hop
  | wildInside => cases hop

/-! ### Signals -/

lemma Resolves.bitRefines {c d : Char} (h : Resolves c d) : BitRefines c d := by
  rcases h with rfl | ⟨rfl | rfl, -⟩
  · exact Or.inr rfl
  · exact Or.inl (by decide)
  · exact Or.inl (by decide)

/-- A text that is known is not resolved any further. -/
lemma eq_of_resolves {l l' : List Char} (h : List.Forall₂ Resolves l l')
    (hknown : ∀ c ∈ l, bitUnknown c = (false, false)) : l = l' := by
  induction h with
  | nil => rfl
  | @cons c d l l' hcd _ ih =>
      have hc := hknown c List.mem_cons_self
      have hl := ih fun e he => hknown e (List.mem_cons_of_mem _ he)
      rcases hcd with rfl | ⟨rfl | rfl, -⟩
      · rw [hl]
      · exact absurd hc (by decide)
      · exact absurd hc (by decide)

lemma known_logicValueFromBits {bits : String} {width : ℤ}
    (h : (logicValueFromBits bits width).known = true) :
    ∀ c ∈ bits.toList, bitUnknown c = (false, false) := by
  intro c hc
  have hmark := List.all_eq_true.1 h (bitUnknown c) (List.mem_map_of_mem hc)
  rw [Bool.and_eq_true, Bool.not_eq_true', Bool.not_eq_true'] at hmark
  exact Prod.ext hmark.1 hmark.2

lemma forall₂_slice {l l' : List Char} (h : List.Forall₂ BitRefines l l') (positions : List ℤ) :
    List.Forall₂ BitRefines (charsAt l positions) (charsAt l' positions) := by
  rw [charsAt, charsAt, List.forall₂_map_left_iff, List.forall₂_map_right_iff]
  refine List.forall₂_same.2 fun i _ => ?_
  rw [List.getD_eq_getElem?_getD, List.getD_eq_getElem?_getD]
  rcases lt_or_ge i.toNat l.length with hi | hi
  · have hi' : i.toNat < l'.length := h.length_eq ▸ hi
    rw [List.getElem?_eq_getElem hi, List.getElem?_eq_getElem hi']
    exact (List.forall₂_iff_get.1 h).2 _ hi hi'
  · rw [List.getElem?_eq_none hi, List.getElem?_eq_none (h.length_eq ▸ hi)]
    exact Or.inr rfl

section Runs

variable {wf wf' : Backend} {timeIdx : ℕ} {point : ObservationPoint}

/-- A signal, or a slice of it, keeps its known bits. -/
lemma Resolved.refines_evalSignal (h : Resolved wf wf' timeIdx point) (name : String)
    (range : Option (ℤ × ℤ)) :
    Refines (evalSignal wf timeIdx point name range)
      (evalSignal wf' timeIdx point name range) := by
  have hwidth := h.width (wf.findSignal name)
  rw [evalSignal.eq_def, evalSignal.eq_def, h.findSignal name]
  dsimp only
  split
  · exact Refines.refl _
  · have hsampled := h.sampled (wf.findSignal name)
    generalize wf.sampledValueAt (wf.findSignal name) timeIdx point = first at hsampled ⊢
    generalize wf'.sampledValueAt (wf.findSignal name) timeIdx point = second at hsampled ⊢
    cases hsampled with
    | none => exact Refines.refl _
    | @some sampled sampled' htext =>
        dsimp only
        rw [hwidth]
        set width := (((wf.signal (wf.findSignal name)).map SignalData.width).getD 0 : ℕ)
        have hbits := htext.imp fun _ _ => Resolves.bitRefines
        by_cases hk : (logicValueFromBits sampled.value.text width).known = true
        · -- nothing is unknown, so the text is the same
          have hsame : sampled.value.text = sampled'.value.text :=
            String.toList_injective (eq_of_resolves htext (known_logicValueFromBits hk))
          rw [hsame]
          exact Refines.refl _
        · rw [Bool.not_eq_true] at hk
          have hlen : sampled.value.text.length = sampled'.value.text.length := by
            rw [← String.length_toList, ← String.length_toList, htext.length_eq]
          cases range with
          | none =>
              refine Or.inr ⟨hk, Or.inr ⟨?_, hbits⟩⟩
              rw [logicValueFromBits, logicValueFromBits]
              have hempty : sampled.value.text ≠ "" ↔ sampled'.value.text ≠ "" := by
                rw [ne_eq, ne_eq, ← String.length_eq_zero_iff, hlen, String.length_eq_zero_iff]
              simp only [hlen, hempty]
          | some bounds =>
              refine Or.inr ⟨hk, Or.inr ⟨?_, ?_⟩⟩
              · show (sliceBits _ _ _).2 = (sliceBits _ _ _).2
                rw [sliceBits, sliceBits, htext.length_eq]
              · show List.Forall₂ BitRefines (String.ofList (sliceBits _ _ _).1).toList
                  (String.ofList (sliceBits _ _ _).1).toList
                rw [String.toList_ofList, String.toList_ofList, sliceBits_eq, sliceBits_eq,
                  htext.length_eq]
                exact forall₂_slice hbits _

/-- Evaluation keeps the known bits of every expression over the operators in scope, unless a
minus sign meets a partly known operand. -/
lemma Resolved.refines (h : Resolved wf wf' timeIdx point) {root : ExprNode}
    (hscope : root.InScope) (hminus : MinusSafe wf timeIdx point root) :
    Refines (evalExpression wf timeIdx point root) (evalExpression wf' timeIdx point root) := by
  induction root with
  | signal name => exact h.refines_evalSignal name none
  | slice name msb lsb => exact h.refines_evalSignal name (some (msb, lsb))
  | const value => exact Refines.refl _
  | unary op right ih => exact (ih hscope hminus.1).unary op hminus.2
  | binary op left right ihl ihr =>
      exact (ihl hscope.2.1 hminus.1).binary hscope.1 (ihr hscope.2.2 hminus.2)

end Runs

/-- The bits of an expression that are known stay when unknown bits of its signals become
known. -/
def KeepsKnownBits (wf wf' : Backend) (timeIdx : ℕ) (point : ObservationPoint)
    (root : ExprNode) : Prop :=
  ∀ (i : ℕ) (c : Char),
    (evalExpression wf timeIdx point root).bits.toList[i]? = some c → (c = '0' ∨ c = '1') →
    (evalExpression wf' timeIdx point root).bits.length =
        (evalExpression wf timeIdx point root).bits.length ∧
      (evalExpression wf' timeIdx point root).bits.toList[i]? = some c

/-- Evaluation invents no knowledge, unless a minus sign meets a partly known operand. -/
theorem keepsKnownBits_of_minusSafe (wf wf' : Backend) (timeIdx : ℕ) (point : ObservationPoint)
    (root : ExprNode) (hscope : root.InScope) (h : Resolved wf wf' timeIdx point)
    (hminus : MinusSafe wf timeIdx point root) :
    KeepsKnownBits wf wf' timeIdx point root := by
  intro i c hc hknown
  exact (h.refines hscope hminus).getElem? hc hknown

lemma resolved_constWave {text text' : String}
    (h : List.Forall₂ Resolves text.toList text'.toList) :
    Resolved (constWave text) (constWave text') 0 .raw where
  findSignal name := rfl
  width ref := by
    have hlen : text'.length = text.length := by
      rw [← String.length_toList, ← String.length_toList, h.length_eq]
    show Option.map _ (if ref = 1 then _ else _) = Option.map _ (if ref = 1 then _ else _)
    split_ifs
    · exact congrArg some hlen
    · rfl
  sampled ref := by
    by_cases href : ref = 1
    · subst href
      have hsampled : ∀ t : String, (constWave t).sampledValueAt 1 0 .raw =
          some ⟨{ text := t }, 0, 0, 1, true⟩ := fun _ => rfl
      rw [hsampled, hsampled]
      exact Option.Rel.some h
    · have hnone : ∀ t : String, (constWave t).sampledValueAt ref 0 .raw = none := by
        intro t
        have hchanges : (constWave t).changesOf ref = [] := by
          rw [Backend.changesOf]
          show Option.getD (Option.map _ (if ref = 1 then _ else _)) [] = []
          rw [if_neg href]
          rfl
        rw [Backend.sampledValueAt, Backend.signalOffsetAt, hchanges]
        rfl
      rw [hnone, hnone]
      exact Option.Rel.none

/-- The minus sign returns `1x` as it is, but negates `11` to `01`. -/
theorem neg_not_keepsKnownBits :
    (ExprNode.unary .neg (.signal "s")).InScope ∧
      Resolved (constWave "1x") (constWave "11") 0 .raw ∧
      ¬ KeepsKnownBits (constWave "1x") (constWave "11") 0 .raw (.unary .neg (.signal "s")) := by
  refine ⟨trivial, resolved_constWave ?_, fun h => ?_⟩
  · exact .cons (Or.inl rfl) (.cons (Or.inr ⟨Or.inl rfl, Or.inr rfl⟩) .nil)
  · have hbit := (h 0 '1' (by decide +kernel) (Or.inr rfl)).2
    exact absurd hbit (by decide +kernel)

/-- A minus sign before a signal of which nothing is known. -/
theorem neg_keepsKnownBits :
    Resolved (constWave "xz") (constWave "10") 0 .raw ∧
      KeepsKnownBits (constWave "xz") (constWave "10") 0 .raw
        (.binary .add (.unary .neg (.signal "s")) (.signal "s")) := by
  have hresolved : Resolved (constWave "xz") (constWave "10") 0 .raw := by
    refine resolved_constWave (.cons (Or.inr ⟨Or.inl rfl, Or.inr rfl⟩) (.cons ?_ .nil))
    exact Or.inr ⟨Or.inr rfl, Or.inl rfl⟩
  refine ⟨hresolved, keepsKnownBits_of_minusSafe _ _ _ _ _ ⟨rfl, trivial, trivial⟩ hresolved ?_⟩
  have hbits : (evalExpression (constWave "xz") 0 .raw (.signal "s")).bits.toList = ['x', 'z'] := by
    decide +kernel
  refine ⟨⟨trivial, fun _ => Or.inr ?_⟩, trivial⟩
  rw [hbits]
  refine ⟨List.cons_ne_nil _ _, ?_⟩
  rintro c (_ | ⟨_, _ | ⟨_, _ | _⟩⟩)
  · rfl
  · rfl

end XdebugFst.Expr
