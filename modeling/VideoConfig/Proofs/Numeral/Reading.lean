import VideoConfig.Floating.Hexadecimal
import VideoConfig.Proofs.Numeral

/-!
# Reading numerals

A text is read as a numeral by cutting it: behind its sign, at the mark of its exponent, and at
its point. Since no digit is a mark, a sign or a point, the cuts find exactly the parts of which
the text was put together, and a text that has none of the forms is not read.
-/

namespace VideoConfig

/-!
## Cuts
-/

namespace Text

variable {inClass : Char -> Bool} {text before after : List Char}

theorem cutAt?_eq_none_iff :
    cutAt? inClass text = none <-> forall c, c ∈ text -> inClass c = false := by
  induction text with
  | nil =>
      simp [cutAt?]
  | cons c rest ih =>
      unfold cutAt?
      cases hc : inClass c <;> simp [hc, ih]

theorem cutAt?_eq_some_iff :
    cutAt? inClass text = some (before, after) <->
      exists c, inClass c = true ∧ (forall x, x ∈ before -> inClass x = false) ∧
        text = before ++ c :: after := by
  induction text generalizing before with
  | nil =>
      simp [cutAt?]
  | cons first rest ih =>
      unfold cutAt?
      cases hfirst : inClass first with
      | true =>
          rw [if_pos rfl, Option.some.injEq, Prod.mk.injEq]
          constructor
          · rintro ⟨rfl, rfl⟩
            exact ⟨first, hfirst, by simp, rfl⟩
          · rintro ⟨c, hc, hbefore, htext⟩
            cases before with
            | nil =>
                cases htext
                exact ⟨rfl, rfl⟩
            | cons x others =>
                cases htext
                rw [hbefore first List.mem_cons_self] at hfirst
                cases hfirst
      | false =>
          rw [if_neg (by decide), Option.map_eq_some_iff]
          constructor
          · rintro ⟨⟨start, stop⟩, hcut, heq⟩
            cases heq
            rcases ih.mp hcut with ⟨c, hc, hstart, htext⟩
            refine ⟨c, hc, List.forall_mem_cons.mpr ⟨hfirst, hstart⟩, ?_⟩
            rw [htext, List.cons_append]
          · rintro ⟨c, hc, hbefore, htext⟩
            cases before with
            | nil =>
                cases htext
                rw [hc] at hfirst
                cases hfirst
            | cons x others =>
                cases htext
                exact ⟨(others, after), ih.mpr ⟨c, hc, (List.forall_mem_cons.mp hbefore).right, rfl⟩,
                  rfl⟩

def Unsigned (text : List Char) : Prop :=
  text.head? ≠ some '+' ∧ text.head? ≠ some '-'

theorem signed_splitSign (text : List Char) :
    Signed (splitSign text).2 (splitSign text).1 text := by
  unfold splitSign
  split
  · exact Signed.minus
  · exact Signed.plus
  · exact Signed.bare

theorem splitSign_of_unsigned (h : Unsigned text) : splitSign text = (false, text) := by
  unfold splitSign
  split
  · exact absurd rfl h.right
  · exact absurd rfl h.left
  · rfl

theorem splitSign_of_signed {negative : Bool} (h : Unsigned before)
    (hsigned : Signed before negative text) : splitSign text = (negative, before) := by
  cases hsigned with
  | bare =>
      exact splitSign_of_unsigned h
  | plus =>
      rfl
  | minus =>
      rfl

end Text

/-!
## Whole numbers

The digits in which a number is written are digits of the base and make that number. A row
is taken digit by digit, unless one of its characters is no digit.
-/

namespace Base

theorem isRow_ten_iff {row : List Char} :
    ten.IsRow row <-> row.all Char.isDigit = true := by
  rw [List.all_eq_true]
  refine forall₂_congr fun c _ => ?_
  cases hdigit : c.isDigit <;> simp [digit?, hdigit]

theorem digit?_digitChar (base : Base) {d : Nat} (h : d < base.radix) :
    base.digit? d.digitChar = some d := by
  have hten : forall d, d < 10 -> ten.digit? d.digitChar = some d := by decide
  have hsixteen : forall d, d < 16 -> sixteen.digit? d.digitChar = some d := by decide
  cases base with
  | ten =>
      exact hten d h
  | sixteen =>
      exact hsixteen d h

theorem one_lt_radix (base : Base) : 1 < base.radix := by
  cases base <;> decide

theorem isRow_toDigits (base : Base) (n : Nat) : base.IsRow (Nat.toDigits base.radix n) := by
  have hsingle {d : Nat} (hd : d < base.radix) : base.IsRow (Nat.toDigits base.radix d) := by
    intro c hc
    rw [Nat.toDigits_of_lt_base hd, List.mem_singleton] at hc
    rw [hc, base.digit?_digitChar hd]
    rfl
  induction n using Nat.base_induction base.radix base.one_lt_radix with
  | single d hd =>
      exact hsingle hd
  | digit n d hd hn ih =>
      rw [← Nat.toDigits_append_toDigits base.one_lt_radix hn hd]
      exact isRow_append.mpr ⟨ih, hsingle hd⟩

theorem number_toDigits (base : Base) (n : Nat) : base.number (Nat.toDigits base.radix n) = n := by
  have hdigit {d : Nat} (hd : d < base.radix) : base.digit d.digitChar = d := by
    rw [digit, base.digit?_digitChar hd, Option.getD_some]
  induction n using Nat.base_induction base.radix base.one_lt_radix with
  | single d hd =>
      rw [Nat.toDigits_of_lt_base hd, number, hdigit hd, List.length_nil, Nat.pow_zero, Nat.mul_one,
        number, Nat.add_zero]
  | digit n d hd hn ih =>
      rw [← Nat.toDigits_append_toDigits base.one_lt_radix hn hd, Nat.toDigits_of_lt_base hd,
        number_snoc, ih, hdigit hd]

theorem foldlM_digit?_eq_some_iff {α : Type} (base : Base) {take : α -> Nat -> α}
    {row : List Char} {start result : α} :
    row.foldlM (fun read c => (base.digit? c).map (take read)) start = some result <->
      base.IsRow row ∧ row.foldl (fun read c => take read (base.digit c)) start = result := by
  induction row generalizing start with
  | nil =>
      simp [IsRow]
  | cons c rest ih =>
      rw [List.foldlM_cons, List.foldl_cons, isRow_cons, digit]
      cases base.digit? c with
      | none =>
          simp
      | some d =>
          simp [ih]

theorem isRow_decimalDigits (n : Nat) : ten.IsRow (Text.decimalDigits n) :=
  ten.isRow_toDigits n

theorem number_decimalDigits (n : Nat) : ten.number (Text.decimalDigits n) = n :=
  ten.number_toDigits n

theorem digit?_eq_none (base : Base) {c : Char}
    (h : c ∈ ['+', '-', '.'] ++ base.marks) : base.digit? c = none := by
  cases base <;> (simp [marks] at h; rcases h with rfl | rfl | rfl | rfl | rfl <;> rfl)

theorem IsRow.not_mem {base : Base} {row : List Char} (h : base.IsRow row) {c : Char}
    (hc : c ∈ ['+', '-', '.'] ++ base.marks) : c ∉ row := by
  intro hmem
  have hsome := h c hmem
  rw [base.digit?_eq_none hc] at hsome
  cases hsome

theorem IsRow.unsigned {base : Base} {row : List Char} (h : base.IsRow row) :
    Text.Unsigned row :=
  ⟨fun hhead => h.not_mem (by simp) (List.mem_of_mem_head? hhead),
    fun hhead => h.not_mem (by simp) (List.mem_of_mem_head? hhead)⟩

end Base

theorem integerText_iff {negative : Bool} {magnitude : Nat} {text : List Char} :
    IntegerText negative magnitude text <->
      (Text.splitSign text).1 = negative ∧ (Text.splitSign text).2 ≠ [] ∧
        (Text.splitSign text).2.all Char.isDigit = true ∧
        Text.ofDecimalDigits (Text.splitSign text).2 = magnitude := by
  constructor
  · rintro ⟨digits, hne, hrow, hnumber, hsigned⟩
    rw [Text.splitSign_of_signed hrow.unsigned hsigned]
    refine ⟨rfl, hne, Base.isRow_ten_iff.mp hrow, ?_⟩
    rw [Base.ofDecimalDigits_eq hrow, hnumber]
  · rintro ⟨rfl, hne, hall, hnumber⟩
    have hrow := Base.isRow_ten_iff.mpr hall
    refine ⟨_, hne, hrow, ?_, Text.signed_splitSign text⟩
    rw [← hnumber, Base.ofDecimalDigits_eq hrow]

namespace Floating

theorem Literal.exponent?_eq_some_iff {text : List Char} {exponent : Int} :
    Literal.exponent? text = some exponent <->
      exists negative magnitude, IntegerText negative magnitude text ∧
        exponent = signedInt negative magnitude := by
  unfold Literal.exponent?
  dsimp only
  constructor
  · intro h
    split at h
    · next hdigits =>
        cases h
        exact ⟨_, _, integerText_iff.mpr ⟨rfl, hdigits.left, hdigits.right, rfl⟩, rfl⟩
    · cases h
  · rintro ⟨negative, magnitude, htext, rfl⟩
    rcases integerText_iff.mp htext with ⟨rfl, hne, hall, rfl⟩
    rw [if_pos ⟨hne, hall⟩]
    rfl

end Floating

/-!
## Characters

A numeral has digits, signs, the point, and the marks of exponents, and no digit is one of
the others.
-/

def Base.Uses (base : Base) (c : Char) : Prop :=
  (base.digit? c).isSome ∨ c ∈ ['+', '-', '.'] ++ base.marks

instance (base : Base) (c : Char) : Decidable (base.Uses c) :=
  inferInstanceAs (Decidable (_ ∨ _))

theorem Base.IsRow.uses {base : Base} {row : List Char} (h : base.IsRow row) {c : Char}
    (hc : c ∈ row) : base.Uses c :=
  Or.inl (h c hc)

theorem Base.isSome_of_ten (base : Base) {c : Char} (h : (ten.digit? c).isSome) :
    (base.digit? c).isSome := by
  cases base with
  | ten =>
      exact h
  | sixteen =>
      simp [digit?, Text.hexDigit?, isDigit_of_isSome h]

theorem Signed.eq_or_cons {text token : List Char} {negative : Bool}
    (h : Signed text negative token) :
    token = text ∨ exists sign, sign ∈ ['+', '-'] ∧ token = sign :: text := by
  cases h with
  | bare =>
      exact Or.inl rfl
  | plus =>
      exact Or.inr ⟨'+', by decide, rfl⟩
  | minus =>
      exact Or.inr ⟨'-', by decide, rfl⟩

theorem Signed.uses {text token : List Char} {negative : Bool} (h : Signed text negative token)
    {base : Base} (htext : forall c, c ∈ text -> base.Uses c) {c : Char} (hc : c ∈ token) :
    base.Uses c := by
  rcases h.eq_or_cons with rfl | ⟨sign, hsign, rfl⟩
  · exact htext c hc
  · rcases List.mem_cons.mp hc with rfl | hc
    · have hsigns : ['+', '-'] ⊆ ['+', '-', '.'] := by decide
      exact Or.inr (List.mem_append_left _ (hsigns hsign))
    · exact htext c hc

theorem IntegerText.uses {negative : Bool} {magnitude : Nat} {text : List Char}
    (h : IntegerText negative magnitude text) (base : Base) {c : Char} (hc : c ∈ text) :
    base.Uses c := by
  rcases h with ⟨digits, _, hrow, _, hsigned⟩
  exact hsigned.uses (fun c hc => Or.inl (base.isSome_of_ten (hrow c hc))) hc

namespace Numeral

variable {numeral : Numeral} {text : List Char} {c : Char}

theorem DigitsText.uses (h : numeral.DigitsText text)
    (hrow : numeral.base.IsRow (numeral.whole ++ numeral.fraction)) (hc : c ∈ text) :
    numeral.base.Uses c := by
  rcases Base.isRow_append.mp hrow with ⟨hwhole, hfraction⟩
  cases h with
  | plain _ =>
      exact hwhole.uses hc
  | pointed =>
      rcases List.mem_append.mp hc with hc | hc
      · exact hwhole.uses hc
      · rcases List.mem_cons.mp hc with rfl | hc
        · exact Or.inr (List.mem_append_left _ (by decide))
        · exact hfraction.uses hc

theorem ExponentText.uses (h : numeral.ExponentText text) (hc : c ∈ text) :
    numeral.base.Uses c := by
  cases h with
  | absent _ =>
      cases hc
  | marked hmark hinteger _ =>
      rcases List.mem_cons.mp hc with rfl | hc
      · exact Or.inr (List.mem_append_right _ hmark)
      · exact hinteger.uses numeral.base hc

theorem BodyText.uses (h : numeral.BodyText text) (hc : c ∈ text) : numeral.base.Uses c := by
  rcases h.parts with ⟨digits, exponent, hdigits, hexponent, rfl⟩
  rcases List.mem_append.mp hc with hc | hc
  · exact hdigits.uses h.isRow hc
  · exact hexponent.uses hc

end Numeral

/-!
## Parts of a text

The exponent is cut off at its mark, and what stands before it is cut at the point. A text
is that of a numeral exactly if these cuts find the parts of the numeral.
-/

namespace Numeral

def exponentCut (isMark : Char -> Bool) (body : List Char) : List Char × Option Int :=
  match Text.cutAt? isMark body with
  | some (digits, written) => (digits, Floating.Literal.exponent? written)
  | none => (body, some 0)

def pointCut (digits : List Char) : List Char × List Char :=
  (Text.cutAt? (· == '.') digits).getD (digits, [])

variable {numeral : Numeral} {isMark : Char -> Bool} {text : List Char}

theorem pointCut_of_digitsText (hrow : numeral.base.IsRow (numeral.whole ++ numeral.fraction))
    (h : numeral.DigitsText text) : pointCut text = (numeral.whole, numeral.fraction) := by
  have hpoint : forall c, c ∈ numeral.whole -> (c == '.') = false := by
    intro c hc
    have hne : c ≠ '.' := by
      rintro rfl
      exact (Base.isRow_append.mp hrow).left.not_mem (by simp) hc
    simpa using hne
  unfold pointCut
  cases h with
  | plain hfraction =>
      rw [Text.cutAt?_eq_none_iff.mpr hpoint, hfraction, Option.getD_none]
  | pointed =>
      rw [Text.cutAt?_eq_some_iff.mpr ⟨'.', rfl, hpoint, rfl⟩, Option.getD_some]

theorem digitsText_of_pointCut (h : pointCut text = (numeral.whole, numeral.fraction)) :
    numeral.DigitsText text := by
  unfold pointCut at h
  cases hcut : Text.cutAt? (· == '.') text with
  | none =>
      rw [hcut, Option.getD_none, Prod.mk.injEq] at h
      rw [h.left]
      exact DigitsText.plain h.right.symm
  | some cut =>
      rcases cut with ⟨before, after⟩
      rw [hcut, Option.getD_some, Prod.mk.injEq] at h
      rcases Text.cutAt?_eq_some_iff.mp hcut with ⟨c, hc, _, rfl⟩
      rw [eq_of_beq hc, h.left, h.right]
      exact DigitsText.pointed

theorem DigitsText.not_isMark (h : numeral.DigitsText text)
    (hrow : numeral.base.IsRow (numeral.whole ++ numeral.fraction))
    (hmark : forall c, isMark c = true <-> c ∈ numeral.base.marks) :
    forall c, c ∈ text -> isMark c = false := by
  rcases Base.isRow_append.mp hrow with ⟨hwhole, hfraction⟩
  have hnotPoint : isMark '.' = false := by
    rw [Bool.eq_false_iff, ne_eq, hmark]
    cases numeral.base <;> decide
  have hnotDigit : forall row, numeral.base.IsRow row -> forall c, c ∈ row -> isMark c = false := by
    intro row hrow c hc
    rw [Bool.eq_false_iff, ne_eq, hmark]
    exact fun hmem => hrow.not_mem (List.mem_append_right _ hmem) hc
  intro c hc
  cases h with
  | plain _ =>
      exact hnotDigit _ hwhole c hc
  | pointed =>
      rcases List.mem_append.mp hc with hc | hc
      · exact hnotDigit _ hwhole c hc
      · rcases List.mem_cons.mp hc with rfl | hc
        · exact hnotPoint
        · exact hnotDigit _ hfraction c hc

theorem bodyText_iff (hmark : forall c, isMark c = true <-> c ∈ numeral.base.marks) :
    numeral.BodyText text <->
      pointCut (exponentCut isMark text).1 = (numeral.whole, numeral.fraction) ∧
        (exponentCut isMark text).2 = some numeral.exponent ∧
        numeral.whole ++ numeral.fraction ≠ [] ∧
        numeral.base.IsRow (numeral.whole ++ numeral.fraction) := by
  constructor
  · rintro ⟨hne, hrow, digits, exponent, hdigits, hexponent, rfl⟩
    have hcut : exponentCut isMark (digits ++ exponent) = (digits, some numeral.exponent) := by
      unfold exponentCut
      cases hexponent with
      | absent hzero =>
          rw [List.append_nil, Text.cutAt?_eq_none_iff.mpr (hdigits.not_isMark hrow hmark), hzero]
      | marked hmem hinteger hvalue =>
          rw [Text.cutAt?_eq_some_iff.mpr
            ⟨_, (hmark _).mpr hmem, hdigits.not_isMark hrow hmark, rfl⟩]
          dsimp only
          rw [hvalue, Floating.Literal.exponent?_eq_some_iff.mpr ⟨_, _, hinteger, rfl⟩]
    rw [hcut]
    exact ⟨pointCut_of_digitsText hrow hdigits, rfl, hne, hrow⟩
  · rintro ⟨hpoint, hexponent, hne, hrow⟩
    refine ⟨hne, hrow, ?_⟩
    have hdigits := digitsText_of_pointCut hpoint
    unfold exponentCut at hdigits hexponent
    cases hcut : Text.cutAt? isMark text with
    | none =>
        rw [hcut] at hdigits hexponent
        have hzero := (Option.some.inj hexponent).symm
        exact ⟨text, [], hdigits, ExponentText.absent hzero, (List.append_nil _).symm⟩
    | some cut =>
        rcases cut with ⟨before, after⟩
        rw [hcut] at hdigits hexponent
        rcases Text.cutAt?_eq_some_iff.mp hcut with ⟨c, hc, _, rfl⟩
        rcases Floating.Literal.exponent?_eq_some_iff.mp hexponent with
          ⟨negative, magnitude, hinteger, hvalue⟩
        exact ⟨before, c :: after, hdigits,
          ExponentText.marked ((hmark c).mp hc) hinteger hvalue, rfl⟩

end Numeral

namespace Floating

/-!
## Literals

In both bases literals are read exactly from the texts that have their form.
-/

namespace Literal

def numeral (literal : Literal) : Numeral :=
  { base := .ten
    whole := literal.whole
    fraction := literal.fraction
    exponent := literal.exponent }

theorem isExponentMark_iff (c : Char) : isExponentMark c = true <-> c ∈ Base.ten.marks := by
  simp [isExponentMark, Base.marks]

theorem read?_eq (text : List Char) :
    read? text =
      let cut := Numeral.exponentCut isExponentMark text
      let point := Numeral.pointCut cut.1
      match cut.2 with
      | some exponent =>
          if point.1 ++ point.2 ≠ [] ∧ (point.1 ++ point.2).all Char.isDigit then
            some { whole := point.1, fraction := point.2, exponent }
          else
            none
      | none => none :=
  rfl

theorem read?_eq_some_iff {text : List Char} {literal : Literal} :
    read? text = some literal <-> literal.numeral.BodyText text := by
  rw [Numeral.bodyText_iff isExponentMark_iff, read?_eq]
  dsimp only [numeral]
  rw [Base.isRow_ten_iff]
  generalize Numeral.exponentCut isExponentMark text = cut
  generalize Numeral.pointCut cut.1 = point
  constructor
  · intro h
    split at h
    · next exponent hexponent =>
        split at h
        · next hdigits =>
            cases h
            exact ⟨rfl, hexponent, hdigits⟩
        · cases h
    · cases h
  · rintro ⟨rfl, hexponent, hdigits⟩
    rw [hexponent]
    exact if_pos hdigits

end Literal

namespace HexDigits

def pushRow (afterPoint : Bool) (read : HexDigits) (row : List Char) : HexDigits :=
  row.foldl (fun read c => read.push afterPoint (Base.sixteen.digit c)) read

theorem pushAll?_eq_some_iff {afterPoint : Bool} {row : List Char} {read result : HexDigits} :
    read.pushAll? afterPoint row = some result <->
      Base.sixteen.IsRow row ∧ read.pushRow afterPoint row = result :=
  Base.sixteen.foldlM_digit?_eq_some_iff

end HexDigits

namespace HexLiteral

theorem isExponentMark_iff (c : Char) : isExponentMark c = true <-> c ∈ Base.sixteen.marks := by
  simp [isExponentMark, Base.marks]

def digitsOf (numeral : Numeral) : HexDigits :=
  (HexDigits.none.pushRow false numeral.whole).pushRow true numeral.fraction

def ofNumeral (numeral : Numeral) : HexLiteral :=
  { bits := (digitsOf numeral).bits
    shift := max (-shiftLimit) (min shiftLimit (numeral.exponent + (digitsOf numeral).scale))
    truncated := (digitsOf numeral).truncated }

theorem read?_eq (text : List Char) :
    read? text =
      let cut := Numeral.exponentCut isExponentMark text
      (digits? cut.1).bind fun read => cut.2.map fun exponent =>
        { bits := read.bits
          shift := max (-shiftLimit) (min shiftLimit (exponent + read.scale))
          truncated := read.truncated } := by
  unfold read? Numeral.exponentCut
  rcases Text.cutAt? isExponentMark text with _ | ⟨digits, written⟩
  · cases hdigits : digits? text <;> simp [hdigits]
  · cases hdigits : digits? digits <;> cases hwritten : Literal.exponent? written <;>
      simp [hdigits, hwritten]

theorem digits?_eq_some_iff {text : List Char} {read : HexDigits} :
    digits? text = some read <->
      exists whole fraction, Numeral.pointCut text = (whole, fraction) ∧
        whole ++ fraction ≠ [] ∧ Base.sixteen.IsRow (whole ++ fraction) ∧
        read = (HexDigits.none.pushRow false whole).pushRow true fraction := by
  have hcut : digits? text =
      let point := Numeral.pointCut text
      if point.1 = [] ∧ point.2 = [] then
        none
      else
        (HexDigits.none.pushAll? false point.1).bind fun read => read.pushAll? true point.2 := rfl
  rw [hcut]
  rcases Numeral.pointCut text with ⟨whole, fraction⟩
  dsimp only
  constructor
  · intro h
    split at h
    · cases h
    · next hparts =>
        have hne : whole ++ fraction ≠ [] := fun hnil => hparts (List.append_eq_nil_iff.mp hnil)
        rcases Option.bind_eq_some_iff.mp h with ⟨first, hwhole, hfraction⟩
        rcases HexDigits.pushAll?_eq_some_iff.mp hwhole with ⟨hwholeRow, rfl⟩
        rcases HexDigits.pushAll?_eq_some_iff.mp hfraction with ⟨hfractionRow, rfl⟩
        exact ⟨whole, fraction, rfl, hne, Base.isRow_append.mpr ⟨hwholeRow, hfractionRow⟩, rfl⟩
  · rintro ⟨_, _, heq, hne, hrow, rfl⟩
    cases heq
    rcases Base.isRow_append.mp hrow with ⟨hwhole, hfraction⟩
    rw [if_neg fun hparts => hne (List.append_eq_nil_iff.mpr hparts),
      HexDigits.pushAll?_eq_some_iff.mpr ⟨hwhole, rfl⟩]
    exact HexDigits.pushAll?_eq_some_iff.mpr ⟨hfraction, rfl⟩

theorem read?_eq_some_iff {text : List Char} {literal : HexLiteral} :
    read? text = some literal <->
      exists numeral : Numeral, numeral.base = .sixteen ∧ numeral.BodyText text ∧
        literal = ofNumeral numeral := by
  rw [read?_eq]
  dsimp only
  constructor
  · intro h
    rcases Option.bind_eq_some_iff.mp h with ⟨read, hread, h⟩
    rcases Option.map_eq_some_iff.mp h with ⟨exponent, hexponent, rfl⟩
    rcases digits?_eq_some_iff.mp hread with ⟨whole, fraction, hpoint, hne, hrow, rfl⟩
    refine ⟨{ base := .sixteen, whole, fraction, exponent }, rfl, ?_, rfl⟩
    exact (Numeral.bodyText_iff isExponentMark_iff).mpr ⟨hpoint, hexponent, hne, hrow⟩
  · rintro ⟨⟨base, whole, fraction, exponent⟩, hbase, hbody, rfl⟩
    cases hbase
    rcases (Numeral.bodyText_iff isExponentMark_iff).mp hbody with
      ⟨hpoint, hexponent, hne, hrow⟩
    rw [digits?_eq_some_iff.mpr ⟨whole, fraction, hpoint, hne, hrow, rfl⟩, hexponent]
    rfl

end HexLiteral

end Floating

end VideoConfig
