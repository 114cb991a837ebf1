import Workflow.Json.Reader.Value

namespace Workflow.Json

/-- The value has no texts in it, and no members either, since these have names. -/
inductive Textless : Json → Prop where
  | null : Textless .null
  | bool (b : Bool) : Textless (.bool b)
  | int (n : Int) : Textless (.int n)
  | float (x : Float) : Textless (.float x)
  | list {items : List Json} (hitems : ∀ item ∈ items, Textless item) : Textless (.list items)
  | empty : Textless (.object [])

/-- The character begins a text, or an escape that can only stand in one. -/
def Mark (c : Char) : Prop := c = '"' ∨ c = '\\'

namespace Mark

variable {mark : Char}

theorem isDigit (h : Mark mark) : Reader.isDigit mark = false := by
  obtain rfl | rfl := h <;> rfl

theorem isSpace (h : Mark mark) : Reader.isSpace mark = false := by
  obtain rfl | rfl := h <;> rfl

theorem ne_bracket (h : Mark mark) : mark ≠ ']' := by
  obtain rfl | rfl := h <;> decide

end Mark

namespace Reader

/-- The text in front of a mark decides what is read. Either what is read ends in front of the mark
and is the same whatever stands behind that, or nothing is read. -/
inductive Settles (reader : Reader Json) (front : List Char) : Prop where
  | read {value : Json} {back : List Char} (htextless : value.Textless) (hback : back <:+ front)
      (h : ∀ mark more, Mark mark →
        reader (front ++ mark :: more) = .ok (value, back ++ mark :: more))
  | fails (h : ∀ mark more, Mark mark → ∃ fault, reader (front ++ mark :: more) = .error fault)

/-- A reader may go on as another one behind the first characters. -/
theorem Settles.of_eq {reader other : Reader Json} {front back : List Char}
    (hother : Settles other back) (hback : back <:+ front)
    (h : ∀ mark more, Mark mark →
      reader (front ++ mark :: more) = other (back ++ mark :: more)) : Settles reader front := by
  cases hother with
  | read htextless hrest hread =>
    exact .read htextless (hrest.trans hback) fun mark more hmark =>
      (h mark more hmark).trans (hread mark more hmark)
  | fails hfault =>
    refine .fails fun mark more hmark => ?_
    obtain ⟨fault, hread⟩ := hfault mark more hmark
    exact ⟨fault, (h mark more hmark).trans hread⟩

/-- Taking digits stops in front of a mark. -/
theorem takeDigits_mark (m taken : Nat) (front : List Char) :
    ∃ n count back, back <:+ front ∧ ∀ mark more, Mark mark →
      takeDigits m taken (front ++ mark :: more) = (n, count, back ++ mark :: more) := by
  induction front generalizing m taken with
  | nil =>
    refine ⟨m, taken, [], List.suffix_refl _, fun mark more hmark => ?_⟩
    simp [takeDigits, hmark.isDigit]
  | cons c front ih =>
    by_cases hc : isDigit c = true ∧ m * 10 + digitValue c < UInt64.size
    · obtain ⟨n, count, back, hback, hread⟩ := ih (m * 10 + digitValue c) (taken + 1)
      refine ⟨n, count, back, hback.trans (List.suffix_cons c front), fun mark more hmark => ?_⟩
      rw [List.cons_append, takeDigits, if_pos hc, hread mark more hmark]
    · refine ⟨m, taken, c :: front, List.suffix_refl _, fun mark more _ => ?_⟩
      rw [List.cons_append, takeDigits, if_neg hc]

/-- The digits of an exponent end in front of a mark. -/
theorem exponentDigits_mark (n : Nat) (front : List Char) :
    ∃ found back, back <:+ front ∧ ∀ mark more, Mark mark →
      exponentDigits n (front ++ mark :: more) = (found, back ++ mark :: more) := by
  induction front generalizing n with
  | nil =>
    refine ⟨some n, [], List.suffix_refl _, fun mark more hmark => ?_⟩
    simp [exponentDigits, hmark.isDigit]
  | cons c front ih =>
    by_cases hc : isDigit c = true
    · by_cases hlarge : n * 10 + digitValue c > exponentBound
      · refine ⟨none, front, List.suffix_cons c front, fun mark more _ => ?_⟩
        rw [List.cons_append, exponentDigits, if_pos hc, if_pos hlarge]
      · obtain ⟨found, back, hback, hread⟩ := ih (n * 10 + digitValue c)
        refine ⟨found, back, hback.trans (List.suffix_cons c front), fun mark more hmark => ?_⟩
        rw [List.cons_append, exponentDigits, if_pos hc, if_neg hlarge, hread mark more hmark]
    · refine ⟨some n, c :: front, List.suffix_refl _, fun mark more _ => ?_⟩
      rw [List.cons_append, exponentDigits, if_neg hc]

/-- A mark is no digit. -/
theorem digitAhead_mark (front : List Char) {mark : Char} (h : Mark mark) (more : List Char) :
    digitAhead (front ++ mark :: more) = digitAhead front := by
  cases front with
  | nil => exact h.isDigit
  | cons c front => rfl

theorem dropWhile_mark (front : List Char) {mark : Char} (h : Mark mark) (more : List Char) :
    (front ++ mark :: more).dropWhile isDigit = front.dropWhile isDigit ++ mark :: more := by
  rw [List.dropWhile_append]
  split
  · next hempty =>
    rw [List.isEmpty_iff.mp hempty]
    simp [h.isDigit]
  · rfl

theorem takeWhile_mark (front : List Char) {mark : Char} (h : Mark mark) (more : List Char) :
    (front ++ mark :: more).takeWhile isDigit = front.takeWhile isDigit := by
  rw [List.takeWhile_append]
  split
  · next hall =>
    rw [List.takeWhile_cons_of_neg (by simp [h.isDigit]), List.append_nil]
    exact ((List.takeWhile_prefix isDigit).eq_of_length hall).symm
  · rfl

/-- What is made of the parts of a number does not depend on what stands behind it. -/
theorem assembled_settles (negative : Bool) (m : Nat) (exponent : Int) (front : List Char) :
    Settles (assembled negative m exponent) front := by
  unfold assembled
  cases assemble? m exponent with
  | none => exact .fails fun _ _ _ => ⟨_, rfl⟩
  | some x => exact .read (.float _) (List.suffix_refl _) fun _ _ _ => rfl

/-- An exponent ends in front of the next mark. -/
theorem unsignedExponent_settles (negative : Bool) (m : Nat) (exponent : Int) (up : Bool)
    (front : List Char) : Settles (unsignedExponent negative m exponent up) front := by
  cases front with
  | nil =>
    refine .fails fun mark more hmark => ⟨faultAt .invalidNumber (mark :: more), ?_⟩
    rw [List.nil_append, unsignedExponent, if_neg (by simp [hmark.isDigit])]
  | cons c front =>
    by_cases hc : isDigit c = true
    · obtain ⟨found, back, hback, hread⟩ := exponentDigits_mark (digitValue c) front
      have hlater := hback.trans (List.suffix_cons c front)
      cases found with
      | some n =>
        refine .of_eq (assembled_settles negative m
          (clampExponent (if up then exponent + n else exponent - n)) back) hlater ?_
        intro mark more hmark
        simp only [List.cons_append, unsignedExponent, if_pos hc, hread mark more hmark]
      | none =>
        by_cases hlarge : m ≠ 0 ∧ up
        · refine .fails fun mark more hmark =>
            ⟨faultBefore .numberOutOfRange (back ++ mark :: more), ?_⟩
          simp only [List.cons_append, unsignedExponent, if_pos hc, hread mark more hmark]
          exact if_pos hlarge
        · refine .read (.float (if negative then -0.0 else 0.0))
            ((List.dropWhile_suffix isDigit).trans hlater) ?_
          intro mark more hmark
          simp only [List.cons_append, unsignedExponent, if_pos hc, hread mark more hmark,
            ← dropWhile_mark back hmark]
          exact if_neg hlarge
    · refine .fails fun mark more _ => ⟨faultAt .invalidNumber (c :: (front ++ mark :: more)), ?_⟩
      rw [List.cons_append, unsignedExponent, if_neg hc]

section Exponent

variable (negative : Bool) (m : Nat) (exponent : Int) {c : Char} {rest : List Char}

theorem optionalExponent_none (hc : ¬ (c = 'e' ∨ c = 'E')) :
    optionalExponent negative m exponent (c :: rest) =
      assembled negative m exponent (c :: rest) := by
  unfold optionalExponent
  exact if_neg hc

theorem optionalExponent_signed (hc : c = 'e' ∨ c = 'E') (up : Bool) :
    optionalExponent negative m exponent (c :: (if up then '+' else '-') :: rest) =
      unsignedExponent negative m exponent up rest := by
  obtain rfl | rfl := hc <;> cases up <;> rfl

theorem optionalExponent_unsigned (hc : c = 'e' ∨ c = 'E') {d : Char} (hplus : d ≠ '+')
    (hminus : d ≠ '-') :
    optionalExponent negative m exponent (c :: d :: rest) =
      unsignedExponent negative m exponent true (d :: rest) := by
  unfold optionalExponent
  simp only [if_pos hc]
  split
  · next heq => exact absurd (List.cons.inj heq).1 hplus
  · next heq => exact absurd (List.cons.inj heq).1 hminus
  · rfl

end Exponent

/-- A number that may have an exponent ends in front of the next mark. -/
theorem optionalExponent_settles (negative : Bool) (m : Nat) (exponent : Int)
    (front : List Char) : Settles (optionalExponent negative m exponent) front := by
  rcases front with _ | ⟨c, front⟩
  · refine .of_eq (assembled_settles negative m exponent []) (List.suffix_refl _) ?_
    rintro mark more (rfl | rfl) <;> rfl
  by_cases hc : c = 'e' ∨ c = 'E'
  · rcases front with _ | ⟨d, front⟩
    · refine .of_eq (unsignedExponent_settles negative m exponent true [])
        (List.suffix_cons c []) ?_
      rintro mark more (rfl | rfl) <;>
        exact optionalExponent_unsigned negative m exponent hc (by decide) (by decide)
    have hsigned : ∀ up : Bool, d = (if up then '+' else '-') →
        Settles (optionalExponent negative m exponent) (c :: d :: front) := by
      rintro up rfl
      exact .of_eq (unsignedExponent_settles negative m exponent up front)
        ((List.suffix_cons _ front).trans (List.suffix_cons c _))
        fun mark more _ => optionalExponent_signed negative m exponent hc up
    by_cases hplus : d = '+'
    · exact hsigned true hplus
    by_cases hminus : d = '-'
    · exact hsigned false hminus
    · exact .of_eq (unsignedExponent_settles negative m exponent true (d :: front))
        (List.suffix_cons c _)
        fun mark more _ => optionalExponent_unsigned negative m exponent hc hplus hminus
  · exact .of_eq (assembled_settles negative m exponent (c :: front)) (List.suffix_refl _)
      fun mark more _ => optionalExponent_none negative m exponent hc

/-- A number with a point ends in front of the next mark. -/
theorem fraction_settles (negative : Bool) (m : Nat) (exponent : Int) (front : List Char) :
    Settles (fraction negative m exponent) front := by
  obtain ⟨n, count, back, hback, hread⟩ := takeDigits_mark m 0 front
  by_cases hmore : digitAhead back = true
  · refine .of_eq (optionalExponent_settles negative n (exponent - count)
      (back.dropWhile isDigit)) ((List.dropWhile_suffix isDigit).trans hback) ?_
    intro mark more hmark
    simp only [fraction, hread mark more hmark, digitAhead_mark back hmark, hmore, if_true,
      dropWhile_mark back hmark]
  · by_cases hnone : count = 0
    · refine .fails fun mark more hmark => ⟨faultAt .invalidNumber (back ++ mark :: more), ?_⟩
      simp only [fraction, hread mark more hmark, digitAhead_mark back hmark, hmore, hnone,
        if_true, if_false, Bool.false_eq_true]
      cases back <;> rfl
    · refine .of_eq (optionalExponent_settles negative n (exponent - count) back) hback ?_
      intro mark more hmark
      simp only [fraction, hread mark more hmark, digitAhead_mark back hmark, hmore, hnone,
        if_false, Bool.false_eq_true]

/-- A number holds no text. -/
theorem textless_whole (negative : Bool) (m : Nat) : (whole negative m).Textless := by
  unfold whole
  split
  · split
    · exact .float _
    · exact .int _
  · exact .int _

theorem afterWhole_settles (negative : Bool) (m dropped : Nat) (front : List Char) :
    Settles (afterWhole negative m dropped) front := by
  have hplain : Settles (fun s =>
      if dropped = 0 then .ok (whole negative m, s) else assembled negative m dropped s) front := by
    by_cases hzero : dropped = 0
    · exact .read (textless_whole negative m) (List.suffix_refl _) fun mark more _ =>
        if_pos hzero
    · exact .of_eq (assembled_settles negative m dropped front) (List.suffix_refl _)
        fun mark more _ => if_neg hzero
  rcases front with _ | ⟨c, front⟩
  · refine .of_eq hplain (List.suffix_refl _) ?_
    rintro mark more (rfl | rfl) <;> rfl
  · by_cases hpoint : c = '.'
    · subst hpoint
      exact .of_eq (fraction_settles negative m dropped front) (List.suffix_cons _ front)
        fun mark more _ => rfl
    · by_cases hc : c = 'e' ∨ c = 'E'
      · refine .of_eq (optionalExponent_settles negative m dropped (c :: front))
          (List.suffix_refl _) fun mark more _ => ?_
        rw [List.cons_append, afterWhole, if_pos hc]
        exact hpoint
      · refine .of_eq hplain (List.suffix_refl _) fun mark more _ => ?_
        rw [List.cons_append, afterWhole, if_neg hc]
        exact hpoint

theorem unsigned_settles (negative : Bool) (front : List Char) :
    Settles (unsigned negative) front := by
  rcases front with _ | ⟨c, front⟩
  · refine .fails fun mark more hmark => ⟨faultAt .invalidNumber (mark :: more), ?_⟩
    obtain rfl | rfl := hmark <;> rfl
  · by_cases hzero : c = '0'
    · subst hzero
      by_cases hmore : digitAhead front = true
      · refine .fails fun mark more hmark => ⟨faultAt .invalidNumber (front ++ mark :: more), ?_⟩
        simp only [List.cons_append, unsigned, digitAhead_mark front hmark, hmore, if_true]
      · refine .of_eq (afterWhole_settles negative 0 0 front) (List.suffix_cons _ front) ?_
        intro mark more hmark
        simp only [List.cons_append, unsigned, digitAhead_mark front hmark, hmore, if_true,
          if_false, Bool.false_eq_true]
    · by_cases hc : isDigit c = true
      · obtain ⟨n, count, back, hback, hread⟩ := takeDigits_mark (digitValue c) 0 front
        refine .of_eq (afterWhole_settles negative n (back.takeWhile isDigit).length
          (back.dropWhile isDigit))
          ((List.dropWhile_suffix isDigit).trans (hback.trans (List.suffix_cons c front))) ?_
        intro mark more hmark
        simp only [List.cons_append, unsigned, if_neg hzero, if_pos hc, hread mark more hmark,
          takeWhile_mark back hmark, dropWhile_mark back hmark]
      · refine .fails fun mark more _ => ⟨faultAt .invalidNumber (c :: (front ++ mark :: more)), ?_⟩
        rw [List.cons_append, unsigned, if_neg hzero, if_neg hc]

/-- A number ends in front of the next mark. -/
theorem number_settles (front : List Char) : Settles number front := by
  rcases front with _ | ⟨c, front⟩
  · refine .of_eq (unsigned_settles false []) (List.suffix_refl _) ?_
    rintro mark more (rfl | rfl) <;> rfl
  · by_cases hminus : c = '-'
    · subst hminus
      exact .of_eq (unsigned_settles true front) (List.suffix_cons _ front) fun mark more _ => rfl
    · refine .of_eq (unsigned_settles false (c :: front)) (List.suffix_refl _) ?_
      intro mark more _
      unfold number
      split
      · next heq => exact absurd (List.cons.inj heq).1 hminus
      · rfl

/-- A word is read in front of the next mark, or not at all. -/
theorem word_settles {letters : List Char} (hletters : ∀ letter ∈ letters, ¬ Mark letter)
    {found : Json} (hfound : found.Textless) (front : List Char) :
    Settles (fun s => (word letters s).map (found, ·)) front := by
  induction letters generalizing front with
  | nil => exact .read hfound (List.suffix_refl _) fun mark more _ => rfl
  | cons letter letters ih =>
    obtain ⟨hletter, hmore⟩ := List.forall_mem_cons.mp hletters
    rcases front with _ | ⟨c, front⟩
    · refine .fails fun mark more hmark => ⟨faultAt .expectedWord (mark :: more), ?_⟩
      have hne : mark ≠ letter := by
        rintro rfl
        exact hletter hmark
      simp only [List.nil_append, word, if_neg hne]
      rfl
    · by_cases hc : c = letter
      · refine .of_eq (ih hmore front) (List.suffix_cons c front) fun mark more _ => ?_
        simp only [List.cons_append, word, if_pos hc]
      · refine .fails fun mark more _ => ⟨faultAt .expectedWord (c :: (front ++ mark :: more)), ?_⟩
        simp only [List.cons_append, word, if_neg hc]
        rfl

/-- Behind its first character, which is not a quote, a value that is neither a list nor an object
is read in front of the next mark. -/
theorem scalar_settles {c : Char} (hquote : c ≠ '"') (front : List Char) :
    Settles scalar (c :: front) := by
  by_cases hn : c = 'n'
  · subst hn
    exact .of_eq (word_settles (by simp [Mark]) .null front) (List.suffix_cons _ front)
      fun mark more _ => rfl
  by_cases ht : c = 't'
  · subst ht
    exact .of_eq (word_settles (by simp [Mark]) (.bool true) front) (List.suffix_cons _ front)
      fun mark more _ => rfl
  by_cases hf : c = 'f'
  · subst hf
    exact .of_eq (word_settles (by simp [Mark]) (.bool false) front) (List.suffix_cons _ front)
      fun mark more _ => rfl
  by_cases hnumber : c = '-' ∨ isDigit c
  · refine .of_eq (number_settles (c :: front)) (List.suffix_refl _) fun mark more _ => ?_
    rw [List.cons_append, scalar, if_neg hn, if_neg ht, if_neg hf, if_neg hquote, if_pos hnumber]
  · refine .fails fun mark more _ => ⟨faultAt .expectedValue (c :: (front ++ mark :: more)), ?_⟩
    rw [List.cons_append, scalar, if_neg hn, if_neg ht, if_neg hf, if_neg hquote, if_neg hnumber]

end Reader

end Workflow.Json
