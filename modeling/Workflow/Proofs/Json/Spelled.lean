import Workflow.Json.Printer
import Workflow.Json.Reader.Text

namespace Workflow.Json

/-- The character stands for itself between quotes. -/
structure Raw (c : Char) : Prop where
  quote : c ≠ '"'
  escape : c ≠ '\\'
  control : ¬ c.toNat < 0x20

instance (c : Char) : Decidable (Raw c) :=
  decidable_of_iff (c ≠ '"' ∧ c ≠ '\\' ∧ ¬ c.toNat < 0x20)
    ⟨fun h => ⟨h.1, h.2.1, h.2.2⟩, fun h => ⟨h.1, h.2, h.3⟩⟩

/-- The characters between two quotes and the characters that they stand for. -/
inductive Spells : List Char → List Char → Prop where
  | nil : Spells [] []
  | raw {c : Char} {spelled meant : List Char} (hraw : Raw c) (hrest : Spells spelled meant) :
      Spells (c :: spelled) (c :: meant)
  | letter {l c : Char} {spelled meant : List Char} (hletter : Reader.letterEscape? l = some c)
      (hrest : Spells spelled meant) : Spells ('\\' :: l :: spelled) (c :: meant)
  | unit {a b c d : Char} {n : Nat} {spelled meant : List Char}
      (hunit : Reader.hexFour? a b c d = some n) (hsingle : n < 0xD800 ∨ 0xDFFF < n)
      (hrest : Spells spelled meant) :
      Spells ('\\' :: 'u' :: a :: b :: c :: d :: spelled) (Char.ofNat n :: meant)
  | pair {a b c d e f g h : Char} {high low : Nat} {spelled meant : List Char}
      (hhigh : Reader.hexFour? a b c d = some high) (hleads : 0xD800 ≤ high ∧ high ≤ 0xDBFF)
      (hlow : Reader.hexFour? e f g h = some low) (htrails : 0xDC00 ≤ low ∧ low ≤ 0xDFFF)
      (hrest : Spells spelled meant) :
      Spells ('\\' :: 'u' :: a :: b :: c :: d :: '\\' :: 'u' :: e :: f :: g :: h :: spelled)
        (Reader.pairedChar high low :: meant)

/-- The digits that a control character is written with are its number. -/
theorem hexFour?_hexDigit : ∀ n < 0x20,
    Reader.hexFour? '0' '0' (hexDigit (n / 16)) (hexDigit (n % 16)) = some n := by decide

namespace Spells

variable {spelled meant : List Char}

/-- What is written for a character spells it. -/
theorem writeChar (c : Char) (h : Spells spelled meant) :
    Spells (writeChar c ++ spelled) (c :: meant) := by
  unfold Json.writeChar
  -- Seven characters are escaped with a letter.
  iterate 7
    split
    · next hc =>
      subst hc
      exact .letter rfl h
  split
  · next hcontrol =>
    have hunit := Spells.unit (hexFour?_hexDigit _ hcontrol) (Or.inl (by omega)) h
    rwa [Char.ofNat_toNat] at hunit
  · next hquote hescape _ _ _ _ _ hcontrol => exact .raw ⟨hquote, hescape, hcontrol⟩ h

/-- What is written for a list of characters spells them. -/
theorem written (chars : List Char) : Spells (chars.flatMap Json.writeChar) chars := by
  induction chars with
  | nil => exact .nil
  | cons c chars ih => exact ih.writeChar c

end Spells

/-- The text is written between quotes as it is. -/
def Unescaped (s : List Char) : Prop := ∀ c ∈ s, Raw c

instance (s : List Char) : Decidable (Unescaped s) :=
  decidable_of_iff (s.all (decide <| Raw ·) = true) (by simp [Unescaped])

/-- Characters that need no escape stand for themselves. -/
theorem Unescaped.spells {s : List Char} (h : Unescaped s) : Spells s s := by
  induction s with
  | nil => exact .nil
  | cons c s ih =>
    obtain ⟨hraw, hmore⟩ := List.forall_mem_cons.mp h
    exact .raw hraw (ih hmore)

theorem Unescaped.notMem {s : List Char} (h : Unescaped s) : '"' ∉ s :=
  fun hmem => (h '"' hmem).quote rfl

/-- A character that needs no escape is written as it is. -/
theorem writeChar_of_raw {c : Char} (h : Raw c) : writeChar c = [c] := by
  have hne : ∀ control : Char, control.toNat < 0x20 → c ≠ control := by
    rintro control hlow rfl
    exact h.control hlow
  simp [writeChar, h.quote, h.escape, h.control, hne '\x08' (by decide), hne '\x0c' (by decide),
    hne '\n' (by decide), hne '\r' (by decide), hne '\t' (by decide)]

/-- Any other character is written with a backslash in front. -/
theorem writeChar_of_not_raw {c : Char} (h : ¬ Raw c) : ∃ more, writeChar c = '\\' :: more := by
  unfold writeChar
  iterate 7
    split
    · exact ⟨_, rfl⟩
  split
  · exact ⟨_, rfl⟩
  · next hquote hescape _ _ _ _ _ hcontrol => exact absurd ⟨hquote, hescape, hcontrol⟩ h

/-- A text is written as it is, or with an escape in front of which there is no quote. -/
theorem unescaped_or_escape (s : List Char) :
    (Unescaped s ∧ s.flatMap writeChar = s) ∨ ¬ Unescaped s ∧
      ∃ front more, '"' ∉ front ∧ s.flatMap writeChar = front ++ '\\' :: more := by
  induction s with
  | nil => exact Or.inl ⟨List.forall_mem_nil _, rfl⟩
  | cons c s ih =>
    rw [List.flatMap_cons]
    by_cases hc : Raw c
    · rw [writeChar_of_raw hc]
      obtain ⟨hplain, hwritten⟩ | ⟨hescaped, front, more, hquote, hwritten⟩ := ih
      · exact Or.inl ⟨List.forall_mem_cons.mpr ⟨hc, hplain⟩, by rw [hwritten]; rfl⟩
      · refine Or.inr ⟨fun h => hescaped (List.forall_mem_cons.mp h).2, c :: front, more, ?_, ?_⟩
        · rw [List.mem_cons, not_or]
          exact ⟨Ne.symm hc.quote, hquote⟩
        · rw [hwritten]
          rfl
    · obtain ⟨more, hwritten⟩ := writeChar_of_not_raw hc
      refine Or.inr ⟨fun h => hc (List.forall_mem_cons.mp h).1, [], more ++ s.flatMap writeChar,
        List.not_mem_nil, ?_⟩
      rw [hwritten]
      rfl

/-- The characters of a text between its quotes. -/
def Quoted (s : String) (written : List Char) : Prop :=
  ∃ spelled, written = '"' :: (spelled ++ ['"']) ∧ Spells spelled s.toList

/-- What is written for a text is one of the ways to spell it. -/
theorem quoted_writeText (s : String) : Quoted s (writeText s) :=
  ⟨_, rfl, .written s.toList⟩

namespace Reader

theorem textChars_quote (rest : List Char) : textChars ('"' :: rest) = .ok ([], rest) := by
  rw [textChars]

/-- An escape stands for one character of the text. -/
theorem textChars_escape {s after : List Char} {c : Char} (h : escaped s = .ok (c, after)) :
    textChars ('\\' :: s) = (textChars after).map fun read => (c :: read.1, read.2) := by
  rw [textChars]
  split
  · next herror => cases h.symm.trans herror
  · next hread =>
    cases h.symm.trans hread
    cases textChars after <;> rfl

/-- A character that needs no escape stands for itself. -/
theorem textChars_raw {c : Char} (h : Raw c) (rest : List Char) :
    textChars (c :: rest) = (textChars rest).map fun read => (c :: read.1, read.2) := by
  rw [textChars]
  · rw [if_neg h.control]
    cases textChars rest <;> rfl
  · exact h.quote
  · exact h.escape

theorem four_le_byteLength (a b c d : Char) (rest : List Char) :
    ¬ byteLength (a :: b :: c :: d :: rest) < 4 := by
  have ha := a.utf8Size_pos
  have hb := b.utf8Size_pos
  have hc := c.utf8Size_pos
  have hd := d.utf8Size_pos
  simp only [byteLength]
  omega

theorem hexUnit_eq {a b c d : Char} {n : Nat} (h : hexFour? a b c d = some n) (rest : List Char) :
    hexUnit (a :: b :: c :: d :: rest) = .ok (n, rest) := by
  rw [hexUnit, if_neg (four_le_byteLength _ _ _ _ _)]
  simp only [h]

/-- An escape of one letter is read as the character that it stands for. -/
theorem escaped_letter {l c : Char} (h : letterEscape? l = some c) (rest : List Char) :
    escaped (l :: rest) = .ok (c, rest) := by
  simp only [escaped, h]

/-- A numeric escape outside of the surrogates is read as that character. -/
theorem escaped_unit {a b c d : Char} {n : Nat} (h : hexFour? a b c d = some n)
    (hsingle : n < 0xD800 ∨ 0xDFFF < n) (rest : List Char) :
    escaped ('u' :: a :: b :: c :: d :: rest) = .ok (Char.ofNat n, rest) := by
  have hread : unitEscape (a :: b :: c :: d :: rest) = .ok (Char.ofNat n, rest) := by
    simp only [unitEscape, hexUnit_eq h, bind, Except.bind]
    rw [if_neg (by omega), if_neg (by omega)]
  simpa [escaped, letterEscape?] using hread

/-- Two numeric escapes that form a surrogate pair are read as one character. -/
theorem escaped_pair {a b c d e f g h : Char} {high low : Nat}
    (hhigh : hexFour? a b c d = some high) (hleads : 0xD800 ≤ high ∧ high ≤ 0xDBFF)
    (hlow : hexFour? e f g h = some low) (htrails : 0xDC00 ≤ low ∧ low ≤ 0xDFFF)
    (rest : List Char) :
    escaped ('u' :: a :: b :: c :: d :: '\\' :: 'u' :: e :: f :: g :: h :: rest) =
      .ok (pairedChar high low, rest) := by
  have hsecond : lowSurrogate high ('\\' :: 'u' :: e :: f :: g :: h :: rest) =
      .ok (pairedChar high low, rest) := by
    simp only [lowSurrogate, if_true, lowUnit, hexUnit_eq hlow, bind, Except.bind]
    rw [if_pos htrails]
  have hread : unitEscape (a :: b :: c :: d :: '\\' :: 'u' :: e :: f :: g :: h :: rest) =
      .ok (pairedChar high low, rest) := by
    simp only [unitEscape, hexUnit_eq hhigh, bind, Except.bind]
    rw [if_neg (by omega), if_pos hleads, hsecond]
  simpa [escaped, letterEscape?] using hread

/-- However its characters are spelled, a text is read up to its closing quote. -/
theorem textChars_spelled {spelled meant : List Char} (h : Spells spelled meant)
    (rest : List Char) : textChars (spelled ++ '"' :: rest) = .ok (meant, rest) := by
  induction h with
  | nil => exact textChars_quote rest
  | raw hraw _ ih =>
    rw [List.cons_append, textChars_raw hraw, ih]
    rfl
  | letter hletter _ ih =>
    rw [List.cons_append, List.cons_append, textChars_escape (escaped_letter hletter _), ih]
    rfl
  | unit hunit hsingle _ ih =>
    simp only [List.cons_append]
    rw [textChars_escape (escaped_unit hunit hsingle _), ih]
    rfl
  | pair hhigh hleads hlow htrails _ ih =>
    simp only [List.cons_append]
    rw [textChars_escape (escaped_pair hhigh hleads hlow htrails _), ih]
    rfl

/-- However its characters are spelled, a text is read behind its opening quote. -/
theorem text_spelled {s : String} {spelled : List Char} (h : Spells spelled s.toList)
    (rest : List Char) : text (spelled ++ '"' :: rest) = .ok (s, rest) := by
  rw [text, textChars_spelled h]
  simp only [bind, Except.bind, pure, Except.pure, String.ofList_toList]

theorem text_unescaped {s : List Char} (hs : Unescaped s) (rest : List Char) :
    text (s ++ '"' :: rest) = .ok (String.ofList s, rest) := by
  have hspells : Spells s (String.ofList s).toList := by
    rw [String.toList_ofList]
    exact hs.spells
  exact text_spelled hspells rest

theorem writeText_append (s : String) (rest : List Char) :
    writeText s ++ rest = '"' :: (s.toList.flatMap writeChar ++ '"' :: rest) := by
  simp [writeText]

/-- Behind its opening quote, a written text is read as that text. -/
theorem text_written (s : String) (rest : List Char) :
    text (s.toList.flatMap writeChar ++ '"' :: rest) = .ok (s, rest) :=
  text_spelled (.written s.toList) rest

end Reader

end Workflow.Json
