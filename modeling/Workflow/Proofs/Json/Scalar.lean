import Workflow.Json.Reader.Value
import Workflow.Proofs.Json.Spelled

namespace Workflow.Json

namespace Reader

/-- Nothing is ahead, or a space, or one of the marks that stand behind values. -/
def Delimited (s : List Char) : Prop :=
  ∀ c ∈ s.head?, isSpace c = true ∨ c = ',' ∨ c = ']' ∨ c = '}'

/-- The reader takes from the text ahead what is written there for a value, and gives the value. -/
def Reads {α : Type} (reader : Reader α) (written : List Char) (a : α) : Prop :=
  ∀ rest, Delimited rest → reader (written ++ rest) = .ok (a, rest)

namespace Delimited

theorem nil : Delimited [] := nofun

theorem comma (rest : List Char) : Delimited (',' :: rest) := by
  rintro c ⟨⟩
  exact Or.inr (Or.inl rfl)

theorem bracket (rest : List Char) : Delimited (']' :: rest) := by
  rintro c ⟨⟩
  exact Or.inr (Or.inr (Or.inl rfl))

theorem brace (rest : List Char) : Delimited ('}' :: rest) := by
  rintro c ⟨⟩
  exact Or.inr (Or.inr (Or.inr rfl))

theorem cases {c : Char} {rest : List Char} (h : Delimited (c :: rest)) :
    c = ' ' ∨ c = '\t' ∨ c = '\n' ∨ c = '\r' ∨ c = ',' ∨ c = ']' ∨ c = '}' := by
  have hc := h c rfl
  simpa [isSpace, or_assoc] using hc

/-- Behind a value no digit is ahead, so a number ends where it was written to end. -/
theorem digitAhead {s : List Char} (h : Delimited s) : digitAhead s = false := by
  cases s with
  | nil => rfl
  | cons c rest => obtain rfl | rfl | rfl | rfl | rfl | rfl | rfl := h.cases <;> rfl

end Delimited

@[simp] theorem skipSpace_cons {c : Char} (h : isSpace c = false) (rest : List Char) :
    skipSpace (c :: rest) = c :: rest := by
  rw [skipSpace, List.dropWhile_cons_of_neg (by simp [h])]

theorem isDigit_iff {c : Char} : isDigit c = true ↔ c.isDigit = true := by
  simp [isDigit, Char.isDigit, Char.le_def]

/-- More digits make no number smaller. -/
theorem le_ofDigitChars (digits : List Char) (m : Nat) : m ≤ Nat.ofDigitChars 10 digits m := by
  rw [Nat.ofDigitChars_eq_ofDigitChars_zero]
  have hscaled : m ≤ 10 ^ digits.length * m :=
    Nat.le_mul_of_pos_left m (Nat.pow_pos (by decide))
  exact Nat.le_trans hscaled (Nat.le_add_right _ _)

/-- Digits are taken as long as the number fits. -/
theorem takeDigits_append {digits rest : List Char} (hdigits : ∀ c ∈ digits, isDigit c = true)
    (hrest : digitAhead rest = false) (m taken : Nat)
    (hfits : Nat.ofDigitChars 10 digits m < UInt64.size) :
    takeDigits m taken (digits ++ rest) =
      (Nat.ofDigitChars 10 digits m, taken + digits.length, rest) := by
  induction digits generalizing m taken with
  | nil =>
    cases rest with
    | nil => rfl
    | cons c rest =>
      have hc : isDigit c = false := hrest
      simp [takeDigits, hc]
  | cons c digits ih =>
    obtain ⟨hc, hmore⟩ := List.forall_mem_cons.mp hdigits
    have hnext : 10 * m + (c.toNat - '0'.toNat) = m * 10 + digitValue c := by
      rw [Nat.mul_comm, digitValue]
    rw [Nat.ofDigitChars_cons, hnext] at hfits ⊢
    have hprefix := Nat.lt_of_le_of_lt (le_ofDigitChars digits (m * 10 + digitValue c)) hfits
    rw [List.cons_append, takeDigits, if_pos ⟨hc, hprefix⟩, ih hmore _ _ hfits, List.length_cons,
      Nat.add_right_comm, Nat.add_assoc]

theorem isDigit_of_mem_toDigits {n : Nat} {c : Char} (h : c ∈ Nat.toDigits 10 n) :
    isDigit c = true :=
  isDigit_iff.mpr (Nat.isDigit_of_mem_toDigits (by decide) (by decide) h)

theorem digitChar_ne_zero : ∀ n < 10, 0 < n → n.digitChar ≠ '0' := by decide

/-- A positive number is not written with a leading zero. -/
theorem exists_leading_digit {n : Nat} (h : 0 < n) :
    ∃ c rest, Nat.toDigits 10 n = c :: rest ∧ c ≠ '0' := by
  induction n using Nat.strongRecOn with
  | _ n ih =>
    by_cases hsmall : n < 10
    · exact ⟨n.digitChar, [], Nat.toDigits_of_lt_base hsmall, digitChar_ne_zero n hsmall h⟩
    · obtain ⟨c, rest, hdigits, hc⟩ := ih (n / 10) (by omega) (by omega)
      rw [Nat.toDigits_of_base_le (by decide) (by omega), hdigits]
      exact ⟨c, _, rfl, hc⟩

/-- In front of a delimiter a number is a whole one. -/
theorem afterWhole_delimited {s : List Char} (h : Delimited s) (negative : Bool) (m : Nat) :
    afterWhole negative m 0 s = .ok (whole negative m, s) := by
  cases s with
  | nil => rfl
  | cons c rest => obtain rfl | rfl | rfl | rfl | rfl | rfl | rfl := h.cases <;> rfl

/-- The digits of a number that fits in 64 bits are read as that number. -/
theorem unsigned_toDigits {m : Nat} (hfits : m < UInt64.size) (negative : Bool) :
    Reads (unsigned negative) (Nat.toDigits 10 m) (whole negative m) := by
  intro rest hrest
  obtain rfl | hpos := m.eq_zero_or_pos
  · rw [Nat.toDigits_zero]
    simp only [List.cons_append, List.nil_append, unsigned, if_true, hrest.digitAhead,
      Bool.false_eq_true, if_false]
    exact afterWhole_delimited hrest negative 0
  · obtain ⟨c, more, hdigits, hleading⟩ := exists_leading_digit hpos
    have hall : ∀ d ∈ c :: more, isDigit d = true := fun d hd =>
      isDigit_of_mem_toDigits (hdigits ▸ hd)
    obtain ⟨hc, hmore⟩ := List.forall_mem_cons.mp hall
    have hvalue : Nat.ofDigitChars 10 more (digitValue c) = m := by
      have hread := Nat.ofDigitChars_ten_toDigits (n := m)
      rwa [hdigits, Nat.ofDigitChars_cons, Nat.mul_zero, Nat.zero_add] at hread
    have htake := takeDigits_append hmore hrest.digitAhead (digitValue c) 0 (hvalue.symm ▸ hfits)
    have hnone : rest.takeWhile isDigit = [] ∧ rest.dropWhile isDigit = rest := by
      cases rest with
      | nil => exact ⟨rfl, rfl⟩
      | cons d rest => simp [show isDigit d = false from hrest.digitAhead]
    rw [hdigits, List.cons_append, unsigned, if_neg hleading, if_pos hc, htake]
    simp only [hvalue, hnone, List.length_nil]
    exact afterWhole_delimited hrest negative m

/-- A whole number that is read as one: it fits in 64 bits, with or without a sign. -/
def Fits (n : Int) : Prop := -(UInt64.size / 2 : Nat) ≤ n ∧ n < UInt64.size

instance (n : Int) : Decidable (Fits n) := inferInstanceAs (Decidable (_ ∧ _))

theorem number_cons {c : Char} (h : isDigit c = true) (rest : List Char) :
    number (c :: rest) = unsigned false (c :: rest) := by
  unfold number
  split
  · next heq =>
    cases heq
    cases h
  · rfl

/-- A whole number is read back. -/
theorem reads_number {n : Int} (h : Fits n) : Reads number (writeInt n) (.int n) := by
  intro rest hrest
  cases n with
  | ofNat m =>
    obtain ⟨c, more, hdigits⟩ := List.exists_cons_of_ne_nil (Nat.toDigits_ne_nil (n := m) (b := 10))
    have hc : isDigit c = true := isDigit_of_mem_toDigits (hdigits ▸ List.mem_cons_self)
    have hread := unsigned_toDigits (Int.ofNat_lt.mp h.2) false rest hrest
    rw [writeInt, hdigits, List.cons_append, number_cons hc, ← List.cons_append, ← hdigits, hread]
    rfl
  | negSucc m =>
    have hbound : m + 1 ≤ UInt64.size / 2 := by
      have hlow := h.1
      omega
    have hfits : m + 1 < UInt64.size := by
      simp only [UInt64.size] at hbound ⊢
      omega
    have hread := unsigned_toDigits hfits true rest hrest
    rw [writeInt, List.cons_append, number, hread, whole, if_pos rfl, if_neg (by omega)]
    rfl

theorem scalar_number {c : Char} (h : c = '-' ∨ isDigit c = true) (rest : List Char) :
    scalar (c :: rest) = number (c :: rest) := by
  have hletters : c ≠ 'n' ∧ c ≠ 't' ∧ c ≠ 'f' ∧ c ≠ '"' := by
    refine ⟨?_, ?_, ?_, ?_⟩ <;>
    · rintro rfl
      revert h
      decide
  rw [scalar, if_neg hletters.1, if_neg hletters.2.1, if_neg hletters.2.2.1,
    if_neg hletters.2.2.2, if_pos h]

/-- A whole number is written with a sign or a digit in front. -/
theorem exists_writeInt_cons (n : Int) :
    ∃ c rest, writeInt n = c :: rest ∧ (c = '-' ∨ isDigit c = true) := by
  cases n with
  | ofNat m =>
    obtain ⟨c, rest, hdigits⟩ := List.exists_cons_of_ne_nil (Nat.toDigits_ne_nil (n := m) (b := 10))
    exact ⟨c, rest, hdigits, Or.inr (isDigit_of_mem_toDigits (hdigits ▸ List.mem_cons_self))⟩
  | negSucc m => exact ⟨'-', _, rfl, Or.inl rfl⟩

/-- A whole number is read back as a value. -/
theorem scalar_writeInt {n : Int} (h : Fits n) : Reads scalar (writeInt n) (.int n) := by
  intro rest hrest
  obtain ⟨c, more, hwritten, hc⟩ := exists_writeInt_cons n
  rw [← reads_number h rest hrest, hwritten]
  exact scalar_number hc (more ++ rest)

/-- A quoted text is read as that text, however it is spelled. -/
theorem reads_quoted {s : String} {written : List Char} (h : Quoted s written) :
    Reads scalar written (.text s) := by
  obtain ⟨spelled, rfl, hspells⟩ := h
  intro rest _
  have hread := text_spelled hspells rest
  simp [scalar, hread, Except.map]

theorem scalar_null : Reads scalar ['n', 'u', 'l', 'l'] .null := fun _ _ => rfl

theorem scalar_true : Reads scalar ['t', 'r', 'u', 'e'] (.bool true) := fun _ _ => rfl

theorem scalar_false : Reads scalar ['f', 'a', 'l', 's', 'e'] (.bool false) := fun _ _ => rfl

end Reader

end Workflow.Json
