import Workflow.Json.Reader.Basic

namespace Workflow.Json.Reader

/-- The value of a hexadecimal digit, in either case. -/
def hexValue? (c : Char) : Option Nat :=
  if '0' ≤ c ∧ c ≤ '9' then some (c.toNat - '0'.toNat)
  else if 'a' ≤ c ∧ c ≤ 'f' then some (c.toNat - 'a'.toNat + 10)
  else if 'A' ≤ c ∧ c ≤ 'F' then some (c.toNat - 'A'.toNat + 10)
  else none

/-- The number written with four hexadecimal digits. -/
def hexFour? (a b c d : Char) : Option Nat := do
  let a ← hexValue? a
  let b ← hexValue? b
  let c ← hexValue? c
  let d ← hexValue? d
  return ((a * 16 + b) * 16 + c) * 16 + d

/-- Reads four hexadecimal digits. Four bytes are consumed before they are looked at, and fewer
than four are the end of the text. -/
def hexUnit (s : List Char) : Except Fault (Nat × List Char) :=
  if byteLength s < 4 then .error (faultBefore .endInText [])
  else
    match s with
    | a :: b :: c :: d :: rest =>
      match hexFour? a b c d with
      | some n => .ok (n, rest)
      | none => .error ⟨.invalidEscape, s, 4⟩
    | _ => .error ⟨.invalidEscape, s, 4⟩

/-- The character of a surrogate pair. -/
def pairedChar (high low : Nat) : Char :=
  Char.ofNat (0x10000 + (high - 0xD800) * 0x400 + (low - 0xDC00))

/-- Reads the low surrogate that goes with a high one. -/
def lowUnit (high : Nat) (s : List Char) : Except Fault (Char × List Char) := do
  let (low, rest) ← hexUnit s
  if 0xDC00 ≤ low ∧ low ≤ 0xDFFF then .ok (pairedChar high low, rest)
  else .error (faultBefore .unpairedSurrogate rest)

/-- Reads what follows a high surrogate: the escape of a low one. -/
def lowSurrogate (high : Nat) (s : List Char) : Except Fault (Char × List Char) :=
  match s with
  | [] => .error (faultBefore .endInText [])
  | c :: rest =>
    if c = '\\' then
      match rest with
      | [] => .error (faultBefore .endInText [])
      | d :: more =>
        if d = 'u' then lowUnit high more else .error (faultAt .unfinishedSurrogate (d :: more))
    else .error (faultAt .unfinishedSurrogate (c :: rest))

/-- The character that a one-letter escape stands for. -/
def letterEscape? (c : Char) : Option Char :=
  if c = '"' then some '"'
  else if c = '\\' then some '\\'
  else if c = '/' then some '/'
  else if c = 'b' then some '\x08'
  else if c = 'f' then some '\x0c'
  else if c = 'n' then some '\n'
  else if c = 'r' then some '\r'
  else if c = 't' then some '\t'
  else none

/-- Reads the character that a numeric escape stands for, behind its `u`. -/
def unitEscape (s : List Char) : Except Fault (Char × List Char) := do
  let (n, rest) ← hexUnit s
  if 0xDC00 ≤ n ∧ n ≤ 0xDFFF then .error (faultBefore .unpairedSurrogate rest)
  else if 0xD800 ≤ n ∧ n ≤ 0xDBFF then lowSurrogate n rest
  else .ok (Char.ofNat n, rest)

/-- Reads the character that an escape stands for, behind its backslash. -/
def escaped (s : List Char) : Except Fault (Char × List Char) :=
  match s with
  | [] => .error (faultBefore .endInText [])
  | c :: rest =>
    match letterEscape? c with
    | some meant => .ok (meant, rest)
    | none => if c = 'u' then unitEscape rest else .error (faultAt .invalidEscape (c :: rest))

/-- The digits of an escape are taken off the text. -/
theorem hexUnit_shorter {s rest : List Char} {n : Nat} (h : hexUnit s = .ok (n, rest)) :
    rest.length < s.length := by
  unfold hexUnit at h
  split at h
  · cases h
  · split at h
    · split at h
      · cases h
        simp only [List.length_cons]
        omega
      · cases h
    · cases h

theorem lowUnit_shorter {high : Nat} {s rest : List Char} {c : Char}
    (h : lowUnit high s = .ok (c, rest)) : rest.length < s.length := by
  unfold lowUnit at h
  cases hunit : hexUnit s with
  | error fault => simp [hunit, bind, Except.bind] at h
  | ok read =>
    obtain ⟨low, after⟩ := read
    simp only [hunit, bind, Except.bind] at h
    split at h
    · simp only [Except.ok.injEq, Prod.mk.injEq] at h
      exact h.2 ▸ hexUnit_shorter hunit
    · cases h

theorem lowSurrogate_shorter {high : Nat} {s rest : List Char} {c : Char}
    (h : lowSurrogate high s = .ok (c, rest)) : rest.length < s.length := by
  unfold lowSurrogate at h
  split at h
  · cases h
  · split at h
    · split at h
      · cases h
      · split at h
        · have := lowUnit_shorter h
          simp only [List.length_cons]
          omega
        · cases h
    · cases h

theorem unitEscape_shorter {s rest : List Char} {c : Char}
    (h : unitEscape s = .ok (c, rest)) : rest.length < s.length := by
  unfold unitEscape at h
  cases hunit : hexUnit s with
  | error fault => simp [hunit, bind, Except.bind] at h
  | ok read =>
    obtain ⟨n, after⟩ := read
    have hshort := hexUnit_shorter hunit
    simp only [hunit, bind, Except.bind] at h
    split at h
    · cases h
    · split at h
      · have := lowSurrogate_shorter h
        omega
      · simp only [Except.ok.injEq, Prod.mk.injEq] at h
        exact h.2 ▸ hshort

/-- An escape takes up at least one character behind its backslash. -/
theorem escaped_shorter {s rest : List Char} {c : Char} (h : escaped s = .ok (c, rest)) :
    rest.length < s.length := by
  unfold escaped at h
  split at h
  · cases h
  · split at h
    · cases h
      simp
    · split at h
      · have := unitEscape_shorter h
        simp only [List.length_cons]
        omega
      · cases h

/-- Reads the characters of a text and its closing quote. An escape stands for one character; two
escapes that form a surrogate pair stand for one character together. -/
def textChars (s : List Char) : Except Fault (List Char × List Char) :=
  match s with
  | [] => .error (faultBefore .endInText [])
  | '"' :: rest => .ok ([], rest)
  | '\\' :: rest =>
    match _h : escaped rest with
    | .error fault => .error fault
    | .ok (c, after) =>
      match textChars after with
      | .error fault => .error fault
      | .ok (chars, after) => .ok (c :: chars, after)
  | c :: rest =>
    if c.toNat < 0x20 then .error (faultAt .controlCharacter (c :: rest))
    else
      match textChars rest with
      | .error fault => .error fault
      | .ok (chars, after) => .ok (c :: chars, after)
termination_by s.length
decreasing_by
  · have := escaped_shorter _h
    simp only [List.length_cons]
    omega
  · simp

/-- Reads a text behind its opening quote. -/
def text : Reader String := fun s => do
  let (chars, rest) ← textChars s
  return (String.ofList chars, rest)

end Workflow.Json.Reader
