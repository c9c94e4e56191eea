/-
Module: RateNet.Lib.StructuredField
Layer: Lib
Purpose: Reading a structured header field: a quoted string, a non-negative integer, and an item made of a
  string and integer parameters, by the rules of RFC 9651. Each reader returns what it read and the text
  it left, and the lemmas say what one step of it consumes.
Imports: Mathlib.Data.List.TakeWhile, Mathlib.Tactic
Trusted boundary: none
Main exports: printable, readString, readInteger, readParameters, readItem, readChars_escaped, readChars_plain,
  readInteger_toDigits, readParameters_cons
-/
import Mathlib.Data.List.TakeWhile
import Mathlib.Tactic

namespace StructuredField

/-- The characters a structured string can carry. -/
def printable (c : Char) : Bool := ' ' ≤ c && c ≤ '~'

/-- The inside of a string after its opening quote, right after a backslash or not: a backslash escapes only a
    quote or a backslash, the first unescaped quote ends the string, and nothing unprintable stands in it. -/
def readChars : Bool → List Char → Option (List Char × List Char)
  | _, [] => none
  | true, c :: rest =>
      if c = '"' ∨ c = '\\' then (readChars false rest).map (Prod.map (c :: ·) id) else none
  | false, c :: rest =>
      if c = '"' then
        some ([], rest)
      else if c = '\\' then
        readChars true rest
      else if printable c then
        (readChars false rest).map (Prod.map (c :: ·) id)
      else
        none

/-- A quoted string. -/
def readString : List Char → Option (List Char × List Char)
  | [] => none
  | c :: rest => if c = '"' then readChars false rest else none

/-- An unsigned integer of at most fifteen digits. -/
def readInteger (text : List Char) : Option (ℕ × List Char) :=
  let digits := text.takeWhile Char.isDigit
  if digits = [] ∨ 15 < digits.length then
    none
  else
    some (Nat.ofDigitChars 10 digits 0, text.dropWhile Char.isDigit)

/-- The characters of a parameter's key. -/
def keyChar (c : Char) : Bool := c.isLower || c.isDigit || c = '_' || c = '-' || c = '.' || c = '*'

/-- The parameters of an item up to the end of the text, at most `fuel` of them. -/
def readParameters : ℕ → List Char → Option (List (List Char × ℕ))
  | _, [] => some []
  | 0, _ :: _ => none
  | fuel + 1, c :: rest =>
      if c = ';' then
        let key := rest.takeWhile keyChar
        match rest.dropWhile keyChar with
        | [] => none
        | equals :: value =>
            if key ≠ [] ∧ equals = '=' then
              match readInteger value with
              | none => none
              | some (number, left) => (readParameters fuel left).map fun others => (key, number) :: others
            else
              none
      else
        none

/-- A string item with integer parameters. -/
def readItem (text : List Char) : Option (List Char × List (List Char × ℕ)) :=
  match readString text with
  | none => none
  | some (name, rest) => (readParameters rest.length rest).map fun parameters => (name, parameters)

/-!
### What one step reads
-/

theorem readChars_quote (rest : List Char) : readChars false ('"' :: rest) = some ([], rest) := by
  rw [readChars, if_pos rfl]

theorem readChars_escaped {c : Char} (special : c = '"' ∨ c = '\\') (rest : List Char) :
    readChars false ('\\' :: c :: rest) = (readChars false rest).map (Prod.map (c :: ·) id) := by
  rw [readChars, if_neg (by decide), if_pos rfl, readChars, if_pos special]

theorem readChars_plain {c : Char} (quote : c ≠ '"') (backslash : c ≠ '\\') (visible : printable c = true)
    (rest : List Char) :
    readChars false (c :: rest) = (readChars false rest).map (Prod.map (c :: ·) id) := by
  rw [readChars, if_neg quote, if_neg backslash, if_pos visible]

/-- A number written in decimal is read back, up to a character that is not a digit. -/
theorem readInteger_toDigits {n : ℕ} (short : n < 10 ^ 15) {rest : List Char}
    (ends : rest.takeWhile Char.isDigit = []) :
    readInteger (Nat.toDigits 10 n ++ rest) = some (n, rest) := by
  have digits : ∀ c ∈ Nat.toDigits 10 n, c.isDigit = true := fun c member =>
    Nat.isDigit_of_mem_toDigits (by decide) (by decide) member
  have few : (Nat.toDigits 10 n).length ≤ 15 := (Nat.length_toDigits_le_iff (by decide) (by decide)).2 short
  have read : (Nat.toDigits 10 n ++ rest).takeWhile Char.isDigit = Nat.toDigits 10 n := by
    rw [List.takeWhile_append_of_pos digits, ends, List.append_nil]
  have left : (Nat.toDigits 10 n ++ rest).dropWhile Char.isDigit = rest := by
    rw [List.dropWhile_append_of_pos digits]
    have whole := List.takeWhile_append_dropWhile (p := Char.isDigit) (l := rest)
    rwa [ends, List.nil_append] at whole
  simp only [readInteger, read, left]
  rw [if_neg (not_or.2 ⟨Nat.toDigits_ne_nil, not_lt.2 few⟩), Nat.ofDigitChars_toDigits (by decide) (by decide)]

/-- A parameter with a one-letter key. -/
theorem readParameters_cons {key : Char} (isKey : keyChar key = true) {n : ℕ} (short : n < 10 ^ 15) (fuel : ℕ)
    {rest : List Char} (ends : rest.takeWhile Char.isDigit = []) :
    readParameters (fuel + 1) (';' :: key :: '=' :: (Nat.toDigits 10 n ++ rest)) =
      (readParameters fuel rest).map fun others => ([key], n) :: others := by
  have value : readInteger (Nat.toDigits 10 n ++ rest) = some (n, rest) := readInteger_toDigits short ends
  have stop : keyChar '=' = false := by decide
  simp [readParameters, isKey, stop, value]

end StructuredField
