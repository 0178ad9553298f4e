import OSaSP.Foundations.CString

/-!
# `strtol` with base 10

White space, a sign and digits; the value is cut at the limits of a 64-bit
`long`.  Without digits nothing is converted.
-/

namespace OSaSP
namespace CString

/-- `isdigit`. -/
def isdigit (byte : UInt8) : Bool :=
  48 ≤ byte && byte ≤ 57

/-- The number that a row of digits denotes. -/
def digitsValue (digits : List UInt8) : Nat :=
  digits.foldl (fun value digit => 10 * value + (digit.toNat - 48)) 0

/-- `LONG_MAX`. -/
def longMax : Int := 9223372036854775807

/-- `LONG_MIN`. -/
def longMin : Int := -9223372036854775808

/-- A value cut at the limits of a `long`. -/
def saturate (value : Int) : Int :=
  max longMin (min longMax value)

/-- Whether a minus sign comes first, and what follows the sign. -/
def splitSign (text : List UInt8) : Bool × List UInt8 :=
  if text.head? = some 45 then (true, text.tail)
  else if text.head? = some 43 then (false, text.tail)
  else (false, text)

/-- A number with its sign. -/
def signed (negative : Bool) (number : Nat) : Int :=
  if negative then -number else number

/-- `strtol(text, &end, 10)`: the value and the text from `end` on. -/
def strtol (text : List UInt8) : Int × List UInt8 :=
  let (negative, number) := splitSign (text.dropWhile isspace)
  let digits := number.takeWhile isdigit
  if digits.isEmpty then (0, text)
  else
    (saturate (signed negative (digitsValue digits)),
      number.dropWhile isdigit)

example : strtol (ascii " -12x") = (-12, ascii "x") := by decide

/-! ## A line feed behind the text -/

theorem takeWhile_isdigit_lineFeed (number : List UInt8) :
    (number ++ [lineFeed]).takeWhile isdigit = number.takeWhile isdigit := by
  rw [List.takeWhile_append]
  split
  · rename_i whole
    rw [show [lineFeed].takeWhile isdigit = [] by decide, List.append_nil]
    exact ((List.takeWhile_prefix isdigit).eq_of_length whole).symm
  · rfl

theorem dropWhile_isdigit_lineFeed (number : List UInt8) :
    (number ++ [lineFeed]).dropWhile isdigit =
      number.dropWhile isdigit ++ [lineFeed] := by
  rw [List.dropWhile_append]
  split
  · rename_i empty
    rw [List.isEmpty_iff.mp empty]
    rfl
  · rfl

theorem splitSign_lineFeed
    {number : List UInt8}
    (started : number ≠ []) :
    splitSign (number ++ [lineFeed]) =
      ((splitSign number).1, (splitSign number).2 ++ [lineFeed]) := by
  cases number with
  | nil => exact absurd rfl started
  | cons first rest =>
      by_cases minus : first = 45
      · rw [minus]
        rfl
      by_cases plus : first = 43
      · rw [plus]
        rfl
      simp [splitSign, minus, plus]

/-- A line feed behind the text is left unread. -/
theorem strtol_lineFeed (text : List UInt8) :
    strtol (text ++ [lineFeed]) =
      ((strtol text).1, (strtol text).2 ++ [lineFeed]) := by
  unfold strtol
  dsimp only
  rw [List.dropWhile_append]
  split
  · rename_i onlySpace
    rw [List.isEmpty_iff.mp onlySpace]
    rfl
  · rename_i started
    rw [splitSign_lineFeed (by simpa using started)]
    simp only [takeWhile_isdigit_lineFeed, dropWhile_isdigit_lineFeed]
    split <;> rfl

/-! ## Numerals -/

/-- The sign that a numeral is written with. -/
inductive Sign
  | none
  | plus
  | minus
  deriving DecidableEq

/-- The byte of a sign. -/
def Sign.text : Sign → List UInt8
  | .none => []
  | .plus => [43]
  | .minus => [45]

/-- An integer written in decimal, with any number of digits. -/
structure Numeral where
  sign : Sign
  digits : List (Fin 10)
  nonempty : digits ≠ []

namespace Numeral

/-- The byte of a digit. -/
def digitByte (digit : Fin 10) : UInt8 :=
  UInt8.ofNat (48 + digit)

/-- The characters of a numeral. -/
def text (numeral : Numeral) : List UInt8 :=
  numeral.sign.text ++ numeral.digits.map digitByte

/-- The number that its digits denote. -/
def magnitude (numeral : Numeral) : Nat :=
  numeral.digits.foldl (fun value digit => 10 * value + digit.val) 0

/-- The integer it denotes. -/
def value (numeral : Numeral) : Int :=
  signed (numeral.sign == .minus) numeral.magnitude

theorem isdigit_digitByte (digit : Fin 10) :
    isdigit (digitByte digit) = true := by
  revert digit
  decide

theorem toNat_digitByte (digit : Fin 10) :
    (digitByte digit).toNat - 48 = digit := by
  revert digit
  decide

theorem digitsValue_map (numeral : Numeral) :
    digitsValue (numeral.digits.map digitByte) = numeral.magnitude := by
  rw [digitsValue, List.foldl_map]
  simp only [toNat_digitByte]
  rfl

/-- A numeral begins with neither white space nor another sign. -/
theorem splitSign_text (numeral : Numeral) (rest : List UInt8) :
    splitSign ((numeral.text ++ rest).dropWhile isspace) =
      (numeral.sign == .minus, numeral.digits.map digitByte ++ rest) := by
  obtain ⟨sign, digits, nonempty⟩ := numeral
  cases digits with
  | nil => exact absurd rfl nonempty
  | cons first digits =>
      cases sign with
      | plus => rfl
      | minus => rfl
      | none =>
          have plain : ∀ digit : Fin 10, isspace (digitByte digit) = false ∧
              digitByte digit ≠ 45 ∧ digitByte digit ≠ 43 := by decide
          obtain ⟨notSpace, notMinus, notPlus⟩ := plain first
          simp only [text, Sign.text, List.nil_append, List.map_cons,
            List.cons_append, List.dropWhile_cons, notSpace,
            Bool.false_eq_true, if_false]
          rw [splitSign, List.head?_cons,
            if_neg fun same => notMinus (Option.some.inj same),
            if_neg fun same => notPlus (Option.some.inj same)]
          rfl

/-- `strtol` reads a numeral and stops behind it. -/
theorem strtol_text (numeral : Numeral) :
    strtol numeral.text = (saturate numeral.value, []) := by
  have allDigits : ∀ byte ∈ numeral.digits.map digitByte,
      isdigit byte = true := by
    intro byte member
    obtain ⟨digit, _, rfl⟩ := List.mem_map.mp member
    exact isdigit_digitByte digit
  have splits := splitSign_text numeral []
  rw [List.append_nil, List.append_nil] at splits
  have whole : (numeral.digits.map digitByte).takeWhile isdigit =
      numeral.digits.map digitByte := List.takeWhile_eq_self_iff.mpr allDigits
  have nothing : (numeral.digits.map digitByte).dropWhile isdigit = [] :=
    List.dropWhile_eq_nil_iff.mpr allDigits
  unfold strtol
  simp only [splits, whole, nothing, digitsValue_map]
  rw [if_neg (by simpa using numeral.nonempty)]
  rfl

/-- A numeral has neither zeros nor line feeds. -/
theorem plain_of_mem_text
    {numeral : Numeral}
    {byte : UInt8}
    (member : byte ∈ numeral.text) :
    byte ≠ 0 ∧ byte ≠ lineFeed := by
  rcases List.mem_append.mp member with ofSign | ofDigit
  · have plain : ∀ sign : Sign, ∀ byte ∈ sign.text,
        byte ≠ 0 ∧ byte ≠ lineFeed := by
      intro sign
      cases sign <;> decide +kernel
    exact plain numeral.sign byte ofSign
  · have plain : ∀ digit : Fin 10,
        digitByte digit ≠ 0 ∧ digitByte digit ≠ lineFeed := by decide
    obtain ⟨digit, _, rfl⟩ := List.mem_map.mp ofDigit
    exact plain digit

theorem text_ne_nil (numeral : Numeral) : numeral.text ≠ [] := by
  intro empty
  have noDigits := (List.append_eq_nil_iff.mp empty).2
  exact numeral.nonempty (List.map_eq_nil_iff.mp noDigits)

end Numeral

end CString
end OSaSP
