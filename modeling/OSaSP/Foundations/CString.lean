import Mathlib.Data.List.Infix
import Mathlib.Data.List.TakeWhile

/-!
# C strings

A C string is the list of its bytes without the terminating zero.
-/

namespace OSaSP
namespace CString

/-- The bytes of an ASCII literal. -/
def ascii (text : String) : List UInt8 :=
  text.toList.map fun character => UInt8.ofNat character.toNat

/-- The decimal digits of a number, filled up with zeros to a width. -/
def decimal (width number : Nat) : List UInt8 :=
  let digits := (Nat.toDigits 10 number).map fun digit =>
    UInt8.ofNat digit.toNat
  List.replicate (width - digits.length) 48 ++ digits

example : decimal 2 7 = ascii "07" ∧ decimal 2 123 = ascii "123" := by decide

/-- Reading the digits back. -/
theorem ofDigitChars_decimal (width number : Nat) :
    Nat.ofDigitChars 10
      ((decimal width number).map fun byte => Char.ofNat byte.toNat) 0 =
        number := by
  have digits : ((Nat.toDigits 10 number).map fun digit =>
      UInt8.ofNat digit.toNat).map (fun byte => Char.ofNat byte.toNat) =
        Nat.toDigits 10 number := by
    rw [List.map_map]
    refine (List.map_congr_left fun digit member => ?_).trans (List.map_id _)
    have isDigit := Nat.isDigit_of_mem_toDigits (by decide) (by decide) member
    have small : digit.toNat ≤ 57 := by
      simp only [Char.isDigit, Bool.and_eq_true, decide_eq_true_eq] at isDigit
      exact isDigit.2
    have kept : (UInt8.ofNat digit.toNat).toNat = digit.toNat := by
      rw [UInt8.toNat_ofNat']
      omega
    change Char.ofNat (UInt8.ofNat digit.toNat).toNat = digit
    rw [kept, Char.ofNat_toNat]
  unfold decimal
  rw [List.map_append, digits, List.map_replicate, Nat.ofDigitChars_append]
  exact (congrArg _ Nat.ofDigitChars_replicate_zero).trans
    Nat.ofDigitChars_ten_toDigits

theorem decimal_injective (width : Nat) :
    Function.Injective (decimal width) := by
  intro first second same
  rw [← ofDigitChars_decimal width first, same, ofDigitChars_decimal]

/-- The C string that a block of memory begins with. -/
def stringAt (block : List UInt8) : List UInt8 :=
  block.takeWhile fun byte => byte ≠ 0

/-- A text without zeros is a C string as a whole. -/
theorem stringAt_of_noZero
    {text : List UInt8}
    (noZero : (0 : UInt8) ∉ text) :
    stringAt text = text := by
  induction text with
  | nil => rfl
  | cons byte text inductionHypothesis =>
      rw [List.mem_cons, not_or] at noZero
      rw [stringAt, List.takeWhile_cons_of_pos
        (by simpa using Ne.symm noZero.1)]
      exact congrArg (List.cons byte) (inductionHypothesis noZero.2)

/-- What stands behind a zero does not matter. -/
theorem stringAt_append_of_zero
    {text : List UInt8}
    (zero : (0 : UInt8) ∈ text)
    (behind : List UInt8) :
    stringAt (text ++ behind) = stringAt text := by
  induction text with
  | nil => cases zero
  | cons byte text inductionHypothesis =>
      unfold stringAt
      rw [List.cons_append, List.takeWhile_cons, List.takeWhile_cons]
      split
      · rename_i different
        have later : (0 : UInt8) ∈ text := by
          rcases List.mem_cons.mp zero with first | later
          · rw [← first] at different
            cases different
          · exact later
        exact congrArg (List.cons byte) (inductionHypothesis later)
      · rfl

/-- A text without zeros is read back up to its terminator. -/
theorem stringAt_terminated
    {text : List UInt8}
    (noZero : (0 : UInt8) ∉ text)
    (behind : List UInt8) :
    stringAt (text ++ 0 :: behind) = text := by
  have passes : ∀ byte ∈ text, (decide (byte ≠ 0)) = true := by
    intro byte member
    exact decide_eq_true fun zero => noZero (zero ▸ member)
  rw [stringAt, List.takeWhile_append_of_pos passes,
    List.takeWhile_cons_of_neg (by simp), List.append_nil]

/-- There is no zero in a C string. -/
theorem zero_not_mem_stringAt (text : List UInt8) :
    (0 : UInt8) ∉ stringAt text := by
  intro member
  unfold stringAt at member
  have different := List.mem_takeWhile_imp member
  simp at different

/-- The byte that ends a line. -/
def lineFeed : UInt8 := 10

/-- The C string in a buffer after `buf[strcspn(buf, "\n")] = 0`. -/
def chomp (buf : List UInt8) : List UInt8 :=
  buf.takeWhile fun byte => byte ≠ 0 && byte ≠ lineFeed

/-- A line with or without its line feed. -/
theorem chomp_line
    {text ending : List UInt8}
    (unseparated : lineFeed ∉ text)
    (ends : ending = [] ∨ ending = [lineFeed]) :
    chomp (text ++ ending) = stringAt text := by
  unfold chomp stringAt
  induction text with
  | nil => rcases ends with rfl | rfl <;> rfl
  | cons byte text inductionHypothesis =>
      rw [List.mem_cons, not_or] at unseparated
      have rest := inductionHypothesis unseparated.2
      rw [List.cons_append, List.takeWhile_cons, List.takeWhile_cons, rest]
      simp [Ne.symm unseparated.1]

/-- What `snprintf` leaves in a buffer of `size` bytes. -/
def snprintf (size : Nat) (text : List UInt8) : List UInt8 :=
  text.take (size - 1)

/-- `strncpy` into a field of `size` bytes: cut, or filled up with zeros. -/
def strncpy (size : Nat) (text : List UInt8) : List UInt8 :=
  (text ++ List.replicate size 0).take size

/-- `strncmp`; only the sign of the result means anything. -/
def strncmp : List UInt8 → List UInt8 → Nat → Int
  | _, _, 0 => 0
  | [], [], _ + 1 => 0
  | [], _ :: _, _ + 1 => -1
  | _ :: _, [], _ + 1 => 1
  | left :: lefts, right :: rights, count + 1 =>
      if left = right then strncmp lefts rights count
      else if left < right then -1
      else 1

/-- `tolower`. -/
def tolower (byte : UInt8) : UInt8 :=
  if 65 ≤ byte ∧ byte ≤ 90 then byte + 32 else byte

/-- `strncasecmp`; only the sign of the result means anything. -/
def strncasecmp (left right : List UInt8) (count : Nat) : Int :=
  strncmp (left.map tolower) (right.map tolower) count

/-- `strcasecmp`. -/
def strcasecmp (left right : List UInt8) : Int :=
  strncasecmp left right (max left.length right.length)

/-- `isspace`. -/
def isspace (byte : UInt8) : Bool :=
  byte = 32 || (9 ≤ byte && byte ≤ 13)

/-- The string between its first and its last byte that is not white space. -/
def trim (text : List UInt8) : List UInt8 :=
  ((text.dropWhile isspace).reverse.dropWhile isspace).reverse

/-- The index of the last such byte, if there is one. -/
def strrchr : List UInt8 → UInt8 → Option Nat
  | [], _ => none
  | byte :: text, symbol =>
      match strrchr text symbol with
      | some index => some (index + 1)
      | none => if byte = symbol then some 0 else none

/-- Comparing as many bytes as the second string has is a prefix test. -/
theorem strncmp_length_eq_zero_iff (text start : List UInt8) :
    strncmp text start start.length = 0 ↔ start <+: text := by
  induction start generalizing text with
  | nil => simp [strncmp]
  | cons first start inductionHypothesis =>
      cases text with
      | nil => simp [strncmp]
      | cons symbol text =>
          rw [List.length_cons, strncmp, List.cons_prefix_cons]
          by_cases same : symbol = first
          · rw [if_pos same, inductionHypothesis]
            simp only [same, true_and]
          · have different : first ≠ symbol := fun equal => same equal.symm
            rw [if_neg same]
            simp only [different, false_and, iff_false]
            split <;> decide

/-- Comparing as many bytes as the longer string has is a test for
equality. -/
theorem strncmp_eq_zero_iff
    {left right : List UInt8}
    {count : Nat}
    (leftFits : left.length ≤ count)
    (rightFits : right.length ≤ count) :
    strncmp left right count = 0 ↔ left = right := by
  induction left generalizing right count with
  | nil =>
      cases right with
      | nil => cases count <;> simp [strncmp]
      | cons symbol right =>
          obtain ⟨count, rfl⟩ :=
            Nat.exists_eq_succ_of_ne_zero (Nat.ne_of_gt
              (Nat.lt_of_lt_of_le (Nat.succ_pos _) rightFits))
          simp [strncmp]
  | cons first left inductionHypothesis =>
      obtain ⟨count, rfl⟩ :=
        Nat.exists_eq_succ_of_ne_zero (Nat.ne_of_gt
          (Nat.lt_of_lt_of_le (Nat.succ_pos _) leftFits))
      cases right with
      | nil => simp [strncmp]
      | cons second right =>
          rw [strncmp, List.cons.injEq]
          by_cases same : first = second
          · rw [if_pos same, inductionHypothesis
              (Nat.le_of_succ_le_succ leftFits)
              (Nat.le_of_succ_le_succ rightFits)]
            simp only [same, true_and]
          · rw [if_neg same]
            simp only [same, false_and, iff_false]
            split <;> decide

/-- Beginning with a string up to the case of letters. -/
theorem strncasecmp_eq_zero_iff
    (text keyword : List UInt8)
    {count : Nat}
    (size : keyword.length = count) :
    strncasecmp text keyword count = 0 ↔
      keyword.map tolower <+: text.map tolower := by
  subst size
  rw [← strncmp_length_eq_zero_iff, List.length_map]
  rfl

/-- Equality of strings up to the case of letters. -/
theorem strcasecmp_eq_zero_iff (left right : List UInt8) :
    strcasecmp left right = 0 ↔ left.map tolower = right.map tolower :=
  strncmp_eq_zero_iff
    ((List.length_map tolower).trans_le (Nat.le_max_left _ _))
    ((List.length_map tolower).trans_le (Nat.le_max_right _ _))

/-- A byte that is no letter of either case. -/
def Caseless (byte : UInt8) : Prop :=
  ¬(65 ≤ byte ∧ byte ≤ 90) ∧ ¬(97 ≤ byte ∧ byte ≤ 122)

instance : DecidablePred Caseless :=
  fun _ => inferInstanceAs (Decidable (_ ∧ _))

theorem eq_of_tolower_eq
    {byte symbol : UInt8}
    (caseless : Caseless symbol)
    (same : tolower byte = tolower symbol) :
    byte = symbol := by
  have lower : tolower symbol = symbol := if_neg caseless.1
  rw [lower, tolower] at same
  split at same
  · have notLower := caseless.2
    grind
  · exact same

/-- Without letters the case makes no difference. -/
theorem strcasecmp_eq_zero_iff_of_caseless
    {text keyword : List UInt8}
    (caseless : keyword.all fun symbol => decide (Caseless symbol)) :
    strcasecmp text keyword = 0 ↔ text = keyword := by
  rw [strcasecmp_eq_zero_iff]
  constructor
  · intro same
    induction keyword generalizing text with
    | nil => exact List.map_eq_nil_iff.mp same
    | cons symbol keyword inductionHypothesis =>
        rw [List.all_cons, Bool.and_eq_true, decide_eq_true_iff] at caseless
        obtain ⟨byte, rest, rfl, first, others⟩ := List.map_eq_cons_iff.mp same
        rw [eq_of_tolower_eq caseless.1 first,
          inductionHypothesis caseless.2 others]
  · rintro rfl
    rfl

theorem strrchr_of_not_mem
    {text : List UInt8}
    {symbol : UInt8}
    (absent : symbol ∉ text) :
    strrchr text symbol = none := by
  induction text with
  | nil => rfl
  | cons byte text inductionHypothesis =>
      rw [List.mem_cons, not_or] at absent
      rw [strrchr, inductionHypothesis absent.2]
      exact if_neg (Ne.symm absent.1)

/-- The last such byte of a string stands before what has none. -/
theorem strrchr_append
    (front : List UInt8)
    {symbol : UInt8}
    {back : List UInt8}
    (absent : symbol ∉ back) :
    strrchr (front ++ symbol :: back) symbol = some front.length := by
  induction front with
  | nil =>
      rw [List.nil_append, strrchr, strrchr_of_not_mem absent]
      exact if_pos rfl
  | cons byte front inductionHypothesis =>
      rw [List.cons_append, strrchr, inductionHypothesis]
      rfl

end CString
end OSaSP
