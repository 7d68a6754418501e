import Mathlib.Data.List.Lex
import Mathlib.Data.Prod.Lex
import AgentLcars.Lib.Text

/-!
# Numeric collation

Comparing texts with their digit runs read as numbers.  A locale says what the other characters
weigh, which may be nothing, and where numbers stand among them; two texts are compared weight by
weight.  For every locale, texts that differ in a final number only are in the order of it.
-/

namespace Text

/-- The weights of a locale. -/
structure Locale where
  weights : Char → List Nat
  numbers : Nat

/-- The number read so far, as a weight. -/
def Locale.number (locale : Locale) (pending : Option Nat) : List (Nat ×ₗ Nat) :=
  pending.toList.map fun n => toLex (locale.numbers, n)

/-- The weights of a text, behind a number that is being read. -/
def numericKey (locale : Locale) : Option Nat → List Char → List (Nat ×ₗ Nat)
  | pending, [] => locale.number pending
  | pending, c :: cs =>
    if c.isDigit then
      numericKey locale (some (10 * pending.getD 0 + (c.toNat - '0'.toNat))) cs
    else
      locale.number pending ++ (locale.weights c).map (fun w => toLex (w, 0)) ++
        numericKey locale none cs

/-- `a.localeCompare(b, undefined, { numeric: true })`. -/
def compareNumeric (locale : Locale) (a b : String) : Ordering :=
  compareOfLessAndEq (numericKey locale none a.toList) (numericKey locale none b.toList)

variable (locale : Locale)

/-- A digit run is one weight. -/
theorem numericKey_digits {digits : List Char} (h : ∀ c ∈ digits, c.isDigit = true) (n : Nat) :
    numericKey locale (some n) digits = [toLex (locale.numbers, Nat.ofDigitChars 10 digits n)] := by
  induction digits generalizing n with
  | nil => simp [numericKey, Locale.number]
  | cons c digits ih =>
    rw [numericKey, if_pos (h c (by simp)), ih fun d hd => h d (by simp [hd])]
    simp [Nat.ofDigitChars_cons]

/-- A character outside the digits cuts a text in two. -/
theorem numericKey_append_cons {c : Char} (hc : c.isDigit = false) (front rest : List Char)
    (pending : Option Nat) : numericKey locale pending (front ++ c :: rest) =
      numericKey locale pending (front ++ [c]) ++ numericKey locale none rest := by
  induction front generalizing pending with
  | nil => simp [numericKey, hc, Locale.number]
  | cons d front ih =>
    simp only [List.cons_append, numericKey]
    split_ifs
    · rw [ih]
    · simp only [ih, List.append_assoc]

/-- A final number is the last weight. -/
theorem numericKey_append_decimal (front : String) {c : Char} (hc : c.isDigit = false) (n : Nat) :
    numericKey locale none (front ++ String.singleton c ++ toString n).toList =
      numericKey locale none (front.toList ++ [c]) ++ [toLex (locale.numbers, n)] := by
  have hdigits : ∀ d ∈ (toString n).toList, d.isDigit = true := fun d => isDigit_of_mem_toString
  have hvalue : Nat.ofDigitChars 10 (toString n).toList 0 = n := by
    rw [Nat.toString_eq_repr, Nat.toList_repr, Nat.ofDigitChars_ten_toDigits]
  simp only [String.toList_append, String.toList_singleton, List.append_assoc,
    List.singleton_append]
  rw [numericKey_append_cons locale hc]
  congr 1
  cases hl : (toString n).toList with
  | nil =>
    rw [Nat.toString_eq_repr, Nat.toList_repr] at hl
    exact absurd hl Nat.toDigits_ne_nil
  | cons d digits =>
    rw [hl] at hdigits hvalue
    rw [numericKey, if_pos (hdigits d (by simp)),
      numericKey_digits locale fun e he => hdigits e (by simp [he])]
    simpa [Nat.ofDigitChars_cons] using hvalue

/-- Texts that differ in their final number are in its order. -/
theorem compareNumeric_append_decimal (front : String) {c : Char} (hc : c.isDigit = false)
    (m n : Nat) : compareNumeric locale (front ++ String.singleton c ++ toString m)
      (front ++ String.singleton c ++ toString n) = compareOfLessAndEq m n := by
  have hlt : ∀ key : List (Nat ×ₗ Nat), key ++ [toLex (locale.numbers, m)] <
      key ++ [toLex (locale.numbers, n)] ↔ m < n := by
    intro key
    induction key with
    | nil => simp [List.cons_lt_cons_iff, Prod.Lex.toLex_lt_toLex]
    | cons w key ih => simpa [List.cons_lt_cons_iff] using ih
  rw [compareNumeric, numericKey_append_decimal locale front hc,
    numericKey_append_decimal locale front hc]
  simp [compareOfLessAndEq, hlt]

end Text
