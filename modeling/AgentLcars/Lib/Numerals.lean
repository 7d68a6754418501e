import Mathlib.Algebra.Group.Nat.Defs
import Mathlib.Data.List.Lex
import Mathlib.Data.Nat.Init

/-!
# Numerals of a fixed width

* `numeral symbol b w n`: the `w` last digits of `n` in base `b`, the most significant first.
* `valueOf_numeral`: the value of a numeral is the number up to `b ^ w`.
* `numeral_lex`: with symbols in the order of the digits, numerals are in the order of the numbers.
-/

namespace Numerals

variable {α : Type}

/-- The last digits of a number, the most significant first. -/
def numeral (symbol : Nat → α) (b : Nat) : Nat → Nat → List α
  | 0, _ => []
  | w + 1, n => numeral symbol b w (n / b) ++ [symbol (n % b)]

/-- The number a text of digits stands for. -/
def valueOf (digit : α → Nat) (b : Nat) (text : List α) : Nat :=
  text.foldl (fun value c => value * b + digit c) 0

section Values

variable {symbol : Nat → α} {digit : α → Nat} {b : Nat}

theorem length_numeral (w n : Nat) : (numeral symbol b w n).length = w := by
  induction w generalizing n with
  | zero => rfl
  | succ w ih =>
    unfold numeral
    rw [List.length_append, ih, List.length_singleton]

theorem mem_numeral (hb : 0 < b) {w n : Nat} {c : α} (h : c ∈ numeral symbol b w n) :
    ∃ d < b, symbol d = c := by
  induction w generalizing n with
  | zero => cases h
  | succ w ih =>
    rcases List.mem_append.1 h with hrest | hlast
    · exact ih hrest
    · exact ⟨n % b, Nat.mod_lt n hb, (List.mem_singleton.1 hlast).symm⟩

theorem valueOf_append (text : List α) (c : α) :
    valueOf digit b (text ++ [c]) = valueOf digit b text * b + digit c := by
  unfold valueOf
  rw [List.foldl_append]
  rfl

/-- A numeral is read back, up to its width. -/
theorem valueOf_numeral (hb : 0 < b) (hdigit : ∀ d < b, digit (symbol d) = d) (w n : Nat) :
    valueOf digit b (numeral symbol b w n) = n % b ^ w := by
  induction w generalizing n with
  | zero =>
    rw [Nat.pow_zero, Nat.mod_one]
    rfl
  | succ w ih =>
    unfold numeral
    rw [valueOf_append, ih, hdigit _ (Nat.mod_lt n hb), Nat.pow_succ, Nat.mul_comm (b ^ w) b,
      Nat.mod_mul, Nat.mul_comm b, Nat.add_comm]

end Values

section Order

variable {r : α → α → Prop} {symbol : Nat → α} {b : Nat}

/-- Texts of one length are in the order of their first difference, whatever follows. -/
theorem lex_append {s t : List α} (h : List.Lex r s t) (hlength : s.length = t.length) (x y : List α) :
    List.Lex r (s ++ x) (t ++ y) := by
  induction h with
  | nil => cases hlength
  | cons _ ih => exact .cons (ih (Nat.succ.inj hlength))
  | rel hlt => exact .rel hlt

/-- Numerals are in the order of the numbers. -/
theorem numeral_lex (hsymbol : ∀ d e, d < e → e < b → r (symbol d) (symbol e)) {w m n : Nat} (h : m < n)
    (hn : n < b ^ w) : List.Lex r (numeral symbol b w m) (numeral symbol b w n) := by
  induction w generalizing m n with
  | zero =>
    rw [Nat.pow_zero] at hn
    omega
  | succ w ih =>
    have hb : 0 < b := Nat.pos_of_ne_zero fun h0 => by
      rw [h0, Nat.pow_succ, Nat.mul_zero] at hn
      cases hn
    have hquotient : n / b < b ^ w := by
      rw [Nat.div_lt_iff_lt_mul hb, ← Nat.pow_succ]
      exact hn
    unfold numeral
    rcases Nat.lt_or_eq_of_le (Nat.div_le_div_right (c := b) (Nat.le_of_lt h)) with hlt | heq
    · exact lex_append (ih hlt hquotient) (by rw [length_numeral, length_numeral]) _ _
    · have hlast : m % b < n % b := by
        have hm := Nat.div_add_mod m b
        have hn := Nat.div_add_mod n b
        rw [heq] at hm
        omega
      rw [heq]
      exact List.Lex.append_left r (.rel (hsymbol _ _ hlast (Nat.mod_lt n hb))) _

end Order

end Numerals
