import Mathlib.Data.Bool.AllAny
import Mathlib.Data.List.Induction
import AgentLcars.Lib.Failing
import AgentLcars.Lib.Splitting
import AgentLcars.Cron

/-!
# The grammar of cron expressions

The expressions `parseCron` reads, given as a grammar of their own:

* `Numeral`, `CronItem.Text`, `FieldText`, `CronFields.Text`: the texts of numbers, items, fields and
  expressions.
* `CronItem.Names`: the values an item names.
* `CronFields.Text.parseCron_iff`, `exists_text_of_parseCron`: a text of the grammar is read as what it
  names, and nothing else is read.
* `parseCron_accepts`: `parseCron` accepts its grammar and denotes it.
-/

namespace AgentLcars

open Failing Splitting

/-! ### Texts -/

/-- Decimal digits, and the number they stand for. -/
inductive Numeral : List Char → Nat → Prop
  | digit {c : Char} (hc : c.isDigit = true) : Numeral [c] (c.toNat - '0'.toNat)
  | more {digits : List Char} {n : Nat} {c : Char} (h : Numeral digits n) (hc : c.isDigit = true) :
      Numeral (digits ++ [c]) (10 * n + (c.toNat - '0'.toNat))

/-- An item of a field: `*`, `n`, `a-b`, `*/k` or `a-b/k`. -/
inductive CronItem
  | any
  | value (n : Nat)
  | range (first last : Nat)
  | anyEvery (step : Nat)
  | rangeEvery (first last step : Nat)

namespace CronItem

inductive Text : CronItem → List Char → Prop
  | any : Text .any ['*']
  | value {digits : List Char} {n : Nat} (h : Numeral digits n) : Text (.value n) digits
  | range {lo hi : List Char} {a b : Nat} (hfirst : Numeral lo a) (hlast : Numeral hi b) :
      Text (.range a b) (lo ++ '-' :: hi)
  | anyEvery {digits : List Char} {k : Nat} (hstep : Numeral digits k) :
      Text (.anyEvery k) (['*'] ++ '/' :: digits)
  | rangeEvery {lo hi digits : List Char} {a b k : Nat} (hfirst : Numeral lo a)
      (hlast : Numeral hi b) (hstep : Numeral digits k) :
      Text (.rangeEvery a b k) (lo ++ '-' :: hi ++ '/' :: digits)

def first (field : FieldSpec) : CronItem → Nat
  | any => field.min
  | value n => n
  | range first _ => first
  | anyEvery _ => field.min
  | rangeEvery first _ _ => first

def last (field : FieldSpec) : CronItem → Nat
  | any => field.max
  | value n => n
  | range _ last => last
  | anyEvery _ => field.max
  | rangeEvery _ last _ => last

def step : CronItem → Nat
  | anyEvery step => step
  | rangeEvery _ _ step => step
  | _ => 1

/-- The step is positive and the range within the bounds of the field. -/
structure Within (item : CronItem) (field : FieldSpec) : Prop where
  step : 1 ≤ item.step
  first : field.min ≤ item.first field
  ordered : item.first field ≤ item.last field
  last : item.last field ≤ field.max

/-- The value is the first of the item's range, or some steps further and not beyond its last. -/
def Names (item : CronItem) (field : FieldSpec) (v : Nat) : Prop :=
  ∃ i, v = item.first field + i * item.step ∧ v ≤ item.last field

/-- The values an item names, in order. -/
def values (item : CronItem) (field : FieldSpec) : List Nat :=
  ((List.range (item.last field - item.first field + 1)).filter (· % item.step = 0)).map
    (item.first field + ·)

end CronItem

/-- Items separated by commas. -/
inductive FieldText : List CronItem → List Char → Prop
  | one {item : CronItem} {text : List Char} (h : item.Text text) : FieldText [item] text
  | cons {item : CronItem} {items : List CronItem} {text rest : List Char} (h : item.Text text)
      (hrest : FieldText items rest) : FieldText (item :: items) (text ++ ',' :: rest)

/-- The items of the five fields. -/
structure CronFields where
  minute : List CronItem
  hour : List CronItem
  dayOfMonth : List CronItem
  month : List CronItem
  dayOfWeek : List CronItem

/-- Five fields, separated by runs of white space. -/
def CronFields.Text (fields : CronFields) (expr : String) : Prop :=
  ∃ minute hour dayOfMonth month dayOfWeek : List Char,
    Separated isTrimmed [minute, hour, dayOfMonth, month, dayOfWeek] (trim expr) ∧
      FieldText fields.minute minute ∧ FieldText fields.hour hour ∧
      FieldText fields.dayOfMonth dayOfMonth ∧ FieldText fields.month month ∧
      FieldText fields.dayOfWeek dayOfWeek

/-- Every item is within the bounds of its field. -/
structure CronFields.Within (fields : CronFields) : Prop where
  minute : ∀ item ∈ fields.minute, item.Within ⟨0, 59⟩
  hour : ∀ item ∈ fields.hour, item.Within ⟨0, 23⟩
  dayOfMonth : ∀ item ∈ fields.dayOfMonth, item.Within ⟨1, 31⟩
  month : ∀ item ∈ fields.month, item.Within ⟨1, 12⟩
  dayOfWeek : ∀ item ∈ fields.dayOfWeek, item.Within ⟨0, 6⟩

/-- The values are those the items name; there is one, and they are within the field's bounds. -/
structure FieldSpec.Denoted (field : FieldSpec) (items : List CronItem) (values : List Nat) : Prop where
  mem_iff : ∀ v, v ∈ values ↔ ∃ item ∈ items, item.Names field v
  nonempty : values ≠ []
  bounds : ∀ v ∈ values, field.min ≤ v ∧ v ≤ field.max

/-- Each set of a specification is the one its field denotes. -/
structure CronFields.Denote (fields : CronFields) (spec : CronSpec) : Prop where
  minute : FieldSpec.Denoted ⟨0, 59⟩ fields.minute spec.minute
  hour : FieldSpec.Denoted ⟨0, 23⟩ fields.hour spec.hour
  dayOfMonth : FieldSpec.Denoted ⟨1, 31⟩ fields.dayOfMonth spec.dayOfMonth
  month : FieldSpec.Denoted ⟨1, 12⟩ fields.month spec.month
  dayOfWeek : FieldSpec.Denoted ⟨0, 6⟩ fields.dayOfWeek spec.dayOfWeek

/-- No numeral in the text is longer than fifteen digits. -/
def ShortNumerals (text : List Char) : Prop :=
  ∀ digits, digits <:+: text → (∀ c ∈ digits, c.isDigit = true) → digits.length ≤ 15

/-! ### Numerals -/

section Numerals

variable {digits : List Char} {n : Nat}

theorem Numeral.isDigit (h : Numeral digits n) : ∀ c ∈ digits, c.isDigit = true := by
  induction h with
  | digit hc => exact List.forall_mem_singleton.2 hc
  | more _ hc ih =>
    intro c hmem
    rcases List.mem_append.1 hmem with hmem | hmem
    · exact ih c hmem
    · exact List.mem_singleton.1 hmem ▸ hc

theorem Numeral.ne_nil (h : Numeral digits n) : digits ≠ [] := by
  cases h with
  | digit => exact List.cons_ne_nil _ _
  | more => exact List.append_ne_nil_of_right_ne_nil _ (List.cons_ne_nil _ _)

theorem ofDigitChars_snoc (digits : List Char) (c : Char) :
    Nat.ofDigitChars 10 (digits ++ [c]) 0 =
      10 * Nat.ofDigitChars 10 digits 0 + (c.toNat - '0'.toNat) := by
  unfold Nat.ofDigitChars
  rw [List.foldl_append]
  rfl

theorem Numeral.value (h : Numeral digits n) : n = Nat.ofDigitChars 10 digits 0 := by
  induction h with
  | digit hc =>
    unfold Nat.ofDigitChars
    rw [List.foldl_cons, List.foldl_nil, Nat.mul_zero, Nat.zero_add]
  | more _ _ ih => rw [ofDigitChars_snoc, ← ih]

theorem numeral_of_digits (hne : digits ≠ []) (h : ∀ c ∈ digits, c.isDigit = true) :
    Numeral digits (Nat.ofDigitChars 10 digits 0) := by
  induction digits using List.reverseRecOn with
  | nil => exact absurd rfl hne
  | append_singleton digits c ih =>
    have hc : c.isDigit = true := h c (by simp)
    rw [ofDigitChars_snoc]
    rcases eq_or_ne digits [] with rfl | hdigits
    · show Numeral [c] (10 * 0 + (c.toNat - '0'.toNat))
      rw [Nat.mul_zero, Nat.zero_add]
      exact .digit hc
    · exact .more (ih hdigits fun d hd => h d (List.mem_append_left _ hd)) hc

theorem decimal?_iff : decimal? digits = some n ↔ Numeral digits n := by
  unfold decimal?
  constructor
  · intro h
    split_ifs at h with hdigits
    obtain rfl := Option.some.inj h
    exact numeral_of_digits (by simpa using hdigits.1) (List.all_eq_true.1 hdigits.2)
  · intro h
    rw [if_pos ⟨by simpa using h.ne_nil, List.all_eq_true.2 h.isDigit⟩, h.value]

theorem Numeral.not_mem (h : Numeral digits n) {c : Char} (hc : c.isDigit = false) : c ∉ digits := by
  intro hmem
  rw [h.isDigit c hmem] at hc
  cases hc

theorem Numeral.lt_pow (h : Numeral digits n) : n < 10 ^ digits.length := by
  induction h with
  | @digit c hc =>
    have hle : c.toNat ≤ 57 := by
      simp only [Char.isDigit, Bool.and_eq_true, decide_eq_true_eq] at hc
      exact hc.2
    have : '0'.toNat = 48 := rfl
    rw [List.length_singleton, Nat.pow_one]
    omega
  | @more digits n c _ hc ih =>
    have hle : c.toNat ≤ 57 := by
      simp only [Char.isDigit, Bool.and_eq_true, decide_eq_true_eq] at hc
      exact hc.2
    have : '0'.toNat = 48 := rfl
    rw [List.length_append, List.length_singleton, Nat.pow_succ]
    omega

end Numerals

/-! ### Items -/

section Items

variable {part : List Char} {field : FieldSpec}

/-- A range of two numerals. -/
theorem rangeMatch_two {lo hi : List Char} {a b : Nat} (hlo : Numeral lo a) (hhi : Numeral hi b) :
    rangeMatch (lo ++ '-' :: hi) = some (a, some b) := by
  unfold rangeMatch
  rw [two_parts_iff.2 ⟨rfl, hlo.not_mem (by decide), hhi.not_mem (by decide)⟩]
  simp only [decimal?_iff.2 hlo, decimal?_iff.2 hhi, Option.bind_some, Option.map_some]

/-- A single numeral. -/
theorem rangeMatch_one {digits : List Char} {n : Nat} (h : Numeral digits n) :
    rangeMatch digits = some (n, none) := by
  unfold rangeMatch
  rw [part_iff.2 ⟨rfl, h.not_mem (by decide)⟩]
  simp only [decimal?_iff.2 h, Option.map_some]

/-- What the range of a field can be. -/
theorem rangeMatch_cases {a : Nat} {b : Option Nat} (h : rangeMatch part = some (a, b)) :
    Numeral part a ∧ b = none ∨ ∃ lo hi n, part = lo ++ '-' :: hi ∧ Numeral lo a ∧ Numeral hi n ∧
      b = some n := by
  unfold rangeMatch at h
  split at h
  next digits hsplit =>
    obtain ⟨n, hn, heq⟩ := Option.map_eq_some_iff.1 h
    obtain ⟨rfl, rfl⟩ := Prod.mk.inj heq
    obtain ⟨rfl, -⟩ := part_iff.1 hsplit
    exact .inl ⟨decimal?_iff.1 hn, rfl⟩
  next lo hi hsplit =>
    obtain ⟨n, hn, h⟩ := Option.bind_eq_some_iff.1 h
    obtain ⟨m, hm, heq⟩ := Option.map_eq_some_iff.1 h
    obtain ⟨rfl, rfl⟩ := Prod.mk.inj heq
    obtain ⟨hpart, -, -⟩ := two_parts_iff.1 hsplit
    exact .inr ⟨lo, hi, m, hpart, decimal?_iff.1 hn, decimal?_iff.1 hm, rfl⟩
  next => cases h

/-- A part without a slash has no step. -/
theorem stepMatch_none (h : '/' ∉ part) : stepMatch part = none := by
  unfold stepMatch
  rw [part_iff.2 ⟨rfl, h⟩]

theorem stepMatch_some {range digits : List Char} {k : Nat} (hrange : '/' ∉ range)
    (hmatch : range = ['*'] ∨ (rangeMatch range).any (·.2.isSome) = true) (hk : Numeral digits k) :
    stepMatch (range ++ '/' :: digits) = some (range, k) := by
  unfold stepMatch
  rw [two_parts_iff.2 ⟨rfl, hrange, hk.not_mem (by decide)⟩]
  simp only [if_pos hmatch, decimal?_iff.2 hk, Option.map_some]

/-- What a part with a step can be. -/
theorem stepMatch_cases {range : List Char} {k : Nat} (h : stepMatch part = some (range, k)) :
    ∃ digits, part = range ++ '/' :: digits ∧ Numeral digits k ∧
      (range = ['*'] ∨ (rangeMatch range).any (·.2.isSome) = true) := by
  unfold stepMatch at h
  split at h
  next range' digits hsplit =>
    split_ifs at h with hmatch
    obtain ⟨n, hn, heq⟩ := Option.map_eq_some_iff.1 h
    obtain ⟨rfl, rfl⟩ := Prod.mk.inj heq
    exact ⟨digits, (two_parts_iff.1 hsplit).1, decimal?_iff.1 hn, hmatch⟩
  next => cases h

/-- The range of a part and its step. -/
def reading (part : List Char) : List Char × Nat := (stepMatch part).getD (part, 1)

/-- The bounds a range names in a field. -/
def bounds? (field : FieldSpec) (range : List Char) : Option (Nat × Nat) :=
  if range = ['*'] then some (field.min, field.max)
  else (rangeMatch range).map fun (lo, hi) => (lo, hi.getD lo)

/-- The values from one bound to the other, a step at a time. -/
def stepped (lo hi step : Nat) : List Nat :=
  ((List.range (hi - lo + 1)).filter (· % step = 0)).map (lo + ·)

/-- A part is accepted when it has a range within bounds and a positive step. -/
theorem parsePart_iff {values : List Nat} : parsePart part field = .ok values ↔
    isFiniteNumeral (reading part).2 = true ∧ (reading part).2 ≠ 0 ∧
      ∃ lo hi, bounds? field (reading part).1 = some (lo, hi) ∧
        ¬(hi < lo ∨ lo < field.min ∨ field.max < hi) ∧ stepped lo hi (reading part).2 = values := by
  unfold parsePart reading
  obtain ⟨range, step⟩ := (stepMatch part).getD (part, 1)
  by_cases hstep : isFiniteNumeral step = true ∧ step ≠ 0
  · simp only [hstep.1, hstep.2, not_true_eq_false, or_false, if_false, true_and, ne_eq,
      not_false_eq_true, bounds?]
    by_cases hrange : range = ['*']
    · rw [if_pos hrange, if_pos hrange]
      refine ite_throw_eq_ok.trans ⟨fun h => ⟨_, _, rfl, h⟩, ?_⟩
      rintro ⟨lo, hi, heq, h⟩
      obtain ⟨rfl, rfl⟩ := Prod.mk.inj (Option.some.inj heq)
      exact h
    · rw [if_neg hrange, if_neg hrange]
      cases rangeMatch range with
      | none =>
        constructor
        · intro h
          cases h
        · rintro ⟨lo, hi, heq, -⟩
          cases heq
      | some bounds =>
        refine ite_throw_eq_ok.trans ⟨fun h => ⟨_, _, rfl, h⟩, ?_⟩
        rintro ⟨lo, hi, heq, h⟩
        obtain ⟨rfl, rfl⟩ := Prod.mk.inj (Option.some.inj heq)
        exact h
  · have hrefused : ¬isFiniteNumeral step = true ∨ step = 0 := by
      by_cases hfinite : isFiniteNumeral step = true
      · exact .inr (not_not.1 fun hne => hstep ⟨hfinite, hne⟩)
      · exact .inl hfinite
    constructor
    · intro h
      simp only [if_pos hrefused] at h
      cases h
    · rintro ⟨hfinite, hne, -⟩
      exact absurd ⟨hfinite, hne⟩ hstep

theorem Numeral.ne_star {digits : List Char} {n : Nat} (h : Numeral digits n) : digits ≠ ['*'] := by
  rintro rfl
  exact absurd (h.isDigit '*' (List.mem_singleton_self _)) (by decide)

theorem range_ne_star (lo hi : List Char) : lo ++ '-' :: hi ≠ ['*'] := by
  intro h
  have hmem : '-' ∈ ['*'] := h ▸ List.mem_append_right lo (List.mem_cons_self ..)
  exact absurd hmem (by decide)

theorem slash_not_mem_range {lo hi : List Char} {a b : Nat} (hlo : Numeral lo a)
    (hhi : Numeral hi b) : '/' ∉ lo ++ '-' :: hi := by
  intro h
  rcases List.mem_append.1 h with h | h
  · exact hlo.not_mem (by decide) h
  · rcases List.mem_cons.1 h with h | h
    · exact absurd h (by decide)
    · exact hhi.not_mem (by decide) h

theorem bounds?_star : bounds? field ['*'] = some (field.min, field.max) := if_pos rfl

theorem bounds?_one {digits : List Char} {n : Nat} (h : Numeral digits n) :
    bounds? field digits = some (n, n) := by
  unfold bounds?
  rw [if_neg h.ne_star, rangeMatch_one h]
  rfl

theorem bounds?_two {lo hi : List Char} {a b : Nat} (hlo : Numeral lo a) (hhi : Numeral hi b) :
    bounds? field (lo ++ '-' :: hi) = some (a, b) := by
  unfold bounds?
  rw [if_neg (range_ne_star lo hi), rangeMatch_two hlo hhi]
  rfl

theorem reading_plain (h : '/' ∉ part) : reading part = (part, 1) := by
  unfold reading
  rw [stepMatch_none h]
  rfl

/-- An item is read with its bounds and its step. -/
theorem CronItem.Text.reading {item : CronItem} (h : item.Text part) :
    (AgentLcars.reading part).2 = item.step ∧
      bounds? field (AgentLcars.reading part).1 = some (item.first field, item.last field) := by
  cases h with
  | any =>
    rw [reading_plain (by decide)]
    exact ⟨rfl, bounds?_star⟩
  | value h =>
    rw [reading_plain (h.not_mem (by decide))]
    exact ⟨rfl, bounds?_one h⟩
  | range hfirst hlast =>
    rw [reading_plain (slash_not_mem_range hfirst hlast)]
    exact ⟨rfl, bounds?_two hfirst hlast⟩
  | anyEvery hstep =>
    unfold AgentLcars.reading
    rw [stepMatch_some (by decide) (.inl rfl) hstep]
    exact ⟨rfl, bounds?_star⟩
  | rangeEvery hfirst hlast hstep =>
    unfold AgentLcars.reading
    rw [stepMatch_some (slash_not_mem_range hfirst hlast)
      (.inr (by rw [rangeMatch_two hfirst hlast]; rfl)) hstep]
    exact ⟨rfl, bounds?_two hfirst hlast⟩

/-- Only items have bounds. -/
theorem exists_item {lo hi : Nat} (h : bounds? field (reading part).1 = some (lo, hi)) :
    ∃ item : CronItem, item.Text part := by
  unfold reading at h
  cases hstep : stepMatch part with
  | some match' =>
    obtain ⟨range, k⟩ := match'
    obtain ⟨digits, rfl, hk, hrange⟩ := stepMatch_cases hstep
    rcases hrange with rfl | hrange
    · exact ⟨_, .anyEvery hk⟩
    · obtain ⟨⟨a, b⟩, hmatch, hb⟩ := Option.any_eq_true _ _ |>.1 hrange
      rcases rangeMatch_cases hmatch with ⟨-, rfl⟩ | ⟨lo', hi', n, rfl, hlo, hhi, -⟩
      · cases hb
      · exact ⟨_, .rangeEvery hlo hhi hk⟩
  | none =>
    rw [hstep] at h
    by_cases hstar : part = ['*']
    · exact ⟨.any, hstar ▸ CronItem.Text.any⟩
    · simp only [bounds?, Option.getD_none, if_neg hstar] at h
      obtain ⟨⟨a, b⟩, hmatch, -⟩ := Option.map_eq_some_iff.1 h
      rcases rangeMatch_cases hmatch with ⟨ha, -⟩ | ⟨lo', hi', n, rfl, hlo, hhi, -⟩
      · exact ⟨_, .value ha⟩
      · exact ⟨_, .range hlo hhi⟩

/-- A short numeral is a number. -/
theorem Numeral.isFinite {digits : List Char} {n : Nat} (h : Numeral digits n)
    (hshort : digits.length ≤ 15) : isFiniteNumeral n = true := by
  have hlt : n < 10 ^ 15 := Nat.lt_of_lt_of_le h.lt_pow (Nat.pow_le_pow_right (by decide) hshort)
  exact decide_eq_true (Nat.lt_trans hlt (by decide +kernel))

theorem isFiniteNumeral_one : isFiniteNumeral 1 = true := by decide +kernel

theorem ShortNumerals.infix {text : List Char} (h : ShortNumerals text) (hpart : part <:+: text) :
    ShortNumerals part :=
  fun digits hdigits => h digits (hdigits.trans hpart)

/-- The step of an item without long numerals is a number. -/
theorem CronItem.Text.isFinite {item : CronItem} (h : item.Text part) (hshort : ShortNumerals part) :
    isFiniteNumeral item.step = true := by
  cases h with
  | anyEvery hstep =>
    exact hstep.isFinite (hshort _ ⟨['*', '/'], [], by simp⟩ hstep.isDigit)
  | rangeEvery hfirst hlast hstep =>
    refine hstep.isFinite (hshort _ (List.IsSuffix.isInfix ?_) hstep.isDigit)
    exact (List.suffix_cons ..).trans (List.suffix_append ..)
  | _ => exact isFiniteNumeral_one

/-- An item is accepted when it is within its field, and stands for its values. -/
theorem CronItem.Text.parsePart_iff {item : CronItem} {values : List Nat} (h : item.Text part)
    (hshort : ShortNumerals part) :
    parsePart part field = .ok values ↔ item.Within field ∧ item.values field = values := by
  obtain ⟨hstep, hbounds⟩ := @CronItem.Text.reading part field item h
  have hfinite := h.isFinite hshort
  rw [AgentLcars.parsePart_iff, hstep, hbounds]
  constructor
  · rintro ⟨-, hpos, lo, hi, heq, hin, hvalues⟩
    obtain ⟨rfl, rfl⟩ := Prod.mk.inj (Option.some.inj heq)
    refine ⟨⟨?_, ?_, ?_, ?_⟩, hvalues⟩ <;> omega
  · rintro ⟨hwithin, hvalues⟩
    have hpos := hwithin.step
    have hfirst := hwithin.first
    have hordered := hwithin.ordered
    have hlast := hwithin.last
    exact ⟨hfinite, by omega, _, _, rfl, by omega, hvalues⟩

/-- The values of an item are those it names. -/
theorem CronItem.mem_values {item : CronItem} (h : item.Within field) {v : Nat} :
    v ∈ item.values field ↔ item.Names field v := by
  have hordered := h.ordered
  unfold CronItem.values CronItem.Names
  constructor
  · intro hmem
    obtain ⟨offset, hoffset, rfl⟩ := List.mem_map.1 hmem
    obtain ⟨hlt, hmod⟩ := List.mem_filter.1 hoffset
    rw [List.mem_range] at hlt
    refine ⟨offset / item.step, ?_, by omega⟩
    rw [Nat.div_mul_cancel (Nat.dvd_of_mod_eq_zero (of_decide_eq_true hmod))]
  · rintro ⟨i, rfl, hle⟩
    refine List.mem_map.2 ⟨i * item.step, List.mem_filter.2 ⟨List.mem_range.2 (by omega), ?_⟩, rfl⟩
    exact decide_eq_true (Nat.mul_mod_left ..)

/-- An item names its first value. -/
theorem CronItem.Within.names_first {item : CronItem} (h : item.Within field) :
    item.Names field (item.first field) :=
  ⟨0, by rw [Nat.zero_mul, Nat.add_zero], h.ordered⟩

theorem CronItem.Within.bounds {item : CronItem} (h : item.Within field) {v : Nat}
    (hv : item.Names field v) : field.min ≤ v ∧ v ≤ field.max := by
  obtain ⟨i, rfl, hle⟩ := hv
  exact ⟨Nat.le_trans h.first (Nat.le_add_right ..), Nat.le_trans hle h.last⟩

end Items

/-! ### Fields -/

section Fields

variable {raw : List Char} {items : List CronItem} {field : FieldSpec}

/-- The characters of an item. -/
theorem CronItem.Text.chars {item : CronItem} {text : List Char} (h : item.Text text) :
    ∀ c ∈ text, c.isDigit = true ∨ c ∈ ['*', '-', '/'] := by
  intro c hc
  cases h with
  | any => exact .inr (List.mem_singleton.1 hc ▸ List.mem_cons_self ..)
  | value h => exact .inl (h.isDigit c hc)
  | range hfirst hlast =>
    rcases List.mem_append.1 hc with hc | hc
    · exact .inl (hfirst.isDigit c hc)
    rcases List.mem_cons.1 hc with rfl | hc
    · exact .inr (by decide)
    · exact .inl (hlast.isDigit c hc)
  | anyEvery hstep =>
    rcases List.mem_append.1 hc with hc | hc
    · exact .inr (List.mem_singleton.1 hc ▸ List.mem_cons_self ..)
    rcases List.mem_cons.1 hc with rfl | hc
    · exact .inr (by decide)
    · exact .inl (hstep.isDigit c hc)
  | rangeEvery hfirst hlast hstep =>
    rcases List.mem_append.1 hc with hc | hc
    · rcases List.mem_append.1 hc with hc | hc
      · exact .inl (hfirst.isDigit c hc)
      rcases List.mem_cons.1 hc with rfl | hc
      · exact .inr (by decide)
      · exact .inl (hlast.isDigit c hc)
    · rcases List.mem_cons.1 hc with rfl | hc
      · exact .inr (by decide)
      · exact .inl (hstep.isDigit c hc)

theorem CronItem.Text.comma {item : CronItem} {text : List Char} (h : item.Text text) :
    ',' ∉ text := by
  intro hmem
  rcases h.chars ',' hmem with hc | hc
  · exact absurd hc (by decide)
  · exact absurd hc (by decide)

theorem CronItem.Text.ne_nil {item : CronItem} {text : List Char} (h : item.Text text) :
    text ≠ [] := by
  cases h with
  | any => exact List.cons_ne_nil _ _
  | value h => exact h.ne_nil
  | _ => exact List.append_ne_nil_of_right_ne_nil _ (List.cons_ne_nil _ _)

theorem FieldText.ne_nil (h : FieldText items raw) : items ≠ [] := by
  cases h <;> exact List.cons_ne_nil _ _

theorem isDigit_not_trimmed {c : Char} (h : c.isDigit = true) : isTrimmed c = false := by
  have hrange : 48 ≤ c.toNat ∧ c.toNat ≤ 57 := by
    simp only [Char.isDigit, Bool.and_eq_true, decide_eq_true_eq] at h
    exact h
  unfold isTrimmed
  rw [decide_eq_false_iff_not]
  omega

/-- A field is a word. -/
theorem FieldText.isWord (h : FieldText items raw) : IsWord isTrimmed raw := by
  have hitem : ∀ {item : CronItem} {text : List Char}, item.Text text →
      ∀ c ∈ text, isTrimmed c = false := by
    intro item text htext c hc
    rcases htext.chars c hc with hdigit | hmark
    · exact isDigit_not_trimmed hdigit
    · have hmarks : ∀ d ∈ ['*', '-', '/'], isTrimmed d = false := List.all_iff_forall_prop.1 (by decide)
      exact hmarks c hmark
  induction h with
  | one h => exact ⟨h.ne_nil, hitem h⟩
  | cons h _ ih =>
    refine ⟨List.append_ne_nil_of_right_ne_nil _ (List.cons_ne_nil _ _), fun c hc => ?_⟩
    rcases List.mem_append.1 hc with hc | hc
    · exact hitem h c hc
    rcases List.mem_cons.1 hc with rfl | hc
    · decide
    · exact ih.2 c hc

/-- The parts of a field are accepted when every item is within it. -/
theorem FieldText.parts_iff (h : FieldText items raw) (hshort : ShortNumerals raw)
    {lists : List (List Nat)} :
    (raw.splitOn ',').mapM (parsePart · field) = .ok lists ↔
      (∀ item ∈ items, item.Within field) ∧ items.map (·.values field) = lists := by
  rw [mapM_ok_iff]
  induction h generalizing lists with
  | one h =>
    rw [part_iff.2 ⟨rfl, h.comma⟩, List.forall₂_cons_left_iff, List.forall_mem_singleton]
    constructor
    · rintro ⟨values, rest, hvalues, hrest, rfl⟩
      obtain ⟨hwithin, rfl⟩ := (h.parsePart_iff hshort).1 hvalues
      cases hrest
      exact ⟨hwithin, rfl⟩
    · rintro ⟨hwithin, rfl⟩
      exact ⟨_, _, (h.parsePart_iff hshort).2 ⟨hwithin, rfl⟩, .nil, rfl⟩
  | @cons item items text rest h _ ih =>
    have htext : ShortNumerals text := hshort.infix (List.prefix_append ..).isInfix
    have hrest : ShortNumerals rest :=
      hshort.infix ((List.suffix_cons ..).trans (List.suffix_append ..)).isInfix
    rw [List.splitOn_append_cons_self_of_not_mem h.comma, List.forall₂_cons_left_iff,
      List.forall_mem_cons]
    constructor
    · rintro ⟨values, lists, hvalues, hlists, rfl⟩
      obtain ⟨hwithin, rfl⟩ := (h.parsePart_iff htext).1 hvalues
      obtain ⟨hwithin', rfl⟩ := (ih hrest).1 hlists
      exact ⟨⟨hwithin, hwithin'⟩, rfl⟩
    · rintro ⟨⟨hwithin, hwithin'⟩, rfl⟩
      exact ⟨_, _, (h.parsePart_iff htext).2 ⟨hwithin, rfl⟩, (ih hrest).2 ⟨hwithin', rfl⟩, rfl⟩

theorem parseField_eq_ok {values : List Nat} : parseField raw field = .ok values ↔
    ∃ lists, (raw.splitOn ',').mapM (parsePart · field) = .ok lists ∧ lists.flatten = values := by
  unfold parseField
  cases (raw.splitOn ',').mapM (parsePart · field) with
  | error e =>
    constructor
    · intro h
      cases h
    · rintro ⟨lists, h, -⟩
      cases h
  | ok lists =>
    constructor
    · intro h
      exact ⟨lists, rfl, Except.ok.inj h⟩
    · rintro ⟨_, h, rfl⟩
      obtain rfl := Except.ok.inj h
      rfl

/-- The values of all items. -/
def fieldValues (field : FieldSpec) (items : List CronItem) : List Nat :=
  (items.map (·.values field)).flatten

/-- A field is accepted when every item is within it, and stands for the values of its items. -/
theorem FieldText.parseField_iff (h : FieldText items raw) (hshort : ShortNumerals raw)
    {values : List Nat} : parseField raw field = .ok values ↔
      (∀ item ∈ items, item.Within field) ∧ fieldValues field items = values := by
  rw [parseField_eq_ok]
  constructor
  · rintro ⟨lists, hlists, rfl⟩
    obtain ⟨hwithin, rfl⟩ := (h.parts_iff hshort).1 hlists
    exact ⟨hwithin, rfl⟩
  · rintro ⟨hwithin, rfl⟩
    exact ⟨_, (h.parts_iff hshort).2 ⟨hwithin, rfl⟩, rfl⟩

/-- Parts that are items make a field. -/
theorem exists_fieldText {parts : List (List Char)} (hne : parts ≠ [])
    (h : ∀ part ∈ parts, ∃ item : CronItem, item.Text part) :
    ∃ items, FieldText items ([','].intercalate parts) := by
  induction parts with
  | nil => exact absurd rfl hne
  | cons part parts ih =>
    obtain ⟨item, hitem⟩ := h part (List.mem_cons_self ..)
    cases parts with
    | nil =>
      rw [List.intercalate_singleton]
      exact ⟨[item], .one hitem⟩
    | cons next parts =>
      obtain ⟨items, hitems⟩ := ih (List.cons_ne_nil _ _) fun p hp => h p (List.mem_cons_of_mem _ hp)
      rw [List.intercalate_cons_cons, List.append_assoc]
      exact ⟨item :: items, .cons hitem hitems⟩

/-- Only fields of the grammar are accepted. -/
theorem fieldText_of_parseField {values : List Nat} (h : parseField raw field = .ok values) :
    ∃ items, FieldText items raw := by
  obtain ⟨lists, hlists, -⟩ := parseField_eq_ok.1 h
  have hitems : ∀ part ∈ raw.splitOn ',', ∃ item : CronItem, item.Text part := by
    intro part hmem
    obtain ⟨values, hvalues⟩ := exists_of_mapM_ok hlists part hmem
    obtain ⟨-, -, lo, hi, hbounds, -⟩ := AgentLcars.parsePart_iff.1 hvalues
    exact exists_item hbounds
  have htext := exists_fieldText (List.splitOn_ne_nil ',' raw) hitems
  rwa [List.intercalate_splitOn] at htext

/-- The values of a part are within bounds, and there is one. -/
theorem parsePart_bounds {part : List Char} {values : List Nat}
    (h : parsePart part field = .ok values) :
    values ≠ [] ∧ ∀ v ∈ values, field.min ≤ v ∧ v ≤ field.max := by
  obtain ⟨-, hpos, lo, hi, -, hin, rfl⟩ := AgentLcars.parsePart_iff.1 h
  constructor
  · refine List.ne_nil_of_mem (a := lo) (List.mem_map.2 ⟨0, List.mem_filter.2 ⟨?_, ?_⟩, Nat.add_zero lo⟩)
    · exact List.mem_range.2 (Nat.succ_pos _)
    · exact decide_eq_true (Nat.zero_mod _)
  · intro v hv
    obtain ⟨offset, hoffset, rfl⟩ := List.mem_map.1 hv
    have hlt := List.mem_range.1 (List.mem_filter.1 hoffset).1
    omega

/-- The values of a field are within its bounds, and there is one. -/
theorem parseField_bounds {values : List Nat} (h : parseField raw field = .ok values) :
    values ≠ [] ∧ ∀ v ∈ values, field.min ≤ v ∧ v ≤ field.max := by
  obtain ⟨lists, hlists, rfl⟩ := parseField_eq_ok.1 h
  have hcalls := mapM_ok_iff.1 hlists
  have hne := List.splitOn_ne_nil ',' raw
  generalize raw.splitOn ',' = parts at hcalls hne
  clear hlists h
  have hall : ∀ v ∈ lists.flatten, field.min ≤ v ∧ v ≤ field.max := by
    clear hne
    induction hcalls with
    | nil => exact fun v hv => absurd hv List.not_mem_nil
    | cons hfirst _ ih =>
      intro v hv
      rw [List.flatten_cons, List.mem_append] at hv
      rcases hv with hv | hv
      · exact (parsePart_bounds hfirst).2 v hv
      · exact ih v hv
  refine ⟨?_, hall⟩
  cases hcalls with
  | nil => exact absurd rfl hne
  | cons hfirst _ =>
    rw [List.flatten_cons]
    exact List.append_ne_nil_of_left_ne_nil (parsePart_bounds hfirst).1 _

/-- The values of a field within its bounds are those its items name. -/
theorem denoted (hne : items ≠ []) (hwithin : ∀ item ∈ items, item.Within field) :
    field.Denoted items (fieldValues field items) := by
  have hmem : ∀ v, v ∈ fieldValues field items ↔ ∃ item ∈ items, item.Names field v := by
    intro v
    unfold fieldValues
    rw [List.mem_flatten]
    constructor
    · rintro ⟨_, hlist, hv⟩
      obtain ⟨item, hitem, rfl⟩ := List.mem_map.1 hlist
      exact ⟨item, hitem, (CronItem.mem_values (hwithin item hitem)).1 hv⟩
    · rintro ⟨item, hitem, hv⟩
      exact ⟨_, List.mem_map_of_mem hitem, (CronItem.mem_values (hwithin item hitem)).2 hv⟩
  refine ⟨hmem, ?_, fun v hv => ?_⟩
  · obtain ⟨item, rest, rfl⟩ := List.exists_cons_of_ne_nil hne
    have hitem := List.mem_cons_self (a := item) (l := rest)
    exact List.ne_nil_of_mem ((hmem _).2 ⟨item, hitem, (hwithin item hitem).names_first⟩)
  · obtain ⟨item, hitem, hnames⟩ := (hmem v).1 hv
    exact (hwithin item hitem).bounds hnames

end Fields

/-! ### Expressions -/

section Expressions

variable {expr : String} {fields : CronFields} {spec : CronSpec}

/-- The fields of an expression are the words of its trimmed text. -/
theorem cronFields_eq (h : trim expr ≠ []) : cronFields expr = words isTrimmed (trim expr) := by
  have hwords := separated_words h (trimmed_dropWhile expr.toList)
  unfold cronFields
  split
  next hsplit =>
    have hnil : words isTrimmed (trim expr) = [] := by
      unfold words
      rw [hsplit]
      rfl
    rw [hnil] at hwords
    cases hwords
  next => rfl

theorem cronFields_blank (h : trim expr = []) : cronFields expr = [[]] := by
  unfold cronFields
  rw [h, List.splitOnP_nil]

/-- The fields of a text of the grammar are read back. -/
theorem cronFields_separated {texts : List (List Char)}
    (hsep : Separated isTrimmed texts (trim expr)) (hne : texts ≠ [])
    (hwords : ∀ text ∈ texts, IsWord isTrimmed text) : cronFields expr = texts := by
  have hread := words_separated hsep hwords
  rw [cronFields_eq, hread]
  intro hnil
  rw [hnil, words_nil] at hread
  exact hne hread.symm

/-- An expression of five fields is accepted when each field is. -/
theorem parseCron_iff {minute hour dayOfMonth month dayOfWeek : List Char}
    (h : cronFields expr = [minute, hour, dayOfMonth, month, dayOfWeek]) :
    parseCron expr = .ok spec ↔
      parseField minute ⟨0, 59⟩ = .ok spec.minute ∧ parseField hour ⟨0, 23⟩ = .ok spec.hour ∧
        parseField dayOfMonth ⟨1, 31⟩ = .ok spec.dayOfMonth ∧
        parseField month ⟨1, 12⟩ = .ok spec.month ∧
        parseField dayOfWeek ⟨0, 6⟩ = .ok spec.dayOfWeek := by
  have hfive : ¬[minute, hour, dayOfMonth, month, dayOfWeek].length ≠ 5 := by simp
  have hzip : [minute, hour, dayOfMonth, month, dayOfWeek].zip FIELDS = [(minute, ⟨0, 59⟩), (hour, ⟨0, 23⟩),
      (dayOfMonth, ⟨1, 31⟩), (month, ⟨1, 12⟩), (dayOfWeek, ⟨0, 6⟩)] := rfl
  unfold parseCron
  simp only [h, if_neg hfive, hzip]
  rw [bind_eq_ok]
  simp only [mapM_ok_iff, List.forall₂_cons_left_iff, List.forall₂_nil_left_iff]
  constructor
  · rintro ⟨_, ⟨minute', _, hminute, ⟨hour', _, hhour, ⟨day', _, hday, ⟨month', _, hmonth,
      ⟨week', _, hweek, rfl, rfl⟩, rfl⟩, rfl⟩, rfl⟩, rfl⟩, hspec⟩
    obtain rfl := Except.ok.inj hspec
    exact ⟨hminute, hhour, hday, hmonth, hweek⟩
  · rintro ⟨hminute, hhour, hday, hmonth, hweek⟩
    exact ⟨_, ⟨_, _, hminute, ⟨_, _, hhour, ⟨_, _, hday, ⟨_, _, hmonth, ⟨_, _, hweek, rfl, rfl⟩, rfl⟩,
      rfl⟩, rfl⟩, rfl⟩, rfl⟩

/-- The specification an expression stands for. -/
def CronFields.denotation (fields : CronFields) : CronSpec where
  minute := fieldValues ⟨0, 59⟩ fields.minute
  hour := fieldValues ⟨0, 23⟩ fields.hour
  dayOfMonth := fieldValues ⟨1, 31⟩ fields.dayOfMonth
  month := fieldValues ⟨1, 12⟩ fields.month
  dayOfWeek := fieldValues ⟨0, 6⟩ fields.dayOfWeek

/-- An expression of the grammar is accepted when it is within bounds, and stands for its values. -/
theorem CronFields.Text.parseCron_iff (h : fields.Text expr) (hshort : ShortNumerals expr.toList) :
    parseCron expr = .ok spec ↔ fields.Within ∧ fields.denotation = spec := by
  obtain ⟨minute, hour, dayOfMonth, month, dayOfWeek, hsep, hminute, hhour, hday, hmonth, hweek⟩ := h
  have hread := cronFields_separated hsep (List.cons_ne_nil _ _) (by
    simp only [List.forall_mem_cons, List.not_mem_nil, false_imp_iff, implies_true, and_true]
    exact ⟨hminute.isWord, hhour.isWord, hday.isWord, hmonth.isWord, hweek.isWord⟩)
  have hshort' : ∀ text ∈ [minute, hour, dayOfMonth, month, dayOfWeek], ShortNumerals text :=
    fun text hmem => hshort.infix ((hsep.isInfix text hmem).trans (dropWhile_isInfix _))
  rw [AgentLcars.parseCron_iff hread, hminute.parseField_iff (hshort' _ (by simp)),
    hhour.parseField_iff (hshort' _ (by simp)), hday.parseField_iff (hshort' _ (by simp)),
    hmonth.parseField_iff (hshort' _ (by simp)), hweek.parseField_iff (hshort' _ (by simp))]
  constructor
  · rintro ⟨⟨hm, hm'⟩, ⟨hh, hh'⟩, ⟨hd, hd'⟩, ⟨ho, ho'⟩, hw, hw'⟩
    refine ⟨⟨hm, hh, hd, ho, hw⟩, ?_⟩
    unfold CronFields.denotation
    rw [hm', hh', hd', ho', hw']
  · rintro ⟨hwithin, rfl⟩
    exact ⟨⟨hwithin.minute, rfl⟩, ⟨hwithin.hour, rfl⟩, ⟨hwithin.dayOfMonth, rfl⟩,
      ⟨hwithin.month, rfl⟩, hwithin.dayOfWeek, rfl⟩

/-- An accepted expression has five fields. -/
theorem exists_cronFields (h : parseCron expr = .ok spec) :
    ∃ minute hour dayOfMonth month dayOfWeek : List Char,
      cronFields expr = [minute, hour, dayOfMonth, month, dayOfWeek] := by
  have hlength : (cronFields expr).length = 5 := by
    by_contra hne
    unfold parseCron at h
    rw [if_pos hne] at h
    cases h
  match hfields : cronFields expr, hlength with
  | [minute, hour, dayOfMonth, month, dayOfWeek], _ =>
    exact ⟨minute, hour, dayOfMonth, month, dayOfWeek, rfl⟩

/-- The hours and minutes of an accepted expression. -/
theorem parseCron_clock (h : parseCron expr = .ok spec) :
    (∃ hour < 24, hour ∈ spec.hour) ∧ ∃ minute < 60, minute ∈ spec.minute := by
  obtain ⟨_, _, _, _, _, hfields⟩ := exists_cronFields h
  obtain ⟨hminute, hhour, -⟩ := (parseCron_iff hfields).1 h
  obtain ⟨hminutes, hminute⟩ := parseField_bounds hminute
  obtain ⟨hhours, hhour⟩ := parseField_bounds hhour
  obtain ⟨minute, hmem⟩ := List.exists_mem_of_ne_nil _ hminutes
  obtain ⟨hour, hmem'⟩ := List.exists_mem_of_ne_nil _ hhours
  exact ⟨⟨hour, Nat.lt_succ_of_le (hhour hour hmem').2, hmem'⟩,
    minute, Nat.lt_succ_of_le (hminute minute hmem).2, hmem⟩

/-- Only expressions of the grammar are accepted. -/
theorem exists_text_of_parseCron (h : parseCron expr = .ok spec) :
    ∃ fields : CronFields, fields.Text expr := by
  obtain ⟨minute, hour, dayOfMonth, month, dayOfWeek, hfields⟩ := exists_cronFields h
  have hne : trim expr ≠ [] := by
    intro hnil
    rw [cronFields_blank hnil] at hfields
    cases hfields
  have hsep := separated_words hne (trimmed_dropWhile expr.toList)
  have hwords : words isTrimmed (trim expr) = [minute, hour, dayOfMonth, month, dayOfWeek] :=
    (cronFields_eq hne).symm.trans hfields
  obtain ⟨hminute, hhour, hday, hmonth, hweek⟩ := (parseCron_iff hfields).1 h
  obtain ⟨minutes, hminute⟩ := fieldText_of_parseField hminute
  obtain ⟨hours, hhour⟩ := fieldText_of_parseField hhour
  obtain ⟨days, hday⟩ := fieldText_of_parseField hday
  obtain ⟨months, hmonth⟩ := fieldText_of_parseField hmonth
  obtain ⟨weekdays, hweek⟩ := fieldText_of_parseField hweek
  exact ⟨⟨minutes, hours, days, months, weekdays⟩, minute, hour, dayOfMonth, month, dayOfWeek,
    hwords ▸ hsep, hminute, hhour, hday, hmonth, hweek⟩

/-- The sets of an expression within bounds are those its fields denote. -/
theorem CronFields.Text.denote (h : fields.Text expr) (hwithin : fields.Within) :
    fields.Denote fields.denotation := by
  obtain ⟨_, _, _, _, _, -, hminute, hhour, hday, hmonth, hweek⟩ := h
  exact ⟨denoted hminute.ne_nil hwithin.minute, denoted hhour.ne_nil hwithin.hour,
    denoted hday.ne_nil hwithin.dayOfMonth, denoted hmonth.ne_nil hwithin.month,
    denoted hweek.ne_nil hwithin.dayOfWeek⟩

/-- `parseCron` accepts the expressions of the grammar that are within bounds, and each set it
returns is the union of what the items of its field name. -/
theorem parseCron_accepts (expr : String) (hshort : ShortNumerals expr.toList) :
    ((∃ spec, parseCron expr = .ok spec) ↔
        ∃ fields : CronFields, fields.Text expr ∧ fields.Within) ∧
      ∀ spec, parseCron expr = .ok spec →
        ∀ fields : CronFields, fields.Text expr → fields.Denote spec := by
  refine ⟨⟨?_, ?_⟩, ?_⟩
  · rintro ⟨spec, hspec⟩
    obtain ⟨fields, htext⟩ := exists_text_of_parseCron hspec
    exact ⟨fields, htext, ((htext.parseCron_iff hshort).1 hspec).1⟩
  · rintro ⟨fields, htext, hwithin⟩
    exact ⟨fields.denotation, (htext.parseCron_iff hshort).2 ⟨hwithin, rfl⟩⟩
  · intro spec hspec fields htext
    obtain ⟨hwithin, rfl⟩ := (htext.parseCron_iff hshort).1 hspec
    exact htext.denote hwithin

theorem parseCron_accepts_weekdays :
    (∃ fields : CronFields, fields.Text "*/5 0 1-3 * 0,2") ∧
      parseCron "*/5 0 1-3 * 0,2" = .ok ⟨[0, 5, 10, 15, 20, 25, 30, 35, 40, 45, 50, 55], [0], [1, 2, 3],
        [1, 2, 3, 4, 5, 6, 7, 8, 9, 10, 11, 12], [0, 2]⟩ := by
  have hok : parseCron "*/5 0 1-3 * 0,2" = .ok ⟨[0, 5, 10, 15, 20, 25, 30, 35, 40, 45, 50, 55], [0],
      [1, 2, 3], [1, 2, 3, 4, 5, 6, 7, 8, 9, 10, 11, 12], [0, 2]⟩ := by decide +kernel
  have hshort : ShortNumerals "*/5 0 1-3 * 0,2".toList := fun _ hdigits _ => hdigits.length_le
  obtain ⟨fields, htext, -⟩ := (parseCron_accepts "*/5 0 1-3 * 0,2" hshort).1.1 ⟨_, hok⟩
  exact ⟨⟨fields, htext⟩, hok⟩

end Expressions

end AgentLcars
