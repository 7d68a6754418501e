import Mathlib.Data.List.Basic

/-!
# Strings as JSON

`JSON.stringify` of strings and of lists of strings.  Escapes are a prefix code, and no escape starts
with a quotation mark, so what was written can be read back (`quote_append_inj`,
`stringifyStrings_inj`).
-/

namespace JsonStrings

/-- What follows the backslash for a control character. -/
def controlEscape (n : Nat) : List Char :=
  if n = 8 then ['b'] else if n = 9 then ['t'] else if n = 10 then ['n'] else if n = 12 then ['f']
  else if n = 13 then ['r'] else ['u', '0', '0', Nat.digitChar (n / 16), Nat.digitChar (n % 16)]

/-- The characters that are escaped. -/
def escapes : List (Char × List Char) :=
  [('"', ['\\', '"']), ('\\', ['\\', '\\'])] ++
    (List.range 32).map fun n => (Char.ofNat n, '\\' :: controlEscape n)

/-- A character in a string literal. -/
def escape (c : Char) : List Char := (escapes.lookup c).getD [c]

/-- `JSON.stringify` of a string. -/
def quote (text : List Char) : List Char := '"' :: (text.flatMap escape ++ ['"'])

/-- The items of an array after the first one. -/
def moreItems : List String → List Char
  | [] => [']']
  | item :: rest => ',' :: (quote item.toList ++ moreItems rest)

/-- `JSON.stringify` of an array of strings. -/
def stringifyItems : List String → List Char
  | [] => ['[', ']']
  | item :: rest => '[' :: (quote item.toList ++ moreItems rest)

/-- `JSON.stringify` of an array of strings, or of null. -/
def stringifyStrings : Option (List String) → String
  | none => "null"
  | some items => String.ofList (stringifyItems items)

theorem lookup_mem {c : Char} {e : List Char} (h : escapes.lookup c = some e) : (c, e) ∈ escapes := by
  generalize escapes = table at h
  induction table with
  | nil => cases h
  | cons entry rest ih =>
    obtain ⟨d, f⟩ := entry
    by_cases hd : c = d
    · subst hd
      simp only [List.lookup_cons_self, Option.some.injEq] at h
      rw [h]
      exact List.mem_cons_self
    · rw [List.lookup_cons, beq_false_of_ne hd] at h
      exact List.mem_cons_of_mem _ (ih h)

/-- An escape is one of the table, or the character itself, which is then in no escape's place. -/
theorem escape_cases (c : Char) :
    (c, escape c) ∈ escapes ∨ (escape c = [c] ∧ c ≠ '"' ∧ c ≠ '\\') := by
  unfold escape
  cases h : escapes.lookup c with
  | some e => exact .inl (lookup_mem h)
  | none =>
    refine .inr ⟨rfl, ?_, ?_⟩
    · rintro rfl
      cases h
    · rintro rfl
      cases h

/-- Every escape starts with a backslash, and none is the beginning of another. -/
theorem escapes_prefixFree : ∀ a ∈ escapes, a.2.head? = some '\\' ∧
    ∀ b ∈ escapes, a.2 <+: b.2 → a.1 = b.1 := by decide +kernel

theorem escape_append_inj {c d : Char} {x y : List Char} (h : escape c ++ x = escape d ++ y) :
    c = d ∧ x = y := by
  have hsame : c = d := by
    rcases escape_cases c with hc | ⟨hc, -, hslash⟩ <;>
      rcases escape_cases d with hd | ⟨hd, -, hslash'⟩
    · rcases List.prefix_or_prefix_of_prefix (⟨x, rfl⟩ : escape c <+: escape c ++ x)
        ⟨y, h.symm⟩ with hp | hp
      · exact (escapes_prefixFree _ hc).2 _ hd hp
      · exact ((escapes_prefixFree _ hd).2 _ hc hp).symm
    · -- an escape starts with a backslash, a plain character is none
      have hhead := congrArg List.head? h
      rw [hd, List.head?_append, (escapes_prefixFree _ hc).1] at hhead
      exact absurd (Option.some.inj hhead).symm hslash'
    · have hhead := congrArg List.head? h
      rw [hc, show (escape d ++ y).head? = some '\\' by
        rw [List.head?_append, (escapes_prefixFree _ hd).1]
        rfl] at hhead
      exact absurd (Option.some.inj hhead) hslash
    · rw [hc, hd] at h
      exact (List.cons.inj h).1
  subst hsame
  exact ⟨rfl, List.append_cancel_left h⟩

theorem escape_ne_quote (c : Char) (x y : List Char) : escape c ++ x ≠ '"' :: y := by
  intro h
  have hhead := congrArg List.head? h
  rcases escape_cases c with hc | ⟨hc, hquote, -⟩
  · rw [List.head?_append, (escapes_prefixFree _ hc).1] at hhead
    cases hhead
  · rw [hc] at hhead
    exact hquote (Option.some.inj hhead)

/-- What follows a string literal is found again. -/
theorem quote_append_inj {s t x y : List Char} (h : quote s ++ x = quote t ++ y) :
    s = t ∧ x = y := by
  simp only [quote, List.cons_append, List.append_assoc, List.cons.injEq, true_and,
    List.nil_append] at h
  induction s generalizing t with
  | nil =>
    cases t with
    | nil => exact ⟨rfl, (List.cons.inj h).2⟩
    | cons d t =>
      rw [List.flatMap_cons, List.append_assoc] at h
      exact absurd h.symm (escape_ne_quote _ _ _)
  | cons c s ih =>
    cases t with
    | nil =>
      rw [List.flatMap_cons, List.append_assoc] at h
      exact absurd h (escape_ne_quote _ _ _)
    | cons d t =>
      rw [List.flatMap_cons, List.append_assoc, List.flatMap_cons, List.append_assoc] at h
      obtain ⟨rfl, hrest⟩ := escape_append_inj h
      obtain ⟨rfl, hxy⟩ := ih hrest
      exact ⟨rfl, hxy⟩

theorem moreItems_inj {a b : List String} (h : moreItems a = moreItems b) : a = b := by
  induction a generalizing b with
  | nil =>
    cases b with
    | nil => rfl
    | cons item rest => cases (List.cons.inj h).1
  | cons item rest ih =>
    cases b with
    | nil => cases (List.cons.inj h).1
    | cons item' rest' =>
      obtain ⟨hitem, hrest⟩ := quote_append_inj (List.cons.inj h).2
      rw [String.toList_inj.mp hitem, ih hrest]

/-- `JSON.stringify` keeps arrays of strings, and null, apart. -/
theorem stringifyStrings_inj {a b : Option (List String)}
    (h : stringifyStrings a = stringifyStrings b) : a = b := by
  have hchars := congrArg String.toList h
  cases a with
  | none =>
    cases b with
    | none => rfl
    | some items => cases items <;> simp [stringifyStrings, stringifyItems] at hchars
  | some items =>
    cases b with
    | none => cases items <;> simp [stringifyStrings, stringifyItems] at hchars
    | some items' =>
      simp only [stringifyStrings, String.toList_ofList] at hchars
      cases items with
      | nil =>
        cases items' with
        | nil => rfl
        | cons item rest => cases (List.cons.inj (List.cons.inj hchars).2).1
      | cons item rest =>
        cases items' with
        | nil => cases (List.cons.inj (List.cons.inj hchars).2).1
        | cons item' rest' =>
          obtain ⟨hitem, hrest⟩ := quote_append_inj (List.cons.inj hchars).2
          rw [String.toList_inj.mp hitem, moreItems_inj hrest]

end JsonStrings
