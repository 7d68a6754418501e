import Mathlib.Data.List.TakeWhile
import Mathlib.Data.List.Basic
import Mathlib.Data.Nat.Init

/-!
# Texts cut at separators

* `Separated p fields text`: the text is the fields, with runs of separators between them.
* `words_separated`, `separated_words`: splitting at every separator and dropping the empty pieces
  reads such a text back, and every text without separators at its ends is such a text.
* `parts_iff`: splitting at one separator reads a joined list back.
-/

namespace Splitting

section Words

variable {α : Type} {p : α → Bool}

/-- The pieces between separators that are not empty. -/
def words (p : α → Bool) (text : List α) : List (List α) :=
  (text.splitOnP p).filter (¬·.isEmpty)

/-- Fields with runs of separators between them. -/
inductive Separated (p : α → Bool) : List (List α) → List α → Prop
  | one (field : List α) : Separated p [field] field
  | cons {field run text : List α} {fields : List (List α)} (hrun : run ≠ [])
      (hall : ∀ c ∈ run, p c = true) (hrest : Separated p fields text) :
      Separated p (field :: fields) (field ++ run ++ text)

/-- A field of a text cut into words. -/
def IsWord (p : α → Bool) (field : List α) : Prop := field ≠ [] ∧ ∀ c ∈ field, p c = false

theorem words_append {sep : α} (hsep : p sep = true) (before after : List α) :
    words p (before ++ sep :: after) = words p before ++ words p after := by
  unfold words
  rw [List.splitOnP_append_cons before after hsep, List.filter_append]

theorem words_nil : words p [] = [] := rfl

theorem IsWord.words {field : List α} (h : IsWord p field) : words p field = [field] := by
  unfold Splitting.words
  rw [List.splitOnP_eq_singleton h.2]
  exact List.filter_eq_self.2 fun piece hmem => by
    rw [List.mem_singleton.1 hmem]
    simpa using h.1

/-- A run of separators holds no word. -/
theorem words_run {run : List α} (h : ∀ c ∈ run, p c = true) (text : List α) :
    words p (run ++ text) = words p text := by
  induction run with
  | nil => rfl
  | cons sep run ih =>
    have hcons := words_append (h sep (List.mem_cons_self ..)) [] (run ++ text)
    rw [words_nil, List.nil_append, List.nil_append] at hcons
    rw [List.cons_append, hcons]
    exact ih fun c hc => h c (List.mem_cons_of_mem _ hc)

theorem IsWord.words_append_run {field run : List α} (hfield : IsWord p field) (hrun : run ≠ [])
    (hall : ∀ c ∈ run, p c = true) (text : List α) :
    Splitting.words p (field ++ run ++ text) = field :: Splitting.words p text := by
  obtain ⟨sep, run, rfl⟩ := List.exists_cons_of_ne_nil hrun
  rw [List.append_assoc, List.cons_append, words_append (hall sep (List.mem_cons_self ..)),
    hfield.words, words_run fun c hc => hall c (List.mem_cons_of_mem _ hc)]
  rfl

/-- Cutting a separated text gives its fields. -/
theorem words_separated {fields : List (List α)} {text : List α} (h : Separated p fields text)
    (hfields : ∀ field ∈ fields, IsWord p field) : words p text = fields := by
  induction h with
  | one field => exact (hfields field (List.mem_singleton_self field)).words
  | cons hrun hall hrest ih =>
    rw [(hfields _ (List.mem_cons_self ..)).words_append_run hrun hall,
      ih fun field hmem => hfields field (List.mem_cons_of_mem _ hmem)]

/-- A field is a part of the text. -/
theorem Separated.isInfix {fields : List (List α)} {text : List α} (h : Separated p fields text) :
    ∀ field ∈ fields, field <:+: text := by
  induction h with
  | one field => exact List.forall_mem_singleton.2 (List.infix_refl field)
  | cons _ _ _ ih =>
    intro field hmem
    rw [List.append_assoc]
    rcases List.mem_cons.1 hmem with rfl | hmem
    · exact (List.prefix_append ..).isInfix
    · exact (ih field hmem).trans ((List.suffix_append ..).trans (List.suffix_append ..)).isInfix

/-- The text neither starts nor ends with a separator. -/
def Trimmed (p : α → Bool) (text : List α) : Prop :=
  (∀ c ∈ text.head?, p c = false) ∧ ∀ c ∈ text.getLast?, p c = false

/-- A text in front of a suffix that is not empty ends as the suffix does. -/
theorem Trimmed.suffix {before text : List α} (h : Trimmed p (before ++ text)) (hne : text ≠ [])
    (hhead : ∀ c ∈ text.head?, p c = false) : Trimmed p text := by
  refine ⟨hhead, fun c hc => h.2 c ?_⟩
  rw [List.getLast?_append_of_ne_nil before hne]
  exact hc

/-- What is left of a text starts outside the predicate. -/
theorem head?_dropWhile (q : α → Bool) (text : List α) :
    ∀ c ∈ (text.dropWhile q).head?, q c = false := by
  intro c hc
  have hhead := List.head?_dropWhile_not q text
  rw [Option.mem_def.1 hc] at hhead
  exact hhead

/-- The longest prefix on which a predicate holds. -/
theorem exists_prefix (q : α → Bool) (text : List α) : ∃ before after : List α,
    text = before ++ after ∧ (∀ c ∈ before, q c = true) ∧ ∀ c ∈ after.head?, q c = false :=
  ⟨text.takeWhile q, text.dropWhile q, (List.takeWhile_append_dropWhile ..).symm,
    fun _ hc => List.mem_takeWhile_imp hc, head?_dropWhile q text⟩

/-- A trimmed text is its words with runs of separators between them. -/
theorem separated_words {text : List α} (hne : text ≠ []) (h : Trimmed p text) :
    Separated p (words p text) text := by
  induction hlength : text.length using Nat.strong_induction_on generalizing text with
  | _ length ih =>
    -- the first word, the run after it and what follows
    obtain ⟨word, rest, rfl, hword, hrest⟩ := exists_prefix (fun c => !p c) text
    have hword' : IsWord p word := by
      refine ⟨?_, fun c hc => by simpa using hword c hc⟩
      rintro rfl
      obtain ⟨c, rest, rfl⟩ := List.exists_cons_of_ne_nil hne
      have hsep := hrest c rfl
      rw [h.1 c rfl] at hsep
      cases hsep
    rcases eq_or_ne rest [] with rfl | hne'
    · rw [List.append_nil, hword'.words]
      exact .one word
    obtain ⟨run, text, rfl, hrun, hhead⟩ := exists_prefix p rest
    have hrun_ne : run ≠ [] := by
      rintro rfl
      obtain ⟨c, text, rfl⟩ := List.exists_cons_of_ne_nil hne'
      have hsep := hrest c rfl
      rw [hhead c rfl] at hsep
      cases hsep
    have htext : text ≠ [] := by
      rintro rfl
      -- otherwise the text would end with the run
      have hlast := h.2 (run.getLast hrun_ne) (by simp [List.getLast?_eq_some_getLast, hrun_ne])
      rw [hrun _ (List.getLast_mem hrun_ne)] at hlast
      cases hlast
    have hlt : text.length < length := by
      have hpos := List.length_pos_iff.2 hword'.1
      rw [← hlength, List.length_append, List.length_append]
      omega
    have htrimmed : Trimmed p text := by
      rw [← List.append_assoc] at h
      exact h.suffix htext hhead
    rw [← List.append_assoc, hword'.words_append_run hrun_ne hrun]
    exact .cons hrun_ne hrun (ih text.length hlt htext htrimmed rfl)

end Words

section Trim

variable {α : Type} {p : α → Bool}

/-- Dropping separators at both ends leaves a trimmed text. -/
theorem trimmed_dropWhile (text : List α) :
    Trimmed p (((text.dropWhile p).reverse).dropWhile p).reverse := by
  constructor
  · intro c hc
    have hsuffix := List.dropWhile_suffix p (l := (text.dropWhile p).reverse)
    obtain ⟨rest, hrest⟩ := List.reverse_prefix.2 hsuffix
    rw [List.reverse_reverse] at hrest
    refine head?_dropWhile p text c ?_
    rw [← hrest, List.head?_append, Option.mem_def.1 hc]
    rfl
  · intro c hc
    rw [List.getLast?_reverse] at hc
    exact head?_dropWhile p _ c hc

theorem dropWhile_isInfix (text : List α) :
    (((text.dropWhile p).reverse).dropWhile p).reverse <:+: text := by
  have hprefix := List.reverse_prefix.2 (List.dropWhile_suffix p (l := (text.dropWhile p).reverse))
  rw [List.reverse_reverse] at hprefix
  exact hprefix.isInfix.trans (List.dropWhile_suffix p).isInfix

end Trim

section Parts

variable {α : Type} [BEq α] [LawfulBEq α]

/-- Splitting at a separator reads a joined list back. -/
theorem parts_iff {sep : α} {text : List α} {parts : List (List α)} :
    text.splitOn sep = parts ↔
      parts ≠ [] ∧ (∀ part ∈ parts, sep ∉ part) ∧ [sep].intercalate parts = text := by
  constructor
  · rintro rfl
    refine ⟨List.splitOn_ne_nil sep text, ?_, List.intercalate_splitOn sep⟩
    induction text with
    | nil =>
      intro part hmem
      rw [List.mem_singleton.1 hmem]
      exact List.not_mem_nil
    | cons c text ih =>
      rw [List.splitOn_cons_eq_if_modifyHead]
      intro part hmem
      obtain ⟨first, rest, hsplit⟩ := List.exists_cons_of_ne_nil (List.splitOn_ne_nil sep text)
      rw [hsplit] at ih hmem
      split_ifs at hmem with hc
      · rcases List.mem_cons.1 hmem with rfl | hmem
        · exact List.not_mem_nil
        · exact ih part hmem
      · rw [List.modifyHead_cons] at hmem
        rcases List.mem_cons.1 hmem with rfl | hmem
        · intro hsep
          rcases List.mem_cons.1 hsep with rfl | hsep
          · exact hc (BEq.refl _)
          · exact ih first (List.mem_cons_self ..) hsep
        · exact ih part (List.mem_cons_of_mem _ hmem)
  · rintro ⟨hne, hparts, rfl⟩
    exact List.splitOn_intercalate sep hparts hne

/-- A text in one part holds no separator. -/
theorem part_iff {sep : α} {text part : List α} :
    text.splitOn sep = [part] ↔ text = part ∧ sep ∉ part := by
  rw [parts_iff, List.forall_mem_singleton, List.intercalate_singleton]
  constructor
  · rintro ⟨-, hpart, rfl⟩
    exact ⟨rfl, hpart⟩
  · rintro ⟨rfl, hpart⟩
    exact ⟨List.cons_ne_nil _ _, hpart, rfl⟩

/-- A text in two parts holds one separator. -/
theorem two_parts_iff {sep : α} {text before after : List α} :
    text.splitOn sep = [before, after] ↔
      text = before ++ sep :: after ∧ sep ∉ before ∧ sep ∉ after := by
  rw [parts_iff, List.forall_mem_cons, List.forall_mem_singleton, List.intercalate_cons_cons,
    List.intercalate_singleton]
  constructor
  · rintro ⟨-, hparts, rfl⟩
    exact ⟨by simp, hparts⟩
  · rintro ⟨rfl, hparts⟩
    exact ⟨List.cons_ne_nil _ _, hparts, by simp⟩

end Parts

end Splitting
