import Mathlib.Tactic.SplitIfs
import AgentLcars.Lib.ShellWords

/-!
# The grammar of shell commands

The POSIX shell grammar over tokens, with the simple commands of a text and the words that belong to
none of them: reserved words, loop variables, case subjects and patterns, function names and the words
of redirections.

* `Parses phrase bare tokens commands others`: the tokens are such a phrase; when it is bare, it ends in
  a simple command that nothing closes.
* `Program tokens commands others`: the tokens are a whole text.
* `Parses.count`: every word belongs to a simple command or is one of the others.
* `Program.runs_eq`: without others, the simple commands are the runs of words.
-/

namespace Shell

/-! ### Simple commands -/

/-- The words that are not a command's name when they are written without quotes. -/
def reservedWords : List String :=
  ["!", "\x7b", "\x7d", "case", "do", "done", "elif", "else", "esac", "fi", "for", "if", "then", "until",
    "while"]

def Word.Reserved (w : Word) : Prop := ∃ k ∈ reservedWords, w.Reads k

def redirections : List Operator :=
  [.less, .dless, .dlessDash, .lessAnd, .lessGreat, .great, .dgreat, .greatAnd, .clobber]

/-- A redirection, with the number before it. -/
structure Redirection where
  number : Option Word
  operator : Operator
  target : Word
  redirects : operator ∈ redirections

/-- A word or a redirection of a simple command. -/
inductive Part
  | word (w : Word)
  | redirection (r : Redirection)

def Redirection.tokens (r : Redirection) : List Token :=
  (r.number.toList.map .word) ++ [.operator r.operator, .word r.target]

def Redirection.words (r : Redirection) : List Word := r.number.toList ++ [r.target]

def Part.tokens : Part → List Token
  | .word w => [.word w]
  | .redirection r => r.tokens

/-- The word that the part adds to the command. -/
def Part.words : Part → List Word
  | .word w => [w]
  | .redirection _ => []

def Part.others : Part → List Word
  | .word _ => []
  | .redirection r => r.words

/-- A reserved word at the start is not a command's name. -/
def StartsCommand (parts : List Part) : Prop := ∀ w, parts.head? = some (.word w) → ¬w.Reserved

/-! ### Phrases -/

inductive Phrase
  | command
  | sequence
  | pipeline
  | andOr
  | term
  /-- The commands between reserved words or parentheses. -/
  | body
  | compound
  /-- A compound command with its redirections. -/
  | framed
  /-- What follows the reserved word in a compound command. -/
  | after (keyword : String)
  | items
  | itemBody

def newlines (n : Nat) : List Token := List.replicate n .newline

/-- The two phrases differ by one level. -/
def Phrase.Under : Phrase → Phrase → Prop
  | .command, .sequence => True
  | .sequence, .pipeline => True
  | .pipeline, .andOr => True
  | .andOr, .term => True
  | _, _ => False

/-- The separator of commands. -/
def Separates (sep : List Token) : Prop :=
  (∃ o ∈ [Operator.semi, .amp], ∃ n, sep = .operator o :: newlines n) ∨ ∃ n, sep = newlines (n + 1)

/-- What joins two phrases of the level. -/
def Joins : Phrase → List Token → Prop
  | .sequence, sep => ∃ n, sep = .operator .pipe :: newlines n
  | .andOr, sep => ∃ o ∈ [Operator.andIf, .orIf], ∃ n, sep = .operator o :: newlines n
  | .term, sep => Separates sep
  | _, _ => False

/-- The reserved words that start a compound command, those that follow one another in it, with commands
in between, and those that finish it. -/
def opening : List String := ["if", "while", "until", "\x7b"]

def following : List (String × String) :=
  [("if", "then"), ("then", "elif"), ("then", "else"), ("then", "fi"), ("elif", "then"), ("else", "fi"),
    ("while", "do"), ("until", "do"), ("do", "done"), ("\x7b", "\x7d")]

def closing : List String := ["fi", "done", "\x7d"]

/-- The words that a loop runs over. -/
inductive LoopWords : List Token → List Word → Prop
  | none : LoopWords [] []
  | separated {sep : List Token} (n : Nat)
      (h : sep = .operator .semi :: newlines n ∨ sep = newlines (n + 1)) : LoopWords sep []
  | listed {w : Word} (m : Nat) (hin : w.Reads "in") (words : List Word) {sep : List Token} (n : Nat)
      (h : sep = .operator .semi :: newlines n ∨ sep = newlines (n + 1)) :
      LoopWords (newlines m ++ .word w :: words.map .word ++ sep) (w :: words)

/-- The patterns of a case, up to the parenthesis. -/
inductive Patterns : List Token → List Word → Prop
  | last (w : Word) : Patterns [.word w, .operator .rparen] [w]
  | more {tokens : List Token} {words : List Word} (w : Word) (h : Patterns tokens words) :
      Patterns (.word w :: .operator .pipe :: tokens) (w :: words)
  | opened {tokens : List Token} {words : List Word} (h : Patterns tokens words) :
      Patterns (.operator .lparen :: tokens) words

/-- The tokens are such a phrase, with its simple commands and its other words. -/
inductive Parses : Phrase → Bool → List Token → List (List Word) → List Word → Prop
  | simple {parts : List Part} (hne : parts ≠ []) (hstart : StartsCommand parts) :
      Parses .command true (parts.flatMap Part.tokens) [parts.flatMap Part.words]
        (parts.flatMap Part.others)
  | framed {bare : Bool} {ts : List Token} {cs : List (List Word)} {os : List Word}
      (h : Parses .compound bare ts cs os) : Parses .framed bare ts cs os
  | redirected {bare : Bool} {ts : List Token} {cs : List (List Word)} {os : List Word}
      (r : Redirection) (h : Parses .framed bare ts cs os) :
      Parses .framed true (ts ++ r.tokens) cs (os ++ r.words)
  | compound {bare : Bool} {ts : List Token} {cs : List (List Word)} {os : List Word}
      (h : Parses .framed bare ts cs os) : Parses .command bare ts cs os
  | function {bare : Bool} {ts : List Token} {cs : List (List Word)} {os : List Word} (name : Word)
      (n : Nat) (h : Parses .framed bare ts cs os) :
      Parses .command bare
        (.word name :: .operator .lparen :: .operator .rparen :: newlines n ++ ts) cs (name :: os)
  | lift {p q : Phrase} {bare : Bool} {ts : List Token} {cs : List (List Word)} {os : List Word}
      (hunder : p.Under q) (h : Parses p bare ts cs os) : Parses q bare ts cs os
  | join {p q : Phrase} {bare bare' : Bool} {ts ts' sep : List Token} {cs cs' : List (List Word)}
      {os os' : List Word} (hunder : p.Under q) (hsep : Joins q sep) (h : Parses q bare ts cs os)
      (h' : Parses p bare' ts' cs' os') :
      Parses q bare' (ts ++ sep ++ ts') (cs ++ cs') (os ++ os')
  | negated {bare : Bool} {ts : List Token} {cs : List (List Word)} {os : List Word} {w : Word}
      (hw : w.Reads "!") (h : Parses .sequence bare ts cs os) :
      Parses .pipeline bare (.word w :: ts) cs (w :: os)
  | body {bare : Bool} {ts : List Token} {cs : List (List Word)} {os : List Word} (n : Nat)
      (h : Parses .term bare ts cs os) : Parses .body bare (newlines n ++ ts) cs os
  | closed {bare : Bool} {ts sep : List Token} {cs : List (List Word)} {os : List Word} (n : Nat)
      (hsep : Separates sep) (h : Parses .term bare ts cs os) :
      Parses .body false (newlines n ++ ts ++ sep) cs os
  | subshell {bare : Bool} {ts : List Token} {cs : List (List Word)} {os : List Word}
      (h : Parses .body bare ts cs os) :
      Parses .compound false (.operator .lparen :: ts ++ [.operator .rparen]) cs os
  | opened {k : String} {ts : List Token} {cs : List (List Word)} {os : List Word} {w : Word}
      (hk : k ∈ opening) (hw : w.Reads k) (h : Parses (.after k) false ts cs os) :
      Parses .compound false (.word w :: ts) cs (w :: os)
  | clause {k k' : String} {ts ts' : List Token} {cs cs' : List (List Word)} {os os' : List Word}
      {w : Word} (hk : (k, k') ∈ following) (hw : w.Reads k') (h : Parses .body false ts cs os)
      (h' : Parses (.after k') false ts' cs' os') :
      Parses (.after k) false (ts ++ .word w :: ts') (cs ++ cs') (os ++ w :: os')
  | finished {k : String} (hk : k ∈ closing) : Parses (.after k) false [] [] []
  | loop {ts hs : List Token} {cs : List (List Word)} {ws os : List Word} {w w' : Word} (name : Word)
      (hw : w.Reads "for") (hwords : LoopWords hs ws) (hw' : w'.Reads "do")
      (h : Parses (.after "do") false ts cs os) :
      Parses .compound false (.word w :: .word name :: hs ++ .word w' :: ts) cs
        (w :: name :: ws ++ w' :: os)
  | cases {ts : List Token} {cs : List (List Word)} {os : List Word} {w w' : Word} (subject : Word)
      (m n : Nat) (hw : w.Reads "case") (hw' : w'.Reads "in")
      (h : Parses .items false ts cs os) :
      Parses .compound false
        (.word w :: .word subject :: newlines m ++ .word w' :: newlines n ++ ts) cs
        (w :: subject :: w' :: os)
  | esac {w : Word} (hw : w.Reads "esac") : Parses .items false [.word w] [] [w]
  | item {bare : Bool} {ps ts ts' : List Token} {cs cs' : List (List Word)} {ws os os' : List Word}
      (n : Nat) (hp : Patterns ps ws) (h : Parses .itemBody bare ts cs os)
      (h' : Parses .items false ts' cs' os') :
      Parses .items false (ps ++ ts ++ .operator .dsemi :: newlines n ++ ts') (cs ++ cs')
        (ws ++ os ++ os')
  | lastItem {ps ts : List Token} {cs : List (List Word)} {ws os : List Word} {w : Word}
      (hp : Patterns ps ws) (h : Parses .itemBody false ts cs os) (hw : w.Reads "esac") :
      Parses .items false (ps ++ ts ++ [.word w]) cs (ws ++ os ++ [w])
  | noBody (n : Nat) : Parses .itemBody false (newlines n) [] []
  | itemBody {bare : Bool} {ts : List Token} {cs : List (List Word)} {os : List Word}
      (h : Parses .body bare ts cs os) : Parses .itemBody bare ts cs os

/-- The tokens are a whole text. -/
def Program (tokens : List Token) (commands : List (List Word)) (others : List Word) : Prop :=
  (∃ n, tokens = newlines n ∧ commands = [] ∧ others = []) ∨
    ∃ bare, Parses .body bare tokens commands others

section Count

variable {phrase : Phrase} {bare : Bool} {tokens : List Token} {commands : List (List Word)}
  {words others : List Word}

@[simp] theorem countP_word (w : Word) (tokens : List Token) :
    (Token.word w :: tokens).countP Token.isWord = tokens.countP Token.isWord + 1 :=
  List.countP_cons_of_pos rfl

@[simp] theorem countP_operator (o : Operator) (tokens : List Token) :
    (Token.operator o :: tokens).countP Token.isWord = tokens.countP Token.isWord :=
  List.countP_cons_of_neg nofun

@[simp] theorem countP_newlines (n : Nat) : (newlines n).countP Token.isWord = 0 := by
  unfold newlines
  rw [List.countP_replicate]
  rfl

@[simp] theorem countP_map_word (words : List Word) :
    (words.map Token.word).countP Token.isWord = words.length := by
  rw [List.countP_map]
  exact List.countP_eq_length.2 fun _ _ => rfl

theorem Separates.countP {sep : List Token} (h : Separates sep) : sep.countP Token.isWord = 0 := by
  rcases h with ⟨o, -, n, rfl⟩ | ⟨n, rfl⟩ <;> simp

theorem Joins.countP {sep : List Token} (h : Joins phrase sep) : sep.countP Token.isWord = 0 := by
  cases phrase <;> try exact h.elim
  · obtain ⟨n, rfl⟩ := h
    simp
  · obtain ⟨o, -, n, rfl⟩ := h
    simp
  · exact Separates.countP h

theorem Redirection.countP (r : Redirection) :
    r.tokens.countP Token.isWord = r.words.length := by
  unfold tokens words
  rw [List.countP_append, countP_map_word, countP_operator, countP_word, List.length_append]
  rfl

theorem countP_parts (parts : List Part) : (parts.flatMap Part.tokens).countP Token.isWord =
    (parts.flatMap Part.words).length + (parts.flatMap Part.others).length := by
  induction parts with
  | nil => rfl
  | cons part parts ih =>
    have hpart : part.tokens.countP Token.isWord = part.words.length + part.others.length := by
      cases part with
      | word w => rfl
      | redirection r => exact r.countP.trans (Nat.zero_add _).symm
    simp only [List.flatMap_cons, List.countP_append, List.length_append, ih, hpart]
    omega

theorem LoopWords.countP (h : LoopWords tokens words) :
    tokens.countP Token.isWord = words.length := by
  cases h with
  | none => rfl
  | separated n h => rcases h with rfl | rfl <;> simp
  | listed m hin words n h =>
    have hmap := countP_map_word words
    rcases h with rfl | rfl <;> simp_all

theorem Patterns.countP (h : Patterns tokens words) :
    tokens.countP Token.isWord = words.length := by
  induction h with
  | last w => rfl
  | more w h ih => simp [ih]
  | opened h ih => simp [ih]

/-- Every word belongs to a simple command, or is one of the others. -/
theorem Parses.count (h : Parses phrase bare tokens commands others) :
    tokens.countP Token.isWord = commands.flatten.length + others.length := by
  induction h with
  | @simple parts hne hstart => rw [countP_parts, List.flatten_singleton]
  | framed h ih => exact ih
  | redirected r h ih =>
    simp only [List.countP_append, ih, r.countP, List.length_append]
    omega
  | compound h ih => exact ih
  | function name n h ih =>
    simp only [List.cons_append, countP_word, countP_operator, List.countP_append, countP_newlines,
      ih, List.length_cons]
    omega
  | lift hunder h ih => exact ih
  | join hunder hsep h h' ih ih' =>
    simp only [List.countP_append, ih, ih', hsep.countP, List.flatten_append, List.length_append]
    omega
  | negated hw h ih =>
    simp only [countP_word, ih, List.length_cons]
    omega
  | body n h ih => simp only [List.countP_append, countP_newlines, ih, Nat.zero_add]
  | closed n hsep h ih =>
    simp only [List.countP_append, countP_newlines, ih, hsep.countP]
    omega
  | subshell h ih =>
    simp only [List.cons_append, countP_operator, List.countP_append, ih, List.countP_nil,
      Nat.add_zero]
  | opened hk hw h ih =>
    simp only [countP_word, ih, List.length_cons]
    omega
  | clause hk hw h h' ih ih' =>
    simp only [List.countP_append, countP_word, ih, ih', List.flatten_append, List.length_append,
      List.length_cons]
    omega
  | finished hk => rfl
  | loop name hw hwords hw' h ih =>
    simp only [List.cons_append, countP_word, List.countP_append, hwords.countP, ih,
      List.length_cons, List.length_append]
    omega
  | cases subject m n hw hw' h ih =>
    simp only [List.cons_append, countP_word, List.countP_append, countP_newlines, ih,
      List.length_cons]
    omega
  | esac hw => rfl
  | item n hp h h' ih ih' =>
    simp only [List.countP_append, hp.countP, countP_operator, countP_newlines, ih, ih',
      List.flatten_append, List.length_append]
    omega
  | lastItem hp h hw ih =>
    simp only [List.countP_append, hp.countP, ih, countP_word, List.countP_nil, List.length_append,
      List.length_cons, List.length_nil]
    omega
  | noBody n => exact countP_newlines n
  | itemBody h ih => exact ih

end Count

/-! ### Runs and simple commands -/

section Runs

variable {phrase : Phrase} {bare : Bool} {tokens sep : List Token} {commands : List (List Word)}
  {others : List Word}

/-- Tokens other than words hold no run. -/
theorem runs_append_left (h : sep.countP Token.isWord = 0) (tokens : List Token) :
    runs (sep ++ tokens) = runs tokens :=
  Splitting.words_run (fun t ht => by simp [List.countP_eq_zero.1 h t ht]) tokens

theorem runs_append_sep (h : sep.countP Token.isWord = 0) (hne : sep ≠ []) (before after : List Token) :
    runs (before ++ sep ++ after) = runs before ++ runs after := by
  obtain ⟨t, sep, rfl⟩ := List.exists_cons_of_ne_nil hne
  have ht := List.countP_eq_zero.1 h t (List.mem_cons_self ..)
  have hrest : sep.countP Token.isWord = 0 := by
    rw [List.countP_cons_of_neg ht] at h
    exact h
  rw [List.append_assoc, List.cons_append]
  unfold runs
  rw [Splitting.words_append (by simp [ht])]
  congr 1
  exact runs_append_left hrest after

theorem runs_append_right (h : sep.countP Token.isWord = 0) (tokens : List Token) :
    runs (tokens ++ sep) = runs tokens := by
  by_cases hne : sep = []
  · rw [hne, List.append_nil]
  · have hsplit := runs_append_sep h hne tokens []
    rw [List.append_nil] at hsplit
    rw [hsplit]
    exact List.append_nil _

theorem runs_words {words : List Word} (h : words ≠ []) :
    runs (words.map .word) = [words.map .word] := by
  refine Splitting.IsWord.words ⟨by simpa using h, fun t ht => ?_⟩
  obtain ⟨w, -, rfl⟩ := List.mem_map.1 ht
  rfl

theorem runs_flatten_words (words : List Word) :
    (runs (words.map .word)).flatten = words.map .word := by
  by_cases hwords : words = []
  · rw [hwords]
    rfl
  · rw [runs_words hwords, List.flatten_singleton]

/-- The runs hold every word, in order. -/
theorem runs_flatten (tokens : List Token) : (runs tokens).flatten = tokens.filter Token.isWord := by
  have hafter : ∀ words : List Word, (runs (words.map .word ++ tokens)).flatten =
      words.map .word ++ tokens.filter Token.isWord := by
    induction tokens with
    | nil =>
      intro words
      rw [List.append_nil, runs_flatten_words, List.filter_nil, List.append_nil]
    | cons t tokens ih =>
      intro words
      by_cases ht : t.isWord = true
      · cases t with
        | word w =>
          have hih := ih (words ++ [w])
          rw [List.map_append, List.append_assoc, List.append_assoc] at hih
          rw [List.filter_cons_of_pos ht]
          exact hih
        | _ => cases ht
      · have hsep : [t].countP Token.isWord = 0 := by
          rw [List.countP_cons_of_neg ht, List.countP_nil]
        have hsplit := runs_append_sep hsep (List.cons_ne_nil _ _) (words.map .word) tokens
        have hright := ih []
        rw [List.append_assoc, List.singleton_append] at hsplit
        rw [hsplit, List.flatten_append, runs_flatten_words, List.filter_cons_of_neg ht]
        exact congrArg (words.map .word ++ ·) hright
  exact hafter []

theorem runs_flatten_length (tokens : List Token) :
    (runs tokens).flatten.length = tokens.countP Token.isWord := by
  rw [runs_flatten, List.countP_eq_length_filter]

theorem Separates.ne_nil (h : Separates sep) : sep ≠ [] := by
  rcases h with ⟨o, -, n, rfl⟩ | ⟨n, rfl⟩
  · exact List.cons_ne_nil _ _
  · exact List.cons_ne_nil _ _

theorem Joins.ne_nil (h : Joins phrase sep) : sep ≠ [] := by
  cases phrase <;> try exact h.elim
  · obtain ⟨n, rfl⟩ := h
    exact List.cons_ne_nil _ _
  · obtain ⟨o, -, n, rfl⟩ := h
    exact List.cons_ne_nil _ _
  · exact Separates.ne_nil h

theorem Redirection.words_ne_nil (r : Redirection) : r.words ≠ [] :=
  List.append_ne_nil_of_right_ne_nil _ (List.cons_ne_nil _ _)

theorem Patterns.ne_nil {words : List Word} (h : Patterns tokens words) : words ≠ [] := by
  induction h with
  | last w => exact List.cons_ne_nil _ _
  | more w h ih => exact List.cons_ne_nil _ _
  | opened h ih => exact ih

/-- Parts without redirections are words. -/
theorem tokens_of_words {parts : List Part} (h : parts.flatMap Part.others = []) :
    parts.flatMap Part.tokens = (parts.flatMap Part.words).map .word ∧
      (parts ≠ [] → parts.flatMap Part.words ≠ []) := by
  induction parts with
  | nil => exact ⟨rfl, fun hne => absurd rfl hne⟩
  | cons part parts ih =>
    rw [List.flatMap_cons, List.append_eq_nil_iff] at h
    cases part with
    | word w =>
      refine ⟨?_, fun _ => List.cons_ne_nil _ _⟩
      rw [List.flatMap_cons, List.flatMap_cons, (ih h.2).1]
      rfl
    | redirection r => exact absurd h.1 r.words_ne_nil

/-- Without other words, the simple commands are the runs of words. -/
theorem Parses.runs_eq (h : Parses phrase bare tokens commands others) (hothers : others = []) :
    runs tokens = commands.map (·.map .word) := by
  induction h with
  | @simple parts hne hstart =>
    obtain ⟨htokens, hwords⟩ := tokens_of_words hothers
    rw [htokens, runs_words (hwords hne)]
    rfl
  | framed h ih => exact ih hothers
  | redirected r h ih => exact absurd (List.append_eq_nil_iff.1 hothers).2 r.words_ne_nil
  | compound h ih => exact ih hothers
  | function name n h ih => cases hothers
  | lift hunder h ih => exact ih hothers
  | join hunder hsep h h' ih ih' =>
    obtain ⟨hos, hos'⟩ := List.append_eq_nil_iff.1 hothers
    rw [runs_append_sep hsep.countP hsep.ne_nil, ih hos, ih' hos', List.map_append]
  | negated hw h ih => cases hothers
  | body n h ih => rw [runs_append_left (countP_newlines n), ih hothers]
  | closed n hsep h ih =>
    rw [runs_append_right hsep.countP, runs_append_left (countP_newlines n), ih hothers]
  | subshell h ih =>
    rw [runs_append_right (by rfl)]
    have hopen := runs_append_left (countP_operator .lparen []) ‹_›
    exact hopen.trans (ih hothers)
  | opened hk hw h ih => cases hothers
  | clause hk hw h h' ih ih' => cases (List.append_eq_nil_iff.1 hothers).2
  | finished hk => rfl
  | loop name hw hwords hw' h ih => cases hothers
  | cases subject m n hw hw' h ih => cases hothers
  | esac hw => cases hothers
  | item n hp h h' ih ih' =>
    exact absurd (List.append_eq_nil_iff.1 (List.append_eq_nil_iff.1 hothers).1).1 hp.ne_nil
  | lastItem hp h hw ih =>
    exact absurd (List.append_eq_nil_iff.1 (List.append_eq_nil_iff.1 hothers).1).1 hp.ne_nil
  | noBody n =>
    have h := runs_append_left (countP_newlines n) []
    rw [List.append_nil] at h
    exact h
  | itemBody h ih => exact ih hothers

end Runs

/-! ### Whole texts -/

section Program

variable {tokens : List Token} {commands : List (List Word)} {others : List Word}

theorem Program.count (h : Program tokens commands others) :
    tokens.countP Token.isWord = commands.flatten.length + others.length := by
  rcases h with ⟨n, rfl, rfl, rfl⟩ | ⟨bare, h⟩
  · exact countP_newlines n
  · exact h.count

theorem Program.runs_eq (h : Program tokens commands []) : runs tokens = commands.map (·.map .word) := by
  rcases h with ⟨n, rfl, rfl, -⟩ | ⟨bare, h⟩
  · have h := runs_append_left (countP_newlines n) []
    rw [List.append_nil] at h
    exact h
  · exact h.runs_eq rfl

end Program

end Shell
