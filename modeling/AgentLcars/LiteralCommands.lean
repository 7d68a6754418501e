import Mathlib.Data.Bool.AllAny
import AgentLcars.Lib.ShellGrammar
import AgentLcars.Model

/-!
# Literal shell commands

`packages/fleet-tools/bin/worker-policy.cjs`: the scanner that reads the commands of a worker's shell
text, where nothing is expanded.

* `literalCommands`: the scanner.
* `scan_lexes`: what it returns are the runs of words between the tokens of the text.
* `literalCommands_renders`: every rendering of a list of commands is read back.
* `literalCommands_program`: what is read are the simple commands of the text exactly if no reserved
  word stands in it.
-/

namespace AgentLcars

open Shell

/-! ### The scanner -/

/-- Outside quotes, in single or double quotes, or in a comment. -/
inductive ScanMode where
  | plain
  | single
  | double
  | comment
  deriving DecidableEq

/-- The commands, the words of the command that is read, and the word that is read. -/
structure Scanner where
  commands : List (List String) := []
  words : List String := []
  word : List Char := []
  started : Bool := false

def Scanner.flush (s : Scanner) : Scanner :=
  { s with words := if s.started then s.words ++ [String.ofList s.word] else s.words, word := [],
           started := false }

/-- `end()`. -/
def Scanner.endCommand (s : Scanner) : Scanner :=
  if s.flush.words ≠ [] then
    { s.flush with commands := s.commands ++ [s.flush.words], words := [] }
  else s.flush

def Scanner.add (s : Scanner) (c : Char) : Scanner := { s with word := s.word ++ [c] }

def Scanner.start (s : Scanner) : Scanner := { s with started := true }

/-- The characters that are not read outside quotes. -/
def refusedCharacters : List Char :=
  ['|', '&', '<', '>', '(', ')', '{', '}', '*', '?', '[', ']', '~']

/-- The loop of `literalCommands`; the loop that skips a comment is a mode of its own. -/
def scan (mode : ScanMode) (s : Scanner) : List Char → Option (List (List String))
  | [] =>
    match mode with
    | .plain => some s.endCommand.commands
    | .comment => some s.endCommand.commands
    | _ => none
  | char :: rest =>
    if mode = .comment then
      if char = '\n' then scan .plain s.endCommand rest else scan .comment s rest
    else if mode = .single then
      if char = '\'' then scan .plain s rest else scan .single (s.add char) rest
    else if char = '\\' then
      match rest with
      | [] => none
      | next :: rest =>
        let s := if mode = .double ∧ next ∉ ['$', backquote, '"', '\\', '\n'] then s.add '\\' else s
        scan mode (if next ≠ '\n' then (s.add next).start else s) rest
    else if char = '$' ∨ char = backquote then none
    else if mode = .double then
      if char = '"' then scan .plain s rest else scan .double (s.add char) rest
    else if char = '\'' then scan .single s.start rest
    else if char = '"' then scan .double s.start rest
    else if char = ';' ∨ char = '\n' then scan .plain s.endCommand rest
    else if (char = '&' ∨ char = '|') ∧ rest.head? = some char then
      match rest with
      | [] => none
      | _ :: rest => scan .plain s.endCommand rest
    else if char ∈ refusedCharacters then none
    else if char = '#' ∧ ¬s.started then scan .comment s rest
    else if isTrimmed char then scan .plain s.flush rest
    else scan .plain (s.add char).start rest

/-- The commands with their words; nothing when the text is not literal. -/
def literalCommands (source : String) : Option (List (List String)) :=
  scan .plain {} source.toList


/-! ### One step of the scanner -/

section Steps

variable {s : Scanner} {c : Char} {rest text note : List Char}

/-- One character is read. -/
theorem scan_cons {mode : ScanMode} {char : Char} : scan mode s (char :: rest) =
    (if mode = .comment then
      if char = '\n' then scan .plain s.endCommand rest else scan .comment s rest
    else if mode = .single then
      if char = '\'' then scan .plain s rest else scan .single (s.add char) rest
    else if char = '\\' then
      match rest with
      | [] => none
      | next :: rest =>
        scan mode (if next ≠ '\n' then
            ((if mode = .double ∧ next ∉ ['$', backquote, '"', '\\', '\n'] then s.add '\\' else s).add next).start
          else if mode = .double ∧ next ∉ ['$', backquote, '"', '\\', '\n'] then s.add '\\' else s) rest
    else if char = '$' ∨ char = backquote then none
    else if mode = .double then
      if char = '"' then scan .plain s rest else scan .double (s.add char) rest
    else if char = '\'' then scan .single s.start rest
    else if char = '"' then scan .double s.start rest
    else if char = ';' ∨ char = '\n' then scan .plain s.endCommand rest
    else if (char = '&' ∨ char = '|') ∧ rest.head? = some char then
      match rest with
      | [] => none
      | _ :: rest => scan .plain s.endCommand rest
    else if char ∈ refusedCharacters then none
    else if char = '#' ∧ ¬s.started then scan .comment s rest
    else if isTrimmed char then scan .plain s.flush rest
    else scan .plain (s.add char).start rest) := by
  rw [scan.eq_def]

theorem scan_quote : scan .plain s ('\'' :: rest) = scan .single s.start rest := by
  rw [scan_cons]
  rfl

theorem scan_doubleQuote : scan .plain s ('"' :: rest) = scan .double s.start rest := by
  rw [scan_cons]
  rfl

theorem scan_doubleQuote_end : scan .double s ('"' :: rest) = scan .plain s rest := by
  rw [scan_cons]
  rfl

theorem scan_escape : scan .plain s ('\\' :: c :: rest) =
    scan .plain (if c ≠ '\n' then (s.add c).start else s) rest := by
  rw [scan_cons]
  rfl

theorem scan_end (h : c = ';' ∨ c = '\n') :
    scan .plain s (c :: rest) = scan .plain s.endCommand rest := by
  rcases h with rfl | rfl
  all_goals
    rw [scan_cons]
    rfl

theorem scan_blank (h : c ∈ [' ', '\t']) : scan .plain s (c :: rest) = scan .plain s.flush rest := by
  rw [List.mem_pair] at h
  rcases h with rfl | rfl
  all_goals
    rw [scan_cons]
    rfl

theorem scan_twice (h : c = '&' ∨ c = '|') :
    scan .plain s (c :: c :: rest) = scan .plain s.endCommand rest := by
  rcases h with rfl | rfl
  all_goals
    rw [scan_cons]
    rfl

theorem scan_expands {mode : ScanMode} (h : c ∈ expanding) (hmode : mode = .plain ∨ mode = .double) :
    scan mode s (c :: rest) = none := by
  unfold expanding at h
  rw [List.mem_pair] at h
  rcases hmode with rfl | rfl <;> rcases h with rfl | rfl
  all_goals
    rw [scan_cons]
    rfl

theorem scan_refused (h : c ∈ refusedCharacters)
    (hnext : c = '&' ∨ c = '|' → rest.head? ≠ some c) : scan .plain s (c :: rest) = none := by
  have hdouble : ¬((c = '&' ∨ c = '|') ∧ rest.head? = some c) := fun h => hnext h.1 h.2
  have hother : ∀ d ∈ refusedCharacters,
      d ≠ '\\' ∧ d ≠ '$' ∧ d ≠ backquote ∧ d ≠ '\'' ∧ d ≠ '"' ∧ d ≠ ';' ∧ d ≠ '\n' :=
    List.all_iff_forall_prop.1 (by decide)
  obtain ⟨hslash, hdollar, hback, hquote, hdquote, hsemi, hnewline⟩ := hother c h
  rw [scan_cons]
  simp only [reduceCtorEq, if_false, hslash, hdollar, hback, hquote, hdquote, hsemi, hnewline, or_self,
    hdouble, h, if_true]

/-- A character that is part of a word. -/
def Ordinary (c : Char) : Prop := c ∉ metacharacters ∧ c ∉ refusedCharacters ∧ isTrimmed c = false

theorem scan_ordinary (h : Ordinary c) (hsign : c = '#' → s.started = true) :
    scan .plain s (c :: rest) = scan .plain (s.add c).start rest := by
  obtain ⟨hmeta, hrefused, hblank⟩ := h
  have hsign' : ¬(c = '#' ∧ ¬s.started) := fun h => h.2 (hsign h.1)
  have hdouble : ¬((c = '&' ∨ c = '|') ∧ rest.head? = some c) := by
    rintro ⟨rfl | rfl, -⟩
    · exact hmeta (by decide)
    · exact hmeta (by decide)
  simp only [metacharacters, List.mem_cons, List.not_mem_nil, or_false, not_or] at hmeta
  obtain ⟨-, -, hnewline, hquote, hdquote, hslash, hdollar, hback, hsemi, -⟩ := hmeta
  rw [scan_cons]
  simp only [reduceCtorEq, if_false, hslash, hdollar, hback, hquote, hdquote, hsemi, hnewline, or_self,
    hdouble, hrefused, hsign', hblank, Bool.false_eq_true]

theorem scan_comment (hstarted : s.started = false) (hnote : '\n' ∉ note)
    (hend : ∀ c ∈ text.head?, c = '\n') :
    scan .plain s ('#' :: note ++ text) = scan .plain s text := by
  have hskip : ∀ note : List Char, '\n' ∉ note →
      scan .comment s (note ++ text) = scan .plain s text := by
    intro note hnote
    induction note with
    | nil =>
      cases text with
      | nil => rfl
      | cons c text =>
        obtain rfl := hend c rfl
        rw [scan_end (.inr rfl), List.nil_append, scan_cons]
        rfl
    | cons c note ih =>
      rw [List.mem_cons, not_or] at hnote
      rw [List.cons_append, scan_cons]
      simp only [if_true, if_neg (Ne.symm hnote.1)]
      exact ih hnote.2
  rw [List.cons_append, scan_cons]
  simp only [hstarted]
  exact hskip note hnote

end Steps

/-! ### Segments and words -/

section Segments

variable {s : Scanner} {rest : List Char}

/-- The characters are added to the word that is read. -/
def Scanner.extend (s : Scanner) (cs : List Char) : Scanner :=
  { s with word := s.word ++ cs, started := true }

theorem Scanner.extend_extend (a b : List Char) : (s.extend a).extend b = s.extend (a ++ b) := by
  unfold extend
  rw [List.append_assoc]

theorem scan_single (body : List Char) (h : '\'' ∉ body) :
    scan .single s.start (body ++ '\'' :: rest) = scan .plain (s.extend body) rest := by
  have hbody : ∀ s : Scanner, s.started = true →
      scan .single s (body ++ '\'' :: rest) = scan .plain (s.extend body) rest := by
    induction body with
    | nil =>
      intro s hs
      have hextend : s.extend [] = s := by
        unfold Scanner.extend
        rw [List.append_nil, ← hs]
      rw [hextend, List.nil_append, scan_cons]
      rfl
    | cons c body ih =>
      intro s hs
      rw [List.mem_cons, not_or] at h
      have hstep := ih h.2 (s.add c) hs
      rw [List.cons_append, scan_cons]
      simp only [reduceCtorEq, if_false, if_true, if_neg (Ne.symm h.1)]
      rw [hstep]
      unfold Scanner.extend Scanner.add
      rw [List.append_assoc]
      rfl
  exact hbody s.start rfl

theorem Scanner.extend_add (a : List Char) (c : Char) : (s.extend a).add c = s.extend (a ++ [c]) := by
  unfold extend add
  rw [List.append_assoc]

theorem Scanner.start_eq : s.start = s.extend [] := by
  unfold extend
  rw [List.append_nil]
  rfl

theorem Scanner.extend_start (a : List Char) : (s.extend a).start = s.extend a := rfl

theorem scan_inner {a : List Char} (piece : Inner) (h : piece.Literal) :
    scan .double (s.extend a) (piece.text ++ rest) =
      scan .double (s.extend (a ++ piece.value)) rest := by
  cases piece with
  | plain c hc =>
    simp only [escapable, List.mem_cons, List.not_mem_nil, or_false, not_or] at hc
    show scan .double (s.extend a) (c :: rest) = _
    rw [scan_cons]
    simp only [reduceCtorEq, if_false, if_true, hc, or_self]
    rw [Scanner.extend_add]
    rfl
  | escaped c hc =>
    have hall : ∀ d ∈ escapable, d ∈ ['$', backquote, '"', '\\', '\n'] ∧ d ≠ '\n' :=
      List.all_iff_forall_prop.1 (by decide)
    have hc' := hall c hc
    show scan .double (s.extend a) ('\\' :: c :: rest) = _
    rw [scan_cons]
    simp only [reduceCtorEq, if_false, if_true, hc', not_true_eq_false, and_false, ne_eq,
      not_false_eq_true]
    rw [Scanner.extend_add, Scanner.extend_start]
    rfl
  | kept c hc =>
    have hc' : c ∉ ['$', backquote, '"', '\\', '\n'] := by
      intro hmem
      rcases List.mem_append.1 (show c ∈ escapable ++ ['\n'] from hmem) with hmem | hmem
      · exact hc.1 hmem
      · exact hc.2 (List.mem_singleton.1 hmem)
    show scan .double (s.extend a) ('\\' :: c :: rest) = _
    rw [scan_cons]
    simp only [reduceCtorEq, if_false, if_true, hc', hc.2, not_false_eq_true, and_self, ne_eq]
    rw [Scanner.extend_add, Scanner.extend_add, Scanner.extend_start, List.append_assoc]
    rfl
  | continued =>
    show scan .double (s.extend a) ('\\' :: '\n' :: rest) = scan .double (s.extend (a ++ [])) rest
    rw [scan_cons, List.append_nil]
    rfl
  | expansion text htext => exact h.elim

theorem scan_inners {a : List Char} {pieces : List Inner} (h : ∀ piece ∈ pieces, piece.Literal) :
    scan .double (s.extend a) (pieces.flatMap Inner.text ++ rest) =
      scan .double (s.extend (a ++ pieces.flatMap Inner.value)) rest := by
  induction pieces generalizing a with
  | nil =>
    rw [List.flatMap_nil, List.flatMap_nil, List.append_nil]
    rfl
  | cons piece pieces ih =>
    rw [List.flatMap_cons, List.flatMap_cons, List.append_assoc,
      scan_inner piece (h piece (List.mem_cons_self ..)), ih fun p hp => h p (List.mem_cons_of_mem _ hp),
      List.append_assoc]

/-- An expansion in double quotes is not read. -/
theorem scan_inners_none {a : List Char} {pieces : List Inner} (h : ¬∀ piece ∈ pieces, piece.Literal) :
    scan .double (s.extend a) (pieces.flatMap Inner.text ++ rest) = none := by
  induction pieces generalizing a with
  | nil => exact absurd (fun p hp => absurd hp List.not_mem_nil) h
  | cons piece pieces ih =>
    rw [List.flatMap_cons, List.append_assoc]
    by_cases hpiece : piece.Literal
    · rw [scan_inner piece hpiece]
      refine ih fun hall => h fun p hp => ?_
      rcases List.mem_cons.1 hp with rfl | hp
      · exact hpiece
      · exact hall p hp
    · cases piece with
      | expansion text htext =>
        obtain ⟨c, hc, tail, rfl⟩ := htext
        exact scan_expands hc (.inr rfl)
      | _ => exact absurd trivial hpiece

/-- The segment is literal, and what is not quoted is an ordinary character. -/
def Readable : Segment → Prop
  | .plain c _ => Ordinary c
  | segment => segment.Literal

def Scanner.put (s : Scanner) (segment : Segment) : Scanner :=
  match segment with
  | .continued => s
  | segment => s.extend segment.value

theorem scan_segment (segment : Segment) (h : Readable segment)
    (hstarts : segment.Starts ∨ s.started = true) :
    scan .plain s (segment.text ++ rest) = scan .plain (s.put segment) rest := by
  cases segment with
  | plain c hc => 
    refine scan_ordinary h fun hsign => ?_
    rcases hstarts with hstarts | hstarts
    · exact absurd hsign hstarts
    · exact hstarts
  | escaped c hc =>
    show scan .plain s ('\\' :: c :: rest) = _
    rw [scan_escape, if_pos hc]
    rfl
  | continued => exact scan_escape
  | single body hbody =>
    show scan .plain s ('\'' :: (body ++ ['\'']) ++ rest) = _
    rw [List.cons_append, scan_quote, List.append_assoc]
    exact scan_single body hbody
  | double body =>
    show scan .plain s ('"' :: (body.flatMap Inner.text ++ ['"']) ++ rest) = _
    rw [List.cons_append, scan_doubleQuote, List.append_assoc, Scanner.start_eq, scan_inners h]
    exact scan_doubleQuote_end
  | expansion text htext => exact h.elim

/-- The characters that a text is made of: the printable ones, tab and newline. -/
def Printable (c : Char) : Prop := (0x20 ≤ c.toNat ∧ c.toNat ≤ 0x7e) ∨ c = '\t' ∨ c = '\n'

theorem isTrimmed_of_printable {c : Char} (h : Printable c) (hmeta : c ∉ metacharacters) :
    isTrimmed c = false := by
  rcases h with h | rfl | rfl
  · have hspace : c.toNat ≠ 0x20 := by
      intro hc
      have heq : c = ' ' := Char.ext (UInt32.toNat_inj.1 hc)
      exact hmeta (heq ▸ by decide)
    unfold isTrimmed
    rw [decide_eq_false_iff_not]
    omega
  · exact absurd (by decide) hmeta
  · exact absurd (by decide) hmeta

theorem scan_segment_none (segment : Segment) (h : ¬Readable segment)
    (hprint : ∀ c ∈ segment.text, Printable c) :
    scan .plain s (segment.text ++ rest) = none := by
  cases segment with
  | plain c hc =>
    have hrefused : c ∈ refusedCharacters := by
      by_contra hread
      exact h ⟨hc, hread, isTrimmed_of_printable (hprint c (List.mem_singleton_self c)) hc⟩
    refine scan_refused hrefused fun hcontrol => absurd ?_ hc
    rcases hcontrol with rfl | rfl <;> decide
  | double body =>
    show scan .plain s ('"' :: (body.flatMap Inner.text ++ ['"']) ++ rest) = _
    rw [List.cons_append, scan_doubleQuote, List.append_assoc, Scanner.start_eq]
    exact scan_inners_none h
  | expansion text htext =>
    obtain ⟨c, hc, tail, rfl⟩ := htext
    exact scan_expands hc (.inl rfl)
  | _ => exact absurd trivial h

/-- Every segment of the word is readable. -/
def WordReadable (w : Word) : Prop := ∀ segment ∈ w.segments, Readable segment

theorem scan_segments {a : List Char} {segments : List Segment} (h : ∀ segment ∈ segments, Readable segment) :
    scan .plain (s.extend a) (segments.flatMap Segment.text ++ rest) =
      scan .plain (s.extend (a ++ segments.flatMap Segment.value)) rest := by
  induction segments generalizing a with
  | nil => rw [List.flatMap_nil, List.flatMap_nil, List.append_nil, List.nil_append]
  | cons segment segments ih =>
    have hput : (s.extend a).put segment = s.extend (a ++ segment.value) := by
      cases segment with
      | continued => exact congrArg s.extend (List.append_nil a).symm
      | _ => exact Scanner.extend_extend ..
    rw [List.flatMap_cons, List.flatMap_cons, List.append_assoc,
      scan_segment segment (h segment (List.mem_cons_self ..)) (.inr rfl), hput,
      ih fun x hx => h x (List.mem_cons_of_mem _ hx), List.append_assoc]

theorem scan_segments_none {a : List Char} {segments : List Segment}
    (h : ¬∀ segment ∈ segments, Readable segment)
    (hprint : ∀ c ∈ segments.flatMap Segment.text, Printable c) :
    scan .plain (s.extend a) (segments.flatMap Segment.text ++ rest) = none := by
  induction segments generalizing a with
  | nil => exact absurd (fun x hx => absurd hx List.not_mem_nil) h
  | cons segment segments ih =>
    rw [List.flatMap_cons] at hprint
    rw [List.flatMap_cons, List.append_assoc]
    by_cases hsegment : Readable segment
    · have hone := @scan_segments s (segments.flatMap Segment.text ++ rest) a [segment]
        (by simpa using hsegment)
      simp only [List.flatMap_singleton] at hone
      rw [hone]
      refine ih (fun hall => h fun x hx => ?_) fun c hc => hprint c (List.mem_append_right _ hc)
      rcases List.mem_cons.1 hx with rfl | hx
      · exact hsegment
      · exact hall x hx
    · exact scan_segment_none segment hsegment fun c hc => hprint c (List.mem_append_left _ hc)

theorem put_first (w : Word) : s.put w.first = s.extend w.first.value := by
  have hstarts := w.starts
  unfold Scanner.put
  split
  · rename_i heq
    rw [heq] at hstarts
    exact hstarts.elim
  · rfl

theorem scan_word (w : Word) (h : WordReadable w) :
    scan .plain s (w.text ++ rest) = scan .plain (s.extend w.value) rest := by
  unfold Word.text Word.value Word.segments
  rw [List.flatMap_cons, List.flatMap_cons, List.append_assoc,
    scan_segment w.first (h _ (List.mem_cons_self ..)) (.inl w.starts), put_first,
    scan_segments fun x hx => h x (List.mem_cons_of_mem _ hx)]

theorem scan_word_none (w : Word) (h : ¬WordReadable w) (hprint : ∀ c ∈ w.text, Printable c) :
    scan .plain s (w.text ++ rest) = none := by
  unfold Word.text Word.segments at hprint ⊢
  rw [List.flatMap_cons] at hprint
  rw [List.flatMap_cons, List.append_assoc]
  by_cases hfirst : Readable w.first
  · rw [scan_segment w.first hfirst (.inl w.starts), put_first]
    refine scan_segments_none (fun hall => h fun x hx => ?_) fun c hc =>
      hprint c (List.mem_append_right _ hc)
    rcases List.mem_cons.1 hx with rfl | hx
    · exact hfirst
    · exact hall x hx
  · exact scan_segment_none w.first hfirst fun c hc => hprint c (List.mem_append_left _ hc)

end Segments

/-! ### Tokens -/

section Tokens

variable {commands cs : List (List String)} {words : List Word} {text : List Char} {tokens : List Token}
  {s : Scanner}

def wordText (w : Word) : String := String.ofList w.value

def tokenText (t : Token) : String := String.ofList t.value

/-- The scanner between two tokens, with the words of the command so far. -/
def pending (commands : List (List String)) (words : List String) : Scanner := { commands, words }

/-- The operators that the scanner reads. -/
def readOperators : List Operator := [.semi, .dsemi, .andIf, .orIf]

def TokenReadable : Token → Prop
  | .word w => WordReadable w
  | .newline => True
  | .operator o => o ∈ readOperators

/-- The words of each command between the tokens. -/
def commandsOf (tokens : List Token) : List (List String) := (runs tokens).map (·.map tokenText)

theorem commandsOf_words : commandsOf (words.map .word) = if words = [] then [] else [words.map wordText] := by
  unfold commandsOf
  split_ifs with hwords
  · rw [hwords]
    rfl
  · rw [runs_words hwords, List.map_singleton, List.map_map]
    rfl

theorem commandsOf_sep {t : Token} (ht : t.isWord = false) :
    commandsOf (words.map .word ++ t :: tokens) = commandsOf (words.map .word) ++ commandsOf tokens := by
  have hsep : [t].countP Token.isWord = 0 := by
    rw [List.countP_cons_of_neg (by simp [ht]), List.countP_nil]
  have hsplit := runs_append_sep hsep (List.cons_ne_nil _ _) (words.map .word) tokens
  rw [List.append_assoc, List.singleton_append] at hsplit
  unfold commandsOf
  rw [hsplit, List.map_append]

theorem flush_extend (texts : List String) (value : List Char) :
    ((pending commands texts).extend value).flush =
      pending commands (texts ++ [String.ofList value]) := rfl

theorem endCommand_pending (texts : List String) : (pending commands texts).endCommand =
    pending (commands ++ if texts = [] then [] else [texts]) [] := by
  unfold Scanner.endCommand
  by_cases htexts : texts = []
  · subst htexts
    rw [if_pos rfl, List.append_nil]
    rfl
  · have hwords : (pending commands texts).flush.words ≠ [] := htexts
    rw [if_neg htexts, if_pos hwords]
    rfl

theorem endCommand_words : (pending commands (words.map wordText)).endCommand =
    pending (commands ++ commandsOf (words.map .word)) [] := by
  rw [endCommand_pending, commandsOf_words]
  simp only [List.map_eq_nil_iff]

theorem Scanner.endCommand_flush : s.flush.endCommand = s.endCommand := rfl

/-- When a command ends, no word is left. -/
theorem Scanner.endCommand_eq : s.endCommand = pending s.endCommand.commands [] := by
  have hend : s.endCommand = (pending s.commands s.flush.words).endCommand := rfl
  rw [hend, endCommand_pending]
  rfl

theorem Scanner.endCommand_endCommand : s.endCommand.endCommand = s.endCommand := by
  rw [@endCommand_eq s, endCommand_pending, if_pos rfl, List.append_nil]

/-- A word that ends is added to the words of the command. -/
theorem scan_endsWord (h : EndsWord text) : scan .plain s text = scan .plain s.flush text := by
  cases text with
  | nil => rfl
  | cons c text =>
    have hc := h c rfl
    by_cases htwice : (c = '&' ∨ c = '|') ∧ text.head? = some c
    · obtain ⟨hcontrol, hnext⟩ := htwice
      obtain ⟨text, rfl⟩ := List.head?_eq_some_iff.1 hnext
      rw [scan_twice hcontrol, scan_twice hcontrol, Scanner.endCommand_flush]
    by_cases hrefused : c ∈ refusedCharacters
    · have hnext : c = '&' ∨ c = '|' → text.head? ≠ some c := fun hc hnext => htwice ⟨hc, hnext⟩
      rw [scan_refused hrefused hnext, scan_refused hrefused hnext]
    by_cases hblank : c ∈ [' ', '\t']
    · rw [scan_blank hblank, scan_blank hblank]
      rfl
    · have hall : ∀ d ∈ [' ', '\t', '\n', ';', '&', '|', '<', '>', '(', ')'],
          d ∉ refusedCharacters → d ∉ [' ', '\t'] → d = ';' ∨ d = '\n' :=
        List.all_iff_forall_prop.1 (by decide)
      have hend := hall c hc hrefused hblank
      rw [scan_end hend, scan_end hend, Scanner.endCommand_flush]

theorem scan_skip {rest : List Char} (h : Continued [] rest) :
    scan .plain s (rest ++ text) = scan .plain s text := by
  generalize hspelled : ([] : List Char) = spelled at h
  induction h with
  | nil => rfl
  | char h ih => cases hspelled
  | continued h ih => exact scan_escape.trans (ih hspelled)

theorem scan_skip_semi {rest : List Char} (h : Continued [';'] rest) :
    scan .plain s (rest ++ text) = scan .plain s.endCommand text := by
  generalize hspelled : [';'] = spelled at h
  induction h with
  | nil => cases hspelled
  | @char c spelled rest h ih =>
    obtain ⟨rfl, rfl⟩ := List.cons.inj hspelled
    exact (scan_end (.inl rfl)).trans (scan_skip h)
  | continued h ih => exact scan_escape.trans (ih hspelled)

theorem Maximal.head {o longer : Operator} {c : Char} (h : o.Maximal text)
    (hlonger : longer.text = o.text ++ [c]) (hc : c ≠ '\\') : text.head? ≠ some c := by
  intro hhead
  obtain ⟨text, rfl⟩ := List.head?_eq_some_iff.1 hhead
  refine h longer c hlonger ?_
  unfold skipContinuations
  split
  · rename_i heq
    exact absurd (List.cons.inj heq).1 hc
  · rfl

theorem andIf_text : Operator.andIf.text = Operator.amp.text ++ ['&'] := rfl

theorem orIf_text : Operator.orIf.text = Operator.pipe.text ++ ['|'] := rfl

/-- A control operator that stands alone is not read. -/
theorem scan_alone {c : Char} {rest : List Char} (hc : c = '&' ∨ c = '|') (h : Continued [] rest)
    (hhead : text.head? ≠ some c) : scan .plain s (c :: rest ++ text) = none := by
  refine scan_refused (by rcases hc with rfl | rfl <;> decide) fun _ => ?_
  cases h with
  | nil => exact hhead
  | continued h => rcases hc with rfl | rfl <;> exact nofun

theorem scan_pair {c : Char} {rest : List Char} (hc : c = '&' ∨ c = '|') (h : Continued [c] rest) :
    scan .plain s (c :: rest ++ text) = scan .plain s.endCommand text ∨
      scan .plain s (c :: rest ++ text) = none := by
  cases h with
  | char h => exact .inl ((scan_twice hc).trans (scan_skip h))
  | continued h =>
    refine .inr (scan_refused ?_ fun _ => ?_)
    · rcases hc with rfl | rfl <;> decide
    · rcases hc with rfl | rfl <;> exact nofun

/-- An operator that is read ends the command. -/
theorem scan_operator {written : List Char} (o : Operator)
    (hwritten : ∃ c spelled rest, o.text = c :: spelled ∧ written = c :: rest ∧ Continued spelled rest)
    (hmax : o.Maximal text) :
    (o ∈ readOperators ∧ scan .plain s (written ++ text) = scan .plain s.endCommand text) ∨
    scan .plain s (written ++ text) = none := by
  obtain ⟨c, spelled, rest, htext, rfl, hrest⟩ := hwritten
  have hredirect : c ∈ ['<', '>', '(', ')'] →
      scan .plain s (c :: rest ++ text) = none := by
    intro hc
    have hall : ∀ d ∈ ['<', '>', '(', ')'], d ∈ refusedCharacters := List.all_iff_forall_prop.1 (by decide)
    refine scan_refused (hall c hc) fun hcontrol => ?_
    rcases hcontrol with rfl | rfl <;> exact absurd hc (by decide)
  cases o
  case semi =>
    obtain ⟨rfl, rfl⟩ := List.cons.inj htext
    exact .inl ⟨by decide, (scan_end (.inl rfl)).trans (scan_skip hrest)⟩
  case dsemi =>
    obtain ⟨rfl, rfl⟩ := List.cons.inj htext
    refine .inl ⟨by decide, (scan_end (.inl rfl)).trans ((scan_skip_semi hrest).trans ?_)⟩
    rw [Scanner.endCommand_endCommand]
  case amp =>
    obtain ⟨rfl, rfl⟩ := List.cons.inj htext
    exact .inr (scan_alone (.inl rfl) hrest (Maximal.head hmax andIf_text (by decide)))
  case pipe =>
    obtain ⟨rfl, rfl⟩ := List.cons.inj htext
    exact .inr (scan_alone (.inr rfl) hrest (Maximal.head hmax orIf_text (by decide)))
  case andIf =>
    obtain ⟨rfl, rfl⟩ := List.cons.inj htext
    exact (scan_pair (.inl rfl) hrest).imp_left fun h => ⟨by decide, h⟩
  case orIf =>
    obtain ⟨rfl, rfl⟩ := List.cons.inj htext
    exact (scan_pair (.inr rfl) hrest).imp_left fun h => ⟨by decide, h⟩
  all_goals
    obtain ⟨rfl, -⟩ := List.cons.inj htext
    exact .inr (hredirect (by decide))

/-- What the scanner returns are the commands between the tokens, and every token is one it reads. -/
theorem scan_lexes (h : Lexes text tokens) (hprint : ∀ c ∈ text, Printable c)
    (hscan : scan .plain (pending commands (words.map wordText)) text = some cs) :
    (∀ t ∈ tokens, TokenReadable t) ∧ cs = commands ++ commandsOf (words.map .word ++ tokens) := by
  induction h generalizing commands words with
  | nil =>
    refine ⟨nofun, ?_⟩
    have heq : (pending commands (words.map wordText)).endCommand.commands = cs :=
      Option.some.inj hscan
    rw [endCommand_words] at heq
    rw [List.append_nil]
    exact heq.symm
  | blank hblank h ih =>
    rw [scan_blank hblank] at hscan
    exact ih (fun c hc => hprint c (List.mem_cons_of_mem _ hc)) hscan
  | continued h ih =>
    rw [scan_escape] at hscan
    exact ih (fun c hc => hprint c (List.mem_cons_of_mem _ (List.mem_cons_of_mem _ hc))) hscan
  | comment hnote hend h ih =>
    rw [scan_comment rfl hnote hend] at hscan
    exact ih (fun c hc => hprint c (List.mem_append_right _ hc)) hscan
  | newline h ih =>
    rw [scan_end (.inr rfl), endCommand_words] at hscan
    obtain ⟨hall, rfl⟩ := @ih _ [] (fun c hc => hprint c (List.mem_cons_of_mem _ hc)) hscan
    refine ⟨fun t ht => ?_, ?_⟩
    · rcases List.mem_cons.1 ht with rfl | ht
      · trivial
      · exact hall t ht
    · rw [commandsOf_sep rfl, List.append_assoc]
      rfl
  | operator o hwritten hmax h ih =>
    rcases scan_operator o hwritten hmax with ⟨ho, heq⟩ | hnone
    · rw [heq, endCommand_words] at hscan
      obtain ⟨hall, rfl⟩ := @ih _ [] (fun c hc => hprint c (List.mem_append_right _ hc)) hscan
      refine ⟨fun t ht => ?_, ?_⟩
      · rcases List.mem_cons.1 ht with rfl | ht
        · exact ho
        · exact hall t ht
      · rw [commandsOf_sep rfl, List.append_assoc]
        rfl
    · rw [hnone] at hscan
      cases hscan
  | word w hend h ih =>
    by_cases hw : WordReadable w
    · rw [scan_word w hw, scan_endsWord hend, flush_extend] at hscan
      obtain ⟨hall, rfl⟩ := @ih _ (words ++ [w]) (fun c hc => hprint c (List.mem_append_right _ hc))
        (by rw [List.map_append]; exact hscan)
      refine ⟨fun t ht => ?_, ?_⟩
      · rcases List.mem_cons.1 ht with rfl | ht
        · exact hw
        · exact hall t ht
      · rw [List.map_append, List.append_assoc]
        rfl
    · rw [scan_word_none w hw fun c hc => hprint c (List.mem_append_left _ hc)] at hscan
      cases hscan
  | @hereDocument rest text hwritten tokens =>
    have hnone : scan .plain (pending commands (words.map wordText)) ('<' :: (rest ++ text)) = none :=
      scan_refused (by decide) nofun
    cases hscan.symm.trans hnone

end Tokens

/-! ### Renderings -/

/-- The characters that are part of a pattern, a brace or a tilde expansion outside quotes. -/
def patternCharacters : List Char := ['*', '?', '[', ']', '{', '}', '~']

/-- Quoted without an expansion, or a plain character outside the special set. -/
def LiteralSegment (segment : Segment) : Prop :=
  segment.Literal ∧ ∀ c h, segment = .plain c h → c ∉ patternCharacters

/-- The text is a concatenation of segments that renders the word; a plain number sign does not come
first. -/
def RendersWord (segments : List Segment) (text : List Char) (word : String) : Prop :=
  segments ≠ [] ∧ (∀ segment ∈ segments, LiteralSegment segment) ∧
    (∀ segment ∈ (segments.dropWhile Segment.isContinued).head?, segment.Starts) ∧
    text = segments.flatMap Segment.text ∧ word = String.ofList (segments.flatMap Segment.value)

/-- Any concatenation of segments. -/
def AnyWord (text : List Char) (word : String) : Prop := ∃ segments, RendersWord segments text word

/-- A concatenation with a segment other than a line continuation. -/
def ProperWord (text : List Char) (word : String) : Prop :=
  ∃ segments, RendersWord segments text word ∧ ∃ segment ∈ segments, segment.isContinued = false

def IsBlank (blanks : List Char) : Prop := ∀ c ∈ blanks, c ∈ [' ', '\t']

/-- Words with blanks between them. -/
inductive CommandText (R : List Char → String → Prop) : List Char → List String → Prop
  | one {text : List Char} {word : String} (h : R text word) : CommandText R text [word]
  | more {text blanks rest : List Char} {word : String} {words : List String} (h : R text word)
      (hne : blanks ≠ []) (hblanks : IsBlank blanks) (hrest : CommandText R rest words) :
      CommandText R (text ++ blanks ++ rest) (word :: words)

/-- A separator of commands, with blanks around it and newlines after it. -/
def IsSeparator (sep : List Char) : Prop :=
  ∃ before op after, sep = before ++ op ++ after ∧ IsBlank before ∧
    op ∈ [[';'], ['\n'], ['&', '&'], ['|', '|']] ∧ ∀ c ∈ after, c ∈ [' ', '\t', '\n']

/-- Commands with separators between them. -/
inductive ListText (R : List Char → String → Prop) : List Char → List (List String) → Prop
  | one {text : List Char} {words : List String} (h : CommandText R text words) :
      ListText R text [words]
  | more {text sep rest : List Char} {words : List String} {commands : List (List String)}
      (h : CommandText R text words) (hsep : IsSeparator sep) (hrest : ListText R rest commands) :
      ListText R (text ++ sep ++ rest) (words :: commands)

/-- The text renders the list of commands, with blanks around it. -/
def Renders (R : List Char → String → Prop) (text : List Char) (commands : List (List String)) : Prop :=
  ∃ before middle after, text = before ++ middle ++ after ∧ IsBlank before ∧ IsBlank after ∧
    (commands = [] ∧ middle = [] ∨ ListText R middle commands)

section Renderings

variable {text rest blanks sep : List Char} {word : String} {words : List String} {s : Scanner}
  {commands cs : List (List String)}

theorem LiteralSegment.readable {segment : Segment} (h : LiteralSegment segment)
    (hprint : ∀ c ∈ segment.text, Printable c) : Readable segment := by
  cases segment with
  | plain c hc =>
    refine ⟨hc, fun hrefused => ?_, isTrimmed_of_printable (hprint c (List.mem_singleton_self c)) hc⟩
    have hpattern := h.2 c hc rfl
    have hall : ∀ c ∈ refusedCharacters, c ∈ metacharacters ∨ c ∈ patternCharacters :=
      List.all_iff_forall_prop.1 (by decide)
    rcases hall c hrefused with hmeta | hmem
    · exact hc hmeta
    · exact hpattern hmem
  | _ => exact h.1

/-- A rendering of a word leaves the word in the scanner. -/
theorem scan_proper (h : ProperWord text word) (hprint : ∀ c ∈ text, Printable c) :
    ∃ value, word = String.ofList value ∧
      ∀ s rest, scan .plain s (text ++ rest) = scan .plain (s.extend value) rest := by
  obtain ⟨segments, ⟨-, hliteral, hstarts, rfl, rfl⟩, hproper⟩ := h
  refine ⟨_, rfl, fun s rest => ?_⟩
  induction segments with
  | nil =>
    obtain ⟨segment, hmem, -⟩ := hproper
    cases hmem
  | cons segment segments ih =>
    rw [List.flatMap_cons] at hprint
    have hread : ∀ x ∈ segment :: segments, Readable x := by
      intro x hx
      refine (hliteral x hx).readable fun c hc => hprint c ?_
      rw [← List.flatMap_cons]
      exact List.mem_flatMap.2 ⟨x, hx, hc⟩
    cases segment with
    | continued =>
      refine scan_escape.trans (ih ?_ (fun x hx => hliteral x (List.mem_cons_of_mem _ hx)) hstarts
        fun c hc => hprint c (List.mem_append_right _ hc))
      obtain ⟨x, hx, hcontinued⟩ := hproper
      rcases List.mem_cons.1 hx with rfl | hx
      · cases hcontinued
      · exact ⟨x, hx, hcontinued⟩
    | _ =>
      have hfirst := @scan_segment s (segments.flatMap Segment.text ++ rest) _
        (hread _ (List.mem_cons_self ..)) (.inl (hstarts _ rfl))
      rw [List.flatMap_cons, List.flatMap_cons, List.append_assoc, hfirst]
      exact scan_segments fun x hx => hread x (List.mem_cons_of_mem _ hx)

theorem scan_blanks (h : IsBlank blanks) (hne : blanks ≠ []) :
    scan .plain s (blanks ++ rest) = scan .plain s.flush rest := by
  induction blanks generalizing s with
  | nil => exact absurd rfl hne
  | cons c blanks ih =>
    have hblanks : IsBlank blanks := fun c hc => h c (List.mem_cons_of_mem _ hc)
    rw [List.cons_append, scan_blank (h c (List.mem_cons_self ..))]
    by_cases hnil : blanks = []
    · rw [hnil, List.nil_append]
    · exact ih hblanks hnil

/-- Blanks between tokens change nothing. -/
theorem scan_pending (h : IsBlank blanks) (words : List String) :
    scan .plain (pending commands words) (blanks ++ rest) =
      scan .plain (pending commands words) rest := by
  by_cases hnil : blanks = []
  · rw [hnil, List.nil_append]
  · exact scan_blanks h hnil

theorem scan_command (h : CommandText ProperWord text words) (hprint : ∀ c ∈ text, Printable c)
    (before : List String) : ∃ value, ∀ rest,
      scan .plain (pending commands before) (text ++ rest) =
        scan .plain ((pending commands (before ++ words.dropLast)).extend value) rest ∧
      words = words.dropLast ++ [String.ofList value] := by
  induction h generalizing before with
  | one h =>
    obtain ⟨value, rfl, hscan⟩ := scan_proper h hprint
    refine ⟨value, fun rest => ⟨?_, rfl⟩⟩
    rw [List.dropLast_singleton, List.append_nil]
    exact hscan _ rest
  | @more text blanks rest word words h hne hblanks hrest ih =>
    obtain ⟨value, rfl, hscan⟩ := scan_proper h fun c hc =>
      hprint c (List.mem_append_left _ (List.mem_append_left _ hc))
    obtain ⟨last, hlast⟩ := ih (fun c hc => hprint c (List.mem_append_right _ hc))
      (before ++ [String.ofList value])
    have hwords : words ≠ [] := by
      rw [(hlast []).2]
      exact List.append_ne_nil_of_right_ne_nil _ (List.cons_ne_nil _ _)
    refine ⟨last, fun tail => ⟨?_, ?_⟩⟩
    · rw [List.append_assoc, List.append_assoc, hscan, scan_blanks hblanks hne, flush_extend,
        (hlast tail).1, List.dropLast_cons_of_ne_nil hwords, List.append_assoc]
      rfl
    · rw [List.dropLast_cons_of_ne_nil hwords, List.cons_append]
      exact congrArg _ (hlast []).2

theorem scan_command_end (h : CommandText ProperWord text words) (hprint : ∀ c ∈ text, Printable c) :
    ∃ s, (∀ rest, scan .plain (pending commands []) (text ++ rest) = scan .plain s rest) ∧
      s.flush = pending commands words := by
  obtain ⟨value, hscan⟩ := @scan_command text words commands h hprint []
  refine ⟨_, fun rest => (hscan rest).1, ?_⟩
  rw [flush_extend, List.nil_append, ← (hscan []).2]

theorem endCommand_of_flush (h : s.flush = pending commands words) (hne : words ≠ []) :
    s.endCommand = pending (commands ++ [words]) [] := by
  rw [← Scanner.endCommand_flush, h, endCommand_pending, if_neg hne]

theorem scan_separator (h : IsSeparator sep) : scan .plain s (sep ++ rest) = scan .plain s.endCommand rest := by
  obtain ⟨before, op, after, rfl, hbefore, hop, hafter⟩ := h
  have hop' : ∀ s : Scanner, ∀ rest, scan .plain s (op ++ rest) = scan .plain s.endCommand rest := by
    intro s rest
    simp only [List.mem_cons, List.not_mem_nil, or_false] at hop
    rcases hop with rfl | rfl | rfl | rfl
    · exact scan_end (.inl rfl)
    · exact scan_end (.inr rfl)
    · exact scan_twice (.inl rfl)
    · exact scan_twice (.inr rfl)
  have hafter' : ∀ commands, scan .plain (pending commands []) (after ++ rest) =
      scan .plain (pending commands []) rest := by
    intro commands
    induction after with
    | nil => rfl
    | cons c after ih =>
      have hih := ih fun x hx => hafter x (List.mem_cons_of_mem _ hx)
      have hc := hafter c (List.mem_cons_self ..)
      simp only [List.mem_cons, List.not_mem_nil, or_false] at hc
      rw [List.cons_append]
      rcases hc with rfl | rfl | rfl
      · exact (scan_blank (by decide)).trans hih
      · exact (scan_blank (by decide)).trans hih
      · rw [scan_end (.inr rfl), endCommand_pending, if_pos rfl, List.append_nil, hih]
  rw [List.append_assoc, List.append_assoc]
  by_cases hnil : before = []
  · rw [hnil, List.nil_append, hop', Scanner.endCommand_eq, hafter']
  · rw [scan_blanks hbefore hnil, hop', Scanner.endCommand_flush, Scanner.endCommand_eq, hafter']

theorem commandText_ne_nil {R : List Char → String → Prop} (h : CommandText R text words) : words ≠ [] := by
  cases h <;> exact List.cons_ne_nil _ _

theorem scan_list {before : List (List String)} (h : ListText ProperWord text cs)
    (hprint : ∀ c ∈ text, Printable c) (hafter : IsBlank blanks) :
    scan .plain (pending before []) (text ++ blanks) = some (before ++ cs) := by
  induction h generalizing before with
  | one h =>
    obtain ⟨s, hscan, hflush⟩ := scan_command_end h hprint
    have hend : scan .plain s blanks = some s.endCommand.commands := by
      by_cases hnil : blanks = []
      · rw [hnil]
        rfl
      · have hblanks := @scan_blanks [] blanks s hafter hnil
        rw [List.append_nil] at hblanks
        exact hblanks
    rw [hscan, hend, endCommand_of_flush hflush (commandText_ne_nil h)]
    rfl
  | more h hsep hrest ih =>
    obtain ⟨s, hscan, hflush⟩ := scan_command_end h fun c hc =>
      hprint c (List.mem_append_left _ (List.mem_append_left _ hc))
    rw [List.append_assoc, List.append_assoc, hscan, scan_separator hsep,
      endCommand_of_flush hflush (commandText_ne_nil h),
      ih fun c hc => hprint c (List.mem_append_right _ hc), List.append_assoc]
    rfl

end Renderings

/-! ### The two directions -/

/-- Every rendering of a list of commands is read back. -/
theorem literalCommands_renders {text : List Char} {commands : List (List String)}
    (hprint : ∀ c ∈ text, Printable c) (h : Renders ProperWord text commands) :
    literalCommands (String.ofList text) = some commands := by
  obtain ⟨before, middle, after, rfl, hbefore, hafter, h⟩ := h
  unfold literalCommands
  rw [String.toList_ofList, List.append_assoc]
  refine (scan_pending hbefore []).trans ?_
  rcases h with ⟨rfl, rfl⟩ | h
  · have hblanks := @scan_pending [] after [] hafter []
    rw [List.append_nil] at hblanks
    exact hblanks
  · exact scan_list h (fun c hc => hprint c (List.mem_append_left _ (List.mem_append_right _ hc))) hafter

/-- What is read are the simple commands of the text exactly if no word of it belongs to none of
them. -/
theorem literalCommands_program {source : String} {cs : List (List String)} {tokens : List Token}
    {commands : List (List Word)} {others : List Word} (hprint : ∀ c ∈ source.toList, Printable c)
    (hread : literalCommands source = some cs) (hlexes : Lexes source.toList tokens)
    (hprogram : Program tokens commands others) :
    cs = commands.map (·.map wordText) ↔ others = [] := by
  obtain ⟨-, hcs⟩ := @scan_lexes [] cs [] _ _ hlexes hprint hread
  rw [List.nil_append, List.map_nil, List.nil_append] at hcs
  constructor
  · intro heq
    have hlength : cs.flatten.length = tokens.countP Token.isWord := by
      rw [hcs]
      unfold commandsOf
      rw [← List.map_flatten, List.length_map]
      exact runs_flatten_length tokens
    have hcount := hprogram.count
    rw [← hlength, heq, ← List.map_flatten, List.length_map] at hcount
    exact List.length_eq_zero_iff.1 (by omega)
  · rintro rfl
    rw [hcs]
    unfold commandsOf
    rw [hprogram.runs_eq, List.map_map]
    refine List.map_congr_left fun ws _ => ?_
    rw [Function.comp_apply, List.map_map]
    rfl

/-- Renderings of commands are read back; and what is read of a text that the shell accepts are its
simple commands exactly if every word of the text belongs to one: no reserved word is in it. -/
theorem literalCommands_posix {source : String} (hprint : ∀ c ∈ source.toList, Printable c) :
    (∀ commands, Renders ProperWord source.toList commands →
      literalCommands source = some commands) ∧
    ∀ cs tokens commands others, literalCommands source = some cs → Lexes source.toList tokens →
      Program tokens commands others → (cs = commands.map (·.map wordText) ↔ others = []) := by
  refine ⟨fun commands h => ?_, fun cs tokens commands others hread hlexes hprogram =>
    literalCommands_program hprint hread hlexes hprogram⟩
  have hread := literalCommands_renders hprint h
  rwa [String.ofList_toList] at hread

instance (c : Char) : Decidable (Printable c) :=
  inferInstanceAs (Decidable ((0x20 ≤ c.toNat ∧ c.toNat ≤ 0x7e) ∨ c = '\t' ∨ c = '\n'))

theorem literalCommands_posix_echo :
    (∀ commands, Renders ProperWord "echo 'a b' && ls".toList commands →
      literalCommands "echo 'a b' && ls" = some commands) ∧
    ∀ cs tokens commands others, literalCommands "echo 'a b' && ls" = some cs →
      Lexes "echo 'a b' && ls".toList tokens → Program tokens commands others →
        (cs = commands.map (·.map wordText) ↔ others = []) :=
  literalCommands_posix (List.all_iff_forall_prop.1 (by decide +kernel))

namespace Sample

def bang : Word := ⟨.plain '!' (by decide), [], show '!' ≠ '#' by decide⟩

def command : Word := ⟨.plain 'a' (by decide), [], show 'a' ≠ '#' by decide⟩

theorem command_not_reserved : ¬command.Reserved := by
  rintro ⟨k, hk, -, hvalue⟩
  revert k
  decide

/-- A negated command. -/
theorem bang_program : Program [.word bang, .word command] [[command]] [bang] := by
  have hsimple : Parses .command true [.word command] [[command]] [] :=
    @Parses.simple [.word command] (List.cons_ne_nil _ _) fun w hw => by
      obtain rfl : command = w := Part.word.inj (Option.some.inj hw)
      exact command_not_reserved
  have hbang : bang.Reads "!" := ⟨fun segment h => by
    obtain rfl := List.mem_singleton.1 h
    trivial, rfl⟩
  have hterm : Parses .term true [.word bang, .word command] [[command]] [bang] :=
    .lift (p := .andOr) trivial
      (.lift (p := .pipeline) trivial (.negated hbang (.lift (p := .command) trivial hsimple)))
  exact .inr ⟨true, .body 0 hterm⟩

theorem bang_lexes : Lexes "! a".toList [.word bang, .word command] := by
  have hcommand : Lexes ['a'] [.word command] := .word command nofun .nil
  have hblank : Lexes [' ', 'a'] [.word command] := .blank (by decide) hcommand
  refine .word bang (fun c hc => ?_) hblank
  obtain rfl := Option.some.inj hc
  decide

/-- A word that is a line continuation. -/
theorem continued_renders : Renders AnyWord "a \\\n".toList [["a", ""]] := by
  have ha : AnyWord ['a'] "a" := by
    refine ⟨[.plain 'a' (by decide)], List.cons_ne_nil _ _, fun segment h => ?_, fun segment h => ?_,
      rfl, rfl⟩
    · obtain rfl := List.mem_singleton.1 h
      refine ⟨trivial, fun c hc heq => ?_⟩
      cases heq
      decide
    · obtain rfl := Option.some.inj h
      exact (show 'a' ≠ '#' by decide)
  have hempty : AnyWord ['\\', '\n'] "" := by
    refine ⟨[.continued], List.cons_ne_nil _ _, fun segment h => ?_, nofun, rfl, rfl⟩
    obtain rfl := List.mem_singleton.1 h
    exact ⟨trivial, nofun⟩
  have hblank : IsBlank [' '] := by
    intro c hc
    obtain rfl := List.mem_singleton.1 hc
    decide
  exact ⟨[], _, [], rfl, nofun, nofun,
    .inr (.one (.more ha (List.cons_ne_nil ' ' []) hblank (.one hempty)))⟩

end Sample

open Sample in
/-- A line continuation on its own is no word, and a reserved word is read as one. -/
theorem literalCommands_not_posix :
    (¬∀ source : String, (∀ c ∈ source.toList, Printable c) → ∀ commands,
      Renders AnyWord source.toList commands → literalCommands source = some commands) ∧
    ¬∀ source : String, (∀ c ∈ source.toList, Printable c) → ∀ cs tokens commands others,
      literalCommands source = some cs → Lexes source.toList tokens → Program tokens commands others →
        cs = commands.map (·.map wordText) := by
  constructor
  · intro h
    have hread := h "a \\\n" (List.all_iff_forall_prop.1 (by decide +kernel)) _ continued_renders
    exact absurd hread (by decide +kernel)
  · intro h
    have heq := h "! a" (List.all_iff_forall_prop.1 (by decide +kernel)) [["!", "a"]] _ _ _ (by decide +kernel) bang_lexes bang_program
    exact absurd heq (by decide +kernel)

end AgentLcars
