import Mathlib.Data.List.Basic
import AgentLcars.Lib.Splitting

/-!
# Words and tokens of a shell text

Quoting and token recognition of the POSIX shell language, as a relation between a text and its tokens.

* `Segment`, `Word`: the quoted and unquoted segments that a word is written in, and its value once
  the quotes are removed.
* `Operator`, `Token`: control and redirection operators, newlines and words.
* `Lexes text tokens`: the text is read as the tokens.
* `runs`: the words between the other tokens.

The extent of an expansion, and of a here-document, is left open: any text may belong to it.
-/

namespace Shell

/-! ### Segments -/

def backquote : Char := '\x60'

/-- The characters that end a word or have a meaning of their own outside quotes. -/
def metacharacters : List Char :=
  [' ', '\t', '\n', '\'', '"', '\\', '$', backquote, ';', '&', '|', '<', '>', '(', ')']

/-- The characters a backslash quotes within double quotes. -/
def escapable : List Char := ['$', backquote, '"', '\\']

/-- The characters an expansion starts with. -/
def expanding : List Char := ['$', backquote]

/-- The text of an expansion, up to wherever it ends. -/
def IsExpansion (text : List Char) : Prop := ∃ c ∈ expanding, ∃ rest, text = c :: rest

/-- A piece of a segment in double quotes. -/
inductive Inner
  | plain (c : Char) (h : c ∉ escapable)
  | escaped (c : Char) (h : c ∈ escapable)
  /-- The backslash stays. -/
  | kept (c : Char) (h : c ∉ escapable ∧ c ≠ '\n')
  | continued
  | expansion (text : List Char) (h : IsExpansion text)

/-- A piece of a word, as it is written. -/
inductive Segment
  | plain (c : Char) (h : c ∉ metacharacters)
  | escaped (c : Char) (h : c ≠ '\n')
  /-- A line continuation stands for nothing. -/
  | continued
  | single (body : List Char) (h : '\'' ∉ body)
  | double (body : List Inner)
  | expansion (text : List Char) (h : IsExpansion text)

def Inner.text : Inner → List Char
  | .plain c _ => [c]
  | .escaped c _ => ['\\', c]
  | .kept c _ => ['\\', c]
  | .continued => ['\\', '\n']
  | .expansion text _ => text

/-- What is left when the quotes are removed; nothing is said of an expansion. -/
def Inner.value : Inner → List Char
  | .plain c _ => [c]
  | .escaped c _ => [c]
  | .kept c _ => ['\\', c]
  | .continued => []
  | .expansion _ _ => []

def Inner.Literal : Inner → Prop
  | .expansion _ _ => False
  | _ => True

def Segment.text : Segment → List Char
  | .plain c _ => [c]
  | .escaped c _ => ['\\', c]
  | .continued => ['\\', '\n']
  | .single body _ => '\'' :: body ++ ['\'']
  | .double body => '"' :: body.flatMap Inner.text ++ ['"']
  | .expansion text _ => text

def Segment.value : Segment → List Char
  | .plain c _ => [c]
  | .escaped c _ => [c]
  | .continued => []
  | .single body _ => body
  | .double body => body.flatMap Inner.value
  | .expansion _ _ => []

/-- There is no expansion in the segment. -/
def Segment.Literal : Segment → Prop
  | .double body => ∀ piece ∈ body, piece.Literal
  | .expansion _ _ => False
  | _ => True

def Segment.isContinued : Segment → Bool
  | .continued => true
  | _ => false

/-! ### Words -/

/-- A continuation belongs to what comes before it, and a word does not start with a number sign. -/
def Segment.Starts : Segment → Prop
  | .continued => False
  | .plain c _ => c ≠ '#'
  | _ => True

/-- The segments of a word. -/
structure Word where
  first : Segment
  rest : List Segment
  starts : first.Starts

def Word.segments (w : Word) : List Segment := w.first :: w.rest

def Word.text (w : Word) : List Char := w.segments.flatMap Segment.text

def Word.value (w : Word) : List Char := w.segments.flatMap Segment.value

/-- The word is written without quotes. -/
def Segment.Unquoted : Segment → Prop
  | .plain _ _ => True
  | .continued => True
  | _ => False

/-- The word is the text, none of it quoted. -/
def Word.Reads (w : Word) (text : String) : Prop :=
  (∀ segment ∈ w.segments, segment.Unquoted) ∧ w.value = text.toList

/-! ### Tokens -/

inductive Operator
  | semi | dsemi | amp | andIf | pipe | orIf | lparen | rparen
  | less | dless | dlessDash | lessAnd | lessGreat | great | dgreat | greatAnd | clobber
  deriving DecidableEq, Repr

def Operator.text : Operator → List Char
  | .semi => [';']
  | .dsemi => [';', ';']
  | .amp => ['&']
  | .andIf => ['&', '&']
  | .pipe => ['|']
  | .orIf => ['|', '|']
  | .lparen => ['(']
  | .rparen => [')']
  | .less => ['<']
  | .dless => ['<', '<']
  | .dlessDash => ['<', '<', '-']
  | .lessAnd => ['<', '&']
  | .lessGreat => ['<', '>']
  | .great => ['>']
  | .dgreat => ['>', '>']
  | .greatAnd => ['>', '&']
  | .clobber => ['>', '|']

inductive Token
  | word (w : Word)
  | newline
  | operator (o : Operator)

/-- Continuations may stand between the characters of an operator. -/
inductive Continued : List Char → List Char → Prop
  | nil : Continued [] []
  | char {c : Char} {spelled text : List Char} (h : Continued spelled text) :
      Continued (c :: spelled) (c :: text)
  | continued {spelled text : List Char} (h : Continued spelled text) :
      Continued spelled ('\\' :: '\n' :: text)

def skipContinuations : List Char → List Char
  | '\\' :: '\n' :: text => skipContinuations text
  | text => text

/-- No longer operator can be read. -/
def Operator.Maximal (o : Operator) (text : List Char) : Prop :=
  ∀ longer : Operator, ∀ c, longer.text = o.text ++ [c] → (skipContinuations text).head? ≠ some c

/-- A word ends before a blank, a newline or an operator. -/
def EndsWord (text : List Char) : Prop :=
  ∀ c ∈ text.head?, c ∈ [' ', '\t', '\n', ';', '&', '|', '<', '>', '(', ')']

/-- The text is read as the tokens. -/
inductive Lexes : List Char → List Token → Prop
  | nil : Lexes [] []
  | blank {c : Char} {text : List Char} {tokens : List Token} (hblank : c ∈ [' ', '\t'])
      (h : Lexes text tokens) : Lexes (c :: text) tokens
  | continued {text : List Char} {tokens : List Token} (h : Lexes text tokens) :
      Lexes ('\\' :: '\n' :: text) tokens
  | comment {note text : List Char} {tokens : List Token} (hnote : '\n' ∉ note)
      (hend : ∀ c ∈ text.head?, c = '\n') (h : Lexes text tokens) : Lexes ('#' :: note ++ text) tokens
  | newline {text : List Char} {tokens : List Token} (h : Lexes text tokens) :
      Lexes ('\n' :: text) (.newline :: tokens)
  | operator {written text : List Char} {tokens : List Token} (o : Operator)
      (hwritten : ∃ c spelled rest, o.text = c :: spelled ∧ written = c :: rest ∧ Continued spelled rest)
      (hmax : o.Maximal text) (h : Lexes text tokens) : Lexes (written ++ text) (.operator o :: tokens)
  | word {text : List Char} {tokens : List Token} (w : Word) (hend : EndsWord text)
      (h : Lexes text tokens) : Lexes (w.text ++ text) (.word w :: tokens)
  /-- The lines of a here-document are not split into tokens. -/
  | hereDocument {rest text : List Char} (hwritten : Continued ['<'] rest) (tokens : List Token) :
      Lexes ('<' :: rest ++ text) (.operator .dless :: tokens)

/-! ### Runs of words -/

def Token.isWord : Token → Bool
  | .word _ => true
  | _ => false

/-- The words between the other tokens. -/
def runs (tokens : List Token) : List (List Token) :=
  Splitting.words (fun token => !token.isWord) tokens

def Token.value : Token → List Char
  | .word w => w.value
  | _ => []

end Shell
