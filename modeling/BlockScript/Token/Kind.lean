/-!
# Kinds of tokens

A token is a punctuation mark, a keyword, a name, a literal, or the end of the input. Marks and
keywords have one spelling each, from which the readers of source text are derived.
-/

namespace BlockScript

/-- A punctuation mark or operator sign. -/
inductive Mark where
  | leftParen | rightParen | leftBrace | rightBrace
  | comma | dot | minus | plus | semicolon | slash | star | question | colon
  | bang | bangEqual
  | equal | equalEqual
  | greater | greaterEqual
  | less | lessEqual
  deriving DecidableEq, Repr

namespace Mark

def spelling : Mark → List Char
  | leftParen => ['(']
  | rightParen => [')']
  | leftBrace => ['\x7b']
  | rightBrace => ['\x7d']
  | comma => [',']
  | dot => ['.']
  | minus => ['-']
  | plus => ['+']
  | semicolon => [';']
  | slash => ['/']
  | star => ['*']
  | question => ['?']
  | colon => [':']
  | bang => ['!']
  | bangEqual => ['!', '=']
  | equal => ['=']
  | equalEqual => ['=', '=']
  | greater => ['>']
  | greaterEqual => ['>', '=']
  | less => ['<']
  | lessEqual => ['<', '=']

/-- The mark that a single character spells. -/
def ofChar? : Char → Option Mark
  | '(' => some leftParen
  | ')' => some rightParen
  | '\x7b' => some leftBrace
  | '\x7d' => some rightBrace
  | ',' => some comma
  | '.' => some dot
  | '-' => some minus
  | '+' => some plus
  | ';' => some semicolon
  | '/' => some slash
  | '*' => some star
  | '?' => some question
  | ':' => some colon
  | '!' => some bang
  | '=' => some equal
  | '>' => some greater
  | '<' => some less
  | _ => none

/-- The mark that arises when an equals sign follows directly. -/
def extended? : Mark → Option Mark
  | bang => some bangEqual
  | equal => some equalEqual
  | greater => some greaterEqual
  | less => some lessEqual
  | _ => none

/-- The longest mark at the start of a text whose first character spells `short`, with what
follows it. -/
def extend (short : Mark) (rest : List Char) : Mark × List Char :=
  match short.extended?, rest with
  | some long, '=' :: after => (long, after)
  | _, _ => (short, rest)

theorem spelling_of_ofChar? {char : Char} {mark : Mark} (found : ofChar? char = some mark) :
    mark.spelling = [char] := by
  unfold ofChar? at found
  split at found <;> cases found <;> rfl

/-- The longer mark is the shorter one followed by an equals sign. -/
theorem spelling_of_extended? {short long : Mark} (found : short.extended? = some long) :
    long.spelling = short.spelling ++ ['='] := by
  cases short <;> cases found <;> rfl

/-- Extending a mark neither loses nor invents characters. -/
theorem spelling_append_extend (short : Mark) (rest : List Char) :
    (short.extend rest).1.spelling ++ (short.extend rest).2 = short.spelling ++ rest := by
  unfold extend
  split
  · next found => simp [spelling_of_extended? found]
  · rfl

end Mark

inductive Keyword where
  | andWord | breakWord | classWord | continueWord | elseWord | falseWord | forWord | funWord
  | ifWord | nilWord | orWord | printWord | returnWord | superWord | thisWord | trueWord
  | varWord | whileWord
  deriving DecidableEq, Repr

namespace Keyword

def spelling : Keyword → String
  | andWord => "and"
  | breakWord => "break"
  | classWord => "class"
  | continueWord => "continue"
  | elseWord => "else"
  | falseWord => "false"
  | forWord => "for"
  | funWord => "fun"
  | ifWord => "if"
  | nilWord => "nil"
  | orWord => "or"
  | printWord => "print"
  | returnWord => "return"
  | superWord => "super"
  | thisWord => "this"
  | trueWord => "true"
  | varWord => "var"
  | whileWord => "while"

/-- All reserved words, in alphabetical order. -/
def all : List Keyword :=
  [andWord, breakWord, classWord, continueWord, elseWord, falseWord, forWord, funWord, ifWord,
    nilWord, orWord, printWord, returnWord, superWord, thisWord, trueWord, varWord, whileWord]

/-- The reserved word with a given spelling. -/
def ofSpelling? (name : String) : Option Keyword :=
  all.find? (·.spelling == name)

theorem mem_all (keyword : Keyword) : keyword ∈ all := by
  cases keyword <;> decide

theorem spelling_of_ofSpelling? {name : String} {keyword : Keyword}
    (found : ofSpelling? name = some keyword) : keyword.spelling = name := by
  simpa using List.find?_some found

end Keyword

/-- What a token is, apart from its spelling and its place. -/
inductive Kind where
  | mark (mark : Mark)
  | keyword (keyword : Keyword)
  | identifier
  | text
  | number
  /-- The end of the input, which every token sequence reaches. -/
  | finish
  deriving DecidableEq, Repr

/-- The kind of a word: a keyword if it is reserved, and a name otherwise. -/
def Kind.ofWord (name : String) : Kind :=
  match Keyword.ofSpelling? name with
  | some reserved => .keyword reserved
  | none => .identifier

end BlockScript
