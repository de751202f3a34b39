/-
# Shell words

Quoting a text so that a shell reads it as one word, and splitting a command line into words by
the shell's rules for blanks, quotes, backslashes and comments. Nothing is expanded.
-/

namespace Fleet.Text.ShellWord

/-- The characters that make a word need quotes. -/
def isSpecial (c : Char) : Bool :=
  "|&;<>()$`\\\"' \t\n*?[#~=%".toList.contains c

/-- A word between single quotes, each single quote in it written outside them. -/
def quoteChars : List Char → List Char
  | [] => []
  | '\'' :: rest => '\'' :: '\\' :: '\'' :: '\'' :: quoteChars rest
  | c :: rest => c :: quoteChars rest

/-- The text that a shell reads as one word: as it stands where it has no special character, else
between single quotes. -/
def quote (cs : List Char) : List Char :=
  if cs.isEmpty || cs.any isSpecial then '\'' :: (quoteChars cs ++ ['\'']) else cs

/-- Where the splitter stands. -/
inductive State where
  /-- Between words. -/
  | between
  /-- After a backslash that starts a word. -/
  | betweenEscape
  /-- In a word, outside quotes. -/
  | plain
  /-- After a backslash in a word. -/
  | plainEscape
  /-- Between single quotes. -/
  | single
  /-- Between double quotes. -/
  | double
  /-- After a backslash between double quotes. -/
  | doubleEscape
  /-- In a comment. -/
  | comment
  deriving DecidableEq, Repr

/-- Characters that end a word outside quotes. -/
def isGap (c : Char) : Bool := c == ' ' || c == '\t' || c == '\n'

/-- Characters that a backslash escapes between double quotes. -/
def isDoubleEscaped (c : Char) : Bool := c == '$' || c == '\x60' || c == '"' || c == '\\'

/-- Split what is left of a command line. `word` is the word so far, last character first. A quote
that is never closed gives `none`. -/
def splitFrom : State → (word : List Char) → List Char → Option (List (List Char))
  | .between, _, [] | .comment, _, [] => some []
  | .betweenEscape, word, [] | .plainEscape, word, [] => some [('\\' :: word).reverse]
  | .plain, word, [] => some [word.reverse]
  | .single, _, [] | .double, _, [] | .doubleEscape, _, [] => none
  | .between, word, c :: rest =>
    if c == '\'' then splitFrom .single word rest
    else if c == '"' then splitFrom .double word rest
    else if c == '\\' then splitFrom .betweenEscape word rest
    else if isGap c then splitFrom .between word rest
    else if c == '#' then splitFrom .comment word rest
    else splitFrom .plain (c :: word) rest
  | .betweenEscape, word, c :: rest =>
    if c == '\n' then splitFrom .between word rest else splitFrom .plain (c :: word) rest
  | .plain, word, c :: rest =>
    if c == '\'' then splitFrom .single word rest
    else if c == '"' then splitFrom .double word rest
    else if c == '\\' then splitFrom .plainEscape word rest
    else if isGap c then (splitFrom .between [] rest).map (word.reverse :: ·)
    else splitFrom .plain (c :: word) rest
  | .plainEscape, word, c :: rest =>
    if c == '\n' then splitFrom .plain word rest else splitFrom .plain (c :: word) rest
  | .single, word, c :: rest =>
    if c == '\'' then splitFrom .plain word rest else splitFrom .single (c :: word) rest
  | .double, word, c :: rest =>
    if c == '"' then splitFrom .plain word rest
    else if c == '\\' then splitFrom .doubleEscape word rest
    else splitFrom .double (c :: word) rest
  | .doubleEscape, word, c :: rest =>
    if c == '\n' then splitFrom .double word rest
    else if isDoubleEscaped c then splitFrom .double (c :: word) rest
    else splitFrom .double (c :: '\\' :: word) rest
  | .comment, word, c :: rest =>
    if c == '\n' then splitFrom .between word rest else splitFrom .comment word rest

/-- The words of a command line; `none` where a quote is not closed. -/
def split? (cs : List Char) : Option (List (List Char)) := splitFrom .between [] cs

/-- `quote` on strings. -/
def quoted (s : String) : String := String.ofList (quote s.toList)

/-- `split?` on strings. -/
def words? (s : String) : Option (List String) := (split? s.toList).map (·.map String.ofList)

end Fleet.Text.ShellWord
