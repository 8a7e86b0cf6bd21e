/-!
# What a script is made of

A script is a list of commands. A command is made of words, and a word of parts: characters, which
may be quoted, parameters whose values are inserted, scripts whose output is inserted, and
arithmetic. All text is kept byte by byte.
-/

namespace ShaderVariants.Script

/-- What is inserted for a parameter. -/
inductive Form where
  /-- Its value. -/
  | value
  /-- The length of its value. -/
  | length
  /-- Its value without a start that matches. -/
  | cutFront (longest : Bool)
  /-- Its value without an end that matches. -/
  | cutBack (longest : Bool)
  /-- Another word if it has no value, or an empty one where that counts too. -/
  | orElse (emptyToo : Bool)
  /-- The same, and the word becomes its value. -/
  | assign (emptyToo : Bool)
  /-- Its value, and the script ends with the word as a message if there is none. -/
  | demand (emptyToo : Bool)
  /-- Another word if it has a value, and one that is not empty where that counts too. -/
  | ifSet (emptyToo : Bool)
  /-- Nothing that is known. -/
  | unknown
deriving DecidableEq

/-- How a descriptor is redirected. -/
inductive Direction where
  | input
  /-- To a new or an emptied file; where files are protected, only if `clobber` holds. -/
  | output (clobber : Bool)
  | append
  | inputOutput
  /-- To what another descriptor is directed to. -/
  | join
  /-- From a text in the script, by its number. -/
  | document (id : Nat)
deriving DecidableEq

mutual

/-- A part of a word. -/
inductive Part where
  | plain (c : Char) (quoted : Bool)
  /-- A pair of quotes, with or without something between them. -/
  | quotes
  | parameter (name : String) (form : Form) (argument : List Part) (quoted : Bool)
  /-- The output of a script. -/
  | output (body : List Command) (quoted : Bool)
  | arithmetic (expression : List Part) (quoted : Bool)

/-- A redirection of a descriptor. -/
inductive Redirect where
  | mk (descriptor : Nat) (direction : Direction) (target : List Part)

/-- A command. -/
inductive Command where
  /-- Settings of variables, a name with arguments, and redirections. -/
  | simple (line : Nat) (settings : List (String × List Part)) (words : List (List Part))
      (redirects : List Redirect)
  /-- Each command reads what the one before it prints. -/
  | pipe (stages : List Command)
  /-- The script goes on without waiting for the command. -/
  | background (body : Command)
  /-- The second command runs if the first one succeeds, or if it fails. -/
  | follow (onSuccess : Bool) (first next : Command)
  | negate (body : Command)
  | inTurn (commands : List Command)
  /-- The command changes nothing around it. -/
  | subshell (line : Nat) (body : Command) (redirects : List Redirect)
  | redirected (line : Nat) (body : Command) (redirects : List Redirect)
  | cond (condition thenBody elseBody : Command)
  | loop (untilTrue : Bool) (condition body : Command)
  /-- Without words, the arguments are meant. -/
  | forEach (line : Nat) (name : String) (words : Option (List (List Part))) (body : Command)
  | choice (line : Nat) (subject : List Part) (arms : List (List (List Part) × Command))
  | define (line : Nat) (name : String) (body : Command)

end

/-- A word. -/
abbrev Word := List Part

namespace Part

/-- The character that a part is, if it is one without quotes. -/
def bare? : Part → Option Char
  | plain c false => some c
  | _ => none

/-- The character that a part is. -/
def char? : Part → Option Char
  | plain c _ => some c
  | _ => none

end Part

namespace Word

/-- The text of a word without quotes and insertions. -/
def bare? (w : Word) : Option String :=
  (w.mapM Part.bare?).map String.ofList

/-- The characters of a word, without what is inserted. -/
def chars (w : Word) : String :=
  String.ofList (w.filterMap Part.char?)

/-- A text in quotes. -/
def ofText (s : String) : Word :=
  .quotes :: s.toList.map (Part.plain · true)

end Word

/-- A character that a name may start with. -/
def isNameStart (c : Char) : Bool :=
  c.isAlpha || c = '_'

/-- A character of a name. -/
def isNameChar (c : Char) : Bool :=
  c.isAlphanum || c = '_'

/-- The text is a name. -/
def isName (s : String) : Bool :=
  match s.toList with
  | c :: cs => isNameStart c && cs.all isNameChar
  | [] => false

namespace Word

/-- The name and the value of a word that sets a variable. -/
def setting? (w : Word) : Option (String × Word) :=
  let name := w.takeWhile fun p => (p.bare?.map isNameChar).getD false
  match name, w.drop name.length with
  | first :: _, .plain '=' false :: value =>
    if (first.bare?.map isNameStart).getD false then some (chars name, value) else none
  | _, _ => none

end Word

end ShaderVariants.Script
