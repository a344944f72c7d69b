import ShaderModules.Shell.Token

/-!
# Shell scripts

The commands of a script as a tree: simple commands and what they are composed of.

* `Script`: commands.
* `Script.ofTokens?`: the script that tokens spell, if they spell one.
-/

namespace ShaderModules.Shell

/-- Where a stream is redirected. -/
structure Redirect where
  stream : Nat
  text : String
  target : Word
  deriving DecidableEq, Repr

/-- Commands. -/
inductive Script where
  /-- Does nothing. -/
  | nothing
  /-- A program with its arguments; words in front may set variables. -/
  | simple (words : List Word) (redirects : List Redirect)
  /-- The second reads what the first writes. -/
  | pipe (first second : Script)
  /-- The second runs if the first succeeds. -/
  | both (first second : Script)
  /-- The second runs if the first fails. -/
  | either (first second : Script)
  | sequence (first second : Script)
  | negation (body : Script)
  | redirected (body : Script) (redirects : List Redirect)
  /-- Runs apart: changes of variables and of the directory stay inside. -/
  | apart (body : Script)
  /-- Runs once for each field of the words, or for each argument. -/
  | each (name : String) (words : Option (List Word)) (body : Script)
  | branch (test yes no : Script)
  /-- Runs again as long as the test succeeds, or fails if `negated`. -/
  | loop (negated : Bool) (test body : Script)
  deriving Repr

/-- The text of a word that is written without quotation marks and parameters. -/
def bareText? : Token → Option String
  | .word [.literal text false] => some (String.ofList text)
  | _ => none

/-- The words that separate the parts of compound commands. -/
def separators : List String := ["then", "else", "elif", "fi", "do", "done", "\x7d"]

/-- Drops line feeds. -/
def skipLines : List Token → List Token
  | .control "\n" :: rest => skipLines rest
  | rest => rest

/-- Drops a token that is the word `text`. -/
def expectWord? (text : String) : List Token → Option (List Token)
  | t :: rest => if bareText? t = some text then some rest else none
  | [] => none

/-- Drops a token that ends a command. -/
def expectEnd? : List Token → Option (List Token)
  | .control ";" :: rest => some rest
  | .control "\n" :: rest => some rest
  | _ => none

/-- Words and redirections up to the next control operator. -/
def readSimple (words : List Word) (redirects : List Redirect) :
    List Token → Option (Script × List Token)
  | .word w :: rest => readSimple (w :: words) redirects rest
  | .redirect n text :: .word w :: rest => readSimple words (⟨n, text, w⟩ :: redirects) rest
  | .redirect _ _ :: _ => none
  | rest =>
    if words.isEmpty && redirects.isEmpty then none
    else some (.simple words.reverse redirects.reverse, rest)

/-- Redirections behind a compound command. -/
def readRedirects (redirects : List Redirect) : List Token → List Redirect × List Token
  | .redirect n text :: .word w :: rest => readRedirects (⟨n, text, w⟩ :: redirects) rest
  | rest => (redirects.reverse, rest)

/-- A compound command with the redirections behind it. -/
def withRedirects (body : Script) (rest : List Token) : Script × List Token :=
  match readRedirects [] rest with
  | ([], rest) => (body, rest)
  | (redirects, rest) => (.redirected body redirects, rest)

/-- Words up to the end of a command. -/
def readWords (words : List Word) : List Token → List Word × List Token
  | .word w :: rest => readWords (w :: words) rest
  | rest => (words.reverse, rest)

/-- Puts a pipeline in front of pipelines joined by conditions, which join from the left. -/
def Script.joinBefore (join : Script → Script → Script) (first : Script) : Script → Script
  | .both a b => .both (joinBefore join first a) b
  | .either a b => .either (joinBefore join first a) b
  | s => join first s

/-- The levels of the grammar. -/
inductive Level where
  /-- Commands that follow each other. -/
  | sequence
  /-- Pipelines joined by conditions. -/
  | conditional
  | pipeline
  | command
  /-- What follows the word `if`. -/
  | branch
  deriving DecidableEq, Repr

/-- Whether a list of commands ends here. -/
def endsSequence : List Token → Bool
  | [] => true
  | .control ")" :: _ => true
  | t :: _ => (bareText? t).any separators.contains

/-- Reads a script at a level of the grammar; `fuel` bounds the depth of the reading. -/
def readScript (fuel : Nat) (level : Level) (s : List Token) : Option (Script × List Token) :=
  match fuel with
  | 0 => none
  | fuel + 1 =>
    match level with
    | .sequence => do
      let s := skipLines s
      if endsSequence s then return (.nothing, s)
      let (first, rest) ← readScript fuel .conditional s
      match expectEnd? rest with
      | some rest =>
        let (second, rest) ← readScript fuel .sequence rest
        return (if second matches .nothing then first else .sequence first second, rest)
      | none => return (first, rest)
    | .conditional => do
      let (first, rest) ← readScript fuel .pipeline s
      match rest with
      | .control "&&" :: rest =>
        let (second, rest) ← readScript fuel .conditional (skipLines rest)
        return (Script.joinBefore .both first second, rest)
      | .control "||" :: rest =>
        let (second, rest) ← readScript fuel .conditional (skipLines rest)
        return (Script.joinBefore .either first second, rest)
      | rest => return (first, rest)
    | .pipeline => do
      match expectWord? "!" s with
      | some s =>
        let (body, rest) ← readScript fuel .pipeline s
        return (.negation body, rest)
      | none =>
        let (first, rest) ← readScript fuel .command s
        match rest with
        | .control "|" :: rest =>
          let (second, rest) ← readScript fuel .pipeline (skipLines rest)
          return (.pipe first second, rest)
        | rest => return (first, rest)
    | .command =>
      match s with
      | .control "(" :: rest => do
        let (body, rest) ← readScript fuel .sequence rest
        match rest with
        | .control ")" :: rest => return withRedirects (.apart body) rest
        | _ => none
      | t :: rest =>
        match bareText? t with
        | some "\x7b" => do
          let (body, rest) ← readScript fuel .sequence rest
          let (redirects, rest) := readRedirects [] (← expectWord? "\x7d" rest)
          return (.redirected body redirects, rest)
        | some "if" => do
          let (body, rest) ← readScript fuel .branch rest
          return withRedirects body rest
        | some "while" => do
          let (test, rest) ← readScript fuel .sequence rest
          let (body, rest) ← readScript fuel .sequence (← expectWord? "do" rest)
          return withRedirects (.loop false test body) (← expectWord? "done" rest)
        | some "until" => do
          let (test, rest) ← readScript fuel .sequence rest
          let (body, rest) ← readScript fuel .sequence (← expectWord? "do" rest)
          return withRedirects (.loop true test body) (← expectWord? "done" rest)
        | some "for" =>
          match rest with
          | .word [.literal name false] :: rest => do
            let (words, rest) := match expectWord? "in" rest with
              | some rest => let (words, rest) := readWords [] rest; (some words, rest)
              | none => (none, rest)
            let rest := skipLines ((expectEnd? rest).getD rest)
            let (body, rest) ← readScript fuel .sequence (← expectWord? "do" rest)
            return withRedirects (.each (String.ofList name) words body)
              (← expectWord? "done" rest)
          | _ => none
        | some text => if separators.contains text then none else readSimple [] [] s
        | none => readSimple [] [] s
      | [] => none
    | .branch => do
      let (test, rest) ← readScript fuel .sequence s
      let (yes, rest) ← readScript fuel .sequence (← expectWord? "then" rest)
      match expectWord? "fi" rest, expectWord? "else" rest, expectWord? "elif" rest with
      | some rest, _, _ => return (.branch test yes .nothing, rest)
      | none, some rest, _ =>
        let (no, rest) ← readScript fuel .sequence rest
        return (.branch test yes no, ← expectWord? "fi" rest)
      | none, none, some rest =>
        let (no, rest) ← readScript fuel .branch rest
        return (.branch test yes no, rest)
      | none, none, none => none

/-- The script that tokens spell. Every token takes the reading at most four levels deeper. -/
def Script.ofTokens? (s : List Token) : Option Script :=
  match readScript (5 * s.length + 5) .sequence s with
  | some (script, []) => some script
  | _ => none

end ShaderModules.Shell
