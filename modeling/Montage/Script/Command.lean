import Montage.Script.Token

/-!
# Commands of a script

Simple commands are words with assignments in front and redirections anywhere. They are joined by
pipes, by conditions on their success and in sequence, and put together into choices, loops and
groups. A script is read as one command.

Scope. A command in the background is run like any other.
-/

set_option autoImplicit false
set_option relaxedAutoImplicit false

namespace Montage.Script

/-- How a file or channel is used. -/
inductive Access where
  /-- The file is read. -/
  | read
  /-- The target itself is read. -/
  | inline
  /-- The file is emptied and written. -/
  | write
  /-- The end of the file is written. -/
  | append
  /-- Another channel is used. -/
  | duplicate
deriving DecidableEq, Repr

/-- A redirection. -/
structure Redirection where
  /-- The number of the channel. -/
  channel : Nat
  /-- How the target is used. -/
  access : Access
  /-- The file, the number of a channel or the text. -/
  target : Word
deriving DecidableEq, Repr

/-- Whether a redirection replaces the input. -/
def Redirection.givesInput (redirection : Redirection) : Bool :=
  redirection.access == .read || redirection.access == .inline

/-- A command. -/
inductive Command where
  /-- Words, with assignments and redirections. -/
  | simple (line : Nat) (assignments : List (String × Word)) (words : List Word)
      (redirections : List Redirection)
  /-- A command whose channels are redirected. -/
  | redirected (body : Command) (redirections : List Redirection)
  /-- Commands that read what the one before them writes. -/
  | pipeline (stages : List Command)
  /-- A command that succeeds if its body fails. -/
  | negation (body : Command)
  /-- A second command if the first one succeeds, or if it does not. -/
  | andThen (onSuccess : Bool) (first second : Command)
  /-- One command after the other. -/
  | sequence (commands : List Command)
  /-- A command that leaves no trace in the variables. -/
  | subshell (body : Command)
  /-- A choice. -/
  | choice (condition onSuccess onFailure : Command)
  /-- A loop that goes on while its condition succeeds, or while it fails. -/
  | loop (onSuccess : Bool) (condition body : Command)
  /-- A loop over words, or over the arguments. -/
  | each (name : String) (words : Option (List Word)) (body : Command)
  /-- The first body with a pattern that matches a word. -/
  | cases (subject : Word) (arms : List (List Word × Command))
  /-- The definition of a command. -/
  | define (name : String) (body : Command)

/-- Takes a command off the front of tokens. -/
abbrev CommandReader := List Token → Option (Command × List Token)

/-- The text of a word without quotes, if it is the next token. -/
def keyword? : List Token → Option String
  | .word _ pieces :: _ => (plainText? pieces).map String.ofList
  | _ => none

/-- Takes a keyword off the front of tokens. -/
def expect (keyword : String) (tokens : List Token) : Option (List Token) :=
  if keyword? tokens = some keyword then some tokens.tail else none

/-- Tokens without line ends in front. -/
def skipLines (tokens : List Token) : List Token := tokens.dropWhile (· == .operator "\n")

/-- Tokens without separators of commands in front. -/
def skipSeparators (tokens : List Token) : List Token :=
  tokens.dropWhile fun token ↦ token ∈ [.operator "\n", .operator ";", .operator "&"]

/-- The keywords that end a sequence of commands. -/
def closingKeywords : List String :=
  ["then", "do", "done", "fi", "elif", "else", "esac", "\x7d"]

/-- Whether a sequence of commands ends in front of the tokens. -/
def atEnd (tokens : List Token) : Bool :=
  match tokens with
  | [] => true
  | .operator text :: _ => text == ")" || text == ";;"
  | _ => (keyword? tokens).any (· ∈ closingKeywords)

/-- The redirection of a token and the word after it. -/
def redirectionOf? (channel : Option Nat) (operator : String) (target : Word) :
    Option Redirection :=
  match operator with
  | "<" => some ⟨channel.getD 0, .read, target⟩
  | "<<" => some ⟨channel.getD 0, .inline, target⟩
  | "<&" => some ⟨channel.getD 0, .duplicate, target⟩
  | ">" | ">|" => some ⟨channel.getD 1, .write, target⟩
  | ">>" => some ⟨channel.getD 1, .append, target⟩
  | ">&" => some ⟨channel.getD 1, .duplicate, target⟩
  | _ => none

/-- Takes redirections off the front of tokens. -/
def readRedirections : List Token → Option (List Redirection × List Token)
  | .redirection channel operator :: .word _ target :: rest =>
    (redirectionOf? channel operator target).bind fun redirection ↦
      (readRedirections rest).map fun (more, rest) ↦ (redirection :: more, rest)
  | .redirection .. :: _ => none
  | tokens => some ([], tokens)

/-- The characters without quotes at the start of a word, and the pieces after them. -/
def splitPlain : Word → List Char × Word
  | .characters false text :: pieces =>
    let (more, rest) := splitPlain pieces
    (text ++ more, rest)
  | pieces => ([], pieces)

/-- The assignment that a word is. -/
def assignment? (word : Word) : Option (String × Word) :=
  let (plain, rest) := splitPlain word
  let name := plain.takeWhile (· != '=')
  match plain.dropWhile (· != '=') with
  | _ :: value =>
    if isName name then some (String.ofList name, .characters false value :: rest) else none
  | [] => none

/-- Reads a simple command. -/
def readSimple : List Token → Option (Command × List Token)
  | .redirection channel operator :: .word line target :: rest =>
    (redirectionOf? channel operator target).bind fun redirection ↦
      match readSimple rest with
      | some (.simple _ assignments words redirections, rest) =>
        some (.simple line assignments words (redirection :: redirections), rest)
      | _ => none
  | .redirection .. :: _ => none
  | .word line pieces :: rest =>
    match readSimple rest with
    | some (.simple _ assignments words redirections, rest) =>
      match assignment? pieces with
      | some assignment =>
        some (.simple line (assignment :: assignments) words redirections, rest)
      | none =>
        let early := assignments.map fun (name, value) ↦
          .characters false (name.toList ++ ['=']) :: value
        some (.simple line [] (pieces :: early ++ words) redirections, rest)
    | _ => none
  | tokens => some (.simple 0 [] [] [], tokens)

/-- Reads the words of a loop up to the end of the line. -/
def readWords : List Token → List Word × List Token
  | .word _ pieces :: rest =>
    let (words, rest) := readWords rest
    (pieces :: words, rest)
  | tokens => ([], tokens)

/-- Reads the patterns of an arm up to the closing parenthesis. -/
def readPatterns : List Token → Option (List Word × List Token)
  | .word _ pieces :: .operator "|" :: rest =>
    (readPatterns rest).map fun (patterns, rest) ↦ (pieces :: patterns, rest)
  | .word _ pieces :: .operator ")" :: rest => some ([pieces], rest)
  | _ => none

/-- Reads the arms of a choice by patterns up to its closing keyword, at most `fuel` of them. -/
def readArms (readList : CommandReader) :
    (fuel : Nat) → List Token → Option (List (List Word × Command) × List Token)
  | 0, _ => none
  | fuel + 1, tokens =>
    let tokens := skipLines tokens
    match expect "esac" tokens with
    | some rest => some ([], rest)
    | none => do
      let (patterns, rest) ← readPatterns (if tokens.head? = some (.operator "(") then tokens.tail
        else tokens)
      let (body, rest) ← readList rest
      let after := if rest.head? = some (.operator ";;") then rest.tail else rest
      let (arms, rest) ← readArms readList fuel after
      return ((patterns, body) :: arms, rest)

/-- Reads a choice after its first condition has begun, with at most `fuel` conditions. -/
def readChoice (readList : CommandReader) : (fuel : Nat) → CommandReader
  | 0, _ => none
  | fuel + 1, tokens => do
    let (condition, rest) ← readList tokens
    let (onSuccess, rest) ← readList (← expect "then" rest)
    match keyword? rest with
    | some "elif" =>
      let (onFailure, rest) ← readChoice readList fuel rest.tail
      return (.choice condition onSuccess onFailure, rest)
    | some "else" =>
      let (onFailure, rest) ← readList rest.tail
      return (.choice condition onSuccess onFailure, ← expect "fi" rest)
    | _ => return (.choice condition onSuccess (.sequence []), ← expect "fi" rest)

/-- Reads the body of a loop. -/
def readBody (readList : CommandReader) (tokens : List Token) :
    Option (Command × List Token) := do
  let (body, rest) ← readList (← expect "do" (skipSeparators tokens))
  return (body, ← expect "done" rest)

/-- Reads a command that begins with a keyword or a parenthesis, if there is one. -/
def readCompound? (readList : CommandReader) (tokens : List Token) :
    Option (Option (Command × List Token)) :=
  match tokens, keyword? tokens with
  | .operator "(" :: rest, _ => some do
    match ← readList rest with
    | (body, .operator ")" :: rest) => return (.subshell body, rest)
    | _ => none
  | _ :: rest, some "\x7b" => some do
    let (body, rest) ← readList rest
    return (body, ← expect "\x7d" rest)
  | _ :: rest, some "if" => some (readChoice readList (rest.length + 1) rest)
  | _ :: rest, some "while" => some do
    let (condition, rest) ← readList rest
    let (body, rest) ← readBody readList rest
    return (.loop true condition body, rest)
  | _ :: rest, some "until" => some do
    let (condition, rest) ← readList rest
    let (body, rest) ← readBody readList rest
    return (.loop false condition body, rest)
  | _ :: name :: rest, some "for" => some do
    let name ← keyword? [name]
    match expect "in" (skipLines rest) with
    | some rest =>
      let (words, rest) := readWords rest
      let (body, rest) ← readBody readList rest
      return (.each name (some words) body, rest)
    | none =>
      let (body, rest) ← readBody readList rest
      return (.each name none body, rest)
  | _ :: .word _ subject :: rest, some "case" => some do
    let rest ← expect "in" (skipLines rest)
    let (arms, rest) ← readArms readList (rest.length + 1) rest
    return (.cases subject arms, rest)
  | _, _ => none

/-- Reads one command with its redirections, or the definition of one. -/
def readCommand (readList : CommandReader) : (fuel : Nat) → CommandReader
  | 0, _ => none
  | fuel + 1, tokens =>
    match readCompound? readList tokens with
    | some read => do
      let (body, rest) ← read
      let (redirections, rest) ← readRedirections rest
      return (if redirections = [] then body else .redirected body redirections, rest)
    | none =>
      match tokens with
      | name :: .operator "(" :: .operator ")" :: rest => do
        let name ← keyword? [name]
        let (body, rest) ← readCommand readList fuel (skipLines rest)
        return (.define name body, rest)
      | _ =>
        match readSimple tokens with
        | some (.simple _ [] [] [], _) => none
        | other => other

/-- Reads commands joined by pipes, at most `fuel` of them. -/
def readStages (readList : CommandReader) :
    (fuel : Nat) → List Token → Option (List Command × List Token)
  | 0, _ => none
  | fuel + 1, tokens => do
    match ← readCommand readList (tokens.length + 1) tokens with
    | (command, .operator "|" :: rest) =>
      let (commands, rest) ← readStages readList fuel (skipLines rest)
      return (command :: commands, rest)
    | (command, rest) => return ([command], rest)

/-- Reads a pipeline, which may be negated. -/
def readPipeline (readList : CommandReader) (tokens : List Token) :
    Option (Command × List Token) := do
  let negated := keyword? tokens = some "!"
  let (stages, rest) ← readStages readList (tokens.length + 1)
    (if negated then tokens.tail else tokens)
  let pipeline := match stages with
    | [stage] => stage
    | stages => .pipeline stages
  return (if negated then .negation pipeline else pipeline, rest)

/-- Reads what follows a command that others may depend on, at most `fuel` others. -/
def readConditions (readList : CommandReader) (first : Command) :
    (fuel : Nat) → CommandReader
  | 0, _ => none
  | fuel + 1, tokens =>
    match tokens with
    | .operator "&&" :: rest => do
      let (second, rest) ← readPipeline readList (skipLines rest)
      readConditions readList (.andThen true first second) fuel rest
    | .operator "||" :: rest => do
      let (second, rest) ← readPipeline readList (skipLines rest)
      readConditions readList (.andThen false first second) fuel rest
    | rest => some (first, rest)

/-- Reads a sequence of commands, given how to read those inside them, at most `fuel` of them. -/
def readSequence (readList : CommandReader) :
    (fuel : Nat) → List Token → Option (List Command × List Token)
  | 0, _ => none
  | fuel + 1, tokens =>
    let tokens := skipSeparators tokens
    if atEnd tokens then some ([], tokens)
    else do
      let (first, rest) ← readPipeline readList tokens
      let (command, rest) ← readConditions readList first (rest.length + 1) rest
      if rest ≠ [] ∧ !atEnd rest ∧ skipSeparators rest = rest then none
      let (commands, rest) ← readSequence readList fuel rest
      return (command :: commands, rest)

/-- Reads a sequence of commands, which hold others at most `depth` deep. -/
def readList : (depth : Nat) → CommandReader
  | 0, _ => none
  | depth + 1, tokens =>
    (readSequence (readList depth) (tokens.length + 1) tokens).map fun (commands, rest) ↦
      (.sequence commands, rest)

/-- Reads a script. -/
def Command.ofText? (text : List Char) : Option Command :=
  (tokensOf? text).bind fun tokens ↦
    match readList (tokens.length + 1) tokens with
    | some (command, []) => some command
    | _ => none

end Montage.Script
