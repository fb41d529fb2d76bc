/-
This file reads the commands of a script.

A script is read line by line, and each line is run before the next one is read; a line goes
on where a command that starts in it is not complete at its end. Words are read before
anything in them is replaced, so what a variable holds never changes how a script is
understood.
-/

import PomLens.BuildTool.Script.Source

namespace PomLens.Script

open Text (isLineBlank)
open Parse

/-! ### Words -/

/-- What surrounds a part of a word. -/
inductive Context
  | bare
  /-- Inside double quotes. -/
  | quoted
  /-- Behind the name of a parameter in braces, which may be in double quotes. -/
  | braces (inQuotes : Bool)
  /-- In a text that stands in the script. -/
  | here
  /-- In an arithmetic expression, inside so many parentheses. -/
  | arithmetic (depth : Nat)
  deriving DecidableEq

/-- Blanks do not separate words here, and single quotes are characters. -/
def Context.isQuoted : Context → Bool
  | .bare => false
  | .braces inQuotes => inQuotes
  | _ => true

/-- A character that ends a word. -/
def isDelimiter (char : Char) : Bool :=
  isLineBlank char || "\n;&|<>()".toList.contains char

/-- A character that is not simply a part of a word. -/
def Context.isSpecial (context : Context) (char : Char) : Bool :=
  let marks :=
    match context with
    | .bare => "\\'\"$`"
    | .quoted => "\\\"$`"
    | .braces false => "\\'\"$`\x7d"
    | .braces true => "\\\"$`\x7d"
    | .here => "\\$`"
    | .arithmetic _ => "\\\"$`()"
  marks.toList.contains char || (context == .bare && isDelimiter char)

/-- The characters that a backslash takes literally inside quotes. Elsewhere there it stands
for itself. -/
def Context.takesLiterally (context : Context) (char : Char) : Bool :=
  let marks :=
    match context with
    | .here => "$`\\"
    | .braces true => "$`\\\"\x7d"
    | _ => "$`\\\""
  !context.isQuoted || marks.toList.contains char

/-- Parameters whose names are single characters and that are not arguments. -/
def isSpecialName (char : Char) : Bool :=
  "#?@*$!-".toList.contains char

/-- Reads the name of a parameter, if there is one. The number of an argument has one digit,
or any number of them in braces. -/
def readName? (inBraces : Bool) : Parse (Option String) := do
  match ← rest with
  | [] => return none
  | char :: _ =>
    if isSpecialName char || (char.isDigit && !inBraces) then
      advance 1
      return some (String.singleton char)
    else if char.isDigit then return some (String.ofList (← takeWhile Char.isDigit))
    else
      let name ← takeWhile isNameChar
      return if name.isEmpty then none else some (String.ofList name)

/-- The text between backquotes and the length of what it was read from, the closing one
included. -/
def backquoted? (quoted : Bool) : Raw → Option (Raw × Nat)
  | [] => none
  | '`' :: _ => some ([], 1)
  | '\\' :: char :: rest =>
    let kept :=
      if char = '\\' || char = '`' || char = '$' || (quoted && char = '"') then [char]
      else ['\\', char]
    (backquoted? quoted rest).map fun (text, length) => (kept ++ text, length + 2)
  | char :: rest => (backquoted? quoted rest).map fun (text, length) => (char :: text, length + 1)

/-- A parameter that stands for all arguments, and nothing else. -/
def isAllArguments : Word → Bool
  | [.parameter _ "@" .value] => true
  | _ => false

/-- Some part of the word is in quotes. -/
def hasQuotes (word : Word) : Bool :=
  word.any fun
    | .text quoted _ => quoted
    | _ => false

/-- The characters of a word that are not replaced by anything. -/
def literalText (word : Word) : Raw :=
  word.flatMap fun
    | .text _ chars => chars
    | _ => []

/-- The parts of the value of a variable. A tilde at its start or behind a colon stands for
the home directory if a slash or the end of a path follows. -/
def valueParts (atStart isLast : Bool) (pending : Raw) : Raw → Word
  | [] => [.text false pending.reverse]
  | char :: rest =>
    let ends :=
      match rest with
      | [] => isLast
      | next :: _ => next == '/' || next == ':'
    if char = '~' && atStart && ends then
      [.text false pending.reverse, .home] ++ valueParts false isLast [] rest
    else valueParts (char == ':') isLast (char :: pending) rest

/-- The value of a variable in which tildes stand for the home directory. -/
def valueWord (atStart : Bool) : Word → Word
  | [] => []
  | .text false chars :: rest =>
    valueParts atStart rest.isEmpty [] chars ++ valueWord (chars.getLast? == some ':') rest
  | fragment :: rest => fragment :: valueWord false rest

/-- The setting that a word is, if it starts with the name of a variable and an equals sign. -/
def setting? : Word → Option Setting
  | .text false chars :: rest =>
    let name := chars.takeWhile isNameChar
    match chars.drop name.length with
    | '=' :: value =>
      if isName name then
        some (.mk (String.ofList name) (valueWord true (.text false value :: rest)))
      else none
    | _ => none
  | _ => none

/-! ### Commands

Everything below reads with a bound on the number of steps; some multiple of the length of
the script is enough. -/

mutual

/-- Reads the parts of a word up to where their context ends. -/
def readParts (fuel : Nat) (context : Context) : Parse Word := do
  match fuel with
  | 0 => complain "too deep"
  | fuel + 1 =>
    let text ← rest
    match text with
    | [] =>
      match context with
      | .bare | .here => return []
      | .quoted => complain "Unterminated quoted string"
      | .braces _ => complain "Missing '\x7d'"
      | .arithmetic _ => complain "Missing '))'"
    | '\\' :: '\n' :: _ =>
      advance 2
      readParts fuel context
    | ['\\'] =>
      advance 1
      return .text context.isQuoted ['\\'] :: (← readParts fuel context)
    | '\\' :: char :: _ =>
      if context.takesLiterally char then
        advance 2
        return .text true [char] :: (← readParts fuel context)
      else
        advance 1
        return .text true ['\\'] :: (← readParts fuel context)
    | '$' :: _ =>
      advance 1
      let value ← readExpansion fuel context.isQuoted
      return value :: (← readParts fuel context)
    | '`' :: after =>
      let some (script, length) := backquoted? context.isQuoted after
        | do
          advance text.length
          complain "EOF in backquote substitution"
      advance (length + 1)
      let commands ← readInner fuel script
      return .output context.isQuoted commands :: (← readParts fuel context)
    | char :: after =>
      if !context.isSpecial char then
        let run ← takeWhile fun char => !context.isSpecial char
        return .text context.isQuoted run :: (← readParts fuel context)
      else if context = .bare && isDelimiter char then return []
      else
        advance 1
        match context, char with
        | .quoted, '"' | .braces _, '\x7d' => return []
        | .arithmetic depth, '(' =>
          return .text true [char] :: (← readParts fuel (.arithmetic (depth + 1)))
        | .arithmetic (depth + 1), ')' =>
          return .text true [char] :: (← readParts fuel (.arithmetic depth))
        | .arithmetic 0, ')' =>
          if after.head? = some ')' then
            advance 1
            return []
          else return .text true [char] :: (← readParts fuel context)
        | .arithmetic _, _ => return .text true [char] :: (← readParts fuel context)
        | _, '\'' =>
          let inner := after.takeWhile (· != '\'')
          advance inner.length
          if (← rest).isEmpty then complain "Unterminated quoted string"
          advance 1
          return .text true inner :: (← readParts fuel context)
        | _, _ =>
          let inner ← readParts fuel .quoted
          let mark := if isAllArguments inner then [] else [.text true []]
          return mark ++ inner ++ (← readParts fuel context)

/-- Reads what is replaced by a value. The dollar sign has been read. -/
def readExpansion (fuel : Nat) (quoted : Bool) : Parse Fragment := do
  match fuel with
  | 0 => complain "too deep"
  | fuel + 1 =>
    if ← takeMark "((" then
      return .arithmetic quoted (← readParts fuel (.arithmetic 0))
    else if ← takeMark "(" then
      let commands ← readList fuel true
      let token ← nextToken fuel
      if token.sign? != some ")" then unexpected token true (some ")")
      return .output quoted commands
    else if ← takeMark "\x7b" then readParameter fuel quoted
    else
      match ← readName? false with
      | none => return .text quoted ['$']
      | some name => return .parameter quoted name .value

/-- Reads a parameter in braces. The opening brace has been read. -/
def readParameter (fuel : Nat) (quoted : Bool) : Parse Fragment := do
  match fuel with
  | 0 => complain "too deep"
  | fuel + 1 =>
    match ← rest with
    | '#' :: char :: after =>
      if isNameChar char then
        advance 1
        let name ← takeWhile isNameChar
        if ← takeMark "\x7d" then return .parameter quoted (String.ofList name) .length
        else undefinedUse fuel quoted
      else if after.head? = some '\x7d' && isSpecialName char then
        advance 3
        return .parameter quoted (String.singleton char) .length
      else
        advance 1
        readUse fuel quoted "#"
    | _ =>
      match ← readName? true with
      | none => undefinedUse fuel quoted
      | some name => readUse fuel quoted name

/-- Reads what is to be made of a parameter and the closing brace. -/
def readUse (fuel : Nat) (quoted : Bool) (name : String) : Parse Fragment := do
  match fuel with
  | 0 => complain "too deep"
  | fuel + 1 =>
    let emptyToo ← takeMark ":"
    let body : Parse Word := readParts fuel (.braces quoted)
    let removal (removal : Removal) : Parse Fragment := do
      return .parameter quoted name (.removal removal (← readParts fuel (.braces false)))
    if ← takeMark "-" then return .parameter quoted name (.fallback emptyToo (← body))
    else if ← takeMark "+" then return .parameter quoted name (.alternative emptyToo (← body))
    else if ← takeMark "=" then return .parameter quoted name (.assignment emptyToo (← body))
    else if ← takeMark "?" then return .parameter quoted name (.complaint emptyToo (← body))
    else if emptyToo then
      skip
      undefinedUse fuel quoted
    else if ← takeMark "\x7d" then return .parameter quoted name .value
    else if ← takeMark "##" then removal .longestStart
    else if ← takeMark "#" then removal .shortestStart
    else if ← takeMark "%%" then removal .longestEnd
    else if ← takeMark "%" then removal .shortestEnd
    else
      skip
      undefinedUse fuel quoted

/-- Reads the rest of a use of a parameter that is not defined. -/
def undefinedUse (fuel : Nat) (quoted : Bool) : Parse Fragment := do
  match fuel with
  | 0 => complain "too deep"
  | fuel + 1 =>
    let _ ← readParts fuel (.braces quoted)
    return .parameter quoted "" .undefined

/-- Reads the commands of a text of its own. -/
def readInner (fuel : Nat) (script : Raw) : Parse (List Command) := do
  match fuel with
  | 0 => complain "too deep"
  | fuel + 1 =>
    let outer ← get
    set { Source.start script with aliases := outer.aliases }
    let commands ← readList fuel true
    let token ← nextToken fuel
    match token with
    | .ending =>
      set outer
      return commands
    | _ => unexpected token true none

/-- Reads a token. -/
def nextToken (fuel : Nat) : Parse Token := do
  match fuel with
  | 0 => complain "too deep"
  | fuel + 1 =>
    match (← get).waiting with
    | some token =>
      modify fun source => { source with waiting := none }
      return token
    | none =>
      match ← rest with
      | [] => return .ending
      | '\\' :: '\n' :: _ =>
        advance 2
        nextToken fuel
      | '\n' :: _ =>
        advance 1
        return .newline
      | '#' :: _ =>
        let _ ← takeWhile (· != '\n')
        nextToken fuel
      | char :: after =>
        if isLineBlank char then
          let _ ← takeWhile isLineBlank
          nextToken fuel
        else if char = '>' || char = '<' then
          readRedirection fuel (if char = '>' then 1 else 0)
        else if char.isDigit && after.head?.any (fun next => next == '>' || next == '<') then
          advance 1
          readRedirection fuel (char.toNat - '0'.toNat)
        else if ";&|()".toList.contains char then
          advance 1
          if (char = ';' || char = '&' || char = '|') && after.head? = some char then
            advance 1
            return .mark (String.ofList [char, char])
          else return .mark (String.singleton char)
        else
          let line := (← get).line
          let parts ← readParts fuel .bare
          return .word line (withHome parts)
where
  /-- A tilde in front of a word stands for the home directory. -/
  withHome : Word → Word
    | .text false ('~' :: after) :: rest =>
      if after.head?.all (· == '/') && (rest.isEmpty || !after.isEmpty) then
        .home :: .text false after :: rest
      else .text false ('~' :: after) :: rest
    | parts => parts

/-- Reads a redirection from its angle bracket on. -/
def readRedirection (fuel : Nat) (channel : Nat) : Parse Token := do
  match fuel with
  | 0 => complain "too deep"
  | fuel + 1 =>
    let target : Parse Word := do
      match ← nextToken fuel with
      | .word _ parts => return parts
      | token => unexpected token false none
    let made (target : Target) : Token := .redirection (.mk channel target)
    if ← takeMark "<<" then
      let indented ← takeMark "-"
      let parts ← target
      let body ← takeHere indented (literalText parts)
      if hasQuotes parts then return made (.here [.text true body])
      else
        let outer ← get
        set (Source.start body)
        let content ← readParts fuel .here
        set outer
        return made (.here content)
    else if ← takeMark "<&" then return made (.copy (← target))
    else if ← takeMark "<>" then return made (.useFile (← target))
    else if ← takeMark "<" then return made (.readFile (← target))
    else if ← takeMark ">>" then return made (.writeFile true (← target))
    else if ← takeMark ">&" then return made (.copy (← target))
    else
      let _ ← takeMark ">|"
      let _ ← takeMark ">"
      return made (.writeFile false (← target))

/-- Reads the next token that is not the end of a line. -/
def nextSolid (fuel : Nat) : Parse Token := do
  match fuel with
  | 0 => complain "too deep"
  | fuel + 1 =>
    match ← nextToken fuel with
    | .newline => nextSolid fuel
    | token => return token

/-- Reads the next token where a command may start, with the text for which a name stands in its
place. With `solid`, ends of lines do not count. -/
def nextStart (fuel : Nat) (solid : Bool) : Parse Token := do
  match fuel with
  | 0 => complain "too deep"
  | fuel + 1 =>
    let token ← if solid then nextSolid fuel else nextToken fuel
    match token, token.sign? with
    | .word _ parts, none =>
      if ← replaceAlias parts then nextStart fuel solid else return token
    | _, _ => return token

/-- Reads a token that must be this keyword or operator. -/
def expectSign (fuel : Nat) (sign : String) : Parse Unit := do
  match fuel with
  | 0 => complain "too deep"
  | fuel + 1 =>
    let token ← nextSolid fuel
    if token.sign? != some sign then unexpected token true (some sign)

/-- Reads commands up to a token that ends the list inside another command, and puts that
token back. Only where `mayBeEmpty` is set may there be none. -/
def readList (fuel : Nat) (mayBeEmpty : Bool) : Parse (List Command) := do
  match fuel with
  | 0 => complain "too deep"
  | fuel + 1 =>
    let token ← nextStart fuel true
    putBack token
    match token, token.sign? with
    | .ending, _ => return []
    | _, sign =>
      if mayBeEmpty && sign.any closers.contains then return []
      else
        let command ← readDependent fuel
        match ← nextToken fuel with
        | .mark "&" => return .background 0 command :: (← readList fuel true)
        | .mark ";" | .newline => return command :: (← readList fuel true)
        | token =>
          putBack token
          return [command]

/-- Reads the commands of one line of a script, or none at the end of the text. -/
def readLine (fuel : Nat) : Parse (List Command) := do
  match fuel with
  | 0 => complain "too deep"
  | fuel + 1 =>
    match ← nextStart fuel false with
    | .newline => return []
    | .ending => return []
    | token =>
      putBack token
      let command ← readDependent fuel
      match ← nextToken fuel with
      | .mark "&" => return .background 0 command :: (← readLine fuel)
      | .mark ";" => return command :: (← readLine fuel)
      | .newline | .ending => return [command]
      | token => unexpected token true none

/-- Reads commands that depend on how those before them end. -/
def readDependent (fuel : Nat) : Parse Command := do
  match fuel with
  | 0 => complain "too deep"
  | fuel + 1 =>
    let first ← readPipeline fuel
    readSequels fuel first

/-- Reads the commands that depend on how `first` ends. -/
def readSequels (fuel : Nat) (first : Command) : Parse Command := do
  match fuel with
  | 0 => complain "too deep"
  | fuel + 1 =>
    let token ← nextToken fuel
    match token with
    | .mark "&&" | .mark "||" =>
      putBack (← nextStart fuel true)
      let second ← readPipeline fuel
      readSequels fuel (.sequel (token.sign? == some "&&") first second)
    | token =>
      putBack token
      return first

/-- Reads commands joined by pipes. -/
def readPipeline (fuel : Nat) : Parse Command := do
  match fuel with
  | 0 => complain "too deep"
  | fuel + 1 =>
    let token ← nextToken fuel
    let negated := token.sign? == some "!"
    if !negated then putBack token
    let first ← readCommand fuel
    let others ← readPiped fuel
    let command := if others.isEmpty then first else .pipeline (first :: others)
    return if negated then .negation command else command

/-- Reads the further commands of a pipeline, each behind its pipe. -/
def readPiped (fuel : Nat) : Parse (List Command) := do
  match fuel with
  | 0 => complain "too deep"
  | fuel + 1 =>
    match ← nextToken fuel with
    | .mark "|" =>
      putBack (← nextStart fuel true)
      let command ← readCommand fuel
      return command :: (← readPiped fuel)
    | token =>
      putBack token
      return []

/-- Reads one command. -/
def readCommand (fuel : Nat) : Parse Command := do
  match fuel with
  | 0 => complain "too deep"
  | fuel + 1 =>
    let token ← nextStart fuel false
    let line := (← get).line
    match token.sign?, token with
    | some "if", _ => readRedirected fuel line (← readCondition fuel)
    | some "while", _ => readRedirected fuel line (← readRepetition fuel true)
    | some "until", _ => readRedirected fuel line (← readRepetition fuel false)
    | some "for", _ => readRedirected fuel line (← readLoop fuel line)
    | some "case", _ =>
      let parts ←
        match ← nextToken fuel with
        | .word _ parts => pure parts
        | token => unexpected token false (some "word")
      expectSign fuel "in"
      let branches ← readBranches fuel
      readRedirected fuel line (.choice line parts branches)
    | some "(", _ =>
      let body ← readList fuel false
      expectSign fuel ")"
      readRedirected fuel line (.subshell line body)
    | some "\x7b", _ =>
      let body ← readList fuel false
      expectSign fuel "\x7d"
      readRedirected fuel line (.group body)
    | none, .word line _ =>
      putBack token
      readSimple fuel line true [] [] []
    | none, .redirection _ =>
      putBack token
      readSimple fuel line true [] [] []
    | _, _ => unexpected token true none

/-- Reads the redirections behind a command that consists of others. -/
def readRedirected (fuel : Nat) (line : Nat) (command : Command) : Parse Command := do
  match fuel with
  | 0 => complain "too deep"
  | fuel + 1 =>
    match ← readRedirections fuel with
    | [] => return command
    | redirections => return .redirected line command redirections

/-- Reads redirections. -/
def readRedirections (fuel : Nat) : Parse (List Redirection) := do
  match fuel with
  | 0 => complain "too deep"
  | fuel + 1 =>
    match ← nextToken fuel with
    | .redirection redirection => return redirection :: (← readRedirections fuel)
    | token =>
      putBack token
      return []

/-- Reads a condition. The word that opens it has been read. -/
def readCondition (fuel : Nat) : Parse Command := do
  match fuel with
  | 0 => complain "too deep"
  | fuel + 1 =>
    let test ← readList fuel false
    expectSign fuel "then"
    let yes ← readList fuel false
    let token ← nextSolid fuel
    match token.sign? with
    | some "elif" => return .condition test yes [← readCondition fuel]
    | some "else" =>
      let no ← readList fuel false
      expectSign fuel "fi"
      return .condition test yes no
    | some "fi" => return .condition test yes []
    | _ => unexpected token true (some "fi")

/-- Reads a repetition. The word that opens it has been read. -/
def readRepetition (fuel : Nat) (success : Bool) : Parse Command := do
  match fuel with
  | 0 => complain "too deep"
  | fuel + 1 =>
    let test ← readList fuel false
    expectSign fuel "do"
    let body ← readList fuel false
    expectSign fuel "done"
    return .repetition success test body

/-- Reads a loop over words. The word that opens it has been read. -/
def readLoop (fuel : Nat) (line : Nat) : Parse Command := do
  match fuel with
  | 0 => complain "too deep"
  | fuel + 1 =>
    let name ←
      match ← nextToken fuel with
      | .word _ parts =>
        match (plainText? parts).filter isName with
        | some name => pure (String.ofList name)
        | none => complain "Bad for loop variable"
      | _ => complain "Bad for loop variable"
    let token ← nextSolid fuel
    let words ←
      if token.sign? = some "in" then do
        let words ← readWords fuel
        match ← nextToken fuel with
        | .newline | .mark ";" => pure (some words)
        | token => unexpected token false none
      else do
        match token with
        | .mark ";" => pure none
        | _ =>
          putBack token
          pure none
    expectSign fuel "do"
    let body ← readList fuel false
    expectSign fuel "done"
    return .loop line name words body

/-- Reads words up to a token that is none. -/
def readWords (fuel : Nat) : Parse (List Word) := do
  match fuel with
  | 0 => complain "too deep"
  | fuel + 1 =>
    match ← nextToken fuel with
    | .word _ parts => return parts :: (← readWords fuel)
    | token =>
      putBack token
      return []

/-- Reads the branches of a choice and the word that ends it. -/
def readBranches (fuel : Nat) : Parse (List Branch) := do
  match fuel with
  | 0 => complain "too deep"
  | fuel + 1 =>
    let token ← nextSolid fuel
    if token.sign? = some "esac" then return []
    else
      if token.sign? != some "(" then putBack token
      let patterns ← readPatterns fuel
      let body ← readList fuel true
      let token ← nextSolid fuel
      match token.sign? with
      | some ";;" => return .mk patterns body :: (← readBranches fuel)
      | some "esac" => return [.mk patterns body]
      | _ => unexpected token true (some ";;")

/-- Reads the patterns of a branch and the parenthesis that ends them. -/
def readPatterns (fuel : Nat) : Parse (List Word) := do
  match fuel with
  | 0 => complain "too deep"
  | fuel + 1 =>
    match ← nextToken fuel with
    | .word _ parts =>
      let token ← nextToken fuel
      match token with
      | .mark "|" => return parts :: (← readPatterns fuel)
      | .mark ")" => return [parts]
      | _ => unexpected token false (some ")")
    | token => unexpected token false (some ")")

/-- Reads the settings, words and redirections of a simple command, or the definition of a
function. Once a word has come, nothing more sets a variable. What has been read is given
latest first. -/
def readSimple (fuel : Nat) (line : Nat) (settable : Bool) (settings : List Setting)
    (words : List Word) (redirections : List Redirection) : Parse Command := do
  match fuel with
  | 0 => complain "too deep"
  | fuel + 1 =>
    let before := (← rest).length
    match ← nextToken fuel with
    | .redirection redirection =>
      readSimple fuel line settable settings words (redirection :: redirections)
    | .word _ parts =>
      match if settable then setting? parts else none with
      | some setting => readSimple fuel line true (setting :: settings) words redirections
      | none =>
        let length := (← rest).length
        let isName := words.isEmpty || (← get).replaced.any fun outer =>
          outer.goesOn && length < outer.behind && outer.behind ≤ before
        let replaced ← if isName then replaceAlias parts else pure false
        if replaced then
          readSimple fuel line settable settings words redirections
        else readSimple fuel line false settings (parts :: words) redirections
    | token =>
      match token, words with
      | .mark "(", [name] =>
        if settings.isEmpty && redirections.isEmpty then
          let token ← nextToken fuel
          if token.sign? != some ")" then unexpected token false (some ")")
          let isFree (name : Raw) : Bool :=
            isName name && !specialNames.contains (String.ofList name)
          match (plainText? name).filter isFree with
          | none => complain "Bad function name"
          | some name =>
            putBack (← nextStart fuel true)
            return .definition line (String.ofList name) (← readCommand fuel)
        else unexpected token false none
      | _, _ =>
        putBack token
        return .simple line settings.reverse words.reverse redirections.reverse

end

/-- Reads the commands of the next line of a script. There is nothing more at the end. -/
def nextLine? (source : Source) : Except Complaint (Option (List Command × Source)) :=
  if source.text.isEmpty then return none
  else do
    let aliased := source.aliases.foldl (fun total (_, value) => total + value.length) 0
    let (commands, after) ← readLine ((8 + aliased) * (source.text.length + 2)) source
    return some (commands, { after with waiting := none })

end PomLens.Script
