/-
This file reads programs for records.

The text is first divided into words. A slash starts a regular expression wherever no value
stands in front of it. A line break ends a statement, except behind words that cannot end
one.
-/

import PomLens.BuildTool.Script.Utility.Records.Value

namespace PomLens.Script.Records

/-! ### Words -/

inductive Word
  | number (value : Float) (written : Raw)
  | text (value : Raw)
  | pattern (text : Raw)
  | name (name : String)
  /-- A name with a parenthesis right behind it. -/
  | function (name : String)
  | sign (sign : String)
  | lineEnd
  deriving Repr

/-- A word with its line. -/
abbrev Placed := Word × Nat

/-- Why a program cannot be read: the complaint, its start apart. -/
structure Fault where
  line : Nat
  reason : String
  /-- The reason is a character that no word has. -/
  isCharacter : Bool
  deriving DecidableEq, Repr

def Fault.message (fault : Fault) : String :=
  if fault.isCharacter then s!"{fault.line}: {fault.reason}" else s!"line {fault.line}: {fault.reason}"

/-- Signs, those first that others start with. -/
def signs : List String :=
  ["&&", "||", "++", "--", "+=", "-=", "*=", "/=", "%=", "^=", "==", "<=", ">=", "!=", ">>", "\x7b",
    "\x7d", "(", ")", "[", "]", ";", ",", "+", "-", "*", "%", "^", "!", ">", "<", "|", "?", ":",
    "~", "$", "=", "/"]

/-- The words that have a meaning of their own. -/
def keywords : List String :=
  ["BEGIN", "END", "function", "func", "if", "else", "while", "for", "do", "break", "continue",
    "next", "exit", "return", "delete", "in", "getline", "print", "printf"]

/-- A value ends with the word, so that a slash behind it divides. -/
def Word.endsValue : Word → Bool
  | .number .. | .text _ | .pattern _ => true
  | .name word => !keywords.contains word
  | .sign mark => [")", "]", "$", "++", "--"].contains mark
  | _ => false

/-- The rest of a text in quotes, and what follows it. -/
def quotedRest? : Raw → Option (Raw × Raw)
  | [] | '\n' :: _ => none
  | '"' :: rest => some ([], rest)
  | '\\' :: char :: rest =>
    let kept : Raw :=
      match char with
      | 'n' => ['\n']
      | 't' => ['\t']
      | 'r' => ['\r']
      | '\\' => ['\\']
      | '"' => ['"']
      | 'a' => ['\x07']
      | 'b' => ['\x08']
      | 'f' => ['\x0c']
      | 'v' => ['\x0b']
      | '\n' => []
      | other => ['\\', other]
    (quotedRest? rest).map fun (text, after) => (kept ++ text, after)
  | char :: rest => (quotedRest? rest).map fun (text, after) => (char :: text, after)

/-- The rest of a regular expression, and what follows it. -/
def patternRest? : Raw → Option (Raw × Raw)
  | [] | '\n' :: _ => none
  | '/' :: rest => some ([], rest)
  | '\\' :: '/' :: rest => (patternRest? rest).map fun (text, after) => ('/' :: text, after)
  | '\\' :: char :: rest =>
    (patternRest? rest).map fun (text, after) => ('\\' :: char :: text, after)
  | char :: rest => (patternRest? rest).map fun (text, after) => (char :: text, after)

def restOfLine (text : Raw) : String :=
  String.ofList (text.takeWhile (· != '\n'))

/-- Divides a text into words. `fuel` bounds their number. -/
def divide (fuel line : Nat) (last : Word) (text : Raw) : Except Fault (List Placed) :=
  match fuel, text with
  | 0, _ | _, [] => return []
  | fuel + 1, '\n' :: rest => do return (.lineEnd, line) :: (← divide fuel (line + 1) .lineEnd rest)
  | fuel + 1, '\\' :: '\n' :: rest => divide fuel (line + 1) last rest
  | fuel + 1, '#' :: rest => divide fuel line last (rest.dropWhile (· != '\n'))
  | fuel + 1, '"' :: rest =>
    match quotedRest? rest with
    | none => throw ⟨line, s!"runaway string constant \"{restOfLine rest} ...", false⟩
    | some (value, rest) => do
      return (.text value, line) :: (← divide fuel line (.text value) rest)
  | fuel + 1, char :: rest =>
    if isSpace char then divide fuel line last rest
    else if char.isDigit || (char == '.' && rest.head?.any Char.isDigit) then do
      let (value, after) := leading text
      let word := Word.number value (text.take (text.length - after.length))
      return (word, line) :: (← divide fuel line word after)
    else if isNameChar char then do
      let name := text.takeWhile isNameChar
      let after := text.drop name.length
      let name := String.ofList name
      let word := if after.head? == some '(' && !keywords.contains name then Word.function name
        else Word.name name
      return (word, line) :: (← divide fuel line word after)
    else if char == '/' && !last.endsValue then
      match patternRest? rest with
      | none =>
        throw ⟨line, s!"runaway regular expression /{restOfLine rest} ...", false⟩
      | some (value, rest) => do
        return (.pattern value, line) :: (← divide fuel line (.pattern value) rest)
    else
      match signs.find? fun sign => sign.toList.isPrefixOf text with
      | some sign => do
        let word := Word.sign sign
        return (word, line) :: (← divide fuel line word (text.drop sign.length))
      | none => throw ⟨line, s!"unexpected character '{char}'", true⟩

/-! ### Reading -/

abbrev Read := StateT (List Placed) (Except Fault)

def Word.shown : Word → String
  | .number _ written => String.ofList written
  | .text value => "\"" ++ String.ofList value ++ "\""
  | .pattern body => "/" ++ String.ofList body ++ "/"
  | .name word | .function word => word
  | .sign mark => mark
  | .lineEnd => "end of line"

/-- Complains about the next word. -/
def unexpected {α : Type} : Read α := do
  match ← get with
  | [] => throw ⟨1, "syntax error at or near end of line", false⟩
  | (word, line) :: _ => throw ⟨line, s!"syntax error at or near {word.shown}", false⟩

def nextIs (sign : String) : Read Bool := do
  match ← get with
  | (.sign other, _) :: _ => return other == sign
  | (.name name, _) :: _ => return name == sign
  | _ => return false

def advance : Read Unit :=
  modify List.tail

/-- Takes a sign or a word if it comes next. -/
def take (sign : String) : Read Bool := do
  if ← nextIs sign then
    advance
    return true
  else return false

def expect (sign : String) : Read Unit := do
  if !(← take sign) then unexpected

/-- Passes over line ends. -/
def skipLineEnds : Read Unit :=
  modify fun words => words.dropWhile fun (word, _) =>
    match word with
    | .lineEnd => true
    | _ => false

/-- Passes over line ends and semicolons. -/
def skipEnds : Read Unit :=
  modify fun words => words.dropWhile fun (word, _) =>
    match word with
    | .lineEnd | .sign ";" => true
    | _ => false

/-- What can be assigned to. -/
def Expr.isTarget : Expr → Bool
  | .named _ | .field _ | .item .. => true
  | _ => false

/-- The relation that a sign stands for. -/
def relation? (sign : String) : Option Relation :=
  [("<", .less), ("<=", .atMost), ("==", .equal), ("!=", .unequal), (">", .greater),
    (">=", .atLeast)].lookup sign

/-- The operation of a sign that assigns what comes of it. -/
def updating? (sign : String) : Option Operation :=
  [("+=", .plus), ("-=", .minus), ("*=", .times), ("/=", .divided), ("%=", .remainder),
    ("^=", .power)].lookup sign

/-- Where an expression stands: some signs then have another meaning. -/
structure Position where
  /-- A greater-than sign or a bar says where something is written to. -/
  printed : Bool

/-- The word can start a value that is joined to the one in front of it. -/
def Word.startsValue : Word → Bool
  | .number .. | .text _ | .pattern _ | .function _ => true
  | .name word => !keywords.contains word
  | .sign mark => ["$", "!", "(", "-", "+", "++", "--"].contains mark
  | .lineEnd => false

/-- The word starts a value behind another one, where signs would calculate. -/
def Word.joins : Word → Bool
  | .sign mark => ["$", "(", "++", "--"].contains mark
  | .pattern _ => false
  | word => word.startsValue

mutual

/-- Reads an expression: an assignment or a choice. -/
def readExpr (fuel : Nat) (position : Position) : Read Expr := do
  match fuel with
  | 0 => unexpected
  | fuel + 1 =>
    let first ← readEither fuel position
    if first.isTarget then
      match ← get with
      | (.sign "=", _) :: _ =>
        advance
        return .assign first (← readExpr fuel position)
      | (.sign sign, _) :: _ =>
        match updating? sign with
        | some operation =>
          advance
          return .update operation first (← readExpr fuel position)
        | none => readChoice fuel position first
      | _ => return first
    else readChoice fuel position first

/-- Reads the two sides of a choice behind its test. -/
def readChoice (fuel : Nat) (position : Position) (test : Expr) : Read Expr := do
  match fuel with
  | 0 => unexpected
  | fuel + 1 =>
    if ← take "?" then
      skipLineEnds
      let yes ← readExpr fuel position
      skipLineEnds
      expect ":"
      skipLineEnds
      return .choice test yes (← readExpr fuel position)
    else return test

def readEither (fuel : Nat) (position : Position) : Read Expr := do
  match fuel with
  | 0 => unexpected
  | fuel + 1 =>
    let first ← readBoth fuel position
    if ← take "||" then
      skipLineEnds
      return .either first (← readEither fuel position)
    else return first

def readBoth (fuel : Nat) (position : Position) : Read Expr := do
  match fuel with
  | 0 => unexpected
  | fuel + 1 =>
    let first ← readContains fuel position
    if ← take "&&" then
      skipLineEnds
      return .both first (← readBoth fuel position)
    else return first

/-- Reads a question whether an array has an item. -/
def readContains (fuel : Nat) (position : Position) : Read Expr := do
  match fuel with
  | 0 => unexpected
  | fuel + 1 =>
    let first ← readFits fuel position
    if ← take "in" then
      match ← get with
      | (.name array, _) :: _ =>
        advance
        return .contains [first] array
      | _ => unexpected
    else return first

/-- Reads a question whether a text matches a regular expression. -/
def readFits (fuel : Nat) (position : Position) : Read Expr := do
  match fuel with
  | 0 => unexpected
  | fuel + 1 =>
    let first ← readCompared fuel position
    if ← take "~" then return .fits first (← readCompared fuel position)
    else
      match ← get with
      | (.sign "!", _) :: (.sign "~", _) :: _ =>
        advance
        advance
        return .negated (.fits first (← readCompared fuel position))
      | _ => return first

def readCompared (fuel : Nat) (position : Position) : Read Expr := do
  match fuel with
  | 0 => unexpected
  | fuel + 1 =>
    let first ← readJoined fuel position
    match ← get with
    | (.sign "|", _) :: (.name "getline", _) :: _ =>
      advance
      advance
      return .readRecord (← readTarget fuel) (some (true, first))
    | (.sign sign, _) :: _ =>
      match relation? sign with
      | some relation =>
        if sign = ">" && position.printed then return first
        else
          advance
          return .compare relation first (← readJoined fuel position)
      | none => return first
    | _ => return first

/-- Reads values that are joined. -/
def readJoined (fuel : Nat) (position : Position) : Read Expr := do
  match fuel with
  | 0 => unexpected
  | fuel + 1 => readFurther fuel position (← readTerms fuel position)

def readFurther (fuel : Nat) (position : Position) (first : Expr) : Read Expr := do
  match fuel, ← get with
  | 0, _ => unexpected
  | _, [] => return first
  | fuel + 1, (word, _) :: _ =>
    if word.joins then
      let next ← readTerms fuel position
      readFurther fuel position (.joined first next)
    else return first

def readTerms (fuel : Nat) (position : Position) : Read Expr := do
  match fuel with
  | 0 => unexpected
  | fuel + 1 => readMoreTerms fuel position (← readFactors fuel position)

def readMoreTerms (fuel : Nat) (position : Position) (first : Expr) : Read Expr := do
  match fuel with
  | 0 => unexpected
  | fuel + 1 =>
    if ← take "+" then
      readMoreTerms fuel position (.calculate .plus first (← readFactors fuel position))
    else if ← take "-" then
      readMoreTerms fuel position (.calculate .minus first (← readFactors fuel position))
    else return first

def readFactors (fuel : Nat) (position : Position) : Read Expr := do
  match fuel with
  | 0 => unexpected
  | fuel + 1 => readMoreFactors fuel position (← readUnary fuel position)

def readMoreFactors (fuel : Nat) (position : Position) (first : Expr) : Read Expr := do
  match fuel with
  | 0 => unexpected
  | fuel + 1 =>
    let operation? ←
      if ← take "*" then pure (some Operation.times)
      else if ← take "/" then pure (some .divided)
      else if ← take "%" then pure (some .remainder)
      else pure none
    match operation? with
    | some operation =>
      readMoreFactors fuel position (.calculate operation first (← readUnary fuel position))
    | none => return first

def readUnary (fuel : Nat) (position : Position) : Read Expr := do
  match fuel with
  | 0 => unexpected
  | fuel + 1 =>
    if ← take "!" then return .negated (← readUnary fuel position)
    else if ← take "-" then return .opposite (← readUnary fuel position)
    else if ← take "+" then return .asNumber (← readUnary fuel position)
    else
      let base ← readStepped fuel
      if ← take "^" then return .calculate .power base (← readUnary fuel position) else return base

/-- Reads a value with a step up or down in front of it or behind it. -/
def readStepped (fuel : Nat) : Read Expr := do
  match fuel with
  | 0 => unexpected
  | fuel + 1 =>
    if ← take "++" then return .step 1.0 true (← readValue fuel)
    else if ← take "--" then return .step (-1.0) true (← readValue fuel)
    else
      let value ← readValue fuel
      if value.isTarget then
        if ← take "++" then return .step 1.0 false value
        else if ← take "--" then return .step (-1.0) false value
        else return value
      else return value

/-- Reads what may be assigned to behind the word for reading a record. -/
def readTarget (fuel : Nat) : Read (Option Expr) := do
  match fuel, ← get with
  | 0, _ | _, [] => return none
  | fuel + 1, (word, _) :: _ =>
    let starts :=
      match word with
      | .sign "$" => true
      | .name name => !keywords.contains name
      | _ => false
    if starts then return some (← readValue fuel) else return none

def readValue (fuel : Nat) : Read Expr := do
  match fuel, ← get with
  | 0, _ | _, [] => unexpected
  | fuel + 1, (word, _) :: rest =>
    let free : Position := ⟨false⟩
    match word with
    | .number value _ =>
      set rest
      return .number value
    | .text value =>
      set rest
      return .text value
    | .pattern text =>
      set rest
      return .pattern text
    | .sign "$" =>
      set rest
      return .field (← readStepped fuel)
    | .sign "-" =>
      set rest
      return .opposite (← readValue fuel)
    | .sign "(" =>
      set rest
      let first ← readExpr fuel free
      if ← nextIs "," then
        let others ← readRest fuel
        expect ")"
        expect "in"
        match ← get with
        | (.name array, _) :: rest =>
          set rest
          return .contains (first :: others) array
        | _ => unexpected
      else
        expect ")"
        return .grouped first
    | .name "getline" =>
      set rest
      let target ← readTarget fuel
      if ← take "<" then return .readRecord target (some (false, ← readValue fuel))
      else return .readRecord target none
    | .name name =>
      if keywords.contains name then unexpected
      else
        set rest
        if ← take "[" then
          let first ← readExpr fuel free
          let others ← readRest fuel
          expect "]"
          return .item name (first :: others)
        else if name = "length" then return .call name []
        else return .named name
    | .function name =>
      set rest.tail
      if ← take ")" then return .call name []
      else
        skipLineEnds
        let first ← readExpr fuel free
        let others ← readRest fuel
        skipLineEnds
        expect ")"
        return .call name (first :: others)
    | _ => unexpected

/-- Reads the further expressions of a list behind commas. -/
def readRest (fuel : Nat) : Read (List Expr) := do
  match fuel with
  | 0 => unexpected
  | fuel + 1 =>
    if ← take "," then
      skipLineEnds
      let next ← readExpr fuel ⟨false⟩
      return next :: (← readRest fuel)
    else return []

end

/-! ### Statements -/

/-- A statement may end here. -/
def atEnd : Read Bool := do
  match ← get with
  | [] | (.lineEnd, _) :: _ => return true
  | (.sign sign, _) :: _ => return sign = ";" || sign = "\x7d"
  | _ => return false

/-- Reads what is printed: expressions with commas between them, perhaps in parentheses. -/
def readPrinted (fuel : Nat) : Read (List Expr) := do
  if (← atEnd) || (← nextIs ">") || (← nextIs ">>") || (← nextIs "|") then return []
  let words ← get
  let inParentheses : Read (Option (List Expr)) := do
    if ← take "(" then
      let first ← readExpr fuel ⟨false⟩
      let others ← readRest fuel
      expect ")"
      if (← atEnd) || (← nextIs ">") || (← nextIs ">>") || (← nextIs "|") then
        return some (first :: others)
      else return none
    else return none
  match inParentheses.run words with
  | .ok (some printed, rest) =>
    set rest
    return printed
  | _ =>
    let first ← readExpr fuel ⟨true⟩
    let mut others := []
    for _ in List.range fuel do
      if ← take "," then
        skipLineEnds
        others := others ++ [← readExpr fuel ⟨true⟩]
    return first :: others

/-- Reads where something is printed to. -/
def readDestination (fuel : Nat) : Read (Option Target) := do
  if ← take ">" then return some (.file false (← readJoined fuel ⟨true⟩))
  else if ← take ">>" then return some (.file true (← readJoined fuel ⟨true⟩))
  else if ← take "|" then return some (.command (← readJoined fuel ⟨true⟩))
  else return none

/-- Reads a statement that has no other ones in it. -/
def readSimple (fuel : Nat) : Read Statement := do
  match ← get with
  | (.name "print", _) :: rest =>
    set rest
    let printed ← readPrinted fuel
    return .print printed (← readDestination fuel)
  | (.name "printf", _) :: rest =>
    set rest
    let printed ← readPrinted fuel
    return .printFormat printed (← readDestination fuel)
  | (.name "next", _) :: rest =>
    set rest
    return .next
  | (.name "break", _) :: rest =>
    set rest
    return .leave
  | (.name "continue", _) :: rest =>
    set rest
    return .goOn
  | (.name "exit", _) :: rest =>
    set rest
    if ← atEnd then return .exit none else return .exit (some (← readExpr fuel ⟨false⟩))
  | (.name "delete", _) :: (.name array, _) :: rest =>
    set rest
    if ← take "[" then
      let first ← readExpr fuel ⟨false⟩
      let others ← readRest fuel
      expect "]"
      return .delete array (first :: others)
    else return .delete array []
  | _ => return .expression (← readExpr fuel ⟨false⟩)

/-- Passes over what ends a simple statement. -/
def endStatement : Read Unit := do
  if !(← atEnd) then unexpected
  else if !(← nextIs "\x7d") then advance

mutual

def readStatement (fuel : Nat) : Read Statement := do
  match fuel with
  | 0 => unexpected
  | fuel + 1 =>
    match ← get with
    | (.sign "\x7b", _) :: rest =>
      set rest
      readBlock fuel
    | (.sign ";", _) :: rest =>
      set rest
      return .nothing
    | (.name "if", _) :: rest =>
      set rest
      expect "("
      let test ← readExpr fuel ⟨false⟩
      expect ")"
      skipLineEnds
      let yes ← readStatement fuel
      let words ← get
      skipEnds
      if ← take "else" then
        skipLineEnds
        return .condition test yes (← readStatement fuel)
      else
        set words
        return .condition test yes .nothing
    | (.name "while", _) :: rest =>
      set rest
      expect "("
      let test ← readExpr fuel ⟨false⟩
      expect ")"
      if ← take ";" then return .loop test .nothing
      skipLineEnds
      return .loop test (← readStatement fuel)
    | (.name "do", _) :: rest =>
      set rest
      skipLineEnds
      let body ← readStatement fuel
      skipEnds
      expect "while"
      expect "("
      let test ← readExpr fuel ⟨false⟩
      expect ")"
      endStatement
      return .rounds body test
    | (.name "for", _) :: (.sign "(", _) :: (.name name, _) :: (.name "in", _) ::
        (.name array, _) :: (.sign ")", _) :: rest =>
      set rest
      skipLineEnds
      return .each name array (← readStatement fuel)
    | (.name "for", _) :: rest =>
      set rest
      expect "("
      let start ← if ← nextIs ";" then pure .nothing else readSimple fuel
      expect ";"
      skipLineEnds
      let test ← if ← nextIs ";" then pure none else some <$> readExpr fuel ⟨false⟩
      expect ";"
      skipLineEnds
      let behind ← if ← nextIs ")" then pure .nothing else readSimple fuel
      expect ")"
      if ← take ";" then return .counted start test behind .nothing
      skipLineEnds
      return .counted start test behind (← readStatement fuel)
    | _ =>
      let statement ← readSimple fuel
      endStatement
      return statement

/-- Reads the statements of a block up to its end. -/
def readBlock (fuel : Nat) : Read Statement := do
  match fuel with
  | 0 => unexpected
  | fuel + 1 => return .block (← readStatements fuel)

def readStatements (fuel : Nat) : Read (List Statement) := do
  match fuel with
  | 0 => unexpected
  | fuel + 1 =>
    skipEnds
    if ← take "\x7d" then return []
    else
      match ← get with
      | [] => throw ⟨2, "missing \x7d near end of file", false⟩
      | _ =>
        let first ← readStatement fuel
        return first :: (← readStatements fuel)

end

/-! ### Rules -/

def readRule (fuel : Nat) : Read Rule := do
  let body : Read Statement := do
    if ← take "\x7b" then readBlock fuel else unexpected
  if ← take "BEGIN" then return ⟨.start, ← body⟩
  else if ← take "END" then return ⟨.finish, ← body⟩
  else if ← nextIs "\x7b" then return ⟨.every, ← body⟩
  else
    let first ← readExpr fuel ⟨false⟩
    let selector ←
      if ← take "," then
        skipLineEnds
        pure (Selector.between first (← readExpr fuel ⟨false⟩))
      else pure (.those first)
    if ← nextIs "\x7b" then return ⟨selector, ← body⟩ else return ⟨selector, .print [] none⟩

def readRules (fuel : Nat) : Read (List Rule) := do
  match fuel with
  | 0 => return []
  | fuel + 1 =>
    skipEnds
    match ← get with
    | [] => return []
    | (.sign "\x7d", line) :: _ => 
      throw ⟨line, s!"extra '\x7d'\nawk: line {line}: syntax error at or near end of line", false⟩
    | _ =>
      let rule ← readRule (4 * (fuel + 2))
      return rule :: (← readRules fuel)

/-- The rules of a program. -/
def parse (text : Raw) : Except Fault (List Rule) := do
  let words ← divide (text.length + 1) 1 .lineEnd text
  let (rules, _) ← readRules (4 * (words.length + 4)) words
  return rules

end PomLens.Script.Records
