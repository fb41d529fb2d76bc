/-
This file expands the words of a script.

First the parts of a word are replaced by what they stand for. What comes of that is a list
of marks, which still know what was quoted. Then the word is split into fields at separators
that stand in replaced parts, and a field that may be a pattern is replaced by the names of
the files that it matches.
-/

import PomLens.BuildTool.Script.Arithmetic
import PomLens.BuildTool.Script.Pattern
import PomLens.BuildTool.Script.Shell

namespace PomLens.Script

/-! ### Marks -/

/-- A part of an expanded word. -/
inductive Mark
  /-- A character. One that is not literal may stand for others, and a loose one may separate
  fields. -/
  | char (literal loose : Bool) (char : Char)
  /-- There is a field here even if it is empty. -/
  | presence
  /-- A field ends here, and another one starts. -/
  | border
  /-- A value starts that may be split. -/
  | seam
  deriving DecidableEq, Repr

/-- The character that stands between arguments which stay apart. No value contains it. -/
def argumentBorder : Char := '\x00'

/-- The marks of a value. -/
def valueMarks (quoted : Bool) (value : Raw) : List Mark :=
  .seam :: value.flatMap fun char =>
    if char = argumentBorder then
      if quoted then [.border, .presence] else [.border]
    else [.char quoted (!quoted) char]

/-- The characters of marks, with whether each stands only for itself. -/
def glyphs (marks : List Mark) : List Glyph :=
  marks.filterMap fun
    | .char literal _ char => some ⟨literal, char⟩
    | _ => none

/-! ### Fields -/

/-- A separator of which any number count as one. -/
def isFieldBlank (char : Char) : Bool :=
  " \t\n".toList.contains char

/-- How splitting has gone so far. -/
structure Splitting where
  /-- The complete fields, the latest first. -/
  fields : List (List Glyph)
  /-- The field at hand, its latest character first. -/
  field : List Glyph
  /-- The field at hand is there even if it is empty. -/
  present : Bool
  /-- Blanks that separate have just ended a field, so that another separator behind them
  belongs to them. -/
  blank : Bool

namespace Splitting

def start : Splitting :=
  ⟨[], [], false, false⟩

/-- Ends the field at hand. -/
def close (splitting : Splitting) (blank : Bool) : Splitting :=
  ⟨splitting.field.reverse :: splitting.fields, [], false, blank⟩

def isEmpty (splitting : Splitting) : Bool :=
  splitting.field.isEmpty && !splitting.present

/-- Passes over a mark. -/
def pass (separators : Raw) (splitting : Splitting) (mark : Mark) : Splitting :=
  match mark with
  | .presence => { splitting with present := true, blank := false }
  | .border => if splitting.isEmpty then splitting else splitting.close false
  | .seam => { splitting with blank := false }
  | .char literal loose char =>
    if loose && separators.contains char then
      if isFieldBlank char then
        if splitting.isEmpty then splitting else splitting.close true
      else if splitting.isEmpty && splitting.blank then
        { splitting with blank := false }
      else splitting.close false
    else
      { splitting with
        field := ⟨literal, char⟩ :: splitting.field, blank := false }

end Splitting

/-- The fields of an expanded word. -/
def fieldsOf (separators : Raw) (marks : List Mark) : List (List Glyph) :=
  let splitting := marks.foldl (Splitting.pass separators) .start
  let splitting := if splitting.isEmpty then splitting else splitting.close false
  splitting.fields.reverse

namespace Act

/-- The characters that separate fields. -/
def separators : Act Raw := do
  return (← valueOf? "IFS").getD " \t\n".toList

/-! ### Names of files -/

/-- A pattern cut at its slashes. -/
def steps : List Glyph → List (List Glyph)
  | [] => [[]]
  | glyph :: rest =>
    if glyph.char = '/' then [] :: steps rest
    else
      match steps rest with
      | [] => [[glyph]]
      | first :: others => (glyph :: first) :: others

/-- The paths that start with `before` and go on with steps that match patterns. -/
def matchingPaths (before : Raw) : List (List Glyph) → Act (List Raw)
  | [] => return []
  | [last] => do
    if mayMatch last then
      return (← names last).map (before ++ ·)
    else
      let path := before ++ glyphText last
      return if (← entry? path).isSome then [path] else []
  | first :: rest => do
    let nexts ← if mayMatch first then names first else pure [glyphText first]
    let mut paths := []
    for next in nexts do
      paths := paths ++ (← matchingPaths (before ++ next ++ ['/']) rest)
    return paths
where
  /-- The names in the folder at hand that match a pattern. Those with a dot in front are
  only meant by a pattern that has one. -/
  names (pattern : List Glyph) : Act (List Raw) := do
    match ← locate (if before.isEmpty then ['.'] else before) with
    | .error _ => return []
    | .ok location =>
      let dotted := (pattern.head?.map Glyph.char) == some '.'
      let there := ((← get).files.namesIn location).map Raw.ofString
      let all := if dotted then ['.'] :: ['.', '.'] :: there else there
      return all.filter fun name => (name.head? != some '.' || dotted) && isMatch pattern name

/-- The names of files that a field matches, in their order, or the field itself. -/
def pathnames (field : List Glyph) : Act (List Raw) := do
  if mayMatch field && !(← get).switches.contains 'f' then
    let paths ← matchingPaths [] (steps field)
    if !paths.isEmpty then return paths.mergeSort Raw.le
  return [glyphText field]

/-! ### Parameters -/

/-- The value of a parameter in a word that may be split, or in one that may not. All
arguments together have a value of their own: they stay apart in the former. -/
def wordValue? (full quoted : Bool) (name : String) : Act (Option Raw) := do
  if name = "@" || name = "*" then
    let arguments := (← get).arguments
    let between : Raw ←
      if full && (!quoted || name = "@") then pure [argumentBorder]
      else do pure ((← separators).take 1)
    return if arguments.isEmpty then none else some (Raw.join between arguments)
  else parameter? name

/-- Gives a value to a variable by its name, which must be one and must not be fixed. -/
def setVariable (name : Raw) (value : Raw) : Act Unit := do
  if !isName name then fail (name ++ ": bad variable name".toList)
  let name := String.ofList name
  if (← binding? name).any Binding.fixed then fail (name.toList ++ ": is read only".toList)
  assign name value

/-- The value of an arithmetic expression, which may set variables. -/
def calculate (expression : Raw) : Act Raw := do
  let bindings := (← get).bindings
  let lookup (name : String) : Raw := ((bindings.lookup name).bind Binding.value).getD []
  let result := do
    let parsed ← Arithmetic.parse expression
    (Arithmetic.evaluate lookup parsed).run []
  match result with
  | .error fault => fail (fault.message expression)
  | .ok (value, changes) =>
    for (name, value) in changes.reverse do
      setVariable name.toList (Raw.ofInt value)
    return Raw.ofInt value

end Act

/-! ### Words -/

/-- How commands in a word are run: gives what they write. -/
abbrev Capture := List Command → Act Raw

open Act in
mutual

/-- The marks of a part of a word. In a `full` word fields may stay apart, and where `loose`
is set, even unquoted characters of the word itself may separate fields. -/
def expandFragment (capture : Capture) (full loose : Bool) : Fragment → Act (List Mark)
  | .text quoted chars =>
    return if quoted && chars.isEmpty then [.presence]
      else chars.map fun char => .char quoted (loose && !quoted) char
  | .home => do
    return ((← valueOf? "HOME").getD ['~']).map fun char => .char true false char
  | .output quoted commands => do
    let text ← capture commands
    return valueMarks quoted
      (Text.dropEndWhile (· == '\n') (text.filter (· != '\x00')))
  | .arithmetic quoted expression => do
    let marks ← expandParts capture false false expression
    return valueMarks quoted (← calculate (glyphText (glyphs marks)))
  | .parameter quoted name use => expandUse capture full quoted name use

/-- The marks of what is made of a parameter. -/
def expandUse (capture : Capture) (full quoted : Bool) (name : String) :
    Use → Act (List Mark)
  | .value => do valueOrFail (← wordValue? full quoted name)
  | .length => do
    let value ← present (← wordValue? full quoted name)
    return valueMarks quoted (Raw.ofNat value.length)
  | .removal removal pattern => do
    let value ← present (← wordValue? full quoted name)
    let marks ← expandParts capture false false pattern
    return whole (some (removal.apply (glyphs marks) value))
  | .fallback emptyToo word => do
    let value ← wordValue? full quoted name
    if isMissing emptyToo value then expandParts capture full (!quoted) word
    else return whole value
  | .alternative emptyToo word => do
    let value ← wordValue? full quoted name
    if isMissing emptyToo value then return []
    else expandParts capture full (!quoted) word
  | .assignment emptyToo word => do
    let value ← wordValue? full quoted name
    if isMissing emptyToo value then
      let value := glyphText (glyphs (← expandParts capture false false word))
      setVariable name.toList value
      return whole (some value)
    else return whole value
  | .complaint emptyToo word => do
    let value ← wordValue? full quoted name
    if isMissing emptyToo value then
      let message := glyphText (glyphs (← expandParts capture false false word))
      let usual := "parameter not set".toList ++ if emptyToo then " or null".toList else []
      fail (name.toList ++ ": ".toList ++ if word.isEmpty then usual else message)
    else return whole value
  | .undefined => fail "Bad substitution".toList
where
  /-- The marks of a value. Arguments in quotes are there even if they are empty. -/
  whole (value : Option Raw) : List Mark :=
    match value with
    | none => []
    | some value =>
      let marks := valueMarks quoted value
      if quoted && name = "@" then .presence :: marks else marks
  isMissing (emptyToo : Bool) (value : Option Raw) : Bool :=
    value.isNone || (emptyToo && value == some [])
  /-- The value. One that is missing is empty, or fails if the script wants that. -/
  present (value : Option Raw) : Act Raw := do
    match value with
    | some value => return value
    | none =>
      if (← get).switches.contains 'u' && name ≠ "@" && name ≠ "*" then
        fail (name.toList ++ ": parameter not set".toList)
      else return []
  valueOrFail (value : Option Raw) : Act (List Mark) := do
    if value.isNone then
      let _ ← present value
      return []
    else return whole value

/-- The marks of some parts of a word. -/
def expandParts (capture : Capture) (full loose : Bool) : List Fragment → Act (List Mark)
  | [] => return []
  | fragment :: rest => do
    let first ← expandFragment capture full loose fragment
    let others ← expandParts capture full loose rest
    return first ++ others

end

/-- What a word stands for where it is one text. -/
def expandText (capture : Capture) (word : Word) : Act Raw := do
  return glyphText (glyphs (← expandParts capture false false word))

/-- What a word stands for where it is a pattern. -/
def expandPattern (capture : Capture) (word : Word) : Act (List Glyph) := do
  return glyphs (← expandParts capture false false word)

/-- The words that a word stands for. -/
def expandFields (capture : Capture) (word : Word) : Act (List Raw) := do
  let marks ← expandParts capture true false word
  let mut found := []
  for field in fieldsOf (← Act.separators) marks do
    found := found ++ (← Act.pathnames field)
  return found

/-- The words that some words stand for. -/
def expandWords (capture : Capture) (words : List Word) : Act (List Raw) := do
  let mut found := []
  for word in words do
    found := found ++ (← expandFields capture word)
  return found

end PomLens.Script
