/-
This file defines the utility that looks for lines which regular expressions match.
-/

import PomLens.BuildTool.Script.Regex
import PomLens.BuildTool.Script.Utility.Options

namespace PomLens.Script.Utility

/-! ### Matching -/

/-- What a line must hold. -/
structure Wanted where
  patterns : List Regex
  /-- A match has no character of a word beside it. -/
  words : Bool
  /-- A match is the whole line. -/
  whole : Bool

namespace Wanted

/-- The longest acceptable match of a pattern that starts at a place: its end. -/
def endAt? (wanted : Wanted) (text : Array Char) (start : Nat) (pattern : Regex) : Option Nat :=
  let ends := (pattern.ways text ⟨start, []⟩).map Regex.Progress.place
  let isWord (place : Nat) : Bool := (text[place]?).any Regex.isWordChar
  let fits (stop : Nat) : Bool :=
    (!wanted.whole || (start = 0 && stop = text.size)) &&
      (!wanted.words || ((start = 0 || !isWord (start - 1)) && !isWord stop && start < stop))
  (ends.filter fits).max?

/-- The first place from a start on where a pattern matches, and the end of the longest match
there. -/
def find? (wanted : Wanted) (line : Array Char) (start : Nat) : Option (Nat × Nat) :=
  ((List.range (line.size + 1 - start)).map (start + ·)).findSome? fun place =>
    ((wanted.patterns.filterMap (wanted.endAt? line place)).max?).map fun stop => (place, stop)

/-- The texts of all matches in a line that are not empty. `fuel` bounds their number. -/
def all (wanted : Wanted) (line : Array Char) (fuel start : Nat) : List Raw :=
  match fuel with
  | 0 => []
  | fuel + 1 =>
    match wanted.find? line start with
    | none => []
    | some (first, stop) =>
      if stop = first then
        if line.size ≤ first then [] else wanted.all line fuel (first + 1)
      else (line.toList.take stop).drop first :: wanted.all line fuel stop

end Wanted

/-! ### Showing -/

/-- How found lines are shown. -/
structure Display where
  /-- The name of the file stands in front. -/
  named : Bool
  numbered : Bool
  /-- Only matches are shown. -/
  only : Bool
  /-- How many lines before and behind a found one are shown too. -/
  before : Nat
  behind : Nat

/-- A line as it is shown: the mark tells found lines from others. -/
def Display.line (display : Display) (name : Raw) (number : Nat) (mark : Char) (text : Raw) : Raw :=
  (if display.named then name ++ [mark] else []) ++
    (if display.numbered then Raw.ofNat number ++ [mark] else []) ++ text ++ ['\n']

/-- The lines that are shown of a file. Those that are not next to each other are separated,
where lines around found ones are shown. -/
def Display.show (display : Display) (wanted : Wanted) (inverted : Bool) (name : Raw)
    (lines : List (Nat × Raw)) (found : List Nat) : Raw :=
  if display.only then
    if inverted then []
    else
      (lines.filter fun (number, _) => found.contains number).flatMap fun (number, text) =>
        (wanted.all text.toArray (text.length + 2) 0).flatMap fun part =>
          display.line name number ':' part
  else
    let isShown (number : Nat) : Bool := found.any fun other =>
      other ≤ number + display.before && number ≤ other + display.behind
    let separated := display.before + display.behind > 0
    go separated none (lines.filter fun (number, _) => isShown number)
where
  go (separated : Bool) (last : Option Nat) : List (Nat × Raw) → Raw
    | [] => []
    | (number, text) :: rest =>
      let gap := separated && last.any fun last => last + 1 < number
      let mark := if found.contains number then ':' else '-'
      (if gap then "--\n".toList else []) ++ display.line name number mark text ++
        go separated (some number) rest

/-! ### The utility -/

def grepManual : Manual :=
  ⟨"grep", "EFGPivcnlLqsowxhHrRazbUyTZ", "efmABC",
    [("extended-regexp", 'E'), ("fixed-strings", 'F'), ("basic-regexp", 'G'), ("regexp", 'e'),
      ("file", 'f'), ("ignore-case", 'i'), ("invert-match", 'v'), ("count", 'c'),
      ("line-number", 'n'), ("files-with-matches", 'l'), ("files-without-match", 'L'),
      ("quiet", 'q'), ("silent", 'q'), ("no-messages", 's'), ("only-matching", 'o'),
      ("word-regexp", 'w'), ("line-regexp", 'x'), ("no-filename", 'h'), ("with-filename", 'H'),
      ("recursive", 'r'), ("max-count", 'm'), ("after-context", 'A'), ("before-context", 'B'),
      ("context", 'C'), ("color", 'U'), ("colour", 'U'), ("text", 'a')], 2⟩

def grepUsage : Raw := "Usage: grep [OPTION]... PATTERNS [FILE]...".toList

/-- The files at and below a name, those in a folder by their names. `fuel` bounds the depth. -/
def filesUnder (fuel : Nat) (name : Raw) : Act (List Raw) := do
  match fuel with
  | 0 => return []
  | fuel + 1 =>
    match ← Act.locate name with
    | .error _ => return [name]
    | .ok location =>
      if (← get).files.at? location = some .folder then
        let names := (((← get).files.namesIn location).map Raw.ofString).mergeSort Raw.le
        let mut found := []
        for inner in names do
          let path := if name.getLast? = some '/' then name ++ inner else name ++ '/' :: inner
          found := found ++ (← filesUnder fuel path)
        return found
      else return [name]

/-- Reads the patterns of a call, and gives the operands that are left. -/
def grepPatterns (call : Call) : Act (Except Raw (List Raw × List Raw)) := do
  let given := call.values 'e'
  let mut read := []
  for file in call.values 'f' do
    match ← input file with
    | .ok text => read := read ++ Raw.lines text
    | .error error => return .error (file ++ ": ".toList ++ Act.reason error)
  let split := given.flatMap fun text => Text.splitOn (· == '\n') text
  if given.isEmpty && (call.values 'f').isEmpty then
    match call.operands with
    | [] => return .error []
    | first :: rest => return .ok (Text.splitOn (· == '\n') first, rest)
  else return .ok (split ++ read, call.operands)

/-- Looks for lines. -/
def search (kind : Option Char) : Utility := fun words => do
  let refuse (message : Raw) : Act Nat := do
    Act.printError message
    return 2
  let named (message : Raw) : Raw := "grep: ".toList ++ message
  match grepManual.readCall (words.length + 1) words with
  | .error message =>
    let (first, advice) := (message.toList.takeWhile (· != '\n'), message.toList.dropWhile (· != '\n'))
    refuse (named first ++ '\n' :: grepUsage ++ advice)
  | .ok call =>
    match ← grepPatterns call with
    | .error [] => refuse (grepUsage ++ grepManual.advice.toList)
    | .error message => refuse (named message)
    | .ok (texts, operands) =>
      let kind := (call.last? "EFGP").or kind
      let dialect : Regex.Dialect :=
        ⟨kind == some 'E' || kind == some 'P', call.has 'i' || call.has 'y', false⟩
      let parsed : Except String (List Regex) := texts.mapM fun text =>
        if kind == some 'F' then return Regex.ofText dialect text else Regex.parse dialect text
      let number? (letter : Char) : Option Nat := (call.value? letter).bind Raw.nat?
      match parsed with
      | .error message => refuse (named message.toList)
      | .ok patterns =>
        let wanted : Wanted := ⟨patterns, call.has 'w' && !call.has 'x', call.has 'x'⟩
        let deep := call.has 'r' || call.has 'R'
        let mut files := if operands.isEmpty then [if deep then ['.'] else ['-']] else operands
        if deep then
          let mut found := []
          for file in files do
            found := found ++ (← filesUnder 64 file)
          files := if operands.isEmpty then found.map fun file => file.drop 2 else found
        let inFolder ← if deep then
            (operands.headD ['.'] |> Act.entry?) <&> (· == some .folder) else pure false
        let several := operands.length > 1 || inFolder
        let around := number? 'C'
        let display : Display :=
          ⟨(several || call.has 'H') && !call.last? "hH" == some 'h', call.has 'n', call.has 'o',
            ((number? 'B').or around).getD 0, ((number? 'A').or around).getD 0⟩
        let mut selected := false
        let mut complete := true
        for file in files do
          if !(call.has 'q' && selected) then
            let content ←
              if file != ['-'] && (← Act.entry? file) == some .folder then pure (.error .isAFolder)
              else input file
            match content with
            | .error error =>
              if !call.has 's' then
                Act.printError (named (file ++ ": ".toList ++ Act.reason error))
              complete := false
            | .ok text =>
              let shown := if file = ['-'] then "(standard input)".toList else file
              let lines := (Raw.lines text).zipIdx.map fun (line, place) => (place + 1, line)
              let all := lines.filter fun (_, line) =>
                (wanted.find? line.toArray 0).isSome != call.has 'v'
              let found := (match number? 'm' with
                | none => all
                | some most => all.take most).map Prod.fst
              if !found.isEmpty then selected := true
              if call.has 'q' then pure ()
              else if call.has 'l' then
                if !found.isEmpty then Act.print (shown ++ ['\n'])
              else if call.has 'L' then
                if found.isEmpty then Act.print (shown ++ ['\n'])
              else if call.has 'c' then
                Act.print ((if display.named then shown ++ [':'] else []) ++
                  Raw.ofNat found.length ++ ['\n'])
              else
                let lines := match number? 'm' with
                  | none => lines
                  | some most =>
                    if all.length ≤ most then lines
                    else lines.filter fun (number, _) =>
                      number ≤ (found.getLast?).getD 0 + display.behind &&
                        (found.contains number || !(all.any fun (other, _) => other = number))
                Act.print (display.show wanted (call.has 'v') shown lines found)
        if selected && (complete || call.has 'q') then return 0
        else return if complete then 1 else 2

end PomLens.Script.Utility
