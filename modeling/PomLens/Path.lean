/-
This file defines paths, read lexically, and their normal form.

A path keeps its spelling, because messages and listings show it. What it means without
looking at any file is the list of its components: the root, names, and steps up. Two
spellings with the same components are the same path. `normalize` goes further and lets a
step up cancel the name before it, so that every spelling of a descriptor's path gives one
registry key.
-/

import PomLens.Text.Blank

namespace PomLens

/-- The spelling of a path. Slashes separate its parts. -/
structure Path where
  text : String
  deriving DecidableEq, Repr, Inhabited

namespace Path

/-! ### Components -/

/-- A step of a path. -/
inductive Component
  /-- The slash that makes a path absolute. -/
  | root
  /-- A leading dot. Dots elsewhere mean nothing and are no components. -/
  | here
  /-- Two dots. -/
  | up
  | name (text : String)
  deriving DecidableEq, Repr

/-- The part between two slashes as a step. Nothing and a dot are no steps. -/
def Component.ofPart? (part : List Char) : Option Component :=
  if part = [] || part = ['.'] then none
  else if part = ['.', '.'] then some .up
  else some (.name (String.ofList part))

/-- The spelling of a step. -/
def Component.spelling : Component → String
  | .root => "/"
  | .here => "."
  | .up => ".."
  | .name text => text

/-- The path starts at the root. -/
def isAbsolute (path : Path) : Bool :=
  path.text.toList.head? == some '/'

/-- The steps of a path, from the left. -/
def components (path : Path) : List Component :=
  let parts := Text.splitOn (· == '/') path.text.toList
  let steps := parts.filterMap Component.ofPart?
  if path.isAbsolute then .root :: steps
  else if parts.head? = some ['.'] then .here :: steps
  else steps

/-- The spelling with one slash between steps and none at the end. -/
def ofComponents : List Component → Path
  | .root :: rest => ⟨"/" ++ "/".intercalate (rest.map Component.spelling)⟩
  | steps => ⟨"/".intercalate (steps.map Component.spelling)⟩

/-- The plainest spelling of the same steps. -/
def plain (path : Path) : Path :=
  ofComponents path.components

/-- Two spellings of the same steps. -/
def same (first second : Path) : Bool :=
  first.components == second.components

/-- The order of steps: the root, a dot, a step up, then names by their characters. -/
def Component.rank : Component → Nat × String
  | .root => (0, "")
  | .here => (1, "")
  | .up => (2, "")
  | .name text => (3, text)

/-- Sorting compares step by step, so `a/x` comes before `a-b/x`, and a path comes before
what lies under it. -/
def le (first second : Path) : Bool :=
  compareSteps first.components second.components
where
  compareSteps : List Component → List Component → Bool
    | [], _ => true
    | _ :: _, [] => false
    | left :: lefts, right :: rights =>
      if left = right then compareSteps lefts rights
      else
        let (leftKind, leftName) := left.rank
        let (rightKind, rightName) := right.rank
        leftKind < rightKind || (leftKind == rightKind && leftName < rightName)

/-- The path lies under `folder` or is it. Whole steps are compared: `/ws/web2` is not under
`/ws/web`. -/
def startsWith (path folder : Path) : Bool :=
  folder.components.isPrefixOf path.components

/-! ### Putting paths together and taking them apart -/

/-- `rest` read from `base`. An absolute `rest` replaces the base; an empty one adds a slash
at the end. -/
def join (base rest : Path) : Path :=
  if rest.isAbsolute || base.text = "" then rest
  else if base.text.toList.getLast? = some '/' then ⟨base.text ++ rest.text⟩
  else ⟨base.text ++ "/" ++ rest.text⟩

instance : HDiv Path String Path where
  hDiv base rest := base.join ⟨rest⟩

/-- A part that is no step: nothing or a dot. -/
private def isIdle (part : List Char) : Bool :=
  (Component.ofPart? part).isNone

/-- The path of the directory that holds the last step. The root and the empty path have
none. The spelling is the given one up to that step. -/
def parent? (path : Path) : Option Path :=
  let text := path.text.toList
  let (lead, body) :=
    match text with
    | '/' :: rest => (['/'], rest)
    | ['.'] => (['.'], [])
    | '.' :: '/' :: rest => (['.'], '/' :: rest)
    | _ => ([], text)
  let trimmed := (Text.splitOn (· == '/') body).reverse.dropWhile isIdle
  match trimmed with
  | [] => if lead = ['.'] then some ⟨""⟩ else none
  | _ :: before =>
    let kept := (before.dropWhile isIdle).reverse
    some ⟨String.ofList (lead ++ ['/'].intercalate kept)⟩

/-- The path and those of the directories around it, nearest first. -/
def ancestors (path : Path) : List Path :=
  climb path.text.length path
where
  /-- Each step up shortens the spelling, so its length bounds their number. -/
  climb : Nat → Path → List Path
    | 0, path => [path]
    | fuel + 1, path =>
      match path.parent? with
      | none => [path]
      | some parent => path :: climb fuel parent

/-- What follows the steps of `folder`, if the path lies under it. -/
def relativeTo? (path folder : Path) : Option Path :=
  (afterSteps? folder.components path.components).map ofComponents
where
  afterSteps? : List Component → List Component → Option (List Component)
    | [], rest => some rest
    | _ :: _, [] => none
    | expected :: folder, step :: rest =>
      if expected = step then afterSteps? folder rest else none

/-! ### Normal form -/

/-- One step after those kept so far, the last of which stands first. A step up cancels a
name, stays at the root, and is kept where there is nothing to cancel. -/
def collapseStep (kept : List Component) (step : Component) : List Component :=
  match step with
  | .here => kept
  | .up =>
    match kept with
    | .name _ :: before => before
    | .root :: _ => kept
    | _ => .up :: kept
  | step => step :: kept

/-- The steps that remain when each step up has cancelled what it can. -/
def collapse (steps : List Component) : List Component :=
  (steps.foldl collapseStep []).reverse

/-- The normal form: no dots, and steps up only at the start of a relative path. -/
def normalize (path : Path) : Path :=
  ofComponents (collapse path.components)

/-- The path as seen from the root when `current` is the working directory. Steps up stay,
and so does a slash at the end; exactly two leading slashes stay two. The empty path has no
absolute form. -/
def absolute? (path current : Path) : Option Path :=
  let text := path.text.toList
  if text = [] then none
  else
    let steps := path.components.filter (· ≠ .here)
    let start : Path × List Component :=
      if path.isAbsolute then
        if text.take 2 = ['/', '/'] && text.take 3 ≠ ['/', '/', '/'] then
          (⟨"//"⟩, steps.drop 1)
        else (⟨""⟩, steps)
      else (current, steps)
    let whole := start.2.foldl (fun (whole : Path) step => whole / step.spelling) start.1
    some (if text.getLast? = some '/' then whole / "" else whole)

end Path

end PomLens
