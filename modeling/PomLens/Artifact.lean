/-
This file defines the names of artifacts: keys and coordinates.

A key is a group with an artifact name, and a coordinate is a key with or without a
version. Both are written with colons between their parts, none of which is empty, so that
the written form of a coordinate without colons in its parts reads back as itself.
-/

import PomLens.Text.Blank

namespace PomLens

/-- An artifact regardless of its version. -/
structure ArtifactKey where
  group : String
  artifact : String
  deriving DecidableEq, Repr

/-- A key, with a version or without. -/
structure Coordinate where
  group : String
  artifact : String
  version : Option String
  deriving DecidableEq, Repr

/-- A text that is no coordinate, or no key where a key is asked for. -/
structure CoordinateError where
  text : String
  deriving DecidableEq, Repr

def CoordinateError.message (error : CoordinateError) : String :=
  s!"invalid coordinate `{error.text}`: expected groupId:artifactId[:version]"

namespace ArtifactKey

/-- The written form, `group:artifact`. -/
def render (key : ArtifactKey) : String :=
  s!"{key.group}:{key.artifact}"

end ArtifactKey

namespace Coordinate

/-- The coordinate without its version. -/
def key (coordinate : Coordinate) : ArtifactKey :=
  ⟨coordinate.group, coordinate.artifact⟩

/-- The written form, `group:artifact` or `group:artifact:version`. -/
def render (coordinate : Coordinate) : String :=
  match coordinate.version with
  | none => coordinate.key.render
  | some version => s!"{coordinate.key.render}:{version}"

/-- Reads two or three parts, none of them empty, from a text with blanks around it. -/
def parse (text : String) : Except CoordinateError Coordinate :=
  let parts := Text.splitOn (· == ':') (Text.trim text.toList)
  if parts.any List.isEmpty then throw ⟨text⟩
  else
    match parts.map String.ofList with
    | [group, artifact] => return ⟨group, artifact, none⟩
    | [group, artifact, version] => return ⟨group, artifact, some version⟩
    | _ => throw ⟨text⟩

end Coordinate

/-- Reads a coordinate without a version. -/
def ArtifactKey.parse (text : String) : Except CoordinateError ArtifactKey := do
  let coordinate ← Coordinate.parse text
  if coordinate.version.isSome then throw ⟨text⟩
  return coordinate.key

end PomLens
