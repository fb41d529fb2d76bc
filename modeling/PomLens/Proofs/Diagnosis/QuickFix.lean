/-
This file proves that what is sent to an editor is found again by its positions.

Spans are byte offsets and an editor counts lines and columns, so every span of a node and every
edit of a remedy goes out as positions. No span of a parsed tree divides the ending of a line, and
none that a remedy makes from them does, so the document finds all of them again by their
positions; and a remedy that is read back so gives the text that it stands for.
-/

import PomLens.Diagnosis.Finding
import PomLens.Proofs.Remedy.Placing

namespace PomLens

open Markup (Tree)
open Remedy (pin exclude BeginsWithMark)

/-- The edits that a finding is resolved by are those of a pinning remedy. -/
theorem Finding.exists_of_resolve {finding : Finding} {document : Document} {chosen : String}
    {style : Remedy.Style} {edits : List PositionEdit}
    (resolved : finding.resolve document chosen style = .ok (some edits)) :
    ∃ set, pin document finding.key finding.effectiveVersion chosen style = .ok (some set) ∧
      edits = set.positionEdits document := by
  obtain ⟨set, computed, same⟩ := exists_of_bind_eq_ok resolved
  cases set with
  | none => cases same
  | some set =>
    cases same
    exact ⟨set, computed, rfl⟩

/-- In a document without a byte order mark, what was computed is found again by its positions: the
spans of every node, and the edits of every remedy in their order. All of these can be made, and
read back by the document they give the text that the set of them gives. That holds as well for the
edits that a finding is resolved by. -/
theorem Finding.resolve_received (document : Document) (tree : Tree)
    (noMark : ¬ BeginsWithMark document.text) (parsed : Tree.parse document.text = .ok tree) :
    (∀ place ∈ tree.places,
      document.spanOf (document.rangeOf place.node.range) = place.node.range ∧
      document.spanOf (document.rangeOf place.node.inner) = place.node.inner ∧
      document.spanOf (document.rangeOf place.node.textSpan) = place.node.textSpan) ∧
    (∀ set, (∃ key effective chosen style,
        pin document key effective chosen style = .ok (some set)) ∨
        (∃ forest index style, exclude document forest index style = .ok (some set)) →
      Edited document set) ∧
    ∀ (finding : Finding) (chosen : String) (style : Remedy.Style) (edits : List PositionEdit),
      finding.resolve document chosen style = .ok (some edits) →
      ∃ set new, pin document finding.key finding.effectiveVersion chosen style = .ok (some set) ∧
        set.applyTo document.text = .ok new ∧ document.editedBy? edits = some new.toList := by
  have unmarked : Markup.withoutMark document.text.toList = document.text.toList :=
    Remedy.withoutMark_eq noMark
  have received {key : ArtifactKey} {effective chosen : String} {style : Remedy.Style}
      {set : EditSet} (computed : pin document key effective chosen style = .ok (some set)) :
      Edited document set := by
    obtain ⟨rests, apart⟩ := Remedy.pin_placed parsed unmarked computed
    exact edited_of_apart rests apart
  refine ⟨fun place member => ?_, fun set computed => ?_, fun finding chosen style edits resolved => ?_⟩
  · have has : tree.Has place.node := ⟨place, member, rfl⟩
    have seated := has.seated parsed unmarked
    exact ⟨Document.spanOf_rangeOf seated.range, Document.spanOf_rangeOf seated.inner,
      Document.spanOf_rangeOf (has.rests_textSpan parsed unmarked)⟩
  · rcases computed with ⟨key, effective, chosen, style, computed⟩ | ⟨forest, index, style, computed⟩
    · exact received computed
    · obtain ⟨rests, apart⟩ := Remedy.exclude_placed parsed unmarked computed
      exact edited_of_apart rests apart
  · obtain ⟨set, computed, rfl⟩ := exists_of_resolve resolved
    obtain ⟨new, applied, edited⟩ := (received computed).applied
    exact ⟨set, new, computed, applied, edited⟩

/-- A project whose lines end with a carriage return and a line feed, and a conflict in it. -/
def returnFeedProject : Document where
  path := ⟨"/p/pom.xml"⟩
  text := "<project>\r\n\t<dependencies>\r\n<dependency><groupId>g</groupId>\r\n" ++
    "<artifactId>a</artifactId>\r\n<version>1</version> \r\n</dependency></dependencies>\r\n</project>"

def conflictInProject : Finding where
  diagnostic := ⟨⟨⟨2, 0⟩, ⟨5, 13⟩⟩, "Dependency conflict in a: g:a:2 conflict with 1"⟩
  node := 1
  key := ⟨"g", "a"⟩
  version := "2"
  effectiveVersion := "1"
  root := ⟨"g", "a"⟩

/-- Two edits resolve the conflict. One removes the line of the version, and the other replaces the
ending of a line. -/
theorem Finding.resolve_received_returnFeed :
    ∃ tree edits new, Tree.parse returnFeedProject.text = .ok tree ∧
      returnFeedProject.spanOf (returnFeedProject.rangeOf tree.root.range) = tree.root.range ∧
      conflictInProject.resolve returnFeedProject "2" Remedy.Style.standard = .ok (some edits) ∧
      edits.length = 2 ∧ returnFeedProject.editedBy? edits = some new := by
  have noMark : ¬ BeginsWithMark returnFeedProject.text := by
    unfold BeginsWithMark
    decide +kernel
  have accepted : (Tree.parse returnFeedProject.text).map (fun _ => ()) = .ok () := by
    decide +kernel
  obtain ⟨tree, parsed, -⟩ := Tree.exists_of_map_parse accepted
  have twoEdits : (pin returnFeedProject ⟨"g", "a"⟩ "1" "2" Remedy.Style.standard).toOption.map
      (fun set => set.map fun set => set.added.length) = some (some 2) := by decide +kernel
  obtain ⟨set, computed, two⟩ : ∃ set,
      pin returnFeedProject ⟨"g", "a"⟩ "1" "2" Remedy.Style.standard = .ok (some set) ∧
        set.added.length = 2 := by
    match computed : pin returnFeedProject ⟨"g", "a"⟩ "1" "2" Remedy.Style.standard with
    | .error failure =>
      rw [computed] at twoEdits
      cases twoEdits
    | .ok none =>
      rw [computed] at twoEdits
      cases twoEdits
    | .ok (some set) =>
      rw [computed] at twoEdits
      exact ⟨set, rfl, by simpa [Except.toOption] using twoEdits⟩
  have resolved : conflictInProject.resolve returnFeedProject "2" Remedy.Style.standard =
      .ok (some (set.positionEdits returnFeedProject)) := by
    have same : pin returnFeedProject conflictInProject.key conflictInProject.effectiveVersion "2"
        Remedy.Style.standard = .ok (some set) := computed
    rw [Finding.resolve, same]
    rfl
  obtain ⟨spans, -, resolves⟩ := Finding.resolve_received returnFeedProject tree noMark parsed
  obtain ⟨-, new, -, -, edited⟩ := resolves conflictInProject "2" Remedy.Style.standard _ resolved
  refine ⟨tree, _, _, parsed, (spans _ tree.root_mem_places).1, resolved, ?_, edited⟩
  rw [EditSet.positionEdits, List.length_map, set.edits_perm.length_eq, two]

end PomLens
