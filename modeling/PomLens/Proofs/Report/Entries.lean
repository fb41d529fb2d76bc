/-
This file says what the entries of a forest that was read are made of.

Every entry was read from the body of some line (`Forest.read_of_mem_entries`), since growth adds
one entry and changes none. A coordinate ends at the first blank and none of its fields is empty,
so a field is a value that no layout can change (`Forest.solid_of_parse`).
-/

import PomLens.Proofs.Outcome
import PomLens.Proofs.Report.Reading
import PomLens.Proofs.Report.Spelling

namespace PomLens.Report

/-! ### The fields of a coordinate -/

/-- No field is empty, and each is cut out of the text. -/
theorem solid_of_fields? {text : List Char} {fields : List String}
    (read : fields? text = some fields) {field : String} (member : field ∈ fields) :
    field ≠ "" ∧ ∀ char ∈ field.toList, char ∈ text := by
  rw [fields?] at read
  split at read
  · cases read
  · next noneEmpty =>
    cases read
    obtain ⟨piece, isPiece, rfl⟩ := List.mem_map.mp member
    refine ⟨fun nothing => noneEmpty (List.any_eq_true.mpr ⟨piece, isPiece, ?_⟩), ?_⟩
    · simpa [String.ext_iff] using nothing
    · rw [String.toList_ofList]
      exact fun char inPiece => Text.mem_of_mem_splitOn isPiece inPiece

/-- The fields of an entry are those of a text without blanks. -/
theorem Entry.exists_coordinate {line : Nat} {body : List Char} {entry : Entry}
    (parsed : Entry.parse line body = .ok entry) :
    ∃ text, (∀ char ∈ text, Text.isBlank char = false) ∧ fields? text = some entry.fields := by
  unfold Entry.parse at parsed
  simp only at parsed
  refine ⟨_, Text.free_of_splitOnce? Text.isBlank (withoutParentheses (Text.trim body)), ?_⟩
  -- There are five fields, or six with a classifier.
  split at parsed
  · next read =>
    obtain ⟨fields, same, noted⟩ := exists_of_bind_eq_ok parsed
    cases same
    obtain ⟨omission, -, same⟩ := exists_of_bind_eq_ok noted
    cases same
    exact read
  · next read =>
    obtain ⟨fields, same, noted⟩ := exists_of_bind_eq_ok parsed
    cases same
    obtain ⟨omission, -, same⟩ := exists_of_bind_eq_ok noted
    cases same
    exact read
  · obtain ⟨fields, same, -⟩ := exists_of_bind_eq_ok parsed
    cases same

/-! ### Where entries come from -/

/-- What the nodes say, in report order. -/
def Forest.entries (forest : Forest) : List Entry :=
  forest.nodes.toList.map Node.entry

theorem Forest.entry_mem_entries {forest : Forest} {index : Nat} {node : Node}
    (found : forest.nodes[index]? = some node) : node.entry ∈ forest.entries :=
  List.mem_map_of_mem (Array.mem_toList_iff.mpr (Array.mem_of_getElem? found))

/-- Growth adds one entry and changes none. -/
@[simp] theorem Forest.entries_add (forest : Forest) (parent : Option Nat) (line depth : Nat)
    (entry : Entry) :
    (forest.add parent line depth entry).entries = forest.entries ++ [entry] := by
  cases parent with
  | none => simp [Forest.add, entries]
  | some above =>
    have kept (nodes : List Node) (child : Nat) :
        (nodes.modify above fun node => node.withChild child).map Node.entry =
          nodes.map Node.entry := by
      refine List.ext_getElem? fun index => ?_
      rw [List.getElem?_map, List.getElem?_map, List.getElem?_modify]
      cases nodes[index]? with
      | none => rfl
      | some node =>
        simp only [Option.map_eq_map, Option.map_some]
        split <;> rfl
    simp [Forest.add, entries, kept]

/-- A line that is read adds at most the entry that its body holds. -/
theorem Reader.mem_entries_readLine {reader next : Reader} {raw : List Char} {line : Nat}
    (read : reader.readLine raw line = .ok next) {entry : Entry}
    (member : entry ∈ next.forest.entries) :
    entry ∈ reader.forest.entries ∨ ∃ body, Entry.parse line body = .ok entry := by
  rcases Reader.readLine_cases read with
    rfl | ⟨header, -, rfl⟩ | ⟨depth, body, new, -, parsed, rfl⟩
  · exact Or.inl member
  · exact Or.inl member
  · rw [Reader.addEntry, Forest.entries_add, List.mem_append, List.mem_singleton] at member
    rcases member with old | rfl
    · exact Or.inl old
    · exact Or.inr ⟨body, parsed⟩

theorem Reader.mem_entries_readLines {reader last : Reader} {line : Nat} {lines : List (List Char)}
    (read : reader.readLines line lines = .ok last) {entry : Entry}
    (member : entry ∈ last.forest.entries) :
    entry ∈ reader.forest.entries ∨ ∃ line body, Entry.parse line body = .ok entry := by
  induction lines generalizing reader line with
  | nil =>
    cases read
    exact Or.inl member
  | cons raw rest inductionHypothesis =>
    obtain ⟨next, first, others⟩ := exists_of_bind_eq_ok read
    rcases inductionHypothesis others with old | new
    · exact (Reader.mem_entries_readLine first old).imp_right fun parsed => ⟨line, parsed⟩
    · exact Or.inr new

/-- Every entry of a forest was read from a line. -/
theorem Forest.read_of_mem_entries {report : String} {forest : Forest}
    (parsed : Forest.parse report = .ok forest) {entry : Entry} (member : entry ∈ forest.entries) :
    ∃ line body, Entry.parse line body = .ok entry := by
  obtain ⟨reader, read, same⟩ := exists_of_bind_eq_ok parsed
  cases same
  exact (Reader.mem_entries_readLines read member).resolve_left fun inNone => by cases inNone

/-- What a report says of an artifact is never empty and holds no blank. -/
theorem Forest.solid_of_parse {report : String} {forest : Forest}
    (parsed : Forest.parse report = .ok forest) {index : Nat} {node : Node}
    (found : forest.nodes[index]? = some node) {field : String}
    (member : field ∈ node.entry.fields) :
    field ≠ "" ∧ ∀ char ∈ field.toList, Text.isBlank char = false := by
  obtain ⟨line, body, read⟩ := Forest.read_of_mem_entries parsed (Forest.entry_mem_entries found)
  obtain ⟨text, free, isFields⟩ := Entry.exists_coordinate read
  obtain ⟨nonempty, inText⟩ := solid_of_fields? isFields member
  exact ⟨nonempty, fun char inField => free char (inText char inField)⟩

end PomLens.Report
