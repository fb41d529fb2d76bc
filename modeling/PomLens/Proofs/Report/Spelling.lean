/-
This file says how an entry is written in the body of a line, and proves that it reads back.

An entry has many bodies (`Entry.Spelled`): its fields may stand alone, and notes may follow them
behind a dash, in parentheses, or with the fields in the same parentheses. A body does not begin
like a connector or like the log's mark, and does not end with a blank (`IsBody`), so that nothing
of it is lost when the line is freed of these.
-/

import PomLens.Proofs.Report.Clauses

namespace PomLens.Report

/-! ### What can be written -/

/-- A field that can be told from its neighbours. -/
structure IsToken (token : String) : Prop where
  nonempty : token ≠ ""
  plain : ∀ char ∈ token.toList,
    Text.isBlank char = false ∧ char ≠ ':' ∧ char ≠ '(' ∧ char ≠ ')'

/-- A field with which a body can begin. -/
structure IsGroup (group : String) : Prop extends IsToken group where
  begins : ∀ first, group.toList.head? = some first → isConnector first = false

instance (token : String) : Decidable (IsToken token) :=
  decidable_of_iff (token ≠ "" ∧ token.toList.all (fun char =>
      !Text.isBlank char && char != ':' && char != '(' && char != ')') = true) <| by
    simp only [List.all_eq_true, Bool.and_eq_true, Bool.not_eq_true', bne_iff_ne, and_assoc]
    exact ⟨fun both => ⟨both.1, both.2⟩, fun isToken => ⟨isToken.nonempty, isToken.plain⟩⟩

instance (group : String) : Decidable (IsGroup group) :=
  decidable_of_iff (IsToken group ∧
      group.toList.head?.all (fun first => !isConnector first) = true) <| by
    simp only [Option.all_eq_true, Bool.not_eq_true']
    exact ⟨fun both => ⟨both.1, both.2⟩, fun isGroup => ⟨isGroup.toIsToken, isGroup.begins⟩⟩

/-- An entry that a body can hold. -/
structure Entry.Writable (entry : Entry) : Prop where
  group : IsGroup entry.group
  artifact : IsToken entry.artifact
  packaging : IsToken entry.packaging
  classifier : ∀ classifier, entry.classifier = some classifier → IsToken classifier
  version : IsToken entry.version
  scope : IsToken entry.scope
  omission : Omission.Tellable entry.version entry.omission

structure Header.Writable (header : Header) : Prop where
  group : IsGroup header.group
  artifact : IsToken header.artifact
  packaging : IsToken header.packaging
  version : IsToken header.version

def Entry.fields (entry : Entry) : List String :=
  [entry.group, entry.artifact, entry.packaging] ++ entry.classifier.toList ++
    [entry.version, entry.scope]

def Header.fields (header : Header) : List String :=
  [header.group, header.artifact, header.packaging, header.version]

theorem Entry.Writable.isToken {entry : Entry} (writable : entry.Writable) :
    ∀ field ∈ entry.fields, IsToken field := by
  obtain ⟨group, artifact, packaging, classifier, version, scope, -⟩ := writable
  intro field member
  simp only [fields, List.cons_append, List.nil_append, List.mem_cons, List.mem_append,
    Option.mem_toList, List.not_mem_nil, or_false] at member
  rcases member with rfl | rfl | rfl | isClassifier | rfl | rfl
  · exact group.toIsToken
  · exact artifact
  · exact packaging
  · exact classifier field isClassifier
  · exact version
  · exact scope

theorem Header.Writable.isToken {header : Header} (writable : header.Writable) :
    ∀ field ∈ header.fields, IsToken field := by
  obtain ⟨group, artifact, packaging, version⟩ := writable
  intro field member
  simp only [fields, List.mem_cons, List.not_mem_nil, or_false] at member
  rcases member with rfl | rfl | rfl | rfl
  · exact group.toIsToken
  · exact artifact
  · exact packaging
  · exact version

/-! ### Coordinates -/

/-- Fields between colons. -/
def coordinateText (fields : List String) : List Char :=
  [':'].intercalate (fields.map String.toList)

section

variable {fields : List String} (tokens : ∀ field ∈ fields, IsToken field)

include tokens

/-- Only fields and colons are in a coordinate. -/
theorem plain_of_mem_coordinateText {char : Char} (member : char ∈ coordinateText fields) :
    Text.isBlank char = false ∧ char ≠ '(' ∧ char ≠ ')' := by
  rcases Text.mem_of_mem_intercalate member with colon | ⟨piece, isPiece, inPiece⟩
  · rw [List.mem_singleton.mp colon]
    decide
  · obtain ⟨field, isField, rfl⟩ := List.mem_map.mp isPiece
    obtain ⟨noBlank, -, noOpening, noClosing⟩ := (tokens field isField).plain char inPiece
    exact ⟨noBlank, noOpening, noClosing⟩

theorem fields?_coordinateText (some : fields ≠ []) :
    fields? (coordinateText fields) = .some fields := by
  have pieces : Text.splitOn (· == ':') (coordinateText fields) = fields.map String.toList := by
    refine Text.splitOn_intercalate (by simpa using some) ?_ (by rfl)
    intro piece isPiece char inPiece
    obtain ⟨field, isField, rfl⟩ := List.mem_map.mp isPiece
    simpa using ((tokens field isField).plain char inPiece).2.1
  have noneEmpty : (fields.map String.toList).any List.isEmpty = false := by
    rw [List.any_eq_false]
    intro piece isPiece
    obtain ⟨field, isField, rfl⟩ := List.mem_map.mp isPiece
    simpa using (tokens field isField).nonempty
  rw [fields?]
  simp only [pieces, noneEmpty, Bool.false_eq_true, ↓reduceIte]
  simp

end

/-! ### Bodies -/

/-- A text that can be the body of a line. -/
structure IsBody (body : List Char) : Prop where
  nonempty : body ≠ []
  begins : ∀ first, body.head? = some first →
    isConnector first = false ∧ Text.isBlank first = false
  ends : ∀ last, body.getLast? = some last → Text.isBlank last = false
  unmarked : Text.afterPrefix? logMark body = none
  unbroken : '\n' ∉ body

/-- What follows the fields: nothing, or a blank and more. -/
structure IsTail (tail : List Char) : Prop where
  begins : tail = [] ∨ ∃ rest, tail = ' ' :: rest
  ends : ∀ last, tail.getLast? = some last → Text.isBlank last = false
  unbroken : '\n' ∉ tail

theorem isTail_nil : IsTail [] :=
  ⟨Or.inl rfl, fun _ isLast => absurd isLast (by simp), List.not_mem_nil⟩

section

variable {fields : List String} (tokens : ∀ field ∈ fields, IsToken field)

include tokens

theorem free_coordinateText : ∀ char ∈ coordinateText fields, Text.isBlank char = false :=
  fun _ member => (plain_of_mem_coordinateText tokens member).1

/-- The fields are what stands before the first blank. -/
theorem splitOnce?_coordinateText {tail : List Char} (isTail : IsTail tail) :
    (Text.splitOnce? Text.isBlank (coordinateText fields ++ tail)).getD
        (coordinateText fields ++ tail, []) = (coordinateText fields, tail.drop 1) := by
  rcases isTail.begins with rfl | ⟨rest, rfl⟩
  · rw [List.append_nil, Text.splitOnce?_eq_none (free_coordinateText tokens)]
    rfl
  · rw [Text.splitOnce?_append (free_coordinateText tokens) (by rfl)]
    rfl

/-- Fields are not the log's mark, since that has no colon. -/
theorem afterPrefix?_logMark_coordinateText (colon : ':' ∈ coordinateText fields)
    {tail : List Char} (isTail : IsTail tail) :
    Text.afterPrefix? logMark (coordinateText fields ++ tail) = none := by
  rw [Option.eq_none_iff_forall_ne_some]
  intro rest marked
  have whole : coordinateText fields ++ tail = "[INFO]".toList ++ ' ' :: rest :=
    (Text.afterPrefix?_eq_some_iff.mp marked).trans rfl
  have split := splitOnce?_coordinateText tokens isTail
  rw [whole, Text.splitOnce?_append (by simp [Text.isBlank]) (by rfl)] at split
  have same : "[INFO]".toList = coordinateText fields := congrArg Prod.fst split
  rw [← same] at colon
  exact absurd colon (by decide)

end

/-- Fields can begin a body, with an opening parenthesis before them or without. -/
theorem isBody_of_fields {group second : String} {others : List String} (isGroup : IsGroup group)
    (tokens : ∀ field ∈ group :: second :: others, IsToken field) {opening tail : List Char}
    (isOpening : opening = [] ∨ opening = ['(']) (isTail : IsTail tail) :
    IsBody (opening ++ (coordinateText (group :: second :: others) ++ tail)) := by
  have whole : coordinateText (group :: second :: others) =
      group.toList ++ ':' :: coordinateText (second :: others) := by
    simp [coordinateText]
  obtain ⟨first, letters, isFirst⟩ : ∃ first letters, group.toList = first :: letters :=
    List.exists_cons_of_ne_nil (by simpa using isGroup.nonempty)
  refine ⟨by simp [whole], ?_, ?_, ?_, ?_⟩
  · intro start isStart
    rcases isOpening with rfl | rfl
    · have isStart : group.toList.head? = some start := by simpa [whole, isFirst] using isStart
      exact ⟨isGroup.begins start isStart,
        (isGroup.plain start (List.mem_of_head? isStart)).1⟩
    · cases isStart
      exact ⟨rfl, rfl⟩
  · intro last isLast
    rw [← List.append_assoc, List.getLast?_append] at isLast
    cases isEnd : tail.getLast? with
    | some end' =>
      obtain rfl : end' = last := by simpa [isEnd] using isLast
      exact isTail.ends end' isEnd
    | none =>
      rw [isEnd, Option.none_or] at isLast
      rcases List.mem_append.mp (List.mem_of_getLast? isLast) with inOpening | inFields
      · rcases isOpening with rfl | rfl
        · cases inOpening
        · rw [List.mem_singleton.mp inOpening]
          rfl
      · exact free_coordinateText tokens last inFields
  · rcases isOpening with rfl | rfl
    · exact afterPrefix?_logMark_coordinateText tokens (by simp [whole]) isTail
    · rfl
  · have noOpening : '\n' ∉ opening := by rcases isOpening with rfl | rfl <;> decide
    have noFields : '\n' ∉ coordinateText (group :: second :: others) := fun member =>
      absurd (free_coordinateText tokens _ member) (by decide)
    simp [noOpening, noFields, isTail.unbroken]

/-! ### Headers -/

theorem Header.Writable.isBody {header : Header} (writable : header.Writable) :
    IsBody (coordinateText header.fields) := by
  have body := isBody_of_fields writable.group writable.isToken (Or.inl rfl) isTail_nil
  rwa [List.append_nil] at body

theorem Header.parse?_coordinateText {header : Header} (writable : header.Writable) :
    Header.parse? (coordinateText header.fields) = some header := by
  have noBlank : (coordinateText header.fields).any Text.isBlank = false := by
    rw [List.any_eq_false]
    intro char member
    simp [free_coordinateText writable.isToken char member]
  have read := fields?_coordinateText writable.isToken (by simp [fields])
  rw [Header.parse?, noBlank, read]
  rfl

/-! ### Notes -/

/-- Notes end with a clause. -/
theorem Joined.exists_eq_append {clauses : List (List Char)} {text : List Char}
    (joined : Joined clauses text) : ∃ front, ∃ clause ∈ clauses, text = front ++ clause := by
  induction joined with
  | last clause => exact ⟨[], clause, List.mem_cons_self, rfl⟩
  | @cons first text clauses gap spaces joined inductionHypothesis =>
    obtain ⟨front, clause, member, rfl⟩ := inductionHypothesis
    exact ⟨first ++ ';' :: (gap ++ front), clause, List.mem_cons_of_mem _ member, by simp⟩

theorem Joined.unbroken {clauses : List (List Char)} {text : List Char}
    (joined : Joined clauses text) (areClauses : ∀ clause ∈ clauses, IsClause clause) :
    '\n' ∉ text := by
  induction joined with
  | last clause => exact (areClauses clause List.mem_cons_self).unbroken
  | @cons first text clauses gap spaces joined inductionHypothesis =>
    have noGap : '\n' ∉ gap := fun member => absurd (spaces _ member) (by decide)
    have noRest := inductionHypothesis fun clause member =>
      areClauses clause (List.mem_cons_of_mem _ member)
    simp [(areClauses first List.mem_cons_self).unbroken, noGap, noRest]

theorem isTail_framed {clauses : List (List Char)} {text : List Char}
    (joined : Joined clauses text) (areClauses : ∀ clause ∈ clauses, IsClause clause)
    {lead trail : List Char} (isLead : IsLead lead) (isTrail : IsTrail trail) :
    IsTail (' ' :: (lead ++ text ++ trail)) where
  begins := Or.inr ⟨_, rfl⟩
  ends last isLast := by
    obtain ⟨front, clause, member, rfl⟩ := joined.exists_eq_append
    refine isBlank_getLast?_framed (areClauses clause member) isTrail (' ' :: (lead ++ front)) ?_
    simpa using isLast
  unbroken := by
    have noLead : '\n' ∉ lead := isLead.not_mem (by decide)
    have noTrail : '\n' ∉ trail := by rcases isTrail with rfl | rfl <;> decide
    simp [noLead, noTrail, joined.unbroken areClauses]

theorem clauses_nil : clauses [] = [] := by
  rw [clauses, Text.splitOn_eq_singleton (by simp), List.flatMap_singleton,
    Text.splitOnText_eq_singleton (by rfl)]
  rfl

/-! ### Entries -/

/-- The bodies of an entry. -/
inductive Entry.Spelled (entry : Entry) : List Char → Prop
  | bare (noted : entry.Noted []) : Spelled entry (coordinateText entry.fields)
  | dashed {clauses : List (List Char)} {notes : List Char} (noted : entry.Noted clauses)
    (joined : Joined clauses notes) :
    Spelled entry (coordinateText entry.fields ++ (" - ".toList ++ notes))
  | bracketed {clauses : List (List Char)} {notes : List Char} (noted : entry.Noted clauses)
    (joined : Joined clauses notes) :
    Spelled entry (coordinateText entry.fields ++ (" (".toList ++ notes ++ [')']))
  | enclosed {clauses : List (List Char)} {notes : List Char} (noted : entry.Noted clauses)
    (joined : Joined clauses notes) :
    Spelled entry (['('] ++ (coordinateText entry.fields ++ (" - ".toList ++ notes ++ [')'])))

namespace Entry

variable {entry : Entry} {body tail : List Char}

/-- A tail that holds the notes of an entry. -/
structure Follows (entry : Entry) (tail : List Char) : Prop where
  isTail : IsTail tail
  noted : entry.Noted (clauses (tail.drop 1))

theorem follows_nil (noted : entry.Noted []) : entry.Follows [] := by
  refine ⟨isTail_nil, ?_⟩
  rwa [List.drop_nil, clauses_nil]

theorem follows_framed (writable : entry.Writable) {clauses : List (List Char)}
    {notes : List Char} (noted : entry.Noted clauses) (joined : Joined clauses notes)
    {lead trail : List Char} (isLead : IsLead lead) (isTrail : IsTrail trail) :
    entry.Follows (' ' :: (lead ++ notes ++ trail)) := by
  have areClauses := noted.isClause writable.omission
  refine ⟨isTail_framed joined areClauses isLead isTrail, ?_⟩
  rwa [List.drop_succ_cons, List.drop_zero, clauses_framed joined areClauses isLead isTrail]

theorem follows_dashed (writable : entry.Writable) {clauses : List (List Char)}
    {notes : List Char} (noted : entry.Noted clauses) (joined : Joined clauses notes) :
    entry.Follows (" - ".toList ++ notes) := by
  have follows := follows_framed writable noted joined (Or.inl rfl) (Or.inl rfl)
  rwa [List.append_nil] at follows

/-- With a tail that holds its notes behind its fields, an entry is read. -/
theorem parse_of_follows (writable : entry.Writable) (follows : entry.Follows tail)
    (bare : withoutParentheses (Text.trim body) = coordinateText entry.fields ++ tail)
    (line : Nat) : Entry.parse line body = .ok entry := by
  obtain ⟨isOptional, omission⟩ := follows.noted.foldl_read writable.omission line
  have split := splitOnce?_coordinateText writable.isToken follows.isTail
  have read := fields?_coordinateText writable.isToken (by simp [fields])
  unfold Entry.parse
  simp only [bare, split, read]
  generalize (clauses (tail.drop 1)).foldl Notes.read ⟨none, none, false⟩ = notes
    at isOptional omission
  obtain ⟨group, artifact, packaging, classifier, version, scope, optional, omitted⟩ := entry
  obtain rfl : notes.isOptional = optional := isOptional
  have omission : notes.omission line version = .ok omitted := omission
  -- The fields are five or six, and all else is the same.
  cases classifier with
  | none =>
    change (notes.omission line version >>= fun omission => _) = _
    rw [omission]
    rfl
  | some classifier =>
    change (notes.omission line version >>= fun omission => _) = _
    rw [omission]
    rfl

theorem isBody_of_tail (writable : entry.Writable) {opening : List Char}
    (isOpening : opening = [] ∨ opening = ['(']) (isTail : IsTail tail) :
    IsBody (opening ++ (coordinateText entry.fields ++ tail)) :=
  isBody_of_fields writable.group writable.isToken isOpening isTail

/-- Only the parentheses around the whole are taken off a body. -/
theorem bare_of_tail (writable : entry.Writable) (isTail : IsTail tail) :
    withoutParentheses (Text.trim (coordinateText entry.fields ++ tail)) =
      coordinateText entry.fields ++ tail := by
  have isBody := isBody_of_tail writable (Or.inl rfl) isTail
  rw [List.nil_append] at isBody
  have some : coordinateText entry.fields ≠ [] := by
    simpa using (isBody_of_tail writable (Or.inl rfl) isTail_nil).nonempty
  obtain ⟨first, others, whole⟩ := List.exists_cons_of_ne_nil some
  have opensNot : Text.afterPrefix? ['('] (coordinateText entry.fields ++ tail) = none := by
    have isFirst : first ∈ coordinateText entry.fields := by simp [whole]
    have letter : '(' ≠ first := (plain_of_mem_coordinateText writable.isToken isFirst).2.1.symm
    simp [whole, Text.afterPrefix?, letter]
  rw [Text.trim_eq_self (fun first isFirst => (isBody.begins first isFirst).2) isBody.ends,
    withoutParentheses, opensNot]
  rfl

theorem bare_of_enclosed (writable : entry.Writable) (isTail : IsTail (tail ++ [')'])) :
    withoutParentheses (Text.trim (['('] ++ (coordinateText entry.fields ++ (tail ++ [')'])))) =
      coordinateText entry.fields ++ tail := by
  have isBody := isBody_of_tail writable (Or.inr rfl) isTail
  have opens : Text.afterPrefix? ['('] (['('] ++ (coordinateText entry.fields ++ (tail ++ [')']))) =
      some (coordinateText entry.fields ++ tail ++ [')']) :=
    Text.afterPrefix?_eq_some_iff.mpr (by simp)
  have closes : Text.beforeSuffix? [')'] (coordinateText entry.fields ++ tail ++ [')']) =
      some (coordinateText entry.fields ++ tail) := Text.beforeSuffix?_eq_some_iff.mpr rfl
  rw [Text.trim_eq_self (fun first isFirst => (isBody.begins first isFirst).2) isBody.ends,
    withoutParentheses, opens, Option.bind_eq_bind, Option.bind_some, closes]
  rfl

theorem Spelled.isBody (spelled : entry.Spelled body) (writable : entry.Writable) :
    IsBody body := by
  cases spelled with
  | bare noted =>
    have isBody := isBody_of_tail writable (Or.inl rfl) isTail_nil
    rwa [List.append_nil] at isBody
  | dashed noted joined =>
    exact isBody_of_tail writable (Or.inl rfl) (follows_dashed writable noted joined).isTail
  | bracketed noted joined =>
    have follows := follows_framed writable noted joined (Or.inr (Or.inl rfl)) (Or.inr rfl)
    exact isBody_of_tail writable (Or.inl rfl) follows.isTail
  | enclosed noted joined =>
    have follows := follows_framed writable noted joined (Or.inl rfl) (Or.inr rfl)
    exact isBody_of_tail writable (Or.inr rfl) follows.isTail

/-- Whatever body it has, an entry is read back. -/
theorem Spelled.parse (spelled : entry.Spelled body) (writable : entry.Writable) (line : Nat) :
    Entry.parse line body = .ok entry := by
  cases spelled with
  | bare noted =>
    have bare := bare_of_tail writable isTail_nil
    rw [List.append_nil] at bare
    exact parse_of_follows writable (follows_nil noted) (by rwa [List.append_nil]) line
  | dashed noted joined =>
    have follows := follows_dashed writable noted joined
    exact parse_of_follows writable follows (bare_of_tail writable follows.isTail) line
  | bracketed noted joined =>
    have follows := follows_framed writable noted joined (Or.inr (Or.inl rfl)) (Or.inr rfl)
    exact parse_of_follows writable follows (bare_of_tail writable follows.isTail) line
  | enclosed noted joined =>
    have closed := follows_framed writable noted joined (Or.inl rfl) (Or.inr rfl)
    exact parse_of_follows writable (follows_dashed writable noted joined)
      (bare_of_enclosed writable closed.isTail) line

/-- No body of an entry is one of a project: it has more fields, or a blank. -/
theorem Spelled.header?_eq_none (spelled : entry.Spelled body) (writable : entry.Writable) :
    Header.parse? body = none := by
  have spaced {text : List Char} (blank : ' ' ∈ text) : Header.parse? text = none := by
    have isSpaced : text.any Text.isBlank = true := List.any_eq_true.mpr ⟨' ', blank, rfl⟩
    rw [Header.parse?, if_pos isSpaced]
  cases spelled with
  | bare noted =>
    have read := fields?_coordinateText writable.isToken (by simp [fields])
    rw [Header.parse?, read]
    obtain ⟨group, artifact, packaging, classifier, version, scope, optional, omitted⟩ := entry
    cases classifier <;> exact ite_self _
  | dashed noted joined => exact spaced (by simp)
  | bracketed noted joined => exact spaced (by simp)
  | enclosed noted joined => exact spaced (by simp)

end Entry

end PomLens.Report
