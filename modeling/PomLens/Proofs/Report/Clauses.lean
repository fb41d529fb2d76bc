/-
This file proves that the clauses of an entry's notes are found again and understood.

The notes stand in parentheses or behind a dash, a conflict is told in one clause or in two, and
the remark that the entry is optional may stand anywhere among the clauses. The notes are cut at
semicolons and at dashes between blanks, and each clause is freed of what sets it off. None of
this cuts or trims a clause itself (`clauses_framed`), and the clauses say again what they were
written for (`Entry.Noted.foldl_read`).
-/

import PomLens.Proofs.Text.Cutting
import PomLens.Report.Line

namespace PomLens.Report

/-! ### Clauses -/

/-- Texts of clauses: a semicolon stands between two of them, with or without blanks behind it. -/
inductive Joined : List (List Char) → List Char → Prop
  | last (clause : List Char) : Joined [clause] clause
  | cons {clause text : List Char} {clauses : List (List Char)} (gap : List Char)
    (spaces : ∀ char ∈ gap, char = ' ') (joined : Joined clauses text) :
    Joined (clause :: clauses) (clause ++ ';' :: (gap ++ text))

/-- The characters that may set a clause off. -/
def setsOff (char : Char) : Bool :=
  char == '(' || char == ')' || Text.isBlank char

theorem isBlank_of_setsOff {char : Char} (letter : setsOff char = false) :
    Text.isBlank char = false := by
  rw [setsOff, Bool.or_eq_false_iff] at letter
  exact letter.2

/-- The text has no dash between two blanks. -/
def Undashed (text : List Char) : Prop :=
  Text.splitAtText? " - ".toList text = none

theorem undashed_cons {char : Char} {rest : List Char} : Undashed (char :: rest) ↔
    (char = ' ' → ∀ after, rest ≠ '-' :: ' ' :: after) ∧ Undashed rest := by
  have starts (after : List Char) : Text.afterPrefix? " - ".toList (char :: rest) = some after ↔
      char = ' ' ∧ rest = '-' :: ' ' :: after := by
    rw [Text.afterPrefix?_eq_some_iff]
    exact List.cons_eq_cons
  rw [Undashed, Text.splitAtText?_cons_eq_none, Option.eq_none_iff_forall_ne_some]
  refine and_congr_left' ⟨fun never isSpace after same => ?_, fun never after found => ?_⟩
  · exact never after ((starts after).mpr ⟨isSpace, same⟩)
  · obtain ⟨isSpace, same⟩ := (starts after).mp found
    exact never isSpace after same

theorem undashed_of_unspaced {text : List Char} (unspaced : ' ' ∉ text) : Undashed text := by
  induction text with
  | nil => rfl
  | cons char rest inductionHypothesis =>
    rw [List.mem_cons, not_or] at unspaced
    exact undashed_cons.mpr ⟨fun same => absurd same.symm unspaced.1,
      inductionHypothesis unspaced.2⟩

/-- One blank before a word is no dash between blanks. -/
theorem undashed_space {word : List Char} (unspaced : ' ' ∉ word) : Undashed (' ' :: word) := by
  refine undashed_cons.mpr ⟨?_, undashed_of_unspaced unspaced⟩
  rintro - after rfl
  exact unspaced (by simp)

theorem Undashed.concat {text : List Char} (undashed : Undashed text) {last : Char}
    (isLetter : last ≠ ' ') : Undashed (text ++ [last]) := by
  induction text with
  | nil => exact undashed_cons.mpr ⟨fun same => absurd same isLetter, rfl⟩
  | cons char rest inductionHypothesis =>
    obtain ⟨noDash, undashed⟩ := undashed_cons.mp undashed
    refine undashed_cons.mpr ⟨fun isSpace after same => ?_, inductionHypothesis undashed⟩
    rcases rest with _ | ⟨first, _ | ⟨second, others⟩⟩
    · simp at same
    · simp [isLetter] at same
    · obtain ⟨rfl, rfl, -⟩ : first = '-' ∧ second = ' ' ∧ others ++ [last] = after := by
        simpa using same
      exact noDash isSpace others rfl

/-- A text that can be one clause. -/
structure IsClause (clause : List Char) : Prop where
  nonempty : clause ≠ []
  begins : ∀ first, clause.head? = some first → setsOff first = false ∧ first ≠ '-'
  ends : ∀ last, clause.getLast? = some last → setsOff last = false
  undashed : Undashed clause
  unseparated : ';' ∉ clause
  unbroken : '\n' ∉ clause

/-- What stands before a clause. -/
def IsLead (lead : List Char) : Prop :=
  lead = ['-', ' '] ∨ lead = ['('] ∨ ∀ char ∈ lead, char = ' '

/-- What stands behind the last clause. -/
def IsTrail (trail : List Char) : Prop :=
  trail = [] ∨ trail = [')']

section

variable {lead clause trail : List Char}

/-- A clause begins in the same way whatever stands behind it. -/
theorem IsClause.begins_append (isClause : IsClause clause) (trail : List Char) {first : Char}
    (isFirst : (clause ++ trail).head? = some first) : setsOff first = false ∧ first ≠ '-' := by
  cases clause with
  | nil => exact absurd rfl isClause.nonempty
  | cons start others => exact isClause.begins first isFirst

/-- The last character is not blank, whatever stands before. -/
theorem isBlank_getLast?_framed (isClause : IsClause clause) (isTrail : IsTrail trail)
    (lead : List Char) {last : Char} (isLast : (lead ++ (clause ++ trail)).getLast? = some last) :
    Text.isBlank last = false := by
  rw [← List.append_assoc] at isLast
  rcases isTrail with rfl | rfl
  · rw [List.append_nil, Text.getLast?_append_of_ne_nil isClause.nonempty] at isLast
    exact isBlank_of_setsOff (isClause.ends last isLast)
  · rw [List.getLast?_concat, Option.some.injEq] at isLast
    subst isLast
    rfl

/-- What stands before a clause is dropped. -/
theorem dropWhile_framed (isLead : IsLead lead) (isClause : IsClause clause)
    (isTrail : IsTrail trail) :
    ((Text.trim (lead ++ (clause ++ trail))).dropWhile (· == '-')).dropWhile setsOff =
      clause ++ trail := by
  have begins {first : Char} (isFirst : (clause ++ trail).head? = some first) :=
    isClause.begins_append trail isFirst
  have letters : (clause ++ trail).dropWhile setsOff = clause ++ trail :=
    Text.dropWhile_eq_self fun first isFirst => (begins isFirst).1
  have noDash : (clause ++ trail).dropWhile (· == '-') = clause ++ trail :=
    Text.dropWhile_eq_self fun first isFirst => by simpa using (begins isFirst).2
  have ends {front : List Char} (last : Char)
      (isLast : (front ++ (clause ++ trail)).getLast? = some last) : Text.isBlank last = false :=
    isBlank_getLast?_framed isClause isTrail front isLast
  rcases isLead with rfl | rfl | spaces
  · rw [Text.trim_eq_self (fun first isFirst => ?_) ends]
    · simpa [List.dropWhile_cons, setsOff, Text.isBlank] using letters
    · cases isFirst
      rfl
  · rw [Text.trim_eq_self (fun first isFirst => ?_) ends]
    · simpa [List.dropWhile_cons, setsOff] using letters
    · cases isFirst
      rfl
  · have blanks : ∀ char ∈ lead, Text.isBlank char = true := fun char member => by
      rw [spaces char member]
      rfl
    have trimmed : Text.trim (lead ++ (clause ++ trail)) = Text.trim (clause ++ trail) := by
      rw [Text.trim, Text.trimStart, List.dropWhile_append_of_pos blanks]
      rfl
    rw [trimmed, Text.trim_eq_self (fun first isFirst => isBlank_of_setsOff (begins isFirst).1)
      (@ends []), noDash, letters]

/-- A clause is freed of what sets it off. -/
theorem bareClause_framed (isLead : IsLead lead) (isClause : IsClause clause)
    (isTrail : IsTrail trail) : bareClause (lead ++ clause ++ trail) = clause := by
  have dropped := dropWhile_framed isLead isClause isTrail
  have trailOff : ∀ char ∈ trail, setsOff char = true := by
    rcases isTrail with rfl | rfl
    · simp
    · simp [setsOff]
  rw [List.append_assoc]
  exact (congrArg (Text.dropEndWhile setsOff) dropped).trans
    ((Text.dropEndWhile_append trailOff clause).trans (Text.dropEndWhile_eq_self isClause.ends))

theorem undashed_framed (isLead : IsLead lead) (isClause : IsClause clause)
    (isTrail : IsTrail trail) : Undashed (lead ++ clause ++ trail) := by
  have trailed : Undashed (clause ++ trail) := by
    rcases isTrail with rfl | rfl
    · rw [List.append_nil]
      exact isClause.undashed
    · exact isClause.undashed.concat (by decide)
  have spaced (gap : List Char) (spaces : ∀ char ∈ gap, char = ' ') :
      Undashed (gap ++ (clause ++ trail)) := by
    induction gap with
    | nil => exact trailed
    | cons char rest inductionHypothesis =>
      have inRest (other : Char) (member : other ∈ rest) : other = ' ' :=
        spaces other (List.mem_cons_of_mem _ member)
      refine undashed_cons.mpr ⟨fun _ after same => ?_, inductionHypothesis inRest⟩
      have isDash := congrArg List.head? same
      cases rest with
      | nil => exact (isClause.begins_append trail isDash).2 rfl
      | cons second others =>
        rw [inRest second List.mem_cons_self] at isDash
        exact absurd isDash (by simp)
  rw [List.append_assoc]
  rcases isLead with rfl | rfl | spaces
  · exact undashed_cons.mpr ⟨fun same => absurd same (by decide), spaced [' '] (by simp)⟩
  · exact undashed_cons.mpr ⟨fun same => absurd same (by decide), trailed⟩
  · exact spaced lead spaces

theorem IsLead.not_mem (isLead : IsLead lead) {char : Char}
    (other : char ≠ '-' ∧ char ≠ ' ' ∧ char ≠ '(') : char ∉ lead := by
  obtain ⟨noDash, noSpace, noOpening⟩ := other
  rcases isLead with rfl | rfl | spaces
  · simp [noDash, noSpace]
  · simpa using noOpening
  · exact fun member => noSpace (spaces char member)

theorem unseparated_framed (isLead : IsLead lead) (isClause : IsClause clause)
    (isTrail : IsTrail trail) : ∀ char ∈ lead ++ clause ++ trail, (char == ';') = false := by
  have noLead : ';' ∉ lead := isLead.not_mem (by decide)
  have noTrail : ';' ∉ trail := by rcases isTrail with rfl | rfl <;> decide
  intro char member
  rw [beq_eq_false_iff_ne]
  rintro rfl
  simp [noLead, noTrail, isClause.unseparated] at member

end

/-- The clauses are found again, whatever sets them off. -/
theorem clauses_framed {clauses : List (List Char)} {text : List Char}
    (joined : Joined clauses text) (areClauses : ∀ clause ∈ clauses, IsClause clause)
    {lead trail : List Char} (isLead : IsLead lead) (isTrail : IsTrail trail) :
    Report.clauses (lead ++ text ++ trail) = clauses := by
  induction joined generalizing lead with
  | last clause =>
    have isClause := areClauses clause List.mem_cons_self
    rw [Report.clauses, Text.splitOn_eq_singleton (unseparated_framed isLead isClause isTrail),
      List.flatMap_singleton,
      Text.splitOnText_eq_singleton (undashed_framed isLead isClause isTrail), List.map_singleton,
      bareClause_framed isLead isClause isTrail]
    simp [isClause.nonempty]
  | @cons clause text clauses gap spaces joined inductionHypothesis =>
    have isClause := areClauses clause List.mem_cons_self
    have further : Report.clauses (gap ++ text ++ trail) = clauses :=
      inductionHypothesis (fun other member => areClauses other (List.mem_cons_of_mem _ member))
        (Or.inr (Or.inr spaces))
    have whole : lead ++ (clause ++ ';' :: (gap ++ text)) ++ trail =
        (lead ++ clause ++ []) ++ ';' :: (gap ++ text ++ trail) := by
      simp
    have noTrail : IsTrail [] := Or.inl rfl
    rw [Report.clauses] at further
    rw [whole, Report.clauses,
      Text.splitOn_append (unseparated_framed isLead isClause noTrail) (by rfl),
      List.flatMap_cons, Text.splitOnText_eq_singleton (undashed_framed isLead isClause noTrail),
      List.singleton_append, List.map_cons, bareClause_framed isLead isClause noTrail,
      List.filter_cons_of_pos (by simpa using isClause.nonempty), further]

/-! ### The clauses of an entry -/

/-- A version that a conflict can name. -/
structure IsWinner (version : String) : Prop where
  nonempty : version ≠ ""
  plain : ∀ char ∈ version.toList,
    Text.isBlank char = false ∧ char ≠ ';' ∧ char ≠ '(' ∧ char ≠ ')'

instance (version : String) : Decidable (IsWinner version) :=
  decidable_of_iff (version ≠ "" ∧ version.toList.all (fun char =>
      !Text.isBlank char && char != ';' && char != '(' && char != ')') = true) <| by
    simp only [List.all_eq_true, Bool.and_eq_true, Bool.not_eq_true', bne_iff_ne, and_assoc]
    exact ⟨fun both => ⟨both.1, both.2⟩, fun isWinner => ⟨isWinner.nonempty, isWinner.plain⟩⟩

/-- An omission that clauses can tell of: a conflict names the version that was chosen, and
otherwise the node's own version is in effect. -/
structure Omission.Tellable (own : String) (omission : Option Omission) : Prop where
  winner : ∀ version, omission = some ⟨.conflict, version⟩ → IsWinner version
  unnamed : ∀ reason version, omission = some ⟨reason, version⟩ → reason ≠ .conflict →
    version = own

/-- The clauses that tell of an omission. A conflict is told in one or in two. -/
inductive Omission.Told : Option Omission → List (List Char) → Prop
  | nothing : Told none []
  | duplicate (version : String) :
    Told (some ⟨.duplicate, version⟩) ["omitted for duplicate".toList]
  | cycle (version : String) : Told (some ⟨.cycle, version⟩) ["omitted for cycle".toList]
  | conflict (version : String) :
    Told (some ⟨.conflict, version⟩) ["omitted for conflict with ".toList ++ version.toList]
  | effective (version : String) :
    Told (some ⟨.conflict, version⟩)
      ["omitted for conflict".toList, "effective version ".toList ++ version.toList]

/-- The clauses of an entry. One more says that it is optional. -/
inductive Entry.Noted (entry : Entry) : List (List Char) → Prop
  | required {clauses : List (List Char)} (isOptional : entry.isOptional = false)
    (told : Omission.Told entry.omission clauses) : Noted entry clauses
  | optional (before after : List (List Char)) (isOptional : entry.isOptional = true)
    (told : Omission.Told entry.omission (before ++ after)) :
    Noted entry (before ++ "optional".toList :: after)

theorem IsWinner.unspaced {version : String} (isWinner : IsWinner version) :
    ' ' ∉ version.toList :=
  fun member => absurd (isWinner.plain ' ' member).1 (by decide)

theorem IsWinner.ends {version : String} (isWinner : IsWinner version) (front : List Char)
    {last : Char} (isLast : (front ++ version.toList).getLast? = some last) :
    setsOff last = false := by
  rw [Text.getLast?_append_of_ne_nil (by simpa using isWinner.nonempty)] at isLast
  obtain ⟨noBlank, -, noOpening, noClosing⟩ := isWinner.plain last (List.mem_of_getLast? isLast)
  simp [setsOff, noBlank, noOpening, noClosing]

/-- Around a version there are no blanks to be trimmed. -/
theorem IsWinner.trim_append {version : String} (isWinner : IsWinner version) (front : List Char)
    (begins : ∀ first, (front ++ version.toList).head? = some first →
      Text.isBlank first = false) :
    Text.trim (front ++ version.toList) = front ++ version.toList :=
  Text.trim_eq_self begins fun _ isLast => isBlank_of_setsOff (isWinner.ends front isLast)

theorem IsWinner.trim_eq {version : String} (isWinner : IsWinner version) :
    Text.trim version.toList = version.toList :=
  isWinner.trim_append [] fun first isFirst => (isWinner.plain first (List.mem_of_head? isFirst)).1

/-- A clause may end with the version that was chosen. -/
theorem IsWinner.isClause {version : String} (isWinner : IsWinner version) {front : List Char}
    (nonempty : front ≠ [])
    (begins : ∀ first, front.head? = some first → setsOff first = false ∧ first ≠ '-')
    (undashed : Undashed (front ++ version.toList)) (unseparated : ';' ∉ front)
    (unbroken : '\n' ∉ front) :
    IsClause (front ++ version.toList) where
  nonempty := List.append_ne_nil_of_left_ne_nil nonempty _
  begins first isFirst := by
    cases front with
    | nil => exact absurd rfl nonempty
    | cons start others => exact begins first isFirst
  ends last isLast := isWinner.ends front isLast
  undashed := undashed
  unseparated := by
    rw [List.mem_append, not_or]
    exact ⟨unseparated, fun member => (isWinner.plain ';' member).2.1 rfl⟩
  unbroken := by
    rw [List.mem_append, not_or]
    exact ⟨unbroken, fun member => absurd (isWinner.plain '\n' member).1 (by decide)⟩

/-- The remarks that name no version are clauses. -/
theorem isClause_remark {clause : List Char}
    (isRemark : clause ∈ ["omitted for duplicate".toList, "omitted for cycle".toList,
      "omitted for conflict".toList, "optional".toList]) : IsClause clause := by
  simp only [List.mem_cons, List.not_mem_nil, or_false] at isRemark
  rcases isRemark with rfl | rfl | rfl | rfl
  all_goals
    refine ⟨by simp, ?_, ?_, rfl, by decide, by decide⟩
    · rintro first ⟨⟩
      decide
    · rintro last ⟨⟩
      decide

theorem Omission.Told.isClause {omission : Option Omission} {clauses : List (List Char)}
    (told : Told omission clauses) {own : String} (tellable : Tellable own omission) :
    ∀ clause ∈ clauses, IsClause clause := by
  intro clause member
  cases told with
  | nothing => cases member
  | duplicate version => exact isClause_remark (by simp [List.mem_singleton.mp member])
  | cycle version => exact isClause_remark (by simp [List.mem_singleton.mp member])
  | conflict version =>
    rw [List.mem_singleton.mp member]
    have isWinner := tellable.winner version rfl
    refine isWinner.isClause (by simp) ?_ ?_ (by decide) (by decide)
    · rintro first ⟨⟩
      decide
    · simpa [undashed_cons] using undashed_cons.mp (undashed_space isWinner.unspaced)
  | effective version =>
    have isWinner := tellable.winner version rfl
    rcases List.mem_cons.mp member with rfl | named
    · exact isClause_remark (by simp)
    · rw [List.mem_singleton.mp named]
      refine isWinner.isClause (by simp) ?_ ?_ (by decide) (by decide)
      · rintro first ⟨⟩
        decide
      · simpa [undashed_cons] using undashed_cons.mp (undashed_space isWinner.unspaced)

theorem Entry.Noted.isClause {entry : Entry}
    (tellable : Omission.Tellable entry.version entry.omission) {clauses : List (List Char)}
    (noted : entry.Noted clauses) :
    ∀ clause ∈ clauses, IsClause clause := by
  cases noted with
  | required isOptional told => exact told.isClause tellable
  | optional before after isOptional told =>
    intro clause member
    rcases List.mem_append.mp member with inBefore | here
    · exact told.isClause tellable clause (List.mem_append_left _ inBefore)
    · rcases List.mem_cons.mp here with rfl | inAfter
      · exact isClause_remark (by simp)
      · exact told.isClause tellable clause (List.mem_append_right _ inAfter)

/-! ### Reading clauses -/

theorem Notes.read_conflict {version : String} (isWinner : IsWinner version) (notes : Notes) :
    notes.read ("omitted for conflict with ".toList ++ version.toList) =
      { notes with reason := some .conflict, effectiveVersion := some version } := by
  have conflict : Text.afterPrefix? "omitted for conflict".toList
      ("omitted for conflict with ".toList ++ version.toList) =
        some (" with ".toList ++ version.toList) :=
    Text.afterPrefix?_eq_some_iff.mpr (by simp)
  have trimmed : Text.trim (" with ".toList ++ version.toList) =
      "with ".toList ++ version.toList := by
    have shorter : Text.trim (" with ".toList ++ version.toList) =
        Text.trim ("with ".toList ++ version.toList) := rfl
    rw [shorter, isWinner.trim_append _]
    rintro first ⟨⟩
    rfl
  have named : Text.afterPrefix? "with ".toList ("with ".toList ++ version.toList) =
      some version.toList := Text.afterPrefix?_eq_some_iff.mpr rfl
  simp only [Notes.read, conflict, trimmed, named, isWinner.trim_eq, String.ofList_toList]

theorem Notes.read_effective {version : String} (isWinner : IsWinner version) (notes : Notes) :
    notes.read ("effective version ".toList ++ version.toList) =
      { notes with effectiveVersion := some version } := by
  have named : Text.afterPrefix? "effective version ".toList
      ("effective version ".toList ++ version.toList) = some version.toList :=
    Text.afterPrefix?_eq_some_iff.mpr rfl
  have noConflict : Text.afterPrefix? "omitted for conflict".toList
      ("effective version ".toList ++ version.toList) = none := rfl
  have noDuplicate : Text.afterPrefix? "omitted for duplicate".toList
      ("effective version ".toList ++ version.toList) = none := rfl
  have noCycle : Text.afterPrefix? "omitted for cycle".toList
      ("effective version ".toList ++ version.toList) = none := rfl
  simp only [Notes.read, noConflict, noDuplicate, noCycle, named, isWinner.trim_eq,
    String.ofList_toList, Option.isSome_none, Bool.false_eq_true, ↓reduceIte]

/-- That an entry is optional does not matter to how a clause is read. -/
theorem Notes.read_optional (notes : Notes) (clause : List Char) :
    Notes.read { notes with isOptional := true } clause =
      { notes.read clause with isOptional := true } := by
  unfold Notes.read
  repeat' split
  all_goals rfl

/-- The remark that an entry is optional may stand anywhere. -/
theorem Notes.foldl_read_optional (notes : Notes) (before after : List (List Char)) :
    (before ++ "optional".toList :: after).foldl Notes.read notes =
      { (before ++ after).foldl Notes.read notes with isOptional := true } := by
  have moved (notes : Notes) (clauses : List (List Char)) :
      clauses.foldl Notes.read { notes with isOptional := true } =
        { clauses.foldl Notes.read notes with isOptional := true } := by
    induction clauses generalizing notes with
    | nil => rfl
    | cons clause rest inductionHypothesis =>
      rw [List.foldl_cons, List.foldl_cons, read_optional, inductionHypothesis]
  have remark (notes : Notes) :
      notes.read "optional".toList = { notes with isOptional := true } := rfl
  rw [List.foldl_append, List.foldl_append, List.foldl_cons, remark, moved]

/-- The omission is found again in the clauses that tell of it. -/
theorem Omission.Told.omission_foldl_read {omission : Option Omission}
    {clauses : List (List Char)} (told : Told omission clauses)
    {own : String} (tellable : Tellable own omission) (line : Nat) :
    (clauses.foldl Notes.read ⟨none, none, false⟩).isOptional = false ∧
      (clauses.foldl Notes.read ⟨none, none, false⟩).omission line own = .ok omission := by
  cases told with
  | nothing => exact ⟨rfl, rfl⟩
  | duplicate version =>
    rw [tellable.unnamed _ version rfl (by decide)]
    exact ⟨rfl, rfl⟩
  | cycle version =>
    rw [tellable.unnamed _ version rfl (by decide)]
    exact ⟨rfl, rfl⟩
  | conflict version =>
    rw [List.foldl_cons, List.foldl_nil, Notes.read_conflict (tellable.winner version rfl)]
    exact ⟨rfl, rfl⟩
  | effective version =>
    rw [List.foldl_cons, List.foldl_cons, List.foldl_nil,
      Notes.read_effective (tellable.winner version rfl)]
    exact ⟨rfl, rfl⟩

/-- What the clauses of an entry say is what the entry says. -/
theorem Entry.Noted.foldl_read {entry : Entry}
    (tellable : Omission.Tellable entry.version entry.omission) {clauses : List (List Char)}
    (noted : entry.Noted clauses) (line : Nat) :
    (clauses.foldl Notes.read ⟨none, none, false⟩).isOptional = entry.isOptional ∧
      (clauses.foldl Notes.read ⟨none, none, false⟩).omission line entry.version =
        .ok entry.omission := by
  cases noted with
  | required isOptional told =>
    rw [isOptional]
    exact told.omission_foldl_read tellable line
  | optional before after isOptional told =>
    rw [Notes.foldl_read_optional, isOptional]
    exact ⟨rfl, (told.omission_foldl_read tellable line).2⟩

end PomLens.Report
