/-
This file follows edits that cut a text between the parts of its tokens.

The parts of the old text are listed with a note of those that are taken away with an element
(`Bit`). An edit that puts new tokens in place of some bits is known by what it does there
(`Splices`), and edits that follow one another make a text whose tokens are those of the bits
that they leave, and their own (`exists_makes`).

Whether attributes are lost is a matter of counting tags that have some: there are never more of
them behind the edits, and if an edit costs one there are fewer.
-/

import PomLens.Proofs.Edit.Amendment
import PomLens.Proofs.Markup.Surviving

namespace PomLens.Markup

open Text (size)

/-! ### Tags with attributes -/

def Token.hasAttributes : Token → Bool
  | .opening body | .selfClosing body => attributes body ≠ []
  | _ => false

/-- The number of tags that have attributes. -/
def attributed (tokens : List Token) : Nat :=
  tokens.countP Token.hasAttributes

@[simp] theorem attributed_append (first second : List Token) :
    attributed (first ++ second) = attributed first + attributed second :=
  List.countP_append

theorem attributed_cons (token : Token) (rest : List Token) :
    attributed (token :: rest) = attributed [token] + attributed rest :=
  attributed_append [token] rest

theorem attributed_closing (body : List Char) (rest : List Token) :
    attributed (.closing body :: rest) = attributed rest :=
  List.countP_cons_of_neg (by simp [Token.hasAttributes])

@[simp] theorem attributed_pending (run : List Char) : attributed (Piece.pending run) = 0 := by
  unfold Piece.pending
  split <;> rfl

@[simp] theorem attributed_singles (chars : List Char) : attributed (singles chars) = 0 :=
  List.countP_eq_zero.mpr fun token member => by
    obtain ⟨char, -, rfl⟩ := List.mem_map.mp member
    simp [Token.hasAttributes]

/-- Where tags keep their attributes there are not fewer that have some. -/
theorem Survives.attributed_le {expands : List Char → List Char → Prop} {old new : List Token}
    (survives : Survives expands old new)
    (kept : ∀ body opening, expands body opening → attributes opening = attributes body) :
    attributed old ≤ attributed new := by
  induction survives with
  | nil => exact Nat.le_refl 0
  | @new old new token _ inductionHypothesis =>
    rw [attributed_cons token new]
    exact Nat.le_add_left_of_le inductionHypothesis
  | @same old new token _ inductionHypothesis =>
    rw [attributed_cons token old, attributed_cons token new]
    exact Nat.add_le_add_left inductionHypothesis _
  | blanks _ _ inductionHypothesis => simpa [attributed, Token.hasAttributes]
  | data _ _ inductionHypothesis =>
    simpa [attributed, Token.hasAttributes] using inductionHypothesis
  | @expanded _ _ body opening closing inside allowed _ _ inductionHypothesis =>
    have same : attributed [.selfClosing body] = attributed [.opening opening] := by
      simp [attributed, Token.hasAttributes, kept body opening allowed]
    rw [attributed_cons, attributed_cons (.opening opening), attributed_append,
      attributed_closing, same]
    omega

theorem attributed_joined (run : List Char) (tokens : List Token) :
    attributed (joined run tokens) = attributed tokens := by
  induction tokens generalizing run with
  | nil => exact attributed_pending run
  | cons token rest inductionHypothesis =>
    cases token with
    | text more =>
      rw [joined, inductionHypothesis, attributed_cons]
      exact (Nat.zero_add _).symm
    | _ =>
      rw [joined_markup run (by simp), attributed_append, attributed_pending, Nat.zero_add,
        attributed_cons, inductionHypothesis, ← attributed_cons]

theorem attributed_parts (tokens : List Token) :
    attributed (tokens.flatMap Token.parts) = attributed tokens := by
  induction tokens with
  | nil => rfl
  | cons token rest inductionHypothesis =>
    rw [List.flatMap_cons, attributed_append, inductionHypothesis, attributed_cons token rest]
    congr 1
    cases token with
    | text run =>
      rw [Token.parts, attributed_append, attributed_append, attributed_singles,
        attributed_pending, attributed_singles]
      rfl
    | _ => rfl

/-! ### Bits -/

/-- A part of the old text, and whether it is taken away with an element. -/
structure Bit where
  token : Token
  gone : Bool

namespace Bit

/-- The text of some bits. -/
def written (bits : List Bit) : List Char :=
  writtenOf (bits.map Bit.token)

/-- The tokens that are not taken away. -/
def kept (bits : List Bit) : List Token :=
  (bits.filter fun bit => !bit.gone).map Bit.token

@[simp] theorem written_append (first second : List Bit) :
    written (first ++ second) = written first ++ written second := by
  rw [written, List.map_append, writtenOf_append]
  rfl

theorem written_cons (bit : Bit) (rest : List Bit) :
    written (bit :: rest) = bit.token.written ++ written rest :=
  writtenOf_cons _ _

@[simp] theorem kept_append (first second : List Bit) :
    kept (first ++ second) = kept first ++ kept second := by
  rw [kept, List.filter_append, List.map_append]
  rfl

/-- All that is left if nothing is taken away. -/
theorem kept_eq {bits : List Bit} (none : ∀ bit ∈ bits, bit.gone = false) :
    kept bits = bits.map Bit.token := by
  rw [kept, List.filter_eq_self.mpr fun bit member => by simp [none bit member]]

theorem kept_eq_nil {bits : List Bit} (all : ∀ bit ∈ bits, bit.gone = true) : kept bits = [] := by
  rw [kept, List.filter_eq_nil_iff.mpr fun bit member => by simp [all bit member]]
  rfl

theorem mem_kept {bits : List Bit} {token : Token} (member : token ∈ kept bits) :
    ∃ bit ∈ bits, bit.token = token := by
  obtain ⟨bit, inKept, same⟩ := List.mem_map.mp member
  exact ⟨bit, (List.mem_filter.mp inKept).1, same⟩

/-- The parts of all tokens, each as gone as its token. -/
def frayed (bits : List Bit) : List Bit :=
  bits.flatMap fun bit => bit.token.parts.map fun part => ⟨part, bit.gone⟩

theorem frayed_append (first second : List Bit) :
    frayed (first ++ second) = frayed first ++ frayed second :=
  List.flatMap_append

theorem frayed_cons (bit : Bit) (rest : List Bit) :
    frayed (bit :: rest) = bit.token.parts.map (fun part => ⟨part, bit.gone⟩) ++ frayed rest :=
  List.flatMap_cons

theorem gone_frayed {bits : List Bit} (all : ∀ bit ∈ bits, bit.gone = true) :
    ∀ part ∈ frayed bits, part.gone = true := by
  intro part member
  obtain ⟨bit, inBits, isPart⟩ := List.mem_flatMap.mp member
  obtain ⟨token, -, rfl⟩ := List.mem_map.mp isPart
  exact all bit inBits

theorem written_parts (token : Token) (gone : Bool) :
    written (token.parts.map fun part => ⟨part, gone⟩) = token.written := by
  rw [written, List.map_map]
  exact (congrArg writtenOf (List.map_id _)).trans token.writtenOf_parts

theorem written_frayed (bits : List Bit) : written (frayed bits) = written bits := by
  induction bits with
  | nil => rfl
  | cons bit rest inductionHypothesis =>
    rw [frayed_cons, written_append, inductionHypothesis, written_cons, written_parts]

theorem kept_frayed (bits : List Bit) : kept (frayed bits) = (kept bits).flatMap Token.parts := by
  induction bits with
  | nil => rfl
  | cons bit rest inductionHypothesis =>
    rw [frayed_cons, kept_append, inductionHypothesis, ← List.singleton_append,
      kept_append [bit], List.flatMap_append]
    congr 1
    obtain ⟨token, gone⟩ := bit
    cases gone with
    | true =>
      rw [kept_eq_nil (by simp), kept_eq_nil (by simp)]
      rfl
    | false =>
      rw [kept_eq (by simp), kept_eq (by simp), List.map_map, List.map_singleton,
        List.flatMap_singleton]
      exact List.map_id _

end Bit

open Bit (written kept frayed)

/-! ### Blanks at an end of some bits -/

/-- Edits may cut beside the bit, and blanks in it only if it is one of them. -/
def Bit.Cut (bit : Bit) : Prop :=
  bit.token.Loose ∨ bit.token.Firm

theorem Token.Loose.written_eq {token : Token} (loose : token.Loose) :
    ∃ char, token.written = [char] := by
  obtain ⟨char, rfl, -⟩ := loose
  exact ⟨char, rfl⟩

theorem Bit.Cut.solid {bit : Bit} (cut : bit.Cut) : bit.token.written ≠ [] := by
  intro none
  rcases cut with loose | firm
  · obtain ⟨char, written⟩ := loose.written_eq
    cases none.symm.trans written
  · obtain ⟨first, begins, -⟩ := firm.head
    rw [none] at begins
    cases begins

/-- Blanks at the front of bits are bits. -/
theorem exists_loose_front {bits : List Bit} (cut : ∀ bit ∈ bits, bit.Cut)
    {blanks rest : List Char} (whole : written bits = blanks ++ rest)
    (areBlank : Text.blank blanks = true) :
    ∃ first second, bits = first ++ second ∧ written first = blanks ∧
      ∀ bit ∈ first, bit.token.Loose := by
  induction blanks generalizing bits with
  | nil => exact ⟨[], bits, rfl, rfl, by simp⟩
  | cons char others inductionHypothesis =>
    obtain ⟨blankChar, blankOthers⟩ : Text.isBlank char = true ∧ Text.blank others = true := by
      simpa [Text.blank] using areBlank
    cases bits with
    | nil => cases whole
    | cons bit further =>
      obtain ⟨cutBit, cutFurther⟩ := List.forall_mem_cons.mp cut
      rw [Bit.written_cons] at whole
      rcases cutBit with loose | firm
      · obtain ⟨own, single⟩ := loose.written_eq
        rw [single, List.singleton_append, List.cons_append, List.cons.injEq] at whole
        obtain ⟨rfl, behind⟩ := whole
        obtain ⟨first, second, rfl, same, areLoose⟩ :=
          inductionHypothesis cutFurther behind blankOthers
        refine ⟨bit :: first, second, rfl, ?_, List.forall_mem_cons.mpr ⟨loose, areLoose⟩⟩
        rw [Bit.written_cons, single, same, List.singleton_append]
      · obtain ⟨head, begins, visible⟩ := firm.head
        have same := congrArg List.head? whole
        rw [List.head?_append, begins] at same
        obtain rfl : head = char := by simpa using same
        cases visible.symm.trans blankChar

/-- Blanks at the end of bits are bits. -/
theorem exists_loose_end {bits : List Bit} (cut : ∀ bit ∈ bits, bit.Cut)
    {blanks front : List Char} (whole : written bits = front ++ blanks)
    (areBlank : Text.blank blanks = true) :
    ∃ first second, bits = first ++ second ∧ written first = front ∧
      written second = blanks ∧ ∀ bit ∈ second, bit.token.Loose := by
  induction blanks using List.reverseRecOn generalizing bits with
  | nil => exact ⟨bits, [], by simp, by simpa using whole, rfl, by simp⟩
  | append_singleton others char inductionHypothesis =>
    obtain ⟨blankOthers, blankChar⟩ : Text.blank others = true ∧ Text.isBlank char = true := by
      simpa [Text.blank] using areBlank
    rcases List.eq_nil_or_concat bits with rfl | ⟨further, bit, rfl⟩
    · simp [written] at whole
    · rw [List.concat_eq_append] at cut whole ⊢
      obtain ⟨cutFurther, cutBit⟩ := List.forall_mem_append.mp cut
      rw [Bit.written_append, ← List.append_assoc] at whole
      have alone : written [bit] = bit.token.written := by simp [written]
      rcases cutBit bit (List.mem_singleton_self bit) with loose | firm
      · obtain ⟨own, single⟩ := loose.written_eq
        rw [alone, single] at whole
        obtain ⟨before, same⟩ := List.append_inj' whole rfl
        obtain ⟨first, second, rfl, front, same', areLoose⟩ :=
          inductionHypothesis cutFurther before blankOthers
        refine ⟨first, second ++ [bit], by simp, front, ?_, ?_⟩
        · rw [Bit.written_append, same', alone, single, same]
        · exact List.forall_mem_append.mpr ⟨areLoose, by simpa using loose⟩
      · obtain ⟨last, ends, visible⟩ := firm.last
        have same := congrArg List.getLast? whole
        rw [alone, List.getLast?_append, ends, List.getLast?_concat] at same
        obtain rfl : last = char := by simpa using same
        cases visible.symm.trans blankChar

/-- The parts of legible tokens are where edits may cut. -/
theorem cut_frayed {bits : List Bit} (legible : ∀ bit ∈ bits, bit.token.Legible) :
    ∀ bit ∈ frayed bits, bit.token.Legible ∧ bit.Cut := by
  intro part member
  obtain ⟨bit, inBits, isPart⟩ := List.mem_flatMap.mp member
  obtain ⟨token, inToken, rfl⟩ := List.mem_map.mp isPart
  exact (legible bit inBits).parts token inToken

/-- Loose bits need not survive. -/
theorem survives_of_loose {expands : List Char → List Char → Prop} {bits : List Bit}
    (loose : ∀ bit ∈ bits, bit.token.Loose) (new : List Token) :
    Survives expands (kept bits) new := by
  refine .of_blank (fun token member => ?_) new
  obtain ⟨bit, inBits, rfl⟩ := Bit.mem_kept member
  obtain ⟨char, same, blankChar⟩ := loose bit inBits
  exact ⟨[char], same, by simpa [Text.blank] using blankChar⟩

/-! ### What spans take away -/

/-- Tokens from an offset on. Those that one of the spans encloses are taken away. -/
def marked (spans : List Span) (offset : Nat) : List Token → List Bit
  | [] => []
  | token :: rest =>
    let stop := offset + size token.written
    ⟨token, spans.any fun span => span.encloses (.between offset stop)⟩ :: marked spans stop rest

/-- The tokens of a text that are not inside any of the spans. -/
def tokensOutside (spans : List Span) (tokens : List Token) : List Token :=
  kept (marked spans 0 tokens)

theorem map_token_marked (spans : List Span) (offset : Nat) (tokens : List Token) :
    (marked spans offset tokens).map Bit.token = tokens := by
  induction tokens generalizing offset with
  | nil => rfl
  | cons token rest inductionHypothesis =>
    rw [marked, List.map_cons, inductionHypothesis]

theorem written_marked (spans : List Span) (offset : Nat) (tokens : List Token) :
    written (marked spans offset tokens) = writtenOf tokens := by
  rw [written, map_token_marked]

theorem marked_append (spans : List Span) (offset : Nat) (first second : List Token) :
    marked spans offset (first ++ second) =
      marked spans offset first ++ marked spans (offset + size (writtenOf first)) second := by
  induction first generalizing offset with
  | nil => rfl
  | cons token rest inductionHypothesis =>
    rw [List.cons_append, marked, marked, inductionHypothesis, writtenOf_cons, Text.size_append,
      ← Nat.add_assoc]
    rfl

/-- What stands in one of the spans is taken away. -/
theorem gone_of_mem_marked {spans : List Span} {span : Span} (isSpan : span ∈ spans)
    {offset : Nat} {tokens : List Token} (starts : span.start ≤ offset)
    (stops : offset + size (writtenOf tokens) ≤ span.stop) :
    ∀ bit ∈ marked spans offset tokens, bit.gone = true := by
  induction tokens generalizing offset with
  | nil => simp [marked]
  | cons token rest inductionHypothesis =>
    rw [writtenOf_cons, Text.size_append] at stops
    refine List.forall_mem_cons.mpr ⟨?_, inductionHypothesis (by omega) (by omega)⟩
    refine List.any_eq_true.mpr ⟨span, isSpan, Span.encloses_iff.mpr ⟨starts, ?_⟩⟩
    rw [Span.stop_between_add]
    omega

/-- What is taken away stands where one of the edits does. -/
def GoneWithin (edits : List Edit) (offset : Nat) : List Bit → Prop
  | [] => True
  | bit :: rest =>
    let stop := offset + size bit.token.written
    (bit.gone = true → ∃ edit ∈ edits, edit.span.start ≤ offset ∧ stop ≤ edit.span.stop) ∧
      GoneWithin edits stop rest

section

variable {edits : List Edit} {offset : Nat}

theorem goneWithin_append {first second : List Bit} :
    GoneWithin edits offset (first ++ second) ↔ GoneWithin edits offset first ∧
      GoneWithin edits (offset + size (written first)) second := by
  induction first generalizing offset with
  | nil => simp [GoneWithin, written]
  | cons bit rest inductionHypothesis =>
    rw [List.cons_append, GoneWithin, GoneWithin, inductionHypothesis, Bit.written_cons,
      Text.size_append, ← Nat.add_assoc, and_assoc]

/-- In front of all edits nothing is taken away. -/
theorem GoneWithin.none_gone {bits : List Bit} (within : GoneWithin edits offset bits)
    (solid : ∀ bit ∈ bits, bit.token.written ≠ [])
    (before : ∀ edit ∈ edits, offset + size (written bits) ≤ edit.span.start) :
    ∀ bit ∈ bits, bit.gone = false := by
  induction bits generalizing offset with
  | nil => simp
  | cons bit rest inductionHypothesis =>
    obtain ⟨solidBit, solidRest⟩ := List.forall_mem_cons.mp solid
    rw [Bit.written_cons, Text.size_append] at before
    refine List.forall_mem_cons.mpr ⟨?_, inductionHypothesis within.2 solidRest ?_⟩
    · by_contra isGone
      obtain ⟨edit, member, starts, -⟩ := within.1 (by simpa using isGone)
      have width := mt Text.size_eq_zero_iff.mp solidBit
      have := before edit member
      omega
    · intro edit member
      rw [Nat.add_assoc]
      exact before edit member

/-- Behind the first edit only the others take anything away. -/
theorem GoneWithin.behind {bits : List Bit} {edit : Edit}
    (within : GoneWithin (edit :: edits) offset bits)
    (solid : ∀ bit ∈ bits, bit.token.written ≠ []) (after : edit.span.stop ≤ offset) :
    GoneWithin edits offset bits := by
  induction bits generalizing offset with
  | nil => trivial
  | cons bit rest inductionHypothesis =>
    obtain ⟨solidBit, solidRest⟩ := List.forall_mem_cons.mp solid
    refine ⟨fun isGone => ?_, inductionHypothesis within.2 solidRest (by omega)⟩
    obtain ⟨other, member, starts, stops⟩ := within.1 isGone
    rcases List.mem_cons.mp member with rfl | inRest
    · have width := mt Text.size_eq_zero_iff.mp solidBit
      omega
    · exact ⟨other, inRest, starts, stops⟩

theorem goneWithin_of_enclosed {bits : List Bit} {edit : Edit} (isEdit : edit ∈ edits)
    (starts : edit.span.start ≤ offset) (stops : offset + size (written bits) ≤ edit.span.stop) :
    GoneWithin edits offset bits := by
  induction bits generalizing offset with
  | nil => trivial
  | cons bit rest inductionHypothesis =>
    rw [Bit.written_cons, Text.size_append] at stops
    exact ⟨fun _ => ⟨edit, isEdit, starts, by omega⟩, inductionHypothesis (by omega) (by omega)⟩

theorem goneWithin_of_kept {bits : List Bit} (none : ∀ bit ∈ bits, bit.gone = false) :
    GoneWithin edits offset bits := by
  induction bits generalizing offset with
  | nil => trivial
  | cons bit rest inductionHypothesis =>
    obtain ⟨keptBit, keptRest⟩ := List.forall_mem_cons.mp none
    refine ⟨fun isGone => ?_, inductionHypothesis keptRest⟩
    cases keptBit.symm.trans isGone

/-- If each span lies in an edit's, what is taken away stands where edits do. -/
theorem goneWithin_frayed {spans : List Span}
    (covered : ∀ span ∈ spans, ∃ edit ∈ edits, edit.span.encloses span) (tokens : List Token) :
    GoneWithin edits offset (frayed (marked spans offset tokens)) := by
  induction tokens generalizing offset with
  | nil => trivial
  | cons token rest inductionHypothesis =>
    rw [marked, Bit.frayed_cons, goneWithin_append, Bit.written_parts]
    refine ⟨?_, inductionHypothesis⟩
    cases isGone : spans.any fun span =>
        span.encloses (.between offset (offset + size token.written)) with
    | false => exact goneWithin_of_kept (by simp)
    | true =>
      obtain ⟨span, isSpan, encloses⟩ := List.any_eq_true.mp isGone
      obtain ⟨edit, isEdit, around⟩ := covered span isSpan
      rw [Span.encloses_iff, Span.start_between, Span.stop_between_add] at encloses
      rw [Span.encloses_iff] at around
      refine goneWithin_of_enclosed isEdit (around.1.trans encloses.1) ?_
      rw [Bit.written_parts]
      exact encloses.2.trans around.2

end

/-! ### Edits between bits -/

/-- An edit that puts new tokens in place of some bits. What is left of these bits survives in the
new tokens. Those have no attributes, so an edit that costs some takes a tag away that had. -/
def Splices (expands : List Char → List Char → Prop) (costs : Edit → Prop) (bits : List Bit)
    (edit : Edit) : Prop :=
  ∃ before cut after new, bits = before ++ (cut ++ after) ∧
    size (written before) = edit.span.start ∧
    size (written before) + size (written cut) = edit.span.stop ∧
    writtenOf new = edit.text.toList ∧ (∀ token ∈ new, token.Legible) ∧
    Survives expands (kept cut) new ∧ attributed new = 0 ∧
    (costs edit → 0 < attributed (kept cut))

/-- Of two beginnings of some bits, the smaller one is a beginning of the other. -/
theorem exists_middle {first second rest rest' : List Bit}
    (same : first ++ rest = second ++ rest') (solid : ∀ bit ∈ first, bit.token.written ≠ [])
    (smaller : size (written first) ≤ size (written second)) :
    ∃ middle, second = first ++ middle ∧ rest = middle ++ rest' := by
  rcases List.append_eq_append_iff.mp same with ⟨middle, inSecond, inRest⟩ | ⟨middle, inFirst, -⟩
  · exact ⟨middle, inSecond, inRest⟩
  · -- The difference has no size, so there is none.
    cases middle with
    | nil =>
      rw [List.append_nil] at inFirst
      subst inFirst
      exact ⟨[], (List.append_nil _).symm, List.append_cancel_left same⟩
    | cons bit others =>
      have width := mt Text.size_eq_zero_iff.mp (solid bit (by simp [inFirst]))
      rw [inFirst, Bit.written_append, Bit.written_cons, Text.size_append, Text.size_append]
        at smaller
      omega

/-- Tokens that edits make of some bits: those of the bits that they leave, and their own. There are
not more of them with attributes, and fewer if an edit costs some. -/
structure Makes (expands : List Char → List Char → Prop) (costs : Edit → Prop) (offset : Nat)
    (bits : List Bit) (edits : List Edit) (new : List Token) : Prop where
  amends : Amends offset (written bits) edits (writtenOf new)
  legible : ∀ token ∈ new, token.Legible
  survives : Survives expands (kept bits) new
  fewer : attributed new ≤ attributed (kept bits)
  costly : (∃ edit ∈ edits, costs edit) → attributed new < attributed (kept bits)

namespace Makes

variable {expands : List Char → List Char → Prop} {costs : Edit → Prop} {offset : Nat}
  {bits : List Bit} {edits : List Edit} {new : List Token}

theorem unchanged (legible : ∀ bit ∈ bits, bit.token.Legible)
    (none : ∀ bit ∈ bits, bit.gone = false) :
    Makes expands costs offset bits [] (bits.map Bit.token) := by
  have all := Bit.kept_eq none
  refine ⟨.keep _ _, by simpa using legible, ?_, ?_, by simp⟩
  · rw [all]
    exact .refl _
  · rw [all]

/-- Bits in front of all edits are left. -/
theorem behind {front : List Bit}
    (makes : Makes expands costs (offset + size (written front)) bits edits new)
    (legible : ∀ bit ∈ front, bit.token.Legible) (none : ∀ bit ∈ front, bit.gone = false) :
    Makes expands costs offset (front ++ bits) edits (front.map Bit.token ++ new) := by
  have all := Bit.kept_eq none
  refine ⟨?_, List.forall_mem_append.mpr ⟨by simpa using legible, makes.legible⟩, ?_, ?_,
    fun costsSome => ?_⟩
  · rw [Bit.written_append, writtenOf_append]
    exact makes.amends.behind
  · rw [Bit.kept_append, all]
    exact (Survives.refl _).append makes.survives
  · rw [Bit.kept_append, all, attributed_append, attributed_append]
    exact Nat.add_le_add_left makes.fewer _
  · rw [Bit.kept_append, all, attributed_append, attributed_append]
    exact Nat.add_lt_add_left (makes.costly costsSome) _

/-- One more edit puts its own tokens in place of the bits in front of the others. -/
theorem edit {edit : Edit} {cut : List Bit} {own : List Token}
    (makes : Makes expands costs edit.span.stop bits edits new)
    (stop : edit.span.stop = edit.span.start + size (written cut))
    (text : writtenOf own = edit.text.toList) (legible : ∀ token ∈ own, token.Legible)
    (survives : Survives expands (kept cut) own) (plain : attributed own = 0)
    (costsEdit : costs edit → 0 < attributed (kept cut)) :
    Makes expands costs edit.span.start (cut ++ bits) (edit :: edits) (own ++ new) := by
  refine ⟨?_, List.forall_mem_append.mpr ⟨legible, makes.legible⟩, ?_, ?_, ?_⟩
  · rw [Bit.written_append, writtenOf_append, text]
    exact .edit [] (written cut) rfl stop makes.amends
  · rw [Bit.kept_append]
    exact survives.append makes.survives
  · rw [Bit.kept_append, attributed_append, attributed_append, plain, Nat.zero_add]
    exact Nat.le_add_left_of_le makes.fewer
  · rw [Bit.kept_append, attributed_append, attributed_append, plain, Nat.zero_add]
    have := makes.fewer
    rintro ⟨other, member, costsOther⟩
    rcases List.mem_cons.mp member with rfl | later
    · have := costsEdit costsOther
      omega
    · have := makes.costly ⟨other, later, costsOther⟩
      omega

end Makes

/-- Edits that splice some bits one behind the other make tokens of them. -/
theorem exists_makes {expands : List Char → List Char → Prop} {costs : Edit → Prop}
    {before rest : List Bit} {edits : List Edit}
    (solid : ∀ bit ∈ before ++ rest, bit.token.written ≠ [])
    (legible : ∀ bit ∈ rest, bit.token.Legible)
    (splices : ∀ edit ∈ edits, Splices expands costs (before ++ rest) edit)
    (ordered : edits.Pairwise fun first second => first.span.stop ≤ second.span.start)
    (behind : ∀ edit ∈ edits, size (written before) ≤ edit.span.start)
    (within : GoneWithin edits (size (written before)) rest) :
    ∃ new, Makes expands costs (size (written before)) rest edits new := by
  induction edits generalizing before rest with
  | nil =>
    have solidRest := (List.forall_mem_append.mp solid).2
    exact ⟨_, .unchanged legible (within.none_gone solidRest (by simp))⟩
  | cons edit others inductionHypothesis =>
    obtain ⟨splicesEdit, splicesOthers⟩ := List.forall_mem_cons.mp splices
    obtain ⟨endsFirst, orderedOthers⟩ := List.pairwise_cons.mp ordered
    obtain ⟨front, cut, after, own, whole, start, stop, text, legibleOwn, survives, plain,
      costsEdit⟩ := splicesEdit
    obtain ⟨middle, rfl, rfl⟩ := exists_middle whole (List.forall_mem_append.mp solid).1
      (by rw [start]; exact behind edit List.mem_cons_self)
    rw [Bit.written_append, Text.size_append] at start stop
    obtain ⟨withinMiddle, withinRest⟩ := goneWithin_append.mp within
    obtain ⟨-, withinAfter⟩ := goneWithin_append.mp withinRest
    obtain ⟨legibleMiddle, legibleRest⟩ := List.forall_mem_append.mp legible
    have place : size (written (before ++ middle ++ cut)) = edit.span.stop := by
      rw [Bit.written_append, Bit.written_append, Text.size_append, Text.size_append, stop]
    have regrouped : before ++ (middle ++ (cut ++ after)) = before ++ middle ++ cut ++ after := by
      simp only [List.append_assoc]
    rw [regrouped] at solid splicesOthers
    obtain ⟨solidFront, solidAfter⟩ := List.forall_mem_append.mp solid
    have solidMiddle : ∀ bit ∈ middle, bit.token.written ≠ [] := fun bit member =>
      solidFront bit (List.mem_append_left _ (List.mem_append_right _ member))
    -- All edits are behind the bits in the middle, so these are all kept.
    have inFront : ∀ other ∈ edit :: others, edit.span.start ≤ other.span.start :=
      List.forall_mem_cons.mpr ⟨Nat.le_refl _, fun other member =>
        edit.span.ordered.trans (endsFirst other member)⟩
    have none := withinMiddle.none_gone solidMiddle (by rwa [start])
    rw [stop] at withinAfter
    obtain ⟨later, makes⟩ :=
      inductionHypothesis solid (List.forall_mem_append.mp legibleRest).2 splicesOthers
        orderedOthers (by rwa [place])
        (by rw [place]; exact withinAfter.behind solidAfter (Nat.le_refl _))
    rw [place] at makes
    have here := makes.edit (by rw [← stop, start]) text legibleOwn survives plain costsEdit
    rw [← start] at here
    exact ⟨_, here.behind legibleMiddle none⟩

end PomLens.Markup
