import Mathlib.Data.List.Forall2
import TypedLang.Listing
import TypedLang.Proofs.Printing

/-!
# The lines of a listing

A listing tells its lines apart as long as no line has a newline in it, and the level of a line as
long as its text does not start with a blank. The lines below a heading are those up to the next
line at the level of the heading.
-/

namespace TypedLang

namespace Bytes

/-- Whether a text can head a line: it has no newline, and a first byte that is no space. -/
def IsHeading (text : Bytes) : Prop :=
  text.IsLine ∧ text.head?.any (· != Byte.space)

instance : DecidablePred IsHeading :=
  fun text => inferInstanceAs (Decidable (text.IsLine ∧ text.head?.any (· != Byte.space)))

theorem IsHeading.append {text rest : Bytes} (isHeading : text.IsHeading) (isLine : rest.IsLine) :
    (text ++ rest).IsHeading := by
  rcases isHeading with ⟨textIsLine, solid⟩
  refine ⟨isLine_append_iff.mpr ⟨textIsLine, isLine⟩, ?_⟩
  rcases text with _ | ⟨first, more⟩
  · cases solid
  · exact solid

end Bytes

namespace Line

/-- A line as it is printed, without its newline. -/
def indented (line : Line) : Bytes :=
  List.replicate (2 * line.level) Byte.space ++ line.text

theorem renderAll_eq (lines : List Line) :
    renderAll lines = Bytes.unlines (lines.map indented) := by
  rw [Bytes.unlines, List.flatMap_map]
  refine List.flatMap_congr fun line _ => ?_
  simp only [render, indented, Bytes.concat, List.flatten_cons, List.flatten_nil, List.append_assoc,
    List.append_nil]
  rfl

theorem isLine_indented {line : Line} (isHeading : line.text.IsHeading) :
    line.indented.IsLine := by
  refine Bytes.isLine_append_iff.mpr ⟨?_, isHeading.1⟩
  intro member
  cases (List.mem_replicate.mp member).2

/-- The spaces in front of a line tell its level. -/
theorem takeWhile_indented {line : Line} (isHeading : line.text.IsHeading) :
    line.indented.takeWhile (· == Byte.space) = List.replicate (2 * line.level) Byte.space := by
  rw [indented, List.takeWhile_append_of_pos (by simp)]
  rcases line with ⟨level, _ | ⟨first, rest⟩⟩
  · cases isHeading.2
  · have solid : first ≠ Byte.space := by simpa using isHeading.2
    simp [solid]

theorem indented_inj {line other : Line} (isHeading : line.text.IsHeading)
    (otherIsHeading : other.text.IsHeading) (same : line.indented = other.indented) :
    line = other := by
  have spaces := congrArg (List.takeWhile (· == Byte.space)) same
  rw [takeWhile_indented isHeading, takeWhile_indented otherIsHeading] at spaces
  have levels := congrArg List.length spaces
  rw [indented, indented, spaces] at same
  rcases line with ⟨level, text⟩
  rcases other with ⟨otherLevel, otherText⟩
  simp only [List.length_replicate] at levels
  have level_eq : level = otherLevel := by omega
  have text_eq : text = otherText := List.append_cancel_left same
  rw [level_eq, text_eq]

/-- A listing whose lines all have headings is printed in a way that can be read back. -/
theorem renderAll_inj {lines others : List Line} (headings : ∀ line ∈ lines, line.text.IsHeading)
    (otherHeadings : ∀ line ∈ others, line.text.IsHeading)
    (same : renderAll lines = renderAll others) : lines = others := by
  rw [renderAll_eq, renderAll_eq] at same
  have indented_eq := Bytes.unlines_injective
    (List.forall_mem_map.mpr fun line member => isLine_indented (headings line member))
    (List.forall_mem_map.mpr fun line member => isLine_indented (otherHeadings line member)) same
  clear same
  induction lines generalizing others with
  | nil => exact (List.map_eq_nil_iff.mp indented_eq.symm).symm
  | cons line lines ih =>
      rcases others with _ | ⟨other, others⟩
      · cases indented_eq
      rw [List.forall_mem_cons] at headings otherHeadings
      rcases List.cons.inj indented_eq with ⟨first, rest⟩
      rw [indented_inj headings.1 otherHeadings.1 first, ih headings.2 otherHeadings.2 rest]

/-- Lines that do not go on with the lines below an earlier heading. -/
def StartsOver (lines : List Line) : Prop :=
  ∀ line ∈ lines.head?, line.level = 0

theorem startsOver_nil : StartsOver [] := by
  simp [StartsOver]

theorem startsOver_cons (text : Bytes) (lines : List Line) : StartsOver (⟨0, text⟩ :: lines) := by
  simp [StartsOver]

theorem indent_injective : Function.Injective indent := by
  rintro ⟨level, text⟩ ⟨otherLevel, otherText⟩ same
  simp only [indent, Line.mk.injEq] at same
  rw [Nat.succ_injective same.1, same.2]

theorem indent_append_inj {lines others rest otherRest : List Line} (fresh : StartsOver rest)
    (otherFresh : StartsOver otherRest)
    (same : lines.map indent ++ rest = others.map indent ++ otherRest) :
    lines = others ∧ rest = otherRest := by
  induction lines generalizing others with
  | nil =>
      rcases others with _ | ⟨other, others⟩
      · exact ⟨rfl, same⟩
      · cases fresh other.indent (by rw [show rest = _ from same]; rfl)
  | cons line lines ih =>
      rcases others with _ | ⟨other, others⟩
      · cases otherFresh line.indent (by rw [show otherRest = _ from same.symm]; rfl)
      · rcases List.cons.inj same with ⟨first, others_eq⟩
        rcases ih others_eq with ⟨lines_eq, rest_eq⟩
        exact ⟨congrArg₂ _ (indent_injective first) lines_eq, rest_eq⟩

/-- A heading, the lines below it and the lines behind them are told apart. -/
theorem under_append_inj {heading other : Bytes} {lines others rest otherRest : List Line}
    (fresh : StartsOver rest) (otherFresh : StartsOver otherRest)
    (same : under heading lines ++ rest = under other others ++ otherRest) :
    heading = other ∧ lines = others ∧ rest = otherRest := by
  rcases List.cons.inj same with ⟨first, behind⟩
  exact ⟨congrArg Line.text first, indent_append_inj fresh otherFresh behind⟩

theorem under_inj {heading other : Bytes} {lines others : List Line}
    (same : under heading lines = under other others) : heading = other ∧ lines = others := by
  rw [← List.append_nil (under heading lines), ← List.append_nil (under other others)] at same
  rcases under_append_inj startsOver_nil startsOver_nil same with ⟨heading_eq, lines_eq, _⟩
  exact ⟨heading_eq, lines_eq⟩

theorem isHeading_under {heading : Bytes} {lines : List Line} (isHeading : heading.IsHeading)
    (headings : ∀ line ∈ lines, line.text.IsHeading) :
    ∀ line ∈ under heading lines, line.text.IsHeading := by
  refine List.forall_mem_cons.mpr ⟨isHeading, ?_⟩
  rintro line member
  rcases List.mem_map.mp member with ⟨inner, innerMem, rfl⟩
  exact headings inner innerMem

section

variable {Piece : Type} {headingOf : Nat → Piece → Bytes} {linesOf othersOf : Piece → List Line}

/-- The lines of several pieces, each below a heading with its number, from `index` on. -/
def numbered (headingOf : Nat → Piece → Bytes) (linesOf : Piece → List Line) :
    Nat → List Piece → List Line
  | _, [] => []
  | index, piece :: pieces =>
      under (headingOf index piece) (linesOf piece) ++ numbered headingOf linesOf (index + 1) pieces

theorem startsOver_numbered (index : Nat) (pieces : List Piece) :
    StartsOver (numbered headingOf linesOf index pieces) := by
  cases pieces with
  | nil => exact startsOver_nil
  | cons piece pieces => exact startsOver_cons _ _

/-- Numbered pieces are as many as there are headings, and each is told by its own lines. -/
theorem numbered_inj {Alike : Piece → Piece → Prop} {index : Nat} {pieces others : List Piece}
    (alike : ∀ piece ∈ pieces, ∀ other ∈ others, ∀ index,
      headingOf index piece = headingOf index other → linesOf piece = othersOf other →
        Alike piece other)
    (same : numbered headingOf linesOf index pieces = numbered headingOf othersOf index others) :
    List.Forall₂ Alike pieces others := by
  induction pieces generalizing index others with
  | nil =>
      cases others with
      | nil => exact .nil
      | cons other others => cases same
  | cons piece pieces ih =>
      cases others with
      | nil => cases same
      | cons other others =>
          rcases under_append_inj (startsOver_numbered _ _) (startsOver_numbered _ _) same with
            ⟨heading_eq, lines_eq, rest_eq⟩
          refine .cons (alike piece List.mem_cons_self other List.mem_cons_self index heading_eq
            lines_eq) (ih ?_ rest_eq)
          intro piece member other otherMember
          exact alike piece (List.mem_cons_of_mem _ member) other
            (List.mem_cons_of_mem _ otherMember)

theorem isHeading_numbered {index : Nat} {pieces : List Piece}
    (isHeading : ∀ piece ∈ pieces, ∀ index, (headingOf index piece).IsHeading)
    (headings : ∀ piece ∈ pieces, ∀ line ∈ linesOf piece, line.text.IsHeading) :
    ∀ line ∈ numbered headingOf linesOf index pieces, line.text.IsHeading := by
  induction pieces generalizing index with
  | nil => simp [numbered]
  | cons piece pieces ih =>
      rw [List.forall_mem_cons] at isHeading headings
      exact List.forall_mem_append.mpr
        ⟨isHeading_under (isHeading.1 index) headings.1, ih isHeading.2 headings.2⟩

/-- The lines of numbered pieces, with a line of its own for an empty list. -/
def listed (headingOf : Nat → Piece → Bytes) (linesOf : Piece → List Line) :
    List Piece → List Line
  | [] => [⟨0, "<none>"⟩]
  | piece :: pieces => numbered headingOf linesOf 0 (piece :: pieces)

/-- The line for an empty list is told from the heading of a piece by its first byte. -/
theorem listed_inj {Alike : Piece → Piece → Prop} {pieces others : List Piece}
    (heads : ∀ piece, (headingOf 0 piece).head? ≠ (Bytes.ofText "<none>").head?)
    (alike : ∀ piece ∈ pieces, ∀ other ∈ others, ∀ index,
      headingOf index piece = headingOf index other → linesOf piece = othersOf other →
        Alike piece other)
    (same : listed headingOf linesOf pieces = listed headingOf othersOf others) :
    List.Forall₂ Alike pieces others := by
  cases pieces with
  | nil =>
      cases others with
      | nil => exact .nil
      | cons other others =>
          have headings := congrArg text (List.cons.inj same).1
          exact absurd (congrArg List.head? headings).symm (heads other)
  | cons piece pieces =>
      cases others with
      | nil =>
          have headings := congrArg text (List.cons.inj same).1
          exact absurd (congrArg List.head? headings) (heads piece)
      | cons other others => exact numbered_inj alike same

theorem listed_of_forall₂ {Alike : Piece → Piece → Prop} {pieces others : List Piece}
    (alike : List.Forall₂ Alike pieces others)
    (same : ∀ index piece other, Alike piece other →
      headingOf index piece = headingOf index other ∧ linesOf piece = othersOf other) :
    listed headingOf linesOf pieces = listed headingOf othersOf others := by
  have numbered_eq (index : Nat) :
      numbered headingOf linesOf index pieces = numbered headingOf othersOf index others := by
    induction alike generalizing index with
    | nil => rfl
    | cons first _ ih =>
        rcases same index _ _ first with ⟨heading_eq, lines_eq⟩
        rw [numbered, numbered, heading_eq, lines_eq, ih]
  cases alike with
  | nil => rfl
  | cons first rest => exact numbered_eq 0

theorem isHeading_listed {pieces : List Piece}
    (isHeading : ∀ piece ∈ pieces, ∀ index, (headingOf index piece).IsHeading)
    (headings : ∀ piece ∈ pieces, ∀ line ∈ linesOf piece, line.text.IsHeading) :
    ∀ line ∈ listed headingOf linesOf pieces, line.text.IsHeading := by
  have word : Bytes.IsHeading "<none>" := by decide
  cases pieces with
  | nil => simpa [listed] using word
  | cons piece pieces => exact isHeading_numbered isHeading headings

end

end Line

end TypedLang
