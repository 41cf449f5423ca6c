import TypedLang.Proofs.Reports.Labels
import TypedLang.Proofs.Source.Lines

/-!
# The line table

The line table of a text holds the text: its lines, put one below the other, give the text back. A
line is found for every offset of a text that is not empty, the one behind the last byte included,
and the line together with the column in it gives the offset back. So places are in the order of
their offsets.
-/

namespace TypedLang

/-- The newline at the end of a text, if there is one. -/
def Bytes.finalNewline (text : Bytes) : Bytes :=
  if text.getLast? = some Byte.newline then [Byte.newline] else []

namespace Bytes

theorem finalNewline_of_not_mem {text : Bytes} (free : Byte.newline ∉ text) :
    finalNewline text = [] :=
  if_neg fun last => free (List.mem_of_getLast? last)

theorem finalNewline_append {front back : Bytes} (more : back ≠ []) :
    finalNewline (front ++ back) = finalNewline back := by
  rw [finalNewline, finalNewline, List.getLast?_append, List.getLast?_eq_some_getLast more,
    Option.some_or]

theorem finalNewline_cons (byte : Byte) {back : Bytes} (more : back ≠ []) :
    finalNewline (byte :: back) = finalNewline back := by
  rw [← List.singleton_append, finalNewline_append more]

end Bytes

/-- Counting along a text, a line begins behind every newline. -/
theorem Location.line_foldl (front : Bytes) (place : Location) :
    (front.foldl Location.next place).line = place.line + front.count Byte.newline := by
  induction front generalizing place with
  | nil => rfl
  | cons byte front ih =>
      rw [List.foldl_cons, ih, next, List.count_cons]
      by_cases isNewline : byte = Byte.newline
      · simp [isNewline, Nat.add_assoc, Nat.add_comm 1]
      · simp [isNewline]

/-- A place comes before another one: in an earlier line, or in the same line further left. -/
def Location.Before (place later : Location) : Prop :=
  place.line < later.line ∨ place.line = later.line ∧ place.column < later.column

namespace Location.Before

theorem irrefl (place : Location) : ¬ place.Before place := by
  simp only [Before]
  omega

theorem ne {place later : Location} (before : place.Before later) : place ≠ later := by
  rintro rfl
  exact irrefl place before

theorem asymm {place later : Location} (before : place.Before later) : ¬ later.Before place := by
  simp only [Before] at *
  omega

end Location.Before

namespace Source

/--
The lines of what is left of a text are pieces of it without newlines, and with newlines between
them they give it back. The bytes of the line that has begun count as left.
-/
theorem exists_texts (source : Source) {before current text : Bytes}
    (split : source.text = before ++ (current ++ text)) (begun : Byte.newline ∉ current) :
    ∃ texts, (linesFrom (before.length + current.length) current.length text).map source.slice =
        texts.map some ∧ (∀ line ∈ texts, Byte.newline ∉ line) ∧
      (texts = [] → current ++ text = []) ∧
      [Byte.newline].intercalate texts ++ (current ++ text).finalNewline = current ++ text := by
  induction text generalizing before current with
  | nil =>
      rw [linesFrom, List.append_nil] at *
      by_cases empty : current = []
      · rw [if_pos (by rw [empty]; rfl)]
        exact ⟨[], rfl, by simp, fun _ => empty, by rw [empty]; rfl⟩
      · rw [if_neg (fun length_eq => empty (List.length_eq_zero_iff.mp length_eq)),
          Nat.add_sub_cancel]
        have whole : source.text = before ++ (current ++ []) := by rw [split, List.append_nil]
        refine ⟨[current], ?_, by simpa using begun, by simp, ?_⟩
        · rw [List.map_singleton, slice_ofLength whole]
          rfl
        · rw [Bytes.finalNewline_of_not_mem begun, List.append_nil, List.intercalate_singleton]
  | cons byte rest ih =>
      rw [linesFrom]
      by_cases isNewline : byte = Byte.newline
      · -- The line ends here, and the next one begins with nothing of it read.
        rw [if_pos isNewline, Nat.add_sub_cancel]
        have behind : source.text = before ++ current ++ [byte] ++ ([] ++ rest) := by
          rw [split]
          simp
        rcases ih behind List.not_mem_nil with ⟨texts, slices, free, none, joined⟩
        refine ⟨current :: texts, ?_, List.forall_mem_cons.mpr ⟨begun, free⟩, by simp, ?_⟩
        · rw [List.map_cons, List.map_cons, slice_ofLength split, ← slices]
          simp [Nat.add_assoc]
        · rw [List.nil_append] at none joined
          rw [Bytes.finalNewline_append (List.cons_ne_nil byte rest), isNewline]
          cases rest with
          | nil =>
              obtain rfl := List.map_eq_nil_iff.mp slices.symm
              rw [List.intercalate_singleton]
              rfl
          | cons next rest =>
              rcases texts with _ | ⟨first, texts⟩
              · cases none rfl
              · rw [List.intercalate_cons_cons,
                  Bytes.finalNewline_cons _ (List.cons_ne_nil next rest), List.append_assoc, joined,
                  List.append_assoc, List.singleton_append]
      · rw [if_neg isNewline]
        have behind : source.text = before ++ (current ++ [byte] ++ rest) := by
          rw [split]
          simp
        rcases ih behind (by simpa [Ne.symm isNewline] using begun) with
          ⟨texts, slices, free, none, joined⟩
        simp only [List.append_assoc, List.singleton_append, List.length_append,
          List.length_singleton, ← Nat.add_assoc] at slices none joined
        exact ⟨texts, slices, free, none, joined⟩

/-- The line that going through the lines in order finds: the first not to end before the offset. -/
def scanLine (lines : List Span) (offset : Nat) : Nat :=
  min (lines.findIdx fun line => offset ≤ line.stop) (lines.length - 1)

/--
The line of an offset, with what is known of its number: there are as many lines before it as there
are newlines before the offset, unless the offset is behind the newline that ends the last line.
-/
structure FindsLine (source : Source) (offset index : Nat) (line : Span) : Prop where
  line_eq : source.lineContaining offset = some index
  found : source.lines[index]? = some line
  start_le : line.start ≤ offset
  index_eq : index =
    min ((source.text.take offset).count Byte.newline) (source.lines.length - 1)
  scan_eq : index = scanLine source.lines offset

theorem IsLineOf.scan_eq {lines : List Span} {offset index : Nat} {line : Span}
    (isLine : IsLineOf lines offset index line) : index = scanLine lines offset := by
  have index_lt := (List.getElem?_eq_some_iff.mp isLine.found).1
  have findIdx_eq : (lines.findIdx fun line => offset ≤ line.stop) = index := by
    rw [List.findIdx_eq index_lt]
    refine ⟨decide_eq_true (isLine.behind index (Nat.le_refl _) _ (by simp)), ?_⟩
    intro other less
    have ends := isLine.before other less _ (List.getElem?_eq_getElem (Nat.lt_trans less index_lt))
    exact decide_eq_false (Nat.not_le_of_lt ends)
  rw [scanLine, findIdx_eq]
  omega

/-- All lines but the last end before the end of the text. -/
theorem exists_linesFrom_eq_concat {position length : Nat} {text : Bytes}
    (within : length ≤ position) (some : length ≠ 0 ∨ text ≠ []) :
    ∃ others line, linesFrom position length text = others ++ [line] ∧
      (∀ other ∈ others, other.stop < position + text.length) ∧
      line.start ≤ position + text.length ∧ others.length ≤ text.count Byte.newline := by
  induction text generalizing position length with
  | nil =>
      rw [linesFrom, if_neg (by simpa using some)]
      exact ⟨[], _, rfl, by simp, Nat.sub_le _ _, Nat.zero_le _⟩
  | cons byte rest ih =>
      rw [linesFrom, List.length_cons, ← Nat.add_assoc, Nat.add_right_comm]
      by_cases isNewline : byte = Byte.newline
      · rw [if_pos isNewline]
        have start_le : (Span.ofLength (position - length) length).start ≤ position :=
          Nat.sub_le _ _
        have stop_eq : (Span.ofLength (position - length) length).stop = position :=
          Nat.sub_add_cancel within
        cases rest with
        | nil => exact ⟨[], _, rfl, by simp, Nat.le_succ_of_le start_le, Nat.zero_le _⟩
        | cons next rest =>
            rcases ih (Nat.zero_le (position + 1)) (.inr (List.cons_ne_nil next rest)) with
              ⟨others, line, lines_eq, ends, line_le, fewer⟩
            refine ⟨_ :: others, line, by rw [lines_eq, List.cons_append], ?_, line_le, ?_⟩
            · rw [List.forall_mem_cons]
              exact ⟨by omega, ends⟩
            · rw [isNewline, List.count_cons_self]
              exact Nat.succ_le_succ fewer
      · rw [if_neg isNewline]
        rcases ih (Nat.succ_le_succ within) (.inl (Nat.succ_ne_zero length)) with
          ⟨others, line, lines_eq, ends, line_le, fewer⟩
        exact ⟨others, line, lines_eq, ends, line_le,
          Nat.le_trans fewer (List.count_le_count_cons)⟩

/-- The end of a text belongs to its last line. -/
theorem exists_findsLine_length {source : Source} (nonempty : source.text ≠ []) :
    ∃ index line, source.FindsLine source.text.length index line := by
  rcases exists_linesFrom_eq_concat (Nat.le_refl 0) (.inr nonempty) with
    ⟨others, line, lines_eq, ends, line_le, fewer⟩
  rw [Nat.zero_add] at ends line_le
  change source.lines = others ++ [line] at lines_eq
  have length_eq : source.lines.length = others.length + 1 := by simp [lines_eq]
  have found : source.lines[others.length]? = some line := by simp [lines_eq]
  have before : ∀ other < others.length, ∀ span, source.lines[other]? = some span →
      span.stop < source.text.length := by
    intro other less span found
    rw [lines_eq, List.getElem?_append_left less] at found
    exact ends span (List.mem_of_getElem? found)
  refine ⟨others.length, line, ?line, found, line_le, ?index, ?scan⟩
  case line =>
    by_cases reaches : source.text.length ≤ line.stop
    · refine IsLineOf.lineContaining_eq ⟨found, line_le, reaches, before, ?_⟩ (Nat.le_refl _)
      intro other le span other_eq
      obtain rfl : other = others.length := by
        have other_lt := (List.getElem?_eq_some_iff.mp other_eq).1
        omega
      cases found.symm.trans other_eq
      exact reaches
    · -- Behind a final newline all lines end before the offset, and the last one is taken.
      have search_eq : searchLine source.lines.toArray source.text.length 0 source.lines.length =
          source.lines.length := by
        refine searchLine_eq ?_ ?_ (Nat.zero_le _) (by omega) (by omega)
        · intro other less span other_eq
          rcases Nat.lt_or_eq_of_le (Nat.le_of_lt_succ (length_eq ▸ less)) with earlier | rfl
          · exact before other earlier span other_eq
          · cases found.symm.trans other_eq
            omega
        · intro other le span other_eq
          have other_lt := (List.getElem?_eq_some_iff.mp other_eq).1
          omega
      have outside : source.lines[source.lines.length]? = none :=
        List.getElem?_eq_none (Nat.le_refl _)
      simp only [lineContaining, List.size_toArray, search_eq, List.getElem?_toArray, outside]
      rw [if_neg (Nat.lt_irrefl _), if_neg (by omega), length_eq, Nat.add_sub_cancel]
  case index =>
    rw [List.take_length, length_eq, Nat.add_sub_cancel, Nat.min_eq_right fewer]
  case scan =>
    have notBefore : others.length ≤
        source.lines.findIdx fun line => source.text.length ≤ line.stop := by
      rw [lines_eq, List.findIdx_append, List.findIdx_eq_length_of_false, if_neg (by omega)]
      · exact Nat.le_add_left _ _
      · intro other member
        exact decide_eq_false (Nat.not_le_of_lt (ends other member))
    rw [scanLine, length_eq, Nat.add_sub_cancel, Nat.min_eq_right notBefore]

/-- Every offset of a text that is not empty has a line, the one behind the last byte included. -/
theorem exists_findsLine {source : Source} {offset : Nat} (nonempty : source.text ≠ [])
    (inside : offset ≤ source.text.length) :
    ∃ index line, source.FindsLine offset index line := by
  rcases Nat.lt_or_eq_of_le inside with inside | rfl
  · rcases source.exists_isLineOf_lines inside with ⟨index, line, isLine, place_eq⟩
    have index_lt := (List.getElem?_eq_some_iff.mp isLine.found).1
    have count_eq : (source.text.take offset).count Byte.newline = index := by
      have line_eq := congrArg Location.line place_eq
      rw [Location.behind, Location.line_foldl, Nat.add_comm] at line_eq
      exact Nat.succ_inj.mp line_eq
    exact ⟨index, line, isLine.lineContaining_eq (Nat.le_of_lt inside), isLine.found,
      isLine.start_le, by omega, isLine.scan_eq⟩
  · exact exists_findsLine_length nonempty

namespace FindsLine

variable {source : Source} {offset later index next : Nat} {line behind : Span}

theorem location_eq (finds : source.FindsLine offset index line) :
    source.location offset = some ⟨index + 1, offset - line.start + 1⟩ :=
  location_eq_of_line finds.line_eq finds.found

theorem index_le (finds : source.FindsLine offset index line)
    (others : source.FindsLine later next behind) (le : offset ≤ later) : index ≤ next := by
  have fewer := (List.take_sublist_take_left (l := source.text) le).count_le Byte.newline
  rw [finds.index_eq, others.index_eq]
  omega

/-- Further on in the text is further on in the order of places. -/
theorem before (finds : source.FindsLine offset index line)
    (others : source.FindsLine later next behind) (less : offset < later) :
    Location.Before ⟨index + 1, offset - line.start + 1⟩ ⟨next + 1, later - behind.start + 1⟩ := by
  rcases Nat.lt_or_eq_of_le (finds.index_le others (Nat.le_of_lt less)) with earlier | rfl
  · exact .inl (Nat.succ_lt_succ earlier)
  · obtain rfl : line = behind := Option.some.inj (finds.found.symm.trans others.found)
    have start_le := finds.start_le
    exact .inr ⟨rfl, by simp only; omega⟩

end FindsLine

theorem lineContaining_eq_none_iff (source : Source) (offset : Nat) :
    source.lineContaining offset = none ↔ source.text = [] ∨ source.text.length < offset := by
  constructor
  · intro none
    by_cases empty : source.text = []
    · exact .inl empty
    · refine .inr (Nat.lt_of_not_le fun inside => ?_)
      rcases exists_findsLine empty inside with ⟨index, line, finds⟩
      rw [finds.line_eq] at none
      cases none
  · rintro (empty | outside)
    · simp [lineContaining, lines, empty, linesFrom]
    · rw [lineContaining, if_pos outside]

/-- An offset without a line has no place, and every other one has. -/
theorem location_eq_none_iff (source : Source) (offset : Nat) :
    source.location offset = none ↔ source.text = [] ∨ source.text.length < offset := by
  rw [← lineContaining_eq_none_iff]
  constructor
  · intro none
    by_cases hasLine : source.text = [] ∨ source.text.length < offset
    · exact (source.lineContaining_eq_none_iff offset).mpr hasLine
    · rw [not_or, Nat.not_lt] at hasLine
      rcases exists_findsLine hasLine.1 hasLine.2 with ⟨index, line, finds⟩
      rw [finds.location_eq] at none
      cases none
  · intro none
    rw [location, none]
    rfl

theorem exists_findsLine_of_location {source : Source} {offset : Nat} {place : Location}
    (placed : source.location offset = some place) : ∃ index line,
      source.FindsLine offset index line ∧ place = ⟨index + 1, offset - line.start + 1⟩ := by
  have hasLine : ¬(source.text = [] ∨ source.text.length < offset) := by
    rw [← source.location_eq_none_iff, placed]
    exact Option.some_ne_none place
  rw [not_or, Nat.not_lt] at hasLine
  rcases exists_findsLine hasLine.1 hasLine.2 with ⟨index, line, finds⟩
  rw [finds.location_eq] at placed
  exact ⟨index, line, finds, (Option.some.inj placed).symm⟩

/-- The lines of a span inside a text that is not empty, the first not behind the last. -/
theorem exists_lineSpan_eq {source : Source} {span : Span} (nonempty : source.text ≠ [])
    (inside : span.stop ≤ source.text.length) : ∃ lines : Span,
      source.lineSpan span = .ok (some lines) ∧
      source.lineContaining span.start = some lines.start ∧
      source.lineContaining span.stop = some lines.stop ∧ lines.start ≤ lines.stop := by
  rcases exists_findsLine nonempty (Nat.le_trans span.start_le_stop inside) with
    ⟨first, firstLine, finds⟩
  rcases exists_findsLine nonempty inside with ⟨last, lastLine, findsLast⟩
  have le := finds.index_le findsLast span.start_le_stop
  refine ⟨⟨first, last, le⟩, ?_, finds.line_eq, findsLast.line_eq, le⟩
  rw [lineSpan, finds.line_eq, findsLast.line_eq]
  simp only [Span.ofBounds, le, ↓reduceDIte]
  rfl

/--
The line table is exact and can be inverted. Its lines are the pieces of the text between newlines;
every offset of a text that is not empty has the line that a scan in order finds, and its place
gives the offset back. So two offsets never share a place, places are in the order of offsets, and
the two ends of a span lie in lines in this order.
-/
theorem lineTable_exact (source : Source) :
    (∃ texts, source.lines.map source.slice = texts.map some ∧
        (∀ line ∈ texts, Byte.newline ∉ line) ∧
        [Byte.newline].intercalate texts ++ source.text.finalNewline = source.text) ∧
      (∀ offset,
        (source.lineContaining offset = none ↔
          source.text = [] ∨ source.text.length < offset) ∧
        (source.location offset = none ↔ source.text = [] ∨ source.text.length < offset)) ∧
      (∀ offset index, source.lineContaining offset = some index →
        index = scanLine source.lines offset ∧
        index = min ((source.text.take offset).count Byte.newline) (source.lines.length - 1) ∧
        ∃ line column, source.lines[index]? = some line ∧
          source.location offset = some ⟨index + 1, column⟩ ∧ 1 ≤ column ∧
          line.start + column - 1 = offset) ∧
      (∀ offset later place behind, source.location offset = some place →
        source.location later = some behind →
          (place = behind → offset = later) ∧ (offset < later ↔ place.Before behind)) ∧
      ∀ span : Span,
        (source.text = [] ∨ source.text.length < span.stop → source.lineSpan span = .ok none) ∧
        (source.text ≠ [] → span.stop ≤ source.text.length → ∃ lines : Span,
          source.lineSpan span = .ok (some lines) ∧
          source.lineContaining span.start = some lines.start ∧
          source.lineContaining span.stop = some lines.stop ∧ lines.start ≤ lines.stop) := by
  refine ⟨?texts, ?none, ?line, ?order, ?span⟩
  case texts =>
    have whole : source.text = [] ++ ([] ++ source.text) := rfl
    rcases source.exists_texts whole List.not_mem_nil with ⟨texts, slices, free, _, joined⟩
    exact ⟨texts, slices, free, joined⟩
  case none =>
    exact fun offset =>
      ⟨source.lineContaining_eq_none_iff offset, source.location_eq_none_iff offset⟩
  case line =>
    intro offset index line_eq
    have hasPlace : source.location offset ≠ none := by
      rw [Ne, source.location_eq_none_iff, ← source.lineContaining_eq_none_iff, line_eq]
      exact Option.some_ne_none index
    rcases Option.ne_none_iff_exists'.mp hasPlace with ⟨place, placed⟩
    rcases exists_findsLine_of_location placed with ⟨found, line, finds, rfl⟩
    obtain rfl : index = found := Option.some.inj (line_eq.symm.trans finds.line_eq)
    have start_le := finds.start_le
    exact ⟨finds.scan_eq, finds.index_eq, line, _, finds.found, placed, Nat.le_add_left 1 _,
      by omega⟩
  case order =>
    intro offset later place behind placed placedBehind
    rcases exists_findsLine_of_location placed with ⟨index, line, finds, rfl⟩
    rcases exists_findsLine_of_location placedBehind with ⟨next, other, others, rfl⟩
    rcases Nat.lt_trichotomy offset later with less | rfl | greater
    · have before := finds.before others less
      exact ⟨fun same => absurd same before.ne, iff_of_true less before⟩
    · rw [placed, Option.some.injEq] at placedBehind
      rw [← placedBehind]
      exact ⟨fun _ => rfl, iff_of_false (Nat.lt_irrefl offset) (Location.Before.irrefl _)⟩
    · have before := others.before finds greater
      exact ⟨fun same => absurd same.symm before.ne,
        iff_of_false (Nat.lt_asymm greater) before.asymm⟩
  case span =>
    intro span
    refine ⟨fun outside => ?_, exists_lineSpan_eq⟩
    rw [lineSpan, (source.lineContaining_eq_none_iff span.stop).mpr outside]
    cases source.lineContaining span.start <;> rfl

end Source

end TypedLang
