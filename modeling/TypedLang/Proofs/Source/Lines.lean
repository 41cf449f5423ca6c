import TypedLang.Source

/-!
# Lines and places

The line table of a text is in ascending order, so an offset has one line: the first that does not
end before it. The search by halves finds that line, and the place that it gives is the one that
counting along the text gives: a newline starts a line, every other byte a column.
-/

namespace TypedLang

/-- The place behind a byte at a place. -/
def Location.next (place : Location) (byte : Byte) : Location :=
  if byte = Byte.newline then ⟨place.line + 1, 1⟩ else ⟨place.line, place.column + 1⟩

/-- The place behind the bytes at the front of a text. -/
def Location.behind (front : Bytes) : Location :=
  front.foldl Location.next ⟨1, 1⟩

theorem Location.next_pos {place : Location} (line_pos : 1 ≤ place.line)
    (column_pos : 1 ≤ place.column) (byte : Byte) :
    1 ≤ (place.next byte).line ∧ 1 ≤ (place.next byte).column := by
  rw [next]
  split
  · exact ⟨Nat.le_succ_of_le line_pos, Nat.le_refl 1⟩
  · exact ⟨line_pos, Nat.le_succ_of_le column_pos⟩

/-- Lines and columns count from one. -/
theorem Location.behind_pos (front : Bytes) :
    1 ≤ (behind front).line ∧ 1 ≤ (behind front).column :=
  List.foldlRecOn (motive := fun place => 1 ≤ place.line ∧ 1 ≤ place.column) front Location.next
    ⟨Nat.le_refl 1, Nat.le_refl 1⟩ fun _ positive byte _ => next_pos positive.1 positive.2 byte

namespace Source

/-- A line holds an offset, lines before it end before the offset, and lines behind it do not. -/
structure IsLineOf (lines : List Span) (offset index : Nat) (line : Span) : Prop where
  found : lines[index]? = some line
  start_le : line.start ≤ offset
  le_stop : offset ≤ line.stop
  before : ∀ other < index, ∀ span, lines[other]? = some span → span.stop < offset
  behind : ∀ other ≥ index, ∀ span, lines[other]? = some span → offset ≤ span.stop

theorem IsLineOf.head {line : Span} {others : List Span} {offset : Nat}
    (start_le : line.start ≤ offset) (le_stop : ∀ span ∈ line :: others, offset ≤ span.stop) :
    IsLineOf (line :: others) offset 0 line where
  found := rfl
  start_le := start_le
  le_stop := le_stop line List.mem_cons_self
  before := fun _ none => absurd none (Nat.not_lt_zero _)
  behind := fun _ _ span span_eq => le_stop span (List.mem_of_getElem? span_eq)

theorem IsLineOf.cons {first line : Span} {others : List Span} {offset index : Nat}
    (isLine : IsLineOf others offset index line) (ends : first.stop < offset) :
    IsLineOf (first :: others) offset (index + 1) line where
  found := isLine.found
  start_le := isLine.start_le
  le_stop := isLine.le_stop
  before := by
    intro other less span span_eq
    rcases other with _ | other
    · cases span_eq
      exact ends
    · exact isLine.before other (Nat.lt_of_succ_lt_succ less) span span_eq
  behind := by
    intro other le span span_eq
    rcases other with _ | other
    · exact absurd le (Nat.not_succ_le_zero index)
    · exact isLine.behind other (Nat.le_of_succ_le_succ le) span span_eq

/-- The search by halves ends where the lines cease to end before an offset. -/
theorem searchLine_eq {lines : List Span} {offset index : Nat}
    (before : ∀ other < index, ∀ span, lines[other]? = some span → span.stop < offset)
    (behind : ∀ other ≥ index, ∀ span, lines[other]? = some span → offset ≤ span.stop)
    {low width : Nat} (low_le : low ≤ index) (le_high : index ≤ low + width)
    (high_le : low + width ≤ lines.length) :
    searchLine lines.toArray offset low width = index := by
  fun_induction searchLine lines.toArray offset low width with
  | case1 low => omega
  | case2 low width nonempty half missing =>
      have outside := List.getElem?_eq_none_iff.mp (List.getElem?_toArray.symm.trans missing)
      omega
  | case3 low width nonempty half span found ends ih =>
      -- Lines from `index` on do not end before the offset, so that index is further on.
      have less : low + half < index := Nat.lt_of_not_le fun le => by
        have holds := behind _ le span (List.getElem?_toArray.symm.trans found)
        omega
      exact ih less (by omega) (by omega)
  | case4 low width nonempty half span found holds ih =>
      have le : index ≤ low + half := Nat.le_of_not_lt fun less =>
        holds (before _ less span (List.getElem?_toArray.symm.trans found))
      exact ih low_le le (by omega)

/-- The line of an offset is found. -/
theorem IsLineOf.lineContaining_eq {source : Source} {offset index : Nat} {line : Span}
    (isLine : IsLineOf source.lines offset index line) (inside : offset ≤ source.text.length) :
    source.lineContaining offset = some index := by
  have index_lt := (List.getElem?_eq_some_iff.mp isLine.found).1
  have search_eq := searchLine_eq isLine.before isLine.behind (Nat.zero_le index) (by omega)
    (Nat.le_of_eq (Nat.zero_add source.lines.length))
  have contains : line.contains offset := by
    simp only [Span.contains, Bool.and_eq_true, decide_eq_true_eq]
    exact ⟨isLine.start_le, isLine.le_stop⟩
  simp only [lineContaining, List.size_toArray, search_eq, List.getElem?_toArray, isLine.found,
    contains, ↓reduceIte]
  rw [if_neg (by omega), if_neg (by omega)]

theorem le_stop_of_mem_linesFrom {position length : Nat} (within : length ≤ position)
    {text : Bytes} {line : Span} (member : line ∈ linesFrom position length text) :
    position ≤ line.stop := by
  induction text generalizing position length with
  | nil =>
      rw [linesFrom] at member
      split at member
      · cases member
      · cases List.mem_singleton.mp member
        exact Nat.le_of_eq (Nat.sub_add_cancel within).symm
  | cons byte rest ih =>
      rw [linesFrom] at member
      split at member
      · rcases List.mem_cons.mp member with rfl | member
        · exact Nat.le_of_eq (Nat.sub_add_cancel within).symm
        · exact Nat.le_of_succ_le (ih (Nat.zero_le _) member)
      · exact Nat.le_of_succ_le (ih (Nat.succ_le_succ within) member)

/-- A line that has begun is the first line of what is left. -/
theorem exists_linesFrom_eq_cons {position length : Nat} (within : length ≤ position)
    (begun : length ≠ 0) (text : Bytes) :
    ∃ line others, linesFrom position length text = line :: others ∧
      line.start + length = position := by
  induction text generalizing position length with
  | nil =>
      rw [linesFrom, if_neg begun]
      exact ⟨_, _, rfl, Nat.sub_add_cancel within⟩
  | cons byte rest ih =>
      rw [linesFrom]
      split
      · exact ⟨_, _, rfl, Nat.sub_add_cancel within⟩
      · rcases ih (Nat.succ_le_succ within) (Nat.succ_ne_zero length) with
          ⟨line, others, lines_eq, start_eq⟩
        exact ⟨line, others, lines_eq, Nat.succ_inj.mp start_eq⟩

/-- Counting along a text gives the line of every byte, and how far the byte is into that line. -/
theorem exists_isLineOf (front back : Bytes) (byte : Byte) {position length : Nat}
    (within : length ≤ position) (number : Nat) :
    ∃ index line,
      IsLineOf (linesFrom position length (front ++ byte :: back)) (position + front.length) index
        line ∧
      front.foldl Location.next ⟨number, length + 1⟩ =
        ⟨number + index, position + front.length - line.start + 1⟩ := by
  induction front generalizing position length number with
  | nil =>
      rw [List.nil_append, List.length_nil, Nat.add_zero, List.foldl_nil]
      have ends : ∀ span ∈ linesFrom position length (byte :: back), position ≤ span.stop :=
        fun _ member => le_stop_of_mem_linesFrom within member
      rw [linesFrom] at ends ⊢
      split at ends
      · rename_i isNewline
        rw [if_pos isNewline]
        refine ⟨0, _, .head (Nat.sub_le _ _) ends, ?_⟩
        rw [show (Span.ofLength (position - length) length).start = position - length from rfl,
          Nat.sub_sub_self within]
        rfl
      · rename_i notNewline
        rw [if_neg notNewline]
        rcases exists_linesFrom_eq_cons (Nat.succ_le_succ within) (Nat.succ_ne_zero length) back with
          ⟨line, others, lines_eq, start_eq⟩
        rw [lines_eq] at ends ⊢
        refine ⟨0, line, .head (by omega) ends, ?_⟩
        rw [show position - line.start = length by omega]
        rfl
  | cons first front ih =>
      rw [List.cons_append, linesFrom, List.foldl_cons, Location.next, List.length_cons,
        Nat.add_comm front.length, ← Nat.add_assoc]
      split
      · rcases ih (Nat.zero_le (position + 1)) (number + 1) with ⟨index, line, isLine, place_eq⟩
        refine ⟨index + 1, line, isLine.cons ?_, ?_⟩
        · rw [show (Span.ofLength (position - length) length).stop = position - length + length
            from rfl]
          omega
        · rw [Nat.add_comm index, ← Nat.add_assoc]
          exact place_eq
      · exact ih (Nat.succ_le_succ within) number

/-- The lines of a text depend on where its newlines are and on nothing else. -/
theorem linesFrom_eq_of_newlines {text other : Bytes}
    (same : text.map (· == Byte.newline) = other.map (· == Byte.newline)) (position length : Nat) :
    linesFrom position length text = linesFrom position length other := by
  induction text generalizing other position length with
  | nil =>
      obtain rfl := List.map_eq_nil_iff.mp same.symm
      rfl
  | cons byte rest ih =>
      rcases List.map_eq_cons_iff.mp same.symm with ⟨first, others, rfl, isNewline, behind⟩
      have first_iff : first = Byte.newline ↔ byte = Byte.newline := by
        rw [← beq_iff_eq, isNewline, beq_iff_eq]
      simp only [linesFrom, ih behind.symm, first_iff]

theorem lineSpan_eq_of_newlines {source other : Source}
    (same : source.text.map (· == Byte.newline) = other.text.map (· == Byte.newline))
    (span : Span) : source.lineSpan span = other.lineSpan span := by
  have length_eq : source.text.length = other.text.length := by
    simpa only [List.length_map] using congrArg List.length same
  have lines_eq : source.lines = other.lines := linesFrom_eq_of_newlines same 0 0
  simp only [lineSpan, lineContaining, length_eq, lines_eq]

/-- Every byte of a text stands in a line, where counting along the text finds it. -/
theorem exists_isLineOf_lines (source : Source) {offset : Nat}
    (inside : offset < source.text.length) :
    ∃ index line, IsLineOf source.lines offset index line ∧
      Location.behind (source.text.take offset) = ⟨index + 1, offset - line.start + 1⟩ := by
  have split : source.text.take offset ++ source.text[offset] :: source.text.drop (offset + 1) =
      source.text := by
    rw [← List.drop_eq_getElem_cons inside, List.take_append_drop]
  have length_eq : (source.text.take offset).length = offset :=
    List.length_take_of_le (Nat.le_of_lt inside)
  rcases exists_isLineOf (source.text.take offset) (source.text.drop (offset + 1))
    source.text[offset] (Nat.le_refl 0) 1 with ⟨index, line, isLine, place_eq⟩
  rw [split] at isLine
  simp only [length_eq, Nat.zero_add] at isLine place_eq
  exact ⟨index, line, isLine, by rw [Location.behind, place_eq, Nat.add_comm 1 index]⟩

theorem location_eq_of_line {source : Source} {offset index : Nat} {line : Span}
    (line_eq : source.lineContaining offset = some index)
    (found : source.lines[index]? = some line) :
    source.location offset = some ⟨index + 1, offset - line.start + 1⟩ := by
  simp only [location, line_eq, found, Option.bind_eq_bind, Option.bind_some, Option.pure_def]

/-- Every byte of a text has a place, which counting along the text gives. -/
theorem location_eq (source : Source) {offset : Nat} (inside : offset < source.text.length) :
    source.location offset = some (.behind (source.text.take offset)) := by
  rcases source.exists_isLineOf_lines inside with ⟨index, line, isLine, place_eq⟩
  rw [place_eq]
  exact location_eq_of_line (isLine.lineContaining_eq (Nat.le_of_lt inside)) isLine.found

/-- The bytes of a stretch of a text are those of its span. -/
theorem slice_ofLength {source : Source} {before taken others : Bytes}
    (split : source.text = before ++ (taken ++ others)) :
    source.slice (.ofLength before.length taken.length) = some taken := by
  simp [slice, Span.ofLength, Span.length, split]

end Source

end TypedLang
