import TypedLang.Proofs.Parsing.Recovery

/-!
# Where a recovery stops

A recovery stops at the first place where its manner lets it, in front of a token or behind one, and
at the end of the tokens if there is no such place. The depth in braces at a place is counted from
where the recovery began.
-/

namespace TypedLang

namespace Recovery

namespace Manner

/-- The depth in braces in front of an index, counted from a position on. -/
def depthAt (manner : Manner) (tokens : List Token) (position index : Nat) : Int :=
  ((tokens.drop position).take (index - position)).foldl
    (fun depth token => manner.count depth token.kind) 0

/-- The token at an index stops a recovery in front of it; the failed construct began at `start`. -/
def ResumesAt (manner : Manner) (tokens : List Token) (start position index : Nat) : Prop :=
  ∃ token, tokens[index]? = some token ∧
    manner.resumes (decide (start < index)) (manner.depthAt tokens position index) token.kind

/-- The token in front of an index stops a recovery behind it. -/
def EndsAt (manner : Manner) (tokens : List Token) (position index : Nat) : Prop :=
  ∃ last token, index = last + 1 ∧ position ≤ last ∧ tokens[last]? = some token ∧
    manner.ends (manner.depthAt tokens position last) token.kind

/-- An index is the first one at which a recovery stops, or there is none and it is the end. -/
structure StopsFirst (manner : Manner) (tokens : List Token) (start position stop : Nat) :
    Prop where
  position_le : position ≤ stop
  le_length : stop ≤ tokens.length
  stops : manner.ResumesAt tokens start position stop ∨ manner.EndsAt tokens position stop ∨
    stop = tokens.length
  first : ∀ index, position ≤ index → index < stop →
    ¬ manner.ResumesAt tokens start position index ∧ ¬ manner.EndsAt tokens position index
  depth_nonneg : ∀ index, position ≤ index → index ≤ stop →
    0 ≤ manner.depthAt tokens position index

variable {manner : Manner} {tokens : List Token} {start position index : Nat} {token : Token}

theorem depthAt_self : manner.depthAt tokens position position = 0 := by
  simp [depthAt]

theorem depthAt_succ (position_le : position ≤ index) (found : tokens[index]? = some token) :
    manner.depthAt tokens position (index + 1) =
      manner.count (manner.depthAt tokens position index) token.kind := by
  have further : index + 1 - position = index - position + 1 := by omega
  have same : (tokens.drop position)[index - position]? = some token := by
    rw [List.getElem?_drop, Nat.add_sub_cancel' position_le, found]
  simp [depthAt, further, List.take_add_one, same]

theorem resumesAt_iff (found : tokens[index]? = some token) :
    manner.ResumesAt tokens start position index ↔
      manner.resumes (decide (start < index)) (manner.depthAt tokens position index)
        token.kind := by
  simp [ResumesAt, found]

theorem endsAt_succ_iff (position_le : position ≤ index) (found : tokens[index]? = some token) :
    manner.EndsAt tokens position (index + 1) ↔
      manner.ends (manner.depthAt tokens position index) token.kind := by
  simp [EndsAt, position_le, found]

theorem not_endsAt_self : ¬ manner.EndsAt tokens position position := by
  rintro ⟨last, token, rfl, le, _⟩
  omega

/-- A recovery gets to an index, where it may stop, without a stop before it. -/
structure Reaches (manner : Manner) (tokens : List Token) (start position index : Nat) : Prop where
  position_le : position ≤ index
  le_length : index ≤ tokens.length
  first : ∀ earlier, position ≤ earlier → earlier < index →
    ¬ manner.ResumesAt tokens start position earlier ∧ ¬ manner.EndsAt tokens position earlier
  depth_nonneg : ∀ earlier, position ≤ earlier → earlier ≤ index →
    0 ≤ manner.depthAt tokens position earlier

theorem Reaches.begin (le_length : position ≤ tokens.length) :
    manner.Reaches tokens start position position where
  position_le := Nat.le_refl _
  le_length := le_length
  first earlier le lt := by omega
  depth_nonneg earlier le ge := by
    obtain rfl : earlier = position := by omega
    simp [depthAt_self]

/-- A token that does not stop a recovery in front of it is dropped. -/
theorem Reaches.next (reaches : manner.Reaches tokens start position index)
    (notEnded : ¬ manner.EndsAt tokens position index) (found : tokens[index]? = some token)
    (goesOn : ¬ manner.ResumesAt tokens start position index) :
    manner.Reaches tokens start position (index + 1) where
  position_le := Nat.le_succ_of_le reaches.position_le
  le_length := (List.getElem?_eq_some_iff.mp found).1
  first earlier le lt := by
    rcases Nat.lt_succ_iff_lt_or_eq.mp lt with before | rfl
    · exact reaches.first earlier le before
    · exact ⟨goesOn, notEnded⟩
  depth_nonneg earlier le ge := by
    rcases Nat.le_succ_iff.mp ge with before | rfl
    · exact reaches.depth_nonneg earlier le before
    · rw [depthAt_succ reaches.position_le found]
      apply manner.count_nonneg
      · exact reaches.depth_nonneg index reaches.position_le (Nat.le_refl _)
      · rwa [resumesAt_iff found] at goesOn

theorem Reaches.stopsFirst (reaches : manner.Reaches tokens start position index)
    (stops : manner.ResumesAt tokens start position index ∨ manner.EndsAt tokens position index ∨
      index = tokens.length) : manner.StopsFirst tokens start position index :=
  ⟨reaches.position_le, reaches.le_length, stops, reaches.first, reaches.depth_nonneg⟩

/-- A recovery that drops nothing, though there are tokens, is stopped by the first of them. -/
theorem StopsFirst.resumesAt_self (stopsFirst : manner.StopsFirst tokens start position position)
    (more : position < tokens.length) : manner.ResumesAt tokens start position position := by
  rcases stopsFirst.stops with resumes | ends | ended
  · exact resumes
  · exact absurd ends not_endsAt_self
  · omega

/-- What is left from an index on are the token at that index and those behind it. -/
theorem of_cons_eq_drop {rest : List Token} (ahead_eq : token :: rest = tokens.drop index) :
    tokens[index]? = some token ∧ rest = tokens.drop (index + 1) := by
  constructor
  · rw [← List.head?_drop, ← ahead_eq, List.head?_cons]
  · rw [← List.tail_drop, ← ahead_eq, List.tail_cons]

/-- A loop that has come to an index stops at the first place from there on. -/
theorem Runs.stopsFirst {progressed : Bool} {depth : Int} {ahead left : List Token}
    (runs : manner.Runs progressed depth ahead left) (start_le : start ≤ position)
    (reaches : manner.Reaches tokens start position index)
    (notEnded : ¬ manner.EndsAt tokens position index) (ahead_eq : ahead = tokens.drop index)
    (progressed_eq : progressed = decide (start < index))
    (depth_eq : depth = manner.depthAt tokens position index) :
    ∃ stop, left = tokens.drop stop ∧ manner.StopsFirst tokens start position stop := by
  induction runs generalizing index with
  | exhausted =>
      have behind := List.drop_eq_nil_iff.mp ahead_eq.symm
      have le_length := reaches.le_length
      exact ⟨index, ahead_eq, reaches.stopsFirst (.inr (.inr (by omega)))⟩
  | @resume progressed depth token rest resumes =>
      obtain ⟨found, _⟩ := of_cons_eq_drop ahead_eq
      rw [progressed_eq, depth_eq, ← resumesAt_iff found] at resumes
      exact ⟨index, ahead_eq, reaches.stopsFirst (.inl resumes)⟩
  | @finish progressed depth token rest goesOn ends =>
      obtain ⟨found, rest_eq⟩ := of_cons_eq_drop ahead_eq
      rw [progressed_eq, depth_eq, ← resumesAt_iff found] at goesOn
      rw [depth_eq, ← endsAt_succ_iff reaches.position_le found] at ends
      exact ⟨index + 1, rest_eq, (reaches.next notEnded found goesOn).stopsFirst (.inr (.inl ends))⟩
  | @drop progressed depth token rest left goesOn notEnds runs ih =>
      obtain ⟨found, rest_eq⟩ := of_cons_eq_drop ahead_eq
      rw [progressed_eq, depth_eq, ← resumesAt_iff found] at goesOn
      rw [depth_eq, ← endsAt_succ_iff reaches.position_le found] at notEnds
      apply ih (reaches.next notEnded found goesOn) notEnds rest_eq
      · have := reaches.position_le
        simp only [true_eq_decide_iff]
        omega
      · rw [depth_eq, depthAt_succ reaches.position_le found]

end Manner

/--
Both recoveries stop at the first place that their manner names, and never count a depth below zero.
If the failed construct took no token, at least one is dropped; only a block may stay in front of a
closing brace.
-/
theorem stops_first (tokens : List Token) {start position : Nat} (start_le : start ≤ position)
    (le_length : position ≤ tokens.length) :
    (∃ stop, inBlock (decide (start < position)) 0 (tokens.drop position) = tokens.drop stop ∧
      Manner.block.StopsFirst tokens start position stop ∧
      (start = position → position < tokens.length → position < stop ∨
        stop = position ∧ ∃ token, tokens[position]? = some token ∧
          token.kind = .punct .rightBrace)) ∧
    ∃ stop, inProgram (decide (start < position)) 0 (tokens.drop position) = tokens.drop stop ∧
      Manner.program.StopsFirst tokens start position stop ∧
      (start = position → position < tokens.length → position < stop) := by
  constructor
  · obtain ⟨stop, left_eq, stopsFirst⟩ :=
      (inBlock_runs (decide (start < position)) 0 (tokens.drop position)).stopsFirst start_le
        (.begin le_length) Manner.not_endsAt_self rfl rfl Manner.depthAt_self.symm
    refine ⟨stop, left_eq, stopsFirst, ?_⟩
    rintro rfl more
    rcases Nat.eq_or_lt_of_le stopsFirst.position_le with rfl | further
    · obtain ⟨token, found, _, close | ⟨progressed, _⟩⟩ := stopsFirst.resumesAt_self more
      · exact .inr ⟨rfl, token, found, close⟩
      · simp at progressed
    · exact .inl further
  · obtain ⟨stop, left_eq, stopsFirst⟩ :=
      (inProgram_runs (decide (start < position)) 0 (tokens.drop position)).stopsFirst start_le
        (.begin le_length) Manner.not_endsAt_self rfl rfl Manner.depthAt_self.symm
    refine ⟨stop, left_eq, stopsFirst, ?_⟩
    rintro rfl more
    rcases Nat.eq_or_lt_of_le stopsFirst.position_le with rfl | further
    · obtain ⟨token, found, progressed, _⟩ := stopsFirst.resumesAt_self more
      simp at progressed
    · exact further

/-- Behind a first token that is dropped, a block of its own is skipped with the keyword in it. -/
theorem stops_first_behind_braces :
    let tokens : List Token := [⟨.punct .comma, .single 0⟩, ⟨.punct .leftBrace, .single 1⟩,
      ⟨.keyword .letWord, .single 2⟩, ⟨.punct .rightBrace, .single 3⟩,
      ⟨.keyword .letWord, .single 4⟩]
    0 ≤ 1 ∧ 1 ≤ tokens.length ∧
    (∃ stop, inBlock (decide (0 < 1)) 0 (tokens.drop 1) = tokens.drop stop ∧
      Manner.block.StopsFirst tokens 0 1 stop ∧
      (0 = 1 → 1 < tokens.length → 1 < stop ∨
        stop = 1 ∧ ∃ token, tokens[1]? = some token ∧ token.kind = .punct .rightBrace)) ∧
    ∃ stop, inProgram (decide (0 < 1)) 0 (tokens.drop 1) = tokens.drop stop ∧
      Manner.program.StopsFirst tokens 0 1 stop ∧
      (0 = 1 → 1 < tokens.length → 1 < stop) := by
  intro tokens
  have le_length : 1 ≤ tokens.length := by decide
  exact ⟨by decide, le_length, stops_first tokens (by decide) le_length⟩

end Recovery

end TypedLang
