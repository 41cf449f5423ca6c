import Mathlib.Data.List.Nodup
import Mathlib.Data.List.Forall2
import TypedLang.Proofs.Parsing.Runs

/-!
# Blamed tokens

Every failure takes place at a token of its own: a statement or a declaration that starts with its
keyword takes that keyword before it can fail, and every other start of a recovery drops the token
that was blamed. The one exception is the word for structures. It stops a recovery among
declarations, but no declaration starts with it, so it may be blamed a second time.
-/

namespace TypedLang

/-- The number of tokens from the blamed one on. -/
def Failure.remaining (failure : Failure) : Nat :=
  failure.rest.length

/-- A failure at some tokens leaves no more of them than there are. -/
theorem Failure.Blames.remaining_le {failure : Failure} {tokens : List Token}
    (blames : failure.Blames tokens) : failure.remaining ≤ tokens.length :=
  blames.suffix.length_le

namespace Attempt

open Rule (leftOver)

variable {Result Other : Type} {attempt : Attempt Result} {tokens rest : List Token}

@[simp]
theorem failures_map (convert : Result → Other) :
    (attempt.map convert).failures = attempt.failures :=
  rfl

@[simp]
theorem failures_after (failures : List Failure) :
    (attempt.after failures).failures = failures ++ attempt.failures :=
  rfl

@[simp]
theorem result_after (failures : List Failure) : (attempt.after failures).result = attempt.result :=
  rfl

@[simp]
theorem leftOver_map (convert : Result → Other) :
    leftOver (attempt.map convert).result = leftOver attempt.result := by
  rcases attempt with ⟨failures, _ | ⟨value, rest⟩⟩ <;> rfl

theorem result_eq_of_map {convert : Result → Other} {failure : Failure}
    (failed : (attempt.map convert).result = .error failure) : attempt.result = .error failure := by
  rcases attempt with ⟨failures, inner | ⟨value, rest⟩⟩ <;> cases failed
  rfl

/--
The failures from which an attempt recovered blame tokens one after the other, all of them in front
of what it leaves, and each of them belongs to a token that it took.
-/
structure InStep (attempt : Attempt Result) (tokens : List Token) : Prop where
  suffix : leftOver attempt.result <:+ tokens
  error : ∀ failure, attempt.result = .error failure → failure.Blames tokens
  blames : ∀ failure ∈ attempt.failures, failure.Blames tokens
  descending : attempt.failures.Pairwise fun earlier later => later.remaining < earlier.remaining
  ahead : ∀ failure ∈ attempt.failures, (leftOver attempt.result).length < failure.remaining
  bounded : attempt.failures.length + (leftOver attempt.result).length ≤ tokens.length

namespace InStep

/-- A success without a recovery. -/
theorem of_ok {value : Result} (suffix : rest <:+ tokens) :
    Attempt.InStep ⟨[], .ok (value, rest)⟩ tokens where
  suffix := suffix
  error _ failed := by cases failed
  blames := List.forall_mem_nil _
  descending := .nil
  ahead := List.forall_mem_nil _
  bounded := by simpa [leftOver] using suffix.length_le

/-- A failure without a recovery. -/
theorem of_error {failure : Failure} (blames : failure.Blames tokens) :
    InStep (⟨[], .error failure⟩ : Attempt Result) tokens where
  suffix := blames.suffix
  error _ failed := by
    cases failed
    exact blames
  blames := List.forall_mem_nil _
  descending := .nil
  ahead := List.forall_mem_nil _
  bounded := by simpa [leftOver] using blames.suffix.length_le

theorem map (inStep : attempt.InStep tokens) (convert : Result → Other) :
    (attempt.map convert).InStep tokens where
  suffix := by simpa using inStep.suffix
  error failure failed := inStep.error failure (result_eq_of_map failed)
  blames := inStep.blames
  descending := inStep.descending
  ahead := by simpa using inStep.ahead
  bounded := by simpa using inStep.bounded

/-- An attempt behind tokens that another rule took. -/
theorem of_suffix (inStep : attempt.InStep rest) (suffix : rest <:+ tokens) :
    attempt.InStep tokens where
  suffix := inStep.suffix.trans suffix
  error failure failed := (inStep.error failure failed).of_suffix suffix
  blames failure member := (inStep.blames failure member).of_suffix suffix
  descending := inStep.descending
  ahead := inStep.ahead
  bounded := Nat.le_trans inStep.bounded suffix.length_le

/-- An attempt behind another one that succeeded. -/
theorem after {first : Attempt Other} {value : Other} (firstStep : first.InStep tokens)
    (first_eq : first.result = .ok (value, rest)) (inStep : attempt.InStep rest) :
    (attempt.after first.failures).InStep tokens := by
  have rest_eq : leftOver first.result = rest := congrArg leftOver first_eq
  have firstSuffix := rest_eq ▸ firstStep.suffix
  have firstAhead := rest_eq ▸ firstStep.ahead
  have firstBounded := rest_eq ▸ firstStep.bounded
  have left_le := inStep.suffix.length_le
  refine ⟨inStep.suffix.trans firstSuffix, ?_, ?_, ?_, ?_, ?_⟩
  · exact fun failure failed => (inStep.error failure failed).of_suffix firstSuffix
  · refine List.forall_mem_append.mpr ⟨firstStep.blames, fun failure member => ?_⟩
    exact (inStep.blames failure member).of_suffix firstSuffix
  · refine List.pairwise_append.mpr ⟨firstStep.descending, inStep.descending, ?_⟩
    intro earlier earlierMem later laterMem
    exact Nat.lt_of_le_of_lt (inStep.blames later laterMem).remaining_le
      (firstAhead earlier earlierMem)
  · refine List.forall_mem_append.mpr ⟨fun failure member => ?_, inStep.ahead⟩
    exact Nat.lt_of_le_of_lt left_le (firstAhead failure member)
  · have bounded := inStep.bounded
    simp only [failures_after, result_after, List.length_append]
    omega

/-- An attempt behind the recovery from a failure. -/
theorem recovering {failure : Failure} (blames : failure.Blames tokens)
    (inStep : attempt.InStep rest) (suffix : rest <:+ failure.rest)
    (shorter : rest.length < tokens.length)
    (behind : ∀ later ∈ attempt.failures, later.remaining < failure.remaining)
    (takes : (leftOver attempt.result).length < failure.remaining) :
    (attempt.after [failure]).InStep tokens where
  suffix := (inStep.suffix.trans suffix).trans blames.suffix
  error later failed := (inStep.error later failed).of_suffix (suffix.trans blames.suffix)
  blames := List.forall_mem_cons.mpr ⟨blames, fun later member =>
    (inStep.blames later member).of_suffix (suffix.trans blames.suffix)⟩
  descending := List.pairwise_cons.mpr ⟨behind, inStep.descending⟩
  ahead := List.forall_mem_cons.mpr ⟨takes, inStep.ahead⟩
  bounded := by
    have bounded := inStep.bounded
    simp only [failures_after, result_after, List.length_append, List.length_singleton]
    omega

end InStep

end Attempt

namespace Rule

/-- A statement that starts with its keyword takes that keyword before it fails. -/
theorem statement_error_of_keyword {token : Token} {rest : List Token} {failure : Failure}
    (keyword : token.kind = .keyword .letWord ∨ token.kind = .keyword .returnWord)
    (failed : statement (token :: rest) = .error failure) : failure.Blames rest := by
  have declaring := fun keyword => (letDecl_reads keyword).bind fun decl =>
    Reads.pure (Stmt.letDecl decl)
  have returning := fun keyword : Span => returnValue_reads.bind fun value =>
    (expect_reads .semicolon).bind fun semicolon =>
      Reads.pure (Stmt.returning value (keyword.combine semicolon))
  rcases keyword with isLet | isReturn
  · rw [eq_of_kind_keyword isLet] at failed
    exact (declaring _).error failed
  · rw [eq_of_kind_keyword isReturn] at failed
    exact (returning _).error failed

/--
A block in step takes a token if there is one. Where a recovery may stop, it blames nothing but what
is behind the next token.
-/
structure BlockInStep (tokens : List Token) (attempt : Attempt (List Stmt × Span)) : Prop extends
    attempt.InStep tokens where
  takes : tokens ≠ [] → (leftOver attempt.result).length < tokens.length
  fresh : ∀ {token rest}, tokens = token :: rest → Recovery.ResumesBlock token.kind →
    ∀ failure ∈ attempt.failures, failure.remaining < tokens.length

namespace BlockInStep

variable {tokens rest : List Token} {attempt : Attempt (List Stmt × Span)}

/-- A block in step behind some of the tokens. -/
theorem of_shorter {whole : Attempt (List Stmt × Span)} (inStep : whole.InStep tokens)
    (failures_eq : whole.failures = attempt.failures)
    (left_eq : leftOver whole.result = leftOver attempt.result)
    (behind : attempt.InStep rest) (shorter : rest.length < tokens.length) :
    BlockInStep tokens whole where
  toInStep := inStep
  takes _ := left_eq ▸ Nat.lt_of_le_of_lt behind.suffix.length_le shorter
  fresh _ _ failure member :=
    Nat.lt_of_le_of_lt (behind.blames failure (failures_eq ▸ member)).remaining_le shorter

/-- Behind the recovery from a failure, a block blames only what is behind the blamed token. -/
theorem recovered {failure : Failure} {others : Attempt (List Stmt × Span)}
    (noBlock : StartsOffBraces tokens) (failed : statement tokens = .error failure)
    (more : failure.rest ≠ []) (behind : BlockInStep (failure.blockRecovery tokens) others) :
    BlockInStep tokens (others.after [failure]) := by
  have blames := (statement_reads False).error failed
  have shorter := length_blockRecovery_lt failed noBlock more
  have suffix : failure.blockRecovery tokens <:+ failure.rest := Recovery.inBlock_suffix _ _ _
  rcases List.exists_cons_of_ne_nil more with ⟨token, rest, rest_eq⟩
  have passed : (∀ later ∈ others.failures, later.remaining < failure.remaining) ∧
      (leftOver others.result).length < failure.remaining := by
    rcases blockRecovery_cases rest_eq with drops | ⟨stops, resumes⟩
    · have dropped : (failure.blockRecovery tokens).length < failure.remaining := by
        rw [Failure.remaining, rest_eq]
        exact Nat.lt_succ_of_le drops.length_le
      exact ⟨fun later member =>
        Nat.lt_of_le_of_lt (behind.blames later member).remaining_le dropped,
        Nat.lt_of_le_of_lt behind.suffix.length_le dropped⟩
    · rw [stops] at behind
      exact ⟨behind.fresh rest_eq resumes, behind.takes more⟩
  refine ⟨.recovering blames behind.toInStep suffix shorter passed.1 passed.2, fun _ => ?_, ?_⟩
  · exact Nat.lt_of_lt_of_le passed.2 blames.remaining_le
  · intro first following tokens_eq resumes
    refine List.forall_mem_cons.mpr ⟨?_, fun later member => ?_⟩
    · -- The statement is no end of the block, so it starts with its keyword.
      rcases noBlock with ⟨_, _, rfl, _, noClose⟩
      cases tokens_eq
      have keyword := resumes.resolve_left noClose
      exact Nat.lt_succ_of_le (statement_error_of_keyword keyword failed).remaining_le
    · exact Nat.lt_of_lt_of_le (passed.1 later member) blames.remaining_le

end BlockInStep

theorem BlockRuns.inStep {tokens : List Token} {attempt : Attempt (List Stmt × Span)}
    (runs : BlockRuns tokens attempt) : BlockInStep tokens attempt := by
  induction runs with
  | ended =>
      exact ⟨.of_error (.next _ _), fun nonempty => absurd rfl nonempty,
        fun _ _ => List.forall_mem_nil _⟩
  | closed =>
      exact ⟨.of_ok (List.suffix_cons _ _), fun _ => Nat.lt_succ_self _,
        fun _ _ => List.forall_mem_nil _⟩
  | block _ inner_eq _ innerStep othersStep =>
      have joined := fun convert : List Stmt × Span → List Stmt × Span =>
        innerStep.toInStep.after inner_eq (othersStep.toInStep.map convert)
      exact .of_shorter ((joined _).of_suffix (List.suffix_cons _ _)) rfl rfl (joined _)
        (Nat.lt_succ_self _)
  | unclosed _ _ innerStep =>
      exact .of_shorter (innerStep.toInStep.of_suffix (List.suffix_cons _ _)) rfl rfl
        innerStep.toInStep (Nat.lt_succ_self _)
  | statement _ read _ othersStep =>
      have shorter := length_lt_of_statement read
      rcases (statement_reads False).ok read with ⟨used, rfl, _⟩
      exact .of_shorter ((othersStep.toInStep.map _).of_suffix (List.suffix_append _ _)) rfl rfl
        (othersStep.toInStep.map _) shorter
  | recovered noBlock failed more _ othersStep => exact .recovered noBlock failed more othersStep
  | stopped noBlock failed nothing =>
      refine ⟨.of_error ((statement_reads False).error failed), fun nonempty => ?_,
        fun _ _ => List.forall_mem_nil _⟩
      rw [leftOver, nothing]
      exact List.length_pos_iff.mpr nonempty

/--
A declaration either starts with its keyword and is in step behind that keyword, or it fails at once
and blames the token in front of which it stands.
-/
theorem DeclarationRuns.inStep_or_refused {token : Token} {tokens : List Token}
    {attempt : Attempt Decl} (runs : DeclarationRuns (token :: tokens) attempt) :
    attempt.InStep tokens ∨
      (∃ expected, attempt = ⟨[], .error ⟨token :: tokens, expected, false⟩⟩) ∧
        token.kind ≠ .keyword .funWord ∧ token.kind ≠ .keyword .letWord := by
  cases runs with
  | header failed => exact .inl (.of_error (funHeader_reads.error failed))
  | function read body =>
      rcases funHeader_reads.ok read with ⟨used, rfl, _⟩
      exact .inl (((body.inStep.toInStep.map _).map _).of_suffix (List.suffix_append _ _))
  | @letDecl keyword =>
      cases decl_eq : Rule.letDecl keyword tokens with
      | error failure => exact .inl (.map (.of_error ((letDecl_reads keyword).error decl_eq)) _)
      | ok taken =>
          rcases (letDecl_reads keyword).ok decl_eq with ⟨used, rfl, _⟩
          exact .inl (.map (.of_ok (List.suffix_append used taken.2)) _)
  | refused isNoFun isNoLet => exact .inr ⟨⟨_, rfl⟩, isNoFun, isNoLet⟩

/-- The failure of a declaration blames one of its tokens or their end. -/
theorem DeclarationRuns.blames {tokens : List Token} {attempt : Attempt Decl} {failure : Failure}
    (runs : DeclarationRuns tokens attempt) (failed : attempt.result = .error failure) :
    failure.Blames tokens := by
  rcases runs.exists_cons with ⟨token, others, rfl⟩
  rcases runs.inStep_or_refused with inStep | ⟨⟨expected, rfl⟩, _⟩
  · exact (inStep.error failure failed).of_suffix (List.suffix_cons token others)
  · cases failed
    exact .next _ _

end Rule

/--
The failures of one round over the declarations of a program, which leaves some tokens. They are in
front of these tokens, except that the last one may blame the first of them, if it is a word that
stops a recovery. No failure blames a word with which the round starts a declaration.
-/
structure Failure.InRound (failures : List Failure) (tokens rest : List Token) : Prop where
  suffix : rest <:+ tokens
  shorter : rest.length < tokens.length
  blames : ∀ failure ∈ failures, failure.Blames tokens
  descending : failures.Pairwise fun earlier later => later.remaining < earlier.remaining
  ahead : ∀ failure ∈ failures, rest.length ≤ failure.remaining
  resumes : ∀ failure ∈ failures, failure.remaining = rest.length →
    ∀ token others, rest = token :: others → Recovery.ResumesProgram token.kind
  fresh : ∀ failure ∈ failures, ∀ token others, tokens = token :: others →
    token.kind = .keyword .funWord ∨ token.kind = .keyword .letWord →
    failure.remaining < tokens.length
  bounded : failures.length + rest.length ≤ tokens.length

namespace Failure.InRound

variable {tokens rest : List Token} {token : Token} {attempt : Attempt Decl} {failure : Failure}
  {decl : Decl}

/-- A round that reads a declaration. -/
theorem of_declared (runs : Rule.DeclarationRuns tokens attempt)
    (read : attempt.result = .ok (decl, rest)) : InRound attempt.failures tokens rest := by
  have left_eq : Rule.leftOver attempt.result = rest := congrArg Rule.leftOver read
  rcases runs.exists_cons with ⟨token, others, rfl⟩
  rcases runs.inStep_or_refused with inStep | ⟨⟨_, rfl⟩, _⟩
  · have suffix := left_eq ▸ inStep.suffix
    have ahead := left_eq ▸ inStep.ahead
    have bounded := left_eq ▸ inStep.bounded
    exact {
      suffix := suffix.trans (List.suffix_cons token others)
      shorter := Nat.lt_succ_of_le suffix.length_le
      blames := fun failure member =>
        (inStep.blames failure member).of_suffix (List.suffix_cons token others)
      descending := inStep.descending
      ahead := fun failure member => Nat.le_of_lt (ahead failure member)
      resumes := fun failure member same => absurd same (Nat.ne_of_gt (ahead failure member))
      fresh := fun failure member _ _ _ _ =>
        Nat.lt_succ_of_le (inStep.blames failure member).remaining_le
      bounded := Nat.le_succ_of_le bounded }
  · cases read

/-- A round that fails, with the tokens that are left behind the failure. -/
theorem of_failed (runs : Rule.DeclarationRuns tokens attempt)
    (failed : attempt.result = .error failure) (suffix : rest <:+ failure.rest)
    (shorter : rest.length < tokens.length)
    (resumes : rest = failure.rest →
      ∀ token others, rest = token :: others → Recovery.ResumesProgram token.kind) :
    InRound (attempt.failures ++ [failure]) tokens rest := by
  have left_eq : Rule.leftOver attempt.result = failure.rest := congrArg Rule.leftOver failed
  have rest_le : rest.length ≤ failure.remaining := suffix.length_le
  have stopped : failure.remaining = rest.length → rest = failure.rest := fun same =>
    suffix.eq_of_length same.symm
  rcases runs.exists_cons with ⟨token, others, rfl⟩
  rcases runs.inStep_or_refused with inStep | ⟨⟨expected, rfl⟩, isNoFun, isNoLet⟩
  · have blames := inStep.error failure failed
    have ahead := left_eq ▸ inStep.ahead
    have bounded := left_eq ▸ inStep.bounded
    have behind : ∀ earlier ∈ attempt.failures ++ [failure], earlier.Blames others :=
      List.forall_mem_append.mpr ⟨inStep.blames, List.forall_mem_singleton.mpr blames⟩
    refine ⟨(suffix.trans blames.suffix).trans (List.suffix_cons token others), shorter, ?_, ?_, ?_,
      ?_, ?_, ?_⟩
    · exact fun earlier member => (behind earlier member).of_suffix (List.suffix_cons token others)
    · refine List.pairwise_append.mpr ⟨inStep.descending, List.pairwise_singleton _ _, ?_⟩
      exact fun earlier member => List.forall_mem_singleton.mpr (ahead earlier member)
    · refine List.forall_mem_append.mpr ⟨fun earlier member => ?_,
        List.forall_mem_singleton.mpr rest_le⟩
      exact Nat.le_trans rest_le (Nat.le_of_lt (ahead earlier member))
    · refine List.forall_mem_append.mpr ⟨fun earlier member same => ?_,
        List.forall_mem_singleton.mpr fun same => resumes (stopped same)⟩
      have before : failure.remaining < earlier.remaining := ahead earlier member
      omega
    · exact fun earlier member _ _ _ _ => Nat.lt_succ_of_le (behind earlier member).remaining_le
    · simp only [List.length_append, List.length_cons, List.length_nil, Failure.remaining] at *
      omega
  · cases failed
    have blames := Failure.Blames.next (token :: others) expected
    refine ⟨suffix, shorter, List.forall_mem_singleton.mpr blames, List.pairwise_singleton _ _,
      List.forall_mem_singleton.mpr rest_le,
      List.forall_mem_singleton.mpr fun same => resumes (stopped same),
      List.forall_mem_singleton.mpr ?_, ?_⟩
    · rintro _ _ ⟨_⟩ keyword
      exact absurd keyword (not_or.mpr ⟨isNoFun, isNoLet⟩)
    · simp only [List.nil_append, List.length_cons, List.length_nil] at shorter ⊢
      omega

/-- A round that recovers from the failure of a declaration. -/
theorem of_recovered (runs : Rule.DeclarationRuns tokens attempt)
    (failed : attempt.result = .error failure) (more : failure.rest ≠ []) :
    InRound (attempt.failures ++ [failure]) tokens (failure.recovery tokens) := by
  have blames := runs.blames failed
  refine of_failed runs failed (Recovery.inProgram_suffix _ _ _)
    (Recovery.length_inProgram_lt blames.suffix more) ?_
  rintro stopped token others recovery_eq
  rw [stopped] at recovery_eq
  rw [recovery, recovery_eq] at stopped
  rcases Recovery.inProgram_drops_or_stops (decide ((token :: others).length < tokens.length)) token
    others with drops | ⟨_, resumes, _⟩
  · have dropped := drops.length_le
    rw [stopped, List.length_cons] at dropped
    exact absurd dropped (Nat.not_succ_le_self _)
  · exact resumes

/-- A round after which the program is left. -/
theorem of_stopped (runs : Rule.DeclarationRuns tokens attempt)
    (failed : attempt.result = .error failure) :
    InRound (attempt.failures ++ [failure]) tokens [] := by
  rcases runs.exists_cons with ⟨token, others, rfl⟩
  exact of_failed runs failed List.nil_suffix (Nat.zero_lt_succ _)
    fun _ _ _ rest_eq => by cases rest_eq

end Failure.InRound

/-- All that a run over a program says is said by its rounds. -/
theorem Parsed.Runs.rounds {motive : List Token → List Failure → Prop} {tokens left : List Token}
    {decls : List Decl} {failures : List Failure} (runs : Parsed.Runs tokens decls failures left)
    (ended : motive [] [])
    (round : ∀ {tokens rest front failures}, Failure.InRound front tokens rest →
      motive rest failures → motive tokens (front ++ failures)) : motive tokens failures := by
  induction runs with
  | ended => exact ended
  | declared runs read _ ih => exact round (.of_declared runs read) ih
  | @recovered tokens _ attempt failure _ failures runs failed more _ ih =>
      have whole := round (.of_recovered runs failed more) ih
      rwa [List.append_assoc] at whole
  | @stopped tokens attempt failure runs failed _ =>
      have whole := round (.of_stopped runs failed) ended
      rwa [List.append_nil] at whole

/--
The failures of a run over some tokens. They blame tokens one after the other. None is blamed twice
but the word for structures, which may be blamed two times. The word with which a declaration
starts is not blamed if the run starts with it.
-/
structure Failure.InRun (failures : List Failure) (tokens : List Token) : Prop where
  blames : ∀ failure ∈ failures, failure.Blames tokens
  descending : failures.Pairwise fun earlier later => later.remaining ≤ earlier.remaining
  bounded : failures.length ≤ tokens.length
  start : (failures.map remaining).count tokens.length ≤ 1
  fresh : ∀ token others, tokens = token :: others →
    token.kind = .keyword .funWord ∨ token.kind = .keyword .letWord →
    (failures.map remaining).count tokens.length = 0
  repeated : ∀ length, (failures.map remaining).count length ≤ 1 ∨
    (failures.map remaining).count length = 2 ∧ ∃ span others,
      ⟨.keyword .structWord, span⟩ :: others <:+ tokens ∧ length = others.length + 1

namespace Failure.InRun

variable {tokens rest : List Token} {front failures : List Failure}

theorem nil : InRun [] [] where
  blames := List.forall_mem_nil _
  descending := .nil
  bounded := Nat.le_refl 0
  start := Nat.zero_le 1
  fresh _ _ tokens_eq := by cases tokens_eq
  repeated _ := .inl (Nat.zero_le 1)

/-- In front of a run, nothing of it is blamed. -/
theorem count_eq_zero (inRun : InRun failures tokens) {length : Nat}
    (lt : tokens.length < length) : (failures.map remaining).count length = 0 := by
  refine List.count_eq_zero.mpr fun member => ?_
  rcases List.mem_map.mp member with ⟨failure, failureMem, rfl⟩
  exact absurd (inRun.blames failure failureMem).remaining_le (Nat.not_le_of_lt lt)

end Failure.InRun

namespace Failure.InRound

variable {tokens rest : List Token} {front failures : List Failure}

/-- Inside a round nothing is blamed twice. -/
theorem count_le_one (inRound : InRound front tokens rest) (length : Nat) :
    (front.map remaining).count length ≤ 1 := by
  refine List.nodup_iff_count_le_one.mp ?_ length
  exact List.pairwise_map.mpr (inRound.descending.imp fun lt => Nat.ne_of_gt lt)

/-- A round blames nothing behind the tokens that it leaves. -/
theorem count_eq_zero (inRound : InRound front tokens rest) {length : Nat}
    (lt : length < rest.length) : (front.map remaining).count length = 0 := by
  refine List.count_eq_zero.mpr fun member => ?_
  rcases List.mem_map.mp member with ⟨failure, failureMem, rfl⟩
  exact absurd (inRound.ahead failure failureMem) (Nat.not_le_of_lt lt)

/-- A round in front of a run blames the first token of the run twice only if it is that word. -/
theorem count_rest (inRound : InRound front tokens rest) (inRun : InRun failures rest) :
    (front.map remaining).count rest.length + (failures.map remaining).count rest.length ≤ 1 ∨
    (front.map remaining).count rest.length + (failures.map remaining).count rest.length = 2 ∧
      ∃ span others, rest = ⟨.keyword .structWord, span⟩ :: others := by
  have front_le := inRound.count_le_one rest.length
  have start := inRun.start
  by_cases blamed : rest.length ∈ front.map remaining
  · rcases List.mem_map.mp blamed with ⟨failure, member, same⟩
    cases rest with
    | nil =>
        have none : failures = [] := List.length_eq_zero_iff.mp (Nat.le_zero.mp inRun.bounded)
        rw [none, List.map_nil, List.count_nil]
        exact .inl front_le
    | cons token others =>
        have fresh := inRun.fresh token others rfl
        rcases inRound.resumes failure member same token others rfl with isFun | isStruct | isLet
        · rw [fresh (.inl isFun)]
          exact .inl front_le
        · by_cases once : (front.map remaining).count (token :: others).length +
            (failures.map remaining).count (token :: others).length ≤ 1
          · exact .inl once
          · exact .inr ⟨by omega, token.span, others, by rw [← Rule.eq_of_kind_keyword isStruct]⟩
        · rw [fresh (.inr isLet)]
          exact .inl front_le
  · rw [List.count_eq_zero.mpr blamed, Nat.zero_add]
    exact .inl start

end Failure.InRound

theorem Failure.InRun.cons {tokens rest : List Token} {front failures : List Failure}
    (inRound : InRound front tokens rest) (inRun : InRun failures rest) :
    InRun (front ++ failures) tokens where
  blames := List.forall_mem_append.mpr ⟨inRound.blames, fun failure member =>
    (inRun.blames failure member).of_suffix inRound.suffix⟩
  descending := by
    refine List.pairwise_append.mpr ⟨inRound.descending.imp Nat.le_of_lt, inRun.descending, ?_⟩
    intro earlier earlierMem later laterMem
    exact Nat.le_trans (inRun.blames later laterMem).remaining_le
      (inRound.ahead earlier earlierMem)
  bounded := by
    have front_le := inRound.bounded
    have bounded := inRun.bounded
    rw [List.length_append]
    omega
  start := by
    rw [List.map_append, List.count_append, inRun.count_eq_zero inRound.shorter]
    exact inRound.count_le_one tokens.length
  fresh token others tokens_eq keyword := by
    rw [List.map_append, List.count_append, inRun.count_eq_zero inRound.shorter]
    refine List.count_eq_zero.mpr fun member => ?_
    rcases List.mem_map.mp member with ⟨failure, failureMem, same⟩
    have lt := inRound.fresh failure failureMem token others tokens_eq keyword
    exact absurd same (Nat.ne_of_lt lt)
  repeated length := by
    rw [List.map_append, List.count_append]
    rcases Nat.lt_trichotomy length rest.length with lt | rfl | gt
    · rw [inRound.count_eq_zero lt, Nat.zero_add]
      refine (inRun.repeated length).imp_right ?_
      rintro ⟨twice, span, others, suffix, length_eq⟩
      exact ⟨twice, span, others, suffix.trans inRound.suffix, length_eq⟩
    · refine (inRound.count_rest inRun).imp_right ?_
      rintro ⟨twice, span, others, rfl⟩
      exact ⟨twice, span, others, inRound.suffix, rfl⟩
    · rw [inRun.count_eq_zero gt]
      exact .inl (inRound.count_le_one length)

/-- The failures of a run blame tokens one after the other. -/
theorem Parsed.Runs.inRun {tokens left : List Token} {decls : List Decl} {failures : List Failure}
    (runs : Parsed.Runs tokens decls failures left) : Failure.InRun failures tokens :=
    runs.rounds (motive := fun tokens failures => Failure.InRun failures tokens) .nil .cons

/-- The token in front of some others is where they are counted from the end. -/
theorem getElem?_of_suffix {token : Token} {others tokens : List Token}
    (suffix : token :: others <:+ tokens) :
    tokens[tokens.length - (others.length + 1)]? = some token := by
  rcases suffix with ⟨front, rfl⟩
  simp

/-- The index of the token that a failure blames; at the end, the number of tokens. -/
def Failure.index (tokens : List Token) (failure : Failure) : Nat :=
  tokens.length - failure.remaining

/--
An error of a source is about the place with an index among some tokens: about the token there or,
behind the last one, about the end of the input.
-/
def ParseError.IsAt (error : ParseError) (source : SourceId) (tokens : List Token) (index : Nat) :
    Prop :=
  (∃ token, tokens[index]? = some token ∧ error.Blames source token) ∨
    index = tokens.length ∧ ∃ expected, error = ⟨source, .unexpectedEndOfInput expected⟩

/--
Errors about some tokens come in the order of the places they are about, each place once, up to the
word for structures, which may have two errors. Only the last error may be about the end of the
input, and there are no more errors than tokens.
-/
structure ParseError.InOrder (source : SourceId) (tokens : List Token) (errors : List ParseError)
    (indices : List Nat) : Prop where
  placed : List.Forall₂ (fun error index => error.IsAt source tokens index) errors indices
  ascending : indices.Pairwise (· ≤ ·)
  repeated : ∀ index, indices.count index ≤ 1 ∨
    indices.count index = 2 ∧ ∃ span, tokens[index]? = some ⟨.keyword .structWord, span⟩
  tokens_before_last : ∀ error ∈ errors.dropLast, ∃ token ∈ tokens, error.Blames source token
  bounded : errors.length ≤ tokens.length

namespace Failure

variable {tokens : List Token} {failure : Failure} {failures : List Failure}

/-- The error of a failure is about the token that the failure blames. -/
theorem Blames.error_isAt (blames : failure.Blames tokens) (source : SourceId) :
    (failure.error source).IsAt source tokens (failure.index tokens) := by
  cases rest_eq : failure.rest with
  | nil =>
      refine .inr ⟨?_, failure.expected, ?_⟩
      · simp [index, remaining, rest_eq]
      · simp [Failure.error, blames.not_pastEnd, rest_eq]
  | cons token others =>
      refine .inl ⟨token, ?_, failure.expected, ?_⟩
      · have suffix := blames.suffix
        rw [rest_eq] at suffix
        simpa [index, remaining, rest_eq] using getElem?_of_suffix suffix
      · simp [Failure.error, blames.not_pastEnd, rest_eq]

namespace InRun

theorem count_index (inRun : InRun failures tokens) {place : Nat} (le : place ≤ tokens.length) :
    (failures.map (index tokens)).count place =
      (failures.map remaining).count (tokens.length - place) := by
  rw [List.count, List.count, List.countP_map, List.countP_map]
  refine List.countP_congr fun failure member => ?_
  have remaining_le := (inRun.blames failure member).remaining_le
  simp only [Function.comp_apply, beq_iff_eq, index]
  omega

/-- The end of the input is blamed by the last failure only. -/
theorem rest_ne_nil (inRun : InRun failures tokens) :
    ∀ failure ∈ failures.dropLast, failure.rest ≠ [] := by
  intro failure member nothing
  rcases List.eq_nil_or_concat failures with rfl | ⟨front, last, rfl⟩
  · cases member
  rw [List.concat_eq_append, List.dropLast_concat] at member
  have descending := inRun.descending
  rw [List.concat_eq_append, List.pairwise_append] at descending
  have ended : failure.remaining = 0 := by rw [remaining, nothing, List.length_nil]
  have lastEnded : last.remaining = 0 := by
    have le := descending.2.2 failure member last List.mem_cons_self
    omega
  have twice : 1 < ((front.concat last).map remaining).count 0 := by
    rw [List.concat_eq_append, List.map_append, List.count_append]
    have front_pos : 0 < (front.map remaining).count 0 :=
      List.count_pos_iff.mpr (List.mem_map.mpr ⟨failure, member, ended⟩)
    simp [lastEnded, front_pos]
  rcases inRun.repeated 0 with once | ⟨_, _, others, _, length_eq⟩
  · omega
  · cases length_eq

theorem inOrder (inRun : InRun failures tokens) (source : SourceId) :
    ParseError.InOrder source tokens (failures.map (Failure.error source))
      (failures.map (index tokens)) where
  placed := by
    rw [List.forall₂_map_left_iff, List.forall₂_map_right_iff]
    exact List.forall₂_same.mpr fun failure member => (inRun.blames failure member).error_isAt source
  ascending := List.pairwise_map.mpr (inRun.descending.imp fun le => Nat.sub_le_sub_left le _)
  repeated place := by
    by_cases le : place ≤ tokens.length
    · rw [inRun.count_index le]
      refine (inRun.repeated (tokens.length - place)).imp_right ?_
      rintro ⟨twice, span, others, suffix, length_eq⟩
      have found := getElem?_of_suffix suffix
      rw [← length_eq, Nat.sub_sub_self le] at found
      exact ⟨twice, span, found⟩
    · have absent : place ∉ failures.map (index tokens) := by
        intro member
        rcases List.mem_map.mp member with ⟨failure, _, rfl⟩
        exact le (Nat.sub_le _ _)
      exact .inl (Nat.le_of_lt_succ (by rw [List.count_eq_zero.mpr absent]; decide))
  tokens_before_last := by
    rw [← List.map_dropLast, List.forall_mem_map]
    intro failure member
    have blames := inRun.blames failure ((List.dropLast_sublist failures).subset member)
    rcases List.exists_cons_of_ne_nil (inRun.rest_ne_nil failure member) with ⟨token, others, rest_eq⟩
    have blamesOne : failure.BlamesOneOf tokens := by
      refine ⟨blames.not_pastEnd, token, blames.suffix.subset ?_, ?_⟩
      · simp [rest_eq]
      · simp [rest_eq]
    exact blamesOne.error source
  bounded := by
    rw [List.length_map]
    exact inRun.bounded

end InRun

end Failure

/--
The parser reads all tokens, whatever they are, and reports its errors in their order. The first
part says that the loops of the parser come to an end, and that nothing is left unread then.
-/
theorem Parsed.errors_inOrder (source : SourceId) (tokens : List Token) :
    ∃ failures, Runs tokens (ofTokens source tokens).program.declarations failures [] ∧
      (ofTokens source tokens).errors = failures.map (Failure.error source) ∧
      ParseError.InOrder source tokens (ofTokens source tokens).errors
        (failures.map (Failure.index tokens)) := by
  have runs := declarations_runs (Nat.le_refl tokens.length)
  exact ⟨_, runs, rfl, runs.inRun.inOrder source⟩

/-- A variable without a name in front of the word for structures, which is blamed twice. -/
example :
    (Parsed.ofTokens 0
      [⟨.keyword .letWord, .single 0⟩, ⟨.keyword .structWord, .single 4⟩]).errors =
      [⟨0, .unexpectedToken (some (.single 4)) (some (.keyword .structWord)) [.identifier]⟩,
        ⟨0, .unexpectedToken (some (.single 4)) (some (.keyword .structWord))
          [.keyword .funWord, .keyword .letWord]⟩] := by
  decide

end TypedLang
