import TypedLang.CommandLine
import TypedLang.Proofs.Compilation
import TypedLang.Proofs.Token.Keys

/-!
# Runs of the command line

How a run of the command line can end, whatever the files do. The listing of the tokens reads the
text once before it is compiled, with the same interner; as reading a text again changes nothing,
neither what the run reports nor the listing of the tree depends on it. So the only options that
matter for the verdict are the path of the source, and for the listings, where they go.

A run ends in an orderly way, with the status that tells what happened, unless its source opens but
cannot be read. Then it is aborted.
-/

namespace TypedLang

/-- A text that was read before is compiled as a text that was not. -/
theorem compile_again {registry : Registry} {id : SourceId} {source : Source}
    (found : registry.get id = .ok source) (interner : Interner) :
    compile registry id ((Lexer.ofText id source.text interner).tokenize).2.interner =
      compile registry id interner := by
  simp only [compile, Lexer.ofSource, found, Bind.bind, Except.bind, Pure.pure, Except.pure,
    Lexer.tokenize_again]

namespace CommandLine

/-- Where the listing of the tree goes, which a run that only checks leaves out. -/
def Options.treeTarget (options : Options) : Option Target :=
  if options.checkOnly then none else options.tree

/-- The listing of the tokens of a text. -/
def tokenText (text : Bytes) : Bytes :=
  let scanned := (Lexer.ofText 0 text .empty).tokenize
  Listing.tokens scanned.2.interner scanned.1

/-- The listing of the tree that a compilation gives. -/
def treeText (compilation : Compilation) : Bytes :=
  Listing.program compilation.interner compilation.output.program

section

variable {State : Type} (files : FileAccess (StateM State))

/-- A listing goes where it is wanted, if anywhere: what is printed, and the files afterwards. -/
inductive Written (text : Bytes) : Option Target → State → Bytes → State → Prop where
  | unwanted {state : State} : Written text none state [] state
  | printed {state : State} : Written text (some .standardOutput) state text state
  | filed {path : Bytes} {state after : State} :
      (files.write path text).run state = (true, after) →
      Written text (some (.file path)) state [] after

/-- A listing is wanted in a file that cannot be opened. -/
inductive Unwritten (text : Bytes) : Option Target → State → State → Prop where
  | filed {path : Bytes} {state after : State} :
      (files.write path text).run state = (false, after) →
      Unwritten text (some (.file path)) state after

variable (options : Options) (text : Bytes) (compilation : Compilation)

/-- Both listings are written, first that of the tokens. -/
inductive Listed (opened : State) : Bytes → State → Prop where
  | intro {tokens tree : Bytes} {between after : State} :
      Written files (tokenText text) options.tokens opened tokens between →
      Written files (treeText compilation) options.treeTarget between tree after →
      Listed opened (tokens ++ tree) after

/-- A listing cannot be written: that of the tokens, or that of the tree behind it. -/
inductive Unlisted (opened : State) : State → Prop where
  | tokens {after : State} :
      Unwritten files (tokenText text) options.tokens opened after → Unlisted opened after
  | tree {tokens : Bytes} {between after : State} :
      Written files (tokenText text) options.tokens opened tokens between →
      Unwritten files (treeText compilation) options.treeTarget between after →
      Unlisted opened after

end

/-- Status and complaint of a run that wrote all its listings: the compilation alone decides. -/
inductive Verdict (compilation : Compilation) (printed : Bytes) : Outcome → Prop where
  | passed : compilation.output.success = true → Verdict compilation printed ⟨0, printed, []⟩
  | failed {stage : Stage} : compilation.output.failedStage = some stage →
      Verdict compilation printed
        ⟨1, printed, Bytes.concat [stage.name, " failed with ",
          Bytes.ofNat compilation.output.diagnostics.length, " diagnostics:\n",
          Report.textAll compilation.output.diagnostics compilation.registry]⟩

/--
How a run of the command line ends in an orderly way. It ends with status 2 if the arguments are
refused, the source cannot be read, or a listing is wanted in a file that cannot be opened. In all
other cases the verdict is that of the compilation of the text under its path.
-/
inductive Ends {State : Type} (files : FileAccess (StateM State)) (arguments : List Bytes)
    (before : State) : Outcome → State → Prop where
  | refused {refusal : Refusal} {outcome : Outcome} :
      parse arguments = .error refusal → outcome.exitCode = 2 →
      Ends files arguments before outcome before
  | unreadable {options : Options} {reading : Reading} {outcome : Outcome} {after : State} :
      parse arguments = .ok options → (files.read options.path).run before = (reading, after) →
      (∀ text, reading ≠ .text text) → outcome.exitCode = 2 →
      Ends files arguments before outcome after
  | unlisted {options : Options} {text : Bytes} {compilation : Compilation} {outcome : Outcome}
      {opened after : State} :
      parse arguments = .ok options → (files.read options.path).run before = (.text text, opened) →
      compileText text options.path = .ok compilation →
      Unlisted files options text compilation opened after → outcome.exitCode = 2 →
      Ends files arguments before outcome after
  | concluded {options : Options} {text printed : Bytes} {compilation : Compilation}
      {outcome : Outcome} {opened after : State} :
      parse arguments = .ok options → (files.read options.path).run before = (.text text, opened) →
      compileText text options.path = .ok compilation →
      Listed files options text compilation opened printed after →
      Verdict compilation printed outcome → Ends files arguments before outcome after

/-- The source of a run opens, but reading it breaks off, about which the platform complains. -/
def BreaksOff {State : Type} (files : FileAccess (StateM State)) (arguments : List Bytes)
    (before : State) (complaint : Bytes) (after : State) : Prop :=
  ∃ options, parse arguments = .ok options ∧
    (files.read options.path).run before = (.broken complaint, after)

theorem tokenListing_eq {registry : Registry} {source : Source} (found : registry.get 0 = .ok source) :
    tokenListing registry 0 .empty =
      .ok (tokenText source.text,
        ((Lexer.ofText 0 source.text .empty).tokenize).2.interner) := by
  rw [tokenListing, Lexer.ofSource, found]
  rfl

theorem compileAndList_again {m : Type → Type} [Monad m] (files : FileAccess m) (options : Options)
    (outcome : Outcome) {registry : Registry} {id : SourceId} {source : Source}
    (found : registry.get id = .ok source) :
    compileAndList files options outcome registry id
        ((Lexer.ofText id source.text .empty).tokenize).2.interner =
      compileAndList files options outcome registry id .empty := by
  rw [compileAndList, compile_again found, compileAndList]

/-- The listing of the tokens does not matter for what is compiled behind it. -/
theorem runSource_eq {m : Type → Type} [Monad m] [LawfulMonad m] (files : FileAccess m)
    (options : Options) (text : Bytes) :
    runSource files options text = (do
      match ← writeListing files {} "token" (tokenText text) options.tokens with
      | .error outcome => pure outcome
      | .ok outcome =>
          compileAndList files options outcome ⟨[⟨options.path, text⟩]⟩ 0 .empty) := by
  have found : Registry.get ⟨[⟨options.path, text⟩]⟩ 0 = .ok ⟨options.path, text⟩ := rfl
  rcases wanted : options.tokens with _ | target
  · rw [writeListing, pure_bind, runSource, wanted]
    rfl
  · have listing_eq := tokenListing_eq found
    change tokenListing (Registry.empty.add options.path text).2 0 .empty = _ at listing_eq
    rw [runSource, wanted]
    dsimp only [Registry.size, Registry.add, Registry.empty, List.length_nil] at listing_eq ⊢
    rw [listing_eq]
    refine bind_congr fun listed => ?_
    cases listed with
    | error outcome => rfl
    | ok outcome => exact compileAndList_again files options outcome found

variable {State : Type} (files : FileAccess (StateM State))

theorem Outcome.print_nil (outcome : Outcome) : outcome.print [] = outcome := by
  rw [print, List.append_nil]

/-- A listing is written, which adds to the standard output, or the run ends there. -/
theorem writeListing_cases (outcome : Outcome) (label : String) (text : Bytes)
    (target : Option Target) (state : State) :
    (∃ printed after, Written files text target state printed after ∧
      (writeListing files outcome label text target).run state =
        (.ok (outcome.print printed), after)) ∨
    ∃ refused after, Unwritten files text target state after ∧ refused.exitCode = 2 ∧
      (writeListing files outcome label text target).run state = (.error refused, after) := by
  rcases target with _ | _ | path
  · exact .inl ⟨[], state, .unwanted, by rw [outcome.print_nil]; rfl⟩
  · exact .inl ⟨text, state, .printed, rfl⟩
  · rcases wrote : (files.write path text).run state with ⟨opened, after⟩
    rw [writeListing, StateT.run_bind, wrote]
    cases opened with
    | true => exact .inl ⟨[], after, .filed wrote, by rw [outcome.print_nil]; rfl⟩
    | false => exact .inr ⟨_, after, .filed wrote, rfl, rfl⟩

theorem conclude_verdict (compilation : Compilation) (printed : Bytes) :
    Verdict compilation printed
      (conclude ⟨0, printed, []⟩ compilation.output compilation.registry) := by
  rw [conclude]
  split
  · rename_i passed
    exact .passed (by rw [Output.success, passed]; rfl)
  · rename_i stage failed
    exact .failed failed

/-- A run whose tokens are listed concludes behind the listing of the tree, or ends there. -/
theorem compileAndList_cases {options : Options} {registry : Registry} {id : SourceId}
    {interner final : Interner} {output : Output}
    (compiled : compile registry id interner = .ok (output, final)) (printed : Bytes)
    (state : State) :
    let compilation : Compilation := ⟨registry, final, id, output⟩
    let ended := (compileAndList files options ⟨0, printed, []⟩ registry id interner).run state
    (∃ tree, Written files (treeText compilation) options.treeTarget state tree ended.2 ∧
      Verdict compilation (printed ++ tree) ended.1) ∨
    (Unwritten files (treeText compilation) options.treeTarget state ended.2 ∧
      ended.1.exitCode = 2) := by
  intro compilation ended
  have ended_eq : ended = ((writeListing files ⟨0, printed, []⟩ "AST" (treeText compilation)
      options.treeTarget >>= fun
        | .error outcome => pure outcome
        | .ok outcome => pure (conclude outcome output registry)).run state) := by
    simp only [ended, compileAndList, compiled]
    rfl
  rw [StateT.run_bind] at ended_eq
  rcases writeListing_cases files ⟨0, printed, []⟩ "AST" (treeText compilation) options.treeTarget
    state with ⟨tree, after, written, wrote⟩ | ⟨refused, after, unwritten, status, wrote⟩
  · rw [wrote] at ended_eq
    rw [ended_eq]
    exact .inl ⟨tree, written, conclude_verdict compilation _⟩
  · rw [wrote] at ended_eq
    rw [ended_eq]
    exact .inr ⟨unwritten, status⟩

/-- A run whose source cannot be read after it has opened is aborted. -/
theorem run_of_breaksOff {arguments : List Bytes} {before after : State} {complaint : Bytes}
    (breaks : BreaksOff files arguments before complaint after) :
    (run files arguments).run before = (.aborted complaint, after) := by
  obtain ⟨options, parsed, read⟩ := breaks
  rw [run, parsed]
  dsimp only
  rw [StateT.run_bind, read]
  rfl

/-- An aborted run does not end in an orderly way. -/
theorem not_ends_of_breaksOff {arguments : List Bytes} {before after : State} {complaint : Bytes}
    (breaks : BreaksOff files arguments before complaint after) :
    ¬ Ends files arguments before (.aborted complaint) after := by
  obtain ⟨options, parsed, read⟩ := breaks
  intro ends
  cases ends with
  | refused refused _ =>
      rw [parsed] at refused
      cases refused
  | unreadable _ _ _ status => cases status
  | unlisted others text _ _ _ =>
      rw [parsed] at others
      cases others
      rw [read] at text
      cases text
  | concluded others text _ _ _ =>
      rw [parsed] at others
      cases others
      rw [read] at text
      cases text

/-- A run whose source is read or does not open ends in an orderly way. -/
theorem ends_run {arguments : List Bytes} {before : State}
    (whole : ∀ complaint after, ¬ BreaksOff files arguments before complaint after) :
    Ends files arguments before ((run files arguments).run before).1
      ((run files arguments).run before).2 := by
  rw [run]
  rcases parsed : parse arguments with refusal | options
  · refine .refused parsed ?_
    cases refusal <;> rfl
  dsimp only
  rw [StateT.run_bind]
  rcases read : (files.read options.path).run before with ⟨_ | complaint | text, opened⟩
  · exact .unreadable parsed read (by simp) rfl
  · exact absurd ⟨options, parsed, read⟩ (whole complaint opened)
  change Ends files arguments before ((runSource files options text).run opened).1
    ((runSource files options text).run opened).2
  have found : Registry.get ⟨[⟨options.path, text⟩]⟩ 0 = .ok ⟨options.path, text⟩ := rfl
  rcases compile_isOk found .empty with ⟨output, final, compiled, _⟩
  have compiledText := compileText_of_compile compiled
  rw [runSource_eq, StateT.run_bind]
  rcases writeListing_cases files {} "token" (tokenText text) options.tokens opened with
    ⟨tokens, between, written, wrote⟩ | ⟨refused, after, unwritten, status, wrote⟩
  · rw [wrote]
    change Ends files arguments before
      ((compileAndList files options ⟨0, tokens, []⟩ _ 0 .empty).run between).1
      ((compileAndList files options ⟨0, tokens, []⟩ _ 0 .empty).run between).2
    rcases compileAndList_cases files compiled tokens between with
      ⟨tree, treeWritten, verdict⟩ | ⟨unwritten, status⟩
    · exact .concluded parsed read compiledText (.intro written treeWritten) verdict
    · exact .unlisted parsed read compiledText (.tree written unwritten) status
  · rw [wrote]
    exact .unlisted parsed read compiledText (.tokens unwritten) status

/--
A run of the command line ends as the compilation of its text says, whatever else it lists, exactly
if its source does not open or can be read. Otherwise it is aborted.
-/
theorem run_ends (arguments : List Bytes) (before : State) :
    (Ends files arguments before ((run files arguments).run before).1
        ((run files arguments).run before).2 ↔
      ∀ complaint after, ¬ BreaksOff files arguments before complaint after) ∧
    ∀ complaint after, BreaksOff files arguments before complaint after →
      (run files arguments).run before = (.aborted complaint, after) := by
  refine ⟨⟨?_, ends_run files⟩, fun _ _ => run_of_breaksOff files⟩
  intro ends complaint after breaks
  rw [run_of_breaksOff files breaks] at ends
  exact not_ends_of_breaksOff files breaks ends

/-- A run on the directory in which it is started is aborted, though it cannot read its source. -/
theorem not_ends_directory :
    let ended := runIn {} [] [Bytes.ofText "--file", Bytes.ofText "."]
    ended.1.exitCode = 134 ∧
      ¬ Ends (Directory.access []) [Bytes.ofText "--file", Bytes.ofText "."] {} ended.1 ended.2 := by
  refine ⟨by decide, ?_⟩
  apply not_ends_of_breaksOff
  exact ⟨{ path := Bytes.ofText "." }, by decide, rfl⟩

end CommandLine

end TypedLang
