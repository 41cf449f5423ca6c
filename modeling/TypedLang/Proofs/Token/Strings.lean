import TypedLang.Proofs.Token.Scanning
import TypedLang.Proofs.Token.Stretches

/-!
# Ends of strings

A string ends at the first quote that nothing escapes. Backslashes in front of a quote pair up, so
that an odd number of them escapes it. The lexer looks back one byte only: to it, any backslash
right before a quote escapes the quote. Both ways to read a string come to the same unless a quote
that closes the string by the first has backslashes in front of it.
-/

namespace TypedLang

namespace Bytes

/-- Whether the last of these bytes is a backslash. -/
def EndsInBackslash (text : Bytes) : Prop :=
  text.getLast? = some Byte.backslash

instance : DecidablePred EndsInBackslash :=
  fun text => inferInstanceAs (Decidable (text.getLast? = some Byte.backslash))

/-- Whether the number of backslashes at the end of these bytes is odd. -/
def EndsInOddBackslashes (text : Bytes) : Prop :=
  (text.reverse.takeWhile (· == Byte.backslash)).length % 2 = 1

instance : DecidablePred EndsInOddBackslashes :=
  fun _ => inferInstanceAs (Decidable (_ % 2 = 1))

theorem EndsInOddBackslashes.endsInBackslash {text : Bytes} (odd : text.EndsInOddBackslashes) :
    text.EndsInBackslash := by
  rw [EndsInOddBackslashes] at odd
  rw [EndsInBackslash, ← List.head?_reverse]
  generalize text.reverse = reversed at odd ⊢
  rcases reversed with _ | ⟨last, others⟩
  · simp at odd
  · by_cases isBackslash : last = Byte.backslash
    · rw [isBackslash, List.head?_cons]
    · simp [isBackslash] at odd

/-- A body stands in front of the first quote of a text that what is before it does not escape. -/
structure ClosedBy (escapes : Bytes → Prop) (text body others : Bytes) : Prop where
  split : text = body ++ Byte.quote :: others
  free : ¬ escapes body
  first : ∀ before after, body = before ++ Byte.quote :: after → escapes before

namespace ClosedBy

variable {escapes : Bytes → Prop} {text body others : Bytes}

/-- If some quote of a text is not escaped, there is a first one. -/
theorem exists_of_free (body others : Bytes) (free : ¬ escapes body)
    (split : text = body ++ Byte.quote :: others) :
    ∃ body others, ClosedBy escapes text body others := by
  by_cases first : ∀ before after, body = before ++ Byte.quote :: after → escapes before
  · exact ⟨body, others, split, free, first⟩
  · simp only [not_forall] at first
    rcases first with ⟨before, after, inner, earlier⟩
    have shorter : before.length < body.length := by
      rw [inner, List.length_append, List.length_cons]
      omega
    exact exists_of_free before (after ++ Byte.quote :: others) earlier (by simp [split, inner])
termination_by body.length

theorem body_eq (closed : ClosedBy escapes text body others) :
    body = text.take body.length ∧ body.length < text.length := by
  rw [closed.split]
  simp

theorem isQuotable (closed : ClosedBy EndsInBackslash text body others) : body.IsQuotable :=
  ⟨closed.first, closed.free⟩

/-- Both ways to count backslashes find the same end, if none is in front of the even quotes. -/
theorem odd_iff (single : ∀ body others, ClosedBy EndsInOddBackslashes text body others →
      ¬ body.EndsInBackslash) :
    ClosedBy EndsInOddBackslashes text body others ↔
      ClosedBy EndsInBackslash text body others := by
  constructor
  · intro closed
    exact ⟨closed.split, single body others closed,
      fun before after inner => (closed.first before after inner).endsInBackslash⟩
  · intro closed
    refine ⟨closed.split, fun odd => closed.free odd.endsInBackslash, ?_⟩
    intro before after inner
    by_contra even
    -- The first quote with an even number of backslashes would stand inside the body.
    rcases exists_of_free before after even inner with ⟨front, back, found⟩
    have earlier : ClosedBy EndsInOddBackslashes text front (back ++ Byte.quote :: others) :=
      ⟨by rw [closed.split, found.split, List.append_assoc, List.cons_append], found.free,
        found.first⟩
    exact single _ _ earlier (closed.first front back found.split)

end ClosedBy

end Bytes

namespace Scan

variable {text body others : Bytes}

theorem item_quote (text : Bytes) : item Byte.quote text = string text := by
  rw [item_eq]
  rfl

theorem string_of_closedBy (closed : Bytes.ClosedBy Bytes.EndsInBackslash text body others) :
    string text = ⟨body.length + 2, .ok (.string body)⟩ := by
  rw [closed.split]
  exact string_of_quotable closed.isQuotable others

/-- A string that no quote closes takes all that is left. -/
theorem string_of_unclosed
    (unclosed : ¬ ∃ body others, Bytes.ClosedBy Bytes.EndsInBackslash text body others) :
    string text =
      ⟨text.length + 1, .error ⟨.unterminatedLiteral, "end of input", "'\"'"⟩⟩ := by
  rcases takeWindowed_quotable Byte.quote text with ⟨escaped, whole | ⟨closable, others, split⟩⟩
  · rw [string, whole, if_neg (Nat.lt_irrefl _)]
  · refine absurd ⟨_, others, split, getLast?_quote_cons.not.mp closable, ?_⟩ unclosed
    exact fun before after inner => getLast?_quote_cons.mp (escaped before after inner)

end Scan

namespace Lexer

/--
A lexer reads the string behind an opening quote as the given bytes escape quotes: the string ends
at the first quote that nothing escapes, its token has the bytes between the quotes, and if there is
no such quote, and only then, all that is left is reported as a string that is never closed.
-/
structure ReadsString (escapes : Bytes → Prop) (scanned : List Token × Lexer) (source : SourceId)
    (offset : Nat) (text : Bytes) : Prop where
  closed : ∀ body others, Bytes.ClosedBy escapes text body others →
    ∃ key, scanned.2.interner.resolve key = .ok body ∧
      Makes scanned (.ofLength offset (body.length + 2))
        [⟨.string key, .ofLength offset (body.length + 2)⟩] []
  unclosed : (¬ ∃ body others, Bytes.ClosedBy escapes text body others) →
    Makes scanned (.ofLength offset (text.length + 1)) []
      [.ofMisspelling source (.ofLength offset (text.length + 1))
        ⟨.unterminatedLiteral, "end of input", "'\"'"⟩]
  unterminated_iff : (∃ error ∈ scanned.2.errors, error.kind = .unterminatedLiteral ∧
      error.span.start = offset) ↔ ¬ ∃ body others, Bytes.ClosedBy escapes text body others

theorem ReadsString.congr {escapes others : Bytes → Prop} {scanned : List Token × Lexer}
    {source : SourceId} {offset : Nat} {text : Bytes}
    (same : ∀ body rest, Bytes.ClosedBy others text body rest ↔
      Bytes.ClosedBy escapes text body rest)
    (reads : ReadsString escapes scanned source offset text) :
    ReadsString others scanned source offset text := by
  have closes : (∃ body rest, Bytes.ClosedBy others text body rest) ↔
      ∃ body rest, Bytes.ClosedBy escapes text body rest :=
    exists_congr fun body => exists_congr fun rest => same body rest
  refine ⟨?closed, ?unclosed, ?iff⟩
  case closed => exact fun body rest closed => reads.closed body rest ((same body rest).mp closed)
  case unclosed => exact fun unclosed => reads.unclosed (closes.not.mp unclosed)
  case iff => rw [closes, reads.unterminated_iff]

section

variable (source : SourceId) (interner : Interner) {before text : Bytes}
  (starts : Item.StartsAt (before ++ Byte.quote :: text) before.length)

include starts

theorem readsString :
    ReadsString Bytes.EndsInBackslash
      (ofText source (before ++ Byte.quote :: text) interner).tokenize source before.length
      text := by
  have member := starts.mem_list
  rw [Scan.item_quote] at member
  refine ⟨?closed, ?unclosed, ?iff⟩
  case closed =>
    intro body others closed
    rw [Scan.string_of_closedBy closed] at member
    refine ⟨_, Interner.resolve_keyOf ?_, makes_token source interner member⟩
    exact mem_texts_tokensOf _ (List.mem_filterMap.mpr ⟨_, member, rfl⟩) List.mem_cons_self
  case unclosed =>
    intro unclosed
    rw [Scan.string_of_unclosed unclosed] at member
    exact makes_error source interner member
  case iff =>
    constructor
    · rintro ⟨error, errorMem, _, start_eq⟩ ⟨body, others, closed⟩
      rw [Scan.string_of_closedBy closed] at member
      have sorted := sortedInto_tokensOf (ofText source (before ++ Byte.quote :: text) interner)
        rfl (Item.list (before ++ Byte.quote :: text))
      rcases sorted.exists_of_mem_errors errorMem with ⟨item, itemMem, misspelling, isError, rfl⟩
      -- The error would come from the item that the token comes from.
      have same := (Item.ascending_listFrom 0 0 _).eq_of_start member itemMem start_eq
      rw [same] at isError
      cases isError
    · intro unclosed
      rw [Scan.string_of_unclosed unclosed] at member
      exact ⟨_, (makes_error source interner member).mem_errors List.mem_cons_self, rfl, rfl⟩

/-- A string that is read by another way to escape quotes has no backslash at its end. -/
theorem ReadsString.not_endsInBackslash {escapes : Bytes → Prop}
    (reads : ReadsString escapes
      (ofText source (before ++ Byte.quote :: text) interner).tokenize source before.length text)
    {body others : Bytes} (closed : Bytes.ClosedBy escapes text body others) :
    ¬ body.EndsInBackslash := by
  have actual := readsString source interner starts
  rcases reads.closed body others closed with ⟨key, _, makes⟩
  by_cases found : ∃ body others, Bytes.ClosedBy Bytes.EndsInBackslash text body others
  · rcases found with ⟨other, rest, otherClosed⟩
    rcases actual.closed other rest otherClosed with ⟨otherKey, _, otherMakes⟩
    have ascending := ascending_tokenize source (before ++ Byte.quote :: text) interner
    have same := ascending.eq_of_start (otherMakes.mem_tokens List.mem_cons_self)
      (makes.mem_tokens List.mem_cons_self) rfl
    have length_eq : body.length = other.length := by
      have stop_eq := congrArg (fun token : Token => token.span.stop) same
      simp only [Span.ofLength] at stop_eq
      omega
    rw [closed.body_eq.1, length_eq, ← otherClosed.body_eq.1]
    exact otherClosed.free
  · have unterminated := actual.unterminated_iff.mpr found
    exact absurd ⟨body, others, closed⟩ (reads.unterminated_iff.mp unterminated)

end

/--
A string ends at the first quote without a backslash right before it, and it is reported as never
closed if there is no such quote. So it ends at the first quote with an even number of backslashes
before it just in case this number is zero.
-/
theorem tokenize_string (source : SourceId) (interner : Interner) {before text : Bytes}
    (starts : Item.StartsAt (before ++ Byte.quote :: text) before.length) :
    let scanned := (ofText source (before ++ Byte.quote :: text) interner).tokenize
    ReadsString Bytes.EndsInBackslash scanned source before.length text ∧
      (ReadsString Bytes.EndsInOddBackslashes scanned source before.length text ↔
        ∀ body others, Bytes.ClosedBy Bytes.EndsInOddBackslashes text body others →
          ¬ body.EndsInBackslash) := by
  intro scanned
  have actual := readsString source interner starts
  refine ⟨actual, ?_, ?_⟩
  · intro reads body others closed
    exact reads.not_endsInBackslash source interner starts closed
  · intro single
    exact actual.congr fun body rest => Bytes.ClosedBy.odd_iff single

/-- An escaped quote does not end a string, and the quote behind it does. -/
theorem tokenize_string_escaped :
    Item.StartsAt "\"a\\\"b\" c" 0 ∧
      ReadsString Bytes.EndsInOddBackslashes (ofText 0 "\"a\\\"b\" c" .empty).tokenize 0 0
        "a\\\"b\" c" := by
  have starts : Item.StartsAt (([] : Bytes) ++ Byte.quote :: Bytes.ofText "a\\\"b\" c")
      ([] : Bytes).length := by decide +kernel
  have each : ∀ length < 7, ¬ Bytes.EndsInOddBackslashes
        ((Bytes.ofText "a\\\"b\" c").take length) →
      ¬ Bytes.EndsInBackslash ((Bytes.ofText "a\\\"b\" c").take length) := by decide
  refine ⟨starts, (tokenize_string 0 .empty starts).2.mpr ?_⟩
  intro body others closed
  have free := closed.free
  rw [closed.body_eq.1] at free ⊢
  exact each body.length closed.body_eq.2 free

/-- A string whose body is two backslashes is read as one that is never closed. -/
theorem not_readsString_backslashes :
    Item.StartsAt "\"\\\\\"" 0 ∧
      ¬ ReadsString Bytes.EndsInOddBackslashes (ofText 0 "\"\\\\\"" .empty).tokenize 0 0
        "\\\\\"" := by
  refine ⟨by decide +kernel, fun reads => ?_⟩
  have unterminated : ∃ error ∈ ((ofText 0 "\"\\\\\"" .empty).tokenize).2.errors,
      error.kind = .unterminatedLiteral ∧ error.span.start = 0 := by decide +kernel
  apply reads.unterminated_iff.mp unterminated
  exact Bytes.ClosedBy.exists_of_free "\\\\" [] (by decide) rfl

end Lexer

end TypedLang
