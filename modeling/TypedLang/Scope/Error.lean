import TypedLang.Diagnostic
import TypedLang.Scope.Symbol

/-!
# Resolution errors

A resolution error says that a name has no visible declaration, that a declaration repeats a name,
or that a function stands where a variable is needed or the other way round. The last kind may
concern an expression, which has no name.
-/

namespace TypedLang

/-- Why a name could not be resolved or declared. -/
inductive ResolutionErrorCause where
  | symbolNotFound (name : Option Key)
  | nameAlreadyUsed (name : Option Key) (earlier : Option Span)
  | kindMismatch (name : Option Key) (expected found : Bytes)
  deriving Repr, DecidableEq

/-- A resolution error at its place in a source. -/
structure ResolutionError where
  source : SourceId
  span : Span
  cause : ResolutionErrorCause
  deriving Repr, DecidableEq

namespace ResolutionError

/-- A name between single quotes, or a stand-in for an expression. -/
def nameText (interner : Interner) : Option Key → Except Fault Bytes
  | none => .ok "<expression>"
  | some key => (interner.resolve key).map Bytes.quoted

/-- The code of a resolution error. -/
def code (error : ResolutionError) : Code :=
  match error.cause with
  | .symbolNotFound _ => .symbolNotFound
  | .nameAlreadyUsed _ _ => .nameAlreadyUsed
  | .kindMismatch _ _ _ => .kindMismatch

/-- The message of a resolution error. -/
def message (error : ResolutionError) (interner : Interner) : Except Fault Bytes :=
  match error.cause with
  | .symbolNotFound name => do
      let name ← nameText interner name
      pure (Bytes.concat ["Couldn't find the symbol ", name, "."])
  | .nameAlreadyUsed name _ => do
      let name ← nameText interner name
      pure (Bytes.concat ["The name ", name, " is already used."])
  | .kindMismatch none expected found =>
      pure (Bytes.concat ["Expected a ", expected, ", but found ", found, "."])
  | .kindMismatch (some key) expected found => do
      let name ← nameText interner (some key)
      pure (Bytes.concat ["Expected ", name, " to be a ", expected, ", but it is a ", found, "."])

/-- The message of the label at the place of a resolution error. -/
def labelMessage (error : ResolutionError) : Bytes :=
  match error.cause with
  | .symbolNotFound _ => "not found in this scope"
  | .nameAlreadyUsed _ _ => "declared again here"
  | .kindMismatch _ expected _ => Bytes.concat ["expected a ", expected]

/-- The label at the first declaration of a name, if it is known. -/
def earlierLabel (error : ResolutionError) (registry : Registry) : Except Fault (List Label) :=
  match error.cause with
  | .nameAlreadyUsed _ (some earlier) => do
      let label ← registry.label error.source earlier (some (Bytes.ofText "first declared here"))
      pure [label]
  | _ => pure []

/-- The labels of a resolution error: the first declaration, if it is known, and the place. -/
def labels (error : ResolutionError) (registry : Registry) : Except Fault (List Label) := do
  let earlier ← error.earlierLabel registry
  let label ← registry.label error.source error.span error.labelMessage
  pure (earlier ++ [label])

/--
The message and the labels of a resolution error. Of a wrong name and a wrong source in one error, a
mismatch of kinds tells about the source, every other error about the name.
-/
def parts (error : ResolutionError) (registry : Registry) (interner : Interner) :
    Except Fault (Bytes × List Label) :=
  match error.cause with
  | .kindMismatch _ _ _ => do
      let labels ← error.labels registry
      let message ← error.message interner
      pure (message, labels)
  | _ => do
      let message ← error.message interner
      let labels ← error.labels registry
      pure (message, labels)

/-- The report about a resolution error. -/
def report (error : ResolutionError) (registry : Registry) (interner : Interner) :
    Except Fault Report := do
  let (message, labels) ← error.parts registry interner
  let draft := Draft.empty |>.setSeverity .error |>.setCode error.code |>.setMessage message
  (labels.foldl Draft.addLabel draft).build

end ResolutionError

end TypedLang
