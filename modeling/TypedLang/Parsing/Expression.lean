import TypedLang.Parsing.Rule

/-!
# Parsing expressions

Expressions have seven levels: equality, comparison, term, factor, unary, call and primary. A binary
level is a chain of operands of the next tighter level, grouped to the left. Each level is a
combinator on the rule for the tighter one, and the primary level refers back to whole expressions
inside parentheses; the depth of that nesting is what the recursion counts down.
-/

namespace TypedLang

namespace Rule

/-- The kinds of tokens that may start an expression, in the order in which messages list them. -/
def expressionStart : List TokenKind :=
  [.integer, .decimal, .string, .boolean, .identifier, .punct .leftParen, .punct .bang,
    .punct .minus]

/-- The equality operators. -/
def equalityOp? : TokenKind → Option BinaryOp
  | .punct .equalEqual => some (.equality .equal)
  | .punct .bangEqual => some (.equality .notEqual)
  | _ => none

/-- The comparison operators. -/
def comparisonOp? : TokenKind → Option BinaryOp
  | .punct .less => some (.comparison .less)
  | .punct .lessEqual => some (.comparison .lessEqual)
  | .punct .greater => some (.comparison .greater)
  | .punct .greaterEqual => some (.comparison .greaterEqual)
  | _ => none

/-- The operators of sums. -/
def termOp? : TokenKind → Option BinaryOp
  | .punct .plus => some (.term .add)
  | .punct .minus => some (.term .subtract)
  | _ => none

/-- The operators of products. -/
def factorOp? : TokenKind → Option BinaryOp
  | .punct .star => some (.factor .multiply)
  | .punct .slash => some (.factor .divide)
  | _ => none

/-- The unary operators. -/
def unaryOp? : TokenKind → Option UnaryOp
  | .punct .minus => some .negate
  | .punct .bang => some .complement
  | _ => none

/-- The operators and operands that follow a first operand, grouped to the left. -/
def binaryTail (operand : Rule Expr) (operator? : TokenKind → Option BinaryOp) :
    (fuel : Nat) → (left : Expr) → Rule Expr
  | 0, left, tokens => .ok (left, tokens)
  | _ + 1, left, [] => .ok (left, [])
  | fuel + 1, left, token :: rest =>
      match operator? token.kind with
      | none => .ok (left, token :: rest)
      | some op => do
          let (_, rest) ← advance (token :: rest)
          let (right, rest) ← operand rest
          let joined := Expr.binary op left right (left.span.combine right.span) none
          binaryTail operand operator? fuel joined rest

/-- A chain of operands between operators of one level. -/
def binaryLevel (operand : Rule Expr) (operator? : TokenKind → Option BinaryOp) : Rule Expr :=
  fun tokens => do
    let (first, rest) ← operand tokens
    binaryTail operand operator? rest.length first rest

/-- Any number of unary operators in front of an operand. -/
def unaryLevel (operand : Rule Expr) : Rule Expr
  | [] => operand []
  | token :: rest =>
      match unaryOp? token.kind with
      | none => operand (token :: rest)
      | some op => do
          let (mark, _) ← advance (token :: rest)
          let (inner, rest) ← unaryLevel operand rest
          pure (.unary op inner (mark.span.combine inner.span) none, rest)

/-- The argument lists that follow a callee; each one makes a call of all that stands before it. -/
def callTail (argument : Rule Expr) : (fuel : Nat) → (callee : Expr) → Rule Expr
  | 0, callee, tokens => .ok (callee, tokens)
  | fuel + 1, callee, tokens =>
      match tokens with
      | ⟨.punct .leftParen, opening⟩ :: rest => do
          let (_, rest) ← advance (⟨.punct .leftParen, opening⟩ :: rest)
          let ((arguments, close), rest) ← closedList argument rest
          let call := Expr.call callee arguments (callee.span.combine close) none
          callTail argument fuel call rest
      | _ => .ok (callee, tokens)

/-- The next token as a literal of a value. -/
def literal (value : Literal) : Rule Expr := fun tokens => do
  let (taken, rest) ← advance tokens
  pure (.literal value taken.span none, rest)

/-- A literal, a name, or an expression between parentheses. -/
def primary (inner : Rule Expr) : Rule Expr
  | ⟨.integer value, span⟩ :: rest => literal (.integer value) (⟨.integer value, span⟩ :: rest)
  | ⟨.decimal value, span⟩ :: rest => literal (.decimal value) (⟨.decimal value, span⟩ :: rest)
  | ⟨.string key, span⟩ :: rest => literal (.string key) (⟨.string key, span⟩ :: rest)
  | ⟨.boolean value, span⟩ :: rest => literal (.boolean value) (⟨.boolean value, span⟩ :: rest)
  | ⟨.identifier key, span⟩ :: rest => do
      let (taken, rest) ← advance (⟨.identifier key, span⟩ :: rest)
      pure (.identifier ⟨key, taken.span⟩ none none, rest)
  | ⟨.punct .leftParen, opening⟩ :: rest => do
      let (taken, rest) ← advance (⟨.punct .leftParen, opening⟩ :: rest)
      let (value, rest) ← inner rest
      let (close, rest) ← expect (.punct .rightParen) rest
      pure (.grouping value (taken.span.combine close) none, rest)
  | tokens => reject expressionStart tokens

/-- A primary expression and its calls. -/
def callLevel (inner : Rule Expr) : Rule Expr :=
  fun tokens => do
    let (callee, rest) ← primary inner tokens
    callTail inner rest.length callee rest

/-- All levels, from the loosest on, over the rule for expressions inside parentheses. -/
def levels (inner : Rule Expr) : Rule Expr :=
  let unary := unaryLevel (callLevel inner)
  let factor := binaryLevel unary factorOp?
  let term := binaryLevel factor termOp?
  let comparison := binaryLevel term comparisonOp?
  binaryLevel comparison equalityOp?

/-- Expressions whose parentheses nest less deep than `depth`. -/
def expressionBelow : (depth : Nat) → Rule Expr
  | 0 => reject expressionStart
  | depth + 1 => levels (expressionBelow depth)

/-- An expression. Every nesting takes a token, so it is less deep than there are tokens. -/
def expression : Rule Expr :=
  fun tokens => expressionBelow (tokens.length + 1) tokens

end Rule

end TypedLang
