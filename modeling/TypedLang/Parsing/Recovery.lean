import TypedLang.Token

/-!
# Recovery

After a failure the parser drops tokens up to a place where a new construct is likely to start.
Braces on the way are counted, so that whole blocks are dropped together, and nothing inside them
is taken for such a place. Unless the failed construct itself used up a token, at least one is
dropped before a keyword counts as a new start; without that the parser would meet the same
failure again.
-/

namespace TypedLang

namespace Recovery

/--
The tokens with which a block goes on: a closing brace of the block itself, a declaration, a return,
or what follows the end of a statement.
-/
def inBlock (progressed : Bool) (depth : Nat) : List Token → List Token
  | [] => []
  | token :: rest =>
      match token.kind with
      | .punct .rightBrace => if depth = 0 then token :: rest else inBlock true (depth - 1) rest
      | .punct .leftBrace => inBlock true (depth + 1) rest
      | .punct .semicolon => if depth = 0 then rest else inBlock true depth rest
      | .keyword .letWord =>
          if progressed ∧ depth = 0 then token :: rest else inBlock true depth rest
      | .keyword .returnWord =>
          if progressed ∧ depth = 0 then token :: rest else inBlock true depth rest
      | _ => inBlock true depth rest

/--
The tokens with which a program goes on: a declaration, or what follows the end of a statement or of
a block. A closing brace without its opening one is dropped.
-/
def inProgram (progressed : Bool) (depth : Nat) : List Token → List Token
  | [] => []
  | token :: rest =>
      match token.kind with
      | .keyword .funWord =>
          if progressed ∧ depth = 0 then token :: rest else inProgram true depth rest
      | .keyword .structWord =>
          if progressed ∧ depth = 0 then token :: rest else inProgram true depth rest
      | .keyword .letWord =>
          if progressed ∧ depth = 0 then token :: rest else inProgram true depth rest
      | .punct .leftBrace => inProgram true (depth + 1) rest
      | .punct .rightBrace =>
          if depth = 0 then inProgram true 0 rest
          else if depth = 1 then rest
          else inProgram true (depth - 1) rest
      | .punct .semicolon => if depth = 0 then rest else inProgram true depth rest
      | _ => inProgram true depth rest

end Recovery

end TypedLang
