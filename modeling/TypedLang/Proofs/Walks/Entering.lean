import TypedLang.Proofs.Walks.Preorder

/-!
# Entering parts

A visitor that does something with each part before it walks on, and nothing else, enters the parts
of a program in preorder. Walks are put together as the program is: what they enter comes one after
the other.
-/

namespace TypedLang

variable {m : Type → Type} [Monad m] {Error Value Other : Type}

/-- The visitor that does something with each part before it walks on. -/
def Visitor.entering (enter : Part → ExceptT Error m Unit) (value : Value) :
    Visitor m Error Value where
  defaultResult := pure value
  visit part walk := do
    enter part
    walk

/-- A walk enters some parts and all that is below them in preorder, and then has a value. -/
def Enters (enter : Part → ExceptT Error m Unit) (parts : List Part) (walk : ExceptT Error m Value)
    (value : Value) : Prop :=
  ∃ listed, Part.Preorder parts listed ∧ walk = do
    forM listed enter
    pure value

namespace Enters

variable [LawfulMonad m] {enter : Part → ExceptT Error m Unit} {parts others : List Part}
  {walk : ExceptT Error m Value} {value : Value}

theorem nil : Enters enter [] (pure value) value :=
  ⟨[], .nil, by rw [List.forM_nil, pure_bind]⟩

/-- A part is entered before all that is below it. -/
theorem visit {part : Part} (below : Enters enter part.children walk value) :
    Enters enter [part] ((Visitor.entering enter value).visit part walk) value := by
  obtain ⟨listed, ordered, rfl⟩ := below
  refine ⟨part :: (listed ++ []), .cons ordered .nil, ?_⟩
  rw [List.append_nil, List.forM_cons, bind_assoc]
  rfl

theorem bind {first : ExceptT Error m Other} {other : Other}
    (front : Enters enter parts first other) (rest : Enters enter others walk value) :
    Enters enter (parts ++ others) (first >>= fun _ => walk) value := by
  obtain ⟨listed, ordered, rfl⟩ := front
  obtain ⟨more, orderedMore, rfl⟩ := rest
  refine ⟨listed ++ more, ordered.append orderedMore, ?_⟩
  rw [List.forM_append, bind_assoc, bind_assoc]
  simp only [pure_bind]

/-- Behind the last part below another one, its walk has the default result. -/
theorem last {first : ExceptT Error m Other} {other : Other}
    (walks : Enters enter parts first other) :
    Enters enter parts (first >>= fun _ => (Visitor.entering enter value).defaultResult) value := by
  have ended : Enters enter [] (pure value) value := nil
  have whole := walks.bind ended
  rwa [List.append_nil] at whole

theorem discard (walks : Enters enter parts walk value) :
    Enters enter parts (Functor.discard walk) () := by
  obtain ⟨listed, ordered, rfl⟩ := walks
  refine ⟨listed, ordered, ?_⟩
  rw [Functor.discard, map_const, Function.comp_apply, map_eq_pure_bind, bind_assoc]
  simp only [pure_bind, Function.const_apply]

variable {Item : Type} {accept : Item → ExceptT Error m Value} {part : Item → Part}

theorem list (items : List Item)
    (each : ∀ item, Enters enter [part item] (accept item) value) :
    Enters enter (items.map part) (items.forM fun item => Functor.discard (accept item)) () := by
  induction items with
  | nil => exact nil
  | cons item items ih => exact (each item).discard.bind ih

theorem option (item : Option Item)
    (each : ∀ item, Enters enter [part item] (accept item) value) :
    Enters enter (item.toList.map part) (item.forM fun item => Functor.discard (accept item)) () := by
  cases item with
  | none => exact nil
  | some item => exact (each item).discard

end Enters

variable [LawfulMonad m] (enter : Part → ExceptT Error m Unit) (value : Value)

theorem WrittenType.accept_enters (written : WrittenType) :
    Enters enter [.type written] (written.accept (.entering enter value)) value :=
  .visit .nil

mutual

theorem Expr.accept_enters : (expr : Expr) →
    Enters enter [.expression expr] (expr.accept (.entering enter value)) value
  | .binary op left right span type => by
      rw [Expr.accept]
      exact .visit (.visit (left.accept_enters.bind right.accept_enters.last))
  | .unary op operand span type => by
      rw [Expr.accept]
      exact .visit (.visit operand.accept_enters.last)
  | .call callee arguments span type => by
      rw [Expr.accept]
      exact .visit (.visit (callee.accept_enters.bind (Expr.acceptAll_enters arguments).last))
  | .grouping inner span type => by
      rw [Expr.accept]
      exact .visit (.visit inner.accept_enters.last)
  | .literal constant span type => by
      rw [Expr.accept]
      exact .visit (.visit .nil)
  | .identifier name symbol type => by
      rw [Expr.accept]
      exact .visit (.visit .nil)

theorem Expr.acceptAll_enters : (exprs : List Expr) →
    Enters enter (exprs.map .expression) (Expr.acceptAll (.entering enter value) exprs) ()
  | [] => .nil
  | first :: rest => by
      rw [Expr.acceptAll]
      exact first.accept_enters.bind (Expr.acceptAll_enters rest)

end

theorem LetDecl.accept_enters (decl : LetDecl) :
    Enters enter [.letDecl decl] (decl.accept (.entering enter value)) value := by
  have initializer := Enters.option decl.initializer (Expr.accept_enters enter value)
  exact .visit ((decl.type.accept_enters enter value).bind initializer.last)

mutual

theorem Stmt.accept_enters : (statement : Stmt) →
    Enters enter [.statement statement] (statement.accept (.entering enter value)) value
  | .expression expr span => by
      rw [Stmt.accept]
      exact .visit (.visit (expr.accept_enters enter value).last)
  | .letDecl decl => by
      rw [Stmt.accept]
      exact .visit (decl.accept_enters enter value)
  | .block statements span => by
      rw [Stmt.accept]
      exact .visit (.visit (Stmt.acceptAll_enters statements).last)
  | .returning result span => by
      rw [Stmt.accept]
      have given := Enters.option result (Expr.accept_enters enter value)
      exact .visit (.visit given.last)

theorem Stmt.acceptAll_enters : (statements : List Stmt) →
    Enters enter (statements.map .statement)
      (Stmt.acceptAll (.entering enter value) statements) ()
  | [] => .nil
  | first :: rest => by
      rw [Stmt.acceptAll]
      exact first.accept_enters.bind (Stmt.acceptAll_enters rest)

end

theorem Block.accept_enters (block : Block) :
    Enters enter [.block block] (block.accept (.entering enter value)) value :=
  .visit (Stmt.acceptAll_enters enter value block.statements).last

theorem Parameter.accept_enters (parameter : Parameter) :
    Enters enter [.parameter parameter] (parameter.accept (.entering enter value)) value :=
  .visit (parameter.type.accept_enters enter value).last

theorem FunDecl.accept_enters (decl : FunDecl) :
    Enters enter [.funDecl decl] (decl.accept (.entering enter value)) value := by
  have parameters := Enters.list decl.parameters (Parameter.accept_enters enter value)
  have returnType := decl.returnType.accept_enters enter value
  exact .visit (parameters.bind (returnType.bind (decl.body.accept_enters enter value).last))

theorem Decl.accept_enters (decl : Decl) :
    Enters enter [.declaration decl] (decl.accept (.entering enter value)) value := by
  cases decl with
  | funDecl decl => exact .visit (decl.accept_enters enter value)
  | letDecl decl => exact .visit (decl.accept_enters enter value)

theorem Program.accept_enters (program : Program) :
    Enters enter [.program program] (program.accept (.entering enter value)) value := by
  have declarations := Enters.list program.declarations (Decl.accept_enters enter value)
  exact .visit declarations.last

end TypedLang
