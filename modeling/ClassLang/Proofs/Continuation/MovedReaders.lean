import ClassLang.Proofs.Continuation.Moves

/-!
# Moved types, expressions and statements

Every reader moves its result along with its tokens. Where a tree is made, this is an equation
between the tree of moved parts and the moved tree.
-/

namespace ClassLang.Parse

open Movable (move)

variable {d : Shift}

/-! ## Types -/

section

variable {type : Parse TypeExpr} (htype : Moves d type type)

include htype

theorem moves_typeArguments : Moves d (typeArguments type) (typeArguments type) :=
  htype.commaSeparated.bind fun _ => Moves.closingAngle.bind fun _ => .pure rfl

theorem moves_namedType : Moves d (namedType type) (namedType type) := by
  refine Moves.ident.bind fun name => .eat fun _ => .ite ?_ (.pure rfl)
  refine (moves_typeArguments htype).bind fun r => .pure ?_
  simp [move]

theorem moves_typeStep : Moves d (typeStep type) (typeStep type) := by
  refine Moves.currentSpan.bind fun start => .look (fun _ => rfl) (fun _ => rfl) fun k => ?_
  split
  · refine Moves.advance.bind fun _ => Moves.expect.bind fun _ => htype.bind fun _ => .pure ?_
    simp [move]
  · refine Moves.advance.bind fun _ => Moves.expect.bind fun _ => htype.bind fun _ => ?_
    refine Moves.expect.bind fun _ => htype.bind fun _ => .pure ?_
    simp [move]
  · refine Moves.advance.bind fun _ => htype.bind fun _ => .pure ?_
    simp [move]
  · exact moves_namedType htype
  · exact .unexpected _ none

end

theorem moves_type : Moves d type type := by
  refine .of_fuel fun fuel => ?_
  induction fuel with
  | zero => exact .tooDeep
  | succ fuel ih => exact moves_typeStep ih

theorem moves_optionalType : Moves d optionalType optionalType :=
  .look (fun _ => rfl) (fun _ => rfl) fun _ => moves_type.optional _

theorem moves_parameter : Moves d parameter parameter := by
  refine Moves.ident.bind fun name => moves_optionalType.bind fun type? => .pure ?_
  cases type? <;> simp [move]

theorem moves_parameters : Moves d parameters parameters := by
  refine Moves.expect.bind fun _ => Moves.bind (.collect ?_) fun _ => Moves.expect.bind fun _ =>
    .pure rfl
  exact .look (fun _ => rfl) (fun _ => rfl) fun _ => .ite (.pure rfl)
    (moves_parameter.bind fun _ => .eat fun _ => .ite (.pure rfl) (.pure rfl))

/-! ## Expressions -/

theorem moves_blockOf {stmt : Parse Stmt} (hstmt : Moves d stmt stmt) :
    Moves d (blockOf stmt) (blockOf stmt) := by
  refine Moves.expect.bind fun _ => Moves.bind (.collect ?_) fun _ => Moves.expect.bind fun _ =>
    .pure ?_
  · exact .look (fun _ => rfl) (fun _ => rfl) fun _ => .ite (.pure rfl) (.eat fun _ =>
      .ite (.pure rfl) (hstmt.bind fun _ => .pure rfl))
  · simp [move]

section

variable {expr : Precedence → Parse Expr} {stmt : Parse Stmt}
  (hexpr : ∀ least, Moves d (expr least) (expr least)) (hstmt : Moves d stmt stmt)

include hexpr

theorem moves_expressionListOf (stop : TokenKind) :
    Moves d (expressionListOf expr stop) (expressionListOf expr stop) := by
  refine .look (fun _ => rfl) (fun _ => rfl) fun _ => .ite (.pure rfl) ?_
  refine (hexpr _).bind fun _ => Moves.bind (.collect ?_) fun _ => .pure rfl
  exact .eat fun _ => .ite (.look (fun _ => rfl) (fun _ => rfl) fun _ => .ite (.pure rfl)
    ((hexpr _).bind fun _ => .pure rfl)) (.pure rfl)

omit hexpr in
theorem moves_identifierExpr : Moves d identifierExpr identifierExpr := by
  refine Moves.ident.bind fun name => .look (fun _ => rfl) (fun _ => rfl) fun _ p => ?_
  refine .look rfl rfl (MovesAt.ite ?_ (MovesAt.ok rfl rfl))
  refine (Moves.advance p).bind fun _ => (moves_typeArguments moves_type).bind fun r => .pure ?_
  simp [move]

omit hexpr in
theorem moves_integerExpr : Moves d integerExpr integerExpr :=
  Moves.advance.bind fun _ => .ite (.pure rfl) (.failing (fun _ => rfl) fun _ => rfl)

theorem moves_prefixExpr (op : PrefixOp) : Moves d (prefixExpr expr op) (prefixExpr expr op) := by
  refine Moves.advance.bind fun _ => (hexpr _).bind fun _ => .pure ?_
  simp [move]

theorem moves_groupedExpr : Moves d (groupedExpr expr) (groupedExpr expr) :=
  Moves.expect.bind fun _ => (hexpr _).bind fun _ => Moves.expect.bind fun _ => .pure rfl

theorem moves_arrayExpr : Moves d (arrayExpr expr) (arrayExpr expr) := by
  refine Moves.expect.bind fun _ => (moves_expressionListOf hexpr _).bind fun _ => ?_
  refine Moves.expect.bind fun _ => .pure ?_
  simp [move]

theorem moves_hashExpr : Moves d (hashExpr expr) (hashExpr expr) := by
  refine Moves.expect.bind fun _ => Moves.bind (.collect ?_) fun _ => Moves.expect.bind fun _ =>
    .pure ?_
  · refine .look (fun _ => rfl) (fun _ => rfl) fun _ => .ite (.pure rfl) ?_
    refine (hexpr _).bind fun _ => Moves.expect.bind fun _ => (hexpr _).bind fun _ => ?_
    exact .eat fun _ => .ite (.pure rfl) (.pure rfl)
  · simp [move]

omit hexpr in
include hstmt in
theorem moves_lambdaExpr : Moves d (lambdaExpr stmt) (lambdaExpr stmt) := by
  refine Moves.expect.bind fun _ => moves_parameters.bind fun _ => ?_
  refine .look (fun _ => rfl) (fun _ => rfl) fun _ => (moves_type.optional _).bind fun _ => ?_
  refine (moves_blockOf hstmt).bind fun _ => .pure ?_
  simp [move]

theorem moves_newExpr : Moves d (newExpr expr) (newExpr expr) := by
  refine Moves.expect.bind fun _ => (moves_namedType moves_type).bind fun _ => ?_
  refine Moves.expect.bind fun _ => (moves_expressionListOf hexpr _).bind fun _ => ?_
  refine Moves.expect.bind fun _ => .pure ?_
  simp [move]

include hstmt

theorem moves_operand : Moves d (operand expr stmt) (operand expr stmt) := by
  have hadvance : ∀ e e' : Expr, e' = move d e → Moves d (do let _ ← advance; return e)
      (do let _ ← advance; return e') := fun _ _ h => Moves.advance.bind fun _ => .pure h
  refine Moves.current.bind fun t => ?_
  rw [show (move d t).kind = t.kind from rfl]
  split
  · exact moves_identifierExpr
  · exact moves_integerExpr
  · exact Moves.advance.bind fun _ => .pure rfl
  · exact hadvance _ _ rfl
  · exact hadvance _ _ rfl
  · exact hadvance _ _ rfl
  · exact hadvance _ _ rfl
  · exact hadvance _ _ rfl
  · exact moves_prefixExpr hexpr _
  · exact moves_prefixExpr hexpr _
  · exact moves_prefixExpr hexpr _
  · exact moves_groupedExpr hexpr
  · exact moves_arrayExpr hexpr
  · exact moves_hashExpr hexpr
  · exact moves_lambdaExpr hstmt
  · exact moves_newExpr hexpr
  · exact hadvance _ _ rfl
  · exact hadvance _ _ rfl
  · exact .failing (fun _ => rfl) fun _ => rfl

omit hstmt

theorem moves_operatorAfter (least : Precedence) (left : Expr) :
    Moves d (operatorAfter expr least left) (operatorAfter expr least (move d left)) := by
  refine .look (fun _ => rfl) (fun _ => rfl) fun k => .ite (.pure rfl) ?_
  split
  · refine Moves.advance.bind fun _ => (moves_expressionListOf hexpr _).bind fun _ => ?_
    refine Moves.expect.bind fun _ => .pure ?_
    simp [move]
  · refine Moves.advance.bind fun _ => (hexpr _).bind fun _ => Moves.expect.bind fun _ => .pure ?_
    simp [move]
  · refine Moves.advance.bind fun _ => Moves.ident.bind fun _ => .pure ?_
    simp [move]
  · refine Moves.advance.bind fun _ => Moves.ident.bind fun _ => .pure ?_
    simp [move]
  · refine Moves.advance.bind fun _ => .pure ?_
    simp [move]
  · refine Moves.advance.bind fun _ => .pure ?_
    simp [move]
  · split
    · refine Moves.advance.bind fun _ => (hexpr _).bind fun _ => .pure ?_
      simp [move]
    · split
      · refine Moves.advance.bind fun _ => (hexpr _).bind fun _ => .pure ?_
        simp [move]
      · exact .pure rfl

include hstmt

theorem moves_expressionStep (least : Precedence) :
    Moves d (expressionStep expr stmt least) (expressionStep expr stmt least) :=
  (moves_operand hexpr hstmt).bind fun left => .extend (moves_operatorAfter hexpr least) left

theorem moves_value : Moves d (value expr stmt) (value expr stmt) :=
  moves_expressionStep hexpr hstmt _

end

/-! ## Declarations -/

theorem moves_packageStmt : Moves d packageStmt packageStmt := by
  refine Moves.expect.bind fun _ => Moves.ident.bind fun _ => .eat fun _ => .pure ?_
  simp [move]

theorem moves_importPaths : Moves d importPaths importPaths := by
  have hseparators : Moves d (collect do
      if ← eat Mark.comma then return .skip
      if ← eat Mark.semicolon then return .skip
      return .stop : Parse (List Unit)) (collect do
      if ← eat Mark.comma then return .skip
      if ← eat Mark.semicolon then return .skip
      return .stop) :=
    .collect (.eat fun _ => .ite (.pure rfl) (.eat fun _ => .ite (.pure rfl) (.pure rfl)))
  exact .collect (.look (fun _ => rfl) (fun _ => rfl) fun _ => .ite (.pure rfl)
    (Moves.expect.bind fun _ => hseparators.bind fun _ => .pure rfl))

theorem moves_importStmt : Moves d importStmt importStmt := by
  refine Moves.expect.bind fun _ => .eat fun _ => .ite ?_ ?_
  · refine moves_importPaths.bind fun paths => Moves.expect.bind fun _ => .eat fun _ => .pure ?_
    simp [move]
  · refine Moves.expect.bind fun t => .eat fun _ => .pure ?_
    simp [move, Token.moved]

theorem lastPart_moved (name : Ident) (type? : Option TypeExpr) (value? : Option Expr) :
    lastPart (move d name) (move d type?) (move d value?) =
      (lastPart name type? value?).moved d := by
  cases value? with
  | some v => exact v.span_moved d
  | none => cases type? with
    | some t => exact t.span_moved d
    | none => rfl

section

variable {expr : Precedence → Parse Expr} {stmt : Parse Stmt}
  (hexpr : ∀ least, Moves d (expr least) (expr least)) (hstmt : Moves d stmt stmt)

include hstmt in
theorem moves_block : Moves d (block stmt) (block stmt) := moves_blockOf hstmt

include hexpr hstmt in
theorem moves_varStmt : Moves d (varStmt expr stmt) (varStmt expr stmt) := by
  refine Moves.expect.bind fun _ => Moves.ident.bind fun _ => moves_optionalType.bind fun _ => ?_
  refine .eat fun _ => ((moves_value hexpr hstmt).optional _).bind fun _ => .pure ?_
  rw [lastPart_moved]
  simp [move]

include hexpr hstmt in
theorem moves_constStmt : Moves d (constStmt expr stmt) (constStmt expr stmt) := by
  refine Moves.expect.bind fun _ => Moves.ident.bind fun _ => moves_optionalType.bind fun _ => ?_
  refine Moves.expect.bind fun _ => (moves_value hexpr hstmt).bind fun _ => .eat fun _ => .pure ?_
  simp [move]

include hstmt in
theorem moves_functionDecl (mods : Modifiers) :
    Moves d (functionDecl stmt mods) (functionDecl stmt mods) := by
  refine Moves.expect.bind fun _ => Moves.ident.bind fun _ => moves_parameters.bind fun _ => ?_
  refine moves_optionalType.bind fun _ => (moves_block hstmt).bind fun _ => .pure ?_
  simp [move]

include hstmt in
theorem moves_methodDecl : Moves d (methodDecl stmt) (methodDecl stmt) := by
  refine Moves.expect.bind fun _ => Moves.expect.bind fun _ => moves_parameter.bind fun _ => ?_
  refine Moves.expect.bind fun _ => Moves.ident.bind fun _ => moves_parameters.bind fun _ => ?_
  refine moves_optionalType.bind fun _ => (moves_block hstmt).bind fun _ => .pure ?_
  simp [move]

/-! ## Classes, interfaces and templates -/

omit hexpr hstmt in
theorem moves_modifiers : Moves d modifiers modifiers := by
  refine Moves.bind (.collect ?_) fun _ => .pure ?_
  · refine .look (fun _ => rfl) (fun _ => rfl) fun k => ?_
    split
    · exact .ite (Moves.advance.bind fun _ => .pure rfl) (.pure rfl)
    · exact .pure rfl
  · simp [move]

include hexpr hstmt in
theorem moves_fieldDecl (start : Span) (mods : Modifiers) :
    Moves d (fieldDecl expr stmt start mods) (fieldDecl expr stmt (start.moved d) mods) := by
  have hvalue := moves_value hexpr hstmt
  refine Moves.advance.bind fun t => Moves.ident.bind fun name =>
    moves_optionalType.bind fun type? => ?_
  have hend : ∀ (value? : Option Expr) (isConst : Bool), Moves d (do
      let _ ← eat Mark.semicolon
      return (⟨name, type?, value?, isConst, mods,
        start.upTo (lastPart name type? value?)⟩ : Field)) (do
      let _ ← eat Mark.semicolon
      return ⟨move d name, move d type?, move d value?, isConst, mods,
        (start.moved d).upTo (lastPart (move d name) (move d type?) (move d value?))⟩) := by
    refine fun value? isConst => .eat fun _ => .pure ?_
    rw [lastPart_moved]
    simp [move]
  rw [show (move d t).kind = t.kind from rfl]
  refine .ite ?_ ?_
  · refine Moves.expect.bind fun _ => Moves.bind (hvalue.map fun _ => rfl) fun _ => hend _ _
  · exact .eat fun _ => (hvalue.optional _).bind fun _ => hend _ _

include hexpr hstmt in
theorem moves_member : Moves d (member expr stmt) (member expr stmt) := by
  refine Moves.currentSpan.bind fun start => moves_modifiers.bind fun mods => ?_
  refine .look (fun _ => rfl) (fun _ => rfl) fun k => ?_
  split
  · exact (moves_functionDecl hstmt mods).map fun _ => rfl
  · exact (moves_fieldDecl hexpr hstmt start mods).map fun _ => rfl
  · exact (moves_fieldDecl hexpr hstmt start mods).map fun _ => rfl
  · exact .unexpected _ none

include hexpr hstmt in
theorem moves_classDecl : Moves d (classDecl expr stmt) (classDecl expr stmt) := by
  have hmembers : Moves d (collect do
      if ← checkAny [Mark.rBrace, .eof] then return .stop
      if ← eat Mark.semicolon then return .skip
      return .item (← member expr stmt)) (collect do
      if ← checkAny [Mark.rBrace, .eof] then return .stop
      if ← eat Mark.semicolon then return .skip
      return .item (← member expr stmt)) :=
    .collect (.look (fun _ => rfl) (fun _ => rfl) fun _ => .ite (.pure rfl) (.eat fun _ =>
      .ite (.pure rfl) ((moves_member hexpr hstmt).bind fun _ => .pure rfl)))
  refine Moves.expect.bind fun start => Moves.ident.bind fun name => .eat fun _ => ?_
  refine (Moves.ident.optional _).bind fun extends? => .eat fun _ => .ite ?_ ?_
  · refine Moves.ident.commaSeparated.bind fun _ => Moves.expect.bind fun _ => ?_
    refine hmembers.bind fun _ => Moves.expect.bind fun _ => .pure ?_
    simp [move]
  · refine Moves.expect.bind fun _ => hmembers.bind fun _ => Moves.expect.bind fun _ => .pure ?_
    simp [move]

omit hexpr hstmt

theorem moves_interfaceMethod : Moves d interfaceMethod interfaceMethod := by
  refine Moves.currentSpan.bind fun _ => .eat fun _ => Moves.ident.bind fun _ => ?_
  refine moves_parameters.bind fun _ => moves_optionalType.bind fun ret? => .pure ?_
  cases ret? <;> simp [move]

theorem moves_interfaceStmt : Moves d interfaceStmt interfaceStmt := by
  refine Moves.expect.bind fun _ => Moves.ident.bind fun _ => Moves.expect.bind fun _ => ?_
  refine Moves.bind (.collect ?_) fun _ => Moves.expect.bind fun _ => .pure ?_
  · exact .look (fun _ => rfl) (fun _ => rfl) fun _ => .ite (.pure rfl) (.eat fun _ =>
      .ite (.pure rfl) (moves_interfaceMethod.bind fun _ => .pure rfl))
  · simp [move]

include hexpr hstmt

theorem moves_templateBody (build build' : Stmt → Stmt)
    (hbuild : ∀ body, build' (move d body) = move d (build body)) : Moves d (do
      let body ← match ← currentKind with
        | .keyword .funcKw => Stmt.function <$> functionDecl stmt {}
        | .keyword .classKw => Stmt.class_ <$> classDecl expr stmt
        | _ => unexpected [Keyword.funcKw, Keyword.classKw] none
      return build body) (do
      let body ← match ← currentKind with
        | .keyword .funcKw => Stmt.function <$> functionDecl stmt {}
        | .keyword .classKw => Stmt.class_ <$> classDecl expr stmt
        | _ => unexpected [Keyword.funcKw, Keyword.classKw] none
      return build' body) := by
  refine .look (fun _ => rfl) (fun _ => rfl) fun k => ?_
  dsimp only
  split
  · exact Moves.bind ((moves_functionDecl hstmt {}).map fun _ => rfl) fun body =>
      .pure (hbuild body)
  · exact Moves.bind ((moves_classDecl hexpr hstmt).map fun _ => rfl) fun body =>
      .pure (hbuild body)
  · exact (Moves.unexpected _ none).bind fun body => .pure (hbuild body)

theorem moves_templateStmt : Moves d (templateStmt expr stmt) (templateStmt expr stmt) := by
  refine Moves.expect.bind fun start => Moves.expect.bind fun _ => ?_
  refine Moves.ident.commaSeparated.bind fun params => Moves.closingAngle.bind fun _ p => ?_
  have hbody := moves_templateBody (d := d) hexpr hstmt
    (fun body => .template params body (start.span.upTo body.span))
    (fun body => .template (move d params) body ((move d start).span.upTo body.span))
    fun _ => by simp [move]
  refine .look rfl rfl ?_
  rw [p.kind_moved, p.peek_moved]
  exact .ite ((Moves.registerTemplate p.peek.literal).bind (fun _ => hbody) p) (hbody p)

/-! ## Control flow -/

theorem moves_returnStmt : Moves d (returnStmt expr stmt) (returnStmt expr stmt) := by
  refine Moves.expect.bind fun _ => .look (fun _ => rfl) (fun _ => rfl) fun _ => ?_
  refine ((moves_value hexpr hstmt).optional _).bind fun value? => .eat fun _ => .pure ?_
  cases value? <;> simp [move]

theorem moves_throwStmt : Moves d (throwStmt expr stmt) (throwStmt expr stmt) := by
  refine Moves.expect.bind fun _ => (moves_value hexpr hstmt).bind fun _ => .eat fun _ => .pure ?_
  simp [move]

theorem moves_simpleStmt : Moves d (simpleStmt expr stmt) (simpleStmt expr stmt) :=
  .look (fun _ => rfl) (fun _ => rfl) fun _ => .ite (moves_varStmt hexpr hstmt)
    ((moves_value hexpr hstmt).map fun _ => rfl)

theorem moves_ifStmt : Moves d (ifStmt expr stmt) (ifStmt expr stmt) := by
  refine Moves.expect.bind fun _ => (moves_value hexpr hstmt).bind fun _ => ?_
  refine (moves_block hstmt).bind fun _ => .eat fun _ => Moves.bind (.optional ?_ _) fun a? =>
    .pure ?_
  · exact .look (fun _ => rfl) (fun _ => rfl) fun _ =>
      .ite hstmt ((moves_block hstmt).map fun _ => rfl)
  · cases a? <;> simp [move]

theorem moves_forClauses : Moves d (forClauses expr stmt) (forClauses expr stmt) := by
  have hsimple := moves_simpleStmt hexpr hstmt
  refine .look (fun _ => rfl) (fun _ => rfl) fun _ => .ite (.pure rfl) ?_
  refine .look (fun _ => rfl) (fun _ => rfl) fun _ => (hsimple.optional _).bind fun first? => ?_
  refine .eat fun _ => .ite ?_ ?_
  · refine .look (fun _ => rfl) (fun _ => rfl) fun _ => ?_
    refine ((moves_value hexpr hstmt).optional _).bind fun _ => Moves.expect.bind fun _ => ?_
    exact .look (fun _ => rfl) (fun _ => rfl) fun _ => (hsimple.optional _).bind fun _ => .pure rfl
  · have hfail : Moves d
        (unexpected [Mark.semicolon] none : Parse (Option Stmt × Option Expr × Option Stmt))
        (unexpected [Mark.semicolon] none) := .unexpected _ none
    match first? with
    | none => exact hfail
    | some s =>
      rw [show move d (some s) = some (s.moved d) from rfl]
      cases s with
      | expr e => exact .pure rfl
      | _ => exact hfail

theorem moves_forStmt : Moves d (forStmt expr stmt) (forStmt expr stmt) := by
  refine Moves.expect.bind fun _ => (moves_forClauses hexpr hstmt).bind fun clauses => ?_
  obtain ⟨init?, condition?, post?⟩ := clauses
  refine (moves_block hstmt).bind fun _ => .pure ?_
  simp [move]

theorem moves_whileStmt : Moves d (whileStmt expr stmt) (whileStmt expr stmt) := by
  refine Moves.expect.bind fun _ => (moves_value hexpr hstmt).bind fun _ => ?_
  refine (moves_block hstmt).bind fun _ => .pure ?_
  simp [move]

omit hexpr in
theorem moves_caseBody (start : Span) :
    Moves d (caseBody stmt start) (caseBody stmt (start.moved d)) := by
  refine Moves.bind (.collect ?_) fun stmts => .pure ?_
  · exact .look (fun _ => rfl) (fun _ => rfl) fun _ => .ite (.pure rfl) (.eat fun _ =>
      .ite (.pure rfl) (hstmt.bind fun _ => .pure rfl))
  · rcases List.eq_nil_or_concat stmts with rfl | ⟨init, final, rfl⟩ <;>
      simp [move]

theorem moves_switchArm : Moves d (switchArm expr stmt) (switchArm expr stmt) := by
  refine .look (fun _ => rfl) (fun _ => rfl) fun k => ?_
  split
  · refine Moves.advance.bind fun _ => (moves_expressionListOf hexpr _).bind fun _ => ?_
    refine Moves.expect.bind fun colon => (moves_caseBody hstmt colon.span).bind fun _ => .pure ?_
    simp [move]
  · refine Moves.advance.bind fun _ => Moves.expect.bind fun colon => ?_
    exact (moves_caseBody hstmt colon.span).map fun _ => rfl
  · exact .unexpected _ none

omit hexpr hstmt in
/-- Arms are told apart in the same way. -/
theorem arms_moved (arms : List (Case ⊕ Block)) :
    (move d arms).filterMap Sum.getLeft? = move d (arms.filterMap Sum.getLeft?) ∧
      ((move d arms).filterMap Sum.getRight?).getLast? =
        move d (arms.filterMap Sum.getRight?).getLast? := by
  have hleft : ∀ arm : Case ⊕ Block, (move d arm).getLeft? = arm.getLeft?.map (move d) :=
    fun arm => by cases arm <;> rfl
  have hright : ∀ arm : Case ⊕ Block, (move d arm).getRight? = arm.getRight?.map (move d) :=
    fun arm => by cases arm <;> rfl
  refine ⟨?_, ?_⟩
  · show (arms.map (move d)).filterMap _ = (arms.filterMap _).map (move d)
    rw [List.filterMap_map, List.map_filterMap]
    exact congrFun (congrArg List.filterMap (funext hleft)) arms
  · show ((arms.map (move d)).filterMap _).getLast? = (arms.filterMap _).getLast?.map (move d)
    rw [List.filterMap_map, ← List.getLast?_map, List.map_filterMap]
    exact congrArg (fun f => (List.filterMap f arms).getLast?) (funext hright)

theorem moves_switchStmt : Moves d (switchStmt expr stmt) (switchStmt expr stmt) := by
  refine Moves.expect.bind fun _ => .look (fun _ => rfl) (fun _ => rfl) fun _ => ?_
  refine ((moves_value hexpr hstmt).optional _).bind fun _ => Moves.expect.bind fun _ => ?_
  refine Moves.bind (.collect ?_) fun arms => Moves.expect.bind fun _ => .pure ?_
  · exact .look (fun _ => rfl) (fun _ => rfl) fun _ => .ite (.pure rfl)
      ((moves_switchArm hexpr hstmt).bind fun _ => .pure rfl)
  · rw [(arms_moved arms).1, (arms_moved arms).2]
    simp [move]

omit hexpr in
theorem moves_catchClause : Moves d (catchClause stmt) (catchClause stmt) := by
  refine Moves.advance.bind fun _ => .eat fun _ => .ite ?_ ?_
  · refine Moves.ident.bind fun _ => moves_optionalType.bind fun _ => Moves.expect.bind fun _ => ?_
    refine (moves_block hstmt).bind fun _ => .pure ?_
    simp [move]
  · refine (moves_block hstmt).bind fun _ => .pure ?_
    simp [move]

omit hexpr in
theorem moves_tryStmt : Moves d (tryStmt stmt) (tryStmt stmt) := by
  refine Moves.expect.bind fun _ => (moves_block hstmt).bind fun _ =>
    Moves.bind (.collect ?_) fun cs => ?_
  · exact .look (fun _ => rfl) (fun _ => rfl) fun _ => .ite
      ((moves_catchClause hstmt).bind fun _ => .pure rfl) (.pure rfl)
  rw [show (move d cs).getLast? = move d cs.getLast? from List.getLast?_map ..]
  cases cs.getLast? with
  | none => exact .unexpected _ _
  | some final =>
    refine .eat fun _ => ((moves_block hstmt).optional _).bind fun finally? => .pure ?_
    cases finally? <;> simp [move]

/-! ## Any statement -/

theorem moves_statementStep : Moves d (statementStep expr stmt) (statementStep expr stmt) := by
  refine fun p => .look rfl rfl ?_
  rw [p.kind_moved, p.peek_moved]
  refine (?_ : Moves d _ _) p
  split
  · exact moves_packageStmt
  · exact moves_importStmt
  · exact (moves_varStmt hexpr hstmt).bind fun _ => .eat fun _ => .pure rfl
  · exact moves_constStmt hexpr hstmt
  · exact moves_returnStmt hexpr hstmt
  · exact moves_ifStmt hexpr hstmt
  · exact moves_forStmt hexpr hstmt
  · exact moves_whileStmt hexpr hstmt
  · exact moves_switchStmt hexpr hstmt
  · exact Moves.advance.bind fun _ => .eat fun _ => .pure rfl
  · exact Moves.advance.bind fun _ => .eat fun _ => .pure rfl
  · exact .ite ((moves_methodDecl hstmt).map fun _ => rfl)
      ((moves_functionDecl hstmt {}).map fun _ => rfl)
  · exact (moves_classDecl hexpr hstmt).map fun _ => rfl
  · exact moves_interfaceStmt
  · exact moves_templateStmt hexpr hstmt
  · exact moves_tryStmt hstmt
  · exact moves_throwStmt hexpr hstmt
  · refine Moves.advance.bind fun _ => (moves_block hstmt).bind fun _ => .pure ?_
    simp [move]
  · exact (moves_block hstmt).map fun _ => rfl
  · exact (moves_value hexpr hstmt).bind fun _ => .eat fun _ => .pure rfl

end

/-! ## Any nesting -/

theorem moves_expressionAt_statementAt (fuel : Nat) :
    (∀ least, Moves d (expressionAt fuel least) (expressionAt fuel least)) ∧
      Moves d (statementAt fuel) (statementAt fuel) := by
  induction fuel with
  | zero => exact ⟨fun _ => .tooDeep, .tooDeep⟩
  | succ fuel ih => exact ⟨moves_expressionStep ih.1 ih.2, moves_statementStep ih.1 ih.2⟩

theorem moves_statement : Moves d statement statement :=
  .of_fuel fun fuel => (moves_expressionAt_statementAt fuel).2

end ClassLang.Parse
