import ClassLang.Proofs.Nodes.Builds

/-!
# Nodes of types and expressions

Each reader makes one node of what it passes, from its first token to the last part that is there. A
group leaves its parentheses out, and an operator goes on from the operand in front of it.
-/

namespace ClassLang.Parse

variable {α : Type} {source : String} {o p : Parser}

/-! ## Types -/

section

variable {type : Parse TypeExpr} (htype : Builds source [] type (Piece.of .type))

include htype

theorem builds_typeArguments : Builds source [] (typeArguments type) fun r =>
    r.1.flatMap (Piece.of .type) ++ [.token r.2.span] :=
  htype.commaSeparated.bind fun _ => Builds.closingAngle.bind fun _ => .done rfl

omit htype in
theorem returns_typeArguments : Returns (typeArguments type) (·.1 ≠ []) :=
  returns_commaSeparated.andThen fun _ hargs => .bind fun _ => .pure hargs

theorem builds_namedType : Builds source [] (namedType type) (Piece.of .type) := by
  refine Builds.ident.bind fun name => .eat TokenKind.noConfusion fun _ =>
    .ite (fun _ => ?_) fun _ => ?_
  · refine (builds_typeArguments htype).bind_of returns_typeArguments fun r hne => ?_
    exact .node (z := .token r.2.span) rfl rfl
      (by rw [← List.append_assoc, List.getLast?_concat]) rfl hne
      (by simp [Node.children, TypeExpr.parts])
  · exact .wrap rfl rfl rfl trivial rfl

theorem builds_typeStep : Builds source [] (typeStep type) (Piece.of .type) := by
  intro o p hp
  refine .look rfl (.look rfl ?_)
  split
  next hkind =>
    refine BuildsAt.advance hp hkind TokenKind.noConfusion ?_
    refine (Builds.expect TokenKind.noConfusion).bind fun _ => htype.bind fun element => ?_
    exact .node rfl rfl List.getLast?_concat rfl trivial
      (by simp [Node.children, TypeExpr.parts])
  next hkind =>
    refine BuildsAt.advance hp hkind TokenKind.noConfusion ?_
    refine (Builds.expect TokenKind.noConfusion).bind fun _ => htype.bind fun key => ?_
    refine (Builds.expect TokenKind.noConfusion).bind fun _ => htype.bind fun value => ?_
    exact .node rfl rfl List.getLast?_concat rfl trivial
      (by simp [Node.children, TypeExpr.parts])
  next hkind =>
    refine BuildsAt.advance hp hkind TokenKind.noConfusion (htype.bind fun inner => ?_)
    exact .node rfl rfl List.getLast?_concat rfl trivial
      (by simp [Node.children, TypeExpr.parts])
  next => exact builds_namedType htype o p hp
  next => exact Builds.unexpected typeStart none o p hp

end

theorem builds_type : Builds source [] type (Piece.of .type) := by
  have hall : ∀ fuel, Builds source [] (typeAt fuel) (Piece.of .type) := by
    intro fuel
    induction fuel with
    | zero => exact .tooDeep
    | succ fuel ih => exact builds_typeStep ih
  exact .of_fuel hall

theorem builds_optionalType : Builds source [] optionalType fun t? =>
    t?.toList.flatMap (Piece.of .type) :=
  .look (fun _ => rfl) fun _ => builds_type.optional _

theorem builds_parameter : Builds source [] parameter (Piece.of .param) := by
  refine Builds.ident.bind fun name => builds_optionalType.bind fun type? => ?_
  cases type? with
  | none => exact .wrap rfl rfl rfl trivial rfl
  | some t => exact .node rfl rfl List.getLast?_concat rfl trivial (by simp [Node.children])

theorem builds_parameters : Builds source [] parameters fun ps =>
    ps.flatMap (Piece.of .param) := by
  have hround : Builds source [] (do
      if ← check Mark.rParen then return .stop
      let p ← parameter
      if ← eat Mark.comma then return Round.item p else return Round.last p)
      (Round.pieces (Piece.of .param)) :=
    .look (fun _ => rfl) fun _ => .ite (fun _ => .done rfl) fun _ => builds_parameter.bind fun _ =>
      .eat TokenKind.noConfusion fun _ => .ite (fun _ => .done rfl) fun _ => .done rfl
  refine (Builds.expect TokenKind.noConfusion).skip fun _ =>
    (Builds.collect hround).bind fun _ => ?_
  exact (Builds.expect TokenKind.noConfusion).skip fun _ => .done rfl

/-! ## Expressions -/

theorem builds_blockOf {stmt : Parse Stmt} (hstmt : Builds source [] stmt (Piece.of .stmt)) :
    Builds source [] (blockOf stmt) (Piece.of .block) := by
  have hround : Builds source [] (do
      if ← checkAny [Mark.rBrace, .eof] then return .stop
      if ← eat Mark.semicolon then return .skip
      return .item (← stmt)) (Round.pieces (Piece.of .stmt)) :=
    .look (fun _ => rfl) fun _ => .ite (fun _ => .done rfl) fun _ => .eat TokenKind.noConfusion
      fun _ => .ite (fun _ => .done rfl) fun _ => hstmt.bind fun _ => .done rfl
  refine (Builds.expect TokenKind.noConfusion).bind fun _ =>
    (Builds.collect hround).bind fun stmts => ?_
  refine (Builds.expect TokenKind.noConfusion).bind fun _ => ?_
  exact .node rfl rfl List.getLast?_concat rfl trivial (by simp [Node.children])

section

variable {expr : Precedence → Parse Expr} {stmt : Parse Stmt}
  (hexpr : ∀ least, Builds source [] (expr least) (Piece.of .expr))
  (hstmt : Builds source [] stmt (Piece.of .stmt))

include hexpr

theorem builds_expressionListOf (stop : TokenKind) :
    Builds source [] (expressionListOf expr stop) fun es => es.flatMap (Piece.of .expr) := by
  have hround : Builds source [] (do
      if ← eat Mark.comma then
        if ← check stop then return .stop
        return .item (← expr .lowest)
      else return .stop) (Round.pieces (Piece.of .expr)) :=
    .eat TokenKind.noConfusion fun _ => .ite (fun _ => .look (fun _ => rfl) fun _ =>
      .ite (fun _ => .done rfl) fun _ => (hexpr _).bind fun _ => .done rfl) fun _ => .done rfl
  refine .look (fun _ => rfl) fun _ => .ite (fun _ => .done rfl) fun _ => ?_
  exact (hexpr _).bind fun _ => (Builds.collect hround).bind fun _ => .done rfl

omit hexpr in
theorem builds_identifierExpr : Builds source [] identifierExpr (Piece.of .expr) := by
  refine Builds.ident.bind fun name o p hp => .look rfl (.look rfl (.ite (fun h => ?_) fun _ => ?_))
  · have hkind : p.kind = Mark.lt := eq_of_beq (Bool.and_eq_true_iff.1 h).1
    refine BuildsAt.advance hp hkind TokenKind.noConfusion ?_
    refine (builds_typeArguments builds_type).bind_of returns_typeArguments fun r hne => ?_
    exact .node (z := .token r.2.span) rfl rfl (by rw [← List.append_assoc, List.getLast?_concat])
      rfl hne (by simp [Node.children, Expr.parts])
  · have hname : Builds source (Piece.of .ident name) (pure (Expr.ident name)) (Piece.of .expr) :=
      .wrap rfl rfl rfl trivial rfl
    exact hname o p hp

omit hexpr in
theorem builds_integerExpr (hp : Made source o [] p) (hkind : p.kind = .int) :
    BuildsAt source o p integerExpr (Piece.of .expr) := by
  refine BuildsAt.advance hp hkind TokenKind.noConfusion ?_
  refine .ite (fun hlt => ?_) fun _ => .failing fun _ => rfl
  exact .node rfl rfl rfl (Span.upTo_self _).symm (Nat.le_pred_of_lt hlt) nofun

omit hexpr in
theorem builds_floatExpr (hp : Made source o [] p) (hkind : p.kind = .float) :
    BuildsAt source o p floatExpr (Piece.of .expr) :=
  BuildsAt.advance hp hkind TokenKind.noConfusion
    (.node rfl rfl rfl (Span.upTo_self _).symm trivial nofun)

theorem builds_prefixExpr {k : TokenKind} (op : PrefixOp) (hp : Made source o [] p)
    (hkind : p.kind = k) (hk : k ≠ .eof) :
    BuildsAt source o p (prefixExpr expr op) (Piece.of .expr) := by
  refine BuildsAt.advance hp hkind hk ((hexpr _).bind fun right => ?_)
  exact .node rfl rfl List.getLast?_concat rfl trivial (by simp [Node.children, Expr.parts])

theorem builds_groupedExpr : Builds source [] (groupedExpr expr) (Piece.of .expr) :=
  (Builds.expect TokenKind.noConfusion).skip fun _ => (hexpr _).bind fun _ =>
    (Builds.expect TokenKind.noConfusion).skip fun _ => .done rfl

theorem builds_arrayExpr : Builds source [] (arrayExpr expr) (Piece.of .expr) := by
  refine (Builds.expect TokenKind.noConfusion).bind fun _ => ?_
  refine (builds_expressionListOf hexpr _).bind fun elements => ?_
  refine (Builds.expect TokenKind.noConfusion).bind fun _ => ?_
  exact .node rfl rfl List.getLast?_concat rfl trivial
    (by simp [Node.children, Expr.parts])

theorem builds_hashExpr : Builds source [] (hashExpr expr) (Piece.of .expr) := by
  have hround : Builds source [] (do
      if ← check Mark.rBrace then return .stop
      let key ← expr .lowest
      let _ ← expect Mark.colon
      let value ← expr .lowest
      if ← eat Mark.comma then return Round.item (⟨key, value⟩ : Entry)
      else return Round.last ⟨key, value⟩)
      (Round.pieces fun entry => Piece.of .expr entry.key ++ Piece.of .expr entry.value) :=
    .look (fun _ => rfl) fun _ => .ite (fun _ => .done rfl) fun _ => (hexpr _).bind fun _ =>
      (Builds.expect TokenKind.noConfusion).skip fun _ => (hexpr _).bind fun _ =>
        .eat TokenKind.noConfusion fun _ => .ite (fun _ => .done rfl) fun _ => .done rfl
  refine (Builds.expect TokenKind.noConfusion).bind fun _ =>
    (Builds.collect hround).bind fun entries => ?_
  refine (Builds.expect TokenKind.noConfusion).bind fun _ => ?_
  exact .node rfl rfl List.getLast?_concat rfl trivial
    (by simp [Node.children, Expr.parts, Piece.nodes_flatMap])

omit hexpr in
include hstmt in
theorem builds_lambdaExpr : Builds source [] (lambdaExpr stmt) (Piece.of .expr) := by
  refine (Builds.expect TokenKind.noConfusion).bind fun _ => builds_parameters.bind fun params => ?_
  refine .look (fun _ => rfl) fun _ => (builds_type.optional _).bind fun ret? => ?_
  refine (builds_blockOf hstmt).bind fun body => ?_
  exact .node rfl rfl List.getLast?_concat rfl trivial (by simp [Node.children, Expr.parts])

omit hexpr in
/-- What is read as the class of a new object names a class. -/
theorem returns_namedType {type : Parse TypeExpr} : Returns (namedType type) (·.isClass) :=
  .bind fun _ => .bind fun _ => .ite (.bind fun _ => .pure rfl) (.pure rfl)

theorem builds_newExpr : Builds source [] (newExpr expr) (Piece.of .expr) := by
  refine (Builds.expect TokenKind.noConfusion).bind fun _ => ?_
  refine (builds_namedType builds_type).bind_of returns_namedType fun cls hclass => ?_
  refine (Builds.expect TokenKind.noConfusion).skip fun _ => ?_
  refine (builds_expressionListOf hexpr _).bind fun args => ?_
  refine (Builds.expect TokenKind.noConfusion).bind fun _ => ?_
  exact .node rfl rfl List.getLast?_concat rfl hclass
    (by simp [Node.children, Expr.parts])

include hstmt

theorem builds_operand : Builds source [] (operand expr stmt) (Piece.of .expr) := by
  intro o p hp
  -- a literal or a name that is a single token
  have hsingle : ∀ {k : TokenKind} (e : Expr), p.kind = k → k ≠ .eof → e.span = p.current.span →
      (Node.expr e).Shaped → e.parts = [] →
      BuildsAt source o p (do let _ ← advance; return e) (Piece.of .expr) :=
    fun e hkind hk hspan hshaped hchildren => BuildsAt.advance hp hkind hk (.node rfl rfl rfl
      (hspan.trans (Span.upTo_self _).symm) hshaped (by simp [Node.children, hchildren]))
  refine .look rfl ?_
  split
  next => exact builds_identifierExpr o p hp
  next hkind => exact builds_integerExpr hp hkind
  next hkind => exact builds_floatExpr hp hkind
  next hkind => exact hsingle _ hkind TokenKind.noConfusion rfl trivial rfl
  next hkind => exact hsingle _ hkind TokenKind.noConfusion rfl trivial rfl
  next hkind => exact hsingle _ hkind TokenKind.noConfusion rfl trivial rfl
  next hkind => exact hsingle _ hkind TokenKind.noConfusion rfl trivial rfl
  next hkind => exact hsingle _ hkind TokenKind.noConfusion rfl trivial rfl
  next hkind => exact builds_prefixExpr hexpr _ hp hkind TokenKind.noConfusion
  next hkind => exact builds_prefixExpr hexpr _ hp hkind TokenKind.noConfusion
  next hkind => exact builds_prefixExpr hexpr _ hp hkind TokenKind.noConfusion
  next => exact builds_groupedExpr hexpr o p hp
  next => exact builds_arrayExpr hexpr o p hp
  next => exact builds_hashExpr hexpr o p hp
  next => exact builds_lambdaExpr hstmt o p hp
  next => exact builds_newExpr hexpr o p hp
  next hkind => exact hsingle _ hkind TokenKind.noConfusion rfl trivial rfl
  next hkind => exact hsingle _ hkind TokenKind.noConfusion rfl trivial rfl
  next => exact Builds.failing (fun _ => rfl) o p hp

omit hstmt in
/-- An operator puts the operand in front of it together with what stands behind it. -/
theorem builds_operatorAfter (least : Precedence) (left : Expr) :
    Builds source (Piece.of .expr left) (operatorAfter expr least left)
      fun e? => Piece.of .expr (e?.getD left) := by
  intro o p hp
  refine .look rfl (.ite (fun _ => Builds.done rfl o p hp) fun _ => ?_)
  split
  next hkind =>
    refine BuildsAt.advance hp hkind TokenKind.noConfusion ?_
    refine (builds_expressionListOf hexpr _).bind fun args => ?_
    refine (Builds.expect TokenKind.noConfusion).bind fun _ => ?_
    exact .node rfl rfl List.getLast?_concat rfl trivial
      (by simp [Node.children, Expr.parts])
  next hkind =>
    refine BuildsAt.advance hp hkind TokenKind.noConfusion ((hexpr _).bind fun key => ?_)
    refine (Builds.expect TokenKind.noConfusion).bind fun _ => ?_
    exact .node rfl rfl List.getLast?_concat rfl trivial
      (by simp [Node.children, Expr.parts])
  next hkind =>
    refine BuildsAt.advance hp hkind TokenKind.noConfusion (Builds.ident.bind fun property => ?_)
    exact .node rfl rfl List.getLast?_concat rfl trivial
      (by simp [Node.children, Expr.parts])
  next hkind =>
    refine BuildsAt.advance hp hkind TokenKind.noConfusion (Builds.ident.bind fun property => ?_)
    exact .node rfl rfl List.getLast?_concat rfl trivial
      (by simp [Node.children, Expr.parts])
  next hkind =>
    refine BuildsAt.advance hp hkind TokenKind.noConfusion ?_
    exact .node rfl rfl List.getLast?_concat rfl trivial
      (by simp [Node.children, Expr.parts])
  next hkind =>
    refine BuildsAt.advance hp hkind TokenKind.noConfusion ?_
    exact .node rfl rfl List.getLast?_concat rfl trivial
      (by simp [Node.children, Expr.parts])
  next =>
    split
    next op hop =>
      refine BuildsAt.advance hp rfl (fun heof => by simp [heof, AssignOp.ofKind?] at hop)
        ((hexpr _).bind fun value => ?_)
      exact .node rfl rfl List.getLast?_concat rfl trivial
        (by simp [Node.children, Expr.parts])
    next =>
      split
      next op hop =>
        refine BuildsAt.advance hp rfl (fun heof => by simp [heof, InfixOp.ofKind?] at hop)
          ((hexpr _).bind fun right => ?_)
        exact .node rfl rfl List.getLast?_concat rfl trivial
          (by simp [Node.children, Expr.parts])
      next => exact Builds.done rfl o p hp

theorem builds_expressionStep (least : Precedence) :
    Builds source [] (expressionStep expr stmt least) (Piece.of .expr) :=
  (builds_operand hexpr hstmt).bind fun left =>
    .extend (builds_operatorAfter hexpr least) left

theorem builds_value : Builds source [] (value expr stmt) (Piece.of .expr) :=
  builds_expressionStep hexpr hstmt _

end

end ClassLang.Parse
