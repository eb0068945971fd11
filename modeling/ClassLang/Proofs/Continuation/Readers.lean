import ClassLang.Proofs.Continuation.Alongside

/-!
# Types, expressions and statements with more text behind

Types, expressions and everything that ends with a token of its own are followed firmly. A statement
that may be closed by a semicolon is followed up to that semicolon. Only the repetitions that stop
at the end marker, and the clauses of a `for`, are followed loosely; a token that must come after
them makes up for it.
-/

namespace ClassLang.Parse

variable {r : Parser}

/-! ## Types -/

section

variable {type type' : Parse TypeExpr} (htype : Follows .firm r type type')

include htype

theorem follows_typeArguments : Follows .firm r (typeArguments type) (typeArguments type') :=
  htype.commaSeparated.bind fun _ => Follows.closingAngle.bind fun _ => .pure _

theorem follows_namedType : Follows .firm r (namedType type) (namedType type') := by
  refine Follows.ident.bind fun name => .eat rfl fun _ => .ite ?_ (.pure _)
  exact (follows_typeArguments htype).bind fun _ => .pure _

theorem follows_typeStep : Follows .firm r (typeStep type) (typeStep type') := by
  have hend : Refuses (typeStep type) :=
    AtEnd.look (fun _ => rfl) fun _ _ => .currentKind (.unexpected _ none)
  refine .of_inside ?_ hend
  refine .look (t := fun t => t.span) (fun _ => rfl) fun start => ?_
  refine .look (t := fun t => t.kind) (fun _ => rfl) fun k => ?_
  split
  · exact .advance fun _ => .expect nofun fun _ => htype.bind fun _ => .pure _
  · refine .advance fun _ => .expect nofun fun _ => htype.bind fun _ => ?_
    exact .expect nofun fun _ => htype.bind fun _ => .pure _
  · exact .advance fun _ => htype.bind fun _ => .pure _
  · exact (follows_namedType htype).inside
  · exact (Follows.unexpected _ none).inside

end

theorem follows_type : Follows .firm r type type := by
  refine .of_fuel fun n m hnm => ?_
  induction n generalizing m with
  | zero => exact .tooDeep
  | succ n ih =>
    obtain ⟨m, rfl⟩ : ∃ m', m = m' + 1 := ⟨m - 1, by omega⟩
    exact follows_typeStep (ih m (by omega))

theorem follows_optionalType : Follows .firm r optionalType optionalType :=
  .checkAny rfl fun _ => follows_type.optional _

theorem follows_parameter : Follows .firm r parameter parameter :=
  Follows.ident.bind fun _ => follows_optionalType.bind fun _ => .pure _

theorem follows_parameters : Follows .firm r parameters parameters := by
  refine Follows.expect nofun fun _ => Follows.bind (.collect ?_) fun _ =>
    .expect nofun fun _ => .pure _
  exact .check rfl fun _ => .ite (.pure _)
    (follows_parameter.bind fun _ => .eat rfl fun _ => .ite (.pure _) (.pure _))

/-! ## Expressions -/

theorem follows_blockOf {stmt stmt' : Parse Stmt} (hstmt : Follows .final r stmt stmt') :
    Follows .firm r (blockOf stmt) (blockOf stmt') := by
  refine Follows.expect nofun fun _ => Follows.bind_refusing (.collect_loose ?_ ?_)
    (fun _ => .expect nofun fun _ => .pure _) fun _ => AtEnd.expect nofun
  · exact .checkAny fun _ => .ite (.pure _) (.eat (.pure _) hstmt.bind_pure.loose.inside)
  · exact AtEnd.checkAny (.pure fun _ hp => ⟨rfl, hp⟩)

section

variable {expr expr' : Precedence → Parse Expr} {stmt stmt' : Parse Stmt}
  (hexpr : ∀ least, Follows .firm r (expr least) (expr' least))
  (hstmt : Follows .final r stmt stmt')

include hexpr

theorem follows_expressionListOf {stop : TokenKind}
    (hstop : (TokenKind.eof == stop) = (.mark .semicolon == stop)) :
    Follows .firm r (expressionListOf expr stop) (expressionListOf expr' stop) := by
  refine .check hstop fun _ => .ite (.pure _) ?_
  refine (hexpr _).bind fun _ => Follows.bind (.collect ?_) fun _ => .pure _
  exact .eat rfl fun _ => .ite (.check hstop fun _ => .ite (.pure _)
    ((hexpr _).bind fun _ => .pure _)) (.pure _)

omit hexpr in
theorem follows_identifierExpr : Follows .firm r identifierExpr identifierExpr := by
  refine Follows.ident.bind fun name => .check_inside rfl rfl (fun p p' hp hne => ?_) ?_
  · refine .look rfl rfl ?_
    rw [hp.isTemplate_eq]
    refine Inside.ite (.advance fun _ => ?_) (.pure _) p p' hp hne
    exact (follows_typeArguments follows_type).bind fun _ => .pure _
  · exact fun p p' hp => .look rfl rfl (.pure hp _)

omit hexpr in
theorem follows_integerExpr : Inside .firm r integerExpr integerExpr :=
  .advance fun _ => .ite (.pure _) (.throw _)

theorem follows_prefixExpr (op : PrefixOp) :
    Inside .firm r (prefixExpr expr op) (prefixExpr expr' op) :=
  .advance fun _ => (hexpr _).bind fun _ => .pure _

theorem follows_groupedExpr : Follows .firm r (groupedExpr expr) (groupedExpr expr') :=
  .expect nofun fun _ => (hexpr _).bind fun _ => .expect nofun fun _ => .pure _

theorem follows_arrayExpr : Follows .firm r (arrayExpr expr) (arrayExpr expr') :=
  .expect nofun fun _ => (follows_expressionListOf hexpr rfl).bind fun _ =>
    .expect nofun fun _ => .pure _

theorem follows_hashExpr : Follows .firm r (hashExpr expr) (hashExpr expr') := by
  refine .expect nofun fun _ => Follows.bind (.collect ?_) fun _ => .expect nofun fun _ => .pure _
  refine .check rfl fun _ => .ite (.pure _) ((hexpr _).bind fun _ => ?_)
  exact .expect nofun fun _ => (hexpr _).bind fun _ => .eat rfl fun _ => .ite (.pure _) (.pure _)

omit hexpr in
include hstmt in
theorem follows_lambdaExpr : Follows .firm r (lambdaExpr stmt) (lambdaExpr stmt') := by
  refine .expect nofun fun _ => follows_parameters.bind fun _ => .check rfl fun _ => ?_
  exact (follows_type.optional _).bind fun _ => (follows_blockOf hstmt).bind fun _ => .pure _

theorem follows_newExpr : Follows .firm r (newExpr expr) (newExpr expr') := by
  refine .expect nofun fun _ => (follows_namedType follows_type).bind fun _ => ?_
  exact .expect nofun fun _ => (follows_expressionListOf hexpr rfl).bind fun _ =>
    .expect nofun fun _ => .pure _

omit hexpr in
theorem refuses_operand : Refuses (operand expr stmt) := by
  refine AtEnd.look (fun _ => rfl) fun p hp => ?_
  rw [show p.current.kind = .eof from hp]
  intro _ _ _ _ h
  cases h

include hstmt

theorem follows_operand : Follows .firm r (operand expr stmt) (operand expr' stmt') := by
  have hadvance : ∀ e : Expr, Inside .firm r (do let _ ← advance; return e)
      (do let _ ← advance; return e) := fun e => .advance fun _ => .pure e
  refine .of_inside ?_ refuses_operand
  refine .look (t := id) (fun _ => rfl) fun t => ?_
  split
  · exact follows_identifierExpr.inside
  · exact follows_integerExpr
  · exact .advance fun _ => .pure _
  · exact hadvance _
  · exact hadvance _
  · exact hadvance _
  · exact hadvance _
  · exact hadvance _
  · exact follows_prefixExpr hexpr _
  · exact follows_prefixExpr hexpr _
  · exact follows_prefixExpr hexpr _
  · exact (follows_groupedExpr hexpr).inside
  · exact (follows_arrayExpr hexpr).inside
  · exact (follows_hashExpr hexpr).inside
  · exact (follows_lambdaExpr hstmt).inside
  · exact (follows_newExpr hexpr).inside
  · exact hadvance _
  · exact hadvance _
  · exact (Follows.throw _).inside

omit hstmt

theorem follows_operatorAfter (least : Precedence) (left : Expr) :
    Follows .firm r (operatorAfter expr least left) (operatorAfter expr' least left) := by
  refine .currentKind (fun k => .ite (.pure none) ?_) ?_
  · split
    · exact .advance fun _ => (follows_expressionListOf hexpr rfl).bind fun _ =>
        .expect nofun fun _ => .pure _
    · exact .advance fun _ => (hexpr _).bind fun _ => .expect nofun fun _ => .pure _
    · exact .advance fun _ => Follows.ident.bind fun _ => .pure _
    · exact .advance fun _ => Follows.ident.bind fun _ => .pure _
    · exact .advance fun _ => .pure _
    · exact .advance fun _ => .pure _
    · split
      · exact .advance fun _ => (hexpr _).bind fun _ => .pure _
      · split
        · exact .advance fun _ => (hexpr _).bind fun _ => .pure _
        · exact .pure none
  · exact .ite (.pure none) (.pure none)

include hstmt

theorem follows_expressionStep (least : Precedence) :
    Follows .firm r (expressionStep expr stmt least) (expressionStep expr' stmt' least) :=
  (follows_operand hexpr hstmt).bind fun left => .extend (follows_operatorAfter hexpr least) left

theorem follows_value : Follows .firm r (value expr stmt) (value expr' stmt') :=
  follows_expressionStep hexpr hstmt _

omit hexpr hstmt in
theorem refuses_value : Refuses (value expr stmt) := AtEnd.bind refuses_operand

end

/-! ## Declarations -/

theorem follows_packageStmt : Follows .final r packageStmt packageStmt :=
  .expect nofun fun _ => Follows.ident.bind fun _ => .semicolon _

theorem follows_importPaths : Follows .loose r importPaths importPaths := by
  have hseparators : Follows .loose r (collect do
      if ← eat Mark.comma then return .skip
      if ← eat Mark.semicolon then return .skip
      return .stop : Parse (List Unit)) (collect do
      if ← eat Mark.comma then return .skip
      if ← eat Mark.semicolon then return .skip
      return .stop) := by
    refine .collect_loose (.eat (.pure _) (.eat (.pure _) (.pure _))) ?_
    exact AtEnd.eat rfl (.eat rfl (.pure fun _ hp => ⟨rfl, hp⟩))
  refine .collect_loose (.check fun _ => .ite (.pure _) (Follows.inside ?_)) ?_
  · exact .expect nofun fun _ => hseparators.bind_pure
  · exact AtEnd.check (.expect nofun)

theorem follows_importStmt : Follows .final r importStmt importStmt := by
  refine .expect nofun fun _ => .eat rfl fun _ => .ite ?_ ?_
  · exact follows_importPaths.bind_refusing (fun _ => .expect nofun fun _ => .semicolon _)
      fun _ => AtEnd.expect nofun
  · exact .expect nofun fun _ => .semicolon _

section

variable {expr expr' : Precedence → Parse Expr} {stmt stmt' : Parse Stmt}
  (hexpr : ∀ least, Follows .firm r (expr least) (expr' least))
  (hstmt : Follows .final r stmt stmt')

include hstmt in
theorem follows_block : Follows .firm r (block stmt) (block stmt') := follows_blockOf hstmt

theorem refuses_block : Refuses (block stmt) := AtEnd.expect nofun

include hexpr hstmt in
theorem follows_varStmt : Follows .firm r (varStmt expr stmt) (varStmt expr' stmt') := by
  refine .expect nofun fun _ => Follows.ident.bind fun _ => follows_optionalType.bind fun _ => ?_
  exact .eat rfl fun _ => ((follows_value hexpr hstmt).optional _).bind fun _ => .pure _

include hexpr hstmt in
theorem follows_constStmt : Follows .final r (constStmt expr stmt) (constStmt expr' stmt') := by
  refine .expect nofun fun _ => Follows.ident.bind fun _ => follows_optionalType.bind fun _ => ?_
  exact .expect nofun fun _ => (follows_value hexpr hstmt).bind fun _ => .semicolon _

include hstmt in
theorem follows_functionDecl (mods : Modifiers) :
    Follows .firm r (functionDecl stmt mods) (functionDecl stmt' mods) := by
  refine .expect nofun fun _ => Follows.ident.bind fun _ => follows_parameters.bind fun _ => ?_
  exact follows_optionalType.bind fun _ => (follows_block hstmt).bind fun _ => .pure _

include hstmt in
theorem follows_methodDecl : Follows .firm r (methodDecl stmt) (methodDecl stmt') := by
  refine .expect nofun fun _ => .expect nofun fun _ => follows_parameter.bind fun _ => ?_
  refine .expect nofun fun _ => Follows.ident.bind fun _ => follows_parameters.bind fun _ => ?_
  exact follows_optionalType.bind fun _ => (follows_block hstmt).bind fun _ => .pure _

/-! ## Classes, interfaces and templates -/

theorem follows_modifiers : Follows .firm r modifiers modifiers := by
  refine Follows.bind (.collect (.currentKind (fun k => ?_) (.pure _))) fun _ => .pure _
  split
  · exact .ite (.advance fun _ => .pure _) (.pure _)
  · exact .pure _

include hexpr hstmt in
theorem follows_fieldDecl (start : Span) (mods : Modifiers) :
    Inside .final r (fieldDecl expr stmt start mods) (fieldDecl expr' stmt' start mods) := by
  have hvalue := follows_value hexpr hstmt
  refine .advance fun _ => Follows.ident.bind fun _ => follows_optionalType.bind fun _ => .ite ?_ ?_
  · exact .expect nofun fun _ => hvalue.map.bind fun _ => .semicolon _
  · exact .eat rfl fun _ => (hvalue.optional _).bind fun _ => .semicolon _

include hexpr hstmt in
theorem follows_member : Inside .final r (member expr stmt) (member expr' stmt') := by
  refine .look (t := fun t => t.span) (fun _ => rfl) fun start => Follows.inside ?_
  refine follows_modifiers.bind fun mods => .currentKind (fun k => ?_) (.unexpected _ none)
  split
  · exact (follows_functionDecl hstmt mods).map.of_firm.inside
  · exact Inside.map (follows_fieldDecl hexpr hstmt start mods)
  · exact Inside.map (follows_fieldDecl hexpr hstmt start mods)
  · exact (Follows.unexpected _ none).inside

include hexpr hstmt in
theorem follows_classDecl : Follows .firm r (classDecl expr stmt) (classDecl expr' stmt') := by
  have hmembers : Follows .loose r (collect do
      if ← checkAny [Mark.rBrace, .eof] then return .stop
      if ← eat Mark.semicolon then return .skip
      return .item (← member expr stmt)) (collect do
      if ← checkAny [Mark.rBrace, .eof] then return .stop
      if ← eat Mark.semicolon then return .skip
      return .item (← member expr' stmt')) := by
    refine .collect_loose (.checkAny fun _ => .ite (.pure _) (.eat (.pure _) ?_)) ?_
    · exact (follows_member hexpr hstmt).bind_pure.loose
    · exact AtEnd.checkAny (.pure fun _ hp => ⟨rfl, hp⟩)
  refine .expect nofun fun _ => Follows.ident.bind fun _ => .eat rfl fun _ => ?_
  refine (Follows.ident.optional _).bind fun _ => .eat rfl fun _ => .ite ?_ ?_
  · refine Follows.ident.commaSeparated.bind fun _ => .expect nofun fun _ => ?_
    exact hmembers.bind_refusing (fun _ => .expect nofun fun _ => .pure _)
      fun _ => AtEnd.expect nofun
  · exact .expect nofun fun _ => hmembers.bind_refusing (fun _ => .expect nofun fun _ => .pure _)
      fun _ => AtEnd.expect nofun

theorem follows_interfaceMethod : Inside .firm r interfaceMethod interfaceMethod := by
  refine .look (t := fun t => t.span) (fun _ => rfl) fun _ => Follows.inside ?_
  refine .eat rfl fun _ => Follows.ident.bind fun _ => follows_parameters.bind fun _ => ?_
  exact follows_optionalType.bind fun _ => .pure _

theorem follows_interfaceStmt : Follows .firm r interfaceStmt interfaceStmt := by
  refine .expect nofun fun _ => Follows.ident.bind fun _ => .expect nofun fun _ => ?_
  refine Follows.bind_refusing (.collect_loose ?_ ?_) (fun _ => .expect nofun fun _ => .pure _)
    fun _ => AtEnd.expect nofun
  · exact .checkAny fun _ => .ite (.pure _) (.eat (.pure _) follows_interfaceMethod.bind_pure.loose)
  · exact AtEnd.checkAny (.pure fun _ hp => ⟨rfl, hp⟩)

include hexpr hstmt

theorem follows_templateBody (build : Stmt → Stmt) : Follows .firm r (do
    let body ← match ← currentKind with
      | .keyword .funcKw => Stmt.function <$> functionDecl stmt {}
      | .keyword .classKw => Stmt.class_ <$> classDecl expr stmt
      | _ => unexpected [Keyword.funcKw, Keyword.classKw] none
    return build body) (do
    let body ← match ← currentKind with
      | .keyword .funcKw => Stmt.function <$> functionDecl stmt' {}
      | .keyword .classKw => Stmt.class_ <$> classDecl expr' stmt'
      | _ => unexpected [Keyword.funcKw, Keyword.classKw] none
    return build body) := by
  refine .currentKind (fun k => ?_) (.bind (.unexpected _ none) fun _ => .pure _)
  dsimp only
  split
  · exact ((follows_functionDecl hstmt {}).map.bind fun _ => .pure _).inside
  · exact ((follows_classDecl hexpr hstmt).map.bind fun _ => .pure _).inside
  · exact (Follows.bind (.unexpected _ none) fun _ => .pure _).inside

theorem follows_templateStmt :
    Follows .firm r (templateStmt expr stmt) (templateStmt expr' stmt') := by
  refine .expect nofun fun start => .expect nofun fun _ => ?_
  refine Follows.ident.commaSeparated.bind fun params => Follows.closingAngle.bind fun _ => ?_
  have hbody := follows_templateBody (r := r) hexpr hstmt fun body =>
    .template params body (start.span.upTo body.span)
  refine .of_inside (fun p p' hp hne => .look rfl rfl ?_) (AtEnd.look (fun _ => rfl) fun p hp => ?_)
  · rw [hp.kind_eq hne, hp.peek_test_eq (c := (· == .ident)) hne rfl]
    split
    · rename_i hregister
      have hpeek : p.peek.kind = .ident := by simp_all
      rw [hp.peek_eq_of_ne hne (by simp [hpeek])]
      exact (Follows.registerTemplate _).bind (fun _ => hbody) p p' hp
    · exact hbody p p' hp
  · rw [hp]
    exact .currentKind (.bind (AtEnd.unexpected _ none))

/-! ## Control flow -/

theorem follows_returnStmt : Follows .final r (returnStmt expr stmt) (returnStmt expr' stmt') :=
  .expect nofun fun _ => .checkAny rfl fun _ =>
    ((follows_value hexpr hstmt).optional _).bind fun _ => .semicolon _

theorem follows_throwStmt : Follows .final r (throwStmt expr stmt) (throwStmt expr' stmt') :=
  .expect nofun fun _ => (follows_value hexpr hstmt).bind fun _ => .semicolon _

theorem follows_simpleStmt : Follows .firm r (simpleStmt expr stmt) (simpleStmt expr' stmt') :=
  .check rfl fun _ => .ite (follows_varStmt hexpr hstmt) (follows_value hexpr hstmt).map

omit hexpr hstmt in
theorem refuses_simpleStmt : Refuses (simpleStmt expr stmt) := AtEnd.check (AtEnd.map refuses_value)

theorem follows_ifStmt : Follows .final r (ifStmt expr stmt) (ifStmt expr' stmt') := by
  refine .expect nofun fun _ => (follows_value hexpr hstmt).bind fun _ => ?_
  refine (follows_block hstmt).bind fun _ => .eat rfl fun _ => (Follows.optional ?_ _).bind_pure
  exact .check rfl fun _ => .ite hstmt (follows_block hstmt).map.of_firm

theorem follows_forClauses : Follows .loose r (forClauses expr stmt) (forClauses expr' stmt') := by
  have hsimple := follows_simpleStmt hexpr hstmt
  refine .check rfl fun _ => .ite (.pure _) (.of_inside ?_ ?_)
  · refine .check fun _ => Follows.inside ((hsimple.optional _).bind fun first? => ?_)
    refine .loose_of_inside (.eat ?_ ?_) (AtEnd.eat rfl ?_)
    · refine .of_inside (.check fun _ => Follows.inside ?_) ?_
      · refine ((follows_value hexpr hstmt).optional _).bind fun _ => .expect nofun fun _ => ?_
        exact .check rfl fun _ => (hsimple.optional _).bind fun _ => .pure _
      · exact AtEnd.check (.bind (AtEnd.bind refuses_value))
    · rw [if_neg Bool.false_ne_true, if_neg Bool.false_ne_true]
      split
      · exact .pure _
      · exact (Follows.unexpected _ none).inside
    · rw [if_neg Bool.false_ne_true]
      split
      · exact .pure fun _ hp => hp
      · exact .unexpected _ none
  · exact AtEnd.check (.bind (AtEnd.bind refuses_simpleStmt))

theorem follows_forStmt : Follows .firm r (forStmt expr stmt) (forStmt expr' stmt') := by
  refine .expect nofun fun _ => (follows_forClauses hexpr hstmt).bind_refusing (fun clauses => ?_)
    fun clauses => AtEnd.bind refuses_block
  exact (follows_block hstmt).bind fun _ => .pure _

theorem follows_whileStmt : Follows .firm r (whileStmt expr stmt) (whileStmt expr' stmt') :=
  .expect nofun fun _ => (follows_value hexpr hstmt).bind fun _ =>
    (follows_block hstmt).bind fun _ => .pure _

omit hexpr in
theorem follows_caseBody (start : Span) :
    Follows .loose r (caseBody stmt start) (caseBody stmt' start) := by
  refine Follows.bind_pure (.collect_loose ?_ ?_)
  · exact .checkAny fun _ => .ite (.pure _) (.eat (.pure _) hstmt.bind_pure.loose.inside)
  · exact AtEnd.checkAny (.pure fun _ hp => ⟨rfl, hp⟩)

theorem follows_switchArm : Inside .loose r (switchArm expr stmt) (switchArm expr' stmt') := by
  refine .look (t := fun t => t.kind) (fun _ => rfl) fun k => ?_
  split
  · refine .advance fun _ => (follows_expressionListOf hexpr rfl).bind fun _ => ?_
    exact .expect nofun fun colon => (follows_caseBody hstmt colon.span).bind_pure
  · exact .advance fun _ => .expect nofun fun colon => (follows_caseBody hstmt colon.span).map
  · exact (Follows.unexpected _ none).inside

omit hexpr hstmt in
theorem refuses_switchArm : Refuses (switchArm expr stmt) := AtEnd.currentKind (.unexpected _ none)

theorem follows_switchStmt : Follows .firm r (switchStmt expr stmt) (switchStmt expr' stmt') := by
  refine .expect nofun fun _ => .check rfl fun _ => ?_
  refine ((follows_value hexpr hstmt).optional _).bind fun _ => .expect nofun fun _ => ?_
  refine Follows.bind_refusing (.collect_loose ?_ ?_) (fun _ => .expect nofun fun _ => .pure _)
    fun _ => AtEnd.expect nofun
  · exact .check fun _ => .ite (.pure _) (follows_switchArm hexpr hstmt).bind_pure
  · exact AtEnd.check (.bind refuses_switchArm)

omit hexpr in
theorem follows_catchClause : Inside .firm r (catchClause stmt) (catchClause stmt') := by
  refine .advance fun _ => .eat rfl fun _ => .ite ?_ ?_
  · refine Follows.ident.bind fun _ => follows_optionalType.bind fun _ => .expect nofun fun _ => ?_
    exact (follows_block hstmt).bind fun _ => .pure _
  · exact (follows_block hstmt).bind fun _ => .pure _

omit hexpr in
theorem follows_tryStmt : Follows .firm r (tryStmt stmt) (tryStmt stmt') := by
  refine .expect nofun fun _ => (follows_block hstmt).bind fun _ =>
    Follows.bind (.collect ?_) fun cs => ?_
  · exact .check_inside rfl rfl (follows_catchClause hstmt).bind_pure (.pure _)
  · split
    · exact .unexpected _ _
    · exact .eat rfl fun _ => ((follows_block hstmt).optional _).bind fun _ => .pure _

/-! ## Any statement -/

omit hexpr hstmt in
theorem refuses_statementStep : Refuses (statementStep expr stmt) := by
  refine AtEnd.look (fun _ => rfl) fun p hp => ?_
  rw [hp]
  exact .bind refuses_value

theorem follows_statementStep :
    Follows .final r (statementStep expr stmt) (statementStep expr' stmt') := by
  refine .of_inside (fun p p' hp hne => .look rfl rfl ?_) refuses_statementStep
  rw [hp.kind_eq hne, hp.peek_test_eq (c := (· == Mark.lParen)) hne rfl]
  refine (?_ : Inside .final r _ _) p p' hp hne
  split
  · exact follows_packageStmt.inside
  · exact follows_importStmt.inside
  · exact ((follows_varStmt hexpr hstmt).bind fun _ => .semicolon _).inside
  · exact (follows_constStmt hexpr hstmt).inside
  · exact (follows_returnStmt hexpr hstmt).inside
  · exact (follows_ifStmt hexpr hstmt).inside
  · exact (follows_forStmt hexpr hstmt).of_firm.inside
  · exact (follows_whileStmt hexpr hstmt).of_firm.inside
  · exact (follows_switchStmt hexpr hstmt).of_firm.inside
  · exact .advance fun _ => .semicolon _
  · exact .advance fun _ => .semicolon _
  · exact .ite (follows_methodDecl hstmt).map.of_firm.inside
      (follows_functionDecl hstmt {}).map.of_firm.inside
  · exact (follows_classDecl hexpr hstmt).map.of_firm.inside
  · exact follows_interfaceStmt.of_firm.inside
  · exact (follows_templateStmt hexpr hstmt).of_firm.inside
  · exact (follows_tryStmt hstmt).of_firm.inside
  · exact (follows_throwStmt hexpr hstmt).inside
  · exact .advance fun _ => (follows_block hstmt).bind fun _ => .pure _
  · exact (follows_block hstmt).map.of_firm.inside
  · exact ((follows_value hexpr hstmt).bind fun _ => .semicolon _).inside

end

/-! ## Any nesting -/

theorem follows_expressionAt_statementAt (n m : Nat) (h : n ≤ m) :
    (∀ least, Follows .firm r (expressionAt n least) (expressionAt m least)) ∧
      Follows .final r (statementAt n) (statementAt m) := by
  induction n generalizing m with
  | zero => exact ⟨fun _ => .tooDeep, .tooDeep⟩
  | succ n ih =>
    obtain ⟨m, rfl⟩ : ∃ m', m = m' + 1 := ⟨m - 1, by omega⟩
    have hm := ih m (by omega)
    exact ⟨follows_expressionStep hm.1 hm.2, follows_statementStep hm.1 hm.2⟩

theorem follows_statement : Follows .final r statement statement :=
  .of_fuel fun n m h => (follows_expressionAt_statementAt n m h).2

end ClassLang.Parse
