import ClassLang.Proofs.Nodes.Readers

/-!
# Nodes of statements and declarations

As for expressions, a statement reaches from its first token to the last part that is there. Two
readers differ: a class field starts with its modifiers, which are read before it is known to be a
field, and an interface method without a result type ends with its name.
-/

namespace ClassLang.Parse

variable {source : String} {o p : Parser}

/-! ## Declarations -/

theorem builds_packageStmt : Builds source [] packageStmt (Piece.of .stmt) := by
  refine (Builds.expect TokenKind.noConfusion).bind fun _ => Builds.ident.bind fun name => ?_
  refine .eat TokenKind.noConfusion fun _ => ?_
  exact .node rfl rfl List.getLast?_concat rfl trivial (by simp [Node.children, Stmt.parts])

theorem builds_importPaths : Builds source [] importPaths fun _ => [] := by
  have hseparators : Builds source [] (collect do
      if ← eat Mark.comma then return .skip
      if ← eat Mark.semicolon then return .skip
      return .stop : Parse (List Unit)) fun as => as.flatMap fun _ => [] :=
    .collect (.eat TokenKind.noConfusion fun _ => .ite (fun _ => .done rfl) fun _ =>
      .eat TokenKind.noConfusion fun _ => .ite (fun _ => .done rfl) fun _ => .done rfl)
  have hpaths : Builds source [] importPaths fun as => as.flatMap fun _ => [] :=
    .collect (.look (fun _ => rfl) fun _ => .ite (fun _ => .done rfl) fun _ =>
      (Builds.expect TokenKind.noConfusion).skip fun _ => hseparators.skip fun _ => .done rfl)
  exact fun o p hp =>
    (hpaths o p hp).imp (fun _ _ hq => hq.keep (List.nil_sublist _)) fun _ hq => hq

theorem builds_importStmt : Builds source [] importStmt (Piece.of .stmt) := by
  refine (Builds.expect TokenKind.noConfusion).bind fun _ => .eat TokenKind.noConfusion fun _ => ?_
  refine .ite (fun _ => ?_) fun _ => ?_
  · refine builds_importPaths.skip fun _ => (Builds.expect TokenKind.noConfusion).bind fun _ => ?_
    refine .eat TokenKind.noConfusion fun _ => ?_
    exact .node rfl rfl List.getLast?_concat rfl trivial nofun
  · refine (Builds.expect TokenKind.noConfusion).bind fun _ =>
      .eat TokenKind.noConfusion fun _ => ?_
    exact .node rfl rfl List.getLast?_concat rfl trivial nofun

section

variable {expr : Precedence → Parse Expr} {stmt : Parse Stmt}
  (hexpr : ∀ least, Builds source [] (expr least) (Piece.of .expr))
  (hstmt : Builds source [] stmt (Piece.of .stmt))

include hstmt in
theorem builds_block : Builds source [] (block stmt) (Piece.of .block) := builds_blockOf hstmt

/-- The last of the optional parts that are there. -/
theorem lastPart_spec (l : List Piece) (name : Ident) (type? : Option TypeExpr)
    (value? : Option Expr) :
    ∃ z, (l ++ Piece.of .ident name ++ type?.toList.flatMap (Piece.of .type) ++
      value?.toList.flatMap (Piece.of .expr)).getLast? = some z ∧
        z.span = lastPart name type? value? := by
  cases value? with
  | some v => exact ⟨.node (.expr v), List.getLast?_concat, rfl⟩
  | none =>
    rw [Option.toList_none, List.flatMap_nil, List.append_nil]
    cases type? with
    | some t => exact ⟨.node (.type t), List.getLast?_concat, rfl⟩
    | none => exact ⟨.node (.ident name), by simp [Piece.of], rfl⟩

include hexpr hstmt in
theorem builds_varStmt : Builds source [] (varStmt expr stmt) (Piece.of .stmt) := by
  refine (Builds.expect TokenKind.noConfusion).bind fun _ => Builds.ident.bind fun name => ?_
  refine builds_optionalType.bind fun type? => .eat TokenKind.noConfusion fun _ => ?_
  refine ((builds_value hexpr hstmt).optional _).bind fun value? => ?_
  obtain ⟨z, hlast, hz⟩ := lastPart_spec _ name type? value?
  exact .node rfl rfl hlast (by rw [hz]; rfl) trivial (by simp [Node.children, Stmt.parts])

include hexpr hstmt in
theorem builds_constStmt : Builds source [] (constStmt expr stmt) (Piece.of .stmt) := by
  refine (Builds.expect TokenKind.noConfusion).bind fun _ => Builds.ident.bind fun name => ?_
  refine builds_optionalType.bind fun type? =>
    (Builds.expect TokenKind.noConfusion).skip fun _ => ?_
  refine (builds_value hexpr hstmt).bind fun value => .eat TokenKind.noConfusion fun _ => ?_
  exact .node rfl rfl List.getLast?_concat rfl trivial (by simp [Node.children, Stmt.parts])

include hstmt in
theorem builds_functionDecl (mods : Modifiers) :
    Builds source [] (functionDecl stmt mods) (Piece.of .function) := by
  refine (Builds.expect TokenKind.noConfusion).bind fun _ => Builds.ident.bind fun name => ?_
  refine builds_parameters.bind fun params => builds_optionalType.bind fun ret? => ?_
  refine (builds_block hstmt).bind fun body => ?_
  exact .node rfl rfl List.getLast?_concat rfl trivial (by simp [Node.children])

include hstmt in
theorem builds_methodDecl : Builds source [] (methodDecl stmt) (Piece.of .method) := by
  refine (Builds.expect TokenKind.noConfusion).bind fun _ => ?_
  refine (Builds.expect TokenKind.noConfusion).skip fun _ =>
    builds_parameter.bind fun receiver => ?_
  refine (Builds.expect TokenKind.noConfusion).skip fun _ => Builds.ident.bind fun name => ?_
  refine builds_parameters.bind fun params => builds_optionalType.bind fun ret? => ?_
  refine (builds_block hstmt).bind fun body => ?_
  exact .node rfl rfl List.getLast?_concat rfl trivial (by simp [Node.children])

/-! ## Classes, interfaces and templates -/

omit hexpr hstmt in
/-- Modifiers start with the current token, if there are any. -/
theorem runs_modifiers (ho : o.Laid source) : Runs (Made source o []) modifiers o fun _ p =>
    p = o ∨ Made source o [.token o.current.span] p := by
  refine (Builds.started (fun o ho => ?_) ho).bind fun _ _ hp => .pure hp
  have hstop : Runs (Made source o []) (pure Round.stop) o fun (r : Round Keyword) p =>
      (r = .stop ∧ p = o) ∨ Made source o [.token o.current.span] p := .pure (.inl ⟨rfl, rfl⟩)
  refine .look rfl ?_
  split
  next hkind =>
    refine .ite (fun _ => Runs.advance.bind ?_) fun _ => hstop
    rintro _ _ ⟨-, rfl⟩
    exact .pure (.inr (.token ho (by rw [hkind]; exact TokenKind.noConfusion)))
  next => exact hstop

include hexpr hstmt in
theorem builds_fieldDecl (start : Span) (mods : Modifiers)
    (hp : Made source o [.token start] p.advanced) :
    BuildsAt source o p (fieldDecl expr stmt start mods) (Piece.of .field) := by
  refine Runs.advance.bind ?_
  rintro _ _ ⟨rfl, rfl⟩
  refine Builds.at_ (Builds.ident.bind fun name => builds_optionalType.bind fun type? => ?_) hp
  have hend : ∀ value?, Builds source ([.token start] ++ Piece.of .ident name ++
      type?.toList.flatMap (Piece.of .type) ++ value?.toList.flatMap (Piece.of .expr)) (do
        let _ ← eat Mark.semicolon
        return (⟨name, type?, value?, p.current.kind == Keyword.constKw, mods,
          start.upTo (lastPart name type? value?)⟩ : Field)) (Piece.of .field) := by
    intro value?
    obtain ⟨z, hlast, hz⟩ := lastPart_spec [.token start] name type? value?
    refine .eat TokenKind.noConfusion fun _ => ?_
    exact .node rfl rfl hlast (by rw [hz]; rfl) trivial (by simp [Node.children])
  refine .ite (fun _ => ?_) fun _ => .eat TokenKind.noConfusion fun _ => ?_
  · refine (Builds.expect TokenKind.noConfusion).skip fun _ => ?_
    have hvalue : Builds source [] (some <$> value expr stmt) fun value? =>
        value?.toList.flatMap (Piece.of .expr) := (builds_value hexpr hstmt).map fun _ _ _ hq => hq
    exact hvalue.bind fun value? => hend value?
  · exact ((builds_value hexpr hstmt).optional _).bind hend

include hexpr hstmt in
theorem builds_member : Builds source [] (member expr stmt) (Piece.of .ofMember) := by
  have hat : ∀ {o : Parser}, o.Laid source →
      BuildsAt source o o (member expr stmt) (Piece.of .ofMember) := by
    intro o ho
    refine Runs.look rfl ((runs_modifiers ho).bind fun mods p hp => .look rfl ?_)
    -- behind the modifiers and one more token, the first of these has been passed
    have hfield : p.kind ≠ .eof → Made source o [.token o.current.span] p.advanced := fun hne => by
      rcases hp with rfl | hp
      · exact .token ho hne
      · exact hp.skip (.token hp.laid hne)
    have hfrom : Made source o [] p := by
      rcases hp with rfl | hp
      · exact .refl ho
      · exact hp.keep (List.nil_sublist _)
    split
    next =>
      exact Builds.at_ ((builds_functionDecl hstmt mods).map fun _ _ _ hq => hq) hfrom
    next hkind =>
      have hne : p.kind ≠ .eof := by rw [hkind]; exact TokenKind.noConfusion
      exact Runs.map (builds_fieldDecl hexpr hstmt _ mods (hfield hne))
    next hkind =>
      have hne : p.kind ≠ .eof := by rw [hkind]; exact TokenKind.noConfusion
      exact Runs.map (builds_fieldDecl hexpr hstmt _ mods (hfield hne))
    next => exact Builds.unexpected _ none o p hfrom
  exact fun o p hp => (hat hp.laid).from_ hp

include hexpr hstmt in
theorem builds_classDecl : Builds source [] (classDecl expr stmt) (Piece.of .class_) := by
  have hround : Builds source [] (do
      if ← checkAny [Mark.rBrace, .eof] then return .stop
      if ← eat Mark.semicolon then return .skip
      return .item (← member expr stmt)) (Round.pieces (Piece.of .ofMember)) :=
    .look (fun _ => rfl) fun _ => .ite (fun _ => .done rfl) fun _ => .eat TokenKind.noConfusion
      fun _ => .ite (fun _ => .done rfl) fun _ =>
        (builds_member hexpr hstmt).bind fun _ => .done rfl
  refine (Builds.expect TokenKind.noConfusion).bind fun start => Builds.ident.bind fun name => ?_
  refine .eat TokenKind.noConfusion fun _ => (Builds.ident.optional _).bind fun extends? => ?_
  have hbody : ∀ implements, Builds source ([.token start.span] ++ Piece.of .ident name ++
      extends?.toList.flatMap (Piece.of .ident) ++ implements.flatMap (Piece.of .ident)) (do
        let _ ← expect Mark.lBrace
        let members ← collect do
          if ← checkAny [Mark.rBrace, .eof] then return .stop
          if ← eat Mark.semicolon then return .skip
          return .item (← member expr stmt)
        let stop ← expect Mark.rBrace
        return (⟨name, extends?, implements, members, start.span.upTo stop.span⟩ : Class))
      (Piece.of .class_) := by
    intro implements
    refine (Builds.expect TokenKind.noConfusion).skip fun _ =>
      (Builds.collect hround).bind fun _ => ?_
    refine (Builds.expect TokenKind.noConfusion).bind fun _ => ?_
    exact .node rfl rfl List.getLast?_concat rfl trivial (by simp [Node.children])
  refine .eat TokenKind.noConfusion fun _ => .ite (fun _ => ?_) fun _ => ?_
  · exact Builds.ident.commaSeparated.bind hbody
  · have hnone : Builds source [] (pure []) fun is => is.flatMap (Piece.of .ident) := .done rfl
    exact hnone.bind hbody

omit hexpr hstmt

/-- The parameters of a method without a result type stand behind its span. -/
theorem Made.interfaceMethod {l : List Piece} {x : Piece} {m : InterfaceMethod} {q : Parser}
    (h : Made source o (l ++ Piece.of .ident m.name ++ m.params.flatMap (Piece.of .param)) q)
    (hhead : (l ++ Piece.of .ident m.name).head? = some x) (hret : m.ret? = none)
    (hspan : m.span = x.span.upTo m.name.span) : Made source o (Piece.of .interfaceMethod m) q := by
  have hx : x ∈ l ++ Piece.of .ident m.name := List.mem_of_head? hhead
  have hname : Piece.node (.ident m.name) ∈ l ++ Piece.of .ident m.name :=
    List.mem_append_right l List.mem_cons_self
  have hspan' : (Node.interfaceMethod m).span = x.span.upTo m.name.span := hspan
  have hfront := h.keep (List.sublist_append_left _ _)
  have hbounds := (hfront.chain.mem hfront.lt).2
  refine h.enclose (n := .interfaceMethod m) trivial ?_ ?_ ?_ ?_ fun c hc hspares => ?_
  · exact hspan' ▸ (hfront.placed x hx).upTo (hfront.placed _ hname)
  · exact hspan' ▸ (hbounds x hx).1
  · exact hspan' ▸ Nat.max_le.2 ⟨(hbounds _ hname).2, (hbounds x hx).2⟩
  · simp [Node.children, hret]
  · have hc : c = .ident m.name := by
      simp only [Node.children, hret, Option.toList_none, List.map_nil, List.append_nil,
        List.mem_cons, List.mem_map] at hc
      rcases hc with rfl | ⟨p, -, rfl⟩
      · rfl
      · exact absurd hret hspares
    subst hc
    show Span.Inside m.name.span m.span
    rw [hspan]
    exact ⟨hfront.chain.head_le hfront.lt hhead _ hname, Nat.le_max_left _ _⟩

/-- An interface method from its name on, with a span that starts where the first piece does. -/
theorem builds_namedMethod {l : List Piece} {x : Piece} {start : Span} {name : Ident}
    (hhead : (l ++ Piece.of .ident name).head? = some x) (hx : x.span = start) :
    Builds source (l ++ Piece.of .ident name) (do
      let params ← parameters
      let ret? ← optionalType
      let stop := match ret? with
        | some t => t.span
        | none => name.span
      return (⟨name, params, ret?, start.upTo stop⟩ : InterfaceMethod))
      (Piece.of .interfaceMethod) := by
  subst hx
  refine builds_parameters.bind fun params => builds_optionalType.bind fun ret? => ?_
  cases ret? with
  | none =>
    refine .pure fun o q hq => ?_
    exact Made.interfaceMethod (m := ⟨name, params, none, _⟩) (by simpa using hq) hhead rfl rfl
  | some t =>
    refine .node rfl (y := x) ?_ List.getLast?_concat rfl trivial (by simp [Node.children])
    simp only [List.head?_append, hhead, Option.some_or]

theorem builds_interfaceMethod : Builds source [] interfaceMethod (Piece.of .interfaceMethod) := by
  have hat : ∀ {o : Parser}, o.Laid source →
      BuildsAt source o o interfaceMethod (Piece.of .interfaceMethod) := by
    intro o ho
    refine Runs.look rfl (Runs.eat.bind fun b p hp => ?_)
    cases b with
    | true =>
      obtain ⟨hkind, rfl⟩ : o.kind = Keyword.funcKw ∧ p = o.advanced := by simpa using hp
      have hfunc := Made.token ho (by rw [hkind]; exact TokenKind.noConfusion)
      refine Builds.at_ (Builds.ident.bind fun name => ?_) hfunc
      exact builds_namedMethod rfl rfl
    | false =>
      obtain rfl : p = o := by simpa using hp
      have hspan : Runs (fun _ => True) ident p fun name _ => name.span = p.current.span :=
        (Runs.expect trivial).bind fun _ _ ht => .pure (ht.2.1 ▸ rfl)
      refine ((Builds.ident p p (.refl ho)).and hspan).bind fun name q hq => ?_
      exact Builds.at_ (builds_namedMethod (l := []) (x := .node (.ident name)) rfl hq.2) hq.1
  exact fun o p hp => (hat hp.laid).from_ hp

theorem builds_interfaceStmt : Builds source [] interfaceStmt (Piece.of .stmt) := by
  have hround : Builds source [] (do
      if ← checkAny [Mark.rBrace, .eof] then return .stop
      if ← eat Mark.semicolon then return .skip
      return .item (← interfaceMethod)) (Round.pieces (Piece.of .interfaceMethod)) :=
    .look (fun _ => rfl) fun _ => .ite (fun _ => .done rfl) fun _ => .eat TokenKind.noConfusion
      fun _ => .ite (fun _ => .done rfl) fun _ => builds_interfaceMethod.bind fun _ => .done rfl
  refine (Builds.expect TokenKind.noConfusion).bind fun _ => Builds.ident.bind fun name => ?_
  refine (Builds.expect TokenKind.noConfusion).skip fun _ =>
    (Builds.collect hround).bind fun _ => ?_
  refine (Builds.expect TokenKind.noConfusion).bind fun _ => ?_
  exact .node rfl rfl List.getLast?_concat rfl trivial (by simp [Node.children, Stmt.parts])

include hexpr hstmt

theorem builds_templateBody (start : Span) {params : List Ident} (hparams : params ≠ []) :
    Builds source ([.token start] ++ params.flatMap (Piece.of .ident)) (do
      let body ← match ← currentKind with
        | .keyword .funcKw => Stmt.function <$> functionDecl stmt {}
        | .keyword .classKw => Stmt.class_ <$> classDecl expr stmt
        | _ => unexpected [Keyword.funcKw, Keyword.classKw] none
      return Stmt.template params body (start.upTo body.span)) (Piece.of .stmt) := by
  have hend : ∀ body : Stmt, body.isTemplateBody ∧ body.templateName?.isSome →
      Builds source ([.token start] ++ params.flatMap (Piece.of .ident) ++ Piece.of .stmt body)
        (pure (Stmt.template params body (start.upTo body.span))) (Piece.of .stmt) :=
      fun body hbody =>
    .node rfl rfl List.getLast?_concat rfl ⟨hparams, hbody⟩ (by simp [Node.children, Stmt.parts])
  refine .look (fun _ => rfl) fun k => ?_
  dsimp only
  split
  · refine .bind_of
      ((builds_functionDecl hstmt {}).stmt (fun _ => rfl) (fun _ => trivial) fun _ => rfl)
      (.map fun _ => ⟨rfl, rfl⟩) hend
  · refine .bind_of
      ((builds_classDecl hexpr hstmt).stmt (fun _ => rfl) (fun _ => trivial) fun _ => rfl)
      (.map fun _ => ⟨rfl, rfl⟩) hend
  · exact .bind_of (.unexpected _ none) (.unexpected _ none) hend

theorem builds_templateStmt : Builds source [] (templateStmt expr stmt) (Piece.of .stmt) := by
  refine (Builds.expect TokenKind.noConfusion).bind fun start => ?_
  refine (Builds.expect TokenKind.noConfusion).skip fun _ => ?_
  refine Builds.ident.commaSeparated.bind_of returns_commaSeparated fun params hparams => ?_
  refine Builds.closingAngle.skip fun _ => .look (fun _ => rfl) fun _ => ?_
  have hbody := builds_templateBody hexpr hstmt start.span hparams
  exact .ite (fun _ => (Builds.registerTemplate _).skip fun _ => hbody) fun _ => hbody

/-! ## Control flow -/

theorem builds_returnStmt : Builds source [] (returnStmt expr stmt) (Piece.of .stmt) := by
  refine (Builds.expect TokenKind.noConfusion).bind fun _ => .look (fun _ => rfl) fun _ => ?_
  refine ((builds_value hexpr hstmt).optional _).bind fun value? =>
    .eat TokenKind.noConfusion fun _ => ?_
  cases value? with
  | none => exact .node rfl rfl rfl (Span.upTo_self _).symm trivial nofun
  | some v =>
    exact .node rfl rfl List.getLast?_concat rfl trivial (by simp [Node.children, Stmt.parts])

theorem builds_throwStmt : Builds source [] (throwStmt expr stmt) (Piece.of .stmt) := by
  refine (Builds.expect TokenKind.noConfusion).bind fun _ => ?_
  refine (builds_value hexpr hstmt).bind fun v => .eat TokenKind.noConfusion fun _ => ?_
  exact .node rfl rfl List.getLast?_concat rfl trivial (by simp [Node.children, Stmt.parts])

theorem builds_simpleStmt : Builds source [] (simpleStmt expr stmt) (Piece.of .stmt) :=
  .look (fun _ => rfl) fun _ => .ite (fun _ => builds_varStmt hexpr hstmt) fun _ =>
    (builds_value hexpr hstmt).stmt (fun _ => rfl) (fun _ => trivial) fun _ => rfl

omit hexpr hstmt in
theorem returns_simpleStmt : Returns (simpleStmt expr stmt) (·.isClause) :=
  .bind fun _ => .ite (.bind fun _ => .bind fun _ => .bind fun _ => .bind fun _ => .bind fun _ =>
    .pure rfl) (.map fun _ => rfl)

/-- Behind `else` stands a block or another `if`, as long as statements that start with `if` are
such. -/
theorem builds_ifStmt (hif : ∀ p : Parser, p.kind = Keyword.ifKw →
      Runs (fun _ => True) stmt p fun s _ => s.isAlternative) :
    Builds source [] (ifStmt expr stmt) (Piece.of .stmt) := by
  have helse : Builds source []
      (do if ← check Keyword.ifKw then stmt else Stmt.block <$> block stmt)
      (Piece.of .stmt) :=
    .look (fun _ => rfl) fun _ => .ite (fun _ => hstmt) fun _ =>
      (builds_block hstmt).stmt (fun _ => rfl) (fun _ => trivial) fun _ => rfl
  have hblock : Returns (Stmt.block <$> block stmt) (·.isAlternative) := .map fun _ => rfl
  have hreturns : Returns (do if ← check Keyword.ifKw then stmt else Stmt.block <$> block stmt)
      (·.isAlternative) := fun p =>
    .look rfl (.ite (fun hkind => hif p (eq_of_beq hkind)) fun _ => hblock p)
  refine (Builds.expect TokenKind.noConfusion).bind fun _ => ?_
  refine (builds_value hexpr hstmt).bind fun condition => ?_
  refine (builds_block hstmt).bind fun consequence => .eat TokenKind.noConfusion fun _ => ?_
  refine (helse.optional _).bind_of (hreturns.optional _) fun alternative? hshaped => ?_
  cases alternative? with
  | none =>
    exact .node rfl rfl rfl rfl hshaped (by simp [Node.children, Stmt.parts])
  | some s =>
    exact .node rfl rfl List.getLast?_concat rfl hshaped (by simp [Node.children, Stmt.parts])

/-- The pieces of the clauses of a `for`. -/
def clausePieces (clauses : Option Stmt × Option Expr × Option Stmt) : List Piece :=
  clauses.1.toList.flatMap (Piece.of .stmt) ++ clauses.2.1.toList.flatMap (Piece.of .expr) ++
    clauses.2.2.toList.flatMap (Piece.of .stmt)

theorem builds_forClauses : Builds source [] (forClauses expr stmt) clausePieces := by
  have hsimple := builds_simpleStmt hexpr hstmt
  refine .look (fun _ => rfl) fun _ => .ite (fun _ => .done rfl) fun _ => ?_
  refine .look (fun _ => rfl) fun _ => (hsimple.optional _).bind fun first? => ?_
  refine .eat TokenKind.noConfusion fun _ => .ite (fun _ => ?_) fun _ => ?_
  · refine .look (fun _ => rfl) fun _ => ((builds_value hexpr hstmt).optional _).bind fun _ => ?_
    refine (Builds.expect TokenKind.noConfusion).skip fun _ => .look (fun _ => rfl) fun _ => ?_
    exact (hsimple.optional _).bind fun _ => .done rfl
  · split
    · exact .pure fun _ _ hq => hq.unwrap rfl rfl
    · exact .unexpected _ none

omit hexpr hstmt in
theorem returns_forClauses : Returns (forClauses expr stmt) fun clauses =>
    (∀ s ∈ clauses.1, s.isClause) ∧ ∀ s ∈ clauses.2.2, s.isClause := by
  have hsimple : Returns (simpleStmt expr stmt) (·.isClause) := returns_simpleStmt
  refine .bind fun _ => .ite (.pure ⟨nofun, nofun⟩) (.bind fun _ => ?_)
  refine (hsimple.optional _).andThen fun first? hfirst => .bind fun _ => .ite ?_ ?_
  · refine .bind fun _ => .bind fun _ => .bind fun _ => .bind fun _ => ?_
    exact (hsimple.optional _).andThen fun post? hpost => .pure ⟨hfirst, hpost⟩
  · split
    · exact .pure ⟨nofun, nofun⟩
    · exact .unexpected _ none

theorem builds_forStmt : Builds source [] (forStmt expr stmt) (Piece.of .stmt) := by
  refine (Builds.expect TokenKind.noConfusion).bind fun _ => ?_
  refine (builds_forClauses hexpr hstmt).bind_of returns_forClauses fun ⟨_, _, _⟩ hclauses => ?_
  refine (builds_block hstmt).bind fun body => ?_
  exact .node rfl rfl List.getLast?_concat rfl hclauses
    (by simp [Node.children, Stmt.parts, clausePieces])

theorem builds_whileStmt : Builds source [] (whileStmt expr stmt) (Piece.of .stmt) := by
  refine (Builds.expect TokenKind.noConfusion).bind fun _ => ?_
  refine (builds_value hexpr hstmt).bind fun condition => (builds_block hstmt).bind fun body => ?_
  exact .node rfl rfl List.getLast?_concat rfl trivial (by simp [Node.children, Stmt.parts])

omit hexpr in
/-- The body of a case starts with the colon in front of it. -/
theorem builds_caseBody (start : Span) :
    Builds source [.token start] (caseBody stmt start) (Piece.of .block) := by
  have hround : Builds source [] (do
      if ← checkAny [Keyword.caseKw, Keyword.defaultKw, Mark.rBrace, .eof] then return .stop
      if ← eat Mark.semicolon then return .skip
      return .item (← stmt)) (Round.pieces (Piece.of .stmt)) :=
    .look (fun _ => rfl) fun _ => .ite (fun _ => .done rfl) fun _ => .eat TokenKind.noConfusion
      fun _ => .ite (fun _ => .done rfl) fun _ => hstmt.bind fun _ => .done rfl
  refine (Builds.collect hround).bind fun stmts => ?_
  rcases List.eq_nil_or_concat stmts with rfl | ⟨init, final, rfl⟩
  · exact .node rfl rfl rfl rfl trivial nofun
  · rw [List.concat_eq_append]
    refine .node rfl rfl (Piece.getLast?_flatMap_of ..) ?_ trivial (by simp [Node.children])
    rw [List.getLast?_concat]
    rfl

/-- The pieces of an arm of a switch. -/
def armPieces : Case ⊕ Block → List Piece
  | .inl c => Piece.of .case_ c
  | .inr b => Piece.of .block b

theorem builds_switchArm : Builds source [] (switchArm expr stmt) armPieces := by
  intro o p hp
  refine .look rfl ?_
  split
  next hkind =>
    refine BuildsAt.advance hp hkind TokenKind.noConfusion ?_
    refine (builds_expressionListOf hexpr _).bind fun values => ?_
    refine .bind₂ (Builds.expect TokenKind.noConfusion) (fun colon => builds_caseBody hstmt _)
      fun _ body => ?_
    exact .node rfl rfl List.getLast?_concat rfl trivial (by simp [Node.children])
  next hkind =>
    refine BuildsAt.pass hp hkind TokenKind.noConfusion
      ((Builds.expect TokenKind.noConfusion).bind fun _ => ?_)
    exact (builds_caseBody hstmt _).map fun _ _ _ hq => hq
  next => exact Builds.unexpected _ none o p hp

omit hexpr hstmt in
/-- The last default and all cases are among the arms. -/
theorem nodes_arms (arms : List (Case ⊕ Block)) :
    (arms.filterMap Sum.getLeft?).map .case_ ++
      (arms.filterMap Sum.getRight?).getLast?.toList.map .block ⊆
        Piece.nodes (arms.flatMap armPieces) := by
  have harm : ∀ arm ∈ arms, Piece.nodes (armPieces arm) ⊆ Piece.nodes (arms.flatMap armPieces) := by
    intro arm harm n hn
    rw [Piece.nodes_flatMap]
    exact List.mem_flatMap.2 ⟨arm, harm, hn⟩
  intro n hn
  rcases List.mem_append.1 hn with hn | hn
  · obtain ⟨c, hc, rfl⟩ := List.mem_map.1 hn
    obtain ⟨arm, hmem, hleft⟩ := List.mem_filterMap.1 hc
    obtain rfl := Sum.getLeft?_eq_some_iff.1 hleft
    exact harm _ hmem List.mem_cons_self
  · obtain ⟨b, hb, rfl⟩ := List.mem_map.1 hn
    obtain ⟨arm, hmem, hright⟩ :=
      List.mem_filterMap.1 (List.mem_of_getLast? (Option.mem_toList.1 hb))
    obtain rfl := Sum.getRight?_eq_some_iff.1 hright
    exact harm _ hmem List.mem_cons_self

theorem builds_switchStmt : Builds source [] (switchStmt expr stmt) (Piece.of .stmt) := by
  have hround : Builds source [] (do
      if ← check Mark.rBrace then return .stop
      return .item (← switchArm expr stmt)) (Round.pieces armPieces) :=
    .look (fun _ => rfl) fun _ => .ite (fun _ => .done rfl) fun _ =>
      (builds_switchArm hexpr hstmt).bind fun _ => .done rfl
  refine (Builds.expect TokenKind.noConfusion).bind fun _ => .look (fun _ => rfl) fun _ => ?_
  refine ((builds_value hexpr hstmt).optional _).bind fun tag? => ?_
  refine (Builds.expect TokenKind.noConfusion).skip fun _ =>
    (Builds.collect hround).bind fun arms => ?_
  refine (Builds.expect TokenKind.noConfusion).bind fun _ => ?_
  refine .node rfl rfl List.getLast?_concat rfl trivial ?_
  simp only [Node.children, Stmt.parts, Piece.nodes_append, Piece.nodes_flatMap_of,
    List.append_assoc, List.nil_append, Piece.nodes_token, Piece.nodes_nil, List.append_nil]
  intro n hn
  rcases List.mem_append.1 hn with hn | hn
  · exact List.mem_append_left _ hn
  · exact List.mem_append_right _ (nodes_arms arms hn)

omit hexpr in
theorem builds_catchClause (hp : Made source o [] p) (hkind : p.kind = Keyword.catchKw) :
    BuildsAt source o p (catchClause stmt) (Piece.of .catch_) := by
  refine BuildsAt.advance hp hkind TokenKind.noConfusion (.eat TokenKind.noConfusion fun _ => ?_)
  refine .ite (fun _ => ?_) fun _ => (builds_block hstmt).bind fun body => ?_
  · refine Builds.ident.bind fun name => builds_optionalType.bind fun type? => ?_
    refine (Builds.expect TokenKind.noConfusion).skip fun _ =>
      (builds_block hstmt).bind fun body => ?_
    exact .node rfl rfl List.getLast?_concat rfl trivial (by simp [Node.children])
  · exact .node rfl rfl List.getLast?_concat rfl trivial (by simp [Node.children])

omit hexpr in
theorem builds_tryStmt : Builds source [] (tryStmt stmt) (Piece.of .stmt) := by
  have hround : Builds source [] (do
      if ← check Keyword.catchKw then return Round.item (← catchClause stmt) else return .stop)
      (Round.pieces (Piece.of .catch_)) := by
    refine fun o p hp => Runs.look rfl (.ite (fun hkind => ?_) fun _ => Builds.done rfl o p hp)
    exact (builds_catchClause hstmt hp (eq_of_beq hkind)).bind fun _ _ hq => .pure hq
  refine (Builds.expect TokenKind.noConfusion).bind fun _ =>
    (builds_block hstmt).bind fun body => ?_
  refine (Builds.collect hround).bind fun catches => ?_
  rcases List.eq_nil_or_concat catches with rfl | ⟨init, final, rfl⟩
  · exact .unexpected _ _
  simp only [List.concat_eq_append, List.getLast?_concat]
  refine .eat TokenKind.noConfusion fun _ =>
    ((builds_block hstmt).optional _).bind fun finally? => ?_
  have hne : init ++ [final] ≠ [] := by simp
  cases finally? with
  | none =>
    rw [Option.toList_none, List.flatMap_nil, List.append_nil]
    exact .node rfl rfl (Piece.getLast?_flatMap_of ..) rfl hne
      (by simp [Node.children, Stmt.parts])
  | some b =>
    exact .node rfl rfl List.getLast?_concat rfl hne (by simp [Node.children, Stmt.parts])

/-! ## Any statement -/

theorem builds_statementStep
    (hif : ∀ p : Parser, p.kind = Keyword.ifKw →
      Runs (fun _ => True) stmt p fun s _ => s.isAlternative) :
    Builds source [] (statementStep expr stmt) (Piece.of .stmt) := by
  intro o p hp
  refine .look rfl ?_
  split
  next => exact builds_packageStmt o p hp
  next => exact builds_importStmt o p hp
  next =>
    refine Builds.at_ ((builds_varStmt hexpr hstmt).bind fun s => ?_) hp
    exact .eat TokenKind.noConfusion fun _ => .done rfl
  next => exact builds_constStmt hexpr hstmt o p hp
  next => exact builds_returnStmt hexpr hstmt o p hp
  next => exact builds_ifStmt hexpr hstmt hif o p hp
  next => exact builds_forStmt hexpr hstmt o p hp
  next => exact builds_whileStmt hexpr hstmt o p hp
  next => exact builds_switchStmt hexpr hstmt o p hp
  next hkind =>
    refine BuildsAt.advance hp hkind TokenKind.noConfusion (.eat TokenKind.noConfusion fun _ => ?_)
    exact .node rfl rfl rfl (Span.upTo_self _).symm trivial nofun
  next hkind =>
    refine BuildsAt.advance hp hkind TokenKind.noConfusion (.eat TokenKind.noConfusion fun _ => ?_)
    exact .node rfl rfl rfl (Span.upTo_self _).symm trivial nofun
  next =>
    refine .ite (fun _ => ?_) fun _ => ?_
    · exact Builds.at_
        (.stmt (builds_methodDecl hstmt) (fun _ => rfl) (fun _ => trivial) fun _ => rfl) hp
    · exact Builds.at_
        (.stmt (builds_functionDecl hstmt {}) (fun _ => rfl) (fun _ => trivial) fun _ => rfl) hp
  next =>
    exact Builds.at_
      (.stmt (builds_classDecl hexpr hstmt) (fun _ => rfl) (fun _ => trivial) fun _ => rfl) hp
  next => exact builds_interfaceStmt o p hp
  next => exact builds_templateStmt hexpr hstmt o p hp
  next => exact builds_tryStmt hstmt o p hp
  next => exact builds_throwStmt hexpr hstmt o p hp
  next hkind =>
    refine BuildsAt.advance hp hkind TokenKind.noConfusion
      ((builds_block hstmt).bind fun body => ?_)
    exact .node rfl rfl List.getLast?_concat rfl trivial (by simp [Node.children, Stmt.parts])
  next =>
    exact Builds.at_ (.stmt (builds_block hstmt) (fun _ => rfl) (fun _ => trivial) fun _ => rfl) hp
  next =>
    refine Builds.at_ ((builds_value hexpr hstmt).bind fun e => ?_) hp
    refine .eat TokenKind.noConfusion fun _ => ?_
    exact .wrap rfl rfl rfl trivial rfl

end

end ClassLang.Parse
