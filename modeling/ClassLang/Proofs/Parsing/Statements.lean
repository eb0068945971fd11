import ClassLang.Proofs.Parsing.Readers

/-!
# Statements consume

The readers of statements and declarations, and with them the knot of the grammar: as much fuel as
there are tokens is enough for any nesting of expressions and statements. A statement that starts
with one of the keywords at which recovery stops consumes it before it can fail.
-/

namespace ClassLang.Parse

variable {α : Type} {stop n : Nat} {o : Parser}

theorem Turns.done : Turns n (pure .stop : Parse (Round α)) :=
  fun _ o _ _ => .pure ⟨.refl o, fun h => nomatch h⟩

/-! ## Declarations -/

theorem opens_packageStmt : Opens n Keyword.packageKw packageStmt :=
  ⟨TokenKind.noConfusion, _, rfl, fun _ => within_ident.bind fun _ =>
    (Within.eat TokenKind.noConfusion).bind fun _ => .pure _⟩

theorem within_importPaths : Within n importPaths := by
  have hseparators : Within n (collect do
      if ← eat Mark.comma then return .skip
      if ← eat Mark.semicolon then return .skip
      return .stop : Parse (List Unit)) :=
    .collect (.skip TokenKind.noConfusion (.skip TokenKind.noConfusion .done))
  have hround : Reads n (do
      let path ← expect .string
      let _ : List Unit ← collect do
        if ← eat Mark.comma then return .skip
        if ← eat Mark.semicolon then return .skip
        return .stop
      return Round.item path.literal) :=
    (Reads.expect TokenKind.noConfusion).followed fun _ => hseparators.bind fun _ => .pure _
  exact .collect (.check _ hround.turns)

theorem opens_importStmt : Opens n Keyword.importKw importStmt := by
  refine ⟨TokenKind.noConfusion, _, rfl, fun _ => ?_⟩
  refine (Within.eat TokenKind.noConfusion).bind fun _ => .ite ?_ ?_
  · exact within_importPaths.bind fun _ => (Within.expect TokenKind.noConfusion).bind fun _ =>
      (Within.eat TokenKind.noConfusion).bind fun _ => .pure _
  · exact (Within.expect TokenKind.noConfusion).bind fun _ =>
      (Within.eat TokenKind.noConfusion).bind fun _ => .pure _

section

variable {expr : Precedence → Parse Expr} {stmt : Parse Stmt} (hexpr : ∀ least, Reads n (expr least))
  (hstmt : Reads n stmt)

include hstmt in
theorem within_block : Within n (block stmt) := (opens_blockOf hstmt).within

include hexpr hstmt in
theorem opens_varStmt : Opens n Keyword.varKw (varStmt expr stmt) :=
  ⟨TokenKind.noConfusion, _, rfl, fun _ => within_ident.bind fun _ => within_optionalType.bind
    fun _ => (Within.eat TokenKind.noConfusion).bind fun _ =>
      ((within_value hexpr hstmt).optional _).bind fun _ => .pure _⟩

include hexpr hstmt in
theorem opens_constStmt : Opens n Keyword.constKw (constStmt expr stmt) :=
  ⟨TokenKind.noConfusion, _, rfl, fun _ => within_ident.bind fun _ => within_optionalType.bind
    fun _ => (Within.expect TokenKind.noConfusion).bind fun _ => (within_value hexpr hstmt).bind
      fun _ => (Within.eat TokenKind.noConfusion).bind fun _ => .pure _⟩

include hstmt in
theorem opens_functionDecl (mods : Modifiers) : Opens n Keyword.funcKw (functionDecl stmt mods) :=
  ⟨TokenKind.noConfusion, _, rfl, fun _ => within_ident.bind fun _ => opens_parameters.within.bind
    fun _ => within_optionalType.bind fun _ => (within_block hstmt).bind fun _ => .pure _⟩

include hstmt in
theorem opens_methodDecl : Opens n Keyword.funcKw (methodDecl stmt) :=
  ⟨TokenKind.noConfusion, _, rfl, fun _ => (Within.expect TokenKind.noConfusion).bind fun _ =>
    (Within.of_reads (reads_parameter.mono (Nat.le_succ n))).bind fun _ =>
      (Within.expect TokenKind.noConfusion).bind fun _ => within_ident.bind fun _ =>
        opens_parameters.within.bind fun _ => within_optionalType.bind fun _ =>
          (within_block hstmt).bind fun _ => .pure _⟩

/-! ## Classes, interfaces and templates -/

omit hexpr hstmt in
/-- One member modifier. -/
theorem turns_modifier {n : Nat} : Turns n (do
    match ← currentKind with
    | .keyword k =>
      if k.isMemberModifier then
        let _ ← advance
        return Round.item k
      else return .stop
    | _ => return .stop) := by
  intro stop o ho _
  have hstop : Ends o o.offset (pure .stop : Parse (Round Keyword)) o fun r q =>
      o.Leads q ∧ (r.goesOn → o.Passes q) := .pure ⟨.refl o, by simp [Round.goesOn]⟩
  refine .look rfl ?_
  split
  next k hkind =>
    refine .ite (fun _ => ?_) fun _ => hstop
    refine (Ends.advance ho (Nat.le_refl _) hkind TokenKind.noConfusion fun _ => .pure _).late.mono ?_
    exact fun _ _ hq => ⟨hq.leads, fun _ => hq⟩
  next => exact hstop

theorem ends_modifiers (ho : o.Ordered stop) :
    Ends o o.offset modifiers o fun _ q => o.Leads q :=
  (turns_modifier.collect ho (Nat.lt_succ_self _)).bind fun _ _ hq => .pure hq

include hexpr hstmt

theorem ends_fieldDecl {k : TokenKind} (start : Span) (mods : Modifiers) (ho : o.Ordered stop)
    (hn : o.rest.length ≤ n) (hkind : o.kind = k) (hk : k ≠ .eof) :
    Ends o o.offset (fieldDecl expr stmt start mods) o fun _ q => o.Passes q := by
  have hvalue := within_value hexpr hstmt
  refine (Ends.advance ho hn hkind hk fun _ => ?_).late
  refine within_ident.bind fun _ => within_optionalType.bind fun _ => ?_
  refine .ite ?_ ?_
  · refine (Within.expect TokenKind.noConfusion).bind fun _ => hvalue.map.bind fun _ => ?_
    exact (Within.eat TokenKind.noConfusion).bind fun _ => .pure _
  · refine (Within.eat TokenKind.noConfusion).bind fun _ => (hvalue.optional _).bind fun _ => ?_
    exact (Within.eat TokenKind.noConfusion).bind fun _ => .pure _

theorem reads_member : Reads (n + 1) (member expr stmt) := by
  intro stop o ho hn
  refine .look rfl ((ends_modifiers ho).bind fun mods p hp => ?_)
  have hp' := hp.ordered stop ho
  have hle := hp.length_le.trans (Nat.le_of_lt_succ hn)
  -- what follows the modifiers is seen from in front of them
  have hfrom : ∀ {x : Parse Member}, Ends p p.offset x p (fun _ q => p.Passes q) →
      Ends o o.offset x p fun _ q => o.Passes q := fun h =>
    (h.from_ hp hp.offset_le).mono fun _ _ hq => hp.passes hq
  refine .look rfl ?_
  split
  next => exact hfrom ((opens_functionDecl hstmt mods).reads.map stop p hp' (Nat.lt_succ_of_le hle))
  next hkind =>
    exact hfrom (.map (ends_fieldDecl hexpr hstmt _ mods hp' hle hkind TokenKind.noConfusion))
  next hkind =>
    exact hfrom (.map (ends_fieldDecl hexpr hstmt _ mods hp' hle hkind TokenKind.noConfusion))
  next => exact .unexpected hp hp.offset_le _ none

theorem opens_classDecl : Opens n Keyword.classKw (classDecl expr stmt) := by
  have hround : Reads n (do return Round.item (← member expr stmt)) :=
    ((reads_member hexpr hstmt).mono (Nat.le_succ n)).followed fun _ => .pure _
  have hbody : ∀ build : List Member → Token → Class, Within n (do
      let _ ← expect Mark.lBrace
      let members ← collect do
        if ← checkAny [Mark.rBrace, .eof] then return .stop
        if ← eat Mark.semicolon then return .skip
        return .item (← member expr stmt)
      let stop ← expect Mark.rBrace
      return build members stop) := fun _ =>
    (Within.expect TokenKind.noConfusion).bind fun _ =>
      (Within.collect (.checkAny _ (.skip TokenKind.noConfusion hround.turns))).bind fun _ =>
        (Within.expect TokenKind.noConfusion).bind fun _ => .pure _
  refine ⟨TokenKind.noConfusion, _, rfl, fun _ => within_ident.bind fun _ => ?_⟩
  refine (Within.eat TokenKind.noConfusion).bind fun _ => (within_ident.optional _).bind fun _ => ?_
  refine (Within.eat TokenKind.noConfusion).bind fun _ => ?_
  exact .ite (within_ident.commaSeparated.bind fun _ => hbody _) ((Within.pure _).bind fun _ => hbody _)

omit hexpr hstmt

theorem reads_namedMethod (start : Span) : Reads (n + 1) (do
    let name ← ident
    let params ← parameters
    let ret? ← optionalType
    let stop := match ret? with
      | some t => t.span
      | none => name.span
    return (⟨name, params, ret?, start.upTo stop⟩ : InterfaceMethod)) :=
  reads_ident.bind fun _ => opens_parameters.within.bind fun _ => within_optionalType.bind
    fun _ => .pure _

theorem reads_interfaceMethod : Reads (n + 1) interfaceMethod := by
  intro stop o ho hn
  have hname := reads_namedMethod (n := n)
  refine .look rfl ((Ends.eat ho TokenKind.noConfusion).bind fun b q hq => ?_)
  cases b with
  | true =>
    have hq : o.Passes q := by simpa using hq
    exact (Within.of_reads (hname _) stop o q ho hn.le hq).late
  | false =>
    obtain rfl : q = o := by simpa using hq
    exact hname _ stop q ho hn

theorem opens_interfaceStmt : Opens n Keyword.interfaceKw interfaceStmt := by
  have hround : Reads n (do return Round.item (← interfaceMethod)) :=
    (reads_interfaceMethod.mono (Nat.le_succ n)).followed fun _ => .pure _
  refine ⟨TokenKind.noConfusion, _, rfl, fun _ => within_ident.bind fun _ => ?_⟩
  refine (Within.expect TokenKind.noConfusion).bind fun _ => ?_
  refine (Within.collect (.checkAny _ (.skip TokenKind.noConfusion hround.turns))).bind fun _ => ?_
  exact (Within.expect TokenKind.noConfusion).bind fun _ => .pure _

include hexpr hstmt

theorem within_templateBody (build : Stmt → Stmt) : Within n (do
    let body ← match ← currentKind with
      | .keyword .funcKw => Stmt.function <$> functionDecl stmt {}
      | .keyword .classKw => Stmt.class_ <$> classDecl expr stmt
      | _ => unexpected [Keyword.funcKw, Keyword.classKw] none
    return build body) := by
  refine Within.currentKind.bind fun k => ?_
  dsimp only
  split
  · exact (opens_functionDecl hstmt {}).within.map.bind fun _ => .pure _
  · exact (opens_classDecl hexpr hstmt).within.map.bind fun _ => .pure _
  · exact (Within.unexpected _ none).bind fun _ => .pure _

theorem opens_templateStmt : Opens n Keyword.templateKw (templateStmt expr stmt) := by
  have hbody := within_templateBody hexpr hstmt
  refine ⟨TokenKind.noConfusion, _, rfl, fun _ => (Within.expect TokenKind.noConfusion).bind fun _ => ?_⟩
  refine within_ident.commaSeparated.bind fun _ => within_closingAngle.bind fun _ => ?_
  refine Within.get.bind fun _ => ?_
  exact .ite ((Within.registerTemplate _).bind fun _ => hbody _) (hbody _)

/-! ## Control flow -/

theorem opens_returnStmt : Opens n Keyword.returnKw (returnStmt expr stmt) :=
  ⟨TokenKind.noConfusion, _, rfl, fun _ => (Within.checkAny _).bind fun _ =>
    ((within_value hexpr hstmt).optional _).bind fun _ =>
      (Within.eat TokenKind.noConfusion).bind fun _ => .pure _⟩

theorem opens_throwStmt : Opens n Keyword.throwKw (throwStmt expr stmt) :=
  ⟨TokenKind.noConfusion, _, rfl, fun _ => (within_value hexpr hstmt).bind fun _ =>
    (Within.eat TokenKind.noConfusion).bind fun _ => .pure _⟩

theorem within_simpleStmt : Within n (simpleStmt expr stmt) :=
  (Within.check _).bind fun _ =>
    .ite (opens_varStmt hexpr hstmt).within (within_value hexpr hstmt).map

theorem opens_ifStmt : Opens n Keyword.ifKw (ifStmt expr stmt) := by
  have helse : Within n (do if ← check Keyword.ifKw then stmt else Stmt.block <$> block stmt) :=
    (Within.check _).bind fun _ => .ite (.of_reads hstmt) (within_block hstmt).map
  exact ⟨TokenKind.noConfusion, _, rfl, fun _ => (within_value hexpr hstmt).bind fun _ =>
    (within_block hstmt).bind fun _ => (Within.eat TokenKind.noConfusion).bind fun _ =>
      (helse.optional _).bind fun _ => .pure _⟩

theorem within_forClauses : Within n (forClauses expr stmt) := by
  have hsimple := within_simpleStmt hexpr hstmt
  refine (Within.check _).bind fun _ => .ite (.pure _) ?_
  refine (Within.check _).bind fun _ => (hsimple.optional _).bind fun first? => ?_
  refine (Within.eat TokenKind.noConfusion).bind fun _ => .ite ?_ ?_
  · refine (Within.check _).bind fun _ => ((within_value hexpr hstmt).optional _).bind fun _ => ?_
    refine (Within.expect TokenKind.noConfusion).bind fun _ => ?_
    exact (Within.check _).bind fun _ => (hsimple.optional _).bind fun _ => .pure _
  · split
    · exact .pure _
    · exact .unexpected _ none

theorem opens_forStmt : Opens n Keyword.forKw (forStmt expr stmt) :=
  ⟨TokenKind.noConfusion, _, rfl, fun _ => (within_forClauses hexpr hstmt).bind fun _ =>
    (within_block hstmt).bind fun _ => .pure _⟩

theorem opens_whileStmt : Opens n Keyword.whileKw (whileStmt expr stmt) :=
  ⟨TokenKind.noConfusion, _, rfl, fun _ => (within_value hexpr hstmt).bind fun _ =>
    (within_block hstmt).bind fun _ => .pure _⟩

omit hexpr in
theorem within_caseBody (start : Span) : Within n (caseBody stmt start) := by
  have hround : Reads n (do return Round.item (← stmt)) := hstmt.followed fun _ => .pure _
  exact (Within.collect (.checkAny _ (.skip TokenKind.noConfusion hround.turns))).bind fun _ => .pure _

theorem reads_switchArm : Reads (n + 1) (switchArm expr stmt) := by
  intro stop o ho hn
  have hle := Nat.le_of_lt_succ hn
  refine .look rfl ?_
  split
  next hkind =>
    refine (Ends.advance ho hle hkind TokenKind.noConfusion fun _ => ?_).late
    exact (within_expressionListOf hexpr _).bind fun _ => (Within.expect TokenKind.noConfusion).bind
      fun _ => (within_caseBody hstmt _).bind fun _ => .pure _
  next hkind =>
    refine (Ends.advance ho hle hkind TokenKind.noConfusion fun _ => ?_).late
    exact (Within.expect TokenKind.noConfusion).bind fun _ => (within_caseBody hstmt _).map
  next => exact .unexpected (.refl o) (Nat.le_refl _) _ none

theorem opens_switchStmt : Opens n Keyword.switchKw (switchStmt expr stmt) := by
  have hround : Reads n (do return Round.item (← switchArm expr stmt)) :=
    ((reads_switchArm hexpr hstmt).mono (Nat.le_succ n)).followed fun _ => .pure _
  refine ⟨TokenKind.noConfusion, _, rfl, fun _ => (Within.check _).bind fun _ => ?_⟩
  refine ((within_value hexpr hstmt).optional _).bind fun _ => ?_
  refine (Within.expect TokenKind.noConfusion).bind fun _ => ?_
  refine (Within.collect (.check _ hround.turns)).bind fun _ => ?_
  exact (Within.expect TokenKind.noConfusion).bind fun _ => .pure _

omit hexpr in
theorem ends_catchClause (ho : o.Ordered stop) (hn : o.rest.length ≤ n)
    (hkind : o.kind = Keyword.catchKw) :
    Ends o o.offset (catchClause stmt) o fun _ q => o.Passes q := by
  refine (Ends.advance ho hn hkind TokenKind.noConfusion fun _ => ?_).late
  refine (Within.eat TokenKind.noConfusion).bind fun _ => .ite ?_ ?_
  · exact within_ident.bind fun _ => within_optionalType.bind fun _ =>
      (Within.expect TokenKind.noConfusion).bind fun _ => (within_block hstmt).bind fun _ => .pure _
  · exact (within_block hstmt).bind fun _ => .pure _

omit hexpr in
theorem opens_tryStmt : Opens n Keyword.tryKw (tryStmt stmt) := by
  have hround : Turns n (do
      if ← check Keyword.catchKw then return Round.item (← catchClause stmt) else return .stop) := by
    intro stop o ho hn
    refine .look rfl (.ite (fun hkind => ?_) fun _ => Turns.done stop o ho hn)
    refine (ends_catchClause hstmt ho hn.le (eq_of_beq hkind)).bind fun _ q hq => ?_
    exact .pure ⟨hq.leads, fun _ => hq⟩
  refine ⟨TokenKind.noConfusion, _, rfl, fun _ => (within_block hstmt).bind fun _ => ?_⟩
  refine (Within.collect hround).bind fun catches => ?_
  split
  · exact .unexpected _ _
  · exact (Within.eat TokenKind.noConfusion).bind fun _ => ((within_block hstmt).optional _).bind
      fun _ => .pure _

/-! ## Any statement -/

/-- A failure is noticed behind the first token, if recovery stops at that token. -/
theorem ends_statementStep (ho : o.Ordered stop) (hn : o.rest.length ≤ n) :
    Ends o (o.offset + (Parser.statementStart.contains o.kind).toNat) (statementStep expr stmt) o
      fun _ q => o.Passes q := by
  have hlate : ∀ {x : Parse Stmt}, Ends o (o.offset + 1) x o (fun _ q => o.Passes q) →
      Ends o (o.offset + (Parser.statementStart.contains o.kind).toNat) x o fun _ q => o.Passes q :=
    fun h => h.from_ (.refl o) (Nat.add_le_add_left (Bool.toNat_le _) _)
  have heat : ∀ s : Stmt, Within n (do let _ ← eat Mark.semicolon; return s) := fun _ =>
    (Within.eat TokenKind.noConfusion).bind fun _ => .pure _
  refine .look rfl ?_
  split
  next hkind => exact hlate (opens_packageStmt.ends ho hn hkind)
  next hkind => exact hlate (opens_importStmt.ends ho hn hkind)
  next hkind =>
    have hvar := (opens_varStmt hexpr hstmt).ends ho hn hkind
    exact hlate (hvar.bind fun s q hq => heat s stop o q ho hn hq)
  next hkind => exact hlate ((opens_constStmt hexpr hstmt).ends ho hn hkind)
  next hkind => exact hlate ((opens_returnStmt hexpr hstmt).ends ho hn hkind)
  next hkind => exact hlate ((opens_ifStmt hexpr hstmt).ends ho hn hkind)
  next hkind => exact hlate ((opens_forStmt hexpr hstmt).ends ho hn hkind)
  next hkind => exact hlate ((opens_whileStmt hexpr hstmt).ends ho hn hkind)
  next hkind => exact hlate ((opens_switchStmt hexpr hstmt).ends ho hn hkind)
  next hkind => exact hlate (Ends.advance ho hn hkind TokenKind.noConfusion fun _ => heat _)
  next hkind => exact hlate (Ends.advance ho hn hkind TokenKind.noConfusion fun _ => heat _)
  next hkind =>
    refine hlate (.ite (fun _ => .map ?_) fun _ => .map ?_)
    · exact (opens_methodDecl hstmt).ends ho hn hkind
    · exact (opens_functionDecl hstmt {}).ends ho hn hkind
  next hkind => exact hlate (.map ((opens_classDecl hexpr hstmt).ends ho hn hkind))
  next hkind => exact hlate (opens_interfaceStmt.ends ho hn hkind)
  next hkind => exact hlate ((opens_templateStmt hexpr hstmt).ends ho hn hkind)
  next hkind => exact hlate ((opens_tryStmt hstmt).ends ho hn hkind)
  next hkind => exact hlate ((opens_throwStmt hexpr hstmt).ends ho hn hkind)
  next hkind =>
    exact hlate (Ends.advance ho hn hkind TokenKind.noConfusion fun _ =>
      (within_block hstmt).bind fun _ => .pure _)
  next hkind => exact hlate (.map ((opens_blockOf hstmt).ends ho hn hkind))
  next =>
    -- an expression: its first token may be at fault, but recovery does not stop there
    have hstart : Parser.statementStart.contains o.kind = false := by
      simp_all [Parser.statementStart]
    rw [hstart]
    exact (reads_value hexpr hstmt).bind (fun e => heat (.expr e)) stop o ho (Nat.lt_succ_of_le hn)

theorem reads_statementStep : Reads (n + 1) (statementStep expr stmt) := fun _ o ho hn =>
  (ends_statementStep hexpr hstmt ho (Nat.le_of_lt_succ hn)).from_ (.refl o) (Nat.le_add_right _ _)

end

/-! ## Any nesting -/

theorem reads_expressionAt_statementAt (fuel : Nat) :
    (∀ least, Reads fuel (expressionAt fuel least)) ∧ Reads fuel (statementAt fuel) := by
  induction fuel with
  | zero => exact ⟨fun _ _ _ _ hn => absurd hn (Nat.not_lt_zero _),
      fun _ _ _ hn => absurd hn (Nat.not_lt_zero _)⟩
  | succ fuel ih => exact ⟨reads_expressionStep ih.1 ih.2, reads_statementStep ih.1 ih.2⟩

theorem ends_statement (ho : o.Ordered stop) :
    Ends o (o.offset + (Parser.statementStart.contains o.kind).toNat) statement o
      fun _ q => o.Passes q := by
  have hknot := reads_expressionAt_statementAt (o.rest.length + 1)
  have hstep := ends_statementStep hknot.1 hknot.2 ho (Nat.le_succ _)
  unfold Ends at hstep ⊢
  rw [statement, Parser.fuel, statementAt]
  exact hstep

end ClassLang.Parse
