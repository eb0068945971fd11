import ClassLang.Proofs.Analysis.Nesting
import ClassLang.Proofs.Lockstep.Demand

/-!
# Jumps and assignments that analysis accepts

Analysis keeps track of the loops and switches around a point, and looks at the target of every
assignment. So if it finds no error then all demands for jumps and assignments make sense where they
stand, in the parts of the program that it checks; and it passes over a part only if there is an
error.
-/

namespace ClassLang

open Demand (Placed)

/-- The demands of entries are those of their keys and of their values. -/
theorem Entry.placed_demandsAll {es : List Entry} : Placed (Entry.demandsAll es) ↔
    (∀ e ∈ es, Placed e.key.demands) ∧ ∀ e ∈ es, Placed e.value.demands := by
  induction es with
  | nil => simp [Entry.demandsAll]
  | cons e es ih =>
    obtain ⟨key, value⟩ := e
    rw [Entry.demandsAll, Demand.placed_append, Demand.placed_append, ih, List.forall_mem_cons,
      List.forall_mem_cons]
    grind

namespace Check

variable {α β : Type} {x : Check α} {f : α → Check β} {Q : α → Prop} {R : β → Prop}

/-- If there is no error after a step, there was none before, and its result is as it should be. -/
def Vouches (x : Check α) (Q : α → Prop) : Prop :=
  ∀ a : Analysis, (x.run a).2.hasErrors = false → a.hasErrors = false ∧ Q (x.run a).1

namespace Vouches

/-- Findings are never taken back. -/
theorem of_findings (h : ∀ a : Analysis, a.findings <+: (x.run a).2.findings) (hQ : ∀ v, Q v) :
    Vouches x Q := by
  refine fun a ha => ⟨?_, hQ _⟩
  rw [Analysis.hasErrors, List.any_eq_false] at ha ⊢
  exact fun f hf => ha f ((h a).subset hf)

/-- A step that looks at no tree. -/
theorem nests (h : Nests (fun _ => True) x) (hQ : ∀ v, Q v) : Vouches x Q :=
  of_findings (fun a => (h a).findings) hQ

theorem pure {v : α} (hv : Q v) : Vouches (Pure.pure v) Q := fun _ ha => ⟨ha, hv⟩

theorem bind (hx : Vouches x Q) (hf : ∀ v, Vouches (f v) fun w => Q v → R w) :
    Vouches (x >>= f) R := by
  intro a ha
  obtain ⟨ha₁, hw⟩ := hf _ (x.run a).2 ha
  obtain ⟨ha, hv⟩ := hx a ha₁
  exact ⟨ha, hw hv⟩

theorem mono {Q' : α → Prop} (hx : Vouches x Q) (h : ∀ v, Q v → Q' v) : Vouches x Q' :=
  fun a ha => (hx a ha).imp_right (h _)

/-- A step that looks at no tree comes first. -/
theorem skip (hx : Nests (fun _ => True) x) (hf : ∀ v, Vouches (f v) R) : Vouches (x >>= f) R :=
  bind (nests hx fun _ => trivial) fun v => (hf v).mono fun _ hw _ => hw

/-- There is an error after it was reported. -/
theorem report {cause : Finding.Cause} {span : Span} (h : cause.level = .error) :
    Vouches (Check.report cause span) fun _ => False := by
  intro a ha
  rw [Analysis.hasErrors, List.any_eq_false] at ha
  have hlast := ha ⟨cause, span⟩ (List.mem_append_right _ (List.mem_singleton_self _))
  rw [Finding.isError, Finding.level, h] at hlast
  exact absurd rfl hlast

/-- Where there is an error, whatever may be said. -/
theorem error {cause : Finding.Cause} {span : Span} {f : Unit → Check β} (h : cause.level = .error)
    (hf : Nests (fun _ => True) (f ())) : Vouches (Check.report cause span >>= f) R :=
  bind (report h) fun _ => nests hf fun _ => False.elim

theorem pushScope (k : ScopeKind) {Q : Prop} (hQ : Q) : Vouches (Check.pushScope k) fun _ => Q :=
  of_findings (fun _ => List.prefix_refl _) fun _ => hQ

theorem popScope {Q : Prop} (hQ : Q) : Vouches Check.popScope fun _ => Q :=
  of_findings (fun _ => List.prefix_refl _) fun _ => hQ

theorem of_opens {N : String → Prop} (h : Opens N x) : Vouches x fun _ => True := by
  refine of_findings (fun a => ?_) fun _ => trivial
  obtain ⟨b, _, hb, hrest⟩ := h a
  exact hb.findings.trans hrest.findings

theorem checkTarget (e : Expr) :
    Vouches (Check.checkTarget e) fun place => place = true ∧ e.isTarget false = true := by
  unfold Check.checkTarget
  split
  · refine skip (.resolve _) fun s? => ?_
    dsimp only
    split
    · exact error rfl (.pure _)
    · exact pure ⟨rfl, rfl⟩
  · exact pure ⟨rfl, rfl⟩
  · exact pure ⟨rfl, rfl⟩
  · exact error rfl (.pure _)

theorem newClass (type : TypeExpr) : Vouches (Check.newClass type) fun n? => n?.isSome = true := by
  unfold Check.newClass
  split
  · exact skip (.resolveTypes _ _) fun _ => pure rfl
  · split
    · exact pure rfl
    · exact error rfl (.pure _)

/-- What names a package demands nothing. -/
theorem packageOf? (e : Expr) :
    Vouches (Check.packageOf? e) fun package? => package?.isSome = true → Placed e.demands := by
  unfold Check.packageOf?
  split
  · exact nests (.packageOf? (.ident _)) fun _ _ => by simp [Expr.demands]
  · exact pure nofun

/-- The common end of a call. -/
theorem call {ctx : Context} (callee : String) (sig? : Option Signature) (args : List Expr)
    (span : Span)
    (hargs : ∀ params, Vouches (checkArguments ctx callee 1 params args)
      fun _ => Placed (Expr.demandsAll args)) :
    Vouches (do
      Check.checkCount? callee sig? args.length span
      checkArguments ctx callee 1 (paramsOf sig?) args
      return (sig?.map Signature.ret).getD .unknown) fun _ => Placed (Expr.demandsAll args) :=
  skip (.checkCount? _ _ _ _) fun _ => bind (hargs _) fun _ => pure id

/-! ## Expressions and statements -/

mutual

theorem inferType (ctx : Context) :
    (e : Expr) → Vouches (Check.inferType ctx e) fun _ => Placed e.demands
  | .ident n => nests (.inferType ctx _ (Expr.bindsOnly_true _)) fun _ => by simp [Expr.demands]
  | .int .. | .float .. | .string .. | .char .. | .bool .. | .null _ | .this _ | .super _
  | .templateInstance .. =>
    nests (.inferType ctx _ (Expr.bindsOnly_true _)) fun _ => by simp [Expr.demands]
  | .prefixed op right span => by
    rw [Check.inferType, Expr.demands]
    refine bind (inferType ctx right) fun operand => nests ?_ fun _ => id
    cases op
    all_goals
      dsimp only
      split
      · exact .bind (.report _ _) fun _ => .pure _
      · exact .pure _
  | .binary op left right span => by
    rw [Check.inferType, Expr.demands, Demand.placed_append]
    refine bind (inferType ctx left) fun l => bind (inferType ctx right) fun r => ?_
    exact nests (.binaryResult op l r span) fun _ hr hl => ⟨hl, hr⟩
  | .postfixed op operand span => by
    rw [Check.inferType, Expr.demands, Demand.placed_cons]
    refine bind (inferType ctx operand) fun ty => bind (checkTarget operand) fun _ => ?_
    refine nests ?_ fun _ htarget hdemands => ⟨htarget.2, hdemands⟩
    dsimp only
    split
    · exact .bind (.report _ _) fun _ => .pure _
    · exact .pure _
  | .assign op target value span => by
    have hvalue := inferType ctx value
    have htarget := inferType ctx target
    rw [Expr.demands, Demand.placed_cons, Demand.placed_append]
    have hassign : ∀ f : Ty → Ty → Check Ty, (∀ t v, Nests (fun _ => True) (f t v)) →
        Vouches (do
          if ← Check.checkTarget target then
            let t ← Check.inferType ctx target
            let v ← Check.usedAsValue value (← Check.inferType ctx value)
            let v ← f t v
            Check.checkAssignable t v value.span
            return t
          else
            let _ ← Check.inferType ctx value
            return .unknown) fun _ =>
          target.isTarget false = true ∧ Placed target.demands ∧ Placed value.demands := by
      intro f hf
      refine bind (checkTarget target) fun place => ?_
      split
      · refine bind htarget fun t => bind hvalue fun v => skip (.usedAsValue value v) fun v => ?_
        refine skip (hf t v) fun v => skip (.checkAssignable t v _) fun _ => ?_
        exact pure fun hv ht hplace => ⟨hplace.2, ht, hv⟩
      next hplace => exact bind hvalue fun _ => pure fun _ h => absurd h.1 hplace
    cases op with
    | define =>
      by_cases hname : ∃ n, target = .ident n
      · obtain ⟨n, rfl⟩ := hname
        rw [Check.inferType]
        refine bind hvalue fun ty => skip (.usedAsValue value ty) fun ty => ?_
        exact nests (.defineByAssignment ctx trivial ty) fun _ hv =>
          ⟨rfl, by simp [Expr.demands], hv⟩
      · rw [Check.inferType]
        · refine bind hvalue fun ty => skip (.usedAsValue value ty) fun ty => ?_
          exact error rfl (.pure _)
        · exact fun n hn => hname ⟨n, hn⟩
    | assign => exact hassign (fun _ v => Pure.pure v) fun _ v => .pure v
    | compound op =>
      exact hassign (fun t v => Check.binaryResult op t v span) fun t v => .binaryResult op t v span
  | .call function args span => by
    have hargs := fun callee params => checkArguments ctx callee 1 params args
    have hfunction := inferType ctx function
    have hcallee : Placed function.calleeDemands := by
      unfold Expr.calleeDemands
      split <;> simp [Demand.isPlaced]
    rw [Expr.demands, Demand.placed_append, Demand.placed_append]
    cases function with
    | ident n =>
      refine skip (.namedSignature _ n) fun sig? => (call n.name sig? args span (hargs _)).mono ?_
      exact fun _ h => ⟨hcallee, by simp [Expr.demands], h⟩
    | member object property arrow memberSpan =>
      have hobject := inferType ctx object
      rw [Expr.demands]
      refine bind (packageOf? object) fun package? => ?_
      cases package? with
      | some package =>
        refine skip (.packageMember package property) fun sig? => ?_
        exact (call _ sig? args span (hargs _)).mono fun _ h ho => ⟨hcallee, ho rfl, h⟩
      | none =>
        refine bind hobject fun o => skip (.memberType o property) fun ty? => ?_
        cases ty? with
        | some ty =>
          refine skip (.signatureOf _ ty) fun sig? => ?_
          exact (call _ sig? args span (hargs _)).mono fun _ h ho _ => ⟨hcallee, ho, h⟩
        | none =>
          exact (call _ none args span (hargs _)).mono fun _ h ho _ => ⟨hcallee, ho, h⟩
    | templateInstance n typeArgs instanceSpan =>
      rw [Expr.demands]
      have hend := fun callee sig? => (call callee sig? args span (hargs callee)).mono fun _ h =>
        And.intro hcallee (And.intro (TypeExpr.placed_demandsOfArguments typeArgs) h)
      refine skip (.instantiate n typeArgs instanceSpan) fun i? => ?_
      match i? with
      | some (.function sig) => exact hend _ (some sig)
      | some (.class_ name) => exact skip (.report _ _) fun _ => hend _ none
      | none => exact hend _ none
    | _ =>
      refine bind hfunction fun ty => skip (.signatureOf _ ty) fun sig? => ?_
      exact (call _ sig? args span (hargs _)).mono fun _ h hf => ⟨hcallee, hf, h⟩
  | .index object key _ => by
    rw [Check.inferType, Expr.demands, Demand.placed_append]
    refine bind (inferType ctx object) fun o => bind (inferType ctx key) fun k => ?_
    refine nests ?_ fun _ hk ho => ⟨ho, hk⟩
    have hindexed : ∀ expected result : Ty, Nests (fun _ => True) (do
        if !(← Check.assignable expected k) then
          Check.report (.invalidIndex expected k) key.span
        return result) := by
      intro expected result
      refine .bind (.assignable _ _) fun fits => ?_
      dsimp only
      split
      · exact .bind (.report _ _) fun _ => .pure _
      · exact .pure _
    dsimp only
    split
    · exact hindexed _ _
    · exact hindexed _ _
    · split
      · exact hindexed _ _
      · split
        · exact .bind (.report _ _) fun _ => .pure _
        · exact .pure _
  | .member object property _ _ => by
    have hobject := inferType ctx object
    rw [Check.inferType, Expr.demands]
    refine bind (packageOf? object) fun package? => ?_
    cases package? with
    | some package => exact skip (.packageMember package property) fun _ => pure fun h => h rfl
    | none => exact bind hobject fun o => skip (.memberType o property) fun _ => pure fun h _ => h
  | .array elements _ => by
    rw [Check.inferType, Expr.demands]
    exact bind (inferElements ctx none elements) fun _ => pure id
  | .hash entries _ => by
    rw [Check.inferType, Expr.demands]
    refine bind (inferKeys ctx none entries) fun _ => bind (inferValues ctx none entries) fun _ => ?_
    exact pure fun hvalues hkeys => Entry.placed_demandsAll.2 ⟨hkeys, hvalues⟩
  | .lambda params ret? body _ => by
    rw [Check.inferType, Expr.demands, Demand.placed_append]
    refine skip (.resolveSignature [] params ret?) fun sig => ?_
    exact bind (checkFunction ctx params sig body) fun _ =>
      pure fun h => ⟨placed_signatureDemands params ret?, h⟩
  | .new type args span => by
    have hargs := fun callee params => checkArguments ctx callee 1 params args
    rw [Check.inferType, Expr.demands, Demand.placed_append]
    refine bind (newClass type) fun n? => ?_
    cases n? with
    | none => exact pure nofun
    | some n =>
      refine skip (.resolve _) fun s? => ?_
      cases s? with
      | none =>
        refine error rfl (.bind (.checkArguments ctx n.name 1 [] args ?_) fun _ => .pure _)
        exact Expr.allBindOnly_true args
      | some s =>
        dsimp only
        split
        · refine skip .scopes fun t => skip (.checkCount? _ _ _ _) fun _ => ?_
          exact bind (hargs _ _) fun _ => pure fun h _ => ⟨type.placed_demands, h⟩
        · exact error rfl (.pure _)

theorem checkArguments (ctx : Context) (callee : String) (index : Nat) (params : List Ty) :
    (args : List Expr) → Vouches (Check.checkArguments ctx callee index params args)
      fun _ => Placed (Expr.demandsAll args)
  | [] => pure (by simp [Expr.demandsAll])
  | e :: es => by
    have hrest := fun params => checkArguments ctx callee (index + 1) params es
    rw [Check.checkArguments, Expr.demandsAll, Demand.placed_append]
    refine bind (inferType ctx e) fun ty => skip (.usedAsValue e ty) fun actual => ?_
    have hend : ∀ params, Vouches (Check.checkArguments ctx callee (index + 1) params es)
        fun _ => Placed e.demands → Placed e.demands ∧ Placed (Expr.demandsAll es) :=
      fun params => (hrest params).mono fun _ hes he => ⟨he, hes⟩
    cases params with
    | nil => exact hend _
    | cons param params =>
      refine skip (.assignable _ _) fun fits => ?_
      split
      · exact skip (.report _ _) fun _ => hend _
      · exact hend _

theorem inferElements (ctx : Context) (common? : Option Ty) :
    (es : List Expr) → Vouches (Check.inferElements ctx common? es)
      fun _ => Placed (Expr.demandsAll es)
  | [] => pure (by simp [Expr.demandsAll])
  | e :: es => by
    rw [Check.inferElements, Expr.demandsAll, Demand.placed_append]
    refine bind (inferType ctx e) fun ty => skip (.commonType common? ty e.span) fun common => ?_
    exact (inferElements ctx (some common) es).mono fun _ hes he => ⟨he, hes⟩

theorem inferKeys (ctx : Context) (common? : Option Ty) :
    (es : List Entry) → Vouches (Check.inferKeys ctx common? es)
      fun _ => ∀ e ∈ es, Placed e.key.demands
  | [] => pure (fun _ he => nomatch he)
  | ⟨key, value⟩ :: es => by
    rw [Check.inferKeys]
    refine bind (inferType ctx key) fun ty => skip (.commonType common? ty key.span) fun common => ?_
    exact (inferKeys ctx (some common) es).mono fun _ hes he => List.forall_mem_cons.2 ⟨he, hes⟩

theorem inferValues (ctx : Context) (common? : Option Ty) :
    (es : List Entry) → Vouches (Check.inferValues ctx common? es)
      fun _ => ∀ e ∈ es, Placed e.value.demands
  | [] => pure (fun _ he => nomatch he)
  | ⟨key, value⟩ :: es => by
    rw [Check.inferValues]
    refine bind (inferType ctx value) fun ty => ?_
    refine skip (.commonType common? ty value.span) fun common => ?_
    exact (inferValues ctx (some common) es).mono fun _ hes he => List.forall_mem_cons.2 ⟨he, hes⟩

theorem checkFunction (ctx : Context) (params : List Param) (sig : Signature) :
    (body : Block) → Vouches (Check.checkFunction ctx params sig body)
      fun _ => Placed (body.demands false false [])
  | ⟨stmts, _⟩ => by
    rw [Check.checkFunction, Block.demands]
    refine bind (pushScope _ trivial) fun _ => skip (.declareParams params sig) fun _ => ?_
    exact bind (checkStmts _ [] stmts) fun _ => popScope fun h _ => h

theorem checkStmts (ctx : Context) (tries : List (Option Block)) :
    (ss : List Stmt) → Vouches (Check.checkStmts ctx ss)
      fun _ => Placed (Stmt.demandsAll ctx.inLoop ctx.inSwitch tries ss)
  | [] => pure (by simp [Stmt.demandsAll])
  | s :: ss => by
    rw [Check.checkStmts, Stmt.demandsAll, Demand.placed_cons, Demand.placed_append]
    refine bind (checkStmt ctx tries s) fun _ => ?_
    exact (checkStmts ctx tries ss).mono fun _ hss hs => ⟨rfl, hs, hss⟩

theorem checkBlock (ctx : Context) (tries : List (Option Block)) (kind : ScopeKind) :
    (b : Block) → Vouches (Check.checkBlock ctx kind b)
      fun _ => Placed (b.demands ctx.inLoop ctx.inSwitch tries)
  | ⟨stmts, _⟩ => by
    rw [Check.checkBlock, Block.demands]
    refine bind (pushScope _ trivial) fun _ => bind (checkStmts ctx tries stmts) fun _ => ?_
    exact popScope fun h _ => h

theorem checkStmt (ctx : Context) (tries : List (Option Block)) :
    (s : Stmt) → Vouches (Check.checkStmt ctx s)
      fun _ => Placed (s.demands ctx.inLoop ctx.inSwitch tries)
  | .package .. | .imports .. | .interface .. | .method _ | .class_ _ | .template .. =>
    nests (.checkStmt ctx _ (Stmt.bindsOnly_true _)) fun _ => by simp [Stmt.demands]
  | .var name type? value? _ => by
    have hvalue := inferTypeIf ctx value?
    rw [Check.checkStmt, Stmt.demands, Demand.placed_append]
    refine skip (.declaredType type?) fun declared? => ?_
    cases value? with
    | some value =>
      refine bind (hvalue value rfl) fun ty => skip (.usedAsValue value ty) fun _ => ?_
      exact nests (.declareVariable ctx (.inl rfl) trivial _ _) fun _ h =>
        ⟨TypeExpr.placed_demandsIf type?, h⟩
    | none =>
      exact nests (.declareVariable ctx (.inl rfl) trivial _ _) fun _ =>
        ⟨TypeExpr.placed_demandsIf type?, by simp [Expr.demandsIf]⟩
  | .const name type? value _ => by
    rw [Check.checkStmt, Stmt.demands, Demand.placed_append]
    refine skip (.declaredType type?) fun _ => bind (inferType ctx value) fun ty => ?_
    refine skip (.usedAsValue value ty) fun _ => ?_
    exact nests (.declareVariable ctx (.inr rfl) trivial _ _) fun _ h =>
      ⟨TypeExpr.placed_demandsIf type?, h⟩
  | .ret value? span => by
    have hvalue := inferTypeIf ctx value?
    rw [Stmt.demands]
    cases value? with
    | some value =>
      exact bind (hvalue value rfl) fun ty => skip (.judge _) fun _ =>
        nests (.checkReturned ctx ty span) fun _ => id
    | none => exact nests (.checkReturned ctx _ span) fun _ => by simp [Expr.demandsIf]
  | .expr e => by
    rw [Check.checkStmt, Stmt.demands]
    exact bind (inferType ctx e) fun _ => pure id
  | .block b => by
    rw [Check.checkStmt, Stmt.demands]
    exact checkBlock ctx tries .block b
  | .ifElse condition consequence alternative? _ => by
    have hcondition := inferType ctx condition
    have hconsequence := checkBlock ctx tries .block consequence
    have halternative := checkStmtIf ctx tries alternative?
    rw [Stmt.demands, Demand.placed_append, Demand.placed_append]
    cases alternative? with
    | some s =>
      refine bind hcondition fun ty => skip (.checkBool ty _) fun _ => bind hconsequence fun _ => ?_
      exact (halternative s rfl).mono fun _ ha hb hc => ⟨hc, hb, ha⟩
    | none =>
      refine bind hcondition fun ty => skip (.checkBool ty _) fun _ => bind hconsequence fun _ => ?_
      exact pure fun hb hc => ⟨hc, hb, by simp [Stmt.demandsIf]⟩
  | .forLoop init? condition? post? body _ => by
    have hinit := checkStmtIf ctx tries init?
    have hcondition := inferTypeIf ctx condition?
    have hpost := checkStmtIf ctx tries post?
    have hbody := checkBlock { ctx with inLoop := true } tries .block body
    rw [Stmt.demands, Demand.placed_append, Demand.placed_append, Demand.placed_append]
    let I := Placed (Stmt.demandsIf ctx.inLoop ctx.inSwitch tries init?)
    let C := Placed (Expr.demandsIf condition?)
    let B := Placed (body.demands true ctx.inSwitch tries)
    let P := Placed (Stmt.demandsIf ctx.inLoop ctx.inSwitch tries post?)
    have hround : Vouches (do
        match post? with
          | some s => Check.checkStmt ctx s
          | none => Pure.pure ()
        Check.checkBlock { ctx with inLoop := true } .block body
        Check.popScope) fun _ => B ∧ P := by
      cases post? with
      | some s =>
        refine bind (hpost s rfl) fun _ => bind hbody fun _ => popScope fun hb hp => ⟨hb, hp⟩
      | none => exact bind hbody fun _ => popScope fun hb => ⟨hb, by simp [P, Stmt.demandsIf]⟩
    have htest : Vouches (do
        match condition? with
          | some e => Check.checkBool (← Check.inferType ctx e) e.span
          | none => Pure.pure ()
        match post? with
          | some s => Check.checkStmt ctx s
          | none => Pure.pure ()
        Check.checkBlock { ctx with inLoop := true } .block body
        Check.popScope) fun _ => C ∧ B ∧ P := by
      cases condition? with
      | some e =>
        refine bind (hcondition e rfl) fun ty => skip (.checkBool ty _) fun _ => ?_
        exact hround.mono fun _ h hc => ⟨hc, h⟩
      | none => exact hround.mono fun _ h => ⟨by simp [C, Expr.demandsIf], h⟩
    rw [Check.checkStmt]
    refine bind (pushScope _ trivial) fun _ => ?_
    cases init? with
    | some s => exact bind (hinit s rfl) fun _ => htest.mono fun _ h hi _ => ⟨hi, h⟩
    | none => exact htest.mono fun _ h _ => ⟨by simp [Stmt.demandsIf], h⟩
  | .whileLoop condition body _ => by
    rw [Check.checkStmt, Stmt.demands, Demand.placed_append]
    refine bind (inferType ctx condition) fun ty => skip (.checkBool ty _) fun _ => ?_
    exact (checkBlock { ctx with inLoop := true } tries .loop body).mono fun _ hb hc => ⟨hc, hb⟩
  | .switch tag? cases_ default? _ => by
    have htag := inferTypeIf ctx tag?
    have hdefault := checkBlockIf { ctx with inSwitch := true } tries default?
    have hvalues := fun ty? => checkCaseValues ctx ty? cases_
    have hbodies := checkCaseBodies { ctx with inSwitch := true } tries cases_
    rw [Stmt.demands, Demand.placed_append, Demand.placed_append, Demand.placed_append]
    have hrest : ∀ ty?, Vouches (do
        Check.checkCaseValues ctx ty? cases_
        Check.checkCaseBodies { ctx with inSwitch := true } cases_
        match default? with
        | some b => Check.checkBlock { ctx with inSwitch := true } .block b
        | none => return) fun _ => Placed (Case.demandsOfValues cases_) ∧
          Placed (Case.demandsOfBodies ctx.inLoop true tries cases_) ∧
          Placed (Block.demandsIf ctx.inLoop true tries default?) := by
      intro ty?
      refine bind (hvalues ty?) fun _ => bind hbodies fun _ => ?_
      cases default? with
      | some b => exact (hdefault b rfl).mono fun _ hd hb hv => ⟨hv, hb, hd⟩
      | none => exact pure fun hb hv => ⟨hv, hb, by simp [Block.demandsIf]⟩
    cases tag? with
    | some tag =>
      have h := bind (htag tag rfl) fun ty => (hrest (some ty)).mono fun _ h ht => And.intro ht h
      cases default? <;> exact h
    | none =>
      have htag : Placed (Expr.demandsIf none) := by simp [Expr.demandsIf]
      have h := (hrest none).mono fun _ h => And.intro htag h
      cases default? <;> exact h
  | .break_ span => by
    rw [Check.checkStmt, Stmt.demands, Demand.placed_cons]
    split
    · exact (report rfl).mono fun _ => False.elim
    next h => exact pure ⟨by simpa [Demand.isPlaced, or_iff_not_imp_left] using h, by simp⟩
  | .continue_ span => by
    rw [Check.checkStmt, Stmt.demands, Demand.placed_cons]
    split
    · exact (report rfl).mono fun _ => False.elim
    next h => exact pure ⟨by simpa [Demand.isPlaced] using h, by simp⟩
  | .function ⟨name, params, ret?, body, _, _⟩ => by
    have hbody := fun sig => (checkFunction ctx params sig body).mono fun _ h =>
      And.intro (placed_signatureDemands params ret?) h
    rw [Check.checkStmt, Stmt.demands, Demand.placed_append]
    refine skip (.resolve _) fun s? => ?_
    dsimp only
    split
    · exact skip (.pure _) fun _ => hbody _
    · exact skip (.resolveSignature [] params ret?) fun sig => hbody sig
  | .tryCatch body catches finally? _ => by
    have hbody := checkBlock ctx (finally? :: tries) .block body
    have hcatches := checkCatches ctx (finally? :: tries) catches
    have hfinally := checkBlockIf ctx tries finally?
    rw [Stmt.demands, Demand.placed_append, Demand.placed_append]
    cases finally? with
    | some b =>
      refine bind hbody fun _ => bind hcatches fun _ => ?_
      exact (hfinally b rfl).mono fun _ hf hc hb => ⟨hb, hc, hf⟩
    | none =>
      refine bind hbody fun _ => bind hcatches fun _ => ?_
      exact pure fun hc hb => ⟨hb, hc, by simp [Block.demandsIf]⟩
  | .throw value _ => by
    rw [Check.checkStmt, Stmt.demands]
    exact bind (inferType ctx value) fun _ => pure id
  | .scope body _ => by
    rw [Check.checkStmt, Stmt.demands]
    exact checkBlock ctx tries .block body

theorem inferTypeIf (ctx : Context) : (e? : Option Expr) → ∀ e, e? = some e →
    Vouches (Check.inferType ctx e) fun _ => Placed (Expr.demandsIf e?)
  | some e, _, rfl => by
    rw [Expr.demandsIf]
    exact inferType ctx e

theorem checkStmtIf (ctx : Context) (tries : List (Option Block)) : (s? : Option Stmt) → ∀ s, s? = some s →
    Vouches (Check.checkStmt ctx s) fun _ => Placed (Stmt.demandsIf ctx.inLoop ctx.inSwitch tries s?)
  | some s, _, rfl => by
    rw [Stmt.demandsIf, Demand.placed_cons]
    exact (checkStmt ctx tries s).mono fun _ hs => ⟨rfl, hs⟩

theorem checkBlockIf (ctx : Context) (tries : List (Option Block)) : (b? : Option Block) → ∀ b, b? = some b →
    Vouches (Check.checkBlock ctx .block b)
      fun _ => Placed (Block.demandsIf ctx.inLoop ctx.inSwitch tries b?)
  | some b, _, rfl => by
    rw [Block.demandsIf]
    exact checkBlock ctx tries .block b

theorem checkTagged (ctx : Context) (tag? : Option Ty) :
    (es : List Expr) → Vouches (Check.checkTagged ctx tag? es)
      fun _ => Placed (Expr.demandsAll es)
  | [] => pure (by simp [Expr.demandsAll])
  | e :: es => by
    have hrest := (checkTagged ctx tag? es).mono fun _ (hes : Placed _) (he : Placed e.demands) =>
      And.intro he hes
    rw [Check.checkTagged, Expr.demandsAll, Demand.placed_append]
    refine bind (inferType ctx e) fun ty => ?_
    cases tag? with
    | some tag => exact skip (.checkAssignable tag ty _) fun _ => hrest
    | none => exact skip (.checkBool ty _) fun _ => hrest

theorem checkCaseValues (ctx : Context) (tag? : Option Ty) :
    (cs : List Case) → Vouches (Check.checkCaseValues ctx tag? cs)
      fun _ => Placed (Case.demandsOfValues cs)
  | [] => pure (by simp [Case.demandsOfValues])
  | ⟨values, _, _⟩ :: cs => by
    rw [Check.checkCaseValues, Case.demandsOfValues, Demand.placed_append]
    refine bind (checkTagged ctx tag? values) fun _ => ?_
    exact (checkCaseValues ctx tag? cs).mono fun _ hcs hv => ⟨hv, hcs⟩

theorem checkCaseBodies (ctx : Context) (tries : List (Option Block)) :
    (cs : List Case) → Vouches (Check.checkCaseBodies ctx cs)
      fun _ => Placed (Case.demandsOfBodies ctx.inLoop ctx.inSwitch tries cs)
  | [] => pure (by simp [Case.demandsOfBodies])
  | ⟨_, body, _⟩ :: cs => by
    rw [Check.checkCaseBodies, Case.demandsOfBodies, Demand.placed_append]
    refine bind (checkBlock ctx tries .block body) fun _ => ?_
    exact (checkCaseBodies ctx tries cs).mono fun _ hcs hb => ⟨hb, hcs⟩

theorem checkCatches (ctx : Context) (tries : List (Option Block)) :
    (cs : List Catch) → Vouches (Check.checkCatches ctx cs)
      fun _ => Placed (Catch.demandsAll ctx.inLoop ctx.inSwitch tries cs)
  | [] => pure (by simp [Catch.demandsAll])
  | ⟨param?, type?, ⟨stmts, _⟩, _⟩ :: cs => by
    have hbody : Vouches (do
        Check.checkStmts ctx stmts
        Check.popScope
        Check.checkCatches ctx cs) fun _ =>
        Placed (Stmt.demandsAll ctx.inLoop ctx.inSwitch tries stmts) ∧
          Placed (Catch.demandsAll ctx.inLoop ctx.inSwitch tries cs) := by
      refine bind (checkStmts ctx tries stmts) fun _ => bind (popScope trivial) fun _ => ?_
      exact (checkCatches ctx tries cs).mono fun _ hcs _ hs => ⟨hs, hcs⟩
    rw [Check.checkCatches, Catch.demandsAll, Block.demands, Demand.placed_append,
      Demand.placed_append]
    have hrest := hbody.mono fun _ h (_ : True) => And.intro (TypeExpr.placed_demandsIf type?) h
    refine bind (pushScope _ trivial) fun _ => ?_
    cases param? with
    | some p =>
      exact skip (.resolveOptional _ _ _) fun _ => skip (.declare rfl rfl trivial) fun _ => hrest
    | none => exact hrest

end

/-! ## Declarations -/

theorem checkMembers (ctx : Context) (info? : Option ClassInfo) (ms : List Member) :
    Vouches (Check.checkMembers ctx info? ms) fun _ => ∀ m ∈ ms, Placed m.demands := by
  induction ms with
  | nil => exact pure (List.forall_mem_nil _)
  | cons m ms ih =>
    have hrest : Vouches (Check.checkMembers ctx info? ms) fun _ =>
        Placed m.demands → ∀ m' ∈ m :: ms, Placed m'.demands :=
      ih.mono fun _ hms hm => List.forall_mem_cons.2 ⟨hm, hms⟩
    cases m with
    | field f =>
      obtain ⟨name, type?, value?, isConst, modifiers, span⟩ := f
      have hvalue := inferTypeIf ctx value?
      have hrest := hrest.mono fun _ hms h =>
        hms ((Demand.placed_append _ _).2 ⟨TypeExpr.placed_demandsIf type?, h⟩)
      cases value? with
      | some value =>
        refine bind (hvalue value rfl) fun ty => skip (.usedAsValue value ty) fun _ => ?_
        exact skip (.checkAssignable _ _ _) fun _ => hrest
      | none => exact hrest.mono fun _ h => h (by simp [Expr.demandsIf])
    | method f =>
      obtain ⟨name, params, ret?, body, modifiers, span⟩ := f
      have hrest := fun sig => bind (checkFunction ctx params sig body) fun _ =>
        hrest.mono fun _ hms h =>
          hms ((Demand.placed_append _ _).2 ⟨placed_signatureDemands params ret?, h⟩)
      rw [Check.checkMembers]
      cases info?.bind (·.method? name.name) with
      | some m => exact skip (.pure _) hrest
      | none => exact skip (.resolveSignature _ _ _) hrest

theorem openClass (name : Ident) (extends? : Option Ident) (implements : List Ident) :
    Vouches (Check.openClass name extends? implements) fun _ => True :=
  of_opens (opens_openClass (N := fun _ => True) name extends? implements)

theorem openTemplate (params : List Ident) :
    Vouches (Check.openTemplate params) fun _ => True :=
  of_opens (opens_openTemplate (N := fun _ => True) params)

/-- The scope of a class with its members. -/
theorem checkClass (ctx : Context) (c : Class) :
    Vouches (do
      let info? ← Check.openClass c.name c.extends? c.implements
      Check.checkMembers ctx info? c.members
      Check.popScope) fun _ => Placed c.demands := by
  refine bind (openClass _ _ _) fun info? => bind (checkMembers ctx info? c.members) fun _ => ?_
  refine popScope fun h _ m hm => ?_
  obtain ⟨member, hmember, hm⟩ := Class.mem_demands.1 hm
  exact h member hmember m hm

/-- The scope of a method with its receiver. -/
theorem checkReceiver (ctx : Context) (receiver : Param) (receiverType : Ty) (params : List Param)
    (sig : Signature) (body : Block) :
    Vouches (do
      Check.pushScope .class_
      match receiver.type?.bind TypeExpr.className? with
        | some c => Check.bindFields c receiver.name.span
        | none => Pure.pure ()
      Check.redefine
        { name := receiver.name.name
          kind := .parameter
          ty := receiverType
          span := receiver.name.span }
      Check.checkFunction
        { ctx with class? := receiver.type?.bind TypeExpr.className? <|> ctx.class? } params sig body
      Check.popScope) fun _ => Placed (body.demands false false []) := by
  refine bind (pushScope _ trivial) fun _ => ?_
  have hbody := fun ctx => bind (checkFunction ctx params sig body) fun _ =>
    popScope fun h (_ : True) => h
  cases receiver.type?.bind TypeExpr.className? with
  | some c => exact skip (.bindFields c _) fun _ => skip (.redefine rfl rfl trivial) fun _ => hbody _
  | none => exact skip (.redefine rfl rfl trivial) fun _ => hbody _

theorem checkMethod (ctx : Context) (m : Method) :
    Vouches (Check.checkStmt ctx (.method m)) fun _ => Placed m.demands := by
  obtain ⟨receiver, name, params, ret?, body, span⟩ := m
  have hrest := fun receiverType sig =>
    (checkReceiver ctx receiver receiverType params sig body).mono fun _ h =>
      (Demand.placed_append _ _).2 ⟨placed_signatureDemands params ret?, h⟩
  rw [Check.checkStmt]
  refine skip .scopes fun t => ?_
  dsimp only
  split
  · exact hrest _ _
  · exact skip (.resolveOptional _ _ _) fun _ => skip (.resolveSignature _ _ _) fun _ => hrest _ _

theorem checkTemplate (ctx : Context) (params : List Ident) (body : Stmt) (span : Span) :
    Vouches (Check.checkStmt ctx (.template params body span))
      fun _ => Placed body.templateDemands := by
  cases body with
  | function f =>
    obtain ⟨name, params, ret?, body, modifiers, span⟩ := f
    have hrest := fun sig => bind (checkFunction ctx params sig body) fun _ => popScope
      fun h (_ : True) => (Demand.placed_append _ _).2 ⟨placed_signatureDemands params ret?, h⟩
    rw [Check.checkStmt]
    refine bind (openTemplate _) fun _ => skip .scopes fun t => ?_
    dsimp only
    split
    · exact skip (.pure _) hrest
    · exact skip (.resolveSignature _ _ _) hrest
  | class_ c =>
    obtain ⟨name, extends?, implements, members, classSpan⟩ := c
    have hclass := checkClass { ctx with class? := some name.name }
      ⟨name, extends?, implements, members, classSpan⟩
    rw [Check.checkStmt, Stmt.templateDemands]
    refine bind (openTemplate _) fun _ => ?_
    simpa only [bind_assoc] using bind hclass fun _ => popScope fun h (_ : True) => h
  | _ => exact nests (.checkStmt ctx _ (Stmt.bindsOnly_true _)) fun _ => Demand.placed_nil

/-- A statement of the top level. -/
theorem checkTop (ctx : Context) (hloop : ctx.inLoop = false) (hswitch : ctx.inSwitch = false)
    (s : Stmt) : Vouches (Check.checkStmt ctx s) fun _ => Placed s.topDemands := by
  have hstmt := checkStmt ctx [] s
  rw [hloop, hswitch] at hstmt
  cases s with
  | class_ c =>
    obtain ⟨name, extends?, implements, members, span⟩ := c
    rw [Check.checkStmt, Stmt.topDemands]
    exact checkClass _ ⟨name, extends?, implements, members, span⟩
  | method m => exact checkMethod ctx m
  | template params body span => exact checkTemplate ctx params body span
  | function f =>
    obtain ⟨name, params, ret?, body, modifiers, span⟩ := f
    rwa [Stmt.demands] at hstmt
  | _ => exact hstmt.mono fun _ hs => (Demand.placed_cons _ _).2 ⟨rfl, hs⟩

theorem checkTops (ctx : Context) (hloop : ctx.inLoop = false) (hswitch : ctx.inSwitch = false)
    (ss : List Stmt) :
    Vouches (Check.checkStmts ctx ss) fun _ => Placed (ss.flatMap Stmt.topDemands) := by
  induction ss with
  | nil => exact pure Demand.placed_nil
  | cons s ss ih =>
    rw [Check.checkStmts, List.flatMap_cons, Demand.placed_append]
    exact bind (checkTop ctx hloop hswitch s) fun _ => ih.mono fun _ hss hs => ⟨hs, hss⟩

end Vouches

theorem Nests.reportUnusedImports : Nests (fun _ => True) Check.reportUnusedImports :=
  .bind (.reading fun _ => rfl) fun _ => .forM _ fun _ => .report _ _

/-- Without errors, jumps and assignments all make sense where they stand. -/
theorem placed_of_checkProgram (ctx : Context) (hloop : ctx.inLoop = false)
    (hswitch : ctx.inSwitch = false) (p : Program) (a : Analysis)
    (h : ((checkProgram ctx p).run a).2.hasErrors = false) : Placed p.demands := by
  let b := ((collectDeclarations p).run a).2
  have hrest : Vouches (do checkStmts ctx p.stmts; reportUnusedImports) fun _ => Placed p.demands :=
    .bind (.checkTops ctx hloop hswitch p.stmts) fun _ =>
      .nests .reportUnusedImports fun _ => id
  exact (hrest b h).2

end Check

end ClassLang
