import ClassLang.Proofs.Analysis.Roles

/-!
# Every occurrence is a point

The expressions of a program, read off its text, are compared with the points of its analysis: in a
program without errors, analysis comes to every call and to every assignment.
-/

namespace ClassLang

mutual

/-- The expressions in an expression, itself the first. -/
def Expr.exprs : Expr → List Expr
  | .prefixed op right span => .prefixed op right span :: right.exprs
  | .binary op left right span => .binary op left right span :: (left.exprs ++ right.exprs)
  | .postfixed op operand span => .postfixed op operand span :: operand.exprs
  | .assign op target value span => .assign op target value span :: (target.exprs ++ value.exprs)
  | .call function args span => .call function args span :: (function.exprs ++ Expr.exprsOfAll args)
  | .index object key span => .index object key span :: (object.exprs ++ key.exprs)
  | .member object property arrow span => .member object property arrow span :: object.exprs
  | .array elements span => .array elements span :: Expr.exprsOfAll elements
  | .hash entries span => .hash entries span :: (Entry.exprsOfKeys entries ++ Entry.exprsOfValues entries)
  | .lambda params ret? body span => .lambda params ret? body span :: body.exprs
  | .new type args span => .new type args span :: Expr.exprsOfAll args
  | e => [e]

def Expr.exprsOfAll : List Expr → List Expr
  | [] => []
  | e :: es => e.exprs ++ Expr.exprsOfAll es

def Entry.exprsOfKeys : List Entry → List Expr
  | [] => []
  | ⟨key, _⟩ :: es => key.exprs ++ Entry.exprsOfKeys es

def Entry.exprsOfValues : List Entry → List Expr
  | [] => []
  | ⟨_, value⟩ :: es => value.exprs ++ Entry.exprsOfValues es

def Expr.exprsIf : Option Expr → List Expr
  | some e => e.exprs
  | none => []

/-- The expressions in a statement. -/
def Stmt.exprs : Stmt → List Expr
  | .package .. | .interface .. | .imports .. | .break_ _ | .continue_ _ => []
  | .var _ _ value? _ => Expr.exprsIf value?
  | .const _ _ value _ => value.exprs
  | .ret value? _ => Expr.exprsIf value?
  | .expr e => e.exprs
  | .block b => b.exprs
  | .ifElse condition consequence alternative? _ =>
    condition.exprs ++ (consequence.exprs ++ Stmt.exprsIf alternative?)
  | .forLoop init? condition? post? body _ =>
    Stmt.exprsIf init? ++ (Expr.exprsIf condition? ++ (Stmt.exprsIf post? ++ body.exprs))
  | .whileLoop condition body _ => condition.exprs ++ body.exprs
  | .switch tag? cases default? _ =>
    Expr.exprsIf tag? ++
      (Case.exprsOfValues cases ++ (Case.exprsOfBodies cases ++ Block.exprsIf default?))
  | .function ⟨_, _, _, body, _, _⟩ => body.exprs
  | .method ⟨_, _, _, _, body, _⟩ => body.exprs
  | .class_ ⟨_, _, _, members, _⟩ => Member.exprsOfAll members
  | .template _ body _ => body.exprs
  | .tryCatch body catches finally? _ =>
    body.exprs ++ (Catch.exprsOfAll catches ++ Block.exprsIf finally?)
  | .throw value _ => value.exprs
  | .scope b _ => b.exprs

def Stmt.exprsOfAll : List Stmt → List Expr
  | [] => []
  | s :: ss => s.exprs ++ Stmt.exprsOfAll ss

def Stmt.exprsIf : Option Stmt → List Expr
  | some s => s.exprs
  | none => []

def Block.exprs : Block → List Expr
  | ⟨stmts, _⟩ => Stmt.exprsOfAll stmts

def Block.exprsIf : Option Block → List Expr
  | some b => b.exprs
  | none => []

def Case.exprsOfValues : List Case → List Expr
  | [] => []
  | ⟨values, _, _⟩ :: cs => Expr.exprsOfAll values ++ Case.exprsOfValues cs

def Case.exprsOfBodies : List Case → List Expr
  | [] => []
  | ⟨_, body, _⟩ :: cs => body.exprs ++ Case.exprsOfBodies cs

def Catch.exprsOfAll : List Catch → List Expr
  | [] => []
  | ⟨_, _, body, _⟩ :: cs => body.exprs ++ Catch.exprsOfAll cs

def Member.exprsOfAll : List Member → List Expr
  | [] => []
  | .field ⟨_, _, value?, _, _, _⟩ :: ms => Expr.exprsIf value? ++ Member.exprsOfAll ms
  | .method ⟨_, _, _, body, _, _⟩ :: ms => body.exprs ++ Member.exprsOfAll ms

end

/-- The expressions in a program. -/
def Program.exprs (p : Program) : List Expr := Stmt.exprsOfAll p.stmts

/-- Calls and assignments. Other expressions may be the name of a package or of what is called, to
which analysis does not come as to a value. -/
def Expr.isAction : Expr → Bool
  | .call .. | .assign .. | .postfixed .. => true
  | _ => false

namespace Point

/-- Inside of a point, analysis comes to an expression. -/
def Finds (q : Point) (e : Expr) : Prop :=
  ∃ r, Relation.ReflTransGen Contains q r ∧ r.part = .expr e

variable {q r : Point} {es fs : List Expr} {role : Role} {e : Expr}

theorem Finds.here (h : q.part = .expr e) : q.Finds e := ⟨q, .refl, h⟩

theorem Finds.inside (hr : (role, r) ∈ q.children) (h : r.Finds e) : q.Finds e := by
  obtain ⟨r', hr', he⟩ := h
  exact ⟨r', .head ⟨role, hr⟩ hr', he⟩

/-- Without errors, analysis comes to every call and every assignment of a list. -/
def Covers (q : Point) (es : List Expr) : Prop :=
  q.stop.hasErrors = false → ∀ e ∈ es, e.isAction = true → q.Finds e

theorem covers_nil (q : Point) : q.Covers [] := fun _ _ he => nomatch he

theorem Covers.append (h : q.Covers es) (h' : q.Covers fs) : q.Covers (es ++ fs) :=
  fun hclean e he => (List.mem_append.1 he).elim (h hclean e) (h' hclean e)

/-- What a point directly inside covers. -/
theorem Covers.inside (hr : (role, r) ∈ q.children) (h : r.Covers es) : q.Covers es :=
  fun hclean e he haction =>
    .inside hr (h (q.allSuit hclean _ hr).clean e he haction)

theorem Covers.self (hq : q.part = .expr e) (h : q.Covers es) : q.Covers (e :: es) := by
  intro hclean e' he' haction
  obtain rfl | he' := List.mem_cons.1 he'
  · exact .here hq
  · exact h hclean e' he' haction

/-- An expression that is no action, with nothing inside. -/
theorem Covers.idle (h : e.isAction = false) (hes : q.Covers es) : q.Covers (e :: es) := by
  intro hclean e' he' haction
  obtain rfl | he' := List.mem_cons.1 he'
  · exact absurd (h.symm.trans haction) Bool.false_ne_true
  · exact hes hclean e' he' haction

/-- The object of a member is a package or is looked at. -/
theorem covers_object {ctx : Context} {a : Analysis} {object : Expr}
    (hsub : ∀ c ∈ object.objectChildren ctx a, c ∈ q.children)
    (hobject : ∀ a, Covers ⟨ctx, .expr object, a⟩ object.exprs) : q.Covers object.exprs := by
  rw [Expr.objectChildren] at hsub
  cases hpackage : a.answer (Check.packageOf? object) with
  | none =>
    rw [hpackage] at hsub
    exact .inside (hsub _ List.mem_cons_self) (hobject _)
  | some package =>
    cases object with
    | ident n => exact .idle rfl (covers_nil q)
    | _ => cases hpackage

theorem covers_exprIf {ctx : Context} {a : Analysis} {role : Role} {e? : Option Expr}
    (h : ∀ e, e? = some e → ∀ ctx a, Covers ⟨ctx, .expr e, a⟩ e.exprs)
    (hsub : ∀ c ∈ Expr.childIf ctx a role e?, c ∈ q.children) : q.Covers (Expr.exprsIf e?) := by
  cases e? with
  | some e => exact .inside (hsub _ List.mem_cons_self) (h e rfl _ _)
  | none => exact covers_nil q

theorem covers_stmtIf {ctx : Context} {a : Analysis} {s? : Option Stmt}
    (h : ∀ s, s? = some s → ∀ ctx a, Covers ⟨ctx, .stmt s, a⟩ s.exprs)
    (hsub : ∀ c ∈ Stmt.childIf ctx a s?, c ∈ q.children) : q.Covers (Stmt.exprsIf s?) := by
  cases s? with
  | some s => exact .inside (hsub _ List.mem_cons_self) (h s rfl _ _)
  | none => exact covers_nil q

theorem covers_blockIf {ctx : Context} {a : Analysis} {b? : Option Block}
    (h : ∀ b, b? = some b → ∀ ctx kind a, Covers ⟨ctx, .block kind b, a⟩ b.exprs)
    (hsub : ∀ c ∈ Block.childIf ctx a b?, c ∈ q.children) : q.Covers (Block.exprsIf b?) := by
  cases b? with
  | some b => exact .inside (hsub _ List.mem_cons_self) (h b rfl _ _ _)
  | none => exact covers_nil q

/-! ## The walk -/

mutual

theorem covers_expr : (e : Expr) → ∀ ctx a, Covers ⟨ctx, .expr e, a⟩ e.exprs
  | .ident _, _, _ | .int .., _, _ | .float .., _, _ | .string .., _, _ | .char .., _, _
  | .bool .., _, _ | .null _, _, _ | .this _, _, _ | .super _, _, _ | .templateInstance .., _, _ =>
    .idle rfl (covers_nil _)
  | .prefixed _ right _, _, _ => .self rfl (.inside (.head _) (covers_expr right _ _))
  | .binary _ left right _, _, _ =>
    .self rfl (.append (.inside (.head _) (covers_expr left _ _))
      (.inside (.tail _ (.head _)) (covers_expr right _ _)))
  | .postfixed _ operand _, _, _ => .self rfl (.inside (.head _) (covers_expr operand _ _))
  | .assign op target value _, ctx, a => by
    have htarget := covers_expr target ctx (a.after (Check.checkTarget target))
    have hvalue := fun a => covers_expr value ctx a
    cases op with
    | define =>
      cases target with
      | ident n => exact .self rfl (.idle rfl (.inside (.head _) (hvalue _)))
      | _ => exact .self rfl (.append (.inside (.head _) htarget)
          (.inside (.tail _ (.head _)) (hvalue _)))
    | _ => exact .self rfl (.append (.inside (.head _) htarget)
        (.inside (.tail _ (.head _)) (hvalue _)))
  | .call function args span, ctx, a => by
    have hargs := fun callee index params a => covers_arguments args ctx callee index params a
    have hfunction := fun a => covers_expr function ctx a
    refine .self rfl (.append ?_ (.inside (List.mem_append_right _ (.head _)) (hargs _ _ _ _)))
    cases function with
    | ident n => exact .idle rfl (covers_nil _)
    | templateInstance n typeArgs instanceSpan => exact .idle rfl (covers_nil _)
    | member object property arrow memberSpan =>
      have hobject := fun a => covers_expr object ctx a
      exact .idle rfl (covers_object (fun c hc => List.mem_append_left _ hc) hobject)
    | _ => exact .inside (List.mem_append_left _ (.head _)) (hfunction _)
  | .index object key _, _, _ =>
    .self rfl (.append (.inside (.head _) (covers_expr object _ _))
      (.inside (.tail _ (.head _)) (covers_expr key _ _)))
  | .member object _ _ _, ctx, _ =>
    .self rfl (covers_object (fun _ hc => hc) fun a => covers_expr object ctx a)
  | .array elements _, _, _ => .self rfl (.inside (.head _) (covers_elements elements _ _ _))
  | .hash entries _, _, _ =>
    .self rfl (.append (.inside (.head _) (covers_keys entries _ _ _))
      (.inside (.tail _ (.head _)) (covers_values entries _ _ _)))
  | .lambda _ _ body _, _, _ => .self rfl (.inside (.head _) (covers_function body _ _ _ _))
  | .new _ args _, _, _ => .self rfl (.inside (.head _) (covers_arguments args _ _ _ _ _))

theorem covers_arguments : (es : List Expr) → ∀ ctx callee index params a,
    Covers ⟨ctx, .arguments callee index params es, a⟩ (Expr.exprsOfAll es)
  | [], _, _, _, _, _ => covers_nil _
  | e :: es, _, _, _, _, _ => .append (.inside (.head _) (covers_expr e _ _))
      (.inside (.tail _ (.head _)) (covers_arguments es _ _ _ _ _))

theorem covers_elements : (es : List Expr) → ∀ ctx common? a,
    Covers ⟨ctx, .elements common? es, a⟩ (Expr.exprsOfAll es)
  | [], _, _, _ => covers_nil _
  | e :: es, _, _, _ => .append (.inside (.head _) (covers_expr e _ _))
      (.inside (.tail _ (.head _)) (covers_elements es _ _ _))

theorem covers_keys : (es : List Entry) → ∀ ctx common? a,
    Covers ⟨ctx, .keys common? es, a⟩ (Entry.exprsOfKeys es)
  | [], _, _, _ => covers_nil _
  | ⟨key, _⟩ :: es, _, _, _ => .append (.inside (.head _) (covers_expr key _ _))
      (.inside (.tail _ (.head _)) (covers_keys es _ _ _))

theorem covers_values : (es : List Entry) → ∀ ctx common? a,
    Covers ⟨ctx, .values common? es, a⟩ (Entry.exprsOfValues es)
  | [], _, _, _ => covers_nil _
  | ⟨_, value⟩ :: es, _, _, _ => .append (.inside (.head _) (covers_expr value _ _))
      (.inside (.tail _ (.head _)) (covers_values es _ _ _))

theorem covers_function : (b : Block) → ∀ ctx params sig a,
    Covers ⟨ctx, .function params sig b, a⟩ b.exprs
  | ⟨stmts, _⟩, _, _, _, _ => .inside (.head _) (covers_stmts stmts _ _)

theorem covers_stmt : (s : Stmt) → ∀ ctx a, Covers ⟨ctx, .stmt s, a⟩ s.exprs
  | .package .., _, _ | .interface .., _, _ | .imports .., _, _ | .break_ _, _, _
  | .continue_ _, _, _ => covers_nil _
  | .var _ _ value? _, _, _ => covers_exprIf (covers_exprOption value?) fun _ hc => hc
  | .const _ _ value _, _, _ => .inside (.head _) (covers_expr value _ _)
  | .ret value? _, _, _ => covers_exprIf (covers_exprOption value?) fun _ hc => hc
  | .expr e, _, _ => .inside (.head _) (covers_expr e _ _)
  | .block b, _, _ => .inside (.head _) (covers_block b _ _ _)
  | .ifElse condition consequence alternative? _, _, _ =>
    .append (.inside (.head _) (covers_expr condition _ _))
      (.append (.inside (.tail _ (.head _)) (covers_block consequence _ _ _))
        (covers_stmtIf (covers_stmtOption alternative?) fun _ hc => List.mem_append_right _ hc))
  | .forLoop init? condition? post? body _, _, _ =>
    .append (covers_stmtIf (covers_stmtOption init?) fun _ hc =>
        List.mem_append_left _ (List.mem_append_left _ (List.mem_append_left _ hc)))
      (.append (covers_exprIf (covers_exprOption condition?) fun _ hc =>
          List.mem_append_left _ (List.mem_append_left _ (List.mem_append_right _ hc)))
        (.append (covers_stmtIf (covers_stmtOption post?) fun _ hc =>
            List.mem_append_left _ (List.mem_append_right _ hc))
          (.inside (List.mem_append_right _ (.head _)) (covers_block body _ _ _))))
  | .whileLoop condition body _, _, _ =>
    .append (.inside (.head _) (covers_expr condition _ _))
      (.inside (.tail _ (.head _)) (covers_block body _ _ _))
  | .switch tag? cases_ default? _, _, _ =>
    .append (covers_exprIf (covers_exprOption tag?) fun _ hc =>
        List.mem_append_left _ (List.mem_append_left _ hc))
      (.append (.inside (List.mem_append_left _ (List.mem_append_right _ (.head _)))
          (covers_caseValues cases_ _ _ _))
        (.append (.inside (List.mem_append_left _ (List.mem_append_right _ (.tail _ (.head _))))
            (covers_caseBodies cases_ _ _))
          (covers_blockIf (covers_blockOption default?) fun _ hc => List.mem_append_right _ hc)))
  | .function ⟨_, _, _, body, _, _⟩, _, _ => .inside (.head _) (covers_function body _ _ _ _)
  | .method ⟨_, _, _, _, body, _⟩, _, _ => .inside (.head _) (covers_function body _ _ _ _)
  | .class_ ⟨_, _, _, members, _⟩, _, _ => .inside (.head _) (covers_members members _ _ _)
  | .template params body span, ctx, a => by
    have hbody := fun a => covers_stmt body ctx a
    cases body with
    | function f =>
      obtain ⟨name, fparams, ret?, body, modifiers, fspan⟩ := f
      exact .inside (.head _) (covers_function body _ _ _ _)
    | class_ c =>
      obtain ⟨name, extends?, implements, members, cspan⟩ := c
      exact .inside (.head _) (covers_members members _ _ _)
    | _ => exact .inside (.head _) (hbody _)
  | .tryCatch body catches finally? _, _, _ =>
    .append (.inside (.head _) (covers_block body _ _ _))
      (.append (.inside (.tail _ (.head _)) (covers_catches catches _ _))
        (covers_blockIf (covers_blockOption finally?) fun _ hc => List.mem_append_right _ hc))
  | .throw value _, _, _ => .inside (.head _) (covers_expr value _ _)
  | .scope b _, _, _ => .inside (.head _) (covers_block b _ _ _)

theorem covers_exprOption : (e? : Option Expr) → ∀ e, e? = some e → ∀ ctx a,
    Covers ⟨ctx, .expr e, a⟩ e.exprs
  | some e, _, rfl => covers_expr e

theorem covers_stmtOption : (s? : Option Stmt) → ∀ s, s? = some s → ∀ ctx a,
    Covers ⟨ctx, .stmt s, a⟩ s.exprs
  | some s, _, rfl => covers_stmt s

theorem covers_blockOption : (b? : Option Block) → ∀ b, b? = some b → ∀ ctx kind a,
    Covers ⟨ctx, .block kind b, a⟩ b.exprs
  | some b, _, rfl => covers_block b

theorem covers_stmts : (ss : List Stmt) → ∀ ctx a,
    Covers ⟨ctx, .stmts ss, a⟩ (Stmt.exprsOfAll ss)
  | [], _, _ => covers_nil _
  | s :: ss, _, _ => .append (.inside (.head _) (covers_stmt s _ _))
      (.inside (.tail _ (.head _)) (covers_stmts ss _ _))

theorem covers_block : (b : Block) → ∀ ctx kind a, Covers ⟨ctx, .block kind b, a⟩ b.exprs
  | ⟨stmts, _⟩, _, _, _ => .inside (.head _) (covers_stmts stmts _ _)

theorem covers_tagged : (es : List Expr) → ∀ ctx tag? a,
    Covers ⟨ctx, .tagged tag? es, a⟩ (Expr.exprsOfAll es)
  | [], _, _, _ => covers_nil _
  | e :: es, _, _, _ => .append (.inside (.head _) (covers_expr e _ _))
      (.inside (.tail _ (.head _)) (covers_tagged es _ _ _))

theorem covers_caseValues : (cs : List Case) → ∀ ctx tag? a,
    Covers ⟨ctx, .caseValues tag? cs, a⟩ (Case.exprsOfValues cs)
  | [], _, _, _ => covers_nil _
  | ⟨values, _, _⟩ :: cs, _, _, _ => .append (.inside (.head _) (covers_tagged values _ _ _))
      (.inside (.tail _ (.head _)) (covers_caseValues cs _ _ _))

theorem covers_caseBodies : (cs : List Case) → ∀ ctx a,
    Covers ⟨ctx, .caseBodies cs, a⟩ (Case.exprsOfBodies cs)
  | [], _, _ => covers_nil _
  | ⟨_, body, _⟩ :: cs, _, _ => .append (.inside (.head _) (covers_block body _ _ _))
      (.inside (.tail _ (.head _)) (covers_caseBodies cs _ _))

theorem covers_catches : (cs : List Catch) → ∀ ctx a,
    Covers ⟨ctx, .catches cs, a⟩ (Catch.exprsOfAll cs)
  | [], _, _ => covers_nil _
  | ⟨_, _, ⟨stmts, _⟩, _⟩ :: cs, _, _ => .append (.inside (.head _) (covers_stmts stmts _ _))
      (.inside (.tail _ (.head _)) (covers_catches cs _ _))

theorem covers_members : (ms : List Member) → ∀ ctx info? a,
    Covers ⟨ctx, .members info? ms, a⟩ (Member.exprsOfAll ms)
  | [], _, _, _ => covers_nil _
  | .field ⟨_, _, value?, _, _, _⟩ :: ms, _, _, _ =>
    .append (covers_exprIf (covers_exprOption value?) fun _ hc => List.mem_append_left _ hc)
      (.inside (List.mem_append_right _ (.head _)) (covers_members ms _ _ _))
  | .method ⟨_, _, _, body, _, _⟩ :: ms, _, _, _ =>
    .append (.inside (.head _) (covers_function body _ _ _ _))
      (.inside (.tail _ (.head _)) (covers_members ms _ _ _))

end

end Point

/-- In a program without errors, analysis comes to every call and every assignment. -/
theorem Program.visited {p : Program} {inference : Bool}
    (h : (analyze p inference).hasErrors = false) {e : Expr} (he : e ∈ p.exprs)
    (haction : e.isAction = true) : ∃ q : Point, q.Visited p inference ∧ q.part = .expr e := by
  have hclean := Point.Visited.clean (.refl : Point.Visited p inference _) h
  exact Point.covers_stmts p.stmts _ _ hclean e he haction

end ClassLang
