import ClassLang.Check.Body

/-!
# Names that are bound in place

A declaration binds its name in the scope in which it stands, and so does an assignment that defines
a variable, wherever in an expression it is. Blocks, loops with an initial statement, clauses and
functions have scopes of their own, so what is bound in them is no concern of the scope around them.
-/

namespace ClassLang

/-- What is said of a part that may be left out. -/
def IfAny {α : Type} (p : α → Prop) : Option α → Prop
  | some a => p a
  | none => True

mutual

/-- An expression binds no other names than `N` in the scope in which it stands. -/
def Expr.BindsOnly (N : String → Prop) : Expr → Prop
  | .ident _ | .int .. | .float .. | .string .. | .char .. | .bool .. | .null _ | .lambda ..
  | .this _ | .super _ | .templateInstance .. => True
  | .prefixed _ right _ => right.BindsOnly N
  | .binary _ left right _ => left.BindsOnly N ∧ right.BindsOnly N
  | .postfixed _ operand _ => operand.BindsOnly N
  | .assign .define (.ident n) value _ => N n.name ∧ value.BindsOnly N
  | .assign _ target value _ => target.BindsOnly N ∧ value.BindsOnly N
  | .call function args _ => function.BindsOnly N ∧ Expr.AllBindOnly N args
  | .index object key _ => object.BindsOnly N ∧ key.BindsOnly N
  | .member object _ _ _ => object.BindsOnly N
  | .array elements _ => Expr.AllBindOnly N elements
  | .hash entries _ => Entry.AllBindOnly N entries
  | .new _ args _ => Expr.AllBindOnly N args

def Expr.AllBindOnly (N : String → Prop) : List Expr → Prop
  | [] => True
  | e :: es => e.BindsOnly N ∧ Expr.AllBindOnly N es

def Entry.AllBindOnly (N : String → Prop) : List Entry → Prop
  | [] => True
  | ⟨key, value⟩ :: es => (key.BindsOnly N ∧ value.BindsOnly N) ∧ Entry.AllBindOnly N es

end

mutual

theorem Expr.bindsOnly_true : (e : Expr) → e.BindsOnly fun _ => True
  | .ident _ | .int .. | .float .. | .string .. | .char .. | .bool .. | .null _ | .lambda ..
  | .this _ | .super _ | .templateInstance .. => trivial
  | .prefixed _ right _ => right.bindsOnly_true
  | .binary _ left right _ => ⟨left.bindsOnly_true, right.bindsOnly_true⟩
  | .postfixed _ operand _ => operand.bindsOnly_true
  | .assign op target value _ => by
    have htarget := target.bindsOnly_true
    have hvalue := value.bindsOnly_true
    cases op with
    | define =>
      cases target with
      | ident n => exact ⟨trivial, hvalue⟩
      | _ => exact ⟨htarget, hvalue⟩
    | _ => exact ⟨htarget, hvalue⟩
  | .call function args _ => ⟨function.bindsOnly_true, Expr.allBindOnly_true args⟩
  | .index object key _ => ⟨object.bindsOnly_true, key.bindsOnly_true⟩
  | .member object _ _ _ => object.bindsOnly_true
  | .array elements _ => Expr.allBindOnly_true elements
  | .hash entries _ => Entry.allBindOnly_true entries
  | .new _ args _ => Expr.allBindOnly_true args

theorem Expr.allBindOnly_true : (es : List Expr) → Expr.AllBindOnly (fun _ => True) es
  | [] => trivial
  | e :: es => ⟨e.bindsOnly_true, Expr.allBindOnly_true es⟩

theorem Entry.allBindOnly_true : (es : List Entry) → Entry.AllBindOnly (fun _ => True) es
  | [] => trivial
  | ⟨key, value⟩ :: es => ⟨⟨key.bindsOnly_true, value.bindsOnly_true⟩, Entry.allBindOnly_true es⟩

end

theorem Expr.ifBindsOnly_true (e? : Option Expr) : IfAny (Expr.BindsOnly fun _ => True) e? := by
  cases e? with
  | some e => exact e.bindsOnly_true
  | none => trivial

mutual

/-- A statement binds no other names than `N` in the scope in which it stands. -/
def Stmt.BindsOnly (N : String → Prop) : Stmt → Prop
  | .imports paths _ => ∀ path ∈ paths, N (Check.lastSegment path)
  | .var name _ value? _ => N name.name ∧ IfAny (Expr.BindsOnly N) value?
  | .const name _ value _ => N name.name ∧ value.BindsOnly N
  | .ret value? _ => IfAny (Expr.BindsOnly N) value?
  | .expr e | .throw e _ | .whileLoop e _ _ => e.BindsOnly N
  | .ifElse condition _ alternative? _ => condition.BindsOnly N ∧ Stmt.IfBindsOnly N alternative?
  | .switch tag? cases _ _ =>
    IfAny (Expr.BindsOnly N) tag? ∧ ∀ c ∈ cases, Expr.AllBindOnly N c.values
  | .package .. | .interface .. | .block _ | .forLoop .. | .break_ _ | .continue_ _ | .function _
  | .method _ | .class_ _ | .template .. | .tryCatch .. | .scope .. => True

def Stmt.IfBindsOnly (N : String → Prop) : Option Stmt → Prop
  | some s => s.BindsOnly N
  | none => True

end

mutual

theorem Stmt.bindsOnly_true : (s : Stmt) → s.BindsOnly fun _ => True
  | .imports .. => fun _ _ => trivial
  | .var _ _ value? _ => ⟨trivial, Expr.ifBindsOnly_true value?⟩
  | .const _ _ value _ => ⟨trivial, value.bindsOnly_true⟩
  | .ret value? _ => Expr.ifBindsOnly_true value?
  | .expr e | .throw e _ | .whileLoop e _ _ => e.bindsOnly_true
  | .ifElse condition _ alternative? _ =>
    ⟨condition.bindsOnly_true, Stmt.ifBindsOnly_true alternative?⟩
  | .switch tag? _ _ _ => ⟨Expr.ifBindsOnly_true tag?, fun _ _ => Expr.allBindOnly_true _⟩
  | .package .. | .interface .. | .block _ | .forLoop .. | .break_ _ | .continue_ _ | .function _
  | .method _ | .class_ _ | .template .. | .tryCatch .. | .scope .. => trivial

theorem Stmt.ifBindsOnly_true : (s? : Option Stmt) → Stmt.IfBindsOnly (fun _ => True) s?
  | some s => s.bindsOnly_true
  | none => trivial

end

end ClassLang
