import ClassLang.Gen.State

/-!
# What trees ask for

A tree asks the generator for things that may go wrong or have consequences elsewhere: templates get
type arguments, names are called, places are assigned to, loops are left. `Demand` lists them, and
`demands` gathers those of a tree in a list, which depends on whether the tree stands in a loop or in
a switch. Every statement asks for its own code, too, in the try statements whose body or catch clause
it belongs to. Classes, methods and templates ask for nothing where they are declared inside of a
function, since no code is generated for them there.
-/

namespace ClassLang

/-- Something that a tree asks for. -/
inductive Demand where
  /-- A template gets a written type argument. -/
  | argument (e : TypeExpr)
  /-- A name is called, whose type arguments are to be inferred if it is a template. -/
  | call (name : String)
  /-- A value is assigned, to a new variable if `defines` is set. -/
  | target (defines : Bool) (e : Expr)
  /-- A loop or a switch is left, or a loop goes on; `placed` if there is one around. -/
  | jump (placed : Bool)
  /-- Code is generated for a statement. -/
  | visit (v : Visit)

/-- Whether a value can be assigned to an expression. Only a name can be defined. -/
def Expr.isTarget (defines : Bool) : Expr → Bool
  | .ident _ => true
  | .member .. | .index .. => !defines
  | _ => false

/-- Whether the demand is one for a jump or an assignment that makes sense where it stands, if it is
one for a jump or an assignment at all. -/
def Demand.isPlaced : Demand → Bool
  | argument _ | call _ | visit _ => true
  | target defines e => e.isTarget defines
  | jump placed => placed

mutual

def TypeExpr.demands : TypeExpr → List Demand
  | .named _ => []
  | .array element _ => element.demands
  | .map key value _ => key.demands ++ value.demands
  | .pointer inner _ => inner.demands
  | .generic _ args _ => TypeExpr.demandsOfArguments args

/-- What a template asks for that gets these type arguments. -/
def TypeExpr.demandsOfArguments : List TypeExpr → List Demand
  | [] => []
  | e :: es => .argument e :: (e.demands ++ TypeExpr.demandsOfArguments es)

end

/-- What a type that may be left out asks for. -/
def TypeExpr.demandsIf (e? : Option TypeExpr) : List Demand := e?.toList.flatMap TypeExpr.demands

/-- What the types ask for that are written with the parameters and the result of a function. -/
def signatureDemands (params : List Param) (ret? : Option TypeExpr) : List Demand :=
  params.flatMap (fun p => TypeExpr.demandsIf p.type?) ++ TypeExpr.demandsIf ret?

/-- What a called expression asks for as the callee. -/
def Expr.calleeDemands : Expr → List Demand
  | .ident n => [.call n.name]
  | _ => []

mutual

def Expr.demands : Expr → List Demand
  | .ident _ | .int .. | .float .. | .string .. | .char .. | .bool .. | .null _ | .this _
  | .super _ => []
  | .prefixed _ right _ => right.demands
  | .binary _ left right _ => left.demands ++ right.demands
  | .postfixed _ operand _ => .target false operand :: operand.demands
  | .assign op target value _ =>
    .target (op == .define) target :: (target.demands ++ value.demands)
  | .call function args _ => function.calleeDemands ++ (function.demands ++ Expr.demandsAll args)
  | .index object key _ => object.demands ++ key.demands
  | .member object _ _ _ => object.demands
  | .array elements _ => Expr.demandsAll elements
  | .hash entries _ => Entry.demandsAll entries
  | .lambda params ret? body _ => signatureDemands params ret? ++ body.demands false false []
  | .new type args _ => type.demands ++ Expr.demandsAll args
  | .templateInstance _ typeArgs _ => TypeExpr.demandsOfArguments typeArgs

def Expr.demandsAll : List Expr → List Demand
  | [] => []
  | e :: es => e.demands ++ Expr.demandsAll es

def Entry.demandsAll : List Entry → List Demand
  | [] => []
  | ⟨key, value⟩ :: es => key.demands ++ (value.demands ++ Entry.demandsAll es)

def Expr.demandsIf : Option Expr → List Demand
  | some e => e.demands
  | none => []

/-- What a statement asks for besides its own code. It stands in a loop or in a switch, as the flags
tell, and in try statements with these final blocks. -/
def Stmt.demands (loop switch : Bool) (tries : List (Option Block)) : Stmt → List Demand
  | .package .. | .imports .. | .method _ | .class_ _ | .interface .. | .template .. => []
  | .var _ type? value? _ => TypeExpr.demandsIf type? ++ Expr.demandsIf value?
  | .const _ type? value _ => TypeExpr.demandsIf type? ++ value.demands
  | .ret value? _ => Expr.demandsIf value?
  | .expr value | .throw value _ => value.demands
  | .block body | .scope body _ => body.demands loop switch tries
  | .ifElse condition consequence alternative? _ =>
    condition.demands ++
      (consequence.demands loop switch tries ++ Stmt.demandsIf loop switch tries alternative?)
  | .forLoop init? condition? post? body _ =>
    Stmt.demandsIf loop switch tries init? ++ (Expr.demandsIf condition? ++
      (body.demands true switch tries ++ Stmt.demandsIf loop switch tries post?))
  | .whileLoop condition body _ => condition.demands ++ body.demands true switch tries
  | .switch tag? cases default? _ =>
    Expr.demandsIf tag? ++ (Case.demandsOfValues cases ++
      (Case.demandsOfBodies loop true tries cases ++ Block.demandsIf loop true tries default?))
  | .break_ _ => [.jump (loop || switch)]
  | .continue_ _ => [.jump loop]
  | .function ⟨_, params, ret?, body, _, _⟩ =>
    signatureDemands params ret? ++ body.demands false false []
  | .tryCatch body catches finally? _ =>
    body.demands loop switch (finally? :: tries) ++
      (Catch.demandsAll loop switch (finally? :: tries) catches ++
        Block.demandsIf loop switch tries finally?)

def Stmt.demandsAll (loop switch : Bool) (tries : List (Option Block)) : List Stmt → List Demand
  | [] => []
  | s :: ss =>
    .visit ⟨s, tries⟩ :: (s.demands loop switch tries ++ Stmt.demandsAll loop switch tries ss)

def Stmt.demandsIf (loop switch : Bool) (tries : List (Option Block)) : Option Stmt → List Demand
  | some s => .visit ⟨s, tries⟩ :: s.demands loop switch tries
  | none => []

def Block.demands (loop switch : Bool) (tries : List (Option Block)) : Block → List Demand
  | ⟨body, _⟩ => Stmt.demandsAll loop switch tries body

def Block.demandsIf (loop switch : Bool) (tries : List (Option Block)) : Option Block → List Demand
  | some b => b.demands loop switch tries
  | none => []

def Case.demandsOfValues : List Case → List Demand
  | [] => []
  | ⟨values, _, _⟩ :: cs => Expr.demandsAll values ++ Case.demandsOfValues cs

def Case.demandsOfBodies (loop switch : Bool) (tries : List (Option Block)) : List Case → List Demand
  | [] => []
  | ⟨_, body, _⟩ :: cs => body.demands loop switch tries ++ Case.demandsOfBodies loop switch tries cs

def Catch.demandsAll (loop switch : Bool) (tries : List (Option Block)) : List Catch → List Demand
  | [] => []
  | ⟨_, type?, body, _⟩ :: cs =>
    TypeExpr.demandsIf type? ++
      (body.demands loop switch tries ++ Catch.demandsAll loop switch tries cs)

end

/-! ## Declarations -/

def Function.demands (f : Function) : List Demand :=
  signatureDemands f.params f.ret? ++ f.body.demands false false []

def Method.demands (m : Method) : List Demand :=
  signatureDemands m.params m.ret? ++ m.body.demands false false []

def Field.demands (f : Field) : List Demand :=
  TypeExpr.demandsIf f.type? ++ Expr.demandsIf f.value?

def Member.demands : Member → List Demand
  | .field f => f.demands
  | .method f => f.demands

def Class.demands (c : Class) : List Demand :=
  c.fields.flatMap Field.demands ++ c.methods.flatMap Function.demands

/-- What the function or the class of a template asks for. -/
def Stmt.templateDemands : Stmt → List Demand
  | .function f => f.demands
  | .class_ c => c.demands
  | _ => []

/-- What a statement of the top level asks for. -/
def Stmt.topDemands : Stmt → List Demand
  | .function f => f.demands
  | .class_ c => c.demands
  | .method m => m.demands
  | .template _ body _ => body.templateDemands
  | s => .visit ⟨s, []⟩ :: s.demands false false []

/-- What a program asks for. -/
def Program.demands (p : Program) : List Demand := p.stmts.flatMap Stmt.topDemands

/-! ## Demands that make sense -/

namespace Demand

/-- All of these demands make sense where they stand. -/
def Placed (L : List Demand) : Prop := ∀ m ∈ L, m.isPlaced = true

@[simp] theorem placed_nil : Placed [] := fun _ hm => nomatch hm

@[simp] theorem placed_cons (m : Demand) (L : List Demand) :
    Placed (m :: L) ↔ m.isPlaced = true ∧ Placed L := List.forall_mem_cons

@[simp] theorem placed_append (L M : List Demand) : Placed (L ++ M) ↔ Placed L ∧ Placed M :=
  List.forall_mem_append

end Demand

open Demand (Placed)

mutual

/-- Types demand neither jumps nor assignments. -/
@[simp] theorem TypeExpr.placed_demands : (e : TypeExpr) → Placed e.demands
  | .named _ => by rw [TypeExpr.demands]; exact Demand.placed_nil
  | .array element _ => by rw [TypeExpr.demands]; exact element.placed_demands
  | .map key value _ => by
    rw [TypeExpr.demands, Demand.placed_append]
    exact ⟨key.placed_demands, value.placed_demands⟩
  | .pointer inner _ => by rw [TypeExpr.demands]; exact inner.placed_demands
  | .generic _ args _ => by rw [TypeExpr.demands]; exact TypeExpr.placed_demandsOfArguments args

@[simp] theorem TypeExpr.placed_demandsOfArguments :
    (es : List TypeExpr) → Placed (TypeExpr.demandsOfArguments es)
  | [] => by rw [TypeExpr.demandsOfArguments]; exact Demand.placed_nil
  | e :: es => by
    rw [TypeExpr.demandsOfArguments, Demand.placed_cons, Demand.placed_append]
    exact ⟨rfl, e.placed_demands, TypeExpr.placed_demandsOfArguments es⟩

end

@[simp] theorem TypeExpr.placed_demandsIf (e? : Option TypeExpr) :
    Placed (TypeExpr.demandsIf e?) := by
  cases e? with
  | some e => simp [TypeExpr.demandsIf]
  | none => exact Demand.placed_nil

@[simp] theorem placed_signatureDemands (params : List Param) (ret? : Option TypeExpr) :
    Placed (signatureDemands params ret?) := by
  rw [signatureDemands, Demand.placed_append]
  refine ⟨fun m hm => ?_, TypeExpr.placed_demandsIf ret?⟩
  obtain ⟨p, _, hm⟩ := List.mem_flatMap.1 hm
  exact TypeExpr.placed_demandsIf p.type? m hm

/-- The demands of a class are those of its members. -/
theorem Class.mem_demands {c : Class} {m : Demand} :
    m ∈ c.demands ↔ ∃ member ∈ c.members, m ∈ member.demands := by
  simp only [Class.demands, Class.fields, Class.methods, List.mem_append, List.mem_flatMap,
    List.mem_filterMap]
  constructor
  · rintro (⟨f, ⟨member, hmember, hf⟩, hm⟩ | ⟨f, ⟨member, hmember, hf⟩, hm⟩)
    · cases member with
      | field _ => cases hf; exact ⟨_, hmember, hm⟩
      | method _ => cases hf
    · cases member with
      | field _ => cases hf
      | method _ => cases hf; exact ⟨_, hmember, hm⟩
  · rintro ⟨f | f, hmember, hm⟩
    · exact .inl ⟨f, ⟨_, hmember, rfl⟩, hm⟩
    · exact .inr ⟨f, ⟨_, hmember, rfl⟩, hm⟩

end ClassLang
