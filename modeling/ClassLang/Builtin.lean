import ClassLang.Symbol

/-!
# Predeclared functions and packages
-/

namespace ClassLang.Builtin

/-- The packages whose members are known. -/
def packages : List String := ["fmt", "os", "math", "io", "strings"]

def isPackage (name : String) : Bool := packages.contains name

/-- The predeclared functions. -/
def functions : List (String × Signature) :=
  [("println", ⟨[], .void, true⟩),
   ("print", ⟨[], .void, true⟩),
   ("panic", ⟨[.unknown], .void, false⟩),
   ("recover", ⟨[], .unknown, false⟩),
   ("len", ⟨[.unknown], .int, false⟩),
   ("cap", ⟨[.unknown], .int, false⟩),
   ("make", ⟨[.unknown], .unknown, true⟩),
   ("new", ⟨[.unknown], .unknown, false⟩)]

/-- The symbol of a package. -/
def package (name : String) : Symbol := { name, kind := .package, ty := .unknown }

def function (name : String) (sig : Signature) : Symbol :=
  { name, kind := .function, ty := .unknown : Symbol }.withSignature sig

def symbols : List Symbol := functions.map (fun f => function f.1 f.2) ++ packages.map package

/-- Puts the predeclared symbols into the current scope, where their names are free. -/
def register (t : ScopeTree) : ScopeTree :=
  symbols.foldl (fun t s => match t.define s with | .ok t' => t' | .error _ => t) t

/-- The signature of a member of a known package. -/
def member? : (package member : String) → Option Signature
  | "fmt", "Println" | "fmt", "Printf" | "fmt", "Print" => some ⟨[], .void, true⟩
  | "fmt", "Sprintf" => some ⟨[], .string, true⟩
  | "os", "Exit" => some ⟨[.int], .void, false⟩
  | "os", "Getenv" => some ⟨[.string], .string, false⟩
  | "os", "Setenv" => some ⟨[.string, .string], .void, false⟩
  | "math", "Max" | "math", "Min" => some ⟨[.float, .float], .float, false⟩
  | "math", "Abs" => some ⟨[.float], .float, false⟩
  | _, _ => none

end ClassLang.Builtin
