import ClassLang.Parse.Stmt

/-!
# Reading programs

A program is read statement by statement. A statement that fails is recorded as an error, and
reading goes on at the next place where a statement plausibly starts.
-/

namespace ClassLang

namespace Parser

/-- The tokens at which recovery stops. -/
def statementStart : List TokenKind :=
  [Keyword.packageKw, Keyword.importKw, Keyword.funcKw, Keyword.varKw, Keyword.constKw,
   Keyword.ifKw, Keyword.forKw, Keyword.whileKw, Keyword.classKw, Keyword.returnKw, Keyword.tryKw,
   Keyword.throwKw, Keyword.scopeKw]

/-- Skips at most `fuel` tokens to a statement boundary. -/
def syncAt : (fuel : Nat) → Parser → Parser
  | 0, p => p
  | fuel + 1, p =>
    if p.atEof then p
    else if p.kind == Mark.semicolon then p.advanced
    else if statementStart.contains p.kind then p
    else syncAt fuel p.advanced

/-- Skips to the next statement boundary: before a token that starts a statement, or after a
semicolon. -/
def synced (p : Parser) : Parser := syncAt p.fuel p

/-- Records an error and moves on to where reading can continue. A failure that consumed nothing and
stopped on a statement keyword skips that keyword. -/
def recovered (before : Parser) (e : ParseError) (p : Parser) : Parser :=
  let p := { p with errors := p.errors ++ [e] }.synced
  if p.current.span.start == before.current.span.start && !p.atEof then p.advanced else p

/-- Reads statements up to the end, in at most `fuel` rounds. -/
def statementsAt : (fuel : Nat) → Parser → List Stmt × Parser
  | 0, p => ([], p)
  | fuel + 1, p =>
    if p.atEof then ([], p)
    else if p.kind == Mark.semicolon then statementsAt fuel p.advanced
    else match Parse.statement p with
      | .ok s p' =>
        let (ss, q) := statementsAt fuel p'
        (s :: ss, q)
      | .error e p' => statementsAt fuel (recovered p e p')

/-- Reads a whole program; the errors are in the state that is left. -/
def program (p : Parser) : Program × Parser :=
  let (stmts, q) := statementsAt p.fuel p
  let start := p.current.span
  let span := match stmts.getLast? with
    | some s => start.upTo s.span
    | none => start
  (⟨stmts, span⟩, q)

end Parser

/-- The program of a source text, as far as it could be read, and the errors met. -/
def parse (source : String) : Program × List ParseError :=
  let (program, p) := (Parser.ofSource source).program
  (program, p.errors)

end ClassLang
