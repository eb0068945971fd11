import ClassLang.Span

/-!
# Tokens

A token is a classified stretch of source text. Keywords and the marks (operators and punctuation)
are closed lists with one spelling each; the remaining kinds are the literal classes, the end of the
text, and a character that belongs to no class.
-/

namespace ClassLang

/-- The reserved words. -/
inductive Keyword where
  | packageKw | importKw | funcKw | varKw | constKw | returnKw | ifKw | elseKw | forKw | whileKw
  | breakKw | continueKw | structKw | interfaceKw | mapKw | chanKw | goKw | deferKw | selectKw
  | switchKw | caseKw | defaultKw | typeKw | fallthroughKw | rangeKw | classKw | templateKw
  | throwKw | tryKw | catchKw | finallyKw | scopeKw | publicKw | privateKw | protectedKw | newKw
  | deleteKw | unsafeKw | allocKw | freeKw | thisKw | superKw | nilKw | trueKw | falseKw
  | extendsKw | implementsKw | virtualKw | overrideKw | finalKw | abstractKw | staticKw
  | constexprKw | namespaceKw | usingKw | friendKw | operatorKw
deriving DecidableEq, Repr, Inhabited

namespace Keyword

/-- Every keyword once. -/
def all : List Keyword :=
  [packageKw, importKw, funcKw, varKw, constKw, returnKw, ifKw, elseKw, forKw, whileKw,
   breakKw, continueKw, structKw, interfaceKw, mapKw, chanKw, goKw, deferKw, selectKw,
   switchKw, caseKw, defaultKw, typeKw, fallthroughKw, rangeKw, classKw, templateKw,
   throwKw, tryKw, catchKw, finallyKw, scopeKw, publicKw, privateKw, protectedKw, newKw,
   deleteKw, unsafeKw, allocKw, freeKw, thisKw, superKw, nilKw, trueKw, falseKw,
   extendsKw, implementsKw, virtualKw, overrideKw, finalKw, abstractKw, staticKw,
   constexprKw, namespaceKw, usingKw, friendKw, operatorKw]

/-- The word as written in source. -/
def spelling : Keyword → String
  | packageKw => "package" | importKw => "import" | funcKw => "func" | varKw => "var"
  | constKw => "const" | returnKw => "return" | ifKw => "if" | elseKw => "else" | forKw => "for"
  | whileKw => "while" | breakKw => "break" | continueKw => "continue" | structKw => "struct"
  | interfaceKw => "interface" | mapKw => "map" | chanKw => "chan" | goKw => "go"
  | deferKw => "defer" | selectKw => "select" | switchKw => "switch" | caseKw => "case"
  | defaultKw => "default" | typeKw => "type" | fallthroughKw => "fallthrough"
  | rangeKw => "range" | classKw => "class" | templateKw => "template" | throwKw => "throw"
  | tryKw => "try" | catchKw => "catch" | finallyKw => "finally" | scopeKw => "scope"
  | publicKw => "public" | privateKw => "private" | protectedKw => "protected" | newKw => "new"
  | deleteKw => "delete" | unsafeKw => "unsafe" | allocKw => "alloc" | freeKw => "free"
  | thisKw => "this" | superKw => "super" | nilKw => "nil" | trueKw => "true"
  | falseKw => "false" | extendsKw => "extends" | implementsKw => "implements"
  | virtualKw => "virtual" | overrideKw => "override" | finalKw => "final"
  | abstractKw => "abstract" | staticKw => "static" | constexprKw => "constexpr"
  | namespaceKw => "namespace" | usingKw => "using" | friendKw => "friend"
  | operatorKw => "operator"

/-- The name used in messages: the spelling in capitals, except that the null literal is `NULL`. -/
def display : Keyword → String
  | nilKw => "NULL"
  | k => String.ofList (k.spelling.toList.map Char.toUpper)

/-- The keyword a word spells, if any. -/
def ofSpelling? (word : List Char) : Option Keyword :=
  all.find? fun k => k.spelling.toList == word

/-- The modifiers that may stand before a class member. -/
def isMemberModifier : Keyword → Bool
  | publicKw | privateKw | protectedKw | virtualKw | overrideKw | staticKw | finalKw | abstractKw =>
    true
  | _ => false

end Keyword

/-- Operators and punctuation. -/
inductive Mark where
  | assign | plus | minus | bang | star | slash | percent | increment | decrement
  | lt | gt | ltEq | gtEq | eqEq | notEq
  | plusAssign | minusAssign | starAssign | slashAssign | percentAssign
  | amp | pipe | caret | tilde | shiftLeft | shiftRight
  | ampAssign | pipeAssign | caretAssign | shiftLeftAssign | shiftRightAssign
  | andAnd | orOr | arrow | colonColon
  | comma | semicolon | colon | dot | define
  | lParen | rParen | lBrace | rBrace | lBracket | rBracket
deriving DecidableEq, Repr, Inhabited

namespace Mark

/-- The mark as written in source. -/
def spelling : Mark → String
  | assign => "=" | plus => "+" | minus => "-" | bang => "!" | star => "*" | slash => "/"
  | percent => "%" | increment => "++" | decrement => "--" | lt => "<" | gt => ">"
  | ltEq => "<=" | gtEq => ">=" | eqEq => "==" | notEq => "!=" | plusAssign => "+="
  | minusAssign => "-=" | starAssign => "*=" | slashAssign => "/=" | percentAssign => "%="
  | amp => "&" | pipe => "|" | caret => "^" | tilde => "~" | shiftLeft => "<<"
  | shiftRight => ">>" | ampAssign => "&=" | pipeAssign => "|=" | caretAssign => "^="
  | shiftLeftAssign => "<<=" | shiftRightAssign => ">>=" | andAnd => "&&" | orOr => "||"
  | arrow => "->" | colonColon => "::" | comma => "," | semicolon => ";" | colon => ":"
  | dot => "." | define => ":=" | lParen => "(" | rParen => ")" | lBrace => "\x7b"
  | rBrace => "\x7d" | lBracket => "[" | rBracket => "]"

/-- Every mark once, longer spellings first. -/
def all : List Mark :=
  [shiftLeftAssign, shiftRightAssign,
   increment, decrement, ltEq, gtEq, eqEq, notEq, plusAssign, minusAssign, starAssign,
   slashAssign, percentAssign, ampAssign, pipeAssign, caretAssign, shiftLeft, shiftRight,
   andAnd, orOr, arrow, colonColon, define,
   assign, plus, minus, bang, star, slash, percent, lt, gt, amp, pipe, caret, tilde,
   comma, semicolon, colon, dot, lParen, rParen, lBrace, rBrace, lBracket, rBracket]

/-- The longest mark that the text starts with. -/
def atHead? (text : List Char) : Option Mark :=
  all.find? fun m => m.spelling.toList.isPrefixOf text

end Mark

/-- The class of a token. -/
inductive TokenKind where
  | illegal
  | eof
  | ident
  | int
  | float
  | string
  | char
  | mark (m : Mark)
  | keyword (k : Keyword)
deriving DecidableEq, Repr, Inhabited

namespace TokenKind

instance : Coe Mark TokenKind := ⟨mark⟩

instance : Coe Keyword TokenKind := ⟨keyword⟩

/-- The name used in messages. -/
def display : TokenKind → String
  | illegal => "ILLEGAL"
  | eof => "EOF"
  | ident => "IDENT"
  | int => "INT"
  | float => "FLOAT"
  | string => "STRING"
  | char => "CHAR"
  | mark m => m.spelling
  | keyword k => k.display

def isKeyword : TokenKind → Bool
  | keyword _ => true
  | _ => false

def isMemberModifier : TokenKind → Bool
  | keyword k => k.isMemberModifier
  | _ => false

/-- The class of a word: a keyword, or an identifier. -/
def ofWord (word : List Char) : TokenKind :=
  match Keyword.ofSpelling? word with
  | some k => k
  | none => ident

end TokenKind

/-- A classified stretch of source text. The literal is the text itself, for string and character
literals without the delimiters. -/
structure Token where
  kind : TokenKind
  literal : String
  span : Span
deriving DecidableEq, Repr, Inhabited

end ClassLang
