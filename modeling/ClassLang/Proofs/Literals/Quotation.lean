import ClassLang.Gen.Program
import ClassLang.Parse.Stmt
import ClassLang.Proofs.Printing.Spelling
import ClassLang.Proofs.Tokens.Appending

/-!
# Quoting texts

Every text can be written as a string literal: `Literal.quote` puts it between double quotes, with a
backslash in front of each quote and each backslash in it. Backslashes are then looked at four
times. The scan takes the character after one as it is, the body of the literal is found by counting
them backwards, lowering reads escapes, and the printed constant writes bytes in hexadecimal. For a
quoted text these come to nothing: `arrives_quote` says that the constant holds the bytes of the
text.
-/

namespace ClassLang

/-! ## Quotation -/

namespace Literal

/-- A text with a backslash in front of each backslash and each double quote. -/
def protect : List Char → List Char
  | [] => []
  | c :: text => if c = '\\' ∨ c = '"' then '\\' :: c :: protect text else c :: protect text

/-- The body of the literal that a text is written as. -/
def body (s : String) : String := .ofList (protect s.toList)

/-- The literal that a text is written as. -/
def quote (s : String) : String := "\"" ++ body s ++ "\""

theorem protect_cons_special {c : Char} (hc : c = '\\' ∨ c = '"') (text : List Char) :
    protect (c :: text) = '\\' :: c :: protect text := by
  rw [protect, if_pos hc]

theorem protect_cons_plain {c : Char} (hslash : c ≠ '\\') (hquote : c ≠ '"') (text : List Char) :
    protect (c :: text) = c :: protect text := by
  rw [protect, if_neg (not_or.2 ⟨hslash, hquote⟩)]

/-- What holds of a protected text is shown character by character. -/
theorem protect_induction {motive : List Char → List Char → Prop} (nil : motive [] [])
    (special : ∀ c text, c = '\\' ∨ c = '"' → motive text (protect text) →
      motive (c :: text) ('\\' :: c :: protect text))
    (plain : ∀ c text, c ≠ '\\' → c ≠ '"' → motive text (protect text) →
      motive (c :: text) (c :: protect text)) (text : List Char) :
    motive text (protect text) := by
  induction text with
  | nil => exact nil
  | cons c text ih =>
    by_cases hc : c = '\\' ∨ c = '"'
    · rw [protect_cons_special hc]
      exact special c text hc ih
    · obtain ⟨hslash, hquote⟩ := not_or.1 hc
      rw [protect_cons_plain hslash hquote]
      exact plain c text hslash hquote ih

theorem literalBody_protect (text : List Char) : LiteralBody '"' (protect text) :=
  protect_induction (motive := fun _ body => LiteralBody '"' body) .nil
    (fun c _ _ ih => .protected_ c ih) (fun _ _ hslash hquote ih => .plain hslash hquote ih) text

/-- The end of a protected text protects nothing. -/
theorem endsEscaped_protect (text : List Char) : endsEscaped (protect text) = false :=
  protect_induction (motive := fun _ body => endsEscaped body = false) rfl
    (fun c _ _ ih => by rw [endsEscaped_protected, ih])
    (fun _ _ hslash _ ih => by rw [endsEscaped_cons hslash, ih]) text

/-- Escapes are read back as the characters that were protected. -/
theorem bytes_protect (text : List Char) :
    bytes (protect text) = text.flatMap String.utf8EncodeChar := by
  refine protect_induction (motive := fun text body =>
    bytes body = text.flatMap String.utf8EncodeChar)
    rfl (fun c text hc ih => ?_) (fun c text hslash _ ih => ?_) text
  · rw [List.flatMap_cons, ← ih]
    rcases hc with rfl | rfl <;> rfl
  · rw [List.flatMap_cons, ← ih, bytes]
    rintro c' rest rfl
    exact absurd rfl hslash

/-- The bytes of a text in UTF-8. -/
def utf8 (s : String) : List UInt8 := s.toUTF8.data.toList

theorem utf8_eq (s : String) : utf8 s = s.toList.flatMap String.utf8EncodeChar := by
  rw [utf8, String.toUTF8_eq_toByteArray]
  conv => lhs; rw [← String.ofList_toList (s := s)]
  exact List.toList_data_toByteArray

/-- A quoted text means the text. -/
theorem bytes_body (s : String) : bytes (body s).toList = utf8 s := by
  rw [body, String.toList_ofList, bytes_protect, utf8_eq]

/-! ## The literal is read as a whole -/

theorem toList_quote (s : String) : (quote s).toList = '"' :: (protect s.toList ++ ['"']) := by
  simp [quote, body]

/-- The token that a quoted text is. -/
def token (s : String) : Token :=
  ⟨.string, body s, .between .start (Place.start.after (quote s).toList)⟩

/-- The end of a quoted text. -/
def ending (s : String) : Token :=
  let stop := Place.start.after (quote s).toList
  ⟨.eof, "", .between stop stop⟩

theorem literalBody_closed (text : List Char) :
    literalBody '"' (protect text ++ ['"']) = protect text := by
  have hend := endsEscaped_protect text
  simp [literalBody, hend]

theorem ofText_quote (text : List Char) :
    Lexeme.ofText '"' (protect text ++ ['"']) =
      ⟨.string, protect text, '"' :: (protect text ++ ['"']), []⟩ := by
  have hsplit := splitDelimited_closed (literalBody_protect text) (by decide) []
  have hdelimited : Lexeme.ofText '"' (protect text ++ ['"']) =
      .ofDelimited .string '"' (protect text ++ ['"']) := rfl
  rw [hdelimited]
  unfold Lexeme.ofDelimited
  rw [hsplit]
  simp only [literalBody_closed]

/-- A quoted text is one token. -/
theorem tokenize_quote (s : String) : tokenize (quote s) = [token s, ending s] := by
  have htrivia : splitTrivia ('"' :: (protect s.toList ++ ['"'])) =
      ([], '"' :: (protect s.toList ++ ['"'])) := rfl
  have hend : splitTrivia [] = ([], []) := rfl
  rw [tokenize, token, ending, toList_quote, tokensFrom_token .start htrivia, ofText_quote,
    tokensFrom_eof _ hend]
  rfl

/-- A quoted text is one expression. -/
theorem expression_quote (s : String) :
    Parse.expression .lowest (Parser.ofSource (quote s)) =
      .ok (.string (body s) (token s).span) ⟨ending s, [], [], []⟩ := by
  rw [Parser.ofSource, tokenize_quote]
  rfl

end Literal

/-! ## The constant holds the bytes -/

namespace Ir

namespace Global

/-- The value of a hexadecimal digit. -/
def hexValue? (c : Char) : Option Nat :=
  if '0' ≤ c ∧ c ≤ '9' then some (c.toNat - '0'.toNat)
  else if 'A' ≤ c ∧ c ≤ 'F' then some (c.toNat - 'A'.toNat + 10)
  else none

/-- The bytes that the body of a string constant stands for: a backslash and two hexadecimal digits
are a byte, and any other ASCII character is itself. -/
def readBytes? : List Char → Option (List UInt8)
  | [] => some []
  | '\\' :: high :: low :: text => do
    let h ← hexValue? high
    let l ← hexValue? low
    return .ofNat (16 * h + l) :: (← readBytes? text)
  | c :: text =>
    if c = '\\' ∨ 128 ≤ c.toNat then none else (.ofNat c.toNat :: ·) <$> readBytes? text

/-- Whether a character may stand in a string constant: ASCII, no quote and no control character. -/
def isPrintable (c : Char) : Bool := c != '"' && 0x20 ≤ c.toNat && c.toNat < 0x7f

theorem hexValue?_hexDigit : ∀ n < 16, hexValue? (Binary64.hexDigit n) = some n := by decide

theorem hexDigits_two (b : UInt8) :
    Binary64.hexDigits 2 b.toNat =
      [Binary64.hexDigit (b.toNat / 16), Binary64.hexDigit (b.toNat % 16)] := by
  have hb : b.toNat / 16 < 16 := by
    have := b.toNat_lt
    omega
  simp only [Binary64.hexDigits, List.nil_append, List.cons_append, Nat.mod_eq_of_lt hb]

theorem plainChar {b : UInt8} (h : isPlain b) :
    (Char.ofNat b.toNat).toNat = b.toNat ∧ Char.ofNat b.toNat ≠ '\\' ∧
      isPrintable (Char.ofNat b.toNat) := by
  simp only [isPlain, Bool.and_eq_true, decide_eq_true_eq, bne_iff_ne, UInt8.le_iff_toNat_le,
    UInt8.lt_iff_toNat_lt] at h
  obtain ⟨⟨⟨hlow, hhigh⟩, hquote⟩, hslash⟩ := h
  have hc : (Char.ofNat b.toNat).toNat = b.toNat := by
    have hvalid : b.toNat.isValidChar := .inl (by simp at hhigh; omega)
    rw [Char.ofNat, dif_pos hvalid]
    rfl
  have hne : ∀ {d : UInt8} {c : Char}, b ≠ d → c.toNat = d.toNat → Char.ofNat b.toNat ≠ c := by
    intro d c hd hcd heq
    rw [heq, hcd] at hc
    exact hd (UInt8.toNat_inj.1 hc.symm)
  refine ⟨hc, hne hslash rfl, ?_⟩
  simp only [isPrintable, hc, Bool.and_eq_true, bne_iff_ne, decide_eq_true_eq]
  exact ⟨⟨hne hquote rfl, hlow⟩, hhigh⟩

theorem readBytes?_byteText (b : UInt8) (text : List Char) :
    readBytes? (byteText b ++ text) = (b :: ·) <$> readBytes? text := by
  have hb := b.toNat_lt
  unfold byteText
  split
  next hplain =>
    obtain ⟨hc, hslash, hprintable⟩ := plainChar hplain
    have hascii : ¬ (Char.ofNat b.toNat = '\\' ∨ 128 ≤ (Char.ofNat b.toNat).toNat) := by
      have hlt : (Char.ofNat b.toNat).toNat < 0x7f := by
        simp only [isPrintable, Bool.and_eq_true, decide_eq_true_eq] at hprintable
        exact hprintable.2
      rw [not_or]
      exact ⟨hslash, by omega⟩
    rw [List.singleton_append, readBytes?, if_neg hascii, hc, UInt8.ofNat_toNat]
    rintro high low rest heq -
    exact absurd heq hslash
  next =>
    rw [hexDigits_two, List.cons_append, List.cons_append, List.cons_append, List.nil_append,
      readBytes?, hexValue?_hexDigit _ (by omega), hexValue?_hexDigit _ (by omega)]
    have hvalue : 16 * (b.toNat / 16) + b.toNat % 16 = b.toNat := by omega
    simp only [Option.bind_eq_bind, Option.bind_some, hvalue, UInt8.ofNat_toNat]
    cases readBytes? text <;> rfl

/-- The body of a string constant is read back as its bytes. -/
theorem readBytes?_bytesText (bytes : List UInt8) : readBytes? (bytesText bytes) = some bytes := by
  induction bytes with
  | nil => rfl
  | cons b bytes ih =>
    rw [bytesText, List.flatMap_cons, readBytes?_byteText]
    exact congrArg (Option.map (b :: ·)) ih

theorem isPrintable_hexDigit : ∀ n < 16, isPrintable (Binary64.hexDigit n) := by decide

theorem isPrintable_of_mem_byteText (b : UInt8) : ∀ c ∈ byteText b, isPrintable c := by
  have hb := b.toNat_lt
  unfold byteText
  split
  next hplain =>
    intro c hc
    obtain rfl := List.mem_singleton.1 hc
    exact (plainChar hplain).2.2
  next =>
    intro c hc
    rw [hexDigits_two] at hc
    rcases List.mem_cons.1 hc with rfl | hc
    · decide
    rcases List.mem_cons.1 hc with rfl | hc
    · exact isPrintable_hexDigit _ (by omega)
    · obtain rfl := List.mem_singleton.1 hc
      exact isPrintable_hexDigit _ (by omega)

theorem isPrintable_of_mem_bytesText (bytes : List UInt8) :
    ∀ c ∈ bytesText bytes, isPrintable c := by
  intro c hc
  obtain ⟨b, -, hb⟩ := List.mem_flatMap.1 hc
  exact isPrintable_of_mem_byteText b c hb

end Global

namespace Module

/-- A string that was added is a global, under the name that is given for it. -/
theorem mem_addString (m : Module) (bytes : List UInt8) :
    .string (m.addString bytes).1 bytes ∈ (m.addString bytes).2.globals := by
  unfold addString
  split
  next g hfound =>
    have hbytes : g.bytes? = some bytes := by simpa using List.find?_some hfound
    have hmem := List.mem_of_find?_eq_some hfound
    cases g with
    | string name bytes' =>
      obtain rfl := Option.some.inj hbytes
      exact hmem
    | vtable | variable_ => cases hbytes
  next => exact List.mem_append_right _ (List.mem_singleton.2 rfl)

/-- Globals are printed on lines of their own. -/
theorem text_mem_lines {m : Module} {g : Global} (h : g ∈ m.globals) : g.text ∈ m.lines := by
  have htext : g.text ∈ m.globals.map Global.text := List.mem_map_of_mem h
  have hne : (m.globals.map Global.text).isEmpty = false :=
    List.isEmpty_eq_false_iff.2 (List.ne_nil_of_mem htext)
  simp only [lines, hne, List.mem_append]
  exact .inl (.inl (.inr (List.mem_cons_of_mem _ htext)))

end Module

end Ir

/-! ## From the text to the constant -/

/-- A module holds bytes in a string constant of a name: as data, and as printed. The printed
constant has the length of the bytes with a zero behind them, and its body is printable and read
back as the bytes. -/
structure Ir.Module.HoldsString (m : Ir.Module) (name : String) (bytes : List UInt8) : Prop where
  mem : .string name bytes ∈ m.globals
  printed : ∃ body : String,
    s!"@{name} = private unnamed_addr constant [{bytes.length + 1} x i8] c\"{body}\\00\"" ∈ m.lines ∧
      Ir.Global.readBytes? body.toList = some bytes ∧ ∀ c ∈ body.toList, Ir.Global.isPrintable c

theorem Ir.Module.holdsString_addString (m : Ir.Module) (bytes : List UInt8) :
    (m.addString bytes).2.HoldsString (m.addString bytes).1 bytes := by
  have hmem := m.mem_addString bytes
  refine ⟨hmem, .ofList (Global.bytesText bytes), Ir.Module.text_mem_lines hmem, ?_, ?_⟩
  · rw [String.toList_ofList, Global.readBytes?_bytesText]
  · rw [String.toList_ofList]
    exact Global.isPrintable_of_mem_bytesText bytes

namespace Literal

/-- A text arrives in the code: quoted, it is one token and one expression, and whether a function
or a global of the program has this for a value, a constant holds the bytes of the text. -/
structure Arrives (s : String) : Prop where
  tokens : ∃ span stop, tokenize (quote s) = [⟨.string, body s, span⟩, ⟨.eof, "", stop⟩]
  parsed : ∃ span q, q.atEof ∧
    Parse.expression .lowest (Parser.ofSource (quote s)) = .ok (.string (body s) span) q
  lowered : ∀ span detour env c g, ∃ name g',
    (Lower.expr detour env (.string (body s) span)).run c g = ((⟨.global name, .string⟩, c), g') ∧
      g'.module.HoldsString name (utf8 s)
  global : ∀ span g, ∃ name g',
    (Gen.constantValue .ptr (.string (body s) span)).run g = (some (.global name), g') ∧
      g'.module.HoldsString name (utf8 s)

/-- Every text can be quoted, and arrives byte by byte. -/
theorem arrives_quote (s : String) : Arrives s := by
  have hbytes := bytes_body s
  refine ⟨⟨_, _, tokenize_quote s⟩, ⟨_, _, rfl, expression_quote s⟩, fun span detour env c g => ?_,
    fun span g => ?_⟩
  · refine ⟨(g.module.addString (utf8 s)).1,
      { g with module := (g.module.addString (utf8 s)).2 }, ?_, g.module.holdsString_addString _⟩
    rw [Lower.expr, hbytes]
    rfl
  · refine ⟨(g.module.addString (utf8 s)).1,
      { g with module := (g.module.addString (utf8 s)).2 }, ?_, g.module.holdsString_addString _⟩
    rw [Gen.constantValue, hbytes]
    rfl

end Literal

end ClassLang
