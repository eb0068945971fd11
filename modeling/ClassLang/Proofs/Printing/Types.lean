import ClassLang.Ast.Printer
import ClassLang.Parse.TypeExpr
import ClassLang.Proofs.Printing.Spelling
import ClassLang.Proofs.Printing.Unplaced

/-!
# Reading written types back

`Gives` says that an action succeeds, and with what. A type that is printed and read again is the same
up to spans. Several closing angles in a row are read as tokens of two; each of them closes one list
of arguments, since the second half of such a token is kept for the next one.
-/

namespace ClassLang

namespace Parse

variable {α β : Type} {x : Parse α} {f : α → Parse β} {p q : Parser} {k : TokenKind}
  {literal text rest : List Char}

/-- An action gives a result. -/
def Gives (x : Parse α) (p : Parser) (post : α → Parser → Prop) : Prop :=
  ∃ a q, x p = .ok a q ∧ post a q

namespace Gives

variable {post post' : α → Parser → Prop} {last : β → Parser → Prop}

theorem pure {a : α} (h : post a p) : Gives (Pure.pure a) p post := ⟨a, p, rfl, h⟩

theorem bind (hx : Gives x p post) (hf : ∀ a q, post a q → Gives (f a) q last) :
    Gives (x >>= f) p last := by
  obtain ⟨a, q, hx, hpost⟩ := hx
  obtain ⟨b, r, hf, hlast⟩ := hf a q hpost
  refine ⟨b, r, ?_, hlast⟩
  show EStateM.bind x f p = _
  unfold EStateM.bind
  rw [hx]
  exact hf

theorem mono (h : Gives x p post) (hpost : ∀ a q, post a q → post' a q) : Gives x p post' := by
  obtain ⟨a, q, hx, h⟩ := h
  exact ⟨a, q, hx, hpost a q h⟩

/-- An action with as much fuel as there are tokens. -/
theorem of_fuel {y : Nat → Parse α} (h : Gives (y p.fuel) p post) :
    Gives (fun p => y p.fuel p) p post := h

/-- What follows an action that only looks. -/
theorem look {a : α} (hx : x p = .ok a p) (h : Gives (f a) p last) : Gives (x >>= f) p last := by
  have hfirst : Gives x p fun b q => a = b ∧ p = q := ⟨a, p, hx, rfl, rfl⟩
  refine hfirst.bind fun b q hq => ?_
  obtain ⟨rfl, rfl⟩ := hq
  exact h

/-- What gives a result does so from its first action on. -/
theorem of_bind (h : Gives (x >>= f) p last) :
    ∃ a q, x p = .ok a q ∧ Gives (f a) q last := by
  obtain ⟨b, r, hb, hlast⟩ := h
  replace hb : EStateM.bind x f p = .ok b r := hb
  unfold EStateM.bind at hb
  cases hx : x p with
  | ok a q =>
    rw [hx] at hb
    exact ⟨a, q, rfl, b, r, hb, hlast⟩
  | error e q =>
    rw [hx] at hb
    cases hb

theorem advance (h : p.Shows k literal text) :
    Gives Parse.advance p fun t q => t.literal = .ofList literal ∧ p.Past text q :=
  ⟨_, _, rfl, h.literal_eq, h.past⟩

theorem expect (h : p.Shows k literal text) :
    Gives (Parse.expect k) p fun t q => t.literal = .ofList literal ∧ p.Past text q := by
  refine ⟨_, _, ?_, h.literal_eq, h.past⟩
  unfold Parse.expect
  rw [h.kind_eq, if_pos (beq_self_eq_true k)]

theorem eat (h : p.Shows k literal text) :
    Gives (Parse.eat k) p fun b q => b = true ∧ p.Past text q := by
  refine ⟨_, _, ?_, rfl, h.past⟩
  unfold Parse.eat
  rw [h.kind_eq, if_pos (beq_self_eq_true k)]

/-- What follows a token that is not there. -/
theorem without {g : Bool → Parse β} (hk : p.kind ≠ k) (h : Gives (g false) p last) :
    Gives (Parse.eat k >>= g) p last := by
  refine .look ?_ h
  unfold Parse.eat
  rw [if_neg (by simpa using hk)]

theorem ident {name : String} (h : p.At (name.toList ++ rest)) (hname : isName name)
    (hrest : ∀ c ∈ rest.head?, isWordChar c = false) :
    Gives Parse.ident p fun n q => n.name = name ∧ p.Past rest q := by
  refine (expect (h.name hname hrest)).bind fun t q ⟨ht, hq⟩ => .pure ⟨?_, hq⟩
  rw [ht, String.ofList_toList]

/-- Items that stand one after another, each in a form that a round reads. -/
theorem collectAt {round : Parse (Round α)} {written : α → List Char} {good : List Char → Prop}
    {same : α → β} {n : Nat} (hgood : ∀ a tail, good (written a ++ tail)) (hrest : good rest)
    (hstop : ∀ p : Parser, p.At rest → Gives round p fun r q => r = .stop ∧ q = p) :
    ∀ {items : List α}, (∀ a ∈ items, ∀ (p : Parser) tail, p.rest.length < n →
        p.At (written a ++ tail) → good tail →
        Gives round p fun r q => ∃ a', r = .item a' ∧ same a' = same a ∧ p.Past tail q) →
      ∀ (fuel : Nat) (p : Parser), p.At (items.flatMap written ++ rest) → p.rest.length < n →
        p.rest.length < fuel →
        Gives (Parse.collectAt round fuel) p fun as q =>
          as.map same = items.map same ∧ q.At rest ∧ q.rest.length ≤ p.rest.length
  | items, hitem, 0, _, _, _, hfuel => absurd hfuel (Nat.not_lt_zero _)
  | [], _, fuel + 1, p, hp, _, _ => by
    rw [Parse.collectAt]
    refine (hstop p hp).bind fun r q ⟨hr, hq⟩ => ?_
    subst hr hq
    exact .pure ⟨rfl, hp, Nat.le_refl _⟩
  | a :: items, hitem, fuel + 1, p, hp, hn, hfuel => by
    rw [List.flatMap_cons, List.append_assoc] at hp
    have htail : good (items.flatMap written ++ rest) := by
      cases items with
      | nil => exact hrest
      | cons a' items =>
        rw [List.flatMap_cons, List.append_assoc]
        exact hgood a' _
    rw [Parse.collectAt]
    refine (hitem a List.mem_cons_self p _ hn hp htail).bind fun r q hq => ?_
    obtain ⟨a', rfl, ha, hq⟩ := hq
    have hmore := collectAt hgood hrest hstop (fun b hb => hitem b (List.mem_cons_of_mem _ hb))
      fuel q hq.here (hq.length_lt.trans hn)
      (Nat.lt_of_lt_of_le hq.length_lt (Nat.le_of_lt_succ hfuel))
    refine hmore.bind fun as r ⟨has, hr, hle⟩ => .pure ⟨?_, hr, hle.trans hq.length_lt.le⟩
    rw [List.map_cons, List.map_cons, ha, has]

theorem collect {round : Parse (Round α)} {written : α → List Char} {good : List Char → Prop}
    {same : α → β} {n : Nat} {items : List α} (hgood : ∀ a tail, good (written a ++ tail))
    (hrest : good rest) (hstop : ∀ p : Parser, p.At rest → Gives round p fun r q => r = .stop ∧ q = p)
    (hitem : ∀ a ∈ items, ∀ (p : Parser) tail, p.rest.length < n → p.At (written a ++ tail) →
      good tail → Gives round p fun r q => ∃ a', r = .item a' ∧ same a' = same a ∧ p.Past tail q)
    (hp : p.At (items.flatMap written ++ rest)) (hn : p.rest.length < n) :
    Gives (Parse.collect round) p fun as q =>
      as.map same = items.map same ∧ q.At rest ∧ q.rest.length ≤ p.rest.length :=
  collectAt hgood hrest hstop hitem p.fuel p hp hn
    (Nat.lt_of_lt_of_le (Nat.lt_succ_self _) (Nat.le_succ _))

end Gives

end Parse

/-! ## Lists with commas -/

/-- An item of a list behind the first one. -/
def afterComma (item : String) : List Char := ',' :: ' ' :: item.toList

theorem toList_commaList_cons (item : String) (items : List String) :
    (commaList (item :: items)).toList = item.toList ++ items.flatMap afterComma := by
  induction items generalizing item with
  | nil => simp [commaList]
  | cons next items ih =>
    have hnext : commaList (item :: next :: items) = item ++ ", " ++ commaList (next :: items) :=
      String.intercalate_cons_cons
    rw [hnext, String.toList_append, String.toList_append, ih]
    simp [afterComma]

/-- A list is read back if its first item is, and each other one by a round that starts with its
comma. -/
theorem Parse.Gives.listed {α β : Type} {item : Parse α} {round : Parse (Round α)}
    {text : α → String} {same : α → β} {good : List Char → Prop} {n : Nat} {first : α} {more : List α}
    {p : Parser} {rest : List Char} (hcomma : ∀ tail, good (',' :: tail)) (hrest : good rest)
    (hfirst : ∀ (p : Parser) tail, p.rest.length < n → p.At ((text first).toList ++ tail) →
      good tail → Gives item p fun a q => same a = same first ∧ p.Past tail q)
    (hmore : ∀ a ∈ more, ∀ (p : Parser) tail, p.rest.length < n →
      p.At (afterComma (text a) ++ tail) → good tail →
      Gives round p fun r q => ∃ a', r = .item a' ∧ same a' = same a ∧ p.Past tail q)
    (hstop : ∀ p : Parser, p.At rest → Gives round p fun r q => r = .stop ∧ q = p)
    (hp : p.At ((commaList (text first :: more.map text)).toList ++ rest)) (hn : p.rest.length < n) :
    Gives (do let a ← item; let as ← Parse.collect round; return a :: as) p fun as q =>
      as.map same = (first :: more).map same ∧ p.Past rest q := by
  rw [toList_commaList_cons, List.append_assoc, List.flatMap_map] at hp
  have htail : good ((more.flatMap fun a => afterComma (text a)) ++ rest) := by
    cases more with
    | nil => exact hrest
    | cons a more => exact hcomma _
  refine (hfirst p _ hn hp htail).bind fun a q ⟨ha, hq⟩ => ?_
  have hcollect := Gives.collect (fun a tail => hcomma _) hrest hstop hmore hq.here
    (hq.length_lt.trans hn)
  refine hcollect.bind fun as r ⟨has, hr, hle⟩ => .pure ⟨?_, hr, hle.trans_lt hq.length_lt⟩
  rw [List.map_cons, List.map_cons, ha, has]

/-! ## Closing angles -/

namespace Parser.At

variable {p : Parser} {rest : List Char}

/-- An angle is a token of its own, or the first half of one. -/
theorem angle (h : p.At ('>' :: rest)) (hrest : (rest.dropWhile (· == '>')).head? ≠ some '=') :
    (p.kind = Mark.gt ∧ p.Past rest p.advanced) ∨
      (p.kind = Mark.shiftRight ∧ ∃ more, rest = '>' :: more ∧ Spells p.rest more) := by
  have hbare : (splitTrivia ('>' :: rest)).2 = '>' :: rest :=
    splitTrivia_of_bare (by decide) fun h => absurd h (by decide)
  obtain ⟨hspells, htemplates⟩ := h
  generalize hts : p.current :: p.rest = ts at hspells
  cases hspells with
  | eof hsplit =>
    rw [hbare] at hsplit
    cases hsplit
  | half hkind h =>
    obtain ⟨rfl, rfl⟩ := List.cons.inj hts
    exact .inl ⟨hkind, past_advanced h htemplates⟩
  | token hsplit hkind hliteral h =>
    obtain ⟨rfl, rfl⟩ := List.cons.inj (hbare.symm.trans hsplit)
    obtain ⟨rfl, rfl⟩ := List.cons.inj hts
    by_cases hdouble : ∃ more, rest = '>' :: more
    · obtain ⟨more, rfl⟩ := hdouble
      have hmore : ∀ c ∈ more.head?, c ∉ Mark.shiftRight.continuations := by
        rintro c hc hmem
        obtain rfl : c = '=' := by
          rw [show Mark.shiftRight.continuations = ['='] by decide] at hmem
          simpa using hmem
        obtain ⟨tail, rfl⟩ := List.head?_eq_some_iff.1 hc
        simp at hrest
      have hfront : Mark.shiftRight.spelling.toList ++ more = '>' :: '>' :: more := rfl
      obtain ⟨-, hlexeme⟩ := Mark.shiftRight.ofText_append hmore hfront
      rw [hlexeme] at hkind h
      exact .inr ⟨hkind, more, rfl, h⟩
    · have hmore : ∀ c ∈ rest.head?, c ∉ Mark.gt.continuations := by
        rintro c hc hmem
        obtain ⟨tail, rfl⟩ := List.head?_eq_some_iff.1 hc
        rw [show Mark.gt.continuations = ['>', '=', '>'] by decide] at hmem
        have hor : c = '>' ∨ c = '=' ∨ c = '>' := by simpa using hmem
        rcases hor with rfl | rfl | rfl
        · exact hdouble ⟨tail, rfl⟩
        · simp at hrest
        · exact hdouble ⟨tail, rfl⟩
      have hfront : Mark.gt.spelling.toList ++ rest = '>' :: rest := rfl
      obtain ⟨-, hlexeme⟩ := Mark.gt.ofText_append hmore hfront
      rw [hlexeme] at hkind h
      exact .inl ⟨hkind, past_advanced h htemplates⟩

end Parser.At

/-! ## Types -/

theorem TypeExpr.texts_eq_map (ts : List TypeExpr) : TypeExpr.texts ts = ts.map TypeExpr.text := by
  induction ts with
  | nil => rfl
  | cons t ts ih => rw [TypeExpr.texts, ih, List.map_cons]

theorem TypeExpr.allUnplaced_eq_map (ts : List TypeExpr) :
    TypeExpr.allUnplaced ts = ts.map TypeExpr.unplaced := by
  induction ts with
  | nil => rfl
  | cons t ts ih => rw [TypeExpr.allUnplaced, ih, List.map_cons]

/-- The types that can be written: their names are names, and lists of arguments are not empty. -/
inductive TypeExpr.Written : TypeExpr → Prop
  | named {n : Ident} (hname : isName n.name) : Written (.named n)
  | array {element : TypeExpr} {span : Span} (h : Written element) : Written (.array element span)
  | map {key value : TypeExpr} {span : Span} (hkey : Written key) (hvalue : Written value) :
    Written (.map key value span)
  | pointer {inner : TypeExpr} {span : Span} (h : Written inner) : Written (.pointer inner span)
  | generic {n : Ident} {args : List TypeExpr} {span : Span} (hname : isName n.name)
    (hne : args ≠ []) (h : ∀ t ∈ args, Written t) : Written (.generic n args span)

theorem exists_wordStart {name : String} (h : isName name) :
    ∃ c cs, name.toList = c :: cs ∧ isWordStart c := by
  obtain ⟨c, cs, hname, hc, -⟩ := exists_word h
  exact ⟨c, cs, hname, hc⟩

/-- No type starts with a character that would make something else of a mark in front of it. -/
theorem TypeExpr.Written.head {t : TypeExpr} (h : t.Written) (tail : List Char) :
    ∀ c ∈ (t.text.toList ++ tail).head?, c ≠ '<' ∧ c ≠ '=' := by
  cases h with
  | named hname | generic hname =>
    obtain ⟨c, cs, hcs, hc⟩ := exists_wordStart hname
    have hne : c ≠ '<' ∧ c ≠ '=' :=
      ⟨fun h => absurd hc (h ▸ by decide), fun h => absurd hc (h ▸ by decide)⟩
    simpa [TypeExpr.text, hcs] using hne
  | array | map | pointer => simp [TypeExpr.text]

/-- A text that does not go on with the type in front of it. -/
structure EndsType (rest : List Char) : Prop where
  word : ∀ c ∈ rest.head?, isWordChar c = false
  angle : (rest.dropWhile (· == '>')).head? ≠ some '='
  args : ∀ p : Parser, p.At rest → p.kind ≠ Mark.lt

namespace EndsType

variable {rest : List Char}

theorem nil : EndsType [] :=
  ⟨by simp, by simp, fun p hp => by simp [hp.kind_eof]⟩

theorem mark {m : Mark} (hm : m ∈ [Mark.comma, .lParen, .rBracket]) (rest : List Char) :
    EndsType (m.spelling.toList ++ rest) := by
  have halone : m ∈ Mark.punctuation ∧ m ≠ .lt := by
    revert m
    decide
  refine ⟨?_, ?_, fun p hp => ?_⟩
  · revert m
    simp [Mark.spelling]
    decide
  · revert m
    simp [Mark.spelling]
  · rw [(hp.alone m halone.1).kind_eq]
    exact fun h => halone.2 (TokenKind.mark.inj h)

theorem angleBracket (h : EndsType rest) : EndsType ('>' :: rest) where
  word := by simp [isWordChar, Char.isAlphanum]
  angle := by simpa using h.angle
  args p hp := by
    rcases hp.angle h.angle with ⟨hkind, -⟩ | ⟨hkind, -⟩ <;> simp [hkind]

end EndsType

namespace Parse

variable {p : Parser} {rest : List Char}

theorem Gives.closingAngle (h : p.At ('>' :: rest)) (hrest : EndsType rest) :
    Gives Parse.closingAngle p fun _ q => q.At rest ∧ q.rest.length ≤ p.rest.length := by
  rcases h.angle hrest.angle with ⟨hkind, hpast⟩ | ⟨hkind, more, rfl, hspells⟩
  · refine ⟨p.current, p.advanced, ?_, hpast.here, hpast.length_lt.le⟩
    unfold Parse.closingAngle Parse.expect
    simp [hkind]
  · unfold Gives Parse.closingAngle
    rw [hkind, if_pos (beq_self_eq_true _)]
    exact ⟨_, _, rfl, ⟨.half rfl hspells, h.templates⟩, Nat.le_refl _⟩

/-- An action reads a type back, with fewer than `n` tokens ahead. -/
def RereadsType (n : Nat) (type : Parse TypeExpr) (t : TypeExpr) : Prop :=
  ∀ (p : Parser) (rest : List Char), p.rest.length < n → p.At (t.text.toList ++ rest) →
    EndsType rest → Gives type p fun t' q => t'.unplaced = t.unplaced ∧ p.Past rest q

section

variable {n : Nat} {type : Parse TypeExpr} {name : Ident} {args : List TypeExpr} {span : Span}

/-- Arguments are read back, up to the angle that closes them. -/
theorem gives_typeArguments (hne : args ≠ []) (hargs : ∀ t ∈ args, RereadsType n type t)
    (hp : p.At ((commaList (TypeExpr.texts args)).toList ++ '>' :: rest)) (hrest : EndsType rest)
    (hn : p.rest.length < n) :
    Gives (typeArguments type) p fun r q =>
      TypeExpr.allUnplaced r.1 = TypeExpr.allUnplaced args ∧ p.Past rest q := by
  obtain ⟨first, more, rfl⟩ := List.exists_cons_of_ne_nil hne
  have hangle := hrest.angleBracket
  have hcomma : ∀ tail, EndsType (',' :: tail) := fun tail =>
    EndsType.mark (m := .comma) (by decide) tail
  have hmore : ∀ t ∈ more, ∀ (p : Parser) tail, p.rest.length < n →
      p.At (afterComma t.text ++ tail) → EndsType tail →
      Gives (do if ← eat Mark.comma then return Round.item (← type) else return .stop) p
        fun r q => ∃ t', r = .item t' ∧ t'.unplaced = t.unplaced ∧ p.Past tail q := by
    intro t ht p tail hn hp htail
    refine (Gives.eat (hp.alone .comma (by decide))).bind fun b q ⟨hb, hq⟩ => ?_
    subst hb
    have hitem := hargs t (List.mem_cons_of_mem first ht) q tail (hq.length_lt.trans hn)
      hq.here.blank htail
    exact hitem.bind fun t' r ⟨ht', hr⟩ => .pure ⟨t', rfl, ht', hq.trans hr⟩
  have hstop : ∀ p : Parser, p.At ('>' :: rest) →
      Gives (do if ← eat Mark.comma then return Round.item (← type) else return .stop) p
        fun r q => r = .stop ∧ q = p := by
    intro p hp
    refine .without ?_ (.pure ⟨rfl, rfl⟩)
    rcases hp.angle hrest.angle with ⟨hkind, -⟩ | ⟨hkind, -⟩ <;> simp [hkind]
  rw [TypeExpr.texts_eq_map] at hp
  have hlisted : Gives (commaSeparated type) p fun ts q =>
      ts.map TypeExpr.unplaced = (first :: more).map TypeExpr.unplaced ∧ p.Past ('>' :: rest) q :=
    Gives.listed hcomma hangle (hargs first List.mem_cons_self) hmore hstop hp hn
  refine hlisted.bind fun ts q ⟨hts, hq⟩ => ?_
  refine (Gives.closingAngle hq.here hrest).bind fun close r ⟨hr, hle⟩ => .pure ⟨?_, hr, ?_⟩
  · rw [TypeExpr.allUnplaced_eq_map, TypeExpr.allUnplaced_eq_map, hts]
  · exact hle.trans_lt hq.length_lt

theorem gives_namedType_named (hname : isName name.name) (hp : p.At (name.name.toList ++ rest))
    (hrest : EndsType rest) :
    Gives (namedType type) p fun t q =>
      t.unplaced = (TypeExpr.named name).unplaced ∧ p.Past rest q := by
  refine (Gives.ident hp hname hrest.word).bind fun n q ⟨hn, hq⟩ => ?_
  refine .without (hrest.args q hq.here) (.pure ⟨?_, hq⟩)
  simp [TypeExpr.unplaced, Ident.unplaced, hn]

theorem gives_namedType_generic (hname : isName name.name) (hne : args ≠ [])
    (hwritten : ∀ t ∈ args, t.Written) (hargs : ∀ t ∈ args, RereadsType n type t)
    (hp : p.At ((TypeExpr.generic name args span).text.toList ++ rest)) (hrest : EndsType rest)
    (hn : p.rest.length ≤ n) :
    Gives (namedType type) p fun t q =>
      t.unplaced = (TypeExpr.generic name args span).unplaced ∧ p.Past rest q := by
  simp only [TypeExpr.text, String.toList_append, List.append_assoc] at hp
  refine (Gives.ident hp hname (by simp [isWordChar, Char.isAlphanum])).bind ?_
  rintro n' q ⟨hname', hq⟩
  have hlt := hq.here.mark .lt (by decide) fun c hc => by
    obtain ⟨first, more, rfl⟩ := List.exists_cons_of_ne_nil hne
    rw [TypeExpr.texts, toList_commaList_cons, List.append_assoc] at hc
    have hne := (hwritten first List.mem_cons_self).head _ c hc
    rw [show Mark.lt.continuations = ['<', '=', '<'] by decide]
    simp [hne]
  refine (Gives.eat hlt).bind ?_
  rintro b r ⟨hb, hr⟩
  subst hb
  have hlength := (hr.length_lt.trans hq.length_lt).trans_le hn
  refine (gives_typeArguments hne hargs hr.here hrest hlength).bind ?_
  rintro ts s ⟨hts, hs⟩
  refine .pure ⟨?_, hq.trans (hr.trans hs)⟩
  simp [TypeExpr.unplaced, Ident.unplaced, hname', hts]

end

theorem rereadsType_typeAt {t : TypeExpr} (h : t.Written) : ∀ n, RereadsType n (typeAt n) t := by
  induction h with
  | named hname =>
    rintro (_ | n) p rest hn hp hrest
    · cases hn
    have hshows := hp.name hname hrest.word
    show Gives (typeStep (typeAt n)) p _
    refine .look rfl (.look rfl ?_)
    rw [hshows.kind_eq]
    exact gives_namedType_named hname hp hrest
  | array h ih =>
    rintro (_ | n) p rest hn hp hrest
    · cases hn
    have hn := Nat.le_of_lt_succ hn
    simp only [TypeExpr.text, String.toList_append, List.append_assoc] at hp
    have hopen := hp.alone .lBracket (by decide)
    show Gives (typeStep (typeAt n)) p _
    refine .look rfl (.look rfl ?_)
    rw [hopen.kind_eq]
    refine (Gives.advance hopen).bind ?_
    rintro _ q ⟨_, hq⟩
    refine (Gives.expect (hq.here.alone .rBracket (by decide))).bind ?_
    rintro _ r ⟨_, hr⟩
    have hpast := hq.trans hr
    refine (ih n r rest (hpast.length_lt.trans_le hn) hr.here hrest).bind ?_
    rintro t s ⟨ht, hs⟩
    exact .pure ⟨by simp [TypeExpr.unplaced, ht], hpast.trans hs⟩
  | @map key value _ hkey hvalue ihkey ihvalue =>
    rintro (_ | n) p rest hn hp hrest
    · cases hn
    have hn := Nat.le_of_lt_succ hn
    simp only [TypeExpr.text, String.toList_append, List.append_assoc] at hp
    replace hp : p.At (Keyword.mapKw.spelling.toList ++
      '[' :: (key.text.toList ++ (']' :: (value.text.toList ++ rest)))) := hp
    have hopen := hp.keyword .mapKw (by simp [isWordChar, Char.isAlphanum])
    show Gives (typeStep (typeAt n)) p _
    refine .look rfl (.look rfl ?_)
    rw [hopen.kind_eq]
    refine (Gives.advance hopen).bind ?_
    rintro _ q ⟨_, hq⟩
    refine (Gives.expect (hq.here.alone .lBracket (by decide))).bind ?_
    rintro _ r ⟨_, hr⟩
    have hr' := hq.trans hr
    have hend := EndsType.mark (m := .rBracket) (by decide)
    refine (ihkey n r _ (hr'.length_lt.trans_le hn) hr.here (hend _)).bind ?_
    rintro k s ⟨hk, hs⟩
    refine (Gives.expect (hs.here.alone .rBracket (by decide))).bind ?_
    rintro _ u ⟨_, hu⟩
    have hu' := hr'.trans (hs.trans hu)
    refine (ihvalue n u rest (hu'.length_lt.trans_le hn) hu.here hrest).bind ?_
    rintro v w ⟨hv, hw⟩
    exact .pure ⟨by simp [TypeExpr.unplaced, hk, hv], hu'.trans hw⟩
  | pointer h ih =>
    rintro (_ | n) p rest hn hp hrest
    · cases hn
    have hn := Nat.le_of_lt_succ hn
    simp only [TypeExpr.text, String.toList_append, List.append_assoc] at hp
    have hstar := hp.mark .star (by decide) fun c hc => by
      rw [show Mark.star.continuations = ['='] by decide]
      simp [(h.head rest c hc).2]
    show Gives (typeStep (typeAt n)) p _
    refine .look rfl (.look rfl ?_)
    rw [hstar.kind_eq]
    refine (Gives.advance hstar).bind ?_
    rintro _ q ⟨_, hq⟩
    refine (ih n q rest (hq.length_lt.trans_le hn) hq.here hrest).bind ?_
    rintro t r ⟨ht, hr⟩
    exact .pure ⟨by simp [TypeExpr.unplaced, ht], hq.trans hr⟩
  | generic hname hne h ih =>
    rintro (_ | n) p rest hn hp hrest
    · cases hn
    have hshows : p.kind = .ident := by
      simp only [TypeExpr.text, String.toList_append, List.append_assoc] at hp
      exact (hp.name hname (by simp [isWordChar, Char.isAlphanum])).kind_eq
    show Gives (typeStep (typeAt n)) p _
    refine .look rfl (.look rfl ?_)
    rw [hshows]
    exact gives_namedType_generic hname hne h (fun t ht => ih t ht n) hp hrest (Nat.le_of_lt_succ hn)

theorem rereadsType_type {t : TypeExpr} (h : t.Written) (n : Nat) : RereadsType n Parse.type t :=
  fun p rest _ hp hrest => .of_fuel (rereadsType_typeAt h p.fuel p rest
    (Nat.lt_of_lt_of_le (Nat.lt_succ_self _) (Nat.le_succ _)) hp hrest)

end Parse

end ClassLang
