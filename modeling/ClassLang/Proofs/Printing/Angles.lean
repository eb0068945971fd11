import ClassLang.Proofs.Printing.Types

/-!
# Closing angles in any grouping

The angles that close nested type arguments stand next to each other, and two of them may be one
token. How they are grouped does not count: tokens that are the same once every angle stands for
itself (`ungrouped`) spell the same text, if no blank stands in front of an angle and nothing that
could make a longer mark behind it (`Tight`). The text of a type is such a text. So a type is read
back from its tokens in every grouping, each list of arguments takes one angle, and the angles that
are left over stay for what encloses the type.
-/

namespace ClassLang

/-! ## Every angle for itself -/

/-- Kind and literal of one angle. -/
def angle : TokenKind × String := (Mark.gt, ">")

/-- What a token counts as when two angles in one token count as two. -/
def Token.halves (t : Token) : List (TokenKind × String) :=
  if t.kind = Mark.shiftRight ∧ t.literal = ">>" then [angle, angle] else [(t.kind, t.literal)]

/-- Tokens with every angle for itself. -/
def ungrouped (ts : List Token) : List (TokenKind × String) := ts.flatMap Token.halves

/-- Tokens spell a text however its angles are grouped. -/
def SpellsAnyhow (us : List (TokenKind × String)) (text : List Char) : Prop :=
  ∀ ts, ungrouped ts = us → Spells ts text

section

variable {t : Token} {ts : List Token} {k : TokenKind} {literal : String}
  {us : List (TokenKind × String)}

theorem ungrouped_cons (t : Token) (ts : List Token) :
    ungrouped (t :: ts) = t.halves ++ ungrouped ts := List.flatMap_cons

theorem Token.halves_of_ne (h : t.kind ≠ Mark.shiftRight) : t.halves = [(t.kind, t.literal)] :=
  if_neg fun hboth => h hboth.1

theorem Token.halves_double (hkind : t.kind = Mark.shiftRight) (hliteral : t.literal = ">>") :
    t.halves = [angle, angle] :=
  if_pos ⟨hkind, hliteral⟩

/-- What comes first among ungrouped tokens is a token, or the first half of one. -/
theorem ungrouped_eq_cons (h : ungrouped ts = (k, literal) :: us) :
    (∃ t rest, ts = t :: rest ∧ t.kind = k ∧ t.literal = literal ∧ ungrouped rest = us) ∨
      ∃ t rest, ts = t :: rest ∧ t.kind = Mark.shiftRight ∧ t.literal = ">>" ∧ k = Mark.gt ∧
        us = angle :: ungrouped rest := by
  cases ts with
  | nil => cases h
  | cons t rest =>
    rw [ungrouped_cons, Token.halves] at h
    split at h
    next hdouble =>
      obtain ⟨hfirst, hus⟩ := List.cons.inj h
      exact .inr ⟨t, rest, rfl, hdouble.1, hdouble.2, (Prod.mk.inj hfirst).1.symm, hus.symm⟩
    next =>
      obtain ⟨hfirst, hus⟩ := List.cons.inj h
      obtain ⟨hkind, hliteral⟩ := Prod.mk.inj hfirst
      exact .inl ⟨t, rest, rfl, hkind, hliteral, hus⟩

/-- What is no angle comes from a token of its own. -/
theorem ungrouped_eq_cons_of_ne (hk : k ≠ Mark.gt) (h : ungrouped ts = (k, literal) :: us) :
    ∃ t rest, ts = t :: rest ∧ t.kind = k ∧ t.literal = literal ∧ ungrouped rest = us := by
  rcases ungrouped_eq_cons h with hfirst | ⟨_, _, _, _, _, hgt, _⟩
  · exact hfirst
  · exact absurd hgt hk

end

/-! ## Texts in which the grouping does not count -/

/-- No blank stands in front of an angle, and neither comments nor longer marks with an angle stand
anywhere. -/
def Tight : List Char → Prop
  | [] => True
  | c :: text => (c ≠ '=' ∧ c ≠ '/') ∧ (isBlank c → text.head? ≠ some '>') ∧ Tight text

namespace Tight

variable {c : Char} {text rest : List Char}

theorem of_append (h : Tight (text ++ rest)) : Tight rest := by
  induction text with
  | nil => exact h
  | cons c text ih => exact ih h.2.2

/-- A character that is no blank, in front of a tight text. -/
theorem cons (hc : (c ≠ '=' ∧ c ≠ '/') ∧ isBlank c = false) (h : Tight rest) : Tight (c :: rest) :=
  ⟨hc.1, fun hblank => absurd (hc.2.symm.trans hblank) Bool.false_ne_true, h⟩

theorem word {word : List Char} (hword : ∀ x ∈ word, isWordChar x) (h : Tight rest) :
    Tight (word ++ rest) := by
  induction word with
  | nil => exact h
  | cons c word ih =>
    obtain ⟨hc, hword⟩ := List.forall_mem_cons.1 hword
    have hclass : ['=', '/', ' ', '\t', '\r', '\n', '\x0c'].any isWordChar = false := by decide
    have hne : ∀ x ∈ ['=', '/', ' ', '\t', '\r', '\n', '\x0c'], c ≠ x := by
      rintro x hx rfl
      exact List.any_eq_false.1 hclass c hx hc
    simp only [List.forall_mem_cons] at hne
    obtain ⟨heq, hslash, hspace, htab, hreturn, hline, hfeed, -⟩ := hne
    exact cons ⟨⟨heq, hslash⟩, by simp [isBlank, *]⟩ (ih hword)

/-- Where an angle is found behind blanks and comments there are none. -/
theorem eq_of_split (h : Tight text) (hsplit : (splitTrivia text).2 = '>' :: rest) :
    text = '>' :: rest := by
  induction text with
  | nil => cases hsplit
  | cons c text ih =>
    obtain ⟨⟨-, hslash⟩, hblank, htight⟩ := h
    have hno : ∀ (d : Char) (tail : List Char), c = '/' → text = d :: tail → False :=
      fun _ _ hc _ => hslash hc
    rw [splitTrivia.eq_3 c text (hno '/') (hno '*')] at hsplit
    split at hsplit
    next hc =>
      have htext := ih htight hsplit
      exact absurd (by rw [htext]; rfl) (hblank hc)
    next => exact hsplit

end Tight

/-! ## Spelling a tight text -/

theorem Munch.text_of_mark {m : Mark} {text rest : List Char} (h : Munch m text rest) :
    text = m.spelling.toList := by
  rcases h with ⟨rule, hmatches, hkind, -⟩ | ⟨hkind, -⟩
  · cases hmatches with
    | word =>
      simp only [TokenRule.kind, TokenKind.ofWord] at hkind
      split at hkind <;> cases hkind
    | int | float => cases hkind
    | closed d | unclosed d | dangling d => cases d <;> cases hkind
    | mark m' => cases hkind; rfl
  · cases hkind

namespace SpellsAnyhow

variable {us : List (TokenKind × String)} {text rest : List Char} {ts : List Token}

/-- One more angle in front. -/
theorem angle (h : SpellsAnyhow us text) (htight : Tight ('>' :: text)) (literal : String) :
    SpellsAnyhow ((.mark .gt, literal) :: us) ('>' :: text) := by
  intro ts hts
  rcases ungrouped_eq_cons hts with ⟨t, rest, rfl, hkind, -, hrest⟩ |
    ⟨t, rest, rfl, hkind, hliteral, -, hus⟩
  · exact .half hkind (h rest hrest)
  · -- the second half would be the first token of the rest, so the rest starts with an angle
    obtain ⟨tail, rfl, htail⟩ : ∃ tail, text = '>' :: tail ∧ Spells rest tail := by
      have hhalf : Spells (⟨Mark.gt, ">", {}⟩ :: rest) text := h _ (by
        rw [hus, ungrouped_cons, Token.halves_of_ne (by simp)]
        rfl)
      cases hhalf with
      | eof _ hkind => cases hkind
      | half _ hrest => exact ⟨_, rfl, hrest⟩
      | @token _ _ c _ more hsplit hkind _ hrest =>
        have hx := Lexeme.sound_ofText c more
        have htext : (Lexeme.ofText c more).text = ['>'] := (hkind ▸ hx.munch).text_of_mark
        have happend := hx.append
        rw [htext] at happend
        obtain ⟨rfl, hmore⟩ := List.cons.inj happend
        rw [← happend] at hsplit
        exact ⟨_, htight.2.2.eq_of_split hsplit, hrest⟩
    have hends : ∀ c ∈ tail.head?, c ∉ Mark.shiftRight.continuations := by
      intro c hc
      obtain ⟨more, rfl⟩ := List.head?_eq_some_iff.1 hc
      rw [show Mark.shiftRight.continuations = ['='] by decide]
      simpa using htight.2.2.2.2.1.1
    obtain ⟨hsplit, hlexeme⟩ := Mark.shiftRight.ofText_append hends rfl
    refine .token hsplit (by rw [hlexeme]; exact hkind) (by rw [hlexeme, hliteral]; rfl) ?_
    rw [hlexeme]
    exact htail

theorem of_spells (h : Spells ts text) (htight : Tight text) : SpellsAnyhow (ungrouped ts) text := by
  induction h with
  | @eof t text hsplit hkind =>
    intro ts' hts
    rw [ungrouped_cons, Token.halves_of_ne (by simp [hkind])] at hts
    obtain ⟨t', rest, rfl, hkind', -, hrest⟩ := ungrouped_eq_cons_of_ne (by simp [hkind]) hts
    obtain rfl : rest = [] := by
      cases rest with
      | nil => rfl
      | cons u rest =>
        rw [ungrouped_cons, Token.halves] at hrest
        split at hrest <;> cases hrest
    exact .eof hsplit (hkind'.trans hkind)
  | @half t ts text hkind h ih =>
    rw [ungrouped_cons, Token.halves_of_ne (by simp [hkind]), hkind]
    exact (ih htight.2.2).angle htight t.literal
  | @token t ts c text rest hsplit hkind hliteral h ih =>
    have hx := Lexeme.sound_ofText c rest
    have htail : Tight (Lexeme.ofText c rest).rest := by
      rw [← splitTrivia_append text, hsplit, ← hx.append] at htight
      exact htight.of_append.of_append
    -- where the token is a mark of angles, they are all that stands in front of the rest
    have hmark : ∀ m : Mark, t.kind = m →
        c :: rest = m.spelling.toList ++ (Lexeme.ofText c rest).rest := by
      intro m hm
      have hmunch := hx.munch
      rw [← hkind, hm] at hmunch
      rw [← hmunch.text_of_mark, hx.append]
    by_cases hdouble : t.kind = Mark.shiftRight
    · have hrest := hmark _ hdouble
      rw [hrest] at hsplit
      obtain rfl := htight.eq_of_split hsplit
      have hlit : t.literal = ">>" := by
        have hmunch := hx.munch
        rw [← hkind, hdouble] at hmunch
        rw [hliteral, hx.literal (by simp [← hkind, hdouble]) (by simp [← hkind, hdouble]),
          hmunch.text_of_mark]
        rfl
      rw [ungrouped_cons, Token.halves_double hdouble hlit]
      exact ((ih htail).angle htight.2.2 ">").angle htight ">"
    · rw [ungrouped_cons, Token.halves_of_ne hdouble]
      by_cases hsingle : t.kind = Mark.gt
      · have hrest := hmark _ hsingle
        rw [hrest] at hsplit
        obtain rfl := htight.eq_of_split hsplit
        rw [hsingle]
        exact (ih htail).angle htight t.literal
      · intro ts' hts
        obtain ⟨t', rest', rfl, hkind', hliteral', hrest'⟩ := ungrouped_eq_cons_of_ne hsingle hts
        exact .token hsplit (hkind'.trans hkind) (hliteral'.trans hliteral) (ih htail rest' hrest')

end SpellsAnyhow

/-! ## The text of a type -/

/-- Angles that close more lists of arguments than a type opens. -/
def closers (n : Nat) : List Char := List.replicate n '>'

theorem tight_closers (n : Nat) : Tight (closers n) := by
  induction n with
  | zero => trivial
  | succ n ih => exact .cons (by decide) ih

theorem EndsType.closers (n : Nat) : EndsType (closers n) := by
  induction n with
  | zero => exact .nil
  | succ n ih => exact ih.angleBracket

theorem isWordChar_of_isName {name : String} (h : isName name) : ∀ c ∈ name.toList, isWordChar c := by
  obtain ⟨c, cs, hname, hc, hcs, -⟩ := exists_word h
  have hfirst : isWordChar c := by
    simp only [isWordStart, isWordChar, Char.isAlphanum, Bool.or_eq_true] at hc ⊢
    exact hc.imp .inl id
  rw [hname]
  exact List.forall_mem_cons.2 ⟨hfirst, hcs⟩

namespace TypeExpr.Written

variable {t : TypeExpr} {rest : List Char}

theorem head_ne_angle (h : t.Written) (rest : List Char) :
    (t.text.toList ++ rest).head? ≠ some '>' := by
  cases h with
  | named hname | generic hname =>
    obtain ⟨c, cs, hcs, hc⟩ := exists_wordStart hname
    have hne : c ≠ '>' := fun h => absurd hc (h ▸ by decide)
    simpa [TypeExpr.text, hcs] using hne
  | array | map | pointer => simp [TypeExpr.text]

/-- The arguments behind the first one, each behind a comma and a blank. -/
theorem tight_afterComma {args : List TypeExpr} (hargs : ∀ t ∈ args, t.Written)
    (h : ∀ t ∈ args, ∀ rest, Tight rest → Tight (t.text.toList ++ rest)) (hrest : Tight rest) :
    Tight ((args.map TypeExpr.text).flatMap afterComma ++ rest) := by
  induction args with
  | nil => exact hrest
  | cons t args ih =>
    obtain ⟨ht, hargs⟩ := List.forall_mem_cons.1 hargs
    obtain ⟨htight, h⟩ := List.forall_mem_cons.1 h
    have hmore := htight _ (ih hargs h)
    rw [List.map_cons, List.flatMap_cons, List.append_assoc, afterComma]
    exact .cons (by decide) ⟨by decide, fun _ => ht.head_ne_angle _, hmore⟩

/-- The text of a type has no blank in front of an angle, and no comment or longer mark. -/
theorem tight (h : t.Written) : ∀ rest, Tight rest → Tight (t.text.toList ++ rest) := by
  induction h with
  | named hname => exact fun rest hrest => .word (isWordChar_of_isName hname) hrest
  | array h ih =>
    intro rest hrest
    rw [TypeExpr.text, String.toList_append, List.append_assoc]
    exact .cons (by decide) (.cons (by decide) (ih rest hrest))
  | @map key value span hkey hvalue ihkey ihvalue =>
    intro rest hrest
    have hinner := ihkey _ (.cons (c := ']') (by decide) (ihvalue rest hrest))
    simp only [TypeExpr.text, String.toList_append, List.append_assoc]
    have hmap : ∀ x ∈ "map".toList, isWordChar x := List.all_eq_true.1 (by decide)
    exact (Tight.word hmap (.cons (by decide) hinner) : Tight ("map".toList ++ '[' :: _))
  | pointer h ih =>
    intro rest hrest
    rw [TypeExpr.text, String.toList_append, List.append_assoc]
    exact .cons (by decide) (ih rest hrest)
  | @generic n args span hname hne h ih =>
    intro rest hrest
    obtain ⟨first, more, rfl⟩ := List.exists_cons_of_ne_nil hne
    obtain ⟨hfirst, hmore⟩ := List.forall_mem_cons.1 ih
    have hclosed : Tight ('>' :: rest) := .cons (by decide) hrest
    have hargs := tight_afterComma (List.forall_mem_cons.1 h).2 hmore hclosed
    simp only [TypeExpr.text, TypeExpr.texts_eq_map, List.map_cons, String.toList_append,
      toList_commaList_cons, List.append_assoc]
    exact .word (isWordChar_of_isName hname) (.cons (c := '<') (by decide) (hfirst _ hargs))

end TypeExpr.Written

/-! ## Reading a type in every grouping -/

theorem ofText_closers (n : Nat) : Lexeme.ofText '>' (closers n) = match n with
    | 0 => .plain Mark.gt ['>'] []
    | n + 1 => .plain Mark.shiftRight ['>', '>'] (closers n) := by
  cases n with
  | zero =>
    have hends : ∀ c ∈ ([] : List Char).head?, c ∉ Mark.gt.continuations := by simp
    exact (Mark.gt.ofText_append hends rfl).2
  | succ n =>
    have hends : ∀ c ∈ (closers n).head?, c ∉ Mark.shiftRight.continuations := by
      intro c hc
      obtain rfl : c = '>' := List.eq_of_mem_replicate (List.mem_of_mem_head? hc)
      decide
    exact (Mark.shiftRight.ofText_append hends rfl).2

/-- Tokens that spell angles are the angles and the end marker. -/
theorem kinds_of_spells_closers (n : Nat) : ∀ {ts : List Token}, Spells ts (closers n) →
    (ungrouped ts).map Prod.fst = List.replicate n (.mark .gt) ++ [.eof] := by
  induction n using Nat.strong_induction_on with
  | _ n ih =>
    intro ts h
    generalize htext : closers n = text at h
    have hsplit : (splitTrivia (closers n)).2 = closers n := by
      cases n with
      | zero => rfl
      | succ n => exact splitTrivia_of_bare (by decide) fun h => absurd h (by decide)
    cases h with
    | eof hnil hkind =>
      rw [← htext, hsplit] at hnil
      obtain rfl : n = 0 := (List.replicate_eq_nil_iff _).1 hnil
      rw [ungrouped_cons, Token.halves_of_ne (by simp [hkind])]
      simp [ungrouped, hkind]
    | half hkind h =>
      obtain _ | n := n
      · cases htext
      obtain rfl := (List.cons.inj htext).2
      rw [ungrouped_cons, Token.halves_of_ne (by simp [hkind]), List.map_append,
        ih n (Nat.lt_succ_self n) h, hkind]
      rfl
    | token hcons hkind hliteral h =>
      rw [← htext, hsplit] at hcons
      obtain _ | n := n
      · cases hcons
      obtain ⟨rfl, rfl⟩ := List.cons.inj hcons
      rw [show List.replicate n '>' = closers n from rfl, ofText_closers] at hkind hliteral h
      cases n with
      | zero =>
        rw [ungrouped_cons, Token.halves_of_ne (by simp [hkind, Lexeme.plain]), List.map_append,
          ih 0 (by decide) h, hkind]
        rfl
      | succ n =>
        rw [ungrouped_cons, Token.halves_double hkind hliteral, List.map_append,
          ih n (by omega) h]
        rfl

/-- Written types are read back. The text of a type gives the type, up to spans, and ends there. The
same holds for its tokens with the angles in any other grouping; and of further angles behind it
none is taken, even if the last one that was taken is half of a token. -/
theorem Parse.type_text (t : TypeExpr) (h : t.Written) :
    (∃ t' q, type (.ofSource t.text) = .ok t' q ∧ q.atEof ∧ t'.unplaced = t.unplaced) ∧
    ∀ (extra : Nat) (ts : List Token),
      ungrouped ts = ungrouped (tokenize (t.text ++ .ofList (closers extra))) →
      ∃ t' q, type (.ofTokens ts) = .ok t' q ∧ t'.unplaced = t.unplaced ∧
        (ungrouped (q.current :: q.rest)).map Prod.fst =
          List.replicate extra (.mark .gt) ++ [.eof] := by
  have hread : ∀ (extra : Nat) (p : Parser), p.At (t.text.toList ++ closers extra) →
      ∃ t' q, type p = .ok t' q ∧ t'.unplaced = t.unplaced ∧ q.At (closers extra) := by
    intro extra p hp
    obtain ⟨t', q, hok, hsame, hpast⟩ := rereadsType_type h (p.rest.length + 1) p _
      (Nat.lt_succ_self _) hp (.closers extra)
    exact ⟨t', q, hok, hsame, hpast.here⟩
  refine ⟨?_, fun extra ts hts => ?_⟩
  · have hat : (Parser.ofSource t.text).At (t.text.toList ++ closers 0) := by
      rw [closers, List.replicate_zero, List.append_nil]
      exact Parser.at_ofSource t.text
    obtain ⟨t', q, hok, hsame, hq⟩ := hread 0 _ hat
    exact ⟨t', q, hok, by simp [Parser.atEof, Parser.At.kind_eof hq], hsame⟩
  · have hlexed := spells_tokensFrom .start (t.text ++ .ofList (closers extra)).toList
    rw [String.toList_append, String.toList_ofList] at hlexed
    have htight := h.tight _ (tight_closers extra)
    have hspells : Spells ts (t.text.toList ++ closers extra) := by
      refine SpellsAnyhow.of_spells hlexed htight ts (hts.trans ?_)
      rw [tokenize, String.toList_append, String.toList_ofList]
    obtain ⟨t', q, hok, hsame, hq⟩ := hread extra (.ofTokens ts) (by
      cases ts with
      | nil => exact absurd rfl hspells.ne_nil
      | cons u us => exact ⟨hspells, rfl⟩)
    exact ⟨t', q, hok, hsame, kinds_of_spells_closers extra hq.spells⟩

/-- A type whose last two lists of arguments end together. -/
def nestedPair : TypeExpr :=
  .generic ⟨"Pair", {}⟩ [.named ⟨"int", {}⟩, .generic ⟨"Stack", {}⟩ [.named ⟨"float", {}⟩] {}] {}

/-- Its tokens in front of one more angle. The scan takes the first two of the three angles for one
token; here the last two are. -/
def nestedPairTokens : List Token :=
  [⟨.ident, "Pair", {}⟩, ⟨Mark.lt, "<", {}⟩, ⟨.ident, "int", {}⟩, ⟨Mark.comma, ",", {}⟩,
    ⟨.ident, "Stack", {}⟩, ⟨Mark.lt, "<", {}⟩, ⟨.ident, "float", {}⟩, ⟨Mark.gt, ">", {}⟩,
    ⟨Mark.shiftRight, ">>", {}⟩, ⟨.eof, "", {}⟩]

theorem Parse.type_text_nestedPair :
    (∃ t q, type (.ofSource "Pair<int, Stack<float>>") = .ok t q ∧ q.atEof ∧
      t.unplaced = nestedPair.unplaced) ∧
    ∃ t q, type (.ofTokens nestedPairTokens) = .ok t q ∧ t.unplaced = nestedPair.unplaced ∧
      (ungrouped (q.current :: q.rest)).map Prod.fst = [.mark .gt, .eof] := by
  have hwritten : nestedPair.Written := by
    refine .generic (by decide) (List.cons_ne_nil _ _) fun t ht => ?_
    rcases List.mem_cons.1 ht with rfl | ht
    · exact .named (by decide)
    · obtain rfl := List.mem_singleton.1 ht
      refine .generic (by decide) (List.cons_ne_nil _ _) fun t ht => ?_
      obtain rfl := List.mem_singleton.1 ht
      exact .named (by decide)
  have htext : nestedPair.text = "Pair<int, Stack<float>>" := by decide +kernel
  obtain ⟨hread, hgrouped⟩ := type_text nestedPair hwritten
  rw [htext] at hread hgrouped
  exact ⟨hread, hgrouped 1 nestedPairTokens (by decide +kernel)⟩

end ClassLang
