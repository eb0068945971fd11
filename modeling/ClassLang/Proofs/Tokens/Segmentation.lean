import ClassLang.Proofs.Tokens.Rules
import Mathlib.Data.String.Basic

/-!
# Cutting a text into tokens

`tokenize` cuts a text without loss. `Cut` follows the scan: in front of each token blanks and
comments are skipped, the token is the longest match, and its span counts the bytes in front of it.
`Segments` says the same of a whole source through the spans alone: they lie on character boundaries
in increasing order, only the last one is empty, and the text between them is blanks and comments.
-/

namespace ClassLang

open String (utf8Len)

/-! ## Offsets in bytes -/

theorem Place.offset_after (p : Place) (text : List Char) :
    (p.after text).offset = p.offset + utf8Len text := by
  induction text generalizing p with
  | nil => rfl
  | cons c text ih =>
    have hnext : (p.next c).offset = p.offset + c.utf8Size := by
      unfold Place.next
      split <;> rfl
    rw [Place.after_cons, ih, hnext, String.utf8Len_cons]
    omega

theorem Place.line_after (p : Place) (text : List Char) :
    (p.after text).line = p.line + text.count '\n' := by
  induction text generalizing p with
  | nil => rfl
  | cons c text ih =>
    rw [Place.after_cons, ih, List.count_cons, Place.next]
    by_cases hc : c = '\n'
    · rw [if_pos hc, if_pos (by simpa using hc)]
      exact Nat.add_right_comm p.line 1 _
    · rw [if_neg hc, if_neg (by simpa using hc)]
      rfl

namespace Span

/-- Dropping as many bytes as a stretch of text has leaves what stands behind it. -/
theorem dropBytes_append (front text : List Char) :
    dropBytes (utf8Len front) (front ++ text) = text := by
  induction front with
  | nil => cases text <;> rfl
  | cons c front ih =>
    obtain ⟨n, hn⟩ : ∃ n, utf8Len (c :: front) = n + 1 :=
      Nat.exists_eq_add_one.2 (by rw [String.utf8Len_cons]; have := c.utf8Size_pos; omega)
    have hrest : n + 1 - c.utf8Size = utf8Len front := by
      rw [← hn, String.utf8Len_cons, Nat.add_sub_cancel]
    rw [hn, List.cons_append, dropBytes, hrest, ih]

/-- Taking as many bytes as a stretch of text has gives the stretch. -/
theorem takeBytes_append (text rest : List Char) :
    takeBytes (utf8Len text) (text ++ rest) = text := by
  induction text with
  | nil => cases rest <;> rfl
  | cons c text ih =>
    obtain ⟨n, hn⟩ : ∃ n, utf8Len (c :: text) = n + 1 :=
      Nat.exists_eq_add_one.2 (by rw [String.utf8Len_cons]; have := c.utf8Size_pos; omega)
    have hrest : n + 1 - c.utf8Size = utf8Len text := by
      rw [← hn, String.utf8Len_cons, Nat.add_sub_cancel]
    rw [hn, List.cons_append, takeBytes, hrest, ih]

end Span

/-- The text of a source from a byte offset on. -/
def textFrom (source : String) (offset : Nat) : List Char := Span.dropBytes offset source.toList

/-- The text of a source between two byte offsets. -/
def textBetween (source : String) (start stop : Nat) : List Char :=
  Span.takeBytes (stop - start) (textFrom source start)

section

variable {source : String} {front text rest : List Char}

theorem textFrom_eq (h : source.toList = front ++ text) : textFrom source (utf8Len front) = text := by
  rw [textFrom, h, Span.dropBytes_append]

theorem textBetween_eq (h : source.toList = front ++ (text ++ rest)) :
    textBetween source (utf8Len front) (utf8Len (front ++ text)) = text := by
  rw [textBetween, textFrom_eq h, String.utf8Len_append, Nat.add_sub_cancel_left,
    Span.takeBytes_append]

theorem isValid_of_append (h : source.toList = front ++ text) :
    String.Pos.Raw.IsValid source ⟨utf8Len front⟩ := by
  refine String.Pos.Raw.isValid_iff_exists_append.2 ⟨.ofList front, .ofList text, ?_, ?_⟩
  · rw [← String.ofList_append, ← h, String.ofList_toList]
  · rw [String.rawEndPos_ofList]

end

/-- The text that a token covers. -/
def Token.covered (t : Token) (source : String) : List Char :=
  textBetween source t.span.start t.span.stop

theorem Token.slice_eq (t : Token) (source : String) :
    t.span.slice source = .ofList (t.covered source) := rfl

/-! ## Following the scan -/

theorem Munch.ne_nil {kind : TokenKind} {text rest : List Char} (h : Munch kind text rest) :
    text ≠ [] := by
  rcases h with ⟨rule, h, -⟩ | ⟨-, h, -⟩
  · obtain ⟨c, cs, rfl, -⟩ := h.starts
    exact List.cons_ne_nil c cs
  · exact List.ne_nil_of_length_pos (by omega)

theorem Munch.kind_ne_eof {kind : TokenKind} {text rest : List Char} (h : Munch kind text rest) :
    kind ≠ .eof := by
  rcases h with ⟨rule, -, rfl, -⟩ | ⟨rfl, -⟩
  · cases rule with
    | word =>
      simp only [TokenRule.kind, TokenKind.ofWord]
      split <;> exact TokenKind.noConfusion
    | int | float | mark => exact TokenKind.noConfusion
    | delimited d => cases d <;> exact TokenKind.noConfusion
  · exact TokenKind.noConfusion

/-- A token covers a stretch of text behind a front. -/
structure Token.Covers (t : Token) (front text : List Char) : Prop where
  start : t.span.start = utf8Len front
  stop : t.span.stop = utf8Len (front ++ text)

/-- The tokens of a text behind a front, as the scan finds them. -/
inductive Cut : (front text : List Char) → List Token → Prop
  | eof {front trivia : List Char} {t : Token} (htrivia : Trivia trivia [])
    (hcovers : t.Covers (front ++ trivia) []) (hkind : t.kind = .eof) (hliteral : t.literal = "") :
    Cut front trivia [t]
  | token {front trivia text rest : List Char} {t : Token} {ts : List Token}
    (htrivia : Trivia trivia (text ++ rest)) (hbare : Bare (text ++ rest))
    (hcovers : t.Covers (front ++ trivia) text) (hmunch : Munch t.kind text rest)
    (hliteral : t.kind ≠ .string → t.kind ≠ .char → t.literal = .ofList text)
    (hcut : Cut (front ++ trivia ++ text) rest ts) :
    Cut front (trivia ++ (text ++ rest)) (t :: ts)

theorem cut_tokensFrom (p : Place) (text : List Char) :
    ∀ front, p.offset = utf8Len front → Cut front text (tokensFrom p text) := by
  fun_induction tokensFrom p text with
  | case1 p text q hsplit =>
    intro front hp
    have htrivia := trivia_splitTrivia text
    have happend := splitTrivia_append text
    rw [hsplit] at htrivia
    rw [hsplit, List.append_nil] at happend
    have hq : q.offset = utf8Len (front ++ text) := by
      rw [Place.offset_after, String.utf8Len_append, hp, happend]
    rw [happend] at htrivia
    exact .eof htrivia ⟨hq, by rw [List.append_nil]; exact hq⟩ rfl rfl
  | case2 p text q c rest hsplit x ih =>
    intro front hp
    have htrivia := trivia_splitTrivia text
    have hbare := bare_splitTrivia text
    have happend := splitTrivia_append text
    have hx := Lexeme.sound_ofText c rest
    rw [hsplit, ← hx.append] at htrivia hbare happend
    have hq : q.offset = utf8Len (front ++ (splitTrivia text).1) := by
      rw [Place.offset_after, String.utf8Len_append, hp]
    have hstop : (q.after x.text).offset = utf8Len (front ++ (splitTrivia text).1 ++ x.text) := by
      rw [Place.offset_after, String.utf8Len_append, hq]
    have hliteral : x.kind ≠ .string → x.kind ≠ .char → String.ofList x.literal = .ofList x.text :=
      fun hstring hchar => congrArg String.ofList (hx.literal hstring hchar)
    rw [← happend]
    exact .token htrivia hbare ⟨hq, hstop⟩ hx.munch hliteral (ih _ hstop)

/-! ## What the spans say -/

/-- How a token stands in a source: what is in front of it, what it covers, and what follows. -/
inductive Token.Placed (source : String) (t : Token) : Prop
  | intro {front text rest : List Char} (hsource : source.toList = front ++ (text ++ rest))
    (hcovers : t.Covers front text)
    (h : (t.kind = .eof ∧ t.literal = "" ∧ text = [] ∧ rest = []) ∨
      (Munch t.kind text rest ∧
        (t.kind ≠ .string → t.kind ≠ .char → t.literal = .ofList text)))

namespace Cut

variable {source : String} {front text : List Char} {ts : List Token}

theorem placed (h : Cut front text ts) (hsource : source.toList = front ++ text) :
    ∀ t ∈ ts, t.Placed source := by
  induction h with
  | @eof front trivia t htrivia hcovers hkind hliteral =>
    intro u hu
    obtain rfl := List.mem_singleton.1 hu
    exact ⟨by simpa using hsource, hcovers, .inl ⟨hkind, hliteral, rfl, rfl⟩⟩
  | @token front trivia text rest t ts _ _ hcovers hmunch hliteral _ ih =>
    intro u hu
    rcases List.mem_cons.1 hu with rfl | hu
    · exact ⟨by simpa using hsource, hcovers, .inr ⟨hmunch, hliteral⟩⟩
    · exact ih (by simpa using hsource) u hu

/-- All tokens stand behind the front. -/
theorem le_start (h : Cut front text ts) :
    ∀ t ∈ ts, utf8Len front ≤ t.span.start := by
  induction h with
  | eof _ hcovers =>
    intro u hu
    obtain rfl := List.mem_singleton.1 hu
    rw [hcovers.start, String.utf8Len_append]
    omega
  | token _ _ hcovers _ _ _ ih =>
    intro u hu
    rcases List.mem_cons.1 hu with rfl | hu
    · rw [hcovers.start, String.utf8Len_append]
      omega
    · have := ih u hu
      simp only [String.utf8Len_append] at this
      omega

theorem pairwise (h : Cut front text ts) :
    ts.Pairwise fun t u => t.span.stop ≤ u.span.start := by
  induction h with
  | eof => exact List.pairwise_singleton ..
  | token _ _ hcovers _ _ hcut ih =>
    refine List.pairwise_cons.2 ⟨fun u hu => ?_, ih⟩
    rw [hcovers.stop]
    exact hcut.le_start u hu

/-- Only the last token is an end marker. -/
theorem marker (h : Cut front text ts) :
    ∃ init last, ts = init ++ [last] ∧ last.kind = .eof ∧ last.literal = "" ∧
      last.Covers (front ++ text) [] ∧ ∀ t ∈ init, t.kind ≠ .eof := by
  induction h with
  | @eof front trivia t _ hcovers hkind hliteral =>
    exact ⟨[], t, rfl, hkind, hliteral, hcovers, by simp⟩
  | @token front trivia text rest t ts _ _ _ hmunch _ _ ih =>
    obtain ⟨init, last, rfl, hkind, hliteral, hcovers, hinit⟩ := ih
    refine ⟨t :: init, last, rfl, hkind, hliteral, by simpa using hcovers, ?_⟩
    intro u hu
    rcases List.mem_cons.1 hu with rfl | hu
    · exact hmunch.kind_ne_eof
    · exact hinit u hu

end Cut

/-- Where tokens behind an offset end. -/
def stopOf (offset : Nat) (tokens : List Token) : Nat :=
  (tokens.getLast?.map (·.span.stop)).getD offset

theorem stopOf_cons (offset : Nat) (t : Token) (ts : List Token) :
    stopOf offset (t :: ts) = stopOf t.span.stop ts := by
  cases hlast : ts.getLast? <;> simp [stopOf, List.getLast?_cons, hlast]

/-- Between two tokens, and in front of the first, stands nothing but blanks and comments. -/
theorem Cut.trivia {source : String} {front text : List Char} {before after ts : List Token}
    {t : Token} (h : Cut front text ts) (hsource : source.toList = front ++ text)
    (hts : ts = before ++ t :: after) :
    Trivia (textBetween source (stopOf (utf8Len front) before) t.span.start)
        (textFrom source t.span.start) ∧
      Bare (textFrom source t.span.start) := by
  induction h generalizing before with
  | @eof front trivia u htrivia hcovers =>
    have hall : source.toList = front ++ (trivia ++ []) := by simpa using hsource
    have hend : source.toList = front ++ trivia ++ [] := by simpa using hsource
    cases before with
    | nil =>
      obtain ⟨rfl, -⟩ := List.cons.inj hts
      have hgap : textBetween source (stopOf (utf8Len front) []) (utf8Len (front ++ trivia)) =
          trivia := textBetween_eq hall
      rw [hcovers.start, hgap, textFrom_eq hend]
      exact ⟨htrivia, bare_nil⟩
    | cons b before => simp at hts
  | @token front trivia text rest u ts htrivia hbare hcovers _ _ _ ih =>
    cases before with
    | nil =>
      obtain ⟨rfl, -⟩ := List.cons.inj hts
      have hgap : textBetween source (stopOf (utf8Len front) []) (utf8Len (front ++ trivia)) =
          trivia := textBetween_eq hsource
      rw [hcovers.start, hgap, textFrom_eq (by simpa using hsource)]
      exact ⟨htrivia, hbare⟩
    | cons b before =>
      obtain ⟨rfl, htail⟩ := List.cons.inj hts
      rw [stopOf_cons, hcovers.stop]
      exact ih (by simpa using hsource) htail

/-- Tokens cut a source without loss, always at the longest match. -/
structure Segments (source : String) (tokens : List Token) : Prop where
  /-- One token stands behind the other. -/
  ordered : tokens.Pairwise fun t u => t.span.stop ≤ u.span.start
  /-- No character is cut in two. -/
  boundaries : ∀ t ∈ tokens, String.Pos.Raw.IsValid source ⟨t.span.start⟩ ∧
    String.Pos.Raw.IsValid source ⟨t.span.stop⟩
  /-- The last token is the end marker. It alone is one, and it alone covers nothing. -/
  marker : ∃ init last, tokens = init ++ [last] ∧ last.kind = .eof ∧
    last.span.start = source.utf8ByteSize ∧ last.span.stop = source.utf8ByteSize ∧
    ∀ t ∈ init, t.kind ≠ .eof ∧ t.span.start < t.span.stop
  /-- In front of each token, behind the one before it, stand blanks and comments, as many as there
  are. -/
  trivia : ∀ before t after, tokens = before ++ t :: after →
    Trivia (textBetween source (stopOf 0 before) t.span.start) (textFrom source t.span.start) ∧
      Bare (textFrom source t.span.start)
  /-- What a token covers is the longest match at the front of what is left of the source. -/
  longest : ∀ t ∈ tokens, t.kind ≠ .eof →
    textFrom source t.span.start =
        (t.span.slice source).toList ++ textFrom source t.span.stop ∧
      Munch t.kind (t.span.slice source).toList (textFrom source t.span.stop)
  /-- The literal is what the token covers unless that is delimited. -/
  literal : ∀ t ∈ tokens, t.kind ≠ .string → t.kind ≠ .char → t.literal = t.span.slice source

namespace Token.Placed

variable {source : String} {t : Token}

theorem slice_eq {front text rest : List Char} (hcovers : t.Covers front text)
    (hsource : source.toList = front ++ (text ++ rest)) :
    t.span.slice source = .ofList text := by
  rw [Token.slice_eq, Token.covered, hcovers.start, hcovers.stop, textBetween_eq hsource]

theorem boundaries (h : t.Placed source) :
    String.Pos.Raw.IsValid source ⟨t.span.start⟩ ∧
      String.Pos.Raw.IsValid source ⟨t.span.stop⟩ := by
  obtain ⟨hsource, hcovers, -⟩ := h
  rw [hcovers.start, hcovers.stop]
  exact ⟨isValid_of_append hsource, isValid_of_append (by simpa using hsource)⟩

theorem start_lt_stop (h : t.Placed source) (hkind : t.kind ≠ .eof) :
    t.span.start < t.span.stop := by
  obtain ⟨hsource, hcovers, ⟨heof, -⟩ | ⟨hmunch, -⟩⟩ := h
  · exact absurd heof hkind
  · have := mt String.utf8Len_eq_zero.1 hmunch.ne_nil
    rw [hcovers.start, hcovers.stop, String.utf8Len_append]
    omega

theorem longest (h : t.Placed source) (hkind : t.kind ≠ .eof) :
    textFrom source t.span.start =
        (t.span.slice source).toList ++ textFrom source t.span.stop ∧
      Munch t.kind (t.span.slice source).toList (textFrom source t.span.stop) := by
  obtain ⟨hsource, hcovers, ⟨heof, -⟩ | ⟨hmunch, -⟩⟩ := h
  · exact absurd heof hkind
  · rw [slice_eq hcovers hsource, hcovers.start, hcovers.stop, String.toList_ofList,
      textFrom_eq hsource, textFrom_eq (by simpa using hsource)]
    exact ⟨rfl, hmunch⟩

theorem literal (h : t.Placed source) (hstring : t.kind ≠ .string) (hchar : t.kind ≠ .char) :
    t.literal = t.span.slice source := by
  obtain ⟨hsource, hcovers, ⟨-, hliteral, rfl, -⟩ | ⟨-, hliteral⟩⟩ := h
  · rw [slice_eq hcovers hsource, hliteral, String.ofList_nil]
  · rw [slice_eq hcovers hsource, hliteral hstring hchar]

end Token.Placed

theorem cut_tokenize (source : String) : Cut [] source.toList (tokenize source) :=
  cut_tokensFrom .start source.toList [] rfl

/-- Every source is cut into tokens without loss, always at the longest match. -/
theorem segments_tokenize (source : String) : Segments source (tokenize source) := by
  have hcut := cut_tokenize source
  have hplaced : ∀ t ∈ tokenize source, t.Placed source := hcut.placed rfl
  refine ⟨hcut.pairwise, fun t ht => (hplaced t ht).boundaries, ?_, fun before t after hts => ?_,
    fun t ht => (hplaced t ht).longest, fun t ht => (hplaced t ht).literal⟩
  · obtain ⟨init, last, htokens, hkind, -, hcovers, hinit⟩ := hcut.marker
    have hlen : utf8Len ([] ++ source.toList) = source.utf8ByteSize := String.utf8Len_toList source
    refine ⟨init, last, htokens, hkind, hcovers.start.trans hlen, ?_, fun t ht => ?_⟩
    · rw [hcovers.stop, List.append_nil, hlen]
    · have hmem : t ∈ tokenize source := htokens ▸ List.mem_append_left _ ht
      exact ⟨hinit t ht, (hplaced t hmem).start_lt_stop (hinit t ht)⟩
  · exact hcut.trivia rfl hts

end ClassLang
