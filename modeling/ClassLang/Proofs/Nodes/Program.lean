import ClassLang.Proofs.Nodes.Statements
import ClassLang.Gen.Convert

/-!
# Nodes of a whole program

Statements are read one behind the other, also behind a failure, since recovery only moves on. So
the statements of a program are sound, and with them all of its nodes.
-/

namespace ClassLang

variable {source : String}

namespace Parse

/-- A statement that starts with `if` can stand behind `else`. -/
theorem runs_statementAt_if (fuel : Nat) {p : Parser} (hkind : p.kind = Keyword.ifKw) :
    Runs (fun _ => True) (statementAt fuel) p fun s _ => s.isAlternative := by
  cases fuel with
  | zero => exact Runs.tooDeep trivial
  | succ fuel =>
    have hif : Returns (ifStmt (expressionAt fuel) (statementAt fuel)) (·.isAlternative) :=
      .bind fun _ => .bind fun _ => .bind fun _ => .bind fun _ => .bind fun _ => .pure rfl
    have hstep : Runs (fun _ => True) (statementStep (expressionAt fuel) (statementAt fuel)) p
        fun s _ => s.isAlternative := by
      refine .look rfl ?_
      rw [hkind]
      exact hif p
    exact hstep

theorem builds_expressionAt_statementAt (fuel : Nat) :
    (∀ least, Builds source [] (expressionAt fuel least) (Piece.of .expr)) ∧
      Builds source [] (statementAt fuel) (Piece.of .stmt) := by
  induction fuel with
  | zero => exact ⟨fun _ => .tooDeep, .tooDeep⟩
  | succ fuel ih =>
    exact ⟨builds_expressionStep ih.1 ih.2,
      builds_statementStep ih.1 ih.2 fun p => runs_statementAt_if fuel⟩

theorem builds_statement : Builds source [] statement (Piece.of .stmt) :=
  .of_fuel fun fuel => (builds_expressionAt_statementAt fuel).2

end Parse

/-! ## Recovery -/

namespace Parser

variable {o p : Parser}

theorem made_advanced (h : Made source o [] p) (heof : ¬ p.atEof) : Made source o [] p.advanced :=
  h.skip (.token h.laid fun hkind => heof (by simp [atEof, hkind]))

theorem made_syncAt (fuel : Nat) {p : Parser} (h : Made source o [] p) :
    Made source o [] (syncAt fuel p) := by
  induction fuel generalizing p with
  | zero => exact h
  | succ fuel ih =>
    rw [syncAt]
    split
    · exact h
    next heof =>
    split
    · exact made_advanced h heof
    split
    · exact h
    · exact ih (made_advanced h heof)

theorem made_recovered (before : Parser) (e : ParseError) (h : Made source o [] p) :
    Made source o [] (recovered before e p) := by
  have hrecorded : Made source o [] { p with errors := p.errors ++ [e] } :=
    ⟨h.begun, h.laid, h.chain, h.placed, h.sound⟩
  have hsynced : Made source o [] (Parser.synced { p with errors := p.errors ++ [e] }) :=
    made_syncAt _ hrecorded
  unfold recovered
  dsimp only
  split
  next hstuck =>
    exact made_advanced hsynced (by simpa using (Bool.and_eq_true_iff.1 hstuck).2)
  next => exact hsynced

/-- The statements of a program stand one behind the other. -/
theorem made_statementsAt (fuel : Nat) {p : Parser} (hp : p.Laid source) :
    Made source p ((statementsAt fuel p).1.flatMap (Piece.of .stmt)) (statementsAt fuel p).2 := by
  induction fuel generalizing p with
  | zero => exact .refl hp
  | succ fuel ih =>
    rw [statementsAt]
    split
    · exact .refl hp
    next heof =>
    split
    · have hnext := made_advanced (.refl hp) heof
      exact hnext.trans (ih hnext.laid)
    have hstatement := Parse.builds_statement p p (.refl hp)
    unfold Parse.BuildsAt Parse.Runs at hstatement
    cases hresult : Parse.statement p with
    | ok s q =>
      rw [hresult] at hstatement
      exact hstatement.trans (ih hstatement.laid)
    | error e q =>
      rw [hresult] at hstatement
      have hnext := made_recovered p e hstatement
      exact hnext.trans (ih hnext.laid)

end Parser

/-! ## The nodes of a source -/

theorem made_parse (source : String) :
    Made source (Parser.ofSource source) ((parse source).1.stmts.flatMap (Piece.of .stmt))
      (Parser.ofSource source).program.2 :=
  Parser.made_statementsAt (Parser.ofSource source).fuel (Parser.laid_ofSource source)

theorem sound_of_contains {n : Node} (h : (parse source).1.Contains n) : n.Sound source :=
  h.sound fun s hs => (made_parse source).sound _ (List.mem_flatMap.2 ⟨s, hs, List.mem_cons_self⟩)

/-- The spans of a program are stretches of its source, each one inside of those around it. -/
structure Nested (source : String) : Prop where
  placed : ∀ n, (parse source).1.Contains n → n.span.Placed source
  inside : ∀ n, (parse source).1.Contains n → ∀ c ∈ n.children, ¬ n.Spares c →
    c.span.Inside n.span
  /-- Where there is a statement, the whole program is a stretch of the source as well. -/
  program : (parse source).1.stmts ≠ [] → (parse source).1.span.Placed source
  stmts : ∀ s ∈ (parse source).1.stmts, s.span.Inside (parse source).1.span

/-- Every node of a program has the shape that later stages count on, whatever errors its source
contains. -/
structure WellShaped (source : String) : Prop where
  shaped : ∀ n, (parse source).1.Contains n → n.Shaped
  /-- An integer literal can be negated in 64 bits. -/
  negates : ∀ v span, (parse source).1.Contains (.expr (.int v span)) → Lower.negate64 v = -v

theorem wellShaped_parse (source : String) : WellShaped source := by
  refine ⟨fun n h => (sound_of_contains h).shaped, fun v span h => ?_⟩
  have hv : v ≤ 2 ^ 63 - 1 := (sound_of_contains h).shaped
  unfold Lower.negate64
  rw [show Nat.pow 2 64 = 18446744073709551616 from rfl, Int.bmod_eq_of_le] <;> omega

end ClassLang
