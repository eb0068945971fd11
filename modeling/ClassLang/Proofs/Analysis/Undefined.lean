import ClassLang.Proofs.Comparison.Program

/-!
# Names that stand for nothing

A name that a program uses as a value only, and that nothing declares, is reported where it is
looked up. Nothing else depends on it: the analysis finds the same as one that knows the name for a
global variable of unknown type, and every other name stands for the same. Each use in the program is
looked up at most once.
-/

namespace ClassLang

/-- The finding that a name stands for nothing. -/
def Finding.undefined (n : Ident) : Finding := ⟨.undefinedIdentifier n.name, n.span⟩

/-- The finding says that `x` stands for nothing. -/
def Finding.misses (x : String) (f : Finding) : Bool :=
  match f.cause with
  | .undefinedIdentifier n => n == x
  | _ => false

theorem Finding.misses_undefined (n : Ident) : (undefined n).misses n.name = true :=
  beq_self_eq_true n.name

theorem Finding.misses_eq_false {x : String} {f : Finding}
    (h : ∀ n, f.cause = .undefinedIdentifier n → n ≠ x) : f.misses x = false := by
  rw [misses]
  split
  next n hn => exact beq_false_of_ne (h n hn)
  · rfl

/-- The places where `x` was looked up as a value, in their order. -/
def Record.lookups (r : Record) (x : String) : List Ident :=
  (r.judgements.filterMap Judgement.name?).filter (·.name == x)

/-- The places where a program uses `x` as a value. -/
def Program.uses (p : Program) (x : String) : List Ident :=
  (p.mentions.filterMap Mention.value?).filter (·.name == x)

/-- Before the first program, with `x` as a variable of which nothing is known. -/
def Analysis.knowing (x : String) : Analysis :=
  { Analysis.initial with scopes := Analysis.initial.scopes.replace (.unknown x) }

/-- On the left, `x` stands for nothing. -/
structure Record.Misses (x : String) (r r' : Record) : Prop where
  findings : r'.findings = r.findings.filter (!·.misses x)
  undefined : r.findings.filter (·.misses x) = (r.lookups x).map Finding.undefined
  judgements : r'.judgements = r.judgements

namespace Record.Misses

variable {x : String} {r r' : Record}

theorem report {f : Finding} (hf : f.misses x = false) (h : Misses x r r') :
    Misses x (r.report f) (r'.report f) where
  findings := by simp [Record.report, h.findings, hf]
  undefined := by
    rw [Record.report, List.filter_append, List.filter_cons_of_neg (by simp [hf]), List.filter_nil,
      List.append_nil]
    exact h.undefined
  judgements := h.judgements

theorem lookups_judge (r : Record) (j : Judgement) :
    (r.judge j).lookups x = r.lookups x ++ (j.name?.toList.filter (·.name == x)) := by
  rw [lookups, Record.judge, List.filterMap_append, List.filter_append]
  cases j <;> rfl

theorem judge {j : Judgement} (hj : ∀ n, j = .name n → n.name ≠ x) (h : Misses x r r') :
    Misses x (r.judge j) (r'.judge j) where
  findings := h.findings
  undefined := by
    have hnone : j.name?.toList.filter (·.name == x) = [] := by
      cases j with
      | name n => simp [Judgement.name?, hj n rfl]
      | _ => rfl
    rw [lookups_judge, hnone, List.append_nil]
    exact h.undefined
  judgements := congrArg (· ++ [j]) h.judgements

theorem missing (n : Ident) (h : Misses n.name r r') :
    Misses n.name ((r.judge (.name n)).report (.undefined n)) (r'.judge (.name n)) where
  findings := by
    simp [Record.report, Record.judge, h.findings, Finding.misses_undefined]
  undefined := by
    have hlookups : (r.judge (.name n)).lookups n.name = r.lookups n.name ++ [n] := by
      rw [lookups_judge]
      simp [Judgement.name?]
    change _ = ((r.judge (.name n)).lookups n.name).map Finding.undefined
    rw [hlookups, List.map_append, ← h.undefined]
    simp [Record.report, Record.judge, Finding.misses_undefined]
  judgements := congrArg (· ++ [Judgement.name n]) h.judgements

end Record.Misses

/-- The name `x` stands for nothing on the left, and for an unknown variable on the right. -/
def Comparison.setApart (x : String) : Comparison where
  names n := n ≠ x
  fades := false
  records := Record.Misses x
  report hf _ h := h.report (Finding.misses_eq_false hf)
  judge hj h := h.judge hj
  judge_left := nofun
  judge_right := nofun
  missing hn h := by
    obtain rfl := Decidable.not_not.1 hn
    exact h.missing _

namespace Comparison

variable {x : String}

theorem context_setApart (ctx : Context) : (setApart x).context ctx = ctx := by
  rw [context, setApart, Bool.not_false, Bool.and_true]

theorem symbols_setApart {o o' : Option Symbol} (h : Option.Rel (setApart x).Symbols o o') :
    o' = o := by
  obtain ⟨rfl, rfl⟩ | ⟨s, s', rfl, rfl, rfl | ⟨hfades, _⟩⟩ := rel_cases h
  · rfl
  · rfl
  · cases hfades

theorem fine_setApart (r : Record) : (setApart x).Fine r := nofun

/-- Nothing is noted yet, and `x` is the only difference. -/
theorem states_knowing (hx : Analysis.initial.scopes.global? x = none) :
    (setApart x).States .initial (.knowing x) := by
  obtain ⟨s, hs, hparent, hclass⟩ := Analysis.scopes_initial
  have hnew : s.symbols.find? x = none := by rwa [hs] at hx
  refine ⟨?_, rfl, rfl, rfl, rfl⟩
  rw [Analysis.knowing, hs]
  refine Trees.single ⟨rfl, .inl ⟨rfl, hparent⟩, fun n hn => ?_, fun n d hd info hinfo => ?_,
    fun n hn => ?_⟩
  · have hne : (n == x) = false := beq_false_of_ne hn
    rw [Table.find?_insert, Symbol.unknown, hne]
    exact Std.Refl.refl _
  · rw [hclass n d hd] at hinfo
    cases hinfo
  · obtain rfl := Decidable.not_not.1 hn
    refine ⟨hnew, ?_⟩
    rw [Table.find?_insert, Symbol.unknown, beq_self_eq_true]
    rfl

end Comparison

/-- A step does the same whether `x` stands for nothing or for an unknown variable. -/
def Check.Ignores {α : Type} (x : String) (m : Check α) : Prop :=
  ∀ a b, (Comparison.setApart x).States a b →
    (m.run b).1 = (m.run a).1 ∧ (Comparison.setApart x).States (m.run a).2 (m.run b).2

namespace Check.Ignores

open Comparison (setApart)

variable {α : Type} {x : String}

theorem of_rel (f : Context → Check α) {ctx : Context} {L : List Mention} {Q : α → α → Prop}
    (h : (setApart x).Rel L Q (f ctx) (f ((setApart x).context ctx))) (hQ : ∀ v w, Q v w → w = v)
    (hx : .name x ∉ L) : Ignores x (f ctx) := by
  rw [Comparison.context_setApart] at h
  have hrel := (h fun n hn hname => hx (hname ▸ hn)).2
  exact fun a b hab => (hrel a b hab (Comparison.fine_setApart _)).imp_left (hQ _ _)

theorem inferType (ctx : Context) {e : Expr} (hx : .name x ∉ e.mentions) :
    Ignores x (Check.inferType ctx e) := by
  refine of_rel (Check.inferType · e) (Comparison.Rel.inferType ctx e) (fun t u htypes => ?_) hx
  obtain heq | ⟨hfades, _⟩ := htypes
  · exact heq
  · cases hfades

theorem checkStmt (ctx : Context) {s : Stmt} (hx : .name x ∉ s.mentions) :
    Ignores x (Check.checkStmt ctx s) :=
  of_rel (Check.checkStmt · s) (Comparison.Rel.checkStmt ctx s) (fun _ _ => Eq.symm) hx

theorem checkProgram (ctx : Context) {p : Program} (hx : .name x ∉ p.mentions) :
    Ignores x (Check.checkProgram ctx p) :=
  of_rel (Check.checkProgram · p) (Comparison.Rel.checkProgram ctx p) (fun _ _ => Eq.symm) hx

end Check.Ignores

/-- What is looked up are uses in the program, each of them at most once. -/
theorem lookups_analyze {x : String} {p : Program} (hx : .name x ∉ p.mentions) (inference : Bool) :
    ((analyze p inference).record.lookups x).Sublist (p.uses x) := by
  have hnames : ∀ n, .name n ∈ p.mentions → (Comparison.setApart x).names n :=
    fun n hn hname => hx (hname ▸ hn)
  have hsteps := (Comparison.Rel.checkProgram { inference } p hnames).1
  obtain ⟨js, hjs, hsub⟩ := (hsteps .initial).judgements
  have hjudgements : (analyze p inference).record.judgements = js := hjs
  rw [Record.lookups, hjudgements]
  exact hsub.filter _

/-- A name that stands for nothing costs one finding for each of its uses that is looked up, and
each use is looked up at most once. Apart from that the analysis is the one that knows the name for
a variable of unknown type: in every step, the two infer the same types. -/
theorem findings_of_undefined (x : String) (hnew : Analysis.initial.scopes.global? x = none)
    (p : Program) (hx : .name x ∉ p.mentions) (inference : Bool) :
    let a := analyze p inference
    let b := ((Check.checkProgram { inference } p).run (.knowing x)).2
    b.findings = a.findings.filter (!·.misses x) ∧
    a.findings.filter (·.misses x) = (a.record.lookups x).map Finding.undefined ∧
    (a.record.lookups x).Sublist (p.uses x) ∧
    b.judgements = a.judgements ∧
    (∀ i n, n ≠ x → b.scopes.lookupIn i n = a.scopes.lookupIn i n) ∧
    (Comparison.setApart x).States .initial (.knowing x) ∧
    (∀ ctx s, .name x ∉ s.mentions → Check.Ignores x (Check.checkStmt ctx s)) ∧
    ∀ ctx e, .name x ∉ e.mentions → Check.Ignores x (Check.inferType ctx e) := by
  intro a b
  have hstart := Comparison.states_knowing hnew
  have hstates := (Check.Ignores.checkProgram { inference } hx _ _ hstart).2
  refine ⟨hstates.records.findings, hstates.records.undefined, lookups_analyze hx inference,
    hstates.records.judgements, fun i n hn => ?_, hstart, fun ctx s hs => .checkStmt ctx hs,
    fun ctx e he => .inferType ctx he⟩
  exact Comparison.symbols_setApart (hstates.trees.lookupIn hn i)

/-- A name that nothing declares is assigned to, read, called, indexed and tested, next to another
mistake. -/
def strayUses : Program :=
  let x (column : Nat) : Expr := .ident ⟨"x", { line := 1, column }⟩
  let sum : Expr := .binary .add (.int 1 {}) (.bool true {}) {}
  let call : Expr := .call (.member (x 3) ⟨"f", {}⟩ false {}) [.call (x 4) [x 5] {}] {}
  ⟨[.function ⟨⟨"main", {}⟩, [], none,
    ⟨[.expr (.assign .assign (x 1) (.binary .add (.int 1 {}) (x 2) {}) {}),
      .expr call,
      .var ⟨"y", {}⟩ none (some (.index (x 6) sum {})) {},
      .ifElse (.prefixed .not (x 7) {}) ⟨[.ret none {}], {}⟩ none {}], {}⟩, {}, {}⟩], {}⟩

theorem strayUses_findings :
    let a := analyze strayUses true
    let b := ((Check.checkProgram {} strayUses).run (.knowing "x")).2
    Analysis.initial.scopes.global? "x" = none ∧ .name "x" ∉ strayUses.mentions ∧
    (a.record.lookups "x").map (·.span.column) = [1, 2, 3, 4, 5, 6, 7] ∧ b.findings.length = 1 ∧
    b.findings = a.findings.filter (!·.misses "x") ∧
    a.findings.filter (·.misses "x") = (a.record.lookups "x").map Finding.undefined := by
  have hnew : Analysis.initial.scopes.global? "x" = none :=
    Option.isNone_iff_eq_none.1 (by decide +kernel)
  have hx : .name "x" ∉ strayUses.mentions := by decide +kernel
  have h := findings_of_undefined "x" hnew strayUses hx true
  exact ⟨hnew, hx, by decide +kernel, by decide +kernel, h.1, h.2.1⟩

end ClassLang
