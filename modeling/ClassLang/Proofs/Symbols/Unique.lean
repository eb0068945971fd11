import ClassLang.Proofs.Symbols.Program
import Mathlib

/-!
# No symbol is defined twice

The names of lambdas and of strings differ by their numbers. All other names of a module are among
those that the program asks for, each no more often than it is asked for. So where these are
distinct, all symbols of the module are.
-/

namespace ClassLang

/-! ## Numbered names -/

theorem Lower.lambdaName_inj {a b : Nat} (h : lambdaName a = lambdaName b) : a = b :=
  Nat.repr_inj.1 ((String.append_right_inj "__lambda_").1 h)

theorem Ir.Module.stringName_inj {a b : Nat} (h : stringName a = stringName b) : a = b :=
  Nat.repr_inj.1 ((String.append_right_inj ".str.").1 h)

theorem Lower.isPrefix_lambdaName (k : Nat) : "__lambda_".toList <+: (lambdaName k).toList :=
  ⟨(toString k).toList, String.toList_append.symm⟩

theorem Ir.Module.isPrefix_stringName (k : Nat) : ".str.".toList <+: (stringName k).toList :=
  ⟨(toString k).toList, String.toList_append.symm⟩

theorem Lower.lambdaName_ne_stringName (a b : Nat) : lambdaName a ≠ Ir.Module.stringName b := by
  intro h
  have hchars : ("__lambda_" ++ toString a).toList = (".str." ++ toString b).toList :=
    congrArg String.toList h
  rw [String.toList_append, String.toList_append] at hchars
  simp at hchars

theorem GenState.nodup_numbered (g : GenState) : g.numbered.Nodup := by
  refine List.nodup_append.2 ⟨?_, ?_, ?_⟩
  · exact List.nodup_range.map fun _ _ h => Lower.lambdaName_inj h
  · exact List.nodup_range.map fun _ _ h => Ir.Module.stringName_inj h
  · intro n hn n' hn' h
    obtain ⟨a, _, rfl⟩ := List.mem_map.1 hn
    obtain ⟨b, _, rfl⟩ := List.mem_map.1 hn'
    exact Lower.lambdaName_ne_stringName a b h

/-! ## Whole programs -/

namespace Catalog

variable {c : Catalog} {p : Program} {requests : List Request}

theorem count_symbolsOf (c : Catalog) (stmts : List Stmt) (n : String) :
    (stmts.flatMap c.symbolsOf).count n = (stmts.flatMap Stmt.storage).count n +
      (stmts.flatMap Stmt.started).count n + (stmts.flatMap c.generated).count n +
      (stmts.flatMap Stmt.table).count n := by
  induction stmts with
  | nil => rfl
  | cons s stmts ih =>
    simp only [List.flatMap_cons, List.count_append, ih]
    simp only [symbolsOf, List.count_append]
    omega

/-- Names of a kind are distinct if all names are. -/
theorem nodup_of_symbols (h : (c.symbols p requests).Nodup) (names : Stmt → List String)
    (hnames : ∀ s, (names s).Sublist (c.symbolsOf s)) : (p.stmts.flatMap names).Nodup := by
  have hstmts := (List.nodup_append.1 (List.nodup_append.1 h).1).2.1
  exact (List.Sublist.flatMap_right p.stmts fun s _ => hnames s).nodup hstmts

theorem distinct_of_symbols {g : GenState} (h : (c.symbols p g.requests).Nodup) :
    g.Distinct c (p.stmts.flatMap Stmt.table) := by
  refine List.Sublist.nodup (List.Sublist.append ?_ (List.Sublist.refl _)) h
  refine List.Sublist.trans ?_ (List.sublist_append_right _ _)
  exact List.Sublist.flatMap_right p.stmts fun s _ => List.sublist_append_right _ _

end Catalog

namespace Gen

/-- A function that is declared at the top level is there when all statements are generated. -/
theorem hasFunction_generateStmts {env : Env} {detour : Lower.Detour}
    (hdetour : Lower.Evolves.Detours detour) {f : Function} {stmts : List Stmt}
    (hf : .function f ∈ stmts) (g : GenState) :
    ∃ F ∈ ((stmts.forM (generateStmt detour env)).run g).2.module.functions,
      F.name = f.name.name := by
  induction stmts generalizing g with
  | nil => cases hf
  | cons s stmts ih =>
    rcases List.mem_cons.1 hf with rfl | hf
    · obtain ⟨fs, F, hfs, _, hF⟩ := @functions_generateStmt env detour hdetour f g
      have hrest : Evolves (stmts.forM (generateStmt detour env)) :=
        .forM _ fun s => Evolves.generateStmt hdetour s
      have hmem : F ∈ ((generateStmt detour env (.function f)).run g).2.module.functions := by
        rw [hfs]
        exact List.mem_append_right _ (List.mem_singleton_self F)
      exact ⟨F, (hrest _).functions.subset hmem, hF⟩
    · exact ih hf _

/-- The entry is added, unless the program declares it. -/
theorem Completes.entry {c : Catalog} (hc : c.Settled) {tables : List String} (env : Env)
    {p : Program} {g : GenState} {rest : Gen Unit}
    (hmain : ∀ f, .function f ∈ p.stmts → f.name.name = "main" →
      ∃ F ∈ g.module.functions, F.name = "main")
    (hrest : rest.Follows (GenState.Completes c tables [])) :
    g.Completes c tables (if p.stmts.any Stmt.isEntry then [] else ["main"])
      ((do
        if ← succeeded then Gen.ensureEntry env
        rest : Gen Unit).run g).2 := by
  cases hentry : p.stmts.any Stmt.isEntry with
  | false =>
    refine Follows.andThen (R := GenState.Completes c tables) (.reading fun _ => rfl) (fun _ => ?_) g
    exact .ite (.after (ensureEntry hc) fun _ => hrest) (.any hrest)
  | true =>
    obtain ⟨s, hs, hname⟩ := List.any_eq_true.1 hentry
    have hhas : g.module.hasFunction "main" = true := by
      cases s with
      | function f =>
        obtain ⟨F, hF, hFname⟩ := hmain f hs (eq_of_beq hname)
        exact List.any_eq_true.2 ⟨F, hF, beq_iff_eq.2 hFname⟩
      | _ => cases hname
    have hsame : (Gen.ensureEntry env).run g = ((), g) := by
      show StateT.run (if (!g.module.hasFunction "main") = true then _ else _) g = _
      rw [hhas]
      rfl
    let last : Gen Unit := if g.errors.isEmpty = true then (do Gen.ensureEntry env; rest) else rest
    show g.Completes c tables [] (last.run g).2
    simp only [last]
    split
    · rw [StateT.run_bind, hsame]
      exact hrest g
    · exact hrest g

end Gen

/-- All names that a program asks for. -/
def Program.symbols (p : Program) (scopes : ScopeTree) (file? : Option String)
    (limit : Nat := 1000) : List String :=
  (Catalog.ofProgram scopes file? p limit).symbols p (generate p scopes file? limit).requests

namespace GenState

open Gen

variable {p : Program} {scopes : ScopeTree} {file? : Option String} {limit : Nat}

/-- The names that a program defines, part by part. -/
theorem defined_generate (hc : (Catalog.ofProgram scopes file? p limit).Settled)
    (hnames : (p.symbols scopes file? limit).Nodup) : Defined (.ofProgram scopes file? p limit) (fun _ => True)
      (p.stmts.flatMap Stmt.storage ++ ((Lower.initName :: p.stmts.flatMap Stmt.started) ++
        p.stmts.flatMap (Catalog.ofProgram scopes file? p limit).generated ++
        if p.stmts.any Stmt.isEntry then [] else ["main"]))
      (.initial file?) (generate p scopes file? limit) := by
  let c := Catalog.ofProgram scopes file? p limit
  let tables := p.stmts.flatMap Stmt.table
  let env : Env := { catalog := c }
  let detour := Lower.detourAt c.limit
  have htables : ∀ name, c.classes.contains name = true → Layout.vtableName name ∈ tables :=
    fun name => Catalog.table_of_contains
  have hgenerated : ∀ s ∈ p.stmts, (c.generated s).Nodup := by
    have hall := Catalog.nodup_of_symbols hnames c.generated fun s =>
      (List.sublist_append_right _ _).trans (List.sublist_append_left _ _)
    exact (List.nodup_flatMap.1 hall).1
  have hstarted := Catalog.nodup_of_symbols hnames Stmt.started fun s =>
    (List.sublist_append_right _ _).trans <|
      (List.sublist_append_left _ _).trans (List.sublist_append_left _ _)
  have hclasses : ∀ s ∈ p.stmts, ∀ d, s = .class_ d → c.classes.find? d.name.name = some d := by
    rintro _ hs d rfl
    exact Catalog.find?_class p.stmts hs
      (Catalog.nodup_of_symbols hnames Stmt.table fun s => List.sublist_append_right _ _)
  have hinitial : (GenState.initial file?).Tidy c :=
    ⟨fun _ _ h => (nomatch h), fun _ h => (nomatch h), List.Sublist.refl _⟩
  have hprepare := Gen.Defines.prepare hc p (.initial file?) hinitial
  let g₁ := ((prepare c p).run (.initial file?)).2
  have hcode : Follows (Completes c tables ((Lower.initName :: p.stmts.flatMap Stmt.started) ++
      p.stmts.flatMap c.generated)) (do
        generateStart detour env p
        p.stmts.forM (generateStmt detour env)
        generateInstances detour env (c.limit * c.limit)) := by
    refine .append (Gen.Completes.generateStart hc c.limit rfl p hstarted) fun _ => ?_
    refine .after (.flatMap p.stmts fun s hs => ?_) fun _ => ?_
    · exact Gen.Completes.generateStmt hc htables c.limit rfl s (hclasses s hs) (hgenerated s hs)
    · exact Gen.Completes.generateInstances hc htables c.limit rfl _
  let g₂ := ((do
    generateStart detour env p
    p.stmts.forM (generateStmt detour env)
    generateInstances detour env (c.limit * c.limit) : Gen Unit).run g₁).2
  have hmain : ∀ f, .function f ∈ p.stmts → f.name.name = "main" →
      ∃ F ∈ g₂.module.functions, F.name = "main" := by
    intro f hf hname
    have hdetour := Lower.Evolves.detourAt c.limit
    have hinstances : Gen.Evolves (generateInstances detour env (c.limit * c.limit)) :=
      Gen.Evolves.generateInstances hdetour _
    obtain ⟨F, hF, hFname⟩ := @hasFunction_generateStmts env detour hdetour f p.stmts hf
      ((generateStart detour env p).run g₁).2
    exact ⟨F, (hinstances _).functions.subset hF, hFname.trans hname⟩
  have hflaws : Follows (Completes c tables []) (do
      if ← succeeded then (← get).module.flaws.forM fun f => internal (Ir.flawText f)) := by
    refine .bind (.reading fun _ => rfl) fun _ => .ite ?_ (.pure _)
    exact .bind (.reading fun _ => rfl) fun _ => .forM _ fun _ => .internal _
  have hlast := Gen.Completes.entry hc env hmain hflaws
  have hall := (GenState.Graded.append (hcode g₁) hlast).2 (Catalog.distinct_of_symbols hnames)
  exact hprepare.append (hall hprepare.tidy)

/-- No symbol is defined more often than it is asked for. -/
theorem count_generate (hc : (Catalog.ofProgram scopes file? p limit).Settled)
    (hnames : (p.symbols scopes file? limit).Nodup) (n : String) :
    (generate p scopes file? limit).module.symbols.count n ≤
      (generate p scopes file? limit).numbered.count n + (p.symbols scopes file? limit).count n := by
  let c := Catalog.ofProgram scopes file? p limit
  obtain ⟨cs, hcs, hclasses, hcount⟩ := (defined_generate hc hnames).counts
  have htables : ((cs.map Layout.vtableName).count n) ≤
      (p.stmts.flatMap Stmt.table).count n := by
    refine List.Subperm.count_le (List.subperm_of_subset ?_ ?_) n
    · exact hcs.map fun _ _ h => Catalog.vtableName_inj.1 h
    · intro table htable
      obtain ⟨name, hname, rfl⟩ := List.mem_map.1 htable
      exact Catalog.table_of_contains (hclasses name hname).2.1
  have htaken : (GenState.initial file?).taken c = [] := rfl
  have hgiven : (GenState.initial file?).given c = [] := rfl
  have hcount := hcount n
  rw [htaken, hgiven, taken, given] at hcount
  rw [Program.symbols, Catalog.symbols, Catalog.ownSymbols]
  simp only [List.count_append, List.count_cons, List.count_nil, Catalog.count_symbolsOf] at hcount ⊢
  omega

/-- **No symbol is defined twice**, if each class is laid out once and no name is asked for twice or
looks like that of a lambda or a string. -/
theorem symbols_generate (hc : (Catalog.ofProgram scopes file? p limit).Settled)
    (hnames : (p.symbols scopes file? limit).Nodup)
    (hnumbers : ∀ n ∈ p.symbols scopes file? limit, ∀ k,
      n ≠ Lower.lambdaName k ∧ n ≠ Ir.Module.stringName k) :
    let m := (generate p scopes file? limit).module
    (m.functions.map Ir.Function.name).Nodup ∧ (m.structs.map Ir.Struct.name).Nodup ∧
      (m.globals.map Ir.Global.name).Nodup ∧
      ∀ f ∈ m.functions, ∀ x ∈ m.globals, f.name ≠ x.name := by
  intro m
  have hsymbols : m.symbols.Nodup := by
    have hall := List.nodup_append.2 ⟨(generate p scopes file? limit).nodup_numbered, hnames, ?_⟩
    · refine List.nodup_iff_count_le_one.2 fun n => (count_generate hc hnames n).trans ?_
      rw [← List.count_append]
      exact List.nodup_iff_count_le_one.1 hall n
    · rintro n hn _ hmem rfl
      rcases List.mem_append.1 hn with hn | hn
      all_goals obtain ⟨k, _, rfl⟩ := List.mem_map.1 hn
      · exact (hnumbers _ hmem k).1 rfl
      · exact (hnumbers _ hmem k).2 rfl
  obtain ⟨hfunctions, hglobals, hdisjoint⟩ := List.nodup_append.1 hsymbols
  have htables := (defined_generate hc hnames).tidy.tables.nodup hglobals
  refine ⟨hfunctions, ?_, hglobals, fun f hf x hx => ?_⟩
  · exact List.Nodup.of_map Layout.vtableName (by rwa [List.map_map])
  · exact hdisjoint _ (List.mem_map_of_mem hf) _ (List.mem_map_of_mem hx)

end GenState

/-- A class, a template that extends it, a global that is computed at the start, and an entry with a
function, an instance and a lambda inside. -/
def boxes : Program :=
  let int : TypeExpr := .named ⟨"int", {}⟩
  let shape : Class := ⟨⟨"Shape", {}⟩, none, [],
    [.field ⟨⟨"name", {}⟩, some (.named ⟨"string", {}⟩), some (.string "shape" {}), false, {}, {}⟩,
      .method ⟨⟨"area", {}⟩, [], some int, ⟨[.ret (some (.int 0 {})) {}], {}⟩, {}, {}⟩], {}⟩
  let box : Class := ⟨⟨"Box", {}⟩, some ⟨"Shape", {}⟩, [],
    [.field ⟨⟨"value", {}⟩, some (.named ⟨"T", {}⟩), none, false, {}, {}⟩,
      .method ⟨⟨"get", {}⟩, [], some (.named ⟨"T", {}⟩),
        ⟨[.ret (some (.ident ⟨"value", {}⟩)) {}], {}⟩, {}, {}⟩], {}⟩
  let one : Function := ⟨⟨"one", {}⟩, [], some int, ⟨[.ret (some (.int 1 {})) {}], {}⟩, {}, {}⟩
  let main : Function := ⟨⟨"main", {}⟩, [], none,
    ⟨[.function one,
      .var ⟨"b", {}⟩ none (some (.new (.generic ⟨"Box", {}⟩ [int] {}) [] {})) {},
      .var ⟨"f", {}⟩ none (some (.lambda [] (some int) ⟨[.ret (some (.int 2 {})) {}], {}⟩ {})) {}],
      {}⟩, {}, {}⟩
  ⟨[.class_ shape, .template [⟨"T", {}⟩] (.class_ box) {},
    .var ⟨"total", {}⟩ (some int) (some (.binary .add (.int 1 {}) (.int 2 {}) {})) {},
    .function main], {}⟩

/-- Nothing in the program is laid out or generated twice. -/
theorem settled_boxes : (Catalog.ofProgram {} none boxes).Settled := by
  refine ⟨by decide, fun t ht d hd => ?_, fun t ht d hd p hp => ?_⟩
  all_goals
    obtain rfl := List.mem_singleton.1 ht
    cases hd
  · decide
  · cases hp
    exact .class_ rfl (by decide) fun p hp => nomatch hp

/-- The functions and globals of the program have ten different names. -/
theorem symbols_boxes :
    (generate boxes {} none).module.symbols =
      ["__gominus_init", "Shape_area", "one", "__lambda_0", "main", "Box_int_get", "total",
        "Shape_vtable", "Box_int_vtable", ".str.0"] ∧
    (let m := (generate boxes {} none).module
    (m.functions.map Ir.Function.name).Nodup ∧ (m.structs.map Ir.Struct.name).Nodup ∧
      (m.globals.map Ir.Global.name).Nodup ∧
      ∀ f ∈ m.functions, ∀ x ∈ m.globals, f.name ≠ x.name) := by
  have hnames : boxes.symbols {} none = ["__gominus_init", "Shape_area", "Shape_vtable", "total",
      "main", "one", "Box_int_vtable", "Box_int_get"] := by decide +kernel
  refine ⟨by decide +kernel, GenState.symbols_generate settled_boxes ?_ ?_⟩
  · rw [hnames]
    decide
  · have happart : ∀ n ∈ boxes.symbols {} none,
        ¬"__lambda_".toList <+: n.toList ∧ ¬".str.".toList <+: n.toList := by
      rw [hnames]
      decide
    refine fun n hn k => ⟨fun h => (happart n hn).1 ?_, fun h => (happart n hn).2 ?_⟩
    · rw [h]
      exact Lower.isPrefix_lambdaName k
    · rw [h]
      exact Ir.Module.isPrefix_stringName k

end ClassLang
