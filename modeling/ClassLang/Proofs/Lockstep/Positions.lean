import ClassLang.Proofs.Lockstep.Program

/-!
# Positions do not change the code

A program is generated for a file, so that positions are recorded, or for none. The two runs go in
lockstep whatever the program demands, so they report the same errors, and the code is the same but
for the record of positions.
-/

namespace ClassLang

/-- The file is all that a catalog takes from the file. -/
theorem Catalog.ofProgram_withFile (scopes : ScopeTree) (file? file'? : Option String)
    (p : Program) (limit : Nat) :
    (ofProgram scopes file? p limit).withFile file'? = ofProgram scopes file'? p limit := by
  have hadd : ∀ (c : Catalog) (s : Stmt), (c.withFile file'?).add s = (c.add s).withFile file'? := by
    intro c s
    unfold add
    split
    · rfl
    · rfl
    · split <;> rfl
    · rfl
  have hfold : ∀ (ss : List Stmt) (c : Catalog),
      (ss.foldl add c).withFile file'? = ss.foldl add (c.withFile file'?) := by
    intro ss
    induction ss with
    | nil => exact fun _ => rfl
    | cons s ss ih => exact fun c => by rw [List.foldl_cons, List.foldl_cons, ih, hadd]
  exact hfold p.stmts _

/-- For two files, or for none, the same code is generated up to the record of positions. -/
theorem bare_generate (p : Program) (scopes : ScopeTree) (file? file'? : Option String)
    (limit : Nat) :
    (generate p scopes file? limit).bare = (generate p scopes file'? limit).bare := by
  have hgoverns := Discipline.governs_ofRequests (P := fun _ => True) (fun _ _ _ => id)
    (.ofProgram scopes file? p limit)
  have h := Gen.Agree.program hgoverns p (fun _ _ => trivial) file'?
  rw [Catalog.ofProgram_withFile] at h
  exact (h (.initial file?) (.initial file'?) rfl trivial).2.1

/-- Recording positions has no part in whether code is generated, and leaves a mark in the code only
as comments, and as the file and the span of each function. -/
theorem positions_generate (p : Program) (scopes : ScopeTree) (file : String) (limit : Nat) :
    let located := generate p scopes (some file) limit
    let plain := generate p scopes none limit
    located.errors = plain.errors ∧
      located.module.structs = plain.module.structs ∧
      located.module.globals = plain.module.globals ∧
      located.module.declarations = plain.module.declarations ∧
      located.module.functions.map Ir.Function.bare = plain.module.functions.map Ir.Function.bare := by
  have h := bare_generate p scopes (some file) none limit
  have hmodule := congrArg GenState.module h
  refine ⟨(congrArg GenState.errors h :), (congrArg Ir.Module.structs hmodule :), ?_, ?_, ?_⟩
  · exact (congrArg Ir.Module.globals hmodule :)
  · exact (congrArg Ir.Module.declarations hmodule :)
  · exact (congrArg Ir.Module.functions hmodule :)

end ClassLang
