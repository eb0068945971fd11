import ClassLang.Proofs.Draft.Ssa
import ClassLang.Proofs.Frames.Program
import ClassLang.Proofs.Lowering.Program

/-!
# Generated functions are well formed

Whatever the program and the symbols that analysis found for it, be they of an accepted program or
not, the functions that are generated have disciplined blocks, are in SSA form, and have their stack
slots at the top of the entry block.
-/

namespace ClassLang

/-- All generated functions are built by changes to an empty entry block, in which slots are inserted while
code is added around them. In the end all slots stand at the top of that block, in the order of their
registers, and control does not come back there to make a slot once more. -/
theorem hoisted_generate (p : Program) (scopes : ScopeTree) (file? : Option String) (limit : Nat) :
    ∀ f ∈ (generate p scopes file? limit).module.functions,
      f.Built ∧ f.Hoisted ∧ ∀ b ∈ f.blocks, f.entry ∉ b.terminator.targets := by
  intro f hf
  obtain ⟨_, hfinishes⟩ := (sound_generate p scopes file? limit).finishes hf
  exact ⟨hfinishes.built, hfinishes.built.hoisted, hfinishes.entry_not_mem_targets⟩

/-- A loop around a try statement that is left by `return`, with a local in the statement and one in its
final block. -/
def leftInLoop : Program :=
  let at_ (line : Nat) : Span := { line, column := 1 }
  let local_ (name : String) (line : Nat) : Stmt :=
    .var ⟨name, {}⟩ none (some (.ident ⟨"n", {}⟩)) (at_ line)
  let body : Block := ⟨[local_ "x" 4, .ret none (at_ 5)], {}⟩
  let final : Block := ⟨[local_ "y" 7], {}⟩
  let loop : Stmt :=
    .whileLoop (.bool true {}) ⟨[.tryCatch body [] (some final) (at_ 3)], {}⟩ (at_ 2)
  let param : Param := ⟨⟨"n", {}⟩, some (.named ⟨"int", {}⟩), {}⟩
  ⟨[.function ⟨⟨"f", {}⟩, [param], none, ⟨[loop], {}⟩, {}, at_ 1⟩], {}⟩

/-- The parameter, the local of the statement and that of either copy of the final block have their slots
in front of the comments and the code of the entry block. -/
theorem hoisted_leftInLoop :
    ∃ f ∈ (generate leftInLoop {} (some "main.gom")).module.functions,
      f.allocas.length = 4 ∧ (∃ b ∈ f.blocks, b.id = f.entry ∧ ∃ i ∈ b.instrs, i.isComment = true) ∧
        f.Built ∧ f.Hoisted ∧ ∀ b ∈ f.blocks, f.entry ∉ b.terminator.targets := by
  have hany : ((generate leftInLoop {} (some "main.gom")).module.functions.any fun f =>
      f.allocas.length == 4 &&
        f.blocks.any fun b => b.id == f.entry && b.instrs.any Ir.Instr.isComment) = true := by
    decide +kernel
  obtain ⟨f, hf, hcode⟩ := List.any_eq_true.1 hany
  obtain ⟨hlength, hentry⟩ := Bool.and_eq_true_iff.1 hcode
  obtain ⟨b, hb, hmarked⟩ := List.any_eq_true.1 hentry
  obtain ⟨hid, hcomment⟩ := Bool.and_eq_true_iff.1 hmarked
  exact ⟨f, hf, eq_of_beq hlength, ⟨b, hb, eq_of_beq hid, List.any_eq_true.1 hcomment⟩,
    hoisted_generate leftInLoop {} (some "main.gom") 1000 f hf⟩

end ClassLang
