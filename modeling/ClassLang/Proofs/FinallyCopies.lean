import ClassLang.Proofs.Lowering.Program

/-!
# Copies of final blocks

The block that runs finally is generated once after its try statement, and once more before each
`return`, `break` and `continue` that leaves the statement. Such a copy sees the scopes and loops of
the point where it stands. These are those around the try statement, and before them the ones that
were entered since, so a copy does what the block after the statement does as long as none of the
latter has anything to do with it.
-/

namespace ClassLang

namespace Site

/-- The storage of a local; a name of no local is that of a global, or of a field. -/
def local? (s : Site) (name : String) : Option Location := s.scopes.findSome? (·.find? name)

/-- Where `break` goes. -/
def breakTo? (s : Site) : Option Nat := s.loops.head?.map Loop.breakTo

/-- Where `continue` goes. -/
def continueTo? (s : Site) : Option Nat := s.loops.findSome? Loop.continueTo?

end Site

/-- What a copy refers to, compared with the try statement that it belongs to: a name is the same as
there if no scope entered since binds it, `break` goes to the same place if no loop or switch was
entered since, and `continue` if no loop was. -/
structure Copy.Resolves (k : Copy) (scopes : List (Table Location)) (loops : List Loop) : Prop where
  scopes_eq : k.site.scopes = scopes ++ k.source.site.scopes
  loops_eq : k.site.loops = loops ++ k.source.site.loops
  local_iff : ∀ name, k.site.local? name = k.source.site.local? name ↔
    ∀ s ∈ scopes, s.find? name = none
  break_iff : k.site.breakTo? = k.source.site.breakTo? ↔ loops = []
  continue_iff : k.site.continueTo? = k.source.site.continueTo? ↔
    ∀ l ∈ loops, l.continueTo? = none

/-- Where nothing that is found in the first list is found in the second, the second alone decides if
and only if nothing is found in the first. -/
theorem findSome?_append_eq_iff {α β : Type} {f : α → Option β} {as bs : List α}
    (h : ∀ a ∈ as, ∀ b ∈ bs, ∀ x, f a = some x → f b ≠ some x) :
    (as ++ bs).findSome? f = bs.findSome? f ↔ ∀ a ∈ as, f a = none := by
  rw [List.findSome?_append]
  constructor
  · intro heq
    rcases hfirst : as.findSome? f with _ | x
    · exact List.findSome?_eq_none_iff.1 hfirst
    · rw [hfirst, Option.some_or] at heq
      obtain ⟨a, ha, hfa⟩ := List.exists_of_findSome?_eq_some hfirst
      obtain ⟨b, hb, hfb⟩ := List.exists_of_findSome?_eq_some heq.symm
      exact absurd hfb (h a ha b hb x hfa)
  · intro hnone
    rw [List.findSome?_eq_none_iff.2 hnone, Option.none_or]

theorem Copy.Nested.resolves {k : Copy} (h : k.Nested) : ∃ scopes loops, k.Resolves scopes loops := by
  obtain ⟨scopes, hscopes⟩ := h.scopes
  obtain ⟨loops, hloops⟩ := h.loops
  have hapart := h.scopesApart
  have hapart' := h.loopsApart
  rw [← hscopes, List.pairwise_append] at hapart
  rw [← hloops, List.pairwise_append] at hapart'
  refine ⟨scopes, loops, hscopes.symm, hloops.symm, fun name => ?_, ?_, ?_⟩
  · rw [Site.local?, Site.local?, ← hscopes]
    refine findSome?_append_eq_iff fun s hs t ht l hl hl' => ?_
    exact hapart.2.2 s hs t ht name name l l hl hl' rfl
  · rw [Site.breakTo?, Site.breakTo?, ← hloops]
    refine ⟨fun heq => ?_, fun hnil => by rw [hnil, List.nil_append]⟩
    cases hinner : loops with
    | nil => rfl
    | cons l _ =>
      rw [hinner, List.cons_append, List.head?_cons] at heq
      obtain ⟨m, hm, hto⟩ := Option.map_eq_some_iff.1 heq.symm
      have hne := hapart'.2.2 l (hinner ▸ List.mem_cons_self) m (List.mem_of_mem_head? hm)
      exact absurd hto.symm hne.breakTo
  · rw [Site.continueTo?, Site.continueTo?, ← hloops]
    exact findSome?_append_eq_iff fun l hl m hm b => (hapart'.2.2 l hl m hm).continueTo b

/-- In the code of any program, the final block after a try statement refers to what is around the
statement, and each copy of it refers to the same but for what was entered since. -/
theorem resolves_copies (p : Program) (scopes : ScopeTree) (file? : Option String) (limit : Nat) :
    ∀ k ∈ (generate p scopes file? limit).copies, (k.inlined = false → k.site = k.source.site) ∧
      ∃ scopes loops, k.Resolves scopes loops := by
  intro k hk
  have hnested := (sound_generate p scopes file? limit).copies k hk
  exact ⟨hnested.fallThrough, hnested.resolves⟩

/-- A function with a local `x`, and another `x` in a try statement that is left by `return` and adds
one to `x` finally. -/
def shadowedLocal : Program :=
  let x : Ident := ⟨"x", {}⟩
  let body : Block := ⟨[.var x none (some (.int 2 {})) {}, .ret none {}], {}⟩
  let final : Block := ⟨[.expr (.postfixed .increment (.ident x) {})], {}⟩
  let stmts : List Stmt := [.var x none (some (.int 1 {})) {}, .tryCatch body [] (some final) {}]
  ⟨[.function ⟨⟨"f", {}⟩, [], none, ⟨stmts, {}⟩, {}, {}⟩], {}⟩

/-- The copy before `return` adds one to the inner `x`. -/
theorem resolves_shadowedLocal : ∃ k ∈ (generate shadowedLocal {} none).copies, k.inlined = true ∧
    (k.site.local? "x").map Location.ptr ≠ (k.source.site.local? "x").map Location.ptr ∧
      ∃ scopes loops, k.Resolves scopes loops := by
  have hany : ((generate shadowedLocal {} none).copies.any fun k => k.inlined &&
      (k.site.local? "x").map Location.ptr != (k.source.site.local? "x").map Location.ptr) = true := by
    decide +kernel
  obtain ⟨k, hk, hcopy⟩ := List.any_eq_true.1 hany
  obtain ⟨hinlined, hne⟩ := Bool.and_eq_true_iff.1 hcopy
  exact ⟨k, hk, hinlined, bne_iff_ne.1 hne, (resolves_copies shadowedLocal {} none 1000 k hk).2⟩

end ClassLang
