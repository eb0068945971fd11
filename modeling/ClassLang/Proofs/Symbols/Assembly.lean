import ClassLang.Proofs.Literals.Quotation
import ClassLang.Proofs.Symbols.Unique

/-!
# Modules put together in any order

Strings, tables, variables, struct types, functions and declarations come to a module in any order.
Whatever stands between them, the strings are numbered as they come in, and no content comes in twice:
so name and content determine each other, and stay together for good. A name is declared by the first
declaration of it, which is printed as long as no function has the name.
-/

namespace ClassLang.Ir

/-! ## Lines of a printed module -/

/-- The line with the name, the parameters and the result of a function. -/
def Function.head (f : Function) : String :=
  let params := listed (f.params.map fun p => p.ty.text ++ " " ++ p.text)
  let personality := match f.personality? with
    | some name => s!" personality ptr @{name}"
    | none => ""
  s!"define {f.ret.text} @{f.name}({params}){personality} \x7b"

/-- A line begins with a word, and a blank stands behind it. -/
def Opens (word line : String) : Prop := (word ++ " ").toList <+: line.toList

theorem Opens.head? {word line : String} (h : Opens word line) :
    line.toList.head? = (word ++ " ").toList.head? := by
  obtain ⟨rest, hrest⟩ := h
  rw [← hrest, List.head?_append]
  cases hw : (word ++ " ").toList with
  | nil => simp [String.toList_append] at hw
  | cons c cs => rfl

theorem opens_text (d : Declaration) : Opens "declare" d.text := by
  unfold Opens Declaration.text
  simp [String.toList_append, toString]

theorem opens_head (f : Function) : Opens "define" f.head := by
  unfold Opens Function.head
  simp [String.toList_append, toString]

/-- A line of another kind than a declaration and the head of a function. -/
def Plain (line : String) : Prop := line.toList.head? ≠ some 'd'

theorem Plain.not_declare {line : String} (h : Plain line) : ¬Opens "declare" line :=
  fun hopens => h hopens.head?

theorem Plain.not_define {line : String} (h : Plain line) : ¬Opens "define" line :=
  fun hopens => h hopens.head?

theorem plain_struct (s : Struct) : Plain s.text := by
  simp [Plain, Struct.text, String.toList_append, toString]

theorem plain_global (g : Global) : Plain g.text := by
  unfold Plain Global.text
  split <;> simp [String.toList_append, toString]

theorem plain_block {b : Block} {l : String} (h : l ∈ b.lines) : Plain l := by
  rcases List.mem_cons.1 h with rfl | h
  · cases b.label? <;> simp [Plain, blockName, String.toList_append, toString]
  · obtain ⟨t, -, rfl⟩ := List.mem_map.1 h
    simp [Plain, String.toList_append]

theorem Function.lines_eq (f : Function) : f.lines = (match f.file? with
      | some file => [s!"; {f.name} defined at {file}:{f.span.line}:{f.span.column}"]
      | none => []) ++ [f.head] ++ f.blocks.flatMap Block.lines ++ ["\x7d"] := rfl

/-- The only line of a function that is not plain is the one with its name. -/
theorem Function.head_or_plain {f : Function} {l : String} (h : l ∈ f.lines) :
    l = f.head ∨ Plain l := by
  rw [lines_eq] at h
  simp only [List.mem_append, List.mem_singleton, List.mem_flatMap] at h
  rcases h with ((h | h) | ⟨b, -, h⟩) | rfl
  · right
    cases hfile : f.file? with
    | none =>
      rw [hfile] at h
      cases h
    | some file =>
      rw [hfile] at h
      obtain rfl := List.mem_singleton.1 h
      simp [Plain, String.toList_append, toString]
  · exact .inl h
  · exact .inr (plain_block h)
  · exact .inr (by simp [Plain])

namespace Module

variable {m : Module}

theorem mem_part {l : String} {ls : List String} :
    l ∈ (if ls.isEmpty then [] else "" :: ls) → l = "" ∨ l ∈ ls := by
  cases ls <;> simp

theorem mem_part_of_mem {l : String} {ls : List String} (h : l ∈ ls) :
    l ∈ (if ls.isEmpty then [] else "" :: ls) := by
  cases ls <;> simp_all

/-- Apart from the declarations of outside functions and the heads of its own, all lines are plain. -/
theorem cases_of_mem_lines {l : String} (h : l ∈ m.lines) :
    Plain l ∨ (∃ d ∈ m.outside, l = d.text) ∨ ∃ f ∈ m.functions, l = f.head := by
  simp only [lines, List.mem_append, List.mem_flatMap, List.mem_cons] at h
  have hempty : Plain "" := by simp [Plain]
  rcases h with (((((rfl | h) | h) | h) | h) | h) | ⟨f, hf, rfl | h⟩
  · left
    simp [Plain, String.toList_append, toString]
  · cases h
  · left
    cases hfile : m.file? with
    | none =>
      rw [hfile] at h
      cases h
    | some file =>
      rw [hfile] at h
      obtain rfl := List.mem_singleton.1 h
      simp [Plain, String.toList_append, toString]
  · rcases mem_part h with rfl | h
    · exact .inl hempty
    · obtain ⟨s, -, rfl⟩ := List.mem_map.1 h
      exact .inl (plain_struct s)
  · rcases mem_part h with rfl | h
    · exact .inl hempty
    · obtain ⟨g, -, rfl⟩ := List.mem_map.1 h
      exact .inl (plain_global g)
  · rcases mem_part h with rfl | h
    · exact .inl hempty
    · obtain ⟨d, hd, rfl⟩ := List.mem_map.1 h
      exact .inr (.inl ⟨d, hd, rfl⟩)
  · exact .inl hempty
  · exact (Function.head_or_plain h).symm.imp_right fun h => .inr ⟨f, hf, h⟩

theorem text_mem_lines_of_outside {d : Declaration} (h : d ∈ m.outside) : d.text ∈ m.lines := by
  simp only [lines, List.mem_append]
  exact .inl (.inr (mem_part_of_mem (List.mem_map_of_mem h)))

theorem head_mem_lines {f : Function} (h : f ∈ m.functions) : f.head ∈ m.lines := by
  simp only [lines, List.mem_append, List.mem_flatMap, List.mem_cons]
  exact .inr ⟨f, h, .inr (by simp [Function.lines_eq])⟩

theorem mem_outside {d : Declaration} :
    d ∈ m.outside ↔ d ∈ m.declarations ∧ ∀ f ∈ m.functions, f.name ≠ d.name := by
  simp [outside, hasFunction]

/-- The printed module tells what is outside from what it defines: a line that declares a function is
there for a declaration of a name that no function has, and a line that defines one for a function. -/
structure Separated (m : Module) : Prop where
  declares : ∀ l ∈ m.lines, Opens "declare" l →
    ∃ d ∈ m.declarations, l = d.text ∧ ∀ f ∈ m.functions, f.name ≠ d.name
  defines : ∀ l ∈ m.lines, Opens "define" l → ∃ f ∈ m.functions, l = f.head
  declared : ∀ d ∈ m.declarations, (∀ f ∈ m.functions, f.name ≠ d.name) →
    d.text ∈ m.lines ∧ Opens "declare" d.text
  defined : ∀ f ∈ m.functions, f.head ∈ m.lines ∧ Opens "define" f.head

theorem separated (m : Module) : m.Separated where
  declares l hl hopens := by
    rcases cases_of_mem_lines hl with h | ⟨d, hd, rfl⟩ | ⟨f, -, rfl⟩
    · exact absurd hopens h.not_declare
    · exact ⟨d, (mem_outside.1 hd).1, rfl, (mem_outside.1 hd).2⟩
    · unfold Opens Function.head at hopens
      simp [String.toList_append, toString] at hopens
  defines l hl hopens := by
    rcases cases_of_mem_lines hl with h | ⟨d, -, rfl⟩ | h
    · exact absurd hopens h.not_define
    · unfold Opens Declaration.text at hopens
      simp [String.toList_append, toString] at hopens
    · exact h
  declared d hd h := ⟨text_mem_lines_of_outside (mem_outside.2 ⟨hd, h⟩), opens_text d⟩
  defined f hf := ⟨head_mem_lines hf, opens_head f⟩

/-! ## What is done to a module -/

/-- Something that is done to a module. -/
inductive Step where
  | string (bytes : List UInt8)
  | vtable (name : String) (entries : List String)
  | variable_ (name : String) (ty : Ty) (init : Value)
  | struct (name : String) (fields : List Ty)
  | declare (d : Declaration)
  | function (f : Function)

/-- The module afterwards. -/
def perform (m : Module) : Step → Module
  | .string bytes => (m.addString bytes).2
  | .vtable name entries => m.addGlobal (.vtable name entries)
  | .variable_ name ty init => m.addGlobal (.variable_ name ty init)
  | .struct name fields => m.addStruct name fields
  | .declare d => m.declare d
  | .function f => m.addFunction f

/-- The strings that are added on the way, each with the name that is given for it. -/
def answers : Module → List Step → List (String × List UInt8)
  | _, [] => []
  | m, .string bytes :: steps =>
    ((m.addString bytes).1, bytes) :: answers (m.addString bytes).2 steps
  | m, step :: steps => answers (m.perform step) steps

/-- What a step declares. -/
def Step.declaration? : Step → Option Declaration
  | .declare d => some d
  | _ => none

/-! ## Strings -/

/-- The strings of a module, by name and content. -/
def strings (m : Module) : List (String × List UInt8) :=
  m.globals.filterMap fun g => g.bytes?.map (g.name, ·)

theorem mem_strings {name : String} {bytes : List UInt8} :
    (name, bytes) ∈ m.strings ↔ .string name bytes ∈ m.globals := by
  rw [strings, List.mem_filterMap]
  constructor
  · rintro ⟨g, hg, h⟩
    cases g with
    | string => cases h; exact hg
    | vtable | variable_ => cases h
  · exact fun h => ⟨_, h, rfl⟩

theorem stringCount_eq (m : Module) : m.stringCount = m.strings.length := by
  rw [stringCount, strings, List.length_filterMap_eq_countP]
  congr 1
  funext g
  cases g <;> rfl

theorem strings_addGlobal (m : Module) (g : Global) :
    (m.addGlobal g).strings = m.strings ++ (g.bytes?.map (g.name, ·)).toList := by
  rw [strings, addGlobal, List.filterMap_append]
  cases g <;> rfl

/-- A string that is added stands behind the others, unless there is an equal one. -/
theorem strings_addString (m : Module) (bytes : List UInt8) :
    (m.addString bytes).2.strings = m.strings ∨ bytes ∉ m.strings.map Prod.snd ∧
      (m.addString bytes).2.strings = m.strings ++ [(stringName m.strings.length, bytes)] := by
  unfold addString
  split
  · exact .inl rfl
  next hnone =>
  refine .inr ⟨fun hmem => ?_, ?_⟩
  · obtain ⟨⟨name, bytes'⟩, hs, rfl⟩ := List.mem_map.1 hmem
    exact List.find?_eq_none.1 hnone _ (mem_strings.1 hs) (beq_self_eq_true _)
  · rw [← stringCount_eq]
    exact strings_addGlobal m (.string (stringName m.stringCount) bytes)

/-- The strings are numbered in their order, and no content occurs twice. -/
structure Interned (m : Module) : Prop where
  names : m.strings.map Prod.fst = (List.range m.strings.length).map stringName
  contents : (m.strings.map Prod.snd).Nodup

namespace Interned

theorem of_eq {m' : Module} (h : m.Interned) (heq : m'.strings = m.strings) : m'.Interned :=
  ⟨heq ▸ h.names, heq ▸ h.contents⟩

/-- A content that is not there yet gets the next number. -/
theorem addString (h : m.Interned) (bytes : List UInt8) : (m.addString bytes).2.Interned := by
  rcases m.strings_addString bytes with heq | ⟨hnew, heq⟩
  · exact h.of_eq heq
  constructor
  · rw [heq, List.map_append, h.names, List.length_append, List.length_singleton,
      List.range_succ, List.map_append]
    rfl
  · rw [heq, List.map_append]
    exact List.nodup_append_comm.1 (List.nodup_cons.2 ⟨hnew, h.contents⟩)

theorem perform (h : m.Interned) (step : Step) : (m.perform step).Interned := by
  cases step with
  | string bytes => exact h.addString bytes
  | vtable | variable_ => exact h.of_eq ((strings_addGlobal m _).trans (List.append_nil _))
  | struct | function => exact h.of_eq rfl
  | declare d =>
    refine h.of_eq ?_
    rw [Module.perform, Module.declare]
    split <;> rfl

theorem foldl_perform (h : m.Interned) (steps : List Step) :
    (steps.foldl Module.perform m).Interned := by
  induction steps generalizing m with
  | nil => exact h
  | cons step steps ih => exact ih (h.perform step)

theorem nodup_names (h : m.Interned) : (m.strings.map Prod.fst).Nodup := by
  rw [h.names]
  exact List.nodup_range.map fun _ _ h => stringName_inj h

/-- Name and content of a string determine each other. -/
theorem name_iff (h : m.Interned) {s t : String × List UInt8} (hs : s ∈ m.strings)
    (ht : t ∈ m.strings) : s.1 = t.1 ↔ s.2 = t.2 := by
  constructor
  · intro heq
    rw [List.inj_on_of_nodup_map h.nodup_names hs ht heq]
  · intro heq
    rw [List.inj_on_of_nodup_map h.contents hs ht heq]

end Interned

/-- No global is taken away. -/
theorem globals_subset_perform (m : Module) (step : Step) :
    m.globals ⊆ (m.perform step).globals := by
  cases step with
  | string bytes =>
    rw [perform]
    rcases m.addString_cases bytes with heq | heq
    · rw [heq]
      exact List.Subset.refl _
    · rw [heq]
      exact List.subset_append_left ..
  | vtable | variable_ => exact List.subset_append_left ..
  | struct | function => exact List.Subset.refl _
  | declare d =>
    rw [perform, declare]
    split <;> exact List.Subset.refl _

theorem globals_subset_foldl (m : Module) (steps : List Step) :
    m.globals ⊆ (steps.foldl perform m).globals := by
  induction steps generalizing m with
  | nil => exact List.Subset.refl _
  | cons step steps ih => exact List.Subset.trans (m.globals_subset_perform step) (ih _)

/-- A name that was given for a string is the name of that string in the end. -/
theorem mem_globals_of_mem_answers {name : String} {bytes : List UInt8} (steps : List Step)
    (h : (name, bytes) ∈ m.answers steps) :
    .string name bytes ∈ (steps.foldl perform m).globals := by
  induction steps generalizing m with
  | nil => cases h
  | cons step steps ih =>
    cases step with
    | string bytes' =>
      rcases List.mem_cons.1 h with heq | h
      · cases heq
        exact globals_subset_foldl _ steps (m.mem_addString bytes)
      · exact ih h
    | vtable | variable_ | struct | declare | function => exact ih h

/-- There is an answer for every string that is added. -/
theorem contents_answers (m : Module) (steps : List Step) {bytes : List UInt8}
    (h : .string bytes ∈ steps) : ∃ name, (name, bytes) ∈ m.answers steps := by
  induction steps generalizing m with
  | nil => cases h
  | cons step steps ih =>
    rcases List.mem_cons.1 h with rfl | h
    · exact ⟨_, List.mem_cons_self⟩
    · obtain ⟨name, hname⟩ := ih (m.perform step) h
      refine ⟨name, ?_⟩
      cases step with
      | string => exact List.mem_cons_of_mem _ hname
      | vtable | variable_ | struct | declare | function => exact hname

/-! ## Declarations -/

theorem declarations_perform (m : Module) (step : Step) :
    (m.perform step).declarations =
      (step.declaration?.elim m m.declare).declarations := by
  cases step with
  | string bytes =>
    rw [perform]
    rcases m.addString_cases bytes with heq | heq <;> rw [heq] <;> rfl
  | vtable | variable_ | struct | function | declare => rfl

/-- A name has at most one declaration. -/
theorem nodup_declare (h : (m.declarations.map Declaration.name).Nodup) (d : Declaration) :
    ((m.declare d).declarations.map Declaration.name).Nodup := by
  rw [declare]
  split
  · exact h
  next hnew =>
    rw [List.map_append]
    refine List.nodup_append_comm.1 (List.nodup_cons.2 ⟨fun hmem => hnew ?_, h⟩)
    obtain ⟨d', hd', hname⟩ := List.mem_map.1 hmem
    exact List.any_eq_true.2 ⟨d', hd', beq_of_eq hname⟩

/-- Behind the declarations of a module, one that is made next counts like one that was made. -/
theorem find?_declare (m : Module) (d : Declaration) (later : List Declaration) (name : String) :
    ((m.declare d).declarations ++ later).find? (·.name == name) =
      (m.declarations ++ d :: later).find? (·.name == name) := by
  rw [declare]
  split
  next hknown =>
    rw [List.find?_append, List.find?_append, List.find?_cons]
    split
    next hname =>
      obtain ⟨d', hd', hsame⟩ := List.any_eq_true.1 hknown
      have hfound : (m.declarations.find? (·.name == name)).isSome = true :=
        List.find?_isSome.2 ⟨d', hd', beq_of_eq ((eq_of_beq hsame).trans (eq_of_beq hname))⟩
      rw [Option.or_of_isSome hfound, Option.or_of_isSome hfound]
    next => rfl
  next => rw [List.append_assoc, List.singleton_append]

/-- The declarations of a module are the first ones of each name, of those that it had and those that
are made. -/
theorem declarations_foldl (steps : List Step)
    (h : (m.declarations.map Declaration.name).Nodup) :
    ((steps.foldl perform m).declarations.map Declaration.name).Nodup ∧
      ∀ name, (steps.foldl perform m).declarations.find? (·.name == name) =
        (m.declarations ++ steps.filterMap Step.declaration?).find? (·.name == name) := by
  induction steps generalizing m with
  | nil => exact ⟨h, fun name => by rw [List.filterMap_nil, List.append_nil]; rfl⟩
  | cons step steps ih =>
    have hstep := m.declarations_perform step
    rw [List.foldl_cons, List.filterMap_cons]
    cases hd : step.declaration? with
    | none =>
      rw [hd, Option.elim_none] at hstep
      rw [← hstep]
      exact ih (hstep ▸ h)
    | some d =>
      rw [hd, Option.elim_some] at hstep
      obtain ⟨hnodup, hfind⟩ := ih (m := m.perform step) (hstep ▸ nodup_declare h d)
      refine ⟨hnodup, fun name => ?_⟩
      rw [hfind, hstep, find?_declare]

/-! ## The module in the end -/

/-- What holds of a module after any steps: no two strings share their name or their content, the names
given for two strings are equal just when the strings are, and each is the name of its string for good;
of the declarations of a name the first one is there and no other; and what the module defines is not
declared when it is printed. -/
structure Assembled (start : Module) (steps : List Step) : Prop where
  strings : (steps.foldl perform start).strings.Pairwise fun s t => s.1 ≠ t.1 ∧ s.2 ≠ t.2
  answered : ∀ bytes, .string bytes ∈ steps → ∃ name, (name, bytes) ∈ start.answers steps
  interned : ∀ s ∈ start.answers steps, ∀ t ∈ start.answers steps, s.1 = t.1 ↔ s.2 = t.2
  denotes : ∀ s ∈ start.answers steps, .string s.1 s.2 ∈ (steps.foldl perform start).globals
  once : ((steps.foldl perform start).declarations.map Declaration.name).Nodup
  first : ∀ name, (steps.foldl perform start).declarations.find? (·.name == name) =
    (steps.filterMap Step.declaration?).find? (·.name == name)
  printed : (steps.foldl perform start).Separated

/-- Every module that is put together from nothing is in order. -/
theorem assembled_of_steps (name : String) (file? : Option String) (steps : List Step) :
    Assembled { name, file? } steps := by
  have hinterned : (steps.foldl perform { name, file? }).Interned :=
    Interned.foldl_perform (m := { name, file? }) ⟨rfl, List.nodup_nil⟩ steps
  have hdenotes : ∀ s ∈ answers { name, file? } steps,
      s ∈ (steps.foldl perform { name, file? }).strings :=
    fun s hs => mem_strings.2 (mem_globals_of_mem_answers steps hs)
  obtain ⟨honce, hfirst⟩ := declarations_foldl (m := { name, file? }) steps .nil
  exact
    { strings := List.pairwise_and_iff.2
        ⟨List.pairwise_map.1 hinterned.nodup_names, List.pairwise_map.1 hinterned.contents⟩
      answered := fun _ => contents_answers _ steps
      interned := fun s hs t ht => hinterned.name_iff (hdenotes s hs) (hdenotes t ht)
      denotes := fun _ => mem_globals_of_mem_answers steps
      once := honce
      first := hfirst
      printed := separated _ }

-- A table and a variable between two equal strings do not matter, nor does a second declaration.
example :
    let steps : List Step := [.string [104, 105], .vtable "A_vtable" [], .string [],
      .variable_ "x" .i32 (.i32 5), .declare ⟨"puts", .i32, [.ptr], false⟩, .string [104, 105],
      .declare ⟨"puts", .void, [], true⟩]
    (answers { name := "main" } steps, (steps.foldl perform { name := "main" }).declarations) =
      ([(".str.0", [104, 105]), (".str.1", []), (".str.0", [104, 105])],
        [⟨"puts", .i32, [.ptr], false⟩]) := by
  decide +kernel

end Module

end ClassLang.Ir
