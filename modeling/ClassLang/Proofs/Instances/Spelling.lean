import ClassLang.Proofs.Lockstep.Program

/-!
# The symbols of instances

The symbol of an instance is made of the template's name and the texts of the type arguments, with an
underscore for every character that a symbol cannot hold. It is the same each time the instance is
asked for. Names may hold underscores of their own, so two instances can have one symbol; but if no name
does, a symbol is read in one way only: the first word tells how many types follow, and each of them is
read in the same way.
-/

namespace ClassLang

/-! ## Words -/

/-- A name without underscores, other than the word that map types begin with. -/
def isWord (name : String) : Bool := name != "" && name != "map" && name.toList.all Char.isAlphanum

/-- The type that a name stands for outside of templates. -/
def Catalog.typeNamed? (c : Catalog) (name : String) : Option Ty :=
  if let some ty := Ty.ofBasicName? name then some ty
  else if c.classes.contains name then some (.class_ name)
  else if (c.scopes.interfaceInfo? name).isSome then some (.interface name)
  else if (c.scopes.classInfo? name).isSome then some (.class_ name)
  else none

theorem Catalog.text_typeNamed {c : Catalog} {name : String} {t : Ty}
    (h : c.typeNamed? name = some t) : t.text = name := by
  unfold typeNamed? at h
  split at h
  next ty hty =>
    obtain ⟨kind, _, rfl⟩ := Option.map_eq_some_iff.1 hty
    cases h
    rw [Ty.text]
  next =>
    split at h
    · cases h; rw [Ty.text]
    · split at h
      · cases h; rw [Ty.text]
      · split at h
        · cases h; rw [Ty.text]
        · cases h

namespace Gen

/-- A character as it stands in a symbol. -/
def symbolChar (x : Char) : Char := if x.isAlphanum || x == '_' then x else '_'

theorem toList_mangle (text : String) : (mangle text).toList = text.toList.map symbolChar :=
  String.toList_ofList

theorem mangle_inj {text text' : String} :
    mangle text = mangle text' ↔ text.toList.map symbolChar = text'.toList.map symbolChar := by
  rw [← toList_mangle, ← toList_mangle, String.toList_inj]

theorem symbolChar_of_isAlphanum {x : Char} (h : x.isAlphanum = true) : symbolChar x = x := by
  simp [symbolChar, h]

theorem symbolChar_symbolChar (x : Char) : symbolChar (symbolChar x) = symbolChar x := by
  by_cases h : (x.isAlphanum || x == '_') = true
  · have hx : symbolChar x = x := if_pos h
    rw [hx, hx]
  · have hx : symbolChar x = '_' := if_neg h
    rw [hx]
    rfl

theorem isAlphanum_of_isWord {name : String} (h : isWord name = true) :
    name.toList ≠ [] ∧ ∀ x ∈ name.toList, x.isAlphanum = true := by
  simp only [isWord, Bool.and_eq_true, List.all_eq_true] at h
  exact ⟨by simpa using h.1.1, h.2⟩

theorem ne_of_isWord {name : String} (h : isWord name = true) :
    name.toList ≠ ['_'] ∧ name.toList ≠ "map".toList := by
  refine ⟨fun heq => ?_, fun heq => ?_⟩
  · have := (isAlphanum_of_isWord h).2 '_' (by rw [heq]; exact List.mem_singleton_self _)
    exact absurd this (by decide)
  · rw [String.toList_inj.1 heq] at h
    exact absurd h (by decide)

theorem map_symbolChar_of_isWord {name : String} (h : isWord name = true) :
    name.toList.map symbolChar = name.toList := by
  have hkept := fun x hx => symbolChar_of_isAlphanum ((isAlphanum_of_isWord h).2 x hx)
  rw [List.map_congr_left hkept, List.map_id']

/-- A type as it stands in a symbol. -/
def code (t : Ty) : List Char := t.text.toList.map symbolChar

/-- Types as they follow the first word of a symbol. -/
def codes (ts : List Ty) : List Char := ts.flatMap fun t => '_' :: code t

theorem toList_instanceKey (name : String) (args : List Ty) :
    (instanceKey name args).toList = name.toList ++ args.flatMap fun t => '_' :: t.text.toList := by
  induction args generalizing name with
  | nil => simp [instanceKey]
  | cons t ts ih =>
    have hcons : instanceKey name (t :: ts) = name ++ "_" ++ instanceKey t.text ts := by
      rw [instanceKey, List.map_cons, String.intercalate_cons_cons]
      rfl
    rw [hcons, String.toList_append, String.toList_append, ih, List.flatMap_cons]
    simp

theorem map_instanceKey {name : String} (h : isWord name = true) (args : List Ty) :
    (instanceKey name args).toList.map symbolChar = name.toList ++ codes args := by
  rw [toList_instanceKey, List.map_append, map_symbolChar_of_isWord h, codes, List.map_flatMap]
  rfl

/-! ## Types that can be read back -/

/-- A type that is spelled as a first word and the types that follow it. For an array the word is an
underscore. -/
inductive Spells (c : Catalog) : List Char → List Ty → Ty → Prop where
  | named {name : String} {t : Ty} : isWord name = true → c.templates.find? name = none →
    c.typeNamed? name = some t → Spells c name.toList [] t
  | array (element : Ty) : Spells c ['_'] [element] (.array element)
  | map (key value : Ty) : Spells c "map".toList [key, value] (.map key value)
  | instance_ {name : String} {template : Template} {args : List Ty} : isWord name = true →
    c.templates.find? name = some template → template.params.length = args.length →
    Spells c name.toList args (.class_ (mangle (instanceKey name args)))

/-- A type that is spelled by words without underscores, all the way down. -/
inductive Spelled (c : Catalog) : Ty → Prop where
  | of {word : List Char} {parts : List Ty} {t : Ty} : Spells c word parts t →
    (∀ p ∈ parts, Spelled c p) → Spelled c t

namespace Spells

variable {c : Catalog} {word word' : List Char} {parts parts' : List Ty} {t t' : Ty}

theorem code_eq (h : Spells c word parts t) : code t = word ++ codes parts := by
  cases h with
  | named hword _ ht =>
    rw [code, Catalog.text_typeNamed ht, map_symbolChar_of_isWord hword]
    simp [codes]
  | array element => simp [code, codes, Ty.text, symbolChar]
  | map key value => simp [code, codes, Ty.text, symbolChar]
  | instance_ hword _ _ =>
    rw [code, Ty.text, toList_mangle, List.map_map, ← map_instanceKey hword]
    exact List.map_congr_left fun x _ => symbolChar_symbolChar x

/-- The first word tells how many types follow, and together with them the type. -/
theorem determined (h : Spells c word parts t) (h' : Spells c word' parts' t')
    (heq : word = word') : parts.length = parts'.length ∧ (parts = parts' → t = t') := by
  cases h with
  | named hword hnone ht =>
    obtain ⟨harray, hmap⟩ := ne_of_isWord hword
    cases h' with
    | named _ _ ht' =>
      rw [String.toList_inj.1 heq, ht'] at ht
      exact ⟨rfl, fun _ => (Option.some.inj ht).symm⟩
    | array _ => exact absurd heq harray
    | map _ _ => exact absurd heq hmap
    | instance_ _ hsome _ =>
      rw [String.toList_inj.1 heq, hsome] at hnone
      cases hnone
  | array element =>
    cases h' with
    | named hword _ _ => exact absurd heq.symm (ne_of_isWord hword).1
    | array _ => exact ⟨rfl, fun hparts => by cases hparts; rfl⟩
    | map _ _ => cases heq
    | instance_ hword _ _ => exact absurd heq.symm (ne_of_isWord hword).1
  | map key value =>
    cases h' with
    | named hword _ _ => exact absurd heq.symm (ne_of_isWord hword).2
    | array _ => cases heq
    | map _ _ => exact ⟨rfl, fun hparts => by cases hparts; rfl⟩
    | instance_ hword _ _ => exact absurd heq.symm (ne_of_isWord hword).2
  | instance_ hword hsome hlength =>
    obtain ⟨harray, hmap⟩ := ne_of_isWord hword
    cases h' with
    | named _ hnone _ =>
      rw [← String.toList_inj.1 heq, hsome] at hnone
      cases hnone
    | array _ => exact absurd heq harray
    | map _ _ => exact absurd heq hmap
    | instance_ _ hsome' hlength' =>
      have hname := String.toList_inj.1 heq
      rw [hname, hsome'] at hsome
      cases hsome
      exact ⟨hlength.symm.trans hlength', fun hparts => by rw [hname, hparts]⟩

/-- The word is an underscore, or has none. -/
theorem underscore_or_word (h : Spells c word parts t) :
    word = ['_'] ∨ word ≠ [] ∧ ∀ x ∈ word, x.isAlphanum = true := by
  cases h with
  | named hword _ _ | instance_ hword _ _ => exact .inr (isAlphanum_of_isWord hword)
  | array _ => exact .inl rfl
  | map _ _ => exact .inr ⟨by decide, List.all_eq_true.1 (by decide)⟩

end Spells

/-! ## Symbols are read in one way -/

/-- Nothing more, or an underscore. -/
def Stops (rest : List Char) : Prop := ∀ x ∈ rest.head?, x = '_'

theorem Stops.codes_append (ts : List Ty) {rest : List Char} (h : Stops rest) :
    Stops (codes ts ++ rest) := by
  cases ts with
  | nil => exact h
  | cons t ts => intro x hx; cases hx; rfl

theorem Stops.not_isAlphanum {x : Char} {rest : List Char} (h : Stops (x :: rest)) :
    ¬x.isAlphanum = true := by
  rw [h x rfl]
  decide

/-- Where a word ends can be seen. -/
theorem word_cancel {word word' rest rest' : List Char} (hw : ∀ x ∈ word, x.isAlphanum = true)
    (hw' : ∀ x ∈ word', x.isAlphanum = true) (hr : Stops rest) (hr' : Stops rest')
    (h : word ++ rest = word' ++ rest') : word = word' ∧ rest = rest' := by
  induction word generalizing word' with
  | nil =>
    cases word' with
    | nil => exact ⟨rfl, h⟩
    | cons y word' =>
      rw [show rest = _ from h] at hr
      exact absurd (hw' y List.mem_cons_self) hr.not_isAlphanum
  | cons x word ih =>
    cases word' with
    | nil =>
      rw [← show _ = rest' from h] at hr'
      exact absurd (hw x List.mem_cons_self) hr'.not_isAlphanum
    | cons y word' =>
      rw [List.cons_append, List.cons_append, List.cons.injEq] at h
      obtain ⟨rfl, h⟩ := h
      obtain ⟨rfl, rfl⟩ := ih (fun x hx => hw x (List.mem_cons_of_mem _ hx))
        (fun x hx => hw' x (List.mem_cons_of_mem _ hx)) h
      exact ⟨rfl, rfl⟩

section

variable {c : Catalog} {rest rest' : List Char}

theorem Spells.cancel {word word' : List Char} {parts parts' : List Ty} {t t' : Ty}
    (hs : Spells c word parts t) (hs' : Spells c word' parts' t') (hr : Stops rest)
    (hr' : Stops rest') (h : word ++ rest = word' ++ rest') : word = word' ∧ rest = rest' := by
  have hmixed : ∀ {w r r' : List Char}, w ≠ [] → (∀ x ∈ w, x.isAlphanum = true) →
      ['_'] ++ r ≠ w ++ r' := by
    intro w r r' hne hw heq
    obtain ⟨x, w, rfl⟩ := List.exists_cons_of_ne_nil hne
    cases heq
    exact absurd (hw '_' List.mem_cons_self) (by decide)
  rcases hs.underscore_or_word with rfl | ⟨hne, hw⟩
  · rcases hs'.underscore_or_word with rfl | ⟨hne', hw'⟩
    · exact List.append_inj h rfl
    · exact absurd h (hmixed hne' hw')
  · rcases hs'.underscore_or_word with rfl | ⟨_, hw'⟩
    · exact absurd h.symm (hmixed hne hw)
    · exact word_cancel hw hw' hr hr' h

/-- Where the type ends can be seen, and it is no other type. -/
def Reads (c : Catalog) (t : Ty) : Prop := ∀ {t' : Ty} {rest rest' : List Char}, Spelled c t' →
  Stops rest → Stops rest' → code t ++ rest = code t' ++ rest' → t = t' ∧ rest = rest'

theorem codes_cancel {ts ts' : List Ty} (hts : ∀ t ∈ ts, Reads c t)
    (hts' : ∀ t ∈ ts', Spelled c t) (hlength : ts.length = ts'.length) (hr : Stops rest)
    (hr' : Stops rest') (h : codes ts ++ rest = codes ts' ++ rest') : ts = ts' ∧ rest = rest' := by
  induction ts generalizing ts' with
  | nil =>
    obtain rfl := List.eq_nil_of_length_eq_zero hlength.symm
    exact ⟨rfl, h⟩
  | cons t ts ih =>
    cases ts' with
    | nil => cases hlength
    | cons t' ts' =>
      rw [List.forall_mem_cons] at hts hts'
      simp only [codes, List.flatMap_cons, List.cons_append, List.append_assoc, List.cons.injEq,
        true_and] at h
      obtain ⟨rfl, hrest⟩ := hts.1 hts'.1 (hr.codes_append ts) (hr'.codes_append ts') h
      obtain ⟨rfl, rfl⟩ := ih hts.2 hts'.2 (Nat.succ.inj hlength) hrest
      exact ⟨rfl, rfl⟩

theorem Spelled.reads {t : Ty} (h : Spelled c t) : Reads c t := by
  -- By induction on how the type is spelled: the first words agree, so do the types that follow.
  induction h with
  | of hs _ ih =>
    intro t' rest rest' ht' hr hr' heq
    obtain ⟨hs', hparts'⟩ := ht'
    rw [hs.code_eq, hs'.code_eq, List.append_assoc, List.append_assoc] at heq
    obtain ⟨hword, heq⟩ := hs.cancel hs' (hr.codes_append _) (hr'.codes_append _) heq
    obtain ⟨hlength, hty⟩ := hs.determined hs' hword
    obtain ⟨hparts, rfl⟩ := codes_cancel ih hparts' hlength hr hr' heq
    exact ⟨hty hparts, rfl⟩

/-- Instances of templates with names and arguments that can be read have different symbols. -/
theorem mangle_instanceKey_inj {name name' : String} {template template' : Template}
    {args args' : List Ty} (ht : c.templates.find? name = some template)
    (hlength : template.params.length = args.length)
    (ht' : c.templates.find? name' = some template')
    (hlength' : template'.params.length = args'.length) (hname : isWord name = true)
    (hname' : isWord name' = true) (hargs : ∀ t ∈ args, Spelled c t)
    (hargs' : ∀ t ∈ args', Spelled c t) :
    mangle (instanceKey name args) = mangle (instanceKey name' args') ↔
      name = name' ∧ args = args' := by
  refine ⟨fun h => ?_, fun h => by rw [h.1, h.2]⟩
  rw [mangle_inj, map_instanceKey hname, map_instanceKey hname'] at h
  have hs : Spells c name.toList args _ := .instance_ hname ht hlength
  have hs' : Spells c name'.toList args' _ := .instance_ hname' ht' hlength'
  have hstops : Stops [] := nofun
  rw [← List.append_nil (codes args), ← List.append_nil (codes args')] at h
  obtain ⟨hword, h⟩ := hs.cancel hs' (hstops.codes_append _) (hstops.codes_append _) h
  have hlengths := (hs.determined hs' hword).1
  exact ⟨String.toList_inj.1 hword,
    (codes_cancel (fun t ht => (hargs t ht).reads) hargs' hlengths hstops hstops h).1⟩

end

end Gen

/-! ## Requests -/

/-- Symbols come from keys. -/
def Request.Recorded (rs : List Request) : Prop := ∀ r ∈ rs, r.symbol = Gen.mangle r.key

theorem Request.Recorded.request (rs : List Request) (name : String) (args : List Ty)
    (h : Recorded rs) : Recorded (rs ++ [Gen.request name args]) :=
  List.forall_mem_append.2 ⟨h, List.forall_mem_singleton.2 rfl⟩

theorem recorded_generate (p : Program) (scopes : ScopeTree) (file? : Option String) (limit : Nat) :
    Request.Recorded (generate p scopes file? limit).requests :=
  requests_generate p scopes file? limit nofun .request

/-- A call for an instance gives the symbol that is made of template and type arguments. -/
theorem Gen.symbol_instantiate {c : Catalog} {fuel : Nat} {name : Ident} {args : List Ty}
    {g : GenState} {symbol : String} (hg : Request.Recorded g.requests)
    (h : ((instantiate c fuel name args).run g).1 = some symbol) :
    symbol = mangle (instanceKey name.name args) ∧ ∃ template,
      c.templates.find? name.name = some template ∧ template.params.length = args.length := by
  cases fuel with
  | zero => cases h
  | succ fuel =>
  cases ht : c.templates.find? name.name with
  | none =>
    rw [instantiate, ht] at h
    cases h
  | some template =>
  by_cases hlength : template.params.length = args.length
  · refine ⟨?_, template, rfl, hlength⟩
    rw [run_instantiate ht hlength] at h
    split at h
    next r hr =>
      cases h
      obtain ⟨hmem, _, hkey⟩ := of_known? hr
      rw [hg r hmem, hkey]
    next =>
      split at h
      · cases h
      · rw [symbol_makeInstance] at h
        exact (Option.some.inj h).symm
  · rw [instantiate, ht] at h
    dsimp only at h
    rw [if_pos (by simpa using hlength)] at h
    cases h

/-- Two calls for instances while a program is generated, where templates and types are named without
underscores, give the same symbol just if they name the same template with the same type arguments. -/
theorem symbols_instantiate (p : Program) (scopes : ScopeTree) (file? : Option String) (limit : Nat)
    {g g' : GenState} (hg : g.requests <+: (generate p scopes file? limit).requests)
    (hg' : g'.requests <+: (generate p scopes file? limit).requests)
    {fuel fuel' : Nat} {name name' : Ident} {args args' : List Ty} {symbol symbol' : String}
    (hname : isWord name.name = true) (hname' : isWord name'.name = true)
    (hargs : ∀ t ∈ args, Gen.Spelled (.ofProgram scopes file? p limit) t)
    (hargs' : ∀ t ∈ args', Gen.Spelled (.ofProgram scopes file? p limit) t)
    (h : ((Gen.instantiate (.ofProgram scopes file? p limit) fuel name args).run g).1 = some symbol)
    (h' : ((Gen.instantiate (.ofProgram scopes file? p limit) fuel' name' args').run g').1 = some symbol') :
    symbol = symbol' ↔ name.name = name'.name ∧ args = args' := by
  have hfinal := recorded_generate p scopes file? limit
  obtain ⟨rfl, template, ht, hlength⟩ :=
    Gen.symbol_instantiate (fun r hr => hfinal r (hg.subset hr)) h
  obtain ⟨rfl, template', ht', hlength'⟩ :=
    Gen.symbol_instantiate (fun r hr => hfinal r (hg'.subset hr)) h'
  exact Gen.mangle_instanceKey_inj ht hlength ht' hlength' hname hname' hargs hargs'

-- Where names hold underscores, two instances may have one symbol.
example : Gen.mangle (Gen.instanceKey "Pair" [.class_ "A_B", .class_ "C"]) =
    Gen.mangle (Gen.instanceKey "Pair" [.class_ "A", .class_ "B_C"]) := by decide

/-- An instance of a template with an instance of another one as an argument, and one with an array. -/
def pairs : Program :=
  let class_ (name : String) (members : List Member) : Class := ⟨⟨name, {}⟩, none, [], members, {}⟩
  let field (name type : String) : Member :=
    .field ⟨⟨name, {}⟩, some (.named ⟨type, {}⟩), none, false, {}, {}⟩
  let int : TypeExpr := .named ⟨"int", {}⟩
  let pair (first : TypeExpr) : Stmt :=
    .expr (.new (.generic ⟨"Pair", {}⟩ [first, .named ⟨"A", {}⟩] {}) [] {})
  ⟨[.class_ (class_ "A" []),
    .template [⟨"T", {}⟩] (.class_ (class_ "Box" [field "value" "T"])) {},
    .template [⟨"T", {}⟩, ⟨"U", {}⟩] (.class_ (class_ "Pair" [field "first" "T", field "second" "U"]))
      {},
    .function ⟨⟨"main", {}⟩, [], none,
      ⟨[pair (.generic ⟨"Box", {}⟩ [int] {}), pair (.array int {})], {}⟩, {}, {}⟩], {}⟩

/-- The two instances have different symbols. -/
theorem symbols_pairs :
    let c := Catalog.ofProgram {} none pairs
    let g := generate pairs {} none
    ((Gen.instantiate c 1 ⟨"Pair", {}⟩ [.class_ "Box_int", .class_ "A"]).run g).1 =
        some "Pair_Box_int_A" ∧
      ((Gen.instantiate c 1 ⟨"Pair", {}⟩ [.array .int, .class_ "A"]).run g).1 = some "Pair___int_A" ∧
      ("Pair_Box_int_A" = "Pair___int_A" ↔
        "Pair" = "Pair" ∧ [Ty.class_ "Box_int", .class_ "A"] = [.array .int, .class_ "A"]) := by
  intro c g
  have h : ((Gen.instantiate c 1 ⟨"Pair", {}⟩ [.class_ "Box_int", .class_ "A"]).run g).1 =
      some "Pair_Box_int_A" := by decide +kernel
  have h' : ((Gen.instantiate c 1 ⟨"Pair", {}⟩ [.array .int, .class_ "A"]).run g).1 =
      some "Pair___int_A" := by decide +kernel
  have hint : Gen.Spelled c .int := .of (.named (show isWord "int" = true from rfl) rfl rfl) nofun
  have hA : Gen.Spelled c (.class_ "A") := .of (.named (show isWord "A" = true from rfl) rfl rfl) nofun
  have hbox : Gen.Spelled c (.class_ (Gen.mangle (Gen.instanceKey "Box" [.int]))) :=
    .of (.instance_ rfl rfl rfl) (by simpa using hint)
  have harray : Gen.Spelled c (.array .int) := .of (.array _) (by simpa using hint)
  exact ⟨h, h', symbols_instantiate pairs {} none 1000 (List.prefix_refl _) (List.prefix_refl _) rfl rfl
    (by simpa using ⟨hbox, hA⟩) (by simpa using ⟨harray, hA⟩) h h'⟩

end ClassLang
