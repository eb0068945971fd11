import ClassLang.Proofs.Comparison.Body

/-!
# Programs side by side

The declarations of the top level name what a program mentions, so they do the same on both sides, and
the fields of the classes that they declare have names that are not set apart. With the walk over the
statements this gives the comparison of whole programs.
-/

namespace ClassLang

theorem Stmt.mem_mentionsOfAll {m : Mention} {s : Stmt} : {ss : List Stmt} → s ∈ ss →
    m ∈ s.mentions → m ∈ Stmt.mentionsOfAll ss
  | _ :: _, hs, hm => by
    obtain rfl | hs := List.mem_cons.1 hs
    · exact List.mem_append_left _ hm
    · exact List.mem_append_right _ (mem_mentionsOfAll hs hm)

/-- The names that are declared with a member of a class. -/
def Member.names : Member → List String
  | .field f => f.name.name :: TypeExpr.namesIf f.type?
  | .method m => functionNames m.params m.ret?

theorem Member.mem_mentionsOfAll {n : String} {m : Member} (hn : n ∈ m.names) :
    {ms : List Member} → m ∈ ms → .name n ∈ Member.mentionsOfAll ms
  | m' :: ms, h => by
    obtain rfl | h := List.mem_cons.1 h
    · obtain ⟨⟨⟩⟩ | ⟨⟨⟩⟩ := m <;> exact List.mem_append_left _ (List.mem_map_of_mem hn)
    · have htail := mem_mentionsOfAll hn h
      obtain ⟨⟨⟩⟩ | ⟨⟨⟩⟩ := m' <;> exact List.mem_append_right _ (List.mem_append_right _ htail)

theorem TypeExpr.mem_names_of_className? {e : TypeExpr} {c : String} (h : e.className? = some c) :
    c ∈ e.names := by
  rw [className?] at h
  rw [← e.names_base]
  split at h
  next n hbase =>
    obtain rfl := Option.some.inj h
    rw [hbase]
    exact List.mem_cons_self
  next n args span hbase =>
    obtain rfl := Option.some.inj h
    rw [hbase]
    exact List.mem_cons_self
  · cases h

namespace Check

/-- What `mapM` gives is given by its step, from some state, for an element of the list. -/
theorem exists_of_mem_mapM {α β : Type} {f : α → Check β} {l : List α} {a : Analysis} {v : β}
    (h : v ∈ ((l.mapM f).run a).1) : ∃ x ∈ l, ∃ b, v = ((f x).run b).1 := by
  induction l generalizing a with
  | nil =>
    rw [List.mapM_nil] at h
    cases h
  | cons x l ih =>
    rw [List.mapM_cons] at h
    obtain rfl | h := List.mem_cons.1 h
    · exact ⟨x, List.mem_cons_self, a, rfl⟩
    · obtain ⟨x', hx', b, hb⟩ := ih h
      exact ⟨x', List.mem_cons_of_mem _ hx', b, hb⟩

theorem fields_classMembers {bound : List String} {c : Class} {a : Analysis} {f : FieldInfo}
    (h : f ∈ ((classMembers bound c).run a).1.1) :
    ∃ field, .field field ∈ c.members ∧ f.name = field.name.name := by
  obtain ⟨v, hv, hleft⟩ := List.mem_filterMap.1 h
  obtain ⟨m, hm, b, rfl⟩ := exists_of_mem_mapM hv
  cases m with
  | field field =>
    refine ⟨field, hm, ?_⟩
    obtain rfl := Option.some.inj hleft
    rfl
  | method _ => cases hleft

end Check

/-- The members of a declared class are changed. -/
theorem Symbol.FieldsIn.mapClass {N : String → Prop} {d : Symbol} (hd : d.FieldsIn N)
    {g : ClassInfo → ClassInfo}
    (hg : ∀ info, (∀ f ∈ info.fields, N f.name) → ∀ f ∈ (g info).fields, N f.name) :
    { d with class? := d.class?.map g }.FieldsIn N := by
  intro info hinfo
  cases hclass : d.class? with
  | none => exact hd info (by simpa [Symbol.classInfo?, hclass] using hinfo)
  | some old =>
    obtain rfl : g old = info := by simpa [Symbol.classInfo?, hclass] using hinfo
    exact hg old (hd old (by simp [Symbol.classInfo?, hclass]))

/-- A statement mentions what it declares. No fields are known yet. -/
theorem mentions_of_declaredSymbol? {N : String → Prop} {s : Stmt} {d : Symbol}
    (h : Check.declaredSymbol? s = some d) : .name d.name ∈ s.mentions ∧ d.FieldsIn N := by
  match s with
  | .class_ ⟨name, extends?, implements, members, span⟩ =>
    obtain rfl := Option.some.inj h
    refine ⟨List.mem_append_left _ List.mem_cons_self, fun info hinfo => ?_⟩
    obtain rfl := Option.some.inj hinfo
    exact nofun
  | .interface .. =>
    obtain rfl := Option.some.inj h
    exact ⟨List.mem_cons_self, nofun⟩
  | .function ⟨name, params, ret?, body, modifiers, span⟩ =>
    obtain rfl := Option.some.inj h
    exact ⟨List.mem_append_left _ List.mem_cons_self, nofun⟩
  | .template params body _ =>
    obtain ⟨n, hn, rfl⟩ := Option.map_eq_some_iff.1 h
    refine ⟨List.mem_append_right _ ?_, nofun⟩
    match body with
    | .function ⟨name, params, ret?, body, modifiers, span⟩ =>
      obtain rfl := Option.some.inj hn
      exact List.mem_append_left _ List.mem_cons_self
    | .class_ ⟨name, extends?, implements, members, span⟩ =>
      obtain rfl := Option.some.inj hn
      exact List.mem_append_left _ List.mem_cons_self

namespace Comparison

variable {C : Comparison}

/-- A change of symbols that leaves their kinds, and faded types, as they are. -/
theorem Symbols.modify {f : Symbol → Symbol} (hkind : ∀ d, (f d).kind = d.kind)
    (hfade : ∀ d, d.isStored = true → f { d with ty := .unknown } = { f d with ty := .unknown })
    (d d' : Symbol) (h : C.Symbols d d') : C.Symbols (f d) (f d') := by
  obtain rfl | ⟨hfades, hstored, rfl⟩ := h
  · exact .inl rfl
  · exact .inr ⟨hfades, by rwa [Symbol.isStored, hkind], hfade d hstored⟩

namespace Rel

variable {L : List Mention}

theorem names_of_append {ns : List String} (h : ∀ n, .name n ∈ ns.map Mention.name ++ L → C.names n) :
    ∀ n ∈ ns, C.names n :=
  fun n hn => h n (List.mem_append_left _ (List.mem_map_of_mem hn))

theorem declareStmt {s : Stmt} (h : ∀ n, .name n ∈ s.mentions → C.names n) :
    C.Rel L Eq
      (match Check.declaredSymbol? s with
        | some symbol => Check.declare symbol
        | none => return)
      (match Check.declaredSymbol? s with
        | some symbol => Check.declare symbol
        | none => return) := by
  cases hd : Check.declaredSymbol? s with
  | none => exact pure rfl
  | some d =>
    obtain ⟨hname, hfields⟩ := mentions_of_declaredSymbol? (N := C.names) hd
    exact declare (.inl rfl) (h d.name hname) hfields

theorem classMembers (bound : List String) {c : Class}
    (h : ∀ m ∈ c.members, ∀ n ∈ m.names, C.names n) :
    C.Rel L Eq (Check.classMembers bound c) (Check.classMembers bound c) := by
  refine (mapM_mem c.members fun m hm => ?_).seq fun _ _ hinfos => pure (by rw [hinfos])
  cases m with
  | field f =>
    exact (resolveOptional bound _ (List.forall_mem_cons.1 (h _ hm)).2).seq fun _ _ hty =>
      pure (by rw [hty])
  | method m =>
    exact (resolveSignature bound (h _ hm)).seq fun _ _ hsig => pure (by rw [hsig])

/-- The members of a class, with what follows. -/
theorem withMembers {bound : List String} {c : Class}
    (h : ∀ m ∈ c.members, ∀ n ∈ m.names, C.names n)
    {f : List FieldInfo × List MethodInfo → Check Unit}
    (hf : ∀ v, (∀ f ∈ v.1, C.names f.name) → C.Rel L Eq (f v) (f v)) :
    C.Rel L Eq (Check.classMembers bound c >>= f) (Check.classMembers bound c >>= f) := by
  refine (classMembers (L := []) bound h).bindOf (P := fun v => ∀ f ∈ v.1, C.names f.name)
    (fun a f hf => ?_) fun | v, _, rfl => hf v
  obtain ⟨field, hfield, hname⟩ := Check.fields_classMembers hf
  rw [hname]
  exact h _ hfield _ List.mem_cons_self

theorem fillTemplate {name : String} (hn : C.names name) (base : Ty) (sig? : Option Signature)
    {class? : Option ClassInfo} (hclass : ∀ info ∈ class?, ∀ f ∈ info.fields, C.names f.name) :
    C.Rel L Eq (Check.fillTemplate name base sig? class?)
      (Check.fillTemplate name base sig? class?) := by
  refine modifyGlobal hn (Symbols.modify (fun _ => rfl) fun _ _ => rfl) fun d hd info hinfo => ?_
  cases hold : d.class? with
  | some old => exact hd info (by simpa [Symbol.classInfo?, hold] using hinfo)
  | none =>
    refine hclass info ?_
    cases htemplate : d.template? with
    | none => simp [Symbol.classInfo?, hold, htemplate] at hinfo
    | some t => simpa [Symbol.classInfo?, hold, htemplate] using hinfo

theorem fillDeclaration {s : Stmt} (h : ∀ n, .name n ∈ s.mentions → C.names n) :
    C.Rel L Eq (Check.fillDeclaration s) (Check.fillDeclaration s) := by
  cases s with
  | function f =>
    obtain ⟨name, params, ret?, body, modifiers, span⟩ := f
    obtain ⟨hn, hnames⟩ := List.forall_mem_cons.1 (names_of_append h)
    refine (resolveSignature [] hnames).seq ?_
    rintro sig _ rfl
    refine modifyGlobal hn (Symbols.modify (fun d => ?_) fun d hd => ?_) fun d hd => ?_
    · split <;> rfl
    · have hkind : (d.kind == .function) = false := by
        cases hkind : d.kind <;> simp_all [Symbol.isStored]
      simp only [hkind, Bool.false_eq_true, if_false]
    · split <;> exact hd
  | class_ c =>
    obtain ⟨name, extends?, implements, members, span⟩ := c
    have hheader := names_of_append h
    refine withMembers (fun m hm n hn => h n ?_) fun v hfields => ?_
    · exact List.mem_append_right _ (Member.mem_mentionsOfAll hn hm)
    exact modifyGlobal (hheader _ List.mem_cons_self) (Symbols.modify (fun _ => rfl) fun _ _ => rfl)
      fun d hd => hd.mapClass fun _ _ => hfields
  | method m =>
    obtain ⟨receiver, name, params, ret?, body, span⟩ := m
    obtain ⟨hreceiver, hnames⟩ := List.forall_mem_append.1 (names_of_append h)
    unfold Check.fillDeclaration
    dsimp only [Method.receiverClass?]
    split
    · exact pure rfl
    next cls hcls =>
      obtain ⟨type, htype, hclass⟩ := Option.bind_eq_some_iff.1 hcls
      have hn : C.names cls := by
        refine hreceiver cls (List.mem_cons_of_mem _ ?_)
        rw [TypeExpr.namesIf, htype]
        simpa using TypeExpr.mem_names_of_className? hclass
      refine scopes.seq fun t t' ht => ?_
      rw [ht.classes]
      refine ite (fun _ => pure rfl) fun _ => (resolveSignature [] hnames).seq ?_
      rintro sig _ rfl
      exact modifyGlobal hn (Symbols.modify (fun _ => rfl) fun _ _ => rfl) fun d hd =>
        hd.mapClass fun _ hold => hold
  | interface n methods span =>
    obtain ⟨hn, hmethods⟩ := List.forall_mem_cons.1 fun n hn => h n (List.mem_map_of_mem hn)
    refine (mapM_mem methods fun m hm => ?_).seq ?_
    · refine (resolveSignature [] fun n hn => ?_).seq fun _ _ hsig => pure (by rw [hsig])
      exact hmethods n (List.mem_flatMap.2 ⟨m, hm, hn⟩)
    rintro infos _ rfl
    exact modifyGlobal hn (Symbols.modify (fun _ => rfl) fun _ _ => rfl) fun d hd => hd
  | template params body span =>
    have hbody : ∀ n, .name n ∈ body.mentions → C.names n := fun n hn =>
      h n (List.mem_append_right _ hn)
    cases body with
    | function f =>
      obtain ⟨name, params, ret?, body, modifiers, span⟩ := f
      obtain ⟨hn, hnames⟩ := List.forall_mem_cons.1 (names_of_append hbody)
      refine (resolveSignature _ hnames).seq ?_
      rintro sig _ rfl
      exact fillTemplate hn _ _ (by simp)
    | class_ c =>
      obtain ⟨name, extends?, implements, members, span⟩ := c
      have hheader := names_of_append hbody
      refine withMembers (fun m hm n hn => hbody n ?_) fun v hfields => ?_
      · exact List.mem_append_right _ (Member.mem_mentionsOfAll hn hm)
      exact fillTemplate (hheader _ List.mem_cons_self) _ _ (by rintro _ ⟨⟩; exact hfields)
    | _ => exact pure rfl
  | _ => exact pure rfl

theorem collectDeclarations {p : Program} (h : ∀ n, .name n ∈ p.mentions → C.names n) :
    C.Rel L Eq (Check.collectDeclarations p) (Check.collectDeclarations p) := by
  have hmentions : ∀ s ∈ p.stmts, ∀ n, .name n ∈ s.mentions → C.names n := fun s hs n hn =>
    h n (Stmt.mem_mentionsOfAll hs hn)
  exact (forM_mem _ fun s hs => declareStmt (hmentions s hs)).seq fun _ _ _ =>
    forM_mem _ fun s hs => fillDeclaration (hmentions s hs)

theorem reportUnusedImports : C.Rel L Eq Check.reportUnusedImports Check.reportUnusedImports := by
  have hget : C.Rel [] (fun a b => b.imports = a.imports) (get : Check Analysis) get :=
    intro (.reading fun _ => rfl) fun a b hab _ => ⟨hab.imports, hab⟩
  have : Std.Refl fun a b : Analysis => b.imports = a.imports := ⟨fun _ => rfl⟩
  refine hget.seq fun a b hab => ?_
  rw [hab]
  exact forM_mem _ fun i _ => report (by nofun) _

theorem checkProgram (ctx : Context) (p : Program) :
    C.Rel p.mentions Eq (Check.checkProgram ctx p) (Check.checkProgram (C.context ctx) p) :=
  assuming fun h => (collectDeclarations h).seq fun _ _ _ =>
    (checkStmts ctx p.stmts).andThen fun _ _ _ => reportUnusedImports

end Rel

/-! ## Where analyses begin -/

theorem Trees.single {s s' : Scope} (h : C.Scopes 0 s s') : C.Trees ⟨[s], 0⟩ ⟨[s'], 0⟩ where
  current := rfl
  count := rfl
  inside := Nat.zero_lt_one
  scopes
    | 0 => .some h
    | _ + 1 => .none

end Comparison

/-- At first there is one scope, and no class is declared in it. -/
theorem Analysis.scopes_initial : ∃ s : Scope, Analysis.initial.scopes = ⟨[s], 0⟩ ∧
    s.parent? = none ∧ ∀ n d, s.symbols.find? n = some d → d.classInfo? = none := by
  have hlength : Analysis.initial.scopes.scopes.length = 1 := by decide +kernel
  have hcurrent : Analysis.initial.scopes.current = 0 := by decide +kernel
  have hall : (Analysis.initial.scopes.scopes.all fun s => s.parent?.isNone &&
      s.symbols.values.all fun d => d.classInfo?.isNone) = true := by decide +kernel
  obtain ⟨s, hs⟩ := List.length_eq_one_iff.1 hlength
  rw [hs, List.all_cons, List.all_nil, Bool.and_true, Bool.and_eq_true] at hall
  refine ⟨s, ?_, Option.isNone_iff_eq_none.1 hall.1, fun n d hd => ?_⟩
  · rw [← hs, ← hcurrent]
  · exact Option.isNone_iff_eq_none.1 (List.all_eq_true.1 hall.2 d (Table.mem_values_of_find? hd))

end ClassLang
