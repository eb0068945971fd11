import ClassLang.Proofs.Locations.Body
import ClassLang.Proofs.Nodes.Program
import ClassLang.Proofs.Tokens.Places
import Mathlib

/-!
# Labels point where messages say

The position in a message was counted on the way through the source, token by token, and was handed on
from span to span. The labels of a finding are found again from its byte offsets, by a lookup that
counts lines and columns in the text in front of an offset. Every offset of a finding is a boundary
between two characters of the source, so no lookup fails and both positions are the same.
-/

namespace ClassLang

open String (utf8Len)

variable {source : String}

/-! ## Findings of a program -/

namespace Check.Locates

theorem declaredSymbol? {s : Stmt} (h : (Node.stmt s).Sound source) {d : Symbol}
    (hd : Check.declaredSymbol? s = some d) : d.span.Placed source := by
  cases s with
  | class_ c =>
    obtain rfl := Option.some.inj hd
    exact ((h.children (.class_ c) List.mem_cons_self).children _ List.mem_cons_self).placed
  | interface n methods span =>
    obtain rfl := Option.some.inj hd
    exact (h.children _ List.mem_cons_self).placed
  | function f =>
    obtain rfl := Option.some.inj hd
    exact ((h.children (.function f) List.mem_cons_self).children _ List.mem_cons_self).placed
  | template params body span =>
    have hbody := h.children (.stmt body) (List.mem_append_right _ List.mem_cons_self)
    obtain ⟨n, hn, rfl⟩ := Option.map_eq_some_iff.1 hd
    cases body with
    | function f =>
      obtain rfl := Option.some.inj hn
      exact ((hbody.children (.function f) List.mem_cons_self).children _ List.mem_cons_self).placed
    | class_ c =>
      obtain rfl := Option.some.inj hn
      exact ((hbody.children (.class_ c) List.mem_cons_self).children _ List.mem_cons_self).placed
    | _ => cases hn
  | _ => cases hd

/-- The types in the header of a function. -/
theorem signatureParts {f : Function} (h : (Node.function f).Sound source) :
    (∀ p ∈ f.params, (Node.param p).Sound source) ∧ ∀ t ∈ f.ret?, (Node.type t).Sound source := by
  have hparts := h.children
  simp only [Node.children, List.forall_mem_append, List.forall_mem_cons, List.forall_mem_map,
    Option.mem_toList] at hparts
  exact ⟨hparts.1.1.2, hparts.1.2⟩

theorem classMembers (bound : List String) {c : Class} (h : (Node.class_ c).Sound source) :
    Locates source (Check.classMembers bound c) := by
  refine bind (mapM fun m hm => ?_) fun _ => pure _
  have hmember := h.children _ (List.mem_append_right _ (List.mem_map_of_mem hm))
  cases m with
  | field f =>
    have hparts := hmember.children
    simp only [Node.ofMember, Node.children, List.forall_mem_append, List.forall_mem_cons,
      List.forall_mem_map, Option.mem_toList] at hparts
    exact bind (resolveOptional bound _ hparts.1.2) fun _ => pure _
  | method f =>
    obtain ⟨hparams, hret⟩ := signatureParts hmember
    exact bind (resolveSignature bound hparams hret) fun _ => pure _

theorem fillTemplate (name : String) (base : Ty) (sig? : Option Signature)
    (class? : Option ClassInfo) : Locates source (Check.fillTemplate name base sig? class?) :=
  modifyGlobal name fun _ => rfl

theorem fillDeclaration {s : Stmt} (h : (Node.stmt s).Sound source) :
    Locates source (Check.fillDeclaration s) := by
  cases s with
  | function f =>
    obtain ⟨hparams, hret⟩ := signatureParts (h.children (.function f) List.mem_cons_self)
    refine bind (resolveSignature [] hparams hret) fun sig => modifyGlobal _ fun s => ?_
    split <;> rfl
  | class_ c =>
    exact bind (classMembers [] (h.children (.class_ c) List.mem_cons_self)) fun _ =>
      modifyGlobal _ fun _ => rfl
  | method m =>
    have hparts := (h.children (.method m) List.mem_cons_self).children
    simp only [Node.children, List.forall_mem_append, List.forall_mem_cons, List.forall_mem_map,
      Option.mem_toList] at hparts
    obtain ⟨⟨⟨-, -, hparams⟩, hret⟩, -⟩ := hparts
    unfold Check.fillDeclaration
    dsimp only
    split
    · exact pure _
    · refine bind scopes fun t => ?_
      split
      · exact pure _
      · exact bind (resolveSignature [] hparams hret) fun _ => modifyGlobal _ fun _ => rfl
  | interface n methods span =>
    refine bind (mapM fun m hm => ?_) fun _ => modifyGlobal _ fun _ => rfl
    have hparts := (h.children _ (List.mem_cons_of_mem _ (List.mem_map_of_mem hm))).children
    simp only [Node.children, List.forall_mem_append, List.forall_mem_cons, List.forall_mem_map,
      Option.mem_toList] at hparts
    exact bind (resolveSignature [] hparts.1.2 hparts.2) fun _ => pure _
  | template params body span =>
    have hbody := h.children (.stmt body) (List.mem_append_right _ List.mem_cons_self)
    cases body with
    | function f =>
      obtain ⟨hparams, hret⟩ := signatureParts (hbody.children (.function f) List.mem_cons_self)
      exact bind (resolveSignature _ hparams hret) fun _ => fillTemplate _ _ _ _
    | class_ c =>
      exact bind (classMembers _ (hbody.children (.class_ c) List.mem_cons_self)) fun _ =>
        fillTemplate _ _ _ _
    | _ => exact pure _
  | _ => exact pure _

theorem collectDeclarations {p : Program} (h : ∀ s ∈ p.stmts, (Node.stmt s).Sound source) :
    Locates source (Check.collectDeclarations p) := by
  refine bind (forM fun s hs => ?_) fun _ => forM fun s hs => fillDeclaration (h s hs)
  split
  next d hd => exact declare (declaredSymbol? (h s hs) hd)
  next => exact pure _

theorem reportUnusedImports : Locates source Check.reportUnusedImports :=
  fun a ha => forM (fun i hi => report (ha.imports i (List.mem_filter.1 hi).1) rfl) a ha

theorem checkProgram (ctx : Context) {p : Program} (h : ∀ s ∈ p.stmts, (Node.stmt s).Sound source) :
    Locates source (Check.checkProgram ctx p) :=
  bind (collectDeclarations h) fun _ => bind (checkStmts ctx p.stmts h) fun _ => reportUnusedImports

end Check.Locates

theorem located_analyze (source : String) (inference : Bool) :
    (analyze (parse source).1 inference).Located source :=
  Check.Locates.checkProgram _ (fun _ hs => sound_of_contains (.stmt hs)) _
    (Analysis.located_initial source)

theorem Finding.Located.marks {f : Finding} (h : f.Located source) :
    ∀ m ∈ f.marks, m.span.Placed source := by
  intro m hm
  rcases List.mem_cons.1 hm with rfl | hm
  · exact h.span
  · obtain ⟨first, hfirst, rfl⟩ := List.mem_map.1 hm
    exact h.first first (Option.mem_toList.1 hfirst)

/-! ## Lookups -/

namespace Place

def position (p : Place) : String := s!"line {p.line}, col {p.column}"

/-- One point is not behind another. -/
def Before (p q : Place) : Prop := p.line < q.line ∨ p.line = q.line ∧ p.column ≤ q.column

theorem Before.refl (p : Place) : p.Before p := .inr ⟨rfl, le_rfl⟩

theorem Before.trans {p q r : Place} (h : p.Before q) (h' : q.Before r) : p.Before r := by
  unfold Before at *
  omega

theorem before_after (p : Place) (text : List Char) : p.Before (p.after text) := by
  induction text generalizing p with
  | nil => exact .refl p
  | cons c text ih =>
    have hnext : p.Before (p.next c) := by
      unfold Before next
      split
      · exact .inl (Nat.lt_succ_self _)
      · exact .inr ⟨rfl, Nat.le_succ _⟩
    exact hnext.trans (ih _)

/-- A lookup finds every boundary between two characters of a source, and counts lines and columns in
the text in front of it. -/
def LooksUp (source : String) (locate : Nat → Option Place) : Prop :=
  ∀ front text, source.toList = front ++ text →
    locate (utf8Len front) = some ⟨utf8Len front, lineOf front, columnOf front⟩

theorem looksUp_placeAt (source : String) :
    LooksUp source fun offset => some (Finding.placeAt source offset) := by
  intro front text h
  have hplace : Finding.placeAt source (utf8Len front) = Place.start.after front := by
    rw [Finding.placeAt, h, Span.takeBytes_append]
  exact congrArg some (hplace.trans (after_start front))

end Place

/-- The text in front of a byte offset. -/
theorem exists_append_of_isValid {offset : Nat} (h : String.Pos.Raw.IsValid source ⟨offset⟩) :
    ∃ front text, source.toList = front ++ text ∧ utf8Len front = offset := by
  obtain ⟨t₁, t₂, rfl, hoffset⟩ := String.Pos.Raw.isValid_iff_exists_append.1 h
  refine ⟨t₁.toList, t₂.toList, String.toList_append, ?_⟩
  rw [String.utf8Len_toList]
  exact (congrArg String.Pos.Raw.byteIdx hoffset).symm

namespace Finding

/-- A label at the place of a mark. -/
structure Mark.Shown (m : Mark) (l : Label) : Prop where
  message : l.message = m.message
  isPrimary : l.isPrimary = m.isPrimary
  line : l.start.line = m.span.line
  column : l.start.column = m.span.column
  ordered : l.start.Before l.stop

theorem Mark.label?_eq {m : Mark} (h : m.span.Placed source) {locate : Nat → Option Place}
    (hlocate : Place.LooksUp source locate) : ∃ l, m.label? locate = some l ∧ m.Shown l := by
  obtain ⟨front, text, hsource, hstart⟩ := h.label
  obtain ⟨front', text', hsource', hstop⟩ := exists_append_of_isValid h.stop_valid
  rw [Place.after_start, Place.mk.injEq] at hstart
  obtain ⟨hoffset, hline, hcolumn⟩ := hstart
  -- The text in front of the end goes on behind the text in front of the start.
  obtain ⟨mid, rfl⟩ : front <+: front' := by
    rcases List.prefix_or_prefix_of_prefix ⟨text, hsource.symm⟩ ⟨text', hsource'.symm⟩ with h' | h'
    · exact h'
    · obtain ⟨mid, rfl⟩ := h'
      have hlt := h.start_lt
      rw [String.utf8Len_append] at hoffset
      omega
  have hstart := hlocate front text hsource
  have hend := hlocate (front ++ mid) text' hsource'
  rw [← Place.after_start, hoffset] at hstart
  rw [← Place.after_start, Place.after_append, hstop] at hend
  refine ⟨⟨Place.start.after front, (Place.start.after front).after mid, m.message, m.isPrimary⟩,
    ?_, rfl, rfl, ?_, ?_, Place.before_after _ mid⟩
  · rw [Mark.label?, hstart, hend]
    rfl
  · rw [Place.after_start, hline]
  · rw [Place.after_start, hcolumn]

/-- The labels of a finding say what its text says. -/
structure Pointed (f : Finding) (labels : List Label) : Prop where
  /-- No label is dropped, and each one starts at the line and the column of its span. -/
  shown : List.Forall₂ Mark.Shown f.marks labels
  /-- The primary label is the first one, at the position in the text of the finding. -/
  primary : ∃ l ∈ labels.head?, l.isPrimary = true ∧ l.start.position = f.span.position ∧
    f.text = s!"{l.start.position}: {f.cause.message}"

theorem Located.pointed {f : Finding} (h : f.Located source) {locate : Nat → Option Place}
    (hlocate : Place.LooksUp source locate) : f.Pointed (f.labelsBy locate) := by
  have hshown : ∀ ms : List Mark, (∀ m ∈ ms, m.span.Placed source) →
      List.Forall₂ Mark.Shown ms (ms.filterMap (Mark.label? locate)) := by
    intro ms hms
    induction ms with
    | nil => exact .nil
    | cons m ms ih =>
      obtain ⟨l, hl, hm⟩ := Mark.label?_eq (hms m List.mem_cons_self) hlocate
      rw [List.filterMap_cons_some hl]
      exact .cons hm (ih fun m' hm' => hms m' (List.mem_cons_of_mem m hm'))
  obtain ⟨l, hl, hm⟩ := Mark.label?_eq (h.marks _ List.mem_cons_self) hlocate
  have hposition : l.start.position = f.span.position := by
    rw [Place.position, Span.position, hm.line, hm.column]
  refine ⟨hshown f.marks h.marks, l, ?_, hm.isPrimary, hposition, ?_⟩
  · rw [labelsBy, Finding.marks, List.filterMap_cons_some hl]
    rfl
  · rw [hposition]
    rfl

/-- So do the labels that are looked up in the source itself. -/
theorem pointed_labels (source : String) (inference : Bool) :
    ∀ f ∈ (analyze (parse source).1 inference).findings, f.Pointed (f.labels source) :=
  fun f hf => ((located_analyze source inference).findings f hf).pointed
    (Place.looksUp_placeAt source)

end Finding

end ClassLang
