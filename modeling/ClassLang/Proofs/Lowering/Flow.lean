import ClassLang.Proofs.Lowering.Progress

/-!
# Control flow

`Evaluates env x` says that `x` is the code of an expression in `env`, and `Performs env x` that it is
the code of a statement there. Operators that decide, branches, loops, switches and try statements are
one or the other if their parts are.
-/

namespace ClassLang

namespace Env

/-- Whether `break` or `continue` may go to a block. -/
def IsTarget (env : Env) (b : Nat) : Prop :=
  ∃ l ∈ env.loops, b = l.breakTo ∨ l.continueTo? = some b

/-- The loops lead to different blocks, and those around a try statement are around all that is in
it. -/
structure Ordered (env : Env) : Prop where
  apart : env.loops.Pairwise Loop.Apart
  nested : ∀ t ∈ env.tries, t.site.loops <:+ env.loops

/-- The scopes around the try statements are among `ss`. -/
def Within (env : Env) (ss : List (Table Location)) : Prop :=
  ∀ t ∈ env.tries, t.site.scopes <:+ ss

theorem Within.of_tail {env : Env} {ss : List (Table Location)} (h : env.Within ss.tail) :
    env.Within ss :=
  fun t ht => (h t ht).trans (List.tail_suffix ss)

/-- Inside of a loop that leads to new blocks. -/
theorem Ordered.cons {env : Env} (h : env.Ordered) {l : Loop}
    (hl : ∀ b, env.IsTarget b → l.breakTo ≠ b ∧ l.continueTo? ≠ some b) :
    Ordered { env with loops := l :: env.loops } where
  apart := List.pairwise_cons.2 ⟨fun l' hl' =>
    ⟨(hl _ ⟨l', hl', .inl rfl⟩).1, fun b hb hb' => (hl b ⟨l', hl', .inr hb'⟩).2 hb⟩, h.apart⟩
  nested t ht := (h.nested t ht).trans (List.suffix_cons _ _)

end Env

namespace Draft

open Ir (Value)

variable {d₀ d d' : Draft} {L : Nat → Prop} {ours owed : Set Nat} {b : Nat} {env : Env}

/-- An environment suits a draft: what it refers to can be read and gone to. -/
structure Suits (d : Draft) (env : Env) : Prop where
  this : d.HasThis env
  targets : ∀ b, env.IsTarget b → d.Target b
  ordered : env.Ordered

/-- An environment fits a draft: it suits the draft, and the try statements around are outside of the
innermost scope. -/
structure Fits (d : Draft) (env : Env) : Prop extends Suits d env where
  within : env.Within d.cursor.scopes.tail

theorem Suits.follows (h : d.Suits env) (hf : Follows L d d') : d'.Suits env :=
  ⟨h.this.mono hf.le, fun b hb => (h.targets b hb).follows hf, h.ordered⟩

theorem Fits.follows (h : d.Fits env) (hf : Follows L d d') : d'.Fits env :=
  ⟨h.toSuits.follows hf, by rw [hf.le.2.2]; exact h.within⟩

/-- The code of an expression: it leaves its block open, and its value can be read. -/
def Evaluates (env : Env) (x : Lower Operand) : Prop :=
  ∀ d : Draft, d.HasThis env → Yields x d fun o d' => d'.Carries o.value

/-- The code of a statement: it goes nowhere but to its own blocks, and to the targets of the loops
around it. -/
def Performs (env : Env) (x : Lower Unit) : Prop :=
  ∀ d : Draft, d.IsOpen → d.Fits env → Goes env.IsTarget x d fun _ _ => True

/-- The code of a statement that has a scope of its own, and so leaves the scopes as they were. -/
def Confines (env : Env) (x : Lower Unit) : Prop :=
  ∀ d : Draft, d.IsOpen → d.Suits env → env.Within d.cursor.scopes →
    Goes env.IsTarget x d fun _ d' => d'.cursor.scopes = d.cursor.scopes

theorem Confines.performs {x : Lower Unit} (h : Confines env x) : Performs env x :=
  fun d ho henv => (h d ho henv.toSuits henv.within.of_tail).mono fun _ _ _ _ => trivial

theorem confines_inScope {act : Lower Unit} (hact : Performs env act) :
    Confines env (Lower.inScope act) := by
  intro d ho henv hw
  refine .inScope (hact _ ho ⟨⟨henv.this, fun b hb => ?_, henv.ordered⟩, hw⟩)
  obtain ⟨hlt, hplain, hpromise⟩ := henv.targets b hb
  exact ⟨hlt, hplain, hpromise⟩

/-- The parts of a statement that began at `d₀` may be generated in `env`. -/
structure Encloses (L : Nat → Prop) (d₀ : Draft) (ours : Set Nat) (env : Env) : Prop where
  this : d₀.HasThis env
  targets : ∀ b, env.IsTarget b → L b ∧ d₀.Target b ∨ b ∈ ours
  ordered : env.Ordered

namespace Encloses

theorem of_suits (h : d.Suits env) : Encloses env.IsTarget d ours env :=
  ⟨h.this, fun b hb => .inl ⟨hb, h.targets b hb⟩, h.ordered⟩

/-- Inside of a loop of the statement. -/
theorem inLoop (h : d.Suits env) {breakTo continueTo : Nat} (hb : breakTo ∈ ours)
    (hc : continueTo ∈ ours) (hours : ∀ b ∈ ours, d.nextBlock ≤ b) :
    Encloses env.IsTarget d ours (env.inLoop breakTo continueTo) := by
  refine ⟨h.this, fun b ⟨l, hl, hlb⟩ => ?_, h.ordered.cons fun b hb' => ?_⟩
  · rcases List.mem_cons.1 hl with rfl | hl
    · rcases hlb with rfl | hlb
      · exact .inr hb
      · cases hlb
        exact .inr hc
    · exact .inl ⟨⟨l, hl, hlb⟩, h.targets b ⟨l, hl, hlb⟩⟩
  · have hlt := (h.targets b hb').lt
    refine ⟨fun heq => ?_, fun heq => ?_⟩
    · exact Nat.not_le.2 hlt (heq ▸ hours _ hb)
    · cases heq
      exact Nat.not_le.2 hlt (hours _ hc)

/-- Inside of a switch. -/
theorem inSwitch (h : d.Suits env) {breakTo : Nat} (hb : breakTo ∈ ours)
    (hours : ∀ b ∈ ours, d.nextBlock ≤ b) :
    Encloses env.IsTarget d ours (env.inSwitch breakTo) := by
  refine ⟨h.this, fun b ⟨l, hl, hlb⟩ => ?_, h.ordered.cons fun b hb' => ⟨fun heq => ?_, ?_⟩⟩
  · rcases List.mem_cons.1 hl with rfl | hl
    · rcases hlb with rfl | hlb
      · exact .inr hb
      · cases hlb
    · exact .inl ⟨⟨l, hl, hlb⟩, h.targets b ⟨l, hl, hlb⟩⟩
  · exact Nat.not_le.2 (h.targets b hb').lt (heq ▸ hours _ hb)
  · exact fun heq => nomatch heq

theorem inTry (h : Encloses L d ours env) {t : Try} (ht : t.site.loops <:+ env.loops) :
    Encloses L d ours (env.inTry t) :=
  ⟨h.this, h.targets, h.ordered.apart, List.forall_mem_cons.2 ⟨ht, h.ordered.nested⟩⟩

end Encloses

/-! ## Blocks of a statement -/

namespace Asked

variable {bs : List Nat}

theorem freshBlock (h : Asked d₀ bs d) (hd₀ : d₀.Valid) :
    Leads Lower.freshBlock d fun b d' => Asked d₀ (bs ++ [b]) d' :=
  .freshBlock (h.alloc ((h.run 0 fun _ => True).valid hd₀))

theorem carries (h : Asked d₀ bs d) {v : Value} (hv : d₀.Carries v) : d.Carries v :=
  fun r hr => (h.has r).2 (hv r hr)

theorem le (h : Asked d₀ bs d) : ∀ r, d₀.Has r → d.Has r := fun r => (h.has r).2

theorem freshBlocks (h : Asked d₀ bs d) (hd₀ : d₀.Valid) (count : Nat) :
    Leads (Lower.freshBlocks count) d fun cs d' => cs.length = count ∧ Asked d₀ (bs ++ cs) d' := by
  induction count generalizing bs d with
  | zero => exact .pure ⟨rfl, by rw [List.append_nil]; exact h⟩
  | succ count ih =>
    refine (h.freshBlock hd₀).bind fun c d₁ h₁ => ?_
    refine (ih h₁).bind fun cs d₂ ⟨hlength, h₂⟩ => .pure ⟨congrArg Nat.succ hlength, ?_⟩
    rw [List.append_assoc] at h₂
    exact h₂

end Asked

namespace Progress

theorem suits (h : Progress L d₀ ours owed d) (he : Encloses L d₀ ours env)
    (hle : ∀ r, d₀.Has r → d.Has r) : d.Suits env := by
  refine ⟨he.this.mono (h.le hle), fun b hb => ?_, he.ordered⟩
  rcases he.targets b hb with ⟨_, hb⟩ | hb
  · exact h.target_of_target hb hle
  · exact h.target hb hle

theorem within (h : Progress L d₀ ours owed d) (hw : env.Within d₀.cursor.scopes.tail) :
    env.Within d.cursor.scopes :=
  .of_tail (h.outer ▸ hw)

/-- Goes to blocks of the statement, or to blocks of `L`, if the block at hand is open. -/
theorem terminate (h : Progress L d₀ ours owed d) {t : Ir.Terminator} (ht : t ≠ .open_)
    (hreads : d.IsOpen → ∀ r ∈ t.reads, d.Has r)
    (htargets : ∀ b ∈ t.targets, b ∈ ours ∨ L b ∧ d.Target b) (hle : ∀ r, d₀.Has r → d.Has r) :
    Leads (Lower.terminate t) d fun _ d' =>
      Progress L d₀ ours owed d' ∧ ¬ d'.IsOpen ∧ d'.cursor.scopes = d.cursor.scopes := by
  refine .terminate (fun ho => ⟨h.close ho ht (hreads ho) fun b hb => ?_, isOpen_close ht, rfl⟩)
    (fun ho => ⟨h, ho, rfl⟩)
  rcases htargets b hb with hb | ⟨hL, hb⟩
  · exact ⟨.inr hb, h.target hb hle⟩
  · exact ⟨.inl hL, hb⟩

theorem jump (h : Progress L d₀ ours owed d) (hb : b ∈ ours) (hle : ∀ r, d₀.Has r → d.Has r) :
    Leads (Lower.jump b) d fun _ d' =>
      Progress L d₀ ours owed d' ∧ ¬ d'.IsOpen ∧ d'.cursor.scopes = d.cursor.scopes := by
  refine h.terminate (fun h => nomatch h) (fun _ _ h => nomatch h) (fun c hc => ?_) hle
  rw [List.mem_singleton.1 hc]
  exact .inl hb

theorem branch (h : Progress L d₀ ours owed d) {c : Value} (hc : d.Carries c) {b' : Nat}
    (hb : b ∈ ours) (hb' : b' ∈ ours) (hle : ∀ r, d₀.Has r → d.Has r) :
    Leads (Lower.branch c b b') d fun _ d' =>
      Progress L d₀ ours owed d' ∧ ¬ d'.IsOpen ∧ d'.cursor.scopes = d.cursor.scopes := by
  refine h.terminate (fun h => nomatch h) (fun _ => hc) (fun x hx => ?_) hle
  rcases List.mem_cons.1 hx with rfl | hx
  · exact .inl hb
  · rw [List.mem_singleton.1 hx]
    exact .inl hb'

theorem startBlock (h : Progress L d₀ ours owed d) (ho : ¬ d.IsOpen) (hb : b ∈ owed)
    (label : String) :
    Leads (Lower.startBlock b label) d fun _ d' => Progress L d₀ ours (owed \ {b}) d' ∧
      d'.IsOpen ∧ (∀ r, d₀.Has r → d'.Has r) ∧ d'.cursor.scopes = d.cursor.scopes :=
  .startBlock ⟨h.start ho hb label, rfl, h.le_start (h.owed_ours b hb) label, rfl⟩

theorem comment (h : Progress L d₀ ours owed d) (ho : d.IsOpen) (text : String) :
    Leads (Lower.emit (.comment text)) d fun _ d' => Progress L d₀ ours owed d' ∧
      (∀ r, d.Has r → d'.Has r) ∧ d'.cursor.scopes = d.cursor.scopes := by
  have hstep : Step d.nextBlock L d (d.push (.comment text)) :=
    .push _ ho rfl rfl fun _ h => nomatch h
  refine .emit ⟨h.follows (.of_step hstep (le_push _) rfl) fun _ => .inl, ?_, rfl⟩
  exact (le_push _).1

/-- Starting the last block of a statement. -/
theorem finish (h : Progress L d₀ ours owed d) (ho : ¬ d.IsOpen) (hb : b ∈ owed)
    (hlast : ∀ c ∈ owed, c = b) (label : String) :
    Leads (Lower.startBlock b label) d fun _ d' => Follows L d₀ d' ∧ d'.IsOpen :=
  .startBlock ⟨(h.start ho hb label).done (fun c hc => hc.2 (hlast c hc.1))
    (h.le_start (h.owed_ours b hb) label), rfl⟩

/-- Code in a block of its own, of which something is known that depends on the scopes only. -/
theorem armWith (h : Progress L d₀ ours owed d) (hd₀ : d₀.Valid) (he : Encloses L d₀ ours env)
    (ho : ¬ d.IsOpen) {id exit : Nat} (hid : id ∈ owed) (hexit : exit ∈ ours) {act : Lower Unit}
    {Q : List (Table Location) → Prop} (label : String)
    (hact : ∀ d₁ : Draft, d₁.cursor.scopes = d.cursor.scopes → d₁.IsOpen → d₁.Suits env →
      Goes env.IsTarget act d₁ fun _ d' => Q d'.cursor.scopes) :
    Leads (Lower.arm id label exit act) d fun _ d' =>
      Progress L d₀ ours (owed \ {id}) d' ∧ ¬ d'.IsOpen ∧ Q d'.cursor.scopes := by
  refine (h.startBlock ho hid label).bind fun _ d₁ ⟨h₁, ho₁, hle₁, hs₁⟩ => ?_
  refine (hact d₁ hs₁ ho₁ (h₁.suits he hle₁) (h₁.valid hd₀)).bind fun _ d₂ ⟨hf₂, hq⟩ => ?_
  refine ((h₁.follows hf₂ fun b hb => ?_).jump hexit fun r hr => hf₂.le.1 r (hle₁ r hr)).mono
    fun _ d₃ ⟨h₃, ho₃, hs₃⟩ => ⟨h₃, ho₃, ?_⟩
  · exact (he.targets b hb).imp_left And.left
  · rw [hs₃]
    exact hq

/-- Code with a scope of its own in a block of its own. -/
theorem arm (h : Progress L d₀ ours owed d) (hd₀ : d₀.Valid) (he : Encloses L d₀ ours env)
    (hw : env.Within d.cursor.scopes) (ho : ¬ d.IsOpen) {id exit : Nat} (hid : id ∈ owed)
    (hexit : exit ∈ ours) {act : Lower Unit} (hact : Confines env act) (label : String) :
    Leads (Lower.arm id label exit act) d fun _ d' =>
      Progress L d₀ ours (owed \ {id}) d' ∧ ¬ d'.IsOpen ∧ d'.cursor.scopes = d.cursor.scopes := by
  refine h.armWith hd₀ he ho hid hexit label (Q := (· = d.cursor.scopes)) fun d₁ hs₁ ho₁ henv₁ => ?_
  refine (hact d₁ ho₁ henv₁ (by rw [hs₁]; exact hw)).mono fun _ d₂ _ hs₂ => ?_
  exact hs₂.trans hs₁

/-- A statement in a block of its own. -/
theorem armOpen (h : Progress L d₀ ours owed d) (hd₀ : d₀.Valid) (he : Encloses L d₀ ours env)
    (hw : env.Within d₀.cursor.scopes.tail) (ho : ¬ d.IsOpen) {id exit : Nat} (hid : id ∈ owed)
    (hexit : exit ∈ ours) {act : Lower Unit} (hact : Performs env act) (label : String) :
    Leads (Lower.arm id label exit act) d fun _ d' =>
      Progress L d₀ ours (owed \ {id}) d' ∧ ¬ d'.IsOpen := by
  refine (h.armWith hd₀ he ho hid hexit label (Q := fun _ => True) fun d₁ hs₁ ho₁ henv₁ => ?_).mono
    fun _ d' ⟨h', ho', _⟩ => ⟨h', ho'⟩
  exact hact d₁ ho₁ ⟨henv₁, by rw [hs₁, h.outer]; exact hw⟩

end Progress

/-! ## Branches -/

theorem Evaluates.condition {x : Lower Operand} (h : Evaluates env x) (henv : d.HasThis env) :
    Yields (Lower.condition x) d fun v d' => d'.Carries v :=
  (h d henv).bind fun _ _ _ ho => .truth ho

theorem performs_ifElse {test : Lower Operand} (htest : Evaluates env test)
    {consequence : Lower Unit} (hthen : Confines env consequence)
    {alternative? : Option (Lower Unit)} (helse : ∀ act, alternative? = some act → Performs env act) :
    Performs env (Lower.ifElse test consequence alternative?) := by
  intro d ho henv
  refine (htest.condition henv.this).bind_goes ho fun c d₁ hf₁ ho₁ hc => ?_
  intro hd₁
  have henv₁ := henv.follows hf₁
  have he {ours : Set Nat} : Encloses env.IsTarget d₁ ours env := .of_suits henv₁.toSuits
  refine ((Asked.refl d₁).freshBlock hd₁).bind fun thenBlock d₂ h₂ => ?_
  refine (h₂.freshBlock hd₁).bind fun merge d₃ h₃ => ?_
  cases alternative? with
  | none =>
    refine .bind (.pure (Q := fun b d' => b = merge ∧ d' = d₃) ⟨rfl, rfl⟩) ?_
    rintro _ _ ⟨rfl, rfl⟩
    have hne := h₃.nodup
    simp only [List.nil_append, List.cons_append, List.nodup_cons] at hne
    refine ((h₃.progress env.IsTarget hd₁).branch (h₃.carries hc) (by simp) (by simp) h₃.le).bind
      fun _ d₄ ⟨h₄, ho₄, _⟩ => ?_
    refine (h₄.arm hd₁ he (h₄.within henv₁.within) ho₄ (by simp) (by simp) hthen _).bind
      fun _ d₅ ⟨h₅, ho₅, _⟩ => ?_
    refine .bind (.pure (Q := fun _ d' => d' = d₅) rfl) ?_
    rintro _ _ rfl
    exact (h₅.finish ho₅ (by grind) (by grind) _).mono fun _ _ h => ⟨h.1, trivial⟩
  | some act =>
    refine (h₃.freshBlock hd₁).bind fun elseBlock d₄ h₄ => ?_
    have hne := h₄.nodup
    simp only [List.nil_append, List.cons_append, List.nodup_cons] at hne
    refine ((h₄.progress env.IsTarget hd₁).branch (h₄.carries hc) (by simp) (by simp) h₄.le).bind
      fun _ d₅ ⟨h₅, ho₅, _⟩ => ?_
    refine (h₅.arm hd₁ he (h₅.within henv₁.within) ho₅ (by simp) (by simp) hthen _).bind
      fun _ d₆ ⟨h₆, ho₆, _⟩ => ?_
    refine (h₆.armOpen hd₁ he henv₁.within ho₆ (by grind) (by simp) (helse act rfl) _).bind
      fun _ d₇ ⟨h₇, ho₇⟩ => ?_
    exact (h₇.finish ho₇ (by grind) (by grind) _).mono fun _ _ h => ⟨h.1, trivial⟩

/-! ## Operators that decide -/

theorem precedes_close {t : Ir.Terminator} (ho : d.IsOpen) {p x : Nat} :
    (d.close t).Precedes p x ↔ d.Precedes p x ∨ p = d.cursor.current.id ∧ x ∈ t.targets := by
  constructor
  · rintro ⟨b, hb, rfl, hx⟩
    rcases List.mem_append.1 hb with hb | hb
    · exact .inl ⟨b, mem_blocks.2 (.inl hb), rfl, hx⟩
    · rw [List.mem_singleton.1 hb] at hx ⊢
      exact .inr ⟨rfl, hx⟩
  · rintro (⟨b, hb, rfl, hx⟩ | ⟨rfl, hx⟩)
    · rcases mem_blocks.1 hb with hb | rfl
      · exact ⟨b, List.mem_append_left _ hb, rfl, hx⟩
      · have hopen : d.cursor.current.terminator = .open_ := by
          simpa [IsOpen, Ir.Block.isTerminated] using ho
        rw [hopen] at hx
        cases hx
    · exact ⟨_, List.mem_append_right _ (List.mem_singleton_self _), rfl, hx⟩

theorem precedes_start {id : Nat} {label : String} {p x : Nat} :
    (d.start id label).Precedes p x ↔ d.Precedes p x := by
  constructor
  · rintro ⟨b, hb, rfl, hx⟩
    rcases List.mem_append.1 hb with hb | hb
    · exact ⟨b, hb, rfl, hx⟩
    · rw [List.mem_singleton.1 hb] at hx
      cases hx
  · rintro ⟨b, hb, rfl, hx⟩
    exact ⟨b, List.mem_append_left _ hb, rfl, hx⟩

/-- Nothing leads to a block that has not been asked for. -/
theorem not_precedes (hd : d.Valid) {p x : Nat} (hx : d.nextBlock ≤ x) : ¬ d.Precedes p x := by
  rintro ⟨b, hb, _, hmem⟩
  exact Nat.not_le.2 (hd.linked.targets b hb x hmem) hx

/-- Goes to a block or past it, and starts the first of them. -/
theorem Progress.branchAndStart (h : Progress L d₀ ours owed d) (ho : d.IsOpen)
    (hle : ∀ r, d₀.Has r → d.Has r) {c : Value} (hc : d.Carries c) {rest merge : Nat}
    (hrest : rest ∈ owed) (hmerge : merge ∈ ours) (hnew : ∀ p, ¬ d.Precedes p merge)
    (isAnd : Bool) (label : String) :
    Leads (do
      Lower.branch c (if isAnd then rest else merge) (if isAnd then merge else rest)
      Lower.startBlock rest label) d fun _ d' =>
        Progress L d₀ ours (owed \ {rest}) d' ∧ d'.IsOpen ∧ (∀ r, d₀.Has r → d'.Has r) ∧
          d'.cursor.current.id = rest ∧ ∀ p, d'.Precedes p merge ↔ p = d.cursor.current.id := by
  have hmem : ∀ b, b ∈ [if isAnd then rest else merge, if isAnd then merge else rest] ↔
      b = rest ∨ b = merge := by
    intro b
    cases isAnd with
    | true => simp
    | false => simp [or_comm]
  refine .bind (.terminate (Q := fun _ d' => d' = d.close _) (fun _ => rfl) fun hn => absurd ho hn) ?_
  rintro _ _ rfl
  have h₁ := h.close ho (t := .branch c _ _) (fun h => nomatch h) hc fun b hb => by
    have hb' : b ∈ ours := by
      rcases (hmem b).1 hb with rfl | rfl
      · exact h.owed_ours _ hrest
      · exact hmerge
    exact ⟨.inr hb', h.target hb' hle⟩
  have hended := isOpen_close (d := d) (t := .branch c (if isAnd then rest else merge)
    (if isAnd then merge else rest)) fun h => nomatch h
  refine .startBlock ⟨h₁.start hended hrest label, rfl,
    h₁.le_start (h.owed_ours _ hrest) label, rfl, fun p => ?_⟩
  rw [precedes_start, precedes_close ho, or_iff_right (hnew p)]
  exact and_iff_left ((hmem merge).2 (.inr rfl))

/-- The blocks of an operator that decides meet: one of them brings a constant, the other the value of
the right side. -/
theorem Progress.joinWithPhi (h : Progress L d₀ ours owed d) (hd₀ : d₀.Valid) (ho : d.IsOpen)
    (hle : ∀ r, d₀.Has r → d.Has r) {merge leftEnd : Nat} (hm : merge ∈ owed)
    (hlast : ∀ c ∈ owed, c = merge) (hne : leftEnd ≠ d.cursor.current.id)
    (hleft : ∀ p, d.Precedes p merge ↔ p = leftEnd) {decided : Bool} {v : Value}
    (hv : d.Carries v) (label : String) :
    Leads (do
      Lower.jump merge
      Lower.startBlock merge label
      return (⟨← Lower.phi .i1 [(.bool decided, leftEnd), (v, d.cursor.current.id)], .bool⟩ :
        Operand)) d fun o d' => Follows L d₀ d' ∧ d'.IsOpen ∧ d'.Carries o.value := by
  refine .bind (.terminate (Q := fun _ d' => d' = d.close _) (fun _ => rfl) fun hn => absurd ho hn) ?_
  rintro _ _ rfl
  refine .bind (.startBlock (Q := fun _ d' => d' = (d.close (.jump merge)).start merge label) rfl) ?_
  rintro _ _ rfl
  have hmerge := h.owed_ours merge hm
  have h₁ := h.close ho (t := .jump merge) (fun h => nomatch h) (fun _ h => nomatch h) fun b hb => by
    rw [List.mem_singleton.1 hb]
    exact ⟨.inr hmerge, h.target hmerge hle⟩
  have hended : ¬ (d.close (.jump merge)).IsOpen := isOpen_close fun h => nomatch h
  have h₂ := h₁.start hended hm label
  have hsources : ∀ p, p ∈ [leftEnd, d.cursor.current.id] ↔
      ((d.close (.jump merge)).start merge label).Precedes p merge := by
    intro p
    rw [precedes_start, precedes_close ho, hleft p]
    simp [Ir.Terminator.targets]
  have hvalues : ∀ b ∈ ((d.close (.jump merge)).start merge label).blocks,
      b.id = d.cursor.current.id → ∀ r ∈ v.reads,
        ((d.close (.jump merge)).start merge label).HasAt b r := by
    intro b hb hid r hr
    have hb' := (h₂.valid hd₀).linked.eq_of_id_eq hb
      (List.mem_append_left _ (current_mem (d.close (.jump merge)))) hid
    rw [hb']
    exact hv r hr
  have hstep : Step d₀.nextBlock L ((d.close (.jump merge)).start merge label)
      (((d.close (.jump merge)).start merge label).assign
        (.phi ⟨d.nextRegister, .i1⟩ [(.bool decided, leftEnd), (v, d.cursor.current.id)])) := by
    refine .merge .i1 _ rfl (h.ours_le merge hmerge) (by simpa using hne) hsources fun e he => ?_
    rcases List.mem_cons.1 he with rfl | he
    · exact fun _ _ _ _ hr => nomatch hr
    · rw [List.mem_singleton.1 he]
      exact hvalues
  refine .bind (.phi (Q := fun w d' => w = .reg ⟨d.nextRegister, .i1⟩ ∧ d' = _) ⟨rfl, rfl⟩) ?_
  rintro _ _ ⟨rfl, rfl⟩
  have hfol := h₂.done (fun c hc => hc.2 (hlast c hc.1)) (h₁.le_start hmerge label)
  refine .pure ⟨⟨h₂.run.tail hstep, le_trans hfol.le (le_assign _), fun b hb hb' =>
    hstep.mem_ids (hfol.started b hb hb')⟩, rfl, ?_⟩
  exact carries_reg (has_assign rfl)

theorem evaluates_logical {left right : Lower Operand} (hleft : Evaluates env left)
    (hright : Evaluates env right) (isAnd : Bool) :
    Evaluates env (Lower.logical isAnd left right) := by
  intro d henv
  refine (hleft.condition henv).bind fun l d₁ hle₁ hl hd₁ ho₁ L => ?_
  refine .bind_currentBlock ?_
  refine ((Asked.refl _).freshBlock hd₁).bind fun rest d₂ h₂ => ?_
  refine (h₂.freshBlock hd₁).bind fun merge d₃ h₃ => ?_
  have hne : rest ≠ merge := by simpa using h₃.nodup
  have hrest : d₁.nextBlock ≤ rest := (h₃.mem_iff.1 (by simp)).1
  have hmerge : d₁.nextBlock ≤ merge := (h₃.mem_iff.1 (by simp)).1
  have hlt : d₁.cursor.current.id < d₁.nextBlock := hd₁.linked.bound _ d₁.current_id_mem
  have hcurrent : d₃.cursor.current.id = d₁.cursor.current.id := by rw [h₃.current_eq]
  have hnew : ∀ p, ¬ d₃.Precedes p merge := fun p hp => by
    rw [Precedes, h₃.blocks_eq] at hp
    exact not_precedes hd₁ hmerge hp
  refine .of_bind_bind (((h₃.progress L hd₁).branchAndStart (h₃.isOpen_iff.2 ho₁) h₃.le
    (h₃.carries hl) (by simp) (by simp) hnew isAnd _).bind ?_)
  rintro _ d₄ ⟨h₄, ho₄, hle₄, hid₄, hp₄⟩
  -- the right side goes nowhere but to blocks of its own, so nothing more leads to the last block
  have hthis : d₄.HasThis env := henv.mono (le_trans hle₁ (h₄.le hle₄))
  refine (hright.condition hthis (h₄.valid hd₁) ho₄ fun _ => False).bind ?_
  rintro r d₅ ⟨hf₅, ho₅, hr⟩
  refine .bind_currentBlock ?_
  have hmergeLt := h₄.ours_lt merge (by simp)
  have hp₅ : ∀ p, d₅.Precedes p merge ↔ p = d₁.cursor.current.id := fun p => by
    rw [← hcurrent, ← hp₄ p]
    exact ⟨hf₅.run.precedes_of_lt hmergeLt id, hf₅.run.precedes⟩
  have hrestLt := h₄.ours_lt rest (by simp)
  refine (h₄.follows hf₅ fun _ h => h.elim).joinWithPhi hd₁ ho₅
    (fun x hx => hf₅.le.1 x (hle₄ x hx)) (by simp [hne.symm]) (by simp) ?_ hp₅ hr _
  rcases hf₅.run.current with hid | hid
  · omega
  · omega

/-! ## Loops -/

theorem performs_whileLoop {test : Lower Operand} (htest : Evaluates env test)
    {body : Env → Lower Unit} (hbody : ∀ inner, Confines inner (body inner)) :
    Performs env (Lower.whileLoop env test body) := by
  intro d ho henv hd
  have he {ours : Set Nat} : Encloses env.IsTarget d ours env := .of_suits henv.toSuits
  refine ((Asked.refl d).freshBlock hd).bind fun header d₁ h₁ => ?_
  refine (h₁.freshBlock hd).bind fun bodyBlock d₂ h₂ => ?_
  refine (h₂.freshBlock hd).bind fun exit d₃ h₃ => ?_
  have hne := h₃.nodup
  simp only [List.nil_append, List.cons_append, List.nodup_cons] at hne
  refine ((h₃.progress env.IsTarget hd).jump (b := header) (by simp) h₃.le).bind
    fun _ d₄ ⟨h₄, ho₄, _⟩ => ?_
  refine (h₄.startBlock ho₄ (by simp) _).bind fun _ d₅ ⟨h₅, ho₅, hle₅, _⟩ => ?_
  refine (htest.condition (h₅.suits he hle₅).this (h₅.valid hd) ho₅ env.IsTarget).bind
    fun c d₆ ⟨hf₆, ho₆, hc⟩ => ?_
  refine ((h₅.follows hf₆ fun _ => .inl).branch hc (by simp) (by simp)
    fun r hr => hf₆.le.1 r (hle₅ r hr)).bind fun _ d₇ ⟨h₇, ho₇, _⟩ => ?_
  refine (h₇.arm hd (.inLoop henv.toSuits (by simp) (by simp) h₇.ours_le) (h₇.within henv.within) ho₇
    (by grind) (by simp) (hbody _) _).bind fun _ d₈ ⟨h₈, ho₈, _⟩ => ?_
  exact (h₈.finish ho₈ (by grind) (by grind) _).mono fun _ _ h => ⟨h.1, trivial⟩

theorem performs_perhaps {act? : Option (Lower Unit)} (h : ∀ act, act? = some act → Performs env act) :
    Performs env (Lower.perhaps act?) := by
  cases act? with
  | none => exact fun d _ _ => .pure trivial
  | some act => exact h act rfl

theorem Progress.loopTest (h : Progress L d₀ ours owed d) (hd₀ : d₀.Valid) (ho : d.IsOpen)
    (hle : ∀ r, d₀.Has r → d.Has r) (henv : d.HasThis env) {body exit : Nat} (hbody : body ∈ ours)
    (hexit : exit ∈ ours) {test? : Option (Lower Operand)}
    (htest : ∀ test, test? = some test → Evaluates env test) :
    Leads (Lower.loopTest body exit test?) d fun _ d' =>
      Progress L d₀ ours owed d' ∧ ¬ d'.IsOpen := by
  cases test? with
  | none => exact (h.jump hbody hle).mono fun _ _ ⟨h', ho', _⟩ => ⟨h', ho'⟩
  | some test =>
    refine ((htest test rfl).condition henv (h.valid hd₀) ho L).bind fun c d₁ ⟨hf₁, _, hc⟩ => ?_
    exact ((h.follows hf₁ fun _ => .inl).branch hc hbody hexit fun r hr => hf₁.le.1 r (hle r hr)).mono
      fun _ _ ⟨h', ho', _⟩ => ⟨h', ho'⟩

theorem confines_forLoop {init? post? : Option (Lower Unit)} {test? : Option (Lower Operand)}
    (hinit : ∀ act, init? = some act → Performs env act)
    (htest : ∀ test, test? = some test → Evaluates env test)
    (hpost : ∀ act, post? = some act → Performs env act)
    {body : Env → Lower Unit} (hbody : ∀ inner, Confines inner (body inner)) :
    Confines env (Lower.forLoop env init? test? post? body) := by
  refine confines_inScope fun d ho henv => ?_
  refine (performs_perhaps hinit d ho henv).bind fun _ d₂ hf₂ _ => ?_
  have henv₂ : d₂.Fits env := henv.follows hf₂
  have he {ours : Set Nat} : Encloses env.IsTarget d₂ ours env := .of_suits henv₂.toSuits
  intro hd₂
  refine ((Asked.refl d₂).freshBlock hd₂).bind fun test d₃ h₃ => ?_
  refine (h₃.freshBlock hd₂).bind fun bodyBlock d₄ h₄ => ?_
  refine (h₄.freshBlock hd₂).bind fun post d₅ h₅ => ?_
  refine (h₅.freshBlock hd₂).bind fun exit d₆ h₆ => ?_
  have hne := h₆.nodup
  simp only [List.nil_append, List.cons_append, List.nodup_cons] at hne
  refine ((h₆.progress env.IsTarget hd₂).jump (b := test) (by simp) h₆.le).bind
    fun _ d₇ ⟨h₇, ho₇, _⟩ => ?_
  refine (h₇.startBlock ho₇ (by simp) _).bind fun _ d₈ ⟨h₈, ho₈, hle₈, _⟩ => ?_
  refine (h₈.loopTest hd₂ ho₈ hle₈ (h₈.suits he hle₈).this (by simp) (by simp) htest).bind
    fun _ d₉ ⟨h₉, ho₉⟩ => ?_
  refine (h₉.arm hd₂ (.inLoop henv₂.toSuits (by simp) (by simp) h₉.ours_le) (h₉.within henv₂.within)
    ho₉ (by grind) (by simp) (hbody _) _).bind fun _ d₁₀ ⟨h₁₀, ho₁₀, _⟩ => ?_
  refine (h₁₀.armOpen hd₂ he henv₂.within ho₁₀ (by grind) (by simp) (performs_perhaps hpost) _).bind
    fun _ d₁₁ ⟨h₁₁, ho₁₁⟩ => ?_
  exact (h₁₁.finish ho₁₁ (by grind) (by grind) _).mono fun _ _ h => ⟨h.1, trivial⟩

/-! ## Switches -/

/-- The code of the tests of a switch, which may go to one of `blocks`. -/
def Tests (env : Env) (x : Option Operand → List Nat → Lower Unit) : Prop :=
  ∀ (d : Draft) (tag? : Option Operand) (blocks : List Nat), d.IsOpen → d.HasThis env →
    (∀ o, tag? = some o → d.Carries o.value) → (∀ b ∈ blocks, d.Target b) →
    Goes (· ∈ blocks) (x tag? blocks) d fun _ d' => d'.IsOpen

/-- The code of several arms, which start the blocks that they are given. -/
def Arms (count : Nat) (x : Env → Nat → List Nat → Lower Unit) : Prop :=
  ∀ (L : Nat → Prop) (d₀ d : Draft) (ours owed : Set Nat) (env : Env) (exit : Nat)
    (blocks : List Nat), d₀.Valid → Progress L d₀ ours owed d → Encloses L d₀ ours env →
    env.Within d.cursor.scopes → ¬ d.IsOpen → exit ∈ ours → blocks.length = count →
    blocks.Nodup → (∀ b ∈ blocks, b ∈ owed) →
    Leads (x env exit blocks) d fun _ d' => Progress L d₀ ours (owed \ { b | b ∈ blocks }) d' ∧
      ¬ d'.IsOpen ∧ d'.cursor.scopes = d.cursor.scopes

/-- No arms. -/
theorem Arms.nil {x : Env → Nat → List Nat → Lower Unit}
    (hx : ∀ env exit, x env exit [] = pure ()) : Arms 0 x := by
  intro L d₀ d ours owed env exit blocks _ h _ _ ho _ hlength _ _
  have howed : owed \ { b | b ∈ ([] : List Nat) } = owed := by
    ext b
    simp
  rw [List.length_eq_zero_iff.1 hlength, hx, howed]
  exact .pure ⟨h, ho, rfl⟩

/-- One arm before others. -/
theorem Arms.cons {count : Nat} {x y : Env → Nat → List Nat → Lower Unit} (hx : Arms count x)
    {act : Env → Lower Unit} (hact : ∀ env, Confines env (act env)) {label : String}
    (hy : ∀ env exit b blocks, y env exit (b :: blocks) = do
      Lower.arm b label exit (act env)
      x env exit blocks) : Arms (count + 1) y := by
  intro L d₀ d ours owed env exit blocks hd₀ h he hw ho hexit hlength hnodup howed
  cases blocks with
  | nil => cases hlength
  | cons b blocks =>
    obtain ⟨hb, hblocks⟩ := List.nodup_cons.1 hnodup
    rw [hy]
    refine (h.arm hd₀ he hw ho (howed b List.mem_cons_self) hexit (hact env) label).bind
      fun _ d₁ ⟨h₁, ho₁, hs₁⟩ => ?_
    refine (hx L d₀ d₁ _ _ env exit blocks hd₀ h₁ he (by rw [hs₁]; exact hw) ho₁ hexit
      (Nat.succ.inj hlength) hblocks fun c hc => ⟨howed c (List.mem_cons_of_mem _ hc), ?_⟩).mono
        fun _ d₂ ⟨h₂, ho₂, hs₂⟩ => ⟨?_, ho₂, hs₂.trans hs₁⟩
    · rintro rfl
      exact hb hc
    · have howed : owed \ { c | c ∈ b :: blocks } = (owed \ {b}) \ { c | c ∈ blocks } := by
        ext c
        simp [not_or, and_assoc]
      rw [howed]
      exact h₂

theorem goes_caseTest {tag? : Option Operand} {target : Nat} {value : Lower Operand}
    (hvalue : Evaluates env value) (ho : d.IsOpen) (henv : d.HasThis env)
    (htag : ∀ o, tag? = some o → d.Carries o.value) (hL : L target) (ht : d.Target target) :
    Goes L (Lower.caseTest tag? target value) d fun _ d' => d'.IsOpen := by
  have hrest : ∀ c d', Follows L d d' → d'.IsOpen → d'.Carries c → Goes L (do
      let next ← Lower.freshBlock
      Lower.branch c target next
      Lower.startBlock next "switch.test") d' fun _ d'' => d''.IsOpen := by
    intro c d₁ hf₁ ho₁ hc hd₁
    refine ((Asked.refl d₁).freshBlock hd₁).bind fun next d₂ h₂ => ?_
    have ht₂ : d₂.Target target := (h₂.progress L hd₁).target_of_target (ht.follows hf₁) h₂.le
    refine ((h₂.progress L hd₁).terminate (t := .branch c target next) (fun h => nomatch h)
      (fun _ => h₂.carries hc) (fun b hb => ?_) h₂.le).bind fun _ d₃ ⟨h₃, ho₃, _⟩ => ?_
    · rcases List.mem_cons.1 hb with rfl | hb
      · exact .inr ⟨hL, ht₂⟩
      · exact .inl hb
    · exact h₃.finish ho₃ (by simp) (by simp) _
  refine (hvalue d henv).bind_goes ho fun o d₁ hf₁ ho₁ hv => ?_
  split
  next tag =>
    refine (Yields.comparison ((htag tag rfl).mono hf₁.le) hv _).bind_goes ho₁
      fun c d₂ hf₂ ho₂ hc => ?_
    exact hrest c d₂ (hf₁.trans hf₂) ho₂ hc
  · refine (Yields.truth hv).bind_goes ho₁ fun c d₂ hf₂ ho₂ hc => ?_
    exact hrest c d₂ (hf₁.trans hf₂) ho₂ hc

theorem performs_switch {tag? : Lower (Option Operand)}
    (htag : ∀ d : Draft, d.HasThis env →
      Yields tag? d fun o? d' => ∀ o, o? = some o → d'.Carries o.value)
    {count : Nat} {tests : Option Operand → List Nat → Lower Unit} (htests : Tests env tests)
    {bodies : Env → Nat → List Nat → Lower Unit} (hbodies : Arms count bodies)
    {default? : Option (Env → Lower Unit)}
    (hdefault : ∀ body, default? = some body → ∀ inner, Confines inner (body inner)) :
    Performs env (Lower.switch env tag? count tests bodies default?) := by
  intro d ho henv
  refine (htag d henv.this).bind_goes ho fun tag? d₁ hf₁ ho₁ htag₁ => ?_
  intro hd₁
  have henv₁ := henv.follows hf₁
  have he {ours : Set Nat} : Encloses env.IsTarget d₁ ours env := .of_suits henv₁.toSuits
  refine ((Asked.refl d₁).freshBlock hd₁).bind fun exit d₂ h₂ => ?_
  refine (h₂.freshBlocks hd₁ count).bind fun blocks d₃ ⟨hcount, h₃⟩ => ?_
  -- the tests and the bodies, once the block of the other case is known
  have hcases : ∀ (bs : List Nat) (other : Nat) (rest : Lower Unit) (d₄ : Draft), Asked d₁ bs d₄ →
      other ∈ bs → exit ∈ bs → (∀ b ∈ blocks, b ∈ bs) →
      (∀ d', Progress env.IsTarget d₁ { b | b ∈ bs } ({ b | b ∈ bs } \ { b | b ∈ blocks }) d' →
        ¬ d'.IsOpen → Leads rest d' fun _ d'' => Follows env.IsTarget d₁ d'' ∧ d''.IsOpen) →
      Leads (do
        tests tag? blocks
        Lower.jump other
        bodies (env.inSwitch exit) exit blocks
        rest) d₄ fun _ d' => Follows env.IsTarget d₁ d' ∧ d'.IsOpen := by
    intro bs other rest d₄ h₄ hother hexit hblocks hrest
    have hp := h₄.progress env.IsTarget hd₁
    refine (htests d₄ tag? blocks (h₄.isOpen_iff.2 ho₁) (hp.suits he h₄.le).this
      (fun o ho => h₄.carries (htag₁ o ho)) (fun b hb => hp.target (hblocks b hb) h₄.le)
      (hp.valid hd₁)).bind fun _ d₅ ⟨hf₅, ho₅⟩ => ?_
    refine ((hp.follows hf₅ fun b hb => .inr (hblocks b hb)).jump hother
      fun r hr => hf₅.le.1 r (h₄.le r hr)).bind fun _ d₆ ⟨h₆, ho₆, _⟩ => ?_
    have hnodup : blocks.Nodup := (List.nodup_append.1 h₃.nodup).2.1
    exact (hbodies _ d₁ d₆ _ _ _ exit blocks hd₁ h₆ (.inSwitch henv₁.toSuits hexit h₆.ours_le)
      (h₆.within henv₁.within) ho₆ hexit hcount hnodup hblocks).bind
        fun _ d₇ ⟨h₇, ho₇, _⟩ => hrest d₇ h₇ ho₇
  have hexit : exit ∉ blocks := fun hmem =>
    (List.nodup_append.1 h₃.nodup).2.2 exit (by simp) exit hmem rfl
  cases default? with
  | none =>
    refine .bind (.pure (Q := fun b d' => b = exit ∧ d' = d₃) ⟨rfl, rfl⟩) ?_
    rintro _ _ ⟨rfl, rfl⟩
    refine (hcases _ _ _ _ h₃ (by simp) (by simp) (by grind) fun d₄ h₄ ho₄ => ?_).mono
      fun _ _ h => ⟨h.1, trivial⟩
    refine .bind (.pure (Q := fun _ d' => d' = d₄) rfl) ?_
    rintro _ _ rfl
    exact h₄.finish ho₄ (by grind) (by grind) _
  | some body =>
    refine (h₃.freshBlock hd₁).bind fun other d₄ h₄ => ?_
    have hne := h₄.nodup
    refine (hcases _ _ _ _ h₄ (by simp) (by simp) (by grind) fun d₅ h₅ ho₅ => ?_).mono
      fun _ _ h => ⟨h.1, trivial⟩
    refine (h₅.arm hd₁ (.inSwitch henv₁.toSuits (by simp) h₅.ours_le) (h₅.within henv₁.within) ho₅
      (by grind) (by simp) (hdefault body rfl _) _).bind fun _ d₆ ⟨h₆, ho₆, _⟩ => ?_
    exact h₆.finish ho₆ (by grind) (by grind) _

/-! ## Leaving -/

/-- The ways to code elsewhere lead to code of expressions and of statements. -/
structure SoundDetour (detour : Lower.Detour) : Prop where
  expr : ∀ env e, Evaluates env (detour.expr env e)
  block : ∀ env b, Confines env (detour.block env b)

variable {detour : Lower.Detour}

/-- Code after the record of a copy. -/
theorem Goes.bind_recordCopy {α : Type} {S : α → Draft → Prop} {t : Try} {inlined : Bool}
    (hk : d.Valid → (⟨t, ⟨d.cursor.scopes, env.loops⟩, inlined⟩ : Copy).Nested) {rest : Lower α}
    (hrest : Goes L rest d S) : Goes L (do
      Gen.recordCopy ⟨t, ← Lower.site env, inlined⟩
      rest) d S :=
  fun hd _ hg => hrest hd _ (hg.recordCopy (hk hd))

/-- Code after the record of a statement. -/
theorem Goes.bind_visit {α : Type} {S : α → Draft → Prop} {s : Stmt} {rest : Lower α}
    (hrest : Goes L rest d S) : Goes L (do
      Lower.visit env s
      rest) d S :=
  .bind_lift (Gen.keeps_recordVisit _) fun _ => hrest

theorem performs_runFinally (hdetour : SoundDetour detour) (count : Nat) (tries : List Try)
    (htries : ∀ t ∈ tries, t ∈ env.tries) :
    Performs env (Lower.runFinally detour env count tries) := by
  induction tries generalizing count with
  | nil =>
    cases count with
    | zero | succ => exact fun d _ _ => .pure trivial
  | cons t outer ih =>
    have ht := htries t List.mem_cons_self
    have houter : ∀ t ∈ outer, t ∈ env.tries := fun t' ht' => htries t' (List.mem_cons_of_mem _ ht')
    cases count with
    | zero => exact fun d _ _ => .pure trivial
    | succ count =>
      intro d ho henv
      rw [Lower.runFinally]
      split
      · exact ih count houter d ho henv
      next body _ =>
        refine .bind_recordCopy (fun hd => ?_) ?_
        · exact ⟨henv.within.of_tail t ht, henv.ordered.nested t ht, fun h => (nomatch h),
            hd.supplied.apart, henv.ordered.apart⟩
        have hordered : ({ env with tries := outer } : Env).Ordered :=
          ⟨henv.ordered.apart, fun t' ht' => henv.ordered.nested t' (houter t' ht')⟩
        refine (hdetour.block { env with tries := outer } body d ho
          ⟨henv.this, henv.targets, hordered⟩ fun t' ht' =>
            henv.within.of_tail t' (houter t' ht')).bind fun _ d₁ hf₁ _ => ?_
        refine .bind_isTerminated ?_
        split
        next hopen => exact ih count houter d₁ (by simpa [IsOpen] using hopen) (henv.follows hf₁)
        · exact .pure trivial

theorem performs_leaveTries (hdetour : SoundDetour detour) (depth : Nat) :
    Performs env (Lower.leaveTries detour env depth) :=
  performs_runFinally hdetour _ _ fun _ ht => ht

theorem yields_returnValue {value? : Option Operand}
    (hv : ∀ o, value? = some o → d.Carries o.value) :
    Yields (Lower.returnValue env value?) d fun v? d' => ∀ v, v? = some v → d'.Carries v := by
  unfold Lower.returnValue
  split
  · refine .pure fun v hv => ?_
    cases hv
    exact carries_of_reads_eq_nil rfl
  · split
    · exact .pure fun v hv => nomatch hv
    · split
      next o =>
        refine (Yields.convert (hv o rfl) _).bind fun v d₁ _ hv => .pure fun w hw => ?_
        cases hw
        exact hv
      · refine .pure fun v hv => ?_
        cases hv
        exact carries_zero _

theorem goes_leaveFunction (hdetour : SoundDetour detour) (ho : d.IsOpen) (henv : d.Fits env)
    {value? : Option Operand} (hv : ∀ o, value? = some o → d.Carries o.value) :
    Goes env.IsTarget (Lower.leaveFunction detour env value?) d fun _ _ => True := by
  refine (yields_returnValue hv).bind_goes ho fun result d₁ hf₁ ho₁ hresult => ?_
  refine (performs_leaveTries hdetour 0 d₁ ho₁ (henv.follows hf₁)).bind fun _ d₂ hf₂ _ => ?_
  refine (Goes.terminate (t := .ret result) (fun h => nomatch h) (fun _ r hr => ?_)
    (fun _ h => nomatch h)).mono fun _ _ _ _ => trivial
  cases result with
  | none => cases hr
  | some v => exact hf₂.le.1 r (hresult v rfl r hr)

theorem performs_leaveLoop (hdetour : SoundDetour detour) (span : Span) :
    Performs env (Lower.leaveLoop detour env span) := by
  intro d ho henv
  unfold Lower.leaveLoop
  split
  · exact .lift (Gen.keeps_report _ _ (by simp)) fun _ => trivial
  next l rest hloops =>
    have htarget : env.IsTarget l.breakTo := ⟨l, hloops ▸ List.mem_cons_self, .inl rfl⟩
    refine (performs_leaveTries hdetour _ d ho henv).bind fun _ d₁ hf₁ _ => ?_
    exact (Goes.jump htarget ((henv.targets _ htarget).follows hf₁)).mono fun _ _ _ _ => trivial

theorem isTarget_of_continueTarget? {block depth : Nat}
    (h : env.continueTarget? = some (block, depth)) : env.IsTarget block := by
  obtain ⟨l, hl, hc⟩ := List.exists_of_findSome?_eq_some h
  obtain ⟨c, hto, hpair⟩ := Option.map_eq_some_iff.1 hc
  cases hpair
  exact ⟨l, hl, .inr hto⟩

theorem performs_continueLoop (hdetour : SoundDetour detour) (span : Span) :
    Performs env (Lower.continueLoop detour env span) := by
  intro d ho henv
  unfold Lower.continueLoop
  split
  · exact .lift (Gen.keeps_report _ _ (by simp)) fun _ => trivial
  next block depth hcontinue =>
    have htarget := isTarget_of_continueTarget? hcontinue
    refine (performs_leaveTries hdetour _ d ho henv).bind fun _ d₁ hf₁ _ => ?_
    exact (Goes.jump htarget ((henv.targets _ htarget).follows hf₁)).mono fun _ _ _ _ => trivial

/-! ## Exceptions -/

theorem yields_bindCaught (param? : Option Ident) (type? : Option TypeExpr) :
    Yields (Lower.bindCaught env param? type?) d fun _ _ => True := by
  unfold Lower.bindCaught
  split
  · exact .pure trivial
  · refine .bind_lift (Gen.keeps_resolveOptional (Gen.sound_typing _ _) _ _) fun _ => ?_
    exact (Yields.bindValue (carries_zero _) _ _ _).bind fun _ _ _ _ => .pure trivial

theorem confines_clause {body : Lower Unit} (hbody : Confines env body) (param? : Option Ident)
    (type? : Option TypeExpr) : Confines env (Lower.clause env param? type? body) := by
  refine confines_inScope fun d ho henv => ?_
  refine (yields_bindCaught param? type?).bind_goes ho fun _ d₁ hf₁ ho₁ _ => ?_
  exact hbody.performs d₁ ho₁ (henv.follows hf₁)

theorem yields_usePersonality : Yields Lower.usePersonality d fun _ _ => True := by
  refine .bind_lift (Gen.keeps_declare _ _ _ _) fun _ _ ho _ g hg => ?_
  exact ⟨(), d.withPersonality _, g, rfl, hg, .of_step (.personality _) (le_refl d) rfl, ho, trivial⟩

/-- The end of a try statement: a block that is never reached, and the block after the statement. -/
theorem Progress.resumeAndFinish (h : Progress L d₀ ours owed d) (ho : ¬ d.IsOpen)
    {resume done : Nat} (hresume : resume ∈ owed) (hdone : done ∈ owed) (hne : resume ≠ done)
    (hlast : ∀ c ∈ owed, c = resume ∨ c = done) :
    Leads (do
      Lower.startBlock resume "try.resume"
      Lower.terminate .unreachable
      Lower.startBlock done "try.end") d fun _ d' => Follows L d₀ d' ∧ d'.IsOpen := by
  refine (h.startBlock ho hresume _).bind fun _ d₁ ⟨h₁, _, hle₁, _⟩ => ?_
  refine (h₁.terminate (t := .unreachable) (fun h => nomatch h) (fun _ _ h => nomatch h)
    (fun _ h => nomatch h) hle₁).bind fun _ d₂ ⟨h₂, ho₂, _⟩ => ?_
  exact h₂.finish ho₂ (by grind) (by grind) _

/-- Of the blocks of a try statement, those that come after the clauses are still to be started when
the others have been. -/
private theorem owed_after_clauses {bodyBlock landing : Nat} {handlers more : List Nat}
    (h : ([] ++ [bodyBlock] ++ [landing] ++ handlers ++ more).Nodup) :
    let ours := { b | b ∈ [] ++ [bodyBlock] ++ [landing] ++ handlers ++ more }
    landing ∈ ours \ {bodyBlock} ∧ (∀ b ∈ handlers, b ∈ (ours \ {bodyBlock}) \ {landing}) ∧
      ((ours \ {bodyBlock}) \ {landing}) \ { b | b ∈ handlers } = { b | b ∈ more } := by
  simp only [List.nil_append, List.cons_append, List.nodup_cons, List.nodup_append, List.mem_cons,
    List.mem_append, not_or] at h
  refine ⟨by grind, by grind, Set.ext fun b => ?_⟩
  simp only [List.nil_append, List.cons_append, Set.mem_sdiff, Set.mem_ofPred_eq,
    Set.mem_singleton_iff, List.mem_cons, List.mem_append]
  grind

/-- The final block after a try statement has the same scopes and loops around it as the
statement. -/
theorem goes_fallThrough {act : Lower Unit} (hact : Confines env act) {t : Try} (ho : d.IsOpen)
    (henv : d.Suits env) (hw : env.Within d.cursor.scopes)
    (ht : t.site = ⟨d.cursor.scopes, env.loops⟩) :
    Goes env.IsTarget (Lower.fallThrough env t act) d fun _ _ => True := by
  refine .bind_recordCopy (fun hd => ?_) ((hact d ho henv hw).mono fun _ _ _ _ => trivial)
  have hsuffix : t.site.scopes <:+ d.cursor.scopes ∧ t.site.loops <:+ env.loops := by
    rw [ht]
    exact ⟨List.suffix_refl _, List.suffix_refl _⟩
  exact ⟨hsuffix.1, hsuffix.2, fun _ => ht.symm, hd.supplied.apart, henv.ordered.apart⟩

theorem performs_tryCatch {finally? : Option Block} {body : Env → Lower Unit}
    (hbody : ∀ inner, Confines inner (body inner)) {count : Nat}
    {clauses : Env → Nat → List Nat → Lower Unit} (hclauses : Arms count clauses)
    {final? : Option (Lower Unit)} (hfinal : ∀ act, final? = some act → Confines env act) :
    Performs env (Lower.tryCatch env finally? body count clauses final?) := by
  intro d ho henv
  refine yields_usePersonality.bind_goes ho fun _ d₁ hf₁ ho₁ _ => ?_
  intro hd₁
  have henv₁ := henv.follows hf₁
  have he {ours : Set Nat} : Encloses env.IsTarget d₁ ours env := .of_suits henv₁.toSuits
  let t : Try := ⟨finally?, ⟨d₁.cursor.scopes, env.loops⟩⟩
  have het {ours : Set Nat} : Encloses env.IsTarget d₁ ours (env.inTry t) :=
    he.inTry (List.suffix_refl _)
  have hwt : (env.inTry t).Within d₁.cursor.scopes :=
    List.forall_mem_cons.2 ⟨List.suffix_refl _, henv₁.within.of_tail⟩
  refine .bind_site ?_
  refine ((Asked.refl d₁).freshBlock hd₁).bind fun bodyBlock d₂ h₂ => ?_
  refine (h₂.freshBlock hd₁).bind fun landing d₃ h₃ => ?_
  refine (h₃.freshBlocks hd₁ count).bind fun handlers d₄ ⟨hcount, h₄⟩ => ?_
  -- the body and the clauses, once all blocks have been asked for
  have hmain : ∀ (more : List Nat) (exit resume : Nat) (rest : Lower Unit) (d₅ : Draft),
      Asked d₁ ([] ++ [bodyBlock] ++ [landing] ++ handlers ++ more) d₅ → exit ∈ more →
      resume ∈ more →
      (∀ ours d', Progress env.IsTarget d₁ ours { b | b ∈ more } d' → ¬ d'.IsOpen →
        d'.cursor.scopes = d₁.cursor.scopes →
        Leads rest d' fun _ d'' => Follows env.IsTarget d₁ d'' ∧ d''.IsOpen) →
      Leads (do
        Lower.jump bodyBlock
        Lower.arm bodyBlock "try.body" exit (body (env.inTry t))
        Lower.startBlock landing "try.landing"
        Lower.emit (.comment "exception type dispatch not implemented")
        Lower.jump (handlers.head?.getD resume)
        clauses (env.inTry t) exit handlers
        rest) d₅ fun _ d' => Follows env.IsTarget d₁ d' ∧ d'.IsOpen := by
    intro more exit resume rest d₅ h₅ hexit hresume hrest
    obtain ⟨hlanding, hhandlers, howed⟩ := owed_after_clauses h₅.nodup
    have hhead : handlers.head?.getD resume ∈ handlers ∨ handlers.head?.getD resume ∈ more := by
      cases handlers with
      | nil => exact .inr hresume
      | cons b _ => exact .inl List.mem_cons_self
    refine ((h₅.progress env.IsTarget hd₁).jump (b := bodyBlock) (by simp) h₅.le).bind
      fun _ d₆ ⟨h₆, ho₆, hs₆⟩ => ?_
    rw [h₅.scopes_eq] at hs₆
    refine (h₆.arm hd₁ het (hs₆ ▸ hwt) ho₆ (by simp) (by simp [hexit]) (hbody _) _).bind
      fun _ d₇ ⟨h₇, ho₇, hs₇⟩ => ?_
    refine (h₇.startBlock ho₇ hlanding _).bind fun _ d₈ ⟨h₈, ho₈, hle₈, hs₈⟩ => ?_
    refine (h₈.comment ho₈ _).bind fun _ d₉ ⟨h₉, hle₉, hs₉⟩ => ?_
    refine (h₉.jump (b := handlers.head?.getD resume) (by simpa using .inr (.inr hhead))
      fun r hr => hle₉ r (hle₈ r hr)).bind fun _ d₁₀ ⟨h₁₀, ho₁₀, hs₁₀⟩ => ?_
    have hs : d₁₀.cursor.scopes = d₁.cursor.scopes := by rw [hs₁₀, hs₉, hs₈, hs₇, hs₆]
    refine (hclauses _ d₁ d₁₀ _ _ _ exit handlers hd₁ h₁₀ het (hs ▸ hwt) ho₁₀ (by simp [hexit])
      hcount (List.nodup_append.1 h₄.nodup).2.1 hhandlers).bind fun _ d₁₁ ⟨h₁₁, ho₁₁, hs₁₁⟩ => ?_
    rw [howed] at h₁₁
    exact hrest _ d₁₁ h₁₁ ho₁₁ (hs₁₁.trans hs)
  cases final? with
  | none =>
    refine .bind (.pure (Q := fun b? d' => b? = none ∧ d' = d₄) ⟨rfl, rfl⟩) ?_
    rintro _ _ ⟨rfl, rfl⟩
    refine (h₄.freshBlock hd₁).bind fun resume d₅ h₅ => ?_
    refine (h₅.freshBlock hd₁).bind fun done d₆ h₆ => ?_
    rw [List.append_assoc] at h₆
    have hne := (List.nodup_append.1 h₆.nodup).2.1
    refine (hmain _ _ _ _ _ h₆ (by simp) (by simp) fun ours d₇ h₇ ho₇ _ => ?_).mono
      fun _ _ h => ⟨h.1, trivial⟩
    refine .bind (.pure (Q := fun _ d' => d' = d₇) rfl) ?_
    rintro _ _ rfl
    exact h₇.resumeAndFinish ho₇ (by simp) (by simp) (by simpa using hne) (by simp)
  | some act =>
    refine ((h₄.freshBlock hd₁).map (R := fun b? d' => ∃ b, b? = some b ∧
      Asked d₁ (([] ++ [bodyBlock] ++ [landing] ++ handlers) ++ [b]) d')
      fun b d' h => ⟨b, rfl, h⟩).bind ?_
    rintro _ d₅ ⟨final, rfl, h₅⟩
    refine (h₅.freshBlock hd₁).bind fun resume d₆ h₆ => ?_
    refine (h₆.freshBlock hd₁).bind fun done d₇ h₇ => ?_
    rw [List.append_assoc, List.append_assoc] at h₇
    have hne := (List.nodup_append.1 h₇.nodup).2.1
    simp only [List.cons_append, List.nil_append, List.nodup_cons, List.mem_cons,
      List.not_mem_nil, or_false, not_or] at hne
    refine (hmain _ _ _ _ _ h₇ (by simp) (by simp) fun ours d₈ h₈ ho₈ hs₈ => ?_).mono
      fun _ _ h => ⟨h.1, trivial⟩
    refine (h₈.armWith hd₁ he ho₈ (by simp) (h₈.owed_ours _ (by simp)) _ (Q := fun _ => True)
      fun d₉ hs₉ ho₉ henv₉ => ?_).bind fun _ d₉ ⟨h₉, ho₉, _⟩ => ?_
    · refine goes_fallThrough (hfinal act rfl) ho₉ henv₉ ?_ ?_
      · rw [hs₉, hs₈]
        exact henv₁.within.of_tail
      · rw [hs₉, hs₈]
    · exact h₉.resumeAndFinish ho₉ (by grind) (by grind) (by grind) (by grind)

end Draft

end ClassLang
