import ClassLang.Proofs.Nodes.Layout

/-!
# Nodes built from what is read

A reader passes tokens and reads nodes, and in the end it makes one node of them. `Made` says what
it has passed so far: pieces of the source one behind the other, between the offset where it began
and the one where it is now. A node from the first piece to the last one encloses whatever was read
in between, which is all there is to say about most readers (`Made.node`).
-/

namespace ClassLang

variable {source : String}

/-- What was passed: a token, or the text of a node. -/
inductive Piece where
  | token (span : Span)
  | node (n : Node)

namespace Piece

def span : Piece → Span
  | token s => s
  | node n => n.span

/-- The only piece that is left of what was put together to a node. -/
def of {α : Type} (make : α → Node) (a : α) : List Piece := [node (make a)]

def node? : Piece → Option Node
  | token _ => none
  | node n => some n

/-- The nodes among pieces. -/
def nodes (l : List Piece) : List Node := l.filterMap node?

section

variable {α : Type} {l l' : List Piece} {n : Node}

theorem mem_nodes : n ∈ nodes l ↔ .node n ∈ l := by
  rw [nodes, List.mem_filterMap]
  refine ⟨fun ⟨x, hx, hn⟩ => ?_, fun h => ⟨_, h, rfl⟩⟩
  cases x with
  | token => cases hn
  | node m =>
    obtain rfl := Option.some.inj hn
    exact hx

@[simp] theorem nodes_append : nodes (l ++ l') = nodes l ++ nodes l' := List.filterMap_append

@[simp] theorem nodes_nil : nodes [] = [] := rfl

@[simp] theorem nodes_token (s : Span) : nodes (token s :: l) = nodes l := rfl

@[simp] theorem nodes_node : nodes (node n :: l) = n :: nodes l := rfl

@[simp] theorem nodes_of (make : α → Node) (a : α) : nodes (of make a) = [make a] := rfl

theorem nodes_flatMap (pieces : α → List Piece) (as : List α) :
    nodes (as.flatMap pieces) = as.flatMap fun a => nodes (pieces a) := List.filterMap_flatMap ..

@[simp] theorem nodes_flatMap_of (make : α → Node) (as : List α) :
    nodes (as.flatMap (of make)) = as.map make := by
  rw [nodes_flatMap]
  exact (List.map_eq_flatMap ..).symm

theorem getLast?_flatMap_of (make : α → Node) (as : List α) (a : α) :
    (l ++ (as ++ [a]).flatMap (of make)).getLast? = some (node (make a)) := by
  rw [List.flatMap_append, ← List.append_assoc]
  exact List.getLast?_concat

end

/-- Pieces one behind the other between two offsets. -/
def Chain : (start : Nat) → List Piece → (stop : Nat) → Prop
  | start, [], stop => start ≤ stop
  | start, x :: xs, stop => start ≤ x.span.start ∧ Chain x.span.stop xs stop

namespace Chain

variable {start mid stop : Nat} {l l' : List Piece}

theorem append (h : Chain start l mid) (h' : Chain mid l' stop)
    (hlt : ∀ x ∈ l, x.span.start < x.span.stop) : Chain start (l ++ l') stop := by
  induction l generalizing start with
  | nil =>
    cases l' with
    | nil => exact Nat.le_trans h h'
    | cons y ys => exact ⟨Nat.le_trans h h'.1, h'.2⟩
  | cons x xs ih => exact ⟨h.1, ih h.2 fun y hy => hlt y (List.mem_cons_of_mem x hy)⟩

theorem le_left {start' : Nat} (h : Chain start l stop) (hle : start' ≤ start) :
    Chain start' l stop := by
  cases l with
  | nil => exact Nat.le_trans hle h
  | cons x xs => exact ⟨Nat.le_trans hle h.1, h.2⟩

/-- Pieces may be left out. -/
theorem sublist (hsub : l'.Sublist l) (h : Chain start l stop)
    (hlt : ∀ x ∈ l, x.span.start < x.span.stop) : Chain start l' stop := by
  induction hsub generalizing start with
  | slnil => exact h
  | cons x _ ih =>
    have hx := hlt x List.mem_cons_self
    exact (ih h.2 fun y hy => hlt y (List.mem_cons_of_mem x hy)).le_left (Nat.le_trans h.1 hx.le)
  | cons_cons x _ ih => exact ⟨h.1, ih h.2 fun y hy => hlt y (List.mem_cons_of_mem x hy)⟩

/-- Every piece stands between the offsets. -/
theorem mem (h : Chain start l stop) (hlt : ∀ x ∈ l, x.span.start < x.span.stop) :
    start ≤ stop ∧ ∀ x ∈ l, start ≤ x.span.start ∧ x.span.stop ≤ stop := by
  induction l generalizing start with
  | nil => exact ⟨h, nofun⟩
  | cons x xs ih =>
    obtain ⟨hle, hall⟩ := ih h.2 fun y hy => hlt y (List.mem_cons_of_mem x hy)
    have hx := hlt x List.mem_cons_self
    have hstart : start ≤ x.span.stop := Nat.le_trans h.1 hx.le
    refine ⟨Nat.le_trans hstart hle, fun y hy => ?_⟩
    rcases List.mem_cons.1 hy with rfl | hy
    · exact ⟨h.1, hle⟩
    · exact ⟨Nat.le_trans hstart (hall y hy).1, (hall y hy).2⟩

/-- No piece starts before the first one. -/
theorem head_le {x : Piece} (h : Chain start l stop) (hlt : ∀ x ∈ l, x.span.start < x.span.stop)
    (hhead : l.head? = some x) : ∀ y ∈ l, x.span.start ≤ y.span.start := by
  cases l with
  | nil => cases hhead
  | cons z zs =>
    obtain rfl := Option.some.inj hhead
    have hz := hlt z List.mem_cons_self
    have hall := (mem h.2 fun y hy => hlt y (List.mem_cons_of_mem z hy)).2
    intro y hy
    rcases List.mem_cons.1 hy with rfl | hy
    · exact Nat.le_refl _
    · exact Nat.le_trans hz.le (hall y hy).1

/-- No piece ends behind the last one. -/
theorem le_last {x : Piece} (h : Chain start l stop) (hlt : ∀ x ∈ l, x.span.start < x.span.stop)
    (hlast : l.getLast? = some x) : ∀ y ∈ l, y.span.stop ≤ x.span.stop := by
  induction l generalizing start with
  | nil => cases hlast
  | cons z zs ih =>
    have hlt' := fun y hy => hlt y (List.mem_cons_of_mem z hy)
    cases zs with
    | nil =>
      obtain rfl := Option.some.inj hlast
      intro y hy
      obtain rfl := List.mem_singleton.1 hy
      exact Nat.le_refl _
    | cons w ws =>
      have hrest := ih h.2 hlt' (by rw [← hlast, List.getLast?_cons_cons])
      intro y hy
      rcases List.mem_cons.1 hy with rfl | hy
      · have hw := hlt w (List.mem_cons_of_mem y List.mem_cons_self)
        exact Nat.le_trans h.2.1 (Nat.le_trans hw.le (hrest w List.mem_cons_self))
      · exact hrest y hy

end Chain

end Piece

theorem Span.upTo_self (s : Span) : s.upTo s = s := by
  unfold Span.upTo
  rw [Nat.max_self]

/-! ## What was passed -/

/-- Between two states of a parser these pieces were passed, the nodes among them sound. -/
structure Made (source : String) (o : Parser) (l : List Piece) (q : Parser) : Prop where
  begun : o.Laid source
  laid : q.Laid source
  chain : Piece.Chain o.offset l q.offset
  placed : ∀ x ∈ l, x.span.Placed source
  sound : ∀ n, .node n ∈ l → n.Sound source

namespace Made

variable {o p q : Parser} {l l' : List Piece} {n c : Node} {s : Span} {x y : Piece}

theorem refl (h : p.Laid source) : Made source p [] p := ⟨h, h, Nat.le_refl _, nofun, nofun⟩

theorem lt (h : Made source o l q) : ∀ x ∈ l, x.span.start < x.span.stop :=
  fun x hx => (h.placed x hx).start_lt

theorem trans (h : Made source o l p) (h' : Made source p l' q) : Made source o (l ++ l') q where
  begun := h.begun
  laid := h'.laid
  chain := h.chain.append h'.chain h.lt
  placed x hx := (List.mem_append.1 hx).elim (h.placed x) (h'.placed x)
  sound n hn := (List.mem_append.1 hn).elim (h.sound n) (h'.sound n)

/-- Pieces need not be kept. -/
theorem keep (h : Made source o l q) (hsub : l'.Sublist l) : Made source o l' q where
  begun := h.begun
  laid := h.laid
  chain := h.chain.sublist hsub h.lt
  placed x hx := h.placed x (hsub.subset hx)
  sound n hn := h.sound n (hsub.subset hn)

/-- What lies behind the pieces may be passed unnoticed. -/
theorem skip (h : Made source o l p) (h' : Made source p l' q) : Made source o l q :=
  (h.trans h').keep (List.sublist_append_left l l')

theorem token (h : p.Laid source) (hkind : p.kind ≠ .eof) :
    Made source p [.token p.current.span] p.advanced where
  begun := h
  laid := (h.token hkind).2.1
  chain := ⟨Nat.le_refl _, (h.token hkind).2.2⟩
  placed x hx := by
    obtain rfl := List.mem_singleton.1 hx
    exact (h.token hkind).1.placed
  sound := by simp

/-- The pieces are put together to a node, given that it encloses its children. -/
theorem enclose (h : Made source o l q) (hshaped : n.Shaped) (hplaced : n.span.Placed source)
    (hstart : o.offset ≤ n.span.start) (hstop : n.span.stop ≤ q.offset)
    (hchildren : n.children ⊆ Piece.nodes l)
    (hinside : ∀ c ∈ n.children, ¬ n.Spares c → c.span.Inside n.span) :
    Made source o [.node n] q where
  begun := h.begun
  laid := h.laid
  chain := ⟨hstart, hstop⟩
  placed x hx := by
    obtain rfl := List.mem_singleton.1 hx
    exact hplaced
  sound m hm := by
    obtain rfl : m = n := by simpa using hm
    exact .intro hshaped hplaced hinside fun c hc => h.sound c (Piece.mem_nodes.1 (hchildren hc))

/-- A node from the first piece to the last one. -/
theorem node (h : Made source o l q) (hhead : l.head? = some x) (hlast : l.getLast? = some y)
    (hspan : n.span = x.span.upTo y.span) (hshaped : n.Shaped)
    (hchildren : n.children ⊆ Piece.nodes l) : Made source o [.node n] q := by
  have hx := List.mem_of_head? hhead
  have hy := List.mem_of_getLast? hlast
  have hbounds := (h.chain.mem h.lt).2
  have hmem : ∀ c ∈ n.children, .node c ∈ l := fun c hc => Piece.mem_nodes.1 (hchildren hc)
  refine h.enclose hshaped ?_ ?_ ?_ hchildren fun c hc _ => ⟨?_, ?_⟩ <;> rw [hspan]
  · exact (h.placed x hx).upTo (h.placed y hy)
  · exact (hbounds x hx).1
  · exact Nat.max_le.2 ⟨(hbounds y hy).2, (hbounds x hx).2⟩
  · exact h.chain.head_le h.lt hhead _ (hmem c hc)
  · exact (h.chain.le_last h.lt hlast _ (hmem c hc)).trans (Nat.le_max_left _ _)

/-- A node that is written as its only child is. -/
theorem wrap (h : Made source o [.node c] q) (hspan : n.span = c.span) (hshaped : n.Shaped)
    (hchildren : n.children = [c]) : Made source o [.node n] q := by
  refine h.node (x := .node c) (y := .node c) rfl rfl ?_ hshaped (by simp [hchildren])
  rw [hspan, Span.upTo_self]
  rfl

/-- The only child of a node may stand for it. -/
theorem unwrap (h : Made source o [.node n] q) (hspan : n.span = c.span)
    (hchildren : n.children = [c]) : Made source o [.node c] q := by
  have hc : c.Sound source := (h.sound n List.mem_cons_self).children c (by simp [hchildren])
  have hchain : n.span.start ≥ o.offset ∧ n.span.stop ≤ q.offset := h.chain
  rw [hspan] at hchain
  refine ⟨h.begun, h.laid, hchain, fun x hx => ?_, fun m hm => ?_⟩
  · obtain rfl := List.mem_singleton.1 hx
    exact hc.placed
  · obtain rfl : m = c := by simpa using hm
    exact hc

end Made

/-! ## Readers -/

namespace Parse

variable {α β : Type} {o p q : Parser} {l : List Piece} {x : Parse α} {f : α → Parse β}
  {k : TokenKind}

/-- What an action does from a state: it gives a result, or it fails in a state. -/
def Runs (fail : Parser → Prop) (x : Parse α) (p : Parser) (post : α → Parser → Prop) : Prop :=
  match x p with
  | .ok a q => post a q
  | .error _ q => fail q

/-- What every result of a reader is like. -/
def Returns (x : Parse α) (post : α → Prop) : Prop :=
  ∀ p, Runs (fun _ => True) x p fun a _ => post a

/-- A result that is read from a state makes these pieces of what was passed so far, and a failure
leaves the tokens behind it in order. -/
def BuildsAt (source : String) (o p : Parser) (x : Parse α) (pieces : α → List Piece) : Prop :=
  Runs (Made source o []) x p fun a q => Made source o (pieces a) q

/-- With these pieces passed so far, any result makes others of them. -/
def Builds (source : String) (l : List Piece) (x : Parse α) (pieces : α → List Piece) : Prop :=
  ∀ o p, Made source o l p → BuildsAt source o p x pieces

namespace Runs

variable {fail fail' : Parser → Prop} {post post' : α → Parser → Prop} {last : β → Parser → Prop}

theorem bind (hx : Runs fail x p post) (hf : ∀ a q, post a q → Runs fail (f a) q last) :
    Runs fail (x >>= f) p last := by
  show match (EStateM.bind x f p) with
    | .ok b r => last b r
    | .error _ r => fail r
  unfold Runs at hx
  unfold EStateM.bind
  cases hp : x p with
  | ok a q =>
    rw [hp] at hx
    exact hf a q hx
  | error e q =>
    rw [hp] at hx
    exact hx

theorem pure {a : α} (h : post a p) : Runs fail (Pure.pure a) p post := h

theorem map {g : α → β} (h : Runs fail x p fun a q => last (g a) q) :
    Runs fail (g <$> x) p last := by
  show match (EStateM.map g x p) with
    | .ok b r => last b r
    | .error _ r => fail r
  unfold Runs at h
  unfold EStateM.map
  cases hp : x p <;> rw [hp] at h <;> exact h

theorem imp (h : Runs fail x p post) (hpost : ∀ a q, post a q → post' a q)
    (hfail : ∀ q, fail q → fail' q) : Runs fail' x p post' := by
  unfold Runs at h ⊢
  cases hp : x p with
  | ok a q =>
    rw [hp] at h
    exact hpost a q h
  | error e q =>
    rw [hp] at h
    exact hfail q h

theorem and (h : Runs fail x p post) (h' : Runs fail' x p post') :
    Runs fail x p fun a q => post a q ∧ post' a q := by
  unfold Runs at h h' ⊢
  cases hp : x p with
  | ok a q =>
    rw [hp] at h h'
    exact ⟨h, h'⟩
  | error e q =>
    rw [hp] at h
    exact h

/-- What follows an action that only looks. -/
theorem look {a : α} (hx : x p = .ok a p) (h : Runs fail (f a) p last) :
    Runs fail (x >>= f) p last := by
  have hfirst : Runs fail x p fun b q => a = b ∧ p = q := by
    unfold Runs
    rw [hx]
    exact ⟨rfl, rfl⟩
  refine hfirst.bind fun b q hq => ?_
  obtain ⟨rfl, rfl⟩ := hq
  exact h

theorem ite {c : Prop} [Decidable c] {y : Parse α} (hx : c → Runs fail x p post)
    (hy : ¬ c → Runs fail y p post) : Runs fail (if c then x else y) p post := by
  split
  · exact hx ‹_›
  · exact hy ‹_›

theorem unexpected (h : fail p) (expected : List TokenKind) (suggestion? : Option String) :
    Runs fail (Parse.unexpected expected suggestion?) p post := h

theorem tooDeep (h : fail p) : Runs fail Parse.tooDeep p post := h

theorem advance : Runs fail Parse.advance p fun t q => t = p.current ∧ q = p.advanced := ⟨rfl, rfl⟩

/-- A token of a kind stands where it is consumed. -/
theorem expect (h : fail p) : Runs fail (Parse.expect k) p fun t q =>
    p.kind = k ∧ t = p.current ∧ q = p.advanced := by
  unfold Runs Parse.expect
  by_cases hkind : p.kind == k
  · rw [if_pos hkind]
    exact ⟨eq_of_beq hkind, rfl, rfl⟩
  · rw [if_neg hkind]
    exact h

theorem eat : Runs fail (Parse.eat k) p fun b q =>
    if b then p.kind = k ∧ q = p.advanced else q = p := by
  unfold Runs Parse.eat
  by_cases hkind : p.kind == k
  · rw [if_pos hkind]
    exact ⟨eq_of_beq hkind, rfl⟩
  · rw [if_neg hkind]
    exact rfl

end Runs

/-- A token that is known not to be the end marker. -/
theorem BuildsAt.advance {f : Token → Parse β} {last : β → List Piece} (hp : Made source o l p)
    (hkind : p.kind = k) (hk : k ≠ .eof)
    (hf : Builds source (l ++ [.token p.current.span]) (f p.current) last) :
    BuildsAt source o p (Parse.advance >>= f) last := by
  refine Runs.advance.bind ?_
  rintro _ _ ⟨rfl, rfl⟩
  exact hf o _ (hp.trans (.token hp.laid (hkind ▸ hk)))

/-- Such a token may go unnoticed. -/
theorem BuildsAt.pass {f : Token → Parse β} {last : β → List Piece} (hp : Made source o l p)
    (hkind : p.kind = k) (hk : k ≠ .eof) (hf : Builds source l (f p.current) last) :
    BuildsAt source o p (Parse.advance >>= f) last := by
  refine Runs.advance.bind ?_
  rintro _ _ ⟨rfl, rfl⟩
  exact hf o _ (hp.skip (.token hp.laid (hkind ▸ hk)))

/-- What is read from a state on is put behind what was passed before it. -/
theorem BuildsAt.from_ {px : α → List Piece} (h : BuildsAt source p p x px)
    (hp : Made source o l p) :
    BuildsAt source o p x fun a => l ++ px a :=
  h.imp (fun _ _ hq => hp.trans hq) fun _ hq => (hp.trans hq).keep (List.nil_sublist _)

namespace Builds

variable {pieces px : α → List Piece} {last : β → List Piece}

theorem at_ (h : Builds source l x pieces) (hp : Made source o l p) :
    BuildsAt source o p x pieces := h o p hp

theorem made (h : Builds source [] x px) (hp : Made source o l p) :
    BuildsAt source o p x fun a => l ++ px a := (h p p (.refl hp.laid)).from_ hp

theorem bind (hx : Builds source [] x px) (hf : ∀ a, Builds source (l ++ px a) (f a) last) :
    Builds source l (x >>= f) last :=
  fun o _ hp => (hx.made hp).bind fun a q hq => hf a o q hq

/-- What a reader passes may go unnoticed. -/
theorem skip (hx : Builds source [] x px) (hf : ∀ a, Builds source l (f a) last) :
    Builds source l (x >>= f) last :=
  fun o _ hp => (hx.made hp).bind fun a q hq => hf a o q (hq.keep (List.sublist_append_left _ _))

/-- What follows may count on what the results of the first reader are like. -/
theorem bind_of {post : α → Prop} (hx : Builds source [] x px) (hpost : Returns x post)
    (hf : ∀ a, post a → Builds source (l ++ px a) (f a) last) : Builds source l (x >>= f) last :=
  fun o p hp => ((hx.made hp).and (hpost p)).bind fun a q hq => hf a hq.2 o q hq.1

/-- A reader that goes on with the pieces passed so far. -/
theorem continue_ (hx : Builds source l x px) (hf : ∀ a, Builds source (px a) (f a) last) :
    Builds source l (x >>= f) last :=
  fun o p hp => (hx o p hp).bind fun a q hq => hf a o q hq

/-- Two readers of which the second one goes on with what the first one passed. -/
theorem bind₂ {γ : Type} {g : α → Parse γ} {f : α → γ → Parse β} {py : γ → List Piece}
    (hx : Builds source [] x px) (hg : ∀ a, Builds source (px a) (g a) py)
    (hf : ∀ a c, Builds source (l ++ py c) (f a c) last) :
    Builds source l (x >>= fun a => g a >>= f a) last := by
  intro o p hp
  have hfail : ∀ q, Made source p [] q → Made source o [] q := fun _ hq =>
    (hp.trans hq).keep (List.nil_sublist _)
  refine ((hx p p (.refl hp.laid)).imp (fun _ _ hq => hq) hfail).bind fun a q hq => ?_
  exact ((hg a p q hq).imp (fun _ _ hr => hr) hfail).bind fun c r hr => hf a c o r (hp.trans hr)

theorem look {g : Parser → α} (hx : ∀ p, x p = .ok (g p) p) (hf : ∀ a, Builds source l (f a) last) :
    Builds source l (x >>= f) last :=
  fun o p hp => Runs.look (hx p) (hf _ o p hp)

theorem map {g : α → β} (hx : Builds source l x px)
    (hg : ∀ a o q, Made source o (px a) q → Made source o (last (g a)) q) :
    Builds source l (g <$> x) last := by
  refine fun o p hp => Runs.map ?_
  exact (hx o p hp).imp (fun a q ha => hg a o q ha) fun _ hq => hq

theorem pure {a : α} (h : ∀ o q, Made source o l q → Made source o (pieces a) q) :
    Builds source l (Pure.pure a) pieces := fun o p hp => h o p hp

/-- The pieces passed are the pieces made. -/
theorem done {a : α} (h : pieces a = l) : Builds source l (Pure.pure a) pieces :=
  .pure fun _ _ hq => h ▸ hq

theorem ite {c : Prop} [Decidable c] {y : Parse α} (hx : c → Builds source l x pieces)
    (hy : ¬ c → Builds source l y pieces) : Builds source l (if c then x else y) pieces := by
  split
  · exact hx ‹_›
  · exact hy ‹_›

/-- An action that only fails. -/
theorem failing {e : Parser → ParseError} (h : ∀ p, x p = .error (e p) p) :
    Builds source l x pieces := by
  intro o p hp
  unfold BuildsAt Runs
  rw [h p]
  exact hp.keep (List.nil_sublist l)

theorem unexpected (expected : List TokenKind) (suggestion? : Option String) :
    Builds source l (Parse.unexpected expected suggestion?) pieces := .failing fun _ => rfl

theorem tooDeep : Builds source l Parse.tooDeep pieces := .failing fun _ => rfl

/-- A reader with as much fuel as there are tokens. -/
theorem of_fuel {y : Nat → Parse α} (h : ∀ n, Builds source l (y n) pieces) :
    Builds source l (fun p => y p.fuel p) pieces :=
  fun o p hp => h p.fuel o p hp

/-- A node from the first piece to the last one. -/
theorem node {a : α} {n : Node} {y z : Piece} (hpieces : pieces a = [.node n])
    (hhead : l.head? = some y) (hlast : l.getLast? = some z) (hspan : n.span = y.span.upTo z.span)
    (hshaped : n.Shaped) (hchildren : n.children ⊆ Piece.nodes l) :
    Builds source l (Pure.pure a) pieces :=
  .pure fun _ _ hq => hpieces ▸ hq.node hhead hlast hspan hshaped hchildren

/-- A node that is written as its only child is. -/
theorem wrap {a : α} {n c : Node} (hpieces : pieces a = [.node n]) (hl : l = [.node c])
    (hspan : n.span = c.span) (hshaped : n.Shaped) (hchildren : n.children = [c]) :
    Builds source l (Pure.pure a) pieces :=
  .pure fun _ _ hq => hpieces ▸ (hl ▸ hq).wrap hspan hshaped hchildren

/-- What is read stands for a statement. -/
theorem stmt {g : α → Stmt} {make : α → Node} (h : Builds source [] x (Piece.of make))
    (hspan : ∀ a, (g a).span = (make a).span) (hshaped : ∀ a, (Node.stmt (g a)).Shaped)
    (hchildren : ∀ a, (g a).parts = [make a]) : Builds source [] (g <$> x) (Piece.of .stmt) :=
  h.map fun a _ _ hq => hq.wrap (n := .stmt (g a)) (hspan a) (hshaped a) (hchildren a)

/-! ### Tokens -/

theorem expect (hk : k ≠ .eof) : Builds source [] (Parse.expect k) fun t => [.token t.span] := by
  refine fun o p hp => (Runs.expect hp).imp ?_ fun _ hq => hq
  rintro _ _ ⟨rfl, rfl, rfl⟩
  exact hp.trans (.token hp.laid hk)

/-- A token that is consumed unnoticed. -/
theorem eat {f : Bool → Parse β} (hk : k ≠ .eof) (hf : ∀ b, Builds source l (f b) last) :
    Builds source l (Parse.eat k >>= f) last := by
  refine fun o p hp => Runs.eat.bind fun b q hq => hf b o q ?_
  cases b with
  | true =>
    obtain ⟨rfl, rfl⟩ : p.kind = k ∧ q = p.advanced := by simpa using hq
    exact hp.skip (.token hp.laid hk)
  | false =>
    obtain rfl : q = p := by simpa using hq
    exact hp

theorem ident : Builds source [] Parse.ident (Piece.of .ident) := by
  refine fun o p hp => (Runs.expect hp).bind ?_
  rintro _ _ ⟨hkind, rfl, rfl⟩
  have hne : p.kind ≠ .eof := by rw [hkind]; exact TokenKind.noConfusion
  have hname := (hp.laid.token hne).1.name hkind
  exact (hp.trans (.token hp.laid hne)).node rfl rfl (Span.upTo_self _).symm hname nofun

theorem closingAngle : Builds source [] Parse.closingAngle fun t => [.token t.span] := by
  intro o p hp
  unfold BuildsAt Runs Parse.closingAngle
  by_cases hkind : p.kind == Mark.shiftRight
  · rw [if_pos hkind]
    have hkind : p.kind = Mark.shiftRight := eq_of_beq hkind
    have hne : p.kind ≠ .eof := by rw [hkind]; exact TokenKind.noConfusion
    have hhalves := (hp.laid.token hne).1.halves hkind
    refine hp.trans ⟨hp.laid, ?_, ⟨Nat.le_refl _, Nat.le_refl _⟩, fun x hx => ?_, by simp⟩
    · -- the second half stands where the first one ends
      obtain ⟨current, rest, errors, templates⟩ := p
      cases hp.laid with
      | eof heof => exact absurd heof hne
      | cons _ _ hstop h =>
        exact .cons TokenKind.noConfusion ⟨hhalves.2, TokenKind.noConfusion, nofun⟩ hstop h
    · obtain rfl := List.mem_singleton.1 hx
      exact hhalves.1
  · rw [if_neg hkind]
    exact Builds.expect TokenKind.noConfusion o p hp

theorem registerTemplate (name : String) :
    Builds source l (Parse.registerTemplate name) fun _ => l :=
  fun _ _ hp => ⟨hp.begun, hp.laid, hp.chain, hp.placed, hp.sound⟩

/-! ### Repetition -/

theorem optional {part : Parse α} (h : Builds source [] part px) (present : Bool) :
    Builds source [] (Parse.optional present part) fun a? => a?.toList.flatMap px :=
  .ite (fun _ => h.bind fun _ => .done (List.append_nil _)) fun _ => .done rfl

end Builds

/-- The pieces that a round contributes. -/
def Round.pieces (pieces : α → List Piece) : Round α → List Piece
  | .stop | .skip => []
  | .item a | .last a => pieces a

namespace Builds

variable {px : α → List Piece}

theorem collectAt {round : Parse (Round α)} (h : Builds source [] round (Round.pieces px))
    (fuel : Nat) : Builds source [] (Parse.collectAt round fuel) fun as => as.flatMap px := by
  induction fuel with
  | zero => exact .tooDeep
  | succ fuel ih =>
    refine h.bind fun r => ?_
    cases r with
    | stop => exact .done rfl
    | skip => exact ih
    | item a => exact ih.bind fun _ => .done rfl
    | last a => exact .done (List.append_nil _)

theorem collect {round : Parse (Round α)} (h : Builds source [] round (Round.pieces px)) :
    Builds source [] (Parse.collect round) fun as => as.flatMap px :=
  .of_fuel h.collectAt

/-- If rounds that go on start with the current token, so does the repetition. -/
theorem started {round : Parse (Round α)}
    (h : ∀ o : Parser, o.Laid source → Runs (Made source o []) round o fun r p =>
      (r = .stop ∧ p = o) ∨ Made source o [.token o.current.span] p) (ho : o.Laid source) :
    Runs (Made source o []) (Parse.collect round) o fun _ p =>
      p = o ∨ Made source o [.token o.current.span] p := by
  have hall : ∀ fuel o, o.Laid source → Runs (Made source o []) (Parse.collectAt round fuel) o
      fun _ p => p = o ∨ Made source o [.token o.current.span] p := by
    intro fuel
    induction fuel with
    | zero => exact fun _ ho => Runs.tooDeep (.refl ho)
    | succ fuel ih =>
      refine fun o ho => (h o ho).bind fun r p hp => ?_
      rcases hp with ⟨rfl, rfl⟩ | hp
      · exact .pure (.inl rfl)
      have hrest : Runs (Made source o []) (Parse.collectAt round fuel) p fun _ q =>
          Made source o [.token o.current.span] q :=
        (ih p hp.laid).imp (fun _ q hq => hq.elim (fun hq => hq ▸ hp) hp.skip)
          fun q hq => (hp.trans hq).keep (List.nil_sublist _)
      cases r with
      | stop => exact .pure (.inr hp)
      | skip => exact hrest.imp (fun _ _ hq => .inr hq) fun _ hq => hq
      | item a => exact hrest.bind fun _ _ hq => .pure (.inr hq)
      | last a => exact .pure (.inr hp)
  exact hall o.fuel o ho

/-- A step that puts what it adds together with what there is. -/
theorem extend {step : α → Parse (Option α)} {node : α → Node}
    (h : ∀ a, Builds source (Piece.of node a) (step a) fun b? => Piece.of node (b?.getD a))
    (a : α) :
    Builds source (Piece.of node a) (Parse.extend step a) (Piece.of node) := by
  have hall : ∀ fuel a, Builds source (Piece.of node a) (Parse.extendAt step fuel a)
      (Piece.of node) := by
    intro fuel
    induction fuel with
    | zero => exact fun _ => .tooDeep
    | succ fuel ih =>
      refine fun a => (h a).continue_ fun b? => ?_
      cases b? with
      | none => exact .done rfl
      | some b => exact ih b
  exact of_fuel (y := fun n => Parse.extendAt step n a) fun n => hall n a

theorem commaSeparated {item : Parse α} (h : Builds source [] item px) :
    Builds source [] (Parse.commaSeparated item) fun as => as.flatMap px := by
  refine h.bind fun first => ?_
  have hmore : Builds source [] (Parse.collect do
      if ← Parse.eat Mark.comma then return .item (← item) else return .stop)
      fun as => as.flatMap px :=
    .collect (.eat TokenKind.noConfusion fun _ =>
      .ite (fun _ => h.bind fun _ => .done rfl) fun _ => .done rfl)
  exact hmore.bind fun _ => .done rfl

end Builds

namespace Returns

variable {post : α → Prop} {last : β → Prop}

theorem andThen (hx : Returns x post) (hf : ∀ a, post a → Returns (f a) last) :
    Returns (x >>= f) last :=
  fun p => (hx p).bind fun a q ha => hf a ha q

theorem bind (hf : ∀ a, Returns (f a) last) : Returns (x >>= f) last := by
  have hx : Returns x fun _ => True := fun p => by
    unfold Runs
    cases x p <;> trivial
  exact hx.andThen fun a _ => hf a

theorem map {g : α → β} (h : ∀ a, last (g a)) : Returns (g <$> x) last := by
  have hx : Returns x fun a => last (g a) := fun p => by
    unfold Runs
    cases x p with
    | ok a => exact h a
    | error => trivial
  exact fun p => (hx p).map

theorem pure {a : α} (h : post a) : Returns (Pure.pure a) post := fun _ => Runs.pure h

theorem ite {c : Prop} [Decidable c] {y : Parse α} (hx : Returns x post) (hy : Returns y post) :
    Returns (if c then x else y) post := by
  split <;> assumption

theorem optional (h : Returns x post) (present : Bool) :
    Returns (Parse.optional present x) fun a? => ∀ a ∈ a?, post a :=
  .ite (h.andThen fun _ ha => .pure fun _ hb => Option.some.inj hb ▸ ha) (.pure nofun)

theorem unexpected (expected : List TokenKind) (suggestion? : Option String) :
    Returns (Parse.unexpected expected suggestion?) post := fun _ => Runs.unexpected trivial _ _

end Returns

theorem returns_commaSeparated {item : Parse α} : Returns (commaSeparated item) (· ≠ []) :=
  .bind fun _ => .bind fun _ => .pure (List.cons_ne_nil _ _)

end Parse

end ClassLang
