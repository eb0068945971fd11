/-!
# Tables from names

A table holds at most one entry for a name and keeps the order in which names first came in.
-/

namespace ClassLang

/-- A table from names to values. -/
structure Table (α : Type) where
  entries : List (String × α) := []
deriving Repr, Inhabited

namespace Table

variable {α : Type}

def empty : Table α := {}

/-- The value under a name. -/
def find? (t : Table α) (name : String) : Option α := t.entries.lookup name

def contains (t : Table α) (name : String) : Bool := (t.find? name).isSome

/-- Puts a value under a name, in place of an earlier one. -/
def insertEntry (name : String) (a : α) : List (String × α) → List (String × α)
  | [] => [(name, a)]
  | (k, b) :: rest => if name == k then (name, a) :: rest else (k, b) :: insertEntry name a rest

def insert (t : Table α) (name : String) (a : α) : Table α := ⟨insertEntry name a t.entries⟩

/-- Changes the value under a name, if there is one. -/
def modify (t : Table α) (name : String) (f : α → α) : Table α :=
  match t.find? name with
  | some a => t.insert name (f a)
  | none => t

def values (t : Table α) : List α := t.entries.map (·.2)

def size (t : Table α) : Nat := t.entries.length

theorem lookup_insertEntry (name key : String) (a : α) (l : List (String × α)) :
    (insertEntry name a l).lookup key = if key == name then some a else l.lookup key := by
  induction l with
  | nil => simp only [insertEntry, List.lookup_cons, List.lookup_nil]; split <;> simp_all
  | cons e rest ih =>
    obtain ⟨k, b⟩ := e
    simp only [insertEntry]
    split <;> rename_i h
    · simp only [List.lookup_cons]
      have : name = k := by simpa using h
      subst this
      split <;> simp_all
    · simp only [List.lookup_cons, ih]
      split <;> split <;> simp_all

@[simp] theorem find?_insert (t : Table α) (name key : String) (a : α) :
    (t.insert name a).find? key = if key == name then some a else t.find? key :=
  lookup_insertEntry name key a t.entries

theorem mem_values_of_find? {t : Table α} {key : String} {a : α} (h : t.find? key = some a) :
    a ∈ t.values := by
  obtain ⟨l₁, l₂, hentries, _⟩ := List.lookup_eq_some_iff.1 h
  rw [values, hentries]
  simp

@[simp] theorem find?_empty (key : String) : (empty : Table α).find? key = none := rfl

end Table

end ClassLang
