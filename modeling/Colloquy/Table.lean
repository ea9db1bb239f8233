/-!
Finite maps from names. The entries are kept in the order of their names, so that two tables with
the same contents are the same table: `Table.ext_get?`.
-/

set_option autoImplicit false

namespace Colloquy

/-- Entries in strictly increasing order of their names. -/
structure Table (α : Type) where
  entries : List (String × α)
  sorted : entries.Pairwise (·.1 < ·.1)
  deriving DecidableEq, Repr

namespace Table

variable {α : Type}

def empty : Table α := ⟨[], .nil⟩

instance : Inhabited (Table α) := ⟨empty⟩
instance : EmptyCollection (Table α) := ⟨empty⟩

/-- Puts an entry into sorted entries, in place of the one with the same name. -/
def place (name : String) (value : α) : List (String × α) → List (String × α)
  | [] => [(name, value)]
  | entry :: rest =>
    if name < entry.1 then (name, value) :: entry :: rest
    else if name = entry.1 then (name, value) :: rest
    else entry :: place name value rest

theorem name_mem_place {name : String} {value : α} {entries : List (String × α)}
    {entry : String × α} (h : entry ∈ place name value entries) :
    entry.1 = name ∨ entry ∈ entries := by
  induction entries with
  | nil => simp_all [place]
  | cons head rest ih =>
    simp only [place] at h
    split at h
    · rcases List.mem_cons.1 h with rfl | h
      · exact .inl rfl
      · exact .inr h
    · split at h
      · rcases List.mem_cons.1 h with rfl | h
        · exact .inl rfl
        · exact .inr (List.mem_cons_of_mem _ h)
      · rcases List.mem_cons.1 h with rfl | h
        · exact .inr List.mem_cons_self
        · exact (ih h).imp_right (List.mem_cons_of_mem _)

theorem place_sorted (name : String) (value : α) {entries : List (String × α)}
    (h : entries.Pairwise (·.1 < ·.1)) : (place name value entries).Pairwise (·.1 < ·.1) := by
  induction entries with
  | nil => simp [place]
  | cons head rest ih =>
    obtain ⟨below, tail⟩ := List.pairwise_cons.1 h
    simp only [place]
    split
    · next lt =>
      refine List.pairwise_cons.2 ⟨fun entry mem => ?_, h⟩
      rcases List.mem_cons.1 mem with rfl | mem
      · exact lt
      · exact String.lt_trans lt (below entry mem)
    · next ge =>
      split
      · next same => exact List.pairwise_cons.2 ⟨fun entry mem => same ▸ below entry mem, tail⟩
      · next other =>
        refine List.pairwise_cons.2 ⟨fun entry mem => ?_, ih tail⟩
        rcases name_mem_place mem with eq | mem
        · rw [eq]
          rcases Decidable.em (head.1 < name) with lt | notLt
          · exact lt
          · exact absurd (String.le_antisymm (String.not_lt.1 notLt) (String.not_lt.1 ge)) other
        · exact below entry mem

def find (name : String) : List (String × α) → Option α
  | [] => none
  | entry :: rest => if entry.1 = name then some entry.2 else find name rest

theorem find_eq_none {name : String} {entries : List (String × α)}
    (h : ∀ entry ∈ entries, entry.1 ≠ name) : find name entries = none := by
  induction entries with
  | nil => rfl
  | cons head rest ih =>
    simp [find, h head List.mem_cons_self, ih fun entry mem => h entry (List.mem_cons_of_mem _ mem)]

theorem find_place (name : String) (value : α) (other : String) (entries : List (String × α)) :
    find other (place name value entries) = if name = other then some value else find other entries := by
  induction entries with
  | nil => simp [place, find]
  | cons head rest ih =>
    simp only [place]
    split
    · simp [find]
    · split
      · next same =>
        subst same
        simp only [find]
        split <;> simp_all
      · next other' =>
        simp only [find, ih]
        split
        · next eq =>
          subst eq
          simp [other']
        · rfl

def get? (t : Table α) (name : String) : Option α := find name t.entries

def contains (t : Table α) (name : String) : Bool := (t.get? name).isSome

def insert (t : Table α) (name : String) (value : α) : Table α :=
  ⟨place name value t.entries, place_sorted name value t.sorted⟩

def erase (t : Table α) (name : String) : Table α :=
  ⟨t.entries.filter (·.1 ≠ name), t.sorted.filter _⟩

def size (t : Table α) : Nat := t.entries.length

def isEmpty (t : Table α) : Bool := t.entries.isEmpty

def names (t : Table α) : List String := t.entries.map (·.1)

def toList (t : Table α) : List (String × α) := t.entries

-- Inserts the pairs one after the other: of two with the same name the last one stays.
def merge (t : Table α) (pairs : List (String × α)) : Table α :=
  pairs.foldl (fun t pair => t.insert pair.1 pair.2) t

def ofList (pairs : List (String × α)) : Table α := empty.merge pairs

@[simp] theorem get?_empty (name : String) : (empty : Table α).get? name = none := rfl

theorem get?_insert (t : Table α) (name other : String) (value : α) :
    (t.insert name value).get? other = if name = other then some value else t.get? other :=
  find_place name value other t.entries

@[simp] theorem get?_insert_self (t : Table α) (name : String) (value : α) :
    (t.insert name value).get? name = some value := by
  simp [get?_insert]

theorem get?_insert_ne (t : Table α) {name other : String} (value : α) (h : name ≠ other) :
    (t.insert name value).get? other = t.get? other := by
  simp [get?_insert, h]

theorem ext {s t : Table α} (h : s.entries = t.entries) : s = t := by
  cases s; cases t; simp_all

theorem entries_eq_of_find {s t : List (String × α)} (hs : s.Pairwise (·.1 < ·.1))
    (ht : t.Pairwise (·.1 < ·.1)) (h : ∀ name, find name s = find name t) : s = t := by
  induction s generalizing t with
  | nil =>
    cases t with
    | nil => rfl
    | cons head rest => simpa [find] using h head.1
  | cons a s ih =>
    cases t with
    | nil => simpa [find] using h a.1
    | cons b t =>
      obtain ⟨ha, sortedS⟩ := List.pairwise_cons.1 hs
      obtain ⟨hb, sortedT⟩ := List.pairwise_cons.1 ht
      have same : a.1 = b.1 := by
        apply Classical.byContradiction
        intro ne
        rcases Decidable.em (a.1 < b.1) with lt | ge
        · have := h a.1
          rw [find, if_pos rfl, find, if_neg (Ne.symm ne), find_eq_none] at this
          · cases this
          · intro entry mem eq
            exact String.lt_asymm lt (eq ▸ hb entry mem)
        · have gt : b.1 < a.1 := by
            rcases Decidable.em (b.1 < a.1) with gt | le
            · exact gt
            · exact absurd (String.le_antisymm (String.not_lt.1 le) (String.not_lt.1 ge)) ne
          have := h b.1
          rw [find, if_neg ne, find_eq_none, find, if_pos rfl] at this
          · cases this
          · intro entry mem eq
            exact String.lt_asymm gt (eq ▸ ha entry mem)
      have value : a.2 = b.2 := by
        have := h a.1
        simp only [find, same, if_true] at this
        exact Option.some.inj this
      have : a = b := Prod.ext same value
      subst this
      congr 1
      refine ih sortedS sortedT fun name => ?_
      have := h name
      simp only [find] at this
      split at this
      · next eq =>
        subst eq
        rw [find_eq_none, find_eq_none]
        · exact fun entry mem eq => String.lt_irrefl _ (eq ▸ hb entry mem)
        · exact fun entry mem eq => String.lt_irrefl _ (eq ▸ ha entry mem)
      · exact this

-- A table is what it holds.
theorem ext_get? {s t : Table α} (h : ∀ name, s.get? name = t.get? name) : s = t :=
  ext (entries_eq_of_find s.sorted t.sorted h)

end Table

end Colloquy
