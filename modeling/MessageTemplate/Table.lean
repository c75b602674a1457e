/-!
# Tables of named values

A table binds each name to at most one value. Its entries stand in increasing
order of their names, by code points, so a table is determined by what its
look-ups answer (`Table.ext_get?`) and listing it needs no sorting.
-/

namespace MessageTemplate

/-- A finite map from names to values, kept in order of the names. -/
structure Table (α : Type) where
  entries : List (String × α)
  sorted : entries.Pairwise fun a b => a.1 < b.1

namespace Table

variable {α : Type}

/-- Put a binding into an ordered list of bindings, over one with the same name. -/
def insertEntry (name : String) (value : α) : List (String × α) → List (String × α)
  | [] => [(name, value)]
  | entry :: rest =>
    if name < entry.1 then (name, value) :: entry :: rest
    else if name = entry.1 then (name, value) :: rest
    else entry :: insertEntry name value rest

theorem fst_of_mem_insertEntry {name : String} {value : α} {entries : List (String × α)}
    {entry : String × α} (h : entry ∈ insertEntry name value entries) :
    entry.1 = name ∨ entry ∈ entries := by
  induction entries with
  | nil => simp_all [insertEntry]
  | cons first rest ih => grind [insertEntry]

theorem eq_of_not_lt {a b : String} (hab : ¬ a < b) (hba : ¬ b < a) : a = b :=
  String.le_antisymm (String.not_lt.1 hba) (String.not_lt.1 hab)

theorem pairwise_insertEntry (name : String) (value : α) {entries : List (String × α)}
    (h : entries.Pairwise fun a b => a.1 < b.1) :
    (insertEntry name value entries).Pairwise fun a b => a.1 < b.1 := by
  induction entries with
  | nil => simp [insertEntry]
  | cons first rest ih =>
    obtain ⟨hfirst, hrest⟩ := List.pairwise_cons.1 h
    unfold insertEntry
    split
    · rename_i hlt
      refine List.pairwise_cons.2 ⟨fun entry hentry => ?_, h⟩
      rcases List.mem_cons.1 hentry with rfl | hentry
      · exact hlt
      · exact String.lt_trans hlt (hfirst entry hentry)
    · rename_i hlt
      split
      · rename_i heq
        exact List.pairwise_cons.2 ⟨fun entry hentry => heq ▸ hfirst entry hentry, hrest⟩
      · rename_i hne
        refine List.pairwise_cons.2 ⟨fun entry hentry => ?_, ih hrest⟩
        rcases fst_of_mem_insertEntry hentry with hname | hentry
        · rw [hname]
          exact Decidable.byContradiction fun hgt => hne (eq_of_not_lt hlt hgt)
        · exact hfirst entry hentry

def empty : Table α := ⟨[], .nil⟩

instance : Inhabited (Table α) := ⟨empty⟩

/-- The value bound to `name`. -/
def get? (table : Table α) (name : String) : Option α := table.entries.lookup name

def contains (table : Table α) (name : String) : Bool := (table.get? name).isSome

/-- Bind `name` to `value`, in place of what it was bound to. -/
def insert (table : Table α) (name : String) (value : α) : Table α :=
  ⟨insertEntry name value table.entries, pairwise_insertEntry name value table.sorted⟩

def size (table : Table α) : Nat := table.entries.length

def isEmpty (table : Table α) : Bool := table.entries.isEmpty

/-- The bound names in order. -/
def names (table : Table α) : List String := table.entries.map Prod.fst

/-- Bind the given names one after another; the last binding of a name stays. -/
def insertMany (table : Table α) (bindings : List (String × α)) : Table α :=
  bindings.foldl (fun table binding => table.insert binding.1 binding.2) table

def ofList (bindings : List (String × α)) : Table α := empty.insertMany bindings

@[simp] theorem get?_empty (name : String) : (empty : Table α).get? name = none := rfl

theorem lookup_entry_cons (name : String) (first : String × α) (rest : List (String × α)) :
    (first :: rest).lookup name = if name = first.1 then some first.2 else rest.lookup name := by
  rw [List.lookup_cons]
  by_cases h : name = first.1
  · simp [h]
  · simp [h, beq_eq_false_iff_ne.2 h]

theorem lookup_eq_none_of_lt {name : String} {entries : List (String × α)}
    (h : ∀ entry ∈ entries, name < entry.1) : entries.lookup name = none := by
  rw [List.lookup_eq_none_iff]
  intro entry hentry
  simpa using String.ne_of_lt (h entry hentry)

theorem lookup_insertEntry (name : String) (value : α) (entries : List (String × α))
    (other : String) :
    (insertEntry name value entries).lookup other =
      if other = name then some value else entries.lookup other := by
  induction entries with
  | nil => simp [insertEntry, lookup_entry_cons]
  | cons first rest ih =>
    unfold insertEntry
    split
    · rw [lookup_entry_cons]
    · split
      · rename_i heq
        rw [lookup_entry_cons, lookup_entry_cons, ← heq]
        split <;> rfl
      · rename_i hne
        rw [lookup_entry_cons, ih, lookup_entry_cons]
        by_cases h : other = name
        · simp [h, hne]
        · simp [h]

theorem get?_insert (table : Table α) (name : String) (value : α) (other : String) :
    (table.insert name value).get? other = if other = name then some value else table.get? other :=
  lookup_insertEntry name value table.entries other

@[simp] theorem get?_insert_self (table : Table α) (name : String) (value : α) :
    (table.insert name value).get? name = some value := by
  simp [get?_insert]

theorem get?_insert_of_ne (table : Table α) {name other : String} (value : α) (h : other ≠ name) :
    (table.insert name value).get? other = table.get? other := by
  simp [get?_insert, h]

theorem contains_insert (table : Table α) (name : String) (value : α) (other : String) :
    (table.insert name value).contains other = (decide (other = name) || table.contains other) := by
  by_cases h : other = name <;> simp [contains, get?_insert, h]

theorem lookup_eq_of_pairwise {first second : List (String × α)}
    (hfirst : first.Pairwise fun a b => a.1 < b.1) (hsecond : second.Pairwise fun a b => a.1 < b.1)
    (h : ∀ name, first.lookup name = second.lookup name) : first = second := by
  induction first generalizing second with
  | nil =>
    cases second with
    | nil => rfl
    | cons b second => simpa [lookup_entry_cons] using h b.1
  | cons a first ih =>
    obtain ⟨ha, hfirst⟩ := List.pairwise_cons.1 hfirst
    cases second with
    | nil => simpa [lookup_entry_cons] using h a.1
    | cons b second =>
      obtain ⟨hb, hsecond⟩ := List.pairwise_cons.1 hsecond
      have hab : a.1 = b.1 := by
        apply eq_of_not_lt
        · intro hlt
          have hnone : ((b.1, b.2) :: second).lookup a.1 = none :=
            lookup_eq_none_of_lt fun entry hentry => by
              rcases List.mem_cons.1 hentry with rfl | hentry
              · exact hlt
              · exact String.lt_trans hlt (hb entry hentry)
          have hself := h a.1
          simp [hnone, lookup_entry_cons] at hself
        · intro hlt
          have hnone : ((a.1, a.2) :: first).lookup b.1 = none :=
            lookup_eq_none_of_lt fun entry hentry => by
              rcases List.mem_cons.1 hentry with rfl | hentry
              · exact hlt
              · exact String.lt_trans hlt (ha entry hentry)
          have hself := h b.1
          simp [hnone, lookup_entry_cons] at hself
      have hvalue : a.2 = b.2 := by
        have hself := h a.1
        simpa [lookup_entry_cons, hab] using hself
      have hrest : ∀ name, first.lookup name = second.lookup name := by
        intro name
        by_cases hname : name = a.1
        · subst hname
          rw [lookup_eq_none_of_lt ha,
            lookup_eq_none_of_lt fun entry hentry => hab ▸ hb entry hentry]
        · have hself := h name
          simpa [lookup_entry_cons, hname, ← hab] using hself
      rw [Prod.ext hab hvalue, ih hfirst hsecond hrest]

/-- A table is determined by its look-ups. -/
theorem ext_get? {first second : Table α} (h : ∀ name, first.get? name = second.get? name) :
    first = second := by
  obtain ⟨firstEntries, hfirst⟩ := first
  obtain ⟨secondEntries, hsecond⟩ := second
  have : firstEntries = secondEntries := lookup_eq_of_pairwise hfirst hsecond h
  subst this
  rfl

end Table
end MessageTemplate
