import MessageTemplate.Table

/-!
# Tables made from lists of bindings

Of several bindings of a name the last one counts. A list that is in order
already becomes the entries of its table.
-/

namespace MessageTemplate
namespace Table

variable {α : Type} {table : Table α} {bindings : List (String × α)}

theorem eq_of_entries_eq {first second : Table α} (h : first.entries = second.entries) :
    first = second :=
  ext_get? fun name => congrArg (List.lookup name) h

theorem get?_insertMany (table : Table α) (bindings : List (String × α)) (name : String) :
    (table.insertMany bindings).get? name =
      (bindings.reverse.lookup name).or (table.get? name) := by
  induction bindings generalizing table with
  | nil => rfl
  | cons binding bindings ih =>
    have hstep : (table.insertMany (binding :: bindings)).get? name =
        ((table.insert binding.1 binding.2).insertMany bindings).get? name := rfl
    rw [hstep, ih, get?_insert, List.reverse_cons, List.lookup_append, Option.or_assoc]
    congr 1
    rw [lookup_entry_cons]
    split <;> rfl

/-- The bindings have been put over those of the seeds, the last one of each name. -/
structure Overwrites (table seeds : Table α) (bindings : List (String × α)) : Prop where
  last : ∀ front name value back, bindings = front ++ (name, value) :: back →
    name ∉ back.map Prod.fst → table.get? name = some value
  others : ∀ name, name ∉ bindings.map Prod.fst → table.get? name = seeds.get? name

theorem lookup_eq_none_of_notMem {entries : List (String × α)} {name : String}
    (h : name ∉ entries.map Prod.fst) : entries.lookup name = none := by
  rw [List.lookup_eq_none_iff]
  intro entry hentry
  have hne : name ≠ entry.1 := fun heq => h (heq ▸ List.mem_map_of_mem hentry)
  simpa using hne

theorem overwrites_insertMany (seeds : Table α) (bindings : List (String × α)) :
    (seeds.insertMany bindings).Overwrites seeds bindings := by
  constructor
  · rintro front name value back rfl hback
    have hnone : back.reverse.lookup name = none :=
      lookup_eq_none_of_notMem (by simpa using hback)
    rw [get?_insertMany, List.reverse_append, List.reverse_cons, List.append_assoc,
      List.lookup_append, hnone, List.singleton_append, lookup_entry_cons, if_pos rfl]
    rfl
  · intro name hname
    have hnone : bindings.reverse.lookup name = none :=
      lookup_eq_none_of_notMem (by simpa using hname)
    rw [get?_insertMany, hnone]
    rfl

theorem insertEntry_of_forall_lt {name : String} {value : α} {entries : List (String × α)}
    (h : ∀ entry ∈ entries, entry.1 < name) :
    insertEntry name value entries = entries ++ [(name, value)] := by
  induction entries with
  | nil => rfl
  | cons first rest ih =>
    obtain ⟨hfirst, hrest⟩ := List.forall_mem_cons.1 h
    rw [insertEntry, if_neg (String.lt_asymm hfirst), if_neg (String.ne_of_lt hfirst).symm,
      ih hrest, List.cons_append]

theorem entries_insertMany (h : (table.entries ++ bindings).Pairwise fun a b => a.1 < b.1) :
    (table.insertMany bindings).entries = table.entries ++ bindings := by
  induction bindings generalizing table with
  | nil => exact (List.append_nil _).symm
  | cons binding bindings ih =>
    have hlast : ∀ entry ∈ table.entries, entry.1 < binding.1 := fun entry hentry =>
      (List.pairwise_append.1 h).2.2 entry hentry binding List.mem_cons_self
    have hinsert : (table.insert binding.1 binding.2).entries = table.entries ++ [binding] :=
      insertEntry_of_forall_lt hlast
    have hstep : ((table.insert binding.1 binding.2).insertMany bindings).entries =
        (table.insert binding.1 binding.2).entries ++ bindings := ih (by simpa [hinsert] using h)
    rw [hinsert, List.append_assoc] at hstep
    exact hstep

theorem entries_ofList (h : bindings.Pairwise fun a b => a.1 < b.1) :
    (ofList bindings).entries = bindings :=
  entries_insertMany h

theorem lookup_of_mem {entries : List (String × α)} {name : String} {value : α}
    (h : entries.Pairwise fun a b => a.1 < b.1) (hmem : (name, value) ∈ entries) :
    entries.lookup name = some value := by
  induction entries with
  | nil => contradiction
  | cons first rest ih =>
    obtain ⟨hfirst, hrest⟩ := List.pairwise_cons.1 h
    rw [lookup_entry_cons]
    rcases List.mem_cons.1 hmem with rfl | hmem
    · exact if_pos rfl
    · rw [if_neg (String.ne_of_lt (hfirst _ hmem)).symm, ih hrest hmem]

end Table
end MessageTemplate
