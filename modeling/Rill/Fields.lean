/-!
# Fields in insertion order

A list of named values in which each name stands once. Writing a name that is already there keeps
its place; a new name goes to the end.
-/

set_option autoImplicit false

namespace Rill

/-- Named values in the order in which the names first came. -/
structure Fields (α : Type) where
  entries : List (String × α)

namespace Fields

variable {α : Type}

def empty : Fields α := ⟨[]⟩

/-- Write into a list of entries, in place if the name is there and at the end otherwise. -/
def put (name : String) (value : α) : List (String × α) → List (String × α)
  | [] => [(name, value)]
  | (key, old) :: rest =>
      if key = name then (key, value) :: rest else (key, old) :: put name value rest

def get? (fields : Fields α) (name : String) : Option α := fields.entries.lookup name

def contains (fields : Fields α) (name : String) : Bool := (fields.get? name).isSome

def insert (fields : Fields α) (name : String) (value : α) : Fields α :=
  ⟨put name value fields.entries⟩

def insertAll (fields : Fields α) (entries : List (String × α)) : Fields α :=
  entries.foldl (fun done (name, value) => done.insert name value) fields

def ofList (entries : List (String × α)) : Fields α := empty.insertAll entries

def names (fields : Fields α) : List String := fields.entries.map Prod.fst

def size (fields : Fields α) : Nat := fields.entries.length

def sorted (fields : Fields α) : List (String × α) :=
  fields.entries.mergeSort fun a b => decide (a.1 ≤ b.1)

theorem lookup_put (name key : String) (value : α) (entries : List (String × α)) :
    (put name value entries).lookup key =
      if key = name then some value else entries.lookup key := by
  induction entries with
  | nil =>
      by_cases same : key = name
      · simp [put, same]
      · simp [put, same, List.lookup_cons, beq_eq_false_iff_ne.mpr same]
  | cons entry rest ih =>
      obtain ⟨first, old⟩ := entry
      by_cases here : first = name
      · subst here
        by_cases same : key = first
        · simp [put, same]
        · simp [put, same, List.lookup_cons, beq_eq_false_iff_ne.mpr same]
      · by_cases same : key = first
        · subst same
          simp [put, here]
        · simp [put, here, List.lookup_cons, beq_eq_false_iff_ne.mpr same, ih]

theorem get?_insert (fields : Fields α) (name key : String) (value : α) :
    (fields.insert name value).get? key =
      if key = name then some value else fields.get? key :=
  lookup_put name key value fields.entries

theorem map_fst_put (name : String) (value : α) (entries : List (String × α)) :
    (put name value entries).map Prod.fst =
      if name ∈ entries.map Prod.fst then entries.map Prod.fst
      else entries.map Prod.fst ++ [name] := by
  induction entries with
  | nil => simp [put]
  | cons entry rest ih =>
      obtain ⟨first, old⟩ := entry
      by_cases here : first = name
      · simp [put, here]
      · have other : ¬ name = first := fun h => here h.symm
        by_cases inside : name ∈ rest.map Prod.fst
        · simp only [put, here, if_false, List.map_cons, ih, inside, if_true, List.mem_cons,
            or_true]
        · simp only [put, here, if_false, List.map_cons, ih, inside, List.mem_cons, other,
            or_self, List.cons_append]

theorem names_insert (fields : Fields α) (name : String) (value : α) :
    (fields.insert name value).names =
      if name ∈ fields.names then fields.names else fields.names ++ [name] :=
  map_fst_put name value fields.entries

end Fields

end Rill
