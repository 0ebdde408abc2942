namespace RuleAnalysis

/-!
# Dictionaries

A dictionary binds names to values. It is listed by increasing name, where
names are ordered by code point, and binds each name once; binding a name
again replaces its value.
-/

abbrev Dictionary (α : Type) := List (String × α)

namespace Dictionary

variable {α β : Type}

def get? (d : Dictionary α) (name : String) : Option α :=
  d.lookup name

def contains (d : Dictionary α) (name : String) : Bool :=
  (d.get? name).isSome

def keys (d : Dictionary α) : List String :=
  d.map Prod.fst

/-- Binds a name at its place in the order. -/
def insert : Dictionary α → String → α → Dictionary α
  | [], name, value => [(name, value)]
  | (key, old) :: rest, name, value =>
      if name = key then (name, value) :: rest
      else if name < key then (name, value) :: (key, old) :: rest
      else (key, old) :: insert rest name value

/-- The dictionary of a list of bindings, of which the last for a name holds. -/
def ofList (bindings : List (String × α)) : Dictionary α :=
  bindings.foldl (fun d binding => d.insert binding.1 binding.2) []

/-- The bindings of both; those of the second win. -/
def override (d e : Dictionary α) : Dictionary α :=
  e.foldl (fun d binding => d.insert binding.1 binding.2) d

/-- The listing is in the order of the names, each name once. -/
def Ordered (d : Dictionary α) : Prop :=
  d.keys.Pairwise (· < ·)

theorem get?_insert_self (d : Dictionary α) (name : String) (value : α) :
    (d.insert name value).get? name = some value := by
  induction d with
  | nil => simp [insert, get?]
  | cons entry rest ih =>
      obtain ⟨key, old⟩ := entry
      by_cases same : name = key
      · simp [insert, get?, same]
      · by_cases less : name < key
        · simp [insert, get?, same, less]
        · have differs : (name == key) = false := by simpa using same
          simpa [insert, get?, same, less, List.lookup_cons, differs] using ih

theorem get?_insert_of_ne (d : Dictionary α) {name other : String} (value : α)
    (h : other ≠ name) : (d.insert name value).get? other = d.get? other := by
  have differs : (other == name) = false := by simpa using h
  induction d with
  | nil => simp [insert, get?, List.lookup_cons, differs]
  | cons entry rest ih =>
      obtain ⟨key, old⟩ := entry
      by_cases same : name = key
      · subst same
        simp [insert, get?, List.lookup_cons, differs]
      · by_cases less : name < key
        · simp [insert, get?, same, less, List.lookup_cons, differs]
        · by_cases found : other = key
          · simp [insert, get?, same, less, found]
          · have apart : (other == key) = false := by simpa using found
            simpa [insert, get?, same, less, List.lookup_cons, apart] using ih

end Dictionary

end RuleAnalysis
