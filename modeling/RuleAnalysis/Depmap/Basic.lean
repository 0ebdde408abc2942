import RuleAnalysis.Action.Basic

namespace RuleAnalysis

/-!
# Depmaps

A depmap is declared entry by entry and then recorded as an action that builds
it. An entry that has a place must lie beneath the root of the tree; an entry
without one is laid over the whole tree.
-/

/-- A tree that is to be built. -/
structure Depmap where
  /-- The id that the action shall bear. -/
  id : Option String
  entries : List (LabelPath × DepmapEntry)

namespace Depmap

def empty (id : Option String) : Depmap := ⟨id, []⟩

def isEmpty (d : Depmap) : Bool := d.entries.isEmpty

/-- Lays an entry over what is at a path. -/
def insert (d : Depmap) (path : LabelPath) (entry : DepmapEntry) : Except LabelError Depmap := do
  let path ← path.normalizeDescending
  return { d with entries := d.entries ++ [(path, entry)] }

/-- Lays an entry over the whole tree. -/
def merge (d : Depmap) (entry : DepmapEntry) : Depmap :=
  { d with entries := d.entries ++ [(.top, entry)] }

/-- Lays the tree at an address over the whole tree. -/
def mergeTree (d : Depmap) (tree : Label) : Depmap :=
  d.merge (.reference tree)

/-- The action that builds the tree. It needs no platform, so its id is final. -/
def action (d : Depmap) : Action :=
  let action := Action.ofData (.buildDepmap d.entries)
  d.id.elim action action.withId

end Depmap

end RuleAnalysis
