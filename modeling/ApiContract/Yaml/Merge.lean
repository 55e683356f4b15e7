import ApiContract.Yaml.Node

/-! # Merged entries

A merge key stands for the entries of another map, or of a list of maps with the
first map last. They come before the own entries of the map around it, so that an
own entry wins. Merging changes the nodes themselves, and a merge key is gone from
its map as soon as it is followed, so that maps which merge each other come to an
end. The mark of a plain value is a text as a key.
-/
namespace ApiContract.Yaml

namespace Graph

abbrev Entries := List (Nat × Nat)

def hasTag (g : Graph) (tag : Tag) (id : Nat) : Bool := (g[id]?.map Node.tag) == some tag

def entries (g : Graph) (id : Nat) : Entries :=
  match g[id]? with
  | some (.map _ entries) => entries
  | _ => []

def setEntries (g : Graph) (id : Nat) (entries : Entries) : Graph :=
  match g[id]? with
  | some (.map tag _) => g.setIfInBounds id (.map tag entries)
  | _ => g

/-- The value of the first merge key, and the entries without it. -/
def firstMerge? (g : Graph) : Entries → Option (Nat × Entries)
  | [] => none
  | e :: rest =>
    if g.hasTag .merge e.1 then some (e.2, rest)
    else (firstMerge? g rest).map fun found => (found.1, e :: found.2)

def plainKey (g : Graph) (id : Nat) : Graph :=
  if g.hasTag .value id then g.modify id (Node.withTag .text) else g

def plainKeys (g : Graph) (entries : Entries) : Graph :=
  entries.foldl (fun g e => g.plainKey e.1) g

/-- A change of the nodes that leaves a map without merge keys. -/
abbrev Merging := Nat → Graph → Result Graph

def mergedItems (merge : Merging) : List Nat → Graph → Result (Entries × Graph)
  | [], g => .ok ([], g)
  | id :: rest, g =>
    match g[id]? with
    | some (.map ..) => do
      let merged ← merge id g
      let (others, final) ← mergedItems merge rest merged
      pure (others ++ merged.entries id, final)
    | _ => .error .malformed

def mergedEntries (merge : Merging) (value : Nat) (g : Graph) : Result (Entries × Graph) :=
  match g[value]? with
  | some (.map ..) => do
    let merged ← merge value g
    pure (merged.entries value, merged)
  | some (.list _ items) => mergedItems merge items g
  | _ => .error .malformed

def mergeWithin : Nat → Merging
  | 0, _, g => .ok g
  | fuel + 1, id, g =>
    match g.firstMerge? (g.entries id) with
    | none => .ok (g.plainKeys (g.entries id))
    | some (value, rest) => do
      let (new, behind) ← mergedEntries (mergeWithin fuel) value (g.setEntries id rest)
      let merged ← mergeWithin fuel id behind
      pure (merged.setEntries id (new ++ merged.entries id))

def entryCount (g : Graph) : Nat :=
  ((List.range g.size).map fun n => (g.entries n).length).foldl (· + ·) 0

/-- Follows the merge keys of a map; each is followed once. -/
def merge (id : Nat) (g : Graph) : Result Graph :=
  let entries := g.entries id
  if (g.firstMerge? entries).isSome then mergeWithin (g.entryCount + 1) id g
  else .ok (g.plainKeys entries)

end Graph

end ApiContract.Yaml
