namespace DirectiveIndex

/-- Pairs of different keys and their values, in the order in which the keys came in. -/
abbrev OrderedMap (κ α : Type) := List (κ × α)

namespace OrderedMap

variable {κ α : Type} [BEq κ]

/-- Gives a key a value, in the key's place or else at the end. -/
def put (key : κ) (value : α) : OrderedMap κ α → OrderedMap κ α
  | [] => [(key, value)]
  | entry :: entries =>
    if entry.1 == key then (key, value) :: entries else entry :: put key value entries

/-- The map without a key. -/
def erase (key : κ) (entries : OrderedMap κ α) : OrderedMap κ α :=
  entries.filter fun entry => !(entry.1 == key)

/-- The keys in order. -/
def keys (entries : OrderedMap κ α) : List κ :=
  entries.map (·.1)

/-- The map that holds the last value given to each key, in the order of the first ones. -/
def ofList (entries : List (κ × α)) : OrderedMap κ α :=
  entries.foldl (fun map entry => put entry.1 entry.2 map) []

end OrderedMap

end DirectiveIndex
