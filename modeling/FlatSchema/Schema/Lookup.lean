import FlatSchema.Schema.Basic
import FlatSchema.Text.Split

/-!
# Looking up type names

A name is cut at its last dot into a qualifier and a simple name.  An unqualified name is first
looked for in the namespace it is used in.  Then come the namespace that is the qualifier itself,
and the qualifier below each dotted ancestor of the namespace of use, the longest first: inside
`a.b`, the name `m.Y` is `m.Y`, or else `a.b.m.Y`, or else `a.m.Y`.
-/

namespace FlatSchema

/-! ## Algorithm -/

/-- The dotted prefixes of a name, the longest first; the empty name has none. -/
def ancestors (name : String) : List String :=
  if name = "" then []
  else
    let ps := Text.pieces '.' name
    (List.range ps.length).reverse.map fun n => Text.join '.' (ps.take (n + 1))

namespace Schema

/-- The namespaces in which a name with this qualifier is looked for, in order, by name. -/
def searchOrder (space qualifier : String) : List String :=
  (if qualifier = "" then [space] else [])
    ++ qualifier :: (ancestors space).map fun p =>
      if qualifier = "" then p else p ++ "." ++ qualifier

def childOf? (s : Schema) (space name : String) : Option TypeId :=
  (s.namespaceId? space).bind (s.child? · name)

def findType? (s : Schema) (ns : NamespaceId) (name : String) : Option TypeId :=
  let (qualifier, simple) := Text.splitLast '.' name
  (searchOrder (s.namespaceName ns) qualifier).findSome? (s.childOf? · simple)

end Schema

example : ancestors "a.b.c" = ["a.b.c", "a.b", "a"] := by decide +kernel
example : Schema.searchOrder "a.b" "m" = ["m", "a.b.m", "a.m"] := by decide +kernel
example : Schema.searchOrder "a.b" "" = ["a.b", "", "a.b", "a"] := by decide +kernel

end FlatSchema
