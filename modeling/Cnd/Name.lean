/-!
Qualified names: a namespace URI and a local name. The wildcard, written as an asterisk, is the
name that no text resolves to.
-/

namespace Cnd

structure Name where
  uri : String
  localName : String
  deriving DecidableEq, Repr, Inhabited

namespace Name

/-- The name of members whose own name is left open. -/
def wildcard : Name := ⟨"", "*"⟩

def isWildcard (n : Name) : Bool := n == wildcard

/-- The namespace of the built-in node types. -/
def nodeTypeUri : String := "http://www.jcp.org/jcr/nt/1.0"

/-- The type that all node types extend. -/
def base : Name := ⟨nodeTypeUri, "base"⟩

/-- The URI in braces and the local name; an asterisk for the wildcard. -/
def expanded (n : Name) : String :=
  if n.isWildcard then "*" else "\x7b" ++ n.uri ++ "\x7d" ++ n.localName

/-- By URI, then by local name, each by code points. -/
def le (a b : Name) : Bool :=
  if a.uri == b.uri then a.localName ≤ b.localName else a.uri < b.uri

end Name

end Cnd
