import Cnd.Namespaces.Basic

/-!
Tables in use: they are made of pairs, declared into and copied, in any order.

A declaration that is refused, or a table that cannot be made, leaves all tables as they are.
-/

namespace Cnd.Namespaces

/-- Declare pairs one after the other, no prefix against a binding; the first refusal ends it. -/
def declareAll (ns : Namespaces) : List (Data × Data) → Except NameError Namespaces
  | [] => .ok ns
  | (pfx, uri) :: rest =>
    match ns.declareData .error pfx uri with
    | .error e => .error e
    | .ok (ns, _) => ns.declareAll rest

/-- The built-in prefixes as plain values. -/
def builtinPairs : List (Data × Data) := builtinBindings.map fun b => (.text b.1, .text b.2)

/-- The table of the given pairs, behind the built-in prefixes if these are asked for. -/
def ofPairs (builtins : Bool) (pairs : List (Data × Data)) : Except NameError Namespaces :=
  empty.declareAll ((if builtins then builtinPairs else []) ++ pairs)

/-- What can be done with the tables in use. -/
inductive Action where
  | make (builtins : Bool) (pairs : List (Data × Data))
  | declare (index : Nat) (policy : ConflictPolicy) (pfx uri : Data)
  | copy (index : Nat)

/-- The table after a declaration, which may be refused. -/
def afterDeclaring (ns : Namespaces) (policy : ConflictPolicy) (pfx uri : Data) : Namespaces :=
  match ns.declareData policy pfx uri with
  | .ok (ns', _) => ns'
  | .error _ => ns

/-- The tables in use after an action. -/
def step (tables : List Namespaces) : Action → List Namespaces
  | .make builtins pairs =>
    match ofPairs builtins pairs with
    | .ok ns => tables ++ [ns]
    | .error _ => tables
  | .declare i policy pfx uri => tables.modify i (afterDeclaring · policy pfx uri)
  | .copy i => tables ++ tables[i]?.toList

/-- The tables in use after actions, none being there at first. -/
def run (actions : List Action) : List Namespaces := actions.foldl step []

/-- A table that some actions lead to. -/
def Reachable (ns : Namespaces) : Prop := ∃ actions, ns ∈ run actions

end Cnd.Namespaces
