import TypeGraft.Json.Record
import TypeGraft.Tree.Basic

/-
  Which nodes may carry a type.

  The kind of a node and the kind of its parent decide.
  Nodes whose type is their own text are excluded, as are
  those of which engines say nothing useful; a table of kinds
  overrides these rules.

  Key definitions include:
    * `Override`
    * `isExcluded`
    * `Eligibility`
    * `Eligibility.isEligible`
    * `Eligibility.targets`
-/

namespace TypeGraft

------------------------------------------------------------
-- Rules
------------------------------------------------------------

/- Kinds excluded one by one. -/
def excludedKinds : List String :=
  ["NewExpression", "UnaryExpression",
    "TypeParameterDeclaration", "ArrowFunctionExpression",
    "VariableDeclaration", "ExportNamedDeclaration"]

/- Kinds excluded together with their children. -/
def excludedFamilies : List String :=
  ["TypeAlias", "GenericTypeAnnotation"]

/- Is a node excluded, by its kind and that of its parent? -/
def isExcluded
    (kind : NodeKind)
    (parent : Option NodeKind) : Bool :=
  kind.isRoot || kind.isImport ||
    kind.isOneOf excludedFamilies ||
    parent.any (fun p => p.isOneOf excludedFamilies) ||
    kind.isOneOf excludedKinds ||
    kind.isLiteral || kind.isStatement || kind.isPrimitiveType

------------------------------------------------------------
-- Overrides
------------------------------------------------------------

/- What the table says about a kind. -/
inductive Override where
  | always
  | never
deriving DecidableEq, Repr

namespace Override

/- The name of an override. -/
def name : Override → String
  | .always => "always"
  | .never => "never"

/- The overrides. -/
def all : List Override := [.always, .never]

end Override

/- A table of overrides; the first entry of a kind counts. -/
structure Eligibility where
  overrides : List (NodeKind × Override) :=
    [(.identifier, .always)]

namespace Eligibility

/- Set the override of a kind. -/
def set
    (e : Eligibility)
    (kind : NodeKind)
    (value : Override) : Eligibility :=
  ⟨(kind, value) :: e.overrides⟩

/- The usual table, extended by further overrides in order. -/
def ofOverrides
    (overrides : List (NodeKind × Override)) : Eligibility :=
  overrides.foldl (fun e o => e.set o.1 o.2) {}

/- The override of a kind. -/
def override?
    (e : Eligibility)
    (kind : NodeKind) : Option Override :=
  e.overrides.lookup kind

/- May a node carry a type? -/
def isEligible
    (e : Eligibility)
    (kind : NodeKind)
    (parent : Option NodeKind) : Bool :=
  match e.override? kind with
  | some .always => true
  | some .never => false
  | none => !isExcluded kind parent

/- May a node of a tree carry a type? -/
def admits
    (e : Eligibility)
    (t : Tree)
    (id : NodeId) : Bool :=
  match t.get? id with
  | none => false
  | some n =>
      e.isEligible n.kind
        ((n.parent.bind t.get?).map Node.kind)

/- The nodes that may carry a type, parents first. -/
def targets
    (e : Eligibility)
    (t : Tree) : List NodeId :=
  t.preorder.filter (e.admits t)

/- Read overrides from an object from kinds to choices. -/
def overridesOfData?
    (rules : DataRules)
    (v : Json) : Option (List (String × Override)) := do
  (← v.asMembers?).mapM (fun m => do
    return (m.1,
      ← rules.choice? Override.all Override.name m.2))

end Eligibility

end TypeGraft
