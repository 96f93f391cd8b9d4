import TypeGraft.FlowType.Basic
import TypeGraft.Json.Basic

/-
  Types as JSON nodes.

  Every node is an object whose first member `type` names it.
  What is absent is `null`.  The spelling of a number is not
  kept, and a number that is not finite is `null`.

  Key definitions include:
    * `FlowType.kindName`
    * `FlowType.toJson`
-/

namespace TypeGraft

------------------------------------------------------------
-- Names
------------------------------------------------------------

/- The node name of a keyword type. -/
def Keyword.kindName : Keyword → String
  | .any => "AnyTypeAnnotation"
  | .mixed => "MixedTypeAnnotation"
  | .empty => "EmptyTypeAnnotation"
  | .void => "VoidTypeAnnotation"
  | .null => "NullLiteralTypeAnnotation"
  | .number => "NumberTypeAnnotation"
  | .string => "StringTypeAnnotation"
  | .boolean => "BooleanTypeAnnotation"
  | .symbol => "SymbolTypeAnnotation"
  | .bigint => "BigIntTypeAnnotation"
  | .exists => "ExistsTypeAnnotation"

/- The keyword types. -/
def Keyword.all : List Keyword :=
  [.any, .mixed, .empty, .void, .null, .number, .string,
    .boolean, .symbol, .bigint, .exists]

/- The name of a variance. -/
def Variance.name : Variance → String
  | .plus => "plus"
  | .minus => "minus"

namespace FlowType

/- The node name of a type. -/
def kindName : FlowType → String
  | .keyword word => word.kindName
  | .stringLiteral _ => "StringLiteralTypeAnnotation"
  | .numberLiteral _ _ => "NumberLiteralTypeAnnotation"
  | .bigintLiteral _ => "BigIntLiteralTypeAnnotation"
  | .booleanLiteral _ => "BooleanLiteralTypeAnnotation"
  | .generic _ _ => "GenericTypeAnnotation"
  | .typeOf _ => "TypeofTypeAnnotation"
  | .nullable _ => "NullableTypeAnnotation"
  | .array _ => "ArrayTypeAnnotation"
  | .union _ => "UnionTypeAnnotation"
  | .intersection _ => "IntersectionTypeAnnotation"
  | .tuple _ => "TupleTypeAnnotation"
  | .function _ _ _ _ => "FunctionTypeAnnotation"
  | .object _ _ _ _ _ => "ObjectTypeAnnotation"

------------------------------------------------------------
-- Leaves
------------------------------------------------------------

/- A node with a name and members. -/
def node
    (kind : String)
    (members : Members) : Json :=
  .obj (("type", .str kind) :: members)

/- An identifier node. -/
def identifierJson
    (name : String) : Json :=
  node "Identifier" [("name", .str name)]

/- An identifier node or nothing. -/
def identifierJson? : Option String → Json
  | some name => identifierJson name
  | none => .null

/- A name with its qualifiers. -/
def nameJson : TypeName → Json
  | .simple name => identifierJson name
  | .qualified qualifier name =>
      node "QualifiedTypeIdentifier"
        [("qualification", nameJson qualifier),
          ("id", identifierJson name)]

/- A variance or nothing. -/
def varianceJson : Option Variance → Json
  | some v => node "Variance" [("kind", .str v.name)]
  | none => .null

/- A property key. -/
def keyJson : PropertyKey → Json
  | .identifier name => identifierJson name
  | .string value =>
      node "StringLiteral" [("value", .str value)]

/- A number, or `null` for one that is not finite. -/
def numberJson : Binary64 → Json
  | .finite s m q h => .num (.real (.finite s m q h))
  | .infinite _ => .null
  | .nan => .null

------------------------------------------------------------
-- Types
------------------------------------------------------------

mutual

/- The node of a type. -/
def toJson : FlowType → Json
  | .keyword word => node word.kindName []
  | .stringLiteral value =>
      node "StringLiteralTypeAnnotation"
        [("value", .str value)]
  | .numberLiteral value _ =>
      node "NumberLiteralTypeAnnotation"
        [("value", numberJson value)]
  | .bigintLiteral text =>
      node "BigIntLiteralTypeAnnotation" [("value", .str text)]
  | .booleanLiteral value =>
      node "BooleanLiteralTypeAnnotation"
        [("value", .bool value)]
  | .generic name none =>
      node "GenericTypeAnnotation"
        [("id", nameJson name), ("typeParameters", .null)]
  | .generic name (some args) =>
      node "GenericTypeAnnotation"
        [("id", nameJson name),
          ("typeParameters",
            node "TypeParameterInstantiation"
              [("params", .arr (listJson args))])]
  | .typeOf argument =>
      node "TypeofTypeAnnotation"
        [("argument", toJson argument)]
  | .nullable inner =>
      node "NullableTypeAnnotation"
        [("typeAnnotation", toJson inner)]
  | .array element =>
      node "ArrayTypeAnnotation"
        [("elementType", toJson element)]
  | .union members =>
      node "UnionTypeAnnotation"
        [("types", .arr (listJson members))]
  | .intersection members =>
      node "IntersectionTypeAnnotation"
        [("types", .arr (listJson members))]
  | .tuple members =>
      node "TupleTypeAnnotation"
        [("types", .arr (listJson members))]
  | .function typeParams params rest result =>
      node "FunctionTypeAnnotation"
        [("typeParameters", typeParamsJson typeParams),
          ("params", .arr (paramsJson params)),
          ("rest", restJson rest),
          ("returnType", toJson result)]
  | .object properties indexers calls exact inexact =>
      node "ObjectTypeAnnotation"
        [("properties", .arr (propertiesJson properties)),
          ("indexers", .arr (indexersJson indexers)),
          ("callProperties", .arr (callsJson calls)),
          ("exact", .bool exact),
          ("inexact", .bool inexact)]

/- The nodes of types. -/
def listJson : List FlowType → List Json
  | [] => []
  | t :: ts => toJson t :: listJson ts

/- The node of a type or nothing. -/
def optionJson : Option FlowType → Json
  | some t => toJson t
  | none => .null

/- The node of a type parameter declaration or nothing. -/
def typeParamsJson :
    Option (List (TypeParameter FlowType)) → Json
  | some ts =>
      node "TypeParameterDeclaration"
        [("params", .arr (typeParamListJson ts))]
  | none => .null

/- The nodes of type parameters. -/
def typeParamListJson :
    List (TypeParameter FlowType) → List Json
  | [] => []
  | t :: ts =>
      node "TypeParameter"
        [("name", .str t.name),
          ("variance", varianceJson t.variance),
          ("bound", optionJson t.bound),
          ("default", optionJson t.default)] ::
        typeParamListJson ts

/- The nodes of parameters. -/
def paramsJson : List (Parameter FlowType) → List Json
  | [] => []
  | p :: ps =>
      node "FunctionTypeParam"
        [("name", identifierJson? p.name),
          ("optional", .bool p.optional),
          ("typeAnnotation", toJson p.type)] ::
        paramsJson ps

/- The node of a rest parameter or nothing. -/
def restJson : Option (Parameter FlowType) → Json
  | some p =>
      node "FunctionTypeParam"
        [("name", identifierJson? p.name),
          ("optional", .bool p.optional),
          ("typeAnnotation", toJson p.type)]
  | none => .null

/- The nodes of properties. -/
def propertiesJson : List (Property FlowType) → List Json
  | [] => []
  | .entry key value optional method static variance :: ps =>
      node "ObjectTypeProperty"
        [("key", keyJson key),
          ("value", toJson value),
          ("optional", .bool optional),
          ("method", .bool method),
          ("static", .bool static),
          ("variance", varianceJson variance)] ::
        propertiesJson ps
  | .spread argument :: ps =>
      node "ObjectTypeSpreadProperty"
        [("argument", toJson argument)] ::
        propertiesJson ps

/- The nodes of indexers. -/
def indexersJson : List (Indexer FlowType) → List Json
  | [] => []
  | i :: is =>
      node "ObjectTypeIndexer"
        [("id", identifierJson? i.id),
          ("key", toJson i.key),
          ("value", toJson i.value),
          ("variance", varianceJson i.variance)] ::
        indexersJson is

/- The nodes of call properties. -/
def callsJson : List (CallProperty FlowType) → List Json
  | [] => []
  | c :: cs =>
      node "ObjectTypeCallProperty"
        [("value", toJson c.value),
          ("static", .bool c.static)] ::
        callsJson cs

end

end FlowType

end TypeGraft
