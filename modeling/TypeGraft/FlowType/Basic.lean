import TypeGraft.Numeral.Binary64

/-
  Flow type expressions.

  Key definitions include:
    * `Keyword`
    * `TypeName`
    * `Variance`
    * `PropertyKey`
    * `TypeParameter`
    * `Parameter`
    * `Property`
    * `Indexer`
    * `CallProperty`
    * `FlowType`
    * `FlowType.named`
    * `FlowType.typeOfNamed`
    * `FlowType.same`
-/

namespace TypeGraft

------------------------------------------------------------
-- Names and Keywords
------------------------------------------------------------

/- Types that are a single word, and the star. -/
inductive Keyword where
  | any
  | mixed
  | empty
  | void
  | null
  | number
  | string
  | boolean
  | symbol
  | bigint
  | exists
deriving DecidableEq, Repr

/- The name of a referenced type, possibly with qualifiers. -/
inductive TypeName where
  | simple (name : String)
  | qualified (qualifier : TypeName) (name : String)
deriving DecidableEq, Repr

namespace TypeName

/- The name whose dotted parts are a first part and others. -/
def ofParts
    (first : String)
    (others : List String) : TypeName :=
  others.foldl .qualified (.simple first)

/- The name itself, if it has no qualifier. -/
def asSimple? : TypeName → Option String
  | .simple name => some name
  | .qualified _ _ => none

end TypeName

/- Whether a position only gives or only takes values. -/
inductive Variance where
  | plus
  | minus
deriving DecidableEq, Repr

/- The key of an object property. -/
inductive PropertyKey where
  | identifier (name : String)
  | string (value : String)
deriving DecidableEq, Repr

------------------------------------------------------------
-- Parts of Types
------------------------------------------------------------

/- A declared type parameter. -/
structure TypeParameter (τ : Type) where
  name : String
  variance : Option Variance
  bound : Option τ
  default : Option τ
deriving DecidableEq, Repr

/- A parameter of a function type. -/
structure Parameter (τ : Type) where
  name : Option String
  optional : Bool
  type : τ
deriving DecidableEq, Repr

/- A property of an object type. -/
inductive Property (τ : Type) where
  | entry
      (key : PropertyKey)
      (value : τ)
      (optional method static : Bool)
      (variance : Option Variance)
  | spread (argument : τ)
deriving DecidableEq, Repr

/- An indexer of an object type. -/
structure Indexer (τ : Type) where
  id : Option String
  key : τ
  value : τ
  variance : Option Variance
deriving DecidableEq, Repr

/- A call property of an object type. -/
structure CallProperty (τ : Type) where
  value : τ
  static : Bool
deriving DecidableEq, Repr

------------------------------------------------------------
-- Types
------------------------------------------------------------

/- A Flow type expression. -/
inductive FlowType where
  | keyword (word : Keyword)
  | stringLiteral (value : String)
  /- The number and how it was written, if that is known. -/
  | numberLiteral (value : Binary64) (raw : String)
  | bigintLiteral (text : String)
  | booleanLiteral (value : Bool)
  | generic (name : TypeName) (args : Option (List FlowType))
  | typeOf (argument : FlowType)
  | nullable (inner : FlowType)
  | array (element : FlowType)
  | union (members : List FlowType)
  | intersection (members : List FlowType)
  | tuple (members : List FlowType)
  | function
      (typeParams : Option (List (TypeParameter FlowType)))
      (params : List (Parameter FlowType))
      (rest : Option (Parameter FlowType))
      (result : FlowType)
  | object
      (properties : List (Property FlowType))
      (indexers : List (Indexer FlowType))
      (calls : List (CallProperty FlowType))
      (exact inexact : Bool)

instance : Inhabited FlowType := ⟨.keyword .any⟩

namespace FlowType

/- A reference to a named type without arguments. -/
def named
    (name : String) : FlowType :=
  .generic (.simple name) none

/- The type of a named value. -/
def typeOfNamed
    (name : String) : FlowType :=
  .typeOf (named name)

------------------------------------------------------------
-- Equality
------------------------------------------------------------

mutual

/- Are two types the same, number spellings included? -/
def same : FlowType → FlowType → Bool
  | .keyword a, .keyword b => a = b
  | .stringLiteral a, .stringLiteral b => a = b
  | .numberLiteral a r, .numberLiteral b s =>
      a.same b && r = s
  | .bigintLiteral a, .bigintLiteral b => a = b
  | .booleanLiteral a, .booleanLiteral b => a = b
  | .generic a none, .generic b none => a = b
  | .generic a (some xs), .generic b (some ys) =>
      a = b && sameList xs ys
  | .typeOf a, .typeOf b => same a b
  | .nullable a, .nullable b => same a b
  | .array a, .array b => same a b
  | .union xs, .union ys => sameList xs ys
  | .intersection xs, .intersection ys => sameList xs ys
  | .tuple xs, .tuple ys => sameList xs ys
  | .function ts ps r a, .function us qs s b =>
      sameTypeParams ts us && sameParams ps qs &&
        sameRest r s && same a b
  | .object ps is cs e i, .object qs js ds f j =>
      sameProperties ps qs && sameIndexers is js &&
        sameCalls cs ds && e = f && i = j
  | _, _ => false
termination_by structural t => t

/- Are two lists of types the same? -/
def sameList : List FlowType → List FlowType → Bool
  | [], [] => true
  | a :: as, b :: bs => same a b && sameList as bs
  | _, _ => false
termination_by structural t => t

/- Are two types that may be absent the same? -/
def sameOption : Option FlowType → Option FlowType → Bool
  | none, none => true
  | some a, some b => same a b
  | _, _ => false
termination_by structural t => t

/- Are two type parameter declarations the same? -/
def sameTypeParams :
    Option (List (TypeParameter FlowType)) →
    Option (List (TypeParameter FlowType)) → Bool
  | none, none => true
  | some as, some bs => sameTypeParamList as bs
  | _, _ => false
termination_by structural t => t

/- Are two lists of type parameters the same? -/
def sameTypeParamList :
    List (TypeParameter FlowType) →
    List (TypeParameter FlowType) → Bool
  | [], [] => true
  | a :: as, b :: bs =>
      a.name = b.name && a.variance = b.variance &&
        sameOption a.bound b.bound &&
        sameOption a.default b.default &&
        sameTypeParamList as bs
  | _, _ => false
termination_by structural t => t

/- Are two lists of parameters the same? -/
def sameParams :
    List (Parameter FlowType) →
    List (Parameter FlowType) → Bool
  | [], [] => true
  | a :: as, b :: bs =>
      a.name = b.name && a.optional = b.optional &&
        same a.type b.type && sameParams as bs
  | _, _ => false
termination_by structural t => t

/- Are two rest parameters the same? -/
def sameRest :
    Option (Parameter FlowType) →
    Option (Parameter FlowType) → Bool
  | none, none => true
  | some a, some b =>
      a.name = b.name && a.optional = b.optional &&
        same a.type b.type
  | _, _ => false
termination_by structural t => t

/- Are two lists of properties the same? -/
def sameProperties :
    List (Property FlowType) →
    List (Property FlowType) → Bool
  | [], [] => true
  | .entry k a o m s v :: as, .entry l b p n t w :: bs =>
      k = l && same a b && o = p && m = n && s = t && v = w &&
        sameProperties as bs
  | .spread a :: as, .spread b :: bs =>
      same a b && sameProperties as bs
  | _, _ => false
termination_by structural t => t

/- Are two lists of indexers the same? -/
def sameIndexers :
    List (Indexer FlowType) →
    List (Indexer FlowType) → Bool
  | [], [] => true
  | a :: as, b :: bs =>
      a.id = b.id && same a.key b.key &&
        same a.value b.value && a.variance = b.variance &&
        sameIndexers as bs
  | _, _ => false
termination_by structural t => t

/- Are two lists of call properties the same? -/
def sameCalls :
    List (CallProperty FlowType) →
    List (CallProperty FlowType) → Bool
  | [], [] => true
  | a :: as, b :: bs =>
      same a.value b.value && a.static = b.static &&
        sameCalls as bs
  | _, _ => false
termination_by structural t => t

end

instance : BEq FlowType := ⟨same⟩

end FlowType

end TypeGraft
