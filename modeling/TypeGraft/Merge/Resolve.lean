import TypeGraft.FlowType.Parser
import TypeGraft.Source.Fact

/-
  From the text of a fact to a type.

  Engines write types in type syntax but for two cases: `any`
  comes with its origin, and a class comes as its
  declaration.

  Key definitions include:
    * `normalize`
    * `resolve`
-/

namespace TypeGraft

/- How engines write `any`, with its origin. -/
def anyWithOrigin : List String :=
  ["any (explicit)", "any (implicit)"]

/- What the declaration of a class starts with. -/
def classMarker : List Char := "class ".toList

/-
  Turn an engine's text into type syntax.  `any` loses its
  origin, and the declaration of a class becomes the type of
  that class.
-/
def normalize
    (dialect : Dialect)
    (raw : String) : Except ParseError String :=
  if anyWithOrigin.contains raw then .ok "any"
  else if classMarker.isPrefixOf raw.toList then
    (parseClassName dialect raw).map
      (fun name => "typeof " ++ name)
  else .ok raw

/- The type that a fact states; one that knows nothing states none. -/
def resolve
    (dialect : Dialect)
    (fact : TypeFact) : Except ParseError (Option FlowType) :=
  if fact.isUnknown then .ok none
  else do
    let text ← normalize dialect fact.rawType
    return some (← FlowType.parse dialect text)

end TypeGraft
