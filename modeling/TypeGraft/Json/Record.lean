import TypeGraft.Json.Basic

/-
  Records and choices in data.

  A record is an object with a member for each field, or an
  array with the fields in order.  A choice is the name of an
  option, or an object whose one member has that name.  What
  stands beside the name, and whether an array may be longer
  than the record, depends on the data format.

  Key definitions include:
    * `DataRules`
    * `DataRules.json`
    * `DataRules.fields?`
    * `DataRules.choice?`
-/

namespace TypeGraft

/- How a data format writes records and choices. -/
structure DataRules where
  /- Are items after the last field of a record ignored? -/
  ignoreSurplus : Bool
  /- May the value stand beside the name of an option? -/
  isPayload : Json → Bool

namespace DataRules

/- The rules of JSON itself. -/
def json : DataRules where
  ignoreSurplus := false
  isPayload
    | .null => true
    | _ => false

/- The rules of configuration files, which have no `null`. -/
def toml : DataRules where
  ignoreSurplus := true
  isPayload
    | .obj [] => true
    | .arr [] => true
    | _ => false

/-
  The fields of a record in the order of their names.  A
  closed record has no other members.
-/
def fields?
    (rules : DataRules)
    (names : List String)
    (closed : Bool) :
    Json → Option (List (Option Json))
  | .obj members =>
      if closed && members.any (fun m => !names.contains m.1) then
        none
      else some (names.map (Members.get? members))
  | .arr items =>
      if !rules.ignoreSurplus && names.length < items.length then
        none
      else
        some ((List.range names.length).map (fun i => items[i]?))
  | _ => none

/- The name of the option that a value chooses. -/
def choiceName?
    (rules : DataRules) :
    Json → Option String
  | .str name => some name
  | .obj [(name, payload)] =>
      if rules.isPayload payload then some name else none
  | _ => none

/- The option that a value chooses. -/
def choice?
    {α : Type}
    (rules : DataRules)
    (options : List α)
    (name : α → String)
    (v : Json) : Option α :=
  (rules.choiceName? v).bind
    (fun n => options.find? (fun o => name o = n))

end DataRules

namespace Json

/- The items of an array. -/
def asItems? : Json → Option (List Json)
  | .arr items => some items
  | _ => none

/- A truth value. -/
def asBool? : Json → Option Bool
  | .bool b => some b
  | _ => none

/-
  A field that takes a default when it is absent, and has to
  be right when it is there.
-/
def orDefault
    {α : Type}
    (read : Json → Option α)
    (default : α) :
    Option Json → Option α
  | none => some default
  | some v => read v

/- A field that may be absent or `null`. -/
def optional
    {α : Type}
    (read : Json → Option α) :
    Option Json → Option (Option α)
  | none => some none
  | some .null => some none
  | some v => (read v).map some

end Json

end TypeGraft
