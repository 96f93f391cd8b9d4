import TypeGraft.Numeral.Binary64

/-
  JSON values whose objects keep their members in order.

  Key definitions include:
    * `Number`
    * `Json`
    * `Members`
    * `Members.get?`
    * `Members.insert`
    * `Members.eraseSwap`
    * `Json.beq`
    * `Json.asNat?`
    * `Json.depth`
-/

namespace TypeGraft

------------------------------------------------------------
-- Values
------------------------------------------------------------

/-
  A JSON number.  Whole numbers are those between
  `-2 ^ 63` and `2 ^ 64 - 1` that are written without a
  fraction and an exponent; all others are doubles.
-/
inductive Number where
  | whole (z : Int)
  | real (x : Binary64)
deriving DecidableEq, Repr

/- Are two numbers of one kind and equal? -/
def Number.same : Number → Number → Bool
  | .whole a, .whole b => a = b
  | .real a, .real b => a.same b
  | _, _ => false

/- A JSON value. -/
inductive Json where
  | null
  | bool (b : Bool)
  | num (n : Number)
  | str (s : String)
  | arr (items : List Json)
  | obj (members : List (String × Json))

instance : Inhabited Json := ⟨.null⟩

/- The members of a JSON object, in order. -/
abbrev Members := List (String × Json)

------------------------------------------------------------
-- Members
------------------------------------------------------------

namespace Members

/- The value of the first member with a key. -/
def get? : Members → String → Option Json
  | [], _ => none
  | (k, v) :: ms, key => if k = key then some v else get? ms key

/-
  Set a member: the value of a key that is there changes in
  its place, a new key goes to the end.
-/
def insert : Members → String → Json → Members
  | [], key, value => [(key, value)]
  | (k, v) :: ms, key, value =>
      if k = key then (k, value) :: ms
      else (k, v) :: insert ms key value

/-
  Remove a member and close its gap with the last member, so
  that all others stay where they are.
-/
def eraseSwap
    (ms : Members)
    (key : String) : Members :=
  match ms.findIdx? (fun m => m.1 = key) with
  | none => ms
  | some i =>
      let front := ms.take i
      let back := ms.drop (i + 1)
      match back.getLast? with
      | none => front
      | some m => front ++ m :: back.dropLast

end Members

------------------------------------------------------------
-- Equality
------------------------------------------------------------

namespace Json

mutual

/- Are two values the same?  The order of members is free. -/
def beq : Json → Json → Bool
  | .null, .null => true
  | .bool a, .bool b => a = b
  | .num a, .num b => a.same b
  | .str a, .str b => a = b
  | .arr as, .arr bs => beqItems as bs
  | .obj as, .obj bs =>
      as.length = bs.length && holdsMembers bs as
  | _, _ => false
termination_by structural v => v

/- Are two lists of values the same? -/
def beqItems : List Json → List Json → Bool
  | [], [] => true
  | a :: as, b :: bs => beq a b && beqItems as bs
  | _, _ => false
termination_by structural vs => vs

/- Does an object have some members, with the same values? -/
def holdsMembers
    (bs : List (String × Json)) :
    List (String × Json) → Bool
  | [] => true
  | (k, a) :: as =>
      (match Members.get? bs k with
      | some b => beq a b
      | none => false) && holdsMembers bs as
termination_by structural ms => ms

end

instance : BEq Json := ⟨beq⟩

end Json

/- Are the members of two objects the same, in any order? -/
def Members.same
    (as bs : Members) : Bool :=
  (Json.obj as).beq (.obj bs)

namespace Json

------------------------------------------------------------
-- Constructors
------------------------------------------------------------

/- A natural number as a JSON value. -/
def ofNat
    (n : Nat) : Json :=
  .num (.whole n)

------------------------------------------------------------
-- Views
------------------------------------------------------------

/- The text of a string value. -/
def asText? : Json → Option String
  | .str s => some s
  | _ => none

/- The members of an object. -/
def asMembers? : Json → Option Members
  | .obj ms => some ms
  | _ => none

/- The natural number written as a whole number. -/
def asNat? : Json → Option Nat
  | .num (.whole z) => if 0 ≤ z then some z.toNat else none
  | _ => none

/- A natural number below `2 ^ 32`. -/
def asNat32?
    (v : Json) : Option Nat :=
  match v.asNat? with
  | some n => if n < twoTo 32 then some n else none
  | none => none

theorem asNat32?_eq_some_iff
    {v : Json}
    {n : Nat} :
    v.asNat32? = some n ↔
      n < twoTo 32 ∧ v = .num (.whole n) := by
  cases v with
  | num x =>
      cases x with
      | whole z =>
          simp only [asNat32?, asNat?, num.injEq,
            Number.whole.injEq]
          split
          · split <;> grind
          · grind
      | real x => simp [asNat32?, asNat?]
  | _ => simp [asNat32?, asNat?]

mutual

/- How deep arrays and objects nest in a value. -/
def depth : Json → Nat
  | .null => 0
  | .bool _ => 0
  | .num _ => 0
  | .str _ => 0
  | .arr items => depthItems items + 1
  | .obj members => depthMembers members + 1

/- How deep arrays and objects nest in any of the values. -/
def depthItems : List Json → Nat
  | [] => 0
  | v :: vs => max (depth v) (depthItems vs)

/- How deep arrays and objects nest in any of the members. -/
def depthMembers : List (String × Json) → Nat
  | [] => 0
  | (_, v) :: ms => max (depth v) (depthMembers ms)

end

/- A member of an object. -/
def get?
    (v : Json)
    (key : String) : Option Json :=
  match v with
  | .obj ms => Members.get? ms key
  | _ => none

end Json

end TypeGraft
