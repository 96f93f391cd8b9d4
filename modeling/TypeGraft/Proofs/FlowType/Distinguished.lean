import Mathlib.Data.List.Forall2
import Mathlib.Data.List.Perm.Subperm
import TypeGraft.FlowType.Encoding
import TypeGraft.Proofs.Json.Keys

/-
  Encoded types tell types apart.

  Two types whose nodes are equal differ at most in their
  number literals.  Nodes are compared as values of JSON,
  where the order of members does not count; so what tells two
  types apart is never only a place in a list of members.

  Key definitions include:
    * `Json.Equal`
    * `FlowType.replaceNumbers`
    * `FlowType.eraseNumbers`
    * `FlowType.settleNumbers`
    * `FlowType.NumberView`

  Main declarations:
    * `Json.Equal.of_beq`
    * `Json.Equal.forall₂_of_keys`
    * `FlowType.kind_eq_of_equal`
    * `FlowType.parts_of_equal`
    * `FlowType.ctorIdx_eq_of_equal`
    * `FlowType.replaceNumbers_of_equal`
    * `FlowType.eq_of_equal_nodes`
-/

namespace TypeGraft

------------------------------------------------------------
-- Equal Values
------------------------------------------------------------

/-
  The number, without a sign if it is zero or infinite.  What
  is not a number is as if it were infinite.
-/
def Binary64.settled
    (x : Binary64) : Binary64 :=
  match x with
  | .finite _ 0 _ _ => .zero false
  | .finite s m q h => .finite s m q h
  | .infinite _ => .infinite false
  | .nan => .infinite false

theorem Binary64.settled_of_isZero
    {x : Binary64}
    (h : x.isZero = true) : x.settled = .zero false := by
  cases x with
  | finite s m q hCanonical =>
      cases of_decide_eq_true h
      rfl
  | infinite s => cases h
  | nan => cases h

theorem Binary64.settled_of_same
    {x y : Binary64}
    (h : x.same y = true) : x.settled = y.settled := by
  simp only [same, Bool.or_eq_true, decide_eq_true_eq,
    Bool.and_eq_true] at h
  rcases h.2 with rfl | ⟨hLeft, hRight⟩
  · rfl
  · rw [settled_of_isZero hLeft, settled_of_isZero hRight]

namespace Json

/-
  Two values are equal: arrays item by item, objects key by
  key in whatever order, and numbers as numbers.
-/
inductive Equal : Json → Json → Prop where
  | null : Equal .null .null
  | bool (b : Bool) : Equal (.bool b) (.bool b)
  | num
      {m n : Number}
      (h : m.same n = true) : Equal (.num m) (.num n)
  | str (s : String) : Equal (.str s) (.str s)
  | arr
      {vs ws : List Json}
      (h : List.Forall₂ Equal vs ws) :
      Equal (.arr vs) (.arr ws)
  | obj
      {ms ns : Members}
      (h :
        ∀ key, Option.Rel Equal (ms.get? key) (ns.get? key)) :
      Equal (.obj ms) (.obj ns)

/- Members that are held have keys that are there. -/
theorem keys_subset_of_holdsMembers
    {ms ns : Members}
    (h : holdsMembers ns ms = true) :
    ms.keys ⊆ ns.keys := by
  induction ms with
  | nil => simp
  | cons m ms ih =>
      rcases m with ⟨k, v⟩
      rw [holdsMembers, Bool.and_eq_true] at h
      refine List.cons_subset.2 ⟨?_, ih h.2⟩
      apply Decidable.not_not.1
      intro hNew
      rw [Members.get?_eq_none_iff.2 hNew] at h
      cases h.1

/- An object with as many members then has no other keys. -/
theorem keys_perm_of_holdsMembers
    {ms ns : Members}
    (hNodup : ms.keys.Nodup)
    (hLength : ms.length = ns.length)
    (h : holdsMembers ns ms = true) :
    ms.keys.Perm ns.keys := by
  have hSub := keys_subset_of_holdsMembers h
  refine (List.subperm_of_subset hNodup hSub).perm_of_length_le
    ?_
  simp [Members.keys, hLength]

namespace Equal

mutual

/-
  Values that compare as the same are equal, if in the first
  one no object has a key twice.
-/
theorem of_beq
    (v w : Json)
    (hKeys : v.keysDistinct = true)
    (h : v.beq w = true) : v.Equal w := by
  match v with
  | .null =>
      cases w with
      | null => exact .null
      | _ => cases h
  | .bool a =>
      cases w with
      | bool b =>
          cases of_decide_eq_true h
          exact .bool a
      | _ => cases h
  | .num m =>
      cases w with
      | num n => exact .num h
      | _ => cases h
  | .str a =>
      cases w with
      | str b =>
          cases of_decide_eq_true h
          exact .str a
      | _ => cases h
  | .arr vs =>
      cases w with
      | arr ws =>
          exact .arr (of_beqItems vs ws
            (keysDistinct_arr_iff.1 hKeys) h)
      | _ => cases h
  | .obj ms =>
      cases w with
      | obj ns =>
          rcases keysDistinct_obj_iff.1 hKeys with
            ⟨hNodup, hValues⟩
          rw [beq, Bool.and_eq_true, decide_eq_true_eq] at h
          have hPerm := keys_perm_of_holdsMembers hNodup h.1 h.2
          refine .obj (fun key => ?_)
          by_cases hMem : key ∈ Members.keys ms
          · exact of_holdsMembers ms ns hValues h.2 hMem
          · rw [Members.get?_eq_none_iff.2 hMem,
              Members.get?_eq_none_iff.2
                (fun hIn => hMem (hPerm.mem_iff.2 hIn))]
            exact .none
      | _ => cases h

theorem of_beqItems
    (vs ws : List Json)
    (hKeys : ∀ v ∈ vs, v.keysDistinct = true)
    (h : beqItems vs ws = true) :
    List.Forall₂ Equal vs ws := by
  match vs with
  | [] =>
      cases ws with
      | nil => exact .nil
      | cons w ws => cases h
  | v :: vs =>
      cases ws with
      | nil => cases h
      | cons w ws =>
          rcases List.forall_mem_cons.1 hKeys with
            ⟨hFirst, hLater⟩
          rw [beqItems, Bool.and_eq_true] at h
          exact .cons (of_beq v w hFirst h.1)
            (of_beqItems vs ws hLater h.2)

theorem of_holdsMembers
    (ms ns : Members)
    (hKeys : ∀ m ∈ ms, m.2.keysDistinct = true)
    (h : holdsMembers ns ms = true)
    {key : String}
    (hMem : key ∈ ms.keys) :
    Option.Rel Equal (ms.get? key) (ns.get? key) := by
  match ms with
  | [] => cases hMem
  | (k, v) :: ms =>
      rcases List.forall_mem_cons.1 hKeys with
        ⟨hFirst, hLater⟩
      rw [holdsMembers, Bool.and_eq_true] at h
      by_cases hEq : k = key
      · subst hEq
        rw [Members.get?, if_pos rfl]
        cases hGet : ns.get? k with
        | none =>
            rw [hGet] at h
            cases h.1
        | some w =>
            rw [hGet] at h
            exact .some (of_beq v w hFirst h.1)
      · rw [Members.get?, if_neg hEq]
        refine of_holdsMembers ms ns hLater h.2 ?_
        exact (List.mem_cons.1 hMem).resolve_left (Ne.symm hEq)

end

variable {ms ns : Members}

theorem of_str
    {a b : String}
    (h : (Json.str a).Equal (.str b)) : a = b := by
  cases h
  rfl

theorem of_bool
    {a b : Bool}
    (h : (Json.bool a).Equal (.bool b)) : a = b := by
  cases h
  rfl

theorem of_arr
    {vs ws : List Json}
    (h : (Json.arr vs).Equal (.arr ws)) :
    List.Forall₂ Equal vs ws := by
  cases h with
  | arr h => exact h

/- Equal objects have equal values under every key. -/
theorem of_obj
    (h : (Json.obj ms).Equal (.obj ns))
    (key : String) :
    Option.Rel Equal (ms.get? key) (ns.get? key) := by
  cases h with
  | obj h => exact h key

/- With the same distinct keys, equal objects agree in order. -/
theorem forall₂_of_keys
    (hKeys : ms.keys = ns.keys)
    (hNodup : ms.keys.Nodup)
    (h :
      ∀ key ∈ ms.keys,
        Option.Rel Equal (ms.get? key) (ns.get? key)) :
    List.Forall₂ (fun m n => m.2.Equal n.2) ms ns := by
  induction ms generalizing ns with
  | nil =>
      cases ns with
      | nil => exact .nil
      | cons n ns => cases hKeys
  | cons m ms ih =>
      cases ns with
      | nil => cases hKeys
      | cons n ns =>
          rcases m with ⟨k, v⟩
          rcases n with ⟨l, w⟩
          rcases List.cons.inj hKeys with ⟨hKey, hRest⟩
          cases hKey
          rcases List.nodup_cons.1 hNodup with ⟨hNew, hOthers⟩
          refine .cons ?_ (ih hRest hOthers ?_)
          · have hFirst := h k (by simp)
            simp only [Members.get?, if_true] at hFirst
            cases hFirst with
            | some hEqual => exact hEqual
          · intro key hMem
            have hNe : k ≠ key := by
              rintro rfl
              exact hNew hMem
            have hLater := h key (by simp [hMem])
            simpa only [Members.get?, if_neg hNe] using hLater

end Equal

end Json

namespace FlowType

------------------------------------------------------------
-- Nodes
------------------------------------------------------------

section Nodes

variable {k l : String}
variable {ms ns : Members}

/- Equal nodes have one name. -/
theorem kind_eq_of_equal
    (h : (node k ms).Equal (node l ns)) : k = l := by
  have hType := h.of_obj "type"
  simp only [Members.get?, if_true] at hType
  cases hType with
  | some hEqual => exact hEqual.of_str

/- Equal nodes with the same keys have equal parts. -/
theorem parts_of_equal
    (h : (node k ms).Equal (node l ns))
    (hKeys : ms.keys = ns.keys)
    (hNodup : ("type" :: ms.keys).Nodup) :
    List.Forall₂ (fun m n => m.2.Equal n.2) ms ns := by
  have hAll :=
    @Json.Equal.forall₂_of_keys (("type", .str k) :: ms)
      (("type", .str l) :: ns)
      (congrArg (List.cons "type") hKeys) hNodup
      (fun key _ => h.of_obj key)
  cases hAll with
  | cons _ hParts => exact hParts

/- Equal nodes with one part have equal parts. -/
theorem part_of_equal
    {key : String}
    {v w : Json}
    (h : (node k [(key, v)]).Equal (node l [(key, w)]))
    (hKey : "type" ≠ key) : v.Equal w := by
  have hParts := parts_of_equal h rfl (by simpa using hKey)
  exact (List.forall₂_cons.1 hParts).1

end Nodes

------------------------------------------------------------
-- Leaves
------------------------------------------------------------

theorem name_of_equal_identifier
    {a b : String}
    (h : (identifierJson a).Equal (identifierJson b)) :
    a = b :=
  (part_of_equal h (by decide)).of_str

theorem name_of_equal_identifier?
    {a b : Option String}
    (h : (identifierJson? a).Equal (identifierJson? b)) :
    a = b := by
  cases a with
  | none =>
      cases b with
      | none => rfl
      | some b => cases h
  | some a =>
      cases b with
      | none => cases h
      | some b => exact congrArg some (name_of_equal_identifier h)

theorem typeName_of_equal
    {a b : TypeName}
    (h : (nameJson a).Equal (nameJson b)) : a = b := by
  induction a generalizing b with
  | simple name =>
      cases b with
      | simple other =>
          exact congrArg _ (name_of_equal_identifier h)
      | qualified qualifier other =>
          exact absurd (kind_eq_of_equal h) (by decide)
  | qualified qualifier name ih =>
      cases b with
      | simple other =>
          exact absurd (kind_eq_of_equal h) (by decide)
      | qualified other last =>
          have hParts := parts_of_equal h rfl (by simp)
          simp only [List.forall₂_cons] at hParts
          rcases hParts with ⟨hQualifier, hName, -⟩
          rw [ih hQualifier, name_of_equal_identifier hName]

theorem variance_of_equal
    {a b : Option Variance}
    (h : (varianceJson a).Equal (varianceJson b)) :
    a = b := by
  cases a with
  | none =>
      cases b with
      | none => rfl
      | some v => cases h
  | some v =>
      cases b with
      | none => cases h
      | some w =>
          have hName := (part_of_equal h (by decide)).of_str
          cases v <;> cases w <;> simp_all [Variance.name]

theorem key_of_equal
    {a b : PropertyKey}
    (h : (keyJson a).Equal (keyJson b)) : a = b := by
  cases a with
  | identifier name =>
      cases b with
      | identifier other =>
          exact congrArg _ (name_of_equal_identifier h)
      | string other =>
          exact absurd (kind_eq_of_equal h) (by decide)
  | string value =>
      cases b with
      | identifier other =>
          exact absurd (kind_eq_of_equal h) (by decide)
      | string other =>
          exact congrArg _ (part_of_equal h (by decide)).of_str

------------------------------------------------------------
-- Constructors
------------------------------------------------------------

/- The constructor of the types with a node name. -/
def constructorOf : String → Nat
  | "StringLiteralTypeAnnotation" => 1
  | "NumberLiteralTypeAnnotation" => 2
  | "BigIntLiteralTypeAnnotation" => 3
  | "BooleanLiteralTypeAnnotation" => 4
  | "GenericTypeAnnotation" => 5
  | "TypeofTypeAnnotation" => 6
  | "NullableTypeAnnotation" => 7
  | "ArrayTypeAnnotation" => 8
  | "UnionTypeAnnotation" => 9
  | "IntersectionTypeAnnotation" => 10
  | "TupleTypeAnnotation" => 11
  | "FunctionTypeAnnotation" => 12
  | "ObjectTypeAnnotation" => 13
  | _ => 0

theorem constructorOf_kindName
    (t : FlowType) :
    constructorOf t.kindName = t.ctorIdx := by
  cases t with
  | keyword word => cases word <;> rfl
  | _ => rfl

theorem toJson_eq_node
    (t : FlowType) :
    ∃ ms, t.toJson = node t.kindName ms := by
  cases t with
  | generic name args => cases args <;> exact ⟨_, rfl⟩
  | _ => exact ⟨_, rfl⟩

/- Types with equal nodes are of one name. -/
theorem kindName_eq_of_equal
    {t u : FlowType}
    (h : t.toJson.Equal u.toJson) :
    t.kindName = u.kindName := by
  rcases toJson_eq_node t with ⟨ms, hLeft⟩
  rcases toJson_eq_node u with ⟨ns, hRight⟩
  rw [hLeft, hRight] at h
  exact kind_eq_of_equal h

/- And so they are made in one way. -/
theorem ctorIdx_eq_of_equal
    {t u : FlowType}
    (h : t.toJson.Equal u.toJson) : t.ctorIdx = u.ctorIdx := by
  rw [← constructorOf_kindName, kindName_eq_of_equal h,
    constructorOf_kindName]

theorem keyword_of_kindName
    {a b : Keyword}
    (h : a.kindName = b.kindName) : a = b := by
  have hFind :
      ∀ word : Keyword,
        Keyword.all.find? (fun k => k.kindName = word.kindName) =
          some word := by
    intro word
    cases word <;> rfl
  have hBoth := (hFind a).symm.trans (h ▸ hFind b)
  exact Option.some.inj hBoth

------------------------------------------------------------
-- Number Literals
------------------------------------------------------------

section Replacing

variable (f : Binary64 → String → FlowType)

mutual

/- The type with another in place of every number literal. -/
def replaceNumbers : FlowType → FlowType
  | .keyword word => .keyword word
  | .stringLiteral value => .stringLiteral value
  | .numberLiteral value raw => f value raw
  | .bigintLiteral text => .bigintLiteral text
  | .booleanLiteral value => .booleanLiteral value
  | .generic name none => .generic name none
  | .generic name (some args) =>
      .generic name (some (replaceList args))
  | .typeOf argument => .typeOf (replaceNumbers argument)
  | .nullable inner => .nullable (replaceNumbers inner)
  | .array element => .array (replaceNumbers element)
  | .union members => .union (replaceList members)
  | .intersection members =>
      .intersection (replaceList members)
  | .tuple members => .tuple (replaceList members)
  | .function typeParams params rest result =>
      .function (replaceTypeParams typeParams)
        (replaceParams params) (replaceRest rest)
        (replaceNumbers result)
  | .object properties indexers calls exact inexact =>
      .object (replaceProperties properties)
        (replaceIndexers indexers) (replaceCalls calls) exact
        inexact

/- The same in several types. -/
def replaceList : List FlowType → List FlowType
  | [] => []
  | t :: ts => replaceNumbers t :: replaceList ts

/- The same in a type that may be absent. -/
def replaceOption : Option FlowType → Option FlowType
  | some t => some (replaceNumbers t)
  | none => none

/- The same in a type parameter declaration. -/
def replaceTypeParams :
    Option (List (TypeParameter FlowType)) →
    Option (List (TypeParameter FlowType))
  | some ts => some (replaceTypeParamList ts)
  | none => none

/- The same in type parameters. -/
def replaceTypeParamList :
    List (TypeParameter FlowType) →
    List (TypeParameter FlowType)
  | [] => []
  | t :: ts =>
      ⟨t.name, t.variance, replaceOption t.bound,
        replaceOption t.default⟩ :: replaceTypeParamList ts

/- The same in parameters. -/
def replaceParams :
    List (Parameter FlowType) → List (Parameter FlowType)
  | [] => []
  | p :: ps =>
      ⟨p.name, p.optional, replaceNumbers p.type⟩ ::
        replaceParams ps

/- The same in a rest parameter. -/
def replaceRest :
    Option (Parameter FlowType) → Option (Parameter FlowType)
  | some p => some ⟨p.name, p.optional, replaceNumbers p.type⟩
  | none => none

/- The same in properties. -/
def replaceProperties :
    List (Property FlowType) → List (Property FlowType)
  | [] => []
  | .entry key value optional method static variance :: ps =>
      .entry key (replaceNumbers value) optional method static
        variance :: replaceProperties ps
  | .spread argument :: ps =>
      .spread (replaceNumbers argument) :: replaceProperties ps

/- The same in indexers. -/
def replaceIndexers :
    List (Indexer FlowType) → List (Indexer FlowType)
  | [] => []
  | i :: is =>
      ⟨i.id, replaceNumbers i.key, replaceNumbers i.value,
        i.variance⟩ :: replaceIndexers is

/- The same in call properties. -/
def replaceCalls :
    List (CallProperty FlowType) → List (CallProperty FlowType)
  | [] => []
  | c :: cs =>
      ⟨replaceNumbers c.value, c.static⟩ :: replaceCalls cs

end

end Replacing

/- The type with nothing left of its number literals. -/
def eraseNumbers : FlowType → FlowType :=
  replaceNumbers (fun _ _ => .numberLiteral (.zero false) "")

/- The type with its number literals as they are compared. -/
def settleNumbers : FlowType → FlowType :=
  replaceNumbers (fun x _ => .numberLiteral x.settled "")

------------------------------------------------------------
-- Types with Equal Nodes
------------------------------------------------------------

/-
  What can stand in place of number literals: numbers that are
  written alike have the same in their place.
-/
structure NumberView where
  type : Binary64 → String → FlowType
  eq_of_equal :
    ∀ x r y s, (numberJson x).Equal (numberJson y) →
      type x r = type y s

section Replaced

variable (f : NumberView)

mutual

/-
  By induction on the first type.  The second one is made in
  the same way, since the nodes have one name, and then their
  parts are equal.
-/
theorem replaceNumbers_of_equal
    (t : FlowType) :
    ∀ u : FlowType,
      t.toJson.Equal u.toJson →
      t.replaceNumbers f.type = u.replaceNumbers f.type := by
  match t with
  | .keyword word =>
      intro u h
      cases u with
      | keyword other =>
          rw [keyword_of_kindName (kindName_eq_of_equal h)]
      | _ => cases ctorIdx_eq_of_equal h
  | .stringLiteral value =>
      intro u h
      cases u with
      | stringLiteral other =>
          rw [(part_of_equal h (by decide)).of_str]
      | _ => cases ctorIdx_eq_of_equal h
  | .numberLiteral value raw =>
      intro u h
      cases u with
      | numberLiteral other spelling =>
          exact f.eq_of_equal _ _ _ _
            (part_of_equal h (by decide))
      | _ => cases ctorIdx_eq_of_equal h
  | .bigintLiteral text =>
      intro u h
      cases u with
      | bigintLiteral other =>
          rw [(part_of_equal h (by decide)).of_str]
      | _ => cases ctorIdx_eq_of_equal h
  | .booleanLiteral value =>
      intro u h
      cases u with
      | booleanLiteral other =>
          rw [(part_of_equal h (by decide)).of_bool]
      | _ => cases ctorIdx_eq_of_equal h
  | .generic name none =>
      intro u h
      cases u with
      | generic other args =>
          cases args with
          | none =>
              have hParts := parts_of_equal h rfl (by simp)
              simp only [List.forall₂_cons] at hParts
              rw [typeName_of_equal hParts.1]
          | some args =>
              have hParts := parts_of_equal h rfl (by simp)
              simp only [List.forall₂_cons] at hParts
              cases hParts.2.1
      | _ => cases ctorIdx_eq_of_equal h
  | .generic name (some args) =>
      intro u h
      cases u with
      | generic other others =>
          cases others with
          | none =>
              have hParts := parts_of_equal h rfl (by simp)
              simp only [List.forall₂_cons] at hParts
              cases hParts.2.1
          | some others =>
              have hParts := parts_of_equal h rfl (by simp)
              simp only [List.forall₂_cons] at hParts
              have hArgs := part_of_equal hParts.2.1 (by decide)
              rw [replaceNumbers, replaceNumbers,
                typeName_of_equal hParts.1,
                replaceList_of_equal args others hArgs.of_arr]
      | _ => cases ctorIdx_eq_of_equal h
  | .typeOf argument =>
      intro u h
      cases u with
      | typeOf other =>
          have hPart := part_of_equal h (by decide)
          rw [replaceNumbers, replaceNumbers,
            replaceNumbers_of_equal argument other hPart]
      | _ => cases ctorIdx_eq_of_equal h
  | .nullable inner =>
      intro u h
      cases u with
      | nullable other =>
          have hPart := part_of_equal h (by decide)
          rw [replaceNumbers, replaceNumbers,
            replaceNumbers_of_equal inner other hPart]
      | _ => cases ctorIdx_eq_of_equal h
  | .array element =>
      intro u h
      cases u with
      | array other =>
          have hPart := part_of_equal h (by decide)
          rw [replaceNumbers, replaceNumbers,
            replaceNumbers_of_equal element other hPart]
      | _ => cases ctorIdx_eq_of_equal h
  | .union members =>
      intro u h
      cases u with
      | union others =>
          have hPart := part_of_equal h (by decide)
          rw [replaceNumbers, replaceNumbers,
            replaceList_of_equal members others hPart.of_arr]
      | _ => cases ctorIdx_eq_of_equal h
  | .intersection members =>
      intro u h
      cases u with
      | intersection others =>
          have hPart := part_of_equal h (by decide)
          rw [replaceNumbers, replaceNumbers,
            replaceList_of_equal members others hPart.of_arr]
      | _ => cases ctorIdx_eq_of_equal h
  | .tuple members =>
      intro u h
      cases u with
      | tuple others =>
          have hPart := part_of_equal h (by decide)
          rw [replaceNumbers, replaceNumbers,
            replaceList_of_equal members others hPart.of_arr]
      | _ => cases ctorIdx_eq_of_equal h
  | .function typeParams params rest result =>
      intro u h
      cases u with
      | function otherTypes others otherRest otherResult =>
          have hParts := parts_of_equal h rfl (by simp)
          simp only [List.forall₂_cons] at hParts
          rcases hParts with
            ⟨hTypes, hParams, hRest, hResult, -⟩
          rw [replaceNumbers, replaceNumbers,
            replaceTypeParams_of_equal typeParams otherTypes
              hTypes,
            replaceParams_of_equal params others hParams.of_arr,
            replaceRest_of_equal rest otherRest hRest,
            replaceNumbers_of_equal result otherResult hResult]
      | _ => cases ctorIdx_eq_of_equal h
  | .object properties indexers calls exact inexact =>
      intro u h
      cases u with
      | object others otherIndexers otherCalls exact' inexact' =>
          have hParts := parts_of_equal h rfl (by simp)
          simp only [List.forall₂_cons] at hParts
          rcases hParts with
            ⟨hProperties, hIndexers, hCalls, hExact,
              hInexact, -⟩
          rw [replaceNumbers, replaceNumbers,
            replaceProperties_of_equal properties others
              hProperties.of_arr,
            replaceIndexers_of_equal indexers otherIndexers
              hIndexers.of_arr,
            replaceCalls_of_equal calls otherCalls hCalls.of_arr,
            hExact.of_bool, hInexact.of_bool]
      | _ => cases ctorIdx_eq_of_equal h

theorem replaceList_of_equal
    (ts : List FlowType) :
    ∀ us : List FlowType,
      List.Forall₂ Json.Equal (listJson ts) (listJson us) →
      replaceList f.type ts = replaceList f.type us := by
  match ts with
  | [] =>
      intro us h
      cases us with
      | nil => rfl
      | cons u us => cases h
  | t :: ts =>
      intro us h
      cases us with
      | nil => cases h
      | cons u us =>
          rcases List.forall₂_cons.1 h with ⟨hFirst, hLater⟩
          rw [replaceList, replaceList,
            replaceNumbers_of_equal t u hFirst,
            replaceList_of_equal ts us hLater]

theorem replaceOption_of_equal
    (t : Option FlowType) :
    ∀ u : Option FlowType,
      (optionJson t).Equal (optionJson u) →
      replaceOption f.type t = replaceOption f.type u := by
  match t with
  | none =>
      intro u h
      cases u with
      | none => rfl
      | some u =>
          rcases toJson_eq_node u with ⟨ms, hNode⟩
          rw [optionJson, optionJson, hNode] at h
          cases h
  | some t =>
      intro u h
      cases u with
      | none =>
          rcases toJson_eq_node t with ⟨ms, hNode⟩
          rw [optionJson, optionJson, hNode] at h
          cases h
      | some u =>
          rw [replaceOption, replaceOption,
            replaceNumbers_of_equal t u h]

theorem replaceTypeParams_of_equal
    (ts : Option (List (TypeParameter FlowType))) :
    ∀ us : Option (List (TypeParameter FlowType)),
      (typeParamsJson ts).Equal (typeParamsJson us) →
      replaceTypeParams f.type ts =
        replaceTypeParams f.type us := by
  match ts with
  | none =>
      intro us h
      cases us with
      | none => rfl
      | some us => cases h
  | some ts =>
      intro us h
      cases us with
      | none => cases h
      | some us =>
          have hPart := part_of_equal h (by decide)
          rw [replaceTypeParams, replaceTypeParams,
            replaceTypeParamList_of_equal ts us hPart.of_arr]

theorem replaceTypeParamList_of_equal
    (ts : List (TypeParameter FlowType)) :
    ∀ us : List (TypeParameter FlowType),
      List.Forall₂ Json.Equal (typeParamListJson ts)
        (typeParamListJson us) →
      replaceTypeParamList f.type ts =
        replaceTypeParamList f.type us := by
  match ts with
  | [] =>
      intro us h
      cases us with
      | nil => rfl
      | cons u us => cases h
  | ⟨name, variance, bound, default⟩ :: ts =>
      intro us h
      cases us with
      | nil => cases h
      | cons u us =>
          rcases List.forall₂_cons.1 h with ⟨hFirst, hLater⟩
          have hParts := parts_of_equal hFirst rfl (by simp)
          simp only [List.forall₂_cons] at hParts
          rcases hParts with
            ⟨hName, hVariance, hBound, hDefault, -⟩
          rw [replaceTypeParamList, replaceTypeParamList,
            hName.of_str, variance_of_equal hVariance,
            replaceOption_of_equal bound u.bound hBound,
            replaceOption_of_equal default u.default hDefault,
            replaceTypeParamList_of_equal ts us hLater]

theorem replaceParams_of_equal
    (ps : List (Parameter FlowType)) :
    ∀ qs : List (Parameter FlowType),
      List.Forall₂ Json.Equal (paramsJson ps)
        (paramsJson qs) →
      replaceParams f.type ps = replaceParams f.type qs := by
  match ps with
  | [] =>
      intro qs h
      cases qs with
      | nil => rfl
      | cons q qs => cases h
  | ⟨name, optional, type⟩ :: ps =>
      intro qs h
      cases qs with
      | nil => cases h
      | cons q qs =>
          rcases List.forall₂_cons.1 h with ⟨hFirst, hLater⟩
          have hParts := parts_of_equal hFirst rfl (by simp)
          simp only [List.forall₂_cons] at hParts
          rcases hParts with ⟨hName, hOptional, hType, -⟩
          rw [replaceParams, replaceParams,
            name_of_equal_identifier? hName,
            hOptional.of_bool,
            replaceNumbers_of_equal type q.type hType,
            replaceParams_of_equal ps qs hLater]

theorem replaceRest_of_equal
    (p : Option (Parameter FlowType)) :
    ∀ q : Option (Parameter FlowType),
      (restJson p).Equal (restJson q) →
      replaceRest f.type p = replaceRest f.type q := by
  match p with
  | none =>
      intro q h
      cases q with
      | none => rfl
      | some q => cases h
  | some ⟨name, optional, type⟩ =>
      intro q h
      cases q with
      | none => cases h
      | some q =>
          have hParts := parts_of_equal h rfl (by simp)
          simp only [List.forall₂_cons] at hParts
          rcases hParts with ⟨hName, hOptional, hType, -⟩
          rw [replaceRest, replaceRest,
            name_of_equal_identifier? hName,
            hOptional.of_bool,
            replaceNumbers_of_equal type q.type hType]

theorem replaceProperties_of_equal
    (ps : List (Property FlowType)) :
    ∀ qs : List (Property FlowType),
      List.Forall₂ Json.Equal (propertiesJson ps)
        (propertiesJson qs) →
      replaceProperties f.type ps =
        replaceProperties f.type qs := by
  match ps with
  | [] =>
      intro qs h
      cases qs with
      | nil => rfl
      | cons q qs => cases q <;> cases h
  | .entry key value optional method static variance :: ps =>
      intro qs h
      cases qs with
      | nil => cases h
      | cons q qs =>
          cases q with
          | entry key' value' optional' method' static'
              variance' =>
              rcases List.forall₂_cons.1 h with
                ⟨hFirst, hLater⟩
              have hParts :=
                parts_of_equal hFirst rfl (by simp)
              simp only [List.forall₂_cons] at hParts
              rcases hParts with
                ⟨hKey, hValue, hOptional, hMethod, hStatic,
                  hVariance, -⟩
              rw [replaceProperties, replaceProperties,
                key_of_equal hKey,
                replaceNumbers_of_equal value value' hValue,
                hOptional.of_bool, hMethod.of_bool,
                hStatic.of_bool, variance_of_equal hVariance,
                replaceProperties_of_equal ps qs hLater]
          | spread argument =>
              rcases List.forall₂_cons.1 h with ⟨hFirst, -⟩
              exact absurd (kind_eq_of_equal hFirst)
                (by decide)
  | .spread argument :: ps =>
      intro qs h
      cases qs with
      | nil => cases h
      | cons q qs =>
          rcases q with _ | other
          · rcases List.forall₂_cons.1 h with ⟨hFirst, -⟩
            exact absurd (kind_eq_of_equal hFirst) (by decide)
          · rcases List.forall₂_cons.1 h with
              ⟨hFirst, hLater⟩
            have hPart := part_of_equal hFirst (by decide)
            rw [replaceProperties, replaceProperties,
              replaceNumbers_of_equal argument other hPart,
              replaceProperties_of_equal ps qs hLater]

theorem replaceIndexers_of_equal
    (is : List (Indexer FlowType)) :
    ∀ js : List (Indexer FlowType),
      List.Forall₂ Json.Equal (indexersJson is)
        (indexersJson js) →
      replaceIndexers f.type is = replaceIndexers f.type js := by
  match is with
  | [] =>
      intro js h
      cases js with
      | nil => rfl
      | cons j js => cases h
  | ⟨id, key, value, variance⟩ :: is =>
      intro js h
      cases js with
      | nil => cases h
      | cons j js =>
          rcases List.forall₂_cons.1 h with ⟨hFirst, hLater⟩
          have hParts := parts_of_equal hFirst rfl (by simp)
          simp only [List.forall₂_cons] at hParts
          rcases hParts with ⟨hId, hKey, hValue, hVariance, -⟩
          rw [replaceIndexers, replaceIndexers,
            name_of_equal_identifier? hId,
            replaceNumbers_of_equal key j.key hKey,
            replaceNumbers_of_equal value j.value hValue,
            variance_of_equal hVariance,
            replaceIndexers_of_equal is js hLater]

theorem replaceCalls_of_equal
    (cs : List (CallProperty FlowType)) :
    ∀ ds : List (CallProperty FlowType),
      List.Forall₂ Json.Equal (callsJson cs)
        (callsJson ds) →
      replaceCalls f.type cs = replaceCalls f.type ds := by
  match cs with
  | [] =>
      intro ds h
      cases ds with
      | nil => rfl
      | cons d ds => cases h
  | ⟨value, static⟩ :: cs =>
      intro ds h
      cases ds with
      | nil => cases h
      | cons d ds =>
          rcases List.forall₂_cons.1 h with ⟨hFirst, hLater⟩
          have hParts := parts_of_equal hFirst rfl (by simp)
          simp only [List.forall₂_cons] at hParts
          rcases hParts with ⟨hValue, hStatic, -⟩
          rw [replaceCalls, replaceCalls,
            replaceNumbers_of_equal value d.value hValue,
            hStatic.of_bool, replaceCalls_of_equal cs ds hLater]

end

end Replaced

theorem settled_of_equal
    {x y : Binary64}
    (h : (numberJson x).Equal (numberJson y)) :
    x.settled = y.settled := by
  cases x with
  | finite s m q hCanonical =>
      cases y with
      | finite t n r hOther =>
          cases h with
          | num hSame => exact Binary64.settled_of_same hSame
      | infinite t => cases h
      | nan => cases h
  | infinite s =>
      cases y with
      | finite t n r hOther => cases h
      | infinite t => rfl
      | nan => rfl
  | nan =>
      cases y with
      | finite t n r hOther => cases h
      | infinite t => rfl
      | nan => rfl

/-
  Types whose nodes are equal are equal but for their number
  literals.  Of these only the spelling is lost, the sign of
  zero, and which one it is of those that are not finite.
-/
theorem eq_of_equal_nodes
    {t u : FlowType}
    (h : t.toJson.Equal u.toJson) :
    t.eraseNumbers = u.eraseNumbers ∧
      t.settleNumbers = u.settleNumbers := by
  refine ⟨?_, ?_⟩
  · refine replaceNumbers_of_equal ⟨_, ?_⟩ t u h
    intro x r y s hNumber
    rfl
  · refine replaceNumbers_of_equal ⟨_, ?_⟩ t u h
    intro x r y s hNumber
    rw [settled_of_equal hNumber]

/- A tuple of one, an infinite number and a text. -/
def spelledTuple
    (one huge : String)
    (negative : Bool) : FlowType :=
  .tuple
    [.numberLiteral (.ofNat 1) one,
      .nullable (.numberLiteral (.infinite negative) huge),
      .stringLiteral "1"]

/- Two such tuples have one node, and differ in numbers only. -/
theorem eq_of_equal_nodes_spelled :
    (spelledTuple "1" "1e999" false).toJson =
      (spelledTuple "1.0" "-1e999" true).toJson ∧
    spelledTuple "1" "1e999" false ≠
      spelledTuple "1.0" "-1e999" true ∧
    (spelledTuple "1" "1e999" false).eraseNumbers =
      (spelledTuple "1.0" "-1e999" true).eraseNumbers := by
  refine ⟨rfl, by simp [spelledTuple], ?_⟩
  exact (eq_of_equal_nodes
    (.of_beq _ _ (by decide) (by decide))).1

end FlowType

end TypeGraft
