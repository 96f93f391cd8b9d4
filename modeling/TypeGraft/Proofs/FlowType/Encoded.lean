import TypeGraft.FlowType.Encoding
import TypeGraft.Proofs.Json.Proper

/-
  Encoded types are values that text can stand for.

  Every node of an encoded type has distinct keys, and all
  numbers in it are doubles.

  Main declarations:
    * `FlowType.proper_toJson`
-/

namespace TypeGraft

namespace FlowType

------------------------------------------------------------
-- Leaves
------------------------------------------------------------

theorem proper_node
    {kind : String}
    {members : Members}
    (hKeys : ("type" :: members.keys).Nodup)
    (hMembers : ∀ m ∈ members, m.2.Proper Number.Fits) :
    (node kind members).Proper Number.Fits :=
  .obj hKeys (List.forall_mem_cons.2 ⟨.str kind, hMembers⟩)

@[simp]
theorem proper_identifierJson
    (name : String) :
    (identifierJson name).Proper Number.Fits :=
  proper_node (by simp) (by simp)

@[simp]
theorem proper_identifierJson?
    (name : Option String) :
    (identifierJson? name).Proper Number.Fits := by
  cases name with
  | none => exact .null
  | some name => exact proper_identifierJson name

@[simp]
theorem proper_nameJson
    (name : TypeName) :
    (nameJson name).Proper Number.Fits := by
  induction name with
  | simple name => exact proper_identifierJson name
  | qualified qualifier name ih =>
      exact proper_node (by simp)
        (by simp [ih])

@[simp]
theorem proper_varianceJson
    (variance : Option Variance) :
    (varianceJson variance).Proper Number.Fits := by
  cases variance with
  | none => exact .null
  | some v =>
      exact proper_node (by simp) (by simp)

@[simp]
theorem proper_keyJson
    (key : PropertyKey) :
    (keyJson key).Proper Number.Fits := by
  cases key with
  | identifier name => exact proper_identifierJson name
  | string value =>
      exact proper_node (by simp) (by simp)

@[simp]
theorem proper_numberJson
    (x : Binary64) :
    (numberJson x).Proper Number.Fits := by
  cases x with
  | finite s m q h => exact .num trivial
  | infinite s => exact .null
  | nan => exact .null

------------------------------------------------------------
-- Types
------------------------------------------------------------

mutual

/- Every part of a type is encoded with distinct keys. -/
theorem proper_toJson
    (t : FlowType) :
    t.toJson.Proper Number.Fits := by
  match t with
  | .keyword word => exact proper_node (by simp) (by simp)
  | .stringLiteral value =>
      exact proper_node (by simp) (by simp)
  | .numberLiteral value _ =>
      exact proper_node (by simp) (by simp)
  | .bigintLiteral text =>
      exact proper_node (by simp) (by simp)
  | .booleanLiteral value =>
      exact proper_node (by simp) (by simp)
  | .generic name none =>
      exact proper_node (by simp) (by simp)
  | .generic name (some args) =>
      have hArgs := Json.Proper.arr (proper_listJson args)
      have hParams :=
        @proper_node "TypeParameterInstantiation"
          [("params", .arr (listJson args))] (by simp)
          (by simp [hArgs])
      exact proper_node (by simp) (by simp [hParams])
  | .typeOf argument =>
      exact proper_node (by simp)
        (by simp [proper_toJson argument])
  | .nullable inner =>
      exact proper_node (by simp)
        (by simp [proper_toJson inner])
  | .array element =>
      exact proper_node (by simp)
        (by simp [proper_toJson element])
  | .union members =>
      exact proper_node (by simp)
        (by simp [Json.Proper.arr (proper_listJson members)])
  | .intersection members =>
      exact proper_node (by simp)
        (by simp [Json.Proper.arr (proper_listJson members)])
  | .tuple members =>
      exact proper_node (by simp)
        (by simp [Json.Proper.arr (proper_listJson members)])
  | .function typeParams params rest result =>
      exact proper_node (by simp)
        (by simp [proper_typeParamsJson typeParams,
          Json.Proper.arr (proper_paramsJson params),
          proper_restJson rest, proper_toJson result])
  | .object properties indexers calls exact inexact =>
      exact proper_node (by simp)
        (by simp [
          Json.Proper.arr (proper_propertiesJson properties),
          Json.Proper.arr (proper_indexersJson indexers),
          Json.Proper.arr (proper_callsJson calls)])

theorem proper_listJson
    (ts : List FlowType) :
    ∀ v ∈ listJson ts, v.Proper Number.Fits := by
  match ts with
  | [] => simp [listJson]
  | t :: ts =>
      exact List.forall_mem_cons.2
        ⟨proper_toJson t, proper_listJson ts⟩

theorem proper_optionJson
    (t : Option FlowType) :
    (optionJson t).Proper Number.Fits := by
  match t with
  | none => exact .null
  | some t => exact proper_toJson t

theorem proper_typeParamsJson
    (ts : Option (List (TypeParameter FlowType))) :
    (typeParamsJson ts).Proper Number.Fits := by
  match ts with
  | none => exact .null
  | some ts =>
      exact proper_node (by simp)
        (by simp [Json.Proper.arr
          (proper_typeParamListJson ts)])

theorem proper_typeParamListJson
    (ts : List (TypeParameter FlowType)) :
    ∀ v ∈ typeParamListJson ts, v.Proper Number.Fits := by
  match ts with
  | [] => simp [typeParamListJson]
  | ⟨name, variance, bound, default⟩ :: ts =>
      refine List.forall_mem_cons.2
        ⟨?_, proper_typeParamListJson ts⟩
      exact proper_node (by simp)
        (by simp [proper_optionJson bound,
          proper_optionJson default])

theorem proper_paramsJson
    (ps : List (Parameter FlowType)) :
    ∀ v ∈ paramsJson ps, v.Proper Number.Fits := by
  match ps with
  | [] => simp [paramsJson]
  | ⟨name, optional, type⟩ :: ps =>
      refine List.forall_mem_cons.2 ⟨?_, proper_paramsJson ps⟩
      exact proper_node (by simp)
        (by simp [proper_toJson type])

theorem proper_restJson
    (p : Option (Parameter FlowType)) :
    (restJson p).Proper Number.Fits := by
  match p with
  | none => exact .null
  | some ⟨name, optional, type⟩ =>
      exact proper_node (by simp)
        (by simp [proper_toJson type])

theorem proper_propertiesJson
    (ps : List (Property FlowType)) :
    ∀ v ∈ propertiesJson ps, v.Proper Number.Fits := by
  match ps with
  | [] => simp [propertiesJson]
  | .entry key value optional method static variance :: ps =>
      refine List.forall_mem_cons.2
        ⟨?_, proper_propertiesJson ps⟩
      exact proper_node (by simp)
        (by simp [proper_toJson value])
  | .spread argument :: ps =>
      refine List.forall_mem_cons.2
        ⟨?_, proper_propertiesJson ps⟩
      exact proper_node (by simp)
        (by simp [proper_toJson argument])

theorem proper_indexersJson
    (is : List (Indexer FlowType)) :
    ∀ v ∈ indexersJson is, v.Proper Number.Fits := by
  match is with
  | [] => simp [indexersJson]
  | ⟨id, key, value, variance⟩ :: is =>
      refine List.forall_mem_cons.2
        ⟨?_, proper_indexersJson is⟩
      exact proper_node (by simp)
        (by simp [proper_toJson key, proper_toJson value])

theorem proper_callsJson
    (cs : List (CallProperty FlowType)) :
    ∀ v ∈ callsJson cs, v.Proper Number.Fits := by
  match cs with
  | [] => simp [callsJson]
  | ⟨value, static⟩ :: cs =>
      refine List.forall_mem_cons.2 ⟨?_, proper_callsJson cs⟩
      exact proper_node (by simp)
        (by simp [proper_toJson value])

end

end FlowType

end TypeGraft
