import TypeGraft.Proofs.Json.Proper
import TypeGraft.Proofs.Tree.RoundTrip

/-
  How deep a written tree nests.

  A tree that was imported is written as the value it was
  imported from, with one more member in each annotated node.
  So it nests deeper than the value only by its annotations:
  it stays within a limit that the value keeps just if each
  annotation does, counted from where its node stands.  It is
  a value that text can stand for if its annotations are.

  Key definitions include:
    * `Json.places`

  Main declarations:
    * `Json.depth_mapNodesFrom_le_iff`
    * `Tree.depth_toJson_le_iff`
    * `Tree.proper_toJson`
-/

namespace TypeGraft

------------------------------------------------------------
-- Places of Nodes
------------------------------------------------------------

namespace Json

mutual

/-
  The nodes of a value, numbered from `i` on, each with how
  many arrays and objects are open inside it if `depth` are
  open outside the value, and the next number.
-/
def placesFrom
    (i depth : Nat) :
    Json → List (NodeId × Nat) × Nat
  | .obj members =>
      if isNode (.obj members) then
        let r := memberPlacesFrom (i + 1) (depth + 1) members
        ((⟨i⟩, depth + 1) :: r.1, r.2)
      else ([], i)
  | .arr items =>
      if isNodeList (.arr items) then
        itemPlacesFrom i (depth + 1) items
      else ([], i)
  | _ => ([], i)

/- The same for the nodes that the members of a node hold. -/
def memberPlacesFrom
    (i depth : Nat) :
    List (String × Json) → List (NodeId × Nat) × Nat
  | [] => ([], i)
  | (key, value) :: members =>
      if isClosed key then memberPlacesFrom i depth members
      else
        let r := placesFrom i depth value
        let s := memberPlacesFrom r.2 depth members
        (r.1 ++ s.1, s.2)

/- The same for the nodes in a list of nodes. -/
def itemPlacesFrom
    (i depth : Nat) :
    List Json → List (NodeId × Nat) × Nat
  | [] => ([], i)
  | v :: items =>
      let r := placesFrom i depth v
      let s := itemPlacesFrom r.2 depth items
      (r.1 ++ s.1, s.2)

end

/- The nodes of a value and how deep each of them stands. -/
def places
    (v : Json) : List (NodeId × Nat) :=
  (placesFrom 0 0 v).1

------------------------------------------------------------
-- Nesting
------------------------------------------------------------

/- What holds others stays within a limit if they do. -/
theorem add_le_iff_of_le_iff
    {α : Type}
    {xs : List α}
    {size : α → Nat}
    {n d limit : Nat}
    (h : ∀ k, n ≤ k ↔ ∀ x ∈ xs, size x ≤ k) :
    n + 1 + d ≤ limit ↔
      d + 1 ≤ limit ∧
        ∀ x ∈ xs, size x + (d + 1) ≤ limit := by
  have hInner := h (limit - (d + 1))
  constructor
  · intro hAll
    refine ⟨by omega, fun x hMem => ?_⟩
    have hOne := hInner.1 (by omega) x hMem
    omega
  · rintro ⟨hOpen, hAll⟩
    have hMost : n ≤ limit - (d + 1) := by
      refine hInner.2 (fun x hMem => ?_)
      have hOne := hAll x hMem
      omega
    omega

theorem depth_arr_add_le_iff
    {items : List Json}
    {d limit : Nat} :
    (Json.arr items).depth + d ≤ limit ↔
      d + 1 ≤ limit ∧
        ∀ v ∈ items, v.depth + (d + 1) ≤ limit :=
  add_le_iff_of_le_iff (fun _ => depthItems_le_iff)

theorem depth_obj_add_le_iff
    {members : Members}
    {d limit : Nat} :
    (Json.obj members).depth + d ≤ limit ↔
      d + 1 ≤ limit ∧
        ∀ m ∈ members, m.2.depth + (d + 1) ≤ limit :=
  add_le_iff_of_le_iff (fun _ => depthMembers_le_iff)

/- A settled node has all members but an annotation. -/
theorem mem_settled_iff
    {ms : Members}
    {m : String × Json} :
    m ∈ ms.settled ↔ m ∈ ms ∧ m.1 ≠ annotationKey := by
  have hType : "type" ≠ annotationKey := by decide
  simp only [Members.settled, List.mem_append,
    List.mem_filter, decide_eq_true_eq, isField_iff]
  grind

section Places

variable (extra : NodeId → Members)
variable (limit : Nat)

mutual

/-
  With more members in its nodes a value stays within a limit
  just if these members do, where its nodes stand.
-/
theorem depth_mapNodesFrom_le_iff
    (i d : Nat) :
    ∀ v : Json, v.depth + d ≤ limit →
      ((mapNodesFrom (fun id ms => ms.settled ++ extra id) i
          v).1.depth + d ≤ limit ↔
        ∀ place ∈ (placesFrom i d v).1,
          ∀ m ∈ extra place.1, m.2.depth + place.2 ≤ limit) ∧
      (mapNodesFrom (fun id ms => ms.settled ++ extra id) i
        v).2 = (placesFrom i d v).2
  | .obj members, h => by
      by_cases hNode : isNode (.obj members) = true
      · rw [depth_obj_add_le_iff] at h
        have hInner :=
          depth_mapMembersFrom_le_iff (i + 1) (d + 1) members
            h.2
        rw [mapNodesFrom_of_isNode hNode, placesFrom,
          if_pos hNode]
        refine ⟨?_, hInner.2⟩
        rw [depth_obj_add_le_iff, List.forall_mem_append,
          List.forall_mem_cons, ← hInner.1]
        simp only [mem_settled_iff, and_imp, h.1, true_and]
        exact and_comm
      · rw [mapNodesFrom, if_neg hNode, placesFrom,
          if_neg hNode]
        simpa using h
  | .arr items, h => by
      by_cases hList : isNodeList (.arr items) = true
      · rw [depth_arr_add_le_iff] at h
        have hInner :=
          depth_mapItemsFrom_le_iff i (d + 1) items h.2
        rw [mapNodesFrom_of_isNodeList hList, placesFrom,
          if_pos hList]
        refine ⟨?_, hInner.2⟩
        rw [depth_arr_add_le_iff, ← hInner.1]
        simp only [h.1, true_and]
      · rw [mapNodesFrom, if_neg hList, placesFrom,
          if_neg hList]
        simpa using h
  | .null, h => by simpa [placesFrom] using h
  | .bool _, h => by simpa [placesFrom] using h
  | .num _, h => by simpa [placesFrom] using h
  | .str _, h => by simpa [placesFrom] using h

/- The same for members, but for a former annotation. -/
theorem depth_mapMembersFrom_le_iff
    (i d : Nat) :
    ∀ members : List (String × Json),
      (∀ m ∈ members, m.2.depth + d ≤ limit) →
      ((∀ m ∈ (mapMembersFrom
            (fun id ms => ms.settled ++ extra id) i
            members).1,
          m.1 ≠ annotationKey → m.2.depth + d ≤ limit) ↔
        ∀ place ∈ (memberPlacesFrom i d members).1,
          ∀ m ∈ extra place.1, m.2.depth + place.2 ≤ limit) ∧
      (mapMembersFrom (fun id ms => ms.settled ++ extra id) i
        members).2 = (memberPlacesFrom i d members).2
  | [], _ => by simp [memberPlacesFrom]
  | (key, value) :: members, h => by
      rw [List.forall_mem_cons] at h
      cases hClosed : isClosed key with
      | true =>
          have hRest :=
            depth_mapMembersFrom_le_iff i d members h.2
          rw [mapMembersFrom_closed hClosed, memberPlacesFrom,
            if_pos hClosed]
          refine ⟨?_, hRest.2⟩
          rw [List.forall_mem_cons, ← hRest.1]
          exact and_iff_right (fun _ => h.1)
      | false =>
          have hNe : key ≠ annotationKey := by
            rintro rfl
            exact absurd hClosed (by decide)
          have hValue :=
            depth_mapNodesFrom_le_iff i d value h.1
          have hRest :=
            depth_mapMembersFrom_le_iff (placesFrom i d value).2
              d members h.2
          rw [mapMembersFrom_open hClosed, memberPlacesFrom,
            if_neg (by simp [hClosed]), hValue.2]
          refine ⟨?_, hRest.2⟩
          rw [List.forall_mem_cons, List.forall_mem_append,
            ← hRest.1, ← hValue.1]
          simp only [ne_eq, hNe, not_false_eq_true,
            true_implies]

/- The same for a list of nodes. -/
theorem depth_mapItemsFrom_le_iff
    (i d : Nat) :
    ∀ items : List Json,
      (∀ v ∈ items, v.depth + d ≤ limit) →
      ((∀ v ∈ (mapItemsFrom
            (fun id ms => ms.settled ++ extra id) i items).1,
          v.depth + d ≤ limit) ↔
        ∀ place ∈ (itemPlacesFrom i d items).1,
          ∀ m ∈ extra place.1, m.2.depth + place.2 ≤ limit) ∧
      (mapItemsFrom (fun id ms => ms.settled ++ extra id) i
        items).2 = (itemPlacesFrom i d items).2
  | [], _ => by simp [itemPlacesFrom]
  | v :: items, h => by
      rw [List.forall_mem_cons] at h
      have hValue := depth_mapNodesFrom_le_iff i d v h.1
      have hRest :=
        depth_mapItemsFrom_le_iff (placesFrom i d v).2 d items
          h.2
      rw [mapItemsFrom_cons, itemPlacesFrom, hValue.2]
      refine ⟨?_, hRest.2⟩
      rw [List.forall_mem_cons, List.forall_mem_append,
        ← hRest.1, ← hValue.1]

end

end Places

------------------------------------------------------------
-- Proper Values
------------------------------------------------------------

section Proper

variable {fits : Number → Prop}
variable {f : NodeId → Members → Members}

mutual

/- A change that keeps nodes proper keeps values proper. -/
theorem Proper.mapNodesFrom
    (hNode :
      ∀ id ms, (Json.obj ms).Proper fits →
        (Json.obj (f id ms)).Proper fits)
    (i : Nat) :
    ∀ v : Json, v.Proper fits →
      (Json.mapNodesFrom f i v).1.Proper fits
  | .obj members, h => by
      by_cases hIs : isNode (.obj members) = true
      · rw [mapNodesFrom_of_isNode hIs]
        refine hNode _ _ (.obj ?_ ?_)
        · rw [keys_mapMembersFrom]
          exact h.of_obj.1
        · exact Proper.mapMembersFrom hNode (i + 1) members
            h.of_obj.2
      · rw [Json.mapNodesFrom, if_neg hIs]
        exact h
  | .arr items, h => by
      by_cases hIs : isNodeList (.arr items) = true
      · rw [mapNodesFrom_of_isNodeList hIs]
        exact .arr (Proper.mapItemsFrom hNode i items h.of_arr)
      · rw [Json.mapNodesFrom, if_neg hIs]
        exact h
  | .null, _ => by simp
  | .bool _, _ => by simp
  | .num _, h => by simpa using h
  | .str _, _ => by simp

/- The same for members. -/
theorem Proper.mapMembersFrom
    (hNode :
      ∀ id ms, (Json.obj ms).Proper fits →
        (Json.obj (f id ms)).Proper fits)
    (i : Nat) :
    ∀ members : List (String × Json),
      (∀ m ∈ members, m.2.Proper fits) →
      ∀ m ∈ (Json.mapMembersFrom f i members).1,
        m.2.Proper fits
  | [], _ => by simp
  | (key, value) :: members, h => by
      rw [List.forall_mem_cons] at h
      cases hClosed : isClosed key with
      | true =>
          rw [mapMembersFrom_closed hClosed,
            List.forall_mem_cons]
          exact ⟨h.1, Proper.mapMembersFrom hNode i members
            h.2⟩
      | false =>
          rw [mapMembersFrom_open hClosed,
            List.forall_mem_cons]
          exact ⟨Proper.mapNodesFrom hNode i value h.1,
            Proper.mapMembersFrom hNode _ members h.2⟩

/- The same for a list of nodes. -/
theorem Proper.mapItemsFrom
    (hNode :
      ∀ id ms, (Json.obj ms).Proper fits →
        (Json.obj (f id ms)).Proper fits)
    (i : Nat) :
    ∀ items : List Json,
      (∀ v ∈ items, v.Proper fits) →
      ∀ v ∈ (Json.mapItemsFrom f i items).1, v.Proper fits
  | [], _ => by simp
  | v :: items, h => by
      rw [List.forall_mem_cons] at h
      rw [mapItemsFrom_cons, List.forall_mem_cons]
      exact ⟨Proper.mapNodesFrom hNode i v h.1,
        Proper.mapItemsFrom hNode _ items h.2⟩

end

end Proper

end Json

------------------------------------------------------------
-- Written Trees
------------------------------------------------------------

/- A settled node has the keys it had, but in other order. -/
theorem Members.nodup_keys_settled
    {ms : Members}
    (h : ms.keys.Nodup) :
    ms.settled.keys.Nodup := by
  have hFilter :
      ∀ test : String → Bool,
        Members.keys (ms.filter (fun m => test m.1)) =
          ms.keys.filter test :=
    fun test => List.filter_map.symm
  rw [settled, keys_append, hFilter (fun key => key = "type"),
    hFilter isField]
  refine List.nodup_append.2
    ⟨h.filter _, h.filter _, ?_⟩
  intro key hType other hField hEq
  have hKey := of_decide_eq_true (List.mem_filter.1 hType).2
  have hIs := (List.mem_filter.1 hField).2
  rw [← hEq, hKey] at hIs
  exact absurd hIs (by decide)

namespace Tree

variable {d : Document}
variable {t u : Tree}

/-
  A tree that was imported from a document within a limit is
  written within it just if its annotations are, each counted
  from where its node stands in the document.
-/
theorem depth_toJson_le_iff
    {limit : Nat}
    (hTree : ofJson d.value = .ok t)
    (hClear : u.clearAnnotations = t.clearAnnotations)
    (hDepth : d.value.depth ≤ limit) :
    u.toJson.depth ≤ limit ↔
      ∀ id k a, (id, k) ∈ d.value.places →
        u.annotation? id = some a →
          k + a.toJson.depth ≤ limit := by
  have hPlaces :=
    (Json.depth_mapNodesFrom_le_iff
      (fun id => annotationMember (u.annotation? id)) limit 0
      0 d.value hDepth).1
  rw [toJson_of_clear hTree hClear]
  refine hPlaces.trans ?_
  constructor
  · intro hAll id k a hPlace hShown
    rw [Nat.add_comm]
    exact hAll (id, k) hPlace (annotationKey, a.toJson)
      (by simp [annotationMember, hShown])
  · rintro hAll ⟨id, k⟩ hPlace m hMember
    simp only [annotationMember, List.mem_map,
      Option.mem_toList] at hMember
    rcases hMember with ⟨a, hShown, rfl⟩
    rw [Nat.add_comm]
    exact hAll id k a hPlace hShown

/- It is proper if the document and the annotations are. -/
theorem proper_toJson
    {fits : Number → Prop}
    (hTree : ofJson d.value = .ok t)
    (hClear : u.clearAnnotations = t.clearAnnotations)
    (hProper : d.value.Proper fits)
    (hShown :
      ∀ id a, u.annotation? id = some a →
        a.toJson.Proper fits) :
    u.toJson.Proper fits := by
  rw [toJson_of_clear hTree hClear]
  refine Json.Proper.mapNodesFrom ?_ 0 d.value hProper
  intro id ms hNode
  rcases hNode.of_obj with ⟨hNodup, hMembers⟩
  have hSettled := Members.nodup_keys_settled hNodup
  have hInner :
      ∀ m ∈ Members.settled ms, m.2.Proper fits :=
    fun m hMem => hMembers m (Json.mem_settled_iff.1 hMem).1
  rw [written]
  cases hAnnotation : u.annotation? id with
  | none =>
      rw [show annotationMember none = [] from rfl,
        List.append_nil]
      exact .obj hSettled hInner
  | some a =>
      have hNew :
          annotationKey ∉ (Members.settled ms).keys := by
        intro hMem
        rcases List.mem_map.1 hMem with ⟨m, hIn, hKey⟩
        exact (Json.mem_settled_iff.1 hIn).2 hKey
      rw [show annotationMember (some a) =
          [(annotationKey, a.toJson)] from rfl]
      refine .obj ?_ ?_
      · rw [← Members.insert_of_not_mem hNew]
        exact Members.nodup_keys_insert hSettled
      · rw [List.forall_mem_append]
        refine ⟨hInner, ?_⟩
        intro m hMem
        cases List.mem_singleton.1 hMem
        exact hShown id a hAnnotation

end Tree

end TypeGraft
