import TypeGraft.Proofs.Tree.Imported
import TypeGraft.Tree.Builder

/-
  Trees that were built step by step are linked.

  A step changes the fields of one node.  The children that
  the node has afterwards it had before, but for the node that
  the step made, if it made one.

  Key definitions include:
    * `Node.Gains`
    * `Tree.Built`
    * `Tree.Produced`

  Main declarations:
    * `Tree.Built.perform`
    * `Tree.linked_of_build`
    * `Tree.Produced.linked`
-/

namespace TypeGraft

------------------------------------------------------------
-- Changing the Fields of a Node
------------------------------------------------------------

namespace Node

/- The names of the fields. -/
def fieldNames
    (n : Node) : List String :=
  n.fields.map Prod.fst

/-
  A node `m` is `n` with other fields.  Its children are among
  those of `n`, but for at most one that is new.
-/
structure Gains
    (n m : Node)
    (new : Option NodeId) : Prop where
  parent : m.parent = n.parent
  names : m.fieldNames.Nodup
  nodup : m.children.Nodup
  mem :
    ∀ {c : NodeId}, c ∈ m.children →
      c ∈ n.children ∨ new = some c

variable {n : Node}
variable {name : String}
variable {field : Field}
variable {new : Option NodeId}
variable {c : NodeId}

/- A field that is there is set in its place. -/
theorem fields_setField_of_mem
    {before after : List (String × Field)}
    {old : Field}
    (hNames : n.fieldNames.Nodup)
    (hFields : n.fields = before ++ (name, old) :: after) :
    (n.setField name field).fields =
      before ++ (name, field) :: after := by
  rw [fieldNames, hFields, List.map_append, List.map_cons,
    List.nodup_middle, List.nodup_cons, List.mem_append]
    at hNames
  have hKeep :
      ∀ fs : List (String × Field), name ∉ fs.map Prod.fst →
        fs.map (fun f =>
          if f.1 = name then (f.1, field) else f) = fs := by
    intro fs hOut
    refine (List.map_congr_left ?_).trans (List.map_id fs)
    intro f hMem
    have hNe : f.1 ≠ name :=
      fun hEq => hOut (hEq ▸ List.mem_map_of_mem hMem)
    simp [hNe]
  have hAny : n.fields.any (fun f => f.1 = name) = true := by
    simp [hFields]
  rw [setField, if_pos hAny]
  simp only [hFields, List.map_append, List.map_cons, if_true]
  rw [hKeep before (fun h => hNames.1 (.inl h)),
    hKeep after (fun h => hNames.1 (.inr h))]

/- A new field is put at the end. -/
theorem fields_setField_of_not_mem
    (h : name ∉ n.fieldNames) :
    (n.setField name field).fields =
      n.fields ++ [(name, field)] := by
  have hAny : ¬ n.fields.any (fun f => f.1 = name) = true := by
    intro hAny
    rcases List.any_eq_true.1 hAny with ⟨f, hMem, hEq⟩
    exact h (of_decide_eq_true hEq ▸ List.mem_map_of_mem hMem)
  rw [setField, if_neg hAny]

/- Setting a field leaves the parent alone. -/
theorem parent_setField :
    (n.setField name field).parent = n.parent := by
  unfold setField
  split <;> rfl

/- A field that is there is found. -/
theorem field?_eq_some
    {before after : List (String × Field)}
    {old : Field}
    (hNames : n.fieldNames.Nodup)
    (hFields : n.fields = before ++ (name, old) :: after) :
    n.field? name = some old := by
  rw [fieldNames, hFields, List.map_append, List.map_cons,
    List.nodup_middle, List.nodup_cons, List.mem_append]
    at hNames
  have hBefore :
      before.find? (fun f => f.1 = name) = none := by
    rw [List.find?_eq_none]
    intro f hMem hEq
    exact hNames.1 (.inl
      (List.mem_map.2 ⟨f, hMem, of_decide_eq_true hEq⟩))
  simp [field?, hFields, hBefore]

/-
  Setting a field whose children are new, or were there in the
  field of that name.
-/
theorem gains_setField
    (hNames : n.fieldNames.Nodup)
    (hNodup : n.children.Nodup)
    (hField : field.children.Nodup)
    (hFrom :
      ∀ c ∈ field.children,
        (new = some c ∧ c ∉ n.children) ∨
          ∃ old, n.field? name = some old ∧
            c ∈ old.children) :
    n.Gains (n.setField name field) new := by
  by_cases hMem : name ∈ n.fieldNames
  · rcases List.mem_map.1 hMem with ⟨⟨_, old⟩, hIn, rfl⟩
    rcases List.append_of_mem hIn with ⟨before, after, hEq⟩
    have hSet := @fields_setField_of_mem n _ field _ _ _
      hNames hEq
    have hOld := field?_eq_some hNames hEq
    simp only [hOld, Option.some.injEq, exists_eq_left']
      at hFrom
    simp only [fieldNames, hEq, List.map_append,
      List.map_cons] at hNames
    simp only [children, hEq, List.flatMap_append,
      List.flatMap_cons, List.nodup_append, List.mem_append]
      at hNodup hFrom
    refine ⟨parent_setField, ?_, ?_, ?_⟩
    · simpa only [fieldNames, hSet, List.map_append,
        List.map_cons] using hNames
    · simp only [children, hSet, List.flatMap_append,
        List.flatMap_cons, List.nodup_append, List.mem_append]
      grind
    · intro c hIn
      simp only [children, hSet, hEq, List.flatMap_append,
        List.flatMap_cons, List.mem_append] at hIn ⊢
      grind
  · have hSet := @fields_setField_of_not_mem n _ field hMem
    have hNone : n.field? name = none := by
      simp only [field?, Option.map_eq_none_iff,
        List.find?_eq_none]
      intro f hIn hEq
      exact hMem
        (List.mem_map.2 ⟨f, hIn, of_decide_eq_true hEq⟩)
    simp only [hNone, reduceCtorEq, false_and, exists_false,
      or_false] at hFrom
    refine ⟨parent_setField, ?_, ?_, ?_⟩
    · rw [fieldNames, hSet, List.map_append,
        List.map_singleton, ← List.concat_eq_append]
      exact hNames.concat hMem
    · simp only [children, hSet, List.flatMap_append,
        List.flatMap_singleton, List.nodup_append]
      exact ⟨hNodup, hField, fun c hIn d hNew hEq =>
        (hFrom d hNew).2 (hEq ▸ hIn)⟩
    · intro c hIn
      simp only [children, hSet, List.flatMap_append,
        List.flatMap_singleton, List.mem_append] at hIn
      exact hIn.imp id (fun h => (hFrom c h).1)

/- The children of a field are children of the node. -/
theorem mem_children_of_field?
    {old : Field}
    (hOld : n.field? name = some old)
    (h : c ∈ old.children) :
    c ∈ n.children := by
  rcases Option.map_eq_some_iff.1 hOld with ⟨f, hFind, rfl⟩
  exact List.mem_flatMap.2
    ⟨f, List.mem_of_find?_eq_some hFind, h⟩

/- The children of a field are not repeated. -/
theorem nodup_of_field?
    {old : Field}
    (hNodup : n.children.Nodup)
    (hOld : n.field? name = some old) :
    old.children.Nodup := by
  rcases Option.map_eq_some_iff.1 hOld with ⟨f, hFind, rfl⟩
  exact (List.nodup_flatMap.1 hNodup).1 f
    (List.mem_of_find?_eq_some hFind)

/- Putting an item at the end of a list. -/
theorem gains_pushItem
    {item : Option NodeId}
    (hNames : n.fieldNames.Nodup)
    (hNodup : n.children.Nodup)
    (hNew : ∀ c, item = some c → c ∉ n.children) :
    n.Gains (n.pushItem name item) item := by
  have hItem :
      ∀ c, c ∈ Field.children (.list [item]) → item = some c := by
    intro c h
    simpa [Field.children, List.mem_filterMap, eq_comm] using h
  unfold pushItem
  split
  · rename_i items hOld
    have hSplit :
        Field.children (.list (items ++ [item])) =
          Field.children (.list items) ++
            Field.children (.list [item]) :=
      List.filterMap_append
    have hIn :
        ∀ c ∈ Field.children (.list items), c ∈ n.children :=
      fun c h => mem_children_of_field? hOld h
    apply gains_setField hNames hNodup
    · rw [hSplit, List.nodup_append]
      refine ⟨nodup_of_field? hNodup hOld, ?_, ?_⟩
      · cases item <;> simp [Field.children]
      · intro c hMem d hLast hEq
        exact hNew d (hItem d hLast) (hEq ▸ hIn c hMem)
    · intro c hMem
      rw [hSplit, List.mem_append] at hMem
      rcases hMem with hKept | hLast
      · exact .inr ⟨_, hOld, hKept⟩
      · exact .inl ⟨hItem c hLast, hNew c (hItem c hLast)⟩
  · apply gains_setField hNames hNodup
    · cases item <;> simp [Field.children]
    · intro c hMem
      exact .inl ⟨hItem c hMem, hNew c (hItem c hMem)⟩

/- Nothing is gained where nothing is changed. -/
theorem Gains.refl
    (hNames : n.fieldNames.Nodup)
    (hNodup : n.children.Nodup) :
    n.Gains n new :=
  ⟨rfl, hNames, hNodup, .inl⟩

/- An empty list gains nothing. -/
theorem gains_ensureList
    (hNames : n.fieldNames.Nodup)
    (hNodup : n.children.Nodup) :
    n.Gains (n.ensureList name) none := by
  unfold ensureList
  split
  · exact .refl hNames hNodup
  · exact gains_setField hNames hNodup (by simp [Field.children])
      (by simp [Field.children])

end Node

------------------------------------------------------------
-- Building
------------------------------------------------------------

namespace Tree

/-
  A table made by a builder: linked, with a root, and no node
  has two fields of one name.
-/
structure Built
    (t : Tree) : Prop extends Linked t where
  size_pos : 0 < t.size
  names :
    ∀ {id : NodeId} {n : Node},
      t.get? id = some n → n.fieldNames.Nodup

/- A root alone. -/
theorem built_start
    (kind : NodeKind)
    (range : SourceRange) :
    (start kind range).Built := by
  have hNode :
      ∀ {id n}, (start kind range).get? id = some n →
        n = { kind := kind, range := range, parent := none } := by
    intro id n h
    rcases id with ⟨_ | i⟩
    · exact (Option.some.inj h).symm
    · simp [start, get?] at h
  have hParent :
      ∀ id, (start kind range).parent? id = none := by
    intro id
    rcases hGet : (start kind range).get? id with _ | n
    · simp [parent?, hGet]
    · simp [parent?, hGet, hNode hGet]
  have hChildren :
      ∀ id, (start kind range).childrenOf id = [] := by
    intro id
    rcases hGet : (start kind range).get? id with _ | n
    · simp [childrenOf, hGet]
    · simp [childrenOf, hGet, hNode hGet, Node.children]
  constructor
  case toLinked =>
    constructor
    case parent_of_child =>
      intro p c h
      simp [hChildren] at h
    case nodup_children => simp [hChildren]
    case parent_le =>
      intro p c h
      simp [hParent] at h
    case parent_root => exact hParent root
  case size_pos => simp [start, size]
  case names =>
    intro id n h
    simp [hNode h, Node.fieldNames]

/- The table with one more node. -/
theorem get?_append
    (t : Tree)
    (p : NodeId)
    (kind : NodeKind)
    (range : SourceRange)
    (id : NodeId) :
    (t.append p kind range).get? id =
      if id.index = t.size then
        some { kind := kind, range := range, parent := some p }
      else t.get? id :=
  get?_push t.nodes _ id

/- The new node has its parent. -/
theorem parent?_append
    (t : Tree)
    (p : NodeId)
    (kind : NodeKind)
    (range : SourceRange)
    (id : NodeId) :
    (t.append p kind range).parent? id =
      if id.index = t.size then some p else t.parent? id := by
  simp only [parent?, get?_append]
  split <;> rfl

/- It has no children, and nobody has it as a child. -/
theorem childrenOf_append
    (t : Tree)
    (p : NodeId)
    (kind : NodeKind)
    (range : SourceRange)
    (id : NodeId) :
    (t.append p kind range).childrenOf id =
      t.childrenOf id := by
  by_cases hEq : id.index = t.size
  · rw [childrenOf_eq_nil (Nat.le_of_eq hEq.symm),
      childrenOf, get?_append, if_pos hEq]
    rfl
  · apply childrenOf_congr
    rw [get?_append, if_neg hEq]

namespace Built

variable {t u : Tree}
variable {p c : NodeId}

/- A node at the end of the table that nothing lists yet. -/
theorem append
    (hBuilt : t.Built)
    (hParent : p.index ≤ t.size)
    (kind : NodeKind)
    (range : SourceRange) :
    (t.append p kind range).Built := by
  constructor
  case toLinked =>
    constructor
    case parent_of_child =>
      intro q c h
      rw [childrenOf_append] at h
      have hLink := hBuilt.parent_of_child h
      rw [parent?_append,
        if_neg (Nat.ne_of_lt (lt_size_of_parent hLink))]
      exact hLink
    case nodup_children =>
      intro q
      rw [childrenOf_append]
      exact hBuilt.nodup_children q
    case parent_le =>
      intro q c h
      rw [parent?_append] at h
      split at h
      · cases h
        omega
      · exact hBuilt.parent_le h
    case parent_root =>
      have hNe : root.index ≠ t.size :=
        Nat.ne_of_lt hBuilt.size_pos
      rw [parent?_append, if_neg hNe]
      exact hBuilt.parent_root
  case size_pos =>
    simp [Tree.append, size]
  case names =>
    intro id n h
    rw [get?_append] at h
    split at h
    · cases h
      exact List.nodup_nil
    · exact hBuilt.names h

/- A node of the table with other fields. -/
theorem change
    {f : Node → Node}
    (new : Option NodeId)
    (hBuilt : t.Built)
    (hChange : t.change? p f = some u)
    (hGains :
      ∀ n, t.get? p = some n → n.Gains (f n) new)
    (hNew : ∀ c, new = some c → t.parent? c = some p) :
    u.Built := by
  unfold change? at hChange
  split at hChange
  case isFalse => cases hChange
  case isTrue hSize =>
  cases hChange
  have hNode : t.get? p = some t.nodes[p.index] :=
    Array.getElem?_eq_getElem hSize
  have hGain := hGains _ hNode
  have hGet := get?_modify t.nodes f p
  have hParent :
      ∀ id, (Tree.mk (t.nodes.modify p.index f)).parent? id =
        t.parent? id := by
    intro id
    by_cases hEq : id = p
    · subst hEq
      simp [parent?, hGet, hNode, hGain.parent]
    · simp [parent?, hGet, hEq]
  have hOwn :
      (Tree.mk (t.nodes.modify p.index f)).childrenOf p =
        (f t.nodes[p.index]).children := by
    apply childrenOf_eq
    rw [hGet, if_pos rfl, hNode, Option.map_some]
  have hOther :
      ∀ {id}, id ≠ p →
        (Tree.mk (t.nodes.modify p.index f)).childrenOf id =
          t.childrenOf id := by
    intro id hNe
    apply childrenOf_congr
    rw [hGet, if_neg hNe]
  constructor
  case toLinked =>
    constructor
    case parent_of_child =>
      intro q c h
      rw [hParent]
      by_cases hEq : q = p
      · subst hEq
        rw [hOwn] at h
        rcases hGain.mem h with hKept | hAdded
        · rw [← childrenOf_eq hNode] at hKept
          exact hBuilt.parent_of_child hKept
        · exact hNew c hAdded
      · rw [hOther hEq] at h
        exact hBuilt.parent_of_child h
    case nodup_children =>
      intro q
      by_cases hEq : q = p
      · subst hEq
        rw [hOwn]
        exact hGain.nodup
      · rw [hOther hEq]
        exact hBuilt.nodup_children q
    case parent_le =>
      intro q c h
      rw [hParent] at h
      exact hBuilt.parent_le h
    case parent_root =>
      rw [hParent]
      exact hBuilt.parent_root
  case size_pos =>
    simpa [size] using hBuilt.size_pos
  case names =>
    intro id n h
    rw [hGet] at h
    split at h
    · rename_i hEq
      subst hEq
      rw [hNode] at h
      cases h
      exact hGain.names
    · exact hBuilt.names h

/- A new node, and then a change of its parent to list it. -/
theorem append_change
    {kind : NodeKind}
    {range : SourceRange}
    {f : Node → Node}
    (hBuilt : t.Built)
    (hChange :
      (t.append p kind range).change? p f = some u)
    (hGains :
      ∀ n : Node, n.fieldNames.Nodup → n.children.Nodup →
        (⟨t.size⟩ : NodeId) ∉ n.children →
          n.Gains (f n) (some ⟨t.size⟩)) :
    u.Built := by
  have hSize : p.index < (t.append p kind range).size := by
    unfold change? at hChange
    split at hChange
    · assumption
    · cases hChange
  have hLe : p.index ≤ t.size := by
    rw [size, Tree.append, Array.size_push] at hSize
    exact Nat.le_of_lt_succ hSize
  have hAppended := hBuilt.append hLe kind range
  refine hAppended.change (some ⟨t.size⟩) hChange ?_ ?_
  · intro n hNode
    have hChildren := childrenOf_eq hNode
    refine hGains n (hAppended.names hNode)
      (hChildren ▸ hAppended.nodup_children p) ?_
    rw [← hChildren, childrenOf_append]
    intro hChild
    have hLink := hBuilt.parent_of_child hChild
    exact Nat.lt_irrefl _ (lt_size_of_parent hLink)
  · intro c hEq
    cases hEq
    rw [parent?_append, if_pos rfl]

/- A change that makes no node a child. -/
theorem change_none
    {f : Node → Node}
    (hBuilt : t.Built)
    (hChange : t.change? p f = some u)
    (hGains :
      ∀ n : Node, n.fieldNames.Nodup → n.children.Nodup →
        n.Gains (f n) none) :
    u.Built := by
  refine hBuilt.change none hChange ?_ (by simp)
  intro n hNode
  exact hGains n (hBuilt.names hNode)
    (childrenOf_eq hNode ▸ hBuilt.nodup_children p)

/- Every step keeps a table as builders make them. -/
theorem perform
    {s : BuildStep}
    {r : Option NodeId × Tree}
    (hBuilt : t.Built)
    (h : t.perform? s = some r) :
    r.2.Built := by
  cases s with
  | child parent field kind range =>
      rcases Option.map_eq_some_iff.1 h with ⟨u, hChange, rfl⟩
      refine hBuilt.append_change hChange ?_
      intro n hNames hNodup hOut
      refine Node.gains_setField hNames hNodup
        (List.nodup_singleton _) ?_
      intro c hMem
      cases List.mem_singleton.1 hMem
      exact .inl ⟨rfl, hOut⟩
  | push parent field kind range =>
      rcases Option.map_eq_some_iff.1 h with ⟨u, hChange, rfl⟩
      refine hBuilt.append_change hChange ?_
      intro n hNames hNodup hOut
      refine Node.gains_pushItem hNames hNodup ?_
      intro c hEq
      cases hEq
      exact hOut
  | hole parent field =>
      rcases Option.map_eq_some_iff.1 h with ⟨u, hChange, rfl⟩
      refine hBuilt.change_none hChange ?_
      intro n hNames hNodup
      exact Node.gains_pushItem hNames hNodup (by simp)
  | empty id field =>
      rcases Option.map_eq_some_iff.1 h with ⟨u, hChange, rfl⟩
      refine hBuilt.change_none hChange ?_
      intro n hNames hNodup
      exact Node.gains_ensureList hNames hNodup
  | attr id key value =>
      rcases Option.map_eq_some_iff.1 h with ⟨u, hChange, rfl⟩
      refine hBuilt.change_none hChange ?_
      intro n hNames hNodup
      exact Node.gains_setField hNames hNodup List.nodup_nil
        (by simp [Field.children])

/- So does every sequence of steps. -/
theorem extend
    {steps : List BuildStep}
    (hBuilt : t.Built)
    (h : t.extend? steps = some u) :
    u.Built := by
  induction steps generalizing t with
  | nil =>
      cases h
      exact hBuilt
  | cons s steps ih =>
      rw [extend?] at h
      split at h
      · cases h
      · rename_i id between hStep
        exact ih (hBuilt.perform hStep) h

end Built

/- Built trees are linked. -/
theorem linked_of_build
    {kind : NodeKind}
    {range : SourceRange}
    {steps : List BuildStep}
    {t : Tree}
    (h : build? kind range steps = some t) :
    t.Linked :=
  ((built_start kind range).extend h).toLinked

------------------------------------------------------------
-- Trees, However Made
------------------------------------------------------------

/- The ways to make a tree. -/
inductive Produced : Tree → Prop where
  | imported
      {v : Json}
      {t : Tree}
      (h : ofJson v = .ok t) : Produced t
  | built
      {kind : NodeKind}
      {range : SourceRange}
      {steps : List BuildStep}
      {t : Tree}
      (h : build? kind range steps = some t) : Produced t

/- All trees are linked. -/
theorem Produced.linked
    {t : Tree}
    (h : t.Produced) :
    t.Linked := by
  cases h with
  | imported h => exact linked_of_ofJson h
  | built h => exact linked_of_build h

/- All trees have a root. -/
theorem Produced.size_pos
    {t : Tree}
    (h : t.Produced) :
    0 < t.size := by
  cases h with
  | imported h => exact size_pos_of_ofJson h
  | built h =>
      exact ((built_start _ _).extend h).size_pos

end Tree

end TypeGraft
