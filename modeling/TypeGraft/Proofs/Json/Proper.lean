import Mathlib.Data.List.Basic
import TypeGraft.Proofs.Json.Keys

/-
  Values that JSON text can stand for.

  The type of values has room for more than text can say: an
  object with two members of one key, a whole number of more
  than 64 bits, arrays nested without a limit.  A value that
  is read from text has none of these.

  Key definitions include:
    * `Json.numbers`
    * `Json.Proper`
    * `Number.Fits`

  Main declarations:
    * `Json.Proper.of_keysDistinct`
    * `Members.proper_eraseSwap`
    * `Json.proper_of_parse?`
    * `Json.depth_le_of_parse?`
-/

namespace TypeGraft

------------------------------------------------------------
-- Numbers of a Value
------------------------------------------------------------

namespace Json

mutual

/- All numbers in a value, in their order. -/
def numbers : Json → List Number
  | .null => []
  | .bool _ => []
  | .num n => [n]
  | .str _ => []
  | .arr items => numbersItems items
  | .obj members => numbersMembers members

/- All numbers in several values. -/
def numbersItems : List Json → List Number
  | [] => []
  | v :: vs => numbers v ++ numbersItems vs

/- All numbers in the values of some members. -/
def numbersMembers : List (String × Json) → List Number
  | [] => []
  | (_, v) :: ms => numbers v ++ numbersMembers ms

end

theorem mem_numbers_arr_iff
    {items : List Json}
    {n : Number} :
    n ∈ (Json.arr items).numbers ↔
      ∃ v ∈ items, n ∈ v.numbers := by
  rw [numbers]
  induction items with
  | nil => simp [numbersItems]
  | cons v items ih => simp [numbersItems, ih]

theorem mem_numbers_obj_iff
    {members : Members}
    {n : Number} :
    n ∈ (Json.obj members).numbers ↔
      ∃ m ∈ members, n ∈ m.2.numbers := by
  rw [numbers]
  induction members with
  | nil => simp [numbersMembers]
  | cons m members ih =>
      rcases m with ⟨k, v⟩
      simp only [numbersMembers, List.mem_append, ih,
        List.mem_cons, exists_eq_or_imp]

------------------------------------------------------------
-- Proper Values
------------------------------------------------------------

/-
  No object in the value has two members with one key, and
  all numbers have some property.
-/
inductive Proper
    (fits : Number → Prop) : Json → Prop
  | null : Proper fits .null
  | bool (b : Bool) : Proper fits (.bool b)
  | num {n : Number} (hFits : fits n) : Proper fits (.num n)
  | str (s : String) : Proper fits (.str s)
  | arr
      {items : List Json}
      (hItems : ∀ v ∈ items, Proper fits v) :
      Proper fits (.arr items)
  | obj
      {members : Members}
      (hKeys : members.keys.Nodup)
      (hMembers : ∀ m ∈ members, Proper fits m.2) :
      Proper fits (.obj members)

attribute [simp] Proper.null Proper.bool Proper.str

section Proper

variable {fits : Number → Prop}
variable {v : Json}

theorem Proper.of_arr
    {items : List Json}
    (h : (Json.arr items).Proper fits) :
    ∀ v ∈ items, v.Proper fits := by
  cases h
  assumption

theorem Proper.of_obj
    {members : Members}
    (h : (Json.obj members).Proper fits) :
    members.keys.Nodup ∧ ∀ m ∈ members, m.2.Proper fits := by
  cases h
  exact ⟨‹_›, ‹_›⟩

/- Where numbers have one property, they may have another. -/
theorem Proper.imp
    {other : Number → Prop}
    (h : v.Proper fits)
    (hNumbers : ∀ n ∈ v.numbers, fits n → other n) :
    v.Proper other := by
  induction h with
  | null => exact .null
  | bool b => exact .bool b
  | @num n hFits =>
      exact .num (hNumbers n (by simp [numbers]) hFits)
  | str s => exact .str s
  | arr _ ih =>
      refine .arr (fun v hMem => ih v hMem ?_)
      intro n hNumber
      exact hNumbers n
        (mem_numbers_arr_iff.2 ⟨v, hMem, hNumber⟩)
  | obj hKeys _ ih =>
      refine .obj hKeys (fun m hMem => ih m hMem ?_)
      intro n hNumber
      exact hNumbers n
        (mem_numbers_obj_iff.2 ⟨m, hMem, hNumber⟩)

mutual

/- Distinct keys are all that is asked besides numbers. -/
theorem Proper.of_keysDistinct :
    ∀ v : Json, v.keysDistinct = true →
      v.Proper (fun n => n ∈ v.numbers)
  | .null, _ => .null
  | .bool b, _ => .bool b
  | .num _, _ => .num (by simp [numbers])
  | .str s, _ => .str s
  | .arr items, h => by
      refine .arr (fun v hMem => ?_)
      refine (Proper.of_keysDistinctItems items
        (keysDistinct_arr_iff.1 h) v hMem).imp ?_
      intro n _ hNumber
      exact mem_numbers_arr_iff.2 ⟨v, hMem, hNumber⟩
  | .obj members, h => by
      rw [keysDistinct_obj_iff] at h
      refine .obj h.1 (fun m hMem => ?_)
      refine (Proper.of_keysDistinctMembers members h.2 m
        hMem).imp ?_
      intro n _ hNumber
      exact mem_numbers_obj_iff.2 ⟨m, hMem, hNumber⟩

theorem Proper.of_keysDistinctItems :
    ∀ items : List Json,
      (∀ v ∈ items, v.keysDistinct = true) →
      ∀ v ∈ items, v.Proper (fun n => n ∈ v.numbers)
  | [], _ => by simp
  | v :: items, h => by
      rw [List.forall_mem_cons] at h ⊢
      exact ⟨Proper.of_keysDistinct v h.1,
        Proper.of_keysDistinctItems items h.2⟩

theorem Proper.of_keysDistinctMembers :
    ∀ members : List (String × Json),
      (∀ m ∈ members, m.2.keysDistinct = true) →
      ∀ m ∈ members, m.2.Proper (fun n => n ∈ m.2.numbers)
  | [], _ => by simp
  | (_, v) :: members, h => by
      rw [List.forall_mem_cons] at h ⊢
      exact ⟨Proper.of_keysDistinct v h.1,
        Proper.of_keysDistinctMembers members h.2⟩

end

end Proper

------------------------------------------------------------
-- Nesting
------------------------------------------------------------

theorem depthItems_cons_le_iff
    {v : Json}
    {items : List Json}
    {d : Nat} :
    depthItems (v :: items) ≤ d ↔
      v.depth ≤ d ∧ depthItems items ≤ d :=
  Nat.max_le

theorem depthMembers_cons_le_iff
    {key : String}
    {v : Json}
    {members : List (String × Json)}
    {d : Nat} :
    depthMembers ((key, v) :: members) ≤ d ↔
      v.depth ≤ d ∧ depthMembers members ≤ d :=
  Nat.max_le

theorem depthItems_le_iff
    {items : List Json}
    {d : Nat} :
    depthItems items ≤ d ↔ ∀ v ∈ items, v.depth ≤ d := by
  induction items with
  | nil => simp [depthItems]
  | cons v items ih =>
      rw [depthItems_cons_le_iff, ih, List.forall_mem_cons]

theorem depthMembers_le_iff
    {members : Members}
    {d : Nat} :
    depthMembers members ≤ d ↔
      ∀ m ∈ members, m.2.depth ≤ d := by
  induction members with
  | nil => simp [depthMembers]
  | cons m members ih =>
      rw [depthMembers_cons_le_iff, ih, List.forall_mem_cons]

end Json

------------------------------------------------------------
-- Members Left Out
------------------------------------------------------------

/- Without a key, all other members are left. -/
theorem Members.eraseSwap_perm
    (ms : Members)
    (key : String) :
    (ms.eraseSwap key).Perm
      (ms.eraseP (fun m => m.1 = key)) := by
  rw [eraseSwap, List.eraseP_eq_eraseIdx]
  split
  · rename_i hNone
    rw [hNone]
  · rename_i i hFound
    rw [hFound]
    simp only [List.eraseIdx_eq_take_drop_succ]
    split
    · rename_i hNone
      rw [List.getLast?_eq_none_iff.1 hNone, List.append_nil]
    · rename_i m hLast
      have hMoved :=
        (List.perm_append_singleton m
          (ms.drop (i + 1)).dropLast).symm
      rw [List.dropLast_append_getLast? m hLast] at hMoved
      exact (List.Perm.refl _).append hMoved

/- So it is proper if the members were. -/
theorem Members.proper_eraseSwap
    {fits : Number → Prop}
    {ms : Members}
    (h : (Json.obj ms).Proper fits)
    (key : String) :
    (Json.obj (ms.eraseSwap key)).Proper fits := by
  rcases h.of_obj with ⟨hKeys, hMembers⟩
  have hPerm := ms.eraseSwap_perm key
  have hSub : (ms.eraseP (fun m => m.1 = key)).Sublist ms :=
    List.eraseP_sublist
  refine .obj ?_ ?_
  · exact (hPerm.map Prod.fst).nodup_iff.2
      (hKeys.sublist (hSub.map Prod.fst))
  · intro m hMem
    exact hMembers m (hSub.subset (hPerm.subset hMem))

------------------------------------------------------------
-- Values from Text
------------------------------------------------------------

/- A whole number has 64 bits, with a sign or without. -/
def Number.Fits : Number → Prop
  | .whole z => -twoTo 63 ≤ z ∧ z < twoTo 64
  | .real _ => True

instance : DecidablePred Number.Fits
  | .whole z =>
      inferInstanceAs (Decidable (-twoTo 63 ≤ z ∧ z < twoTo 64))
  | .real _ => inferInstanceAs (Decidable True)

namespace Json

namespace Reader.Numeral

/- Gathering digits stays within 64 bits. -/
theorem gather_le
    {start : Nat}
    (cs : List Char)
    (h : start ≤ wholeLimit) :
    (gather start cs).1 ≤ wholeLimit := by
  induction cs generalizing start with
  | nil => exact h
  | cons c cs ih =>
      rw [gather]
      dsimp only
      split
      · exact h
      · rename_i hNext
        exact ih (Nat.le_of_not_lt hNext)

/- The value of a number fits. -/
theorem fits_of_value?
    {n : Numeral}
    {x : Number}
    (h : n.value? = some x) :
    x.Fits := by
  have hLimit : wholeLimit + 1 = twoTo 64 := rfl
  have hDigits := @gather_le 0 n.whole (Nat.zero_le _)
  simp only [value?] at h
  split at h
  · split at h
    · cases h
      exact ⟨by omega, by omega⟩
    · split at h
      · cases h
        exact trivial
      · cases h
        exact ⟨by omega, by omega⟩
  · rcases Option.map_eq_some_iff.1 h with ⟨y, -, rfl⟩
    exact trivial

end Reader.Numeral

/- A text stands for a value whose numbers fit. -/
theorem proper_of_parse?
    {text : String}
    {v : Json}
    (h : parse? text = some v) :
    v.Proper Number.Fits := by
  have hCases :
      Reader.ReadCases (fun _ v => v.Proper Number.Fits) :=
    { null := fun _ => .null
      bool := fun _ b => .bool b
      str := fun _ s => .str s
      num := fun _ _ _ hValue =>
        .num (Reader.Numeral.fits_of_value? hValue)
      arr := fun _ _ hItems => .arr hItems
      obj := fun _ _ hKeys hMembers => .obj hKeys hMembers }
  exact hCases.of_parse? h

/- It nests no deeper than a text may. -/
theorem depth_le_of_parse?
    {text : String}
    {v : Json}
    (h : parse? text = some v) :
    v.depth ≤ nestingLimit := by
  have hCases :
      Reader.ReadCases (fun depth v => v.depth ≤ depth) :=
    { null := fun depth => Nat.zero_le depth
      bool := fun depth _ => Nat.zero_le depth
      str := fun depth _ => Nat.zero_le depth
      num := fun depth _ _ _ => Nat.zero_le depth
      arr := fun _ _ hItems =>
        Nat.succ_le_succ (depthItems_le_iff.2 hItems)
      obj := fun _ _ _ hMembers =>
        Nat.succ_le_succ (depthMembers_le_iff.2 hMembers) }
  exact hCases.of_parse? h

end Json

end TypeGraft
