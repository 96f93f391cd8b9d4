import TypeGraft.Json.Reader

/-
  Keys of JSON objects.

  Setting a member keeps the keys of an object distinct, and
  a list of new keys is set at its end, in order.  Objects
  that are read from text have been set together member by
  member, so no object in a value that is read has two
  members with one key.

  Key definitions include:
    * `Members.keys`
    * `Json.keysDistinct`
    * `Json.Reader.ReadCases`
    * `Document`

  Main declarations:
    * `Members.keys_insert`
    * `Members.foldl_insert`
    * `Json.Reader.ReadCases.of_parse?`
    * `Json.keysDistinct_of_parse?`
    * `Document.exists_of_parse?`
-/

namespace TypeGraft

------------------------------------------------------------
-- Members
------------------------------------------------------------

namespace Members

/- The keys of an object, in order. -/
def keys
    (ms : Members) : List String :=
  ms.map Prod.fst

@[simp]
theorem keys_nil :
    keys [] = [] := rfl

@[simp]
theorem keys_cons
    (m : String × Json)
    (ms : Members) :
    keys (m :: ms) = m.1 :: keys ms := rfl

@[simp]
theorem keys_append
    (ms ns : Members) :
    keys (ms ++ ns) = keys ms ++ keys ns :=
  List.map_append

variable {ms ns : Members}
variable {key : String}
variable {value : Json}

/- A key has a value just if it is there. -/
theorem get?_eq_none_iff :
    ms.get? key = none ↔ key ∉ ms.keys := by
  induction ms with
  | nil => simp [get?]
  | cons m ms ih =>
      rcases m with ⟨k, v⟩
      by_cases hEq : k = key
      · simp [get?, hEq]
      · simp [get?, hEq, Ne.symm hEq, ih]

/- If keys are distinct, every member has its key. -/
theorem get?_of_mem
    (hDistinct : ms.keys.Nodup)
    (h : (key, value) ∈ ms) :
    ms.get? key = some value := by
  induction ms with
  | nil => cases h
  | cons m ms ih =>
      rcases m with ⟨k, v⟩
      rcases List.nodup_cons.1 hDistinct with ⟨hNew, hRest⟩
      rcases List.mem_cons.1 h with hFirst | hLater
      · cases hFirst
        rw [get?, if_pos rfl]
      · have hNe : k ≠ key := by
          rintro rfl
          exact hNew (List.mem_map.2 ⟨_, hLater, rfl⟩)
        rw [get?, if_neg hNe]
        exact ih hRest hLater

/- The first of two lists that has a key decides. -/
theorem get?_append :
    Members.get? (ms ++ ns) key =
      (ms.get? key).or (ns.get? key) := by
  induction ms with
  | nil => rfl
  | cons m ms ih =>
      rcases m with ⟨k, v⟩
      rw [List.cons_append, get?, get?, ih]
      split <;> rfl

/- Leaving out other keys does not change the value of one. -/
theorem get?_filter
    (test : String → Bool)
    (h : test key = true) :
    Members.get? (ms.filter (fun m => test m.1)) key =
      ms.get? key := by
  induction ms with
  | nil => rfl
  | cons m ms ih =>
      rcases m with ⟨k, v⟩
      rw [List.filter_cons]
      split
      · rw [get?, get?, ih]
      · rename_i hLeft
        have hNe : k ≠ key := by
          rintro rfl
          exact hLeft h
        rw [ih, get?, if_neg hNe]

/- A new key goes to the end. -/
theorem insert_of_not_mem
    (h : key ∉ ms.keys) :
    ms.insert key value = ms ++ [(key, value)] := by
  induction ms with
  | nil => rfl
  | cons m ms ih =>
      rcases m with ⟨k, v⟩
      simp only [keys_cons, List.mem_cons, not_or] at h
      rw [insert, if_neg (Ne.symm h.1), ih h.2,
        List.cons_append]

/- A key that is there stays in its place. -/
theorem keys_insert :
    (ms.insert key value).keys =
      if key ∈ ms.keys then ms.keys else ms.keys ++ [key] := by
  by_cases hMem : key ∈ ms.keys
  · rw [if_pos hMem]
    induction ms with
    | nil => simp at hMem
    | cons m ms ih =>
        rcases m with ⟨k, v⟩
        by_cases hEq : k = key
        · simp [insert, hEq]
        · have hRest : key ∈ keys ms := by
            simpa [Ne.symm hEq] using hMem
          simpa [insert, hEq] using ih hRest
  · rw [if_neg hMem, insert_of_not_mem hMem, keys_append]
    rfl

/- Setting a member keeps the keys distinct. -/
theorem nodup_keys_insert
    (h : ms.keys.Nodup) :
    (ms.insert key value).keys.Nodup := by
  rw [keys_insert]
  split
  · exact h
  · rename_i hNew
    refine List.nodup_append.2
      ⟨h, List.pairwise_singleton _ _, ?_⟩
    intro k hMem l hLast hEq
    rw [List.mem_singleton.1 hLast] at hEq
    exact hNew (hEq ▸ hMem)

/- What an object holds after a member is set. -/
theorem mem_insert
    {m : String × Json}
    (h : m ∈ ms.insert key value) :
    m ∈ ms ∨ m.2 = value := by
  induction ms with
  | nil => simp_all [insert]
  | cons n ms ih =>
      rcases n with ⟨k, v⟩
      by_cases hEq : k = key
      · simp only [insert, hEq, if_true, List.mem_cons] at h
        rcases h with rfl | h
        · exact .inr rfl
        · exact .inl (by simp [h])
      · simp only [insert, hEq, if_false, List.mem_cons] at h
        rcases h with rfl | h
        · exact .inl (by simp)
        · rcases ih h with hOld | hNew
          · exact .inl (by simp [hOld])
          · exact .inr hNew

/- New members with distinct keys go to the end in order. -/
theorem foldl_insert
    {α : Type}
    (entry : α → Json)
    (fields : List (String × α))
    (h : (ms.keys ++ fields.map Prod.fst).Nodup) :
    fields.foldl
        (fun (ms : Members) f => ms.insert f.1 (entry f.2))
        ms =
      ms ++ fields.map (fun f => (f.1, entry f.2)) := by
  induction fields generalizing ms with
  | nil => simp
  | cons f fields ih =>
      have hNew : f.1 ∉ ms.keys := by
        intro hMem
        exact (List.nodup_append.1 h).2.2 _ hMem _ (by simp)
          rfl
      rw [List.foldl_cons, insert_of_not_mem hNew, ih]
      · simp
      · simpa using h

end Members

------------------------------------------------------------
-- Values
------------------------------------------------------------

namespace Json

mutual

/-
  Does no object in the value have two members with one key?
-/
def keysDistinct : Json → Bool
  | .null => true
  | .bool _ => true
  | .num _ => true
  | .str _ => true
  | .arr items => keysDistinctItems items
  | .obj members =>
      decide (Members.keys members).Nodup &&
        keysDistinctMembers members

/- The same in each of several values. -/
def keysDistinctItems : List Json → Bool
  | [] => true
  | v :: vs => keysDistinct v && keysDistinctItems vs

/- The same in the values of some members. -/
def keysDistinctMembers : List (String × Json) → Bool
  | [] => true
  | (_, v) :: ms => keysDistinct v && keysDistinctMembers ms

end

theorem keysDistinct_arr_iff
    {items : List Json} :
    (Json.arr items).keysDistinct = true ↔
      ∀ v ∈ items, v.keysDistinct = true := by
  rw [keysDistinct]
  induction items with
  | nil => simp [keysDistinctItems]
  | cons v items ih => simp [keysDistinctItems, ih]

theorem keysDistinct_obj_iff
    {members : Members} :
    (Json.obj members).keysDistinct = true ↔
      members.keys.Nodup ∧
        ∀ m ∈ members, m.2.keysDistinct = true := by
  have hValues :
      keysDistinctMembers members = true ↔
        ∀ m ∈ members, m.2.keysDistinct = true := by
    induction members with
    | nil => simp [keysDistinctMembers]
    | cons m members ih =>
        rcases m with ⟨k, v⟩
        simp [keysDistinctMembers, ih]
  rw [keysDistinct, Bool.and_eq_true, decide_eq_true_eq,
    hValues]

------------------------------------------------------------
-- Values from Text
------------------------------------------------------------

namespace Reader

section Lists

variable {read : List Char → Option (Json × List Char)}
variable {holds : Json → Prop}
variable {k : Nat}
variable {cs rest : List Char}

/- The items of an array are what the reader reads. -/
theorem forall_of_readItems
    {acc items : List Json}
    (hRead :
      ∀ {cs v rest}, read cs = some (v, rest) → holds v)
    (hAcc : ∀ v ∈ acc, holds v)
    (h : readItems read k acc cs = some (items, rest)) :
    ∀ v ∈ items, holds v := by
  induction k generalizing acc cs with
  | zero => cases h
  | succ k ih =>
      rw [readItems] at h
      split at h
      · cases h
      · rename_i v after hValue
        have hNext : ∀ w ∈ v :: acc, holds w :=
          List.forall_mem_cons.2 ⟨hRead hValue, hAcc⟩
        split at h
        · exact ih hNext h
        · cases h
          intro w hMem
          exact hNext w (List.mem_reverse.1 hMem)
        · cases h

/- The members of an object are set one after another. -/
theorem forall_of_readMembers
    {acc members : Members}
    (hRead :
      ∀ {cs v rest}, read cs = some (v, rest) → holds v)
    (hKeys : acc.keys.Nodup)
    (hAcc : ∀ m ∈ acc, holds m.2)
    (h : readMembers read k acc cs = some (members, rest)) :
    members.keys.Nodup ∧ ∀ m ∈ members, holds m.2 := by
  induction k generalizing acc cs with
  | zero => cases h
  | succ k ih =>
      rw [readMembers] at h
      split at h
      · split at h
        · cases h
        · rename_i key afterKey _
          split at h
          · split at h
            · cases h
            · rename_i v after hValue
              have hNodup :
                  (acc.insert key v).keys.Nodup :=
                Members.nodup_keys_insert hKeys
              have hNext :
                  ∀ m ∈ acc.insert key v, holds m.2 := by
                intro m hMem
                rcases Members.mem_insert hMem with hOld | hNew
                · exact hAcc m hOld
                · exact hNew ▸ hRead hValue
              split at h
              · exact ih hNodup hNext h
              · cases h
                exact ⟨hNodup, hNext⟩
              · cases h
          · cases h
      · cases h

end Lists

/-
  The cases of an induction over the values that are read
  where arrays and objects may nest so deep.
-/
structure ReadCases
    (holds : Nat → Json → Prop) : Prop where
  null : ∀ depth, holds depth .null
  bool : ∀ depth b, holds depth (.bool b)
  str : ∀ depth s, holds depth (.str s)
  num :
    ∀ depth (n : Numeral) x, n.value? = some x →
      holds depth (.num x)
  arr :
    ∀ depth items, (∀ v ∈ items, holds depth v) →
      holds (depth + 1) (.arr items)
  obj :
    ∀ depth (members : Members), members.keys.Nodup →
      (∀ m ∈ members, holds depth m.2) →
        holds (depth + 1) (.obj members)

namespace ReadCases

variable {holds : Nat → Json → Prop}
variable {v : Json}

/- Whatever is read has the property. -/
theorem of_readValue
    {size depth : Nat}
    {cs rest : List Char}
    (hCases : ReadCases holds)
    (h : readValue size depth cs = some (v, rest)) :
    holds depth v := by
  induction depth using Nat.strongRecOn
    generalizing cs v rest with
  | ind depth ih =>
      rw [readValue.eq_def] at h
      dsimp only at h
      split at h
      · cases h
        exact hCases.null depth
      · cases h
        exact hCases.bool depth true
      · cases h
        exact hCases.bool depth false
      · rcases Option.map_eq_some_iff.1 h with ⟨r, -, hEq⟩
        cases hEq
        exact hCases.str depth r.1
      · split at h
        · cases h
        · rename_i depth
          have hInner := @ih depth (Nat.lt_succ_self depth)
          split at h
          · cases h
            exact hCases.arr depth [] (by simp)
          · rcases Option.map_eq_some_iff.1 h with
              ⟨⟨items, after⟩, hItems, hEq⟩
            cases hEq
            exact hCases.arr depth items
              (forall_of_readItems hInner (by simp) hItems)
      · split at h
        · cases h
        · rename_i depth
          have hInner := @ih depth (Nat.lt_succ_self depth)
          split at h
          · cases h
            exact hCases.obj depth [] List.nodup_nil (by simp)
          · rcases Option.map_eq_some_iff.1 h with
              ⟨⟨members, after⟩, hMembers, hEq⟩
            cases hEq
            rcases forall_of_readMembers hInner (by simp)
              (by simp) hMembers with ⟨hKeys, hHeld⟩
            exact hCases.obj depth members hKeys hHeld
      · simp only [readNumber, Option.bind_eq_bind,
          Option.bind_eq_some_iff] at h
        rcases h with ⟨n, -, x, hValue, hEq⟩
        cases hEq
        exact hCases.num depth n.1 x hValue

/- So has whatever a text stands for. -/
theorem of_parse?
    {text : String}
    (hCases : ReadCases holds)
    (h : parse? text = some v) :
    holds nestingLimit v := by
  simp only [parse?, parseWithin?] at h
  split at h
  · split at h
    · cases h
      exact hCases.of_readValue ‹_›
    · cases h
  · cases h

end ReadCases

end Reader

/- A text stands for a value with distinct keys. -/
theorem keysDistinct_of_parse?
    {text : String}
    {v : Json}
    (h : parse? text = some v) :
    v.keysDistinct = true := by
  have hCases :
      Reader.ReadCases (fun _ v => v.keysDistinct = true) :=
    { null := fun _ => rfl
      bool := fun _ _ => rfl
      str := fun _ _ => rfl
      num := fun _ _ _ _ => rfl
      arr := fun _ _ hItems => keysDistinct_arr_iff.2 hItems
      obj := fun _ _ hKeys hMembers =>
        keysDistinct_obj_iff.2 ⟨hKeys, hMembers⟩ }
  exact hCases.of_parse? h

end Json

------------------------------------------------------------
-- Documents
------------------------------------------------------------

/- A value in which no object has two members with one key. -/
structure Document where
  value : Json
  keysDistinct : value.keysDistinct = true

/- Whatever is read from text is one. -/
theorem Document.exists_of_parse?
    {text : String}
    {v : Json}
    (h : Json.parse? text = some v) :
    ∃ d : Document, d.value = v :=
  ⟨⟨v, Json.keysDistinct_of_parse? h⟩, rfl⟩

end TypeGraft
