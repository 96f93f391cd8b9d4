import Mathlib.Tactic.SplitIfs
import TypeGraft.Proofs.Json.Numerals

/-
  Values written and read again.

  A value whose objects have distinct keys and whose numbers
  read back alone is read back from its compact text, unless
  arrays and objects nest deeper in it than the reader allows:
  then the text is refused.

  The proof goes along the value, and says of each part how
  it is read in front of whatever ends a value.

  Key definitions include:
    * `Json.Reader.ReadsWithin`

  Main declarations:
    * `Json.Reader.readString_flatMap_escape`
    * `Json.Reader.readItems_render`
    * `Json.Reader.readMembers_render`
    * `Json.Reader.readsWithin_readValue`
    * `Json.parse?_compact`
-/

namespace TypeGraft

namespace Json.Reader

------------------------------------------------------------
-- Strings
------------------------------------------------------------

/- Two hexadecimal digits name a character below the blank. -/
theorem hexPair_eq
    {n : Nat}
    (h : n < 32) :
    hexPair n =
      [Nat.digitChar (n / 16), Nat.digitChar (n % 16)] := by
  have hAll :
      ∀ n < 32, hexPair n =
        [Nat.digitChar (n / 16), Nat.digitChar (n % 16)] := by
    decide
  exact hAll n h

theorem codeUnit?_hexPair
    {n : Nat}
    (h : n < 32) :
    codeUnit? '0' '0' (Nat.digitChar (n / 16))
      (Nat.digitChar (n % 16)) = some n := by
  have hAll :
      ∀ n < 32,
        codeUnit? '0' '0' (Nat.digitChar (n / 16))
          (Nat.digitChar (n % 16)) = some n := by
    decide
  exact hAll n h

/-
  A character is written as a short escape, by its number, or
  as it is.
-/
theorem escape_cases
    (c : Char) :
    (∃ x, escape c = ['\\', x] ∧ x ≠ 'u' ∧
      shortEscape? x = some c) ∨
    (c.toNat < 32 ∧
      escape c = ['\\', 'u', '0', '0',
        Nat.digitChar (c.toNat / 16),
        Nat.digitChar (c.toNat % 16)]) ∨
    (escape c = [c] ∧ c ≠ '"' ∧ c ≠ '\\' ∧
      ¬ c.toNat < 32) := by
  unfold escape
  split_ifs with hQuote hSlash hBack hFeed hLine hReturn hTab
    hControl
  · exact .inl ⟨'"', rfl, by decide, by rw [hQuote]; rfl⟩
  · exact .inl ⟨'\\', rfl, by decide, by rw [hSlash]; rfl⟩
  · exact .inl ⟨'b', rfl, by decide, by rw [hBack]; rfl⟩
  · exact .inl ⟨'f', rfl, by decide, by rw [hFeed]; rfl⟩
  · exact .inl ⟨'n', rfl, by decide, by rw [hLine]; rfl⟩
  · exact .inl ⟨'r', rfl, by decide, by rw [hReturn]; rfl⟩
  · exact .inl ⟨'t', rfl, by decide, by rw [hTab]; rfl⟩
  · exact .inr (.inl
      ⟨hControl, by rw [hexPair_eq hControl]; rfl⟩)
  · exact .inr (.inr ⟨rfl, hQuote, hSlash, hControl⟩)

/- A character is read as it was written. -/
theorem readString_escape
    (acc : List Char)
    (c : Char)
    (cs : List Char) :
    readString acc none (escape c ++ cs) =
      readString (c :: acc) none cs := by
  rcases escape_cases c with
    ⟨x, hEscape, hShort, hMeans⟩ | ⟨hControl, hEscape⟩ |
    ⟨hEscape, hQuote, hSlash, hPlain⟩
  · rw [hEscape]
    simp [readString, hShort, hMeans]
  · have hHigh : isHighSurrogate c.toNat = false := by
      simp only [isHighSurrogate, Bool.and_eq_false_iff,
        decide_eq_false_iff_not]
      omega
    have hLow : isLowSurrogate c.toNat = false := by
      simp only [isLowSurrogate, Bool.and_eq_false_iff,
        decide_eq_false_iff_not]
      omega
    rw [hEscape]
    simp [readString, codeUnit?_hexPair hControl, hHigh, hLow,
      Char.ofNat_toNat]
  · rw [hEscape]
    simp [readString, hSlash, hPlain]

/- So is a text, up to its closing quote. -/
theorem readString_flatMap_escape
    (acc cs rest : List Char) :
    readString acc none (cs.flatMap escape ++ '"' :: rest) =
      some (String.ofList (acc.reverse ++ cs), rest) := by
  induction cs generalizing acc with
  | nil => simp [readString]
  | cons c cs ih =>
      rw [List.flatMap_cons, List.append_assoc,
        readString_escape, ih]
      simp

/- A text in quotes, behind the first of them. -/
theorem readString_quote
    (s : String)
    (rest : List Char) :
    readString [] none
        (s.toList.flatMap escape ++ '"' :: rest) =
      some (s, rest) := by
  rw [readString_flatMap_escape]
  simp

------------------------------------------------------------
-- Where Values Begin
------------------------------------------------------------

/- A number begins with a digit or a minus. -/
theorem head_of_readNumber
    {cs : List Char}
    {r : Json × List Char}
    (h : readNumber cs = some r) :
    ∃ c ds, cs = c :: ds ∧
      (c = '-' ∨ Decimal.isDigit c = true) := by
  simp only [readNumber, Option.bind_eq_bind,
    Option.bind_eq_some_iff] at h
  rcases h with ⟨n, hNumeral, -⟩
  cases cs with
  | nil => cases hNumeral
  | cons c ds =>
      refine ⟨c, ds, rfl, ?_⟩
      by_contra hNot
      rw [not_or, Bool.not_eq_true] at hNot
      simp [readNumeral, hNot.1, hNot.2, isWhole] at hNumeral

/- What begins so is read as a number. -/
theorem readValue_eq_readNumber
    {size depth : Nat}
    {c : Char}
    {cs : List Char}
    (h : c = '-' ∨ Decimal.isDigit c = true) :
    readValue size depth (c :: cs) = readNumber (c :: cs) := by
  have hBlank : isBlank c = false := by
    rcases h with rfl | hDigit
    · rfl
    · exact isBlank_of_isDigit hDigit
  have hOther :
      ∀ x ∈ ['n', 't', 'f', '"', '[', '\x7b'], c ≠ x := by
    rintro x hMem rfl
    rcases h with rfl | hDigit
    · exact absurd hMem (by decide)
    · simp only [List.mem_cons, List.not_mem_nil,
        or_false] at hMem
      rcases hMem with rfl | rfl | rfl | rfl | rfl | rfl <;>
        exact absurd hDigit (by decide)
  simp only [List.forall_mem_cons] at hOther
  rw [readValue.eq_def]
  simp [skipBlanks, hBlank, hOther]

/- A value begins with no blank and no bracket that closes. -/
theorem head_render
    {v : Json}
    (h : v.Proper Number.Legible) :
    ∃ c cs, render v = c :: cs ∧ isBlank c = false ∧
      c ≠ ']' := by
  cases h with
  | null => exact ⟨'n', _, rfl, rfl, by decide⟩
  | bool b =>
      cases b
      · exact ⟨'f', _, rfl, rfl, by decide⟩
      · exact ⟨'t', _, rfl, rfl, by decide⟩
  | num hLegible =>
      rcases head_of_readNumber hLegible with
        ⟨c, cs, hText, hHead⟩
      refine ⟨c, cs, by rw [render, hText], ?_⟩
      rcases hHead with rfl | hDigit
      · exact ⟨rfl, by decide⟩
      · refine ⟨isBlank_of_isDigit hDigit, ?_⟩
        rintro rfl
        exact absurd hDigit (by decide)
  | str s => exact ⟨'"', _, rfl, rfl, by decide⟩
  | @arr items _ =>
      cases items <;> exact ⟨'[', _, rfl, rfl, by decide⟩
  | @obj members _ _ =>
      cases members <;>
        exact ⟨'\x7b', _, rfl, rfl, by decide⟩

------------------------------------------------------------
-- Lists
------------------------------------------------------------

/-
  The text of a value is read back where a value ends, unless
  it nests deeper than `depth`.
-/
def ReadsWithin
    (read : List Char → Option (Json × List Char))
    (depth : Nat)
    (v : Json) : Prop :=
  ∀ rest, Ends rest →
    read (render v ++ rest) =
      if v.depth ≤ depth then some (v, rest) else none

section Lists

variable {read : List Char → Option (Json × List Char)}
variable {depth k : Nat}
variable {v : Json}

/- Behind an item there is another, or the list ends. -/
theorem ends_renderItems
    (vs : List Json)
    (rest : List Char) :
    Ends (renderItems vs ++ ']' :: rest) := by
  cases vs <;> simp [renderItems, Ends]

theorem ends_renderMembers
    (ms : List (String × Json))
    (rest : List Char) :
    Ends (renderMembers ms ++ '\x7d' :: rest) := by
  cases ms <;> simp [renderMembers, Ends]

/- The items of an array are read one after another. -/
theorem readItems_render
    {vs acc : List Json}
    (rest : List Char)
    (hRead : ∀ w ∈ v :: vs, ReadsWithin read depth w)
    (hSize : vs.length < k) :
    readItems read k acc
        (render v ++ (renderItems vs ++ ']' :: rest)) =
      if depthItems (v :: vs) ≤ depth then
        some (acc.reverse ++ v :: vs, rest)
      else none := by
  induction vs generalizing v acc k with
  | nil =>
      cases k with
      | zero => cases hSize
      | succ k =>
          rw [readItems, hRead v (by simp) _
            (ends_renderItems [] rest)]
          by_cases hDepth : v.depth ≤ depth
          · simp [depthItems, renderItems, skipBlanks,
              isBlank, hDepth]
          · simp [depthItems, hDepth]
  | cons w vs ih =>
      cases k with
      | zero => cases hSize
      | succ k =>
          have hRest :=
            @ih k w (v :: acc)
              (List.forall_mem_cons.1 hRead).2
              (Nat.lt_of_succ_lt_succ hSize)
          rw [readItems, hRead v (by simp) _
            (ends_renderItems (w :: vs) rest)]
          by_cases hDepth : v.depth ≤ depth
          · simp [depthItems_cons_le_iff, renderItems,
              skipBlanks, isBlank, hDepth, hRest]
          · simp [depthItems_cons_le_iff, hDepth]

/- One member is read, and what is behind it is looked at. -/
theorem readMembers_succ
    {key : String}
    {acc : Members}
    {rest : List Char}
    (hRead : ReadsWithin read depth v)
    (hEnds : Ends rest) :
    readMembers read (k + 1) acc
        (quote key ++ ':' :: (render v ++ rest)) =
      if v.depth ≤ depth then
        match skipBlanks rest with
        | ',' :: cs => readMembers read k (acc.insert key v) cs
        | '\x7d' :: cs => some (acc.insert key v, cs)
        | _ => none
      else none := by
  simp only [readMembers, quote, List.cons_append,
    List.append_assoc, List.nil_append, skipBlanks,
    show isBlank '"' = false from rfl,
    show isBlank ':' = false from rfl, Bool.false_eq_true,
    if_false, readString_quote, hRead rest hEnds]
  by_cases hDepth : v.depth ≤ depth
  · rw [if_pos hDepth]
    exact (if_pos hDepth).symm
  · simp [hDepth]

/- A key that comes next is new. -/
theorem not_mem_keys
    {key : String}
    {ms acc : Members}
    (h : (acc.keys ++ Members.keys ((key, v) :: ms)).Nodup) :
    key ∉ acc.keys := by
  intro hMem
  exact (List.nodup_append.1 h).2.2 _ hMem _ (by simp) rfl

/- The members of an object are, if their keys are new. -/
theorem readMembers_render
    {key : String}
    {ms acc : Members}
    (rest : List Char)
    (hRead :
      ∀ m ∈ (key, v) :: ms, ReadsWithin read depth m.2)
    (hKeys :
      (acc.keys ++ Members.keys ((key, v) :: ms)).Nodup)
    (hSize : ms.length < k) :
    readMembers read k acc
        (quote key ++ ':' :: (render v ++
          (renderMembers ms ++ '\x7d' :: rest))) =
      if depthMembers ((key, v) :: ms) ≤ depth then
        some (acc ++ (key, v) :: ms, rest)
      else none := by
  induction ms generalizing key v acc k with
  | nil =>
      cases k with
      | zero => cases hSize
      | succ k =>
          rw [readMembers_succ (hRead (key, v) (by simp))
            (ends_renderMembers [] rest),
            Members.insert_of_not_mem (not_mem_keys hKeys)]
          simp [depthMembers, renderMembers, skipBlanks,
            isBlank]
  | cons m ms ih =>
      rcases m with ⟨next, w⟩
      cases k with
      | zero => cases hSize
      | succ k =>
          have hRest :=
            @ih k w next (acc ++ [(key, v)])
              (List.forall_mem_cons.1 hRead).2
              (by simpa using hKeys)
              (Nat.lt_of_succ_lt_succ hSize)
          rw [readMembers_succ (hRead (key, v) (by simp))
            (ends_renderMembers ((next, w) :: ms) rest),
            Members.insert_of_not_mem (not_mem_keys hKeys)]
          by_cases hDepth : v.depth ≤ depth
          · simp [depthMembers_cons_le_iff, renderMembers,
              skipBlanks, isBlank, hDepth, hRest]
          · simp [depthMembers_cons_le_iff, hDepth]

end Lists

------------------------------------------------------------
-- Values
------------------------------------------------------------

/- Every item is shorter than the list. -/
theorem length_le_renderItems
    {vs : List Json} :
    vs.length ≤ (renderItems vs).length ∧
      ∀ v ∈ vs,
        (render v).length ≤ (renderItems vs).length := by
  induction vs with
  | nil => simp [renderItems]
  | cons v vs ih =>
      simp only [renderItems, List.length_append,
        List.length_cons, List.forall_mem_cons]
      refine ⟨by omega, by omega, ?_⟩
      intro w hMem
      have hItem := ih.2 w hMem
      omega

theorem length_le_renderMembers
    {ms : Members} :
    ms.length ≤ (renderMembers ms).length ∧
      ∀ m ∈ ms,
        (render m.2).length ≤ (renderMembers ms).length := by
  induction ms with
  | nil => simp [renderMembers]
  | cons m ms ih =>
      rcases m with ⟨k, v⟩
      simp only [renderMembers, List.length_append,
        List.length_cons, List.forall_mem_cons]
      refine ⟨by omega, by omega, ?_⟩
      intro w hMem
      have hMember := ih.2 w hMem
      omega

/- A value is read back if it does not nest too deep. -/
theorem readsWithin_readValue
    {size : Nat}
    {v : Json}
    (h : v.Proper Number.Legible)
    (hSize : (render v).length ≤ size)
    (depth : Nat) :
    ReadsWithin (readValue size depth) depth v := by
  induction h generalizing depth with
  | null =>
      intro rest _
      simp [render, readValue, skipBlanks, isBlank, Json.depth]
  | bool b =>
      intro rest _
      cases b <;>
        simp [render, readValue, skipBlanks, isBlank,
          Json.depth]
  | num hLegible =>
      intro rest hEnds
      rcases head_of_readNumber hLegible with
        ⟨c, cs, hText, hHead⟩
      have hRead := hLegible.append hEnds
      rw [hText, List.cons_append] at hRead
      rw [render, hText, List.cons_append,
        readValue_eq_readNumber hHead, hRead]
      simp [Json.depth]
  | str s =>
      intro rest _
      simp [render, quote, readValue, skipBlanks, isBlank,
        readString_quote, Json.depth]
  | @arr items hItems ih =>
      intro rest _
      cases items with
      | nil =>
          cases depth <;>
            simp [render, readValue, skipBlanks, isBlank,
              Json.depth, depthItems]
      | cons v vs =>
          have hLengths := @length_le_renderItems vs
          simp only [render, List.length_append,
            List.length_cons, List.length_nil] at hSize
          have hShort :
              ∀ w ∈ v :: vs, (render w).length ≤ size := by
            refine List.forall_mem_cons.2 ⟨by omega, ?_⟩
            intro w hMem
            have hItem := hLengths.2 w hMem
            omega
          cases depth with
          | zero =>
              simp [render, readValue, skipBlanks, isBlank,
                Json.depth]
          | succ depth =>
              have hRead :=
                @readItems_render (readValue size depth) depth
                  size v vs [] rest
                  (fun w hMem => ih w hMem (hShort w hMem)
                    depth)
                  (by omega)
              -- The first item is not taken for the end.
              rcases head_render (hItems v (by simp)) with
                ⟨c, cs, hText, hBlank, hClose⟩
              have hOpen : isBlank '[' = false := rfl
              rw [hText, List.cons_append] at hRead
              rw [render, hText, readValue.eq_def]
              simp [skipBlanks, hOpen, hBlank, hClose, hRead,
                Json.depth]
  | @obj members hKeys hMembers ih =>
      intro rest _
      cases members with
      | nil =>
          cases depth <;>
            simp [render, readValue, skipBlanks, isBlank,
              Json.depth, depthMembers]
      | cons m ms =>
          rcases m with ⟨key, v⟩
          have hLengths := @length_le_renderMembers ms
          simp only [render, List.length_append,
            List.length_cons, List.length_nil] at hSize
          have hShort :
              ∀ m ∈ (key, v) :: ms,
                (render m.2).length ≤ size := by
            refine List.forall_mem_cons.2
              ⟨by dsimp only; omega, ?_⟩
            intro w hMem
            have hMember := hLengths.2 w hMem
            omega
          cases depth with
          | zero =>
              simp [render, readValue, skipBlanks, isBlank,
                Json.depth]
          | succ depth =>
              have hRead :=
                @readMembers_render (readValue size depth)
                  depth size v key ms [] rest
                  (fun m hMem => ih m hMem (hShort m hMem)
                    depth)
                  (by simpa using hKeys)
                  (by omega)
              have hOpen : isBlank '\x7b' = false := rfl
              have hQuote : isBlank '"' = false := rfl
              simp only [quote, List.cons_append,
                List.append_assoc, List.nil_append] at hRead
              rw [render, quote, readValue.eq_def]
              simp [skipBlanks, hOpen, hQuote, hRead,
                Json.depth]

end Json.Reader

namespace Json

open Reader in
/-
  The compact text of a value reads back as the value, or it
  nests too deep and is refused.
-/
theorem parse?_compact
    {v : Json}
    (h : v.Proper Number.Legible) :
    parse? v.compact =
      if v.depth ≤ nestingLimit then some v else none := by
  have hRead :=
    readsWithin_readValue h (Nat.le_succ _) nestingLimit []
      ends_nil
  rw [List.append_nil] at hRead
  simp only [parse?, parseWithin?, toList_compact, hRead]
  by_cases hDepth : v.depth ≤ nestingLimit
  · simp [hDepth, skipBlanks]
  · simp [hDepth]

end Json

end TypeGraft
