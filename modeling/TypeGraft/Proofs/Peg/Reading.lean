import TypeGraft.Proofs.Peg.Memory

/-
  What expressions read off the front of a text, without
  offsets and without failures.

  `Peg.reads` says it for one expression, given what is read
  by calls, and `Grammar.reads` for the rules of a guarded
  grammar.  What a whole text is read as follows from them.

  Main declarations:
    * `Peg.reads`
    * `Peg.outcome_reads`
    * `Peg.Yields`
    * `Peg.starts`
    * `Peg.reads_eq_none_of_not_starts`
    * `Grammar.reads_eq`
    * `Grammar.reads_invariant`
    * `Grammar.parse_eq_ok_iff_reads`
-/

namespace TypeGraft

/- What an outcome has read, and the text behind it. -/
def Outcome.taken
    {α : Type}
    (o : Outcome α) : Option (α × List Char) :=
  o.result.map (fun v => (v.1, v.2.rest))

namespace Peg

variable {N V : Type}
variable {α β : Type}

------------------------------------------------------------
-- Readings
------------------------------------------------------------

/- Repeat a reading, at most once for each of some characters. -/
def readsMany
    (read : List Char → Option (α × List Char)) :
    List Char → List Char → List α × List Char
  | [], xs => ([], xs)
  | _ :: bound, xs =>
      match read xs with
      | none => ([], xs)
      | some (a, ys) =>
          let v := readsMany read bound ys
          (a :: v.1, v.2)

/- What an expression reads, given what calls read. -/
def reads
    (call : N → List Char → Option (V × List Char)) :
    {α : Type} →
      Peg N V α → List Char → Option (α × List Char)
  | _, .literal text, xs =>
      (Cursor.dropLiteral text xs).map (fun ys => ((), ys))
  | _, .char _, [] => none
  | _, .char cls, x :: xs =>
      if cls.accepts x then some (x, xs) else none
  | _, .succeed a, xs => some (a, xs)
  | _, .fail _, _ => none
  | _, .seq p q, xs =>
      (p.reads call xs).bind (fun v =>
        (q.reads call v.2).map (fun w => ((v.1, w.1), w.2)))
  | _, .check f p, xs =>
      (p.reads call xs).bind (fun v =>
        match f v.1 with
        | .ok b => some (b, v.2)
        | .error _ => none)
  | _, .choice p q, xs => (p.reads call xs).or (q.reads call xs)
  | _, .many p, xs => some (readsMany (p.reads call) xs xs)
  | _, .quiet p, xs => p.reads call xs
  | _, .absent p, xs =>
      if (p.reads call xs).isSome then none else some ((), xs)
  | _, .call n, xs => call n xs

theorem outcomeMany_taken
    {read : Cursor → Outcome α}
    {plain : List Char → Option (α × List Char)}
    (hRead : ∀ c, (read c).taken = plain c.rest)
    (bound : List Char)
    (c : Cursor) :
    (outcomeMany read bound c).taken =
      some (readsMany plain bound c.rest) := by
  induction bound generalizing c with
  | nil => rfl
  | cons x bound ih =>
      rw [outcomeMany_cons, readsMany, ← hRead]
      cases hResult : (read c).result with
      | none => simp [Outcome.taken, hResult]
      | some v =>
          rcases v with ⟨a, d⟩
          have hRest := ih d
          unfold Outcome.taken at hRest
          rcases Option.map_eq_some_iff.mp hRest with
            ⟨w, hMany, hEq⟩
          simp [Outcome.taken, hResult, hMany, ← hEq]

/- An outcome has read what the expression reads. -/
theorem outcome_reads
    {answer : N → Cursor → Outcome V}
    {call : N → List Char → Option (V × List Char)}
    (hCalls : ∀ n c, (answer n c).taken = call n c.rest)
    (p : Peg N V α)
    (c : Cursor) :
    (p.outcome answer c).taken = p.reads call c.rest := by
  induction p generalizing c with
  | literal text =>
      simp only [outcome_literal, readLiteral, Cursor.literal?,
        reads]
      cases Cursor.dropLiteral text c.rest <;> rfl
  | char cls =>
      simp only [outcome_char, readChar]
      cases hRest : c.rest with
      | nil => rfl
      | cons x xs =>
          by_cases hAccepts : cls.accepts x
          · simp [hAccepts, Outcome.taken, reads, Cursor.step,
              hRest]
          · simp [hAccepts, Outcome.taken, reads]
  | succeed a => rfl
  | fail label => rfl
  | seq p q ihp ihq =>
      rw [outcome_seq, reads, ← ihp]
      cases hFirst : (p.outcome answer c).result with
      | none => simp [Outcome.taken, hFirst]
      | some v =>
          simp [Outcome.taken, hFirst, ← ihq,
            Function.comp_def]
  | check f p ih =>
      rw [outcome_check, reads, ← ih]
      cases hFirst : (p.outcome answer c).result with
      | none => simp [Outcome.taken, hFirst]
      | some v =>
          rcases v with ⟨a, d⟩
          cases hValue : f a <;>
            simp [Outcome.taken, hFirst, hValue]
  | choice p q ihp ihq =>
      rw [outcome_choice, reads, ← ihp, ← ihq]
      cases hFirst : (p.outcome answer c).result <;>
        simp [Outcome.taken, hFirst]
  | many p ih =>
      rw [outcome_many, reads]
      exact outcomeMany_taken ih _ c
  | quiet p ih => exact ih c
  | absent p ih =>
      rw [outcome_absent, reads, ← ih]
      cases hFirst : (p.outcome answer c).result <;>
        simp [Outcome.taken, hFirst]
  | call n => exact hCalls n c

------------------------------------------------------------
-- Combinations
------------------------------------------------------------

section Equations

variable (call : N → List Char → Option (V × List Char))
variable (xs : List Char)

@[simp] theorem reads_symbol
    (s : String) :
    (symbol s : Peg N V Unit).reads call xs =
      (Cursor.dropLiteral s.toList xs).map
        (fun ys => ((), ys)) := rfl

@[simp] theorem reads_char_nil
    (cls : CharClass) :
    (char cls : Peg N V Char).reads call [] = none := rfl

@[simp] theorem reads_char_cons
    (cls : CharClass)
    (x : Char) :
    (char cls : Peg N V Char).reads call (x :: xs) =
      if cls.accepts x then some (x, xs) else none := rfl

@[simp] theorem reads_succeed
    (a : α) :
    (succeed a : Peg N V α).reads call xs = some (a, xs) := rfl

@[simp] theorem reads_fail
    (label : String) :
    (fail label : Peg N V α).reads call xs = none := rfl

@[simp] theorem reads_quiet
    (p : Peg N V α) :
    (quiet p).reads call xs = p.reads call xs := rfl

@[simp] theorem reads_absent
    (p : Peg N V α) :
    (absent p).reads call xs =
      if (p.reads call xs).isSome then none
      else some ((), xs) := rfl

@[simp] theorem reads_call
    (n : N) :
    (Peg.call n : Peg N V V).reads call xs = call n xs := rfl

@[simp] theorem reads_check
    (f : α → Except String β)
    (p : Peg N V α) :
    (check f p).reads call xs =
      (p.reads call xs).bind (fun v =>
        match f v.1 with
        | .ok b => some (b, v.2)
        | .error _ => none) := rfl

@[simp] theorem reads_map
    (f : α → β)
    (p : Peg N V α) :
    (f <$> p).reads call xs =
      (p.reads call xs).map (fun v => (f v.1, v.2)) := by
  change (p.reads call xs).bind _ = _
  cases p.reads call xs <;> rfl

/- One expression after another, and a value from both. -/
theorem reads_map_seq
    {γ : Type}
    (f : α × β → γ)
    (p : Peg N V α)
    (q : Peg N V β) :
    (map f (seq p q)).reads call xs =
      (p.reads call xs).bind (fun v =>
        (q.reads call v.2).map
          (fun w => (f (v.1, w.1), w.2))) := by
  change ((seq p q).reads call xs).bind _ = _
  rw [reads]
  cases p.reads call xs with
  | none => rfl
  | some v =>
      simp only [Option.bind_some]
      cases q.reads call v.2 <;> rfl

@[simp] theorem reads_apply
    (p : Peg N V (α → β))
    (q : Peg N V α) :
    (p <*> q).reads call xs =
      (p.reads call xs).bind (fun v =>
        (q.reads call v.2).map (fun w => (v.1 w.1, w.2))) :=
  reads_map_seq call xs _ p q

@[simp] theorem reads_keepLeft
    (p : Peg N V α)
    (q : Peg N V β) :
    (p <* q).reads call xs =
      (p.reads call xs).bind (fun v =>
        (q.reads call v.2).map (fun w => (v.1, w.2))) :=
  reads_map_seq call xs _ p q

@[simp] theorem reads_keepRight
    (p : Peg N V α)
    (q : Peg N V β) :
    (p *> q).reads call xs =
      (p.reads call xs).bind (fun v => q.reads call v.2) := by
  change (map Prod.snd (seq p q)).reads call xs = _
  rw [reads_map_seq]
  simp

@[simp] theorem reads_orElse
    (p q : Peg N V α) :
    (p <|> q).reads call xs =
      (p.reads call xs).or (q.reads call xs) := rfl

@[simp] theorem reads_optional
    (p : Peg N V α) :
    (optional p).reads call xs =
      match p.reads call xs with
      | some v => some (some v.1, v.2)
      | none => some (none, xs) := by
  change ((some <$> p).reads call xs).or _ = _
  rw [reads_map]
  cases p.reads call xs <;> rfl

@[simp] theorem reads_many1
    (p : Peg N V α) :
    (many1 p).reads call xs =
      (p.reads call xs).bind (fun v =>
        ((many p).reads call v.2).map
          (fun w => (v.1 :: w.1, w.2))) :=
  reads_map_seq call xs _ p (many p)

theorem reads_sepBy1
    (p : Peg N V α)
    (sep : Peg N V β) :
    (sepBy1 p sep).reads call xs =
      (p.reads call xs).bind (fun v =>
        ((many (sep *> p)).reads call v.2).map
          (fun w => (v.1 :: w.1, w.2))) :=
  reads_map_seq call xs _ p (many (sep *> p))

theorem reads_sepBy
    (p : Peg N V α)
    (sep : Peg N V β) :
    (sepBy p sep).reads call xs =
      ((sepBy1 p sep).reads call xs).or (some ([], xs)) := rfl

theorem reads_map_eq_some_iff
    (f : α → β)
    (p : Peg N V α)
    (b : β)
    (ys : List Char) :
    (f <$> p).reads call xs = some (b, ys) ↔
      ∃ a, p.reads call xs = some (a, ys) ∧ f a = b := by
  rw [reads_map, Option.map_eq_some_iff]
  constructor
  · rintro ⟨v, hRead, hEq⟩
    cases hEq
    exact ⟨v.1, hRead, rfl⟩
  · rintro ⟨a, hRead, rfl⟩
    exact ⟨(a, ys), hRead, rfl⟩

theorem reads_apply_eq_some_iff
    (p : Peg N V (α → β))
    (q : Peg N V α)
    (b : β)
    (zs : List Char) :
    (p <*> q).reads call xs = some (b, zs) ↔
      ∃ f ys a, p.reads call xs = some (f, ys) ∧
        q.reads call ys = some (a, zs) ∧ f a = b := by
  simp only [reads_apply, Option.bind_eq_some_iff,
    Option.map_eq_some_iff]
  constructor
  · rintro ⟨v, hFirst, w, hSecond, hEq⟩
    cases hEq
    exact ⟨v.1, v.2, w.1, hFirst, hSecond, rfl⟩
  · rintro ⟨f, ys, a, hFirst, hSecond, rfl⟩
    exact ⟨(f, ys), hFirst, (a, zs), hSecond, rfl⟩

theorem reads_keepLeft_eq_some_iff
    (p : Peg N V α)
    (q : Peg N V β)
    (a : α)
    (zs : List Char) :
    (p <* q).reads call xs = some (a, zs) ↔
      ∃ ys b, p.reads call xs = some (a, ys) ∧
        q.reads call ys = some (b, zs) := by
  simp only [reads_keepLeft, Option.bind_eq_some_iff,
    Option.map_eq_some_iff]
  constructor
  · rintro ⟨v, hFirst, w, hSecond, hEq⟩
    cases hEq
    exact ⟨v.2, w.1, hFirst, hSecond⟩
  · rintro ⟨ys, b, hFirst, hSecond⟩
    exact ⟨(a, ys), hFirst, (b, zs), hSecond, rfl⟩

theorem reads_keepRight_eq_some_iff
    (p : Peg N V α)
    (q : Peg N V β)
    (b : β)
    (zs : List Char) :
    (p *> q).reads call xs = some (b, zs) ↔
      ∃ ys a, p.reads call xs = some (a, ys) ∧
        q.reads call ys = some (b, zs) := by
  simp only [reads_keepRight, Option.bind_eq_some_iff]
  constructor
  · rintro ⟨v, hFirst, hSecond⟩
    exact ⟨v.2, v.1, hFirst, hSecond⟩
  · rintro ⟨ys, a, hFirst, hSecond⟩
    exact ⟨(a, ys), hFirst, hSecond⟩

theorem reads_orElse_eq_some_iff
    (p q : Peg N V α)
    (v : α × List Char) :
    (p <|> q).reads call xs = some v ↔
      p.reads call xs = some v ∨
        (p.reads call xs = none ∧ q.reads call xs = some v) := by
  rw [reads_orElse, Option.or_eq_some_iff]

/- A character is read if it is there and of the class. -/
theorem reads_char_eq_some_iff
    (cls : CharClass)
    (x : Char)
    (ys : List Char) :
    (char cls : Peg N V Char).reads call xs = some (x, ys) ↔
      xs = x :: ys ∧ cls.accepts x = true := by
  cases xs with
  | nil => simp
  | cons y xs =>
      by_cases hAccepts : cls.accepts y
      · simp only [reads_char_cons, hAccepts, if_true,
          Option.some.injEq, Prod.mk.injEq, List.cons.injEq]
        constructor
        · rintro ⟨rfl, rfl⟩
          exact ⟨⟨rfl, rfl⟩, hAccepts⟩
        · exact And.left
      · simp only [reads_char_cons, hAccepts,
          List.cons.injEq]
        constructor
        · simp
        · rintro ⟨⟨rfl, -⟩, hSame⟩
          exact absurd hSame hAccepts

/- Something optional is read, or is not there. -/
theorem reads_optional_eq_some_iff
    (p : Peg N V α)
    (o : Option α)
    (ys : List Char) :
    (optional p).reads call xs = some (o, ys) ↔
      (∃ a, o = some a ∧ p.reads call xs = some (a, ys)) ∨
        (o = none ∧ ys = xs ∧ p.reads call xs = none) := by
  rw [reads_optional]
  cases hRead : p.reads call xs with
  | none => simp [eq_comm]
  | some v =>
      rcases v with ⟨a, us⟩
      simp only [Option.some.injEq, Prod.mk.injEq, reduceCtorEq,
        and_false, or_false]
      constructor
      · rintro ⟨rfl, rfl⟩
        exact ⟨a, rfl, rfl, rfl⟩
      · rintro ⟨b, rfl, rfl, rfl⟩
        exact ⟨rfl, rfl⟩

end Equations

------------------------------------------------------------
-- Repetitions
------------------------------------------------------------

theorem reads_many_eq
    (call : N → List Char → Option (V × List Char))
    (p : Peg N V α)
    (xs : List Char) :
    (many p).reads call xs =
      some (readsMany (p.reads call) xs xs) := rfl

/- Every item of a repetition was read as one. -/
theorem readsMany_forall
    {read : List Char → Option (α × List Char)}
    {P : α → Prop}
    (hRead : ∀ xs a ys, read xs = some (a, ys) → P a)
    (bound xs : List Char) :
    ∀ a ∈ (readsMany read bound xs).1, P a := by
  induction bound generalizing xs with
  | nil => simp [readsMany]
  | cons x bound ih =>
      rw [readsMany]
      cases hFirst : read xs with
      | none => simp
      | some v =>
          rcases v with ⟨b, ys⟩
          intro a hMem
          rcases List.mem_cons.mp hMem with hHead | hTail
          · subst hHead
            exact hRead xs a ys hFirst
          · exact ih ys a hTail

/- Whatever the expression reads has the property. -/
def Yields
    (call : N → List Char → Option (V × List Char))
    (p : Peg N V α)
    (P : α → Prop) : Prop :=
  ∀ xs a ys, p.reads call xs = some (a, ys) → P a

namespace Yields

variable {call : N → List Char → Option (V × List Char)}
variable {p : Peg N V α}
variable {P : α → Prop}
variable {Q : β → Prop}

theorem any
    (p : Peg N V α) : Yields call p (fun _ => True) :=
  fun _ _ _ _ => trivial

theorem map
    {f : α → β}
    (hp : Yields call p P)
    (hf : ∀ a, P a → Q (f a)) : Yields call (f <$> p) Q := by
  intro xs b ys h
  rcases (reads_map_eq_some_iff _ _ _ _ _ _).mp h with
    ⟨a, hRead, rfl⟩
  exact hf a (hp xs a ys hRead)

theorem apply
    {f : Peg N V (α → β)}
    (hf : Yields call f (fun f => ∀ a, P a → Q (f a)))
    (hp : Yields call p P) : Yields call (f <*> p) Q := by
  intro xs b zs h
  rcases (reads_apply_eq_some_iff _ _ _ _ _ _).mp h with
    ⟨g, ys, a, hFirst, hSecond, rfl⟩
  exact hf xs g ys hFirst a (hp ys a zs hSecond)

theorem keepLeft
    (hp : Yields call p P)
    (q : Peg N V β) : Yields call (p <* q) P := by
  intro xs a zs h
  rcases (reads_keepLeft_eq_some_iff _ _ _ _ _ _).mp h with
    ⟨ys, -, hFirst, -⟩
  exact hp xs a ys hFirst

theorem keepRight
    {q : Peg N V β}
    (p : Peg N V α)
    (hq : Yields call q Q) : Yields call (p *> q) Q := by
  intro xs b zs h
  rcases (reads_keepRight_eq_some_iff _ _ _ _ _ _).mp h with
    ⟨ys, -, -, hSecond⟩
  exact hq ys b zs hSecond

theorem orElse
    {q : Peg N V α}
    (hp : Yields call p P)
    (hq : Yields call q P) : Yields call (p <|> q) P := by
  intro xs a ys h
  rcases (reads_orElse_eq_some_iff _ _ _ _ _).mp h with
    hFirst | ⟨-, hSecond⟩
  · exact hp xs a ys hFirst
  · exact hq xs a ys hSecond

theorem optional
    (hp : Yields call p P) :
    Yields call (Peg.optional p) (fun o => ∀ a, o = some a → P a) := by
  rintro xs o ys h a rfl
  rcases (reads_optional_eq_some_iff _ _ _ _ _).mp h with
    ⟨b, hSome, hRead⟩ | ⟨hNone, -, -⟩
  · cases hSome
    exact hp xs a ys hRead
  · simp at hNone

theorem many
    (hp : Yields call p P) :
    Yields call (Peg.many p) (fun as => ∀ a ∈ as, P a) := by
  intro xs as ys h
  have hEq : readsMany (p.reads call) xs xs = (as, ys) :=
    Option.some.inj h
  have hAll := readsMany_forall hp xs xs
  rw [hEq] at hAll
  exact hAll

theorem sepBy1
    (hp : Yields call p P)
    (sep : Peg N V β) :
    Yields call (Peg.sepBy1 p sep)
      (fun as => as ≠ [] ∧ ∀ a ∈ as, P a) := by
  intro xs as ys h
  rw [reads_sepBy1] at h
  rcases Option.bind_eq_some_iff.mp h with ⟨v, hFirst, hRest⟩
  rcases Option.map_eq_some_iff.mp hRest with ⟨w, hMany, hEq⟩
  have hItems : v.1 :: w.1 = as := congrArg Prod.fst hEq
  subst hItems
  refine ⟨List.cons_ne_nil _ _, ?_⟩
  intro a hMem
  rcases List.mem_cons.mp hMem with hHead | hTail
  · subst hHead
    exact hp xs v.1 v.2 hFirst
  · exact (hp.keepRight sep).many v.2 w.1 w.2 hMany a hTail

theorem sepBy
    (hp : Yields call p P)
    (sep : Peg N V β) :
    Yields call (Peg.sepBy p sep) (fun as => ∀ a ∈ as, P a) := by
  intro xs as ys h
  rw [reads_sepBy, Option.or_eq_some_iff] at h
  rcases h with hSome | ⟨-, hNone⟩
  · exact (hp.sepBy1 sep xs as ys hSome).2
  · have hEmpty : [] = as :=
      congrArg Prod.fst (Option.some.inj hNone)
    subst hEmpty
    simp

end Yields

/- Characters of a class are read as far as they go. -/
theorem readsMany_char
    (call : N → List Char → Option (V × List Char))
    (cls : CharClass)
    (bound xs : List Char)
    (hBound : xs.length ≤ bound.length) :
    readsMany ((char cls : Peg N V Char).reads call) bound xs =
      (xs.takeWhile cls.accepts, xs.dropWhile cls.accepts) := by
  induction bound generalizing xs with
  | nil =>
      have hNil : xs = [] := by simpa using hBound
      subst hNil
      rfl
  | cons b bound ih =>
      rw [readsMany]
      cases xs with
      | nil => rfl
      | cons x xs =>
          by_cases hAccepts : cls.accepts x
          · have hRest := ih xs (by simpa using hBound)
            simp [hAccepts, hRest]
          · simp [hAccepts]

@[simp] theorem reads_many_char
    (call : N → List Char → Option (V × List Char))
    (cls : CharClass)
    (xs : List Char) :
    (many (char cls : Peg N V Char)).reads call xs =
      some
        (xs.takeWhile cls.accepts,
          xs.dropWhile cls.accepts) := by
  rw [reads_many_eq,
    readsMany_char call cls xs xs (Nat.le_refl _)]

/- Without calls, it does not matter what calls read. -/
theorem reads_eq_of_callFree
    (call call' : N → List Char → Option (V × List Char))
    (p : Peg N V α)
    (hFree : p.callFree = true)
    (xs : List Char) :
    p.reads call xs = p.reads call' xs := by
  induction p generalizing xs with
  | char cls => cases xs <;> rfl
  | seq p q ihp ihq =>
      simp only [callFree, Bool.and_eq_true] at hFree
      simp only [reads, ihp hFree.1, ihq hFree.2]
  | check f p ih => simp only [reads, ih hFree]
  | choice p q ihp ihq =>
      simp only [callFree, Bool.and_eq_true] at hFree
      simp only [reads, ihp hFree.1, ihq hFree.2]
  | many p ih =>
      have hSame : p.reads call = p.reads call' :=
        funext (ih hFree)
      simp only [reads, hSame]
  | quiet p ih => exact ih hFree xs
  | absent p ih => simp only [reads, ih hFree]
  | call n => simp [callFree] at hFree
  | _ => rfl

------------------------------------------------------------
-- Lengths
------------------------------------------------------------

/-
  Where calls read a stretch of the text and are not empty,
  so are expressions.
-/
theorem reads_suffix_of_taken
    {answer : N → Cursor → Outcome V}
    {call : N → List Char → Option (V × List Char)}
    (hCalls : ∀ n c, (answer n c).taken = call n c.rest)
    (hAdvance : CallsAdvance answer)
    {p : Peg N V α}
    {xs ys : List Char}
    {a : α}
    (h : p.reads call xs = some (a, ys)) :
    ys.length ≤ xs.length ∧
      (p.nullable = false → ys.length < xs.length) := by
  have hTaken :
      (p.outcome answer (Cursor.start xs)).taken =
        some (a, ys) := by
    rw [outcome_reads hCalls]
    exact h
  rcases Option.map_eq_some_iff.mp hTaken with ⟨v, hResult, hEq⟩
  have hRest : v.2.rest = ys := congrArg Prod.snd hEq
  have hReaches :=
    outcome_reaches hAdvance p _ v.1 v.2 hResult
  rw [← hRest]
  exact ⟨hReaches.1.length_le,
    fun hNull => (hReaches.2 hNull).2⟩

/- Any two bounds that a text fits into give the same items. -/
theorem readsMany_eq_of_length_le
    {read : List Char → Option (α × List Char)}
    (hShorter :
      ∀ xs a ys, read xs = some (a, ys) →
        ys.length < xs.length)
    (bound bound' xs : List Char)
    (hBound : xs.length ≤ bound.length)
    (hBound' : xs.length ≤ bound'.length) :
    readsMany read bound xs = readsMany read bound' xs := by
  have hEnd : read [] = none := by
    rw [Option.eq_none_iff_forall_ne_some]
    rintro ⟨a, ys⟩ h
    have hLt := hShorter _ _ _ h
    simp at hLt
  induction bound generalizing bound' xs with
  | nil =>
      have hNil : xs = [] := by simpa using hBound
      subst hNil
      cases bound' <;> simp [readsMany, hEnd]
  | cons b bound ih =>
      cases bound' with
      | nil =>
          have hNil : xs = [] := by simpa using hBound'
          subst hNil
          simp [readsMany, hEnd]
      | cons b' bound' =>
          rw [readsMany, readsMany]
          cases hFirst : read xs with
          | none => rfl
          | some v =>
              have hLt := hShorter _ _ _ hFirst
              have hRest :=
                ih bound' v.2
                  (by simp at hBound; omega)
                  (by simp at hBound'; omega)
              simp only [hRest]

------------------------------------------------------------
-- First Characters
------------------------------------------------------------

/-
  May the expression read this character first?  The rules
  that are called have first characters of their own.
-/
def starts
    (first : N → Char → Bool)
    (x : Char) : {α : Type} → Peg N V α → Bool
  | _, .literal text => text.head? = some x
  | _, .char cls => cls.accepts x
  | _, .succeed _ => false
  | _, .fail _ => false
  | _, .seq p q =>
      p.starts first x || (p.nullable && q.starts first x)
  | _, .check _ p => p.starts first x
  | _, .choice p q => p.starts first x || q.starts first x
  | _, .many p => p.starts first x
  | _, .quiet p => p.starts first x
  | _, .absent _ => false
  | _, .call n => first n x

section Combinations

variable (first : N → Char → Bool)
variable (x : Char)

@[simp] theorem starts_symbol
    (s : String) :
    (symbol s : Peg N V Unit).starts first x =
      decide (s.toList.head? = some x) := rfl

@[simp] theorem nullable_symbol
    (s : String) :
    (symbol s : Peg N V Unit).nullable = s.toList.isEmpty := rfl

@[simp] theorem starts_char
    (cls : CharClass) :
    (char cls : Peg N V Char).starts first x =
      cls.accepts x := rfl

@[simp] theorem nullable_char
    (cls : CharClass) :
    (char cls : Peg N V Char).nullable = false := rfl

@[simp] theorem starts_call
    (n : N) :
    (Peg.call n : Peg N V V).starts first x = first n x := rfl

@[simp] theorem nullable_call
    (n : N) :
    (Peg.call n : Peg N V V).nullable = false := rfl

@[simp] theorem starts_many
    (p : Peg N V α) :
    (many p).starts first x = p.starts first x := rfl

@[simp] theorem nullable_many
    (p : Peg N V α) : (many p).nullable = true := rfl

@[simp] theorem starts_quiet
    (p : Peg N V α) :
    (quiet p).starts first x = p.starts first x := rfl

@[simp] theorem nullable_quiet
    (p : Peg N V α) : (quiet p).nullable = p.nullable := rfl

@[simp] theorem starts_check
    (f : α → Except String β)
    (p : Peg N V α) :
    (check f p).starts first x = p.starts first x := rfl

@[simp] theorem nullable_check
    (f : α → Except String β)
    (p : Peg N V α) :
    (check f p).nullable = p.nullable := rfl

@[simp] theorem starts_succeed
    (a : α) :
    (succeed a : Peg N V α).starts first x = false := rfl

@[simp] theorem nullable_succeed
    (a : α) : (succeed a : Peg N V α).nullable = true := rfl

@[simp] theorem starts_fail
    (label : String) :
    (fail label : Peg N V α).starts first x = false := rfl

@[simp] theorem starts_map
    (f : α → β)
    (p : Peg N V α) :
    (f <$> p).starts first x = p.starts first x := rfl

@[simp] theorem nullable_map
    (f : α → β)
    (p : Peg N V α) : (f <$> p).nullable = p.nullable := rfl

@[simp] theorem starts_apply
    (p : Peg N V (α → β))
    (q : Peg N V α) :
    (p <*> q).starts first x =
      (p.starts first x || (p.nullable && q.starts first x)) :=
  rfl

@[simp] theorem starts_keepLeft
    (p : Peg N V α)
    (q : Peg N V β) :
    (p <* q).starts first x =
      (p.starts first x || (p.nullable && q.starts first x)) :=
  rfl

@[simp] theorem starts_keepRight
    (p : Peg N V α)
    (q : Peg N V β) :
    (p *> q).starts first x =
      (p.starts first x || (p.nullable && q.starts first x)) :=
  rfl

@[simp] theorem nullable_apply
    (p : Peg N V (α → β))
    (q : Peg N V α) :
    (p <*> q).nullable = (p.nullable && q.nullable) := rfl

@[simp] theorem nullable_keepLeft
    (p : Peg N V α)
    (q : Peg N V β) :
    (p <* q).nullable = (p.nullable && q.nullable) := rfl

@[simp] theorem nullable_keepRight
    (p : Peg N V α)
    (q : Peg N V β) :
    (p *> q).nullable = (p.nullable && q.nullable) := rfl

@[simp] theorem starts_orElse
    (p q : Peg N V α) :
    (p <|> q).starts first x =
      (p.starts first x || q.starts first x) := rfl

@[simp] theorem nullable_orElse
    (p q : Peg N V α) :
    (p <|> q).nullable = (p.nullable || q.nullable) := rfl

@[simp] theorem starts_optional
    (p : Peg N V α) :
    (optional p).starts first x = p.starts first x := by
  change (p.starts first x || false) = _
  simp

@[simp] theorem nullable_optional
    (p : Peg N V α) : (optional p).nullable = true := by
  change (p.nullable || true) = _
  simp

end Combinations

/-
  First characters depend on calls only if the expression
  leads with them.
-/
theorem starts_eq_of_leads
    (first first' : N → Char → Bool)
    (x : Char)
    (p : Peg N V α)
    (hLeads : p.leads (fun _ => false) = true) :
    p.starts first x = p.starts first' x := by
  induction p with
  | seq p q ihp ihq =>
      simp only [leads, Bool.and_eq_true, Bool.or_eq_true,
        Bool.not_eq_true'] at hLeads
      rw [starts, starts, ihp hLeads.1]
      rcases hLeads.2 with hNull | hSecond
      · simp [hNull]
      · rw [ihq hSecond]
  | choice p q ihp ihq =>
      simp only [leads, Bool.and_eq_true] at hLeads
      rw [starts, starts, ihp hLeads.1, ihq hLeads.2]
  | check f p ih => exact ih hLeads
  | many p ih => exact ih hLeads
  | quiet p ih => exact ih hLeads
  | call n => simp [leads] at hLeads
  | _ => rfl

/- Calls match only at their first characters. -/
def CallsStart
    (first : N → Char → Bool)
    (call : N → List Char → Option (V × List Char)) : Prop :=
  (∀ n, call n [] = none) ∧
    ∀ n x xs, first n x = false → call n (x :: xs) = none

/-
  At a character that it may not read first, an expression
  reads nothing or fails; and it fails if it has to read.
-/
theorem reads_of_not_starts
    {first : N → Char → Bool}
    {call : N → List Char → Option (V × List Char)}
    (hCalls : CallsStart first call)
    (p : Peg N V α)
    (text : List Char)
    (hText :
      ∀ x xs, text = x :: xs → p.starts first x = false)
    (a : α)
    (ys : List Char)
    (h : p.reads call text = some (a, ys)) :
    ys = text ∧ p.nullable = true := by
  induction p generalizing ys with
  | literal l =>
      rcases Option.map_eq_some_iff.mp h with ⟨us, hDrop, hEq⟩
      have hUs : us = ys := congrArg Prod.snd hEq
      subst hUs
      have hShape := (Cursor.dropLiteral_eq_some_iff _ _ _).mp hDrop
      cases l with
      | nil => exact ⟨hShape.symm, rfl⟩
      | cons x l =>
          have hStart := hText x (l ++ us) hShape
          simp [starts] at hStart
  | char cls =>
      cases text with
      | nil => simp at h
      | cons x xs =>
          have hStart := hText x xs rfl
          simp only [starts] at hStart
          simp [hStart] at h
  | succeed b =>
      have hEq : text = ys :=
        congrArg Prod.snd (Option.some.inj h)
      exact ⟨hEq.symm, rfl⟩
  | fail label => simp at h
  | seq p q ihp ihq =>
      rw [reads] at h
      rcases Option.bind_eq_some_iff.mp h with
        ⟨v, hFirst, hRest⟩
      rcases Option.map_eq_some_iff.mp hRest with
        ⟨w, hSecond, hEq⟩
      have hEnd : w.2 = ys := congrArg Prod.snd hEq
      subst hEnd
      have hP :=
        ihp (fun x xs hx => by
          have hStart := hText x xs hx
          simp only [starts, Bool.or_eq_false_iff] at hStart
          exact hStart.1) v.1 v.2 hFirst
      rw [hP.1] at hSecond
      have hQ :=
        ihq (fun x xs hx => by
          have hStart := hText x xs hx
          simp only [starts, hP.2, Bool.true_and,
            Bool.or_eq_false_iff] at hStart
          exact hStart.2) w.1 w.2 hSecond
      exact ⟨hQ.1, by simp [nullable, hP.2, hQ.2]⟩
  | check f p ih =>
      rw [reads] at h
      rcases Option.bind_eq_some_iff.mp h with
        ⟨v, hFirst, hRest⟩
      cases hValue : f v.1 with
      | error label => simp [hValue] at hRest
      | ok b =>
          have hEnd : v.2 = ys := by
            simp only [hValue] at hRest
            exact congrArg Prod.snd (Option.some.inj hRest)
          subst hEnd
          exact ih hText v.1 v.2 hFirst
  | choice p q ihp ihq =>
      rw [reads, Option.or_eq_some_iff] at h
      rcases h with hFirst | ⟨-, hSecond⟩
      · have hP :=
          ihp (fun x xs hx => by
            have hStart := hText x xs hx
            simp only [starts, Bool.or_eq_false_iff] at hStart
            exact hStart.1) a ys hFirst
        exact ⟨hP.1, by simp [nullable, hP.2]⟩
      · have hQ :=
          ihq (fun x xs hx => by
            have hStart := hText x xs hx
            simp only [starts, Bool.or_eq_false_iff] at hStart
            exact hStart.2) a ys hSecond
        exact ⟨hQ.1, by simp [nullable, hQ.2]⟩
  | many p ih =>
      have hEq : readsMany (p.reads call) text text = (a, ys) :=
        Option.some.inj h
      have hStays :
          ∀ bound,
            (readsMany (p.reads call) bound text).2 = text := by
        intro bound
        induction bound with
        | nil => rfl
        | cons b bound ihBound =>
            rw [readsMany]
            cases hFirst : p.reads call text with
            | none => rfl
            | some v =>
                have hSame := ih hText v.1 v.2 hFirst
                simp only [hSame.1, ihBound]
      refine ⟨?_, rfl⟩
      rw [← hStays text, hEq]
  | quiet p ih => exact ih hText a ys h
  | absent p ih =>
      rw [reads] at h
      split at h
      · simp at h
      · have hEq : text = ys :=
          congrArg Prod.snd (Option.some.inj h)
        exact ⟨hEq.symm, rfl⟩
  | call n =>
      cases text with
      | nil => simp [hCalls.1] at h
      | cons x xs =>
          have hStart := hText x xs rfl
          simp only [starts] at hStart
          simp [hCalls.2 n x xs hStart] at h

/- An expression that has to read fails at other characters. -/
theorem reads_eq_none_of_not_starts
    {first : N → Char → Bool}
    {call : N → List Char → Option (V × List Char)}
    (hCalls : CallsStart first call)
    (p : Peg N V α)
    (x : Char)
    (xs : List Char)
    (hReads : p.nullable = false)
    (hStart : p.starts first x = false) :
    p.reads call (x :: xs) = none := by
  rw [Option.eq_none_iff_forall_ne_some]
  rintro ⟨a, ys⟩ h
  have hNull :=
    (reads_of_not_starts hCalls p (x :: xs)
      (by simp [hStart]) a ys h).2
  simp [hReads] at hNull

end Peg

------------------------------------------------------------
-- Rules
------------------------------------------------------------

namespace Grammar

variable {N V : Type}
variable {α : Type}
variable (g : Grammar N V)

/- What a rule reads, with calls nested to a given depth. -/
def readsWithin :
    Nat → N → List Char → Option (V × List Char)
  | 0, _, _ => none
  | k + 1, n, xs => (g.rule n).reads (readsWithin k) xs

/- What a rule reads. -/
def reads
    (n : N)
    (xs : List Char) : Option (V × List Char) :=
  g.readsWithin (g.depth (Cursor.start xs)) n xs

theorem answer_taken
    (k : Nat)
    (n : N)
    (c : Cursor) :
    (g.answer k n c).taken = g.readsWithin k n c.rest := by
  induction k generalizing n c with
  | zero => rfl
  | succ k ih => exact Peg.outcome_reads ih (g.rule n) c

theorem reading_taken
    (n : N)
    (c : Cursor) :
    (g.reading n c).taken = g.reads n c.rest :=
  g.answer_taken _ n c

/- What holds of all that the rules read. -/
theorem reads_invariant
    {P : N → V → Prop}
    (hStep :
      ∀ call : N → List Char → Option (V × List Char),
        (∀ n xs v ys, call n xs = some (v, ys) → P n v) →
          ∀ n xs v ys,
            (g.rule n).reads call xs = some (v, ys) → P n v)
    (n : N)
    (xs : List Char)
    (v : V)
    (ys : List Char)
    (h : g.reads n xs = some (v, ys)) : P n v := by
  have hWithin :
      ∀ k n xs v ys,
        g.readsWithin k n xs = some (v, ys) → P n v := by
    intro k
    induction k with
    | zero =>
        intro n xs v ys h
        simp [readsWithin] at h
    | succ k ih => exact hStep _ ih
  exact hWithin _ n xs v ys h

variable [hGuarded : g.Guarded]

/- Rules match only at their first characters. -/
theorem reads_callsStart
    {first : N → Char → Bool}
    (hFirst :
      ∀ n x, first n x = false →
        (g.rule n).starts first x = false) :
    Peg.CallsStart first g.reads := by
  have hWithin :
      ∀ k, Peg.CallsStart first (g.readsWithin k) := by
    intro k
    induction k with
    | zero => exact ⟨fun _ => rfl, fun _ _ _ _ => rfl⟩
    | succ k ih =>
        constructor
        · intro n
          rw [Option.eq_none_iff_forall_ne_some]
          rintro ⟨v, ys⟩ h
          have hNull :=
            (Peg.reads_of_not_starts ih (g.rule n) []
              (by simp) v ys h).2
          simp [hGuarded.rule_reads n] at hNull
        · intro n x xs hx
          exact Peg.reads_eq_none_of_not_starts ih (g.rule n)
            x xs (hGuarded.rule_reads n) (hFirst n x hx)
  exact ⟨fun n => (hWithin _).1 n,
    fun n x xs hx => (hWithin _).2 n x xs hx⟩

/- A call reads what its rule reads. -/
theorem reads_eq
    (n : N)
    (xs : List Char) :
    g.reads n xs = (g.rule n).reads g.reads xs := by
  have hTaken := g.reading_taken n (Cursor.start xs)
  rw [reading_eq, Peg.outcome_reads g.reading_taken] at hTaken
  exact hTaken.symm

/- What is read is a stretch of the text. -/
theorem reads_suffix
    {p : Peg N V α}
    {xs ys : List Char}
    {a : α}
    (h : p.reads g.reads xs = some (a, ys)) :
    ys.length ≤ xs.length ∧
      (p.nullable = false → ys.length < xs.length) :=
  Peg.reads_suffix_of_taken g.reading_taken g.reading_advances h

/- A repetition is an item and a repetition, or nothing. -/
theorem reads_many
    {p : Peg N V α}
    (hReads : p.nullable = false)
    (xs : List Char) :
    (Peg.many p).reads g.reads xs =
      match p.reads g.reads xs with
      | none => some ([], xs)
      | some (a, ys) =>
          ((Peg.many p).reads g.reads ys).map
            (fun v => (a :: v.1, v.2)) := by
  rw [Peg.reads_many_eq]
  cases hFirst : p.reads g.reads xs with
  | none => cases xs <;> simp [Peg.readsMany, hFirst]
  | some v =>
      rcases v with ⟨a, ys⟩
      have hLt := (g.reads_suffix hFirst).2 hReads
      cases xs with
      | nil => simp at hLt
      | cons x xs =>
          rw [Peg.readsMany, hFirst]
          simp only [Peg.reads_many_eq]
          have hRest :=
            Peg.readsMany_eq_of_length_le
              (fun _ _ _ h => (g.reads_suffix h).2 hReads)
              xs ys ys (by simp at hLt; omega) (Nat.le_refl _)
          simp only [hRest, Option.map_some]

/-
  What a whole text is read as is what the expression reads,
  if it reads all of it.
-/
theorem parse_eq_ok_iff_reads
    [DecidableEq N]
    [hCalm : g.Calm]
    (p : Peg N V α)
    (hCalmly : p.calm = true)
    (text : List Char)
    (a : α) :
    g.parse p text = .ok a ↔
      p.reads g.reads text = some (a, []) := by
  rw [g.parse_eq_ok_iff p hCalmly, parsePlainly_eq]
  have hTaken :=
    Peg.outcome_reads g.reading_taken p (Cursor.start text)
  change _ = p.reads g.reads text at hTaken
  rw [← hTaken]
  unfold conclude Outcome.taken
  cases (p.outcome g.reading (Cursor.start text)).result with
  | none => simp
  | some v =>
      rcases v with ⟨b, d⟩
      cases hRest : d.rest <;> simp [hRest]

end Grammar

end TypeGraft
