import TypeGraft.Proofs.Peg.Reading

/-
  Reading two texts side by side.

  An expression respects a relation between texts if, read at
  related texts, it fails at both or yields the same value at
  both and leaves related texts.  Expressions that are put
  together from such expressions respect the relation too, and
  so do the rules of a guarded grammar, if each of them does
  wherever the calls in it do.

  Key definitions include:
    * `Peg.Agree`
    * `Peg.Respects`
    * `Peg.Shortens`

  Main declarations:
    * `Peg.Respects.sequence`
    * `Peg.Respects.many`
    * `Peg.Respects.sepBy`
    * `Grammar.shortens_readsWithin`
    * `Grammar.respects_reads`
-/

namespace TypeGraft

namespace Peg

variable {N V : Type}
variable {α β γ : Type}
variable {R : List Char → List Char → Prop}

------------------------------------------------------------
-- Results
------------------------------------------------------------

/- Two results have the same value and leave related texts. -/
def Agree
    (R : List Char → List Char → Prop) :
    Option (α × List Char) → Option (α × List Char) → Prop :=
  Option.Rel (fun v w => v.1 = w.1 ∧ R v.2 w.2)

namespace Agree

variable {o o' : Option (α × List Char)}

theorem none : @Agree α R .none .none :=
  Option.Rel.none

theorem some
    {xs zs : List Char}
    (h : R xs zs)
    (a : α) : Agree R (.some (a, xs)) (.some (a, zs)) :=
  Option.Rel.some ⟨rfl, h⟩

/- What follows agrees where it is given related texts. -/
theorem bind
    {f g : α × List Char → Option (β × List Char)}
    (h : Agree R o o')
    (hNext :
      ∀ a xs zs, R xs zs → Agree R (f (a, xs)) (g (a, zs))) :
    Agree R (o.bind f) (o'.bind g) := by
  cases h with
  | none => exact .none
  | @some v w hSame =>
      rcases v with ⟨a, xs⟩
      rcases w with ⟨b, zs⟩
      rcases hSame with ⟨rfl, hRest⟩
      exact hNext a xs zs hRest

/- Changing the value in the same way. -/
theorem map
    (h : Agree R o o')
    (f : α → β) :
    Agree R (o.map (fun v => (f v.1, v.2)))
      (o'.map (fun v => (f v.1, v.2))) := by
  simp only [Option.map_eq_bind]
  exact h.bind (fun a _ _ hRest => .some hRest (f a))

theorem or
    {r r' : Option (α × List Char)}
    (h : Agree R o o')
    (hElse : Agree R r r') :
    Agree R (o.or r) (o'.or r') := by
  cases h with
  | none => exact hElse
  | some hSame => exact Option.Rel.some hSame

/- Results that agree are there both, or neither is. -/
theorem isSome_eq
    (h : Agree R o o') : o.isSome = o'.isSome := by
  cases h <;> rfl

end Agree

------------------------------------------------------------
-- Expressions
------------------------------------------------------------

/- The expression reads related texts alike. -/
def Respects
    (R : List Char → List Char → Prop)
    (call : N → List Char → Option (V × List Char))
    (p : Peg N V α) : Prop :=
  ∀ xs zs, R xs zs →
    Agree R (p.reads call xs) (p.reads call zs)

/- Expressions that are not nullable leave a shorter text. -/
def Shortens
    (call : N → List Char → Option (V × List Char)) : Prop :=
  ∀ {α : Type} (p : Peg N V α), p.nullable = false →
    ∀ xs a ys, p.reads call xs = some (a, ys) →
      ys.length < xs.length

/- At the end of a text they read nothing. -/
theorem Shortens.reads_nil
    {call : N → List Char → Option (V × List Char)}
    (h : Shortens call)
    {p : Peg N V α}
    (hReads : p.nullable = false) :
    p.reads call [] = none := by
  rw [Option.eq_none_iff_forall_ne_some]
  rintro ⟨a, ys⟩ hRead
  exact absurd (h p hReads _ _ _ hRead) (Nat.not_lt_zero _)

namespace Respects

variable {call : N → List Char → Option (V × List Char)}
variable {p q : Peg N V α}
variable {r : Peg N V β}

theorem succeed
    (a : α) :
    Respects R call (Peg.succeed a : Peg N V α) :=
  fun _ _ h => .some h a

theorem fail
    (label : String) :
    Respects R call (Peg.fail label : Peg N V α) :=
  fun _ _ _ => .none

theorem quiet
    (hp : Respects R call p) :
    Respects R call (Peg.quiet p) := hp

theorem absent
    (hp : Respects R call p) :
    Respects R call (Peg.absent p) := by
  intro xs zs h
  rw [reads_absent, reads_absent, (hp xs zs h).isSome_eq]
  split
  · exact .none
  · exact .some h ()

theorem check
    (hp : Respects R call p)
    (f : α → Except String β) :
    Respects R call (Peg.check f p) := by
  intro xs zs h
  rw [reads_check, reads_check]
  refine (hp xs zs h).bind ?_
  intro a ys us hRest
  cases f a with
  | ok b => exact .some hRest b
  | error label => exact .none

theorem map
    (hp : Respects R call p)
    (f : α → β) : Respects R call (f <$> p) := by
  intro xs zs h
  rw [reads_map, reads_map]
  exact (hp xs zs h).map f

/- One expression after another, and a value from both. -/
theorem sequence
    (hp : Respects R call p)
    (hr : Respects R call r)
    (f : α × β → γ) :
    Respects R call (Peg.map f (Peg.seq p r)) := by
  intro xs zs h
  rw [reads_map_seq, reads_map_seq]
  refine (hp xs zs h).bind ?_
  intro a ys us hRest
  exact (hr ys us hRest).map (fun b => f (a, b))

theorem apply
    {f : Peg N V (α → β)}
    (hf : Respects R call f)
    (hp : Respects R call p) : Respects R call (f <*> p) :=
  hf.sequence hp _

theorem keepLeft
    (hp : Respects R call p)
    (hr : Respects R call r) : Respects R call (p <* r) :=
  hp.sequence hr _

theorem keepRight
    (hp : Respects R call p)
    (hr : Respects R call r) : Respects R call (p *> r) :=
  hp.sequence hr _

theorem orElse
    (hp : Respects R call p)
    (hq : Respects R call q) : Respects R call (p <|> q) :=
  fun xs zs h => (hp xs zs h).or (hq xs zs h)

theorem optional
    (hp : Respects R call p) :
    Respects R call (Peg.optional p) :=
  (hp.map Option.some).orElse (succeed none)

/-
  A repetition reads as many items of one text as of the
  other.  By induction on a bound for both of them, which
  stands for the bounds that the texts give.
-/
theorem many
    (hShort : Shortens call)
    (hReads : p.nullable = false)
    (hp : Respects R call p) :
    Respects R call (Peg.many p) := by
  have hItems :
      ∀ bound xs zs, R xs zs →
        (readsMany (p.reads call) bound xs).1 =
            (readsMany (p.reads call) bound zs).1 ∧
          R (readsMany (p.reads call) bound xs).2
            (readsMany (p.reads call) bound zs).2 := by
    intro bound
    induction bound with
    | nil => exact fun _ _ h => ⟨rfl, h⟩
    | cons b bound ih =>
        intro xs zs h
        rw [readsMany, readsMany]
        have hFirst := hp xs zs h
        generalize p.reads call xs = o at hFirst
        generalize p.reads call zs = o' at hFirst
        cases hFirst with
        | none => exact ⟨rfl, h⟩
        | @some v w hSame =>
            rcases ih v.2 w.2 hSame.2 with ⟨hRest, hLeft⟩
            refine ⟨?_, hLeft⟩
            simp only [hSame.1, hRest]
  intro xs zs h
  have hBoth :=
    fun (ys : List Char) (hFits : ys.length ≤ (xs ++ zs).length) =>
      readsMany_eq_of_length_le (hShort p hReads) ys (xs ++ zs)
        ys (Nat.le_refl _) hFits
  rw [reads_many_eq, reads_many_eq, hBoth xs (by simp),
    hBoth zs (by simp)]
  exact Option.Rel.some (hItems (xs ++ zs) xs zs h)

theorem many1
    (hShort : Shortens call)
    (hReads : p.nullable = false)
    (hp : Respects R call p) :
    Respects R call (Peg.many1 p) :=
  hp.sequence (hp.many hShort hReads) _

/- What is between two items need not respect the relation. -/
theorem sepBy1
    {sep : Peg N V β}
    (hShort : Shortens call)
    (hReads : p.nullable = false)
    (hp : Respects R call p)
    (hNext : Respects R call (sep *> p)) :
    Respects R call (Peg.sepBy1 p sep) := by
  have hNull : (sep *> p).nullable = false := by
    rw [nullable_keepRight, hReads, Bool.and_false]
  exact hp.sequence (hNext.many hShort hNull) _

theorem sepBy
    {sep : Peg N V β}
    (hShort : Shortens call)
    (hReads : p.nullable = false)
    (hp : Respects R call p)
    (hNext : Respects R call (sep *> p)) :
    Respects R call (Peg.sepBy p sep) :=
  (hp.sepBy1 hShort hReads hNext).orElse (succeed [])

end Respects

end Peg

------------------------------------------------------------
-- Rules
------------------------------------------------------------

namespace Grammar

variable {N V : Type}
variable (g : Grammar N V)
variable [g.Guarded]

/- Calls to any depth leave shorter texts. -/
theorem shortens_readsWithin
    (k : Nat) : Peg.Shortens (g.readsWithin k) :=
  fun _ hReads _ _ _ h =>
    (Peg.reads_suffix_of_taken (g.answer_taken k)
      (g.answer_advances k) h).2 hReads

/- Calls deeper than the grammar needs read nothing else. -/
theorem readsWithin_eq
    {k : Nat}
    {n : N}
    {xs : List Char}
    (hDepth : g.depth (Cursor.start xs) ≤ k) :
    g.readsWithin k n xs = g.reads n xs := by
  have hNeed := g.need_le_depth n (Cursor.start xs)
  have hTaken := g.answer_taken k n (Cursor.start xs)
  rw [g.answer_eq_reading (Nat.le_trans hNeed hDepth),
    g.reading_taken] at hTaken
  exact hTaken.symm

/-
  Rules respect a relation if each does where calls do.  By
  induction on the depth of calls, which is the same for both
  texts and enough for the longer one.
-/
theorem respects_reads
    {R : List Char → List Char → Prop}
    (hRules :
      ∀ call : N → List Char → Option (V × List Char),
        Peg.Shortens call →
          (∀ n, Peg.Respects R call (.call n)) →
            ∀ n, Peg.Respects R call (g.rule n))
    (n : N) : Peg.Respects R g.reads (.call n) := by
  have hWithin :
      ∀ k n, Peg.Respects R (g.readsWithin k) (.call n) := by
    intro k
    induction k with
    | zero => exact fun _ _ _ _ => .none
    | succ k ih =>
        exact hRules _ (g.shortens_readsWithin k) ih
  intro xs zs h
  have hBoth :=
    hWithin
      (max (g.depth (Cursor.start xs))
        (g.depth (Cursor.start zs))) n xs zs h
  rw [Peg.reads_call, Peg.reads_call,
    g.readsWithin_eq (Nat.le_max_left _ _),
    g.readsWithin_eq (Nat.le_max_right _ _)] at hBoth
  exact hBoth

end Grammar

end TypeGraft
