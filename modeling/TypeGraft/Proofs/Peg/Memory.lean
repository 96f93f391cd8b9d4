import TypeGraft.Proofs.Peg.Guarded

/-
  Remembered results are invisible.

  While a text is read with memory, everything in memory is
  what a fresh reading would give, and the failures of that
  reading are on record already.  So a reading with memory
  has the same result as one without, and reports the same
  failures.

  Main declarations:
    * `Failures.Covers` and `Failures.Alike`
    * `Peg.calm`
    * `Peg.eval_of_callFree`
    * `Grammar.Remembers`
    * `Grammar.Retraces`
    * `Grammar.carry_retraces`
    * `Grammar.SameVerdict`
    * `Grammar.parse_sameVerdict`
-/

namespace TypeGraft

------------------------------------------------------------
-- Records of Failures
------------------------------------------------------------

namespace Failures

/-
  One record covers another if pooling the other into it adds
  nothing.
-/
def Covers
    (f g : Failures) : Prop :=
  g.offset < f.offset ∨
    (g.offset = f.offset ∧
      ∀ label ∈ g.expected, label ∈ f.expected)

theorem Covers.refl
    (f : Failures) : f.Covers f :=
  .inr ⟨rfl, fun _ h => h⟩

theorem Covers.trans
    {f g h : Failures}
    (hFirst : f.Covers g)
    (hSecond : g.Covers h) : f.Covers h := by
  rcases hFirst with hLt | ⟨hEq, hItems⟩
  · left
    rcases hSecond with hLt' | ⟨hEq', -⟩ <;> omega
  · rcases hSecond with hLt' | ⟨hEq', hItems'⟩
    · left
      omega
    · right
      exact ⟨hEq'.trans hEq,
        fun label hLabel => hItems label (hItems' label hLabel)⟩

@[simp] theorem covers_empty
    (f : Failures) : f.Covers .empty := by
  unfold Covers empty
  by_cases hZero : f.offset = 0
  · right
    simp [hZero]
  · left
    simp
    omega

theorem mem_foldr_insert
    (label : String)
    (xs ys : List String) :
    label ∈ xs.foldr List.insert ys ↔
      label ∈ xs ∨ label ∈ ys := by
  induction xs with
  | nil => simp
  | cons x xs ih => simp [ih, or_assoc]

/- A pooled record holds what both records hold. -/
@[simp] theorem covers_join_iff
    (f g h : Failures) :
    f.Covers (g.join h) ↔ f.Covers g ∧ f.Covers h := by
  unfold join
  split
  · rename_i hLt
    constructor
    · intro hCovers
      refine ⟨hCovers.trans ?_, hCovers⟩
      exact .inl hLt
    · exact And.right
  · rename_i hNotLt
    split
    · rename_i hGt
      constructor
      · intro hCovers
        refine ⟨hCovers, hCovers.trans ?_⟩
        exact .inl hGt
      · exact And.left
    · rename_i hNotGt
      have hSame : g.offset = h.offset := by omega
      simp only [Covers, mem_foldr_insert, ← hSame]
      constructor
      · rintro (hLt | ⟨hEq, hItems⟩)
        · exact ⟨.inl hLt, .inl hLt⟩
        · exact
            ⟨.inr ⟨hEq, fun l hl => hItems l (.inl hl)⟩,
              .inr ⟨hEq, fun l hl => hItems l (.inr hl)⟩⟩
      · rintro ⟨hLt | ⟨hEq, hItems⟩, hOther⟩
        · exact .inl hLt
        · rcases hOther with hLt | ⟨-, hItems'⟩
          · exact .inl hLt
          · right
            refine ⟨hEq, ?_⟩
            rintro l (hl | hl)
            · exact hItems l hl
            · exact hItems' l hl

theorem join_covers_left
    (f g : Failures) : (f.join g).Covers f :=
  ((covers_join_iff _ _ _).mp (.refl _)).1

theorem join_covers_right
    (f g : Failures) : (f.join g).Covers g :=
  ((covers_join_iff _ _ _).mp (.refl _)).2

/-
  Two records report the same: the same furthest offset, and
  the same items there, in whatever order.
-/
structure Alike
    (f g : Failures) : Prop where
  offset : f.offset = g.offset
  expected :
    ∀ label, label ∈ f.expected ↔ label ∈ g.expected

/- Records are alike if neither adds anything to the other. -/
theorem alike_iff_covers
    {f g : Failures} :
    f.Alike g ↔ f.Covers g ∧ g.Covers f := by
  constructor
  · rintro ⟨hOffset, hItems⟩
    exact
      ⟨.inr ⟨hOffset.symm, fun label => (hItems label).mpr⟩,
        .inr ⟨hOffset, fun label => (hItems label).mp⟩⟩
  · rintro ⟨hLeft | ⟨hOffset, hItems⟩, hRight⟩
    · rcases hRight with hLt | ⟨hSame, -⟩ <;> omega
    · rcases hRight with hLt | ⟨-, hItems'⟩
      · omega
      · exact
          ⟨hOffset.symm,
            fun label => ⟨hItems' label, hItems label⟩⟩

/- Pooling the same record into both keeps them alike. -/
theorem Alike.join
    {f g : Failures}
    (h : f.Alike g)
    (more : Failures) : (f.join more).Alike (g.join more) := by
  rcases alike_iff_covers.mp h with ⟨hLeft, hRight⟩
  rw [alike_iff_covers, covers_join_iff, covers_join_iff]
  exact
    ⟨⟨(join_covers_left f more).trans hLeft,
        join_covers_right f more⟩,
      (join_covers_left g more).trans hRight,
      join_covers_right g more⟩

end Failures

------------------------------------------------------------
-- One Cursor per Offset
------------------------------------------------------------

namespace Cursor

theorem eq_of_byteLength_eq
    (xs ys as bs : List Char)
    (hText : xs ++ as = ys ++ bs)
    (hLength : byteLength xs = byteLength ys) : xs = ys := by
  induction xs generalizing ys with
  | nil =>
      cases ys with
      | nil => rfl
      | cons y ys =>
          have hPos := y.utf8Size_pos
          simp [byteLength] at hLength
          omega
  | cons x xs ih =>
      cases ys with
      | nil =>
          have hPos := x.utf8Size_pos
          simp [byteLength] at hLength
          omega
      | cons y ys =>
          simp only [List.cons_append, List.cons.injEq] at hText
          rcases hText with ⟨rfl, hText⟩
          simp only [byteLength, Nat.add_left_cancel_iff]
            at hLength
          rw [ih ys hText hLength]

/- Cursors on one text are told apart by their offsets. -/
theorem Reaches.eq_of_offset_eq
    {origin c d : Cursor}
    (hc : origin.Reaches c)
    (hd : origin.Reaches d)
    (hOffset : c.offset = d.offset) : c = d := by
  rcases hc with ⟨xs, hRest, hStart⟩
  rcases hd with ⟨ys, hRest', hStart'⟩
  have hSame : xs = ys := by
    apply eq_of_byteLength_eq xs ys c.rest d.rest
    · exact hRest.symm.trans hRest'
    · omega
  subst hSame
  have hTail := List.append_cancel_left (hRest.symm.trans hRest')
  cases c
  cases d
  simp_all

end Cursor

------------------------------------------------------------
-- Readings with a State
------------------------------------------------------------

namespace Peg

variable {N V σ : Type}
variable {α β : Type}

/- Read an expression, given calls that share a state. -/
def carry
    (call : N → Cursor → StateM σ (Outcome V))
    (p : Peg N V α)
    (c : Cursor)
    (s : σ) : Outcome α × σ :=
  Id.run ((p.eval call c).run s)

/- Repeat a reading that has a state. -/
def carryMany
    (read : Cursor → σ → Outcome α × σ)
    (bound : List Char)
    (c : Cursor)
    (s : σ) : Outcome (List α) × σ :=
  Id.run ((readMany (m := StateM σ) read bound c).run s)

section Equations

variable (call : N → Cursor → StateM σ (Outcome V))
variable (c : Cursor)
variable (s : σ)

theorem carry_seq
    (p : Peg N V α)
    (q : Peg N V β) :
    (seq p q).carry call c s =
      match (p.carry call c s).1.result with
      | none =>
          (⟨none, (p.carry call c s).1.failures⟩,
            (p.carry call c s).2)
      | some (a, d) =>
          let t := q.carry call d (p.carry call c s).2
          (⟨t.1.result.map (fun v => ((a, v.1), v.2)),
            (p.carry call c s).1.failures.join
              t.1.failures⟩, t.2) := by
  unfold carry
  rw [eval, StateT.run_bind]
  obtain ⟨⟨result, failures⟩, t⟩ := (p.eval call c).run s
  cases result <;> rfl

theorem carry_check
    (f : α → Except String β)
    (p : Peg N V α) :
    (check f p).carry call c s =
      match (p.carry call c s).1.result with
      | none =>
          (⟨none, (p.carry call c s).1.failures⟩,
            (p.carry call c s).2)
      | some (a, d) =>
          match f a with
          | .ok b =>
              (⟨some (b, d), (p.carry call c s).1.failures⟩,
                (p.carry call c s).2)
          | .error label =>
              (⟨none,
                (p.carry call c s).1.failures.join
                  (.one d.offset label)⟩,
                (p.carry call c s).2) := by
  unfold carry
  rw [eval, StateT.run_bind]
  obtain ⟨⟨result, failures⟩, t⟩ := (p.eval call c).run s
  cases result with
  | none => rfl
  | some v =>
      obtain ⟨a, d⟩ := v
      simp only [Id.run, bind]
      cases f a <;> rfl

theorem carry_choice
    (p q : Peg N V α) :
    (choice p q).carry call c s =
      match (p.carry call c s).1.result with
      | some v =>
          (⟨some v, (p.carry call c s).1.failures⟩,
            (p.carry call c s).2)
      | none =>
          let t := q.carry call c (p.carry call c s).2
          (⟨t.1.result,
            (p.carry call c s).1.failures.join
              t.1.failures⟩, t.2) := by
  unfold carry
  rw [eval, StateT.run_bind]
  obtain ⟨⟨result, failures⟩, t⟩ := (p.eval call c).run s
  cases result <;> rfl

theorem carry_many
    (p : Peg N V α) :
    (many p).carry call c s =
      carryMany (p.carry call) c.rest c s := rfl

end Equations

theorem carryMany_nil
    (read : Cursor → σ → Outcome α × σ)
    (c : Cursor)
    (s : σ) :
    carryMany read [] c s =
      (⟨some ([], c), (read c s).1.failures⟩,
        (read c s).2) := rfl

theorem carryMany_cons
    (read : Cursor → σ → Outcome α × σ)
    (x : Char)
    (bound : List Char)
    (c : Cursor)
    (s : σ) :
    carryMany read (x :: bound) c s =
      match (read c s).1.result with
      | none =>
          (⟨some ([], c), (read c s).1.failures⟩,
            (read c s).2)
      | some (a, d) =>
          let t := carryMany read bound d (read c s).2
          (⟨t.1.result.map (fun v => (a :: v.1, v.2)),
            (read c s).1.failures.join t.1.failures⟩,
            t.2) := by
  simp only [carryMany, readMany, StateT.run_bind]
  simp only [Id.run, bind, pure, StateT.run]
  split <;> simp_all <;> rfl

------------------------------------------------------------
-- Calls That Are Reported
------------------------------------------------------------

/- Does the expression make no calls? -/
def callFree : {α : Type} → Peg N V α → Bool
  | _, .literal _ => true
  | _, .char _ => true
  | _, .succeed _ => true
  | _, .fail _ => true
  | _, .seq p q => p.callFree && q.callFree
  | _, .check _ p => p.callFree
  | _, .choice p q => p.callFree && q.callFree
  | _, .many p => p.callFree
  | _, .quiet p => p.callFree
  | _, .absent p => p.callFree
  | _, .call _ => false

/-
  Are the failures of all calls reported?  Nothing is
  reported of what is quiet, or has to be absent.
-/
def calm : {α : Type} → Peg N V α → Bool
  | _, .literal _ => true
  | _, .char _ => true
  | _, .succeed _ => true
  | _, .fail _ => true
  | _, .seq p q => p.calm && q.calm
  | _, .check _ p => p.calm
  | _, .choice p q => p.calm && q.calm
  | _, .many p => p.calm
  | _, .quiet p => p.callFree
  | _, .absent p => p.callFree
  | _, .call _ => true

section

variable {m : Type → Type} [Monad m] [LawfulMonad m]

theorem readMany_of_pure
    {read : Cursor → m (Outcome α)}
    {plain : Cursor → Outcome α}
    (hRead : ∀ c, read c = pure (plain c))
    (bound : List Char)
    (c : Cursor) :
    readMany read bound c =
      pure (outcomeMany plain bound c) := by
  induction bound generalizing c with
  | nil => rw [readMany, outcomeMany_nil, hRead, pure_bind]
  | cons x bound ih =>
      rw [readMany, outcomeMany_cons, hRead, pure_bind]
      cases hResult : (plain c).result with
      | none => simp only
      | some v => simp only [ih, pure_bind]

/-
  Without calls there are no effects, and the outcome is the
  same in every monad.
-/
theorem eval_of_callFree
    (call : N → Cursor → m (Outcome V))
    (plain : N → Cursor → Outcome V)
    (p : Peg N V α)
    (hFree : p.callFree = true)
    (c : Cursor) :
    p.eval call c = pure (p.outcome plain c) := by
  induction p generalizing c with
  | literal text => rfl
  | char cls => rfl
  | succeed a => rfl
  | fail label => rfl
  | seq p q ihp ihq =>
      simp only [callFree, Bool.and_eq_true] at hFree
      rw [eval, outcome_seq, ihp hFree.1, pure_bind]
      cases hResult : (p.outcome plain c).result with
      | none => simp only
      | some v => simp only [ihq hFree.2, pure_bind]
  | check f p ih =>
      rw [eval, outcome_check, ih hFree, pure_bind]
      cases hResult : (p.outcome plain c).result with
      | none => simp only
      | some v =>
          rcases v with ⟨a, d⟩
          cases hValue : f a <;> simp only [hValue]
  | choice p q ihp ihq =>
      simp only [callFree, Bool.and_eq_true] at hFree
      rw [eval, outcome_choice, ihp hFree.1, pure_bind]
      cases hResult : (p.outcome plain c).result with
      | none => simp only [ihq hFree.2, pure_bind]
      | some v => simp only
  | many p ih =>
      rw [eval, outcome_many]
      exact readMany_of_pure (ih hFree) _ c
  | quiet p ih =>
      rw [eval, outcome_quiet, ih hFree, pure_bind]
  | absent p ih =>
      rw [eval, outcome_absent, ih hFree, pure_bind]
      cases hResult : (p.outcome plain c).result <;> simp only
  | call n => simp [callFree] at hFree

end

/- Without calls there is no use of the state. -/
theorem carry_of_callFree
    (call : N → Cursor → StateM σ (Outcome V))
    (plain : N → Cursor → Outcome V)
    (p : Peg N V α)
    (hFree : p.callFree = true)
    (c : Cursor)
    (s : σ) :
    p.carry call c s = (p.outcome plain c, s) := by
  rw [carry, eval_of_callFree call plain p hFree]
  rfl

end Peg

------------------------------------------------------------
-- What Memory Holds
------------------------------------------------------------

namespace Grammar

variable {N V : Type}
variable {α β : Type}
variable (g : Grammar N V)
variable (origin : Cursor)

/-
  Everything in memory about the text at `origin` is what a
  fresh reading gives, and the failures of that reading are
  on record.
-/
def Remembers
    (known : Failures)
    (memory : Memory V) : Prop :=
  ∀ n c r,
    g.remembered = some n → origin.Reaches c →
      memory[c.offset]? = some r →
        r = (g.reading n c).result ∧
          known.Covers (g.reading n c).failures

/-
  Given what is on record, one record of failures adds as
  much as another, and memory is in order after it.
-/
structure Records
    (known plain reported : Failures)
    (memory : Memory V) : Prop where
  covers :
    ∀ f : Failures, f.Covers known →
      (f.Covers reported ↔ f.Covers plain)
  remembers :
    g.Remembers origin (known.join reported) memory

/-
  A reading with memory retraces a plain one: it has the same
  result and, given what is on record, the same failures.
-/
structure Retraces
    (known : Failures)
    (plain : Outcome α)
    (run : Outcome α × Memory V) : Prop where
  result : run.1.result = plain.result
  records :
    g.Records origin known plain.failures run.1.failures run.2

variable {g}
variable {origin}

theorem Remembers.mono
    {known more : Failures}
    {memory : Memory V}
    (h : g.Remembers origin known memory)
    (hMore : more.Covers known) :
    g.Remembers origin more memory := by
  intro n c r hName hReaches hEntry
  have hFresh := h n c r hName hReaches hEntry
  exact ⟨hFresh.1, hMore.trans hFresh.2⟩

/- The same failures leave memory in order. -/
theorem Records.same
    {known failures : Failures}
    {memory : Memory V}
    (h : g.Remembers origin known memory) :
    g.Records origin known failures failures memory where
  covers := fun _ _ => Iff.rfl
  remembers := h.mono (Failures.join_covers_left _ _)

/- Two stretches of a reading, one after the other. -/
theorem Records.join
    {known plain plain' reported reported' : Failures}
    {memory memory' : Memory V}
    (hFirst : g.Records origin known plain reported memory)
    (hSecond :
      g.Records origin (known.join reported) plain' reported'
        memory') :
    g.Records origin known (plain.join plain')
      (reported.join reported') memory' where
  covers := by
    intro f hKnown
    rw [Failures.covers_join_iff, Failures.covers_join_iff,
      ← hFirst.covers f hKnown]
    apply and_congr_right
    intro hReported
    apply hSecond.covers
    rw [Failures.covers_join_iff]
    exact ⟨hKnown, hReported⟩
  remembers := by
    apply hSecond.remembers.mono
    have hAll :=
      Failures.Covers.refl
        (known.join (reported.join reported'))
    simp only [Failures.covers_join_iff] at hAll ⊢
    exact ⟨⟨hAll.1, hAll.2.1⟩, hAll.2.2⟩

------------------------------------------------------------
-- Expressions
------------------------------------------------------------

variable (g)
variable (origin)

/- Calls to a rule at a cursor retrace its plain reading. -/
def CallRetraces
    (call : N → Cursor → StateM (Memory V) (Outcome V))
    (n : N)
    (c : Cursor) : Prop :=
  ∀ known memory,
    g.Remembers origin known memory →
      g.Retraces origin known (g.reading n c)
        (Id.run ((call n c).run memory))

/-
  Calls retrace plain readings: to some rules at a cursor,
  and to all of them behind it.
-/
def RetracesFrom
    (allowed : N → Bool)
    (call : N → Cursor → StateM (Memory V) (Outcome V))
    (c : Cursor) : Prop :=
  (∀ n, allowed n = true → g.CallRetraces origin call n c) ∧
    ∀ n d, c.Advances d → g.CallRetraces origin call n d

variable {g}
variable {origin}

theorem RetracesFrom.advance
    {allowed : N → Bool}
    {call : N → Cursor → StateM (Memory V) (Outcome V)}
    {c d : Cursor}
    (h : g.RetracesFrom origin allowed call c)
    (hAdvances : c.Advances d) :
    g.RetracesFrom origin (fun _ => true) call d :=
  ⟨fun n _ => h.2 n d hAdvances,
    fun n e hNext =>
      h.2 n e (hAdvances.trans_reaches hNext.1)⟩

theorem carryMany_retraces
    {read : Cursor → Memory V → Outcome α × Memory V}
    {plain : Cursor → Outcome α}
    (hPlain :
      ∀ c a d, (plain c).result = some (a, d) → c.Reaches d)
    (bound : List Char)
    (c : Cursor)
    (hRead :
      ∀ d known memory, c.Reaches d →
        g.Remembers origin known memory →
          g.Retraces origin known (plain d) (read d memory))
    (known : Failures)
    (memory : Memory V)
    (hMemory : g.Remembers origin known memory) :
    g.Retraces origin known (Peg.outcomeMany plain bound c)
      (Peg.carryMany read bound c memory) := by
  induction bound generalizing c known memory with
  | nil =>
      have hHere := hRead c known memory (.refl c) hMemory
      rw [Peg.carryMany_nil, Peg.outcomeMany_nil]
      exact ⟨rfl, hHere.records⟩
  | cons x bound ih =>
      have hHere := hRead c known memory (.refl c) hMemory
      rw [Peg.carryMany_cons, Peg.outcomeMany_cons,
        hHere.result]
      cases hResult : (plain c).result with
      | none => exact ⟨rfl, hHere.records⟩
      | some v =>
          rcases v with ⟨a, d⟩
          have hReaches := hPlain c a d hResult
          have hRest :=
            ih d
              (fun e known memory hNext =>
                hRead e known memory (hReaches.trans hNext))
              _ _ hHere.records.remembers
          refine ⟨?_, hHere.records.join hRest.records⟩
          simp only [hRest.result]

/-
  A reading with memory retraces the plain reading of an
  expression, if the calls that it can make do.
-/
theorem carry_retraces
    [hGuarded : g.Guarded]
    {call : N → Cursor → StateM (Memory V) (Outcome V)}
    (p : Peg N V α)
    (hCalm : p.calm = true)
    (allowed : N → Bool)
    (c : Cursor)
    (hLeads : p.leads allowed = true)
    (hCalls : g.RetracesFrom origin allowed call c)
    (known : Failures)
    (memory : Memory V)
    (hMemory : g.Remembers origin known memory) :
    g.Retraces origin known (p.outcome g.reading c)
      (p.carry call c memory) := by
  induction p generalizing allowed c known memory with
  | literal text => exact ⟨rfl, .same hMemory⟩
  | char cls => exact ⟨rfl, .same hMemory⟩
  | succeed a => exact ⟨rfl, .same hMemory⟩
  | fail label => exact ⟨rfl, .same hMemory⟩
  | seq p q ihp ihq =>
      simp only [Peg.calm, Bool.and_eq_true] at hCalm
      simp only [Peg.leads, Bool.and_eq_true,
        Bool.or_eq_true, Bool.not_eq_true'] at hLeads
      have hP :=
        ihp hCalm.1 allowed c hLeads.1 hCalls known memory
          hMemory
      rw [Peg.carry_seq, Peg.outcome_seq, hP.result]
      cases hFirst : (p.outcome g.reading c).result with
      | none => exact ⟨rfl, hP.records⟩
      | some v =>
          rcases v with ⟨a, d⟩
          have hReaches :=
            Peg.outcome_reaches g.reading_advances p c a d
              hFirst
          have hQ :
              g.Retraces origin
                (known.join
                  (p.carry call c memory).1.failures)
                (q.outcome g.reading d)
                (q.carry call d
                  (p.carry call c memory).2) := by
            rcases hReaches.1.eq_or_advances with
              hSame | hAdvances
            · subst hSame
              rcases hLeads.2 with hNull | hSecond
              · have hLt := (hReaches.2 hNull).2
                omega
              · exact ihq hCalm.2 allowed c hSecond hCalls _ _
                  hP.records.remembers
            · exact ihq hCalm.2 _ d (Peg.leads_all q)
                (hCalls.advance hAdvances) _ _
                hP.records.remembers
          refine ⟨?_, hP.records.join hQ.records⟩
          simp only [hQ.result]
  | check f p ih =>
      have hP :=
        ih hCalm allowed c hLeads hCalls known memory hMemory
      rw [Peg.carry_check, Peg.outcome_check, hP.result]
      cases hFirst : (p.outcome g.reading c).result with
      | none => exact ⟨rfl, hP.records⟩
      | some v =>
          rcases v with ⟨a, d⟩
          cases hValue : f a with
          | ok b =>
              simp only [hValue]
              exact ⟨rfl, hP.records⟩
          | error label =>
              simp only [hValue]
              exact ⟨rfl,
                hP.records.join (.same hP.records.remembers)⟩
  | choice p q ihp ihq =>
      simp only [Peg.calm, Bool.and_eq_true] at hCalm
      simp only [Peg.leads, Bool.and_eq_true] at hLeads
      have hP :=
        ihp hCalm.1 allowed c hLeads.1 hCalls known memory
          hMemory
      rw [Peg.carry_choice, Peg.outcome_choice, hP.result]
      cases hFirst : (p.outcome g.reading c).result with
      | some v => exact ⟨rfl, hP.records⟩
      | none =>
          have hQ :=
            ihq hCalm.2 allowed c hLeads.2 hCalls _ _
              hP.records.remembers
          exact ⟨hQ.result, hP.records.join hQ.records⟩
  | many p ih =>
      rw [Peg.carry_many, Peg.outcome_many]
      refine carryMany_retraces ?_ _ c ?_ known memory hMemory
      · intro d a e hResult
        exact
          (Peg.outcome_reaches g.reading_advances p d a e
            hResult).1
      · intro d known memory hReaches hMemory
        rcases hReaches.eq_or_advances with
          hSame | hAdvances
        · subst hSame
          exact ih hCalm allowed c hLeads hCalls known memory
            hMemory
        · exact ih hCalm _ d (Peg.leads_all p)
            (hCalls.advance hAdvances) known memory hMemory
  | quiet p ih =>
      rw [Peg.carry_of_callFree call g.reading (.quiet p) hCalm]
      exact ⟨rfl, .same hMemory⟩
  | absent p ih =>
      rw [Peg.carry_of_callFree call g.reading (.absent p) hCalm]
      exact ⟨rfl, .same hMemory⟩
  | call n => exact hCalls.1 n hLeads known memory hMemory

------------------------------------------------------------
-- Verdicts
------------------------------------------------------------

/-
  Two verdicts on a text are the same: the same value, or
  failures that are alike.
-/
inductive SameVerdict :
    Except Failures α → Except Failures α → Prop where
  | accepted (a : α) : SameVerdict (.ok a) (.ok a)
  | refused {f g : Failures} (h : f.Alike g) :
      SameVerdict (.error f) (.error g)

theorem SameVerdict.eq_ok_iff
    {x y : Except Failures α}
    (h : SameVerdict x y)
    (a : α) : x = .ok a ↔ y = .ok a := by
  cases h with
  | accepted b => rfl
  | refused h => simp

theorem SameVerdict.of_conclude
    {r s : Outcome α}
    (hResult : r.result = s.result)
    (hFailures : r.failures.Alike s.failures) :
    SameVerdict (conclude r) (conclude s) := by
  unfold conclude
  rw [hResult]
  cases s.result with
  | none => exact .refused hFailures
  | some v =>
      rcases v with ⟨a, rest, offset⟩
      cases rest with
      | nil => exact .accepted a
      | cons x xs => exact .refused (hFailures.join _)

------------------------------------------------------------
-- Rules
------------------------------------------------------------

/-
  Every rule reports the failures of its calls.
-/
class Calm
    (g : Grammar N V) : Prop where
  rule_calm : ∀ n, (g.rule n).calm = true

/-
  An entry for one cursor keeps memory in order: no other
  cursor has the same offset.
-/
theorem Remembers.insert
    {known : Failures}
    {memory : Memory V}
    {n : N}
    {c : Cursor}
    (hMemory : g.Remembers origin known memory)
    (hName : g.remembered = some n)
    (hReaches : origin.Reaches c)
    (hKnown : known.Covers (g.reading n c).failures) :
    g.Remembers origin known
      (memory.insert c.offset (g.reading n c).result) := by
  intro m d r hName' hReaches' hEntry
  have hSameName : n = m := by
    rw [hName] at hName'
    exact Option.some.inj hName'
  subst hSameName
  rw [Std.TreeMap.getElem?_insert] at hEntry
  split at hEntry
  · rename_i hOffset
    have hSame : c = d :=
      hReaches.eq_of_offset_eq hReaches'
        (Nat.compare_eq_eq.mp hOffset)
    subst hSame
    exact ⟨(Option.some.inj hEntry).symm, hKnown⟩
  · exact hMemory n d r hName hReaches' hEntry

variable [DecidableEq N]

theorem rememberingAnswer_run
    (k : Nat)
    (n : N)
    (c : Cursor)
    (memory : Memory V) :
    Id.run ((g.rememberingAnswer (k + 1) n c).run memory) =
      if g.remembered = some n then
        match memory[c.offset]? with
        | some r => (⟨r, .empty⟩, memory)
        | none =>
            let run :=
              (g.rule n).carry (g.rememberingAnswer k) c
                memory
            (run.1, run.2.insert c.offset run.1.result)
      else
        (g.rule n).carry (g.rememberingAnswer k) c memory := by
  rw [rememberingAnswer]
  by_cases hName : g.remembered = some n
  · simp only [hName, if_true, StateT.run_bind]
    cases hEntry : memory[c.offset]? <;>
      simp [hEntry, Peg.carry, Id.run, bind, pure] <;> rfl
  · simp only [hName, if_false]
    rfl

theorem rememberingAnswer_retraces
    [hGuarded : g.Guarded]
    [hCalm : g.Calm]
    (k : Nat)
    (n : N)
    (c : Cursor)
    (hNeed : g.need n c ≤ k)
    (hReaches : origin.Reaches c) :
    g.CallRetraces origin (g.rememberingAnswer k) n c := by
  induction k generalizing n c with
  | zero => simp [need] at hNeed
  | succ k ih =>
      intro known memory hMemory
      have hCalls :
          g.RetracesFrom origin
            (fun m =>
              decide (hGuarded.rank m < hGuarded.rank n))
            (g.rememberingAnswer k) c := by
        constructor
        · intro m hRank
          have hLower : hGuarded.rank m < hGuarded.rank n :=
            of_decide_eq_true hRank
          apply ih m c _ hReaches
          unfold need at *
          omega
        · intro m d hAdvances
          have hLess := g.need_lt_of_advances hAdvances m n
          apply ih m d _ (hReaches.trans hAdvances.1)
          omega
      have hRule :=
        carry_retraces (g.rule n) (hCalm.rule_calm n) _ c
          (hGuarded.rule_leads n) hCalls known memory hMemory
      rw [← g.reading_eq] at hRule
      rw [rememberingAnswer_run]
      by_cases hName : g.remembered = some n
      · rw [if_pos hName]
        cases hEntry : memory[c.offset]? with
        | some r =>
            -- The failures of what is in memory are on record.
            have hFresh := hMemory n c r hName hReaches hEntry
            refine ⟨hFresh.1, ⟨fun f hKnown => ?_, ?_⟩⟩
            · simp only [Failures.covers_empty, true_iff]
              exact hKnown.trans hFresh.2
            · exact (Records.same hMemory).remembers
        | none =>
            refine ⟨hRule.result,
              ⟨hRule.records.covers, ?_⟩⟩
            simp only [hRule.result]
            apply hRule.records.remembers.insert hName hReaches
            exact
              (hRule.records.covers _
                (Failures.join_covers_left _ _)).mp
                (Failures.join_covers_right _ _)
      · rw [if_neg hName]
        exact hRule

------------------------------------------------------------
-- Whole Texts
------------------------------------------------------------

variable (g)
variable [hGuarded : g.Guarded]
variable [hCalm : g.Calm]

theorem start_retraces
    (p : Peg N V α)
    (hCalmly : p.calm = true)
    (text : List Char) :
    let c := Cursor.start text
    g.Retraces c .empty (p.outcome g.reading c)
      (p.carry (g.rememberingAnswer (g.depth c)) c {}) := by
  intro c
  apply carry_retraces p hCalmly _ c (Peg.leads_all p)
  · constructor
    · intro n _
      exact rememberingAnswer_retraces _ n c
        (g.need_le_depth n c) (.refl c)
    · intro n d hAdvances
      apply rememberingAnswer_retraces _ n d _ hAdvances.1
      exact Nat.le_trans
        (Nat.le_of_lt (g.need_lt_of_advances hAdvances n n))
        (g.need_le_depth n c)
  · intro n d r _ _ hEntry
    simp at hEntry

/-
  Memory does not change the verdict on a text.  Nothing is on
  record at first, so what the reading with memory reports in
  the end is all that the plain one reports.
-/
theorem parse_sameVerdict
    (p : Peg N V α)
    (hCalmly : p.calm = true)
    (text : List Char) :
    SameVerdict (g.parse p text) (g.parsePlainly p text) := by
  have hRun := g.start_retraces p hCalmly text
  have hCovers :=
    fun f => hRun.records.covers f (Failures.covers_empty f)
  rw [parsePlainly_eq]
  apply SameVerdict.of_conclude hRun.result
  rw [Failures.alike_iff_covers]
  exact ⟨(hCovers _).mp (.refl _), (hCovers _).mpr (.refl _)⟩

/- Memory does not change what a text is read as. -/
theorem parse_eq_ok_iff
    (p : Peg N V α)
    (hCalmly : p.calm = true)
    (text : List Char)
    (a : α) :
    g.parse p text = .ok a ↔ g.parsePlainly p text = .ok a :=
  (g.parse_sameVerdict p hCalmly text).eq_ok_iff a

end Grammar

end TypeGraft
