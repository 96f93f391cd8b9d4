import TypeGraft.Peg.Run

/-
  Grammars whose rules read a character before they call one
  another in a circle.

  Answering calls takes a bound on how deep they nest.  In a
  guarded grammar the bound that a text suggests is always
  enough, so the rules have a meaning without any bound:
  `Grammar.reading`.

  Main declarations:
    * `Cursor.Reaches` and `Cursor.Advances`
    * `Peg.nullable` and `Peg.leads`
    * `Peg.outcome_reaches`
    * `Peg.outcome_congr`
    * `Grammar.Guarded`
    * `Grammar.reading_eq`
    * `Grammar.parsePlainly_eq`
-/

namespace TypeGraft

------------------------------------------------------------
-- Cursors on One Text
------------------------------------------------------------

namespace Cursor

/- Reading some text leads from one cursor to another. -/
def Reaches
    (c d : Cursor) : Prop :=
  ∃ read, c.rest = read ++ d.rest ∧
    d.offset = c.offset + byteLength read

/- Reading at least one character does. -/
def Advances
    (c d : Cursor) : Prop :=
  c.Reaches d ∧ d.rest.length < c.rest.length

theorem byteLength_append
    (xs ys : List Char) :
    byteLength (xs ++ ys) =
      byteLength xs + byteLength ys := by
  induction xs with
  | nil => simp [byteLength]
  | cons x xs ih =>
      simp [byteLength, ih]
      omega

theorem Reaches.refl
    (c : Cursor) : c.Reaches c :=
  ⟨[], by simp [byteLength]⟩

theorem Reaches.trans
    {c d e : Cursor}
    (hFirst : c.Reaches d)
    (hSecond : d.Reaches e) : c.Reaches e := by
  rcases hFirst with ⟨xs, hRest, hOffset⟩
  rcases hSecond with ⟨ys, hRest', hOffset'⟩
  refine ⟨xs ++ ys, ?_, ?_⟩
  · simp [hRest, hRest']
  · rw [byteLength_append]
    omega

theorem Reaches.length_le
    {c d : Cursor}
    (h : c.Reaches d) : d.rest.length ≤ c.rest.length := by
  rcases h with ⟨xs, hRest, -⟩
  simp [hRest]

theorem Advances.trans_reaches
    {c d e : Cursor}
    (hFirst : c.Advances d)
    (hSecond : d.Reaches e) : c.Advances e := by
  refine ⟨hFirst.1.trans hSecond, ?_⟩
  have hLe := hSecond.length_le
  have hLt := hFirst.2
  omega

theorem Reaches.trans_advances
    {c d e : Cursor}
    (hFirst : c.Reaches d)
    (hSecond : d.Advances e) : c.Advances e := by
  refine ⟨hFirst.trans hSecond.1, ?_⟩
  have hLe := hFirst.length_le
  have hLt := hSecond.2
  omega

/- What was read is empty, or a character was read. -/
theorem Reaches.eq_or_advances
    {c d : Cursor}
    (h : c.Reaches d) : c = d ∨ c.Advances d := by
  rcases h with ⟨xs, hRest, hOffset⟩
  cases xs with
  | nil =>
      left
      cases c
      cases d
      simp_all [byteLength]
  | cons x xs =>
      right
      refine ⟨⟨x :: xs, hRest, hOffset⟩, ?_⟩
      rw [hRest, List.length_append, List.length_cons]
      omega

theorem dropLiteral_eq_some_iff
    (text xs ys : List Char) :
    dropLiteral text xs = some ys ↔ xs = text ++ ys := by
  induction text generalizing xs with
  | nil => simp [dropLiteral, eq_comm]
  | cons l text ih =>
      cases xs with
      | nil => simp [dropLiteral]
      | cons x xs =>
          by_cases hHead : l = x
          · simp [dropLiteral, hHead, ih]
          · simp [dropLiteral, hHead, Ne.symm hHead]

theorem literal?_reaches
    {c d : Cursor}
    {text : List Char}
    (h : c.literal? text = some d) :
    c.Reaches d ∧ (text ≠ [] → c.Advances d) := by
  rcases Option.map_eq_some_iff.mp h with ⟨ys, hDrop, hEq⟩
  have hRest := (dropLiteral_eq_some_iff _ _ _).mp hDrop
  have hReaches : c.Reaches d := by
    subst hEq
    exact ⟨text, hRest, rfl⟩
  refine ⟨hReaches, fun hText => ⟨hReaches, ?_⟩⟩
  subst hEq
  have hPos := List.length_pos_iff.mpr hText
  simp [hRest]
  omega

theorem step_advances
    {c : Cursor}
    {x : Char}
    {xs : List Char}
    (h : c.rest = x :: xs) : c.Advances c.step := by
  refine ⟨⟨[x], ?_, ?_⟩, ?_⟩
  · simp [step, h]
  · simp [step, h, byteLength]
  · simp [step, h]

end Cursor

------------------------------------------------------------
-- Outcomes
------------------------------------------------------------

namespace Peg

variable {N V : Type}
variable {α β : Type}

/- Read an expression, given the outcomes of all calls. -/
def outcome
    (call : N → Cursor → Outcome V)
    (p : Peg N V α)
    (c : Cursor) : Outcome α :=
  Id.run (p.eval (m := Id) call c)

/- Repeat a reading, given its outcomes. -/
def outcomeMany
    (read : Cursor → Outcome α)
    (bound : List Char)
    (c : Cursor) : Outcome (List α) :=
  Id.run (readMany (m := Id) read bound c)

section Equations

variable (call : N → Cursor → Outcome V)
variable (c : Cursor)

@[simp] theorem outcome_literal
    (text : List Char) :
    (literal text : Peg N V Unit).outcome call c =
      readLiteral text c := rfl

@[simp] theorem outcome_char
    (cls : CharClass) :
    (char cls : Peg N V Char).outcome call c =
      readChar cls c := rfl

@[simp] theorem outcome_succeed
    (a : α) :
    (succeed a : Peg N V α).outcome call c =
      ⟨some (a, c), .empty⟩ := rfl

@[simp] theorem outcome_fail
    (label : String) :
    (fail label : Peg N V α).outcome call c =
      ⟨none, .one c.offset label⟩ := rfl

theorem outcome_seq
    (p : Peg N V α)
    (q : Peg N V β) :
    (seq p q).outcome call c =
      match (p.outcome call c).result with
      | none => ⟨none, (p.outcome call c).failures⟩
      | some (a, d) =>
          ⟨(q.outcome call d).result.map
              (fun v => ((a, v.1), v.2)),
            (p.outcome call c).failures.join
              (q.outcome call d).failures⟩ := by
  simp only [outcome, eval, Id.run, bind, pure]
  split <;> simp_all

theorem outcome_check
    (f : α → Except String β)
    (p : Peg N V α) :
    (check f p).outcome call c =
      match (p.outcome call c).result with
      | none => ⟨none, (p.outcome call c).failures⟩
      | some (a, d) =>
          match f a with
          | .ok b => ⟨some (b, d), (p.outcome call c).failures⟩
          | .error label =>
              ⟨none,
                (p.outcome call c).failures.join
                  (.one d.offset label)⟩ := by
  simp only [outcome, eval, Id.run, bind, pure]
  split
  · simp_all
  · rename_i a d hResult
    cases hValue : f a <;> simp_all

theorem outcome_choice
    (p q : Peg N V α) :
    (choice p q).outcome call c =
      match (p.outcome call c).result with
      | some v => ⟨some v, (p.outcome call c).failures⟩
      | none =>
          ⟨(q.outcome call c).result,
            (p.outcome call c).failures.join
              (q.outcome call c).failures⟩ := by
  simp only [outcome, eval, Id.run, bind, pure]
  split <;> simp_all

@[simp] theorem outcome_many
    (p : Peg N V α) :
    (many p).outcome call c =
      outcomeMany (p.outcome call) c.rest c := rfl

@[simp] theorem outcome_quiet
    (p : Peg N V α) :
    (quiet p).outcome call c =
      ⟨(p.outcome call c).result, .empty⟩ := rfl

theorem outcome_absent
    (p : Peg N V α) :
    (absent p).outcome call c =
      match (p.outcome call c).result with
      | some _ => ⟨none, .empty⟩
      | none => ⟨some ((), c), .empty⟩ := by
  simp only [outcome, eval, Id.run, bind, pure]
  split <;> simp_all

@[simp] theorem outcome_call
    (n : N) :
    (Peg.call n : Peg N V V).outcome call c = call n c := rfl

end Equations

theorem outcomeMany_nil
    (read : Cursor → Outcome α)
    (c : Cursor) :
    outcomeMany read [] c =
      ⟨some ([], c), (read c).failures⟩ := rfl

theorem outcomeMany_cons
    (read : Cursor → Outcome α)
    (x : Char)
    (bound : List Char)
    (c : Cursor) :
    outcomeMany read (x :: bound) c =
      match (read c).result with
      | none => ⟨some ([], c), (read c).failures⟩
      | some (a, d) =>
          ⟨(outcomeMany read bound d).result.map
              (fun v => (a :: v.1, v.2)),
            (read c).failures.join
              (outcomeMany read bound d).failures⟩ := by
  simp only [outcomeMany, readMany, Id.run, bind, pure]
  split <;> simp_all

------------------------------------------------------------
-- What Is Read First
------------------------------------------------------------

/-
  May the expression match without reading a character?
  Rules that are called may not.
-/
def nullable : {α : Type} → Peg N V α → Bool
  | _, .literal text => text.isEmpty
  | _, .char _ => false
  | _, .succeed _ => true
  | _, .fail _ => false
  | _, .seq p q => p.nullable && q.nullable
  | _, .check _ p => p.nullable
  | _, .choice p q => p.nullable || q.nullable
  | _, .many _ => true
  | _, .quiet p => p.nullable
  | _, .absent _ => true
  | _, .call _ => false

/-
  Does the expression call only some of the rules before it
  has read a character?
-/
def leads
    (allowed : N → Bool) : {α : Type} → Peg N V α → Bool
  | _, .literal _ => true
  | _, .char _ => true
  | _, .succeed _ => true
  | _, .fail _ => true
  | _, .seq p q =>
      p.leads allowed && (!p.nullable || q.leads allowed)
  | _, .check _ p => p.leads allowed
  | _, .choice p q => p.leads allowed && q.leads allowed
  | _, .many p => p.leads allowed
  | _, .quiet p => p.leads allowed
  | _, .absent p => p.leads allowed
  | _, .call n => allowed n

theorem leads_all
    (p : Peg N V α) : p.leads (fun _ => true) = true := by
  induction p with
  | seq p q ihp ihq => simp [leads, ihp, ihq]
  | choice p q ihp ihq => simp [leads, ihp, ihq]
  | check f p ih => simpa [leads] using ih
  | many p ih => simpa [leads] using ih
  | quiet p ih => simpa [leads] using ih
  | absent p ih => simpa [leads] using ih
  | _ => rfl

/- Every call that matches reads a character. -/
def CallsAdvance
    (call : N → Cursor → Outcome V) : Prop :=
  ∀ n c v d, (call n c).result = some (v, d) → c.Advances d

theorem outcomeMany_reaches
    {read : Cursor → Outcome α}
    (hRead :
      ∀ c a d, (read c).result = some (a, d) → c.Reaches d)
    (bound : List Char)
    (c : Cursor) :
    ∃ as d, (outcomeMany read bound c).result = some (as, d) ∧
      c.Reaches d := by
  induction bound generalizing c with
  | nil => exact ⟨[], c, rfl, .refl c⟩
  | cons x bound ih =>
      rw [outcomeMany_cons]
      cases hResult : (read c).result with
      | none => exact ⟨[], c, rfl, .refl c⟩
      | some v =>
          rcases v with ⟨a, d⟩
          rcases ih d with ⟨as, e, hMany, hReaches⟩
          refine ⟨a :: as, e, ?_, ?_⟩
          · simp [hMany]
          · exact (hRead c a d hResult).trans hReaches

/-
  An expression reads a stretch of the text, and one that is
  not nullable reads at least a character.
-/
theorem outcome_reaches
    {call : N → Cursor → Outcome V}
    (hCall : CallsAdvance call)
    (p : Peg N V α)
    (c : Cursor)
    (a : α)
    (d : Cursor)
    (h : (p.outcome call c).result = some (a, d)) :
    c.Reaches d ∧ (p.nullable = false → c.Advances d) := by
  induction p generalizing c d with
  | literal text =>
      rw [outcome_literal] at h
      unfold readLiteral at h
      cases hLiteral : c.literal? text with
      | none => simp [hLiteral] at h
      | some e =>
          have hEq : e = d := by simpa [hLiteral] using h
          subst hEq
          have hReaches := Cursor.literal?_reaches hLiteral
          refine ⟨hReaches.1, fun hNull => hReaches.2 ?_⟩
          simpa [nullable] using hNull
  | char cls =>
      rw [outcome_char] at h
      unfold readChar at h
      cases hRest : c.rest with
      | nil => simp [hRest] at h
      | cons x xs =>
          by_cases hAccepts : cls.accepts x
          · have hEq : c.step = d := by
              simpa [hRest, hAccepts] using
                (congrArg (Option.map Prod.snd) h)
            have hStep := Cursor.step_advances hRest
            rw [hEq] at hStep
            exact ⟨hStep.1, fun _ => hStep⟩
          · simp [hRest, hAccepts] at h
  | succeed b =>
      have hEq : c = d := by simpa using (congrArg (Option.map Prod.snd) h)
      subst hEq
      exact ⟨.refl c, by simp [nullable]⟩
  | fail label => simp at h
  | seq p q ihp ihq =>
      rw [outcome_seq] at h
      cases hFirst : (p.outcome call c).result with
      | none => simp [hFirst] at h
      | some v =>
          rcases v with ⟨b, e⟩
          simp only [hFirst] at h
          rcases Option.map_eq_some_iff.mp h with
            ⟨w, hSecond, hEq⟩
          rcases w with ⟨b', e'⟩
          have hEnd : e' = d := congrArg Prod.snd hEq
          subst hEnd
          have hP := ihp c b e hFirst
          have hQ := ihq e b' e' hSecond
          refine ⟨hP.1.trans hQ.1, fun hNull => ?_⟩
          rcases Bool.and_eq_false_iff.mp hNull with
            hLeft | hRight
          · exact (hP.2 hLeft).trans_reaches hQ.1
          · exact hP.1.trans_advances (hQ.2 hRight)
  | check f p ih =>
      rw [outcome_check] at h
      cases hFirst : (p.outcome call c).result with
      | none => simp [hFirst] at h
      | some v =>
          rcases v with ⟨b, e⟩
          cases hValue : f b with
          | error label => simp [hFirst, hValue] at h
          | ok b' =>
              have hEnd : e = d := by
                simpa [hFirst, hValue] using
                  (congrArg (Option.map Prod.snd) h)
              subst hEnd
              exact ih c b e hFirst
  | choice p q ihp ihq =>
      rw [outcome_choice] at h
      cases hFirst : (p.outcome call c).result with
      | some v =>
          simp only [hFirst] at h
          have hP := ihp c a d (hFirst.trans h)
          refine ⟨hP.1, fun hNull => hP.2 ?_⟩
          simp_all [nullable]
      | none =>
          simp only [hFirst] at h
          have hQ := ihq c a d h
          refine ⟨hQ.1, fun hNull => hQ.2 ?_⟩
          simp_all [nullable]
  | many p ih =>
      rw [outcome_many] at h
      rcases outcomeMany_reaches
          (fun c a d h => (ih c a d h).1) c.rest c with
        ⟨as, e, hMany, hReaches⟩
      have hEnd : e = d := by
        rw [hMany] at h
        exact congrArg Prod.snd (Option.some.inj h)
      subst hEnd
      exact ⟨hReaches, by simp [nullable]⟩
  | quiet p ih => exact ih c a d h
  | absent p ih =>
      rw [outcome_absent] at h
      cases hFirst : (p.outcome call c).result with
      | some v => simp [hFirst] at h
      | none =>
          have hEq : c = d := by
            simpa [hFirst] using
              (congrArg (Option.map Prod.snd) h)
          subst hEq
          exact ⟨.refl c, by simp [nullable]⟩
  | call n =>
      have hAdvances := hCall n c a d h
      exact ⟨hAdvances.1, fun _ => hAdvances⟩

------------------------------------------------------------
-- Calls That Matter
------------------------------------------------------------

/-
  Two ways to answer calls agree on some of the rules at a
  cursor, and on all of them behind it.
-/
def AgreeFrom
    (allowed : N → Bool)
    (f g : N → Cursor → Outcome V)
    (c : Cursor) : Prop :=
  (∀ n, allowed n = true → f n c = g n c) ∧
    ∀ n d, c.Advances d → f n d = g n d

theorem AgreeFrom.advance
    {allowed : N → Bool}
    {f g : N → Cursor → Outcome V}
    {c d : Cursor}
    (h : AgreeFrom allowed f g c)
    (hAdvances : c.Advances d) :
    AgreeFrom (fun _ => true) f g d :=
  ⟨fun n _ => h.2 n d hAdvances,
    fun n e hNext =>
      h.2 n e (hAdvances.trans_reaches hNext.1)⟩

theorem outcomeMany_congr
    {f g : Cursor → Outcome α}
    (hRead :
      ∀ c a d, (f c).result = some (a, d) → c.Reaches d)
    (bound : List Char)
    (c : Cursor)
    (hAgree : ∀ d, c.Reaches d → f d = g d) :
    outcomeMany f bound c = outcomeMany g bound c := by
  induction bound generalizing c with
  | nil =>
      rw [outcomeMany_nil, outcomeMany_nil,
        hAgree c (.refl c)]
  | cons x bound ih =>
      rw [outcomeMany_cons, outcomeMany_cons,
        ← hAgree c (.refl c)]
      cases hResult : (f c).result with
      | none => rfl
      | some v =>
          rcases v with ⟨a, d⟩
          have hReaches := hRead c a d hResult
          have hRest :=
            ih d (fun e hNext =>
              hAgree e (hReaches.trans hNext))
          simp only [hRest]

/-
  The outcome of an expression depends only on the calls that
  it can make: those that it leads with at the cursor, and
  any behind it.
-/
theorem outcome_congr
    {f g : N → Cursor → Outcome V}
    (hCall : CallsAdvance f)
    (p : Peg N V α)
    (allowed : N → Bool)
    (c : Cursor)
    (hLeads : p.leads allowed = true)
    (hAgree : AgreeFrom allowed f g c) :
    p.outcome f c = p.outcome g c := by
  induction p generalizing allowed c with
  | literal text => rfl
  | char cls => rfl
  | succeed a => rfl
  | fail label => rfl
  | seq p q ihp ihq =>
      simp only [leads, Bool.and_eq_true, Bool.or_eq_true,
        Bool.not_eq_true'] at hLeads
      have hP := ihp allowed c hLeads.1 hAgree
      rw [outcome_seq, outcome_seq, ← hP]
      cases hFirst : (p.outcome f c).result with
      | none => rfl
      | some v =>
          rcases v with ⟨a, d⟩
          have hReaches :=
            outcome_reaches hCall p c a d hFirst
          have hQ : q.outcome f d = q.outcome g d := by
            rcases hReaches.1.eq_or_advances with
              hSame | hAdvances
            · subst hSame
              rcases hLeads.2 with hNull | hSecond
              · have hLt := (hReaches.2 hNull).2
                omega
              · exact ihq allowed c hSecond hAgree
            · exact ihq _ d (leads_all q)
                (hAgree.advance hAdvances)
          simp only [hQ]
  | check h p ih =>
      rw [outcome_check, outcome_check,
        ih allowed c hLeads hAgree]
  | choice p q ihp ihq =>
      simp only [leads, Bool.and_eq_true] at hLeads
      rw [outcome_choice, outcome_choice,
        ihp allowed c hLeads.1 hAgree,
        ihq allowed c hLeads.2 hAgree]
  | many p ih =>
      rw [outcome_many, outcome_many]
      apply outcomeMany_congr
      · intro d a e hResult
        exact (outcome_reaches hCall p d a e hResult).1
      · intro d hReaches
        rcases hReaches.eq_or_advances with
          hSame | hAdvances
        · subst hSame
          exact ih allowed c hLeads hAgree
        · exact ih _ d (leads_all p)
            (hAgree.advance hAdvances)
  | quiet p ih =>
      rw [outcome_quiet, outcome_quiet,
        ih allowed c hLeads hAgree]
  | absent p ih =>
      rw [outcome_absent, outcome_absent,
        ih allowed c hLeads hAgree]
  | call n => exact hAgree.1 n hLeads

end Peg

------------------------------------------------------------
-- Guarded Grammars
------------------------------------------------------------

namespace Grammar

variable {N V : Type}
variable {α : Type}

/-
  Every rule reads a character, and before that it calls only
  rules of a lower rank.
-/
class Guarded
    (g : Grammar N V) where
  rank : N → Nat
  rank_lt : ∀ n, rank n < g.height
  rule_reads : ∀ n, (g.rule n).nullable = false
  rule_leads :
    ∀ n,
      (g.rule n).leads (fun m => decide (rank m < rank n)) =
        true

variable (g : Grammar N V)

@[simp] theorem answer_succ
    (k : Nat)
    (n : N)
    (c : Cursor) :
    g.answer (k + 1) n c = (g.rule n).outcome (g.answer k) c :=
  rfl

variable [hGuarded : g.Guarded]

/- How deep the calls of a rule at a cursor can nest. -/
def need
    (n : N)
    (c : Cursor) : Nat :=
  g.height * c.rest.length + hGuarded.rank n + 1

theorem answer_advances
    (k : Nat) : Peg.CallsAdvance (g.answer k) := by
  induction k with
  | zero =>
      intro n c v d h
      simp [answer] at h
  | succ k ih =>
      intro n c v d h
      rw [answer_succ] at h
      exact (Peg.outcome_reaches ih _ c v d h).2
        (hGuarded.rule_reads n)

/- Behind a cursor there is less need. -/
theorem need_lt_of_advances
    {c d : Cursor}
    (h : c.Advances d)
    (m n : N) : g.need m d < g.need n c := by
  have hRank := hGuarded.rank_lt m
  have hLt := h.2
  have hMul :
      g.height * (d.rest.length + 1) ≤
        g.height * c.rest.length :=
    Nat.mul_le_mul_left _ hLt
  rw [Nat.mul_succ] at hMul
  unfold need
  omega

/- Any two bounds that cover the need give the same answer. -/
theorem answer_eq_answer
    (j k : Nat)
    (n : N)
    (c : Cursor)
    (hj : g.need n c ≤ j)
    (hk : g.need n c ≤ k) :
    g.answer j n c = g.answer k n c := by
  induction j generalizing k n c with
  | zero => simp [need] at hj
  | succ j ih =>
      cases k with
      | zero => simp [need] at hk
      | succ k =>
          rw [answer_succ, answer_succ]
          apply Peg.outcome_congr (g.answer_advances j) _ _ c
            (hGuarded.rule_leads n)
          constructor
          · intro m hRank
            have hLower : hGuarded.rank m < hGuarded.rank n :=
              of_decide_eq_true hRank
            apply ih
            · unfold need at *
              omega
            · unfold need at *
              omega
          · intro m d hAdvances
            have hNeed := g.need_lt_of_advances hAdvances m n
            apply ih
            · omega
            · omega

omit hGuarded in
/- What a rule reads at a cursor. -/
def reading
    (n : N)
    (c : Cursor) : Outcome V :=
  g.answer (g.depth c) n c

theorem need_le_depth
    (n : N)
    (c : Cursor) : g.need n c ≤ g.depth c := by
  have hRank := hGuarded.rank_lt n
  unfold need depth
  rw [Nat.mul_succ]
  omega

theorem answer_eq_reading
    {k : Nat}
    {n : N}
    {c : Cursor}
    (h : g.need n c ≤ k) :
    g.answer k n c = g.reading n c :=
  g.answer_eq_answer _ _ n c h (g.need_le_depth n c)

theorem reading_advances :
    Peg.CallsAdvance g.reading :=
  fun n c v d h => g.answer_advances _ n c v d h

/- A call reads what its rule reads. -/
theorem reading_eq
    (n : N)
    (c : Cursor) :
    g.reading n c = (g.rule n).outcome g.reading c := by
  rw [← g.answer_eq_reading (Nat.le_succ (g.need n c)),
    answer_succ]
  apply Peg.outcome_congr (g.answer_advances _) _ _ c
    (hGuarded.rule_leads n)
  constructor
  · intro m hRank
    have hLower : hGuarded.rank m < hGuarded.rank n :=
      of_decide_eq_true hRank
    apply g.answer_eq_reading
    unfold need
    omega
  · intro m d hAdvances
    apply g.answer_eq_reading
    exact Nat.le_of_lt (g.need_lt_of_advances hAdvances m n)

/-
  Reading a whole text needs no bound on the calls either.
-/
theorem outcome_answer_depth
    (p : Peg N V α)
    (c : Cursor) :
    p.outcome (g.answer (g.depth c)) c =
      p.outcome g.reading c := by
  apply Peg.outcome_congr (g.answer_advances _) p _ c
    (Peg.leads_all p)
  constructor
  · intro n _
    rfl
  · intro n d hAdvances
    apply g.answer_eq_reading
    exact Nat.le_trans
      (Nat.le_of_lt (g.need_lt_of_advances hAdvances n n))
      (g.need_le_depth n c)

theorem parsePlainly_eq
    (p : Peg N V α)
    (text : List Char) :
    g.parsePlainly p text =
      conclude (p.outcome g.reading (Cursor.start text)) := by
  rw [← outcome_answer_depth]
  rfl

end Grammar

end TypeGraft
