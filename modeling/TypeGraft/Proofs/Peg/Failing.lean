import TypeGraft.Proofs.Peg.Reading

/-
  Where readings fail.

  Whatever is reported of a reading lies at a cursor on the
  text, and so between two of its characters.  An expression
  that does not fail in silence reports something at its own
  cursor or further on.  If such an expression ends the
  reading of a whole text, then a refused text is refused at
  its cursor or further on.

  Key definitions include:
    * `Failures.LiesOn`
    * `Grammar.Reports`

  Main declarations:
    * `Peg.outcome_liesOn`
    * `Grammar.Reports.sequence`
    * `Grammar.exists_reaches_of_parse_error`
    * `Grammar.byteLength_le_of_parse_error`
-/

namespace TypeGraft

------------------------------------------------------------
-- Records on a Text
------------------------------------------------------------

namespace Cursor

theorem Reaches.offset_le
    {c d : Cursor}
    (h : c.Reaches d) : c.offset ≤ d.offset := by
  rcases h with ⟨read, -, hOffset⟩
  omega

/- A cursor with no more left than the rest is behind the head. -/
theorem Reaches.byteLength_le
    {head rest : List Char}
    {d : Cursor}
    (h : (Cursor.start (head ++ rest)).Reaches d)
    (hLeft : d.rest.length ≤ rest.length) :
    byteLength head ≤ d.offset := by
  rcases h with ⟨read, hText, hOffset⟩
  have hText : head ++ rest = read ++ d.rest := hText
  have hLength := congrArg List.length hText
  simp only [List.length_append] at hLength
  obtain ⟨more, rfl⟩ : head <+: read :=
    List.prefix_of_prefix_length_le ⟨rest, rfl⟩
      ⟨d.rest, hText.symm⟩ (by omega)
  rw [hOffset, byteLength_append]
  omega

end Cursor

namespace Failures

@[simp] theorem offset_join
    (f g : Failures) :
    (f.join g).offset = max f.offset g.offset := by
  unfold join
  split
  · omega
  · split
    · omega
    · change f.offset = max f.offset g.offset
      omega

/-
  The record lies at a cursor on the text, or at the offset of
  an empty record.
-/
def LiesOn
    (f : Failures)
    (c : Cursor) : Prop :=
  f.offset = 0 ∨ ∃ d, c.Reaches d ∧ d.offset = f.offset

theorem liesOn_empty
    (c : Cursor) : empty.LiesOn c :=
  .inl rfl

theorem liesOn_one
    {c d : Cursor}
    (h : c.Reaches d)
    (label : String) : (one d.offset label).LiesOn c :=
  .inr ⟨d, h, rfl⟩

namespace LiesOn

theorem join
    {f g : Failures}
    {c : Cursor}
    (hf : f.LiesOn c)
    (hg : g.LiesOn c) : (f.join g).LiesOn c := by
  unfold LiesOn at *
  rw [offset_join]
  rcases Nat.le_total f.offset g.offset with hLe | hLe
  · rwa [Nat.max_eq_right hLe]
  · rwa [Nat.max_eq_left hLe]

/- A cursor further on is on the same text. -/
theorem of_reaches
    {f : Failures}
    {c d : Cursor}
    (h : f.LiesOn d)
    (hReaches : c.Reaches d) : f.LiesOn c := by
  rcases h with hZero | ⟨e, hNext, hOffset⟩
  · exact .inl hZero
  · exact .inr ⟨e, hReaches.trans hNext, hOffset⟩

end LiesOn

end Failures

------------------------------------------------------------
-- Refused Texts
------------------------------------------------------------

/-
  A text is refused if its reading fails, or if it ends before
  the text does.
-/
theorem Grammar.cases_of_conclude_error
    {α : Type}
    {r : Outcome α}
    {failures : Failures}
    (h : conclude r = .error failures) :
    (r.result = none ∧ failures = r.failures) ∨
      ∃ a d, r.result = some (a, d) ∧
        failures = r.failures.join (.one d.offset "EOF") := by
  unfold conclude at h
  cases hResult : r.result with
  | none =>
      rw [hResult] at h
      cases h
      exact .inl ⟨rfl, rfl⟩
  | some v =>
      rcases v with ⟨a, rest, offset⟩
      rw [hResult] at h
      cases rest with
      | nil => cases h
      | cons x xs =>
          cases h
          exact .inr ⟨a, _, rfl, rfl⟩

------------------------------------------------------------
-- Failures Lie on the Text
------------------------------------------------------------

namespace Peg

variable {N V : Type}
variable {α β : Type}

theorem outcomeMany_liesOn
    {read : Cursor → Outcome α}
    (hRead :
      ∀ c a d, (read c).result = some (a, d) → c.Reaches d)
    (hLies : ∀ c, (read c).failures.LiesOn c)
    (bound : List Char)
    (c : Cursor) :
    (outcomeMany read bound c).failures.LiesOn c := by
  induction bound generalizing c with
  | nil => exact hLies c
  | cons x bound ih =>
      rw [outcomeMany_cons]
      cases hResult : (read c).result with
      | none => exact hLies c
      | some v =>
          rcases v with ⟨a, d⟩
          have hReaches := hRead c a d hResult
          exact (hLies c).join ((ih d).of_reaches hReaches)

/-
  The failures of an expression lie on the text, if those of
  the calls in it do.
-/
theorem outcome_liesOn
    {call : N → Cursor → Outcome V}
    (hCall : CallsAdvance call)
    (hLies : ∀ n c, (call n c).failures.LiesOn c)
    (p : Peg N V α)
    (c : Cursor) : (p.outcome call c).failures.LiesOn c := by
  induction p generalizing c with
  | literal text =>
      rw [outcome_literal, readLiteral]
      cases c.literal? text with
      | none => exact Failures.liesOn_one (.refl c) _
      | some d => exact Failures.liesOn_empty c
  | char cls =>
      rw [outcome_char, readChar]
      cases c.rest with
      | nil => exact Failures.liesOn_one (.refl c) _
      | cons x xs =>
          cases hAccepts : cls.accepts x
          · simp only [hAccepts]
            exact Failures.liesOn_one (.refl c) _
          · simp only [hAccepts]
            exact Failures.liesOn_empty c
  | succeed a => exact Failures.liesOn_empty c
  | fail label => exact Failures.liesOn_one (.refl c) label
  | seq p q ihp ihq =>
      rw [outcome_seq]
      cases hFirst : (p.outcome call c).result with
      | none => exact ihp c
      | some v =>
          rcases v with ⟨a, d⟩
          have hReaches :=
            (outcome_reaches hCall p c a d hFirst).1
          exact (ihp c).join ((ihq d).of_reaches hReaches)
  | check f p ih =>
      rw [outcome_check]
      cases hFirst : (p.outcome call c).result with
      | none => exact ih c
      | some v =>
          rcases v with ⟨a, d⟩
          have hReaches :=
            (outcome_reaches hCall p c a d hFirst).1
          cases hValue : f a with
          | ok b =>
              simp only [hValue]
              exact ih c
          | error label =>
              simp only [hValue]
              exact (ih c).join
                (Failures.liesOn_one hReaches label)
  | choice p q ihp ihq =>
      rw [outcome_choice]
      cases (p.outcome call c).result with
      | some v => exact ihp c
      | none => exact (ihp c).join (ihq c)
  | many p ih =>
      rw [outcome_many]
      refine outcomeMany_liesOn ?_ ih c.rest c
      intro d a e hResult
      exact (outcome_reaches hCall p d a e hResult).1
  | quiet p ih => exact Failures.liesOn_empty c
  | absent p ih =>
      rw [outcome_absent]
      cases (p.outcome call c).result <;>
        exact Failures.liesOn_empty c
  | call n => exact hLies n c

/- The outcome of an expression where another has read on. -/
theorem outcome_apply_of_result
    (call : N → Cursor → Outcome V)
    {first : Peg N V (α → β)}
    (p : Peg N V α)
    {c d : Cursor}
    {f : α → β}
    (hFirst : (first.outcome call c).result = some (f, d)) :
    (first <*> p).outcome call c =
      ⟨(p.outcome call d).result.map (fun v => (f v.1, v.2)),
        (first.outcome call c).failures.join
          (p.outcome call d).failures⟩ := by
  change (check _ (seq first p)).outcome call c = _
  rw [outcome_check, outcome_seq, hFirst]
  cases hSecond : (p.outcome call d).result <;>
    simp [hSecond]

end Peg

------------------------------------------------------------
-- Failures That Are Reported
------------------------------------------------------------

namespace Grammar

variable {N V : Type}
variable {α β γ : Type}

/-
  Where the expression fails, something is reported, there or
  further on.
-/
def Reports
    (g : Grammar N V)
    (p : Peg N V α) : Prop :=
  ∀ c, (p.outcome g.reading c).result = none →
    c.offset ≤ (p.outcome g.reading c).failures.offset

namespace Reports

variable {g : Grammar N V}
variable {p q : Peg N V α}
variable {r : Peg N V β}

/- What never fails has nothing to report. -/
theorem of_reads
    (hTotal : ∀ xs, (p.reads g.reads xs).isSome = true) :
    g.Reports p := by
  intro c hFail
  have hSome := hTotal c.rest
  rw [← Peg.outcome_reads g.reading_taken p c, Outcome.taken,
    hFail] at hSome
  cases hSome

theorem fail
    (label : String) :
    g.Reports (.fail label : Peg N V α) :=
  fun c _ => Nat.le_refl c.offset

/- A choice fails where its last expression fails too. -/
theorem orElse
    (p : Peg N V α)
    (hq : g.Reports q) : g.Reports (p <|> q) := by
  intro c
  change ((Peg.choice p q).outcome g.reading c).result = none →
    c.offset ≤
      ((Peg.choice p q).outcome g.reading c).failures.offset
  rw [Peg.outcome_choice]
  cases (p.outcome g.reading c).result with
  | some v =>
      intro hFail
      cases hFail
  | none =>
      intro hFail
      rw [Failures.offset_join]
      exact Nat.le_trans (hq c hFail) (Nat.le_max_right _ _)

theorem optional
    (p : Peg N V α) : g.Reports (Peg.optional p) :=
  orElse _ (of_reads fun _ => rfl)

theorem many
    (p : Peg N V α) : g.Reports (.many p) :=
  of_reads fun _ => rfl

variable [hGuarded : g.Guarded]

theorem call
    {n : N}
    (h : g.Reports (g.rule n)) : g.Reports (.call n) := by
  intro c
  rw [Peg.outcome_call, g.reading_eq]
  exact h c

/- A refused value is reported behind what was read. -/
theorem check
    (hp : g.Reports p)
    (f : α → Except String β) : g.Reports (.check f p) := by
  intro c
  rw [Peg.outcome_check]
  cases hFirst : (p.outcome g.reading c).result with
  | none => exact fun _ => hp c hFirst
  | some v =>
      rcases v with ⟨a, d⟩
      have hBehind :=
        (Peg.outcome_reaches g.reading_advances p c a d
          hFirst).1.offset_le
      cases hValue : f a with
      | ok b =>
          simp only [hValue]
          intro hFail
          cases hFail
      | error label =>
          simp only [hValue, Failures.offset_join]
          exact fun _ =>
            Nat.le_trans hBehind (Nat.le_max_right _ _)

theorem map
    (hp : g.Reports p)
    (f : α → β) : g.Reports (f <$> p) :=
  hp.check _

/- One expression after another, and a value from both. -/
theorem sequence
    (hp : g.Reports p)
    (hr : g.Reports r)
    (f : α × β → γ) : g.Reports (Peg.map f (.seq p r)) := by
  refine check ?_ _
  intro c
  rw [Peg.outcome_seq]
  cases hFirst : (p.outcome g.reading c).result with
  | none => exact fun _ => hp c hFirst
  | some v =>
      rcases v with ⟨a, d⟩
      have hBehind :=
        (Peg.outcome_reaches g.reading_advances p c a d
          hFirst).1.offset_le
      intro hFail
      have hSecond := hr d (Option.map_eq_none_iff.mp hFail)
      rw [Failures.offset_join]
      omega

theorem apply
    {f : Peg N V (α → β)}
    (hf : g.Reports f)
    (hp : g.Reports p) : g.Reports (f <*> p) :=
  hf.sequence hp _

theorem keepLeft
    (hp : g.Reports p)
    (hr : g.Reports r) : g.Reports (p <* r) :=
  hp.sequence hr _

theorem keepRight
    (hp : g.Reports p)
    (hr : g.Reports r) : g.Reports (p *> r) :=
  hp.sequence hr _

end Reports

------------------------------------------------------------
-- Whole Texts
------------------------------------------------------------

variable (g : Grammar N V)
variable [hGuarded : g.Guarded]

theorem answer_liesOn
    (k : Nat)
    (n : N)
    (c : Cursor) : (g.answer k n c).failures.LiesOn c := by
  induction k generalizing n c with
  | zero => exact Failures.liesOn_empty c
  | succ k ih =>
      exact Peg.outcome_liesOn (g.answer_advances k) ih
        (g.rule n) c

variable [DecidableEq N]
variable [hCalm : g.Calm]

/- A text that is refused is refused without memory too. -/
theorem exists_conclude_of_parse_error
    {p : Peg N V α}
    (hCalmly : p.calm = true)
    {text : List Char}
    {failures : Failures}
    (h : g.parse p text = .error failures) :
    ∃ plain,
      conclude (p.outcome g.reading (Cursor.start text)) =
          .error plain ∧
        plain.offset = failures.offset := by
  have hVerdict := g.parse_sameVerdict p hCalmly text
  rw [h, parsePlainly_eq] at hVerdict
  generalize conclude (p.outcome g.reading _) = x at hVerdict ⊢
  cases hVerdict with
  | refused hAlike => exact ⟨_, rfl, hAlike.offset.symm⟩

/- A text is refused between two of its characters. -/
theorem exists_reaches_of_parse_error
    {p : Peg N V α}
    (hCalmly : p.calm = true)
    {text : List Char}
    {failures : Failures}
    (h : g.parse p text = .error failures) :
    ∃ d, (Cursor.start text).Reaches d ∧
      d.offset = failures.offset := by
  have hLies : failures.LiesOn (Cursor.start text) := by
    rcases g.exists_conclude_of_parse_error hCalmly h with
      ⟨plain, hPlain, hOffset⟩
    have hReading :=
      Peg.outcome_liesOn g.reading_advances
        (fun n c => g.answer_liesOn _ n c) p
        (Cursor.start text)
    unfold Failures.LiesOn
    rw [← hOffset]
    rcases cases_of_conclude_error hPlain with
      ⟨-, rfl⟩ | ⟨a, d, hResult, rfl⟩
    · exact hReading
    · exact hReading.join
        (Failures.liesOn_one
          (Peg.outcome_reaches g.reading_advances p _ a d
            hResult).1 _)
  rcases hLies with hZero | hCursor
  · exact ⟨_, .refl _, hZero.symm⟩
  · exact hCursor

/-
  A text is refused behind its head, if one expression reads
  the head and what comes next reports where it fails.
-/
theorem byteLength_le_of_parse_error
    {first : Peg N V (α → β)}
    {p : Peg N V α}
    (hCalmly : (first <*> p).calm = true)
    (hReports : g.Reports p)
    {head rest left : List Char}
    {f : α → β}
    (hFirst :
      first.reads g.reads (head ++ rest) = some (f, left))
    (hLeft : left.length ≤ rest.length)
    {failures : Failures}
    (h : g.parse (first <*> p) (head ++ rest) = .error failures) :
    Cursor.byteLength head ≤ failures.offset := by
  rcases g.exists_conclude_of_parse_error hCalmly h with
    ⟨plain, hPlain, hOffset⟩
  have hTaken :
      (first.outcome g.reading
          (Cursor.start (head ++ rest))).taken =
        some (f, left) := by
    rw [Peg.outcome_reads g.reading_taken]
    exact hFirst
  rcases Option.map_eq_some_iff.mp hTaken with
    ⟨⟨f', d⟩, hResult, hEq⟩
  obtain ⟨rfl, rfl⟩ : f' = f ∧ d.rest = left :=
    Prod.mk.inj hEq
  have hBehind : Cursor.byteLength head ≤ d.offset :=
    (Peg.outcome_reaches g.reading_advances first _ f' d
      hResult).1.byteLength_le hLeft
  rw [Peg.outcome_apply_of_result g.reading p hResult] at hPlain
  -- What comes behind the head fails, or ends before the text
  -- does; both are on record at its cursor or further on.
  rcases cases_of_conclude_error hPlain with
    ⟨hFail, rfl⟩ | ⟨b, e, hRead, rfl⟩
  · have hLate := hReports d (Option.map_eq_none_iff.mp hFail)
    simp only [Failures.offset_join] at hOffset
    omega
  · rcases Option.map_eq_some_iff.mp hRead with
      ⟨⟨a, e'⟩, hNext, hEnd⟩
    cases hEnd
    have hLate :=
      (Peg.outcome_reaches g.reading_advances p d a e'
        hNext).1.offset_le
    simp only [Failures.offset_join, Failures.one] at hOffset
    omega

end Grammar

end TypeGraft
