import TypeGraft.Engine.Snapshot

/-
  What a snapshot answers about a position.

  Among the facts that start there it takes the one that ends
  first, and of several such the last.  So an answer is about
  a given range just if no fact with that start ends earlier,
  and then it is the last fact about that range.

  Key definitions include:
    * `Position.Before`
    * `lastAbout?`
    * `EndsFirst`

  Main declarations:
    * `Position.isLE_compare_iff`
    * `Snapshot.factAt?_eq_none_iff`
    * `Snapshot.factAt?_eq_some`
-/

namespace TypeGraft

------------------------------------------------------------
-- The Order of Positions
------------------------------------------------------------

namespace Position

/- One position comes before another in the text. -/
def Before
    (p q : Position) : Prop :=
  p.line < q.line ∨ (p.line = q.line ∧ p.column < q.column)

instance
    (p q : Position) :
    Decidable (p.Before q) :=
  inferInstanceAs (Decidable
    (p.line < q.line ∨
      (p.line = q.line ∧ p.column < q.column)))

variable {p q r : Position}

theorem before_irrefl
    (p : Position) :
    ¬ p.Before p := by
  simp [Before]

theorem Before.trans_not_before
    (hFirst : p.Before q)
    (hSecond : ¬ r.Before q) :
    p.Before r := by
  unfold Before at *
  omega

theorem Before.asymm
    (h : p.Before q) :
    ¬ q.Before p := by
  unfold Before at *
  omega

/- Of two positions one comes first, or they are the same. -/
theorem eq_of_not_before
    (hFirst : ¬ p.Before q)
    (hSecond : ¬ q.Before p) :
    p = q := by
  cases p
  cases q
  simp only [Before, Position.mk.injEq] at *
  omega

/- What comparing two positions tells. -/
theorem isLE_compare_iff :
    (p.compare q).isLE = true ↔ ¬ q.Before p := by
  simp only [compare, compareLex, compareOn, Before,
    Ordering.isLE_then_iff_or, Nat.compare_eq_lt,
    Nat.compare_eq_eq, Nat.isLE_compare]
  omega

end Position

------------------------------------------------------------
-- Facts about a Range
------------------------------------------------------------

/- A range is where it starts and where it ends. -/
theorem SourceRange.eq_iff
    {r q : SourceRange} :
    r = q ↔ r.start = q.start ∧ r.stop = q.stop := by
  cases r
  cases q
  simp

/- The last fact listed about a range. -/
def lastAbout?
    (facts : List TypeFact)
    (r : SourceRange) : Option TypeFact :=
  (facts.filter (fun f => f.range = r)).getLast?

/-
  Some fact is about the range between two positions, and no
  fact with the same start ends earlier.
-/
structure EndsFirst
    (facts : List TypeFact)
    (start stop : Position) : Prop where
  about : ∃ f ∈ facts, f.range = ⟨start, stop⟩
  first :
    ∀ f ∈ facts, f.range.start = start →
      ¬ f.range.stop.Before stop

section About

variable {facts : List TypeFact}
variable {f : TypeFact}
variable {r : SourceRange}

theorem mem_of_lastAbout?
    (h : lastAbout? facts r = some f) :
    f ∈ facts ∧ f.range = r := by
  have hMem := List.mem_of_getLast? h
  simpa using hMem

/- There is no last fact just if there is none. -/
theorem lastAbout?_eq_none_iff :
    lastAbout? facts r = none ↔
      ∀ f ∈ facts, f.range ≠ r := by
  simp [lastAbout?]

/- A range with a fact has a last one. -/
theorem exists_lastAbout?
    (hMem : f ∈ facts)
    (hRange : f.range = r) :
    ∃ g, lastAbout? facts r = some g := by
  rw [← Option.ne_none_iff_exists']
  intro hNone
  exact lastAbout?_eq_none_iff.1 hNone f hMem hRange

/- Only one position is where the first fact ends. -/
theorem EndsFirst.unique
    {start p q : Position}
    (hFirst : EndsFirst facts start p)
    (hSecond : EndsFirst facts start q) :
    p = q := by
  rcases hFirst.about with ⟨f, hMem, hRange⟩
  rcases hSecond.about with ⟨g, hOther, hAbout⟩
  have hLeft := hSecond.first f hMem (by rw [hRange])
  have hRight := hFirst.first g hOther (by rw [hAbout])
  rw [hRange] at hLeft
  rw [hAbout] at hRight
  exact Position.eq_of_not_before hLeft hRight

end About

------------------------------------------------------------
-- The Answer of a Snapshot
------------------------------------------------------------

namespace Snapshot

variable {facts : List TypeFact}
variable {f : TypeFact}

/-
  The best of some facts: none of them ends before it, and it
  is the last that ends where it does.
-/
structure Best
    (facts : List TypeFact)
    (best : TypeFact) : Prop where
  first :
    ∀ g ∈ facts, ¬ g.range.stop.Before best.range.stop
  last :
    (facts.filter (fun g =>
      g.range.stop = best.range.stop)).getLast? = some best

/- Each further fact is weighed against the best so far. -/
theorem Best.earlier
    {best : TypeFact}
    (hBest : Best facts best)
    (f : TypeFact) :
    ∃ next,
      Snapshot.earlier (some best) f = some next ∧
        Best (facts ++ [f]) next := by
  by_cases hLater : best.range.stop.Before f.range.stop
  · refine ⟨best, ?_, ?_, ?_⟩
    · rw [Snapshot.earlier, if_neg]
      rw [Position.isLE_compare_iff]
      exact fun h => h hLater
    · intro g hMem
      rcases List.mem_append.1 hMem with hIn | hNew
      · exact hBest.first g hIn
      · cases List.mem_singleton.1 hNew
        exact hLater.asymm
    · have hNe : f.range.stop ≠ best.range.stop := by
        intro hEq
        rw [hEq] at hLater
        exact Position.before_irrefl _ hLater
      rw [List.filter_append,
        List.filter_cons_of_neg (by simpa using hNe),
        List.filter_nil, List.append_nil]
      exact hBest.last
  · refine ⟨f, ?_, ?_, ?_⟩
    · rw [Snapshot.earlier, if_pos]
      exact Position.isLE_compare_iff.2 hLater
    · intro g hMem hBefore
      rcases List.mem_append.1 hMem with hIn | hNew
      · exact hBest.first g hIn
          (hBefore.trans_not_before hLater)
      · cases List.mem_singleton.1 hNew
        exact Position.before_irrefl _ hBefore
    · rw [List.filter_append,
        List.filter_cons_of_pos (by simp), List.filter_nil,
        List.getLast?_append, List.getLast?_singleton,
        Option.some_or]

/- One fact is the best of itself. -/
theorem best_singleton
    (f : TypeFact) :
    Best [f] f where
  first := by
    intro g hMem
    cases List.mem_singleton.1 hMem
    exact Position.before_irrefl _
  last := by simp

/- Weighing further facts one after the other. -/
theorem Best.foldl
    {seen : List TypeFact}
    {best : TypeFact}
    (hBest : Best seen best) :
    ∃ last,
      facts.foldl Snapshot.earlier (some best) = some last ∧
        Best (seen ++ facts) last := by
  induction facts generalizing seen best with
  | nil => exact ⟨best, rfl, by simpa using hBest⟩
  | cons f facts ih =>
      rcases hBest.earlier f with ⟨next, hStep, hNext⟩
      rcases ih hNext with ⟨last, hFold, hLast⟩
      refine ⟨last, ?_, by simpa using hLast⟩
      rw [List.foldl_cons, hStep, hFold]

/- Where facts start there is an answer, and it is the best. -/
theorem exists_best
    (hFacts : facts ≠ []) :
    ∃ best,
      facts.foldl Snapshot.earlier none = some best ∧
        Best facts best := by
  cases facts with
  | nil => exact absurd rfl hFacts
  | cons f facts =>
      exact (best_singleton f).foldl

variable (s : Snapshot)
variable {p : Position}

/- Nothing is answered just if no fact starts there. -/
theorem factAt?_eq_none
    (h : ∀ f ∈ s.facts, f.range.start ≠ p) :
    s.factAt? p = none := by
  have hNil :
      s.facts.filter (fun f => f.range.start = p) = [] := by
    simpa using h
  rw [factAt?, hNil]
  rfl

/-
  An answer starts where it was asked for, no fact that starts
  there ends earlier, and it is the last about its range.
-/
theorem factAt?_eq_some
    {f : TypeFact}
    (hMem : f ∈ s.facts)
    (hStart : f.range.start = p) :
    ∃ g,
      s.factAt? p = some g ∧ g.range.start = p ∧
        EndsFirst s.facts p g.range.stop ∧
        lastAbout? s.facts g.range = some g := by
  have hFacts :
      s.facts.filter (fun f => f.range.start = p) ≠ [] := by
    intro hNil
    exact List.filter_eq_nil_iff.1 hNil f hMem
      (decide_eq_true hStart)
  rcases exists_best hFacts with ⟨g, hFold, hBest⟩
  have hIn := List.mem_of_getLast? hBest.last
  simp only [List.mem_filter, decide_eq_true_eq] at hIn
  rcases hIn with ⟨⟨hFact, hHere⟩, -⟩
  refine ⟨g, hFold, hHere, ⟨⟨g, hFact, ?_⟩, ?_⟩, ?_⟩
  · rw [← hHere]
  · intro h hOther hSame
    exact hBest.first h
      (List.mem_filter.2 ⟨hOther, decide_eq_true hSame⟩)
  · have hSplit :
        s.facts.filter (fun h => h.range = g.range) =
          (s.facts.filter (fun h => h.range.start = p)).filter
            (fun h => h.range.stop = g.range.stop) := by
      rw [List.filter_filter]
      apply List.filter_congr
      intro h _
      rw [← Bool.decide_and, decide_eq_decide, ← hHere,
        and_comm]
      exact SourceRange.eq_iff
    rw [lastAbout?, hSplit]
    exact hBest.last

end Snapshot

end TypeGraft
