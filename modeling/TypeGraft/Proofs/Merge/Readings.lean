import TypeGraft.Proofs.Merge.ClosedForm
import TypeGraft.Proofs.Merge.Sources

/-
  How the two strategies read ranges, and what comes of it.

  Over a snapshot, what a target has to say depends on its
  range alone.  The two strategies read a range differently if
  a type is stated about it, and either it is on one line
  while a fact with the same start ends earlier, or it is over
  several lines while none does.  A difference between two
  readings shows in the merged tree unless the target is no
  identifier and takes its annotation from a child.

  Key definitions include:
    * `statedAnnotation?`
    * `reading`
    * `Undercut`
    * `Torn`
    * `ReadsBy`

  Main declarations:
    * `reading_bulk`
    * `reading_point`
    * `torn_iff`
    * `merged_eq_iff`
-/

namespace TypeGraft

------------------------------------------------------------
-- Two Readings of a Range
------------------------------------------------------------

section Readings

variable (dialect : Dialect)

/- The annotation that the last fact about a range makes. -/
def statedAnnotation?
    (facts : List TypeFact)
    (r : SourceRange) : Option Annotation :=
  (lastAbout? facts r).bind (factAnnotation? dialect)

/- The annotation that a strategy has for a range. -/
def reading
    (s : Snapshot)
    (strategy : Strategy)
    (r : SourceRange) : Option Annotation :=
  (foundFact? s strategy r).bind (factAnnotation? dialect)

/- Some fact with the start of a range ends before it does. -/
def Undercut
    (facts : List TypeFact)
    (r : SourceRange) : Prop :=
  ∃ f ∈ facts,
    f.range.start = r.start ∧ f.range.stop.Before r.stop

instance
    (facts : List TypeFact)
    (r : SourceRange) :
    Decidable (Undercut facts r) :=
  inferInstanceAs (Decidable (∃ f ∈ facts,
    f.range.start = r.start ∧ f.range.stop.Before r.stop))

/-
  A type is stated about a range that only one of the two
  strategies finds.
-/
def Torn
    (facts : List TypeFact)
    (r : SourceRange) : Prop :=
  (statedAnnotation? dialect facts r).isSome ∧
    (r.isSingleLine = true ↔ Undercut facts r)

instance
    (facts : List TypeFact)
    (r : SourceRange) :
    Decidable (Torn dialect facts r) :=
  inferInstanceAs (Decidable
    ((statedAnnotation? dialect facts r).isSome ∧
      (r.isSingleLine = true ↔ Undercut facts r)))

end Readings

section Readings

variable {dialect : Dialect}
variable {s : Snapshot}
variable {facts : List TypeFact}
variable {r : SourceRange}
variable {a : Annotation}

/- What an annotation came from is about the same range. -/
theorem range_of_factAnnotation?
    {f : TypeFact}
    (h : factAnnotation? dialect f = some a) :
    a.source.range = f.range := by
  unfold factAnnotation? at h
  split at h
  · cases h
    rfl
  · cases h

theorem range_of_statedAnnotation?
    (h : statedAnnotation? dialect facts r = some a) :
    a.source.range = r := by
  rcases Option.bind_eq_some_iff.1 h with ⟨f, hLast, hFact⟩
  rw [range_of_factAnnotation? hFact]
  exact (mem_of_lastAbout? hLast).2

/- A fact that says nothing makes no annotation. -/
theorem factAnnotation?_unknown
    (members : Members) :
    factAnnotation? dialect
      ⟨r, TypeFact.unknownType, members⟩ = none := by
  simp [factAnnotation?, resolve, TypeFact.isUnknown]

/- In bulk, only what is on one line is read. -/
theorem reading_bulk :
    reading dialect s .bulk r =
      if r.isSingleLine then
        statedAnnotation? dialect s.facts r
      else none := by
  rw [reading, foundFact?, bulkFact?_eq]
  split <;> rfl

/- Nothing ends first but what is not undercut. -/
theorem endsFirst_iff
    {f : TypeFact}
    (hMem : f ∈ facts)
    (hRange : f.range = r) :
    EndsFirst facts r.start r.stop ↔ ¬ Undercut facts r := by
  constructor
  · rintro hFirst ⟨g, hOther, hStart, hBefore⟩
    exact hFirst.first g hOther hStart hBefore
  · intro hNot
    refine ⟨⟨f, hMem, hRange⟩, ?_⟩
    intro g hOther hStart hBefore
    exact hNot ⟨g, hOther, hStart, hBefore⟩

/- Asked by itself, only what is not undercut is read. -/
theorem reading_point :
    reading dialect s .point r =
      if Undercut s.facts r then none
      else statedAnnotation? dialect s.facts r := by
  by_cases hAbout : ∃ f ∈ s.facts, f.range = r
  · rcases hAbout with ⟨f, hMem, hRange⟩
    have hIff := endsFirst_iff hMem hRange
    split
    · rename_i hUnder
      rw [reading, foundFact?,
        pointFact?_of_not_endsFirst hMem (by rw [hRange])
          (fun h => hIff.1 h hUnder),
        Option.bind_none]
    · rename_i hNot
      rw [reading, foundFact?,
        pointFact?_of_endsFirst (hIff.2 hNot),
        statedAnnotation?]
  · have hLast : lastAbout? s.facts r = none :=
      lastAbout?_eq_none_iff.2
        (fun f hMem hRange => hAbout ⟨f, hMem, hRange⟩)
    have hNone : statedAnnotation? dialect s.facts r = none := by
      rw [statedAnnotation?, hLast, Option.bind_none]
    rw [hNone, ite_self, reading, foundFact?]
    by_cases hStart :
        ∃ f ∈ s.facts, f.range.start = r.start
    · rcases hStart with ⟨f, hMem, hHere⟩
      rw [pointFact?_of_not_endsFirst hMem hHere
        (fun h => hAbout h.about), Option.bind_none]
    · rw [pointFact?_of_no_start
        (fun f hMem hHere => hStart ⟨f, hMem, hHere⟩),
        Option.bind_some, factAnnotation?_unknown]

/- The readings differ just where a range is torn. -/
theorem torn_iff :
    Torn dialect s.facts r ↔
      reading dialect s .bulk r ≠
        reading dialect s .point r := by
  rw [reading_bulk, reading_point, Torn]
  cases hStated : statedAnnotation? dialect s.facts r with
  | none => simp
  | some a =>
      by_cases hLine : r.isSingleLine = true <;>
        by_cases hUnder : Undercut s.facts r <;>
        simp [hLine, hUnder]

/-
  A range that some fact is about is not torn if it is on one
  line and not undercut.
-/
theorem not_torn
    (hSingle :
      r.isSingleLine = true →
        (∃ f ∈ facts, f.range = r) → ¬ Undercut facts r)
    (hMulti :
      r.isSingleLine = false → ¬ ∃ f ∈ facts, f.range = r) :
    ¬ Torn dialect facts r := by
  rintro ⟨hStated, hIff⟩
  rcases Option.isSome_iff_exists.1 hStated with ⟨a, hSome⟩
  rcases Option.bind_eq_some_iff.1 hSome with ⟨f, hLast, -⟩
  have hAbout : ∃ f ∈ facts, f.range = r :=
    ⟨f, mem_of_lastAbout? hLast⟩
  cases hLine : r.isSingleLine with
  | false => exact hMulti hLine hAbout
  | true =>
      exact hSingle hLine hAbout (hIff.1 hLine)

/- A strategy reads what is stated about a range or nothing. -/
theorem stated_of_reading
    {strategy : Strategy}
    (h : reading dialect s strategy r = some a) :
    statedAnnotation? dialect s.facts r = some a := by
  cases strategy with
  | bulk =>
      rw [reading_bulk] at h
      split at h
      · exact h
      · cases h
  | point =>
      rw [reading_point] at h
      split at h
      · cases h
      · exact h

/- What it reads about a range is about it. -/
theorem range_of_reading
    {strategy : Strategy}
    (h : reading dialect s strategy r = some a) :
    a.source.range = r :=
  range_of_statedAnnotation? (stated_of_reading h)

end Readings

------------------------------------------------------------
-- Two Readings of a Tree
------------------------------------------------------------

/-
  What each target has to say is how its range is read, and a
  reading of a range is about that range.
-/
structure ReadsBy
    (eligibility : Eligibility)
    (dialect : Dialect)
    (t : Tree)
    (facts : FactMap)
    (read : SourceRange → Option Annotation) : Prop where
  own :
    ∀ {n : NodeId} {m : Node},
      n ∈ eligibility.targets t → t.get? n = some m →
        ownAnnotation? eligibility dialect t facts n =
          read m.range
  range :
    ∀ {r : SourceRange} {a : Annotation},
      read r = some a → a.source.range = r

section Compared

variable {eligibility : Eligibility}
variable {dialect : Dialect}
variable {t : Tree}
variable {facts others : FactMap}
variable {read other : SourceRange → Option Annotation}
variable {n : NodeId}
variable {m : Node}
variable {a : Annotation}

/- A node in the table is an identifier by its kind. -/
theorem Tree.isIdentifier_iff
    (h : t.get? n = some m) :
    t.isIdentifier n = true ↔ m.kind = .identifier := by
  simp [isIdentifier, kind?, h]

/- Only a target has something of its own to show. -/
theorem mem_targets_of_ownAnnotation?
    (h :
      ownAnnotation? eligibility dialect t facts n = some a) :
    n ∈ eligibility.targets t := by
  by_contra hNot
  cases (ownAnnotation?_of_not_mem hNot).symm.trans h

/- An identifier shows its own annotation first. -/
theorem mergedAnnotation?_identifier
    (hTarget : n ∈ eligibility.targets t)
    (hNode : t.get? n = some m)
    (hKind : m.kind = .identifier) :
    mergedAnnotation? eligibility dialect t facts n =
      (ownAnnotation? eligibility dialect t facts n).or
        (childAnnotation? eligibility dialect t facts n) := by
  simp [mergedAnnotation?, hTarget,
    (Tree.isIdentifier_iff hNode).2 hKind]

/- Any other target shows that of a child first. -/
theorem mergedAnnotation?_other
    (hTarget : n ∈ eligibility.targets t)
    (hNode : t.get? n = some m)
    (hKind : m.kind ≠ .identifier) :
    mergedAnnotation? eligibility dialect t facts n =
      (childAnnotation? eligibility dialect t facts n).or
        (ownAnnotation? eligibility dialect t facts n) := by
  simp [mergedAnnotation?, hTarget,
    mt (Tree.isIdentifier_iff hNode).1 hKind]

/- Where a child's annotation comes from. -/
theorem childAnnotation?_eq_some
    (h :
      childAnnotation? eligibility dialect t facts n =
        some a) :
    ∃ c ∈ t.childrenOf n, t.isIdentifier c = true ∧
      ownAnnotation? eligibility dialect t facts c =
        some a := by
  rcases List.exists_of_findSome?_eq_some h with
    ⟨c, hChild, hOwn⟩
  split at hOwn
  · exact ⟨c, hChild, ‹_›, hOwn⟩
  · cases hOwn

/- Children are alike where identifiers are. -/
theorem childAnnotation?_congr
    (h :
      ∀ c ∈ t.childrenOf n, t.isIdentifier c = true →
        ownAnnotation? eligibility dialect t facts c =
          ownAnnotation? eligibility dialect t others c) :
    childAnnotation? eligibility dialect t facts n =
      childAnnotation? eligibility dialect t others n := by
  unfold childAnnotation?
  generalize t.childrenOf n = children at h
  induction children with
  | nil => rfl
  | cons c children ih =>
      rw [List.forall_mem_cons] at h
      rw [List.findSome?_cons, List.findSome?_cons, ih h.2]
      by_cases hKind : t.isIdentifier c = true
      · rw [if_pos hKind, if_pos hKind, h.1 hKind]
      · rw [if_neg hKind, if_neg hKind]

/-
  An identifier whose range is not read shows nothing about
  that range: a child with the same range is not read either.
-/
theorem mergedAnnotation?_ne
    (hReads : ReadsBy eligibility dialect t facts read)
    (hTarget : n ∈ eligibility.targets t)
    (hNode : t.get? n = some m)
    (hKind : m.kind = .identifier)
    (hNone : read m.range = none)
    (hRange : a.source.range = m.range) :
    mergedAnnotation? eligibility dialect t facts n ≠
      some a := by
  intro hShown
  rw [mergedAnnotation?_identifier hTarget hNode hKind,
    hReads.own hTarget hNode, hNone, Option.none_or] at hShown
  rcases childAnnotation?_eq_some hShown with ⟨c, -, -, hOwn⟩
  have hTargetChild := mem_targets_of_ownAnnotation? hOwn
  rcases Eligibility.exists_node_of_mem_targets hTargetChild
    with ⟨k, hNodeChild⟩
  rw [hReads.own hTargetChild hNodeChild] at hOwn
  have hSame : k.range = m.range :=
    (hReads.range hOwn).symm.trans hRange
  rw [hSame, hNone] at hOwn
  cases hOwn

/-
  Where two merges are alike, an identifier that is not read
  in one is not read in the other.
-/
theorem read_eq_none_of_merged_eq
    (hFirst : ReadsBy eligibility dialect t facts read)
    (hSecond : ReadsBy eligibility dialect t others other)
    (hSame :
      mergedAnnotation? eligibility dialect t facts n =
        mergedAnnotation? eligibility dialect t others n)
    (hTarget : n ∈ eligibility.targets t)
    (hNode : t.get? n = some m)
    (hKind : m.kind = .identifier)
    (hNone : read m.range = none) :
    other m.range = none := by
  cases hRead : other m.range with
  | none => rfl
  | some a =>
      have hShown :
          mergedAnnotation? eligibility dialect t others n =
            some a := by
        rw [mergedAnnotation?_identifier hTarget hNode hKind,
          hSecond.own hTarget hNode, hRead, Option.some_or]
      exact absurd (hSame.trans hShown)
        (mergedAnnotation?_ne hFirst hTarget hNode hKind hNone
          (hSecond.range hRead))

/- Where two merges are alike, so are their identifiers. -/
theorem read_eq_of_merged_eq
    (hFirst : ReadsBy eligibility dialect t facts read)
    (hSecond : ReadsBy eligibility dialect t others other)
    (hOne :
      ∀ r, read r = other r ∨ read r = none ∨ other r = none)
    (hSame :
      mergedAnnotation? eligibility dialect t facts n =
        mergedAnnotation? eligibility dialect t others n)
    (hTarget : n ∈ eligibility.targets t)
    (hNode : t.get? n = some m)
    (hKind : m.kind = .identifier) :
    read m.range = other m.range := by
  rcases hOne m.range with hEq | hNone | hNone
  · exact hEq
  · exact hNone.trans (read_eq_none_of_merged_eq hFirst hSecond
      hSame hTarget hNode hKind hNone).symm
  · exact (read_eq_none_of_merged_eq hSecond hFirst hSame.symm
      hTarget hNode hKind hNone).trans hNone.symm

/- Identifiers that are read alike have the same to say. -/
theorem own_eq_of_read_eq
    (hFirst : ReadsBy eligibility dialect t facts read)
    (hSecond : ReadsBy eligibility dialect t others other)
    (h :
      ∀ {n m}, n ∈ eligibility.targets t →
        t.get? n = some m → m.kind = .identifier →
          read m.range = other m.range)
    (c : NodeId)
    (hKind : t.isIdentifier c = true) :
    ownAnnotation? eligibility dialect t facts c =
      ownAnnotation? eligibility dialect t others c := by
  by_cases hTarget : c ∈ eligibility.targets t
  · rcases Eligibility.exists_node_of_mem_targets hTarget with
      ⟨m, hNode⟩
    rw [hFirst.own hTarget hNode, hSecond.own hTarget hNode]
    exact h hTarget hNode
      ((Tree.isIdentifier_iff hNode).1 hKind)
  · rw [ownAnnotation?_of_not_mem hTarget,
      ownAnnotation?_of_not_mem hTarget]

/-
  Two merges are alike just if the targets that are read
  differently are no identifiers and take their annotations
  from children.
-/
theorem merged_eq_iff
    (hFirst : ReadsBy eligibility dialect t facts read)
    (hSecond : ReadsBy eligibility dialect t others other)
    (hOne :
      ∀ r,
        read r = other r ∨ read r = none ∨ other r = none) :
    (∀ n,
      mergedAnnotation? eligibility dialect t facts n =
        mergedAnnotation? eligibility dialect t others n) ↔
      ∀ n m, n ∈ eligibility.targets t →
        t.get? n = some m → read m.range ≠ other m.range →
          m.kind ≠ .identifier ∧
            (childAnnotation? eligibility dialect t facts
              n).isSome = true := by
  constructor
  · intro hSame n m hTarget hNode hDiffer
    have hIdentifiers :=
      own_eq_of_read_eq hFirst hSecond
        (fun {n m} => read_eq_of_merged_eq hFirst hSecond hOne
          (hSame n))
    have hKind : m.kind ≠ .identifier :=
      fun hKind => hDiffer (read_eq_of_merged_eq hFirst hSecond
        hOne (hSame n) hTarget hNode hKind)
    refine ⟨hKind, ?_⟩
    by_contra hSome
    have hChild :
        childAnnotation? eligibility dialect t facts n =
          none := by
      simpa using hSome
    -- With nothing from children, both show what they read.
    have hShown := hSame n
    rw [mergedAnnotation?_other hTarget hNode hKind,
      mergedAnnotation?_other hTarget hNode hKind,
      ← childAnnotation?_congr (fun c _ => hIdentifiers c),
      hChild,
      Option.none_or, Option.none_or,
      hFirst.own hTarget hNode,
      hSecond.own hTarget hNode] at hShown
    exact hDiffer hShown
  · intro hCond n
    have hIdentifiers :=
      own_eq_of_read_eq hFirst hSecond
        (fun {n m} hTarget hNode hKind => by
          by_contra hDiffer
          exact (hCond n m hTarget hNode hDiffer).1 hKind)
    have hChildren :=
      @childAnnotation?_congr _ _ _ _ _ n
        (fun c _ => hIdentifiers c)
    by_cases hTarget : n ∈ eligibility.targets t
    · rcases Eligibility.exists_node_of_mem_targets hTarget
        with ⟨m, hNode⟩
      by_cases hRead : read m.range = other m.range
      · simp only [mergedAnnotation?, hChildren,
          hFirst.own hTarget hNode,
          hSecond.own hTarget hNode, hRead]
      · rcases hCond n m hTarget hNode hRead with
          ⟨hKind, hSome⟩
        rw [hChildren] at hSome
        rw [mergedAnnotation?_other hTarget hNode hKind,
          mergedAnnotation?_other hTarget hNode hKind,
          hChildren, Option.or_of_isSome hSome,
          Option.or_of_isSome hSome]
    · simp only [mergedAnnotation?, hTarget, if_false]

end Compared

end TypeGraft
