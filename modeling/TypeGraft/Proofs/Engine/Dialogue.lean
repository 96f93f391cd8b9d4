import TypeGraft.Engine.Dialogue

/-
  Holding dialogues.

  A dialogue of two parts gives what the second gives after
  the result of the first, and asks the questions of both.

  Main declarations:
    * `Dialogue.run_andThen`
    * `Dialogue.run_queryPoints`
-/

namespace TypeGraft

namespace Dialogue

variable {α β : Type}
variable (engine : Engine)

/- One part after the other. -/
theorem run_andThen
    (d : Dialogue α)
    (f : α → Dialogue β) :
    (d.andThen f).run engine =
      (((f (d.run engine).1).run engine).1,
        (d.run engine).2 ++
          ((f (d.run engine).1).run engine).2) := by
  induction d with
  | done a => rfl
  | ask q next ih =>
      simp only [andThen, run, ih, List.cons_append]

/- Each position is asked about on its own. -/
theorem run_queryPoints
    (ps : List Position) :
    (queryPoints ps).run engine =
      (ps.map (fun p =>
          engine.answer (.point p.line (p.column + 1))),
        ps.map (fun p => .point p.line (p.column + 1))) := by
  induction ps with
  | nil => rfl
  | cons p ps ih =>
      simp only [queryPoints, run, run_andThen, ih,
        List.map_cons, List.append_nil]

end Dialogue

end TypeGraft
