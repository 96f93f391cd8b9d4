import TypeGraft.Engine.Record

/-
  Talking to a type engine.

  An engine answers questions about one source file.  A
  dialogue is a computation that learns about the file only
  by asking; running it against an engine gives its result
  and the questions it asked, in order.

  Key definitions include:
    * `Query`
    * `Engine`
    * `Dialogue`
    * `Dialogue.query`
    * `Dialogue.queryPoints`
    * `Dialogue.run`
-/

namespace TypeGraft

------------------------------------------------------------
-- Engines
------------------------------------------------------------

/- A question to an engine. -/
inductive Query where
  /- Can you answer questions at all? -/
  | available
  /- What do you know about the file? -/
  | dump
  /- What is the type here?  The column counts from one. -/
  | point (line column : Nat)
deriving DecidableEq, Repr

namespace Query

/- What the answer to a question holds. -/
abbrev Reply : Query → Type
  | .available => Unit
  | .dump => List TypeFact
  | .point _ _ => PointAnswer

/- An answer to a question. -/
abbrev Answer
    (q : Query) : Type :=
  Except EngineError q.Reply

/- The text of a question. -/
def text : Query → String
  | .available => "available"
  | .dump => "dump"
  | .point line column => s!"point {line}:{column}"

end Query

/- An engine, as its answers to questions about one file. -/
structure Engine where
  name : String
  answer : (q : Query) → q.Answer

------------------------------------------------------------
-- Dialogues
------------------------------------------------------------

/- A computation that asks questions. -/
inductive Dialogue (α : Type) where
  | done (result : α)
  | ask (q : Query) (next : q.Answer → Dialogue α)

namespace Dialogue

variable {α β : Type}

/- Go on with a second dialogue after a first. -/
def andThen
    (d : Dialogue α)
    (f : α → Dialogue β) : Dialogue β :=
  match d with
  | .done a => f a
  | .ask q next => .ask q (fun r => (next r).andThen f)

instance : Monad Dialogue where
  pure := .done
  bind := andThen

/- Ask one question. -/
def query
    (q : Query) : Dialogue q.Answer :=
  .ask q .done

/- Ask about the type at each of several positions. -/
def queryPoints :
    List Position →
      Dialogue (List (Except EngineError PointAnswer))
  | [] => .done []
  | p :: ps =>
      .ask (.point p.line (p.column + 1)) (fun r =>
        (queryPoints ps).andThen (fun rs => .done (r :: rs)))

/-
  Hold a dialogue with an engine: the result and the
  questions asked.
-/
def run
    (engine : Engine) :
    Dialogue α → α × List Query
  | .done a => (a, [])
  | .ask q next =>
      let (a, qs) := run engine (next (engine.answer q))
      (a, q :: qs)

end Dialogue

end TypeGraft
