import TypeGraft.Proofs.FlowType.Lexical

/-
  Written strings are consumed exactly.

  Escaping, matching and resolving escapes go through a text
  in different steps: the writer escapes three characters, the
  matcher takes a backslash with whatever stands behind it,
  and four escapes stand for another character.  Even so a
  written string is read up to its closing quote and no
  further, and means what was written.

  Key definitions include:
    * `Peg.Consumes`

  Main declarations:
    * `Peg.consumes_of_reads`
    * `FlowType.Grammar.quoted_consumed`
-/

namespace TypeGraft

------------------------------------------------------------
-- Consumed Texts
------------------------------------------------------------

namespace Peg

variable {N V : Type}
variable {α : Type}
variable {m : Type → Type} [Monad m]

/-
  In front of the rest, wherever that is, the expression reads
  the whole text and nothing else, has no effects, and yields
  a value.
-/
def Consumes
    (call : N → Cursor → m (Outcome V))
    (p : Peg N V α)
    (text : List Char)
    (a : α)
    (rest : List Char) : Prop :=
  ∀ offset, ∃ failures,
    p.eval call ⟨text ++ rest, offset⟩ =
      pure
        ⟨some (a, ⟨rest, offset + Cursor.byteLength text⟩),
          failures⟩

/- Where a reading stops is known from the text it leaves. -/
theorem result_of_taken
    {answer : N → Cursor → Outcome V}
    (hAdvance : CallsAdvance answer)
    {p : Peg N V α}
    {text rest : List Char}
    {offset : Nat}
    {a : α}
    (hTaken :
      (p.outcome answer ⟨text ++ rest, offset⟩).taken =
        some (a, rest)) :
    (p.outcome answer ⟨text ++ rest, offset⟩).result =
      some (a, ⟨rest, offset + Cursor.byteLength text⟩) := by
  rcases Option.map_eq_some_iff.mp hTaken with
    ⟨⟨b, left, stop⟩, hResult, hEq⟩
  obtain ⟨rfl, hLeft⟩ : b = a ∧ left = rest :=
    Prod.mk.inj hEq
  subst hLeft
  rcases (outcome_reaches hAdvance p _ _ _ hResult).1 with
    ⟨read, hRead, hStop⟩
  have hSame : text = read := List.append_cancel_right hRead
  rw [hResult, hSame]
  exact congrArg (fun k => some (b, Cursor.mk left k)) hStop

/- Without calls, an expression consumes what it reads. -/
theorem consumes_of_reads
    [LawfulMonad m]
    (call : N → Cursor → m (Outcome V))
    {calls : N → List Char → Option (V × List Char)}
    {p : Peg N V α}
    {text rest : List Char}
    {a : α}
    (hFree : p.callFree = true)
    (hReads : p.reads calls (text ++ rest) = some (a, rest)) :
    p.Consumes call text a rest := by
  intro offset
  -- No call is made, so all calls may as well fail.
  let silent : N → Cursor → Outcome V :=
    fun _ _ => ⟨none, .empty⟩
  let nothing : N → List Char → Option (V × List Char) :=
    fun _ _ => none
  have hAdvance : CallsAdvance silent := by
    intro n c v d h
    cases h
  have hCalls (n : N) (c : Cursor) :
      (silent n c).taken = nothing n c.rest := rfl
  have hTaken :
      (p.outcome silent ⟨text ++ rest, offset⟩).taken =
        some (a, rest) := by
    rw [outcome_reads hCalls, ← hReads]
    exact reads_eq_of_callFree nothing calls p hFree _
  refine ⟨(p.outcome silent ⟨text ++ rest, offset⟩).failures,
    ?_⟩
  rw [eval_of_callFree call silent p hFree,
    ← result_of_taken hAdvance hTaken]

end Peg

------------------------------------------------------------
-- Strings and Keys
------------------------------------------------------------

namespace FlowType

namespace Grammar

open Peg

/-
  Between its quotes a written string has a body that resolves
  to the string.  The body is matched as a whole, up to the
  closing quote, and the string and the key that are written
  so are consumed and read back, whatever follows them.
-/
theorem quoted_consumed
    {m : Type → Type} [Monad m] [LawfulMonad m]
    (call : RuleName → Cursor → m (Outcome FlowType))
    (v : String)
    (rest : List Char) :
    ∃ body,
      quoted v = '"' :: body ++ ['"'] ∧
      unescape body = v.toList ∧
      (quotedBody inDoubleQuotes).Consumes call
        body body ('"' :: rest) ∧
      stringLiteral.Consumes call (quoted v) v rest ∧
      propertyKey.Consumes call
        (keyText (.string v)) (.string v) rest := by
  refine ⟨v.toList.flatMap escape, rfl,
    unescape_flatMap_escape v.toList, ?_, ?_, ?_⟩
  · exact consumes_of_reads call rfl
      (reads_quotedBody v.toList rest)
  · exact consumes_of_reads call rfl
      (reads_stringLiteral_quoted v rest)
  · exact consumes_of_reads call rfl
      (reads_propertyKey_quoted v rest)

/-
  Backslashes, quotes and letters of escapes in a row, with
  control characters behind them, where a quote follows.
-/
theorem quoted_consumed_backslashes :
    ∃ body,
      quoted "\\n\\\"\\0\n\t\x00" = '"' :: body ++ ['"'] ∧
      body = "\\\\n\\\\\\\"\\\\0\\n\t\x00".toList ∧
      stringLiteral.Consumes
        (FlowType.grammar.rememberingAnswer 3)
        ('"' :: body ++ ['"'])
        "\\n\\\"\\0\n\t\x00"
        ['"'] := by
  rcases quoted_consumed (FlowType.grammar.rememberingAnswer 3)
    "\\n\\\"\\0\n\t\x00" ['"'] with
    ⟨body, hText, -, -, hString, -⟩
  refine ⟨body, hText, ?_, hText ▸ hString⟩
  have hBody : '"' :: body ++ ['"'] = _ := hText.symm
  exact List.append_cancel_right (List.cons.inj hBody).2

end Grammar

end FlowType

end TypeGraft
