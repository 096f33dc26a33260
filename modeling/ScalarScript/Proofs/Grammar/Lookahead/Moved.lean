import ScalarScript.Proofs.Grammar.Lookahead.Script
import ScalarScript.Proofs.Grammar.Script

/-!
# Moving tokens

Places are carried from tokens to trees and errors, and nothing is computed from them. So if every
token is moved, and the end with them, the same statements are read at the places moved, or the same
error is found at its place moved.

A script that stands alone may end without a semicolon. With one behind it, it ends there all the
same, and what is behind that is read as if it stood alone.

* `Token.moved`, `ParseError.moved`: the same at another place.

Results:
* `runStatement_moved`, **`readStatements_moved`**: statements and scripts of moved tokens.
* **`readStatements_append_semicolon`**: tokens behind a script and a semicolon.
-/

namespace ScalarScript

open ScalarScript.Parser

/-! ## Moving -/

/-- The token at another place. -/
def Token.moved (f : Position → Position) (t : Token) : Token := { t with position := f t.position }

/-- The failure at another place. -/
def ParseError.moved (f : Position → Position) (e : ParseError) : ParseError :=
  { e with position := e.position.map f }

/-- The halt of a reader whose tokens are moved. -/
def Halt.moved (f : Position → Position) : Halt → Halt
  | missing expected rest => missing expected (rest.map (Token.moved f))
  | tooDeep => tooDeep

/-- Places are read as they are where tokens are moved to, and as moved where they are moved
from. -/
def Relocation.moved (f : Position → Position) : Relocation :=
  ⟨Option.map f, id, fun p => ⟨f p, rfl⟩⟩

variable {f : Position → Position} {k : Nat}

theorem forall₂_alike_moved (tokens : List Token) :
    List.Forall₂ (Token.Alike (.moved f)) tokens (tokens.map (Token.moved f)) :=
  List.forall₂_map_right_iff.mpr (List.forall₂_same.mpr fun _ _ => ⟨rfl, rfl, rfl⟩)

theorem forall₂_alike_unmoved (tokens : List Token) :
    List.Forall₂ (Token.Alike .unplaced) (tokens.map (Token.moved f)) tokens :=
  List.forall₂_map_left_iff.mpr (List.forall₂_same.mpr fun _ _ => ⟨rfl, rfl, rfl⟩)

theorem Statement.mapPositions_id (s : Statement) : s.mapPositions id = s := by
  cases s <;> simp only [mapPositions, Expr.mapPositions_id, id]

theorem Halt.toError_moved (f : Position → Position) (halt : Halt) (start stop : Position) :
    (halt.moved f).toError (f start) (f stop) = (halt.toError start stop).moved f := by
  cases halt with
  | tooDeep => rfl
  | missing expected rest => cases rest <;> rfl

/-! ## Statements -/

section Readers

variable {α : Type} {V : α → α → Prop} {tokens : List Token}
  {out : Except Halt (α × List Token)} {run' : List Token → Except Halt (α × List Token)}

/-- What a reader comes to on the tokens moved. -/
theorem Peeks.moved (h : Peeks (.moved f) V tokens out run') {rest : List Token}
    (hrest : rest ∈ restOf out) :
    SameEnd V (rest.map (Token.moved f)) out (run' (tokens.map (Token.moved f))) := by
  obtain ⟨used, rfl, hsame⟩ := h rest hrest
  rw [List.map_append]
  exact hsame _ _ (forall₂_alike_moved used)
    (Relocation.sameNext_of_forall₂ _ (forall₂_alike_moved rest))

/-- What a reader comes to on moved tokens, it comes to on the tokens, unless its depth ends. -/
theorem Peeks.ne_tooDeep_of_moved (tokens : List Token)
    (h : Peeks .unplaced V (tokens.map (Token.moved f)) out run') (hout : out ≠ .error .tooDeep) :
    run' tokens ≠ .error .tooDeep := by
  obtain ⟨rest, hrest⟩ : ∃ rest, rest ∈ restOf out := by
    match out with
    | .ok (_, rest) => exact ⟨rest, rfl⟩
    | .error (.missing _ rest) => exact ⟨rest, rfl⟩
    | .error .tooDeep => exact absurd rfl hout
  obtain ⟨used, htokens, hsame⟩ := h rest hrest
  have halike := forall₂_alike_unmoved (f := f) tokens
  rw [htokens] at halike
  obtain ⟨used', rest', hused, hrest', rfl⟩ := exists_of_forall₂_append halike
  have hend := hsame used' rest' hused (Relocation.sameNext_of_forall₂ _ hrest')
  intro hdeep
  rw [hdeep] at hend
  cases hend

end Readers

/-- **A statement of moved tokens** is the statement moved, or fails as it does. -/
theorem runStatement_moved (f : Position → Position) (k : Nat) (t : Token) (rest : List Token) :
    runStatement (Parser.expr k) (t.moved f) (rest.map (Token.moved f)) =
      ((runStatement (Parser.expr k) t rest).map fun p =>
        (p.1.mapPositions (Option.map f), p.2.map (Token.moved f))).mapError (Halt.moved f) := by
  have hpeeks := peeks_runStatement (r := .moved f) (Nat.le_refl k) t rest
  match h : runStatement (Parser.expr k) t rest with
  | .ok (s, behind) =>
    rw [h] at hpeeks
    obtain ⟨s', hs, hrun⟩ := (hpeeks.moved rfl).eq_ok
    have hs : s.mapPositions (Option.map f) = s' := hs.trans s'.mapPositions_id
    rw [← hs] at hrun
    exact hrun
  | .error (.missing expected left) =>
    rw [h] at hpeeks
    exact (hpeeks.moved rfl).eq_missing
  | .error .tooDeep =>
    have hback := peeks_runStatement (r := .unplaced) (Nat.le_refl k) (t.moved f)
      (rest.map (Token.moved f))
    by_contra hne
    exact Peeks.ne_tooDeep_of_moved (t :: rest) hback hne h

/-! ## Scripts -/

/-- **A script of moved tokens** is the script moved, or fails as it does. -/
theorem readStatements_moved (f : Position → Position) (k : Nat) (stop : Position)
    (tokens : List Token) :
    Script.readStatements (Parser.expr k) (f stop) (tokens.map (Token.moved f)) =
      ((Script.readStatements (Parser.expr k) stop tokens).map
        (List.map (Statement.mapPositions (Option.map f)))).mapError (ParseError.moved f) := by
  fun_induction Script.readStatements (Parser.expr k) stop tokens with
  | case1 => exact Grammar.readStatements_nil
  | case2 t rest ht ih =>
    rw [List.map_cons, Grammar.readStatements_semicolon, ih]
    exact Token.isMark_eq_true_iff.mp ht
  | case3 t rest ht halt hs =>
    have hne : (t.moved f).kind ≠ .mark .semicolon := fun hk =>
      ht (Token.isMark_eq_true_iff.mpr hk)
    have hmoved : runStatement (Parser.expr k) (t.moved f) (rest.map (Token.moved f)) =
        .error (halt.moved f) := by rw [runStatement_moved, hs]; rfl
    rw [List.map_cons, Grammar.readStatements_halt hne hmoved]
    exact congrArg Except.error (halt.toError_moved f t.position stop)
  | case4 t rest ht s behind hs hlt ih =>
    have hne : (t.moved f).kind ≠ .mark .semicolon := fun hk =>
      ht (Token.isMark_eq_true_iff.mpr hk)
    have hmoved : runStatement (Parser.expr k) (t.moved f) (rest.map (Token.moved f)) =
        .ok (s.mapPositions (Option.map f), behind.map (Token.moved f)) := by
      rw [runStatement_moved, hs]
      rfl
    rw [List.map_cons, Grammar.readStatements_statement hne hmoved, ih]
    cases Script.readStatements (Parser.expr k) stop behind <;> rfl

/-- **Behind a script and a semicolon**, tokens are read as if they stood alone. -/
theorem readStatements_append_semicolon (stop : Position) (d : Grammar.ScriptDerivation)
    (hk : d.nesting ≤ k) (semicolon : Grammar.MarkToken .semicolon) (rest : List Token) :
    Script.readStatements (Parser.expr k) stop (d.tokens ++ semicolon.1 :: rest) =
      (Script.readStatements (Parser.expr k) stop rest).map (d.statements ++ ·) := by
  induction d with
  | empty =>
    show Script.readStatements _ stop (semicolon.1 :: rest) =
      (Script.readStatements _ stop rest).map ([] ++ ·)
    rw [Grammar.readStatements_semicolon semicolon.2]
    cases Script.readStatements (Parser.expr k) stop rest <;> rfl
  | last s => exact Grammar.readStatements_ended s hk (Grammar.takeEnd_semicolon semicolon rest)
  | skip other d ih =>
    rw [Grammar.ScriptDerivation.tokens, List.cons_append,
      Grammar.readStatements_semicolon other.2]
    exact ih hk
  | statement s other d ih =>
    obtain ⟨hs, hd⟩ := Nat.max_le.mp hk
    rw [Grammar.ScriptDerivation.tokens, List.append_assoc, List.cons_append,
      Grammar.readStatements_ended s hs (Grammar.takeEnd_semicolon other _), ih hd]
    cases Script.readStatements (Parser.expr k) stop rest <;> rfl

end ScalarScript
