import ScalarScript.Except
import ScalarScript.Token.Scan

/-!
# Scanning one line

A source without line feeds is one line, and a line is scanned token by token: what is behind a
token does not matter for it, and is scanned as if it stood there alone, but for its column.

Results:
* `lines_eq_singleton`, `scan_eq_of_line`: a source of one line is scanned as that line.
* `scanLine_blank`, `scanLine_lexeme`: blanks are passed, and the first token is taken off.
-/

namespace ScalarScript

/-- A text without line feeds is one line. -/
theorem Text.lines_eq_singleton {t : Text} (h : CodePoint.scalar '\n' ∉ t) : t.lines = [t] := by
  induction t with
  | nil => rfl
  | cons p t ih =>
    have hne : p ≠ .scalar '\n' := by
      rintro rfl
      exact h List.mem_cons_self
    have hp : p.is '\n' = false := by simpa [CodePoint.is] using hne
    have ht := ih fun hm => h (List.mem_cons_of_mem p hm)
    rw [Text.lines, hp, if_neg Bool.false_ne_true, ht]

/-- A source without line feeds is scanned as its one line. -/
theorem Tokens.scan_eq_of_line {t : Text} (h : CodePoint.scalar '\n' ∉ t) :
    Tokens.scan t = (scanLine 1 1 t).map fun tokens => ⟨tokens, ⟨1, t.length + 1⟩⟩ := by
  unfold Tokens.scan
  rw [Text.lines_eq_singleton h]
  unfold scanLines scanLines
  cases scanLine 1 1 t with
  | error e => rfl
  | ok tokens =>
    show Except.ok (⟨tokens ++ [], stopOf [t]⟩ : Tokens) = .ok ⟨tokens, ⟨1, t.length + 1⟩⟩
    rw [List.append_nil]
    rfl

theorem scanLine_nil {line column : Nat} : scanLine line column [] = .ok [] := by rw [scanLine]

theorem scanLine_blank {line column : Nat} {p : CodePoint} {rest : Text} (hp : p.isBlank = true) :
    scanLine line column (p :: rest) = scanLine line (column + 1) rest := by
  rw [scanLine, if_pos hp]

theorem scanLine_comment {line column : Nat} {text : Text} :
    scanLine line column (Text.of "//" ++ text) = .ok [] := by
  show scanLine line column (.scalar '/' :: .scalar '/' :: text) = .ok []
  rw [scanLine, if_neg (by decide), if_pos (by rfl)]

/-- Comments start with a slash. -/
theorem startsComment_eq_false {p : CodePoint} (h : p ≠ .scalar '/') {rest : Text} :
    Text.startsWith (p :: rest) "//" = false := by
  have hne : (CodePoint.scalar '/' == p) = false := by simpa using h.symm
  show (CodePoint.scalar '/' == p && _) = false
  rw [hne, Bool.false_and]

/-- The first token of a line, and the tokens behind it. -/
theorem scanLine_lexeme {line column : Nat} {p : CodePoint} {word rest : Text} {kind : Token.Kind}
    (hblank : p.isBlank = false) (hcomment : Text.startsWith (p :: (word ++ rest)) "//" = false)
    (h : lexeme p (word ++ rest) = .ok (kind, p :: word)) :
    scanLine line column (p :: (word ++ rest)) =
      (scanLine line (column + (word.length + 1)) rest).map
        (⟨kind, p :: word, ⟨line, column⟩⟩ :: ·) := by
  rw [scanLine, hblank, if_neg Bool.false_ne_true, hcomment, if_neg Bool.false_ne_true, h]
  simp only [List.length_cons, Nat.add_sub_cancel, List.drop_left]

end ScalarScript
