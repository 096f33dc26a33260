import ScalarScript.Proofs.Grammar.Lookahead.Moved
import ScalarScript.Proofs.Source.Separators

/-!
# Sources one below the other

A source is written below another one, with a semicolon on a line of its own between them. The lines
of the whole are the lines of the first, the one with the semicolon, and the lines of the second. A
line is scanned in the same way wherever it stands, so the tokens of the second source are moved
down and not changed, and so are its errors. The semicolon ends the last statement of the first
source, whether or not that has one of its own.

* `Position.below`: the place so many lines further down.
* `Text.stacked`: a source below another one.

Results:
* `lines_append_newline`: the lines of two texts, one below the other.
* `scanLine_below`, `scanLines_below`, `scanLines_append`: lines further down, and lines below
  lines.
* `scan_stacked`: the tokens of two sources, one below the other.
* **`parse_stacked`**: parsing is compositional.
-/

namespace ScalarScript

open ScalarScript.Parser

/-! ## Further down -/

/-- The place so many lines further down. -/
def Position.below (n : Nat) (p : Position) : Position := { p with line := p.line + n }

/-- The failure at another place. -/
def LexError.moved (f : Position → Position) (e : LexError) : LexError :=
  { e with position := f e.position }

/-- The failure at another place. -/
def SourceError.moved (f : Position → Position) : SourceError → SourceError
  | lex e => .lex (e.moved f)
  | parse e => .parse (e.moved f)

/-- The outcome of scanning lines that stand so many lines further down. -/
def scannedBelow (n : Nat) (r : Except LexError (List Token)) : Except LexError (List Token) :=
  (r.map (List.map (Token.moved (.below n)))).mapError (LexError.moved (.below n))

section Lines

variable {line n : Nat}

/-- A line is scanned in the same way wherever it stands. -/
theorem scanLine_below (line n column : Nat) (text : Text) :
    scanLine (line + n) column text = scannedBelow n (scanLine line column text) := by
  fun_induction scanLine line column text with
  | case1 => exact scanLine_nil
  | case2 column p rest hp ih => rw [scanLine_blank hp, ih]
  | case3 column p rest hp hcomment =>
    rw [scanLine, if_neg hp, if_pos hcomment]
    rfl
  | case4 column p rest hp hcomment bad hl =>
    rw [scanLine, if_neg hp, if_neg hcomment, hl]
    rfl
  | case5 column p rest hp hcomment kind text hl ih =>
    rw [scanLine, if_neg hp, if_neg hcomment, hl]
    simp only [ih]
    cases scanLine line (column + text.length) (rest.drop (text.length - 1)) <;> rfl

theorem scanLines_below (line n : Nat) (texts : List Text) :
    scanLines (line + n) texts = scannedBelow n (scanLines line texts) := by
  induction texts generalizing line with
  | nil => rfl
  | cons text texts ih =>
    rw [scanLines, scanLines, scanLine_below, Nat.add_right_comm, ih]
    cases scanLine line 1 text with
    | error e => rfl
    | ok tokens =>
      cases scanLines (line + 1) texts with
      | error e => rfl
      | ok others => exact congrArg Except.ok List.map_append.symm

/-- Lines below lines are scanned behind them. -/
theorem scanLines_append (line : Nat) (above texts : List Text) :
    scanLines line (above ++ texts) =
      scanLines line above >>= fun tokens =>
        (scanLines (line + above.length) texts).map (tokens ++ ·) := by
  induction above generalizing line with
  | nil =>
    show scanLines line texts = (scanLines line texts).map ([] ++ ·)
    cases scanLines line texts <;> rfl
  | cons text above ih =>
    rw [List.cons_append, scanLines, scanLines, ih, List.length_cons, Nat.add_comm above.length,
      ← Nat.add_assoc]
    cases scanLine line 1 text with
    | error e => rfl
    | ok tokens =>
      cases scanLines (line + 1) above with
      | error e => rfl
      | ok others =>
        cases scanLines (line + 1 + above.length) texts with
        | error e => rfl
        | ok more => exact congrArg Except.ok (List.append_assoc ..).symm

end Lines

/-! ## Two sources -/

namespace Text

/-- A source below another one, with a semicolon on the line between them. -/
def stacked (a b : Text) : Text := a ++ Text.of "\n;\n" ++ b

/-- The lines of two texts, one below the other. -/
theorem lines_append_newline (a b : Text) :
    (a ++ .scalar '\n' :: b).lines = a.lines ++ b.lines := by
  induction a with
  | nil => exact lines_newline b
  | cons p a ih =>
    rw [List.cons_append, lines, lines, ih]
    obtain ⟨first, others, ha⟩ := List.exists_cons_of_ne_nil (lines_ne_nil a)
    rw [ha]
    split <;> rfl

theorem lines_stacked (a b : Text) :
    (a.stacked b).lines = a.lines ++ Text.of ";" :: b.lines := by
  have hsplit : a.stacked b = a ++ .scalar '\n' :: (Text.of ";" ++ .scalar '\n' :: b) := by
    rw [stacked, List.append_assoc]
    rfl
  rw [hsplit, lines_append_newline, lines_append_newline]
  rfl

end Text

/-- How far a source is moved down below another one. -/
def Text.height (a : Text) : Nat := a.lines.length + 1

theorem scanLine_semicolon (line : Nat) :
    scanLine line 1 (Text.of ";") = .ok [⟨.mark .semicolon, Text.of ";", ⟨line, 1⟩⟩] := by
  have hlexeme : lexeme (.scalar ';') [] = .ok (.mark .semicolon, Text.of ";") := rfl
  show scanLine line 1 [.scalar ';'] = _
  rw [scanLine, if_neg (by decide), if_neg (by decide), hlexeme]
  simp only [List.drop_nil, scanLine_nil]
  rfl

/-- The end of the lower of two sources. -/
theorem stopOf_stacked (a b : Text) :
    stopOf (a.stacked b).lines = (stopOf b.lines).below a.height := by
  have hlast : (a.stacked b).lines.getLast? = b.lines.getLast? := by
    rw [Text.lines_stacked, List.getLast?_append_of_ne_nil _ (List.cons_ne_nil _ _),
      List.getLast?_cons_of_ne_nil b.lines_ne_nil]
  have hlength : (a.stacked b).lines.length = b.lines.length + a.height := by
    rw [Text.lines_stacked, List.length_append, List.length_cons, Text.height]
    omega
  rw [stopOf, hlast, hlength]
  rfl

/-- **The tokens of two sources**, one below the other: those of the first, the semicolon, and those
of the second moved down; or the error of the second, moved down. -/
theorem scan_stacked {a : Text} {tokens : Tokens} (ha : Tokens.scan a = .ok tokens) (b : Text) :
    Tokens.scan (a.stacked b) =
      ((Tokens.scan b).map fun below =>
        ⟨tokens.tokens ++ ⟨.mark .semicolon, Text.of ";", ⟨a.height, 1⟩⟩ ::
          below.tokens.map (Token.moved (.below a.height)), below.stop.below a.height⟩).mapError
        (LexError.moved (.below a.height)) := by
  obtain ⟨ts, hts, rfl⟩ := Except.map_eq_ok_iff.mp ha
  have hbelow : scanLines (1 + a.lines.length) (Text.of ";" :: b.lines) =
      (scannedBelow a.height (scanLines 1 b.lines)).map
        (⟨.mark .semicolon, Text.of ";", ⟨a.height, 1⟩⟩ :: ·) := by
    rw [scanLines, scanLine_semicolon, Nat.add_assoc, scanLines_below, Nat.add_comm 1]
    rfl
  rw [Tokens.scan, Tokens.scan, stopOf_stacked, Text.lines_stacked, scanLines_append, hts]
  show ((scanLines (1 + a.lines.length) (Text.of ";" :: b.lines)).map _).map _ = _
  rw [hbelow]
  cases scanLines 1 b.lines <;> rfl

/-! ## Parsing -/

/-- What a source is parsed as below another one: the statements of both, those of the lower source
at their places there, or its error at its place there. -/
theorem parse_stacked_eq {a : Text} {nameA : Datum} {script : Script}
    (ha : Script.parse a nameA = .ok script) (b : Text) (nameB name : Datum) :
    Script.parse (a.stacked b) name =
      ((Script.parse b nameB).map fun below =>
        ⟨script.statements ++
          below.statements.map (Statement.mapPositions (Option.map (.below a.height))),
          name⟩).mapError (SourceError.moved (.below a.height)) := by
  obtain ⟨tokens, ss, hscan, hss, rfl⟩ := Grammar.parse_eq_ok_iff.mp ha
  obtain ⟨d, hd, hk, rfl⟩ := Grammar.ofTokens_eq_ok_iff.mp hss
  rw [Script.parse, Script.parse, scan_stacked hscan]
  cases Tokens.scan b with
  | error e => rfl
  | ok below =>
    have hread := readStatements_append_semicolon (below.stop.below a.height) d hk
      ⟨⟨.mark .semicolon, Text.of ";", ⟨a.height, 1⟩⟩, rfl⟩
      (below.tokens.map (Token.moved (.below a.height)))
    rw [readStatements_moved, hd] at hread
    have hparse : Script.ofTokens Script.nestingLimit
        ⟨tokens.tokens ++ ⟨.mark .semicolon, Text.of ";", ⟨a.height, 1⟩⟩ ::
          below.tokens.map (Token.moved (.below a.height)), below.stop.below a.height⟩ =
        ((Script.ofTokens Script.nestingLimit below).map fun ss =>
          d.statements ++ ss.map (Statement.mapPositions (Option.map (.below a.height)))).mapError
            (ParseError.moved (.below a.height)) := by
      refine hread.trans ?_
      unfold Script.ofTokens
      cases Script.readStatements (Parser.expr Script.nestingLimit) below.stop below.tokens <;> rfl
    show (Except.mapError _ (Script.ofTokens _ _) >>= _) = _
    rw [hparse]
    show _ = Except.mapError _ (Except.map _ (Except.mapError _ (Script.ofTokens _ below) >>= _))
    cases Script.ofTokens Script.nestingLimit below <;> rfl

/-- **Parsing is compositional.** Let a source be parsed, and another one be written below it, with
a semicolon on the line between them. Whatever the names, the whole is parsed exactly if the other
source is. Its statements are those of the first source, places and all, and behind them those of
the other, further down by the lines of the first and one. If the other source is refused, by the
scanner or by the parser, the whole is refused with the same error, as much further down. -/
theorem parse_stacked {a : Text} {nameA : Datum} {script : Script}
    (ha : Script.parse a nameA = .ok script) (b : Text) (nameB name : Datum) :
    ((∃ whole, Script.parse (a ++ Text.of "\n;\n" ++ b) name = .ok whole) ↔
      ∃ below, Script.parse b nameB = .ok below) ∧
    (∀ below, Script.parse b nameB = .ok below →
      Script.parse (a ++ Text.of "\n;\n" ++ b) name =
        .ok ⟨script.statements ++ below.statements.map
          (Statement.mapPositions (Option.map (.below (a.lines.length + 1)))), name⟩) ∧
    (∀ e, Script.parse b nameB = .error (.lex e) →
      Script.parse (a ++ Text.of "\n;\n" ++ b) name =
        .error (.lex { e with position := e.position.below (a.lines.length + 1) })) ∧
    ∀ e, Script.parse b nameB = .error (.parse e) →
      Script.parse (a ++ Text.of "\n;\n" ++ b) name =
        .error (.parse { e with position := e.position.map (.below (a.lines.length + 1)) }) := by
  have hwhole := parse_stacked_eq ha b nameB name
  rw [Text.stacked] at hwhole
  rw [hwhole]
  refine ⟨?_, fun below h => by rw [h]; rfl, fun e h => by rw [h]; rfl, fun e h => by rw [h]; rfl⟩
  cases Script.parse b nameB with
  | error e => exact ⟨nofun, nofun⟩
  | ok below => exact ⟨fun _ => ⟨below, rfl⟩, fun _ => ⟨_, rfl⟩⟩

/-! ### Below a statement that only the source ends, and a comment -/

/-- A script that is a name and nothing else. -/
def loneName (name : Text) : Grammar.ScriptDerivation :=
  .last (.expression (Grammar.exprOfPrimary
    (.name ⟨⟨.identifier, name, ⟨1, 1⟩⟩, rfl⟩) .noSuffix) rfl)

/-- A statement that reads a name at the start of a line. -/
def readsNameOn (line : Nat) (name : Text) : Statement :=
  .expression (.var (.text name) (some ⟨line, 1⟩)) (some ⟨line, 1⟩)

theorem parse_loneName {source name : Text} {stop : Position}
    (h : Tokens.scan source = .ok ⟨(loneName name).tokens, stop⟩) :
    Script.parse source .null = .ok ⟨[readsNameOn 1 name], .null⟩ := by
  refine Grammar.parse_of_derivation _ (loneName name) h ?_
  have hone : (loneName name).nesting = 1 := rfl
  rw [hone, Script.nestingLimit]
  omega

/-- The tokens of `const 2`. -/
def namelessConstant : Tokens :=
  ⟨[⟨.keyword .const, Text.of "const", ⟨1, 1⟩⟩, ⟨.number 2, Text.of "2", ⟨1, 7⟩⟩], ⟨1, 8⟩⟩

theorem ofTokens_namelessConstant (k : Nat) : Script.ofTokens k namelessConstant =
    .error ⟨.missing (.variableName .const) (some (Text.of "2")), some ⟨1, 7⟩⟩ := by
  have hhalt : runStatement (Parser.expr k) ⟨.keyword .const, Text.of "const", ⟨1, 1⟩⟩
      [⟨.number 2, Text.of "2", ⟨1, 7⟩⟩] =
        .error (.missing (.variableName .const) [⟨.number 2, Text.of "2", ⟨1, 7⟩⟩]) := rfl
  exact Grammar.readStatements_halt (by decide) hhalt

/-- The two lines of `g` and a comment are followed by the semicolon on the third line, so what is
written below is found on the fourth: a name, a declaration without a name, and a sign that is no
token. -/
theorem parse_stacked_below_comment :
    Script.parse (Text.of "g\n// no end" ++ Text.of "\n;\n" ++ Text.of "h") .null =
      .ok ⟨[readsNameOn 1 (Text.of "g"), readsNameOn 4 (Text.of "h")], .null⟩ ∧
    Script.parse (Text.of "g\n// no end" ++ Text.of "\n;\n" ++ Text.of "const 2") .null =
      .error (.parse ⟨.missing (.variableName .const) (some (Text.of "2")), some ⟨4, 7⟩⟩) ∧
    Script.parse (Text.of "g\n// no end" ++ Text.of "\n;\n" ++ Text.of "@") .null =
      .error (.lex ⟨.unexpectedChar, Text.of "@", ⟨4, 1⟩, none⟩) := by
  have hscan : Tokens.scan (Text.of "g\n// no end") =
      .ok ⟨(loneName (Text.of "g")).tokens, ⟨2, 10⟩⟩ := by decide +kernel
  have hname : Tokens.scan (Text.of "h") = .ok ⟨(loneName (Text.of "h")).tokens, ⟨1, 2⟩⟩ := by
    decide +kernel
  have hdeclaration : Tokens.scan (Text.of "const 2") = .ok namelessConstant := by decide +kernel
  have hsign : Script.parse (Text.of "@") .null =
      .error (.lex ⟨.unexpectedChar, Text.of "@", ⟨1, 1⟩, none⟩) := by with_unfolding_all rfl
  have hmissing : Script.parse (Text.of "const 2") .null =
      .error (.parse ⟨.missing (.variableName .const) (some (Text.of "2")), some ⟨1, 7⟩⟩) :=
    Grammar.parse_eq_error_parse_iff.mpr ⟨_, hdeclaration, ofTokens_namelessConstant _⟩
  have hstacked := fun b => parse_stacked (parse_loneName hscan) b .null .null
  exact ⟨(hstacked _).2.1 _ (parse_loneName hname), (hstacked _).2.2.2 _ hmissing,
    (hstacked _).2.2.1 _ hsign⟩

end ScalarScript
