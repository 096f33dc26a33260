import ScalarScript.Proofs.Document.Literals
import ScalarScript.Proofs.Yaml.Documents

/-!
# Scripts that are read back from YAML

Everything in a script comes back from YAML but for the texts of its literals and its name, which
single quotes may change. Where an expression is nested so deeply that its texts begin past `width`,
a line may be broken twice in a row, and then more than that is lost.

* `LegibleLiteral`: string literals of which no line is broken twice in a row.
* `Kept`: texts that single quotes do not change.

Result: **`lossless_iff_of_parse`**: a script with legible literals that is parsed is the same
after it has been written and read back exactly if its literals and its name are kept.
-/

namespace ScalarScript.Yaml

/-! ## Documents of scripts -/

section Scripts

variable {behindKey : Bool} {column : Nat}

theorem isKey_fieldNames : ∀ t ∈ Document.fieldNames, IsKey t := by
  have hall : ∀ t ∈ Document.fieldNames, t ≠ [] ∧ (∀ p ∈ t, isKeyLetter p = true) ∧
      t.length ≤ longestKey := by decide
  have hstyle : ∀ t ∈ Document.fieldNames, style t = .plain := by decide
  exact fun t ht => ⟨(hall t ht).1, (hall t ht).2.1, hstyle t ht, (hall t ht).2.2⟩

/-- An object whose field names are among those of nodes. -/
theorem legible_ofFields {fields : List (String × Datum)} (names : List String)
    (hn : fields.map Prod.fst = names) (hs : (names.map Text.of).Sublist Document.fieldNames)
    (h : ∀ field ∈ fields, Legible true (column + 2) field.2) :
    Legible behindKey column (Datum.ofFields fields) := by
  subst hn
  rw [List.map_map] at hs
  refine .object behindKey ?_ ?_ ?_
  · rw [List.map_map]
    exact hs.nodup Document.nodup_fieldNames
  · refine List.forall_mem_map.mpr fun field hf => isKey_fieldNames _ ?_
    exact hs.subset (List.mem_map_of_mem hf)
  · exact List.forall_mem_map.mpr h

/-- No escape stands in front of a space where there is none. -/
theorem escapesBeforeSpace_eq_false {t : Text} (h : ∀ p ∈ t, p.is ' ' = false) :
    escapesBeforeSpace t = false := by
  induction t with
  | nil => rfl
  | cons p t ih =>
    have ht := ih (List.forall_mem_cons.mp h).2
    rcases t with _ | ⟨q, _ | ⟨r, u⟩⟩
    · rfl
    · rfl
    · rw [escapesBeforeSpace, h q (by simp), Bool.and_false, Bool.false_or]
      exact ht

theorem legible_text {t : Text} (h : ∀ p ∈ t, p.is ' ' = false) :
    Legible behindKey column (.text t) :=
  .text behindKey fun _ => .inr (escapesBeforeSpace_eq_false fun p hp =>
    h p (List.mem_of_mem_tail hp))

theorem legible_ofString {s : String} (h : ∀ p ∈ Text.of s, p.is ' ' = false) :
    Legible behindKey column (.ofString s) := legible_text h

theorem legible_name {t : Text} (h : t.IsName) : Legible behindKey column (.text t) := by
  refine legible_text fun p hp => Bool.eq_false_iff.mpr fun hspace => ?_
  have hc := h.continuesName p hp
  rw [CodePoint.eq_of_is hspace] at hc
  exact absurd hc (by decide)

theorem legible_operator (op : BinaryOperator) :
    Legible behindKey column (.ofString op.spelling) := by
  cases op with
  | add | subtract => exact legible_ofString (by decide)
  | compare c => cases c <;> exact legible_ofString (by decide)

theorem legible_unaryOperator (op : UnaryOperator) :
    Legible behindKey column (.ofString op.spelling) := by
  cases op <;> exact legible_ofString (by decide)

/-- Whether no line of a literal is broken twice in a row where it is written: the expressions
around it move it to the right, and so do the statement and the list it stands in. -/
def LegibleLiteral (l : Nat × ScalarString) : Prop :=
  needsEscapes l.2.text = true → BrokenOnce (6 + 2 * l.1) l.2.text

/-- Up to 36 expressions around a literal do not matter. -/
theorem legibleLiteral_of_lt {l : Nat × ScalarString} (h : l.1 < 37) : LegibleLiteral l := by
  intro _
  left
  unfold width
  omega

theorem legible_arguments {es : List Expr} {depth : Nat}
    (h : ∀ e ∈ es, (∀ l ∈ e.literals depth, LegibleLiteral l) →
      Legible false column e.toDatum)
    (hl : ∀ l ∈ Expr.literals.listLiterals depth es, LegibleLiteral l) :
    Legible true column (.array (Expr.toDatum.listToDatum es)) := by
  refine .array ?_
  rw [if_pos rfl]
  induction es with
  | nil => exact nofun
  | cons e es ih =>
    obtain ⟨he, hes⟩ := List.forall_mem_cons.mp h
    obtain ⟨hle, hles⟩ := List.forall_mem_append.mp hl
    exact List.forall_mem_cons.mpr ⟨he hle, ih hes hles⟩

/-- The document of a well-formed expression with legible literals. -/
theorem legible_expr {e : Expr} (h : e.WellFormed) (depth : Nat)
    (hl : ∀ l ∈ e.literals depth, LegibleLiteral l) (behindKey : Bool) :
    Legible behindKey (2 + 2 * depth) e.toDatum := by
  induction h generalizing depth behindKey with
  | string s pos =>
    refine legible_ofFields ["type", "value"] rfl (by decide) ?_
    simp only [List.forall_mem_cons]
    refine ⟨legible_ofString (by decide), .text true fun hs => ?_, nofun⟩
    have hliteral := hl (depth, s) List.mem_cons_self (needsEscapes_of_style hs)
    have hcolumn : 6 + 2 * depth = 2 + 2 * depth + 2 + 2 := by omega
    rwa [hcolumn] at hliteral
  | char | int =>
    refine legible_ofFields ["type", "value"] rfl (by decide) ?_
    simp only [List.forall_mem_cons]
    exact ⟨legible_ofString (by decide), .int _ _ _, nofun⟩
  | bool b pos =>
    refine legible_ofFields ["type", "value"] rfl (by decide) ?_
    simp only [List.forall_mem_cons]
    exact ⟨legible_ofString (by decide), .bool _ _ b, nofun⟩
  | var hn pos =>
    refine legible_ofFields ["type", "name"] rfl (by decide) ?_
    simp only [List.forall_mem_cons]
    exact ⟨legible_ofString (by decide), legible_name hn, nofun⟩
  | binary op pos _ _ ihl ihr =>
    obtain ⟨hll, hlr⟩ := List.forall_mem_append.mp hl
    refine legible_ofFields ["type", "operator", "left", "right"] rfl (by decide) ?_
    simp only [List.forall_mem_cons]
    exact ⟨legible_ofString (by decide), legible_operator op, ihl (depth + 1) hll true,
      ihr (depth + 1) hlr true, nofun⟩
  | unary op pos _ ih =>
    refine legible_ofFields ["type", "operator", "operand"] rfl (by decide) ?_
    simp only [List.forall_mem_cons]
    exact ⟨legible_ofString (by decide), legible_unaryOperator op, ih (depth + 1) hl true,
      nofun⟩
  | method pos hn _ _ iht iha =>
    obtain ⟨hlt, hla⟩ := List.forall_mem_append.mp hl
    refine legible_ofFields ["type", "target", "method", "arguments"] rfl (by decide) ?_
    simp only [List.forall_mem_cons]
    exact ⟨legible_ofString (by decide), iht (depth + 1) hlt true, legible_name hn,
      legible_arguments (fun e he hle => iha e he (depth + 1) hle false) hla, nofun⟩
  | call pos hn _ iha =>
    refine legible_ofFields ["type", "name", "arguments"] rfl (by decide) ?_
    simp only [List.forall_mem_cons]
    exact ⟨legible_ofString (by decide), legible_name hn,
      legible_arguments (fun e he hle => iha e he (depth + 1) hle false) hl, nofun⟩
  | index pos _ _ iht ihi =>
    obtain ⟨hlt, hli⟩ := List.forall_mem_append.mp hl
    refine legible_ofFields ["type", "target", "index"] rfl (by decide) ?_
    simp only [List.forall_mem_cons]
    exact ⟨legible_ofString (by decide), iht (depth + 1) hlt true,
      ihi (depth + 1) hli true, nofun⟩

/-- The document of a well-formed statement with legible literals, as an item of a script. -/
theorem legible_statement {s : Statement} (h : s.WellFormed)
    (hl : ∀ l ∈ s.literals, LegibleLiteral l) : Legible false 0 s.toDatum := by
  cases h with
  | declare _ hn he | constant _ hn he | assign _ hn he =>
    refine legible_ofFields ["type", "name", "value"] rfl (by decide) ?_
    simp only [List.forall_mem_cons]
    exact ⟨legible_ofString (by decide), legible_name hn, legible_expr he 0 hl true, nofun⟩
  | indexAssign _ hn hi he =>
    obtain ⟨hli, hle⟩ := List.forall_mem_append.mp hl
    refine legible_ofFields ["type", "name", "index", "value"] rfl (by decide) ?_
    simp only [List.forall_mem_cons]
    exact ⟨legible_ofString (by decide), legible_name hn, legible_expr hi 0 hli true,
      legible_expr he 0 hle true, nofun⟩
  | print _ he | expression _ he =>
    refine legible_ofFields ["type", "value"] rfl (by decide) ?_
    simp only [List.forall_mem_cons]
    exact ⟨legible_ofString (by decide), legible_expr he 0 hl true, nofun⟩

/-- The YAML of well-formed statements with legible literals is read back. -/
theorem read_write_script {ss : List Statement} {name : Text} (hs : ∀ s ∈ ss, s.WellFormed)
    (hl : ∀ l ∈ Script.literals ⟨ss, .text name⟩, LegibleLiteral l) :
    read (write (Script.toDatum ⟨ss, .text name⟩)) =
      .ok ((Script.toDatum ⟨ss, .text name⟩).restored restoredText) := by
  have hkey : ∀ s ∈ ["name", "statements"], IsKey (Text.of s) := by
    have hmem : ∀ s ∈ ["name", "statements"], Text.of s ∈ Document.fieldNames := by decide
    exact fun s hs => isKey_fieldNames _ (hmem s hs)
  have hstatements : Legible true 0 (.array (ss.map Statement.toDatum)) := by
    refine .array (List.forall_mem_map.mpr fun s hmem => legible_statement (hs s hmem) ?_)
    exact fun l hlit => hl l (List.mem_flatMap.mpr ⟨s, hmem, hlit⟩)
  show read (write (.object [(Text.of "name", .text name), (Text.of "statements",
    .array (ss.map Statement.toDatum))])) = .ok ((Datum.object _).restored restoredText)
  refine read_write (List.cons_ne_nil _ _) ?_ ?_ ?_
  · simp only [List.map_cons, List.map_nil]
    decide
  · simp only [List.forall_mem_cons]
    exact ⟨hkey _ (by simp), hkey _ (by simp), nofun⟩
  · simp only [List.forall_mem_cons]
    exact ⟨.text true fun _ => .inl (by decide), hstatements, nofun⟩

end Scripts

/-! ## What is kept -/

/-- Whether a text that holds U+0085 has it escaped, for single quotes would lose it. -/
def Kept (t : Text) : Prop := .scalar '\u0085' ∈ t → needsEscapes t = true

theorem restoredText_eq_self_iff {t : Text} : restoredText t = t ↔ Kept t := by
  unfold restoredText Kept
  cases h : style t with
  | plain =>
    have hplain := plainText_of_style h
    have hnext : .scalar '\u0085' ∉ t := fun hmem => by
      have hbreak := hplain.breaks _ hmem
      cases hbreak
    rw [if_neg nofun]
    exact ⟨fun _ hmem => absurd hmem hnext, fun _ => rfl⟩
  | single =>
    rw [if_pos rfl, restoredFrom_eq_self_iff, not_needsEscapes_of_style h]
    exact ⟨fun hnext hmem => absurd hmem hnext, fun hkept hmem => Bool.false_ne_true (hkept hmem)⟩
  | double =>
    rw [if_neg nofun]
    exact ⟨fun _ _ => needsEscapes_of_style h, fun _ => rfl⟩

/-- What YAML gives back of a string literal. -/
def restoredLiteral (s : ScalarString) : ScalarString :=
  ScalarString.ofScalars (restoredText s.text).chars

theorem text_restoredLiteral (s : ScalarString) :
    (restoredLiteral s).text = restoredText s.text := by
  have hscalar : ∀ p ∈ restoredText s.text, p.isScalar = true := by
    intro p hp
    unfold restoredText at hp
    split at hp
    · rcases mem_restoredFrom hp with ⟨hp, -⟩ | rfl | rfl
      · exact Text.IsScalars.string s p hp
      · rfl
      · rfl
    · exact Text.IsScalars.string s p hp
  rw [restoredLiteral, ScalarString.text, ScalarString.scalars_ofScalars,
    Text.ofChars_chars hscalar]

theorem restoredLiteral_eq_self_iff {s : ScalarString} : restoredLiteral s = s ↔ Kept s.text := by
  rw [← restoredText_eq_self_iff, ← text_restoredLiteral]
  refine ⟨congrArg ScalarString.text, fun h => ?_⟩
  have hof := ScalarString.ofText_text (restoredLiteral s)
  rw [h, ScalarString.ofText_text] at hof
  injection hof with hof
  exact hof.symm

theorem restoring_restoredText : Restoring restoredText restoredLiteral := by
  refine ⟨fun t h => restoredText_eq_self_iff.mpr fun hmem => ?_, fun s =>
    (text_restoredLiteral s).symm⟩
  exact absurd (h _ hmem) (by decide)

/-- **What is lost in YAML.** A script that is parsed is read back from its YAML with everything but
the texts of its literals and its name as it was, if no line of a literal is broken twice in a row.
It is the same script exactly if no text with U+0085 is written in single quotes. -/
theorem lossless_iff_of_parse {source name : Text} {script : Script}
    (hparse : Script.parse source (.text name) = .ok script)
    (hl : ∀ l ∈ script.literals, LegibleLiteral l) :
    ∃ d read, Yaml.read (write script.toDatum) = .ok d ∧ Script.ofDatum d = .ok read ∧
      read = ⟨script.statements.map (Statement.restored restoredLiteral),
        .text (restoredText name)⟩ ∧
      (read.same script = true ↔ (∀ l ∈ script.literals, Kept l.2.text) ∧ Kept name) := by
  obtain ⟨tokens, ss, hscan, hss, rfl⟩ := Grammar.parse_eq_ok_iff.mp hparse
  have hs := wellFormed_ofTokens hscan hss
  refine ⟨_, _, read_write_script hs hl, Script.ofDatum_restored restoring_restoredText hs, rfl, ?_⟩
  rw [Script.same_restored_literals_iff hs, restoredText_eq_self_iff]
  simp only [restoredLiteral_eq_self_iff]

/-! ### U+0085 with and without a space -/

/-- A script of one string literal. -/
def literalScript (s : ScalarString) (lexeme : Text) (semicolon : Nat) : Grammar.ScriptDerivation :=
  .statement (.expression (.expr (.additive (.bare (.operand (.literal
      ⟨⟨.string s, lexeme, ⟨1, 1⟩⟩, rfl⟩) .noSuffix)) .noAddition) .noComparison) rfl)
    ⟨⟨.mark .semicolon, Text.of ";", ⟨1, semicolon⟩⟩, rfl⟩ .empty

theorem nesting_literalScript (s : ScalarString) (lexeme : Text) (semicolon : Nat) :
    (literalScript s lexeme semicolon).nesting ≤ Script.nestingLimit := by
  have hone : (literalScript s lexeme semicolon).nesting = 1 := rfl
  rw [hone, Script.nestingLimit]
  omega

theorem literals_literalScript (s : ScalarString) (lexeme : Text) (semicolon : Nat) (name : Datum) :
    Script.literals ⟨(literalScript s lexeme semicolon).statements, name⟩ = [(0, s)] := rfl

/-- The theorem at U+0085: alone it is written in single quotes and lost, in front of a space it is
escaped and kept. -/
theorem lossless_iff_of_next :
    ∃ script script' : Script,
      Script.parse (Text.of "\"\\x85\";") (.text Script.defaultName) = .ok script ∧
      Script.parse (Text.of "\"\\x85 \";") (.text Script.defaultName) = .ok script' ∧
      (∃ d read, Yaml.read (write script.toDatum) = .ok d ∧ Script.ofDatum d = .ok read ∧
        read.same script = false) ∧
      (∃ d read, Yaml.read (write script'.toDatum) = .ok d ∧ Script.ofDatum d = .ok read ∧
        read.same script' = true) := by
  have hlegible (s : ScalarString) : ∀ l ∈ [(0, s)], LegibleLiteral l :=
    List.forall_mem_singleton.mpr (legibleLiteral_of_lt (Nat.succ_pos 36))
  have hname : Kept Script.defaultName := fun hmem => absurd hmem (by decide)
  have hscan : Tokens.scan (Text.of "\"\\x85\";") = .ok ⟨(literalScript (.ofScalars ['\u0085'])
      (Text.of "\"\\x85\"") 7).tokens, ⟨1, 8⟩⟩ := by decide +kernel
  have hscan' : Tokens.scan (Text.of "\"\\x85 \";") = .ok ⟨(literalScript
      (.ofScalars ['\u0085', ' ']) (Text.of "\"\\x85 \"") 8).tokens, ⟨1, 9⟩⟩ := by decide +kernel
  have hparse := Grammar.parse_of_derivation (.text Script.defaultName) _ hscan
    (nesting_literalScript _ _ _)
  have hparse' := Grammar.parse_of_derivation (.text Script.defaultName) _ hscan'
    (nesting_literalScript _ _ _)
  obtain ⟨d, read, hread, hof, -, hsame⟩ := lossless_iff_of_parse hparse
    (by rw [literals_literalScript]; exact hlegible _)
  obtain ⟨d', read', hread', hof', -, hsame'⟩ := lossless_iff_of_parse hparse'
    (by rw [literals_literalScript]; exact hlegible _)
  rw [literals_literalScript, List.forall_mem_singleton] at hsame hsame'
  refine ⟨_, _, hparse, hparse', ⟨d, read, hread, hof, ?_⟩, ⟨d', read', hread', hof', ?_⟩⟩
  · have hlost : ¬ Kept (ScalarString.ofScalars ['\u0085']).text := fun hkept =>
      absurd (hkept (by decide)) (by decide)
    exact Bool.eq_false_iff.mpr fun h => hlost (hsame.mp h).1
  · have hkept : Kept (ScalarString.ofScalars ['\u0085', ' ']).text := fun _ => by decide
    exact hsame'.mpr ⟨hkept, hname⟩

end ScalarScript.Yaml
