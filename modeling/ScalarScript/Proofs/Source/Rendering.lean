import ScalarScript.Proofs.Source.Same
import ScalarScript.Proofs.Source.Words

/-!
# Statements as source text

Every statement that a source can write is written by one in which nothing is left to precedence:
an expression that is no leaf stands in parentheses, blanks separate all words, and the scalars of
literals are escapes. In parentheses, a call of `print` is no print statement, and no expression
looks like the target of an assignment.

* `Expr.words`, `Statement.words`, `Script.source`: the words of an expression and of a statement,
  and the text of statements.
* `Expr.levels`: the levels that a reader is inside when it reads these words.

Results:
* `WellFormed.readable_words`: the words can be scanned.
* `WellFormed.legible`, `exists_statement`: the words are derived as what they are the words of.
* **`parse_onto_wellFormed`**: parsing is onto the well-formed scripts.
-/

namespace ScalarScript

open Grammar

/-! ## Words -/

/-- The sign of a comparison. -/
def Comparison.symbol : Comparison → Symbol
  | equal => .equal
  | notEqual => .notEqual
  | greater => .greater
  | greaterEqual => .greaterEqual
  | less => .less
  | lessEqual => .lessEqual

/-- The sign of a binary operator. -/
def BinaryOperator.symbol : BinaryOperator → Symbol
  | add => .plus
  | subtract => .minus
  | compare c => c.symbol

/-- The sign of a unary operator. -/
def UnaryOperator.symbol : UnaryOperator → Symbol
  | negate => .minus
  | not => .not

/-- The number of a datum, where it has one. -/
def Datum.number (d : Datum) : Nat := (d.integer?.getD 0).toNat

/-- The word of a leaf. Data that no source can write is written as some word of its kind. -/
def Word.ofChar (d : Datum) : Word :=
  .char (((CodePoint.ofNat? d.number).bind CodePoint.char?).getD ' ')

/-- The word of a truth value. -/
def Word.ofBool (d : Datum) : Word := .keyword (if d.number = 1 then .true_ else .false_)

/-- Words in parentheses. -/
def Word.group (words : List Word) : List Word :=
  .mark .openParen :: (words ++ [.mark .closeParen])

/-- The words of an expression, in parentheses unless it is a leaf. -/
def Expr.words : Expr → List Word
  | string value _ => [.string value]
  | char value _ => [.ofChar value]
  | int value _ => [.number value.number]
  | bool value _ => [.ofBool value]
  | var name _ => [.name name.plain]
  | binary op left right _ => Word.group (left.words ++ .symbol op.symbol :: right.words)
  | unary op operand _ => Word.group (.symbol op.symbol :: operand.words)
  | method target name arguments _ =>
    Word.group (target.words ++ .mark .dot :: .name name.plain ::
      Word.group (argumentWords arguments))
  | call name arguments _ => Word.group (.name name.plain :: Word.group (argumentWords arguments))
  | index target i _ =>
    Word.group (target.words ++ .mark .openBracket :: (i.words ++ [.mark .closeBracket]))
where
  argumentWords : List Expr → List Word
    | [] => []
    | e :: rest => e.words ++ otherWords rest
  otherWords : List Expr → List Word
    | [] => []
    | e :: rest => .mark .comma :: (e.words ++ otherWords rest)

/-- The words of a statement, without its end. -/
def Statement.words : Statement → List Word
  | declare name value _ => .keyword .let_ :: .name name.plain :: .symbol .assign :: value.words
  | constant name value _ => .keyword .const :: .name name.plain :: .symbol .assign :: value.words
  | assign name value _ => .name name.plain :: .symbol .assign :: value.words
  | indexAssign name i value _ =>
    .name name.plain :: .mark .openBracket ::
      (i.words ++ .mark .closeBracket :: .symbol .assign :: value.words)
  | print value _ => .name (Text.of "print") :: Word.group value.words
  | expression value _ => value.words

/-- The words of statements, each with a semicolon at its end. -/
def Script.words (statements : List Statement) : List Word :=
  statements.flatMap fun s => s.words ++ [.mark .semicolon]

/-- The source text of statements. -/
def Script.source (statements : List Statement) : Text :=
  Word.spaced (words statements)

/-- The levels that a reader is inside when it reads the words of an expression: one for each
group, and one more for each operand of a unary operator, argument and index. -/
def Expr.levels : Expr → Nat
  | string _ _ | char _ _ | int _ _ | bool _ _ | var _ _ => 0
  | binary _ left right _ => max left.levels right.levels + 1
  | unary _ operand _ => operand.levels + 2
  | method target _ arguments _ => max target.levels (argumentLevels arguments) + 1
  | call _ arguments _ => argumentLevels arguments + 1
  | index target i _ => max target.levels (i.levels + 1) + 1
where
  argumentLevels : List Expr → Nat
    | [] => 0
    | e :: rest => max (e.levels + 1) (argumentLevels rest)

/-! ## The words can be scanned -/

theorem isName_print : (Text.of "print").IsName := by
  refine ⟨⟨0, .scalar 'p', Text.of "rint", rfl, by decide, by decide⟩, fun k => ?_⟩
  cases k <;> decide

theorem Datum.number_int (n : Nat) : (Datum.int n).number = n := rfl

theorem Word.ofChar_int (c : Char) : ofChar (.int c.toNat) = .char c := by
  have hpoint : CodePoint.ofNat? c.toNat = some (.scalar c) := CodePoint.ofNat?_toNat (.scalar c)
  rw [ofChar, Datum.number_int, hpoint]
  rfl

theorem Word.ofBool_bool (b : Bool) :
    ofBool (.bool b) = .keyword (if b then .true_ else .false_) := by
  cases b <;> rfl

theorem Word.readable_group {words : List Word} (h : ∀ w ∈ words, w.Readable) :
    ∀ w ∈ group words, w.Readable :=
  List.forall_mem_cons.mpr ⟨readable_mark _, List.forall_mem_append.mpr
    ⟨h, List.forall_mem_singleton.mpr (readable_mark _)⟩⟩

theorem Expr.readable_otherWords {es : List Expr}
    (h : ∀ e ∈ es, ∀ w ∈ e.words, w.Readable) : ∀ w ∈ words.otherWords es, w.Readable := by
  induction es with
  | nil => exact nofun
  | cons e es ih =>
    obtain ⟨he, hes⟩ := List.forall_mem_cons.mp h
    exact List.forall_mem_cons.mpr
      ⟨Word.readable_mark _, List.forall_mem_append.mpr ⟨he, ih hes⟩⟩

theorem Expr.readable_argumentWords {es : List Expr}
    (h : ∀ e ∈ es, ∀ w ∈ e.words, w.Readable) : ∀ w ∈ words.argumentWords es, w.Readable := by
  cases es with
  | nil => exact nofun
  | cons e es =>
    obtain ⟨he, hes⟩ := List.forall_mem_cons.mp h
    exact List.forall_mem_append.mpr ⟨he, readable_otherWords hes⟩

theorem Expr.WellFormed.readable_words {e : Expr} (h : e.WellFormed) :
    ∀ w ∈ e.words, w.Readable := by
  induction h with
  | string s _ => exact List.forall_mem_singleton.mpr (Word.readable_string s)
  | char c _ =>
    rw [Expr.words, Word.ofChar_int]
    exact List.forall_mem_singleton.mpr (Word.readable_char c)
  | int hn _ => exact List.forall_mem_singleton.mpr (Word.readable_number hn)
  | bool b _ => exact List.forall_mem_singleton.mpr (Word.readable_keyword _)
  | var hn _ => exact List.forall_mem_singleton.mpr (Word.readable_name hn)
  | binary op _ _ _ hl hr =>
    refine Word.readable_group (List.forall_mem_append.mpr ⟨hl, ?_⟩)
    exact List.forall_mem_cons.mpr ⟨Word.readable_symbol _, hr⟩
  | unary op _ _ he =>
    exact Word.readable_group (List.forall_mem_cons.mpr ⟨Word.readable_symbol _, he⟩)
  | method _ hn _ _ ht ha =>
    refine Word.readable_group (List.forall_mem_append.mpr ⟨ht, ?_⟩)
    simp only [List.forall_mem_cons]
    exact ⟨Word.readable_mark _, Word.readable_name hn,
      Word.readable_group (readable_argumentWords ha)⟩
  | call _ hn _ ha =>
    exact Word.readable_group (List.forall_mem_cons.mpr
      ⟨Word.readable_name hn, Word.readable_group (readable_argumentWords ha)⟩)
  | index _ _ _ ht hi =>
    refine Word.readable_group (List.forall_mem_append.mpr ⟨ht, ?_⟩)
    simp only [List.forall_mem_cons, List.forall_mem_append]
    exact ⟨Word.readable_mark _, hi, Word.readable_mark _, nofun⟩

theorem Statement.WellFormed.readable_words {s : Statement} (h : s.WellFormed) :
    ∀ w ∈ s.words, w.Readable := by
  cases h with
  | declare _ hn he | constant _ hn he =>
    simp only [Statement.words, List.forall_mem_cons]
    exact ⟨Word.readable_keyword _, Word.readable_name hn, Word.readable_symbol _,
      he.readable_words⟩
  | assign _ hn he =>
    simp only [Statement.words, List.forall_mem_cons]
    exact ⟨Word.readable_name hn, Word.readable_symbol _, he.readable_words⟩
  | indexAssign _ hn hi he =>
    simp only [Statement.words, List.forall_mem_cons, List.forall_mem_append]
    exact ⟨Word.readable_name hn, Word.readable_mark _, hi.readable_words, Word.readable_mark _,
      Word.readable_symbol _, he.readable_words⟩
  | print _ he =>
    exact List.forall_mem_cons.mpr
      ⟨Word.readable_name isName_print, Word.readable_group he.readable_words⟩
  | expression _ he => exact he.readable_words

theorem Script.readable_words {ss : List Statement} (h : ∀ s ∈ ss, s.WellFormed) :
    ∀ w ∈ words ss, w.Readable := by
  intro w hw
  obtain ⟨s, hs, hw⟩ := List.mem_flatMap.mp hw
  rcases List.mem_append.mp hw with hw | hw
  · exact (h s hs).readable_words w hw
  · rw [List.mem_singleton.mp hw]
    exact Word.readable_mark _

/-! ## The words are derived -/

theorem Token.kind_of_word {t : Token} {w : Word} (h : t.word = w) : t.kind = w.kind :=
  congrArg Word.kind h

theorem Token.text_of_word {t : Token} {w : Word} (h : t.word = w) : t.text = w.text :=
  congrArg Word.text h

/-- Whether tokens are derived as an expression that stands for itself wherever an operand may
stand, at the levels of the expression. -/
def Expr.Derived (e : Expr) (tokens : List Token) : Prop :=
  ∃ d : Derivation .primary, d.tokens = tokens ∧
    Expr.withoutPositions d.tree = e.withoutPositions ∧ d.nesting = e.levels

/-- Whether all tokens with the words of an expression are derived as it. -/
def Expr.Legible (e : Expr) : Prop :=
  ∀ tokens : List Token, tokens.map Token.word = e.words → e.Derived tokens

namespace Grammar

/-- A primary as an operand. -/
def operandOf (d : Derivation .primary) : Derivation .unary := .bare (.operand d .noSuffix)

/-- An expression that consists of one operand. -/
def exprOfOperand (d : Derivation .unary) : Derivation .expr :=
  .expr (.additive d .noAddition) .noComparison

theorem tokens_operandOf (d : Derivation .primary) : (operandOf d).tokens = d.tokens :=
  List.append_nil _

theorem tokens_exprOfOperand (d : Derivation .unary) : (exprOfOperand d).tokens = d.tokens := by
  simp [exprOfOperand, Derivation.tokens]

theorem nesting_operandOf (d : Derivation .primary) : (operandOf d).nesting = d.nesting + 1 := by
  simp [operandOf, Derivation.nesting]

theorem nesting_exprOfOperand (d : Derivation .unary) : (exprOfOperand d).nesting = d.nesting := by
  simp [exprOfOperand, Derivation.nesting]

theorem exists_literal {t : Token} {e : Expr} (h : t.literal? = some e) :
    ∃ d : Derivation .primary, d.tokens = [t] ∧ d.tree = e ∧ d.nesting = 0 := by
  have hsome : t.literal?.isSome = true := by rw [h, Option.isSome_some]
  exact ⟨.literal ⟨t, hsome⟩, rfl, Option.get_of_eq_some hsome h, rfl⟩

/-- Two operands with an additive operator between them. -/
theorem exists_additive {op : BinaryOperator} {t : Token} (h : t.additive? = some op)
    (l r : Derivation .primary) :
    ∃ d : Derivation .expr, d.tokens = l.tokens ++ t :: r.tokens ∧
      d.tree = Expr.binary op l.tree r.tree t.position ∧
      d.nesting = max l.nesting r.nesting + 1 := by
  have hsome : t.additive?.isSome = true := by rw [h, Option.isSome_some]
  refine ⟨.expr (.additive (operandOf l) (.add ⟨t, hsome⟩ (operandOf r) .noAddition))
    .noComparison, ?_, ?_, ?_⟩
  · simp [Derivation.tokens, tokens_operandOf]
  · exact congrArg (Expr.binary · l.tree r.tree t.position) (Option.get_of_eq_some hsome h)
  · simp only [Derivation.nesting, nesting_operandOf]
    omega

/-- Two operands with a comparison between them. -/
theorem exists_comparison {c : Comparison} {t : Token} (h : t.comparison? = some c)
    (l r : Derivation .primary) :
    ∃ d : Derivation .expr, d.tokens = l.tokens ++ t :: r.tokens ∧
      d.tree = Expr.binary (.compare c) l.tree r.tree t.position ∧
      d.nesting = max l.nesting r.nesting + 1 := by
  have hsome : t.comparison?.isSome = true := by rw [h, Option.isSome_some]
  refine ⟨.expr (.additive (operandOf l) .noAddition)
    (.compare ⟨t, hsome⟩ (.additive (operandOf r) .noAddition)), ?_, ?_, ?_⟩
  · simp [Derivation.tokens, tokens_operandOf]
  · exact congrArg (fun c => Expr.binary (.compare c) l.tree r.tree t.position)
      (Option.get_of_eq_some hsome h)
  · simp only [Derivation.nesting, nesting_operandOf]
    omega

/-- Two operands with the sign of an operator between them. -/
theorem exists_binary {op : BinaryOperator} {t : Token} (ht : t.word = .symbol op.symbol)
    (l r : Derivation .primary) :
    ∃ d : Derivation .expr, d.tokens = l.tokens ++ t :: r.tokens ∧
      d.tree = Expr.binary op l.tree r.tree t.position ∧
      d.nesting = max l.nesting r.nesting + 1 := by
  have hk := Token.kind_of_word ht
  cases op with
  | add | subtract => exact exists_additive (by simp only [Token.additive?, hk]; rfl) l r
  | compare c =>
    have hop : t.comparison? = some c := by
      cases c <;> (simp only [Token.comparison?, hk]; rfl)
    exact exists_comparison hop l r

/-- An operand with the sign of an operator in front. -/
theorem exists_unary {op : UnaryOperator} {t : Token} (ht : t.word = .symbol op.symbol)
    (e : Derivation .primary) :
    ∃ d : Derivation .unary, d.tokens = t :: e.tokens ∧
      d.tree = Expr.unary op e.tree t.position ∧ d.nesting = e.nesting + 2 := by
  have hk := Token.kind_of_word ht
  have hop : t.unary? = some op := by
    cases op <;> (simp only [Token.unary?, hk]; rfl)
  have hsome : t.unary?.isSome = true := by rw [hop, Option.isSome_some]
  refine ⟨.unary ⟨t, hsome⟩ (operandOf e), ?_, ?_, ?_⟩
  · simp [Derivation.tokens, tokens_operandOf]
  · exact congrArg (Expr.unary · e.tree t.position) (Option.get_of_eq_some hsome hop)
  · simp only [Derivation.nesting, nesting_operandOf]

/-- Tokens with the words of an expression are derived as an expression. -/
theorem exists_expr {e : Expr} (h : e.Legible) {tokens : List Token}
    (ht : tokens.map Token.word = e.words) :
    ∃ d : Derivation .expr, d.tokens = tokens ∧
      Expr.withoutPositions d.tree = e.withoutPositions ∧ d.nesting = e.levels + 1 := by
  obtain ⟨d, rfl, htree, hnesting⟩ := h tokens ht
  refine ⟨exprOfOperand (operandOf d), ?_, htree, ?_⟩
  · rw [tokens_exprOfOperand, tokens_operandOf]
  · rw [nesting_exprOfOperand, nesting_operandOf, hnesting]

/-- The further arguments of a call. -/
theorem exists_others {es : List Expr} (h : ∀ e ∈ es, e.Legible) {tokens : List Token}
    (ht : tokens.map Token.word = Expr.words.otherWords es) :
    ∃ d : Derivation .others, d.tokens = tokens ∧
      List.map Expr.withoutPositions d.tree = es.map Expr.withoutPositions ∧
      d.nesting = Expr.levels.argumentLevels es := by
  induction es generalizing tokens with
  | nil => exact ⟨.noOther, (List.map_eq_nil_iff.mp ht).symm, rfl, rfl⟩
  | cons e es ih =>
    obtain ⟨he, hes⟩ := List.forall_mem_cons.mp h
    obtain ⟨comma, ts, rfl, hcomma, hts⟩ := List.map_eq_cons_iff.mp ht
    obtain ⟨us, vs, rfl, hus, hvs⟩ := List.map_eq_append_iff.mp hts
    obtain ⟨d, rfl, htree, hnesting⟩ := exists_expr he hus
    obtain ⟨ds, rfl, htrees, hnestings⟩ := ih hes hvs
    refine ⟨.other ⟨comma, Token.kind_of_word hcomma⟩ d ds, rfl, ?_, ?_⟩
    · exact congrArg₂ List.cons htree htrees
    · rw [Derivation.nesting, hnesting, hnestings]
      rfl

/-- The arguments of a call. -/
theorem exists_arguments {es : List Expr} (h : ∀ e ∈ es, e.Legible) {tokens : List Token}
    (ht : tokens.map Token.word = Expr.words.argumentWords es) :
    ∃ d : Derivation .arguments, d.tokens = tokens ∧
      List.map Expr.withoutPositions d.tree = es.map Expr.withoutPositions ∧
      d.nesting = Expr.levels.argumentLevels es := by
  cases es with
  | nil => exact ⟨.noArgument, (List.map_eq_nil_iff.mp ht).symm, rfl, rfl⟩
  | cons e es =>
    obtain ⟨he, hes⟩ := List.forall_mem_cons.mp h
    obtain ⟨us, vs, rfl, hus, hvs⟩ := List.map_eq_append_iff.mp ht
    obtain ⟨d, rfl, htree, hnesting⟩ := exists_expr he hus
    obtain ⟨ds, rfl, htrees, hnestings⟩ := exists_others hes hvs
    refine ⟨.arguments d ds, rfl, ?_, ?_⟩
    · exact congrArg₂ List.cons htree htrees
    · rw [Derivation.nesting, hnesting, hnestings]
      rfl

/-- Arguments in parentheses. -/
theorem exists_group {es : List Expr} (h : ∀ e ∈ es, e.Legible) {tokens : List Token}
    (ht : tokens.map Token.word = Word.group (Expr.words.argumentWords es)) :
    ∃ (opening : MarkToken .openParen) (d : Derivation .arguments)
      (closing : MarkToken .closeParen), tokens = opening.1 :: (d.tokens ++ [closing.1]) ∧
      List.map Expr.withoutPositions d.tree = es.map Expr.withoutPositions ∧
      d.nesting = Expr.levels.argumentLevels es := by
  obtain ⟨o, ts, rfl, ho, hts⟩ := List.map_eq_cons_iff.mp ht
  obtain ⟨us, cs, rfl, hus, hcs⟩ := List.map_eq_append_iff.mp hts
  obtain ⟨c, _, rfl, hc, hnil⟩ := List.map_eq_cons_iff.mp hcs
  obtain ⟨d, rfl, htree, hnesting⟩ := exists_arguments h hus
  rw [List.map_eq_nil_iff.mp hnil]
  exact ⟨⟨o, Token.kind_of_word ho⟩, d, ⟨c, Token.kind_of_word hc⟩, rfl, htree, hnesting⟩

end Grammar

namespace Expr

theorem withoutPositions_method (target : Expr) (name : Datum) (arguments : List Expr)
    (pos : Option Position) : (method target name arguments pos).withoutPositions =
      method target.withoutPositions name (arguments.map withoutPositions) none :=
  congrArg (method target.withoutPositions name · none) (listMapPositions_eq _ arguments)

theorem withoutPositions_call (name : Datum) (arguments : List Expr) (pos : Option Position) :
    (call name arguments pos).withoutPositions =
      call name (arguments.map withoutPositions) none :=
  congrArg (call name · none) (listMapPositions_eq _ arguments)

section Legible

variable {e left right operand target i : Expr} {name : Text} {arguments : List Expr}
  {pos : Option Position}

/-- A leaf that is one token. -/
theorem legible_of_literal {w : Word} (hw : e.words = [w]) (hl : e.levels = 0)
    (h : ∀ t : Token, t.kind = w.kind →
      ∃ f, t.literal? = some f ∧ f.withoutPositions = e.withoutPositions) : e.Legible := by
  intro tokens ht
  rw [hw] at ht
  obtain ⟨t, _, rfl, ht, hnil⟩ := List.map_eq_cons_iff.mp ht
  obtain ⟨f, hf, hsame⟩ := h t (Token.kind_of_word ht)
  obtain ⟨d, hd, htree, hnesting⟩ := exists_literal hf
  rw [List.map_eq_nil_iff.mp hnil]
  exact ⟨d, hd, htree ▸ hsame, hnesting.trans hl.symm⟩

theorem legible_var (pos : Option Position) : (var (.text name) pos).Legible := by
  intro tokens ht
  obtain ⟨t, _, rfl, ht, hnil⟩ := List.map_eq_cons_iff.mp ht
  rw [List.map_eq_nil_iff.mp hnil]
  refine ⟨.name ⟨t, Token.kind_of_word ht⟩, rfl, ?_, rfl⟩
  exact congrArg (fun t => var (.text t) none) (Token.text_of_word ht)

/-- An expression whose words stand in parentheses. -/
theorem legible_of_group {words : List Word} (hw : e.words = Word.group words)
    (h : ∀ inner : List Token, inner.map Token.word = words →
      ∃ d : Derivation .expr, d.tokens = inner ∧
        withoutPositions d.tree = e.withoutPositions ∧ d.nesting = e.levels) : e.Legible := by
  intro tokens ht
  rw [hw] at ht
  obtain ⟨o, ts, rfl, ho, hts⟩ := List.map_eq_cons_iff.mp ht
  obtain ⟨inner, cs, rfl, hinner, hcs⟩ := List.map_eq_append_iff.mp hts
  obtain ⟨c, _, rfl, hc, hnil⟩ := List.map_eq_cons_iff.mp hcs
  obtain ⟨d, rfl, htree, hnesting⟩ := h inner hinner
  rw [List.map_eq_nil_iff.mp hnil]
  exact ⟨.group ⟨o, Token.kind_of_word ho⟩ d ⟨c, Token.kind_of_word hc⟩, rfl, htree, hnesting⟩

theorem legible_binary (op : BinaryOperator) (pos : Option Position) (hl : left.Legible)
    (hr : right.Legible) : (binary op left right pos).Legible := by
  refine legible_of_group rfl fun inner hinner => ?_
  obtain ⟨ls, ts, rfl, hls, hts⟩ := List.map_eq_append_iff.mp hinner
  obtain ⟨t, rs, rfl, ht, hrs⟩ := List.map_eq_cons_iff.mp hts
  obtain ⟨dl, rfl, hltree, hlnesting⟩ := hl ls hls
  obtain ⟨dr, rfl, hrtree, hrnesting⟩ := hr rs hrs
  obtain ⟨d, hd, htree, hnesting⟩ := exists_binary ht dl dr
  refine ⟨d, hd, ?_, ?_⟩
  · rw [htree]
    exact congrArg₂ (binary op · · none) hltree hrtree
  · rw [hnesting, hlnesting, hrnesting]
    rfl

theorem legible_unary (op : UnaryOperator) (pos : Option Position) (he : operand.Legible) :
    (unary op operand pos).Legible := by
  refine legible_of_group rfl fun inner hinner => ?_
  obtain ⟨t, es, rfl, ht, hes⟩ := List.map_eq_cons_iff.mp hinner
  obtain ⟨de, rfl, hetree, henesting⟩ := he es hes
  obtain ⟨d, hd, htree, hnesting⟩ := exists_unary ht de
  refine ⟨exprOfOperand d, (tokens_exprOfOperand d).trans hd, ?_, ?_⟩
  · show withoutPositions d.tree = _
    rw [htree]
    exact congrArg (unary op · none) hetree
  · rw [nesting_exprOfOperand, hnesting, henesting]
    rfl

theorem legible_method (pos : Option Position) (ht : target.Legible)
    (ha : ∀ e ∈ arguments, e.Legible) : (method target (.text name) arguments pos).Legible := by
  refine legible_of_group rfl fun inner hinner => ?_
  obtain ⟨ts, us, rfl, hts, hus⟩ := List.map_eq_append_iff.mp hinner
  obtain ⟨dot, vs, rfl, hdot, hvs⟩ := List.map_eq_cons_iff.mp hus
  obtain ⟨n, ws, rfl, hn, hws⟩ := List.map_eq_cons_iff.mp hvs
  obtain ⟨dt, rfl, httree, htnesting⟩ := ht ts hts
  obtain ⟨o, da, c, rfl, hatree, hanesting⟩ := exists_group ha hws
  obtain rfl : n.text = name := Token.text_of_word hn
  refine ⟨exprOfOperand (.bare (.operand dt (.method ⟨dot, Token.kind_of_word hdot⟩
    ⟨n, Token.kind_of_word hn⟩ o da c .noSuffix))), ?_, ?_, ?_⟩
  · rw [tokens_exprOfOperand]
    rfl
  · rw [withoutPositions_method, ← httree, ← hatree]
    exact withoutPositions_method _ _ _ _
  · rw [nesting_exprOfOperand]
    simp only [Derivation.nesting, htnesting, hanesting, levels]
    omega

theorem legible_call (pos : Option Position) (ha : ∀ e ∈ arguments, e.Legible) :
    (call (.text name) arguments pos).Legible := by
  refine legible_of_group rfl fun inner hinner => ?_
  obtain ⟨n, ws, rfl, hn, hws⟩ := List.map_eq_cons_iff.mp hinner
  obtain ⟨o, da, c, rfl, hatree, hanesting⟩ := exists_group ha hws
  obtain rfl : n.text = name := Token.text_of_word hn
  refine ⟨exprOfOperand (operandOf (.call ⟨n, Token.kind_of_word hn⟩ o da c)), ?_, ?_, ?_⟩
  · rw [tokens_exprOfOperand, tokens_operandOf]
    rfl
  · rw [withoutPositions_call, ← hatree]
    exact withoutPositions_call _ _ _
  · rw [nesting_exprOfOperand, nesting_operandOf, Derivation.nesting, hanesting]
    rfl

theorem legible_index (pos : Option Position) (ht : target.Legible) (hi : i.Legible) :
    (index target i pos).Legible := by
  refine legible_of_group rfl fun inner hinner => ?_
  obtain ⟨ts, us, rfl, hts, hus⟩ := List.map_eq_append_iff.mp hinner
  obtain ⟨o, vs, rfl, ho, hvs⟩ := List.map_eq_cons_iff.mp hus
  obtain ⟨is, cs, rfl, his, hcs⟩ := List.map_eq_append_iff.mp hvs
  obtain ⟨c, _, rfl, hc, hnil⟩ := List.map_eq_cons_iff.mp hcs
  obtain ⟨dt, rfl, httree, htnesting⟩ := ht ts hts
  obtain ⟨di, rfl, hitree, hinesting⟩ := exists_expr hi his
  rw [List.map_eq_nil_iff.mp hnil]
  refine ⟨exprOfOperand (.bare (.operand dt (.index ⟨o, Token.kind_of_word ho⟩ di
    ⟨c, Token.kind_of_word hc⟩ .noSuffix))), ?_, ?_, ?_⟩
  · rw [tokens_exprOfOperand]
    rfl
  · exact congrArg₂ (index · · none) httree hitree
  · simp only [nesting_exprOfOperand, Derivation.nesting, htnesting, hinesting, levels]
    omega

end Legible

/-- The words of a well-formed expression are derived as it. -/
theorem WellFormed.legible {e : Expr} (h : e.WellFormed) : e.Legible := by
  induction h with
  | string s pos =>
    refine legible_of_literal rfl rfl fun t hk => ⟨.string s t.position, ?_, rfl⟩
    rw [Token.literal?, hk]
    rfl
  | char c pos =>
    refine legible_of_literal (by rw [words, Word.ofChar_int]) rfl fun t hk =>
      ⟨.char (.int c.toNat) t.position, ?_, rfl⟩
    rw [Token.literal?, hk]
    rfl
  | @int n hn pos =>
    refine legible_of_literal rfl rfl fun t hk => ⟨.int (.int n) t.position, ?_, rfl⟩
    rw [Token.literal?, hk]
    rfl
  | bool b pos =>
    refine legible_of_literal (by rw [words, Word.ofBool_bool]) rfl fun t hk =>
      ⟨.bool (.bool b) t.position, ?_, rfl⟩
    rw [Token.literal?, hk]
    cases b <;> rfl
  | var hn pos => exact legible_var pos
  | binary op pos _ _ hl hr => exact legible_binary op pos hl hr
  | unary op pos _ he => exact legible_unary op pos he
  | method pos hn _ _ ht ha => exact legible_method pos ht ha
  | call pos hn _ ha => exact legible_call pos ha
  | index pos _ _ ht hi => exact legible_index pos ht hi

end Expr

/-! ### Statements -/

namespace Grammar

/-- What is written as an expression does not start like a print statement. -/
theorem startsPrint_of_words {e : Expr} {tokens : List Token}
    (ht : tokens.map Token.word = e.words) : startsPrint tokens = false := by
  -- a leaf is one word, and all else starts with a parenthesis
  have hleaf : ∀ w : Word, tokens.map Token.word = [w] → startsPrint tokens = false := by
    intro w hw
    obtain ⟨t, _, rfl, -, hnil⟩ := List.map_eq_cons_iff.mp hw
    rw [List.map_eq_nil_iff.mp hnil]
    rfl
  have hgroup : ∀ words, tokens.map Token.word = Word.group words →
      startsPrint tokens = false := by
    intro words hw
    obtain ⟨t, ts, rfl, ht, -⟩ := List.map_eq_cons_iff.mp hw
    have hk : t.kind = .mark .openParen := Token.kind_of_word ht
    cases ts with
    | nil => rfl
    | cons u us =>
      rw [startsPrint, hk]
      rfl
  cases e with
  | string | char | int | bool | var => exact hleaf _ ht
  | binary | unary | method | call | index => exact hgroup _ ht

/-- The words of a well-formed statement are derived as it. -/
theorem exists_statement {s : Statement} (h : s.WellFormed) {tokens : List Token}
    (ht : tokens.map Token.word = s.words) :
    ∃ d : StatementDerivation, d.tokens = tokens ∧
      d.statement.withoutPositions = s.withoutPositions ∧
      ∀ depth, (∀ e ∈ s.expressions, e.levels < depth) → d.nesting ≤ depth := by
  have hdepth : ∀ {e : Expr} {d : Derivation .expr}, d.nesting = e.levels + 1 →
      ∀ depth, (∀ f ∈ [e], f.levels < depth) → d.nesting ≤ depth := by
    intro e d hd depth hlt
    rw [hd]
    exact hlt e List.mem_cons_self
  cases h with
  | declare _ hn he =>
    obtain ⟨k, ts, rfl, hk, hts⟩ := List.map_eq_cons_iff.mp ht
    obtain ⟨n, us, rfl, hname, hus⟩ := List.map_eq_cons_iff.mp hts
    obtain ⟨a, vs, rfl, ha, hvs⟩ := List.map_eq_cons_iff.mp hus
    obtain ⟨d, rfl, htree, hnesting⟩ := exists_expr he.legible hvs
    refine ⟨.declare ⟨k, Token.kind_of_word hk⟩ ⟨n, Token.kind_of_word hname⟩
      ⟨a, Token.kind_of_word ha⟩ d, rfl, ?_, hdepth hnesting⟩
    exact congrArg₂ (fun n e => Statement.declare (.text n) e none) (Token.text_of_word hname) htree
  | constant _ hn he =>
    obtain ⟨k, ts, rfl, hk, hts⟩ := List.map_eq_cons_iff.mp ht
    obtain ⟨n, us, rfl, hname, hus⟩ := List.map_eq_cons_iff.mp hts
    obtain ⟨a, vs, rfl, ha, hvs⟩ := List.map_eq_cons_iff.mp hus
    obtain ⟨d, rfl, htree, hnesting⟩ := exists_expr he.legible hvs
    refine ⟨.constant ⟨k, Token.kind_of_word hk⟩ ⟨n, Token.kind_of_word hname⟩
      ⟨a, Token.kind_of_word ha⟩ d, rfl, ?_, hdepth hnesting⟩
    exact congrArg₂ (fun n e => Statement.constant (.text n) e none) (Token.text_of_word hname)
      htree
  | assign _ hn he =>
    obtain ⟨n, us, rfl, hname, hus⟩ := List.map_eq_cons_iff.mp ht
    obtain ⟨a, vs, rfl, ha, hvs⟩ := List.map_eq_cons_iff.mp hus
    obtain ⟨d, rfl, htree, hnesting⟩ := exists_expr he.legible hvs
    refine ⟨.assign ⟨n, Token.kind_of_word hname⟩ ⟨a, Token.kind_of_word ha⟩ d, rfl, ?_,
      hdepth hnesting⟩
    exact congrArg₂ (fun n e => Statement.assign (.text n) e none) (Token.text_of_word hname) htree
  | indexAssign _ hn hi he =>
    obtain ⟨n, ts, rfl, hname, hts⟩ := List.map_eq_cons_iff.mp ht
    obtain ⟨o, us, rfl, ho, hus⟩ := List.map_eq_cons_iff.mp hts
    obtain ⟨is, vs, rfl, his, hvs⟩ := List.map_eq_append_iff.mp hus
    obtain ⟨c, ws, rfl, hc, hws⟩ := List.map_eq_cons_iff.mp hvs
    obtain ⟨a, xs, rfl, ha, hxs⟩ := List.map_eq_cons_iff.mp hws
    obtain ⟨di, rfl, hitree, hinesting⟩ := exists_expr hi.legible his
    obtain ⟨d, rfl, htree, hnesting⟩ := exists_expr he.legible hxs
    obtain rfl : n.text = _ := Token.text_of_word hname
    refine ⟨.indexAssign ⟨n, Token.kind_of_word hname⟩ ⟨o, Token.kind_of_word ho⟩ di
      ⟨c, Token.kind_of_word hc⟩ ⟨a, Token.kind_of_word ha⟩ d, rfl, ?_, fun depth hlt => ?_⟩
    · exact congrArg₂ (fun i e => Statement.indexAssign (.text n.text) i e none) hitree htree
    · obtain ⟨hlti, hlt⟩ := List.forall_mem_cons.mp hlt
      exact Nat.max_le.mpr ⟨hinesting ▸ hlti, hdepth hnesting depth hlt⟩
  | print _ he =>
    obtain ⟨n, ts, rfl, hname, hts⟩ := List.map_eq_cons_iff.mp ht
    obtain ⟨o, us, rfl, ho, hus⟩ := List.map_eq_cons_iff.mp hts
    obtain ⟨vs, cs, rfl, hvs, hcs⟩ := List.map_eq_append_iff.mp hus
    obtain ⟨c, _, rfl, hc, hnil⟩ := List.map_eq_cons_iff.mp hcs
    obtain ⟨d, rfl, htree, hnesting⟩ := exists_expr he.legible hvs
    rw [List.map_eq_nil_iff.mp hnil]
    refine ⟨.print ⟨n, Token.kind_of_word hname, Token.text_of_word hname⟩
      ⟨o, Token.kind_of_word ho⟩ d ⟨c, Token.kind_of_word hc⟩, rfl, ?_, hdepth hnesting⟩
    exact congrArg (fun e => Statement.print e none) htree
  | expression _ he =>
    obtain ⟨d, rfl, htree, hnesting⟩ := exists_expr he.legible ht
    refine ⟨.expression d (startsPrint_of_words ht), rfl, ?_, hdepth hnesting⟩
    exact congrArg (fun e => Statement.expression e none) htree

/-- The words of well-formed statements are derived as them. -/
theorem exists_script {ss : List Statement} (h : ∀ s ∈ ss, s.WellFormed) {tokens : List Token}
    (ht : tokens.map Token.word = Script.words ss) :
    ∃ d : ScriptDerivation, d.tokens = tokens ∧
      d.statements.map Statement.withoutPositions = ss.map Statement.withoutPositions ∧
      ∀ depth, (∀ s ∈ ss, ∀ e ∈ s.expressions, e.levels < depth) → d.nesting ≤ depth := by
  induction ss generalizing tokens with
  | nil => exact ⟨.empty, (List.map_eq_nil_iff.mp ht).symm, rfl, fun depth _ => Nat.zero_le depth⟩
  | cons s ss ih =>
    obtain ⟨hs, hss⟩ := List.forall_mem_cons.mp h
    obtain ⟨ts, us, rfl, hts, hus⟩ := List.map_eq_append_iff.mp ht
    obtain ⟨vs, cs, rfl, hvs, hcs⟩ := List.map_eq_append_iff.mp hts
    obtain ⟨c, _, rfl, hc, hnil⟩ := List.map_eq_cons_iff.mp hcs
    obtain ⟨d, rfl, hstatement, hdepth⟩ := exists_statement hs hvs
    obtain ⟨ds, rfl, hstatements, hdepths⟩ := ih hss hus
    rw [List.map_eq_nil_iff.mp hnil]
    refine ⟨.statement d ⟨c, Token.kind_of_word hc⟩ ds, ?_, ?_, fun depth hlt => ?_⟩
    · rw [List.append_assoc]
      rfl
    · exact congrArg₂ List.cons hstatement hstatements
    · obtain ⟨hlt, hlts⟩ := List.forall_mem_cons.mp hlt
      exact Nat.max_le.mpr ⟨hdepth depth hlt, hdepths depth hlts⟩

end Grammar

/-! ## Sources -/

/-- The source text of well-formed statements is read as them, at every depth that holds them. -/
theorem Script.exists_ofTokens_source {ss : List Statement} (h : ∀ s ∈ ss, s.WellFormed) :
    ∃ tokens, Tokens.scan (source ss) = .ok tokens ∧
      ∀ depth, (∀ s ∈ ss, ∀ e ∈ s.expressions, e.levels < depth) →
        ∃ read, ofTokens depth tokens = .ok read ∧
          read.map Statement.withoutPositions = ss.map Statement.withoutPositions := by
  obtain ⟨tokens, hscan, hwords⟩ := Word.scan_spaced (readable_words h)
  obtain ⟨d, hd, hstatements, hdepth⟩ := exists_script h hwords
  refine ⟨tokens, hscan, fun depth hlt => ⟨d.statements, ?_, hstatements⟩⟩
  exact ofTokens_eq_ok_iff.mpr ⟨d, hd, hdepth depth hlt, rfl⟩

/-- **Parsing is onto the well-formed scripts.** A script that is parsed is well-formed, whatever
the limit of nesting, and every list of well-formed statements has a source text that is read as
these statements, positions left out, at every limit that holds them. Within the limit of scripts,
parsing the text gives the script of these statements. -/
theorem parse_onto_wellFormed :
    (∀ (source : Text) (name : Datum) (script : Script),
      Script.parse source name = .ok script → script.WellFormed) ∧
    (∀ (source : Text) (tokens : Tokens) (depth : Nat) (ss : List Statement),
      Tokens.scan source = .ok tokens → Script.ofTokens depth tokens = .ok ss →
        ∀ s ∈ ss, s.WellFormed) ∧
    (∀ ss : List Statement, (∀ s ∈ ss, s.WellFormed) →
      ∃ tokens, Tokens.scan (Script.source ss) = .ok tokens ∧
        ∀ depth, (∀ s ∈ ss, ∀ e ∈ s.expressions, e.levels < depth) →
          ∃ read, Script.ofTokens depth tokens = .ok read ∧
            read.map Statement.withoutPositions = ss.map Statement.withoutPositions) ∧
    (∀ script : Script, script.WellFormed →
      (∀ s ∈ script.statements, ∀ e ∈ s.expressions, e.levels < Script.nestingLimit) →
        ∃ read, Script.parse (Script.source script.statements) script.name = .ok read ∧
          read.withoutPositions = script.withoutPositions) := by
  refine ⟨fun _ _ _ h => Script.wellFormed_parse h,
    fun _ _ _ _ hscan h => wellFormed_ofTokens hscan h,
    fun _ h => Script.exists_ofTokens_source h, fun script h hlt => ?_⟩
  obtain ⟨tokens, hscan, hread⟩ := Script.exists_ofTokens_source h
  obtain ⟨read, hof, hsame⟩ := hread Script.nestingLimit hlt
  refine ⟨⟨read, script.name⟩, parse_eq_ok_iff.mpr ⟨tokens, read, hscan, hof, rfl⟩, ?_⟩
  exact congrArg (Script.mk · script.name) hsame

/-- The theorem at an expression statement that calls a function named `print`. -/
theorem parse_onto_wellFormed_of_call :
    let called :=
      Statement.expression (.call (.text (Text.of "print")) [.int (.int 1) none] none) none
    Script.source [called] = Text.of "( print ( 1 ) ) ; " ∧
      ∃ read, Script.parse (Script.source [called]) (.text Script.defaultName) = .ok read ∧
        read.WellFormed ∧
        read.withoutPositions = Script.withoutPositions ⟨[called], .text Script.defaultName⟩ := by
  have hone : (Expr.int (.int 1) none).WellFormed := .int (n := 1) (by decide) none
  have hcalled : ∀ s ∈ [Statement.expression (.call (.text (Text.of "print"))
      [.int (.int 1) none] none) none], s.WellFormed := by
    refine List.forall_mem_singleton.mpr (.expression none (.call none isName_print ?_))
    exact List.forall_mem_singleton.mpr hone
  obtain ⟨read, hread, hsame⟩ := parse_onto_wellFormed.2.2.2 ⟨_, .text Script.defaultName⟩ hcalled
    (by decide)
  exact ⟨by decide, read, hread, parse_onto_wellFormed.1 _ _ _ hread, hsame⟩

end ScalarScript
