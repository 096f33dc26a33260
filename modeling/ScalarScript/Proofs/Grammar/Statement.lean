import ScalarScript.Proofs.Grammar.Complete
import ScalarScript.Proofs.Grammar.Sound

/-!
# Statements

The reader of a statement chooses by its first tokens. Only a name with an index behind it is read
twice: as the target of an assignment, and where no sign of assignment follows, again from the name.

Results:
* `expr_of_name`: how an expression that starts with a name goes on.
* `runIndexAssign?_of_expr`: the first of the two readings finds no assignment where the tokens are
  an expression, whatever ends it.
* **`runStatement_statement`**, **`derived_runStatement`**: a statement is read exactly where it is
  derived.
* `StatementDerivation.tokens_append_inj`: its derivation is the only one.
* `StatementDerivation.eq_indexAssign`: with a name, an index and a sign of assignment in front, it
  is an indexed assignment.
-/

namespace ScalarScript.Grammar

open ScalarScript.Parser

variable {k : Nat} {ending after : List Token}

/-! ## Ends -/

theorem head_ending (hend : takeEnd ending = .ok after) :
    ∀ t ∈ ending.head?, t.kind = .mark .semicolon := by
  intro t ht
  rcases takeEnd_eq_ok_iff.mp hend with ⟨rfl, -⟩ | ⟨u, hu, rfl⟩
  · cases ht
  · cases ht
    exact hu

theorem stops_ending (hend : takeEnd ending = .ok after) : Stops .expr ending := by
  intro t ht
  have hk := head_ending hend t ht
  simp [Phrase.continuedBy, continuesOperand, Token.isMark, Token.additive?, Token.comparison?, hk]

/-! ## Expressions that start with a name -/

theorem opensWith_head_append {p : Phrase} (d : Derivation p) {rest : List Token} :
    ∀ t ∈ (d.tokens ++ rest).head?, p.opensWith t = true ∨ t ∈ rest.head? := by
  intro t ht
  rw [List.head?_append] at ht
  cases hd : d.tokens.head? with
  | none =>
    rw [hd] at ht
    exact .inr ht
  | some u =>
    rw [hd] at ht
    cases ht
    exact .inl (opensWith_head d t hd)

/-- An expression that starts with a name is a call there, or a variable with suffixes. -/
theorem expr_of_name {e : Derivation .expr} {n : Token} {rest : List Token}
    (hn : n.kind = .identifier) (h : e.tokens ++ ending = n :: rest) :
    (∃ opening ∈ rest.head?, opening.kind = .mark .openParen) ∨
      ∃ (suffixes : Derivation .suffixes) (additions : Derivation .additions)
        (comparison : Derivation .comparison),
        e = .expr (.additive (.bare (.operand (.name ⟨n, hn⟩) suffixes)) additions) comparison ∧
          rest = suffixes.tokens ++ (additions.tokens ++ (comparison.tokens ++ ending)) := by
  cases e with
  | expr left comparison =>
    cases left with
    | additive operand additions =>
      simp only [Derivation.tokens, List.append_assoc] at h
      cases operand with
      | unary op e =>
        have hop := op.2
        cases h
        simp [Token.unary?, hn] at hop
      | bare operand =>
        cases operand with
        | operand head suffixes =>
          simp only [Derivation.tokens, List.append_assoc] at h
          cases head with
          | literal t =>
            have ht := t.2
            cases h
            simp [Token.literal?, hn] at ht
          | name m =>
            obtain ⟨m, hm⟩ := m
            cases h
            exact .inr ⟨suffixes, additions, comparison, rfl, rfl⟩
          | call m opening args closing =>
            cases h
            exact .inl ⟨opening.1, rfl, opening.2⟩
          | group opening e closing =>
            have ho := opening.2
            cases h
            rw [hn] at ho
            cases ho

/-- What follows an operand without suffixes is neither a sign of assignment nor a bracket. -/
theorem head_chain (hend : takeEnd ending = .ok after) (additions : Derivation .additions)
    (comparison : Derivation .comparison) :
    ∀ t ∈ (additions.tokens ++ (comparison.tokens ++ ending)).head?,
      t.kind ≠ .symbol .assign ∧ t.kind ≠ .mark .openBracket := by
  intro t ht
  rcases opensWith_head_append additions t ht with h | ht
  · constructor <;> intro hk <;> simp [Phrase.opensWith, Token.additive?, hk] at h
  rcases opensWith_head_append comparison t ht with h | ht
  · constructor <;> intro hk <;> simp [Phrase.opensWith, Token.comparison?, hk] at h
  rw [head_ending hend t ht]
  constructor <;> intro hk <;> cases hk

theorem head_suffixes (hend : takeEnd ending = .ok after) (suffixes : Derivation .suffixes)
    (additions : Derivation .additions) (comparison : Derivation .comparison) :
    ∀ t ∈ (suffixes.tokens ++ (additions.tokens ++ (comparison.tokens ++ ending))).head?,
      t.kind ≠ .symbol .assign := by
  intro t ht
  rcases opensWith_head_append suffixes t ht with h | ht
  · intro hk
    simp [Phrase.opensWith, Token.isMark, hk] at h
  · exact (head_chain hend additions comparison t ht).1

/-- Where tokens are an expression and its end, no assignment is found behind a name and a
bracket. -/
theorem runIndexAssign?_of_expr {e : Derivation .expr} {n opening : Token} {rest : List Token}
    (hk : e.nesting ≤ k) (hend : takeEnd ending = .ok after) (hn : n.kind = .identifier)
    (ho : opening.kind = .mark .openBracket) (h : e.tokens ++ ending = n :: opening :: rest) :
    runIndexAssign? (Parser.expr k) n rest = .ok none := by
  rcases expr_of_name hn h with ⟨_, hp, hkind⟩ | ⟨suffixes, additions, comparison, rfl, hrest⟩
  · cases hp
    rw [ho] at hkind
    cases hkind
  cases suffixes with
  | noSuffix =>
    have hhead := head_chain hend additions comparison opening (congrArg List.head? hrest.symm)
    exact absurd ho hhead.2
  | method dot m paren args closing tail =>
    have hdot := dot.2
    cases hrest
    rw [ho] at hdot
    cases hdot
  | index bracket i closing tail =>
    simp only [Derivation.tokens, List.cons_append, List.append_assoc, List.cons.injEq] at hrest
    obtain ⟨rfl, rfl⟩ := hrest
    simp only [Derivation.nesting] at hk
    have hi : i.nesting ≤ k := by omega
    exact runIndexAssign?_eq_none
      (runIndex_eq_ok_iff.mpr ⟨closing.1, closing.2, reads i hi _ (stops_closeBracket closing _)⟩)
      (head_suffixes hend tail additions comparison)

/-- An expression with a name and an index in front has no sign of assignment behind them. -/
theorem expr_ne_indexAssign (e : Derivation .expr) (n : NameToken)
    (opening : MarkToken .openBracket) (i : Derivation .expr) (closing : MarkToken .closeBracket)
    (sign : SymbolToken .assign) (rest : List Token) :
    e.tokens ≠ n.1 :: opening.1 :: (i.tokens ++ closing.1 :: sign.1 :: rest) := by
  intro h
  have hend : takeEnd [] = .ok [] := rfl
  rcases expr_of_name n.2 ((List.append_nil _).trans h) with
    ⟨_, hp, hkind⟩ | ⟨suffixes, additions, comparison, -, hrest⟩
  · cases hp
    rw [opening.2] at hkind
    cases hkind
  cases suffixes with
  | noSuffix =>
    exact (head_chain hend additions comparison opening.1 (congrArg List.head? hrest.symm)).2
      opening.2
  | method dot m paren args closing' tail =>
    have hdot := dot.2
    rw [← (List.cons.inj hrest).1, opening.2] at hdot
    cases hdot
  | index opening' i' closing' tail =>
    simp only [Derivation.tokens, List.cons_append, List.append_assoc, token_cons_inj] at hrest
    obtain ⟨⟨rfl, rfl⟩, htail⟩ :=
      Determined.closed stops_closeBracket (determined i) hrest.2
    exact head_suffixes hend tail additions comparison sign.1 (congrArg List.head? htail.symm)
      sign.2

/-! ## What is derived is read -/

theorem reads_value {value : Derivation .expr} (hk : value.nesting ≤ k)
    (hend : takeEnd ending = .ok after) (build : Expr → Statement) :
    runAssign (Parser.expr k) build (value.tokens ++ ending) = .ok (build value.tree, after) :=
  runAssign_eq_ok_iff.mpr ⟨_, ending, reads value hk ending (stops_ending hend), hend, rfl⟩

theorem reads_declaration {value : Derivation .expr} (hk : value.nesting ≤ k)
    (hend : takeEnd ending = .ok after) (keyword : Keyword) (n : NameToken)
    (sign : SymbolToken .assign) (build : Datum → Expr → Statement) :
    runDeclaration (Parser.expr k) keyword build (n.1 :: sign.1 :: (value.tokens ++ ending)) =
      .ok (build (.text n.1.text) value.tree, after) :=
  runDeclaration_eq_ok_iff.mpr ⟨n.1, sign.1, _, value.tree, ending, n.2, sign.2, rfl,
    reads value hk ending (stops_ending hend), hend, rfl⟩

/-- What ends an expression does not make it start like a print statement. -/
theorem startsPrint_append {value : Derivation .expr} (hend : takeEnd ending = .ok after)
    (h : startsPrint value.tokens = false) : startsPrint (value.tokens ++ ending) = false := by
  cases hv : value.tokens with
  | nil => exact absurd hv (tokens_ne_nil value trivial)
  | cons n ts =>
    rw [hv] at h
    cases ts with
    | cons t ts => exact h
    | nil =>
      cases he : ending with
      | nil => rfl
      | cons t ts =>
        have hk := head_ending hend t (by rw [he]; rfl)
        simp [startsPrint, Token.isMark, hk]

/-- A statement that starts with a name and not like a print statement, and is an expression, is
read as one. -/
theorem runNamed_expression {value : Derivation .expr} {n : Token} {rest : List Token}
    (hk : value.nesting ≤ k) (hend : takeEnd ending = .ok after) (hn : n.kind = .identifier)
    (h : value.tokens ++ ending = n :: rest) (hp : startsPrint (n :: rest) = false) :
    runNamed (Parser.expr k) n rest = .ok (.expression value.tree n.position, after) := by
  have hread : runExpression (Parser.expr k) n rest =
      .ok (.expression value.tree n.position, after) := by
    rw [runExpression, ← h]
    exact reads_value hk hend _
  cases rest with
  | nil => exact hread
  | cons t ts =>
    have hprint : ¬(n.text = Text.of "print" ∧ t.isMark .openParen = true) := by
      rintro ⟨htext, ho⟩
      simp [startsPrint, hn, htext, ho] at hp
    have hassign : t.kind ≠ .symbol .assign := by
      rcases expr_of_name hn h with ⟨u, hu, ho⟩ | ⟨suffixes, additions, comparison, -, hrest⟩
      · cases hu
        rw [ho]
        nofun
      · exact head_suffixes hend suffixes additions comparison t (congrArg List.head? hrest.symm)
    rw [runNamed, if_neg hprint, if_neg (by simpa using hassign)]
    split
    · next ho =>
      rw [runIndexAssign?_of_expr hk hend hn (Token.isMark_eq_true_iff.mp ho) h]
      exact hread
    · exact hread

theorem runStatement_expression {value : Derivation .expr} {first : Token} {rest : List Token}
    (hp : startsPrint value.tokens = false) (hk : value.nesting ≤ k)
    (hend : takeEnd ending = .ok after) (h : value.tokens ++ ending = first :: rest) :
    runStatement (Parser.expr k) first rest =
      .ok (.expression value.tree first.position, after) := by
  have hread : runExpression (Parser.expr k) first rest =
      .ok (.expression value.tree first.position, after) := by
    rw [runExpression, ← h]
    exact reads_value hk hend _
  have hopens := opensWith_head value first (by rw [← head_append value trivial ending, h]; rfl)
  unfold runStatement
  split
  · next hkind =>
    simp [Phrase.opensWith, opensOperand, Token.unary?, Token.literal?, hkind] at hopens
  · next hkind =>
    simp [Phrase.opensWith, opensOperand, Token.unary?, Token.literal?, hkind] at hopens
  · next hkind => exact runNamed_expression hk hend hkind h (h ▸ startsPrint_append hend hp)
  · exact hread

/-- **What is derived as a statement is read as it.** -/
theorem runStatement_statement (s : StatementDerivation) {first : Token} {rest : List Token}
    (hk : s.nesting ≤ k) (hend : takeEnd ending = .ok after)
    (h : s.tokens ++ ending = first :: rest) :
    runStatement (Parser.expr k) first rest = .ok (s.statement, after) := by
  cases s with
  | declare keyword n sign value =>
    cases h
    rw [runStatement, keyword.2]
    exact reads_declaration hk hend .let_ n sign _
  | constant keyword n sign value =>
    cases h
    rw [runStatement, keyword.2]
    exact reads_declaration hk hend .const n sign _
  | assign n sign value =>
    cases h
    have hs := sign.2
    rw [runStatement, n.2]
    show runNamed (Parser.expr k) n.1 (sign.1 :: (value.tokens ++ ending)) = _
    rw [runNamed, if_neg (by simp [hs]), if_pos (by simp [hs])]
    exact reads_value hk hend _
  | indexAssign n opening i closing sign value =>
    obtain ⟨hi, hv⟩ := Nat.max_le.mp hk
    simp only [StatementDerivation.tokens, List.cons_append, List.append_assoc] at h
    cases h
    have hread : runIndex (Parser.expr k)
        (i.tokens ++ closing.1 :: sign.1 :: (value.tokens ++ ending)) =
          .ok (i.tree, sign.1 :: (value.tokens ++ ending)) :=
      runIndex_eq_ok_iff.mpr ⟨closing.1, closing.2, reads i hi _ (stops_closeBracket closing _)⟩
    have hassign := (runIndexAssign?_eq_some_iff (n := n.1)).mpr
      ⟨i.tree, sign.1, _, sign.2, hread, reads_value hv hend _⟩
    rw [runStatement, n.2]
    show runNamed (Parser.expr k) n.1 (opening.1 :: _) = _
    rw [runNamed, if_neg (by simp [opening.2]), if_neg (by simp [Token.isSymbol, opening.2]),
      if_pos (by simp [opening.2]), hassign]
    rfl
  | print n opening value closing =>
    simp only [StatementDerivation.tokens, List.cons_append, List.append_assoc,
      List.nil_append] at h
    cases h
    rw [runStatement, n.2.1]
    show runNamed (Parser.expr k) n.1 (opening.1 :: _) = _
    rw [runNamed, if_pos (by simp [n.2.2, opening.2])]
    exact runPrint_eq_ok_iff.mpr ⟨value.tree, closing.1, ending, closing.2,
      reads value hk _ (stops_closeParen closing ending).1, hend, rfl⟩
  | expression value hp =>
    have hfirst : value.tokens.head? = some first := by
      rw [← head_append value trivial ending]
      exact congrArg List.head? h
    rw [runStatement_expression hp hk hend h, StatementDerivation.statement, hfirst]
    rfl

/-! ## What is read is derived -/

/-- A statement that a reader finds at the front of tokens: its derivation, and its end. -/
def DerivedStatement (k : Nat) (tokens rest : List Token) (s : Statement) : Prop :=
  ∃ (d : StatementDerivation) (ending : List Token),
    tokens = d.tokens ++ ending ∧ takeEnd ending = .ok rest ∧ d.nesting ≤ k ∧ d.statement = s

variable {first : Token} {tokens rest : List Token} {s : Statement}

theorem derived_runAssign {build : Expr → Statement}
    (h : runAssign (Parser.expr k) build tokens = .ok (s, rest)) :
    ∃ (value : Derivation .expr) (ending : List Token),
      tokens = value.tokens ++ ending ∧ takeEnd ending = .ok rest ∧ value.nesting ≤ k ∧
        build value.tree = s := by
  obtain ⟨e, ending, he, hend, rfl⟩ := runAssign_eq_ok_iff.mp h
  obtain ⟨value, rfl, hk, rfl⟩ := derived_expr he
  exact ⟨value, ending, rfl, hend, hk, rfl⟩

theorem derived_runDeclaration {keyword : Keyword} {build : Datum → Expr → Statement}
    (h : runDeclaration (Parser.expr k) keyword build tokens = .ok (s, rest)) :
    ∃ (n : NameToken) (sign : SymbolToken .assign) (value : Derivation .expr)
      (ending : List Token), tokens = n.1 :: sign.1 :: (value.tokens ++ ending) ∧
        takeEnd ending = .ok rest ∧ value.nesting ≤ k ∧ build (.text n.1.text) value.tree = s := by
  obtain ⟨n, sign, _, e, ending, hn, hs, rfl, he, hend, rfl⟩ := runDeclaration_eq_ok_iff.mp h
  obtain ⟨value, rfl, hk, rfl⟩ := derived_expr he
  exact ⟨⟨n, hn⟩, ⟨sign, hs⟩, value, ending, rfl, hend, hk, rfl⟩

theorem startsPrint_of_append {tokens ending : List Token}
    (h : startsPrint (tokens ++ ending) = false) : startsPrint tokens = false := by
  match tokens with
  | [] | [_] => rfl
  | _ :: _ :: _ => exact h

theorem derived_runExpression (hp : startsPrint (first :: rest) = false) {rest' : List Token}
    (h : runExpression (Parser.expr k) first rest = .ok (s, rest')) :
    DerivedStatement k (first :: rest) rest' s := by
  obtain ⟨value, ending, hv, hend, hk, rfl⟩ := derived_runAssign h
  rw [hv] at hp
  have hfirst : value.tokens.head? = some first := by
    rw [← head_append value trivial ending, ← hv]
    rfl
  refine ⟨.expression value (startsPrint_of_append hp), ending, hv, hend, hk, ?_⟩
  rw [StatementDerivation.statement, hfirst]
  rfl

theorem derived_runIndexAssign? {n opening : Token} (hn : n.kind = .identifier)
    (ho : opening.kind = .mark .openBracket)
    (h : runIndexAssign? (Parser.expr k) n tokens = .ok (some (s, rest))) :
    DerivedStatement k (n :: opening :: tokens) rest s := by
  obtain ⟨_, sign, _, hs, hi, ha⟩ := runIndexAssign?_eq_some_iff.mp h
  obtain ⟨closing, hc, hi⟩ := runIndex_eq_ok_iff.mp hi
  obtain ⟨i, rfl, hk, rfl⟩ := derived_expr hi
  obtain ⟨value, ending, rfl, hend, hk', rfl⟩ := derived_runAssign ha
  refine ⟨.indexAssign ⟨n, hn⟩ ⟨opening, ho⟩ i ⟨closing, hc⟩ ⟨sign, hs⟩ value, ending, ?_, hend,
    Nat.max_le.mpr ⟨hk, hk'⟩, rfl⟩
  simp only [StatementDerivation.tokens, List.cons_append, List.append_assoc]

theorem derived_runPrint {n opening : Token} (hn : n.kind = .identifier)
    (htext : n.text = Text.of "print") (ho : opening.kind = .mark .openParen)
    (h : runPrint (Parser.expr k) n.position tokens = .ok (s, rest)) :
    DerivedStatement k (n :: opening :: tokens) rest s := by
  obtain ⟨_, closing, ending, hc, he, hend, rfl⟩ := runPrint_eq_ok_iff.mp h
  obtain ⟨value, rfl, hk, rfl⟩ := derived_expr he
  refine ⟨.print ⟨n, hn, htext⟩ ⟨opening, ho⟩ value ⟨closing, hc⟩, ending, ?_, hend, hk, rfl⟩
  simp only [StatementDerivation.tokens, List.cons_append, List.append_assoc, List.nil_append]

theorem derived_runNamed {n : Token} (hn : n.kind = .identifier)
    (h : runNamed (Parser.expr k) n tokens = .ok (s, rest)) :
    DerivedStatement k (n :: tokens) rest s := by
  cases tokens with
  | nil => exact derived_runExpression rfl h
  | cons t ts =>
    rw [runNamed] at h
    by_cases hp : n.text = Text.of "print" ∧ t.isMark .openParen = true
    · rw [if_pos hp] at h
      exact derived_runPrint hn hp.1 (Token.isMark_eq_true_iff.mp hp.2) h
    · rw [if_neg hp] at h
      have hstart : startsPrint (n :: t :: ts) = false := by
        simpa [startsPrint, hn] using hp
      split at h
      · next hs =>
        obtain ⟨value, ending, rfl, hend, hk, rfl⟩ := derived_runAssign h
        exact ⟨.assign ⟨n, hn⟩ ⟨t, Token.isSymbol_eq_true_iff.mp hs⟩ value, ending, rfl, hend, hk,
          rfl⟩
      · split at h
        · next ho =>
          split at h
          · cases h
          · next ha =>
            cases h
            exact derived_runIndexAssign? hn (Token.isMark_eq_true_iff.mp ho) ha
          · exact derived_runExpression hstart h
        · exact derived_runExpression hstart h

/-- **What is read as a statement is derived as it.** -/
theorem derived_runStatement {rest' : List Token}
    (h : runStatement (Parser.expr k) first rest = .ok (s, rest')) :
    DerivedStatement k (first :: rest) rest' s := by
  unfold runStatement at h
  split at h
  · next hkind =>
    obtain ⟨n, sign, value, ending, rfl, hend, hk, rfl⟩ := derived_runDeclaration h
    exact ⟨.declare ⟨first, hkind⟩ n sign value, ending, rfl, hend, hk, rfl⟩
  · next hkind =>
    obtain ⟨n, sign, value, ending, rfl, hend, hk, rfl⟩ := derived_runDeclaration h
    exact ⟨.constant ⟨first, hkind⟩ n sign value, ending, rfl, hend, hk, rfl⟩
  · next hkind => exact derived_runNamed hkind h
  · next hkind =>
    refine derived_runExpression ?_ h
    cases rest with
    | nil => rfl
    | cons t ts =>
      have hne : ¬first.kind = .identifier := hkind
      simp [startsPrint, hne]

/-! ## One derivation -/

namespace StatementDerivation

/-- A statement has a first token, and that is no semicolon. -/
theorem exists_tokens_eq (s : StatementDerivation) :
    ∃ first rest, s.tokens = first :: rest ∧ first.kind ≠ .mark .semicolon := by
  cases s with
  | declare keyword n sign value => exact ⟨keyword.1, _, rfl, by rw [keyword.2]; nofun⟩
  | constant keyword n sign value => exact ⟨keyword.1, _, rfl, by rw [keyword.2]; nofun⟩
  | assign n sign value => exact ⟨n.1, _, rfl, by rw [n.2]; nofun⟩
  | indexAssign n opening i closing sign value => exact ⟨n.1, _, rfl, by rw [n.2]; nofun⟩
  | print n opening value closing => exact ⟨n.1, _, rfl, by rw [n.2.1]; nofun⟩
  | expression value hp =>
    cases hv : value.tokens with
    | nil => exact absurd hv (tokens_ne_nil value trivial)
    | cons first rest =>
      refine ⟨first, rest, hv, fun hk => ?_⟩
      have := opensWith_head value first (by rw [hv]; rfl)
      simp [Phrase.opensWith, opensOperand, Token.unary?, Token.literal?, Token.isMark, hk] at this

/-- The reader finds one statement, so two derivations of the same tokens have the same form. -/
theorem statement_eq {s s' : StatementDerivation} {ending ending' after after' : List Token}
    (hend : takeEnd ending = .ok after) (hend' : takeEnd ending' = .ok after')
    (h : s.tokens ++ ending = s'.tokens ++ ending') : s.statement = s'.statement := by
  obtain ⟨first, rest, hs, -⟩ := s.exists_tokens_eq
  have hfirst : s.tokens ++ ending = first :: (rest ++ ending) := by rw [hs]; rfl
  have hread := runStatement_statement s (Nat.le_max_left s.nesting s'.nesting) hend hfirst
  have hread' := runStatement_statement s' (Nat.le_max_right s.nesting s'.nesting) hend'
    (h.symm.trans hfirst)
  rw [hread] at hread'
  exact (Prod.mk.inj (Except.ok.inj hread')).1

/-- **No statement is ambiguous.** -/
theorem tokens_append_inj {s s' : StatementDerivation} {ending ending' after after' : List Token}
    (hend : takeEnd ending = .ok after) (hend' : takeEnd ending' = .ok after')
    (h : s.tokens ++ ending = s'.tokens ++ ending') : s = s' ∧ ending = ending' := by
  have hform := statement_eq hend hend' h
  have hs := stops_ending hend
  have hs' := stops_ending hend'
  cases s with
  | declare keyword n sign value =>
    cases s' with
    | declare keyword' n' sign' value' =>
      simp only [tokens, List.cons_append, token_cons_inj] at h
      obtain ⟨rfl, rfl, rfl, hv⟩ := h
      obtain ⟨rfl, rfl⟩ := determined value value' hs hs' hv
      exact ⟨rfl, rfl⟩
    | _ => cases hform
  | constant keyword n sign value =>
    cases s' with
    | constant keyword' n' sign' value' =>
      simp only [tokens, List.cons_append, token_cons_inj] at h
      obtain ⟨rfl, rfl, rfl, hv⟩ := h
      obtain ⟨rfl, rfl⟩ := determined value value' hs hs' hv
      exact ⟨rfl, rfl⟩
    | _ => cases hform
  | assign n sign value =>
    cases s' with
    | assign n' sign' value' =>
      simp only [tokens, List.cons_append, token_cons_inj] at h
      obtain ⟨rfl, rfl, hv⟩ := h
      obtain ⟨rfl, rfl⟩ := determined value value' hs hs' hv
      exact ⟨rfl, rfl⟩
    | _ => cases hform
  | indexAssign n opening i closing sign value =>
    cases s' with
    | indexAssign n' opening' i' closing' sign' value' =>
      simp only [tokens, List.cons_append, List.append_assoc, token_cons_inj] at h
      obtain ⟨rfl, rfl, hi⟩ := h
      obtain ⟨⟨rfl, rfl⟩, hsign⟩ := Determined.closed stops_closeBracket (determined i) hi
      obtain ⟨rfl, hv⟩ := token_cons_inj.mp hsign
      obtain ⟨rfl, rfl⟩ := determined value value' hs hs' hv
      exact ⟨rfl, rfl⟩
    | _ => cases hform
  | print n opening value closing =>
    cases s' with
    | print n' opening' value' closing' =>
      simp only [tokens, List.cons_append, List.append_assoc, List.nil_append,
        token_cons_inj] at h
      obtain ⟨rfl, rfl, hv⟩ := h
      obtain ⟨⟨rfl, rfl⟩, rfl⟩ :=
        Determined.closed (fun t ts => (stops_closeParen t ts).1) (determined value) hv
      exact ⟨rfl, rfl⟩
    | _ => cases hform
  | expression value hp =>
    cases s' with
    | expression value' hp' =>
      obtain ⟨rfl, rfl⟩ := determined value value' hs hs' h
      exact ⟨rfl, rfl⟩
    | _ => cases hform

/-- With a name, an index and a sign of assignment in front, a statement is an indexed
assignment. -/
theorem eq_indexAssign {s : StatementDerivation} {n : NameToken} {opening : MarkToken .openBracket}
    {i : Derivation .expr} {closing : MarkToken .closeBracket} {sign : SymbolToken .assign}
    {rest : List Token}
    (h : s.tokens = n.1 :: opening.1 :: (i.tokens ++ closing.1 :: sign.1 :: rest)) :
    ∃ value, s = .indexAssign n opening i closing sign value := by
  cases s with
  | declare keyword n' sign' value =>
    have hk := keyword.2
    rw [(List.cons.inj h).1, n.2] at hk
    cases hk
  | constant keyword n' sign' value =>
    have hk := keyword.2
    rw [(List.cons.inj h).1, n.2] at hk
    cases hk
  | assign n' sign' value =>
    have hs := sign'.2
    rw [(List.cons.inj (List.cons.inj h).2).1, opening.2] at hs
    cases hs
  | indexAssign n' opening' i' closing' sign' value =>
    simp only [tokens, token_cons_inj] at h
    obtain ⟨rfl, rfl, hi⟩ := h
    obtain ⟨⟨rfl, rfl⟩, hsign⟩ := Determined.closed stops_closeBracket (determined i') hi
    obtain ⟨rfl, -⟩ := token_cons_inj.mp hsign
    exact ⟨value, rfl⟩
  | print n' opening' value closing' =>
    have ho := opening'.2
    rw [(List.cons.inj (List.cons.inj h).2).1, opening.2] at ho
    cases ho
  | expression value hp => exact absurd h (expr_ne_indexAssign value n opening i closing sign rest)

end StatementDerivation

end ScalarScript.Grammar
