import ScalarScript.Proofs.Grammar.Derivation

/-!
# No phrase is ambiguous

A phrase ends where its next token cannot carry it further. With that known of what follows, the
tokens determine the derivation and where it ends.

* `opensWith`: the tokens that a phrase may start with; it tells alternatives apart.
* `continuedBy`: the tokens that would carry a phrase further; `Stops p rest` says that none of
  them stands first in `rest`.
* `Precedes p q`: a `p` may stand before a `q`, which starts with nothing that continues the `p`.

Results:
* `opensWith_head`: a derivation starts with one of the tokens of its phrase.
* `Determined` has one lemma for each rule of the grammar.
* **`determined`**: two derivations of a phrase with the same tokens, each followed by tokens at
  which the phrase stops, are the same, and so is what follows.
-/

namespace ScalarScript

namespace Grammar

/-! ## First tokens -/

/-- Whether a token may start an operand. -/
def opensOperand (t : Token) : Bool :=
  t.literal?.isSome || t.kind == .identifier || t.isMark .openParen

/-- Whether a phrase may start with a token. -/
def Phrase.opensWith : Phrase → Token → Bool
  | expr, t | additive, t | unary, t | arguments, t => t.unary?.isSome || opensOperand t
  | operand, t | primary, t => opensOperand t
  | comparison, t => t.comparison?.isSome
  | additions, t => t.additive?.isSome
  | suffixes, t => t.isMark .dot || t.isMark .openBracket
  | others, t => t.isMark .comma

/-- The phrases that have at least one token. -/
def Phrase.Nonempty : Phrase → Prop
  | expr | additive | unary | operand | primary => True
  | comparison | additions | suffixes | arguments | others => False

theorem tokens_ne_nil {p : Phrase} (d : Derivation p) (hp : p.Nonempty) : d.tokens ≠ [] := by
  induction d with
  | expr left tail ih => simp [Derivation.tokens, ih trivial]
  | additive left tail ih => simp [Derivation.tokens, ih trivial]
  | operand head tail ih => simp [Derivation.tokens, ih trivial]
  | bare e ih => exact ih trivial
  | unary op e => simp [Derivation.tokens]
  | literal t => simp [Derivation.tokens]
  | name n => simp [Derivation.tokens]
  | call n opening args closing => simp [Derivation.tokens]
  | group opening e closing => simp [Derivation.tokens]
  | _ => exact absurd hp id

theorem head_append {p : Phrase} (d : Derivation p) (hp : p.Nonempty) (rest : List Token) :
    (d.tokens ++ rest).head? = d.tokens.head? := by
  cases h : d.tokens with
  | nil => exact absurd h (tokens_ne_nil d hp)
  | cons t ts => rfl

/-- A derivation starts with one of the tokens that its phrase may start with. -/
theorem opensWith_head {p : Phrase} (d : Derivation p) : ∀ t ∈ d.tokens.head?, p.opensWith t := by
  induction d with
  | expr left tail ih =>
    rw [Derivation.tokens, head_append left trivial]
    exact ih
  | additive left tail ih =>
    rw [Derivation.tokens, head_append left trivial]
    exact ih
  | operand head tail ih =>
    rw [Derivation.tokens, head_append head trivial]
    exact ih
  | arguments first tail ih =>
    rw [Derivation.tokens, head_append first trivial]
    exact ih
  | bare e ih =>
    intro t ht
    have := ih t ht
    simp_all [Phrase.opensWith]
  | noComparison | noAddition | noSuffix | noArgument | noOther => simp [Derivation.tokens]
  | compare op right => simp [Derivation.tokens, Phrase.opensWith, op.2]
  | add op right tail => simp [Derivation.tokens, Phrase.opensWith, op.2]
  | unary op e => simp [Derivation.tokens, Phrase.opensWith, op.2]
  | literal t => simp [Derivation.tokens, Phrase.opensWith, opensOperand, t.2]
  | method dot n opening args closing tail => simp [Derivation.tokens, Phrase.opensWith, dot.2]
  | index opening i closing tail => simp [Derivation.tokens, Phrase.opensWith, opening.2]
  | name n => simp [Derivation.tokens, Phrase.opensWith, opensOperand, n.2]
  | call n opening args closing => simp [Derivation.tokens, Phrase.opensWith, opensOperand, n.2]
  | group opening e closing =>
    simp [Derivation.tokens, Phrase.opensWith, opensOperand, opening.2]
  | other comma next tail => simp [Derivation.tokens, Phrase.opensWith, comma.2]

/-! ## Where a phrase stops -/

/-- Whether a token would carry an operand further. -/
def continuesOperand (t : Token) : Bool :=
  t.isMark .openParen || t.isMark .dot || t.isMark .openBracket

/-- Whether a token would carry a phrase further. Arguments go on to the closing parenthesis. -/
def Phrase.continuedBy : Phrase → Token → Bool
  | primary, t => t.isMark .openParen
  | operand, t | suffixes, t | unary, t => continuesOperand t
  | additive, t | additions, t => continuesOperand t || t.additive?.isSome
  | expr, t | comparison, t =>
    continuesOperand t || t.additive?.isSome || t.comparison?.isSome
  | arguments, t | others, t => !t.isMark .closeParen

/-- A phrase stops before tokens that do not carry it further. -/
def Stops (p : Phrase) (rest : List Token) : Prop := ∀ t ∈ rest.head?, p.continuedBy t = false

theorem stops_cons {p : Phrase} {t : Token} {rest : List Token} :
    Stops p (t :: rest) ↔ p.continuedBy t = false := by
  simp [Stops]

/-- The phrases that stand before another one within a bigger phrase. -/
inductive Precedes : Phrase → Phrase → Prop
  | suffixes : Precedes .primary .suffixes
  | additions : Precedes .unary .additions
  | comparison : Precedes .additive .comparison
  | others : Precedes .expr .others

namespace Precedes

variable {p q : Phrase} {t : Token}

/-- What starts the second phrase does not continue the first. -/
theorem stops_opensWith (h : Precedes p q) (ht : q.opensWith t = true) :
    p.continuedBy t = false := by
  obtain ⟨kind, text, position⟩ := t
  cases h <;> cases kind <;>
    simp_all [Phrase.opensWith, Phrase.continuedBy, continuesOperand, Token.isMark,
      Token.additive?, Token.comparison?]
  all_goals
    next s => cases s <;> simp_all

/-- What stops the second phrase stops the first. -/
theorem stops_continuedBy (h : Precedes p q) (ht : q.continuedBy t = false) :
    p.continuedBy t = false := by
  obtain ⟨kind, text, position⟩ := t
  cases h <;> cases kind <;>
    simp_all [Phrase.continuedBy, continuesOperand, Token.isMark, Token.additive?,
      Token.comparison?]

/-- A phrase stops before one that it precedes, whatever that one derives. -/
theorem stops_append (h : Precedes p q) (d : Derivation q) {rest : List Token}
    (hs : Stops q rest) : Stops p (d.tokens ++ rest) := by
  intro t ht
  rw [List.head?_append] at ht
  cases hd : d.tokens.head? with
  | some u =>
    rw [hd] at ht
    cases ht
    exact h.stops_opensWith (opensWith_head d t hd)
  | none =>
    rw [hd] at ht
    exact h.stops_continuedBy (hs t ht)

theorem stops (h : Precedes p q) {rest : List Token} (hs : Stops q rest) : Stops p rest :=
  fun t ht => h.stops_continuedBy (hs t ht)

end Precedes

theorem stops_closeParen (closing : MarkToken .closeParen) (rest : List Token) :
    Stops .expr (closing.1 :: rest) ∧ Stops .arguments (closing.1 :: rest) := by
  simp [stops_cons, Phrase.continuedBy, continuesOperand, Token.isMark, Token.additive?,
    Token.comparison?, closing.2]

theorem stops_closeBracket (closing : MarkToken .closeBracket) (rest : List Token) :
    Stops .expr (closing.1 :: rest) := by
  simp [stops_cons, Phrase.continuedBy, continuesOperand, Token.isMark, Token.additive?,
    Token.comparison?, closing.2]

/-- What starts an optional phrase continues it. -/
theorem continuedBy_of_opensWith {p : Phrase} (hp : ¬p.Nonempty) {t : Token}
    (h : p.opensWith t = true) : p.continuedBy t = true := by
  cases p with
  | expr | additive | unary | operand | primary => exact absurd trivial hp
  | comparison | additions => simp_all [Phrase.opensWith, Phrase.continuedBy]
  | suffixes =>
    simp only [Phrase.opensWith, Phrase.continuedBy, continuesOperand, Bool.or_assoc] at h ⊢
    rw [h, Bool.or_true]
  | others => simp_all [Phrase.opensWith, Phrase.continuedBy, Token.isMark]
  | arguments =>
    rw [Phrase.continuedBy, Bool.not_eq_true', Token.isMark_eq_false_iff]
    intro hc
    simp [Phrase.opensWith, opensOperand, Token.unary?, Token.literal?, hc] at h

/-- Where an optional phrase stops, it derives nothing. -/
theorem tokens_eq_nil {p : Phrase} (hp : ¬p.Nonempty) (d : Derivation p) {rest rest' : List Token}
    (hs : Stops p rest) (h : rest = d.tokens ++ rest') : d.tokens = [] := by
  cases hd : d.tokens with
  | nil => rfl
  | cons t ts =>
    rw [h, hd, List.cons_append, stops_cons] at hs
    have ht : p.opensWith t = true := opensWith_head d t (by rw [hd]; rfl)
    rw [continuedBy_of_opensWith hp ht] at hs
    cases hs

/-! ## One derivation -/

theorem literal?_of_identifier {t : Token} (h : t.kind = .identifier) : t.literal? = none := by
  unfold Token.literal?
  rw [h]

theorem literal?_of_mark {t : Token} {m : Mark} (h : t.kind = .mark m) : t.literal? = none := by
  unfold Token.literal?
  rw [h]

theorem unary?_of_opensOperand {t : Token} (h : opensOperand t = true) : t.unary? = none := by
  obtain ⟨kind, text, position⟩ := t
  cases kind with
  | symbol s => simp [opensOperand, Token.literal?, Token.isMark] at h
  | _ => rfl

/-- No operand starts with a unary operator. -/
theorem unary_ne_operand (op : UnaryToken) (e : Derivation .operand) {rest rest' : List Token} :
    op.1 :: rest ≠ e.tokens ++ rest' := by
  intro h
  have hhead : e.tokens.head? = some op.1 := by
    rw [← head_append e trivial rest', ← h]
    rfl
  have hnone := unary?_of_opensOperand (opensWith_head e op.1 hhead)
  have := op.2
  rw [hnone] at this
  cases this

theorem token_cons_inj {P : Token → Prop} {t u : { t : Token // P t }} {rest rest' : List Token} :
    t.1 :: rest = u.1 :: rest' ↔ t = u ∧ rest = rest' := by
  rw [List.cons.injEq, Subtype.ext_iff]

/-- Where its phrase stops, a derivation is the only one of its tokens. -/
def Determined {p : Phrase} (d : Derivation p) : Prop :=
  ∀ (d' : Derivation p) {rest rest' : List Token}, Stops p rest → Stops p rest' →
    d.tokens ++ rest = d'.tokens ++ rest' → d = d' ∧ rest = rest'

namespace Determined

open Grammar.Derivation

variable {p q : Phrase} {rest rest' : List Token}

/-! ### Sequences -/

/-- A phrase and one that it precedes. -/
theorem followed (h : Precedes p q) {d d' : Derivation p} {tail tail' : Derivation q}
    (hd : Determined d) (htail : Determined tail) (hs : Stops q rest) (hs' : Stops q rest')
    (he : d.tokens ++ (tail.tokens ++ rest) = d'.tokens ++ (tail'.tokens ++ rest')) :
    (d = d' ∧ tail = tail') ∧ rest = rest' := by
  obtain ⟨rfl, ht⟩ := hd d' (h.stops_append tail hs) (h.stops_append tail' hs') he
  obtain ⟨rfl, rfl⟩ := htail tail' hs hs' ht
  exact ⟨⟨rfl, rfl⟩, rfl⟩

/-- A phrase before a mark at which it stops. -/
theorem closed {m : Mark} (hm : ∀ (t : MarkToken m) (rest : List Token), Stops p (t.1 :: rest))
    {d d' : Derivation p} {closing closing' : MarkToken m} (hd : Determined d)
    (he : d.tokens ++ closing.1 :: rest = d'.tokens ++ closing'.1 :: rest') :
    (d = d' ∧ closing = closing') ∧ rest = rest' := by
  obtain ⟨rfl, hc⟩ := hd d' (hm closing rest) (hm closing' rest') he
  obtain ⟨rfl, rfl⟩ := token_cons_inj.mp hc
  exact ⟨⟨rfl, rfl⟩, rfl⟩

/-! ### Chains of operators -/

theorem expr {left : Derivation .additive} {tail : Derivation .comparison}
    (hl : Determined left) (ht : Determined tail) : Determined (expr left tail) := by
  intro d' rest rest' hs hs' h
  cases d' with
  | expr left' tail' =>
    simp only [tokens, List.append_assoc] at h
    obtain ⟨⟨rfl, rfl⟩, rfl⟩ := followed .comparison hl ht hs hs' h
    exact ⟨rfl, rfl⟩

theorem noComparison : Determined noComparison := by
  intro d' rest rest' hs hs' h
  cases d' with
  | noComparison => exact ⟨rfl, h⟩
  | compare op' right' => cases tokens_eq_nil id (compare op' right') hs h

theorem compare {op : ComparisonToken} {right : Derivation .additive} (hr : Determined right) :
    Determined (compare op right) := by
  intro d' rest rest' hs hs' h
  cases d' with
  | noComparison => cases tokens_eq_nil id (Derivation.compare op right) hs' h.symm
  | compare op' right' =>
    simp only [tokens, List.cons_append, token_cons_inj] at h
    obtain ⟨rfl, h⟩ := h
    obtain ⟨rfl, rfl⟩ := hr right' (Precedes.comparison.stops hs) (Precedes.comparison.stops hs') h
    exact ⟨rfl, rfl⟩

theorem additive {left : Derivation .unary} {tail : Derivation .additions}
    (hl : Determined left) (ht : Determined tail) : Determined (additive left tail) := by
  intro d' rest rest' hs hs' h
  cases d' with
  | additive left' tail' =>
    simp only [tokens, List.append_assoc] at h
    obtain ⟨⟨rfl, rfl⟩, rfl⟩ := followed .additions hl ht hs hs' h
    exact ⟨rfl, rfl⟩

theorem noAddition : Determined noAddition := by
  intro d' rest rest' hs hs' h
  cases d' with
  | noAddition => exact ⟨rfl, h⟩
  | add op' right' tail' => cases tokens_eq_nil id (add op' right' tail') hs h

theorem add {op : AdditiveToken} {right : Derivation .unary} {tail : Derivation .additions}
    (hr : Determined right) (ht : Determined tail) : Determined (add op right tail) := by
  intro d' rest rest' hs hs' h
  cases d' with
  | noAddition => cases tokens_eq_nil id (Derivation.add op right tail) hs' h.symm
  | add op' right' tail' =>
    simp only [tokens, List.cons_append, List.append_assoc, token_cons_inj] at h
    obtain ⟨rfl, h⟩ := h
    obtain ⟨⟨rfl, rfl⟩, rfl⟩ := followed .additions hr ht hs hs' h
    exact ⟨rfl, rfl⟩

theorem unary {op : UnaryToken} {e : Derivation .unary} (he : Determined e) :
    Determined (unary op e) := by
  intro d' rest rest' hs hs' h
  cases d' with
  | unary op' e' =>
    simp only [tokens, List.cons_append, token_cons_inj] at h
    obtain ⟨rfl, h⟩ := h
    obtain ⟨rfl, rfl⟩ := he e' hs hs' h
    exact ⟨rfl, rfl⟩
  | bare e' => exact absurd h (unary_ne_operand op e')

theorem bare {e : Derivation .operand} (he : Determined e) : Determined (bare e) := by
  intro d' rest rest' hs hs' h
  cases d' with
  | unary op' e' => exact absurd h.symm (unary_ne_operand op' e)
  | bare e' =>
    obtain ⟨rfl, rfl⟩ := he e' hs hs' h
    exact ⟨rfl, rfl⟩

/-! ### Operands -/

theorem operand {head : Derivation .primary} {tail : Derivation .suffixes}
    (hh : Determined head) (ht : Determined tail) : Determined (operand head tail) := by
  intro d' rest rest' hs hs' h
  cases d' with
  | operand head' tail' =>
    simp only [tokens, List.append_assoc] at h
    obtain ⟨⟨rfl, rfl⟩, rfl⟩ := followed .suffixes hh ht hs hs' h
    exact ⟨rfl, rfl⟩

theorem noSuffix : Determined noSuffix := by
  intro d' rest rest' hs hs' h
  cases d' with
  | noSuffix => exact ⟨rfl, h⟩
  | method dot' n' opening' args' closing' tail' =>
    cases tokens_eq_nil id (method dot' n' opening' args' closing' tail') hs h
  | index opening' i' closing' tail' =>
    cases tokens_eq_nil id (index opening' i' closing' tail') hs h

theorem method {dot : MarkToken .dot} {n : NameToken} {opening : MarkToken .openParen}
    {args : Derivation .arguments} {closing : MarkToken .closeParen}
    {tail : Derivation .suffixes} (ha : Determined args) (ht : Determined tail) :
    Determined (method dot n opening args closing tail) := by
  intro d' rest rest' hs hs' h
  cases d' with
  | noSuffix =>
    cases tokens_eq_nil id (Derivation.method dot n opening args closing tail) hs' h.symm
  | method dot' n' opening' args' closing' tail' =>
    simp only [tokens, List.cons_append, List.append_assoc, token_cons_inj] at h
    obtain ⟨rfl, rfl, rfl, h⟩ := h
    obtain ⟨⟨rfl, rfl⟩, h'⟩ := closed (fun t ts => (stops_closeParen t ts).2) ha h
    obtain ⟨rfl, rfl⟩ := ht tail' hs hs' h'
    exact ⟨rfl, rfl⟩
  | index opening' i' closing' tail' => grind [tokens]

theorem index {opening : MarkToken .openBracket} {i : Derivation .expr}
    {closing : MarkToken .closeBracket} {tail : Derivation .suffixes} (hi : Determined i)
    (ht : Determined tail) : Determined (index opening i closing tail) := by
  intro d' rest rest' hs hs' h
  cases d' with
  | noSuffix => cases tokens_eq_nil id (Derivation.index opening i closing tail) hs' h.symm
  | method dot' n' opening' args' closing' tail' => grind [tokens]
  | index opening' i' closing' tail' =>
    simp only [tokens, List.cons_append, List.append_assoc, token_cons_inj] at h
    obtain ⟨rfl, h⟩ := h
    obtain ⟨⟨rfl, rfl⟩, h'⟩ := closed stops_closeBracket hi h
    obtain ⟨rfl, rfl⟩ := ht tail' hs hs' h'
    exact ⟨rfl, rfl⟩

theorem literal {t : LiteralToken} : Determined (literal t) := by
  intro d' rest rest' hs hs' h
  cases d' with
  | literal t' =>
    obtain ⟨rfl, rfl⟩ := token_cons_inj.mp h
    exact ⟨rfl, rfl⟩
  | name n' => grind [tokens, literal?_of_identifier]
  | call n' opening' args' closing' => grind [tokens, literal?_of_identifier]
  | group opening' e' closing' => grind [tokens, literal?_of_mark]

/-- A name stops before a parenthesis, so it is no call. -/
theorem name_ne_call {n n' : NameToken} {opening' : MarkToken .openParen}
    {args' : Derivation .arguments} {closing' : MarkToken .closeParen} (hs : Stops .primary rest) :
    (Derivation.name n).tokens ++ rest ≠
      (Derivation.call n' opening' args' closing').tokens ++ rest' := by
  intro h
  simp only [tokens, List.cons_append, List.nil_append, token_cons_inj] at h
  rw [h.2, stops_cons, Phrase.continuedBy, Token.isMark, opening'.2] at hs
  cases hs

theorem name {n : NameToken} : Determined (name n) := by
  intro d' rest rest' hs hs' h
  cases d' with
  | literal t' => grind [tokens, literal?_of_identifier]
  | name n' =>
    obtain ⟨rfl, rfl⟩ := token_cons_inj.mp h
    exact ⟨rfl, rfl⟩
  | call n' opening' args' closing' => exact absurd h (name_ne_call hs)
  | group opening' e' closing' => grind [tokens]

theorem call {n : NameToken} {opening : MarkToken .openParen} {args : Derivation .arguments}
    {closing : MarkToken .closeParen} (ha : Determined args) :
    Determined (call n opening args closing) := by
  intro d' rest rest' hs hs' h
  cases d' with
  | literal t' => grind [tokens, literal?_of_identifier]
  | name n' => exact absurd h.symm (name_ne_call hs')
  | call n' opening' args' closing' =>
    simp only [tokens, List.cons_append, List.append_assoc, List.nil_append, token_cons_inj] at h
    obtain ⟨rfl, rfl, h⟩ := h
    obtain ⟨⟨rfl, rfl⟩, rfl⟩ := closed (fun t ts => (stops_closeParen t ts).2) ha h
    exact ⟨rfl, rfl⟩
  | group opening' e' closing' => grind [tokens]

theorem group {opening : MarkToken .openParen} {e : Derivation .expr}
    {closing : MarkToken .closeParen} (he : Determined e) :
    Determined (group opening e closing) := by
  intro d' rest rest' hs hs' h
  cases d' with
  | literal t' => grind [tokens, literal?_of_mark]
  | name n' => grind [tokens]
  | call n' opening' args' closing' => grind [tokens]
  | group opening' e' closing' =>
    simp only [tokens, List.cons_append, List.append_assoc, List.nil_append, token_cons_inj] at h
    obtain ⟨rfl, h⟩ := h
    obtain ⟨⟨rfl, rfl⟩, rfl⟩ := closed (fun t ts => (stops_closeParen t ts).1) he h
    exact ⟨rfl, rfl⟩

/-! ### Arguments -/

theorem noArgument : Determined noArgument := by
  intro d' rest rest' hs hs' h
  cases d' with
  | noArgument => exact ⟨rfl, h⟩
  | arguments first' tail' =>
    have hnil := tokens_eq_nil id (arguments first' tail') hs h
    exact absurd (List.append_eq_nil_iff.mp hnil).1 (tokens_ne_nil first' trivial)

theorem arguments {first : Derivation .expr} {tail : Derivation .others}
    (hf : Determined first) (ht : Determined tail) : Determined (arguments first tail) := by
  intro d' rest rest' hs hs' h
  cases d' with
  | noArgument =>
    have hnil := tokens_eq_nil id (Derivation.arguments first tail) hs' h.symm
    exact absurd (List.append_eq_nil_iff.mp hnil).1 (tokens_ne_nil first trivial)
  | arguments first' tail' =>
    simp only [tokens, List.append_assoc] at h
    obtain ⟨⟨rfl, rfl⟩, rfl⟩ := followed .others hf ht hs hs' h
    exact ⟨rfl, rfl⟩

theorem noOther : Determined noOther := by
  intro d' rest rest' hs hs' h
  cases d' with
  | noOther => exact ⟨rfl, h⟩
  | other comma' next' tail' => cases tokens_eq_nil id (other comma' next' tail') hs h

theorem other {comma : MarkToken .comma} {next : Derivation .expr} {tail : Derivation .others}
    (hn : Determined next) (ht : Determined tail) : Determined (other comma next tail) := by
  intro d' rest rest' hs hs' h
  cases d' with
  | noOther => cases tokens_eq_nil id (Derivation.other comma next tail) hs' h.symm
  | other comma' next' tail' =>
    simp only [tokens, List.cons_append, List.append_assoc, token_cons_inj] at h
    obtain ⟨rfl, h⟩ := h
    obtain ⟨⟨rfl, rfl⟩, rfl⟩ := followed .others hn ht hs hs' h
    exact ⟨rfl, rfl⟩

end Determined

/-- **No phrase is ambiguous.** -/
theorem determined {p : Phrase} (d : Derivation p) : Determined d := by
  induction d with
  | expr left tail hl ht => exact hl.expr ht
  | noComparison => exact .noComparison
  | compare op right hr => exact hr.compare
  | additive left tail hl ht => exact hl.additive ht
  | noAddition => exact .noAddition
  | add op right tail hr ht => exact hr.add ht
  | unary op e he => exact he.unary
  | bare e he => exact he.bare
  | operand head tail hh ht => exact hh.operand ht
  | noSuffix => exact .noSuffix
  | method dot n opening args closing tail ha ht => exact ha.method ht
  | index opening i closing tail hi ht => exact hi.index ht
  | literal t => exact .literal
  | name n => exact .name
  | call n opening args closing ha => exact ha.call
  | group opening e closing he => exact he.group
  | noArgument => exact .noArgument
  | arguments first tail hf ht => exact hf.arguments ht
  | noOther => exact .noOther
  | other comma next tail hn ht => exact hn.other ht

end Grammar

end ScalarScript
