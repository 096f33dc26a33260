import ScalarScript.Proofs.Grammar.Lookahead.Expression
import ScalarScript.Proofs.Grammar.Sound
import ScalarScript.Proofs.Source.Spelling

/-!
# Beginnings of expressions

Where a reader misses something, what it has taken by then is the beginning of what it reads: some
tokens that sources can write complete it. Each reader is taken apart in the order of its parts: a
part that misses something has taken the beginning of a part, and the parts before it are whole.

* `Begins p used`: `used` can be completed to a derivation of the phrase `p`.
* `Misses B tokens out`: where the outcome misses something, the tokens in front of that have `B`.

Results: `Misses.bind` and `Misses.of_takes`; one lemma for each reader, `misses_runArguments` to
`misses_level`; **`misses_expr`** for expressions.
-/

namespace ScalarScript.Grammar

open ScalarScript.Parser

/-! ## Tokens to complete with -/

/-- Tokens that sources can write. -/
def Spelled (tokens : List Token) : Prop := ∀ t ∈ tokens, t.kind.SpelledAs t.text

/-- A mark, anywhere. -/
def markToken (m : Mark) : MarkToken m := ⟨⟨.mark m, [.scalar m.spelling], ⟨1, 1⟩⟩, rfl⟩

/-- A sign of assignment, anywhere. -/
def assignToken : SymbolToken .assign :=
  ⟨⟨.symbol .assign, Text.of Symbol.assign.spelling, ⟨1, 1⟩⟩, rfl⟩

/-- A name, anywhere. -/
def nameToken : NameToken := ⟨⟨.identifier, Text.of "a", ⟨1, 1⟩⟩, rfl⟩

/-- A literal, anywhere. -/
def literalToken : LiteralToken :=
  ⟨⟨.keyword .true_, Text.of Keyword.true_.spelling, ⟨1, 1⟩⟩, rfl⟩

theorem spelled_nil : Spelled [] := nofun

theorem spelled_cons {t : Token} {tokens : List Token} (ht : t.kind.SpelledAs t.text)
    (h : Spelled tokens) : Spelled (t :: tokens) := List.forall_mem_cons.mpr ⟨ht, h⟩

theorem spelled_append {before after : List Token} (h : Spelled before) (h' : Spelled after) :
    Spelled (before ++ after) := List.forall_mem_append.mpr ⟨h, h'⟩

theorem spelled_markToken (m : Mark) : Spelled [(markToken m).1] :=
  spelled_cons (.mark m) spelled_nil

theorem spelledAs_nameToken : nameToken.1.kind.SpelledAs nameToken.1.text :=
  .identifier ⟨⟨0, .scalar 'a', [], rfl, by decide, nofun⟩, fun k => by cases k <;> decide⟩

/-! ## Beginnings of phrases -/

/-- Tokens that some tokens behind them complete to a derivation of a phrase. -/
def Begins (p : Phrase) (used : List Token) : Prop :=
  ∃ (d : Derivation p) (more : List Token), d.tokens = used ++ more ∧ Spelled more

theorem begins_whole {p : Phrase} (d : Derivation p) : Begins p (d.tokens ++ []) :=
  ⟨d, [], by rw [List.append_nil, List.append_nil], spelled_nil⟩

/-- A beginning of a phrase is one of the phrases around it, with the tokens in front of it. -/
theorem Begins.inside {p q : Phrase} {used : List Token} (h : Begins p used)
    (f : Derivation p → Derivation q) (front back : List Token) (hback : Spelled back)
    (hf : ∀ d, (f d).tokens = front ++ (d.tokens ++ back)) : Begins q (front ++ used) := by
  obtain ⟨d, more, hd, hmore⟩ := h
  refine ⟨f d, more ++ back, ?_, spelled_append hmore hback⟩
  rw [hf, hd, List.append_assoc, List.append_assoc]

/-- Tokens that begin the arguments of a call of which there is one at least. -/
def BeginsArguments (used : List Token) : Prop :=
  ∃ (first : Derivation .expr) (tail : Derivation .others) (more : List Token),
    first.tokens ++ tail.tokens = used ++ more ∧ Spelled more

theorem BeginsArguments.begins {used : List Token} (h : BeginsArguments used) :
    Begins .arguments used := by
  obtain ⟨first, tail, more, heq, hmore⟩ := h
  exact ⟨.arguments first tail, more, heq, hmore⟩

theorem Begins.beginsArguments {used : List Token} (h : Begins .expr used) :
    BeginsArguments used := by
  obtain ⟨d, more, hd, hmore⟩ := h
  exact ⟨d, .noOther, more, (List.append_nil _).trans hd, hmore⟩

theorem BeginsArguments.other {used : List Token} (h : BeginsArguments used)
    (d : Derivation .expr) (comma : MarkToken .comma) :
    BeginsArguments (d.tokens ++ comma.1 :: used) := by
  obtain ⟨first, tail, more, heq, hmore⟩ := h
  refine ⟨d, .other comma first tail, more, ?_, hmore⟩
  rw [Derivation.tokens, heq, List.append_assoc, List.cons_append]

/-! ## What is missed -/

/-- Where an outcome misses something, the tokens in front of that have a property. -/
def Misses {α : Type} (B : List Token → Prop) (tokens : List Token)
    (out : Except Halt (α × List Token)) : Prop :=
  ∀ expected rest, out = .error (.missing expected rest) → ∃ used, tokens = used ++ rest ∧ B used

namespace Misses

variable {α β : Type} {B C : List Token → Prop} {tokens rest : List Token} {t : Token}
  {out : Except Halt (α × List Token)}

theorem ok (r : α × List Token) : Misses B tokens (.ok r) := nofun

theorem tooDeep : Misses B tokens (.error .tooDeep : Except Halt (α × List Token)) := nofun

theorem fail (h : B []) (expected : Expected) :
    Misses B tokens (.error (.missing expected tokens) : Except Halt (α × List Token)) := by
  intro _ _ hout
  cases hout
  exact ⟨[], rfl, h⟩

theorem mono (h : Misses B tokens out) (hBC : ∀ used, B used → C used) : Misses C tokens out := by
  intro expected behind hout
  obtain ⟨used, hused, hB⟩ := h expected behind hout
  exact ⟨used, hused, hBC used hB⟩

/-- Tokens in front that were taken already. -/
theorem append (front : List Token) (h : Misses (fun used => B (front ++ used)) rest out) :
    Misses B (front ++ rest) out := by
  intro expected behind hout
  obtain ⟨used, rfl, hB⟩ := h expected behind hout
  exact ⟨front ++ used, (List.append_assoc ..).symm, hB⟩

theorem cons (h : Misses (fun used => B (t :: used)) rest out) : Misses B (t :: rest) out :=
  append [t] h

theorem map (h : Misses B tokens out) (f : α × List Token → β × List Token) :
    Misses B tokens (out.map f) := by
  intro expected behind hout
  exact h expected behind (Except.map_eq_error_iff.mp hout)

theorem bind {k : α × List Token → Except Halt (β × List Token)} (h : Misses B tokens out)
    (hk : ∀ a mid, out = .ok (a, mid) → ∃ used, tokens = used ++ mid ∧
      Misses (fun more => B (used ++ more)) mid (k (a, mid))) : Misses B tokens (out >>= k) := by
  intro expected behind hout
  rcases Except.bind_eq_error_iff.mp hout with hout | ⟨⟨a, mid⟩, ha, hout⟩
  · exact h expected behind hout
  · obtain ⟨used, rfl, hmid⟩ := hk a mid ha
    obtain ⟨more, rfl, hB⟩ := hmid expected behind hout
    exact ⟨used ++ more, (List.append_assoc ..).symm, hB⟩

theorem of_takes {p : Token → Bool} {expected : Expected}
    {run : List Token → Except Halt (α × List Token)}
    {k : Token → List Token → Except Halt (α × List Token)} (h : Takes p expected run k)
    (hB : B []) (hk : ∀ t rest, p t = true → Misses (fun used => B (t :: used)) rest (k t rest))
    (tokens : List Token) : Misses B tokens (run tokens) := by
  cases tokens with
  | nil =>
    rw [h.nil]
    exact fail hB expected
  | cons t rest =>
    cases ht : p t with
    | true =>
      rw [h.taken t rest ht]
      exact cons (hk t rest ht)
    | false =>
      rw [h.refused t rest ht]
      exact fail hB expected

theorem takeMark {m : Mark} {expected : Expected}
    {k : List Token → Except Halt (α × List Token)} (hB : B [])
    (hk : ∀ (t : MarkToken m) rest, Misses (fun used => B (t.1 :: used)) rest (k rest))
    (tokens : List Token) : Misses B tokens (takeMark m expected tokens >>= k) :=
  of_takes (takes_takeMark m expected k) hB
    (fun t rest ht => hk ⟨t, Token.isMark_eq_true_iff.mp ht⟩ rest) tokens

theorem takeEnd (hB : B []) (a : α) (tokens : List Token) :
    Misses B tokens (Parser.takeEnd tokens >>= fun rest => pure (a, rest)) := by
  cases tokens with
  | nil => exact ok _
  | cons t rest => exact takeMark hB (fun _ _ => ok _) (t :: rest)

end Misses

/-! ## Primaries and calls -/

section Operands

variable {k : Nat} {expr : Parser Expr}
  (hx : ∀ {tokens rest e}, expr.run tokens = .ok (e, rest) → Derived k .expr tokens rest (· = e))
  (hm : ∀ tokens, Misses (Begins .expr) tokens (expr.run tokens))

include hx hm

theorem misses_runArguments (name : Text) (tokens : List Token) :
    Misses BeginsArguments tokens (runArguments expr name tokens) := by
  induction hn : tokens.length using Nat.strongRecOn generalizing tokens with
  | ind n ih =>
    subst hn
    rw [runArguments_eq]
    refine ((hm tokens).mono fun used h => h.beginsArguments).bind fun e behind he => ?_
    obtain ⟨d, rfl, -, -⟩ := hx he
    have hlt := expr.progress he
    have hwhole : BeginsArguments (d.tokens ++ []) := (begins_whole d).beginsArguments
    refine ⟨d.tokens, rfl, ?_⟩
    cases behind with
    | nil => exact .fail hwhole _
    | cons t rest =>
      simp only [runOthers]
      split
      · next hc =>
        have hshort : rest.length < (d.tokens ++ t :: rest).length :=
          Nat.lt_of_succ_lt hlt
        exact .cons (((ih rest.length hshort rest rfl).map _).mono fun used h =>
          h.other d ⟨t, Token.isMark_eq_true_iff.mp hc⟩)
      · exact .takeMark hwhole (fun _ _ => .ok _) _

theorem misses_runCall (name : Text) (tokens : List Token) :
    Misses (Begins .arguments) tokens (runCall expr name tokens) := by
  have harguments := (misses_runArguments hx hm name tokens).mono fun _ h => h.begins
  cases tokens with
  | nil => exact harguments
  | cons t rest =>
    rw [runCall]
    split
    · exact .ok _
    · exact harguments

theorem misses_runName (n : NameToken) (tokens : List Token) :
    Misses (fun used => Begins .primary (n.1 :: used)) tokens (runName expr n.1 tokens) := by
  cases tokens with
  | nil => exact .ok _
  | cons t rest =>
    rw [runName]
    split
    · next ho =>
      refine .cons (((misses_runCall hx hm n.1.text rest).mono fun used h => ?_).map _)
      exact h.inside (.call n ⟨t, Token.isMark_eq_true_iff.mp ho⟩ · (markToken .closeParen))
        [n.1, t] _ (spelled_markToken .closeParen) fun _ => rfl
    · exact .ok _

theorem misses_runGroup (opening : MarkToken .openParen) (tokens : List Token) :
    Misses (fun used => Begins .primary (opening.1 :: used)) tokens (runGroup expr tokens) := by
  have hgroup : ∀ used, Begins .expr used → Begins .primary (opening.1 :: used) :=
    fun used h => h.inside (.group opening · (markToken .closeParen)) [opening.1] _
      (spelled_markToken .closeParen) fun _ => rfl
  refine ((hm tokens).mono hgroup).bind fun e behind he => ?_
  obtain ⟨d, rfl, -, -⟩ := hx he
  exact ⟨d.tokens, rfl, .takeMark (hgroup _ (begins_whole d))
    (fun _ _ => .ok _) behind⟩

theorem misses_runPrimary (tokens : List Token) :
    Misses (Begins .primary) tokens (runPrimary expr tokens) := by
  have hnothing : Begins .primary [] := ⟨.literal literalToken, [literalToken.1], rfl,
    spelled_cons (.keyword .true_) spelled_nil⟩
  cases tokens with
  | nil => exact .fail hnothing _
  | cons t rest =>
    rw [runPrimary]
    split
    · exact .ok _
    · split
      · next hn => exact .cons (misses_runName hx hm ⟨t, hn⟩ rest)
      · split
        · next ho => exact .cons (misses_runGroup hx hm ⟨t, Token.isMark_eq_true_iff.mp ho⟩ rest)
        · exact .fail hnothing _

/-- The name and the arguments of a method, its dot taken already. -/
theorem misses_runMethod (dot : MarkToken .dot) (target : Expr) (tokens : List Token) :
    Misses (fun used => Begins .suffixes (dot.1 :: used)) tokens
      (runMethod expr target tokens) := by
  have hclosing : Spelled [(markToken .closeParen).1] := spelled_markToken .closeParen
  have hopening : Spelled [(markToken .openParen).1, (markToken .closeParen).1] :=
    spelled_cons (.mark .openParen) hclosing
  refine .of_takes (takes_takeName _ _) ?_
    (fun n rest hn => .takeMark ?_ (fun opening rest => ?_) _) tokens
  · exact ⟨.method dot nameToken (markToken .openParen) .noArgument (markToken .closeParen)
      .noSuffix, _, rfl, spelled_cons spelledAs_nameToken hopening⟩
  · exact ⟨.method dot ⟨n, beq_iff_eq.mp hn⟩ (markToken .openParen) .noArgument
      (markToken .closeParen) .noSuffix, _, rfl, hopening⟩
  · have harguments : ∀ used, Begins .arguments used →
        Begins .suffixes (dot.1 :: n :: opening.1 :: used) := fun used h =>
      h.inside (.method dot ⟨n, beq_iff_eq.mp hn⟩ opening · (markToken .closeParen) .noSuffix)
        [dot.1, n, opening.1] _ hclosing fun _ => rfl
    refine ((misses_runCall hx hm n.text rest).mono harguments).bind fun args behind hargs => ?_
    obtain ⟨closing, d, rfl, -, -⟩ := derived_runCall hx hargs
    exact ⟨d.tokens ++ [closing.1], by simp, .ok _⟩

/-- An index in brackets, with its closing one. -/
def BeginsIndex (used : List Token) : Prop :=
  ∃ (i : Derivation .expr) (closing : MarkToken .closeBracket) (more : List Token),
    i.tokens ++ [closing.1] = used ++ more ∧ Spelled more

theorem misses_runIndex (tokens : List Token) :
    Misses BeginsIndex tokens (runIndex expr tokens) := by
  have hindex : ∀ used, Begins .expr used → BeginsIndex used := by
    rintro used ⟨d, more, hd, hmore⟩
    exact ⟨d, markToken .closeBracket, more ++ [(markToken .closeBracket).1],
      by rw [hd, List.append_assoc], spelled_append hmore (spelled_markToken .closeBracket)⟩
  refine ((hm tokens).mono hindex).bind fun i behind hi => ?_
  obtain ⟨d, rfl, -, -⟩ := hx hi
  have hwhole : BeginsIndex (d.tokens ++ []) := hindex _ (begins_whole d)
  exact ⟨d.tokens, rfl, .takeMark hwhole (fun _ _ => .ok _) behind⟩

theorem misses_runPostfix (target : Expr) (tokens : List Token) :
    Misses (Begins .suffixes) tokens (runPostfix expr target tokens) := by
  induction hn : tokens.length using Nat.strongRecOn generalizing tokens target with
  | ind n ih =>
    subst hn
    cases tokens with
    | nil =>
      rw [runPostfix]
      exact .ok _
    | cons t rest =>
      by_cases hd : t.kind = .mark .dot
      · rw [runPostfix_dot hd]
        refine .cons ((misses_runMethod hx hm ⟨t, hd⟩ target rest).bind fun f behind hf => ?_)
        have hlt := length_runMethod hf
        obtain ⟨n, opening, args, ts, hname, ho, rfl, hcall, -⟩ := runMethod_eq_ok_iff.mp hf
        obtain ⟨closing, args, rfl, -, -⟩ := derived_runCall hx hcall
        refine ⟨n :: opening :: (args.tokens ++ [closing.1]), by simp, ?_⟩
        have hmore : ∀ used, Begins .suffixes used → Begins .suffixes
            (t :: (n :: opening :: (args.tokens ++ [closing.1]) ++ used)) := fun used h =>
          h.inside (.method ⟨t, hd⟩ ⟨n, hname⟩ ⟨opening, ho⟩ args closing ·)
            (t :: n :: opening :: (args.tokens ++ [closing.1])) [] spelled_nil
            fun d => by simp [Derivation.tokens]
        exact (ih behind.length (Nat.lt_succ_of_lt hlt) f behind rfl).mono hmore
      · by_cases ho : t.kind = .mark .openBracket
        · have hindex : ∀ used, BeginsIndex used → Begins .suffixes (t :: used) := by
            rintro used ⟨i, closing, more, heq, hmore⟩
            refine ⟨.index ⟨t, ho⟩ i closing .noSuffix, more, ?_, hmore⟩
            exact congrArg (t :: ·) heq
          rw [runPostfix_bracket ho]
          refine .cons (((misses_runIndex hx hm rest).mono hindex).bind fun i behind hi => ?_)
          have hlt := length_runIndex hi
          obtain ⟨closing, hc, hi⟩ := runIndex_eq_ok_iff.mp hi
          obtain ⟨i, rfl, -, -⟩ := hx hi
          have hmore : ∀ used, Begins .suffixes used → Begins .suffixes
              (t :: (i.tokens ++ [closing] ++ used)) := fun used h =>
            h.inside (.index ⟨t, ho⟩ i ⟨closing, hc⟩ ·) (t :: (i.tokens ++ [closing])) []
              spelled_nil fun d => by simp [Derivation.tokens]
          exact ⟨i.tokens ++ [closing], by simp,
            (ih behind.length (Nat.lt_succ_of_lt hlt) _ behind rfl).mono hmore⟩
        · rw [runPostfix_stop (by simpa using ⟨hd, ho⟩)]
          exact .ok _

theorem misses_runOperand (tokens : List Token) :
    Misses (Begins .operand) tokens (runOperand expr tokens) := by
  have hhead : ∀ used, Begins .primary used → Begins .operand used := fun used h =>
    h.inside (.operand · .noSuffix) [] [] spelled_nil fun _ => rfl
  refine ((misses_runPrimary hx hm tokens).mono hhead).bind fun e behind he => ?_
  obtain ⟨head, rfl, -, -⟩ := derived_runPrimary hx he
  refine ⟨head.tokens, rfl, (misses_runPostfix hx hm e behind).mono fun used h => ?_⟩
  exact h.inside (.operand head ·) head.tokens [] spelled_nil fun d => by simp [Derivation.tokens]

end Operands

/-! ## Chains of operators -/

section Chains

variable {k : Nat} {unary : Parser Expr}
  (hu : ∀ {tokens rest e}, unary.run tokens = .ok (e, rest) → Derived k .unary tokens rest (· = e))
  (hm : ∀ tokens, Misses (Begins .unary) tokens (unary.run tokens))

include hu hm

theorem misses_runAdditive (left : Expr) (tokens : List Token) :
    Misses (Begins .additions) tokens (runAdditive unary left tokens) := by
  induction hn : tokens.length using Nat.strongRecOn generalizing tokens left with
  | ind n ih =>
    subst hn
    cases tokens with
    | nil =>
      rw [runAdditive]
      exact .ok _
    | cons t rest =>
      cases ht : t.additive? with
      | none =>
        rw [runAdditive_stop (by simpa using ht)]
        exact .ok _
      | some op =>
        have hsome : t.additive?.isSome = true := by rw [ht]; rfl
        have hright : ∀ used, Begins .unary used → Begins .additions (t :: used) := fun used h =>
          h.inside (.add ⟨t, hsome⟩ · .noAddition) [t] [] spelled_nil fun _ => rfl
        rw [runAdditive_operator ht]
        refine .cons (((hm rest).mono hright).bind fun right behind hr => ?_)
        have hlt := unary.progress hr
        obtain ⟨right, rfl, -, -⟩ := hu hr
        have htail : ∀ used, Begins .additions used →
            Begins .additions (t :: (right.tokens ++ used)) := fun used h =>
          h.inside (.add ⟨t, hsome⟩ right ·) (t :: right.tokens) [] spelled_nil
            fun d => by simp [Derivation.tokens]
        exact ⟨right.tokens, rfl,
          (ih behind.length (Nat.lt_succ_of_lt hlt) _ behind rfl).mono htail⟩

theorem misses_additive (tokens : List Token) :
    Misses (Begins .additive) tokens ((Parser.additive unary).run tokens) := by
  have hleft : ∀ used, Begins .unary used → Begins .additive used := fun used h =>
    h.inside (.additive · .noAddition) [] [] spelled_nil fun _ => rfl
  refine ((hm tokens).mono hleft).bind fun e behind he => ?_
  obtain ⟨left, rfl, -, -⟩ := hu he
  refine ⟨left.tokens, rfl, (misses_runAdditive hu hm e behind).mono fun used h => ?_⟩
  exact h.inside (.additive left ·) left.tokens [] spelled_nil fun d => by simp [Derivation.tokens]

theorem misses_runComparison (left : Expr) (tokens : List Token) :
    Misses (Begins .comparison) tokens
      (runComparison (Parser.additive unary) left tokens) := by
  cases tokens with
  | nil => exact .ok _
  | cons t rest =>
    cases ht : t.comparison? with
    | none =>
      rw [runComparison_stop (by simpa using ht)]
      exact .ok _
    | some c =>
      have hsome : t.comparison?.isSome = true := by rw [ht]; rfl
      rw [runComparison_operator ht]
      refine .cons (((misses_additive hu hm rest).mono fun used h => ?_).map _)
      exact h.inside (.compare ⟨t, hsome⟩ ·) [t] [] spelled_nil fun d => by simp [Derivation.tokens]

theorem misses_expression (tokens : List Token) :
    Misses (Begins .expr) tokens ((expression unary).run tokens) := by
  have hleft : ∀ used, Begins .additive used → Begins .expr used := fun used h =>
    h.inside (.expr · .noComparison) [] [] spelled_nil fun _ => rfl
  refine ((misses_additive hu hm tokens).mono hleft).bind fun e behind he => ?_
  obtain ⟨left, rfl, -, -⟩ := derived_additive hu he
  refine ⟨left.tokens, rfl, (misses_runComparison hu hm e behind).mono fun used h => ?_⟩
  exact h.inside (.expr left ·) left.tokens [] spelled_nil fun d => by simp [Derivation.tokens]

theorem misses_level (tokens : List Token) :
    Misses (Begins .unary) tokens ((level unary).run tokens) := by
  have hbare : ∀ used, Begins .operand used → Begins .unary used := fun used h =>
    h.inside .bare [] [] spelled_nil fun d => (List.append_nil _).symm
  have hoperand := (misses_runOperand (derived_expression hu) (misses_expression hu hm) tokens).mono
    hbare
  cases tokens with
  | nil => exact hoperand
  | cons t rest =>
    cases ht : t.unary? with
    | none =>
      rw [level_operand (by simpa using ht)]
      exact hoperand
    | some op =>
      have hsome : t.unary?.isSome = true := by rw [ht]; rfl
      rw [level_unary ht]
      refine .cons (((hm rest).mono fun used h => ?_).map _)
      exact h.inside (.unary ⟨t, hsome⟩ ·) [t] [] spelled_nil fun d => by simp [Derivation.tokens]

end Chains

theorem misses_unary (k : Nat) (tokens : List Token) :
    Misses (Begins .unary) tokens ((Parser.unary k).run tokens) := by
  induction k generalizing tokens with
  | zero => exact .tooDeep
  | succ k ih => exact misses_level derived_unary ih tokens

/-- Where an expression misses something, the tokens in front of that begin one. -/
theorem misses_expr (k : Nat) (tokens : List Token) :
    Misses (Begins .expr) tokens ((Parser.expr k).run tokens) :=
  misses_expression derived_unary (misses_unary k) tokens

end ScalarScript.Grammar
