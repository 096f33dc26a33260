import ScalarScript.Proofs.Grammar.Indexed.Reader
import ScalarScript.Proofs.Grammar.Lookahead.Script

/-!
# Both readers in step

The parser that works on an index and the one that takes tokens off a list do the same: at an index
within the tokens or at the end, the one comes to what the other comes to on the tokens from there.
In particular the one ends, looks nowhere outside, and hands on an index that is not below where it
started, and above it if it takes a token.

* `Mirrors`: the two come to the same.
* `Fits`: the room that a depth gives. With no limit, fewer tokens are left than there are levels;
  each level takes one at least, so that the depth never ends.

Results: `Mirrors.bind`, `Mirrors.look` and `Mirrors.expect` for the steps; one lemma for each
reader, the loops by induction on the tokens left; **`mirrors_expr`** and **`mirrors_statement`**.
-/

namespace ScalarScript.Indexed

open ScalarScript.Parser

variable {ts : Tokens} {limited : Bool} {low low' i : Nat}

/-! ## Both readers in step -/

section Mirrors

variable {α β : Type} {out : Except Halt (α × List Token)} {found : Reading (α × Nat)}

/-- Reading by index comes to what reading the tokens from there comes to: it ends at an index not
below `low` with the same result, or fails in the same way, or has no room, if that is limited. -/
inductive Mirrors (ts : Tokens) (limited : Bool) (low : Nat) :
    Except Halt (α × List Token) → Reading (α × Nat) → Prop
  | ok {a : α} {j : Nat} (hlow : low ≤ j) (hj : j ≤ ts.tokens.length) :
    Mirrors ts limited low (.ok (a, ts.tokens.drop j)) (pure (a, j))
  | missing {expected : Expected} {j : Nat} (hj : j ≤ ts.tokens.length) :
    Mirrors ts limited low (.error (.missing expected (ts.tokens.drop j)))
      (throw (.failed (missingAt expected (ts.tokens.drop j) ts.stop)))
  | tooDeep (h : limited = true) : Mirrors ts limited low (.error .tooDeep) (throw .tooDeep)

theorem look_eq (hi : i ≤ ts.tokens.length) : look ts i = pure (ts.tokens.drop i).head? := by
  have hitem : ts.items[i]? = some (ts.tokens.drop i).head? := by
    rw [Tokens.items, List.head?_drop]
    rcases Nat.lt_or_eq_of_le hi with hlt | rfl
    · rw [List.getElem?_append_left (by simpa using hlt), List.getElem?_map,
        List.getElem?_eq_getElem hlt]
      rfl
    · simp
  rw [look, hitem]

namespace Mirrors

theorem mono (h : Mirrors ts limited low out found) (hle : low' ≤ low) :
    Mirrors ts limited low' out found := by
  cases h with
  | ok hlow hj => exact .ok (Nat.le_trans hle hlow) hj
  | missing hj => exact .missing hj
  | tooDeep h => exact .tooDeep h

theorem bind {k : α × List Token → Except Halt (β × List Token)}
    {k' : α × Nat → Reading (β × Nat)} (h : Mirrors ts limited low out found)
    (hk : ∀ a j, low ≤ j → j ≤ ts.tokens.length →
      Mirrors ts limited low' (k (a, ts.tokens.drop j)) (k' (a, j))) :
    Mirrors ts limited low' (out >>= k) (found >>= k') := by
  cases h with
  | ok hlow hj => exact hk _ _ hlow hj
  | missing hj => exact .missing hj
  | tooDeep h => exact .tooDeep h

theorem map (h : Mirrors ts limited low out found) (f : α → β) :
    Mirrors ts limited low (out.map fun p => (f p.1, p.2))
      (found >>= fun p => pure (f p.1, p.2)) := by
  cases h with
  | ok hlow hj => exact .ok hlow hj
  | missing hj => exact .missing hj
  | tooDeep h => exact .tooDeep h

/-- What is done about the token at an index, or about the end there. -/
theorem look (run : List Token → Except Halt (α × List Token))
    {k : Option Token → Reading (α × Nat)} (hi : i ≤ ts.tokens.length)
    (hend : i = ts.tokens.length → Mirrors ts limited low (run []) (k none))
    (htoken : ∀ t, i + 1 ≤ ts.tokens.length →
      ts.tokens.drop i = t :: ts.tokens.drop (i + 1) →
        Mirrors ts limited low (run (t :: ts.tokens.drop (i + 1))) (k (some t))) :
    Mirrors ts limited low (run (ts.tokens.drop i)) (look ts i >>= k) := by
  rw [look_eq hi, pure_bind]
  rcases Nat.lt_or_eq_of_le hi with hlt | hlen
  · have hdrop := List.drop_eq_getElem_cons hlt
    rw [hdrop]
    exact htoken _ hlt hdrop
  · rw [List.drop_of_length_le (Nat.le_of_eq hlen.symm)]
    exact hend hlen

theorem okEnd (a : α) (hi : i = ts.tokens.length) (hlow : low ≤ i) :
    Mirrors ts limited low (.ok (a, [])) (pure (a, i)) := by
  rw [← List.drop_of_length_le (Nat.le_of_eq hi.symm)]
  exact .ok hlow (Nat.le_of_eq hi)

theorem okToken {t : Token} (a : α) (hi : i ≤ ts.tokens.length)
    (hdrop : ts.tokens.drop i = t :: ts.tokens.drop (i + 1)) (hlow : low ≤ i) :
    Mirrors ts limited low (.ok (a, t :: ts.tokens.drop (i + 1))) (pure (a, i)) := by
  rw [← hdrop]
  exact .ok hlow hi

theorem missEnd (hi : i = ts.tokens.length) (expected : Expected) :
    Mirrors ts limited low (.error (.missing expected []) : Except Halt (α × List Token))
      (miss ts expected none) := by
  have hmissing : Mirrors ts limited low
      (.error (.missing expected (ts.tokens.drop i)) : Except Halt (α × List Token))
      (miss ts expected (ts.tokens.drop i).head?) := .missing (Nat.le_of_eq hi)
  rwa [List.drop_of_length_le (Nat.le_of_eq hi.symm)] at hmissing

theorem missToken {t : Token} (hi : i ≤ ts.tokens.length)
    (hdrop : ts.tokens.drop i = t :: ts.tokens.drop (i + 1)) (expected : Expected) :
    Mirrors ts limited low
      (.error (.missing expected (t :: ts.tokens.drop (i + 1))) : Except Halt (α × List Token))
      (miss ts expected (some t)) := by
  have hmissing : Mirrors ts limited low
      (.error (.missing expected (ts.tokens.drop i)) : Except Halt (α × List Token))
      (miss ts expected (ts.tokens.drop i).head?) := .missing hi
  rwa [hdrop] at hmissing

/-- A token that has to be such as `p` says. -/
theorem expect {p : Token → Bool} {expected : Expected}
    {run : List Token → Except Halt (α × List Token)}
    {k : Token → List Token → Except Halt (α × List Token)}
    {k' : Token × Nat → Reading (α × Nat)} (h : Takes p expected run k)
    (hi : i ≤ ts.tokens.length)
    (hk : ∀ t, p t = true → i + 1 ≤ ts.tokens.length →
      Mirrors ts limited low (k t (ts.tokens.drop (i + 1))) (k' (t, i + 1))) :
    Mirrors ts limited low (run (ts.tokens.drop i)) (expect ts p expected i >>= k') := by
  rw [Indexed.expect, bind_assoc]
  refine look run hi (fun hlen => ?_) fun t hlt hdrop => ?_
  · rw [h.nil]
    exact missEnd hlen expected
  · cases ht : p t with
    | true =>
      rw [h.taken t _ ht]
      simp only [ht]
      exact hk t ht hlt
    | false =>
      rw [h.refused t _ ht]
      simp only [ht]
      exact missToken hi hdrop expected

theorem expectMark {m : Mark} {expected : Expected}
    {k : List Token → Except Halt (α × List Token)} {k' : Token × Nat → Reading (α × Nat)}
    (hi : i ≤ ts.tokens.length)
    (hk : ∀ t, i + 1 ≤ ts.tokens.length →
      Mirrors ts limited low (k (ts.tokens.drop (i + 1))) (k' (t, i + 1))) :
    Mirrors ts limited low (takeMark m expected (ts.tokens.drop i) >>= k)
      (Indexed.expect ts (·.isMark m) expected i >>= k') :=
  expect (takes_takeMark m expected k) hi fun t _ => hk t

theorem expectName {expected : Expected}
    {k : Token × List Token → Except Halt (α × List Token)} {k' : Token × Nat → Reading (α × Nat)}
    (hi : i ≤ ts.tokens.length)
    (hk : ∀ t, i + 1 ≤ ts.tokens.length →
      Mirrors ts limited low (k (t, ts.tokens.drop (i + 1))) (k' (t, i + 1))) :
    Mirrors ts limited low (takeName expected (ts.tokens.drop i) >>= k)
      (Indexed.expect ts (·.kind == .identifier) expected i >>= k') :=
  expect (takes_takeName expected k) hi fun t _ => hk t

theorem expectAssign {k : List Token → Except Halt (α × List Token)}
    {k' : Token × Nat → Reading (α × Nat)} (hi : i ≤ ts.tokens.length)
    (hk : ∀ t, i + 1 ≤ ts.tokens.length →
      Mirrors ts limited low (k (ts.tokens.drop (i + 1))) (k' (t, i + 1))) :
    Mirrors ts limited low (takeAssign (ts.tokens.drop i) >>= k)
      (Indexed.expect ts (·.isSymbol .assign) .assignment i >>= k') :=
  expect (takes_takeAssign k) hi fun t _ => hk t

/-- The end of a statement. -/
theorem endStatement (a : α) (hi : i ≤ ts.tokens.length) :
    Mirrors ts limited i (takeEnd (ts.tokens.drop i) >>= fun rest => pure (a, rest))
      (endStatement ts i >>= fun j => pure (a, j)) := by
  rw [Indexed.endStatement, bind_assoc]
  refine look (fun ts => takeEnd ts >>= fun rest => pure (a, rest)) hi (fun hlen => ?_)
    fun t hlt hdrop => ?_
  · exact okEnd a hlen (Nat.le_refl i)
  · simp only [takeEnd, bind_assoc, pure_bind]
    rw [← hdrop]
    exact expectMark hi fun _ hlt => .ok (Nat.le_succ i) hlt

end Mirrors

end Mirrors

/-! ## Primaries and calls -/

section Operands

variable {start steps : Nat} {expr : Parser Expr} {reader : Nat → Reading (Expr × Nat)}
  (hx : ∀ j, start ≤ j → j ≤ ts.tokens.length →
    Mirrors ts limited (j + 1) (expr.run (ts.tokens.drop j)) (reader j))

include hx

theorem mirrors_moreArguments (name : Text) (hstart : start ≤ i) (hi : i ≤ ts.tokens.length)
    (hsteps : ts.tokens.length < i + steps) :
    Mirrors ts limited (i + 1) (runArguments expr name (ts.tokens.drop i))
      (moreArguments ts reader name steps i) := by
  induction steps generalizing i with
  | zero => omega
  | succ steps ih =>
    rw [runArguments_eq, moreArguments]
    refine (hx i hstart hi).bind fun e j hlow hj => ?_
    refine .look (runOthers expr name e) hj (fun hlen => .missEnd hlen _) fun t hlt hdrop => ?_
    rw [runOthers]
    cases ht : t.isMark .comma with
    | true =>
      simp only [ht, if_true]
      exact ((ih (by omega) hlt (by omega)).map (e :: ·)).mono (by omega)
    | false =>
      simp only [ht, Bool.false_eq_true, if_false]
      rw [← hdrop]
      exact .expectMark hj fun _ hlt => .ok (by omega) hlt

theorem mirrors_arguments (name : Text) (hstart : start ≤ i) (hi : i ≤ ts.tokens.length)
    (hsteps : ts.tokens.length < i + steps) :
    Mirrors ts limited (i + 1) (runCall expr name (ts.tokens.drop i))
      (arguments ts reader name steps i) := by
  have hmore := mirrors_moreArguments hx name hstart hi hsteps
  rw [arguments]
  refine .look (runCall expr name) hi (fun hlen => ?_) fun t hlt hdrop => ?_
  · rwa [List.drop_of_length_le (Nat.le_of_eq hlen.symm)] at hmore
  · rw [runCall]
    cases ht : t.isMark .closeParen with
    | true =>
      simp only [ht, if_true]
      exact .ok (Nat.le_refl _) hlt
    | false =>
      simp only [ht, Bool.false_eq_true, if_false]
      rwa [hdrop] at hmore

theorem mirrors_primary (hstart : start ≤ i + 1) (hi : i ≤ ts.tokens.length)
    (hsteps : ts.tokens.length < i + 1 + steps) :
    Mirrors ts limited (i + 1) (runPrimary expr (ts.tokens.drop i))
      (primary ts reader steps i) := by
  rw [primary]
  refine .look (runPrimary expr) hi (fun hlen => .missEnd hlen _) fun t hlt hdrop => ?_
  rw [runPrimary]
  cases hliteral : t.literal? with
  | some e =>
    simp only [hliteral]
    exact .ok (Nat.le_refl _) hlt
  | none =>
    by_cases hname : t.kind = .identifier
    · -- A name is not the end, so the look behind it is within the tokens or at the end.
      simp only [hliteral, hname, if_true]
      refine .look (runName expr t) hlt (fun hlen => ?_) fun u hlt' hdrop' => ?_
      · exact .okEnd _ hlen (Nat.le_refl _)
      rw [runName]
      cases ho : u.isMark .openParen with
      | true =>
        simp only [Option.any_some, ho, if_true]
        exact ((mirrors_arguments hx t.text (by omega) hlt' (by omega)).map fun args =>
          Expr.call (.text t.text) args t.position).mono (by omega)
      | false =>
        simp only [Option.any_some, ho, Bool.false_eq_true, if_false]
        exact .okToken _ hlt hdrop' (Nat.le_refl _)
    · cases ho : t.isMark .openParen with
      | true =>
        simp only [hliteral, hname, ho, if_false, if_true]
        refine (hx (i + 1) hstart hlt).bind fun e j hlow hj => ?_
        exact .expectMark hj fun _ hlt => .ok (by omega) hlt
      | false =>
        simp only [hliteral, hname, ho, Bool.false_eq_true, if_false]
        exact .missToken hi hdrop _

theorem mirrors_suffixes (e : Expr) (hstart : start ≤ i + 1) (hi : i ≤ ts.tokens.length)
    (hsteps : ts.tokens.length < i + steps) :
    Mirrors ts limited i (runPostfix expr e (ts.tokens.drop i)) (suffixes ts reader steps e i) := by
  induction steps generalizing i e with
  | zero => omega
  | succ steps ih =>
    rw [suffixes]
    refine .look (runPostfix expr e) hi (fun hlen => ?_) fun t hlt hdrop => ?_
    · rw [runPostfix]
      exact .okEnd e hlen (Nat.le_refl i)
    have hmore : ∀ f j, i < j → j ≤ ts.tokens.length → Mirrors ts limited i
        (runPostfix expr f (ts.tokens.drop j)) (suffixes ts reader steps f j) :=
      fun f j hlow hj => (ih f (by omega) hj (by omega)).mono (Nat.le_of_lt hlow)
    by_cases hd : t.kind = .mark .dot
    · simp only [runPostfix_dot hd, runMethod, bind_assoc, pure_bind, Token.isMark, hd]
      refine .expectName hlt fun name hlt => .expectMark hlt fun _ hlt => ?_
      refine (mirrors_arguments hx name.text (by omega) hlt (by omega)).bind
        fun args j hlow hj => ?_
      exact hmore _ j (by omega) hj
    · by_cases ho : t.kind = .mark .openBracket
      · simp only [runPostfix_bracket ho, runIndex, bind_assoc, pure_bind, Token.isMark, ho]
        refine (hx (i + 1) hstart hlt).bind fun index j hlow hj => .expectMark hj fun _ hlt => ?_
        exact hmore _ (j + 1) (by omega) hlt
      · rw [runPostfix_stop (by simpa using ⟨hd, ho⟩)]
        simp only [Token.isMark, beq_iff_eq, hd, ho, if_false]
        exact .okToken e hi hdrop (Nat.le_refl i)

theorem mirrors_operand (hstart : start ≤ i + 1) (hi : i ≤ ts.tokens.length)
    (hsteps : ts.tokens.length < i + 1 + steps) :
    Mirrors ts limited (i + 1) (runOperand expr (ts.tokens.drop i))
      (operand ts reader steps i) := by
  rw [operand]
  refine (mirrors_primary hx hstart hi hsteps).bind fun e j hlow hj => ?_
  exact (mirrors_suffixes hx e (by omega) hj (by omega)).mono hlow

end Operands

/-! ## Chains of operators -/

section Chains

variable {start steps : Nat} {unary : Parser Expr} {reader : Nat → Reading (Expr × Nat)}
  (hu : ∀ j, start ≤ j → j ≤ ts.tokens.length →
    Mirrors ts limited (j + 1) (unary.run (ts.tokens.drop j)) (reader j))

include hu

theorem mirrors_additions (left : Expr) (hstart : start ≤ i) (hi : i ≤ ts.tokens.length)
    (hsteps : ts.tokens.length < i + steps) :
    Mirrors ts limited i (runAdditive unary left (ts.tokens.drop i))
      (additions ts reader steps left i) := by
  induction steps generalizing i left with
  | zero => omega
  | succ steps ih =>
    rw [additions]
    refine .look (runAdditive unary left) hi (fun hlen => ?_) fun t hlt hdrop => ?_
    · rw [runAdditive]
      exact .okEnd left hlen (Nat.le_refl i)
    cases ht : t.additive? with
    | none =>
      rw [runAdditive_stop (by simpa using ht)]
      simp only [ht]
      exact .okToken left hi hdrop (Nat.le_refl i)
    | some op =>
      rw [runAdditive_operator ht]
      simp only [ht]
      refine (hu (i + 1) (by omega) hlt).bind fun right j hlow hj => ?_
      exact (ih _ (by omega) hj (by omega)).mono (by omega)

theorem mirrors_additive (hstart : start ≤ i) (hi : i ≤ ts.tokens.length)
    (hsteps : ts.tokens.length < i + steps) :
    Mirrors ts limited (i + 1) ((Parser.additive unary).run (ts.tokens.drop i))
      (additive ts reader steps i) := by
  rw [additive]
  refine (hu i hstart hi).bind fun left j hlow hj => ?_
  exact (mirrors_additions hu left (by omega) hj (by omega)).mono hlow

theorem mirrors_comparison (hstart : start ≤ i) (hi : i ≤ ts.tokens.length)
    (hsteps : ts.tokens.length < i + steps) :
    Mirrors ts limited (i + 1) ((Parser.expression unary).run (ts.tokens.drop i))
      (comparison ts reader steps i) := by
  rw [comparison]
  refine (mirrors_additive hu hstart hi hsteps).bind fun left j hlow hj => ?_
  refine .look (runComparison (Parser.additive unary) left) hj (fun hlen => ?_)
    fun t hlt hdrop => ?_
  · exact .okEnd left hlen hlow
  · cases ht : t.comparison? with
    | none =>
      rw [runComparison_stop (by simpa using ht)]
      simp only [ht]
      exact .okToken left hj hdrop hlow
    | some c =>
      rw [runComparison_operator ht]
      simp only [ht]
      exact ((mirrors_additive hu (by omega) hlt (by omega)).map fun right =>
        Expr.binary (.compare c) left right t.position).mono (by omega)

end Chains

/-! ## Nesting -/

/-- Room for `depth` levels; or no limit, and fewer tokens left than levels. -/
def Fits (ts : Tokens) (depth : Nat) (room : Option Nat) (i : Nat) : Prop :=
  room = some depth ∨ room = none ∧ ts.tokens.length < i + depth

section Nesting

variable {depth steps : Nat} {room : Option Nat}

theorem Fits.mono {j : Nat} (h : Fits ts depth room i) (hj : i ≤ j) : Fits ts depth room j :=
  h.imp_right fun ⟨hroom, hlen⟩ => ⟨hroom, by omega⟩

theorem Fits.eq_some_zero (h : Fits ts 0 room i) (hi : i ≤ ts.tokens.length) : room = some 0 :=
  h.resolve_right fun ⟨_, hlen⟩ => Nat.not_lt_of_le hi hlen

/-- One level deeper there is room for one level less, behind a token at least. -/
theorem Fits.deeper (h : Fits ts (depth + 1) room i) :
    ∃ inner, deeper room = pure inner ∧ inner.isSome = room.isSome ∧
      ∀ j, i + 1 ≤ j → j ≤ ts.tokens.length → Fits ts depth inner j := by
  rcases h with rfl | ⟨rfl, hlen⟩
  · exact ⟨some depth, rfl, rfl, fun _ _ _ => .inl rfl⟩
  · exact ⟨none, rfl, rfl, fun _ _ _ => .inr ⟨rfl, by omega⟩⟩

theorem mirrors_unary (hfits : Fits ts depth room i) (hi : i ≤ ts.tokens.length)
    (hsteps : ts.tokens.length < i + steps) :
    Mirrors ts room.isSome (i + 1) ((Parser.unary depth).run (ts.tokens.drop i))
      (unary ts steps room i) := by
  induction steps generalizing depth room i with
  | zero => omega
  | succ steps ih =>
    cases depth with
    | zero =>
      rw [hfits.eq_some_zero hi]
      exact .tooDeep rfl
    | succ depth =>
      -- What nests starts behind a token, so that one step and one level less are enough for it.
      obtain ⟨inner, hinner, hsome, hdeeper⟩ := hfits.deeper
      have hunary : ∀ j, i + 1 ≤ j → j ≤ ts.tokens.length → Mirrors ts room.isSome (j + 1)
          ((Parser.unary depth).run (ts.tokens.drop j)) (unary ts steps inner j) :=
        fun j hj hlen => hsome ▸ ih (hdeeper j hj hlen) hlen (by omega)
      have hoperand : Mirrors ts room.isSome (i + 1)
          (runOperand (Parser.expression (Parser.unary depth)) (ts.tokens.drop i))
          (operand ts (comparison ts (unary ts steps inner) steps) steps i) :=
        mirrors_operand (fun j hj hlen => mirrors_comparison hunary hj hlen (by omega))
          (Nat.le_refl (i + 1)) hi (by omega)
      rw [unary, hinner, pure_bind]
      refine .look (level (Parser.unary depth)).run hi (fun hlen => ?_) fun t hlt hdrop => ?_
      · rwa [List.drop_of_length_le (Nat.le_of_eq hlen.symm)] at hoperand
      · cases ht : t.unary? with
        | none =>
          rw [level_operand (by simpa using ht)]
          simp only [ht]
          rwa [hdrop] at hoperand
        | some op =>
          rw [level_unary ht]
          simp only [ht]
          exact ((hunary (i + 1) (Nat.le_refl _) hlt).map fun e =>
            Expr.unary op e t.position).mono (by omega)

/-- An expression is read by index as it is read from the tokens there. -/
theorem mirrors_expr (hfits : Fits ts depth room i) (hi : i ≤ ts.tokens.length)
    (hsteps : ts.tokens.length < i + steps) :
    Mirrors ts room.isSome (i + 1) ((Parser.expr depth).run (ts.tokens.drop i))
      (expression ts steps room i) :=
  mirrors_comparison (fun _ hj hlen => mirrors_unary (hfits.mono hj) hlen (by omega))
    (Nat.le_refl i) hi hsteps

end Nesting

/-! ## Statements -/

/-- The statement that tokens start with; at the end of a source, which is none. -/
def runFrom (expr : Parser Expr) (stop : Position) :
    List Token → Except Halt (Statement × List Token)
  | [] => runAssign expr (.expression · stop) []
  | t :: rest => runStatement expr t rest

section Statements

variable {expr : Parser Expr} {reader : Nat → Reading (Expr × Nat)}
  (hx : ∀ j, i ≤ j → j ≤ ts.tokens.length →
    Mirrors ts limited (j + 1) (expr.run (ts.tokens.drop j)) (reader j))

include hx

theorem mirrors_assignment (build : Expr → Statement) {j : Nat} (hj : i ≤ j)
    (hlen : j ≤ ts.tokens.length) :
    Mirrors ts limited (j + 1) (runAssign expr build (ts.tokens.drop j))
      (assignment ts reader build j) := by
  rw [runAssign, assignment]
  refine (hx j hj hlen).bind fun e behind hlow hbehind => ?_
  exact (Mirrors.endStatement (build e) hbehind).mono hlow

theorem mirrors_declaration (keyword : Keyword) (build : Datum → Expr → Statement)
    (hlt : i + 1 ≤ ts.tokens.length) :
    Mirrors ts limited (i + 1) (runDeclaration expr keyword build (ts.tokens.drop (i + 1)))
      (declaration ts reader keyword build (i + 1)) := by
  rw [runDeclaration, declaration]
  refine .expectName hlt fun name hlt => .expectAssign hlt fun _ hlt => ?_
  exact (mirrors_assignment hx (build (.text name.text)) (by omega) hlt).mono (by omega)

theorem mirrors_named {name : Token} (hlt : i + 1 ≤ ts.tokens.length)
    (hdrop : ts.tokens.drop i = name :: ts.tokens.drop (i + 1)) :
    Mirrors ts limited (i + 1) (runNamed expr name (ts.tokens.drop (i + 1)))
      (named ts reader name i) := by
  have hother := mirrors_assignment hx (.expression · name.position) (Nat.le_refl i) (by omega)
  rw [hdrop] at hother
  rw [named]
  refine .look (runNamed expr name) hlt (fun hlen => ?_) fun t hlt' hdrop' => ?_
  · rwa [List.drop_of_length_le (Nat.le_of_eq hlen.symm)] at hother
  rw [hdrop'] at hother
  by_cases hprint : name.text = Text.of "print" ∧ t.isMark .openParen = true
  · rw [runNamed, if_pos hprint, runPrint]
    simp only [hprint, and_self, if_true]
    refine (hx (i + 2) (by omega) hlt').bind fun e j hlow hj => .expectMark hj fun _ hlt => ?_
    exact (Mirrors.endStatement _ hlt).mono (by omega)
  by_cases hs : t.isSymbol .assign = true
  · rw [runNamed, if_neg hprint, if_pos hs]
    simp only [hprint, hs, if_false, if_true]
    exact (mirrors_assignment hx _ (by omega) hlt').mono (by omega)
  by_cases ho : t.isMark .openBracket = true
  · rw [runNamed_bracket _ _ (Token.isMark_eq_true_iff.mp ho), runIndex, bind_assoc]
    simp only [hprint, hs, ho, if_false, if_true, bind_assoc, pure_bind]
    refine (hx (i + 2) (by omega) hlt').bind fun index j hlow hj => .expectMark hj fun _ hlt => ?_
    -- Where no sign follows, the index is forgotten and all is read again from the name.
    refine .look (runBehindIndex expr name index _) hlt (fun _ => hother) fun sign hlt hdrop => ?_
    rw [runBehindIndex]
    by_cases hsign : sign.isSymbol .assign = true
    · simp only [hsign, if_true]
      exact (mirrors_assignment hx _ (by omega) hlt).mono (by omega)
    · simp only [hsign]
      exact hother
  · rw [runNamed, if_neg hprint, if_neg hs, if_neg ho]
    simp only [hprint, hs, ho, if_false]
    exact hother

/-- A statement is read by index as it is read from the tokens there. -/
theorem mirrors_statement (hi : i ≤ ts.tokens.length) :
    Mirrors ts limited (i + 1) (runFrom expr ts.stop (ts.tokens.drop i))
      (statement ts reader i) := by
  rw [statement]
  refine .look (runFrom expr ts.stop) hi (fun hlen => ?_) fun t hlt hdrop => ?_
  · have hother := mirrors_assignment hx (.expression · ts.stop) (Nat.le_refl i) hi
    rwa [List.drop_of_length_le (Nat.le_of_eq hlen.symm)] at hother
  · have hother := mirrors_assignment hx (.expression · t.position) (Nat.le_refl i) hi
    rw [hdrop] at hother
    by_cases hlet : t.kind = .keyword .let_
    · simp only [runFrom, runStatement, hlet]
      exact mirrors_declaration hx _ _ hlt
    by_cases hconst : t.kind = .keyword .const
    · simp only [runFrom, runStatement, hconst]
      exact mirrors_declaration hx _ _ hlt
    by_cases hname : t.kind = .identifier
    · simp only [runFrom, runStatement, hname]
      exact mirrors_named hx hlt hdrop
    · rw [runFrom, runStatement_other hlet hconst hname]
      simp only
      exact hother

end Statements

end ScalarScript.Indexed
