import ScalarScript.Proofs.Grammar.Indexed.Mirror
import ScalarScript.Proofs.Grammar.Script

/-!
# Reading stays within the tokens

From every index within the tokens of a source, and from the one of their end, the parser that works
on an index comes to an end, in loops that are run and readers that are nested no more often than
there are tokens and one. It never looks outside, although it looks one or two tokens ahead of its
index without asking where the end is: it does so only where the token at its index is not the end.
Where it takes something, the index goes on, at most to the end. With no limit to nesting it ends
too: each level of nesting takes a token.

It is the parser of this library: both read each script and each expression as the same, or fail in
the same way. So each failure after the tokens are scanned is at a token or at the end.

* `Placed`: a failure is at a token or at the end.
* `Lands`, `Settled`: what reading may come to, for part of the tokens and for all of them.
* `Ends`: what reading comes to does not depend on the steps that it may take, if they are enough.
* `StaysWithin`: every reader ends from an index on.

Results: `statements_eq` and `loneExpression_eq` (whole sources, by both parsers);
**`reading_stays_within`**.
-/

namespace ScalarScript.Indexed

open ScalarScript.Parser ScalarScript.Grammar

variable {ts : Tokens} {limited : Bool} {room : Option Nat} {depth steps i : Nat}

/-! ## Failures -/

/-- A failure is at a token or at the end. -/
def Placed (ts : Tokens) (e : ParseError) : Prop :=
  ∃ item ∈ ts.items, e.position = ts.placeOf item

theorem head?_drop_mem_items (ts : Tokens) (j : Nat) : (ts.tokens.drop j).head? ∈ ts.items := by
  cases hhead : (ts.tokens.drop j).head? with
  | none => simp [Tokens.items]
  | some t =>
    have ht : t ∈ ts.tokens := List.mem_of_mem_drop (List.mem_of_mem_head? hhead)
    simp [Tokens.items, ht]

theorem placed_missingAt (expected : Expected) (j : Nat) :
    Placed ts (missingAt expected (ts.tokens.drop j) ts.stop) :=
  ⟨_, head?_drop_mem_items ts j, rfl⟩

/-- All tokens are read, or there is a failure at one of them or at the end; nesting is too deep
only where it is limited. -/
inductive Settled {α : Type} (ts : Tokens) (limited : Bool) : Except ParseError α → Prop
  | ok (a : α) : Settled ts limited (.ok a)
  | failed {e : ParseError} (hplaced : Placed ts e)
    (hdeep : e.fault = .nestedTooDeeply → limited = true) : Settled ts limited (.error e)

theorem Settled.map {α β : Type} {out : Except ParseError α}
    (h : Settled ts limited out) (f : α → β) : Settled ts limited (out.map f) := by
  cases h with
  | ok a => exact .ok (f a)
  | failed hplaced hdeep => exact .failed hplaced hdeep

/-! ## Whole sources -/

/-- The loop over the statements ends, and comes to what the tokens are read as. -/
theorem statements_eq {expr : Parser Expr} {reader : Nat → Reading (Expr × Nat)}
    (hx : ∀ j, j ≤ ts.tokens.length →
      Mirrors ts limited (j + 1) (expr.run (ts.tokens.drop j)) (reader j))
    (hi : i ≤ ts.tokens.length) (hsteps : ts.tokens.length < i + steps) :
    statements ts reader steps i =
        some ((Script.readStatements expr ts.stop (ts.tokens.drop i)).mapError .failed) ∧
      Settled ts limited (Script.readStatements expr ts.stop (ts.tokens.drop i)) := by
  induction steps generalizing i with
  | zero => omega
  | succ steps ih =>
    rw [statements, look_eq hi]
    rcases Nat.lt_or_eq_of_le hi with hlt | hlen
    · have hstatement := mirrors_statement (fun j _ => hx j) hi
      have hitem := head?_drop_mem_items ts i
      have hdrop := List.drop_eq_getElem_cons hlt
      rw [hdrop] at hstatement hitem ⊢
      generalize ts.tokens[i] = t at hdrop hstatement hitem ⊢
      by_cases hsemi : t.kind = .mark .semicolon
      · rw [readStatements_semicolon hsemi]
        simpa [hsemi] using ih hlt (by omega)
      · simp only [List.head?_cons, pure_bind, Token.isMark, beq_iff_eq, hsemi, if_false]
        rw [runFrom] at hstatement
        generalize hrun : runStatement _ t _ = out at hstatement
        generalize statement ts reader i = found at hstatement ⊢
        cases hstatement with
        | @ok s j hlow hj =>
          obtain ⟨hmore, hsettled⟩ := ih hj (by omega)
          rw [readStatements_statement hsemi hrun]
          refine ⟨?_, hsettled.map _⟩
          show statements ts reader steps j >>= _ = _
          rw [hmore]
          cases Script.readStatements _ ts.stop (ts.tokens.drop j) <;> rfl
        | missing hj =>
          rw [readStatements_halt hsemi hrun]
          exact ⟨rfl, .failed (placed_missingAt _ _) fun h => by cases h⟩
        | tooDeep h =>
          rw [readStatements_halt hsemi hrun]
          exact ⟨rfl, .failed ⟨some t, hitem, rfl⟩ fun _ => h⟩
    · rw [List.drop_of_length_le (Nat.le_of_eq hlen.symm), readStatements_nil]
      exact ⟨rfl, .ok []⟩

theorem script_eq (hfits : Fits ts depth room 0) (hsteps : ts.tokens.length < steps) :
    script ts steps room = some ((Script.ofTokens depth ts).mapError .failed) ∧
      Settled ts room.isSome (Script.ofTokens depth ts) :=
  statements_eq (fun j hj => mirrors_expr (hfits.mono (Nat.zero_le j)) hj (by omega))
    (Nat.zero_le _) (by omega)

/-- Reading a lone expression ends, and comes to what the tokens are read as. -/
theorem loneExpression_eq (hfits : Fits ts depth room 0) (hsteps : ts.tokens.length < steps) :
    loneExpression ts steps room = some ((Expr.ofTokens depth ts).mapError .failed) ∧
      Settled ts room.isSome (Expr.ofTokens depth ts) := by
  have hexpr := mirrors_expr hfits (Nat.zero_le _) (by omega : ts.tokens.length < 0 + steps)
  rw [loneExpression, look_eq (Nat.zero_le _), Expr.ofTokens, pure_bind]
  rw [List.drop_zero] at hexpr ⊢
  generalize (Parser.expr depth).run ts.tokens = out at hexpr ⊢
  generalize expression ts steps room 0 = found at hexpr ⊢
  cases hexpr with
  | @ok e j hlow hj =>
    have hitem := head?_drop_mem_items ts j
    show (look ts j >>= _ = _) ∧ _
    rw [look_eq hj]
    cases hdrop : ts.tokens.drop j with
    | nil => exact ⟨rfl, .ok e⟩
    | cons t rest =>
      rw [hdrop] at hitem
      exact ⟨rfl, .failed ⟨some t, hitem, rfl⟩ fun h => by cases h⟩
  | missing hj => exact ⟨rfl, .failed (placed_missingAt _ _) fun h => by cases h⟩
  | tooDeep h => exact ⟨rfl, .failed ⟨_, head?_drop_mem_items ts 0, rfl⟩ fun _ => h⟩

/-! ## Single readers -/

/-- Reading ends: at an index that is not below `low` and not behind the end, with a failure at a
token or at the end, or without room, if that is limited. It looks nowhere outside. -/
inductive Lands {α : Type} (ts : Tokens) (limited : Bool) (low : Nat) : Reading (α × Nat) → Prop
  | ok {a : α} {j : Nat} (hlow : low ≤ j) (hj : j ≤ ts.tokens.length) :
    Lands ts limited low (pure (a, j))
  | failed {e : ParseError} (h : Placed ts e) : Lands ts limited low (throw (.failed e))
  | tooDeep (h : limited = true) : Lands ts limited low (throw .tooDeep)

/-- Reading ends: in more steps than there are tokens it lands, however many more it may take. -/
def Ends {α : Type} (ts : Tokens) (limited : Bool) (low : Nat)
    (reading : (steps : Nat) → Reading (α × Nat)) : Prop :=
  ∃ found, Lands ts limited low found ∧ ∀ steps, ts.tokens.length < steps → reading steps = found

section Ends

variable {α : Type} {low : Nat} {out : Except Halt (α × List Token)} {found : Reading (α × Nat)}

theorem Mirrors.lands (h : Mirrors ts limited low out found) : Lands ts limited low found := by
  cases h with
  | ok hlow hj => exact .ok hlow hj
  | missing hj => exact .failed (placed_missingAt _ _)
  | tooDeep h => exact .tooDeep h

/-- What reading by index comes to, by what reading the tokens comes to. -/
def foundOf (ts : Tokens) : Except Halt (α × List Token) → Reading (α × Nat)
  | .ok (a, rest) => pure (a, ts.tokens.length - rest.length)
  | .error (.missing expected rest) => throw (.failed (missingAt expected rest ts.stop))
  | .error .tooDeep => throw .tooDeep

theorem Mirrors.eq_foundOf (h : Mirrors ts limited low out found) : found = foundOf ts out := by
  cases h with
  | @ok a j hlow hj =>
    have hindex : ts.tokens.length - (ts.tokens.drop j).length = j := by
      rw [List.length_drop]
      omega
    rw [foundOf, hindex]
  | missing hj => rfl
  | tooDeep h => rfl

/-- What is in step with reading the same tokens in any number of steps that is enough ends. -/
theorem ends_of_mirrors {reading : (steps : Nat) → Reading (α × Nat)}
    (h : ∀ steps, ts.tokens.length < steps → Mirrors ts limited low out (reading steps)) :
    Ends ts limited low reading :=
  ⟨_, (h _ (Nat.lt_succ_self _)).lands, fun steps hsteps =>
    (h steps hsteps).eq_foundOf.trans (h _ (Nat.lt_succ_self _)).eq_foundOf.symm⟩

end Ends

theorem lands_expect (p : Token → Bool) (expected : Expected) (hi : i ≤ ts.tokens.length) :
    Lands ts false (i + 1) (expect ts p expected i) := by
  have hitem := head?_drop_mem_items ts i
  rw [expect, look_eq hi, pure_bind]
  cases hhead : (ts.tokens.drop i).head? with
  | none =>
    rw [hhead] at hitem
    exact .failed ⟨none, hitem, rfl⟩
  | some t =>
    rw [hhead] at hitem
    rw [List.head?_drop] at hhead
    obtain ⟨hlt, -⟩ := List.getElem?_eq_some_iff.mp hhead
    cases hp : p t with
    | true =>
      simp only [hp, if_true]
      exact .ok (Nat.le_refl _) hlt
    | false =>
      simp only [hp, Bool.false_eq_true, if_false]
      exact .failed ⟨some t, hitem, rfl⟩

/-- Every reader ends from an index on. Those that take a token or more get further, the loops over
what may follow do not go back. -/
structure StaysWithin (ts : Tokens) (room : Option Nat) (i : Nat) : Prop where
  expect (p : Token → Bool) (expected : Expected) : Lands ts false (i + 1) (expect ts p expected i)
  endStatement : Lands ts false i (endStatement ts i >>= fun j => pure ((), j))
  additions (left : Expr) :
    Ends ts room.isSome i fun steps => additions ts (unary ts steps room) steps left i
  additive : Ends ts room.isSome (i + 1) fun steps => additive ts (unary ts steps room) steps i
  unary : Ends ts room.isSome (i + 1) fun steps => unary ts steps room i
  suffixes (e : Expr) :
    Ends ts room.isSome i fun steps => suffixes ts (expression ts steps room) steps e i
  operand : Ends ts room.isSome (i + 1) fun steps => operand ts (expression ts steps room) steps i
  primary : Ends ts room.isSome (i + 1) fun steps => primary ts (expression ts steps room) steps i
  arguments (name : Text) :
    Ends ts room.isSome (i + 1) fun steps => arguments ts (expression ts steps room) name steps i
  moreArguments (name : Text) : Ends ts room.isSome (i + 1) fun steps =>
    moreArguments ts (expression ts steps room) name steps i
  statement : Ends ts room.isSome (i + 1) fun steps => statement ts (expression ts steps room) i
  expression : Ends ts room.isSome (i + 1) fun steps => expression ts steps room i

theorem exists_fits (ts : Tokens) (room : Option Nat) : ∃ depth, Fits ts depth room 0 := by
  cases room with
  | some depth => exact ⟨depth, .inl rfl⟩
  | none => exact ⟨ts.tokens.length + 1, .inr ⟨rfl, by omega⟩⟩

theorem staysWithin (room : Option Nat) (hi : i ≤ ts.tokens.length) : StaysWithin ts room i := by
  obtain ⟨depth, hfits⟩ := exists_fits ts room
  have hunary : ∀ steps, ts.tokens.length < steps → ∀ j, i ≤ j → j ≤ ts.tokens.length →
      Mirrors ts room.isSome (j + 1) ((Parser.unary depth).run (ts.tokens.drop j))
        (unary ts steps room j) := fun steps hsteps j _ hj =>
    mirrors_unary (hfits.mono (Nat.zero_le j)) hj (by omega)
  have hexpr : ∀ steps, ts.tokens.length < steps → ∀ j, i ≤ j → j ≤ ts.tokens.length →
      Mirrors ts room.isSome (j + 1) ((Parser.expr depth).run (ts.tokens.drop j))
        (expression ts steps room j) := fun steps hsteps j _ hj =>
    mirrors_expr (hfits.mono (Nat.zero_le j)) hj (by omega)
  have hself := Nat.le_refl i
  exact {
    expect := fun p expected => lands_expect p expected hi
    endStatement := (Mirrors.endStatement () hi).lands
    expression := ends_of_mirrors fun steps h => hexpr steps h i hself hi
    additive := ends_of_mirrors fun steps h =>
      mirrors_additive (hunary steps h) hself hi (by omega)
    additions := fun left => ends_of_mirrors fun steps h =>
      mirrors_additions (hunary steps h) left hself hi (by omega)
    unary := ends_of_mirrors fun steps h => hunary steps h i hself hi
    operand := ends_of_mirrors fun steps h =>
      mirrors_operand (hexpr steps h) (Nat.le_succ i) hi (by omega)
    suffixes := fun e => ends_of_mirrors fun steps h =>
      mirrors_suffixes (hexpr steps h) e (Nat.le_succ i) hi (by omega)
    primary := ends_of_mirrors fun steps h =>
      mirrors_primary (hexpr steps h) (Nat.le_succ i) hi (by omega)
    arguments := fun name => ends_of_mirrors fun steps h =>
      mirrors_arguments (hexpr steps h) name hself hi (by omega)
    moreArguments := fun name => ends_of_mirrors fun steps h =>
      mirrors_moreArguments (hexpr steps h) name hself hi (by omega)
    statement := ends_of_mirrors fun steps h => mirrors_statement (hexpr steps h) hi }

/-- **Reading ends, within the tokens, and gets on.** From every index that is not behind the end,
every reader ends without a look outside, further on if it takes a token; nesting may be limited or
not. Both parsers read all scripts and expressions as the same, or fail in the same way; where
nesting is not limited, in the way of every depth above the number of tokens. What does not form a
script or an expression fails at a token or at the end, and so it is for the tokens of a source. -/
theorem reading_stays_within :
    (∀ (ts : Tokens) (room : Option Nat) (i : Nat), i ≤ ts.tokens.length →
      StaysWithin ts room i) ∧
    (∀ (ts : Tokens) (depth steps : Nat) (room : Option Nat), Fits ts depth room 0 →
      ts.tokens.length < steps →
      script ts steps room = some ((Script.ofTokens depth ts).mapError .failed) ∧
      Settled ts room.isSome (Script.ofTokens depth ts) ∧
      loneExpression ts steps room = some ((Expr.ofTokens depth ts).mapError .failed) ∧
      Settled ts room.isSome (Expr.ofTokens depth ts)) ∧
    ∀ (source : Text) (name : Datum) (tokens : Tokens), Tokens.scan source = .ok tokens →
      ((∃ s, Script.parse source name = .ok s) ∨
        ∃ e, Script.parse source name = .error (.parse e) ∧ Placed tokens e) ∧
      ((∃ e, Expr.parse source = .ok e) ∨
        ∃ e, Expr.parse source = .error (.parse e) ∧ Placed tokens e) := by
  refine ⟨fun ts room i => staysWithin room, fun ts depth steps room hfits hsteps => ?_,
    fun source name tokens hscan => ?_⟩
  · obtain ⟨hscript, hsettled⟩ := script_eq hfits hsteps
    exact ⟨hscript, hsettled, loneExpression_eq hfits hsteps⟩
  · have hfits : Fits tokens Script.nestingLimit (some Script.nestingLimit) 0 := .inl rfl
    have hscript := (script_eq hfits (Nat.lt_succ_self _)).2
    have hexpr := (loneExpression_eq hfits (Nat.lt_succ_self _)).2
    constructor
    · have hparse : Script.parse source name =
          (Script.ofTokens Script.nestingLimit tokens).mapError .parse >>= fun ss =>
            pure ⟨ss, name⟩ := by
        rw [Script.parse, hscan]
        rfl
      rw [hparse]
      generalize Script.ofTokens Script.nestingLimit tokens = out at hscript ⊢
      cases hscript with
      | ok ss => exact .inl ⟨_, rfl⟩
      | failed hplaced hdeep => exact .inr ⟨_, rfl, hplaced⟩
    · have hparse : Expr.parse source =
          (Expr.ofTokens Script.nestingLimit tokens).mapError .parse := by
        rw [Expr.parse, hscan]
        rfl
      rw [hparse]
      generalize Expr.ofTokens Script.nestingLimit tokens = out at hexpr ⊢
      cases hexpr with
      | ok e => exact .inl ⟨_, rfl⟩
      | failed hplaced hdeep => exact .inr ⟨_, rfl, hplaced⟩

/-! ### A name at the end -/

/-- The tokens of `let x`. -/
def declaredOnly : Tokens where
  tokens := [⟨.keyword .let_, Text.of "let", ⟨1, 1⟩⟩, ⟨.identifier, Text.of "x", ⟨1, 5⟩⟩]
  stop := ⟨1, 6⟩

/-- The declaration of `let x` is read up to the end, where its sign is missing; from the name and
from the end on, too, no reader gets behind the end. -/
theorem reading_stays_within_declaredOnly :
    (StaysWithin declaredOnly none 0 ∧ StaysWithin declaredOnly (some 1) 1 ∧
      StaysWithin declaredOnly none 2) ∧
    script declaredOnly 3 none = some ((Script.ofTokens 3 declaredOnly).mapError .failed) ∧
    ((∃ s, Script.parse (Text.of "let x") (.text (Text.of "s")) = .ok s) ∨
      ∃ e, Script.parse (Text.of "let x") (.text (Text.of "s")) = .error (.parse e) ∧
        Placed declaredOnly e) := by
  obtain ⟨hreaders, hsources, hparse⟩ := reading_stays_within
  have hscan : Tokens.scan (Text.of "let x") = .ok declaredOnly := by decide +kernel
  refine ⟨⟨hreaders _ none 0 (by decide), hreaders _ (some 1) 1 (by decide),
    hreaders _ none 2 (by decide)⟩, ?_, (hparse _ _ _ hscan).1⟩
  exact (hsources declaredOnly 3 3 none (.inr ⟨rfl, by decide⟩) (by decide)).1

end ScalarScript.Indexed
