import Mathlib.Data.List.Forall2
import Mathlib.Data.List.Perm.Basic
import Mathlib.Data.Prod.Lex
import ScalarScript.Proofs.Evaluation.Order
import ScalarScript.Proofs.Grammar.Script
import ScalarScript.Proofs.Source.Layout

/-!
# The order of places

The nodes of a tree that is parsed stand in the source in the order in which one would read them
out: the left operand before the operator and the right operand behind it, a target before the name
of its method and the arguments behind that. Parentheses, which leave no node, stand among them
without a place of their own.

* `Expr.nodes`: the nodes of a tree in this order, also of statements and scripts.
* `Expr.StandsAt`: a node stands at a token that is what the node is.
* `Spread`: nodes stand at tokens of a list, in its order.

Results:
* `perm_positions_nodes`: the nodes have the positions of the tree.
* `nodes_subset_of_mem_operands`: the nodes of an operand are nodes of the tree.
* `spreadOver_tree`: what a derivation means is spread over its tokens.
* `exists_startsBetween`: a statement starts behind the nodes of those before it.
* **`positions_follow_source`**: the places of the nodes of a script increase, and each statement
  starts between those before it and its own.
-/

namespace ScalarScript

/-! ## Places -/

/-- Places are ordered by line, and on one line by column. -/
instance : LinearOrder Position :=
  LinearOrder.lift' (fun p => toLex (p.line, p.column)) fun p q h => by
    cases p
    cases q
    cases h
    rfl

theorem Position.lt_iff {p q : Position} :
    p < q ↔ p.line < q.line ∨ p.line = q.line ∧ p.column < q.column :=
  Prod.Lex.toLex_lt_toLex

/-- A token that comes before another one starts before it. -/
theorem Token.Before.position_lt {t u : Token} (h : t.Before u) (ht : t.text ≠ []) :
    t.position < u.position := by
  have := List.length_pos_of_ne_nil ht
  refine Position.lt_iff.mpr (h.imp_right fun ⟨hline, hcolumn⟩ => ⟨hline, ?_⟩)
  omega

/-! ## Nodes -/

namespace Expr

/-- The nodes of a tree, each between what stands before it and what stands behind it. -/
def nodes : Expr → List Expr
  | e@(string _ _) | e@(char _ _) | e@(int _ _) | e@(bool _ _) | e@(var _ _) => [e]
  | e@(binary _ left right _) => left.nodes ++ e :: right.nodes
  | e@(unary _ operand _) => e :: operand.nodes
  | e@(method target _ arguments _) => target.nodes ++ e :: listNodes arguments
  | e@(call _ arguments _) => e :: listNodes arguments
  | e@(index target i _) => target.nodes ++ e :: i.nodes
where
  listNodes : List Expr → List Expr
    | [] => []
    | e :: rest => e.nodes ++ listNodes rest

mutual

/-- The nodes have the positions of the tree. -/
theorem perm_positions_nodes : ∀ e : Expr, (e.nodes.map position).Perm e.positions
  | string .. | char .. | int .. | bool .. | var .. => .refl _
  | binary _ left right _ => by
    simp only [nodes, positions, List.map_append, List.map_cons, position]
    exact List.perm_middle.trans
      (((perm_positions_nodes left).append (perm_positions_nodes right)).cons _)
  | unary _ operand _ => (perm_positions_nodes operand).cons _
  | method target _ arguments _ => by
    simp only [nodes, positions, List.map_append, List.map_cons, position]
    exact List.perm_middle.trans
      (((perm_positions_nodes target).append (perm_positions_listNodes arguments)).cons _)
  | call _ arguments _ => (perm_positions_listNodes arguments).cons _
  | index target i _ => by
    simp only [nodes, positions, List.map_append, List.map_cons, position]
    exact List.perm_middle.trans
      (((perm_positions_nodes target).append (perm_positions_nodes i)).cons _)

theorem perm_positions_listNodes :
    ∀ es : List Expr, ((nodes.listNodes es).map position).Perm (positions.listPositions es)
  | [] => .refl _
  | e :: rest => by
    rw [nodes.listNodes, List.map_append]
    exact (perm_positions_nodes e).append (perm_positions_listNodes rest)

end

theorem mem_nodes_self (e : Expr) : e ∈ e.nodes := by
  cases e <;> simp [nodes]

theorem mem_listNodes {x : Expr} {es : List Expr} :
    x ∈ nodes.listNodes es ↔ ∃ e ∈ es, x ∈ e.nodes := by
  induction es with
  | nil => simp [nodes.listNodes]
  | cons e es ih => simp [nodes.listNodes, ih]

/-- The nodes of an operand are nodes of the tree. -/
theorem nodes_subset_of_mem_operands {e operand : Expr} (h : operand ∈ e.operands) :
    operand.nodes ⊆ e.nodes := by
  intro x hx
  cases e with
  | string | char | int | bool | var => cases h
  | binary op left right pos | index left right pos =>
    simp only [operands, List.mem_cons, List.not_mem_nil, or_false] at h
    rcases h with rfl | rfl <;> simp [nodes, hx]
  | unary op e pos =>
    obtain rfl := List.mem_singleton.mp h
    exact List.mem_cons_of_mem _ hx
  | method target name arguments pos =>
    rcases List.mem_cons.mp h with rfl | h
    · exact List.mem_append_left _ hx
    · exact List.mem_append_right _ (List.mem_cons_of_mem _ (mem_listNodes.mpr ⟨_, h, hx⟩))
  | call name arguments pos => exact List.mem_cons_of_mem _ (mem_listNodes.mpr ⟨_, h, hx⟩)

/-- A node stands at a token: a literal at its own, a name and a call at the name, an operator at
its sign, an index at the opening bracket. -/
inductive StandsAt : Expr → Token → Prop
  | literal {e : Expr} {t : Token} (h : t.literal? = some e) : StandsAt e t
  | var {t : Token} (h : t.kind = .identifier) : StandsAt (.var (.text t.text) t.position) t
  | binary {op : BinaryOperator} {left right : Expr} {t : Token} {s : Symbol}
    (h : t.kind = .symbol s) (hs : s.spelling = op.spelling) :
    StandsAt (.binary op left right t.position) t
  | unary {op : UnaryOperator} {operand : Expr} {t : Token} {s : Symbol}
    (h : t.kind = .symbol s) (hs : s.spelling = op.spelling) :
    StandsAt (.unary op operand t.position) t
  | method {target : Expr} {arguments : List Expr} {t : Token} (h : t.kind = .identifier) :
    StandsAt (.method target (.text t.text) arguments t.position) t
  | call {arguments : List Expr} {t : Token} (h : t.kind = .identifier) :
    StandsAt (.call (.text t.text) arguments t.position) t
  | index {target i : Expr} {t : Token} (h : t.kind = .mark .openBracket) :
    StandsAt (.index target i t.position) t

theorem StandsAt.position_eq {e : Expr} {t : Token} (h : e.StandsAt t) :
    e.position = some t.position := by
  cases h with
  | literal h =>
    rcases Token.literal?_cases h with ⟨_, rfl⟩ | ⟨_, rfl⟩ | ⟨_, -, rfl⟩ | ⟨_, rfl⟩ <;> rfl
  | var | binary | unary | method | call | index => rfl

end Expr

/-- The nodes of a statement, in the order of the source. -/
def Statement.nodes (s : Statement) : List Expr := s.expressions.flatMap Expr.nodes

/-- The nodes of a script, in the order of the source. -/
def Script.nodes (script : Script) : List Expr := script.statements.flatMap Statement.nodes

/-- The nodes of a script have the positions of its trees. -/
theorem Script.perm_positions_nodes (script : Script) :
    (script.nodes.map Expr.position).Perm
      (script.statements.flatMap fun s => s.expressions.flatMap Expr.positions) := by
  simp only [Script.nodes, Statement.nodes, List.map_flatMap]
  exact List.Perm.flatMap_left _ fun s _ =>
    List.Perm.flatMap_left _ fun e _ => e.perm_positions_nodes

/-- A token that stands for an operator spells it. -/
theorem Token.symbol_of_additive? {t : Token} {op : BinaryOperator} (h : t.additive? = some op) :
    ∃ s : Symbol, t.kind = .symbol s ∧ s.spelling = op.spelling := by
  obtain ⟨kind, text, position⟩ := t
  unfold additive? at h
  split at h <;> cases h
  · exact ⟨.plus, ‹_›, rfl⟩
  · exact ⟨.minus, ‹_›, rfl⟩

theorem Token.symbol_of_comparison? {t : Token} {c : Comparison} (h : t.comparison? = some c) :
    ∃ s : Symbol, t.kind = .symbol s ∧ s.spelling = (BinaryOperator.compare c).spelling := by
  unfold comparison? at h
  split at h <;> cases h <;> exact ⟨_, ‹_›, rfl⟩

theorem Token.symbol_of_unary? {t : Token} {op : UnaryOperator} (h : t.unary? = some op) :
    ∃ s : Symbol, t.kind = .symbol s ∧ s.spelling = op.spelling := by
  unfold unary? at h
  split at h <;> cases h <;> exact ⟨_, ‹_›, rfl⟩

/-! ## Nodes and tokens -/

/-- Nodes stand at tokens of a list, one after another and each at one of its own. -/
def Spread (es : List Expr) (ts : List Token) : Prop :=
  ∃ heads : List Token, heads.Sublist ts ∧ List.Forall₂ Expr.StandsAt es heads

namespace Spread

variable {e : Expr} {es fs : List Expr} {t : Token} {ts us : List Token}

theorem nil (ts : List Token) : Spread [] ts := ⟨[], ts.nil_sublist, .nil⟩

theorem node (he : e.StandsAt t) (h : Spread es ts) : Spread (e :: es) (t :: ts) := by
  obtain ⟨heads, hsub, hall⟩ := h
  exact ⟨t :: heads, hsub.cons_cons t, .cons he hall⟩

/-- A token that no node stands at. -/
theorem skip (t : Token) (h : Spread es ts) : Spread es (t :: ts) := by
  obtain ⟨heads, hsub, hall⟩ := h
  exact ⟨heads, hsub.cons t, hall⟩

theorem append (h : Spread es ts) (h' : Spread fs us) : Spread (es ++ fs) (ts ++ us) := by
  obtain ⟨heads, hsub, hall⟩ := h
  obtain ⟨heads', hsub', hall'⟩ := h'
  exact ⟨heads ++ heads', hsub.append hsub', List.rel_append hall hall'⟩

theorem append_right (h : Spread es ts) (us : List Token) : Spread es (ts ++ us) := by
  obtain ⟨heads, hsub, hall⟩ := h
  exact ⟨heads, hsub.trans (List.sublist_append_left ts us), hall⟩

theorem flatMap {α : Type} {f : α → List Expr} {g : α → List Token} {xs : List α}
    (h : ∀ x ∈ xs, Spread (f x) (g x)) : Spread (xs.flatMap f) (xs.flatMap g) := by
  induction xs with
  | nil => exact nil []
  | cons x xs ih =>
    obtain ⟨hx, hxs⟩ := List.forall_mem_cons.mp h
    rw [List.flatMap_cons, List.flatMap_cons]
    exact hx.append (ih hxs)

theorem literal (h : t.literal? = some e) : Spread e.nodes [t] := by
  have hnodes : e.nodes = [e] := by
    rcases Token.literal?_cases h with ⟨_, rfl⟩ | ⟨_, rfl⟩ | ⟨_, -, rfl⟩ | ⟨_, rfl⟩ <;> rfl
  rw [hnodes]
  exact .node (.literal h) (nil [])

theorem binary {op : BinaryOperator} {left right : Expr} {s : Symbol} (hl : Spread left.nodes ts)
    (hr : Spread right.nodes us) (hk : t.kind = .symbol s) (hs : s.spelling = op.spelling) :
    Spread (Expr.binary op left right t.position).nodes (ts ++ t :: us) :=
  hl.append (.node (.binary hk hs) hr)

theorem method {target : Expr} {arguments : List Expr} (dot opening closing : Token)
    (ht : Spread target.nodes ts) (ha : Spread (Expr.nodes.listNodes arguments) us)
    (hk : t.kind = .identifier) :
    Spread (Expr.method target (.text t.text) arguments t.position).nodes
      (ts ++ dot :: t :: opening :: (us ++ [closing])) :=
  ht.append (.skip dot (.node (.method hk) (.skip opening (ha.append_right [closing]))))

theorem index {target i : Expr} (closing : Token) (ht : Spread target.nodes ts)
    (hi : Spread i.nodes us) (hk : t.kind = .mark .openBracket) :
    Spread (Expr.index target i t.position).nodes (ts ++ t :: (us ++ [closing])) :=
  ht.append (.node (.index hk) (hi.append_right [closing]))

theorem singleton (h : Spread e.nodes ts) : Spread ([e].flatMap Expr.nodes) ts := by
  rwa [List.flatMap_singleton]

theorem exists_of_mem (h : Spread es ts) (he : e ∈ es) : ∃ t ∈ ts, e.StandsAt t := by
  obtain ⟨heads, hsub, hall⟩ := h
  induction hall generalizing ts with
  | nil => cases he
  | @cons e' t es heads h' _ ih =>
    rcases List.mem_cons.mp he with rfl | he
    · exact ⟨t, hsub.subset List.mem_cons_self, h'⟩
    · exact ih he ((List.sublist_cons_self t heads).trans hsub)

end Spread

namespace Grammar

/-- The nodes of what a phrase means are spread over tokens, or those of what it makes of a tree are
spread over the tokens of the tree and, behind them, these. -/
def Phrase.SpreadOver : {p : Phrase} → p.Meaning → List Token → Prop
  | .expr, (e : Expr), ts | .additive, (e : Expr), ts | .unary, (e : Expr), ts
  | .operand, (e : Expr), ts | .primary, (e : Expr), ts => Spread e.nodes ts
  | .comparison, (f : Expr → Expr), ts | .additions, (f : Expr → Expr), ts
  | .suffixes, (f : Expr → Expr), ts =>
    ∀ e us, Spread e.nodes us → Spread (f e).nodes (us ++ ts)
  | .arguments, (es : List Expr), ts | .others, (es : List Expr), ts =>
    Spread (Expr.nodes.listNodes es) ts

/-- **What a derivation means is spread over its tokens.** -/
theorem spreadOver_tree {p : Phrase} (d : Derivation p) : Phrase.SpreadOver d.tree d.tokens := by
  induction d with
  | expr left tail hl ht => exact ht _ _ hl
  | noComparison =>
    intro e us he
    exact he.append_right []
  | compare op right hr =>
    intro e us he
    obtain ⟨s, hk, hs⟩ := Token.symbol_of_comparison? (Option.some_get op.2).symm
    exact he.binary hr hk hs
  | additive left tail hl ht => exact ht _ _ hl
  | noAddition =>
    intro e us he
    exact he.append_right []
  | add op right tail hr ht =>
    intro e us he
    obtain ⟨s, hk, hs⟩ := Token.symbol_of_additive? (Option.some_get op.2).symm
    -- Chains nest to the left: the sum so far is the tree that the rest of the chain goes on from.
    have hsum := ht _ _ (he.binary hr hk hs)
    rwa [List.append_assoc, List.cons_append] at hsum
  | unary op e he =>
    obtain ⟨s, hk, hs⟩ := Token.symbol_of_unary? (Option.some_get op.2).symm
    exact .node (.unary hk hs) he
  | bare e he => exact he
  | operand head tail hh ht => exact ht _ _ hh
  | noSuffix =>
    intro e us he
    exact he.append_right []
  | method dot n opening args closing tail ha ht =>
    intro e us he
    have hcall := ht _ _ (he.method dot.1 opening.1 closing.1 ha n.2)
    simp only [List.append_assoc, List.cons_append, List.nil_append] at hcall
    exact hcall
  | index opening i closing tail hi ht =>
    intro e us he
    have hread := ht _ _ (he.index closing.1 hi opening.2)
    simp only [List.append_assoc, List.cons_append, List.nil_append] at hread
    exact hread
  | literal t => exact .literal (Option.some_get t.2).symm
  | name n => exact .node (.var n.2) (.nil [])
  | call n opening args closing ha =>
    exact .node (.call n.2) (.skip opening.1 (ha.append_right [closing.1]))
  | group opening e closing he => exact .skip _ (he.append_right _)
  | noArgument => exact .nil []
  | arguments first tail hf ht => exact hf.append ht
  | noOther => exact .nil []
  | other comma next tail hn ht => exact .skip _ (hn.append ht)

/-! ## Statements -/

/-- The nodes of a statement are spread over its tokens. -/
theorem spread_statement (d : StatementDerivation) : Spread d.statement.nodes d.tokens := by
  have hvalue (e : Derivation .expr) := Spread.singleton (spreadOver_tree e)
  cases d with
  | declare keyword n sign value | constant keyword n sign value =>
    exact .skip _ (.skip _ (.skip _ (hvalue value)))
  | assign n sign value => exact .skip _ (.skip _ (hvalue value))
  | indexAssign n opening i closing sign value =>
    exact .skip _ (.skip _ (.append (spreadOver_tree i) (.skip _ (.skip _ (hvalue value)))))
  | print n opening value closing => exact .skip _ (.skip _ ((hvalue value).append_right _))
  | expression value hp => exact hvalue value

/-- A statement stands at its first token. -/
theorem position_statement (d : StatementDerivation) :
    d.statement.position = d.tokens.head?.map Token.position := by
  cases d <;> rfl

/-- A statement that is derived has a place, and so has each of its nodes. -/
theorem exists_positions (d : StatementDerivation) :
    (∃ p, d.statement.position = some p) ∧
      ∀ e ∈ d.statement.nodes, ∃ p, e.position = some p := by
  constructor
  · obtain ⟨first, rest, htokens, -⟩ := d.exists_tokens_eq
    exact ⟨first.position, by rw [position_statement, htokens]; rfl⟩
  · intro e he
    obtain ⟨t, -, hstands⟩ := (spread_statement d).exists_of_mem he
    exact ⟨t.position, hstands.position_eq⟩

/-! ## Scripts -/

namespace ScriptDerivation

/-- The derivations of the statements of a script. -/
def parts : ScriptDerivation → List StatementDerivation
  | empty => []
  | last s => [s]
  | skip _ rest => rest.parts
  | statement s _ rest => s :: rest.parts

theorem statements_eq (d : ScriptDerivation) :
    d.statements = d.parts.map StatementDerivation.statement := by
  induction d with
  | empty | last => rfl
  | skip semicolon rest ih => exact ih
  | statement s semicolon rest ih => exact congrArg (s.statement :: ·) ih

/-- The tokens of the statements are those of the script, but for semicolons. -/
theorem sublist_tokens_parts (d : ScriptDerivation) :
    (d.parts.flatMap StatementDerivation.tokens).Sublist d.tokens := by
  induction d with
  | empty => exact .refl _
  | last s =>
    rw [parts, List.flatMap_singleton]
    exact .refl _
  | skip semicolon rest ih => exact ih.cons semicolon.1
  | statement s semicolon rest ih =>
    rw [parts, List.flatMap_cons]
    exact (List.Sublist.refl s.tokens).append (ih.cons semicolon.1)

theorem spread_parts (d : ScriptDerivation) :
    Spread (d.statements.flatMap Statement.nodes)
      (d.parts.flatMap StatementDerivation.tokens) := by
  rw [statements_eq, List.flatMap_map]
  exact Spread.flatMap fun part _ => spread_statement part

end ScriptDerivation

/-- A statement stands at a token that comes before those of its nodes, and behind those of the
nodes in front of it. -/
structure StartsBetween (earlier : List StatementDerivation) (part : StatementDerivation)
    (first : Token) : Prop where
  head : part.tokens.head? = some first
  position : part.statement.position = some first.position
  own : ∀ e ∈ part.statement.nodes, ∃ p, e.position = some p ∧ first.position ≤ p
  before : ∀ other ∈ earlier, ∀ e ∈ other.statement.nodes,
    ∃ p, e.position = some p ∧ p < first.position

theorem exists_startsBetween {earlier later : List StatementDerivation}
    {part : StatementDerivation}
    (h : ((earlier ++ part :: later).flatMap StatementDerivation.tokens).Pairwise
      fun t u => t.position < u.position) :
    ∃ first, StartsBetween earlier part first := by
  obtain ⟨first, rest, htokens, -⟩ := part.exists_tokens_eq
  rw [List.flatMap_append, List.flatMap_cons, htokens, List.cons_append, List.pairwise_append]
    at h
  obtain ⟨-, hpart, hearlier⟩ := h
  refine ⟨first, by rw [htokens]; rfl, ?_, fun e he => ?_, fun other ho e he => ?_⟩
  · rw [position_statement, htokens]
    rfl
  · obtain ⟨t, ht, hstands⟩ := (spread_statement part).exists_of_mem he
    refine ⟨t.position, hstands.position_eq, ?_⟩
    rw [htokens] at ht
    rcases List.mem_cons.mp ht with rfl | ht
    · exact le_rfl
    · exact le_of_lt (List.rel_of_pairwise_cons hpart (List.mem_append_left _ ht))
  · obtain ⟨t, ht, hstands⟩ := (spread_statement other).exists_of_mem he
    refine ⟨t.position, hstands.position_eq, ?_⟩
    exact hearlier t (List.mem_flatMap.mpr ⟨other, ho, ht⟩) first List.mem_cons_self

end Grammar

theorem map_position_of_forall₂ {es : List Expr} {heads : List Token}
    (h : List.Forall₂ Expr.StandsAt es heads) :
    es.map Expr.position = heads.map (some ·.position) := by
  induction h with
  | nil => rfl
  | cons h _ ih => rw [List.map_cons, List.map_cons, h.position_eq, ih]

/-- The tokens of a source start one after another. -/
theorem Tokens.LieOn.pairwise_position {ts : Tokens} {source : Text} (h : ts.LieOn source) :
    ts.tokens.Pairwise fun t u => t.position < u.position :=
  h.ordered.imp_of_mem fun ht _ hbefore => hbefore.position_lt (h.slice _ ht).1

/-- **The places of nodes follow the source.** The nodes of a script that is parsed, in the order in
which they are read out, stand at tokens of the source that are what they are, at one after another:
so their places increase, and no two nodes share one. Each statement stands at its first token,
which is not behind any node of it, and is behind all nodes of the statements in front of it. -/
theorem positions_follow_source {source : Text} {name : Datum} {script : Script}
    (h : Script.parse source name = .ok script) :
    ∃ (ts : Tokens) (d : Grammar.ScriptDerivation), Tokens.scan source = .ok ts ∧
      d.tokens = ts.tokens ∧
      script.statements = d.parts.map Grammar.StatementDerivation.statement ∧
      (∃ heads : List Token, heads.Sublist ts.tokens ∧
        List.Forall₂ Expr.StandsAt script.nodes heads ∧
        script.nodes.map Expr.position = heads.map (some ·.position) ∧
        (heads.map Token.position).Pairwise (· < ·)) ∧
      (script.nodes.map Expr.position).Perm
        (script.statements.flatMap fun s => s.expressions.flatMap Expr.positions) ∧
      (script.nodes.map Expr.position).Nodup ∧
      ∀ earlier part later, d.parts = earlier ++ part :: later →
        ∃ first, Grammar.StartsBetween earlier part first := by
  obtain ⟨ts, ss, hscan, hss, rfl⟩ := Grammar.parse_eq_ok_iff.mp h
  obtain ⟨d, hd, -, rfl⟩ := Grammar.ofTokens_eq_ok_iff.mp hss
  have hordered := (Tokens.lieOn_of_scan hscan).2.1.pairwise_position
  obtain ⟨heads, hparts, hstands⟩ := d.spread_parts
  have hsub : heads.Sublist ts.tokens := hd ▸ hparts.trans d.sublist_tokens_parts
  have hheads := hordered.sublist hsub
  have hpositions := map_position_of_forall₂ hstands
  refine ⟨ts, d, hscan, hd, d.statements_eq,
    ⟨heads, hsub, hstands, hpositions, List.pairwise_map.mpr hheads⟩,
    Script.perm_positions_nodes _, ?_, fun earlier part later hd' => ?_⟩
  · show (List.map Expr.position (d.statements.flatMap Statement.nodes)).Nodup
    rw [hpositions]
    exact List.pairwise_map.mpr (hheads.imp fun hlt => by simpa using ne_of_lt hlt)
  · have hsublist := d.sublist_tokens_parts
    rw [hd', hd] at hsublist
    exact Grammar.exists_startsBetween (hordered.sublist hsublist)

/-! ### An indexed assignment and a method call -/

/-- `x[0]=1;` and, on the next line, `-y.f(2)`. -/
def indexedThenCalled : Grammar.ScriptDerivation :=
  .statement (.indexAssign Grammar.indexedName Grammar.indexedOpening Grammar.indexedZero
      Grammar.indexedClosing ⟨⟨.symbol .assign, Text.of "=", ⟨1, 5⟩⟩, rfl⟩
      (Grammar.exprOfPrimary (.literal ⟨⟨.number 1, Text.of "1", ⟨1, 6⟩⟩, rfl⟩) .noSuffix))
    ⟨⟨.mark .semicolon, Text.of ";", ⟨1, 7⟩⟩, rfl⟩
    (.last (.expression (.expr (.additive (.unary ⟨⟨.symbol .minus, Text.of "-", ⟨2, 1⟩⟩, rfl⟩
      (.bare (.operand (.name ⟨⟨.identifier, Text.of "y", ⟨2, 2⟩⟩, rfl⟩)
        (.method ⟨⟨.mark .dot, Text.of ".", ⟨2, 3⟩⟩, rfl⟩
          ⟨⟨.identifier, Text.of "f", ⟨2, 4⟩⟩, rfl⟩
          ⟨⟨.mark .openParen, Text.of "(", ⟨2, 5⟩⟩, rfl⟩
          (.arguments (Grammar.exprOfPrimary (.literal ⟨⟨.number 2, Text.of "2", ⟨2, 6⟩⟩, rfl⟩)
            .noSuffix) .noOther)
          ⟨⟨.mark .closeParen, Text.of ")", ⟨2, 7⟩⟩, rfl⟩ .noSuffix)))) .noAddition)
      .noComparison) rfl))

/-- The index comes before the value, the sign before the target, and the target before the name of
its method; the second statement starts behind the nodes of the first. -/
theorem positions_follow_source_of_two :
    Script.parse (Text.of "x[0]=1;\n-y.f(2)") .null = .ok ⟨indexedThenCalled.statements, .null⟩ ∧
    (Script.nodes ⟨indexedThenCalled.statements, .null⟩).map Expr.position =
      [some ⟨1, 3⟩, some ⟨1, 6⟩, some ⟨2, 1⟩, some ⟨2, 2⟩, some ⟨2, 4⟩, some ⟨2, 6⟩] ∧
    ((Script.nodes ⟨indexedThenCalled.statements, .null⟩).map Expr.position).Nodup := by
  have hscan : Tokens.scan (Text.of "x[0]=1;\n-y.f(2)") =
      .ok ⟨indexedThenCalled.tokens, ⟨2, 8⟩⟩ := by decide +kernel
  have hnesting : indexedThenCalled.nesting ≤ Script.nestingLimit := by
    have hthree : indexedThenCalled.nesting = 3 := rfl
    rw [hthree, Script.nestingLimit]
    omega
  have hparse : Script.parse (Text.of "x[0]=1;\n-y.f(2)") .null =
      .ok ⟨indexedThenCalled.statements, .null⟩ := Grammar.parse_of_derivation _ _ hscan hnesting
  obtain ⟨-, -, -, -, -, -, -, hnodup, -⟩ := positions_follow_source hparse
  exact ⟨hparse, rfl, hnodup⟩

end ScalarScript
