import ScalarScript.Proofs.Evaluation.Order
import ScalarScript.Proofs.Grammar.Script
import ScalarScript.Proofs.Grammar.Trees

/-!
# Names that are texts

A document may put any data in the place of a name. What is parsed has texts there.

Results:
* `built_textNames`: tokens build expressions with texts for names.
* `textNames_ofTokens`, **`textNames_parse`**: so have expressions and scripts that are read from a
  source.
-/

namespace ScalarScript

/-- The name at a node. -/
def Expr.name? : Expr → Option Datum
  | var name _ | method _ name _ _ | call name _ _ => some name
  | string _ _ | char _ _ | int _ _ | bool _ _ | binary _ _ _ _ | unary _ _ _ | index _ _ _ => none

/-- All names in an expression are texts. -/
inductive Expr.TextNames : Expr → Prop
  | node {e : Expr} (own : ∀ name, e.name? = some name → ∃ t, name = .text t)
    (operands : ∀ x ∈ e.operands, TextNames x) : TextNames e

/-- The name that a statement binds. -/
def Statement.name? : Statement → Option Datum
  | declare name _ _ | constant name _ _ | assign name _ _ | indexAssign name _ _ _ => some name
  | print _ _ | expression _ _ => none

/-- All names in a statement are texts. -/
structure Statement.TextNames (s : Statement) : Prop where
  own : ∀ name, s.name? = some name → ∃ t, name = .text t
  expressions : ∀ e ∈ s.expressions, e.TextNames

/-- All names in a script are texts. -/
def Script.TextNames (script : Script) : Prop := ∀ s ∈ script.statements, s.TextNames

namespace Expr.TextNames

variable {pos : Option Position} {t : Text} {e f : Expr}

theorem own {name : Datum} (h : e.TextNames) (hn : e.name? = some name) : ∃ t, name = .text t := by
  cases h with
  | node own _ => exact own name hn

theorem of_operand {x : Expr} (h : e.TextNames) (hx : x ∈ e.operands) : x.TextNames := by
  cases h with
  | node _ operands => exact operands x hx

theorem leaf (hn : e.name? = none) (ho : e.operands = []) : e.TextNames := by
  refine .node (fun name h => ?_) fun x hx => ?_
  · rw [hn] at h
    cases h
  · rw [ho] at hx
    cases hx

theorem pair (he : e.TextNames) (hf : f.TextNames) : ∀ x ∈ [e, f], x.TextNames := by
  rintro x (_ | ⟨_, hx⟩)
  · exact he
  · rw [List.mem_singleton.mp hx]
    exact hf

theorem binary {op : BinaryOperator} (he : e.TextNames) (hf : f.TextNames) :
    (Expr.binary op e f pos).TextNames := .node nofun (pair he hf)

theorem unary {op : UnaryOperator} (he : e.TextNames) : (Expr.unary op e pos).TextNames := by
  refine .node nofun fun x hx => ?_
  rw [List.mem_singleton.mp hx]
  exact he

theorem index (he : e.TextNames) (hf : f.TextNames) : (Expr.index e f pos).TextNames :=
  .node nofun (pair he hf)

theorem var : (Expr.var (.text t) pos).TextNames :=
  .node (fun _ h => ⟨t, (Option.some.inj h).symm⟩) nofun

theorem call {arguments : List Expr} (h : ∀ x ∈ arguments, x.TextNames) :
    (Expr.call (.text t) arguments pos).TextNames :=
  .node (fun _ h => ⟨t, (Option.some.inj h).symm⟩) h

theorem method {arguments : List Expr} (he : e.TextNames) (h : ∀ x ∈ arguments, x.TextNames) :
    (Expr.method e (.text t) arguments pos).TextNames := by
  refine .node (fun _ h => ⟨t, (Option.some.inj h).symm⟩) fun x hx => ?_
  rcases List.mem_cons.mp hx with rfl | hx
  · exact he
  · exact h x hx

theorem of_literal? {token : Token} (h : token.literal? = some e) : e.TextNames := by
  rcases token.literal?_cases h with ⟨s, rfl⟩ | ⟨c, rfl⟩ | ⟨n, -, rfl⟩ | ⟨b, rfl⟩ <;>
    exact leaf rfl rfl

end Expr.TextNames

namespace Grammar

/-! ## Derivations -/

theorem built_textNames : Built (fun _ => True) Expr.TextNames where
  literal _ h := .of_literal? h
  name _ _ := .var
  binary he hf := he.binary hf
  unary he := he.unary
  method _ _ he h := he.method h
  call _ _ h := .call h
  index he hf := he.index hf

theorem textNames_statement (s : StatementDerivation) : s.statement.TextNames := by
  refine ⟨?_, built_textNames.expressions_statement s fun _ _ => trivial⟩
  cases s with
  | declare keyword n sign value | constant keyword n sign value | assign n sign value
  | indexAssign n opening i closing sign value =>
    exact fun _ h => ⟨n.1.text, (Option.some.inj h).symm⟩
  | print n opening value closing | expression value hp => exact nofun

end Grammar

/-! ## Sources -/

/-- An expression that is read has texts for names. -/
theorem Expr.textNames_ofTokens {depth : Nat} {tokens : Tokens} {e : Expr}
    (h : Expr.ofTokens depth tokens = .ok e) : e.TextNames := by
  unfold Expr.ofTokens at h
  split at h
  · cases h
  · next hrun =>
    cases h
    obtain ⟨d, -, -, rfl⟩ := Grammar.derived_expr hrun
    exact Grammar.built_textNames.means_tree d fun _ _ => trivial
  · cases h

/-- **A script that is parsed has texts for names.** -/
theorem Script.textNames_parse {source : Text} {name : Datum} {script : Script}
    (h : Script.parse source name = .ok script) : script.TextNames := by
  obtain ⟨tokens, ss, -, hss, rfl⟩ := Grammar.parse_eq_ok_iff.mp h
  obtain ⟨d, -, -, rfl⟩ := Grammar.ofTokens_eq_ok_iff.mp hss
  exact Grammar.forall_statements (fun s _ => Grammar.textNames_statement s) d fun _ _ => trivial

end ScalarScript
