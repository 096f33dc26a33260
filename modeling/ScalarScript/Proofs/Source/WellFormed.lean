import Mathlib.Data.List.TakeWhile
import ScalarScript.Proofs.Grammar.Script
import ScalarScript.Proofs.Grammar.Trees

/-!
# Well-formed scripts

The scripts that a source can write: names are words, integers are those of a literal, characters
are scalars and truth values are truth values. A document may hold other data in their place, a
source never does.

Results:
* `wellFormed_lexeme`, `wellFormed_scan`: names and numbers that are scanned are well-formed.
* **`wellFormed_ofTokens`**, **`Script.wellFormed_parse`**: so are the statements that are read
  from them.
* `Expr.wellFormed_parse`: so is an expression that is read alone.
-/

namespace ScalarScript

/-- Whether a text is a name: underscores, a letter, and then letters, digits and underscores, but
no keyword. -/
def Text.IsName (t : Text) : Prop :=
  (∃ (k : Nat) (first : CodePoint) (rest : Text),
    t = List.replicate k (.scalar '_') ++ first :: rest ∧ first.isLetter = true ∧
      ∀ p ∈ rest, p.continuesName = true) ∧
    ∀ k : Keyword, t ≠ Text.of k.spelling

/-- The expressions that a source can write. -/
inductive Expr.WellFormed : Expr → Prop
  | string (s : ScalarString) (pos : Option Position) : WellFormed (.string s pos)
  | char (c : Char) (pos : Option Position) : WellFormed (.char (.int c.toNat) pos)
  | int {n : Nat} (h : (n : Int) ≤ Integer.greatest) (pos : Option Position) :
    WellFormed (.int (.int n) pos)
  | bool (b : Bool) (pos : Option Position) : WellFormed (.bool (.bool b) pos)
  | var {name : Text} (h : name.IsName) (pos : Option Position) : WellFormed (.var (.text name) pos)
  | binary (op : BinaryOperator) {left right : Expr} (pos : Option Position)
    (hl : WellFormed left) (hr : WellFormed right) : WellFormed (.binary op left right pos)
  | unary (op : UnaryOperator) {operand : Expr} (pos : Option Position) (h : WellFormed operand) :
    WellFormed (.unary op operand pos)
  | method {target : Expr} {name : Text} {arguments : List Expr} (pos : Option Position)
    (hn : name.IsName) (ht : WellFormed target) (ha : ∀ e ∈ arguments, WellFormed e) :
    WellFormed (.method target (.text name) arguments pos)
  | call {name : Text} {arguments : List Expr} (pos : Option Position) (hn : name.IsName)
    (ha : ∀ e ∈ arguments, WellFormed e) : WellFormed (.call (.text name) arguments pos)
  | index {target i : Expr} (pos : Option Position) (ht : WellFormed target) (hi : WellFormed i) :
    WellFormed (.index target i pos)

/-- The statements that a source can write. -/
inductive Statement.WellFormed : Statement → Prop
  | declare {name : Text} {e : Expr} (pos : Option Position) (hn : name.IsName)
    (he : e.WellFormed) : WellFormed (.declare (.text name) e pos)
  | constant {name : Text} {e : Expr} (pos : Option Position) (hn : name.IsName)
    (he : e.WellFormed) : WellFormed (.constant (.text name) e pos)
  | assign {name : Text} {e : Expr} (pos : Option Position) (hn : name.IsName)
    (he : e.WellFormed) : WellFormed (.assign (.text name) e pos)
  | indexAssign {name : Text} {i e : Expr} (pos : Option Position) (hn : name.IsName)
    (hi : i.WellFormed) (he : e.WellFormed) : WellFormed (.indexAssign (.text name) i e pos)
  | print {e : Expr} (pos : Option Position) (he : e.WellFormed) : WellFormed (.print e pos)
  | expression {e : Expr} (pos : Option Position) (he : e.WellFormed) :
    WellFormed (.expression e pos)

/-- The scripts that a source can write, whatever their name. -/
def Script.WellFormed (script : Script) : Prop := ∀ s ∈ script.statements, s.WellFormed

/-! ## Tokens -/

/-- A token as the scanner makes it: an identifier is a name, a number is in range. -/
structure Token.WellFormed (t : Token) : Prop where
  name : t.kind = .identifier → t.text.IsName
  number : ∀ n : Nat, t.kind = .number n → (n : Int) ≤ Integer.greatest

theorem Integer.le_of_ofDigits? {digits : Text} {n : Nat} (h : ofDigits? digits = some n) :
    (n : Int) ≤ greatest := by
  unfold ofDigits? at h
  split at h
  · cases h
  · split at h
    · next hle =>
      cases h
      exact hle
    · cases h

/-- A word that the scanner takes for a name is one. -/
theorem Text.isName_of_word {word : Text} (hall : ∀ p ∈ word, p.continuesName = true)
    (hname : ScalarScript.isName word = true) (hk : Keyword.ofText? word = none) : word.IsName := by
  refine ⟨?_, fun k hword => ?_⟩
  · unfold ScalarScript.isName at hname
    cases hrest : word.dropWhile (·.is '_') with
    | nil =>
      rw [hrest] at hname
      cases hname
    | cons first rest =>
      rw [hrest] at hname
      have hunderscores : ∀ p ∈ word.takeWhile (·.is '_'), p = .scalar '_' := by
        intro p hp
        have := List.mem_takeWhile_imp hp
        simpa [CodePoint.is] using this
      have hsplit := List.takeWhile_append_dropWhile (p := (·.is '_')) (l := word)
      rw [hrest, List.eq_replicate_of_mem hunderscores] at hsplit
      refine ⟨_, first, rest, hsplit.symm, hname, fun p hp => hall p ?_⟩
      rw [← hsplit]
      exact List.mem_append_right _ (List.mem_cons_of_mem _ hp)
  · rw [Keyword.ofText?_eq_some_iff.mpr hword] at hk
    cases hk

theorem kind_of_literalLexeme {quote : Char} {behind text : Text} {kind : Token.Kind}
    {decode : Text → Except Literal.DecodeError Token.Kind}
    (h : literalLexeme quote decode behind = .ok (kind, text)) : ∃ raw, decode raw = .ok kind := by
  unfold literalLexeme at h
  split at h
  · cases h
  · next raw _ _ =>
    split at h
    · cases h
    · next hd =>
      cases h
      exact ⟨raw, hd⟩

section Lexemes

variable {t text : Text} {kind : Token.Kind} {position : Position}

/-- A token that is neither a name nor a number. -/
theorem Token.WellFormed.of_kind (hn : kind ≠ .identifier) (hm : ∀ n, kind ≠ .number n) :
    Token.WellFormed ⟨kind, text, position⟩ :=
  ⟨fun h => absurd h hn, fun n h => absurd h (hm n)⟩

theorem wellFormed_numberLexeme (h : numberLexeme t = .ok (kind, text)) :
    Token.WellFormed ⟨kind, text, position⟩ := by
  unfold numberLexeme at h
  simp only at h
  split at h
  · cases h
  · next n hn =>
    cases h
    refine ⟨nofun, fun m hm => ?_⟩
    cases hm
    split at hn
    · exact Integer.le_of_ofDigits? hn
    · cases hn

theorem wellFormed_wordLexeme (h : wordLexeme t = .ok (kind, text)) :
    Token.WellFormed ⟨kind, text, position⟩ := by
  unfold wordLexeme at h
  simp only at h
  split at h
  · cases h
  · next hname =>
    cases h
    cases hk : Keyword.ofText? (t.takeWhile CodePoint.continuesName) with
    | some k => exact .of_kind nofun nofun
    | none =>
      refine ⟨fun _ => Text.isName_of_word (fun p hp => ?_) (by simpa using hname) hk, nofun⟩
      exact List.mem_takeWhile_imp hp

theorem wellFormed_signLexeme {p : CodePoint} (h : signLexeme p t = .ok (kind, text)) :
    Token.WellFormed ⟨kind, text, position⟩ := by
  unfold signLexeme at h
  split at h
  · cases h
    exact .of_kind nofun nofun
  · split at h
    · cases h
      exact .of_kind nofun nofun
    · cases h

/-- The token of a lexeme is well-formed. -/
theorem wellFormed_lexeme {p : CodePoint} (h : lexeme p t = .ok (kind, text)) :
    Token.WellFormed ⟨kind, text, position⟩ := by
  unfold lexeme at h
  split at h
  · obtain ⟨raw, hraw⟩ := kind_of_literalLexeme h
    obtain ⟨s, -, rfl⟩ := Except.map_eq_ok_iff.mp hraw
    exact .of_kind nofun nofun
  · split at h
    · obtain ⟨raw, hraw⟩ := kind_of_literalLexeme h
      obtain ⟨c, -, rfl⟩ := Except.map_eq_ok_iff.mp hraw
      exact .of_kind nofun nofun
    · split at h
      · exact wellFormed_numberLexeme h
      · split at h
        · exact wellFormed_wordLexeme h
        · exact wellFormed_signLexeme h

end Lexemes

theorem wellFormed_scanLine {line column : Nat} {t : Text} {tokens : List Token}
    (h : scanLine line column t = .ok tokens) : ∀ token ∈ tokens, token.WellFormed := by
  fun_induction scanLine line column t generalizing tokens with
  | case1 =>
    cases h
    exact nofun
  | case2 column p rest hp ih => exact ih h
  | case3 =>
    cases h
    exact nofun
  | case4 => cases h
  | case5 column p rest hp hc kind text hl ih =>
    obtain ⟨others, ho, rfl⟩ := Except.map_eq_ok_iff.mp h
    exact List.forall_mem_cons.mpr ⟨wellFormed_lexeme hl, ih ho⟩

theorem wellFormed_scanLines {lines : List Text} {line : Nat} {tokens : List Token}
    (h : scanLines line lines = .ok tokens) : ∀ token ∈ tokens, token.WellFormed := by
  induction lines generalizing line tokens with
  | nil =>
    cases h
    exact nofun
  | cons t rest ih =>
    obtain ⟨first, hfirst, h⟩ := Except.bind_eq_ok_iff.mp h
    obtain ⟨others, hothers, h⟩ := Except.bind_eq_ok_iff.mp h
    cases h
    exact List.forall_mem_append.mpr ⟨wellFormed_scanLine hfirst, ih hothers⟩

/-- Names and numbers that are scanned are well-formed. -/
theorem wellFormed_scan {source : Text} {tokens : Tokens} (h : Tokens.scan source = .ok tokens) :
    ∀ token ∈ tokens.tokens, token.WellFormed := by
  obtain ⟨ts, hts, rfl⟩ := Except.map_eq_ok_iff.mp h
  exact wellFormed_scanLines hts

/-! ## Trees -/

theorem Expr.WellFormed.of_literal? {t : Token} {e : Expr} (ht : t.WellFormed)
    (h : t.literal? = some e) : e.WellFormed := by
  rcases t.literal?_cases h with ⟨s, rfl⟩ | ⟨c, rfl⟩ | ⟨n, hn, rfl⟩ | ⟨b, rfl⟩
  · exact .string s _
  · exact .char c _
  · exact .int (ht.number n hn) _
  · exact .bool b _

namespace Grammar

/-- Well-formed tokens build well-formed expressions. -/
theorem built_wellFormed : Built Token.WellFormed Expr.WellFormed where
  literal := Expr.WellFormed.of_literal?
  name ht hk := .var (ht.name hk) _
  binary he hf := .binary _ _ he hf
  unary he := .unary _ _ he
  method ht hk he hes := .method _ (ht.name hk) he hes
  call ht hk hes := .call _ (ht.name hk) hes
  index he hi := .index _ he hi

theorem wellFormed_statement (s : StatementDerivation) (hs : ∀ t ∈ s.tokens, t.WellFormed) :
    s.statement.WellFormed := by
  have he := built_wellFormed.expressions_statement s hs
  cases s with
  | declare keyword n sign value =>
    exact .declare _ ((hs n.1 (by simp [StatementDerivation.tokens])).name n.2)
      (he _ List.mem_cons_self)
  | constant keyword n sign value =>
    exact .constant _ ((hs n.1 (by simp [StatementDerivation.tokens])).name n.2)
      (he _ List.mem_cons_self)
  | assign n sign value =>
    exact .assign _ ((hs n.1 (by simp [StatementDerivation.tokens])).name n.2)
      (he _ List.mem_cons_self)
  | indexAssign n opening i closing sign value =>
    exact .indexAssign _ ((hs n.1 (by simp [StatementDerivation.tokens])).name n.2)
      (he _ List.mem_cons_self) (he _ (List.mem_cons_of_mem _ List.mem_cons_self))
  | print n opening value closing => exact .print _ (he _ List.mem_cons_self)
  | expression value hp => exact .expression _ (he _ List.mem_cons_self)

end Grammar

/-- Statements that are read from scanned tokens are well-formed. -/
theorem wellFormed_ofTokens {source : Text} {tokens : Tokens} {depth : Nat} {ss : List Statement}
    (hscan : Tokens.scan source = .ok tokens) (h : Script.ofTokens depth tokens = .ok ss) :
    ∀ s ∈ ss, s.WellFormed := by
  obtain ⟨d, hd, -, rfl⟩ := Grammar.ofTokens_eq_ok_iff.mp h
  exact Grammar.forall_statements Grammar.wellFormed_statement d (hd ▸ wellFormed_scan hscan)

/-- **A script that is parsed is well-formed.** -/
theorem Script.wellFormed_parse {source : Text} {name : Datum} {script : Script}
    (h : Script.parse source name = .ok script) : script.WellFormed := by
  obtain ⟨tokens, ss, hscan, hss, rfl⟩ := Grammar.parse_eq_ok_iff.mp h
  exact wellFormed_ofTokens hscan hss

/-- An expression that is parsed is well-formed. -/
theorem Expr.wellFormed_parse {source : Text} {e : Expr} (h : Expr.parse source = .ok e) :
    e.WellFormed := by
  obtain ⟨tokens, hscan, h⟩ := Except.bind_eq_ok_iff.mp h
  rw [Except.mapError_eq_ok_iff] at hscan h
  unfold Expr.ofTokens at h
  split at h
  · cases h
  · next hrun =>
    cases h
    obtain ⟨d, hd, -, rfl⟩ := Grammar.derived_expr hrun
    refine Grammar.built_wellFormed.means_tree d fun t ht => wellFormed_scan hscan t ?_
    rw [hd]
    exact List.mem_append_left _ ht
  · cases h

end ScalarScript
