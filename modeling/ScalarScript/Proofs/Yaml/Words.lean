import ScalarScript.Proofs.Yaml.Scalars

/-!
# Words that are read back

Numbers, truth values, the word for nothing and the names of fields are written without quotes and
within one line, since no space stands in them.

Results:
* `resolve_ofInt`: the digits of an integer stand for it.
* `leafReads_int`, `leafReads_bool`, `leafReads_null`: so words are read back, and
  `leafReads_emptyArray` and `leafReads_emptyObject` say so of the pairs of brackets.
* `IsKey.key?_eq`: the name of a field is read up to its colon.
-/

namespace ScalarScript.Yaml

/-- What a word is written with. -/
def isWordCharacter (p : CodePoint) : Bool := p.isDigit || isKeyLetter p || p.is '-'

section Words

variable {least : Nat} {p : CodePoint} {t rest : Text}

theorem is_eq_false_of_isWordCharacter (h : isWordCharacter p = true) {c : Char}
    (hc : isWordCharacter (.scalar c) = false) : p.is c = false := by
  refine Bool.eq_false_iff.mpr fun hp => ?_
  rw [CodePoint.eq_of_is hp, hc] at h
  cases h

theorem isOneOf_eq_false_of_isWordCharacter (h : isWordCharacter p = true) {marks : String}
    (hm : ∀ q ∈ Text.of marks, isWordCharacter q = false) : isOneOf marks p = false := by
  refine Bool.eq_false_iff.mpr fun hp => ?_
  rw [isOneOf, List.contains_iff_mem] at hp
  rw [hm p hp] at h
  cases h

theorem isSpace_of_isWordCharacter (h : isWordCharacter p = true) : isSpace p = false := by
  have hne {c : Char} (hc : isWordCharacter (.scalar c) = false) : p.is c = false :=
    is_eq_false_of_isWordCharacter h hc
  rw [isSpace, isBlank, isBreak, hne (by decide), hne (by decide), hne (by decide), hne (by decide),
    hne (by decide), hne (by decide), hne (by decide), hne (by decide)]
  rfl

theorem isVerbatim_of_isWordCharacter (h : isWordCharacter p = true) : isVerbatim p = true := by
  have hbounds : 0x20 ≤ p.toNat ∧ p.toNat ≤ 0x7E := by
    simp only [isWordCharacter, isKeyLetter, Bool.or_eq_true, Bool.and_eq_true,
      decide_eq_true_eq] at h
    rcases h with (h | h) | h
    · have := CodePoint.bounds_of_isDigit h
      omega
    · omega
    · rw [CodePoint.eq_of_is h]
      decide
  exact isVerbatim_of_ascii hbounds.1 hbounds.2

/-- A word is read through. -/
theorem plainFrom_word (h : ∀ p ∈ t, isWordCharacter p = true) (least : Nat) (rest : Text) :
    plainFrom false least .none (t ++ rest) =
      ⟨t ++ (plainFrom false least .none rest).text, (plainFrom false least .none rest).crossed,
        t.length + (plainFrom false least .none rest).size,
        (plainFrom false least .none rest).cursor⟩ := by
  induction t with
  | nil => rw [List.length_nil, Nat.zero_add]; rfl
  | cons p t ih =>
    obtain ⟨hp, ht⟩ := List.forall_mem_cons.mp h
    have hspace := isSpace_of_isWordCharacter hp
    have hcolon : p.is ':' = false := is_eq_false_of_isWordCharacter hp (by decide)
    have hgoes : goesOn false least .none p (t ++ rest) = true := by
      unfold goesOn endsPlain
      rw [hspace, hcolon]
      rfl
    simp only [isSpace, isBlank, Bool.or_eq_false_iff] at hspace
    rw [List.cons_append, plainFrom_char hspace.1.1.1.1 hspace.2 hgoes, ih ht, List.length_cons,
      Nat.add_comm t.length 1, Nat.add_assoc]
    rfl

/-- A word that is more than a dash begins a plain scalar. -/
theorem startsPlain_word (h : ∀ q ∈ p :: t, isWordCharacter q = true)
    (hd : p.is '-' = true → t ≠ []) : StartsPlain p t := by
  obtain ⟨hp, ht⟩ := List.forall_mem_cons.mp h
  refine ⟨isOneOf_eq_false_of_isWordCharacter hp (by decide), isSpace_of_isWordCharacter hp,
    fun hmark rest => ?_⟩
  have hdash : p.is '-' = true := by
    rw [isOneOf, List.contains_iff_mem] at hmark
    rcases List.mem_cons.mp hmark with rfl | hmark
    · cases hp
    · rcases List.mem_cons.mp hmark with rfl | hmark
      · cases hp
      · rw [List.mem_singleton.mp hmark]
        decide
  cases t with
  | nil => exact absurd rfl (hd hdash)
  | cons q t => exact isSpace_of_isWordCharacter (ht q List.mem_cons_self)

/-- A word is read back as what it stands for. -/
theorem leafReads_word {d : Datum} (h : ∀ q ∈ p :: t, isWordCharacter q = true)
    (hd : p.is '-' = true → t ≠ []) (hr : resolve (p :: t) = .datum d) :
    LeafReads least (p :: t) d := by
  have hstart := startsPlain_word h hd
  have hdatum : Scalar.toDatum ⟨false, p :: t⟩ = .ok d := by
    rw [Scalar.toDatum]
    simp only [Bool.false_eq_true, if_false, hr]
  refine leafReads_of_scalarReads hstart.startsToken (isOneOf_eq_false hstart.mark (by decide))
    hstart.afterMark?_eq hdatum (scalarReads_plain hstart fun k u hu hk => ?_)
  obtain ⟨crossed, size, hscan⟩ := plainFrom_newLine hu hk
  rw [plainFrom_word h least, Option.some.inj hscan, List.append_nil]
  exact ⟨_, _, rfl⟩

end Words

/-! ## Integers -/

section Integers

variable {p : CodePoint} {t : Text}

theorem hexDigit?_of_isDigit {c : Char} (h : c.isDigit = true) :
    (CodePoint.scalar c).hexDigit? = some (c.toNat - '0'.toNat) := by
  simp only [Char.isDigit, Bool.and_eq_true, decide_eq_true_eq] at h
  exact if_pos h

/-- Digits write the same number in both readings. -/
theorem digitsValue_eq_decimalValue (h : ∀ p ∈ t, p.isDigit = true) :
    digitsValue 10 t = t.decimalValue := by
  unfold digitsValue Text.decimalValue
  generalize 0 = n
  induction t generalizing n with
  | nil => rfl
  | cons p t ih =>
    obtain ⟨hp, ht⟩ := List.forall_mem_cons.mp h
    cases p with
    | surrogate i => cases hp
    | scalar c =>
      have hc : c.isDigit = true := hp
      rw [List.foldl_cons, hexDigit?_of_isDigit hc]
      simp only
      rw [ih ht, Nat.mul_comm]
      rfl

theorem digitsValue_ofNat (n : Nat) : digitsValue 10 (Text.ofNat n) = n := by
  rw [digitsValue_eq_decimalValue fun _ => Text.isDigit_of_mem_ofNat, Text.decimalValue_ofNat]

theorem isDigits_of_forall (h : ∀ p ∈ t, p.isDigit = true) : isDigits 10 t = true := by
  refine List.all_eq_true.mpr fun p hp => ?_
  cases p with
  | surrogate i => cases h _ hp
  | scalar c =>
    have hc : c.isDigit = true := h _ hp
    have hlt : c.toNat - '0'.toNat < 10 := by
      have hle : c.toNat ≤ 57 := (CodePoint.bounds_of_isDigit (h _ hp)).2
      show c.toNat - 48 < 10
      omega
    rw [isDigitBelow, hexDigit?_of_isDigit hc, Option.any_some, decide_eq_true hlt, Bool.or_true]

theorem natural?_ofNat (n : Nat) : natural? (Text.ofNat n) = some n := by
  obtain ⟨rfl, hn⟩ | ⟨p, rest, hn, hdigit, hzero⟩ := Text.ofNat_eq_cons n
  · rw [hn]
    rfl
  · have hrest : isDigits 10 rest = true := isDigits_of_forall fun q hq =>
      Text.isDigit_of_mem_ofNat (n := n) (hn ▸ List.mem_cons_of_mem p hq)
    have hvalue := digitsValue_ofNat n
    rw [hn] at hvalue ⊢
    unfold natural?
    split
    · next heq =>
      cases heq
      cases hzero
    · next heq =>
      cases heq
      cases hzero
    · next heq =>
      cases heq
      cases hzero
    · next heq =>
      cases heq
      rw [hdigit, Bool.not_true, if_neg Bool.false_ne_true, hrest, if_pos rfl, hvalue]
    · next heq => cases heq

theorem splitSign_of_isDigit (h : p.isDigit = true) : splitSign (p :: t) = (false, p :: t) := by
  unfold splitSign
  split
  · next heq =>
    cases heq
    cases h
  · next heq =>
    cases heq
    cases h
  · rfl

theorem int?_ofInt (n : Int) : int? (Text.ofInt n) = some n := by
  cases n with
  | ofNat n =>
    obtain ⟨p, rest, hn, hdigit⟩ := Text.exists_ofNat n
    have hnatural := natural?_ofNat n
    show int? (Text.ofNat n) = some (n : Int)
    rw [hn] at hnatural ⊢
    rw [int?, splitSign_of_isDigit hdigit, hnatural]
    rfl
  | negSucc n =>
    show (natural? (Text.ofNat (n + 1))).map (fun n => -(n : Int)) = _
    rw [natural?_ofNat]
    rfl

/-- What begins like a number is no word that begins otherwise. -/
theorem ne_of_beginsNumber (hp : Text.BeginsNumber p) {w : String}
    (hw : ∀ q ∈ (Text.of w).head?, ¬ Text.BeginsNumber q) : (p :: t == Text.of w) = false := by
  refine beq_eq_false_iff_ne.mpr fun heq => hw p ?_ hp
  rw [← heq]
  rfl

/-- The digits of an integer stand for it. -/
theorem resolve_ofInt (n : Int) : resolve (Text.ofInt n) = .datum (.int n) := by
  obtain ⟨p, rest, hn, hp⟩ := Text.exists_ofInt n
  have hwords : (words.find? fun w => p :: rest == Text.of w.1) = none := by
    have hall : ∀ w ∈ words, ∀ q ∈ (Text.of w.1).head?, ¬ Text.BeginsNumber q := by
      simp only [words, List.forall_mem_append, List.forall_mem_map]
      decide
    refine List.find?_eq_none.mpr fun w hw => ?_
    rw [ne_of_beginsNumber hp (hall w hw)]
    exact Bool.false_ne_true
  have hreserved : (reservedWords.any fun w => p :: rest == Text.of w) = false := by
    have hall : ∀ w ∈ reservedWords, ∀ q ∈ (Text.of w).head?, ¬ Text.BeginsNumber q := by decide
    rw [List.any_eq_false]
    intro w hw
    rw [ne_of_beginsNumber hp (hall w hw)]
    exact Bool.false_ne_true
  have hint := int?_ofInt n
  rw [hn] at hint ⊢
  rw [resolve, hwords]
  simp only [hreserved, Bool.false_eq_true, if_false, hint]

theorem isWordCharacter_of_mem_ofInt {n : Int} (h : p ∈ Text.ofInt n) :
    isWordCharacter p = true := by
  have hdigit {n : Nat} (h : p ∈ Text.ofNat n) : isWordCharacter p = true := by
    rw [isWordCharacter, Text.isDigit_of_mem_ofNat h]
    rfl
  cases n with
  | ofNat n => exact hdigit h
  | negSucc n =>
    rcases List.mem_cons.mp h with rfl | h
    · decide
    · exact hdigit h

theorem leafReads_int {least : Nat} (n : Int) : LeafReads least (Text.ofInt n) (.int n) := by
  have hresolve := resolve_ofInt n
  have hword : ∀ q ∈ Text.ofInt n, isWordCharacter q = true := fun q =>
    isWordCharacter_of_mem_ofInt
  have hdash : ∀ p rest, Text.ofInt n = p :: rest → p.is '-' = true → rest ≠ [] := by
    intro p rest hn hp
    cases n with
    | ofNat n =>
      have hdigit : p.isDigit = true :=
        Text.isDigit_of_mem_ofNat (n := n) (by rw [show Text.ofNat n = p :: rest from hn]; simp)
      rw [CodePoint.eq_of_is hp] at hdigit
      cases hdigit
    | negSucc n =>
      injection hn with _ hrest
      rw [← hrest]
      exact Text.ofNat_ne_nil (n + 1)
  cases hn : Text.ofInt n with
  | nil =>
    rw [hn] at hresolve
    cases hresolve
  | cons p rest =>
    rw [hn] at hword hresolve
    exact leafReads_word hword (hdash p rest hn) hresolve

end Integers

/-! ## Collections with nothing in them -/

section Empty

variable {least : Nat}

/-- Brackets with nothing between them are read back. -/
theorem leafReads_brackets {left right : Char} {d : Datum} (node : Node)
    (hstart : StartsToken (.scalar left)) (hdash : (CodePoint.scalar left).is '-' = false)
    (hleft : isOneOf "[\x7b" (.scalar left) = true)
    (hnone : ∀ t : Text, scalar? false least ⟨.scalar left :: t, none⟩ = none)
    (hd : node.toDatum = .ok d)
    (hread : ∀ (bound : Nat) (rest : Text) (column? : Option Nat),
      flowNode (bound + 2) ⟨.scalar left :: .scalar right :: rest, column?⟩ =
        some (node, ⟨rest, none⟩)) :
    LeafReads least [.scalar left, .scalar right] d := by
  have hkey (t : Text) (column? : Option Nat) :
      key? false least ⟨.scalar left :: t, column?⟩ = none := by
    have hscalar : scalar? false least ⟨.scalar left :: t, column?⟩ = none := hnone t
    rw [key?, hscalar]
  refine ⟨?_, List.cons_ne_nil _ _, fun rest => ?_, fun k u column? _ _ => hkey _ column?,
    fun bound k u column? hbound hu _ => ?_⟩
  · rintro rest q ⟨⟩
    exact hstart
  · rw [List.cons_append, afterMark?, hdash, Bool.false_and, if_neg Bool.false_ne_true]
  · obtain ⟨bound, rfl⟩ : ∃ b, bound = b + 2 := ⟨bound - 2, (Nat.sub_add_cancel hbound).symm⟩
    have hbracket : ([CodePoint.scalar left, .scalar right] ++ (newLine k ++ u)).head?.any
        (isOneOf "[\x7b") = true := hleft
    refine ⟨node, _, ?_, skip_newLine hu.startsToken none, hd⟩
    rw [leaf, if_pos hbracket]
    exact hread bound _ column?

theorem leafReads_emptyArray : LeafReads least (Text.of "[]") (.array []) := by
  show LeafReads least [.scalar '[', .scalar ']'] (.array [])
  refine leafReads_brackets (.sequence []) ⟨rfl, rfl, rfl⟩ rfl rfl (fun _ => rfl) rfl
    fun bound rest column? => ?_
  have hmarker : startsWithMarker (.scalar '[' :: .scalar ']' :: rest) = false := rfl
  rw [flowNode, Cursor.atMarker, hmarker, Bool.and_false, if_neg Bool.false_ne_true]
  rfl

theorem leafReads_emptyObject : LeafReads least (Text.of "\x7b\x7d") (.object []) := by
  show LeafReads least [.scalar '\x7b', .scalar '\x7d'] (.object [])
  refine leafReads_brackets (.mapping []) ⟨rfl, rfl, rfl⟩ rfl rfl (fun _ => rfl) rfl
    fun bound rest column? => ?_
  have hmarker : startsWithMarker (.scalar '\x7b' :: .scalar '\x7d' :: rest) = false := rfl
  rw [flowNode, Cursor.atMarker, hmarker, Bool.and_false, if_neg Bool.false_ne_true]
  rfl

theorem leafReads_null : LeafReads least (Text.of "null") .null :=
  leafReads_word (by decide) (by decide) rfl

theorem leafReads_bool (b : Bool) :
    LeafReads least (Text.of (if b then "true" else "false")) (.bool b) := by
  cases b with
  | false => exact leafReads_word (by decide) (by decide) rfl
  | true => exact leafReads_word (by decide) (by decide) rfl

end Empty

/-! ## Names of fields -/

/-- A plain scalar ends at a colon in front of a space. -/
theorem plainFrom_colon {rest : Text} (hs : startsWithSpace rest = true) (least : Nat) :
    plainFrom false least .none (.scalar ':' :: rest) =
      ⟨[], false, 0, ⟨.scalar ':' :: rest, none⟩⟩ := by
  have hstop : goesOn false least .none (.scalar ':') rest = false := by
    unfold goesOn endsPlain
    rw [hs]
    rfl
  rw [plainFrom, hstop]
  rfl

/-- A name that is written as a key in letters. -/
structure IsKey (name : Text) : Prop where
  nonempty : name ≠ []
  letters : ∀ p ∈ name, isKeyLetter p = true
  style : style name = .plain
  short : name.length ≤ longestKey

namespace IsKey

variable {name : Text}

theorem isWordCharacter (h : IsKey name) : ∀ p ∈ name, isWordCharacter p = true := by
  intro p hp
  rw [Yaml.isWordCharacter, h.letters p hp, Bool.or_true, Bool.true_or]

theorem keyText_eq (h : IsKey name) : keyText name = name := by
  unfold keyText
  rw [h.style]

theorem toName_eq (h : IsKey name) : Scalar.toName ⟨false, name⟩ = .ok name := by
  rw [Scalar.toName]
  simp only [Bool.false_eq_true, if_false, resolve_of_style_plain h.style]

/-- The name of a field is scanned up to its colon. -/
theorem scalar?_eq (h : IsKey name) {rest : Text} (hs : startsWithSpace rest = true) (least : Nat)
    (column? : Option Nat) :
    scalar? false least ⟨name ++ .scalar ':' :: rest, column?⟩ =
      some (⟨false, name⟩, ⟨name, false, name.length, ⟨.scalar ':' :: rest, none⟩⟩) := by
  have hread := plainFrom_word h.isWordCharacter least (.scalar ':' :: rest)
  rw [plainFrom_colon hs, List.append_nil, Nat.add_zero] at hread
  cases name with
  | nil => exact absurd rfl h.nonempty
  | cons p t =>
    have hp : isKeyLetter p = true := h.letters p List.mem_cons_self
    have hstart := startsPlain_word h.isWordCharacter fun hdash => by
      rw [is_eq_false_of_isKeyLetter hp (by decide)] at hdash
      cases hdash
    have hsingle : p.is '\'' = false := is_eq_false_of_isKeyLetter hp (by decide)
    have hdouble : p.is '"' = false := is_eq_false_of_isKeyLetter hp (by decide)
    rw [scalar?]
    simp only [List.cons_append] at hread ⊢
    rw [hsingle, hdouble, Bool.or_false, if_neg Bool.false_ne_true, hstart.startsPlain_eq,
      if_pos rfl, hread]

/-- The name of a field is read up to its colon. -/
theorem key?_eq (h : IsKey name) {rest : Text} (hs : startsWithSpace rest = true) (least : Nat)
    (column? : Option Nat) :
    key? false least ⟨name ++ .scalar ':' :: rest, column?⟩ = some (⟨false, name⟩, rest) := by
  have hafter : afterKey? false ⟨name, false, name.length, ⟨.scalar ':' :: rest, none⟩⟩ =
      some rest := by
    have hshort : decide (longestKey < name.length) = false :=
      decide_eq_false (Nat.not_lt.mpr h.short)
    have htake : (CodePoint.scalar ':' :: rest).takeWhile (·.is ' ') = [] := rfl
    have hmark : afterMark? ':' (.scalar ':' :: rest) = some rest := by
      rw [afterMark?, hs]
      rfl
    rw [afterKey?]
    simp only [htake, List.length_nil, Nat.add_zero, hshort, List.drop_zero, hmark]
    rfl
  rw [key?, h.scalar?_eq hs]
  simp only [hafter]
  rfl

end IsKey

end ScalarScript.Yaml
