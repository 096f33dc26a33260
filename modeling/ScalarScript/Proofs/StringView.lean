import ScalarScript.Except
import ScalarScript.Value.Operand

/-!
# Strings refine their lists of scalars

A script string is bytes and a counter; what it means is a list of scalar values. `Represents`
relates the two, and `Construction` is any finite way to come by a string: from host text or from
single scalars, by joining two strings or a string and any value on either side, and by replacing a
scalar. A construction is run twice: `run` works on bytes and counters, `view` on lists alone.

Results:
* `map_scalars_run`: the two runs agree, on the scalars of the string and on every fault.
* `represents_scalars`: every string represents the list it is read as, and no other
  (`Represents.unique`).
* `exists_span`: the search for the bytes of a scalar below the counter succeeds, and finds exactly
  the encoding of that scalar.
* **`construction_refines_scalars`**: constructions yield encodings of lists of scalars, and on
  lists joining is `++`, reading is indexing and replacing is `List.set`.
-/

namespace ScalarScript.ScalarString

/-! ## What a string represents -/

/-- The bytes encode the list, the counter is its length, and both readings give it back. -/
structure Represents (s : ScalarString) (xs : List Char) : Prop where
  bytes : s.bytes = Utf8.encode xs
  length : s.length = xs.length
  scalars : s.scalars = xs
  text : s.text = Text.ofChars xs

theorem represents_scalars (s : ScalarString) : s.Represents s.scalars :=
  ⟨s.bytes_eq, s.length_eq, rfl, rfl⟩

theorem represents_of_scalars_eq {s : ScalarString} {xs : List Char} (h : s.scalars = xs) :
    s.Represents xs :=
  h ▸ s.represents_scalars

theorem Represents.unique {s : ScalarString} {xs ys : List Char} (hx : s.Represents xs)
    (hy : s.Represents ys) : xs = ys :=
  hx.scalars.symm.trans hy.scalars

theorem Represents.append {s t : ScalarString} {xs ys : List Char} (hs : s.Represents xs)
    (ht : t.Represents ys) : (s ++ t).Represents (xs ++ ys) :=
  represents_of_scalars_eq (by rw [scalars_append, hs.scalars, ht.scalars])

/-- A character is a number up to U+10FFFF outside the surrogates. -/
theorem toNat_char_range (c : Char) :
    c.toNat ≤ 0x10FFFF ∧ ¬ (0xD800 ≤ c.toNat ∧ c.toNat ≤ 0xDFFF) := by
  have hc : c.val.toNat = c.toNat := rfl
  rcases c.valid with h | h <;> omega

/-! ## Reading and replacing through the view -/

theorem scalarAtValue_int (s : ScalarString) (i : Int) :
    s.scalarAtValue (.int i) =
      if h : 0 ≤ i ∧ i < s.scalars.length then .ok (s.scalars.get ⟨i.toNat, by omega⟩)
      else .error (.indexOutOfRange i s.scalars.length) := by
  have hlen := s.length_eq
  show s.scalarAt i = _
  rw [scalarAt_eq]
  by_cases h : 0 ≤ i ∧ i < s.scalars.length
  · have hlt : i.toNat < s.scalars.length := by omega
    rw [dif_pos h, position?, if_pos (hlen ▸ h), Option.bind_some, List.getElem?_eq_getElem hlt]
    rfl
  · rw [dif_neg h, position?, if_neg (hlen ▸ h), Option.bind_none, hlen]

/-- Replacing a scalar, by the range of the index. -/
theorem replacedAt_eq_ite (s : ScalarString) (i : Int) (c : Char) :
    s.replacedAt i c =
      if 0 ≤ i ∧ i < s.length then .ok (ofScalars (s.scalars.set i.toNat c))
      else .error (.indexOutOfRange i s.length) := by
  rw [replacedAt_eq, position?]
  by_cases h : 0 ≤ i ∧ i < s.length
  · rw [if_pos h, if_pos h]
  · rw [if_neg h, if_neg h]

theorem replacedAtValue_int (s : ScalarString) (i : Int) (v : Value) :
    s.replacedAtValue (.int i) v =
      if 0 ≤ i ∧ i < s.scalars.length then
        v.scalar.map fun c => ofScalars (s.scalars.set i.toNat c)
      else .error (.indexOutOfRange i s.scalars.length) := by
  show (if (s.position? i).isNone then .error (.indexOutOfRange i s.length)
    else v.scalar >>= fun c => s.replacedAt i c) = _
  rw [← length_eq]
  by_cases h : 0 ≤ i ∧ i < s.length
  · have hpos : s.position? i = some i.toNat := if_pos h
    rw [if_pos h, hpos]
    simp only [replacedAt_eq_ite, if_pos h]
    cases v.scalar <;> rfl
  · have hpos : s.position? i = none := if_neg h
    rw [if_neg h, hpos]
    rfl

/-- Below the counter the search for a scalar finds its bytes. -/
theorem exists_span {s : ScalarString} {xs : List Char} (hs : s.Represents xs) {i : Nat}
    (hi : i < xs.length) :
    ∃ span, Utf8.span? s.bytes i = some span ∧
      (s.bytes.take span.2).drop span.1 = String.utf8EncodeChar xs[i] := by
  refine ⟨_, by rw [hs.bytes, Utf8.span?_encode, if_pos hi], ?_⟩
  have hnext : Utf8.encode (xs.take (i + 1)) =
      Utf8.encode (xs.take i) ++ Utf8.encode [xs[i]] := by
    rw [← Utf8.encode_append, List.take_append_getElem hi]
  rw [hs.bytes, Utf8.take_encode_take, hnext, List.drop_left, Utf8.encode_cons, Utf8.encode_nil,
    List.append_nil]

/-! ## Constructions -/

/-- A finite way to come by a string. -/
inductive Construction where
  | ofText (t : Text)
  | ofValues (items : List Value)
  | concat (a b : Construction)
  | joined (a : Construction) (v : Value)
  | joinedAfter (v : Value) (a : Construction)
  | replaced (a : Construction) (index scalar : Value)

namespace Construction

/-- The string that a construction makes, or the first fault on the way. -/
def run : Construction → Except StringFault ScalarString
  | ofText t => ofHostText t
  | ofValues items => ScalarString.ofValues items
  | concat a b => do (← a.run).joined (.string (← b.run))
  | joined a v => do (← a.run).joined v
  | joinedAfter v a => do (← a.run).joinedAfter v
  | replaced a index scalar => do (← a.run).replacedAtValue index scalar

/-- The scalars of host text, or its first surrogate. -/
def textView (t : Text) : Except StringFault (List Char) :=
  match t.firstSurrogate? with
  | some p => .error (.notScalar (.int p.toNat))
  | none => .ok t.chars

/-- The scalars of an operand of `+`. -/
def operandView : Value → Except StringFault (List Char)
  | .string s => .ok s.scalars
  | v =>
    match v.plainText? with
    | some t => textView t
    | none => .error (.unsupportedOperand (Text.of "+") v.hostName)

/-- A list with the scalar at an index replaced; the index is looked at first. -/
def replacedView (xs : List Char) (index scalar : Value) : Except StringFault (List Char) := do
  let i ← indexOf index
  if 0 ≤ i ∧ i < xs.length then return xs.set i.toNat (← scalar.scalar)
  else .error (.indexOutOfRange i xs.length)

/-- The list of scalars that a construction means, or the first fault on the way. -/
def view : Construction → Except StringFault (List Char)
  | ofText t => textView t
  | ofValues items => items.mapM Value.scalar
  | concat a b => do return (← a.view) ++ (← b.view)
  | joined a v => do return (← a.view) ++ (← operandView v)
  | joinedAfter v a => do
    let xs ← a.view
    return (← operandView v) ++ xs
  | replaced a index scalar => do replacedView (← a.view) index scalar

end Construction

theorem map_scalars_ofHostText (t : Text) :
    (ofHostText t).map scalars = Construction.textView t := by
  unfold ofHostText ofText Construction.textView
  cases t.firstSurrogate? with
  | none => exact congrArg Except.ok (scalars_ofScalars _)
  | some p => rfl

theorem map_scalars_ofOperand (v : Value) :
    (ofOperand v).map scalars = Construction.operandView v := by
  have key : ∀ w : Value, (w.render (Text.of "+") >>= ofHostText).map scalars =
      match w.plainText? with
      | some t => Construction.textView t
      | none => .error (.unsupportedOperand (Text.of "+") w.hostName) := by
    intro w
    unfold Value.render
    cases w.plainText? with
    | none => rfl
    | some t => exact map_scalars_ofHostText t
  cases v with
  | string s => rfl
  | _ => exact key _

theorem map_scalars_ofValues (items : List Value) :
    (ofValues items).map scalars = items.mapM Value.scalar := by
  unfold ofValues
  cases items.mapM Value.scalar with
  | error e => rfl
  | ok cs => exact congrArg Except.ok (scalars_ofScalars cs)

theorem map_scalars_replacedAtValue (s : ScalarString) (index scalar : Value) :
    (s.replacedAtValue index scalar).map scalars =
      Construction.replacedView s.scalars index scalar := by
  cases index with
  | int i =>
    rw [replacedAtValue_int]
    show _ = if 0 ≤ i ∧ i < s.scalars.length then _ else _
    split
    · cases scalar.scalar with
      | error e => rfl
      | ok c => exact congrArg Except.ok (scalars_ofScalars _)
    · rfl
  | _ => rfl

/-- **Constructions on bytes and on lists agree**, faults included. -/
theorem map_scalars_run (b : Construction) : b.run.map scalars = b.view := by
  induction b with
  | ofText t => exact map_scalars_ofHostText t
  | ofValues items => exact map_scalars_ofValues items
  | concat a b iha ihb =>
    rw [Construction.run, Construction.view, ← iha, ← ihb]
    cases a.run with
    | error e => rfl
    | ok s =>
      cases b.run with
      | error e => rfl
      | ok t => exact congrArg Except.ok (scalars_append s t)
  | joined a v iha =>
    rw [Construction.run, Construction.view, ← iha, ← map_scalars_ofOperand]
    cases a.run with
    | error e => rfl
    | ok s =>
      show ((ofOperand v).map (s ++ ·)).map scalars = _
      cases ofOperand v with
      | error e => rfl
      | ok t => exact congrArg Except.ok (scalars_append s t)
  | joinedAfter v a iha =>
    rw [Construction.run, Construction.view, ← iha, ← map_scalars_ofOperand]
    cases a.run with
    | error e => rfl
    | ok s =>
      show ((ofOperand v).map (· ++ s)).map scalars = _
      cases ofOperand v with
      | error e => rfl
      | ok t => exact congrArg Except.ok (scalars_append t s)
  | replaced a index scalar iha =>
    rw [Construction.run, Construction.view, ← iha]
    cases a.run with
    | error e => rfl
    | ok s => exact map_scalars_replacedAtValue s index scalar

/-! ## The refinement -/

/-- **A script string refines the list of its scalars.** Whatever a construction makes represents
the list that it means; and on any two strings with their lists, joining, reading, replacing and
the search for bytes do what the lists say, at every index and for every scalar. -/
theorem construction_refines_scalars :
    (∀ (b : Construction) (s : ScalarString), b.run = .ok s →
      ∃ xs, b.view = .ok xs ∧ s.Represents xs ∧
        ∀ x ∈ xs, x.toNat ≤ 0x10FFFF ∧ ¬ (0xD800 ≤ x.toNat ∧ x.toNat ≤ 0xDFFF)) ∧
    (∀ (b : Construction) (e : StringFault), b.run = .error e ↔ b.view = .error e) ∧
    (∀ (s t : ScalarString) (xs ys : List Char), s.Represents xs → t.Represents ys →
      ∃ u, s.joined (.string t) = .ok u ∧ u.Represents (xs ++ ys)) ∧
    (∀ (s : ScalarString) (xs : List Char) (i : Int), s.Represents xs →
      s.scalarAtValue (.int i) =
        if h : 0 ≤ i ∧ i < xs.length then .ok (xs.get ⟨i.toNat, by omega⟩)
        else .error (.indexOutOfRange i xs.length)) ∧
    (∀ (s : ScalarString) (xs : List Char) (i : Int) (v : Value) (c : Char), s.Represents xs →
      v.scalar = .ok c →
      (0 ≤ i ∧ i < xs.length →
        ∃ u, s.replacedAtValue (.int i) v = .ok u ∧ u.Represents (xs.set i.toNat c)) ∧
      (¬ (0 ≤ i ∧ i < xs.length) →
        s.replacedAtValue (.int i) v = .error (.indexOutOfRange i xs.length))) ∧
    (∀ (s : ScalarString) (xs : List Char) (i : Nat) (hi : i < xs.length), s.Represents xs →
      ∃ span, Utf8.span? s.bytes i = some span ∧
        (s.bytes.take span.2).drop span.1 = String.utf8EncodeChar xs[i]) := by
  refine ⟨fun b s h => ?_, fun b e => ?_, fun s t xs ys hs ht => ?_, fun s xs i hs => ?_,
    fun s xs i v c hs hv => ⟨fun h => ?_, fun h => ?_⟩, fun s xs i hi hs => exists_span hs hi⟩
  · have hview := map_scalars_run b
    rw [h] at hview
    exact ⟨s.scalars, hview.symm, s.represents_scalars, fun x _ => toNat_char_range x⟩
  · rw [← map_scalars_run, Except.map_eq_error_iff]
  · exact ⟨s ++ t, joined_string s t, hs.append ht⟩
  · obtain rfl := hs.scalars
    exact scalarAtValue_int s i
  · obtain rfl := hs.scalars
    refine ⟨_, ?_, represents_of_scalars_eq (scalars_ofScalars _)⟩
    rw [replacedAtValue_int, if_pos h, hv]
    rfl
  · obtain rfl := hs.scalars
    rw [replacedAtValue_int, if_neg h]

/-- The refinement at "ab", built from host text and a value, with its second scalar replaced by one
of four bytes. -/
theorem represents_widened :
    (∃ xs, (Construction.joined (.ofText (Text.of "a")) (.text (Text.of "b"))).view = .ok xs ∧
      (ofScalars ['a', 'b']).Represents xs) ∧
    (∃ u, (ofScalars ['a', 'b']).joined (.string (ofScalars ['é'])) = .ok u ∧
      u.Represents ['a', 'b', 'é']) ∧
    (ofScalars ['a', 'b']).scalarAtValue (.int 1) = .ok 'b' ∧
    (∃ u, (ofScalars ['a', 'b']).replacedAtValue (.int 1) (.int 0x1F603) = .ok u ∧
      u.Represents ['a', '😃']) ∧
    (ofScalars ['a', 'b']).replacedAtValue (.int 2) (.int 0x1F603) =
      .error (.indexOutOfRange 2 2) ∧
    ∃ span, Utf8.span? (ofScalars ['a', 'b']).bytes 1 = some span := by
  obtain ⟨hrun, -, hjoin, hread, hreplace, hspan⟩ := construction_refines_scalars
  have hs : (ofScalars ['a', 'b']).Represents ['a', 'b'] := represents_of_scalars_eq rfl
  have ht : (ofScalars ['é']).Represents ['é'] := represents_of_scalars_eq rfl
  have hc : (Value.int 0x1F603).scalar = .ok '😃' := rfl
  obtain ⟨xs, hview, hxs, -⟩ :=
    hrun (.joined (.ofText (Text.of "a")) (.text (Text.of "b"))) (ofScalars ['a', 'b']) rfl
  obtain ⟨span, hfound, -⟩ := hspan _ _ 1 (by decide) hs
  exact ⟨⟨xs, hview, hxs⟩, hjoin _ _ _ _ hs ht, hread _ _ 1 hs,
    (hreplace _ _ 1 _ _ hs hc).1 (by decide), (hreplace _ _ 2 _ _ hs hc).2 (by decide),
    span, hfound⟩

end ScalarScript.ScalarString
