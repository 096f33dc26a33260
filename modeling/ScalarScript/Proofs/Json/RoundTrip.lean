import ScalarScript.Proofs.Document.Restored
import ScalarScript.Proofs.Json.Strings
import ScalarScript.Proofs.Text.Decimal

/-!
# JSON that is read back

Reading takes from a text exactly what was written for a value, as long as what follows ends a
value: a comma, a closing bracket, or nothing. The steps it may take are as many as there are code
points in the text, and every part of a value is written with fewer.

Results:
* `atom?_ofInt`: numbers are read back.
* `Reads`, `items_join`, `fields_join`: values are read back inside arrays and objects.
* `read_write`: data is read back with its fields sorted and the surrogates of its texts joined.
* **`roundtrip_of_parse`**: so is every script that is parsed, and its JSON is in ASCII.
-/

namespace ScalarScript.Json

/-- Whether nothing follows, or what ends a value inside another. -/
def endsValue (t : Text) : Bool := t.head?.all fun p => p.is ',' || p.is ']' || p.is '\x7d'

/-! ## Numbers -/

section Numbers

variable {rest : Text}

theorem endsValue_cases (h : endsValue rest = true) :
    rest = [] ∨ ∃ c behind, rest = .scalar c :: behind ∧ c ∈ [',', ']', '\x7d'] := by
  cases rest with
  | nil => exact .inl rfl
  | cons p behind =>
    have hp : p.is ',' = true ∨ p.is ']' = true ∨ p.is '\x7d' = true := by
      simpa [endsValue, or_assoc] using h
    simp only [CodePoint.is, beq_iff_eq] at hp
    rcases hp with rfl | rfl | rfl <;> exact .inr ⟨_, behind, rfl, by decide⟩

theorem notDigit_of_endsValue (h : endsValue rest = true) :
    ∀ p ∈ rest.head?, p.isDigit = false := by
  obtain rfl | ⟨c, behind, rfl, hc⟩ := endsValue_cases h
  · exact nofun
  · rintro p ⟨⟩
    simp only [List.mem_cons, List.not_mem_nil, or_false] at hc
    rcases hc with rfl | rfl | rfl <;> rfl

theorem fractionPart_of_endsValue (h : endsValue rest = true) : fractionPart rest = ([], rest) := by
  obtain rfl | ⟨c, behind, rfl, hc⟩ := endsValue_cases h
  · rfl
  · simp only [List.mem_cons, List.not_mem_nil, or_false] at hc
    rcases hc with rfl | rfl | rfl <;> rfl

theorem exponentPart_of_endsValue (h : endsValue rest = true) :
    exponentPart rest = (none, rest) := by
  obtain rfl | ⟨c, behind, rfl, hc⟩ := endsValue_cases h
  · rfl
  · simp only [List.mem_cons, List.not_mem_nil, or_false] at hc
    rcases hc with rfl | rfl | rfl <;> rfl

theorem wholePart?_ofNat (n : Nat) (h : endsValue rest = true) :
    wholePart? (Text.ofNat n ++ rest) = some (Text.ofNat n, rest) := by
  obtain ⟨-, hn⟩ | ⟨p, behind, hn, hdigit, hzero⟩ := Text.ofNat_eq_cons n
  · rw [hn]
    rfl
  · have hdigits : digits (Text.ofNat n ++ rest) = Text.ofNat n :=
      Text.takeWhile_ofNat n (notDigit_of_endsValue h)
    have hdrop : (Text.ofNat n ++ rest).drop (Text.ofNat n).length = rest := List.drop_left
    rw [hn] at hdigits hdrop ⊢
    show (if p.is '0' then some ([p], behind ++ rest) else if p.isDigit then
      some (digits (p :: behind ++ rest),
        (p :: behind ++ rest).drop (digits (p :: behind ++ rest)).length) else none) = _
    rw [hzero, hdigit, hdigits, hdrop]
    rfl

theorem unsigned?_ofNat (negative : Bool) (n : Nat) (h : endsValue rest = true) :
    unsigned? negative (Text.ofNat n ++ rest) =
      some (.int (if negative then -(n : Int) else n), rest) := by
  rw [unsigned?, wholePart?_ofNat n h]
  simp only [Option.bind_eq_bind, Option.bind_some, fractionPart_of_endsValue h,
    exponentPart_of_endsValue h, Text.decimalValue_ofNat]
  rfl

theorem afterWord?_eq_none {word : String} {p : CodePoint} {t : Text}
    (h : (Text.of word).head?.any (· != p) = true) : afterWord? word (p :: t) = none := by
  unfold afterWord? Text.startsWith
  cases hw : Text.of word with
  | nil =>
    rw [hw] at h
    cases h
  | cons q more =>
    rw [hw] at h
    have hne : (q == p) = false := by simpa using h
    rw [List.isPrefixOf_cons_cons, hne, Bool.false_and, if_neg Bool.false_ne_true]

/-- What begins a number begins no word. -/
theorem atom?_eq_number? {p : CodePoint} {t : Text} (hp : Text.BeginsNumber p) :
    atom? (p :: t) = number? (p :: t) := by
  have hall : ∀ w ∈ words, ∃ c more, Text.of w.1 = .scalar c :: more ∧
      ((CodePoint.scalar c).isDigit = false ∧ c ≠ '-') := by
    simp only [words, List.forall_mem_cons]
    exact ⟨⟨_, _, rfl, by decide⟩, ⟨_, _, rfl, by decide⟩, ⟨_, _, rfl, by decide⟩,
      ⟨_, _, rfl, by decide⟩, ⟨_, _, rfl, by decide⟩, nofun⟩
  have hnone : (words.findSome? fun w => (afterWord? w.1 (p :: t)).map fun rest => (w.2, rest)) =
      none := by
    refine List.findSome?_eq_none_iff.mpr fun w hw => ?_
    obtain ⟨c, more, hword, hc⟩ := hall w hw
    have hne : CodePoint.scalar c ≠ p := by
      rintro rfl
      have := hp.is_eq_false hc
      simp [CodePoint.is] at this
    rw [afterWord?_eq_none (by rw [hword]; simpa using hne)]
    rfl
  rw [atom?, hnone]

theorem number?_of_isDigit {p : CodePoint} {t : Text} (hp : p.isDigit = true) :
    number? (p :: t) = unsigned? false (p :: t) := by
  unfold number?
  split
  · next heq =>
    cases heq
    cases hp
  · rfl

theorem number?_minus {t : Text} (h : afterWord? "Infinity" t = none) :
    number? (.scalar '-' :: t) = unsigned? true t := by
  unfold number?
  simp only [h]

/-- Integers are read back. -/
theorem atom?_ofInt (n : Int) (h : endsValue rest = true) :
    atom? (Text.ofInt n ++ rest) = some (.int n, rest) := by
  cases n with
  | ofNat n =>
    have hread : unsigned? false (Text.ofNat n ++ rest) = some (.int n, rest) :=
      unsigned?_ofNat false n h
    obtain ⟨p, behind, hn, hdigit⟩ := Text.exists_ofNat n
    show atom? (Text.ofNat n ++ rest) = _
    rw [hn] at hread ⊢
    rw [List.cons_append] at hread ⊢
    rw [atom?_eq_number? (.inl hdigit), number?_of_isDigit hdigit]
    exact hread
  | negSucc n =>
    have hread : unsigned? true (Text.ofNat (n + 1) ++ rest) = some (.int (.negSucc n), rest) :=
      unsigned?_ofNat true (n + 1) h
    have hinfinity : afterWord? "Infinity" (Text.ofNat (n + 1) ++ rest) = none := by
      obtain ⟨p, behind, hn, hdigit⟩ := Text.exists_ofNat (n + 1)
      have hne : CodePoint.scalar 'I' ≠ p := by
        rintro rfl
        cases hdigit
      have hword : (Text.of "Infinity").head?.any (· != p) = true := by
        show (CodePoint.scalar 'I' != p) = true
        simpa using hne
      rw [hn]
      exact afterWord?_eq_none hword
    exact (atom?_eq_number? (.inr rfl)).trans ((number?_minus hinfinity).trans hread)

end Numbers

/-! ## Arrays and objects -/

/-- Whether what is written for a datum is read as the restored datum, the surrogates of its texts
joined, in as many steps as it has code points, in front of everything that ends a value. -/
def Reads (d : Datum) : Prop :=
  ∀ (bound : Nat) (rest : Text), (write d).length ≤ bound → endsValue rest = true →
    value bound (write d ++ rest) = some (d.restored joined, rest)

/-- Whether a text begins a value: with neither a blank nor a closing bracket. -/
def beginsValue (t : Text) : Bool := t.head?.any fun p => !isBlank p && !p.is ']'

theorem exists_of_beginsValue {t : Text} (h : beginsValue t = true) :
    ∃ p behind, t = p :: behind ∧ isBlank p = false ∧ p.is ']' = false := by
  cases t with
  | nil => cases h
  | cons p behind =>
    have hp : isBlank p = false ∧ p.is ']' = false := by simpa [beginsValue] using h
    exact ⟨p, behind, rfl, hp.1, hp.2⟩

theorem skipBlanks_of_beginsValue {t : Text} (h : beginsValue t = true) (rest : Text) :
    skipBlanks (t ++ rest) = t ++ rest := by
  obtain ⟨p, behind, rfl, hp, -⟩ := exists_of_beginsValue h
  rw [skipBlanks, List.cons_append, List.dropWhile_cons, hp, if_neg Bool.false_ne_true]

theorem skipBlanks_cons {p : CodePoint} (h : isBlank p = false) (rest : Text) :
    skipBlanks (p :: rest) = p :: rest := by
  rw [skipBlanks, List.dropWhile_cons, h, if_neg Bool.false_ne_true]

theorem beginsValue_join {t : Text} (h : beginsValue t = true) (separator : Text)
    (ts : List Text) : beginsValue (Text.join separator (t :: ts)) = true := by
  obtain ⟨p, behind, rfl, hp, hq⟩ := exists_of_beginsValue h
  cases ts with
  | nil => exact h
  | cons u us =>
    show beginsValue (p :: (behind ++ separator ++ Text.join separator (u :: us))) = true
    simp [beginsValue, hp, hq]

/-- Items between brackets are read back. -/
theorem items_join {ds : List Datum} (hne : ds ≠ []) (hr : ∀ d ∈ ds, Reads d)
    (hb : ∀ d ∈ ds, beginsValue (write d) = true) {bound : Nat} {rest : Text}
    (hbound : (Text.join (Text.of ", ") (ds.map write)).length + 1 ≤ bound) :
    items bound (Text.join (Text.of ", ") (ds.map write) ++ .scalar ']' :: rest) =
      some (ds.map (Datum.restored joined), rest) := by
  induction ds generalizing bound with
  | nil => exact absurd rfl hne
  | cons d ds ih =>
    obtain ⟨hd, hds⟩ := List.forall_mem_cons.mp hr
    obtain ⟨-, hbs⟩ := List.forall_mem_cons.mp hb
    obtain ⟨bound, rfl⟩ : ∃ b, bound = b + 1 := ⟨bound - 1, by omega⟩
    cases ds with
    | nil =>
      have hlen : (write d).length ≤ bound := Nat.le_of_succ_le_succ hbound
      have hread := hd bound (.scalar ']' :: rest) hlen rfl
      have hskip : skipBlanks (.scalar ']' :: rest) = .scalar ']' :: rest :=
        skipBlanks_cons rfl rest
      show items (bound + 1) (write d ++ .scalar ']' :: rest) = _
      rw [items, hread]
      simp only [hskip]
      rfl
    | cons e ds =>
      have hjoin : Text.join (Text.of ", ") ((d :: e :: ds).map write) =
          write d ++ Text.of ", " ++ Text.join (Text.of ", ") ((e :: ds).map write) := rfl
      have hcomma : (Text.of ", ").length = 2 := rfl
      rw [hjoin, List.length_append, List.length_append, hcomma] at hbound
      have hread := hd bound (Text.of ", " ++ (Text.join (Text.of ", ") ((e :: ds).map write) ++
        .scalar ']' :: rest)) (by omega) rfl
      have hbegins : beginsValue (Text.join (Text.of ", ") ((e :: ds).map write)) = true :=
        beginsValue_join (hbs e List.mem_cons_self) _ _
      have hskip : skipBlanks (.scalar ' ' :: (Text.join (Text.of ", ") ((e :: ds).map write) ++
          .scalar ']' :: rest)) =
          Text.join (Text.of ", ") ((e :: ds).map write) ++ .scalar ']' :: rest :=
        skipBlanks_of_beginsValue hbegins _
      have hshorter : (Text.join (Text.of ", ") ((e :: ds).map write)).length + 1 ≤ bound := by
        omega
      have htail := ih (by simp) hds hbs hshorter
      rw [hjoin, List.append_assoc, List.append_assoc, items, hread]
      show (items bound (skipBlanks (.scalar ' ' :: (Text.join (Text.of ", ")
        ((e :: ds).map write) ++ .scalar ']' :: rest)))).map _ = _
      rw [hskip, htail]
      rfl

/-- A field as it is written. -/
def fieldText (field : Text × Datum) : Text := string field.1 ++ Text.of ": " ++ write field.2

theorem length_fieldText (field : Text × Datum) :
    (write field.2).length + 4 ≤ (fieldText field).length := by
  have hsep : (Text.of ": ").length = 2 := rfl
  simp only [fieldText, string, List.length_append, List.length_cons, hsep]
  omega

/-- A field is read back: what follows it decides how it goes on. -/
theorem fields_fieldText {field : Text × Datum} (hn : field.1.IsScalars) (hr : Reads field.2)
    (hb : beginsValue (write field.2) = true) {seen : List (Text × Datum)}
    (hseen : field.1 ∉ seen.map Prod.fst) {bound : Nat} {rest behind : Text} {q : CodePoint}
    (hbound : (fieldText field).length ≤ bound) (hrest : endsValue rest = true)
    (hq : skipBlanks rest = q :: behind) :
    fields (bound + 1) seen (fieldText field ++ rest) =
      if q.is '\x7d' then some (seen ++ [(field.1, field.2.restored joined)], behind)
      else if q.is ',' then
        fields bound (seen ++ [(field.1, field.2.restored joined)]) (skipBlanks behind)
      else none := by
  have hlength := length_fieldText field
  have hstring := string?_string hn (.scalar ':' :: .scalar ' ' :: (write field.2 ++ rest))
  have hread := hr bound rest (by omega) hrest
  have hskip : skipBlanks (.scalar ' ' :: (write field.2 ++ rest)) = write field.2 ++ rest :=
    skipBlanks_of_beginsValue hb rest
  have htext : fieldText field ++ rest = .scalar '"' :: (field.1.flatMap escaped ++
      .scalar '"' :: .scalar ':' :: .scalar ' ' :: (write field.2 ++ rest)) := by
    simp [fieldText, string, Text.of]
  have hquote : (CodePoint.scalar '"').is '"' = true := by decide
  have hcolon : (CodePoint.scalar ':').is ':' = true := by decide
  have hbehind : skipBlanks (.scalar ':' :: .scalar ' ' :: (write field.2 ++ rest)) =
      .scalar ':' :: .scalar ' ' :: (write field.2 ++ rest) := skipBlanks_cons rfl _
  rw [htext]
  simp only [fields, hquote, Bool.not_true, Bool.false_eq_true, if_false, hstring, hbehind, hcolon,
    hskip, hread, hq, Datum.setField_of_notMem hseen]

/-- Fields between braces are read back, behind those already read. -/
theorem fields_join {fs : List (Text × Datum)} (hne : fs ≠ []) (hn : ∀ f ∈ fs, f.1.IsScalars)
    (hr : ∀ f ∈ fs, Reads f.2) (hb : ∀ f ∈ fs, beginsValue (write f.2) = true)
    {seen : List (Text × Datum)} (hd : ((seen ++ fs).map Prod.fst).Nodup) {bound : Nat}
    {rest : Text}
    (hbound : (Text.join (Text.of ", ") (fs.map fieldText)).length + 1 ≤ bound) :
    fields bound seen (Text.join (Text.of ", ") (fs.map fieldText) ++ .scalar '\x7d' :: rest) =
      some (seen ++ fs.map (fun f => (f.1, f.2.restored joined)), rest) := by
  induction fs generalizing bound seen with
  | nil => exact absurd rfl hne
  | cons f fs ih =>
    obtain ⟨hname, hns⟩ := List.forall_mem_cons.mp hn
    obtain ⟨hread, hrs⟩ := List.forall_mem_cons.mp hr
    obtain ⟨hbegin, hbs⟩ := List.forall_mem_cons.mp hb
    obtain ⟨bound, rfl⟩ : ∃ b, bound = b + 1 := ⟨bound - 1, by omega⟩
    have hseen : f.1 ∉ seen.map Prod.fst := Datum.notMem_of_nodup hd
    cases fs with
    | nil =>
      have hskip : skipBlanks (.scalar '\x7d' :: rest) = .scalar '\x7d' :: rest :=
        skipBlanks_cons rfl rest
      have hlen : (fieldText f).length ≤ bound := Nat.le_of_succ_le_succ hbound
      show fields (bound + 1) seen (fieldText f ++ .scalar '\x7d' :: rest) = _
      rw [fields_fieldText hname hread hbegin hseen hlen rfl hskip]
      rfl
    | cons g fs =>
      have hjoin : Text.join (Text.of ", ") ((f :: g :: fs).map fieldText) =
          fieldText f ++ Text.of ", " ++ Text.join (Text.of ", ") ((g :: fs).map fieldText) := rfl
      have hcomma : (Text.of ", ").length = 2 := rfl
      rw [hjoin, List.length_append, List.length_append, hcomma] at hbound
      have hbegins : beginsValue (Text.join (Text.of ", ") ((g :: fs).map fieldText)) = true :=
        beginsValue_join rfl _ _
      have hskip : skipBlanks (.scalar ' ' :: (Text.join (Text.of ", ") ((g :: fs).map fieldText) ++
          .scalar '\x7d' :: rest)) =
          Text.join (Text.of ", ") ((g :: fs).map fieldText) ++ .scalar '\x7d' :: rest :=
        skipBlanks_of_beginsValue hbegins _
      have hnext : ((seen ++ [(f.1, f.2.restored joined)] ++ g :: fs).map Prod.fst).Nodup := by
        simpa using hd
      have hshorter : (Text.join (Text.of ", ") ((g :: fs).map fieldText)).length + 1 ≤ bound := by
        omega
      have htail := ih (by simp) hns hrs hbs hnext hshorter
      rw [hjoin, List.append_assoc, List.append_assoc,
        fields_fieldText hname hread hbegin hseen (by omega) rfl rfl]
      show fields bound (seen ++ [(f.1, f.2.restored joined)]) (skipBlanks (.scalar ' ' ::
        (Text.join (Text.of ", ") ((g :: fs).map fieldText) ++ .scalar '\x7d' :: rest))) = _
      rw [hskip, htail, List.append_assoc]
      rfl

/-! ## Values -/

theorem itemTexts_eq (items : List Datum) : write.itemTexts items = items.map write := by
  induction items with
  | nil => rfl
  | cons d rest ih => rw [write.itemTexts, ih, List.map_cons]

theorem fieldTexts_eq (fields : List (Text × Datum)) :
    write.fieldTexts fields = fields.map fun field => (field.1, write field.2) := by
  induction fields with
  | nil => rfl
  | cons field rest ih => rw [write.fieldTexts, ih, List.map_cons]

theorem write_array (items : List Datum) :
    write (.array items) =
      .scalar '[' :: (Text.join (Text.of ", ") (items.map write) ++ [.scalar ']']) := by
  rw [write, itemTexts_eq]
  rfl

theorem write_object (fields : List (Text × Datum)) :
    write (.object fields) = .scalar '\x7b' ::
      (Text.join (Text.of ", ") ((sortFields fields).map fieldText) ++ [.scalar '\x7d']) := by
  rw [write, fieldTexts_eq, sortFields_map, List.map_map]
  rfl

theorem beginsValue_ofInt (n : Int) : beginsValue (Text.ofInt n) = true := by
  obtain ⟨p, behind, hn, hp⟩ := Text.exists_ofInt n
  have hblank : isBlank p = false := by
    rw [isBlank, hp.is_eq_false (by decide), hp.is_eq_false (by decide),
      hp.is_eq_false (by decide), hp.is_eq_false (by decide)]
    rfl
  have hbracket : p.is ']' = false := hp.is_eq_false (by decide)
  simp [beginsValue, hn, hblank, hbracket]

section Values

variable {P : Text → Prop} {d : Datum}

theorem beginsValue_write (h : d.Regular P) : beginsValue (write d) = true := by
  cases h with
  | null => rfl
  | bool b => cases b <;> rfl
  | int n => exact beginsValue_ofInt n
  | text ht => rfl
  | array _ =>
    rw [write_array]
    rfl
  | object _ _ _ =>
    rw [write_object]
    rfl

theorem exists_bound {t : Text} {bound : Nat} (ht : beginsValue t = true) (h : t.length ≤ bound) :
    ∃ b, bound = b + 1 := by
  obtain ⟨p, behind, rfl, -, -⟩ := exists_of_beginsValue ht
  exact ⟨bound - 1, by simp at h; omega⟩

theorem reads_null : Reads .null := by
  intro bound rest hbound hrest
  obtain ⟨b, rfl⟩ := exists_bound rfl hbound
  rfl

theorem reads_bool (c : Bool) : Reads (.bool c) := by
  intro bound rest hbound hrest
  obtain ⟨b, rfl⟩ := exists_bound (by cases c <;> rfl) hbound
  cases c <;> rfl

theorem reads_int (n : Int) : Reads (.int n) := by
  intro bound rest hbound hrest
  have hread := atom?_ofInt n hrest
  obtain ⟨b, rfl⟩ := exists_bound (beginsValue_ofInt n) hbound
  obtain ⟨p, behind, hn, hp⟩ := Text.exists_ofInt n
  have hquote : p.is '"' = false := hp.is_eq_false (by decide)
  have hbracket : p.is '[' = false := hp.is_eq_false (by decide)
  have hbrace : p.is '\x7b' = false := hp.is_eq_false (by decide)
  show value (b + 1) (Text.ofInt n ++ rest) = some (.int n, rest)
  rw [hn] at hread ⊢
  rw [List.cons_append] at hread ⊢
  rw [value, hquote, hbracket, hbrace]
  exact hread

theorem reads_text (t : Text) : Reads (.text t) := by
  intro bound rest hbound hrest
  obtain ⟨b, rfl⟩ := exists_bound rfl hbound
  have hstring := string?_joined t rest
  have htext : write (.text t) ++ rest = .scalar '"' :: (t.flatMap escaped ++
      .scalar '"' :: rest) := by
    simp [write, string]
  rw [htext, value]
  show (string? (t.flatMap escaped ++ .scalar '"' :: rest)).map _ = _
  rw [hstring]
  rfl

theorem value_items {b : Nat} {t rest : Text} {ds : List Datum} (ht : beginsValue t = true)
    (h : items b t = some (ds, rest)) :
    value (b + 1) (.scalar '[' :: t) = some (.array ds, rest) := by
  obtain ⟨p, behind, rfl, hblank, hbracket⟩ := exists_of_beginsValue ht
  have hskip : skipBlanks (p :: behind) = p :: behind := skipBlanks_cons hblank behind
  have hquote : (CodePoint.scalar '[').is '"' = false := by decide
  have hopening : (CodePoint.scalar '[').is '[' = true := by decide
  simp only [value, hquote, hopening, hskip, hbracket, Bool.false_eq_true, if_false, if_true, h,
    Option.map_some]

theorem value_fields {b : Nat} {t rest : Text} {fs : List (Text × Datum)}
    (h : fields b [] (.scalar '"' :: t) = some (fs, rest)) :
    value (b + 1) (.scalar '\x7b' :: .scalar '"' :: t) = some (.object fs, rest) := by
  rw [value]
  show (fields b [] (.scalar '"' :: t)).map
    (fun r : List (Text × Datum) × Text => (Datum.object r.1, r.2)) = _
  rw [h]
  rfl

theorem reads_array {ds : List Datum} (hb : ∀ d ∈ ds, beginsValue (write d) = true)
    (hr : ∀ d ∈ ds, Reads d) : Reads (.array ds) := by
  intro bound rest hbound hrest
  rw [write_array] at hbound ⊢
  obtain ⟨b, rfl⟩ := exists_bound rfl hbound
  rw [Datum.restored, Datum.restoredItems_eq, List.cons_append, List.append_assoc]
  cases ds with
  | nil => rfl
  | cons d ds =>
    have hbegins : beginsValue (Text.join (Text.of ", ") ((d :: ds).map write) ++
        .scalar ']' :: rest) = true := by
      have hjoin := beginsValue_join (hb d List.mem_cons_self) (Text.of ", ") (ds.map write)
      obtain ⟨p, behind, hp, hblank, hbracket⟩ := exists_of_beginsValue hjoin
      rw [List.map_cons, hp]
      simp [beginsValue, hblank, hbracket]
    exact value_items hbegins (items_join (by simp) hr hb (by simpa using hbound))

theorem reads_object {fs : List (Text × Datum)} (hd : (fs.map Prod.fst).Nodup)
    (hn : ∀ f ∈ fs, f.1.IsScalars) (hb : ∀ f ∈ fs, beginsValue (write f.2) = true)
    (hr : ∀ f ∈ fs, Reads f.2) : Reads (.object fs) := by
  have hperm := sortFields_perm fs
  have hmem : ∀ f ∈ sortFields fs, f ∈ fs := fun f hf => hperm.mem_iff.mp hf
  intro bound rest hbound hrest
  rw [write_object] at hbound ⊢
  obtain ⟨b, rfl⟩ := exists_bound rfl hbound
  rw [Datum.restored, Datum.restoredFields_eq, sortFields_map, List.cons_append,
    List.append_assoc]
  have hsorted : ((([] : List (Text × Datum)) ++ sortFields fs).map Prod.fst).Nodup :=
    (hperm.map Prod.fst).nodup_iff.mpr hd
  cases hs : sortFields fs with
  | nil => rfl
  | cons f gs =>
    rw [hs] at hmem hsorted hbound
    have hlength : (Text.join (Text.of ", ") ((f :: gs).map fieldText)).length + 1 ≤ b := by
      simpa using hbound
    have hfields := @fields_join _ (by simp) (fun f hf => hn f (hmem f hf))
      (fun f hf => hr f (hmem f hf)) (fun f hf => hb f (hmem f hf)) _ hsorted _ rest hlength
    -- the text between the braces begins with the quote of the first name
    obtain ⟨t, ht⟩ : ∃ t, Text.join (Text.of ", ") ((f :: gs).map fieldText) ++
        .scalar '\x7d' :: rest = .scalar '"' :: t := by
      cases gs <;> exact ⟨_, rfl⟩
    rw [ht] at hfields
    rw [List.singleton_append, ht]
    exact value_fields hfields

/-- Regular data is read back. -/
theorem reads_of_regular (hP : ∀ t, P t → t.IsScalars) (h : d.Regular P) : Reads d := by
  induction h with
  | null => exact reads_null
  | bool c => exact reads_bool c
  | int n => exact reads_int n
  | text _ => exact reads_text _
  | array hds ih => exact reads_array (fun d hd => beginsValue_write (hds d hd)) ih
  | object hd hn hfs ih =>
    exact reads_object hd (fun f hf => hP _ (hn f hf)) (fun f hf => beginsValue_write (hfs f hf)) ih

/-- **Data is read back** with its fields sorted and the surrogates of its texts joined. -/
theorem read_write (hb : beginsValue (write d) = true) (h : Reads d) :
    read (write d) = some (d.restored joined) := by
  have hskip : skipBlanks (write d) = write d := by
    simpa using skipBlanks_of_beginsValue hb []
  have hread := h ((write d).length + 1) [] (Nat.le_succ _) rfl
  rw [List.append_nil] at hread
  rw [read, hskip, hread]
  rfl

/-! ## ASCII -/

theorem ascii_join {ts : List Text} (h : ∀ t ∈ ts, ∀ p ∈ t, p.toNat < 0x80) :
    ∀ p ∈ Text.join (Text.of ", ") ts, p.toNat < 0x80 := by
  have hsep : ∀ p ∈ Text.of ", ", p.toNat < 0x80 := by decide
  intro p hp
  rcases Text.mem_join hp with hp | ⟨t, ht, hp⟩
  · exact hsep p hp
  · exact h t ht p hp

theorem ascii_of_isDigit {p : CodePoint} (h : p.isDigit = true) : p.toNat < 0x80 :=
  CodePoint.ascii_of_continuesName (CodePoint.continuesName_of_isDigit h)

theorem ascii_ofInt (n : Int) : ∀ p ∈ Text.ofInt n, p.toNat < 0x80 := by
  cases n with
  | ofNat n => exact fun p hp => ascii_of_isDigit (Text.isDigit_of_mem_ofNat hp)
  | negSucc n =>
    exact List.forall_mem_cons.mpr ⟨by decide, fun p hp =>
      ascii_of_isDigit (Text.isDigit_of_mem_ofNat hp)⟩

/-- Regular data is written in ASCII. -/
theorem ascii_write (h : d.Regular P) : ∀ p ∈ write d, p.toNat < 0x80 := by
  induction h with
  | null => decide
  | bool b => cases b <;> decide
  | int n => exact ascii_ofInt n
  | text ht => exact ascii_string _
  | array _ ih =>
    have hitems := ascii_join fun t ht => by
      obtain ⟨d, hd, rfl⟩ := List.mem_map.mp ht
      exact ih d hd
    rw [write_array]
    exact List.forall_mem_cons.mpr ⟨by decide, List.forall_mem_append.mpr ⟨hitems, by decide⟩⟩
  | @object fields _ _ _ ih =>
    have hfields : ∀ p ∈ Text.join (Text.of ", ") ((sortFields fields).map fieldText),
        p.toNat < 0x80 := by
      refine ascii_join fun t ht => ?_
      obtain ⟨f, hf, rfl⟩ := List.mem_map.mp ht
      have hmem : f ∈ fields := (sortFields_perm fields).mem_iff.mp hf
      exact List.forall_mem_append.mpr ⟨List.forall_mem_append.mpr
        ⟨ascii_string f.1, by decide⟩, ih f hmem⟩
    rw [write_object]
    exact List.forall_mem_cons.mpr ⟨by decide, List.forall_mem_append.mpr ⟨hfields, by decide⟩⟩

end Values

/-! ## Scripts -/

theorem restoring_joined : Restoring joined id where
  ascii t h := joined_eq_self fun p hp => by
    cases p with
    | scalar c => rfl
    | surrogate i =>
      have hlow : 0xD800 + i.1 < 0x80 := h _ hp
      omega
  string s := joined_eq_self (.string s)

/-- The document of well-formed statements is read back under any name. -/
theorem reads_toDatum {ss : List Statement} (hs : ∀ s ∈ ss, s.WellFormed) (name : Text) :
    Reads (Script.toDatum ⟨ss, .text name⟩) := by
  have hnames : ∀ t ∈ Document.fieldNames, t.IsScalars := by
    unfold Text.IsScalars
    decide
  have hstatements : (Datum.array (ss.map Statement.toDatum)).Regular (· ∈ Document.fieldNames) :=
    .array fun d hd => by
      obtain ⟨s, hmem, rfl⟩ := List.mem_map.mp hd
      exact (hs s hmem).regular_toDatum
  refine reads_object ?_ ?_ ?_ ?_ <;>
    simp only [List.map_cons, List.map_nil, List.forall_mem_cons]
  · decide
  · exact ⟨hnames _ (by decide), hnames _ (by decide), nofun⟩
  · exact ⟨rfl, beginsValue_write hstatements, nofun⟩
  · exact ⟨reads_text name, reads_of_regular hnames hstatements, nofun⟩

/-- The JSON of well-formed statements and a name is read back as them, with the surrogates of the
name joined. -/
theorem ofDatum_read_write_joined {ss : List Statement} (hs : ∀ s ∈ ss, s.WellFormed)
    (name : Text) :
    ∃ d, read (write (Script.toDatum ⟨ss, .text name⟩)) = some d ∧
      Script.ofDatum d = .ok ⟨ss.map (Statement.restored id), .text (joined name)⟩ := by
  have hbegins : beginsValue (write (Script.toDatum ⟨ss, .text name⟩)) = true := by
    rw [Script.toDatum, Datum.ofFields, write_object]
    rfl
  exact ⟨_, read_write hbegins (reads_toDatum hs name),
    Script.ofDatum_restored restoring_joined hs⟩

/-- A name of scalar values is read back as it is. -/
theorem ofDatum_read_write {ss : List Statement} {name : Text} (hs : ∀ s ∈ ss, s.WellFormed)
    (hn : name.IsScalars) :
    ∃ d, read (write (Script.toDatum ⟨ss, .text name⟩)) = some d ∧
      Script.ofDatum d = .ok ⟨ss.map (Statement.restored id), .text name⟩ := by
  have h := ofDatum_read_write_joined hs name
  rwa [joined_eq_self hn] at h

/-- **No script is lost in JSON.** The JSON of a script that is parsed under a name of scalar values
is ASCII, and reading it gives the script without its positions, which is the same script; so two
scripts with the same JSON are the same. -/
theorem roundtrip_of_parse :
    (∀ (source name : Text) (script : Script), name.IsScalars →
      Script.parse source (.text name) = .ok script →
        (∀ p ∈ write script.toDatum, p.toNat < 0x80) ∧
        ∃ d read, Json.read (write script.toDatum) = some d ∧ Script.ofDatum d = .ok read ∧
          read = script.withoutPositions ∧ read.same script = true) ∧
    (∀ (source source' name name' : Text) (script script' : Script), name.IsScalars →
      name'.IsScalars → Script.parse source (.text name) = .ok script →
        Script.parse source' (.text name') = .ok script' →
          write script.toDatum = write script'.toDatum → script.same script' = true) := by
  have hid : ∀ {ss : List Statement}, (∀ s ∈ ss, s.WellFormed) →
      ∀ s ∈ ss, s.restored id = s.withoutPositions := fun hs s hmem => (hs s hmem).restored_id
  constructor
  · intro source name script hn hparse
    obtain ⟨tokens, ss, hscan, hss, rfl⟩ := Grammar.parse_eq_ok_iff.mp hparse
    have hs := wellFormed_ofTokens hscan hss
    obtain ⟨d, hread, hof⟩ := ofDatum_read_write hs hn
    refine ⟨ascii_write (Script.regular_toDatum hs hn), d, _, hread, hof, ?_, ?_⟩
    · exact congrArg (Script.mk · (.text name)) (List.map_congr_left (hid hs))
    · exact (Script.same_restored_iff hs).mpr ⟨hid hs, rfl⟩
  · intro source source' name name' script script' hn hn' hparse hparse' hwrite
    obtain ⟨tokens, ss, hscan, hss, rfl⟩ := Grammar.parse_eq_ok_iff.mp hparse
    obtain ⟨tokens', ts, hscan', hts, rfl⟩ := Grammar.parse_eq_ok_iff.mp hparse'
    have hs := wellFormed_ofTokens hscan hss
    have ht := wellFormed_ofTokens hscan' hts
    obtain ⟨d, hread, hof⟩ := ofDatum_read_write hs hn
    obtain ⟨d', hread', hof'⟩ := ofDatum_read_write ht hn'
    rw [hwrite, hread'] at hread
    cases hread
    rw [hof'] at hof
    injection hof with hscripts
    injection hscripts with hstatements hname
    injection hname with hname
    rw [List.map_congr_left (hid hs), List.map_congr_left (hid ht)] at hstatements
    exact (Script.same_iff hs ht).mpr ⟨hstatements.symm, hname.symm⟩

/-! ### A character of two units -/

/-- A statement that prints a character beyond U+FFFF and one below it, from a column on. -/
def smilePrint (column : Nat) : Grammar.StatementDerivation :=
  .print ⟨⟨.identifier, Text.of "print", ⟨1, column⟩⟩, rfl, rfl⟩
    ⟨⟨.mark .openParen, Text.of "(", ⟨1, column + 5⟩⟩, rfl⟩
    (.expr (.additive (.bare (.operand (.literal ⟨⟨.string (ScalarString.ofScalars ['😀', 'é']),
      Text.of "\"😀é\"", ⟨1, column + 6⟩⟩, rfl⟩) .noSuffix)) .noAddition) .noComparison)
    ⟨⟨.mark .closeParen, Text.of ")", ⟨1, column + 10⟩⟩, rfl⟩

/-- The statement as a script. -/
def smileScript (column : Nat) : Grammar.ScriptDerivation :=
  .statement (smilePrint column) ⟨⟨.mark .semicolon, Text.of ";", ⟨1, column + 11⟩⟩, rfl⟩ .empty

theorem nesting_smileScript (column : Nat) :
    (smileScript column).nesting ≤ Script.nestingLimit := by
  have hone : (smileScript column).nesting = 1 := rfl
  rw [hone, Script.nestingLimit]
  omega

/-- The theorem at a character of two units next to one of one unit, in sources that differ by a
blank. -/
theorem roundtrip_of_smile :
    ∃ script script' : Script,
      Script.parse (Text.of "print(\"😀é\");") (.text Script.defaultName) = .ok script ∧
      Script.parse (Text.of " print(\"😀é\");") (.text Script.defaultName) = .ok script' ∧
      string (Text.of "😀é") = Text.of "\"\\ud83d\\ude00\\u00e9\"" ∧
      (∃ d read, Json.read (write script.toDatum) = some d ∧ Script.ofDatum d = .ok read ∧
        read.same script = true) ∧
      script.same script' = true := by
  have hname : Script.defaultName.IsScalars := by
    unfold Text.IsScalars
    decide
  have hscan : Tokens.scan (Text.of "print(\"😀é\");") =
      .ok ⟨(smileScript 1).tokens, ⟨1, 13⟩⟩ := by decide +kernel
  have hscan' : Tokens.scan (Text.of " print(\"😀é\");") =
      .ok ⟨(smileScript 2).tokens, ⟨1, 14⟩⟩ := by decide +kernel
  have hparse : Script.parse (Text.of "print(\"😀é\");") (.text Script.defaultName) =
      .ok ⟨(smileScript 1).statements, .text Script.defaultName⟩ :=
    Grammar.parse_of_derivation _ _ hscan (nesting_smileScript 1)
  have hparse' : Script.parse (Text.of " print(\"😀é\");") (.text Script.defaultName) =
      .ok ⟨(smileScript 2).statements, .text Script.defaultName⟩ :=
    Grammar.parse_of_derivation _ _ hscan' (nesting_smileScript 2)
  have hstring : string (Text.of "😀é") = Text.of "\"\\ud83d\\ude00\\u00e9\"" := by decide +kernel
  obtain ⟨hroundtrip, hinjective⟩ := roundtrip_of_parse
  obtain ⟨-, d, read, hread, hof, -, hsame⟩ := hroundtrip _ _ _ hname hparse
  have hdatum : Script.toDatum ⟨(smileScript 1).statements, .text Script.defaultName⟩ =
      Script.toDatum ⟨(smileScript 2).statements, .text Script.defaultName⟩ := rfl
  exact ⟨_, _, hparse, hparse', hstring, ⟨d, read, hread, hof, hsame⟩,
    hinjective _ _ _ _ _ _ hname hname hparse hparse' (congrArg write hdatum)⟩

end ScalarScript.Json
