import ScalarScript.Proofs.Literal.Units

/-!
# Where a literal fails

What is no unit, told without the decoder. The front of a text that is not empty is a unit or is
bad, and what is bad about it is settled by the text up to the code point that shows it: the quote,
a surrogate, a key that the table of escapes does not have, the first code point that is no digit,
or the last digit of a number that no scalar has. Text behind that point changes nothing. Only an
escape that ends too early is settled by the end of the literal, and it can be completed.

The decoder stops at the first bad unit. So the text in front of it is all that can be decoded, and
the error stays what it is in front of any text, unless an escape was cut off.

* `IsBadRun width behind kind text`: what is wrong with the digits of an escape.
* `IsBad quote text bad`: what is wrong with the first unit of a text.
* `decodedLengths quote raw`: the lengths of the beginnings of a text that can be decoded.

Results:
* `isUnit_or_isBad`, `unit_eq_error_iff`: a text starts with a unit or is bad, and the decoder
  fails exactly where it is bad.
* `IsBad.append`, `IsBad.eq_of_truncated`, `IsBad.exists_completion`: what a text behind it changes.
* `decodeQuoted_eq_error_iff`: a literal fails at the first unit that is bad.
* **`errors_are_located_and_final`**: where an error is, what it shows, and what can follow it.
-/

namespace ScalarScript.Literal

/-! ## What is no unit -/

/-- A digit of base sixteen, in either case. -/
def IsHexDigit (p : CodePoint) : Prop := ∃ d, p.WritesDigit d

/-- What is wrong with the digits of an escape that takes so many: a code point that is no digit
stands among them, the literal ends before the last of them, or they write the number of no
scalar. -/
inductive IsBadRun (width : Nat) : Text → DecodeError.Kind → Text → Prop
  | digit {run rest : Text} {p : CodePoint} (hrun : ∀ d ∈ run, IsHexDigit d)
    (hlen : run.length < width) (hp : ¬ IsHexDigit p) :
    IsBadRun width (run ++ p :: rest) .malformedEscape (run ++ [p])
  | cut {run : Text} (hrun : ∀ d ∈ run, IsHexDigit d) (hlen : run.length < width) :
    IsBadRun width run .truncatedEscape run
  | number {run rest : Text} {n : Nat} (hlen : run.length = width) (hvalue : run.WritesHex n)
    (hn : ∀ c : Char, c.toNat ≠ n) : IsBadRun width (run ++ rest) .invalidCodePoint run

/-- What is wrong with the first unit of a text, and what shows it. -/
inductive IsBad (quote : Char) : Text → BadUnit → Prop
  | delimiter {rest : Text} :
    IsBad quote (.scalar quote :: rest) ⟨.unescapedDelimiter, [.scalar quote]⟩
  | surrogate {i : Fin 0x800} {rest : Text} :
    IsBad quote (.surrogate i :: rest) ⟨.invalidCodePoint, [.surrogate i]⟩
  | slash : IsBad quote [.scalar '\\'] ⟨.truncatedEscape, [.scalar '\\']⟩
  | key {key : CodePoint} {rest : Text} (hq : key ≠ .scalar quote) (hkey : directive? key = none) :
    IsBad quote (.scalar '\\' :: key :: rest) ⟨.malformedEscape, [.scalar '\\', key]⟩
  | digits {key : Char} {width : Nat} {behind text : Text} {kind : DecodeError.Kind}
    (hq : key ≠ quote) (hkey : (key, width) ∈ digitKeys) (hrun : IsBadRun width behind kind text) :
    IsBad quote (.scalar '\\' :: .scalar key :: behind)
      ⟨kind, .scalar '\\' :: .scalar key :: text⟩

/-! ## Digits -/

theorem isNone_hexDigit?_iff {p : CodePoint} : p.hexDigit?.isNone = true ↔ ¬ IsHexDigit p := by
  rw [← Option.not_isSome, Bool.not_eq_true', ← Bool.not_eq_true, Option.isSome_iff_exists]
  exact not_congr (exists_congr fun d => Text.hexDigit?_eq_some_iff)

theorem exists_writesDigits {run : Text} (h : ∀ d ∈ run, IsHexDigit d) :
    ∃ ds, List.Forall₂ CodePoint.WritesDigit run ds := by
  induction run with
  | nil => exact ⟨[], .nil⟩
  | cons p run ih =>
    obtain ⟨⟨d, hd⟩, hrun⟩ := List.forall_mem_cons.mp h
    obtain ⟨ds, hds⟩ := ih hrun
    exact ⟨d :: ds, .cons hd hds⟩

/-- Digits write a number. -/
theorem exists_writesHex {run : Text} (h : ∀ d ∈ run, IsHexDigit d) : ∃ n, run.WritesHex n := by
  have hreverse : ∀ d ∈ run.reverse, IsHexDigit d := fun d hd => h d (List.mem_reverse.mp hd)
  obtain ⟨ds, hds⟩ := exists_writesDigits hreverse
  exact ⟨Nat.ofDigits 16 ds, ds, hds, rfl⟩

theorem isHexDigit_of_writesHex {run : Text} {n : Nat} (h : run.WritesHex n) :
    ∀ d ∈ run, IsHexDigit d := by
  intro p hp
  have hsome := Text.hexDigit?_of_hexValue? (Text.hexValue?_eq_some_iff.mpr h) p hp
  obtain ⟨d, hd⟩ := Option.isSome_iff_exists.mp hsome
  exact ⟨d, Text.hexDigit?_eq_some_iff.mp hd⟩

theorem findIdx?_eq_none_of_isHexDigit {run : Text} (h : ∀ d ∈ run, IsHexDigit d) :
    run.findIdx? (fun p => p.hexDigit?.isNone) = none := by
  rw [List.findIdx?_eq_none_iff]
  intro p hp
  rw [← Bool.not_eq_true, isNone_hexDigit?_iff, not_not]
  exact h p hp

/-- The first code points of a text are digits, or one of them is the first that is not. -/
theorem digits_or_first (width : Nat) (behind : Text) :
    (∀ d ∈ behind.take width, IsHexDigit d) ∨
      ∃ run p rest, behind = run ++ p :: rest ∧ run.length < width ∧ (∀ d ∈ run, IsHexDigit d) ∧
        ¬ IsHexDigit p := by
  induction width generalizing behind with
  | zero => exact .inl (by simp)
  | succ width ih =>
    cases behind with
    | nil => exact .inl (by simp)
    | cons q behind =>
      by_cases hq : IsHexDigit q
      · rcases ih behind with hdigits | ⟨run, p, rest, rfl, hlen, hrun, hp⟩
        · exact .inl (List.forall_mem_cons.mpr ⟨hq, hdigits⟩)
        · exact .inr ⟨q :: run, p, rest, rfl, Nat.succ_lt_succ hlen,
            List.forall_mem_cons.mpr ⟨hq, hrun⟩, hp⟩
      · exact .inr ⟨[], q, behind, rfl, Nat.succ_pos width, by simp, hq⟩

/-- **A text starts with the digits of a scalar, or something is wrong with them.** -/
theorem scalar_or_isBadRun (width : Nat) (behind : Text) :
    (∃ digits rest, ∃ c : Char, behind = digits ++ rest ∧ digits.length = width ∧
        digits.WritesHex c.toNat) ∨
      ∃ kind text, IsBadRun width behind kind text := by
  rcases digits_or_first width behind with hdigits | ⟨run, p, rest, rfl, hlen, hrun, hp⟩
  · rcases Nat.lt_or_ge behind.length width with hlen | hlen
    · rw [List.take_of_length_le hlen.le] at hdigits
      exact .inr ⟨_, _, .cut hdigits hlen⟩
    · have htake := List.length_take_of_le hlen
      have hsplit := (List.take_append_drop width behind).symm
      obtain ⟨n, hn⟩ := exists_writesHex hdigits
      by_cases hscalar : ∃ c : Char, c.toNat = n
      · obtain ⟨c, rfl⟩ := hscalar
        exact .inl ⟨_, _, c, hsplit, htake, hn⟩
      · rw [hsplit]
        exact .inr ⟨_, _, .number htake hn (not_exists.mp hscalar)⟩
  · exact .inr ⟨_, _, .digit hrun hlen hp⟩

/-- The decoder finds what is wrong with digits. -/
theorem hexUnit_of_isBadRun {width : Nat} {behind text : Text} {kind : DecodeError.Kind}
    (h : IsBadRun width behind kind text) (key : CodePoint) :
    hexUnit key width behind = .error ⟨kind, .scalar '\\' :: key :: text⟩ := by
  unfold hexUnit
  cases h with
  | @digit run rest p hrun hlen hp =>
    have hfirst : ((run ++ p :: rest).take width).findIdx? (fun p => p.hexDigit?.isNone) =
        some run.length := by
      obtain ⟨k, rfl⟩ := Nat.exists_eq_add_of_lt hlen
      rw [Nat.add_assoc, List.take_length_add_append, List.take_succ_cons, List.findIdx?_append,
        findIdx?_eq_none_of_isHexDigit hrun, List.findIdx?_cons,
        if_pos (isNone_hexDigit?_iff.mpr hp)]
      simp
    rw [hfirst]
    simp only [List.take_length_add_append, List.take_succ_cons, List.take_zero]
  | cut hrun hlen =>
    rw [List.take_of_length_le hlen.le, findIdx?_eq_none_of_isHexDigit hrun]
    simp only [hlen, if_true]
  | @number run rest n hlen hvalue hn =>
    rw [← hlen, List.take_left, findIdx?_eq_none_of_isHexDigit (isHexDigit_of_writesHex hvalue)]
    simp only [Nat.lt_irrefl, if_false, Text.hexValue?_eq_some_iff.mpr hvalue, Option.bind_some]
    split
    · next c hc => exact absurd (CodePoint.ofNat?_eq_some_iff.mp hc) (hn c)
    · rfl

/-! ## The first unit -/

variable {quote : Char}

theorem slash_ne_quote (hq : quote ≠ '\\') : CodePoint.scalar '\\' ≠ .scalar quote :=
  fun h => hq (CodePoint.scalar.inj h).symm

/-- What the decoder makes of a backslash and a key that is not the quote. -/
theorem unit_slash_key (hq : quote ≠ '\\') {key : CodePoint} (hkey : key ≠ .scalar quote)
    (digits : Text) :
    unit (.scalar quote) (.scalar '\\') (key :: digits) =
      match directive? key with
      | none => .error ⟨.malformedEscape, [.scalar '\\', key]⟩
      | some (.scalar c) => .ok (.scalar c, 2)
      | some (.hex width) => hexUnit key width digits := by
  rw [unit.eq_def, if_neg (slash_ne_quote hq), if_neg (by simp [CodePoint.is])]
  exact if_neg hkey

/-- The decoder finds what is wrong with a unit. -/
theorem unit_of_isBad (hq : quote ≠ '\\') {first : CodePoint} {behind : Text} {bad : BadUnit}
    (h : IsBad quote (first :: behind) bad) : unit (.scalar quote) first behind = .error bad := by
  cases h with
  | delimiter => exact if_pos rfl
  | surrogate => rfl
  | slash => rw [unit.eq_def, if_neg (slash_ne_quote hq), if_neg (by simp [CodePoint.is])]
  | key hkq hkey => rw [unit_slash_key hq hkq, hkey]
  | digits hkq hkey hrun =>
    rw [unit_slash_key hq (by simpa using hkq), directive?_hex_iff.mpr ⟨_, rfl, hkey⟩]
    exact hexUnit_of_isBadRun hrun _

/-- **The front of a text that is not empty is a unit or is bad.** -/
theorem isUnit_or_isBad (quote : Char) (first : CodePoint) (behind : Text) :
    (∃ text rest c, first :: behind = text ++ rest ∧ IsUnit quote text c) ∨
      ∃ bad, IsBad quote (first :: behind) bad := by
  cases first with
  | surrogate i => exact .inr ⟨_, .surrogate⟩
  | scalar c =>
    by_cases hc : c = quote
    · subst hc
      exact .inr ⟨_, .delimiter⟩
    by_cases hb : c = '\\'
    · subst hb
      cases behind with
      | nil => exact .inr ⟨_, .slash⟩
      | cons key behind =>
        by_cases hkq : key = .scalar quote
        · subst hkq
          exact .inl ⟨[_, _], behind, quote, rfl, .quote⟩
        cases hkey : directive? key with
        | none => exact .inr ⟨_, .key hkq hkey⟩
        | some d =>
          cases d with
          | scalar c =>
            obtain ⟨k, rfl, hk⟩ := directive?_scalar_iff.mp hkey
            exact .inl ⟨[_, _], behind, c, rfl, .fixed (by simpa using hkq) hk⟩
          | hex width =>
            obtain ⟨k, rfl, hk⟩ := directive?_hex_iff.mp hkey
            have hkq : k ≠ quote := by simpa using hkq
            rcases scalar_or_isBadRun width behind with ⟨digits, rest, c, rfl, hlen, hvalue⟩ |
              ⟨kind, text, hbad⟩
            · exact .inl ⟨_ :: _ :: digits, rest, c, rfl, .digits hkq hk hlen hvalue⟩
            · exact .inr ⟨_, .digits hkq hk hbad⟩
    · exact .inl ⟨[_], behind, c, rfl, .plain hc hb⟩

/-- **The decoder fails at a unit exactly where it is bad.** -/
theorem unit_eq_error_iff (hq : quote ≠ '\\') {first : CodePoint} {behind : Text}
    {bad : BadUnit} :
    unit (.scalar quote) first behind = .error bad ↔ IsBad quote (first :: behind) bad := by
  refine ⟨fun h => ?_, unit_of_isBad hq⟩
  rcases isUnit_or_isBad quote first behind with ⟨text, rest, c, htext, hunit⟩ | ⟨bad', hbad⟩
  · obtain ⟨first', tail, rfl, hread⟩ := unit_append hq hunit rest
    cases htext
    cases h.symm.trans hread
  · cases h.symm.trans (unit_of_isBad hq hbad)
    exact hbad

/-! ## What stands behind a bad unit -/

/-- A key takes one number of digits. -/
theorem width_unique {key : Char} {width width' : Nat} (h : (key, width) ∈ digitKeys)
    (h' : (key, width') ∈ digitKeys) : width = width' := by
  have hread := directive?_hex_iff.mpr ⟨key, rfl, h⟩
  rw [directive?_hex_iff.mpr ⟨key, rfl, h'⟩] at hread
  exact (Directive.hex.inj (Option.some.inj hread)).symm

theorem IsBadRun.isPrefix {width : Nat} {behind text : Text} {kind : DecodeError.Kind}
    (h : IsBadRun width behind kind text) : text <+: behind := by
  cases h with
  | digit => exact ⟨_, by rw [List.append_assoc, List.singleton_append]⟩
  | cut => exact List.prefix_rfl
  | number => exact List.prefix_append _ _

theorem IsBadRun.append {width : Nat} {behind text : Text} {kind : DecodeError.Kind}
    (h : IsBadRun width behind kind text) (hkind : kind ≠ .truncatedEscape) (t : Text) :
    IsBadRun width (behind ++ t) kind text := by
  cases h with
  | digit hrun hlen hp =>
    rw [List.append_assoc, List.cons_append]
    exact .digit hrun hlen hp
  | cut => exact absurd rfl hkind
  | number hlen hvalue hn =>
    rw [List.append_assoc]
    exact .number hlen hvalue hn

/-- Digits that end too early are all there is. -/
theorem IsBadRun.cut_of_truncated {width : Nat} {behind text : Text}
    (h : IsBadRun width behind .truncatedEscape text) : text = behind ∧ behind.length < width := by
  cases h with
  | cut hrun hlen => exact ⟨rfl, hlen⟩

namespace IsBad

variable {rest : Text} {bad : BadUnit}

/-- What is shown is some of the text, from its start. -/
theorem sequence_isPrefix (h : IsBad quote rest bad) :
    bad.sequence ≠ [] ∧ bad.sequence <+: rest := by
  cases h with
  | delimiter | surrogate => exact ⟨nofun, List.prefix_append [_] _⟩
  | slash => exact ⟨nofun, List.prefix_rfl⟩
  | key => exact ⟨nofun, List.prefix_append [_, _] _⟩
  | digits hkq hkey hrun =>
    exact ⟨nofun, (List.prefix_append_right_inj [_, _]).mpr hrun.isPrefix⟩

/-- **What is bad stays bad in front of any text**, unless it was cut off. -/
theorem append (h : IsBad quote rest bad) (hkind : bad.kind ≠ .truncatedEscape) (t : Text) :
    IsBad quote (rest ++ t) bad := by
  cases h with
  | delimiter => exact .delimiter
  | surrogate => exact .surrogate
  | slash => exact absurd rfl hkind
  | key hkq hkey => exact .key hkq hkey
  | digits hkq hkey hrun => exact .digits hkq hkey (hrun.append hkind t)

/-- What is cut off is all that there is. -/
theorem eq_of_truncated (h : IsBad quote rest bad) (hkind : bad.kind = .truncatedEscape) :
    bad.sequence = rest := by
  cases h with
  | delimiter | surrogate | key => cases hkind
  | slash => rfl
  | digits hkq hkey hrun =>
    cases hkind
    rw [hrun.cut_of_truncated.1]

/-- **What is cut off can be completed**: behind a backslash with the quote, behind a key with
zeros up to the digits it takes. -/
theorem exists_completion (h : IsBad quote rest bad) (hkind : bad.kind = .truncatedEscape) :
    ∃ t, ∀ bad', IsBad quote (rest ++ t) bad' → bad'.kind ≠ .truncatedEscape := by
  cases h with
  | delimiter | surrogate | key => cases hkind
  | slash =>
    refine ⟨[.scalar quote], fun bad' h => ?_⟩
    cases h with
    | delimiter => exact nofun
    | key hkq => exact absurd rfl hkq
    | digits hkq => exact absurd rfl hkq
  | @digits key width behind text kind hkq hkey hrun =>
    refine ⟨List.replicate (width - behind.length) (.scalar '0'), fun bad' h => ?_⟩
    rw [List.cons_append, List.cons_append] at h
    cases h with
    | delimiter => exact nofun
    | key => exact nofun
    | @digits _ width' _ text' kind' _ hkey' hrun' =>
      rintro rfl
      obtain ⟨-, hlen⟩ := hrun'.cut_of_truncated
      obtain rfl := width_unique hkey hkey'
      rw [List.length_append, List.length_replicate] at hlen
      omega

end IsBad

/-! ## Literals -/

/-- A literal that cannot be decoded is units and, behind them, a text that is bad. -/
theorem isBad_of_decodeFrom (hq : quote ≠ '\\') {offset : Nat} {raw : Text} {e : DecodeError}
    (h : decodeFrom (.scalar quote) offset raw = .error e) :
    ∃ (s : Split quote) (rest : Text) (bad : BadUnit), s.raw ++ rest = raw ∧ IsBad quote rest bad ∧
      e = ⟨bad.kind, offset + s.raw.length, bad.sequence⟩ := by
  fun_induction decodeFrom (.scalar quote) offset raw with
  | case1 => cases h
  | case2 offset first behind bad hu =>
    cases h
    exact ⟨.nil, _, bad, rfl, (unit_eq_error_iff hq).mp hu, rfl⟩
  | case3 offset first behind value length hu ih =>
    obtain ⟨tail, behind', c, rfl, hunit, rfl, rfl⟩ := isUnit_of_unit hu
    rw [Nat.add_sub_cancel, List.drop_left] at h ih
    obtain ⟨s, rest, bad, rfl, hbad, rfl⟩ := ih (Except.map_eq_error_iff.mp h)
    refine ⟨s.cons _ c hunit, rest, bad, ?_, hbad, ?_⟩
    · rw [Split.raw_cons, List.append_assoc, List.cons_append]
    · rw [Split.raw_cons, List.length_append, List.length_cons, Nat.add_assoc]

/-- **A literal fails at the first unit that is bad**, with what is wrong there. -/
theorem decodeQuoted_eq_error_iff (hq : quote ≠ '\\') {raw : Text} {e : DecodeError} :
    decodeQuoted [.scalar quote] raw = .error (.decode e) ↔
      ∃ (s : Split quote) (rest : Text) (bad : BadUnit), s.raw ++ rest = raw ∧
        IsBad quote rest bad ∧ e = ⟨bad.kind, s.raw.length, bad.sequence⟩ := by
  rw [decodeQuoted_scalar hq, Except.mapError_eq_error_iff]
  constructor
  · rintro ⟨e', he', heq⟩
    cases heq
    simpa only [Nat.zero_add] using isBad_of_decodeFrom hq he'
  · rintro ⟨s, rest, bad, rfl, hbad, rfl⟩
    refine ⟨_, ?_, rfl⟩
    rw [decode, decodeFrom_split_append hq, Nat.zero_add]
    cases rest with
    | nil => cases hbad
    | cons first behind => rw [decodeFrom_cons, (unit_eq_error_iff hq).mpr hbad]; rfl

/-- Units in front of a text that is bad are all that can be decoded. -/
theorem length_le_of_split (hq : quote ≠ '\\') {s t : Split quote} {rest rest' : Text}
    {bad : BadUnit} (hbad : IsBad quote rest bad) (h : s.raw ++ rest = t.raw ++ rest') :
    t.raw.length ≤ s.raw.length := by
  have hfails := (decodeQuoted_eq_error_iff hq).mpr ⟨s, rest, bad, h, hbad, rfl⟩
  rw [decodeQuoted_split_append hq, Except.mapError_eq_error_iff] at hfails
  obtain ⟨e, -, he⟩ := hfails
  have hoffset : e.offset + t.raw.length = s.raw.length :=
    congrArg DecodeError.offset (QuotedError.decode.inj he)
  omega

/-- The lengths of the beginnings of a text that can be decoded. -/
def decodedLengths (quote : Char) (raw : Text) : Set Nat :=
  {n | ∃ p xs, p <+: raw ∧ p.length = n ∧ decodeQuoted [.scalar quote] p = .ok xs}

/-- The units in front of a text that is bad are the longest beginning that can be decoded. -/
theorem isGreatest_decodedLengths (hq : quote ≠ '\\') (s : Split quote) {rest : Text}
    {bad : BadUnit} (hbad : IsBad quote rest bad) :
    IsGreatest (decodedLengths quote (s.raw ++ rest)) s.raw.length := by
  constructor
  · exact ⟨s.raw, s.scalars, List.prefix_append _ _, rfl,
      (decodeQuoted_eq_ok_iff hq).mpr ⟨s, rfl, rfl⟩⟩
  · rintro n ⟨p, xs, ⟨rest', hrest⟩, rfl, hp⟩
    obtain ⟨t, rfl, -⟩ := (decodeQuoted_eq_ok_iff hq).mp hp
    exact length_le_of_split hq hbad hrest.symm

/-- **Decode errors are located exactly, and are final unless an escape was cut off.** Between
scalar quotes that are no backslash, the offset of an error is the length of the longest beginning
that can be decoded, and the error shows some of the text from there on, at least one code point. In
front of any text the literal fails with the same error, unless an escape was cut off. If one was,
the error shows all of the rest, and some text behind it completes the escape: with it the literal
decodes, or fails at another place or for another reason. -/
theorem errors_are_located_and_final {quote : Char} (hq : quote ≠ '\\') {raw : Text}
    {e : DecodeError} (h : decodeQuoted [.scalar quote] raw = .error (.decode e)) :
    IsGreatest (decodedLengths quote raw) e.offset ∧
    e.sequence ≠ [] ∧ e.sequence <+: raw.drop e.offset ∧
    (e.kind ≠ .truncatedEscape →
      ∀ t, decodeQuoted [.scalar quote] (raw ++ t) = .error (.decode e)) ∧
    (e.kind = .truncatedEscape →
      e.sequence = raw.drop e.offset ∧
      ∃ t, ∀ e', decodeQuoted [.scalar quote] (raw ++ t) = .error (.decode e') →
        ¬ (e'.kind = .truncatedEscape ∧ e'.offset = e.offset)) := by
  obtain ⟨s, rest, bad, rfl, hbad, rfl⟩ := (decodeQuoted_eq_error_iff hq).mp h
  obtain ⟨hne, hprefix⟩ := hbad.sequence_isPrefix
  refine ⟨isGreatest_decodedLengths hq s hbad, hne, ?_, fun hkind t => ?_, fun hkind => ⟨?_, ?_⟩⟩
  · rwa [List.drop_left]
  · rw [List.append_assoc]
    exact (decodeQuoted_eq_error_iff hq).mpr ⟨s, _, bad, rfl, hbad.append hkind t, rfl⟩
  · rw [List.drop_left]
    exact hbad.eq_of_truncated hkind
  · obtain ⟨t, ht⟩ := hbad.exists_completion hkind
    refine ⟨t, fun e' he' => ?_⟩
    rintro ⟨hkind', hoffset⟩
    obtain ⟨s', rest', bad', hraw, hbad', rfl⟩ := (decodeQuoted_eq_error_iff hq).mp he'
    -- At the same offset the same units stand in front, so what is bad there is the completed rest.
    rw [List.append_assoc] at hraw
    obtain ⟨-, rfl⟩ := List.append_inj hraw hoffset
    exact ht bad' hbad' hkind'

/-- Between bars, `é\u00` ends in the digits of an escape: the error shows them, and some text
completes them. With `g` behind them they are wrong, whatever follows. -/
theorem errors_are_located_and_final_of_cut_digits :
    (decodeQuoted (Text.of "|") (Text.of "é\\u00") =
        .error (.decode ⟨.truncatedEscape, 1, Text.of "\\u00"⟩) ∧
      IsGreatest (decodedLengths '|' (Text.of "é\\u00")) 1 ∧
      ∃ t, ∀ e', decodeQuoted (Text.of "|") (Text.of "é\\u00" ++ t) = .error (.decode e') →
        ¬ (e'.kind = .truncatedEscape ∧ e'.offset = 1)) ∧
    decodeQuoted (Text.of "|") (Text.of "é\\u00g") =
      .error (.decode ⟨.malformedEscape, 1, Text.of "\\u00g"⟩) ∧
    ∀ t, decodeQuoted (Text.of "|") (Text.of "é\\u00g" ++ t) =
      .error (.decode ⟨.malformedEscape, 1, Text.of "\\u00g"⟩) := by
  have hbar : '|' ≠ '\\' := by decide
  have hcut : decodeQuoted (Text.of "|") (Text.of "é\\u00") =
      .error (.decode ⟨.truncatedEscape, 1, Text.of "\\u00"⟩) := by with_unfolding_all rfl
  have hwrong : decodeQuoted (Text.of "|") (Text.of "é\\u00g") =
      .error (.decode ⟨.malformedEscape, 1, Text.of "\\u00g"⟩) := by with_unfolding_all rfl
  obtain ⟨hgreatest, -, -, -, htruncated⟩ := errors_are_located_and_final hbar hcut
  obtain ⟨-, -, -, hfinal, -⟩ := errors_are_located_and_final hbar hwrong
  exact ⟨⟨hcut, hgreatest, (htruncated rfl).2⟩, hwrong, hfinal (by decide)⟩

end ScalarScript.Literal
