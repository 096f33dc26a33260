import ScalarScript.Text.CodePoint

/-!
# The characters of YAML

Part of the model of how `script_from_yaml` and `script_to_yaml` read and write.

The classes of code points that YAML text is cut by.

* A line ends at a line feed or at one of the separators U+0085, U+2028 and U+2029. A carriage
  return, alone or before a line feed, and U+0085 are read as a line feed; the other two separators
  stand for themselves.
* A mark like `-` or `:` counts only before space: a blank, a line break, or the end.
* A line that starts with `---` or `...` before such space is a document marker.

Results: `normalizeBreaks_eq_self` (text without the breaks that change is left alone).
-/

namespace ScalarScript.Yaml

/-- Whether a code point ends a line of written text. -/
def isBreak (p : CodePoint) : Bool :=
  p.is '\n' || p.is '\u0085' || p.is '\u2028' || p.is '\u2029'

/-- Whether a code point is a space or a tab. -/
def isBlank (p : CodePoint) : Bool := p.is ' ' || p.is '\t'

/-- Whether a code point is a blank, a line break or NUL. -/
def isSpace (p : CodePoint) : Bool :=
  isBlank p || p.is '\r' || p.is '\x00' || isBreak p

/-- Whether a text starts with space or is at its end. -/
def startsWithSpace (t : Text) : Bool := t.head?.all isSpace

/-- Whether a code point is one of some characters. -/
def isOneOf (characters : String) (p : CodePoint) : Bool := (Text.of characters).contains p

/-- Whether a code point may stand in YAML text as it is. -/
def isPrintable (p : CodePoint) : Bool :=
  let n := p.toNat
  n = 0x09 || n = 0x0A || n = 0x0D || (0x20 ≤ n && n ≤ 0x7E) || n = 0x85 ||
    (0xA0 ≤ n && n ≤ 0xD7FF) || (0xE000 ≤ n && n ≤ 0xFFFD) || 0x10000 ≤ n

/-- Whether a text starts with a document marker, being at the start of a line. -/
def startsWithMarker (t : Text) : Bool :=
  (t.startsWith "---" || t.startsWith "...") && startsWithSpace (t.drop 3)

/-- Whether a code point is a break that is read as a line feed without being one. -/
def isForeignBreak (p : CodePoint) : Bool := p.is '\r' || p.is '\u0085'

/-- A text with line feeds in the place of all breaks that are read as one. -/
def normalizeBreaks : Text → Text
  | [] => []
  | p :: rest =>
    if p.is '\r' && rest.head?.any (·.is '\n') then normalizeBreaks rest
    else if isForeignBreak p then .scalar '\n' :: normalizeBreaks rest
    else p :: normalizeBreaks rest

theorem normalizeBreaks_eq_self {t : Text} (h : ∀ p ∈ t, isForeignBreak p = false) :
    normalizeBreaks t = t := by
  induction t with
  | nil => rfl
  | cons p t ih =>
    have hp := h p List.mem_cons_self
    have hr : p.is '\r' = false := by
      rw [isForeignBreak, Bool.or_eq_false_iff] at hp
      exact hp.1
    rw [normalizeBreaks, hr, Bool.false_and, if_neg (by simp), hp, if_neg (by simp),
      ih fun q hq => h q (List.mem_cons_of_mem p hq)]

end ScalarScript.Yaml
