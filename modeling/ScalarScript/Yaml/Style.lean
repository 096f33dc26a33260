import ScalarScript.Yaml.Resolve

/-!
# How a text is written in YAML

Part of the model of how `script_to_yaml` writes a document.

A text is written without quotes where it would be read back as itself, else in single quotes if it
holds nothing that needs an escape, else in double quotes.

Results:
* `allowsPlain_of_style`, `not_needsEscapes_of_style`, `needsEscapes_of_style`: what the style of a
  text says about it.
* `resolve_of_style_plain`: a text in plain style stands for itself.
-/

namespace ScalarScript.Yaml

/-- The ways to write a text. -/
inductive Style where
  | plain
  | single
  | double
deriving DecidableEq, Repr

/-- Whether a code point has to be escaped. -/
def isSpecial (p : CodePoint) : Bool :=
  let n := p.toNat
  !(n = 0x0A || (0x20 ≤ n && n ≤ 0x7E) || n = 0x85 || (0xA0 ≤ n && n ≤ 0xD7FF) ||
    (0xE000 ≤ n && n ≤ 0xFFFD && n ≠ 0xFEFF) || (0x10000 ≤ n && n ≤ 0x10FFFE))

/-- Whether two neighbours in a text are in a relation. -/
def anyNeighbours (related : CodePoint → CodePoint → Bool) : Text → Bool
  | p :: q :: rest => related p q || anyNeighbours related (q :: rest)
  | _ => false

/-- Whether a text needs double quotes: a folded line would lose a space at a line break. -/
def needsEscapes (t : Text) : Bool :=
  t.any isSpecial ||
    anyNeighbours (fun p q => (p.is ' ' && isBreak q) || (isBreak p && q.is ' ')) t

/-- Whether a text begins like something other than a plain scalar. -/
def startsAsMark (t : Text) : Bool :=
  t.startsWith "---" || t.startsWith "..." ||
    match t with
    | [] => true
    | p :: rest =>
      isOneOf "#,[]\x7b\x7d&*!|>'\"%@\x60" p || (isOneOf "?:-" p && startsWithSpace rest)

/-- Whether a mark stands inside a text: a colon before space, or a number sign behind it. -/
def holdsMark (t : Text) : Bool :=
  t.getLast?.any (·.is ':') ||
    anyNeighbours (fun p q => (p.is ':' && isSpace q) || (isSpace p && q.is '#')) t

/-- Whether a text stands for itself without quotes. -/
def resolvesToText (t : Text) : Bool :=
  match resolve t with
  | .text => true
  | .datum _ | .date | .reserved => false

/-- Whether a text may be written without quotes. -/
def allowsPlain (t : Text) : Bool :=
  resolvesToText t && !needsEscapes t && !t.any isBreak && !startsAsMark t && !holdsMark t &&
    !t.head?.any (·.is ' ') && !t.getLast?.any (·.is ' ')

/-- The way a text is written. -/
def style (t : Text) : Style :=
  if allowsPlain t then .plain else if needsEscapes t then .double else .single

variable {t : Text}

theorem allowsPlain_of_style (h : style t = .plain) : allowsPlain t = true := by
  unfold style at h
  split at h
  · assumption
  · split at h <;> cases h

theorem not_needsEscapes_of_style (h : style t = .single) : needsEscapes t = false := by
  unfold style at h
  split at h
  · cases h
  · split at h
    · cases h
    · next hescapes => rwa [Bool.not_eq_true] at hescapes

theorem needsEscapes_of_style (h : style t = .double) : needsEscapes t = true := by
  unfold style at h
  split at h
  · cases h
  · split at h
    · assumption
    · cases h

theorem resolve_of_style_plain (h : style t = .plain) : resolve t = .text := by
  have hr : resolvesToText t = true := by
    have ha := allowsPlain_of_style h
    simp only [allowsPlain, Bool.and_eq_true] at ha
    exact ha.1.1.1.1.1.1
  unfold resolvesToText at hr
  split at hr
  · assumption
  all_goals cases hr

end ScalarScript.Yaml
