import InlineMarkup.Text.Basic

/-!
Character references in markup text, and the escapes that the printer writes in their place.

A reference is `&name;` for one of six names, `&#digits;` or `&#xdigits;`. Its end must stand
among the nine characters after the ampersand. Whatever is not a reference stays as written, and
what a reference stands for is not read again.
-/

set_option autoImplicit false

namespace InlineMarkup.Markup

/-- Longest distance from the ampersand at which the closing semicolon is looked for. -/
def referenceReach : Nat := 9

def hexDigit? (c : Char) : Option Nat :=
  if c.isDigit then some (c.toNat - '0'.toNat)
  else if 'a' ≤ c ∧ c ≤ 'f' then some (c.toNat - 'a'.toNat + 10)
  else if 'A' ≤ c ∧ c ≤ 'F' then some (c.toNat - 'A'.toNat + 10)
  else none

def decDigit? (c : Char) : Option Nat :=
  if c.isDigit then some (c.toNat - '0'.toNat) else none

def digits? (base : Nat) (digit? : Char → Option Nat) : List Char → Option Nat
  | [] => none
  | s => s.foldlM (fun n c => (digit? c).map (n * base + ·)) 0

/-- A number may carry a plus sign. -/
def number? (base : Nat) (digit? : Char → Option Nat) : List Char → Option Nat
  | '+' :: s => digits? base digit? s
  | s => digits? base digit? s

/-- The character with a given number, unless the number is that of a surrogate or too large. -/
def scalar? (n : Nat) : Option Char :=
  if h : n.isValidChar then some (Char.ofNatAux n h) else none

def reference? : List Char → Option Char
  | ['a', 'm', 'p'] => some '&'
  | ['l', 't'] => some '<'
  | ['g', 't'] => some '>'
  | ['q', 'u', 'o', 't'] => some '"'
  | ['a', 'p', 'o', 's'] => some '\''
  | ['n', 'b', 's', 'p'] => some '\u00a0'
  | '#' :: 'x' :: s => (number? 16 hexDigit? s).bind scalar?
  | '#' :: 'X' :: s => (number? 16 hexDigit? s).bind scalar?
  | '#' :: s => (number? 10 decDigit? s).bind scalar?
  | _ => none

def referenceAt? (s : List Char) : Option (Char × List Char) :=
  let body := (s.take referenceReach).takeWhile (· != ';')
  if body.length < referenceReach then
    match s.drop body.length with
    | [] => none
    | _ :: rest => (reference? body).map fun c => (c, rest)
  else none

theorem referenceAt?_length {s rest : List Char} {c : Char} (h : referenceAt? s = some (c, rest)) :
    rest.length < s.length := by
  unfold referenceAt? at h
  simp only at h
  split at h
  · split at h
    · simp at h
    · rename_i a r hr
      obtain ⟨x, -, hx⟩ := Option.map_eq_some_iff.1 h
      have hl := congrArg List.length hr
      simp only [List.length_drop, List.length_cons] at hl
      have : rest = r := (Prod.mk.inj hx).2.symm
      subst this
      omega
  · simp at h

def decode : List Char → List Char
  | [] => []
  | c :: s =>
    if c = '&' then
      match h : referenceAt? s with
      | some (d, rest) =>
        have := referenceAt?_length h
        d :: decode rest
      | none => c :: decode s
    else c :: decode s
termination_by s => s.length

def escapeTextChar (c : Char) : List Char :=
  if c = '&' then "&amp;".toList
  else if c = '<' then "&lt;".toList
  else if c = '>' then "&gt;".toList
  else [c]

def escapeText (s : List Char) : List Char :=
  s.flatMap escapeTextChar

def escapeValueChar (c : Char) : List Char :=
  if c = '&' then "&amp;".toList
  else if c = '"' then "&quot;".toList
  else [c]

def escapeValue (s : List Char) : List Char :=
  s.flatMap escapeValueChar

end InlineMarkup.Markup
