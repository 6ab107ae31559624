import InlineMarkup.Host.Lexeme

/-!
What literal tokens mean: integers by their value, strings by their content.
-/

set_option autoImplicit false

namespace InlineMarkup.Host.Literal

def isSuffix (s : List Char) : Bool :=
  match s with
  | [] => true
  | c :: r => Text.isIdentifierStart c && r.all Text.isIdentifierContinue

/-- Whether a letter `e` in a decimal number, followed by `s`, begins an exponent: a sign follows
it, or digits do and after them nothing that makes one suffix with the letter. -/
def isExponent (met : Bool) : List Char → Bool
  | [] => met
  | c :: s =>
    if c = '_' then isExponent met s
    else if c = '+' ∨ c = '-' then true
    else if c.isDigit then isExponent true s
    else met && isSuffix (c :: s)

def integerFrom (base : Nat) (met : Bool) (value : Nat) :
    List Char → Option (Nat × List Char)
  | [] => if met then some (value, []) else none
  | c :: s =>
    if c = '_' then integerFrom base met value s
    else if base = 10 ∧ c = '.' then none
    else if base = 10 ∧ (c = 'e' ∨ c = 'E') ∧ isExponent false s then none
    else
      match Markup.hexDigit? c with
      | some d =>
        if c.isDigit || base == 16 then
          if d < base then integerFrom base true (value * base + d) s else none
        else if met && isSuffix (c :: s) then some (value, c :: s)
        else none
      | none => if met && isSuffix (c :: s) then some (value, c :: s) else none

def integer? : List Char → Option (Nat × List Char)
  | '0' :: 'x' :: s => integerFrom 16 false 0 s
  | '0' :: 'o' :: s => integerFrom 8 false 0 s
  | '0' :: 'b' :: s => integerFrom 2 false 0 s
  | c :: s => if c.isDigit then integerFrom 10 false 0 (c :: s) else none
  | [] => none

def unsigned : List Char → List Char
  | '-' :: s => s
  | s => s

def fieldLimit : Nat := Nat.pow 2 32

def fieldNumber (s : List Char) : Except String Nat :=
  match integer? (unsigned s) with
  | some (n, []) =>
    if unsigned s ≠ s then .error "invalid digit found in string"
    else if n < fieldLimit then .ok n
    else .error "number too large to fit in target type"
  | some (_, _ :: _) => .error "expected unsuffixed integer"
  | none => .error "expected integer literal"

def isInteger (s : List Char) : Bool :=
  (integer? (unsigned s)).isSome

def isFloat (s : List Char) : Bool :=
  match unsigned s with
  | c :: _ => c.isDigit && !isInteger s
  | [] => false

def unicodeFrom (value : Nat) : List Char → Option (Char × List Char)
  | [] => none
  | c :: s =>
    if c = '\x7d' then (Markup.scalar? value).map fun d => (d, s)
    else
      match Markup.hexDigit? c with
      | some d => unicodeFrom (value * 16 + d) s
      | none => unicodeFrom value s

def isLineBlank (c : Char) : Bool :=
  c == ' ' || c == '\t' || c == '\n' || c == '\r'

/-- The character that an escape after its backslash stands for, if any, and the text after it. An
escaped line break stands for nothing, with the white space that follows it. -/
def escapeFrom : List Char → Option (List Char × List Char)
  | 'n' :: s => some (['\n'], s)
  | 'r' :: s => some (['\r'], s)
  | 't' :: s => some (['\t'], s)
  | '0' :: s => some (['\x00'], s)
  | 'x' :: a :: b :: s =>
    match Markup.hexDigit? a, Markup.hexDigit? b with
    | some a, some b => some ([Char.ofNat (a * 16 + b)], s)
    | _, _ => none
  | 'u' :: '\x7b' :: s => (unicodeFrom 0 s).map fun (c, s) => ([c], s)
  | c :: s => if isLineBlank c then some ([], s.dropWhile isLineBlank) else some ([c], s)
  | [] => none

/-- The content of a cooked string up to its closing quote; a line break is a line feed. -/
def cookedContent : Nat → List Char → List Char
  | 0, _ => []
  | _, [] => []
  | fuel + 1, c :: s =>
    if c = '"' then []
    else if c = '\\' then
      match escapeFrom s with
      | some (cs, rest) => cs ++ cookedContent fuel rest
      | none => []
    else if c = '\r' then '\n' :: cookedContent fuel (s.drop 1)
    else c :: cookedContent fuel s

def beforeLastQuote (s : List Char) : List Char :=
  ((s.reverse.dropWhile (· != '"')).drop 1).reverse

def string? : List Char → Option (List Char)
  | '"' :: s => some (cookedContent s.length s)
  | 'r' :: s => some (beforeLastQuote ((s.dropWhile (· == '#')).drop 1))
  | _ => none

end InlineMarkup.Host.Literal
