import InlineMarkup.Text.Blank
import InlineMarkup.Text.Identifier
import InlineMarkup.Markup.Reference

/-!
The lexemes of the host language. A recognizer gives the text after the lexeme at the front of a
text, or `none` if no such lexeme stands there.
-/

set_option autoImplicit false

namespace InlineMarkup.Host.Lexeme

open InlineMarkup.Text

def strip? : List Char → List Char → Option (List Char)
  | [], s => some s
  | _ :: _, [] => none
  | p :: ps, c :: s => if p = c then strip? ps s else none

def plainWord? : List Char → Option (List Char)
  | [] => none
  | c :: s => if isIdentifierStart c then some (s.dropWhile isIdentifierContinue) else none

/-- A literal may carry a word directly behind it. -/
def dropSuffix (s : List Char) : List Char :=
  (plainWord? s).getD s

def endsWord : List Char → Bool
  | [] => true
  | c :: _ => !isIdentifierContinue c

def before (s rest : List Char) : List Char :=
  s.take (s.length - rest.length)

def neverRaw : List (List Char) :=
  ["_", "super", "self", "Self", "crate"].map String.toList

def anyWord? : List Char → Option (List Char)
  | 'r' :: '#' :: s => do
    let rest ← plainWord? s
    if neverRaw.contains (before s rest) then none else some rest
  | s => plainWord? s

/-- Beginnings of literals that a word must not have. -/
def literalStarts : List (List Char) :=
  ["r\"", "r#\"", "r##", "b\"", "b'", "br\"", "br#", "c\"", "cr\"", "cr#"].map String.toList

def word? (s : List Char) : Option (List Char) :=
  if literalStarts.any (·.isPrefixOf s) then none else anyWord? s

/-- Kinds of string literals, which differ in the characters and escapes they admit. -/
inductive StringKind where
  | text
  | bytes
  | nulFree
  deriving DecidableEq, Repr

def StringKind.admits (kind : StringKind) (c : Char) : Bool :=
  match kind with
  | .text => true
  | .bytes => c.toNat < 0x80
  | .nulFree => c.toNat != 0

def isHexDigit (c : Char) : Bool :=
  (Markup.hexDigit? c).isSome

inductive StringPlace where
  | body
  | carriageReturn
  | backslash
  | hexFirst
  | hexSecond (first : Char)
  | unicodeOpen
  | unicodeDigits (count value : Nat)
  /-- After an escaped line break white space is passed over; a carriage return needs its line
  feed. -/
  | blank (needsLineFeed : Bool)
  deriving DecidableEq, Repr

def afterBody (kind : StringKind) (c : Char) : Option (Option StringPlace) :=
  if c = '"' then some none
  else if c = '\r' then some (some .carriageReturn)
  else if c = '\\' then some (some .backslash)
  else if kind.admits c then some (some .body)
  else none

def afterBackslash (kind : StringKind) (c : Char) : Option StringPlace :=
  if c = 'x' then some .hexFirst
  else if ['n', 'r', 't', '\\', '\'', '"'].contains c then some .body
  else if c = '0' then if kind = .nulFree then none else some .body
  else if c = 'u' then if kind = .bytes then none else some .unicodeOpen
  else if c = '\n' then some (.blank false)
  else if c = '\r' then some (.blank true)
  else none

def afterHexFirst (kind : StringKind) (c : Char) : Option StringPlace :=
  if kind = .text then if '0' ≤ c ∧ c ≤ '7' then some (.hexSecond c) else none
  else if isHexDigit c then some (.hexSecond c)
  else none

def afterHexSecond (kind : StringKind) (first c : Char) : Option StringPlace :=
  if isHexDigit c then
    if kind = .nulFree ∧ first = '0' ∧ c = '0' then none else some .body
  else none

/-- Up to six digits, with low lines after the first, and a closing brace. -/
def afterUnicodeDigit (kind : StringKind) (count value : Nat) (c : Char) : Option StringPlace :=
  match Markup.hexDigit? c with
  | some d => if count = 6 then none else some (.unicodeDigits (count + 1) (value * 16 + d))
  | none =>
    if count = 0 then none
    else if c = '_' then some (.unicodeDigits count value)
    else if c = '\x7d' then
      if value.isValidChar ∧ ¬(kind = .nulFree ∧ value = 0) then some .body else none
    else none

def cookedFrom (kind : StringKind) : StringPlace → List Char → Option (List Char)
  | _, [] => none
  | .body, c :: s =>
    match afterBody kind c with
    | none => none
    | some none => some s
    | some (some place) => cookedFrom kind place s
  | .carriageReturn, c :: s => if c = '\n' then cookedFrom kind .body s else none
  | .backslash, c :: s =>
    match afterBackslash kind c with
    | none => none
    | some place => cookedFrom kind place s
  | .hexFirst, c :: s =>
    match afterHexFirst kind c with
    | none => none
    | some place => cookedFrom kind place s
  | .hexSecond first, c :: s =>
    match afterHexSecond kind first c with
    | none => none
    | some place => cookedFrom kind place s
  | .unicodeOpen, c :: s =>
    if c = '\x7b' then cookedFrom kind (.unicodeDigits 0 0) s else none
  | .unicodeDigits count value, c :: s =>
    match afterUnicodeDigit kind count value c with
    | none => none
    | some place => cookedFrom kind place s
  | .blank true, c :: s => if c = '\n' then cookedFrom kind (.blank false) s else none
  | .blank false, c :: s =>
    if c = ' ' ∨ c = '\t' ∨ c = '\n' then cookedFrom kind (.blank false) s
    else if c = '\r' then cookedFrom kind (.blank true) s
    else
      match afterBody kind c with
      | none => none
      | some none => some s
      | some (some place) => cookedFrom kind place s

/-- The text after the closing quote and hashes of a raw string. A carriage return stands only
before a line feed. -/
def rawFrom (kind : StringKind) (hashes : Nat) : List Char → Option (List Char)
  | [] => none
  | '\r' :: '\n' :: s => rawFrom kind hashes s
  | '\r' :: _ => none
  | c :: s =>
    if c = '"' ∧ (List.replicate hashes '#').isPrefixOf s then some (s.drop hashes)
    else if kind.admits c then rawFrom kind hashes s
    else none

def raw? (kind : StringKind) (s : List Char) : Option (List Char) :=
  let hashes := (s.takeWhile (· == '#')).length
  match s.drop hashes with
  | '"' :: body => if hashes > 255 then none else rawFrom kind hashes body
  | _ => none

def string? : List Char → Option (List Char)
  | '"' :: s => cookedFrom .text .body s
  | 'r' :: s => raw? .text s
  | 'b' :: '"' :: s => cookedFrom .bytes .body s
  | 'b' :: 'r' :: s => raw? .bytes s
  | 'c' :: '"' :: s => cookedFrom .nulFree .body s
  | 'c' :: 'r' :: s => raw? .nulFree s
  | _ => none

def unicodeEscape? (count value : Nat) : List Char → Option (List Char)
  | [] => none
  | c :: s =>
    match afterUnicodeDigit .text count value c with
    | some (.unicodeDigits count value) => unicodeEscape? count value s
    | some _ => some s
    | none => none

def escape? (kind : StringKind) : List Char → Option (List Char)
  | 'x' :: a :: b :: s =>
    match afterHexFirst kind a with
    | some _ => if isHexDigit b then some s else none
    | none => none
  | 'u' :: '\x7b' :: s => if kind = .text then unicodeEscape? 0 0 s else none
  | c :: s => if ['n', 'r', 't', '\\', '0', '\'', '"'].contains c then some s else none
  | [] => none

def characterBody? (kind : StringKind) : List Char → Option (List Char)
  | [] => none
  | '\\' :: s => escape? kind s
  | c :: s => if kind = .text ∨ c.toNat < 0x80 then some s else none

def character? : List Char → Option (List Char)
  | '\'' :: s => characterBody? .text s >>= strip? ['\'']
  | 'b' :: '\'' :: s => characterBody? .bytes s >>= strip? ['\'']
  | _ => none

/-- The digits of a decimal number with at most one point, up to an exponent letter: whether a
point was met, and the text from there on. A point before a word or another point is no part of a
number. -/
def mantissa? (point : Bool) : List Char → Option (Bool × List Char)
  | [] => some (point, [])
  | c :: s =>
    if c.isDigit || c == '_' then mantissa? point s
    else if c = '.' ∧ point = false then
      match s with
      | d :: _ => if d == '.' || isIdentifierStart d then none else mantissa? true s
      | [] => some (true, [])
    else some (point, c :: s)

def exponent? (signed valued : Bool) : List Char → Option (List Char)
  | [] => if valued then some [] else none
  | c :: s =>
    if c = '+' ∨ c = '-' then
      if valued then some (c :: s)
      else if signed then none
      else exponent? true valued s
    else if c.isDigit then exponent? signed true s
    else if c = '_' then exponent? signed valued s
    else if valued then some (c :: s)
    else none

def floatDigits? (s : List Char) : Option (List Char) :=
  match s with
  | d :: digits =>
    if d.isDigit then do
      let (point, rest) ← mantissa? false digits
      match rest with
      | c :: exponent =>
        if c = 'e' ∨ c = 'E' then
          match exponent? false false exponent with
          | some after => some after
          | none => if point then some rest else none
        else if point then some rest
        else none
      | [] => if point then some [] else none
    else none
  | [] => none

/-- Digits of an integer in a base. A decimal digit that the base lacks is refused, a letter ends
the number, and the number must not begin with a low line in base ten. -/
def integerDigits? (base : Nat) (met : Bool) : List Char → Option (List Char)
  | [] => if met then some [] else none
  | c :: s =>
    if c = '_' then
      if !met && base == 10 then none else integerDigits? base met s
    else
      match Markup.hexDigit? c with
      | some d =>
        if d < base then integerDigits? base true s
        else if c.isDigit then none
        else if met then some (c :: s)
        else none
      | none => if met then some (c :: s) else none

def integer? : List Char → Option (List Char)
  | '0' :: 'x' :: s => integerDigits? 16 false s
  | '0' :: 'o' :: s => integerDigits? 8 false s
  | '0' :: 'b' :: s => integerDigits? 2 false s
  | s => integerDigits? 10 false s

def numberEnd? (s : List Char) : Option (List Char) :=
  let rest := dropSuffix s
  if endsWord rest then some rest else none

def number? (s : List Char) : Option (List Char) :=
  match floatDigits? s >>= numberEnd? with
  | some rest => some rest
  | none => integer? s >>= numberEnd?

def literal? (s : List Char) : Option (List Char) :=
  match string? s with
  | some rest => some (dropSuffix rest)
  | none =>
    match character? s with
    | some rest => some (dropSuffix rest)
    | none => number? s

def punctuation : List Char := "~!@#$%^&*-=+|;:,<.>/?'".toList

/-- Whether a punctuation character stands at the front. The slash of a comment is none. -/
def startsPunctuation : List Char → Bool
  | '/' :: '/' :: _ => false
  | '/' :: '*' :: _ => false
  | c :: _ => punctuation.contains c
  | [] => false

/-- A punctuation character and whether it is joint. An apostrophe needs a word behind it that
makes no character literal. -/
def punct? (s : List Char) : Option (Char × Bool × List Char) :=
  match s with
  | '\'' :: r => do
    let after ← anyWord? r
    if after.head? = some '\'' ∨ (after.head? = some '#' ∧ ¬['r', '#'].isPrefixOf r) then none
    else some ('\'', true, r)
  | c :: r => if startsPunctuation s then some (c, startsPunctuation r, r) else none
  | [] => none

/-- What stands for an error among tokens. It is one lexeme, not a group with a comment in it. -/
def errorMark : List Char := '(' :: ("/*ERROR*/".toList ++ [')'])

def blockCommentFrom (depth : Nat) : List Char → Option (List Char)
  | '/' :: '*' :: s => blockCommentFrom (depth + 1) s
  | '*' :: '/' :: s => if depth ≤ 1 then some s else blockCommentFrom (depth - 1) s
  | _ :: s => blockCommentFrom depth s
  | [] => none

def blockComment? : List Char → Option (List Char)
  | '/' :: '*' :: s => blockCommentFrom 1 s
  | _ => none

def lineEnd : List Char → List Char × List Char
  | [] => ([], [])
  | '\n' :: s => ([], '\n' :: s)
  | '\r' :: '\n' :: s => ([], '\n' :: s)
  | c :: s => (c :: (lineEnd s).1, (lineEnd s).2)

structure DocComment where
  content : List Char
  inner : Bool
  rest : List Char

def blockContent (s rest : List Char) : List Char :=
  ((before s rest).drop 3).dropLast.dropLast

def isBareReturnFree : List Char → Bool
  | '\r' :: '\n' :: s => isBareReturnFree s
  | '\r' :: _ => false
  | _ :: s => isBareReturnFree s
  | [] => true

def docCommentText? (s : List Char) : Option DocComment :=
  match s with
  | '/' :: '/' :: '!' :: r => some ⟨(lineEnd r).1, true, (lineEnd r).2⟩
  | '/' :: '*' :: '!' :: _ => (blockComment? s).map fun rest => ⟨blockContent s rest, true, rest⟩
  | '/' :: '/' :: '/' :: '/' :: _ => none
  | '/' :: '/' :: '/' :: r => some ⟨(lineEnd r).1, false, (lineEnd r).2⟩
  | '/' :: '*' :: '*' :: '*' :: _ => none
  | '/' :: '*' :: '*' :: _ => (blockComment? s).map fun rest => ⟨blockContent s rest, false, rest⟩
  | _ => none

def docComment? (s : List Char) : Option DocComment := do
  let doc ← docCommentText? s
  if isBareReturnFree doc.content then some doc else none

/-- White space of the host language, which has two direction marks besides. -/
def isHostBlank (c : Char) : Bool :=
  isBlank c || c == '\u200e' || c == '\u200f'

def plainComment? (s : List Char) : Option (List Char) :=
  match s with
  | '/' :: '/' :: '!' :: _ => none
  | '/' :: '/' :: '/' :: '/' :: _ => some (lineEnd s).2
  | '/' :: '/' :: '/' :: _ => none
  | '/' :: '/' :: _ => some (lineEnd s).2
  | '/' :: '*' :: '*' :: '/' :: r => some r
  | '/' :: '*' :: '!' :: _ => none
  | '/' :: '*' :: '*' :: '*' :: _ => blockComment? s
  | '/' :: '*' :: '*' :: _ => none
  | '/' :: '*' :: _ => blockComment? s
  | _ => none

def skipBlankFuel : Nat → List Char → List Char
  | 0, s => s
  | fuel + 1, s =>
    match plainComment? s with
    | some rest => skipBlankFuel fuel rest
    | none =>
      match s with
      | c :: r => if isHostBlank c then skipBlankFuel fuel r else s
      | [] => []

def skipBlank (s : List Char) : List Char :=
  skipBlankFuel s.length s

end InlineMarkup.Host.Lexeme
