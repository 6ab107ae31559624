import InlineMarkup.Text.Location

/-!
Token trees of the host language, Rust: words, punctuation characters, literals, and groups in
matching delimiters. A lifetime is an apostrophe joined to a word.

Every token knows where it stands. Their text is the one a reader sees in messages: one space
between tokens, none after a punctuation character that the next one follows directly, and none
inside of parentheses and brackets.
-/

set_option autoImplicit false

namespace InlineMarkup.Host

open InlineMarkup.Text

inductive Delimiter where
  | parenthesis
  | bracket
  | brace
  deriving DecidableEq, Repr

def Delimiter.opening : Delimiter → Char
  | .parenthesis => '('
  | .bracket => '['
  | .brace => '\x7b'

def Delimiter.closing : Delimiter → Char
  | .parenthesis => ')'
  | .bracket => ']'
  | .brace => '\x7d'

structure Span where
  start : Mark
  stop : Mark
  deriving DecidableEq, Repr

/-- The place of tokens that no source holds, and of the end of a whole source. -/
def Span.nowhere : Span := ⟨Mark.first, Mark.first⟩

inductive TokenTree where
  | word (text : List Char) (span : Span)
  /-- A character is joint if punctuation follows it directly. -/
  | punct (char : Char) (joint : Bool) (span : Span)
  | literal (text : List Char) (span : Span)
  | group (delimiter : Delimiter) (contents : List TokenTree) (opening closing : Span)
  deriving Repr

namespace TokenTree

def start : TokenTree → Mark
  | .word _ span => span.start
  | .punct _ _ span => span.start
  | .literal _ span => span.start
  | .group _ _ opening _ => opening.start

def isJoint : TokenTree → Bool
  | .punct _ joint _ => joint
  | _ => false

mutual

def text : TokenTree → List Char
  | .word s _ => s
  | .punct c _ _ => [c]
  | .literal s _ => s
  | .group .brace [] _ _ => ['\x7b', ' ', '\x7d']
  | .group .brace (t :: ts) _ _ =>
    '\x7b' :: ' ' :: text t ++ textAfter t.isJoint ts ++ [' ', '\x7d']
  | .group d [] _ _ => [d.opening, d.closing]
  | .group d (t :: ts) _ _ => d.opening :: text t ++ textAfter t.isJoint ts ++ [d.closing]

def textAfter (joint : Bool) : List TokenTree → List Char
  | [] => []
  | t :: ts => (if joint then [] else [' ']) ++ text t ++ textAfter t.isJoint ts

end

def textOf (ts : List TokenTree) : List Char :=
  textAfter true ts

end TokenTree

end InlineMarkup.Host
