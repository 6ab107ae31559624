import InlineMarkup.Host.Token

/-!
Why the host language's grammar refuses a source, and the words for it.
-/

set_option autoImplicit false

namespace InlineMarkup.Host

open InlineMarkup.Text

inductive Complaint where
  | unreadable
  /-- One of some tokens or constructs must stand here; whether the input ended instead is said
  where `atEnd` asks for it. -/
  | expected (what : List String) (atEnd : Bool)
  | keywordAsIdentifier (word : String)
  /-- Tokens are left over, inside of the given delimiters or at the end of the whole. -/
  | leftover (inside : Option Delimiter)
  | missingSemicolon
  | refused (rule : String)
  deriving DecidableEq, Repr

def oneOf : List String → String
  | [] => ""
  | [a] => s!"expected {a}"
  | [a, b] => s!"expected {a} or {b}"
  | names => "expected one of: " ++ String.intercalate ", " names

def Complaint.message : Complaint → String
  | .unreadable => "cannot parse string into token stream"
  | .expected what true => s!"unexpected end of input, {oneOf what}"
  | .expected what false => oneOf what
  | .keywordAsIdentifier word => s!"expected identifier, found keyword `{word}`"
  | .leftover none => "unexpected token"
  | .leftover (some .parenthesis) => "unexpected token, expected `)`"
  | .leftover (some .bracket) => "unexpected token, expected `]`"
  | .leftover (some .brace) => "unexpected token, expected `\x7d`"
  | .missingSemicolon => "unexpected token, expected `;`"
  | .refused rule => rule

structure Refusal where
  complaint : Complaint
  mark : Mark
  deriving DecidableEq, Repr

end InlineMarkup.Host
