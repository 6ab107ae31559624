import InlineMarkup.Host.TokenStream
import InlineMarkup.Host.Grammar.Item

/-!
Whole sources of the host language: files, expressions and paths.

Nesting is bounded by the number of tokens, and so are the levels of the grammar.
-/

set_option autoImplicit false

namespace InlineMarkup.Host

open InlineMarkup.Text

namespace Grammar

def next (g : Grammar) : Grammar where
  expr struct := exprWith g struct
  unary struct := unaryExpr g struct
  bounded := boundedExpr g
  type plus := typeWith g plus
  bound := typeBound g false true
  pattern := patternOne g
  statements := statementsWith g (itemAfter g)
  item := itemWith g

def ofLevel (n : Nat) : Grammar :=
  Nat.repeat next n exhausted

end Grammar

mutual

def TokenTree.size : TokenTree → Nat
  | .group _ contents _ _ => TokenTree.sizeOf contents + 1
  | _ => 1

def TokenTree.sizeOf : List TokenTree → Nat
  | [] => 0
  | t :: ts => TokenTree.size t + TokenTree.sizeOf ts

end

def grammarFor (ts : List TokenTree) : Grammar :=
  Grammar.ofLevel (4 * TokenTree.sizeOf ts + 16)

/-- Parses all tokens. What is left over is refused, in the groups first. -/
def parseTokens (p : Grammar → Parser Tree) (ts : List TokenTree) : Except Refusal Tree := do
  let (tree, input) ← (p (grammarFor ts)).run ⟨ts, Mark.first, none⟩
  match input.leftover with
  | some left => throw ⟨.leftover (some left.inside), left.mark⟩
  | none =>
    match input.rest with
    | t :: _ => throw ⟨.leftover none, t.start⟩
    | [] => return tree

def parseText (p : Grammar → Parser Tree) (source : List Char) : Except Refusal Tree :=
  match tokens source with
  | .error mark => .error ⟨.unreadable, mark⟩
  | .ok ts => parseTokens p ts

def parseExpr (source : List Char) : Except Refusal Tree :=
  parseText (·.expr true) source

def parsePath (source : List Char) : Except Refusal Tree :=
  parseText (fun g => pathWith g false) source

/-- The first line, if it names an interpreter. It is no part of the language. -/
def interpreterLine? (source : List Char) : Option (List Char) :=
  match source with
  | '#' :: '!' :: rest =>
    match Lexeme.skipBlank rest with
    | '[' :: _ => none
    | _ => some (source.takeWhile (· != '\n'))
  | _ => none

/-- The source without the line for an interpreter. The line feed is kept, so that lines keep
their numbers. -/
def dropInterpreterLine (source : List Char) : List Char :=
  match interpreterLine? source with
  | some line => source.drop line.length
  | none => source

def file (g : Grammar) : Parser Tree := do
  let attributes ← innerAttributes g
  return .node .file (attributes ++ (← untilEmpty g.item))

def parseFile (source : List Char) : Except Refusal Tree :=
  parseText file (dropInterpreterLine (dropByteOrderMark source))

end InlineMarkup.Host
