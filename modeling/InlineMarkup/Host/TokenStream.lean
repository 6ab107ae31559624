import InlineMarkup.Text.Quoted
import InlineMarkup.Host.Token
import InlineMarkup.Host.Lexeme

/-!
From text to token trees. A documentation comment is read as the attribute it stands for.

Reading fails at one place: at a character that begins no token, at a closing delimiter that
matches nothing, or, when the text ends first, at the innermost delimiter still open.
-/

set_option autoImplicit false

namespace InlineMarkup.Host

open InlineMarkup.Text

structure Cursor where
  rest : List Char
  mark : Mark

namespace Cursor

def moveTo (c : Cursor) (rest : List Char) : Cursor :=
  ⟨rest, (Lexeme.before c.rest rest).foldl Mark.after c.mark⟩

def skipBlank (c : Cursor) : Cursor :=
  c.moveTo (Lexeme.skipBlank c.rest)

end Cursor

def Mark.beforeColumn (m : Mark) : Mark :=
  ⟨m.line, m.column - 1⟩

def firstColumn (s : Span) : Span :=
  ⟨s.start, ⟨s.start.line, s.start.column + 1⟩⟩

def lastColumn (s : Span) : Span :=
  ⟨Mark.beforeColumn s.stop, s.stop⟩

def docTokens (doc : Lexeme.DocComment) (span : Span) : List TokenTree :=
  .punct '#' false span ::
    (if doc.inner then [.punct '!' false span] else []) ++
    [.group .bracket
      [.word "doc".toList span, .punct '=' false span,
        .literal (stringLiteral doc.content) span]
      (firstColumn span) (lastColumn span)]

def opening? (s : List Char) : Option Delimiter :=
  match s with
  | '(' :: _ => if Lexeme.errorMark.isPrefixOf s then none else some .parenthesis
  | '[' :: _ => some .bracket
  | '\x7b' :: _ => some .brace
  | _ => none

def closing? (c : Char) : Option Delimiter :=
  if c = ')' then some .parenthesis
  else if c = ']' then some .bracket
  else if c = '\x7d' then some .brace
  else none

def leaf? (c : Cursor) : Option (TokenTree × Cursor) :=
  match Lexeme.literal? c.rest with
  | some rest =>
    let next := c.moveTo rest
    some (.literal (Lexeme.before c.rest rest) ⟨c.mark, next.mark⟩, next)
  | none =>
    match Lexeme.punct? c.rest with
    | some (char, joint, rest) =>
      let next := c.moveTo rest
      some (.punct char joint ⟨c.mark, next.mark⟩, next)
    | none =>
      match Lexeme.word? c.rest with
      | some rest =>
        let next := c.moveTo rest
        some (.word (Lexeme.before c.rest rest) ⟨c.mark, next.mark⟩, next)
      | none =>
        if Lexeme.errorMark.isPrefixOf c.rest then
          let next := c.moveTo (c.rest.drop Lexeme.errorMark.length)
          some (.literal Lexeme.errorMark ⟨c.mark, next.mark⟩, next)
        else none

/-- An open group: its delimiter, where it stands, and the tokens read before it, last first. -/
structure Frame where
  delimiter : Delimiter
  opening : Span
  outer : List TokenTree

/-- Reads on with some groups open, innermost first; `done` holds the tokens of the innermost
group, last first. -/
def readTokens : Nat → List Frame → List TokenTree → Cursor → Except Mark (List TokenTree)
  | 0, _, _, cursor => .error cursor.mark
  | fuel + 1, frames, done, cursor =>
    let cursor := cursor.skipBlank
    match Lexeme.docComment? cursor.rest with
    | some doc =>
      let next := cursor.moveTo doc.rest
      readTokens fuel frames ((docTokens doc ⟨cursor.mark, next.mark⟩).reverse ++ done) next
    | none =>
      match cursor.rest with
      | [] =>
        match frames with
        | [] => .ok done.reverse
        | frame :: _ => .error frame.opening.start
      | char :: rest =>
        let next := cursor.moveTo rest
        match opening? (char :: rest) with
        | some delimiter =>
          readTokens fuel (⟨delimiter, ⟨cursor.mark, next.mark⟩, done⟩ :: frames) [] next
        | none =>
          match closing? char with
          | some delimiter =>
            match frames with
            | [] => .error cursor.mark
            | frame :: frames =>
              if frame.delimiter = delimiter then
                readTokens fuel frames
                  (.group delimiter done.reverse frame.opening ⟨cursor.mark, next.mark⟩ ::
                    frame.outer) next
              else .error cursor.mark
          | none =>
            match leaf? cursor with
            | some (token, next) => readTokens fuel frames (token :: done) next
            | none => .error cursor.mark

/-- The tokens of a text whose first character stands at `mark`, or where reading failed. A byte
order mark in front is passed over. -/
def tokensFrom (mark : Mark) (source : List Char) : Except Mark (List TokenTree) :=
  readTokens (source.length + 1) [] [] ((Cursor.mk source mark).moveTo (dropByteOrderMark source))

def tokens (source : List Char) : Except Mark (List TokenTree) :=
  tokensFrom Mark.first source

end InlineMarkup.Host
