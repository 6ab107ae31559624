import InlineMarkup.Markup.Token
import InlineMarkup.Markup.Error

/-!
Markup regions: a text that begins with a tag is read up to the tag that closes its outermost
element, and nothing after that is looked at.

Open elements are kept innermost first; an element joins its parent when its end tag is read.
-/

set_option autoImplicit false

namespace InlineMarkup.Markup

open InlineMarkup.Text

structure Captured where
  root : Element
  text : List Char
  deriving DecidableEq, Repr

def TokenFault.toError (input : List Char) : TokenFault → Error
  | .unterminatedTag tag =>
    { fault := .unterminatedTag, position := offsetOf input tag, snippet := String.ofList tag }
  | .unterminatedComment comment =>
    { fault := .unterminatedComment, position := offsetOf input comment,
      snippet := String.ofList comment }
  | .unterminatedValue name value tag =>
    { fault := .unterminatedAttributeValue, position := offsetOf input value,
      found := some (String.ofList name), snippet := String.ofList tag }

/-- What a token does to the open elements. -/
inductive Progress where
  | notMarkup
  | root (element : Element)
  | more (opened : List Element)
  deriving DecidableEq, Repr

def Element.push (e : Element) (n : Node) : Element :=
  { e with children := e.children ++ [n] }

/-- A finished element joins the innermost open one; without one it is the root. -/
def finish (e : Element) : List Element → Progress
  | [] => .root e
  | parent :: opened => .more (parent.push e.toNode :: opened)

def addText (input start : List Char) (content : List Char) (opened : List Element) :
    Except Error Progress :=
  if content = [] then .ok (.more opened)
  else
    match opened with
    | [] => .ok .notMarkup
    | e :: es =>
      if content.head? = some ';' then
        .error (Error.trailingContent (offsetOf input start) (String.ofList e.name)
          (String.ofList content))
      else .ok (.more (e.push (.text content) :: es))

/-- An end tag in `input`, which stands between `start` and `rest`. -/
def closeTag (input start rest : List Char) (name : List Char) (opened : List Element) :
    Except Error Progress :=
  match opened with
  | [] =>
    .error { Error.strayClosingTag (offsetOf input start) (String.ofList name) with
      snippet := String.ofList (start.take (start.length - rest.length)) }
  | e :: es =>
    if e.name = name then .ok (finish e es)
    else
      .error { Error.tagMismatch (offsetOf input start) (String.ofList e.name)
          (String.ofList name) with
        snippet := String.ofList (input.take (input.length - rest.length)) }

def advance (input start rest : List Char) (opened : List Element) :
    Token → Except Error Progress
  | .comment => .ok (.more opened)
  | .text raw => addText input start (trim (decode raw)) opened
  | .startTag name attributes selfClosing =>
    if selfClosing then .ok (finish ⟨name, attributes, []⟩ opened)
    else .ok (.more (⟨name, attributes, []⟩ :: opened))
  | .endTag name => closeTag input start rest name opened

def atEnd (input : List Char) : List Element → Except Error (Option (Element × List Char))
  | [] => .ok none
  | e :: _ =>
    .error { Error.unexpectedEof (byteLength input) (String.ofList e.name) with
      snippet := String.ofList input }

/-- Reads on from `start` with some elements open: the root and the text after it. -/
def readFrom (input : List Char) (opened : List Element) (start : List Char) :
    Except Error (Option (Element × List Char)) :=
  match h : next start with
  | .error fault => .error (fault.toError input)
  | .ok none => atEnd input opened
  | .ok (some (token, rest)) =>
    have := next_length h
    match advance input start rest opened token with
    | .error e => .error e
    | .ok .notMarkup => .ok none
    | .ok (.root e) => .ok (some (e, rest))
    | .ok (.more opened) => readFrom input opened rest
termination_by start.length

/-- The markup region at the front of a text; `none` if no tag stands there. -/
def capture (input : List Char) : Except Error (Option Captured) :=
  if opensTag input then
    (readFrom input [] input).map fun found =>
      found.map fun (root, rest) => ⟨root, input.take (input.length - rest.length)⟩
  else .ok none

def Element.readsBack (e : Element) : Bool :=
  let written := e.toNode.markup
  match capture written with
  | .ok (some captured) => captured.root = e ∧ captured.text = written
  | _ => false

end InlineMarkup.Markup
