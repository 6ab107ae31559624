import InlineMarkup.Host.Grammar.Basic
import InlineMarkup.Pretty.Painter

/-!
Setting paths, types, bounds and generic parameters.
-/

set_option autoImplicit false

namespace InlineMarkup.Pretty

open InlineMarkup.Host (TokenTree Delimiter)
open Doc

def boundLifetimes (p : Painter) (parameter : Painter → Host.Tree → Doc)
    (ts : List Host.Tree) : Doc :=
  (ts.filter (·.is .boundLifetimes)).flatMap fun t =>
    let parameters := elements (((t.children.drop 2)).dropLast)
    word "for<" ++
      eachLast (fun last a => parameter p a ++ if last then [] else word ", ") parameters ++
      word "> "

def boundsOf (ts : List Host.Tree) : List Host.Tree :=
  match ts.find? (·.is .bounds) with
  | some t => t.children.filter fun b => !b.isToken "+"
  | none => []

inductive PathKind where
  | type
  | expr
  deriving DecidableEq

/-- The generic arguments between their angle brackets, lifetimes before all else. -/
def argumentsOf (t : Host.Tree) : List Host.Tree :=
  let found :=
    elements (t.children.filter fun c => !c.isToken "::" && !c.isToken "<" && !c.isToken ">")
  found.filter (·.isLifetime) ++ found.filter (!·.isLifetime)

def constArgument (p : Painter) (t : Host.Tree) : Doc :=
  if t.is .literal || t.is .block then p.expr .alone t
  else word "\x7b" ++ p.expr .alone t ++ word "\x7d"

def bound (p : Painter) (path : Painter → PathKind → Host.Tree → Doc)
    (parameter : Painter → Host.Tree → Doc) (t : Host.Tree) : Doc :=
  let part := fun (c : Host.Tree) =>
    match c with
    | .node .boundLifetimes _ => boundLifetimes p parameter [c]
    | .node .path _ => path p .type c
    | .group _ _ _ _ => word "[const] "
    | c => if c.isToken "const" then word "const " else token c
  match t with
  | .node .bound [.group .parenthesis _ _ parts] => word "(" ++ parts.flatMap part ++ word ")"
  | .node .bound parts => parts.flatMap part
  | .node .precise children =>
    word "use<" ++
      eachLast (fun last a => token a ++ if last then [] else word ", ")
        (elements ((children.drop 2).dropLast)) ++ word ">"
  | t => token t

def returnType (p : Painter) (ts : List Host.Tree) : Doc :=
  match ts.find? (·.is .returnType) with
  | some (.node _ [_, type]) => word " -> " ++ p.type type
  | _ => []

def callArguments (p : Painter) (children : List Host.Tree) : Doc :=
  cbox indent (word "(" ++ zero ++
    eachLast (fun last t => p.type t ++ trailingComma last) (elements (groupOf children)) ++
    dedent ++ word ")" ++ returnType p children)

mutual

def pathDoc (p : Painter) : Nat → PathKind → Host.Tree → Doc
  | 0, _, t => token t
  | fuel + 1, kind, t =>
    t.children.flatMap fun c =>
      match c with
      | .node .segment (name :: arguments) =>
        token name ++ arguments.flatMap fun a =>
          match a with
          | .node .callArguments children => callArguments p children
          | a => genericArguments p fuel kind a
      | c => token c

def genericArguments (p : Painter) : Nat → PathKind → Host.Tree → Doc
  | 0, _, t => token t
  | fuel + 1, kind, t =>
    match argumentsOf t with
    | [] => []
    | arguments =>
      (if kind = .expr then word "::" else []) ++ word "<" ++
        commaBox indent (genericArgument p fuel) arguments ++ word ">"

def genericArgument (p : Painter) : Nat → Host.Tree → Doc
  | 0, t => token t
  | fuel + 1, t =>
    match t with
    | .node .equation [segment, _, value] =>
      pathDoc p fuel .type (.node .path [segment]) ++ word " = " ++
        (if value.is .literal || value.is .block then constArgument p value else p.type value)
    | .node .constraint (segment :: _ :: rest) =>
      pathDoc p fuel .type (.node .path [segment]) ++
        ibox indent (eachFirst (fun first b =>
          (if first then word ": " else space ++ word "+ ") ++ p.type b) (boundsOf rest))
    | .node .literal _ => constArgument p t
    | .node .block _ => constArgument p t
    | .token _ => token t
    | t => p.type t

end

def path (p : Painter) (kind : PathKind) (t : Host.Tree) : Doc :=
  pathDoc p (2 * t.tokens.length + 4) kind t

def qualifiedPath (p : Painter) (kind : PathKind) (ts : List Host.Tree) : Doc :=
  match ts with
  | [.node .qualifiedSelf (_ :: type :: rest), t] =>
    let trait := match rest with
      | [_, t, _] => word " as " ++ path p .type t
      | _ => []
    word "<" ++ p.type type ++ trait ++ word ">" ++ path p kind t
  | t :: _ => path p kind t
  | [] => []

def isSemicolon (t : Host.Tree) : Bool := t.isToken ";"

def gapBounds (p : Painter) (ts : List Host.Tree) : Doc :=
  eachFirst (fun first b => (if first then word ": " else space ++ word "+ ") ++ p.type b)
    (boundsOf ts)

def afterEquals (ts : List Host.Tree) : Option Host.Tree :=
  match ts.dropWhile fun t => !t.isToken "=" with
  | _ :: value :: _ => some value
  | _ => none

def genericParameter (p : Painter) (t : Host.Tree) : Doc :=
  outerAttributes p t.children ++
  match t, t.parts with
  | .node .lifetimeParameter _, name :: rest =>
    token name ++ eachFirst (fun first b =>
      (if first then word ": " else word " + ") ++ token b) (boundsOf rest)
  | .node .constParameter _, _ :: name :: _ :: type :: rest =>
    word "const " ++ token name ++ word ": " ++ p.type type ++
      match afterEquals rest with
      | some value => word " = " ++ p.expr .alone value
      | none => []
  | _, name :: rest =>
    token name ++ ibox indent (gapBounds p rest ++
      match afterEquals rest with
      | some type => space ++ word "= " ++ p.type type
      | none => [])
  | _, [] => []

def generics (p : Painter) (ts : List Host.Tree) : Doc :=
  match ts.find? (·.is .generics) with
  | some t =>
    match argumentsOf t with
    | [] => []
    | parameters =>
      word "<" ++ commaBox 0 (genericParameter p) parameters ++ word ">"
  | none => []

def boundDoc (p : Painter) (t : Host.Tree) : Doc :=
  bound p path genericParameter t

def wherePredicate (p : Painter) (t : Host.Tree) : Doc :=
  let lifetimes := boundLifetimes p genericParameter t.children
  match t.children.filter fun c => !c.is .boundLifetimes with
  | subject :: rest =>
    let all := boundsOf rest
    let outlives := subject.isLifetime
    let one := fun (t : Host.Tree) => if t.isLifetime then token t else p.type t
    lifetimes ++ one subject ++ word ":" ++
      ibox (if !outlives && all.length = 1 then 0 else indent) (eachFirst (fun first b =>
        (if first then word " " else space ++ word "+ ") ++ one b) all)
  | [] => []

def predicatesOf (ts : List Host.Tree) : List Host.Tree :=
  match ts.find? (·.is .whereClause) with
  | some t => elements (t.children.drop 1)
  | none => []

def whereClause (p : Painter) (ts : List Host.Tree) (broken semicolon : Bool) : Doc :=
  match predicatesOf ts with
  | [] => if semicolon then word ";" else word " "
  | predicates =>
    let gap := if broken then hard else space
    gap ++ dedent ++ word "where" ++ gap ++
      eachLast (fun last t => wherePredicate p t ++
        if last && semicolon then word ";"
        else if broken then word "," ++ hard
        else trailingCommaOrSpace last) predicates ++
      if semicolon then [] else dedent

def abiDoc (ts : List Host.Tree) : Doc :=
  match ts.find? (·.is .abi) with
  | some (.node _ (_ :: name)) => word "extern " ++ name.flatMap fun t => token t ++ word " "
  | _ => []

def plusBounds (p : Painter) (ts : List Host.Tree) : Doc :=
  eachFirst (fun first b => (if first then [] else word " + ") ++ boundDoc p b) (boundsOf ts)

def functionTypeArgument (p : Painter) (t : Host.Tree) : Doc :=
  outerAttributes p t.children ++
  match t.parts with
  | [type] => if t.is .variadic then token type else p.type type
  | [name, _, type] =>
    token name ++ word ": " ++ if t.is .variadic then token type else p.type type
  | ts => eachFirst (fun first a => (if first then [] else word " ") ++ token a) ts

def functionType (p : Painter) (parts : List Host.Tree) : Doc :=
  boundLifetimes p genericParameter parts ++
    (if parts.any (·.isToken "unsafe") then word "unsafe " else []) ++ abiDoc parts ++
    word "fn(" ++ cbox indent (zero ++ eachLast (fun last t =>
      functionTypeArgument p t ++ if t.is .variadic then zero else trailingComma last)
      (elements (groupOf parts)) ++ dedent) ++
    word ")" ++ returnType p parts

def tupleDoc (f : Host.Tree → Doc) (ts : List Host.Tree) : Doc :=
  word "(" ++
    cbox indent (zero ++ eachLast (fun last t =>
      f t ++ if ts.length = 1 then word "," ++ zero else trailingComma last) ts ++ dedent) ++
    word ")"

def typeDoc (p : Painter) (t : Host.Tree) : Doc :=
  match t with
  | .node .pathType parts => qualifiedPath p .type parts
  | .node .tupleType parts => tupleDoc p.type (elements (groupOf parts))
  | .node .parenType parts => word "(" ++ (groupOf parts).flatMap p.type ++ word ")"
  | .node .sliceType parts => word "[" ++ (groupOf parts).flatMap p.type ++ word "]"
  | .node .arrayType parts =>
    match groupOf parts with
    | [type, _, length] =>
      word "[" ++ p.type type ++ word "; " ++ p.expr .alone length ++ word "]"
    | _ => token t
  | .node .pointerType [_, mutability, type] =>
    word "*" ++ token mutability ++ word " " ++ p.type type
  | .node .referenceType parts =>
    parts.flatMap fun c =>
      match c with
      | .token (.punct '\'' _ _ :: _) => token c ++ word " "
      | .token _ => if c.isToken "mut" then word "mut " else token c
      | c => p.type c
  | .node .functionType parts => functionType p parts
  | .node .implType parts => word "impl " ++ plusBounds p parts
  | .node .objectType parts => word "dyn " ++ plusBounds p parts
  | .node .macroType parts => macroCall parts false
  | .node .bound _ => boundDoc p t
  | .node .precise _ => boundDoc p t
  | t => token t

end InlineMarkup.Pretty
