import InlineMarkup.Host.Grammar.Statement
import InlineMarkup.Pretty.Expression

/-!
Setting statements and items.
-/

set_option autoImplicit false

namespace InlineMarkup.Pretty

open InlineMarkup.Host (Kind)
open Doc

/-- Whether the semicolon after an expression is left out: loops and branches do not need it. -/
def dropsSemicolon : Nat → Host.Tree → Bool
  | 0, _ => false
  | fuel + 1, t =>
    match t, t.parts with
    | .node .forLoop _, _ => true
    | .node .whileLoop _, _ => true
    | .node .ifExpr _, [_, _, _, _, otherwise] => dropsSemicolon fuel otherwise
    | .node .ifExpr _, _ => true
    | _, _ => false

def localDoc (p : Painter) (t : Host.Tree) : Doc :=
  outerAttributes p t.children ++
  match t.parts with
  | _ :: pattern :: rest =>
    let start := word "let " ++ p.pattern pattern
    match rest with
    | _ :: value :: _ :: otherwise :: _ =>
      ibox 0 (start ++ word " = " ++ never ++ p.expr .alone value ++ space ++ word "else ") ++
        never ++ cbox indent (smallBlock p (groupOf otherwise.parts)) ++ word ";" ++ hard
    | _ :: value :: _ =>
      ibox 0 (start ++ word " = " ++ never ++ p.expr .alone value) ++ word ";" ++ hard
    | _ => ibox 0 start ++ word ";" ++ hard
  | [] => []
  | [_] => []

def isMacroWithoutBraces (parts : List Host.Tree) : Bool :=
  match parts.find? isGroup with
  | some group => !Host.isBraceGroup group
  | none => false

def statementDoc (p : Painter) (last : Bool) (t : Host.Tree) : Doc :=
  match t with
  | .node .localBinding _ => localDoc p t
  | .node .expressionStatement [e] =>
    ibox 0 (p.expr .lineStart e ++ if takesSemicolon e then word ";" else []) ++ hard
  | .node .expressionStatement (e :: _) =>
    ibox 0 (p.expr .lineStart e ++
      if dropsSemicolon (e.tokens.length + 1) e then [] else word ";") ++ hard
  | .node .macroStatement _ =>
    let ended := t.parts.any isSemicolon || !last && isMacroWithoutBraces t.parts
    outerAttributes p t.children ++ macroCall t.parts ended ++ hard
  | .node .emptyStatement _ => []
  | t => p.item t

def isRelative (path : Host.Tree) : Bool :=
  isName "crate" path || isName "self" path || isName "super" path

def visibilityDoc (t : Host.Tree) : Doc :=
  match t.children with
  | [_, .group _ _ _ scope] =>
    let path := scope.getLastD (.token [])
    word "pub(" ++ (if isRelative path then [] else word "in ") ++ simplePath path ++ word ") "
  | _ => word "pub "

def throughKeyword (keyword : String) : List Host.Tree → Doc
  | [] => []
  | t :: ts =>
    if t.isToken keyword then word keyword ++ word " "
    else
      (match t with
        | .node .visibility _ => visibilityDoc t
        | .node .abi _ => abiDoc [t]
        | .token _ => token t ++ word " "
        | _ => []) ++ throughKeyword keyword ts

def afterKeyword (keyword : String) (ts : List Host.Tree) : List Host.Tree :=
  (ts.dropWhile fun t => !t.isToken keyword).drop 1

def headDoc (keyword : String) (ts : List Host.Tree) : Doc :=
  throughKeyword keyword ts ++
    match afterKeyword keyword ts with
    | name :: _ => token name
    | [] => []

def lastGroup (ts : List Host.Tree) : List Host.Tree :=
  match ts.getLast? with
  | some (.group _ _ _ children) => children
  | _ => []

def membersDoc (p : Painter) (one : Host.Tree → Doc) (contents : List Host.Tree) : Doc :=
  word "\x7b" ++ hardIfNonempty ++ innerAttributes p contents ++
    (bodyParts contents).flatMap one ++ dedent

def argumentDoc (p : Painter) (t : Host.Tree) : Doc :=
  outerAttributes p t.children ++
  match t, t.parts with
  | .node .receiver _, parts =>
    parts.flatMap fun c =>
      match c with
      | .token (.punct '\'' _ _ :: _) => token c ++ word " "
      | .token _ =>
        if c.isToken "mut" then word "mut " else if c.isToken ":" then word ": " else token c
      | c => p.type c
  | .node .variadic _, [pattern, _, dots] => p.pattern pattern ++ word ": " ++ token dots
  | .node .variadic _, parts => parts.flatMap token
  | _, [pattern, _, type] => p.pattern pattern ++ word ": " ++ p.type type
  | _, _ => token t

def signatureDoc (p : Painter) (t : Host.Tree) : Doc :=
  let parts := t.children
  let inputs := elements (groupOf parts)
  headDoc "fn" parts ++ generics p parts ++ word "(" ++ never ++
    cbox 0 (zero ++ eachLast (fun last a =>
      argumentDoc p a ++ if a.is .variadic then zero else trailingComma last) inputs ++ dedent) ++
    word ")" ++ cbox (-indent) (returnType p parts)

def functionDoc (p : Painter) (t : Host.Tree) : Doc :=
  let parts := t.parts
  let sig := (parts.find? (·.is .signature)).getD (.token [])
  let words := parts.flatMap fun c =>
    match c with
    | .node .visibility _ => visibilityDoc c
    | .token _ => if isSemicolon c then [] else token c ++ word " "
    | _ => []
  outerAttributes p t.children ++
  match parts.getLast? with
  | some (.group _ _ _ contents) =>
    cbox indent (words ++ signatureDoc p sig ++ whereClause p sig.children true false ++
      word "\x7b" ++ hardIfNonempty ++ innerAttributes p contents ++
      statements p (bodyParts contents) ++ dedent) ++ word "\x7d" ++ hard
  | _ =>
    cbox indent (words ++ signatureDoc p sig ++ whereClause p sig.children true true) ++ hard

def fieldDoc (p : Painter) (t : Host.Tree) : Doc :=
  outerAttributes p t.children ++
  t.parts.flatMap fun c =>
    match c with
    | .node .visibility _ => visibilityDoc c
    | .token _ => if c.isToken ":" then word ": " else token c
    | c => p.type c

def tupleFieldsDoc (p : Painter) (t : Host.Tree) : Doc :=
  word "(" ++ zero ++
    eachLast (fun last f => fieldDoc p f ++ trailingComma last) (elements (groupOf t.children)) ++
    dedent ++ word ")"

def fieldLines (p : Painter) (t : Host.Tree) : Doc :=
  word "\x7b" ++ hardIfNonempty ++
    (elements (groupOf t.children)).flatMap (fun f => fieldDoc p f ++ word "," ++ hard) ++ dedent

def structItemDoc (p : Painter) (keyword : String) (t : Host.Tree) : Doc :=
  let parts := t.parts
  let head := headDoc keyword parts ++ generics p parts
  outerAttributes p t.children ++
  match parts.find? (·.is .namedFields), parts.find? (·.is .tupleFields) with
  | some fields, _ =>
    cbox indent (head ++ whereClause p parts true false ++ fieldLines p fields) ++
      word "\x7d" ++ hard
  | none, some fields =>
    cbox indent (head ++ tupleFieldsDoc p fields ++ whereClause p parts true true) ++ hard
  | none, none => cbox indent (head ++ whereClause p parts true true) ++ hard

def variantDoc (p : Painter) (t : Host.Tree) : Doc :=
  outerAttributes p t.children ++
  match t.parts with
  | name :: rest =>
    token name ++
      (rest.flatMap fun c =>
        match c with
        | .node .namedFields _ =>
          word " \x7b" ++
            cbox indent (space ++ eachLast (fun last f =>
              fieldDoc p f ++ trailingCommaOrSpace last) (elements (groupOf c.children)) ++
              dedent) ++ word "\x7d"
        | .node .tupleFields _ => cbox indent (tupleFieldsDoc p c)
        | _ => []) ++
      match afterEquals rest with
      | some value => word " = " ++ p.expr .alone value
      | none => []
  | [] => []

def enumDoc (p : Painter) (t : Host.Tree) : Doc :=
  let parts := t.parts
  outerAttributes p t.children ++
    cbox indent (headDoc "enum" parts ++ generics p parts ++ whereClause p parts true false ++
      word "\x7b" ++ hardIfNonempty ++
      (elements (lastGroup parts)).flatMap (fun v => variantDoc p v ++ word "," ++ hard) ++
      dedent) ++ word "\x7d" ++ hard

def endsInGroup : Nat → Host.Tree → Bool
  | 0, _ => false
  | fuel + 1, t =>
    match t with
    | .group _ _ _ _ => true
    | .node _ children =>
      match children.getLast? with
      | some last => endsInGroup fuel last
      | none => false
    | _ => false

/-- The name `self`, renamed or not, which only a group may hold. -/
def isSelfUse : Nat → Host.Tree → Bool
  | 0, _ => false
  | fuel + 1, t =>
    match t with
    | .node .useTree [inner] => inner.isToken "self" || isSelfUse fuel inner
    | .node .useTree [name, as, _] => name.isToken "self" && as.isToken "as"
    | _ => false

/-- A tree of uses. A group of one needs no braces. -/
def useTreeDoc : Nat → Host.Tree → Doc
  | 0, t => token t
  | fuel + 1, t =>
    match t with
    | .node .useTree children =>
      children.flatMap fun c =>
        match c with
        | .token _ => if c.isToken "as" then word " as " else token c
        | c => useTreeDoc fuel c
    | .group _ _ _ children =>
      let all := word "\x7b" ++
        cbox indent (zero ++ ibox 0 (eachLast (fun last c =>
          useTreeDoc fuel c ++
            if last then []
            else word "," ++ if endsInGroup fuel c then hard else space) (elements children)) ++
          trailingComma true ++ dedent) ++ word "\x7d"
      match elements children with
      | [one] => if isSelfUse fuel one then all else useTreeDoc fuel one
      | _ => all
    | t => token t

def useDoc (p : Painter) (t : Host.Tree) : Doc :=
  let parts := t.parts
  outerAttributes p t.children ++ throughKeyword "use" parts ++
    (afterKeyword "use" parts).flatMap (useTreeDoc (2 * t.tokens.length + 20)) ++ hard

def constDoc (p : Painter) (offset : Int) (t : Host.Tree) : Doc :=
  let parts := t.parts
  let rest := (afterKeyword "const" parts).drop 2
  outerAttributes p t.children ++
    cbox offset (headDoc "const" parts ++ word ": " ++ (rest.take 1).flatMap p.type ++
      (match afterEquals rest with
        | some value => word " = " ++ never ++ p.expr .alone value
        | none => []) ++ word ";") ++ hard

def staticDoc (p : Painter) (t : Host.Tree) : Doc :=
  let parts := t.parts
  let mutable := parts.any (·.isToken "mut")
  let rest := (afterKeyword "static" parts).filter fun c => !c.isToken "mut"
  outerAttributes p t.children ++
    cbox 0 (throughKeyword "static" parts ++ (if mutable then word "mut " else []) ++
      (rest.take 1).flatMap token ++ word ": " ++ ((rest.drop 2).take 1).flatMap p.type ++
      (match afterEquals rest with
        | some value => word " = " ++ never ++ p.expr .alone value
        | none => []) ++ word ";") ++ hard

def typeItemDoc (p : Painter) (member : Bool) (t : Host.Tree) : Doc :=
  let parts := t.parts
  let head := headDoc "type" parts ++ generics p parts ++ gapBounds p parts
  outerAttributes p t.children ++
  cbox indent (
    if member then
      head ++
        (match afterEquals parts with
          | some type => word " = " ++ never ++ ibox (-indent) (p.type type)
          | none => []) ++ whereClause p parts false true
    else
      head ++ whereClause p parts false false ++
        (match afterEquals parts with
          | some type => word "= " ++ never ++ ibox (-indent) (p.type type)
          | none => []) ++ word ";") ++ hard

def externCrateDoc (p : Painter) (t : Host.Tree) : Doc :=
  let parts := t.parts
  outerAttributes p t.children ++ throughKeyword "crate" parts ++
    (afterKeyword "crate" parts).flatMap (fun c =>
      if c.isToken "as" then word " as " else token c) ++ hard

def foreignTypeDoc (p : Painter) (t : Host.Tree) : Doc :=
  let parts := t.parts
  outerAttributes p t.children ++
    cbox 0 (headDoc "type" parts ++ generics p parts ++ word ";") ++ hard

def foreignMemberDoc (p : Painter) (t : Host.Tree) : Doc :=
  match t with
  | .node .typeItem _ => foreignTypeDoc p t
  | t => p.item t

def memberDoc (p : Painter) (t : Host.Tree) : Doc :=
  match t with
  | .node .constItem _ => constDoc p indent t
  | .node .typeItem _ => typeItemDoc p true t
  | t => p.item t

def moduleDoc (p : Painter) (t : Host.Tree) : Doc :=
  let parts := t.parts
  let head := headDoc "mod" parts
  outerAttributes p t.children ++
  match parts.getLast? with
  | some (.group _ _ _ contents) =>
    cbox indent (head ++ word " " ++ membersDoc p p.item contents) ++ word "\x7d" ++ hard
  | _ => cbox indent (head ++ word ";") ++ hard

def foreignDoc (p : Painter) (t : Host.Tree) : Doc :=
  let parts := t.parts
  outerAttributes p t.children ++
    cbox indent ((if parts.any (·.isToken "unsafe") then word "unsafe " else []) ++ abiDoc parts ++
      membersDoc p (foreignMemberDoc p) (lastGroup parts)) ++ word "\x7d" ++ hard

def traitDoc (p : Painter) (t : Host.Tree) : Doc :=
  let parts := t.parts
  outerAttributes p t.children ++
    cbox indent (headDoc "trait" parts ++ generics p parts ++
      eachFirst (fun first b => word (if first then ": " else " + ") ++ boundDoc p b)
        (boundsOf parts) ++
      whereClause p parts true false ++ membersDoc p (memberDoc p) (lastGroup parts)) ++
    word "\x7d" ++ hard

def traitAliasDoc (p : Painter) (t : Host.Tree) : Doc :=
  let parts := t.parts
  outerAttributes p t.children ++
    cbox indent (headDoc "trait" parts ++ generics p parts ++ word " = " ++ never ++
      eachFirst (fun first b => (if first then [] else space ++ word "+ ") ++ boundDoc p b)
        (boundsOf parts) ++
      whereClause p parts true true) ++ hard

def implDoc (p : Painter) (t : Host.Tree) : Doc :=
  let parts := t.parts
  let rest := (afterKeyword "impl" parts).filter fun c =>
    !c.is .generics && !c.is .whereClause && !isGroup c
  let subject := rest.flatMap fun c =>
    match c with
    | .token _ => if c.isToken "for" then space ++ word "for " else token c
    | c => p.type c
  let words := (parts.takeWhile fun c => !c.isToken "impl").flatMap fun c => token c ++ word " "
  outerAttributes p t.children ++
    cbox indent (
      ibox (-indent) (cbox indent (words ++ word "impl" ++ generics p parts) ++ word " " ++
        subject) ++
      whereClause p parts true false ++ membersDoc p (memberDoc p) (lastGroup parts)) ++
    word "\x7d" ++ hard

def itemDoc (p : Painter) (t : Host.Tree) : Doc :=
  match t with
  | .node .function _ => functionDoc p t
  | .node .constItem _ => constDoc p 0 t
  | .node .staticItem _ => staticDoc p t
  | .node .typeItem _ => typeItemDoc p false t
  | .node .structItem _ => structItemDoc p "struct" t
  | .node .unionItem _ => structItemDoc p "union" t
  | .node .enumItem _ => enumDoc p t
  | .node .traitItem _ => traitDoc p t
  | .node .traitAlias _ => traitAliasDoc p t
  | .node .implItem _ => implDoc p t
  | .node .moduleItem _ => moduleDoc p t
  | .node .foreignModule _ => foreignDoc p t
  | .node .useItem _ => useDoc p t
  | .node .externCrate _ => externCrateDoc p t
  | .node .macroItem _ =>
    outerAttributes p t.children ++ macroCall t.parts (isMacroWithoutBraces t.parts) ++ hard
  | t => token t ++ hard

end InlineMarkup.Pretty
