import InlineMarkup.Host.Grammar.Path

/-!
Types, bounds and generic parameters.
-/

set_option autoImplicit false

namespace InlineMarkup.Host

def atParameterEnd (ts : List TokenTree) : Bool :=
  ts.isEmpty || Look.atPunct "," ts || Look.atPunct ">" ts

def colonBounds (colon : Tree) (bounds : List Tree) : List Tree :=
  if bounds.isEmpty then [] else [colon, .node .bounds bounds]

def lifetimeParameter : Parser (List Tree) := do
  let name ← lifetime
  if ← look (Look.atPunct ":") then
    let colon ← punct ":"
    return name :: colonBounds colon (← plusList atParameterEnd lifetime)
  else return [name]

def typeParameter (g : Grammar) : Parser (List Tree) := do
  let name ← identifier
  let bounds ←
    if ← look (Look.atPunct ":") then
      let colon ← punct ":"
      let stop := fun ts => atParameterEnd ts || Look.atPunct "=" ts
      pure (colonBounds colon (← plusList stop g.bound))
    else pure []
  let default ←
    if ← look (Look.atPunct "=") then
      let equals ← punct "="
      pure [equals, ← g.type true]
    else pure []
  return name :: bounds ++ default

def constParameter (g : Grammar) : Parser (List Tree) := do
  let keyword ← word "const"
  let name ← identifier
  let colon ← punct ":"
  let type ← g.type true
  let default ←
    if ← look (Look.atPunct "=") then
      let equals ← punct "="
      pure [equals, ← constArgument g]
    else pure []
  return keyword :: name :: colon :: type :: default

def parameterOr (g : Grammar) (otherwise : List Tree → Parser Tree) : Parser Tree := do
  let attributes ← outerAttributes g
  let ts ← ahead
  if Look.atLifetime ts then return .node .lifetimeParameter (attributes ++ (← lifetimeParameter))
  else if Look.atIdentifier ts then return .node .typeParameter (attributes ++ (← typeParameter g))
  else if Look.atWord "const" ts then
    return .node .constParameter (attributes ++ (← constParameter g))
  else otherwise attributes

def genericParameter (g : Grammar) : Parser Tree :=
  parameterOr g fun attributes => do
    if ← look (Look.atWord "_") then return .node .typeParameter (attributes ++ [← anyWord])
    else expected ["lifetime", "identifier", "`const`"]

/-- What an item keeps of its parameters and its where clause: those that hold anything. -/
def filled (parts : List Tree) : List Tree :=
  parts.filter fun part =>
    match part with
    | .node .generics [_, _] => false
    | .node .whereClause [_] => false
    | _ => true

def generics (g : Grammar) : Parser (List Tree) := do
  if ← look (Look.atPunct "<") then
    let less ← punct "<"
    let parameters ← separated (Look.atPunct ">") (genericParameter g) ","
    return [.node .generics (less :: parameters ++ [← punct ">"])]
  else return []

def boundParameter (g : Grammar) : Parser Tree :=
  parameterOr g fun _ => expected ["identifier", "lifetime", "`const`"]

def boundLifetimes (g : Grammar) : Parser (List Tree) := do
  if ← look (Look.atWord "for") then
    let keyword ← word "for"
    let less ← punct "<"
    let parameters ← separated (Look.atPunct ">") (boundParameter g) ","
    return [.node .boundLifetimes (keyword :: less :: parameters ++ [← punct ">"])]
  else return []

def returnType (g : Grammar) (plus : Bool) : Parser (List Tree) := do
  if ← look (Look.atPunct "->") then
    let arrow ← punct "->"
    return [.node .returnType [arrow, ← g.type plus]]
  else return []

def callArguments (g : Grammar) : Parser Tree := do
  let inputs ← inGroup .parenthesis (commaList (g.type true))
  return .node .callArguments (inputs :: (← returnType g false))

def endsPlain (path : Tree) : Bool :=
  match path.children.getLast? with
  | some (.node .segment [_]) => true
  | _ => false

def withLastArguments (path : Tree) (arguments : List Tree) : Tree :=
  match path with
  | .node .path segments =>
    match segments.getLast? with
    | some (.node .segment parts) =>
      .node .path (segments.dropLast ++ [.node .segment (parts ++ arguments)])
    | _ => path
  | t => t

def atCallArguments (ts : List TokenTree) : Bool :=
  Look.atGroup .parenthesis ts ||
    Look.atPunct "::" ts && Look.third (Look.atGroup .parenthesis) ts

def constness (allowed : Bool) : Parser (List Tree) := do
  if ← look (Look.atGroup .bracket) then
    let mark ← here
    let t ← inGroup .bracket (return [← word "const"])
    if allowed then return [t] else refuse (.refused "`[const]` is not allowed here") mark
  else if ← look (Look.atWord "const") then
    let mark ← here
    let t ← word "const"
    if allowed then return [t] else refuse (.refused "`const` is not allowed here") mark
  else return []

def traitBound (g : Grammar) (const : Bool) : Parser (List Tree) := do
  let outer ← boundLifetimes g
  let constant ← constness const
  let mark ← here
  let maybe ← optionalPunct "?"
  let inner ← if outer.isEmpty && !maybe.isEmpty then boundLifetimes g else pure []
  let lifetimes := outer ++ inner
  let path ← pathWith g false
  let path ←
    if endsPlain path && (← look atCallArguments) then
      let _ ← optionalPunct "::"
      pure (withLastArguments path [← callArguments g])
    else pure path
  if !lifetimes.isEmpty && !maybe.isEmpty then
    refuse (.refused "`for<...>` binder not allowed with `?` trait polarity modifier") mark
  else return lifetimes ++ constant ++ maybe ++ [path]

def capturedParameter : Parser Tree := do
  let ts ← ahead
  if Look.atLifetime ts then lifetime
  else if Look.atIdentifier ts then identifier
  else if Look.atWord "Self" ts then anyWord
  else expected ["lifetime", "identifier", "`>`"]

def preciseCapture : Parser Tree := do
  let keyword ← word "use"
  let less ← punct "<"
  let parameters ← repeatStep do
    if ← look (Look.atPunct ">") then return ([], false)
    let parameter ← capturedParameter
    if ← look (Look.atPunct ",") then return ([parameter, ← punct ","], true)
    else if ← look (Look.atPunct ">") then return ([parameter], false)
    else expected ["`,`", "`>`"]
  return .node .precise (keyword :: less :: parameters ++ [← punct ">"])

def typeBound (g : Grammar) (precise const : Bool) : Parser Tree := do
  let ts ← ahead
  if Look.atLifetime ts then lifetime
  else if Look.atWord "use" ts then
    let mark ← here
    let capture ← preciseCapture
    if precise then return capture
    else refuse (.refused "`use<...>` precise capturing syntax is not allowed here") mark
  else if Look.atGroup .parenthesis ts then
    return .node .bound [← inGroup .parenthesis (traitBound g const)]
  else return .node .bound (← traitBound g const)

/-- Whether another bound follows a plus sign. -/
def atMoreBounds (const : Bool) (ts : List TokenTree) : Bool :=
  Look.atAnyWord ts || Look.atPunct "::" ts || Look.atPunct "?" ts || Look.atLifetime ts ||
    Look.atGroup .parenthesis ts ||
    const && (Look.atGroup .bracket ts || Look.atWord "const" ts)

def typeBounds (g : Grammar) (plus precise const : Bool) : Parser (List Tree) :=
  repeatStep do
    let bound ← typeBound g precise const
    if plus && (← look (Look.atPunct "+")) then
      let sign ← punct "+"
      return ([bound, sign], ← look (atMoreBounds const))
    else return ([bound], false)

def hasTrait (bounds : List Tree) : Bool :=
  bounds.any (·.is .bound)

def atPredicatesEnd (ts : List TokenTree) : Bool :=
  ts.isEmpty || Look.atGroup .brace ts || Look.atPunct "," ts || Look.atPunct ";" ts ||
    Look.atPunct ":" ts && !Look.atPunct "::" ts || Look.atPunct "=" ts

def atOutlivesEnd (ts : List TokenTree) : Bool :=
  atPredicatesEnd ts || Look.atPunct ":" ts

def wherePredicate (g : Grammar) : Parser Tree := do
  if ← look fun ts => Look.atLifetime ts && Look.second (Look.atPunct ":") ts then
    let name ← lifetime
    let colon ← punct ":"
    return .node .wherePredicate
      [name, colon, .node .bounds (← plusList atOutlivesEnd lifetime)]
  else
    let lifetimes ← boundLifetimes g
    let type ← g.type true
    let colon ← punct ":"
    return .node .wherePredicate
      (lifetimes ++ [type, colon, .node .bounds (← plusList atPredicatesEnd g.bound)])

def atGenericsRatherThanPath (ts : List TokenTree) : Bool :=
  Look.atPunct "<" ts &&
    (Look.second (Look.atPunct ">") ts || Look.second (Look.atPunct "#") ts ||
      (Look.second Look.atLifetime ts || Look.second Look.atIdentifier ts) &&
        (Look.third (Look.atPunct ">") ts || Look.third (Look.atPunct ",") ts ||
          Look.third (Look.atPunct ":") ts && !Look.third (Look.atPunct "::") ts ||
          Look.third (Look.atPunct "=") ts) ||
      Look.second (Look.atWord "const") ts)

def whereClause (g : Grammar) : Parser (List Tree) := do
  if ← look (Look.atWord "where") then
    let keyword ← word "where"
    if ← look atGenericsRatherThanPath then
      forbid "generic parameters on `where` clauses are reserved for future use"
    let predicates ← repeatStep do
      if ← look atPredicatesEnd then return ([], false)
      let predicate ← wherePredicate g
      if ← look (Look.atPunct ",") then return ([predicate, ← punct ","], true)
      else return ([predicate], false)
    return [.node .whereClause (keyword :: predicates)]
  else return []

def convention : Parser Tree := do
  let keyword ← word "extern"
  return .node .abi (keyword :: (← optional Look.atString literalToken))

def abi : Parser (List Tree) :=
  optional (Look.atWord "extern") convention

def atVariadicArgument (ts : List TokenTree) : Bool :=
  Look.atPunct "..." ts ||
    (Look.atIdentifier ts || Look.atWord "_" ts) && Look.second (Look.atPunct ":") ts &&
      Look.third (Look.atPunct "...") ts

def variadicArgument (attributes : List Tree) : Parser (List Tree) := do
  let name ← if ← look (Look.atPunct "...") then pure [] else pure [← anyWord, ← punct ":"]
  let dots ← punct "..."
  return .node .variadic (attributes ++ name ++ [dots]) :: (← optionalPunct ",")

def atMutableSelf (ts : List TokenTree) : Bool :=
  Look.atWord "mut" ts && Look.second (Look.atWord "self") ts

def atArgumentName (first : Bool) (ts : List TokenTree) : Bool :=
  (Look.atIdentifier ts || Look.atWord "_" ts || first && Look.atWord "self" ts) &&
    Look.second (Look.atPunct ":") ts && !Look.second (Look.atPunct "::") ts

/-- One argument of a function type. Where it is the first, it may be a receiver, which is kept as
written. -/
def functionTypeArgument (g : Grammar) (first : Bool) (attributes : List Tree) :
    Parser Tree := do
  let start ← ahead
  let mutable := first && atMutableSelf start
  if mutable then
    let _ ← word "mut"
  let self ← look (Look.atWord "self")
  let name ←
    if ← look (atArgumentName first) then pure [← anyWord, ← punct ":"] else pure []
  if first && !(self && !name.isEmpty) && (← look atMutableSelf) then
    let _ ← word "mut"
    let _ ← word "self"
    return .node .functionTypeArgument (attributes ++ [← verbatimSince start])
  else if mutable && name.isEmpty then
    let _ ← word "self"
    return .node .functionTypeArgument (attributes ++ [← verbatimSince start])
  else
    let type ← g.type true
    if mutable then return .node .functionTypeArgument (attributes ++ [← verbatimSince start])
    else return .node .functionTypeArgument (attributes ++ name ++ [type])

def functionTypeArguments (g : Grammar) : Nat → Bool → Parser (List Tree)
  | 0, _ => return []
  | fuel + 1, first => do
    if ← isEmpty then return []
    let attributes ← outerAttributes g
    if ← look atVariadicArgument then variadicArgument attributes
    else
      let argument ← functionTypeArgument g first attributes
      if ← isEmpty then return [argument]
      let comma ← punct ","
      return argument :: comma :: (← functionTypeArguments g fuel false)

def functionType (g : Grammar) (lifetimes : List Tree) : Parser Tree := do
  let more ← boundLifetimes g
  let unsafety ← optionalWord "unsafe"
  let convention ← abi
  let keyword ← word "fn"
  let inputs ← inGroup .parenthesis do
    functionTypeArguments g ((← ahead).length + 1) true
  return .node .functionType
    (lifetimes ++ more ++ unsafety ++ convention ++ keyword :: inputs :: (← returnType g false))

def pathType (g : Grammar) (plus : Bool) (lifetimes : List Tree) : Parser Tree := do
  let path ← qualifiedPath g false
  match path with
  | [path] =>
    if (← look atBang) && isModulePath path then
      let bang ← punct "!"
      return .node .macroType [path, bang, ← macroGroup g]
    else if !lifetimes.isEmpty || plus && (← look (Look.atPunct "+")) then
      let first := Tree.node .bound (lifetimes ++ [path])
      let more ← repeatStep do
        if plus && (← look (Look.atPunct "+")) then
          let sign ← punct "+"
          if ← look (atMoreBounds false) then return ([sign, ← typeBound g false false], true)
          else return ([sign], false)
        else return ([], false)
      return .node .objectType [.node .bounds (first :: more)]
    else return .node .pathType [path]
  | parts => return .node .pathType parts

def atPathType (ts : List TokenTree) : Bool :=
  Look.atIdentifier ts || Look.atWord "super" ts || Look.atWord "self" ts ||
    Look.atWord "Self" ts || Look.atWord "crate" ts || Look.atPunct "::" ts || Look.atPunct "<" ts

def atFunctionType (ts : List TokenTree) : Bool :=
  Look.atWord "fn" ts || Look.atWord "unsafe" ts || Look.atWord "extern" ts

def pointerType (g : Grammar) : Parser Tree := do
  let star ← punct "*"
  let ts ← ahead
  let mutability ←
    if Look.atWord "const" ts then word "const"
    else if Look.atWord "mut" ts then word "mut"
    else expected ["`const`", "`mut`"]
  return .node .pointerType [star, mutability, ← g.type false]

def referenceType (g : Grammar) : Parser Tree := do
  let ampersand ← punct "&"
  let name ← optional Look.atLifetime lifetime
  let mutability ← optionalWord "mut"
  return .node .referenceType (ampersand :: name ++ mutability ++ [← g.type false])

def bracketType (g : Grammar) : Parser Tree := do
  let group ← inGroup .bracket do
    let element ← g.type true
    if ← look (Look.atPunct ";") then
      let semicolon ← punct ";"
      return [element, semicolon, ← g.expr true]
    else return [element]
  match group.children with
  | [_] => return .node .sliceType [group]
  | _ => return .node .arrayType [group]

def objectType (g : Grammar) (plus : Bool) : Parser Tree := do
  let mark ← here
  let keyword ← word "dyn"
  let star ← optionalPunct "*"
  let bounds ← typeBounds g plus false false
  if hasTrait bounds then return .node .objectType (keyword :: star ++ [.node .bounds bounds])
  else refuse (.refused "at least one trait is required for an object type") mark

def implType (g : Grammar) (plus : Bool) : Parser Tree := do
  let mark ← here
  let keyword ← word "impl"
  let bounds ← typeBounds g plus true true
  if hasTrait bounds then return .node .implType [keyword, .node .bounds bounds]
  else refuse (.refused "at least one trait must be specified") mark

def lifetimeObjectType (g : Grammar) : Parser Tree := do
  let mark ← here
  let bounds ← typeBounds g true false false
  if hasTrait bounds then return .node .objectType [.node .bounds bounds]
  else refuse (.refused "at least one trait is required for an object type") mark

def moreBounds (g : Grammar) : Parser (List Tree) :=
  repeatStep do
    if ← look (Look.atPunct "+") then
      let sign ← punct "+"
      return ([sign, ← typeBound g false false], true)
    else return ([], false)

/-- A type in parentheses that is one bound, so that others may be joined to it. -/
def isOneBound (t : Tree) : Bool :=
  match t with
  | .node .pathType [.node .path _] => true
  | .node .objectType [.node .bounds [_]] => true
  | _ => false

def parenType (g : Grammar) (plus : Bool) : Parser Tree := do
  let group ← inGroup .parenthesis do
    let ts ← ahead
    if ts.isEmpty then return []
    else if Look.atLifetime ts then
      return [← lifetimeObjectType g]
    else if Look.atPunct "?" ts then return [.node .bound (← traitBound g true)]
    else
      let first ← g.type true
      if ← look (Look.atPunct ",") then
        let comma ← punct ","
        return first :: comma :: (← commaList (g.type true))
      else return [first]
  match group.children with
  | [] => return .node .tupleType [group]
  | [one] =>
    if one.is .bound then
      return .node .objectType [.node .bounds (.node .bound [group] :: (← moreBounds g))]
    else if plus && isOneBound one && (← look (Look.atPunct "+")) then
      return .node .objectType [.node .bounds (.node .bound [group] :: (← moreBounds g))]
    else return .node .parenType [group]
  | _ => return .node .tupleType [group]

def atAfterBoundLifetimes (ts : List TokenTree) : Bool :=
  (Look.atIdentifier ts || atFunctionType ts || Look.atWord "super" ts || Look.atWord "self" ts ||
    Look.atWord "Self" ts || Look.atWord "crate" ts) && !Look.atWord "dyn" ts

def typeWith (g : Grammar) (plus : Bool) : Parser Tree := do
  let lifetimes ← boundLifetimes g
  let ts ← ahead
  if !lifetimes.isEmpty && !atAfterBoundLifetimes ts then
    expected ["identifier", "`fn`", "`unsafe`", "`extern`", "`super`", "`self`", "`Self`",
      "`crate`"]
  if Look.atGroup .parenthesis ts then parenType g plus
  else if atFunctionType ts then functionType g lifetimes
  else if atBuiltin ts then builtinForm
  else if atPathType ts then pathType g plus lifetimes
  else if Look.atWord "dyn" ts then objectType g plus
  else if Look.atGroup .bracket ts then bracketType g
  else if Look.atPunct "*" ts then pointerType g
  else if Look.atPunct "&" ts then referenceType g
  else if Look.atPunct "!" ts then return .node .neverType [← punct "!"]
  else if Look.atWord "impl" ts then implType g plus
  else if Look.atWord "_" ts then return .node .inferredType [← word "_"]
  else if Look.atLifetime ts then lifetimeObjectType g
  else
    expected ["`for`", "parentheses", "`fn`", "`unsafe`", "`extern`", "identifier", "`::`", "`<`",
      "`dyn`", "square brackets", "`*`", "`&`", "`!`", "`impl`", "`_`", "lifetime"]

end InlineMarkup.Host
