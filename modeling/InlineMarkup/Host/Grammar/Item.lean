import InlineMarkup.Host.Grammar.Statement

/-!
Items: functions, types, traits, implementations, modules, and what they hold.

Forms that the language does not have but its parsers accept are kept as written.
-/

set_option autoImplicit false

namespace InlineMarkup.Host

/-- A visibility's restriction in parentheses, unless these belong to a tuple field. -/
def restriction : Parser (List Tree) := do
  match ← ahead with
  | .group .parenthesis contents _ _ :: _ =>
    if Look.atWord "in" contents then
      return [← inGroup .parenthesis (return [← word "in", ← modulePath])]
    else if contents.length == 1 && (Look.atWord "crate" contents || Look.atWord "self" contents ||
        Look.atWord "super" contents) then
      return [← inGroup .parenthesis (return [.node .path [segmentOf (← anyWord)]])]
    else return []
  | _ => return []

def visibility : Parser (List Tree) := do
  if ← look (Look.atWord "pub") then
    let keyword ← word "pub"
    return [.node .visibility (keyword :: (← restriction))]
  else return []

def receiver (g : Grammar) : Parser Tree := do
  let reference ←
    if ← look (Look.atPunct "&") then
      let ampersand ← punct "&"
      pure (ampersand :: (← optional Look.atLifetime lifetime))
    else pure []
  let mutability ← optionalWord "mut"
  let self ← word "self"
  if !reference.isEmpty && (← look (Look.atPunct "::")) then expected ["`,`"]
  else if reference.isEmpty && (← look (Look.atPunct ":")) then
    let colon ← punct ":"
    return .node .receiver (mutability ++ [self, colon, ← g.type true])
  else return .node .receiver (reference ++ mutability ++ [self])

def selfMark (receiver : Tree) : Text.Mark :=
  match receiver.tokens.find? fun t => t.text == "self".toList with
  | some t => t.start
  | none => Text.Mark.first

def unnamed : List Tree :=
  [.node .wildPattern [.token [.word ['_'] Span.nowhere]], .token [.punct ':' false Span.nowhere]]

def functionArgument (g : Grammar) (earlier : List Tree) : Parser Tree := do
  let attributes ← outerAttributes g
  if ← look (Look.atPunct "...") then
    return .node .variadic (attributes ++ [← punct "..."])
  match ← tentatively (receiver g) with
  | some self =>
    if earlier.any (·.is .receiver) then
      refuse (.refused "unexpected second method receiver") (selfMark self)
    else if !earlier.isEmpty then
      refuse (.refused "unexpected method receiver") (selfMark self)
    else return self.withAttributes attributes
  | none =>
    -- a name before generic arguments is a type, of an argument without name
    if ← look fun ts => Look.atIdentifier ts && Look.second (Look.atPunct "<") ts then
      return .node .typedArgument (attributes ++ unnamed ++ [← g.type true])
    let pattern ← g.pattern
    let colon ← punct ":"
    if ← look (Look.atPunct "...") then
      return .node .variadic (attributes ++ [pattern, colon, ← punct "..."])
    else return .node .typedArgument (attributes ++ [pattern, colon, ← g.type true])

def functionArguments (g : Grammar) : Nat → List Tree → Parser (List Tree)
  | 0, earlier => return earlier
  | fuel + 1, earlier => do
    if ← isEmpty then return earlier
    let next ← functionArgument g earlier
    if ← isEmpty then return earlier ++ [next]
    let comma ← punct ","
    if next.is .variadic then return earlier ++ [next, comma]
    else functionArguments g fuel (earlier ++ [next, comma])

def signature (g : Grammar) (safe : Bool) : Parser Tree := do
  let constness ← optionalWord "const"
  let asyncness ← optionalWord "async"
  let safety ←
    if safe && (← look (Look.atWord "safe")) then pure [← word "safe"] else optionalWord "unsafe"
  let convention ← abi
  let keyword ← word "fn"
  let name ← identifier
  let parameters ← generics g
  let inputs ← inGroup .parenthesis do functionArguments g ((← ahead).length + 1) []
  let output ← returnType g true
  let clause ← whereClause g
  return .node .signature (constness ++ asyncness ++ safety ++ convention ++ keyword :: name ::
    filled parameters ++ inputs :: output ++ filled clause)

def function (g : Grammar) (start : List TokenTree) (attributes : List Tree) : Parser Tree := do
  let visible ← visibility
  let sig ← signature g false
  if ← look (Look.atPunct ";") then
    let _ ← punct ";"
    verbatimSince start
  else return .node .function (attributes ++ visible ++ [sig, ← body g])

def newName (underscore : Parser Tree) : Parser (List Tree) := do
  if ← look (Look.atWord "as") then
    let as ← word "as"
    return [as, ← underscore]
  else return []

def externCrate (attributes : List Tree) : Parser Tree := do
  let visible ← visibility
  let outside ← word "extern"
  let keyword ← word "crate"
  let name ← if ← look (Look.atWord "self") then anyWord else identifier
  let rename ← newName do if ← look (Look.atWord "_") then anyWord else identifier
  let semicolon ← punct ";"
  return .node .externCrate
    (attributes ++ visible ++ outside :: keyword :: name :: rename ++ [semicolon])

/-- A tree of uses; whether a double colon may begin the trees in its braces. -/
def useTree (rooted : Bool) : Nat → Parser Tree
  | 0 => expected ["identifier"]
  | fuel + 1 => do
    let ts ← ahead
    if Look.atIdentifier ts || Look.atWord "self" ts || Look.atWord "super" ts ||
        Look.atWord "crate" ts || Look.atWord "try" ts then
      let name ← anyWord
      if ← look (Look.atPunct "::") then
        let colons ← punct "::"
        return .node .useTree [name, colons, ← useTree false fuel]
      else
        let rename ← newName do
          let ts ← ahead
          if Look.atIdentifier ts then identifier
          else if Look.atWord "_" ts then anyWord
          else forbid "expected identifier or underscore"
        return .node .useTree (name :: rename)
    else if Look.atPunct "*" ts then return .node .useTree [← punct "*"]
    else if Look.atGroup .brace ts then
      let one : Parser Tree := do
        let root ← if rooted then optionalPunct "::" else pure []
        return .node .useTree (root ++ [← useTree (rooted && root.isEmpty) fuel])
      return .node .useTree [← inGroup .brace (commaList one)]
    else
      expected ["identifier", "`self`", "`super`", "`crate`", "`try`", "`*`", "curly braces"]

def groupDepth : List TokenTree → Nat
  | [] => 0
  | .group _ contents _ _ :: ts => max (groupDepth contents + 1) (groupDepth ts + 1)
  | _ :: ts => groupDepth ts + 1

def useItem (attributes : List Tree) : Parser Tree := do
  let visible ← visibility
  let keyword ← word "use"
  let root ← optionalPunct "::"
  let tree ← useTree root.isEmpty (2 * groupDepth (← ahead) + 2)
  let semicolon ← punct ";"
  return .node .useItem (attributes ++ visible ++ keyword :: root ++ [tree, semicolon])

/-- A constant, in a file, a trait or an implementation. It is kept as written if it has
parameters, or no value where it needs one. -/
def constItem (g : Grammar) (start : List TokenTree) (attributes : List Tree) (valued : Bool) :
    Parser Tree := do
  let keyword ← word "const"
  let ts ← ahead
  let name ←
    if Look.atIdentifier ts || Look.atWord "_" ts then anyWord
    else expected ["identifier", "`_`"]
  let parameters ← generics g
  let colon ← punct ":"
  let type ← g.type true
  let value ←
    if ← look (Look.atPunct "=") then
      let equals ← punct "="
      pure [equals, ← g.expr true]
    else pure []
  let clause ← whereClause g
  let semicolon ← punct ";"
  if parameters.isEmpty && clause.isEmpty && (!valued || !value.isEmpty) then
    return .node .constItem (attributes ++ keyword :: name :: colon :: type :: value ++ [semicolon])
  else verbatimSince start

def staticItem (g : Grammar) (start : List TokenTree) (attributes : List Tree) :
    Parser Tree := do
  let visible ← visibility
  let keyword ← word "static"
  let mutability ← optionalWord "mut"
  let name ← identifier
  -- without a type it is kept as written, and so it is without a value
  if ← look (Look.atPunct "=") then
    let _ ← punct "="
    let _ ← g.expr true
    let _ ← punct ";"
    return ← verbatimSince start
  let colon ← punct ":"
  let type ← g.type true
  if ← look (Look.atPunct ";") then
    let _ ← punct ";"
    verbatimSince start
  else
    let equals ← punct "="
    let value ← g.expr true
    let semicolon ← punct ";"
    return .node .staticItem (attributes ++ visible ++ keyword :: mutability ++
      [name, colon, type, equals, value, semicolon])

inductive ClausePlace where
  | before
  | after
  | either
  deriving DecidableEq

def atAliasBoundsEnd (ts : List TokenTree) : Bool :=
  Look.atWord "where" ts || Look.atPunct "=" ts || Look.atPunct ";" ts

def bounds (g : Grammar) (stop : List TokenTree → Bool) : Parser (List Tree) :=
  separated stop (typeBound g false true) "+"

def limits (g : Grammar) (stop : List TokenTree → Bool) : Parser (Bool × List Tree) := do
  if ← look (Look.atPunct ":") then
    let colon ← punct ":"
    return (true, colonBounds colon (← bounds g stop))
  else return (false, [])

structure Alias where
  parts : List Tree
  bounded : Bool
  defined : Bool

def typeAlias (g : Grammar) (place : ClausePlace) : Parser Alias := do
  let keyword ← word "type"
  let name ← identifier
  let parameters ← generics g
  let (bounded, limits) ← limits g atAliasBoundsEnd
  let before ← if place = .after then pure [] else whereClause g
  let definition ←
    if ← look (Look.atPunct "=") then
      let equals ← punct "="
      pure [equals, ← g.type true]
    else pure []
  let after ← if place = .before || !before.isEmpty then pure [] else whereClause g
  let semicolon ← punct ";"
  return ⟨keyword :: name :: filled parameters ++ limits ++ filled before ++ definition ++
    filled after ++ [semicolon], bounded, !definition.isEmpty⟩

def typeItem (g : Grammar) (start : List TokenTree) (attributes : List Tree) : Parser Tree := do
  let visible ← visibility
  let definition ← typeAlias g .before
  if definition.defined && !definition.bounded then
    return .node .typeItem (attributes ++ visible ++ definition.parts)
  else verbatimSince start

def atFieldsInPlace (ts : List TokenTree) : Bool :=
  Look.atWord "struct" ts || Look.atWord "union" ts && Look.second (Look.atGroup .brace) ts

/-- Fields that have names, in braces. The type of a field without a name of its own may be
written in place; it is kept as written. -/
def namedFieldsFuel (g : Grammar) : Nat → Parser Tree
  | 0 => expected ["curly braces"]
  | fuel + 1 => do
    let field : Parser Tree := do
      let attributes ← outerAttributes g
      let visible ← visibility
      let anonymous ← look (Look.atWord "_")
      let name ← if anonymous then anyWord else identifier
      let colon ← punct ":"
      let start ← ahead
      let type ←
        if anonymous && atFieldsInPlace start then
          let _ ← anyWord
          let _ ← namedFieldsFuel g fuel
          verbatimSince start
        else g.type true
      return .node .fieldDefinition (attributes ++ visible ++ [name, colon, type])
    return .node .namedFields [← inGroup .brace (commaList field)]

def namedFields (g : Grammar) : Parser Tree := do
  namedFieldsFuel g (groupDepth (← ahead) + 1)

def tupleField (g : Grammar) : Parser Tree := do
  let attributes ← outerAttributes g
  let visible ← visibility
  return .node .fieldDefinition (attributes ++ visible ++ [← g.type true])

def tupleFields (g : Grammar) : Parser Tree :=
  return .node .tupleFields [← inGroup .parenthesis (commaList (tupleField g))]

def structBody (g : Grammar) : Parser (List Tree) := do
  let clause ← whereClause g
  let ts ← ahead
  if clause.isEmpty && Look.atGroup .parenthesis ts then
    let fields ← tupleFields g
    let clause ← whereClause g
    if ← look (Look.atPunct ";") then return fields :: filled clause ++ [← punct ";"]
    else if clause.isEmpty then expected ["`where`", "`;`"]
    else expected ["`;`"]
  else if Look.atGroup .brace ts then return filled clause ++ [← namedFields g]
  else if Look.atPunct ";" ts then return filled clause ++ [← punct ";"]
  else if clause.isEmpty then expected ["`where`", "parentheses", "curly braces", "`;`"]
  else expected ["curly braces", "`;`"]

def structItem (g : Grammar) (attributes : List Tree) : Parser Tree := do
  let visible ← visibility
  let keyword ← word "struct"
  let name ← identifier
  let parameters ← generics g
  return .node .structItem (attributes ++ visible ++ keyword :: name :: filled parameters ++
    (← structBody g))

def variant (g : Grammar) : Parser Tree := do
  let attributes ← outerAttributes g
  -- a visibility may stand here and is dropped
  let _ ← visibility
  let name ← identifier
  let ts ← ahead
  let fields ←
    if Look.atGroup .brace ts then pure [← namedFields g]
    else if Look.atGroup .parenthesis ts then pure [← tupleFields g]
    else pure []
  let value ←
    if ← look (Look.atPunct "=") then
      let equals ← punct "="
      pure [equals, ← g.expr true]
    else pure []
  return .node .variant (attributes ++ name :: fields ++ value)

def enumItem (g : Grammar) (attributes : List Tree) : Parser Tree := do
  let visible ← visibility
  let keyword ← word "enum"
  let name ← identifier
  let parameters ← generics g
  let clause ← whereClause g
  let variants ← inGroup .brace (commaList (variant g))
  return .node .enumItem
    (attributes ++ visible ++ keyword :: name :: filled (parameters ++ clause) ++ [variants])

def unionItem (g : Grammar) (attributes : List Tree) : Parser Tree := do
  let visible ← visibility
  let keyword ← word "union"
  let name ← identifier
  let parameters ← generics g
  let clause ← whereClause g
  let fields ← namedFields g
  return .node .unionItem
    (attributes ++ visible ++ keyword :: name :: filled (parameters ++ clause) ++ [fields])

def macroItem (g : Grammar) (attributes : List Tree) (named : Bool) : Parser Tree := do
  let path ← modulePath
  let bang ← punct "!"
  let name ←
    if !named then pure []
    else if ← look (Look.atWord "try") then pure [← anyWord]
    else optional Look.atIdentifier identifier
  let group ← macroGroup g
  let semicolon ← if isBraceGroup group then pure [] else pure [← punct ";"]
  return .node .macroItem (attributes ++ path :: bang :: name ++ group :: semicolon)

def macroDefinition (start : List TokenTree) : Parser Tree := do
  let _ ← visibility
  let _ ← word "macro"
  let _ ← identifier
  let parenthesised ← look (Look.atGroup .parenthesis)
  if parenthesised then
    let _ ← inGroup .parenthesis anything
  if ← look (Look.atGroup .brace) then
    let _ ← inGroup .brace anything
    verbatimSince start
  else if parenthesised then expected ["curly braces"]
  else expected ["parentheses", "curly braces"]

def atMacroPath (ts : List TokenTree) : Bool :=
  Look.atIdentifier ts || Look.atWord "self" ts || Look.atWord "super" ts ||
    Look.atWord "crate" ts || Look.atPunct "::" ts

def macroPathNames : List String := ["identifier", "`self`", "`super`", "`crate`", "`::`"]

def traitFunction (g : Grammar) (attributes : List Tree) : Parser Tree := do
  let sig ← signature g false
  let ts ← ahead
  if Look.atGroup .brace ts then return .node .function (attributes ++ [sig, ← body g])
  else if Look.atPunct ";" ts then return .node .function (attributes ++ [sig, ← punct ";"])
  else expected ["curly braces", "`;`"]

def traitItemRest (g : Grammar) (start : List TokenTree) (attributes : List Tree)
    (plain : Bool) : Parser Tree := do
  let ts ← ahead
  if atSignature false ts then traitFunction g attributes
  else if Look.atWord "const" ts then
    if Look.second Look.atIdentifier ts || Look.second (Look.atWord "_") ts then
      constItem g start attributes false
    else if ["async", "unsafe", "extern", "fn"].any fun s => Look.second (Look.atWord s) ts then
      traitFunction g attributes
    else
      let _ ← word "const"
      expected ["identifier", "`_`", "`async`", "`unsafe`", "`extern`", "`fn`"]
  else if Look.atWord "type" ts then
    let definition ← typeAlias g .after
    return .node .typeItem (attributes ++ definition.parts)
  else if plain && atMacroPath ts then macroItem g attributes false
  else expected (["`fn`", "`const`", "`type`"] ++ if plain then macroPathNames else [])

def traitMember (g : Grammar) : Parser Tree := do
  let start ← ahead
  let attributes ← outerAttributes g
  let visible ← visibility
  let defaultness ← optionalWord "default"
  let plain := visible.isEmpty && defaultness.isEmpty
  let member ← traitItemRest g start attributes plain
  if plain then return member else verbatimSince start

def atTraitBody (ts : List TokenTree) : Bool :=
  Look.atWord "where" ts || Look.atGroup .brace ts

def members (g : Grammar) (one : Parser Tree) : Parser Tree :=
  inGroup .brace do
    let attributes ← innerAttributes g
    return attributes ++ (← untilEmpty one)

def traitRest (g : Grammar) : Parser (List Tree) := do
  let (_, supers) ← limits g atTraitBody
  let clause ← whereClause g
  return supers ++ filled clause ++ [← members g (traitMember g)]

def traitItem (g : Grammar) (attributes : List Tree) : Parser Tree := do
  let visible ← visibility
  let unsafety ← optionalWord "unsafe"
  let auto ← optionalWord "auto"
  let keyword ← word "trait"
  let name ← identifier
  let parameters ← generics g
  return .node .traitItem (attributes ++ visible ++ unsafety ++ auto ++ keyword :: name ::
    filled parameters ++ (← traitRest g))

def traitOrAlias (g : Grammar) (attributes : List Tree) : Parser Tree := do
  let visible ← visibility
  let keyword ← word "trait"
  let name ← identifier
  let parameters ← generics g
  let head := attributes ++ visible ++ keyword :: name :: filled parameters
  let ts ← ahead
  if atTraitBody ts || Look.atPunct ":" ts then return .node .traitItem (head ++ (← traitRest g))
  else if Look.atPunct "=" ts then
    let equals ← punct "="
    let stop := fun ts => Look.atWord "where" ts || Look.atPunct ";" ts
    let bounds := Tree.node .bounds (← bounds g stop)
    let clause ← whereClause g
    return .node .traitAlias (head ++ equals :: bounds :: filled clause ++ [← punct ";"])
  else expected ["curly braces", "`:`", "`where`", "`=`"]

def implFunction (g : Grammar) (start : List TokenTree) (attributes : List Tree) :
    Parser Tree := do
  let visible ← visibility
  let defaultness ← optionalWord "default"
  let sig ← signature g false
  if ← look (Look.atPunct ";") then
    let _ ← punct ";"
    verbatimSince start
  else return .node .function (attributes ++ visible ++ defaultness ++ [sig, ← body g])

def implConst (g : Grammar) (start : List TokenTree) (attributes : List Tree) : Parser Tree := do
  let visible ← visibility
  let defaultness ← optionalWord "default"
  constItem g start (attributes ++ visible ++ defaultness) true

def implAlias (g : Grammar) (start : List TokenTree) (attributes : List Tree) : Parser Tree := do
  let visible ← visibility
  let defaultness ← optionalWord "default"
  let definition ← typeAlias g .after
  if definition.defined && !definition.bounded then
    return .node .typeItem (attributes ++ visible ++ defaultness ++ definition.parts)
  else verbatimSince start

def implMember (g : Grammar) : Parser Tree := do
  let start ← ahead
  let attributes ← outerAttributes g
  let before ← get
  let visible ← visibility
  let ts ← ahead
  let default := Look.atWord "default" ts && !Look.second (Look.atPunct "!") ts
  let word := Look.atWord "default" ts
  let ts := if default then ts.drop 1 else ts
  if atSignature false ts then
    set before
    implFunction g start attributes
  else if Look.atWord "const" ts then
    set before
    implConst g start attributes
  else if Look.atWord "type" ts then
    set before
    implAlias g start attributes
  else if visible.isEmpty && !default && atMacroPath ts then macroItem g attributes false
  else
    let _ ← if default then optionalWord "default" else pure []
    expected (nameUnless word "`default`" ++ ["`fn`", "`const`", "`type`"] ++
      if visible.isEmpty && !default then macroPathNames else [])

def implItem (g : Grammar) (start : List TokenTree) (attributes : List Tree) : Parser Tree := do
  let visible ← visibility
  let defaultness ← optionalWord "default"
  let unsafety ← optionalWord "unsafe"
  let keyword ← word "impl"
  let parameters ← if ← look atGenericsRatherThanPath then generics g else pure []
  let constness ←
    if ← look fun ts => Look.atWord "const" ts ||
        Look.atPunct "?" ts && Look.second (Look.atWord "const") ts then
      pure ((← optionalPunct "?") ++ [← word "const"])
    else pure []
  let mark ← here
  let polarity ←
    if ← look fun ts => Look.atPunct "!" ts && !Look.second (Look.atGroup .brace) ts then
      pure [← punct "!"]
    else pure []
  let first ← g.type true
  let implemented ←
    if ← look (Look.atWord "for") then
      let for' ← word "for"
      pure [for', ← g.type true]
    else if polarity.isEmpty then pure []
    else refuse (.refused "inherent impls cannot be negative") mark
  let clause ← whereClause g
  let contents ← members g (implMember g)
  let ofPath := match first with
    | .node .pathType [_] => true
    | _ => false
  if visible.isEmpty && constness.isEmpty && (implemented.isEmpty || ofPath) then
    return .node .implItem (attributes ++ defaultness ++ unsafety ++ keyword ::
      filled parameters ++ polarity ++ first :: implemented ++ filled clause ++ [contents])
  else verbatimSince start

def moduleItem (g : Grammar) (attributes : List Tree) : Parser Tree := do
  let visible ← visibility
  let unsafety ← optionalWord "unsafe"
  let keyword ← word "mod"
  let name ← if ← look (Look.atWord "try") then anyWord else identifier
  let head := attributes ++ visible ++ unsafety ++ [keyword, name]
  let ts ← ahead
  if Look.atPunct ";" ts then return .node .moduleItem (head ++ [← punct ";"])
  else if Look.atGroup .brace ts then return .node .moduleItem (head ++ [← members g g.item])
  else expected ["`;`", "curly braces"]

def foreignFunction (g : Grammar) (start : List TokenTree) (attributes visible : List Tree) :
    Parser Tree := do
  let sig ← signature g true
  let safe := (sig.children.takeWhile (!·.isToken "fn")).any (·.isToken "safe")
  if safe || (← look (Look.atGroup .brace)) then
    if ← look (Look.atGroup .brace) then
      let _ ← body g
    else
      let _ ← punct ";"
    verbatimSince start
  else return .node .function (attributes ++ visible ++ [sig, ← punct ";"])

def foreignStatic (g : Grammar) (start : List TokenTree) (attributes visible : List Tree) :
    Parser Tree := do
  let safety ← if ← look (Look.atWord "safe") then pure [← word "safe"] else optionalWord "unsafe"
  let keyword ← word "static"
  let mutability ← optionalWord "mut"
  let name ← identifier
  let colon ← punct ":"
  let type ← g.type true
  let valued ← look (Look.atPunct "=")
  if valued then
    let _ ← punct "="
    let _ ← g.expr true
  let semicolon ← punct ";"
  if valued || !safety.isEmpty then verbatimSince start
  else
    return .node .staticItem
      (attributes ++ visible ++ keyword :: mutability ++ [name, colon, type, semicolon])

def foreignMember (g : Grammar) : Parser Tree := do
  let start ← ahead
  let attributes ← outerAttributes g
  let visible ← visibility
  let ts ← ahead
  if atSignature true ts then foreignFunction g start attributes visible
  else if Look.atWord "static" ts || (Look.atWord "unsafe" ts || Look.atWord "safe" ts) &&
      Look.second (Look.atWord "static") ts then
    foreignStatic g start attributes visible
  else if Look.atWord "type" ts then
    let definition ← typeAlias g .either
    if definition.defined || definition.bounded then verbatimSince start
    else return .node .typeItem (attributes ++ visible ++ definition.parts)
  else if visible.isEmpty && atMacroPath ts then macroItem g attributes false
  else expected (["`fn`", "`static`", "`type`"] ++ if visible.isEmpty then macroPathNames else [])

def foreignModule (g : Grammar) (attributes : List Tree) : Parser Tree := do
  let unsafety ← optionalWord "unsafe"
  let convention ← convention
  return .node .foreignModule
    (attributes ++ unsafety ++ [convention, ← members g (foreignMember g)])

def externItem (g : Grammar) (attributes : List Tree) (ts : List TokenTree) : Parser Tree := do
  let named := Look.second Look.atString ts
  if Look.second (Look.atWord "crate") ts then externCrate attributes
  else if Look.second (Look.atGroup .brace) ts || named && Look.third (Look.atGroup .brace) ts then
    foreignModule g attributes
  else
    let _ ← visibility
    let _ ← word "extern"
    if named then
      let _ ← literalToken
      expected ["curly braces"]
    else expected ["`crate`", "curly braces", "string literal"]

def unsafeItem (g : Grammar) (start : List TokenTree) (attributes : List Tree)
    (ts : List TokenTree) : Parser Tree := do
  if Look.second (Look.atWord "trait") ts ||
      Look.second (Look.atWord "auto") ts && Look.third (Look.atWord "trait") ts then
    traitItem g attributes
  else if Look.second (Look.atWord "impl") ts then implItem g start attributes
  else if Look.second (Look.atWord "extern") ts then foreignModule g attributes
  else if Look.second (Look.atWord "mod") ts then moduleItem g attributes
  else
    let _ ← visibility
    let _ ← word "unsafe"
    expected (["`trait`"] ++ nameUnless (Look.second (Look.atWord "auto") ts) "`auto`" ++
      ["`impl`", "`extern`", "`mod`"])

/-- An item after its attributes; `start` holds the tokens from these on. -/
def itemAfter (g : Grammar) (start : List TokenTree) (attributes : List Tree) : Parser Tree := do
  let before ← get
  let visible ← visibility
  let ts ← ahead
  let after ← get
  set before
  if atSignature false ts then function g start attributes
  else if Look.atWord "extern" ts then externItem g attributes ts
  else if Look.atWord "use" ts then useItem attributes
  else if Look.atWord "static" ts then staticItem g start attributes
  else if Look.atWord "const" ts then
    let visible ← visibility
    constItem g start (attributes ++ visible) true
  else if Look.atWord "unsafe" ts then unsafeItem g start attributes ts
  else if Look.atWord "mod" ts then moduleItem g attributes
  else if Look.atWord "type" ts then typeItem g start attributes
  else if Look.atWord "struct" ts then structItem g attributes
  else if Look.atWord "enum" ts then enumItem g attributes
  else if Look.atWord "union" ts && Look.second Look.atIdentifier ts then unionItem g attributes
  else if Look.atWord "trait" ts then traitOrAlias g attributes
  else if Look.atWord "auto" ts && Look.second (Look.atWord "trait") ts then traitItem g attributes
  else if Look.atWord "impl" ts ||
      Look.atWord "default" ts && !Look.second (Look.atPunct "!") ts then
    implItem g start attributes
  else if Look.atWord "macro" ts then macroDefinition start
  else if visible.isEmpty && atMacroPath ts then macroItem g attributes true
  else
    set after
    let unlessHere := fun s => nameUnless (Look.atWord s ts) (name s)
    expected (["`fn`", "`extern`", "`use`", "`static`", "`const`", "`unsafe`", "`mod`", "`type`",
      "`struct`", "`enum`"] ++ unlessHere "union" ++ ["`trait`"] ++ unlessHere "auto" ++
      ["`impl`"] ++ unlessHere "default" ++ ["`macro`"] ++ if visible.isEmpty then macroPathNames else [])

def itemWith (g : Grammar) : Parser Tree := do
  let start ← ahead
  let attributes ← outerAttributes g
  itemAfter g start attributes

end InlineMarkup.Host
