import InlineMarkup.Reconcile.Call

/-!
Replacing the calls of a function in a syntax tree. The body of a macro call in which something is
replaced is written anew from its arguments.
-/

set_option autoImplicit false

namespace InlineMarkup

mutual

def substitute (function : Host.Path) (replacement : Host.Tree → Host.Tree) :
    Host.Tree → Host.Tree
  | .token ts => .token ts
  | .raw ts => .raw ts
  | .group d opening closing children =>
    .group d opening closing (substituteAll function replacement children)
  | .body written arguments =>
    if (rankedCallsOf function arguments).isEmpty then .body written arguments
    else
      let arguments := substituteAll function replacement arguments
      .body (Host.Tree.tokensOf arguments) arguments
  | .node kind children =>
    if isCallOf function (.node kind children) then replacement (.node kind children)
    else .node kind (substituteAll function replacement children)

def substituteAll (function : Host.Path) (replacement : Host.Tree → Host.Tree) :
    List Host.Tree → List Host.Tree
  | [] => []
  | t :: ts => substitute function replacement t :: substituteAll function replacement ts

end

end InlineMarkup
