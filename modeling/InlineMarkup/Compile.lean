import InlineMarkup.Text.Utf8
import InlineMarkup.Reconcile.Basic

/-!
Compiling host sources with inline markup: scanning, then reconciling.
-/

set_option autoImplicit false

namespace InlineMarkup

open InlineMarkup.Text

def extract (config : Config) (source : List Char) : Except Error Scanned :=
  scan config.placeholder source

def compile (config : Config) (source : List Char) : Except Error Reconciled := do
  reconcile config (← extract config source)

def decodeSource (bytes : List UInt8) : Except Error (List Char) :=
  (decodeUtf8 bytes).mapError .encoding

def compileBytes (bytes : List UInt8) : Except Error (List UInt8) := do
  let result ← compile {} (← decodeSource bytes)
  return encodeUtf8 result.source

def extractBytes (bytes : List UInt8) : Except Error Scanned := do
  extract {} (← decodeSource bytes)

end InlineMarkup
