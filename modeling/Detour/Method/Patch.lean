import Detour.Method.Descriptor
import Detour.Text.Blank

/-! Hooking changes a descriptor in two steps. The native-data word is claimed by a compare-and-swap
from the word that the snapshot saw to the record; only the winner changes the dispatch fields and, last,
the entry point. A lost claim writes nothing. -/
namespace Detour

inductive PatchStyle
  | compiledEntry | nativeBridge
  deriving DecidableEq, Repr

namespace PatchStyle

def all : List PatchStyle := [compiledEntry, nativeBridge]

def name : PatchStyle → String
  | compiledEntry => "compiled-entry"
  | nativeBridge => "native-bridge"

def spellings : PatchStyle → List String
  | compiledEntry => ["compiled-entry", "compiled", "quick"]
  | nativeBridge => ["native-bridge", "native", "bridge"]

def parse? (s : String) : Option PatchStyle :=
  all.find? fun style => style.spellings.contains (Text.optionWord s)

def apply : PatchStyle → Descriptor → Descriptor
  | compiledEntry, d => { d with accessFlags := d.accessFlags &&& ~~~Descriptor.nativeFlag }
  | nativeBridge, d =>
    { d with
      accessFlags := d.accessFlags ||| Descriptor.nativeFlag
      registersSize := d.insSize
      outsSize := 0 }

end PatchStyle

namespace Descriptor

def claim? (d : Descriptor) (expected : NativeData) (record : Nat) : Option Descriptor :=
  if d.nativeData = expected then some { d with nativeData := .record record } else none

def patch? (d : Descriptor) (style : PatchStyle) (expected : NativeData) (record : Nat) :
    Option Descriptor :=
  (d.claim? expected record).map fun d => { style.apply d with entryPoint := .trampoline }

end Descriptor
end Detour
