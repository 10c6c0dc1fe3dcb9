import Detour.Text.Blank

/-! The supported instruction sets and the words that select them. -/
namespace Detour

inductive Architecture
  | arm | arm64 | x86 | x86_64 | mips
  deriving DecidableEq, Repr

namespace Architecture

def all : List Architecture := [arm, arm64, x86, x86_64, mips]

def name : Architecture → String
  | arm => "arm"
  | arm64 => "arm64"
  | x86 => "x86"
  | x86_64 => "x86_64"
  | mips => "mips"

def spellings : Architecture → List String
  | arm => ["arm", "armv7", "thumb2"]
  | arm64 => ["arm64", "aarch64"]
  | x86 => ["x86", "i386", "i686"]
  | x86_64 => ["x86_64", "x86-64", "amd64"]
  | mips => ["mips", "mipsel"]

def parse? (s : String) : Option Architecture :=
  all.find? fun a => a.spellings.contains (Text.optionWord s)

def host : Architecture := x86_64

end Architecture
end Detour
