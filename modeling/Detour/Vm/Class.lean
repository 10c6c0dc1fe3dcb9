import Detour.Tag
import Detour.Reference

/-! The classes of a managed runtime. A class is defined after its superclass, so ids decrease along a
superclass chain. Class number `n` is at index `n - 1` of the table. -/
namespace Detour

structure Class where
  name : String
  superclass : Option ClassId
  interfaces : List ClassId
  isInterface : Bool
  initialized : Bool
  initFails : Bool
  initCount : Nat
  deriving DecidableEq

namespace ClassId

def object : ClassId := ⟨1, by decide⟩

def string : ClassId := ⟨2, by decide⟩

def method : ClassId := ⟨3, by decide⟩

def throwable : ClassId := ⟨4, by decide⟩

def objectArray : ClassId := ⟨13, by decide⟩

def wrapper? : Tag → Option ClassId
  | .boolean => some ⟨5, by decide⟩
  | .byte => some ⟨6, by decide⟩
  | .char => some ⟨7, by decide⟩
  | .short => some ⟨8, by decide⟩
  | .int => some ⟨9, by decide⟩
  | .long => some ⟨10, by decide⟩
  | .float => some ⟨11, by decide⟩
  | .double => some ⟨12, by decide⟩
  | .reference | .void => none

end ClassId

structure ClassTable where
  classes : List Class
  deriving DecidableEq

namespace ClassTable

def get? (t : ClassTable) (c : ClassId) : Option Class := t.classes[c.index]?

def named? (t : ClassTable) (name : String) : Option ClassId :=
  (t.classes.findIdx? (·.name = name)).bind ClassId.ofIndex?

def latest? (t : ClassTable) (name : String) : Option ClassId :=
  (t.classes.zipIdx.reverse.find? (·.1.name = name)).bind fun (_, index) => ClassId.ofIndex? index

def name (t : ClassTable) (c : ClassId) : String := (t.get? c).elim "?" (·.name)

def superclass? (t : ClassTable) (c : ClassId) : Option ClassId := (t.get? c).bind (·.superclass)

def isInterface (t : ClassTable) (c : ClassId) : Bool := (t.get? c).any (·.isInterface)

def isInitialized (t : ClassTable) (c : ClassId) : Bool := (t.get? c).any (·.initialized)

def modify (t : ClassTable) (c : ClassId) (f : Class → Class) : ClassTable :=
  ⟨t.classes.modify c.index f⟩

def define (t : ClassTable) (name : String) (superclass : Option ClassId) (isInterface : Bool) :
    ClassTable :=
  ⟨t.classes ++ [⟨name, superclass, [], isInterface, false, false, 0⟩]⟩

def next? (t : ClassTable) : Option ClassId := ClassId.ofIndex? t.classes.length

def lineage (t : ClassTable) (c : ClassId) : List ClassId :=
  match t.superclass? c with
  | none => [c]
  | some s => if s.index < c.index then c :: lineage t s else [c]
termination_by c.index

def isAssignable (t : ClassTable) (source target : ClassId) : Bool :=
  (t.lineage source).any fun c =>
    c == target || (t.get? c).any (·.interfaces.contains target)

def standard : ClassTable :=
  let extending (superclass : Option ClassId) (name : String) : Class :=
    ⟨name, superclass, [], false, true, false, 0⟩
  ⟨extending none "java.lang.Object" ::
    ["java.lang.String", "java.lang.reflect.Method", "java.lang.Throwable", "java.lang.Boolean",
      "java.lang.Byte", "java.lang.Character", "java.lang.Short", "java.lang.Integer",
      "java.lang.Long", "java.lang.Float", "java.lang.Double",
      "java.lang.Object[]"].map (extending (some .object))⟩

end ClassTable
end Detour
