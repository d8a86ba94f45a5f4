import ScriptNaming.Base62
import ScriptNaming.FreeName
import ScriptNaming.Graph.Symbol
import ScriptNaming.Limit
import ScriptNaming.Table
import Std.Data.ExtTreeMap

/-!
# Name registries

A `NameRegistry` holds the script names that are visible on the instances of one type, its own and
those it inherits, each with the members that took it. Several members may hold one name, such as
an override and what it overrides. New names come from `NameRegistry.allocate`.

`InterfaceNames` counts out the names `$I1`, `$I2`, … of minimized interface members, one sequence
for each assembly.
-/

namespace ScriptNaming

/-- Script names with the members that hold them. -/
structure NameRegistry where
  table : Std.ExtTreeMap String (List MemberId)
  deriving Inhabited

namespace NameRegistry

/-- The registry without names. -/
def empty : NameRegistry := ⟨∅⟩

instance : EmptyCollection NameRegistry := ⟨empty⟩

/-- Whether `name` is taken. -/
def contains (names : NameRegistry) (name : String) : Bool := names.table.contains name

/-- The members that hold `name`. -/
def holders (names : NameRegistry) (name : String) : List MemberId :=
  names.table[name]?.getD []

/-- Enters `m` as a further holder of `name`. -/
def add (names : NameRegistry) (name : String) (m : MemberId) : NameRegistry :=
  ⟨names.table.insert name (names.holders name ++ [m])⟩

/-- All of `holders` together with further ones, each of these at most once. -/
def unionHolders (holders : List MemberId) : List MemberId → List MemberId
  | [] => holders
  | m :: rest => unionHolders (if holders.contains m then holders else holders ++ [m]) rest

/-- Enters the members `ms` as holders of `name`, unless they hold it already. -/
def addAll (names : NameRegistry) (name : String) (ms : List MemberId) : NameRegistry :=
  ⟨names.table.insert name (unionHolders (names.holders name) ms)⟩

/-- The registry `names` with the names and holders of `other` added. -/
def merge (names other : NameRegistry) : NameRegistry :=
  other.table.foldl addAll names

/-- The union of `registries`. -/
def merged (registries : List NameRegistry) : NameRegistry :=
  registries.foldl merge ∅

/-- The number of names. -/
def size (names : NameRegistry) : Nat := names.table.size

/-- Whether there are no names. -/
def isEmpty (names : NameRegistry) : Bool := names.table.isEmpty

/-- All names in ascending order. -/
def sortedNames (names : NameRegistry) : List String := names.table.keys

/-! ## Allocation -/

/-- The name `base` with the suffix number `i`. -/
def suffixed (base : String) (i : Nat) : String := base ++ "$" ++ Base62.encode i

/-- The first free name among those of `base` with a suffix. -/
def allocateSuffixed (names : NameRegistry) (base : String) : Except Fault String :=
  match firstFree? names.contains (suffixed base) maxNameAllocationAttempts 0 with
  | some name => .ok name
  | none => .error (.suffixesExhausted base)

/-- A free name: `base` itself where it is given and free, otherwise `base`, or nothing, with the
first free suffix. The name is not entered. -/
def allocate (names : NameRegistry) (base : Option String) : Except Fault String :=
  match base with
  | some base => if names.contains base then names.allocateSuffixed base else .ok base
  | none => names.allocateSuffixed ""

end NameRegistry

/-- How many names each assembly's interface members have used up. -/
structure InterfaceNames where
  counts : Table AssemblyId Nat
  deriving Inhabited

namespace InterfaceNames

/-- No names used up. -/
def empty : InterfaceNames := ⟨∅⟩

instance : EmptyCollection InterfaceNames := ⟨empty⟩

/-- How many names the assembly `a` has used up. -/
def used (names : InterfaceNames) (a : AssemblyId) : Nat := (names.counts.find? a).getD 0

/-- The interface name with the number `n`. -/
def nameAt (n : Nat) : String := "$I" ++ Base62.encode n

/-- The next name of the assembly `a`, and the counts after it. -/
def next (names : InterfaceNames) (a : AssemblyId) : String × InterfaceNames :=
  (nameAt (names.used a + 1), ⟨names.counts.insert a (names.used a + 1)⟩)

end InterfaceNames

end ScriptNaming
