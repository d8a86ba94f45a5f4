/-!
# Limits

The host's type system keeps nesting and inheritance acyclic and shallow, so that input from it
never meets these limits. They turn a malformed graph into a `Fault`.
-/

namespace ScriptNaming

/-- How many types may be in progress at once while one of them is being resolved. -/
def maxTypeNestingDepth : Nat := 256

/-- How many suffixes are tried for one base name. -/
def maxNameAllocationAttempts : Nat := 1000000

end ScriptNaming
