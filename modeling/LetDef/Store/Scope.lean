/-!
# Scopes

A scope is a frame of its own and the frames around it. The frames themselves live in a store.
-/

namespace LetDef

/-- The address of a frame in a store. -/
abbrev FrameId := Nat

/-- A scope: its own frame, and the frames around it from the nearest outward. -/
structure Scope where
  frame : FrameId
  outer : List FrameId
deriving DecidableEq, Repr

namespace Scope

/-- The frames in which names are looked up, in that order. -/
def chain (s : Scope) : List FrameId :=
  s.frame :: s.outer

/-- The number of scopes around a scope. -/
def depth (s : Scope) : Nat :=
  s.outer.length

end Scope

end LetDef
