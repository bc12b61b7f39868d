import RouteTemplates.Scratch.BufferPool
import RouteTemplates.Text.Basic

/-!
# Scratch space

A descent notes its steps and an extraction its values in buffers from two pools,
each with a ceiling of its own.
-/

namespace RouteTemplates

/-- The largest buffers kept for descents and for extractions. -/
structure Ceilings where
  steps : Nat
  values : Nat
  deriving DecidableEq, Repr

def Ceilings.standard : Ceilings := ⟨128, 32⟩

structure Scratch where
  steps : BufferPool
  values : BufferPool
  deriving DecidableEq, Repr

namespace Scratch

def withCeilings (c : Ceilings) : Scratch := ⟨.withCeiling c.steps, .withCeiling c.values⟩

def describe (s : Scratch) : Text :=
  "Pools \x7b idle_tokens: ".toList ++ Text.ofNat s.steps.idle.length ++
    ", idle_params: ".toList ++ Text.ofNat s.values.idle.length ++
    ", tokens_capacity: ".toList ++ Text.ofNat s.steps.initial ++ " \x7d".toList

end Scratch
end RouteTemplates
