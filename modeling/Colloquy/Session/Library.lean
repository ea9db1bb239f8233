import Colloquy.Compile.Basic
import Colloquy.Session.Settings

/-!
The flows that sessions run: one compiled set at a time, replaced as a whole or not at all. A turn
runs to its end with the set that it began with.
-/

set_option autoImplicit false

namespace Colloquy

structure Library where
  graphs : Table Graph
  generation : Nat
  deriving DecidableEq

namespace Library

def get? (l : Library) (flow : String) : Option Graph := l.graphs.get? flow

def contains (l : Library) (flow : String) : Bool := l.graphs.contains flow

end Library

structure Registry where
  dialect : Dialect
  current : Library
  deriving DecidableEq

namespace Registry

def new (dialect : Dialect) (flows : List Flow) : Except Compile.Error Registry := do
  return ⟨dialect, ⟨← dialect.compileAll flows, 0⟩⟩

/-- A registry for the usual words and the policy of the settings. -/
def ofSettings (settings : Settings) (flows : List Flow) : Except Compile.Error Registry :=
  new (.standard settings.policy) flows

def reload (r : Registry) (flows : List Flow) : Except Compile.Error Registry := do
  return { r with current := ⟨← r.dialect.compileAll flows, r.current.generation + 1⟩ }

end Registry

-- A reload as a change in place. Nothing is written before all flows have compiled; the answer is
-- the new generation.
def RegistryM.reload (flows : List Flow) : ExceptT Compile.Error (StateM Registry) Nat := do
  let r ← get
  let graphs ← r.dialect.compileAll flows
  let generation := r.current.generation + 1
  set { r with current := ⟨graphs, generation⟩ }
  return generation

namespace Registry

/-- What a reload in place gives, and the registry that it leaves, whether it fails or not. -/
def replace (r : Registry) (flows : List Flow) : Except Compile.Error Nat × Registry :=
  (ExceptT.run (RegistryM.reload flows)).run r

end Registry

end Colloquy
