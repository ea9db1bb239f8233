import Colloquy.Proofs.Session.Calls
import Colloquy.Proofs.Session.Script

/-! Whatever is called, a conversation over compiled flows comes to rest. -/

set_option autoImplicit false

namespace Colloquy.Conversation

open Script

variable {σ : Type} {c : Conversation σ}

theorem after_engine (calls : List Call) : (c.after calls).engine = c.engine := by
  induction calls generalizing c with
  | nil => rfl
  | cons call calls ih => exact ih (c := c.next call)

theorem opened_rests (id : String) (engine : Engine σ) (world : σ) :
    engine.registry.current.Rests (opened id engine world).state :=
  Library.rests_of_cleared ⟨rfl, rfl, rfl, rfl⟩

theorem next_rests (named : c.engine.registry.current.Named)
    (rests : c.engine.registry.current.Rests c.state) (call : Call) :
    c.engine.registry.current.Rests (c.next call).state := by
  obtain ⟨d, t₀, t, goes⟩ := Session.exists_goes named rests c.world call
  exact goes.rests

theorem after_rests (named : c.engine.registry.current.Named)
    (rests : c.engine.registry.current.Rests c.state) (calls : List Call) :
    c.engine.registry.current.Rests (c.after calls).state := by
  induction calls generalizing c with
  | nil => exact rests
  | cons call calls ih => exact ih (c := c.next call) named (next_rests named rests call)

theorem sound_of_calls {dialect : Dialect} {flows : List Flow} {engine : Engine σ}
    (compiled : dialect.compileAll flows = .ok engine.registry.current.graphs) (id : String)
    (world : σ) (calls : List Call) :
    let c := (opened id engine world).after calls
    c.engine.registry.current.Named ∧ c.engine.registry.current.Rests c.state := by
  have named : engine.registry.current.Named := Library.named_of_compileAll compiled
  intro c
  rw [after_engine]
  have rests := opened_rests id engine world
  exact ⟨named, after_rests (c := opened id engine world) named rests calls⟩

/-- Whatever has been called, and whether it has failed or not, a conversation rests. -/
theorem rests_of_calls {dialect : Dialect} {flows : List Flow} {engine : Engine σ}
    (compiled : dialect.compileAll flows = .ok engine.registry.current.graphs) (id : String)
    (world : σ) (calls : List Call) :
    engine.registry.current.Rests ((opened id engine world).after calls).state :=
  after_rests (c := opened id engine world) (Library.named_of_compileAll compiled)
    (opened_rests id engine world) calls

theorem rests_of_script :
    (Dialect.standard .lenient).compileAll [asking, greeting] =
        .ok (Engine.scripted [asking, greeting]).registry.current.graphs ∧
      (Engine.scripted [asking, greeting]).registry.current.Rests
        ((scripted [asking, greeting] [wants "greet"]).after
          [.start "ask" .empty, .turn "hello"]).state := by
  have compiled : (Dialect.standard .lenient).compileAll [asking, greeting] =
      .ok (Engine.scripted [asking, greeting]).registry.current.graphs := rfl
  exact ⟨compiled, rests_of_calls compiled "script" [wants "greet"] _⟩

end Colloquy.Conversation
