import BytecodeDebugger.Session.Basic

/-!
# Sessions that are kept

A session beside the store in which its breakpoints outlive it. The store is read when the session
begins and written after every operation; a store that fails changes nothing else.
-/

namespace BytecodeDebugger

/-- **A session and its store.** -/
structure KeptSession (σ τ : Type) where
  session : Session σ
  store : τ

namespace KeptSession

variable {σ τ α : Type}

/-- A new session over a store. -/
def start (store : Store τ) (config : Config) (s : τ) (vm : σ) (clock : Time) : KeptSession σ τ :=
  ⟨⟨Engine.start config (store.start s) clock, vm⟩, s⟩

/-- Saves what the session put down. -/
def save (store : Store τ) (k : KeptSession σ τ) : KeptSession σ τ :=
  let (parts, engine) := k.session.engine.takeUnsaved
  ⟨k.session.setEngine engine, store.saveAll k.store parts⟩

/-- An operation, after which everything is saved. -/
def perform (store : Store τ) (operation : Session σ → Except Stop (α × Session σ))
    (k : KeptSession σ τ) : Except Stop (α × KeptSession σ τ) :=
  (operation k.session).map fun (a, session) => (a, save store { k with session })

end KeptSession

end BytecodeDebugger
