import BytecodeDebugger.Proofs.Engine.Evolution

/-!
# Settings and what is put down of them

Only the client changes the breakpoints and their switch. A change of a flag puts down all flags and a
change of the switch puts down the switch, to be saved by whoever keeps the session; a file that is
listed for the first time puts nothing down, since it has no flag that is set.

Main statement: `Served.sameSettings` — code that runs leaves the settings alone, and so does all that
the engine does by itself.
-/

namespace BytecodeDebugger

/-- **The same breakpoints** to everyone who asks for a flag or for the switch. -/
structure Breakpoints.Agrees (b b' : Breakpoints) : Prop where
  stops : b'.stops = b.stops
  flagAt : ∀ file line, b'.flags.flagAt file line = b.flags.flagAt file line

namespace Breakpoints.Agrees

variable {b b' b'' : Breakpoints}

theorem refl (b : Breakpoints) : b.Agrees b := ⟨rfl, fun _ _ => rfl⟩

theorem trans (h : b.Agrees b') (h' : b'.Agrees b'') : b.Agrees b'' :=
  ⟨h'.stops.trans h.stops, fun file line => (h'.flagAt file line).trans (h.flagAt file line)⟩

theorem symm (h : b.Agrees b') : b'.Agrees b :=
  ⟨h.stops.symm, fun file line => (h.flagAt file line).symm⟩

/-- Listing a file makes no difference. -/
theorem ensureFile (b : Breakpoints) (file : String) : b.Agrees (b.ensureFile file) :=
  ⟨stops_ensureFile b file, flagAt_ensureFile b file⟩

end Breakpoints.Agrees

namespace Engine

/-- **The settings are left alone**, and nothing is put down. -/
structure SameSettings (e e' : Engine) : Prop where
  breakpoints : e'.breakpoints = e.breakpoints
  unsaved : e'.unsaved = e.unsaved

variable {e e' e'' : Engine}

theorem SameSettings.refl (e : Engine) : e.SameSettings e := ⟨rfl, rfl⟩

theorem SameSettings.trans (h : e.SameSettings e') (h' : e'.SameSettings e'') :
    e.SameSettings e'' :=
  ⟨h'.breakpoints.trans h.breakpoints, h'.unsaved.trans h.unsaved⟩

theorem sameSettings_transition (e : Engine) (next : Status) (payload : Payload) :
    e.SameSettings (e.transition next payload) := by
  obtain ⟨_, _, _, _, h⟩ := e.transition_eq next payload
  rw [h]
  exact ⟨rfl, rfl⟩

theorem sameSettings_land (e : Engine) (payload : Payload) : e.SameSettings (e.land payload) := by
  obtain ⟨_, h⟩ := e.land_eq payload
  have hannounced := e.sameSettings_transition .suspended payload
  rw [h]
  exact ⟨hannounced.breakpoints, hannounced.unsaved⟩

theorem Serves.sameSettings (h : e.Serves e') : e.SameSettings e' := by
  cases h with
  | notes | retargets | creates => exact ⟨rfl, rfl⟩
  | runs => exact e.sameSettings_transition .running {}
  | suspends site =>
    have hparked : e.SameSettings { e.park (.call site.frame) with
        barriers := e.barriers.insert site.frame (locationOf site)
        epoch := e.epoch + 1 } := ⟨rfl, rfl⟩
    have hstopped := hparked.trans
      (sameSettings_transition _ .suspending { location := some (locationOf site) })
    -- putting off the notice is no setting either
    exact ⟨hstopped.breakpoints, hstopped.unsaved⟩
  | logs index =>
    rw [announce_eq]
    exact ⟨rfl, rfl⟩

/-- **Code that runs leaves the settings alone.** -/
theorem Served.sameSettings (h : e.Served e') : e.SameSettings e' :=
  h.relates .refl (fun _ _ _ => .trans) fun _ _ hserves => hserves.sameSettings

theorem sameSettings_pause (e : Engine) : e.SameSettings e.pause := by
  unfold pause
  split
  · exact ⟨rfl, rfl⟩
  · exact .refl e

/-- A file that is loaded changes no flag, and nothing is put down of it. -/
theorem agrees_fileLoaded (e : Engine) (jsonUrl : String) (path? : Option String)
    (fetch : String → Except String String) :
    e.breakpoints.Agrees (e.fileLoaded jsonUrl path? fetch).2.breakpoints ∧
      (e.fileLoaded jsonUrl path? fetch).2.unsaved = e.unsaved := by
  have hlisted := Breakpoints.Agrees.ensureFile e.breakpoints jsonUrl
  unfold fileLoaded
  dsimp only
  split
  · exact ⟨hlisted, rfl⟩
  · exact ⟨hlisted, rfl⟩

end Engine

end BytecodeDebugger
