import BytecodeDebugger.Proofs.Json.Decoding
import BytecodeDebugger.Proofs.Json.Reading
import BytecodeDebugger.Proofs.Store.Disk
import Mathlib.Data.List.Forall2

/-!
# A store in a file is the store in memory

A saved session is read back from its text, whatever the names of its files and however many flags they
have. Saving a part reads the file, changes the part and writes the whole; so the file always holds what
the store in memory would hold, and what is loaded from it is what would be loaded from memory. A file
that cannot be read is left alone, since nothing is written before it has been read.

Main statement: `Disk.store_refines_memory`, for every disk, every path and any accesses.
-/

namespace BytecodeDebugger

open Json (Decoder Draft Scope)
open Json.Decoder (Field)

/-! ### Texts of saved sessions -/

namespace SavedSession

theorem isPlain_flags (m : BreakpointMap) : m.toJson.isPlain = true := by
  have hflags : ∀ flags : List Bool, (Json.array (flags.map .bool)).isPlain = true := fun flags =>
    Json.plainItems_map (fun _ => by rfl) flags
  exact Json.plainFields_map hflags m.toList

theorem isPlain_toJson (s : SavedSession) : s.toJson.isPlain = true := by
  obtain ⟨breakpoints, stops⟩ := s
  cases breakpoints with
  | none => cases stops <;> rfl
  | some m =>
    have hflags := isPlain_flags m
    cases stops <;> simp [toJson, Json.isPlain, Json.plainFields, hflags]

/-- Flags are read back, two containers below. -/
theorem flagsDecoder_toJson (depth : Nat) (surplus : JsonError) (m : BreakpointMap) :
    flagsDecoder ⟨depth + 2, surplus⟩ (Draft.ofJson m.toJson) = .ok m := by
  have hflags : ∀ flags : List Bool, Decoder.list Decoder.bool ⟨depth + 1, surplus⟩
      (Draft.ofJson (.array (flags.map .bool))) = .ok flags := fun flags =>
    Decoder.list_ofJson (fun _ => by rfl) flags
  exact Decoder.map_ofJson hflags m

/-- **A saved session is read back from its JSON**, its absent parts included. -/
theorem decoder_toJson (s : SavedSession) : decoder .ofText (Draft.ofJson s.toJson) = .ok s := by
  obtain ⟨breakpoints, stops⟩ := s
  -- the record has been entered
  have hflags : ∀ m : BreakpointMap, Decoder.option flagsDecoder ⟨126, .malformed⟩
      (Draft.ofJson m.toJson) = .ok (some m) := fun m =>
    congrArg (Except.map some) (flagsDecoder_toJson 124 .malformed m)
  have hswitch : ∀ b : Bool, Decoder.option Decoder.bool ⟨126, .malformed⟩ (.bool b) = .ok (some b) :=
    fun b => rfl
  unfold decoder toJson
  rw [Draft.ofJson, Decoder.record_object]
  change (Decoder.fill (ρ := SavedSession) _ ⟨126, .malformed⟩ [] {} _).bind _ = _
  cases breakpoints <;> cases stops <;>
    simp [Decoder.fill, Draft.ofFields, Draft.ofJson, Field.optional, hflags, hswitch, Except.map,
      Except.bind, bind]

/-- **A saved session is read back from its text.** -/
theorem decodeText_pretty (s : SavedSession) : Json.decodeText decoder s.toJson.pretty = .ok s := by
  unfold Json.decodeText Json.Document.decode
  rw [Json.Document.ofText_pretty s.isPlain_toJson]
  dsimp only
  rw [s.decoder_toJson]
  rfl

end SavedSession

namespace Store

/-! ### Accesses -/

/-- **What may be asked of a store.** -/
inductive Access where
  | loadBreakpoints
  | loadStops
  | save (part : Save)

/-- What a store answers. -/
inductive Reply where
  | breakpoints (flags? : Option BreakpointMap)
  | stops (stops? : Option Bool)
  | saved

variable {τ : Type}

/-- Does what is asked. -/
def serve (store : Store τ) (t : τ) : Access → Except StoreError (Reply × τ)
  | .loadBreakpoints => (store.load t).map fun s => (.breakpoints s.breakpoints, t)
  | .loadStops => (store.load t).map fun s => (.stops s.stopAtBreakpoints, t)
  | .save part => (store.save t part).map fun t => (.saved, t)

/-- **An access that was served**: the answer, and the store after it. -/
structure Transaction (τ : Type) where
  access : Access
  reply : Except StoreError Reply
  after : τ

/-- **Serves accesses in order.** One that fails leaves the store as it is. -/
def serveAll (store : Store τ) (t : τ) : List Access → List (Transaction τ)
  | [] => []
  | access :: rest =>
    match store.serve t access with
    | .ok (reply, t) => ⟨access, .ok reply, t⟩ :: store.serveAll t rest
    | .error error => ⟨access, .error error, t⟩ :: store.serveAll t rest

end Store

namespace Disk

open Store (Access Transaction)

variable {d d' : Disk} {path : String} {s s' : SavedSession}

/-- The file holds a session, or it does not exist and the session is empty. -/
def Holds (d : Disk) (path : String) (s : SavedSession) : Prop := Store.ofFile (d.read path) = .ok s

/-- A text can be written to the file. -/
def Writable (d : Disk) (path : String) : Prop := ∀ text, ∃ d', d.write path text = .ok d'

/-- **One access** to the file and to the memory. -/
structure Agrees (path : String) (x : Transaction Disk) (y : Transaction SavedSession) : Prop where
  access : x.access = y.access
  reply : x.reply = y.reply
  holds : x.after.Holds path y.after
  /-- after a save there is a text, and it is read as what the memory holds -/
  text : ∀ part, x.access = .save part →
    ∃ text, x.after.read path = .ok text ∧ Json.decodeText SavedSession.decoder text = .ok y.after

/-- The answers are the same. -/
theorem replies_eq {xs : List (Transaction Disk)} {ys : List (Transaction SavedSession)}
    (h : List.Forall₂ (Agrees path) xs ys) : xs.map (·.reply) = ys.map (·.reply) := by
  induction h with
  | nil => rfl
  | cons hfirst _ ih => rw [List.map_cons, List.map_cons, hfirst.reply, ih]

/-- A part is saved: the file is read, and the session with the part is written. -/
theorem save_of_holds (h : d.Holds path s) (hw : d.Writable path) (part : Save) :
    ∃ d', (store path).save d part = .ok d' ∧ d'.Writable path ∧
      d'.read path = .ok (s.record part).toJson.pretty := by
  obtain ⟨d', hd'⟩ := hw (s.record part).toJson.pretty
  refine ⟨d', ?_, write_again hd', read_of_write hd'⟩
  -- the record that is written is the one that was read, with the part put in
  have hupdate : Store.update (d.read path) part = .ok (s.record part).toJson.pretty := by
    unfold Store.update
    rw [h]
    rfl
  change (Store.update (d.read path) part).bind (fun text => (d.write path text).mapError .file) = _
  rw [hupdate]
  change (d.write path _).mapError StoreError.file = _
  rw [hd']
  rfl

/-- **An access to the file is an access to the memory**: the answers are the same, and the file holds
again what the memory holds. -/
theorem serve_of_holds (h : d.Holds path s) (hw : d.Writable path) (access : Access) :
    ∃ reply d' s', (store path).serve d access = .ok (reply, d') ∧
      Store.memory.serve s access = .ok (reply, s') ∧ d'.Writable path ∧
      Agrees path ⟨access, .ok reply, d'⟩ ⟨access, .ok reply, s'⟩ := by
  cases access with
  | loadBreakpoints =>
    refine ⟨_, d, s, congrArg (Except.map _) h, rfl, hw, rfl, rfl, h, fun _ heq => ?_⟩
    cases heq
  | loadStops =>
    refine ⟨_, d, s, congrArg (Except.map _) h, rfl, hw, rfl, rfl, h, fun _ heq => ?_⟩
    cases heq
  | save part =>
    obtain ⟨d', hsave, hw', hread⟩ := save_of_holds h hw part
    -- what was written reads back as the record
    have htext := (s.record part).decodeText_pretty
    have hholds : d'.Holds path (s.record part) := by
      unfold Holds Store.ofFile
      rw [hread]
      exact congrArg (Except.mapError _) htext
    exact ⟨.saved, d', s.record part, congrArg (Except.map _) hsave, rfl, hw', rfl, rfl, hholds,
      fun _ _ => ⟨_, hread, htext⟩⟩

/-- **The file follows the memory**, access by access. -/
theorem serveAll_of_holds (h : d.Holds path s) (hw : d.Writable path) (accesses : List Access) :
    List.Forall₂ (Agrees path) ((store path).serveAll d accesses)
      (Store.memory.serveAll s accesses) := by
  induction accesses generalizing d s with
  | nil => exact .nil
  | cons access rest ih =>
    obtain ⟨reply, d', s', hfile, hmemory, hw', hagrees⟩ := serve_of_holds h hw access
    unfold Store.serveAll
    rw [hfile, hmemory]
    exact .cons hagrees (ih hagrees.holds hw')

/-- Nothing is saved to a file that cannot be read. -/
theorem save_of_error {error : StoreError} (h : Store.ofFile (d.read path) = .error error)
    (part : Save) : (store path).save d part = .error error := by
  have hupdate : Store.update (d.read path) part = .error error := congrArg (Except.map _) h
  change (Store.update (d.read path) part).bind _ = _
  rw [hupdate]
  rfl

/-- Nothing can be asked of a file that cannot be read. -/
theorem serve_of_error {error : StoreError} (h : Store.ofFile (d.read path) = .error error)
    (access : Access) : (store path).serve d access = .error error := by
  cases access with
  | loadBreakpoints => exact congrArg (Except.map _) h
  | loadStops => exact congrArg (Except.map _) h
  | save part => exact congrArg (Except.map _) (save_of_error h part)

/-- **A file that cannot be read is left alone**, and every access fails. -/
theorem serveAll_of_error {error : StoreError} (h : Store.ofFile (d.read path) = .error error)
    (accesses : List Access) :
    (store path).serveAll d accesses = accesses.map fun access => ⟨access, .error error, d⟩ := by
  induction accesses with
  | nil => rfl
  | cons access rest ih =>
    unfold Store.serveAll
    rw [serve_of_error h access, List.map_cons, ih]

end Disk

/-! ### Saving from the command line -/

namespace Desk

/-- Reads the file, and writes it if it could be read. -/
def savePart (path : String) (part : Save) : Run Unit := do
  match Store.update (← world.readFile path) part with
  | .ok text => world.writeFile path text
  | .error _ => pure ()

theorem run_savePart (path : String) (part : Save) (d : Desk) :
    (savePart path part).run.run d =
      (.ok (), { d with disk := (Disk.store path).saveAll d.disk [part] }) := by
  have hsave : (Disk.store path).save d.disk part =
      (Store.update (d.disk.read path) part).bind fun text =>
        (d.disk.write path text).mapError StoreError.file := rfl
  unfold Store.saveAll
  rw [List.foldl_cons, List.foldl_nil, hsave]
  change (match Store.update (d.disk.read path) part with
    | .ok text => (world.writeFile path text : Run Unit)
    | .error _ => pure ()).run.run d = _
  cases Store.update (d.disk.read path) part with
  | error error => rfl
  | ok text =>
    change (Except.ok (), d.writeFile path text) = _
    unfold writeFile
    simp only [Except.bind]
    cases d.disk.write path text <;> rfl

/-- **What the command line saves, the store in the file saves**: it reads the file before every part
and writes it only if it could be read. -/
theorem run_save (path : String) (s : Session Machine) (d : Desk) :
    (CommandLine.save world (some path) s).run.run d =
      (.ok (s.setEngine s.engine.takeUnsaved.2),
        { d with disk := (Disk.store path).saveAll d.disk s.engine.takeUnsaved.1 }) := by
  -- over the parts, each one written on top of those before it
  have hparts : ∀ (parts : List Save) (d : Desk), (parts.forM (savePart path)).run.run d =
      (.ok (), { d with disk := (Disk.store path).saveAll d.disk parts }) := by
    intro parts
    induction parts with
    | nil => exact fun d => rfl
    | cons part parts ih =>
      intro d
      rw [List.forM_eq_forM, List.forM_cons, ExceptT.run_bind, StateT.run_bind, run_savePart]
      exact ih _
  unfold CommandLine.save
  change StateT.run (ExceptT.run ((s.engine.takeUnsaved.1.forM (savePart path)) >>= fun _ =>
    pure (s.setEngine s.engine.takeUnsaved.2))) d = _
  rw [ExceptT.run_bind, StateT.run_bind, hparts]
  rfl

/-- It leaves alone a file that cannot be read. -/
theorem run_save_of_error {path : String} {error : StoreError} {d : Desk}
    (h : Store.ofFile (d.disk.read path) = .error error) (s : Session Machine) :
    ((CommandLine.save world (some path) s).run.run d).2 = d := by
  -- no part is saved over a file that cannot be read
  have hparts : ∀ parts : List Save, (Disk.store path).saveAll d.disk parts = d.disk := by
    intro parts
    induction parts with
    | nil => rfl
    | cons part parts ih =>
      have hsave : (Disk.store path).save d.disk part = .error error := Disk.save_of_error h part
      unfold Store.saveAll at ih ⊢
      rw [List.foldl_cons, hsave]
      exact ih
  rw [run_save, hparts]

end Desk

namespace Disk

open Store (Access)

/-- **The store in a file refines the store in memory**, for every disk, every path and any accesses.

If the file does not exist, or its text is read as a session, and if it can be written, then every access
to the file succeeds and answers what the same access to the memory answers, the memory having begun with
that session, or an empty one if there is no file. After each access the file holds what the memory holds;
after a save it has a text, which is read as the contents of the memory, so that the part that was not
saved is what it was. If the file cannot be read as a session, every access fails for that reason and the
disk stays as it is, and so does everything when the command line tries to save a session there. -/
theorem store_refines_memory (path : String) (d : Disk) (accesses : List Access) :
    (∀ s, d.Holds path s → d.Writable path →
      List.Forall₂ (Agrees path) ((store path).serveAll d accesses)
        (Store.memory.serveAll s accesses)) ∧
      ∀ error, Store.ofFile (d.read path) = .error error →
        (store path).serveAll d accesses = (accesses.map fun access => ⟨access, .error error, d⟩) ∧
        ∀ (desk : Desk) (session : Session Machine), desk.disk = d →
          ((CommandLine.save Desk.world (some path) session).run.run desk).2 = desk := by
  constructor
  · exact fun s h hw => serveAll_of_holds h hw accesses
  · intro error h
    refine ⟨serveAll_of_error h accesses, ?_⟩
    rintro desk session rfl
    exact Desk.run_save_of_error h session

/-- A file that does not exist is given flags and the switch, one after the other; the name for the flags
has a quote and a line break in it. A file that ends in the middle of a session is not overwritten. -/
theorem new_file_refines :
    (empty.Holds "session.json" {} ∧ empty.Writable "session.json" ∧
      ((store "session.json").serveAll empty [.loadBreakpoints,
          .save (.breakpoints (SortedMap.empty.insert "\"a\n" [false, true])), .save (.stops false),
          .loadBreakpoints, .loadStops]).map (·.reply) =
        [.ok (.breakpoints none), .ok .saved, .ok .saved,
          .ok (.breakpoints (some (SortedMap.empty.insert "\"a\n" [false, true]))),
          .ok (.stops (some false))]) ∧
      let d := empty.place "session.json" (.file "\x7b\"stopAtBreakpoints\":".toUTF8)
      Store.ofFile (d.read "session.json") = .error (.json .early) ∧
        (store "session.json").serveAll d [.save (.stops true)] =
          [⟨.save (.stops true), .error (.json .early), d⟩] := by
  constructor
  · have hholds : empty.Holds "session.json" {} := rfl
    have hwritable : empty.Writable "session.json" := fun text => ⟨_, rfl⟩
    refine ⟨hholds, hwritable, ?_⟩
    have hrefines := (store_refines_memory "session.json" empty [.loadBreakpoints,
      .save (.breakpoints (SortedMap.empty.insert "\"a\n" [false, true])), .save (.stops false),
      .loadBreakpoints, .loadStops]).1 {} hholds hwritable
    exact (replies_eq hrefines).trans rfl
  · intro d
    have hcut : Store.ofFile (d.read "session.json") = .error (.json .early) := rfl
    exact ⟨hcut, ((store_refines_memory "session.json" d [.save (.stops true)]).2 _ hcut).1⟩

end Disk

end BytecodeDebugger
