import BytecodeDebugger.Proofs.Session.Keeping
import Mathlib.Data.Nat.Bits

/-!
# Toggling is exact

A breakpoint is set on a line if and only if it was set at the beginning and was toggled an even
number of times since, or was not set and was toggled an odd number of times. A toggle tells how the
breakpoint is now, in its answer and in one announcement, and changes no other; there is no line 0, and
to toggle it changes nothing at all. No list can be long enough for a line beyond `Text.maxLength`, and
to toggle such a line ends the debugger.

An operation that ended is kept as an `Exchange`, so that what a toggle answers, what it announces and
what it leaves alone can be read off the session before it and the session after it. A toggle that
succeeds is `Flips`, one that fails is `Refuses`.

Main statement: `KeptSession.toggles_exact`, for every store, every interpreter and any operations.
-/

namespace BytecodeDebugger

variable {σ τ : Type}

namespace Operation

/-- Only a toggle may need more room than there is. -/
def hasRoom : Operation → Bool
  | .toggleBreakpoint _ line => line ≤ Text.maxLength
  | _ => true

theorem beyond_of_hasRoom {op : Operation} (h : op.hasRoom = false) :
    ∃ file line, op = .toggleBreakpoint file line ∧ Text.maxLength < line := by
  cases op with
  | toggleBreakpoint file line => exact ⟨file, line, rfl, Nat.lt_of_not_le (of_decide_eq_false h)⟩
  | _ => cases h

end Operation

namespace KeptSession

/-- Whether a breakpoint is set on a line. -/
def flagAt (k : KeptSession σ τ) (file : String) (line : Nat) : Bool :=
  k.session.engine.breakpoints.flags.flagAt file line

/-- Whether the breakpoints are armed. -/
def stops (k : KeptSession σ τ) : Bool := k.session.engine.breakpoints.stops

/-- Everything that was announced so far. -/
def announced (k : KeptSession σ τ) : List Event := k.session.engine.events.toList

end KeptSession

/-- **An operation that ended**: the session before it, what it answered, and the session after it. -/
structure Exchange (σ τ : Type) where
  before : KeptSession σ τ
  operation : Operation
  answer : Answer
  after : KeptSession σ τ

namespace Exchange

/-- The operation toggled a line, successfully. -/
def toggles (x : Exchange σ τ) (file : String) (line : Nat) : Bool :=
  match x.operation, x.answer with
  | .toggleBreakpoint file' line', .toggled (.ok _) => file' = file && line' = line
  | _, _ => false

/-- **A toggle that succeeds.** -/
structure Flips (x : Exchange σ τ) (file : String) (line : Nat) (isSet : Bool) : Prop where
  answers : x.answer = .toggled (.ok isSet)
  flag : x.after.flagAt file line = isSet
  flipped : isSet = !x.before.flagAt file line
  /-- no other line is touched -/
  others : ∀ file' line', ¬(file' = file ∧ line' = line) →
    x.after.flagAt file' line' = x.before.flagAt file' line'
  /-- one announcement of the line, and one of the switch if that was off and has to be on -/
  announces : x.after.announced = x.before.announced ++ .breakpointUpdated file line isSet ::
    if isSet && !x.before.stops then [.stopAtBreakpointsUpdated true] else []
  arms : isSet = true → x.after.stops = true

/-- **A toggle that fails**: the flags, the switch, the store, the announcements and everything else are
as before. -/
structure Refuses (x : Exchange σ τ) (file : String) : Prop where
  answers : x.answer = .toggled (.error ⟨file, 0⟩)
  unchanged : x.after = x.before

end Exchange

/-- A toggle that succeeds changes a flag if it is that of its line. -/
theorem Exchange.Flips.flagAt_after {x : Exchange σ τ} {file : String} {line : Nat} {isSet : Bool}
    (h : x.Flips file line isSet) (hop : x.operation = .toggleBreakpoint file line)
    (file' : String) (line' : Nat) :
    x.after.flagAt file' line' = (x.before.flagAt file' line' ^^ x.toggles file' line') := by
  -- it toggles its own line and no other
  have htoggles : x.toggles file' line' = (file = file' && line = line') := by
    unfold Exchange.toggles
    rw [hop, h.answers]
  rw [htoggles]
  by_cases hsame : file' = file ∧ line' = line
  · obtain ⟨rfl, rfl⟩ := hsame
    rw [h.flag, h.flipped]
    simp
  · rw [h.others file' line' hsame]
    have hother : (file = file' && line = line' : Bool) = false := by
      simpa using fun hfile hline => hsame ⟨hfile.symm, hline.symm⟩
    rw [hother, Bool.xor_false]

/-! ### One operation -/

namespace Engine

variable {e e' : Engine} {file : String} {line : Nat} {isSet : Bool}

/-- **What a toggle does** to the flags, the switch and the announcements. -/
theorem toggleBreakpoint_spec (h : e.toggleBreakpoint file line = .ok (.ok (isSet, e'))) :
    e.breakpoints.toggle file line =
        .ok (.ok (isSet, { flags := e'.breakpoints.flags, stops := e.breakpoints.stops })) ∧
      e'.breakpoints.stops = (isSet || e.breakpoints.stops) ∧
      e'.events.toList = e.events.toList ++ .breakpointUpdated file line isSet ::
        if isSet && !e.breakpoints.stops then [.stopAtBreakpointsUpdated true] else [] := by
  unfold toggleBreakpoint at h
  obtain ⟨toggled, hb, hmade⟩ := Attended.exists_of_map_eq_ok h
  cases toggled with
  | error invalid => cases hmade
  | ok p =>
    obtain ⟨isSet', flags, stops⟩ := p
    obtain rfl : stops = e.breakpoints.stops := Breakpoints.stops_toggle hb
    cases hmade
    rw [hb]
    unfold flipped
    dsimp only
    -- the switch is touched only if the breakpoint is set and the switch is off
    split
    · next hswitch =>
      obtain ⟨rfl, hoff⟩ : isSet = true ∧ e.breakpoints.stops = false := by simpa using hswitch
      have hon : (!e.breakpoints.stops) = true := by rw [hoff]; rfl
      have hevents : ((e.events.push (.breakpointUpdated file line true)).push
          (.stopAtBreakpointsUpdated (!e.breakpoints.stops))).toList = e.events.toList ++
            [.breakpointUpdated file line true, .stopAtBreakpointsUpdated true] := by
        rw [hon, Array.toList_push, Array.toList_push, List.append_assoc]
        rfl
      exact ⟨rfl, hon, hevents⟩
    · next hswitch =>
      have hkept : e.breakpoints.stops = (isSet || e.breakpoints.stops) := by
        cases isSet <;> simp_all
      exact ⟨rfl, hkept, Array.toList_push⟩

end Engine

namespace KeptSession

variable {store : Store τ} {I : Interpreter σ} {k k' : KeptSession σ τ} {op : Operation} {a : Answer}
  {file : String} {line : Nat}

/-- There is no line 0: to toggle it fails. -/
theorem respond_toggle_zero (store : Store τ) (I : Interpreter σ) (h : k.Saved) (file : String) :
    k.respond store I (.toggleBreakpoint file 0) = .ok (.toggled (.error ⟨file, 0⟩), k) := by
  rw [respond_eq h]
  rfl

/-- A toggle of a line beyond every list does not end. -/
theorem respond_toggle_beyond (store : Store τ) (I : Interpreter σ) (k : KeptSession σ τ)
    (file : String) (hline : Text.maxLength < line) :
    k.respond store I (.toggleBreakpoint file line) = .error .overflow := by
  unfold respond perform Session.respond Engine.toggleBreakpoint
  dsimp only
  rw [Breakpoints.toggle_beyond _ _ hline]
  rfl

/-- **Every other line is toggled.** -/
theorem respond_toggle (store : Store τ) (I : Interpreter σ) (k : KeptSession σ τ) (file : String)
    (hline : line ≠ 0) (hroom : line ≤ Text.maxLength) :
    ∃ a k' isSet, k.respond store I (.toggleBreakpoint file line) = .ok (a, k') ∧
      Exchange.Flips ⟨k, .toggleBreakpoint file line, a, k'⟩ file line isSet := by
  obtain ⟨isSet, b, hb⟩ := k.session.engine.breakpoints.exists_toggle file hline hroom
  obtain ⟨e', he'⟩ : ∃ e', k.session.engine.toggleBreakpoint file line = .ok (.ok (isSet, e')) := by
    unfold Engine.toggleBreakpoint
    rw [hb]
    exact ⟨_, rfl⟩
  have hanswer : k.session.respond I (.toggleBreakpoint file line) =
      .ok (.toggled (.ok isSet), k.session.setEngine e') := by
    unfold Session.respond Engine.toggledBreakpoint
    dsimp only
    rw [he']
    rfl
  obtain ⟨hflags, hstops, hevents⟩ := Engine.toggleBreakpoint_spec he'
  have htoggled := Breakpoints.flagAt_toggle hflags
  -- every flag but that of the line is what it was
  have hafter : ∀ file' line', e'.breakpoints.flags.flagAt file' line' =
      if file' = file ∧ line' = line then isSet else k.flagAt file' line' := htoggled
  refine ⟨.toggled (.ok isSet), save store { k with session := k.session.setEngine e' }, isSet, ?_, ?_⟩
  · unfold respond perform
    dsimp only
    rw [hanswer]
    rfl
  · exact
      { answers := rfl
        flag := (hafter file line).trans (if_pos ⟨rfl, rfl⟩)
        flipped := Breakpoints.isSet_toggle hflags
        others := fun file' line' hne => (hafter file' line').trans (if_neg hne)
        announces := hevents
        arms := fun hset => hstops.trans (by rw [hset, Bool.true_or]) }

/-- A toggle that ended has room for its line. -/
theorem le_maxLength_of_respond (hk' : k.respond store I (.toggleBreakpoint file line) = .ok (a, k')) :
    line ≤ Text.maxLength := by
  refine Nat.le_of_not_lt fun hbeyond => ?_
  rw [respond_toggle_beyond store I k file hbeyond] at hk'
  cases hk'

/-- Other operations than settings leave the flags alone. -/
theorem flagAt_respond_of_sameSettings (hop : op.setsBreakpoints = false)
    (hk' : k.respond store I op = .ok (a, k')) (file : String) (line : Nat) :
    k'.flagAt file line = k.flagAt file line := by
  obtain ⟨⟨a', s'⟩, hresponds, heq⟩ := Attended.exists_of_map_eq_ok hk'
  have hperform : k.session.perform I op = .ok s' := by
    rw [← Session.map_respond]
    exact congrArg (Except.map Prod.snd) hresponds
  cases heq
  have hsame := (Session.sameSettings_perform hop hperform).breakpoints
  exact congrArg (fun b => Breakpoints.flags b |>.flagAt file line) hsame

/-- **Nothing but a toggle that succeeds changes a flag.** -/
theorem flagAt_respond (h : k.Saved) (hk' : k.respond store I op = .ok (a, k')) (file : String)
    (line : Nat) :
    k'.flagAt file line = (k.flagAt file line ^^ Exchange.toggles ⟨k, op, a, k'⟩ file line) := by
  -- an operation that shows the same flags and toggles no line
  have hsame : k'.flagAt file line = k.flagAt file line →
      Exchange.toggles ⟨k, op, a, k'⟩ file line = false →
      k'.flagAt file line = (k.flagAt file line ^^ Exchange.toggles ⟨k, op, a, k'⟩ file line) := by
    intro hflag hother
    rw [hother, Bool.xor_false, hflag]
  cases op with
  | toggleBreakpoint file' line' =>
    by_cases hline : line' = 0
    · subst hline
      rw [respond_toggle_zero store I h] at hk'
      cases hk'
      exact hsame rfl rfl
    · have hroom := le_maxLength_of_respond hk'
      obtain ⟨a', k'', isSet, hdone, hflips⟩ := respond_toggle store I k file' hline hroom
      rw [hdone] at hk'
      cases hk'
      exact hflips.flagAt_after rfl file line
  | toggleStops =>
    cases hk'
    exact hsame rfl rfl
  | fileLoaded jsonUrl path? fetch =>
    cases hk'
    exact hsame ((k.session.engine.agrees_fileLoaded jsonUrl path? fetch).1.flagAt file line) rfl
  | takeUnsaved =>
    cases hk'
    exact hsame rfl rfl
  | submit | stepIn | stepOver | stepOut | resume | autoStep | pause | setClock | poll
  | reportUncaught | reportText => exact hsame (flagAt_respond_of_sameSettings rfl hk' file line) rfl

/-- Every operation that sets something ends, if it has room. -/
theorem exists_respond (store : Store τ) (I : Interpreter σ) (h : k.Saved)
    (hop : op.setsBreakpoints = true) (hroom : op.hasRoom = true) :
    ∃ a k', k.respond store I op = .ok (a, k') := by
  cases op with
  | toggleBreakpoint file line =>
    by_cases hline : line = 0
    · subst hline
      exact ⟨_, _, respond_toggle_zero store I h file⟩
    · obtain ⟨a, k', isSet, hdone, -⟩ :=
        respond_toggle store I k file hline (of_decide_eq_true hroom)
      exact ⟨a, k', hdone⟩
  | toggleStops | fileLoaded | takeUnsaved => exact ⟨_, _, rfl⟩
  | submit | stepIn | stepOver | stepOut | resume | autoStep | pause | setClock | poll
  | reportUncaught | reportText => cases hop

/-! ### Any operations -/

/-- **The operations that end**, in order, up to the first that does not. -/
def exchanges (store : Store τ) (I : Interpreter σ) (k : KeptSession σ τ) :
    List Operation → List (Exchange σ τ)
  | [] => []
  | op :: ops =>
    match k.respond store I op with
    | .ok (a, k') => ⟨k, op, a, k'⟩ :: k'.exchanges store I ops
    | .error _ => []

/-- An operation that ended, from the session as it was then. -/
theorem respond_of_mem_exchanges (h : k.Saved) {ops : List Operation} {x : Exchange σ τ}
    (hx : x ∈ k.exchanges store I ops) :
    x.before.Saved ∧ x.before.respond store I x.operation = .ok (x.answer, x.after) := by
  induction ops generalizing k with
  | nil => cases hx
  | cons op ops ih =>
    unfold exchanges at hx
    split at hx
    · next hop =>
      rcases List.mem_cons.mp hx with rfl | hlater
      · exact ⟨h, hop⟩
      · exact ih (saved_respond hop) hlater
    · cases hx

/-- **The flags follow the toggles**: each that succeeds counts once. -/
theorem flagAt_exchanges (h : k.Saved) {ops : List Operation} {xs zs : List (Exchange σ τ)}
    {x : Exchange σ τ} (hxs : k.exchanges store I ops = xs ++ x :: zs) (file : String) (line : Nat) :
    x.after.flagAt file line =
      (k.flagAt file line ^^ ((xs ++ [x]).countP (·.toggles file line)).bodd) := by
  -- over the operations, with the toggles before counted in front
  induction ops generalizing k xs with
  | nil => exact absurd hxs (by simp [exchanges])
  | cons op ops ih =>
    unfold exchanges at hxs
    split at hxs
    · next a k' hop =>
      have hflag := flagAt_respond h hop file line
      cases xs with
      | nil =>
        obtain ⟨rfl, -⟩ := List.cons.inj hxs
        rw [hflag, List.nil_append, List.countP_singleton]
        cases Exchange.toggles ⟨k, op, a, k'⟩ file line <;> rfl
      | cons y ys =>
        obtain ⟨rfl, hlater⟩ := List.cons.inj hxs
        rw [ih (saved_respond hop) hlater, hflag, List.cons_append, List.countP_cons, Nat.bodd_add,
          Bool.xor_assoc, Bool.xor_comm (Nat.bodd _)]
        cases Exchange.toggles ⟨k, op, a, k'⟩ file line <;> rfl
    · exact absurd hxs (by simp)

/-- Operations on the settings end, up to the first that has no room. -/
theorem operation_exchanges (store : Store τ) (I : Interpreter σ) (h : k.Saved)
    {ops : List Operation} (hops : ∀ op ∈ ops, op.setsBreakpoints = true) :
    (k.exchanges store I ops).map Exchange.operation = ops.takeWhile Operation.hasRoom := by
  -- over the operations, which all have an answer up to the first without room
  induction ops generalizing k with
  | nil => rfl
  | cons op ops ih =>
    obtain ⟨hop, hrest⟩ := List.forall_mem_cons.mp hops
    unfold exchanges
    cases hroom : op.hasRoom with
    | true =>
      obtain ⟨a, k', hdone⟩ := exists_respond store I h hop hroom
      rw [hdone, List.map_cons, ih (saved_respond hdone) hrest, List.takeWhile_cons_of_pos hroom]
    | false =>
      obtain ⟨file, line, rfl, hbeyond⟩ := Operation.beyond_of_hasRoom hroom
      rw [respond_toggle_beyond store I k file hbeyond, List.takeWhile_cons_of_neg (by simp [hroom])]
      rfl

/-- **Toggling is exact**, for every store, with any breakpoints in it and any failures to write them,
for every interpreter and any operations.

After each operation a breakpoint is set on a line if and only if one was set there at the beginning,
but for the parity of the toggles of this line that succeeded until then. A toggle of line 0 fails and
changes nothing: no flag, not the switch, not the store, and nothing is announced. Any other toggle
succeeds; it answers what the flag of its line is now, which is the opposite of what it was, announces
it once, changes no other flag, and leaves the breakpoints armed if the flag is set. Operations on the settings
come to their end, all of them up to the first toggle of a line that no list can be long enough for. -/
theorem toggles_exact (store : Store τ) (I : Interpreter σ) (config : Config) (t : τ) (vm : σ)
    (clock : Time) (ops : List Operation) :
    (∀ xs x zs, (start store config t vm clock).exchanges store I ops = xs ++ x :: zs →
      ∀ file line, x.after.flagAt file line =
        ((start store config t vm clock).flagAt file line ^^
          ((xs ++ [x]).countP (·.toggles file line)).bodd)) ∧
      (∀ x ∈ (start store config t vm clock).exchanges store I ops, ∀ file line,
        x.operation = .toggleBreakpoint file line →
          if line = 0 then x.Refuses file else ∃ isSet, x.Flips file line isSet) ∧
      ((∀ op ∈ ops, op.setsBreakpoints = true) →
        ((start store config t vm clock).exchanges store I ops).map Exchange.operation =
          ops.takeWhile Operation.hasRoom) := by
  have hsaved : (start store config t vm clock).Saved := rfl
  refine ⟨fun xs x zs hxs => flagAt_exchanges hsaved hxs, ?_, operation_exchanges store I hsaved⟩
  intro x hx file line hop
  -- nothing waits to be saved in front of any exchange, so that each is answered as at the start
  obtain ⟨hbefore, hdone⟩ := respond_of_mem_exchanges hsaved hx
  obtain ⟨before, op, answer, after⟩ := x
  obtain rfl : op = .toggleBreakpoint file line := hop
  split
  · next hline =>
    subst hline
    rw [respond_toggle_zero store I hbefore] at hdone
    cases hdone
    exact ⟨rfl, rfl⟩
  · next hline =>
    have hroom := le_maxLength_of_respond hdone
    obtain ⟨a, k', isSet, htoggled, hflips⟩ := respond_toggle store I before file hline hroom
    rw [htoggled] at hdone
    cases hdone
    exact ⟨isSet, hflips⟩

/-- A session begins with a breakpoint on line 1 and disarmed breakpoints; line 3 is toggled three times,
with other operations in between. -/
theorem toggled_thrice :
    let k := start Store.memory {} ⟨some (SortedMap.empty.insert "a" [true]), some false⟩ twoLines 0
    let xs := k.exchanges Store.memory Player.interpreter
      [.toggleBreakpoint "a" 3, .toggleBreakpoint "a" 1, .fileLoaded "b" none fun _ => .ok "",
        .toggleBreakpoint "a" 0, .toggleBreakpoint "a" 3, .toggleStops, .toggleBreakpoint "a" 3]
    ∃ ys x, xs = ys ++ [x] ∧ x.after.flagAt "a" 3 = true ∧ x.after.flagAt "a" 1 = false := by
  intro k xs
  obtain ⟨hflags, -, hends⟩ := toggles_exact Store.memory Player.interpreter {}
    ⟨some (SortedMap.empty.insert "a" [true]), some false⟩ twoLines 0
    [.toggleBreakpoint "a" 3, .toggleBreakpoint "a" 1, .fileLoaded "b" none fun _ => .ok "",
      .toggleBreakpoint "a" 0, .toggleBreakpoint "a" 3, .toggleStops, .toggleBreakpoint "a" 3]
  -- every operation has room, so that all seven are answered
  have hlength : xs.length = 7 := by
    have hall := congrArg List.length (hends (by decide))
    rwa [List.length_map] at hall
  have hne : xs ≠ [] := fun hnil => by simp [hnil] at hlength
  have hlast : xs = xs.dropLast ++ [xs.getLast hne] := (List.dropLast_append_getLast hne).symm
  have hcount : ∀ line, (xs.getLast hne).after.flagAt "a" line =
      (k.flagAt "a" line ^^ (xs.countP (·.toggles "a" line)).bodd) := by
    intro line
    rw [hflags _ _ [] hlast "a" line, ← hlast]
  refine ⟨_, _, hlast, (hcount 3).trans ?_, (hcount 1).trans ?_⟩
  · decide +kernel
  · decide +kernel

end KeptSession

end BytecodeDebugger
