import BytecodeDebugger.Playback
import BytecodeDebugger.Snapshot
import Mathlib.Data.List.Induction

/-!
# What names mean at a stop

A local is live over a range of instructions. Ranges may overlap, nest, be empty or run backwards, and a
name may be declared again. In front of an instruction the live locals take the registers from the first
on, in the order of their declarations, and a name means the last live local that has it
(`LocalVar.Means`). Locals that are not live take no register, wherever they are declared.

The locals of a snapshot are built declaration by declaration (`Snapshot.localsOf_snoc`), and what a name
means changes in the same way (`LocalVar.means_snoc`), so that they agree by induction from the last
declaration.

Main statement: `Snapshot.locals_shown`.
-/

namespace BytecodeDebugger

/-- An entry of a list with one more at its end is that one, or stands in front of it. -/
theorem snoc_eq_append_cons {α : Type} {l earlier later : List α} {x y : α}
    (h : l ++ [x] = earlier ++ y :: later) :
    (earlier = l ∧ y = x) ∨ ∃ between, l = earlier ++ y :: between ∧ later = between ++ [x] := by
  -- either nothing stands behind the split, or the last element does
  rcases List.eq_nil_or_concat later with rfl | ⟨between, last, rfl⟩
  · obtain ⟨rfl, hlast⟩ := List.append_inj' h rfl
    exact .inl ⟨rfl, (List.cons.inj hlast).1.symm⟩
  · rw [List.concat_eq_append, ← List.cons_append, ← List.append_assoc] at h
    obtain ⟨rfl, hlast⟩ := List.append_inj' h rfl
    obtain rfl := (List.cons.inj hlast).1
    exact .inr ⟨between, rfl, List.concat_eq_append⟩

namespace LocalVar

theorem isLive_iff {l : LocalVar} {pc : Nat} : l.isLive pc = true ↔ l.startPc ≤ pc ∧ pc < l.endPc := by
  simp [isLive]

/-- **What a name means** in front of an instruction: the last local of that name that is live there, in
the register that counts the live locals declared before it. -/
def Means (locals : List LocalVar) (pc : Nat) (name : String) (slot : Nat) : Prop :=
  ∃ earlier l later, locals = earlier ++ l :: later ∧ l.name = name ∧ l.isLive pc ∧
    (∀ l' ∈ later, l'.isLive pc → l'.name ≠ name) ∧ slot = earlier.countP (·.isLive pc)

variable {locals : List LocalVar} {pc : Nat} {name : String} {slot : Nat}

/-- **One more live declaration** gives its name a new meaning. -/
theorem means_snoc_of_live {l : LocalVar} (hlive : l.isLive pc) (hname : l.name = name) :
    Means (locals ++ [l]) pc name slot ↔ slot = locals.countP (·.isLive pc) := by
  constructor
  · rintro ⟨earlier, l', later, hsplit, -, -, hlast, rfl⟩
    rcases snoc_eq_append_cons hsplit with ⟨rfl, -⟩ | ⟨between, -, rfl⟩
    · rfl
    · -- the new declaration would stand behind the last live one of its name
      exact absurd hname (hlast l (by simp) hlive)
  · rintro rfl
    exact ⟨locals, l, [], rfl, hname, hlive, List.forall_mem_nil _, rfl⟩

/-- A declaration that is not live, or of another name, leaves the meaning of a name as it was. -/
theorem means_snoc_of_not {l : LocalVar} (hl : ¬(l.isLive pc ∧ l.name = name)) :
    Means (locals ++ [l]) pc name slot ↔ Means locals pc name slot := by
  constructor
  · rintro ⟨earlier, l', later, hsplit, hname, hlive, hlast, rfl⟩
    rcases snoc_eq_append_cons hsplit with ⟨-, rfl⟩ | ⟨between, rfl, rfl⟩
    · -- the declaration meant is the new one, which is dead or has another name
      exact absurd ⟨hlive, hname⟩ hl
    · exact ⟨earlier, l', between, rfl, hname, hlive,
        fun l'' hl'' => hlast l'' (List.mem_append_left _ hl''), rfl⟩
  · rintro ⟨earlier, l', later, rfl, hname, hlive, hlast, rfl⟩
    refine ⟨earlier, l', later ++ [l], by simp, hname, hlive, ?_, rfl⟩
    intro l'' hl'' hlive''
    rcases List.mem_append.mp hl'' with hl'' | hl''
    · exact hlast l'' hl'' hlive''
    · obtain rfl := List.mem_singleton.mp hl''
      exact fun hname'' => hl ⟨hlive'', hname''⟩

theorem not_means_nil : ¬ Means [] pc name slot := by
  rintro ⟨earlier, l, later, hsplit, -⟩
  simp at hsplit

/-- **A name means something** exactly when a live local has it. -/
theorem exists_means_iff : (∃ slot, Means locals pc name slot) ↔
    ∃ l ∈ locals, l.name = name ∧ l.isLive pc := by
  -- from the back, since the last live declaration is the one that counts
  induction locals using List.reverseRecOn with
  | nil => simp [not_means_nil]
  | append_singleton locals l ih =>
    by_cases hl : l.isLive pc ∧ l.name = name
    · simp only [means_snoc_of_live hl.1 hl.2, exists_eq, true_iff]
      exact ⟨l, by simp, hl.2, hl.1⟩
    · simp only [means_snoc_of_not hl, ih]
      constructor
      · rintro ⟨l', hl', h⟩
        exact ⟨l', List.mem_append_left _ hl', h⟩
      · rintro ⟨l', hl', hname, hlive⟩
        rcases List.mem_append.mp hl' with hl' | hl'
        · exact ⟨l', hl', hname, hlive⟩
        · obtain rfl := List.mem_singleton.mp hl'
          exact absurd ⟨hlive, hname⟩ hl

end LocalVar

/-- One more declaration takes the next register if it is live. -/
theorem liveSlots_snoc (pc : Nat) (locals : List LocalVar) (l : LocalVar) :
    liveSlots pc (locals ++ [l]) = if l.isLive pc then
      liveSlots pc locals ++ [(l.name, locals.countP (·.isLive pc))] else liveSlots pc locals := by
  unfold liveSlots
  split
  · next hlive => simp [hlive, List.zipIdx_append, List.countP_eq_length_filter]
  · next hlive => simp [hlive]

namespace Snapshot

variable {σ : Type} (config : Config) (I : Interpreter σ) (s : σ)

/-- What is named last is shown. -/
theorem scene_snoc (named : List (String × Value)) (p : String × Value) :
    scene config I s (named ++ [p]) =
      (scene config I s named).insert p.1 (p.2.shown config (I.fields s)) := by
  unfold scene
  rw [List.map_append]
  exact SortedMap.ofList_snoc _ _

/-- **One more declaration** is shown if it is live, in the next register, over what had its name. -/
theorem localsOf_snoc (f : FrameView) (locals : List LocalVar) (l : LocalVar) :
    localsOf config I s { f with locals := locals ++ [l] } =
      if l.isLive f.pc then
        (localsOf config I s { f with locals }).insert l.name
          ((f.register (locals.countP (·.isLive f.pc))).shown config (I.fields s))
      else localsOf config I s { f with locals } := by
  unfold localsOf
  rw [liveSlots_snoc]
  split
  · rw [List.map_append]
    exact scene_snoc config I s _ _
  · rfl

/-- **What is shown under a name** is the register that it means. -/
theorem get?_localsOf_iff (f : FrameView) (name : String) (shown : Shown) :
    (localsOf config I s f).get? name = some shown ↔
      ∃ slot, LocalVar.Means f.locals f.pc name slot ∧
        shown = (f.register slot).shown config (I.fields s) := by
  obtain ⟨pc, file, locals, register, upvalues⟩ := f
  -- declaration by declaration, as the frame's locals were shown one after the other
  induction locals using List.reverseRecOn with
  | nil =>
    have hnothing : (localsOf config I s ⟨pc, file, [], register, upvalues⟩).get? name = none := rfl
    simp [hnothing, LocalVar.not_means_nil]
  | append_singleton locals l ih =>
    have hstep := localsOf_snoc config I s ⟨pc, file, locals, register, upvalues⟩ locals l
    dsimp only at hstep ih ⊢
    rw [hstep]
    by_cases hlive : l.isLive pc
    · rw [if_pos hlive, SortedMap.get?_insert]
      by_cases hname : l.name = name
      · rw [if_pos hname.symm]
        simp only [LocalVar.means_snoc_of_live hlive hname, exists_eq_left, Option.some.injEq]
        exact eq_comm
      · rw [if_neg (Ne.symm hname), ih]
        simp only [LocalVar.means_snoc_of_not fun hl => hname hl.2]
    · rw [if_neg hlive, ih]
      simp only [LocalVar.means_snoc_of_not fun hl => hlive hl.1]

/-- What is shown depends on the live declarations only. -/
theorem localsOf_of_live (f : FrameView) {locals : List LocalVar}
    (h : locals.filter (·.isLive f.pc) = f.locals.filter (·.isLive f.pc)) :
    localsOf config I s { f with locals } = localsOf config I s f := by
  unfold localsOf liveSlots
  dsimp only
  rw [h]

/-- **Locals are read from the right registers.** The locals of a snapshot are those of the innermost
frame that was parked, with any declarations. Their keys are the names of the locals that are live in
front of its next instruction. What stands under a name is how the register is shown that the name means:
its number is how many live locals are declared before the last live local of that name. Declarations that
are not live make no difference, wherever they stand. -/
theorem locals_shown (stack : List Resumable) {f : FrameView}
    (hinnermost : (stack.filterMap Resumable.frame?).head?.bind (I.frame? s) = some f) :
    (∀ name, name ∈ (build config I s stack).locals.keys ↔
      ∃ l ∈ f.locals, l.name = name ∧ l.startPc ≤ f.pc ∧ f.pc < l.endPc) ∧
    (∀ name shown, (build config I s stack).locals.get? name = some shown ↔
      ∃ slot, LocalVar.Means f.locals f.pc name slot ∧
        shown = (f.register slot).shown config (I.fields s)) ∧
    ∀ locals, locals.filter (·.isLive f.pc) = f.locals.filter (·.isLive f.pc) →
      localsOf config I s { f with locals } = (build config I s stack).locals := by
  have hlocals : (build config I s stack).locals = localsOf config I s f := by
    unfold build
    dsimp only
    rw [hinnermost]
    rfl
  rw [hlocals]
  refine ⟨fun name => ?_, get?_localsOf_iff config I s f, fun _ => localsOf_of_live config I s f⟩
  simp only [SortedMap.mem_keys, get?_localsOf_iff, ← LocalVar.isLive_iff]
  rw [← LocalVar.exists_means_iff, exists_comm]
  simp

end Snapshot

/-- A frame in front of its fifth instruction. The name `x` has two live declarations. Between them stand a
local that is live and three that are not: one has ended, one runs backwards and one is empty; behind them
stands one that is not live yet. -/
def shadowing : Player where
  frames := SortedMap.ofList [(0, {
    pc := 4
    locals := [⟨"x", 0, 9⟩, ⟨"y", 0, 4⟩, ⟨"z", 7, 2⟩, ⟨"x", 4, 4⟩, ⟨"w", 2, 5⟩, ⟨"x", 4, 6⟩, ⟨"x", 5, 9⟩]
    registers := #[.string "outer", .boolean true, .string "inner", .nil] })]

/-- The name shows the third register: of the declarations in front of its last live one, two are live. -/
theorem Snapshot.shadowed_local_shown :
    ∃ f, ([Resumable.call 0].filterMap Resumable.frame?).head?.bind
        (Player.interpreter.frame? shadowing) = some f ∧
      (build {} Player.interpreter shadowing [.call 0]).locals.get? "x" =
        some (.plain (.text "inner")) ∧
      "y" ∉ (build {} Player.interpreter shadowing [.call 0]).locals.keys := by
  obtain ⟨hkeys, hshown, -⟩ := locals_shown {} Player.interpreter shadowing [.call 0] rfl
  refine ⟨_, rfl, (hshown "x" _).mpr ⟨2, ?_, rfl⟩, fun hy => ?_⟩
  · exact ⟨[⟨"x", 0, 9⟩, ⟨"y", 0, 4⟩, ⟨"z", 7, 2⟩, ⟨"x", 4, 4⟩, ⟨"w", 2, 5⟩], ⟨"x", 4, 6⟩, [⟨"x", 5, 9⟩],
      rfl, rfl, rfl, by decide, rfl⟩
  · obtain ⟨l, hl, hname, hstart, hend⟩ := (hkeys "y").mp hy
    revert l
    decide

end BytecodeDebugger
