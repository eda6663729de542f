import BytecodeDebugger.Machine.Run

/-!
# What one instruction does to the frames

Statements about runs never look into `perform` again: `perform_cases` says everything about it that
concerns frames and functions. An instruction either *stays* in its frame (`Stays`) or is a call that
enters a new one.

`Grows` collects what every step of the machine, of every kind, has in common: functions are only
added, no host function is among the new ones, and the counter of frames never goes back.
-/

namespace BytecodeDebugger.Machine

/-! ### Growing -/

/-- **What no step ever takes back**: functions keep their ids, and ids of frames are used once. The
only new functions are closures. -/
structure Grows (m m' : Machine) : Prop where
  functions : ∀ (id : FunctionId) (f : Callable),
    m.functions[id]? = some f → m'.functions[id]? = some f
  hosts : ∀ (id : FunctionId) (body : HostFunction),
    m'.functions[id]? = some (.host body) → m.functions[id]? = some (.host body)
  nextFrame : m.nextFrame ≤ m'.nextFrame

theorem Grows.refl (m : Machine) : m.Grows m := ⟨fun _ _ h => h, fun _ _ h => h, Nat.le_refl _⟩

theorem Grows.trans {m m' m'' : Machine} (h : m.Grows m') (h' : m'.Grows m'') : m.Grows m'' where
  functions id f hf := h'.functions id f (h.functions id f hf)
  hosts id body hf := h.hosts id body (h'.hosts id body hf)
  nextFrame := Nat.le_trans h.nextFrame h'.nextFrame

/-- Whatever leaves the functions and the counter alone grows. -/
theorem Grows.of_eq {m m' : Machine} (hf : m'.functions = m.functions)
    (hn : m'.nextFrame = m.nextFrame) : m.Grows m' where
  functions id f h := by rw [hf]; exact h
  hosts id body h := by rw [hf] at h; exact h
  nextFrame := Nat.le_of_eq hn.symm

theorem Grows.callable {m m' : Machine} (h : m.Grows m') {v : Value} {f : Callable}
    (hv : m.callable? v = some f) : m'.callable? v = some f := by
  cases v <;> simp only [callable?] at hv ⊢ <;> first | exact h.functions _ _ hv | cases hv

/-- A new closure has an id that was free. -/
theorem Grows.mint (m : Machine) (c : Closure) : m.Grows (m.mint (.closure c)).2 where
  functions id f h := by
    -- an id that is taken lies below the new one
    have hlt : id < m.functions.size := (Array.getElem?_eq_some_iff.mp h).1
    simp only [Machine.mint, Array.getElem?_push, if_neg (Nat.ne_of_lt hlt)]
    exact h
  hosts id body h := by
    simp only [Machine.mint, Array.getElem?_push] at h
    split at h
    · cases h
    · exact h
  nextFrame := Nat.le_refl _

/-- Entering a function uses up an id. -/
theorem Grows.enter (m : Machine) (closure : Closure) (args : List Value) :
    m.Grows (m.enter closure args).2 where
  functions _ _ hf := hf
  hosts _ _ hf := hf
  nextFrame := Nat.le_succ m.nextFrame

/-! ### Staying in the frame -/

/-- A host function that is known to the machine, with the arguments it is called with. -/
def Hosts (m : Machine) (body : Host) : Prop :=
  ∃ (id : FunctionId) (f : HostFunction) (args : List Value),
    m.functions[id]? = some (.host f) ∧ body = f args

theorem hosts_of_callable {m : Machine} {v : Value} {f : HostFunction}
    (h : m.callable? v = some (.host f)) (args : List Value) : m.Hosts (f args) := by
  cases v <;> simp only [callable?] at h <;> first | exact ⟨_, f, args, h, rfl⟩ | cases h

/-- An effect of an instruction that stays in its frame. -/
def Stationary (m : Machine) : Effect → Prop
  | .enter _ => False
  | .host body _ _ => m.Hosts body
  | _ => True

/-- **An instruction stays in its frame**: it enters no other, the frames of the machine are as
before, and the frame's function and the call it may be waiting for are untouched. -/
structure Stays (m : Machine) (a : Activation) (t : Machine × Activation × Effect) : Prop where
  frames : t.1.frames = m.frames
  nextFrame : t.1.nextFrame = m.nextFrame
  grows : m.Grows t.1
  closure : t.2.1.closure = a.closure
  pending : t.2.1.pending = a.pending
  effect : m.Stationary t.2.2

section Activations

variable (a : Activation)

/-- Filling registers changes registers only. -/
theorem fillRegisters_frame (n base : Nat) (vs : List Value) :
    (a.fillRegisters base n vs).closure = a.closure ∧
      (a.fillRegisters base n vs).pending = a.pending ∧
      (a.fillRegisters base n vs).pc = a.pc := by
  induction n generalizing a base vs with
  | zero => exact ⟨rfl, rfl, rfl⟩
  | succ n ih => exact ih (a.setRegister base (vs.headD .nil)) (base + 1) vs.tail

/-- Setting registers changes registers only. -/
theorem setRegisters_frame (base : Nat) (vs : List Value) :
    (a.setRegisters base vs).closure = a.closure ∧
      (a.setRegisters base vs).pending = a.pending ∧
      (a.setRegisters base vs).pc = a.pc := by
  induction vs generalizing a base with
  | nil => exact ⟨rfl, rfl, rfl⟩
  | cons v vs ih => exact ih (a.setRegister base v) (base + 1)

/-- Handing over results changes registers only. -/
theorem place_frame (base : Nat) (c : Int) (vs : List Value) :
    (a.place base c vs).closure = a.closure ∧ (a.place base c vs).pending = a.pending ∧
      (a.place base c vs).pc = a.pc := by
  unfold Activation.place
  split
  · exact setRegisters_frame a base vs
  · exact fillRegisters_frame a _ base vs

/-- Delivering results changes registers, and ends the wait for them. -/
theorem deliver_frame (vs : List Value) :
    (a.deliver vs).closure = a.closure ∧ (a.deliver vs).pc = a.pc := by
  unfold Activation.deliver
  split
  · exact ⟨rfl, rfl⟩
  · next base c _ =>
    have h := place_frame { a with pending := none } base c vs
    exact ⟨h.1, h.2.2⟩

end Activations

variable {m : Machine} {a : Activation}

/-- Capturing upvalues makes cells and moves the counter. -/
theorem capture_frame (n : Nat) (m : Machine) (a : Activation) :
    (m.capture a n).1.frames = m.frames ∧ (m.capture a n).1.nextFrame = m.nextFrame ∧
      (m.capture a n).1.functions = m.functions ∧ (m.capture a n).2.1.closure = a.closure ∧
      (m.capture a n).2.1.pending = a.pending := by
  -- along the list of upvalues, each of which moves the counter by one
  induction n generalizing m a with
  | zero => exact ⟨rfl, rfl, rfl, rfl, rfl⟩
  | succ n ih =>
    unfold capture
    split
    · exact ⟨rfl, rfl, rfl, rfl, rfl⟩
    · next i _ =>
      dsimp only
      split
      · exact ⟨rfl, rfl, rfl, rfl, rfl⟩
      · next cell m' hfound =>
        -- a capture at most appends a cell, so the rest of the list starts from the same frames
        have hm : m'.frames = m.frames ∧ m'.nextFrame = m.nextFrame ∧
            m'.functions = m.functions := by
          split at hfound
          · cases hfound; exact ⟨rfl, rfl, rfl⟩
          · cases hu : upvalue a i.b with
            | error fault =>
              have hu' : upvalue { a with pc := a.pc + 1 } i.b = .error fault := hu
              rw [hu'] at hfound; cases hfound
            | ok cell' =>
              have hu' : upvalue { a with pc := a.pc + 1 } i.b = .ok cell' := hu
              rw [hu'] at hfound; cases hfound; exact ⟨rfl, rfl, rfl⟩
          · cases hfound
        have h := ih m' { a with pc := a.pc + 1 }
        exact ⟨h.1.trans hm.1, h.2.1.trans hm.2.1, h.2.2.1.trans hm.2.2, h.2.2.2.1, h.2.2.2.2⟩

namespace Stays

/-- An effect that changes nothing but the frame's own registers and counter. -/
theorem here {a' : Activation} {eff : Effect} (hc : a'.closure = a.closure)
    (hp : a'.pending = a.pending) (he : m.Stationary eff) : Stays m a (m, a', eff) :=
  ⟨rfl, rfl, .refl m, hc, hp, he⟩

theorem fault (message : String) : Stays m a (m, a, .fault message) :=
  here rfl rfl trivial

/-- A change of the machine that leaves frames and functions alone. -/
theorem elsewhere {m' : Machine} {a' : Activation} (hf : m'.frames = m.frames)
    (hn : m'.nextFrame = m.nextFrame) (hg : m'.functions = m.functions)
    (hc : a'.closure = a.closure) (hp : a'.pending = a.pending) : Stays m a (m', a', .next) :=
  ⟨hf, hn, .of_eq hg hn, hc, hp, trivial⟩

theorem orFault {β : Type} (x : Except String β) {f : β → Machine × Activation × Effect}
    (h : ∀ v, Stays m a (f v)) : Stays m a (Machine.orFault m a x f) := by
  cases x with
  | ok v => exact h v
  | error message => exact fault message

theorem skipIf (skip : Bool) : Stays m a (m.skipIf a skip) := by
  unfold Machine.skipIf
  refine here ?_ ?_ trivial <;> cases skip <;> rfl

end Stays

theorem performClosure_stays (m : Machine) (a : Activation) (i : Instruction) :
    Stays m a (m.performClosure a i) := by
  unfold performClosure
  split
  · exact Stays.fault _
  · next proto _ =>
    have h := capture_frame proto.upvalues.length m a
    cases hcap : m.capture a proto.upvalues.length with
    | mk m' rest =>
      obtain ⟨a', cells⟩ := rest
      rw [hcap] at h
      obtain ⟨hf, hn, hg, hc, hp⟩ := h
      dsimp only at hf hn hg hc hp ⊢
      -- cells may be made, but neither frames nor functions before the last step
      have hm : m.Grows m' := .of_eq hg hn
      cases cells with
      | error message => exact ⟨hf, hn, hm, hc, hp, trivial⟩
      | ok cells =>
        exact ⟨hf, hn, hm.trans (.mint m' ⟨proto, cells, a'.closure.file⟩), hc, hp, trivial⟩

/-- **What a call does**: it enters the function, lets a host function work, or fails; or there is no
room for the call. -/
theorem performCall_cases (m : Machine) (a : Activation) (i : Instruction) :
    Stays m a (m.performCall a i) ∨
      ∃ closure args, m.callable? (a.register i.a.toNat) = some (.closure closure) ∧
        closure.Fits ∧ m.performCall a i =
          ((m.enter closure args).2, { a with pending := some (i.a.toNat, i.c) },
            .enter m.nextFrame) := by
  unfold performCall
  dsimp only
  split
  · next closure hcall =>
    split
    · next hfits => exact .inr ⟨closure, _, hcall, hfits, rfl⟩
    · -- no room for the registers: the machine stops where it is
      exact .inl (Stays.here rfl rfl trivial)
  · next body hcall => exact .inl (Stays.here rfl rfl (hosts_of_callable hcall _))
  · exact .inl (Stays.fault _)

/-- Arithmetic stores a number, or fails. -/
theorem calculated_stays (m : Machine) (a : Activation) (i : Instruction) (op : Op)
    (x y : Except String Value) :
    Stays m a (orFault m a x fun v => orFault m a y fun w =>
      match v.toNumber?, w.toNumber? with
      | some x, some y => (m, a.setRegister i.a.toNat (.number (arithmetic op x y)), .next)
      | none, _ => (m, a, .fault (arithmeticFault v))
      | some _, none => (m, a, .fault (arithmeticFault w))) := by
  refine .orFault _ fun v => .orFault _ fun w => ?_
  split
  · exact Stays.here rfl rfl trivial
  · exact .fault _
  · exact .fault _

/-- **Everything an instruction can do to frames**: it stays in its frame, or it is a call that enters
a new one. -/
theorem perform_cases (m : Machine) (a : Activation) (i : Instruction) :
    Stays m a (m.perform a i) ∨
      ∃ closure args, Op.ofCode i.code = .call ∧
        m.callable? (a.register i.a.toNat) = some (.closure closure) ∧ closure.Fits ∧
        m.perform a i = ((m.enter closure args).2, { a with pending := some (i.a.toNat, i.c) },
          .enter m.nextFrame) := by
  have store (v : Value) : Stays m a (m, a.setRegister i.a.toNat v, .next) :=
    Stays.here rfl rfl trivial
  have compared (x y : Except String Value) (f : Value → Value → Except String Bool) :
      Stays m a (orFault m a x fun v => orFault m a y fun w => orFault m a (f v w) fun holds =>
        m.skipIf a (holds != decide (i.a ≠ 0))) :=
    .orFault _ fun v => .orFault _ fun w => .orFault _ fun holds => .skipIf _
  cases hop : Op.ofCode i.code with
  | call =>
    have hperform : m.perform a i = m.performCall a i := by simp only [perform, hop]
    rw [hperform]
    rcases performCall_cases m a i with h | ⟨closure, args, hcall, hfits, h⟩
    · exact .inl h
    · exact .inr ⟨closure, args, rfl, hcall, hfits, h⟩
  | move =>
    simp only [perform, hop]
    exact .inl (store _)
  | loadConstant =>
    simp only [perform, hop]
    exact .inl (.orFault _ store)
  | getUpvalue | getGlobal =>
    simp only [perform, hop]
    exact .inl (.orFault _ fun _ => store _)
  | getTable =>
    simp only [perform, hop]
    refine .inl (.orFault _ fun key => ?_)
    split
    · exact store _
    · exact .fault _
  | setGlobal | setUpvalue =>
    simp only [perform, hop]
    exact .inl (.orFault _ fun _ => .elsewhere rfl rfl rfl rfl rfl)
  -- the table may be no table, and the key may be one that no table takes
  | setTable =>
    simp only [perform, hop]
    refine .inl (.orFault _ fun key => .orFault _ fun v => ?_)
    split
    · split
      · exact .fault _
      · exact .elsewhere rfl rfl rfl rfl rfl
    · exact .fault _
  | newTable =>
    simp only [perform, hop]
    exact .inl (.elsewhere rfl rfl rfl rfl rfl)
  -- the four operations differ in what they calculate only
  | add | sub | mul | div =>
    simp only [perform, hop]
    exact .inl (calculated_stays m a i _ _ _)
  | equal =>
    simp only [perform, hop]
    exact .inl (.orFault _ fun v => .orFault _ fun w => .skipIf _)
  | less | lessEqual =>
    simp only [perform, hop]
    exact .inl (compared _ _ _)
  -- it fills a range of registers, and a fill touches nothing else
  | loadNil =>
    have h := fillRegisters_frame a ((max (max i.a i.b) 0).toNat + 1 - i.a.toNat) i.a.toNat []
    simp only [perform, hop]
    exact .inl (.here h.1 h.2.1 trivial)
  | loadBool | jump | «return» | close =>
    simp only [perform, hop]
    exact .inl (.here rfl rfl trivial)
  | closure =>
    simp only [perform, hop]
    exact .inl (performClosure_stays m a i)
  | unknown code =>
    simp only [perform, hop]
    exact .inl (.fault _)

/-- A return leaves the frame. -/
theorem perform_return {m : Machine} {a : Activation} {i : Instruction}
    (h : Op.ofCode i.code = .return) : ∃ values, m.perform a i = (m, a, .leave values) := by
  simp only [perform, h]
  exact ⟨_, rfl⟩

/-- An instruction that does not leave its frame is no return. -/
theorem code_ne_return {m : Machine} {a : Activation} {i : Instruction}
    (h : ∀ values, (m.perform a i).2.2 ≠ .leave values) : i.code ≠ Op.returnCode := by
  intro hcode
  have hop : Op.ofCode i.code = .return := by rw [hcode]; rfl
  obtain ⟨values, hreturn⟩ := perform_return (m := m) (a := a) hop
  exact h values (by rw [hreturn])

end BytecodeDebugger.Machine
