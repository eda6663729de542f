import BytecodeDebugger.Machine.Run

/-!
# Laws of attended runs

An attended run is a tree of questions, so that everything about it is an induction over the tree.
This file collects the laws on which statements about machines and sessions rest:

* `run_bind_eq_ok`, `detach_bind_eq_ok` — a run of two parts is a run of the first followed by a run
  of the second;
* `Below` — one run *stops less often* than another and agrees with it everywhere else. A run that
  ended keeps its result in every run above it (`Below.detach_eq`), which is how a larger budget is
  compared with a smaller one;
* `consultations` — the questions a hook is asked, each with the state the hook was in. They are
  there also for a run that stops without a result;
* `instructions` — how many instructions run without a debugger;
* `Matches` — two runs that ask the same and come to related results. With one hook they come to
  related outcomes (`Matches.run`), and so they do without a debugger (`Matches.detach`);
* `Yields` — what every branch of a run comes to, whatever the hook replies within limits.
-/

namespace BytecodeDebugger

/-! ### Results that are related -/

/-- **Outcomes that are related**: both are there, or none for the same reason. -/
inductive Outcomes {α β : Type} (R : α → β → Prop) : Except Stop α → Except Stop β → Prop
  | stop (reason : Stop) : Outcomes R (.error reason) (.error reason)
  | done {a : α} {b : β} (h : R a b) : Outcomes R (.ok a) (.ok b)

namespace Outcomes

variable {α β γ δ : Type} {R : α → β → Prop} {S : γ → δ → Prop} {x : Except Stop α}
  {y : Except Stop β}

theorem bind (h : Outcomes R x y) {f : α → Except Stop γ} {g : β → Except Stop δ}
    (hrest : ∀ a b, R a b → Outcomes S (f a) (g b)) : Outcomes S (x.bind f) (y.bind g) := by
  cases h with
  | stop reason => exact .stop reason
  | done h => exact hrest _ _ h

theorem map (h : Outcomes R x y) {f : α → γ} {g : β → δ} (hrest : ∀ a b, R a b → S (f a) (g b)) :
    Outcomes S (x.map f) (y.map g) := by
  cases h with
  | stop reason => exact .stop reason
  | done h => exact .done (hrest _ _ h)

theorem map_left (h : Outcomes R x y) {S : γ → β → Prop} {f : α → γ}
    (hrest : ∀ a b, R a b → S (f a) b) : Outcomes S (x.map f) y := by
  cases h with
  | stop reason => exact .stop reason
  | done h => exact .done (hrest _ _ h)

theorem of_map {f : γ → α} {z : Except Stop γ} (h : Outcomes R (z.map f) y) :
    Outcomes (fun c b => R (f c) b) z y := by
  cases z with
  | error reason =>
    cases h with
    | stop reason => exact .stop reason
  | ok c =>
    cases h with
    | done h => exact .done h

theorem mono {S : α → β → Prop} (h : Outcomes R x y) (hmono : ∀ a b, R a b → S a b) :
    Outcomes S x y := by
  cases h with
  | stop reason => exact .stop reason
  | done h => exact .done (hmono _ _ h)

theorem of_ok (h : Outcomes R x y) {a : α} (hx : x = .ok a) : ∃ b, y = .ok b ∧ R a b := by
  subst hx
  cases h with
  | done h => exact ⟨_, rfl, h⟩

end Outcomes

/-- **The same result**, beside states that are related. -/
def Alongside {α σ τ : Type} (R : σ → τ → Prop) (x : α × σ) (y : α × τ) : Prop :=
  x.1 = y.1 ∧ R x.2 y.2

namespace Attended

variable {α β σ : Type}

/-! ### Sequencing -/

theorem bind_eq (t : Attended α) (f : α → Attended β) : (t >>= f) = t.bind f := rfl

theorem run_bind (hook : Hook σ) (t : Attended α) (f : α → Attended β) (s : σ) :
    (t.bind f).run hook s = (t.run hook s).bind fun p => (f p.1).run hook p.2 := by
  -- every answer moves the hook on, so that the state is general in the induction
  induction t generalizing s with
  | done a => rfl
  | stop reason => rfl
  | ask call next ih => exact ih _ _

/-- A run of two parts ends where the second part ends, entered with what the first part gave. -/
theorem run_bind_eq_ok {hook : Hook σ} {t : Attended α} {f : α → Attended β} {s : σ}
    {x : β × σ} :
    (t.bind f).run hook s = .ok x ↔
      ∃ a s', t.run hook s = .ok (a, s') ∧ (f a).run hook s' = .ok x := by
  rw [run_bind]
  cases h : t.run hook s with
  | error reason => simp [Except.bind]
  | ok p =>
    obtain ⟨a, s'⟩ := p
    constructor
    · intro hx
      exact ⟨a, s', rfl, hx⟩
    · rintro ⟨a', s'', hp, hx⟩
      -- the first part gives one result only
      cases hp
      exact hx

theorem detach_bind (t : Attended α) (f : α → Attended β) :
    (t.bind f).detach = t.detach.bind fun a => (f a).detach := by
  induction t with
  | done a => rfl
  | stop reason => rfl
  | ask call next ih => exact ih _

theorem detach_bind_eq_ok {t : Attended α} {f : α → Attended β} {x : β} :
    (t.bind f).detach = .ok x ↔ ∃ a, t.detach = .ok a ∧ (f a).detach = .ok x := by
  rw [detach_bind]
  cases h : t.detach with
  | error reason => simp [Except.bind]
  | ok a =>
    constructor
    · intro hx
      exact ⟨a, rfl, hx⟩
    · rintro ⟨a', ha, hx⟩
      cases ha
      exact hx

@[simp] theorem run_ofExcept (hook : Hook σ) (x : Except Stop α) (s : σ) :
    (ofExcept x).run hook s = x.map fun a => (a, s) := by
  cases x <;> rfl

@[simp] theorem detach_ofExcept (x : Except Stop α) : (ofExcept x).detach = x := by
  cases x <;> rfl

/-- What is known of a part of a result that there is. -/
theorem exists_of_map_eq_ok {x : Except Stop α} {f : α → β} {b : β} (h : x.map f = .ok b) :
    ∃ a, x = .ok a ∧ f a = b := by
  cases x with
  | error reason => cases h
  | ok a =>
    cases h
    exact ⟨a, rfl, rfl⟩

/-- A test of a result is passed only where there is one. -/
theorem exists_of_any_toOption {x : Except Stop α} {test : α → Bool}
    (h : x.toOption.any test = true) : ∃ a, x = .ok a ∧ test a = true := by
  cases x with
  | error reason => cases h
  | ok a => exact ⟨a, rfl, h⟩

theorem eq_error_of_map {x : Except Stop α} {f : α → β} {reason : Stop}
    (h : x.map f = .error reason) : x = .error reason := by
  cases x with
  | error reason' =>
    cases h
    rfl
  | ok a => cases h

/-! ### Stopping less often -/

/-- **`t.Below t'`**: wherever `t` goes on, `t'` asks the same questions, goes on in the same way and
gives the same results. Only where `t` stops may `t'` do something else. -/
inductive Below : Attended α → Attended α → Prop where
  | stop (reason : Stop) (t : Attended α) : Below (.stop reason) t
  | done (a : α) : Below (.done a) (.done a)
  | ask (call : HookCall) {next next' : call.Reply → Attended α}
      (h : ∀ reply, Below (next reply) (next' reply)) : Below (.ask call next) (.ask call next')

namespace Below

theorem refl (t : Attended α) : t.Below t := by
  induction t with
  | done a => exact .done a
  | stop reason => exact .stop reason _
  | ask call next ih => exact .ask call ih

theorem bind {t t' : Attended α} {f f' : α → Attended β} (ht : t.Below t')
    (hf : ∀ a, (f a).Below (f' a)) : (t.bind f).Below (t'.bind f') := by
  induction ht with
  | stop reason t => exact .stop reason _
  | done a => exact hf a
  | ask call h ih => exact .ask call ih

theorem ofExcept {x x' : Except Stop α} (h : ∀ a, x = .ok a → x' = .ok a) :
    (ofExcept x).Below (ofExcept x') := by
  cases x with
  | error reason => exact .stop reason _
  -- a result that there is stays the same
  | ok a => rw [h a rfl]; exact refl _

theorem detach_eq {t t' : Attended α} (h : t.Below t') {a : α} (ht : t.detach = .ok a) :
    t'.detach = .ok a := by
  -- a run that gave a result did not stop
  induction h with
  | stop reason t => cases ht
  | done b => exact ht
  | ask call h ih => exact ih _ ht

end Below

/-! ### The questions of a run -/

/-- **The questions of a run**, in order, each with the state in which the hook answered it. -/
def consultations (hook : Hook σ) : Attended α → σ → List (σ × HookCall)
  | .done _, _ => []
  | .stop _, _ => []
  | .ask call next, s => (s, call) :: consultations hook (next (hook call s).1) (hook call s).2

@[simp] theorem consultations_done (hook : Hook σ) (a : α) (s : σ) :
    (done a).consultations hook s = [] := rfl

@[simp] theorem consultations_stop (hook : Hook σ) (reason : Stop) (s : σ) :
    (stop reason : Attended α).consultations hook s = [] := rfl

/-- The second part of a run is asked about only when the first part ended. -/
theorem consultations_bind (hook : Hook σ) (t : Attended α) (f : α → Attended β) (s : σ) :
    (t.bind f).consultations hook s = t.consultations hook s ++
      match t.run hook s with
      | .ok (a, s') => (f a).consultations hook s'
      | .error _ => [] := by
  induction t generalizing s with
  | done a => rfl
  | stop reason => rfl
  -- the question stays in front, and what comes after it is the shorter run
  | ask call next ih => exact congrArg _ (ih _ _)

/-- What every answer keeps holds at every question. -/
theorem consultations_preserves {hook : Hook σ} {P : σ → Prop}
    (keep : ∀ call s, P s → P (hook call s).2) (t : Attended α) {s : σ} (hs : P s) :
    ∀ p ∈ t.consultations hook s, P p.1 := by
  induction t generalizing s with
  | done a => simp
  | stop reason => simp
  | ask call next ih =>
    intro p hp
    -- the first question, or one that comes after the answer to it
    rcases List.mem_cons.mp hp with rfl | hp
    · exact hs
    · exact ih _ (keep call s hs) p hp

/-- No branch of the run asks about an instruction that is about to run. -/
def AsksNoSite : Attended α → Prop
  | .done _ => True
  | .stop _ => True
  | .ask call next => (∀ site, call ≠ .before site) ∧ ∀ reply, (next reply).AsksNoSite

theorem AsksNoSite.not_mem {hook : Hook σ} {t : Attended α} (h : t.AsksNoSite) (s : σ) :
    ∀ p ∈ t.consultations hook s, ∀ site, p.2 ≠ .before site := by
  induction t generalizing s with
  | done a => simp
  | stop reason => simp
  | ask call next ih =>
    intro p hp
    rcases List.mem_cons.mp hp with rfl | hp
    · exact h.1
    · exact ih _ (h.2 _) _ p hp

theorem AsksNoSite.bind {t : Attended α} {f : α → Attended β} (ht : t.AsksNoSite)
    (hf : ∀ a, (f a).AsksNoSite) : (t.bind f).AsksNoSite := by
  induction t with
  | done a => exact hf a
  | stop reason => trivial
  | ask call next ih => exact ⟨ht.1, fun reply => ih reply (ht.2 reply)⟩

/-! ### Counting instructions -/

/-- One for an instruction that is about to run, and nothing for any other question. -/
def weight : HookCall → Nat
  | .before _ => 1
  | _ => 0

/-- **How many instructions a run executes** without a debugger, those of calls that host functions
make not counted. -/
def instructions : Attended α → Nat
  | .done _ => 0
  | .stop _ => 0
  | .ask call next => weight call + (next (idle call)).instructions

theorem instructions_bind (t : Attended α) (f : α → Attended β) :
    (t.bind f).instructions = t.instructions +
      match t.detach with
      | .ok a => (f a).instructions
      | .error _ => 0 := by
  induction t with
  | done a => exact (Nat.zero_add _).symm
  | stop reason => rfl
  | ask call next ih => exact (congrArg (weight call + ·) (ih _)).trans (Nat.add_assoc _ _ _).symm

theorem AsksNoSite.instructions {t : Attended α} (h : t.AsksNoSite) : t.instructions = 0 := by
  induction t with
  | done a => rfl
  | stop reason => rfl
  | ask call next ih =>
    have hweight : weight call = 0 := by
      cases call with
      | before site => exact absurd rfl (h.1 site)
      | after | park | takeResume | isResuming | raise => rfl
    have hrest := ih _ (h.2 (idle call))
    rw [Attended.instructions, hweight, hrest]

/-- A run that stops less often executes at least as many instructions. -/
theorem Below.instructions_le {t t' : Attended α} (h : t.Below t') :
    t.instructions ≤ t'.instructions := by
  induction h with
  | stop reason t => exact Nat.zero_le _
  | done a => exact Nat.le_refl _
  | ask call h ih => exact Nat.add_le_add_left (ih _) _

/-- A run that ended executes the same instructions in every run above it. -/
theorem Below.instructions_eq {t t' : Attended α} (h : t.Below t') {a : α} (ht : t.detach = .ok a) :
    t'.instructions = t.instructions := by
  induction h with
  | stop reason t => cases ht
  | done b => rfl
  | ask call h ih => exact congrArg (weight call + ·) (ih _ ht)

/-! ### Runs that match -/

/-- **`t.Matches R t'`**: both runs ask the same questions, and whatever the replies are, both come to
results that `R` relates or stop for the same reason. -/
inductive Matches (R : α → β → Prop) : Attended α → Attended β → Prop where
  | done {a : α} {b : β} (h : R a b) : Matches R (.done a) (.done b)
  | stop (reason : Stop) : Matches R (.stop reason) (.stop reason)
  | ask (call : HookCall) {next : call.Reply → Attended α} {next' : call.Reply → Attended β}
      (h : ∀ reply, Matches R (next reply) (next' reply)) :
      Matches R (.ask call next) (.ask call next')

namespace Matches

variable {γ δ : Type} {R : α → β → Prop} {S : γ → δ → Prop} {t : Attended α} {t' : Attended β}

theorem refl {R : α → α → Prop} (hrefl : ∀ a, R a a) (t : Attended α) : t.Matches R t := by
  induction t with
  | done a => exact .done (hrefl a)
  | stop reason => exact .stop reason
  | ask call next ih => exact .ask call ih

theorem bind (h : t.Matches R t') {f : α → Attended γ} {f' : β → Attended δ}
    (hrest : ∀ a b, R a b → (f a).Matches S (f' b)) : (t.bind f).Matches S (t'.bind f') := by
  induction h with
  | done h => exact hrest _ _ h
  | stop reason => exact .stop reason
  | ask call h ih => exact .ask call ih

theorem ofExcept {x : Except Stop α} {y : Except Stop β} (h : Outcomes R x y) :
    (Attended.ofExcept x).Matches R (Attended.ofExcept y) := by
  cases h with
  | stop reason => exact .stop reason
  | done h => exact .done h

/-- A hook goes through the same states in both. -/
theorem run (h : t.Matches R t') (hook : Hook σ) (s : σ) :
    Outcomes (fun p q => R p.1 q.1 ∧ p.2 = q.2) (t.run hook s) (t'.run hook s) := by
  induction h generalizing s with
  | done h => exact .done ⟨h, rfl⟩
  | stop reason => exact .stop reason
  | ask call h ih => exact ih _ _

theorem detach (h : t.Matches R t') : Outcomes R t.detach t'.detach := by
  induction h with
  | done h => exact .done h
  | stop reason => exact .stop reason
  | ask call h ih => exact ih _

theorem instructions_eq (h : t.Matches R t') : t.instructions = t'.instructions := by
  induction h with
  | done h => rfl
  | stop reason => rfl
  | ask call h ih => exact congrArg (weight call + ·) (ih _)

end Matches

/-! ### What a run comes to -/

/-- **What every branch of a run comes to**, as long as the replies are `allowed`: it stops only for
reasons that are `expected`, and its results have the property `P`. -/
def Yields (allowed : (call : HookCall) → call.Reply → Prop) (expected : Stop → Prop)
    (P : α → Prop) : Attended α → Prop
  | .done a => P a
  | .stop reason => expected reason
  | .ask call next => ∀ reply, allowed call reply → (next reply).Yields allowed expected P

namespace Yields

variable {allowed : (call : HookCall) → call.Reply → Prop} {expected : Stop → Prop} {P : α → Prop}
  {t : Attended α}

theorem bind {Q : β → Prop} {f : α → Attended β} (ht : t.Yields allowed expected P)
    (hf : ∀ a, P a → (f a).Yields allowed expected Q) : (t.bind f).Yields allowed expected Q := by
  induction t with
  | done a => exact hf a ht
  | stop reason => exact ht
  | ask call next ih => exact fun reply hreply => ih reply (ht reply hreply)

theorem ofExcept {x : Except Stop α} (hok : ∀ a, x = .ok a → P a)
    (herror : ∀ reason, x = .error reason → expected reason) :
    (Attended.ofExcept x).Yields allowed expected P := by
  cases x with
  | ok a => exact hok a rfl
  | error reason => exact herror reason rfl

variable {hook : Hook σ} (ht : t.Yields allowed expected P)
  (hallowed : ∀ call s, allowed call (hook call s).1) {s : σ}

include ht hallowed

/-- A hook that gives only such replies comes to such a result, -/
theorem run_ok {a : α} {s' : σ} (h : t.run hook s = .ok (a, s')) : P a := by
  induction t generalizing s with
  | done b =>
    cases h
    exact ht
  | stop reason => cases h
  | ask call next ih => exact ih _ (ht _ (hallowed call s)) h

/-- or the run stops for such a reason. -/
theorem run_error {reason : Stop} (h : t.run hook s = .error reason) : expected reason := by
  induction t generalizing s with
  | done b => cases h
  | stop reason' =>
    cases h
    exact ht
  | ask call next ih => exact ih _ (ht _ (hallowed call s)) h

end Yields

end Attended

end BytecodeDebugger
