import BytecodeDebugger.SourcePath
import BytecodeDebugger.Proofs.Text.Lines
import Mathlib.Logic.Relation

/-!
# The normal form of paths

A path is followed segment by segment, and what is known on the way is a pile: names on top of steps up
(`Piled`). A segment that leads down puts a name on the pile and `..` takes one off, so that a path that
goes down and up again leaves the pile as it was. The normal form is the pile read from below; following
a normal form builds the same pile again.

Main statements:

* `isNormal_normalize` — what comes out is in normal form;
* `IsNormal.normalize_eq` — a normal form stays as it is;
* `Cuts.normalize_eq` — a detour behind a slash makes no difference;
* `resolve_normal` — the same for the source of a chunk, and what it depends on.
-/

namespace BytecodeDebugger.SourcePath

/-! ### Segments -/

theorem segments_eq_splitOn (path : List Char) : segments path = path.splitOn '/' := by
  rw [← Text.cut_eq_splitOn]
  induction path with
  | nil => rfl
  | cons c cs ih =>
    by_cases hc : c = '/'
    · simp only [segments, Text.cut, hc, if_true, ih]
    · cases hcut : Text.cut '/' cs with
      | nil => simp only [segments, Text.cut, hc, if_false, ih, hcut]
      | cons first rest => simp only [segments, Text.cut, hc, if_false, ih, hcut]

/-- The segments on both sides of a slash. -/
theorem segments_append (front back : List Char) :
    segments (front ++ '/' :: back) = segments front ++ segments back := by
  simp only [segments_eq_splitOn, List.splitOn_append_cons_self]

theorem segments_of_unslashed {segment : List Char} (h : '/' ∉ segment) :
    segments segment = [segment] := by
  rw [segments_eq_splitOn, List.splitOn_eq_singleton h]

theorem segments_join {path : List (List Char)} (h : ∀ s ∈ path, '/' ∉ s) (hne : path ≠ []) :
    segments (join path) = path := by
  rw [segments_eq_splitOn]
  exact List.splitOn_intercalate '/' h hne

theorem unslashed_of_mem_segments (path : List Char) : ∀ s ∈ segments path, '/' ∉ s := by
  induction path with
  | nil => simp [segments]
  | cons c cs ih =>
    intro s hs
    unfold segments at hs
    split at hs
    · rcases List.mem_cons.mp hs with rfl | hs
      · exact List.not_mem_nil
      · exact ih s hs
    · next hc =>
      split at hs
      · rw [List.mem_singleton.mp hs]
        exact fun hmem => hc (List.mem_singleton.mp hmem).symm
      · next first rest heq =>
        -- the first segment gets one more character, which is no slash
        rcases List.mem_cons.mp hs with rfl | hs
        · have hfirst : '/' ∉ first := ih first (heq ▸ List.mem_cons_self)
          exact fun hmem => (List.mem_cons.mp hmem).elim (fun h => hc h.symm) hfirst
        · exact ih s (heq ▸ List.mem_cons_of_mem _ hs)

/-- **A name**: a segment that leads one step down. -/
structure IsName (segment : List Char) : Prop where
  nonempty : segment ≠ []
  ne_here : segment ≠ here
  ne_up : segment ≠ up
  unslashed : '/' ∉ segment

/-! ### Following segments -/

/-- **What is known on the way**, from the end of the path: names on top of steps up. -/
def Piled (path : List (List Char)) : Prop :=
  ∃ (names : List (List Char)) (ups : Nat), (∀ s ∈ names, IsName s) ∧
    path = names ++ List.replicate ups up

theorem descend_nil (path : List (List Char)) : descend path [] = path := if_pos (.inl rfl)

theorem descend_here (path : List (List Char)) : descend path here = path := if_pos (.inr rfl)

theorem descend_name {segment : List Char} (h : IsName segment) (path : List (List Char)) :
    descend path segment = segment :: path := by
  unfold descend
  rw [if_neg (not_or.mpr ⟨h.nonempty, h.ne_here⟩), if_neg h.ne_up]

/-- A step up takes a name back. -/
theorem descend_up_name {segment : List Char} (h : IsName segment) (path : List (List Char)) :
    descend (segment :: path) up = path :=
  if_neg h.ne_up

/-- A step up stays where there is no name to take back. -/
theorem descend_up_replicate (ups : Nat) :
    descend (List.replicate ups up) up = List.replicate (ups + 1) up := by
  cases ups with
  | zero => rfl
  | succ ups => rfl

theorem Piled.descend {path : List (List Char)} (h : Piled path) {segment : List Char}
    (hsegment : '/' ∉ segment) : Piled (descend path segment) := by
  obtain ⟨names, ups, hnames, rfl⟩ := h
  -- a name goes on top, a step up takes a name off or is kept, and the rest is passed over
  by_cases hname : IsName segment
  · rw [descend_name hname]
    exact ⟨segment :: names, ups, List.forall_mem_cons.mpr ⟨hname, hnames⟩, rfl⟩
  by_cases hup : segment = up
  · subst hup
    cases names with
    | nil => exact ⟨[], ups + 1, by simp, descend_up_replicate ups⟩
    | cons name names =>
      obtain ⟨hfirst, hnames⟩ := List.forall_mem_cons.mp hnames
      exact ⟨names, ups, hnames, descend_up_name hfirst _⟩
  · -- what is neither a name nor a step up leads nowhere
    have hnowhere : segment = [] ∨ segment = here :=
      Decidable.or_iff_not_imp_left.mpr fun hne =>
        Decidable.of_not_not fun hhere => hname ⟨hne, hhere, hup, hsegment⟩
    have hstays : SourcePath.descend (names ++ List.replicate ups up) segment =
        names ++ List.replicate ups up := if_pos hnowhere
    exact ⟨names, ups, hnames, hstays⟩

theorem Piled.follow {path : List (List Char)} (h : Piled path) {segments : List (List Char)}
    (hsegments : ∀ s ∈ segments, '/' ∉ s) : Piled (segments.foldl SourcePath.descend path) := by
  induction segments generalizing path with
  | nil => exact h
  | cons segment segments ih =>
    obtain ⟨hfirst, hrest⟩ := List.forall_mem_cons.mp hsegments
    exact ih (h.descend hfirst) hrest

/-! ### Normal forms -/

/-- **Segments in normal form**: some steps up, and then names. -/
def Reduced (path : List (List Char)) : Prop :=
  ∃ (ups : Nat) (names : List (List Char)), (∀ s ∈ names, IsName s) ∧
    path = List.replicate ups up ++ names

/-- **A path in normal form**: perhaps a slash, and then segments in normal form with slashes between
them. -/
def IsNormal (slash : Bool) (path : List Char) : Prop :=
  ∃ segments, Reduced segments ∧ path = if slash then '/' :: join segments else join segments

/-- The pile read from below. -/
theorem Piled.reduced {path : List (List Char)} (h : Piled path) : Reduced path.reverse := by
  obtain ⟨names, ups, hnames, rfl⟩ := h
  refine ⟨ups, names.reverse, fun s hs => hnames s (List.mem_reverse.mp hs), ?_⟩
  rw [List.reverse_append, List.reverse_replicate]

theorem reduced_reduce {path : List (List Char)} (h : ∀ s ∈ path, '/' ∉ s) :
    Reduced (reduce path) :=
  (Piled.follow ⟨[], 0, by simp, rfl⟩ h).reduced

namespace Reduced

variable {path : List (List Char)}

/-- No segment of a normal form is empty, and none has a slash in it. -/
theorem segment (h : Reduced path) : ∀ s ∈ path, s ≠ [] ∧ '/' ∉ s := by
  obtain ⟨ups, names, hnames, rfl⟩ := h
  intro s hs
  rcases List.mem_append.mp hs with hs | hs
  · rw [List.eq_of_mem_replicate hs]
    decide
  · exact ⟨(hnames s hs).nonempty, (hnames s hs).unslashed⟩

/-- **Following a normal form** builds it again. -/
theorem reduce_eq (h : Reduced path) : reduce path = path := by
  obtain ⟨ups, names, hnames, rfl⟩ := h
  -- steps up pile up, as long as there is no name to take off
  have hups : ∀ n, (List.replicate ups up).foldl descend (List.replicate n up) =
      List.replicate (n + ups) up := by
    induction ups with
    | zero => exact fun n => rfl
    | succ ups ih =>
      intro n
      rw [List.replicate_succ, List.foldl_cons, descend_up_replicate, ih, Nat.add_right_comm,
        Nat.add_assoc]
  -- names pile up in the order in which they come
  have hdown : ∀ pile, names.foldl descend pile = names.reverse ++ pile := by
    induction names with
    | nil => exact fun pile => rfl
    | cons name names ih =>
      obtain ⟨hfirst, hnames⟩ := List.forall_mem_cons.mp hnames
      intro pile
      rw [List.foldl_cons, descend_name hfirst, ih hnames, List.reverse_cons, List.append_assoc]
      rfl
  have hnone : (List.replicate ups up).foldl descend [] = List.replicate ups up := by
    simpa using hups 0
  unfold reduce
  rw [List.foldl_append, hnone, hdown, List.reverse_append, List.reverse_reverse,
    List.reverse_replicate]

/-- No slash stands in front of the segments of a normal form. -/
theorem head_join (h : Reduced path) : (join path).head? ≠ some '/' := by
  have hsegment := h.segment
  cases path with
  | nil => simp [join]
  | cons first rest =>
    obtain ⟨hne, hunslashed⟩ := hsegment first List.mem_cons_self
    obtain ⟨c, cs, rfl⟩ := List.exists_cons_of_ne_nil hne
    have hhead : (join ((c :: cs) :: rest)).head? = some c := by
      cases rest <;> simp [join, List.intercalate]
    rw [hhead]
    intro heq
    exact hunslashed (Option.some.inj heq ▸ List.mem_cons_self)

/-- The segments of a normal form are found in it again. -/
theorem reduce_segments (h : Reduced path) : reduce (segments (join path)) = path := by
  by_cases hne : path = []
  · subst hne
    rfl
  · rw [segments_join (fun s hs => (h.segment s hs).2) hne, h.reduce_eq]

end Reduced

/-- **What comes out is in normal form**, with a slash in front if there was one. -/
theorem isNormal_normalize (path : List Char) :
    IsNormal (decide (path.head? = some '/')) (normalize path) := by
  refine ⟨reduce (segments path), reduced_reduce (unslashed_of_mem_segments path), ?_⟩
  simp only [normalize, decide_eq_true_eq]

/-- **A normal form stays as it is.** -/
theorem IsNormal.normalize_eq {slash : Bool} {path : List Char} (h : IsNormal slash path) :
    normalize path = path := by
  obtain ⟨segs, hreduced, rfl⟩ := h
  cases slash with
  | false =>
    have hhead := hreduced.head_join
    simp only [Bool.false_eq_true, if_false, normalize, if_neg hhead, hreduced.reduce_segments]
  | true =>
    -- the slash in front makes one more segment, which is empty
    have hreduce : reduce (segments ('/' :: join segs)) = reduce (segments (join segs)) := by
      have hslash : segments ('/' :: join segs) = [] :: segments (join segs) := if_pos rfl
      rw [hslash, reduce, List.foldl_cons, descend_nil]
      rfl
    simp only [if_true, normalize, List.head?_cons, hreduce, hreduced.reduce_segments]

/-! ### Detours -/

/-- **A detour** leads back to where it begins, and ends in a slash. -/
inductive Detour : List Char → Prop where
  | slash : Detour ['/']
  | here : Detour (here ++ ['/'])
  | back {name : List Char} (named : IsName name) : Detour (name ++ '/' :: (up ++ ['/']))

/-- **Leaving out a detour** that begins behind a slash. -/
inductive Cuts : List Char → List Char → Prop where
  | detour (front back : List Char) {d : List Char} (leads : Detour d) :
    Cuts (front ++ '/' :: (d ++ back)) (front ++ '/' :: back)

/-- Following a detour leaves the pile as it was. -/
theorem Detour.follow {d : List Char} (h : Detour d) (back : List Char) (pile : List (List Char)) :
    (segments (d ++ back)).foldl descend pile = (segments back).foldl descend pile := by
  -- a detour comes back to the pile where it began
  cases h with
  | slash =>
    have hsegments : segments (['/'] ++ back) = [] :: segments back := if_pos rfl
    rw [hsegments, List.foldl_cons, descend_nil]
  | here =>
    have hsegments : segments (SourcePath.here ++ ['/'] ++ back) =
        [SourcePath.here] ++ segments back := by
      rw [List.append_assoc, List.singleton_append, segments_append,
        segments_of_unslashed (by decide)]
    rw [hsegments, List.singleton_append, List.foldl_cons, descend_here]
  | @back name named =>
    have hsegments : segments (name ++ '/' :: (up ++ ['/']) ++ back) =
        [name] ++ ([up] ++ segments back) := by
      rw [List.append_assoc, List.cons_append, segments_append, segments_of_unslashed named.unslashed,
        List.append_assoc, List.singleton_append (l := back), segments_append,
        segments_of_unslashed (by decide)]
    rw [hsegments, List.singleton_append, List.singleton_append, List.foldl_cons, List.foldl_cons,
      descend_name named, descend_up_name named]

/-- **A detour behind a slash makes no difference.** -/
theorem Cuts.normalize_eq {longer shorter : List Char} (h : Cuts longer shorter) :
    normalize longer = normalize shorter := by
  obtain @⟨front, back, d, leads⟩ := h
  have hhead : (front ++ '/' :: (d ++ back)).head? = (front ++ '/' :: back).head? := by
    cases front <;> rfl
  have hreduce : reduce (segments (front ++ '/' :: (d ++ back))) =
      reduce (segments (front ++ '/' :: back)) := by
    unfold reduce
    rw [segments_append, segments_append, List.foldl_append, List.foldl_append, leads.follow]
  unfold normalize
  rw [hhead, hreduce]

/-- **Paths that reduce to each other** by leaving out detours have one normal form. -/
theorem normalize_eq_of_eqvGen {path path' : List Char} (h : Relation.EqvGen Cuts path path') :
    normalize path = normalize path' := by
  induction h with
  | rel _ _ hcuts => exact hcuts.normalize_eq
  | refl _ => rfl
  | symm _ _ _ ih => exact ih.symm
  | trans _ _ _ _ _ ih₁ ih₂ => exact ih₁.trans ih₂

/-! ### Sources of chunks -/

/-- **Two places in one directory**: up to the last slash they are the same, or none has a slash. -/
inductive SameDirectory : List Char → List Char → Prop where
  | inside (directory : List Char) {name name' : List Char} (h : '/' ∉ name) (h' : '/' ∉ name') :
    SameDirectory (directory ++ '/' :: name) (directory ++ '/' :: name')
  | nowhere {name name' : List Char} (h : '/' ∉ name) (h' : '/' ∉ name') : SameDirectory name name'

theorem directory?_append (directory : List Char) {name : List Char} (h : '/' ∉ name) :
    directory? (directory ++ '/' :: name) = some directory := by
  have hbehind : (directory ++ '/' :: name).reverse.dropWhile (· ≠ '/') =
      '/' :: directory.reverse := by
    rw [List.reverse_append, List.reverse_cons, List.append_assoc,
      List.dropWhile_append_of_pos fun c hc => by
        simpa using fun heq : c = '/' => h (heq ▸ List.mem_reverse.mp hc)]
    rfl
  unfold directory?
  rw [if_pos (by simp), hbehind, List.drop_one, List.tail_cons, List.reverse_reverse]

theorem SameDirectory.directory?_eq {url url' : List Char} (h : SameDirectory url url') :
    directory? url = directory? url' := by
  cases h with
  | inside directory h h' => rw [directory?_append directory h, directory?_append directory h']
  | nowhere h h' => rw [directory?, directory?, if_neg h, if_neg h']

/-- **The source of a chunk that records a path is in normal form.** It has a slash in front exactly when
the joined path has one, and it is its own normal form. It depends on the chunk's place only by its
directory; and a detour behind a slash of the joined path makes no difference, so that paths that reduce
to each other by leaving out detours lead to one source. -/
theorem resolve_normal (url path : String) :
    IsNormal (decide ((joined url.toList path.toList).head? = some '/'))
        (resolve url (some path)).toList ∧
      String.ofList (normalize (resolve url (some path)).toList) = resolve url (some path) ∧
      (∀ url' : String, SameDirectory url.toList url'.toList →
        resolve url' (some path) = resolve url (some path)) ∧
      (∀ longer, Cuts longer (joined url.toList path.toList) →
        String.ofList (normalize longer) = resolve url (some path)) ∧
      ∀ url' path' : String,
        Relation.EqvGen Cuts (joined url.toList path.toList) (joined url'.toList path'.toList) →
          resolve url' (some path') = resolve url (some path) := by
  have hnormal := isNormal_normalize (joined url.toList path.toList)
  have hresolve : (resolve url (some path)).toList = normalize (joined url.toList path.toList) :=
    String.toList_ofList
  refine ⟨?_, ?_, ?_, ?_, ?_⟩
  · rw [hresolve]
    exact hnormal
  · rw [hresolve, hnormal.normalize_eq]
    rfl
  · intro url' hsame
    unfold resolve joined
    rw [hsame.directory?_eq]
  · intro longer hcuts
    exact congrArg String.ofList hcuts.normalize_eq
  · -- two paths that differ by detours have one normal form
    intro url' path' heqv
    exact congrArg String.ofList (normalize_eq_of_eqvGen heqv).symm

/-- Two chunks in one directory lead to one source by one path, and by another path also when one of them
is reached by way of another directory. -/
theorem detours_to_one_source :
    resolve "/game/build/other.json" (some "../src/main.lua") =
        resolve "/game/build/main.lua.json" (some "../src/main.lua") ∧
      resolve "/game/a/../build/./other.json" (some "../src//main.lua") =
        resolve "/game/build/main.lua.json" (some "../src/main.lua") := by
  obtain ⟨-, -, hplace, -, hdetours⟩ := resolve_normal "/game/build/main.lua.json" "../src/main.lua"
  have hbeside : SameDirectory "/game/build/main.lua.json".toList "/game/build/other.json".toList :=
    .inside "/game/build".toList (by decide : '/' ∉ "main.lua.json".toList)
      (by decide : '/' ∉ "other.json".toList)
  have hname : IsName ['a'] := ⟨by decide, by decide, by decide, by decide⟩
  -- one detour at a time: aside and back, to the same place, and over a double slash
  have haside : Cuts "/game/a/../build/./../src//main.lua".toList
      "/game/build/./../src//main.lua".toList :=
    .detour "/game".toList "build/./../src//main.lua".toList (.back hname)
  have hhere : Cuts "/game/build/./../src//main.lua".toList "/game/build/../src//main.lua".toList :=
    .detour "/game/build".toList "../src//main.lua".toList .here
  have hslash : Cuts "/game/build/../src//main.lua".toList "/game/build/../src/main.lua".toList :=
    .detour "/game/build/../src".toList "main.lua".toList .slash
  have hjoined := ((Relation.EqvGen.rel _ _ haside).trans _ _ _ (.rel _ _ hhere)).trans _ _ _
    (.rel _ _ hslash)
  exact ⟨hplace "/game/build/other.json" hbeside,
    hdetours "/game/a/../build/./other.json" "../src//main.lua" (hjoined.symm _ _)⟩

end BytecodeDebugger.SourcePath
