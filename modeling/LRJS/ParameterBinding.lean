import LRJS.Parameters

/-!
# When parameters are bound

The table of a scope stays what is meant as long as every parameter finds a place: a name is
new and has room, and a pattern has no default and does not take the remaining arguments.
-/

namespace LRJS.Parameters

open List Option

variable {World : Type} {names adds : ASTNode → List Name} {host : Host World}
variable {argv : List LRValue} {added : List Name}
variable {name : Name} {v : LRValue} {entries : List Entry} {t : Table World} {room : Room}

theorem names_assign : (assign name v entries).map Prod.fst = entries.map Prod.fst := by
  induction entries with
  | nil => rfl
  | cons entry entries ih =>
    unfold assign
    split
    · next same => rw [map_cons, map_cons, same]
    · rw [map_cons, map_cons, ih]

theorem lookup_append (known : name ∈ entries.map Prod.fst) (more : List Entry) :
    lookup name (entries ++ more) = lookup name entries := by
  induction entries with
  | nil => cases known
  | cons entry entries ih =>
    rw [cons_append, lookup, lookup]
    split
    · rfl
    · next other =>
      rw [map_cons, mem_cons] at known
      exact ih (known.resolve_left (Ne.symm other))

theorem mem_of_lookup {x : LRValue} (found : lookup name entries = some x) :
    ∃ entry ∈ entries, entry.2 = x := by
  induction entries with
  | nil => cases found
  | cons entry entries ih =>
    unfold lookup at found
    split at found
    · cases found
      exact ⟨entry, mem_cons_self, rfl⟩
    · obtain ⟨other, member, same⟩ := ih found
      exact ⟨other, mem_cons_of_mem _ member, same⟩

theorem lookup_bound : lookup name (bound name v entries) = some v := by
  unfold bound
  split
  · next known =>
    induction entries with
    | nil => cases known
    | cons entry entries ih =>
      unfold assign
      split
      · rw [lookup, if_pos rfl]
      · next other =>
        rw [map_cons, mem_cons] at known
        rw [lookup, if_neg other]
        exact ih (known.resolve_left (Ne.symm other))
  · next absent =>
    induction entries with
    | nil => exact if_pos rfl
    | cons entry entries ih =>
      rw [map_cons, mem_cons, not_or] at absent
      rw [cons_append, lookup, if_neg (Ne.symm absent.1), ih absent.2]

theorem mem_bound {entry : Entry} (member : entry ∈ bound name v entries) :
    entry ∈ entries ∨ entry.2 = v := by
  unfold bound at member
  split at member
  · induction entries with
    | nil => cases member
    | cons first entries ih =>
      next known =>
      unfold assign at member
      split at member
      · rcases mem_cons.mp member with rfl | old
        · exact .inr rfl
        · exact .inl (mem_cons_of_mem _ old)
      · next other =>
        rcases mem_cons.mp member with rfl | later
        · exact .inl mem_cons_self
        · rw [map_cons, mem_cons] at known
          exact (ih (known.resolve_left (Ne.symm other)) later).imp_left (mem_cons_of_mem _)
  · rcases mem_append.mp member with old | new
    · exact .inl old
    · exact .inr (congrArg Prod.snd (mem_singleton.mp new))

theorem direct_eq (placed : placeDirect t.room name = some room) :
    (t.direct name v).toState = { t.toState with entries := bound name v t.entries } ∧
      (t.direct name v).room = room := by
  unfold placeDirect Table.room Table.names at placed
  split at placed
  · cases placed
  · next free =>
    cases placed
    rw [not_or, length_map] at free
    unfold Table.direct bound Table.room Table.names
    rw [if_neg free.2, if_neg free.1]
    exact ⟨rfl, by rw [map_append]; rfl⟩

theorem declare_room : (t.declare name v).room = placeDeclared t.room name := by
  unfold Table.room Table.declare placeDeclared Table.names bound
  rw [length_map]
  by_cases known : name ∈ t.entries.map Prod.fst
  · rw [if_pos known, if_pos known, names_assign, if_neg fun fresh => fresh.1 known]
  · rw [if_neg known, if_neg known, map_append]
    congr 1
    exact if_congr (and_iff_right known) rfl rfl

theorem declareAll_eq (added : List Entry) (t : Table World) :
    (t.declareAll added).toState = { t.toState with entries := boundAll added t.entries } ∧
      (t.declareAll added).room = (added.map Prod.fst).foldl placeDeclared t.room := by
  induction added generalizing t with
  | nil => exact ⟨rfl, rfl⟩
  | cons first added ih =>
    obtain ⟨state, room⟩ := ih (t.declare first.1 first.2)
    rw [declare_room] at room
    exact ⟨state, room⟩

variable {target : ASTNode}

theorem patternEntries_names (i : Nat) (s : State World) :
    (patternEntries names host i target v s).map Prod.fst =
      (host.adds i target s).map Prod.fst ++ names target := by
  rw [patternEntries, map_append, List.map_map]
  exact congrArg _ (map_id' _)

theorem evalPattern_eq {i : Nat} (pattern : name? target = none) :
    (evalPattern names host i target v t).toState = meantTarget names host i target v t.toState ∧
      (evalPattern names host i target v t).room =
        ((host.adds i target t.toState).map Prod.fst ++ names target).foldl placeDeclared
          t.room := by
  obtain ⟨state, room⟩ := declareAll_eq (patternEntries names host i target v t.toState)
    { t with toState := (host.pattern i target v t.toState).2 }
  rw [patternEntries_names] at room
  unfold meantTarget evalPattern
  rw [pattern]
  refine ⟨state, room.trans ?_⟩
  congr 1
  exact congrArg (·, t.capacity) (host.pattern_names i target v t.toState)

theorem given_names (i : Nat) (right : ASTNode) (s : State World) :
    (given host argv i right s).2.1.entries.map Prod.fst = s.entries.map Prod.fst := by
  unfold given
  split
  · exact host.default_names i right s
  · rfl

/-- The names that the evaluation for a parameter adds. -/
def addedFor (host : Host World) (argv : List LRValue) (p : ASTNode) (i : Nat) (s : State World) :
    List Name :=
  match form p with
  | .default _ right => (given host argv i right s).2.2.map Prod.fst
  | _ => (host.adds i (evaluated p) s).map Prod.fst

theorem addedFor_subset (within : ∀ i e s, (host.adds i e s).map Prod.fst ⊆ adds e) (p : ASTNode)
    (i : Nat) (s : State World) : addedFor host argv p i s ⊆ adds (evaluated p) := by
  unfold addedFor
  split
  · next target right kind =>
    have evaluates : evaluated p = right := by
      unfold evaluated
      rw [kind]
    rw [evaluates, given]
    split
    · exact within i right s
    · exact nil_subset _
  · exact within i _ s

/-- A parameter that has a place is bound as is meant. -/
theorem bind_eq {p : ASTNode} {i : Nat}
    (placed : place names (addedFor host argv p i t.toState) t.room p = some room) :
    (bind names host argv t (p, i)).toState = meant names host argv t.toState (p, i) ∧
      (bind names host argv t (p, i)).room = room := by
  unfold place addedFor evaluated at placed
  unfold bind meant
  cases kind : form p with
  | plain target =>
    rw [kind] at placed
    dsimp only at placed ⊢
    cases named : name? target with
    | some name =>
      rw [named] at placed
      unfold meantTarget
      rw [named]
      exact direct_eq placed
    | none =>
      rw [named] at placed
      cases placed
      exact evalPattern_eq named
  | rest target =>
    rw [kind] at placed
    dsimp only at placed ⊢
    unfold meantTarget
    cases named : name? target with
    | some name =>
      rw [named] at placed
      exact @direct_eq _ _ _ { t with world := (host.newArray (argv.drop i) t.world).2 } _ placed
    | none =>
      rw [named] at placed
      cases placed
  | default target right =>
    rw [kind] at placed
    dsimp only at placed ⊢
    unfold meantTarget
    cases named : name? target with
    | some name =>
      rw [named] at placed
      obtain ⟨state, reaches⟩ := declareAll_eq (given host argv i right t.toState).2.2
        { t with toState := (given host argv i right t.toState).2.1 }
      have before : Table.room { t with toState := (given host argv i right t.toState).2.1 } =
          t.room := congrArg (·, t.capacity) (given_names i right t.toState)
      rw [before] at reaches
      rw [← reaches] at placed
      obtain ⟨bound_state, bound_room⟩ := @direct_eq _ _ (given host argv i right t.toState).1
        _ _ placed
      refine ⟨bound_state.trans ?_, bound_room⟩
      rw [state]
    | none =>
      rw [named] at placed
      cases placed
  | other =>
    rw [kind] at placed
    cases placed
    exact ⟨rfl, rfl⟩

variable (params : List ASTNode)

theorem binds_eq (within : ∀ i e s, (host.adds i e s).map Prod.fst ⊆ adds e) (i : Nat)
    (t : Table World) (placed : Places names adds params t.room) :
    ((params.zipIdx i).foldl (bind names host argv) t).toState =
      (params.zipIdx i).foldl (meant names host argv) t.toState := by
  induction params generalizing i t with
  | nil => rfl
  | cons p params ih =>
    obtain ⟨next, first, rest⟩ := placed _ (addedFor_subset within p i t.toState)
    obtain ⟨state, reaches⟩ := bind_eq first
    rw [zipIdx_cons, foldl_cons, foldl_cons, ← state]
    exact ih (i + 1) _ (by rw [reaches]; exact rest)

theorem Places.take {params : List ASTNode} (placed : Places names adds params room) (k : Nat) :
    Places names adds (params.take k) room := by
  induction params generalizing room k with
  | nil =>
    rw [take_nil]
    exact placed
  | cons p params ih =>
    cases k with
    | zero => trivial
    | succ k =>
      intro added allowed
      obtain ⟨next, first, rest⟩ := placed added allowed
      exact ⟨next, first, ih rest k⟩

/-- Plain parameters that have places are bound to their arguments, in order. -/
theorem meant_inline (i : Nat) (s : State World) {capacity : Nat}
    (simple : ∀ p ∈ params, (name? p).isSome = true)
    (placed : Places names adds params (s.entries.map Prod.fst, capacity)) :
    (params.zipIdx i).foldl (meant names host argv) s =
      { s with entries := s.entries ++ (params.zipIdx i).map fun param =>
          ((name? param.1).getD "", argv.getD param.2 .undefined) } := by
  induction params generalizing i s with
  | nil => rw [zipIdx_nil, map_nil, append_nil]; rfl
  | cons p params ih =>
    obtain ⟨name, named⟩ := isSome_iff_exists.mp (simple p mem_cons_self)
    have plain : form p = .plain p := by
      cases p with
      | identifier => rfl
      | _ => cases named
    obtain ⟨next, first, rest⟩ := placed [] (nil_subset _)
    rw [place, plain] at first
    dsimp only at first
    rw [named] at first
    dsimp only at first
    unfold placeDirect at first
    split at first
    · cases first
    · next free =>
      cases first
      rw [not_or] at free
      have step : meant names host argv s (p, i) =
          { s with entries := s.entries ++ [(name, argv.getD i .undefined)] } := by
        unfold meant meantTarget
        rw [plain]
        dsimp only
        rw [named]
        dsimp only
        rw [bound, if_neg free.1]
      rw [zipIdx_cons, foldl_cons, step, map_cons, named,
        ih _ _ (fun q member => simple q (mem_cons_of_mem _ member)) (by
          rw [map_append]
          exact rest)]
      rw [append_assoc]
      rfl

theorem reached_simple {params : List ASTNode}
    (simple : ∀ p ∈ params, (name? p).isSome = true) : reached params = params := by
  induction params with
  | nil => rfl
  | cons p params ih =>
    have plain : form p = .plain p := by
      have named := simple p mem_cons_self
      cases p with
      | identifier => rfl
      | _ => cases named
    unfold reached
    rw [plain, ih fun q member => simple q (mem_cons_of_mem _ member)]

section Calls

variable {callee : Callee} {capacity : Nat} (call : Call World)

theorem fixed_names : (fixed callee call).map Prod.fst = fixedNames callee := by
  unfold fixed fixedNames
  cases callee.derived <;> cases callee.parentFound <;> cases callee.usesArguments <;> rfl

/-- Parameters that all have places are bound right by each binder. -/
theorem Placed.right (placed : Placed names adds callee capacity) :
    Right names adds callee capacity := by
  intro World host call k within
  have run := Places.take placed k
  have general : interp_call_function names host callee capacity call k =
      meantCall names host callee call k := by
    have start : (⟨⟨fixed callee call, call.world⟩, capacity⟩ : Table World).room =
        (fixedNames callee, capacity) := congrArg (·, capacity) (fixed_names call)
    rw [← start] at run
    exact binds_eq _ within 0 _ run
  rw [general]
  refine ⟨⟨rfl, fun _ => rfl⟩, ?_⟩
  unfold interp_bc_call_function
  split
  · next eligible =>
    have simple : ∀ p ∈ callee.params, (name? p).isSome = true := by
      exact all_eq_true.mp (Bool.and_eq_true_iff.mp eligible).2
    rw [reached_simple simple] at run
    have inline : meantCall names host callee call k =
        ⟨fixed callee call ++ inlineEntries call.argv (callee.params.take k), call.world⟩ := by
      unfold meantCall
      rw [reached_simple simple]
      refine @meant_inline _ _ adds _ _ _ 0 _ capacity
        (fun p member => simple p (mem_of_mem_take member)) ?_
      rw [fixed_names]
      exact run
    rw [inline]
    exact ⟨rfl, fun _ => rfl⟩
  · change Agree (interp_call_function names host callee capacity call k) _
    rw [general]
    exact ⟨rfl, fun _ => rfl⟩

end Calls

/-- Every evaluation is counted and adds the names that are chosen for its place; the default at
`mark` is 1. -/
def probing (adds : ASTNode → List Name) (chosen : Nat → List Name) (mark : Nat) : Host Nat where
  default := fun i _ s => (.int32 (if i = mark then 1 else 0), { s with world := s.world + 1 })
  pattern := fun _ _ _ s => (fun _ => .int32 0, { s with world := s.world + 1 })
  adds := fun i e _ => ((chosen i).filter (· ∈ adds e)).map fun name => (name, .int32 0)
  newArray := fun elements world => (.int32 elements.length, world + 1)
  default_names := fun _ _ _ => rfl
  pattern_names := fun _ _ _ _ => rfl

/-- A call with `undefined` for the parameters before a place. -/
def blanks (i : Nat) (last : LRValue) : Call Nat where
  this_val := .int32 0
  superctor := .int32 0
  superproto := .int32 0
  arguments := .int32 0
  argv := List.replicate i .undefined ++ [last]
  world := 0

theorem getD_blanks {i j : Nat} (less : j < i) (last : LRValue) :
    (blanks i last).argv.getD j .undefined = .undefined := by
  unfold blanks
  rw [getD_eq_getElem?_getD, getElem?_append_left (by rwa [length_replicate]),
    getElem?_replicate_of_lt less]
  rfl

theorem getD_blanks_self (i : Nat) (last : LRValue) :
    (blanks i last).argv.getD i .undefined = last := by
  unfold blanks
  rw [getD_eq_getElem?_getD, getElem?_append_right (by rw [length_replicate]),
    length_replicate, Nat.sub_self]
  rfl

theorem length_drop_blanks (i j : Nat) (last : LRValue) :
    ((blanks i last).argv.drop j).length = i + 1 - j := by
  unfold blanks
  rw [length_drop, length_append, length_replicate, length_singleton]

section Probes

variable {chosen : Nat → List Name} {mark : Nat}

theorem probing_adds {e : ASTNode} {i : Nat} (allowed : chosen i ⊆ adds e) (s : State Nat) :
    ((probing adds chosen mark).adds i e s).map Prod.fst = chosen i := by
  change (((chosen i).filter _).map _).map Prod.fst = chosen i
  rw [List.map_map]
  refine (map_id' _).trans (filter_eq_self.mpr fun name member => ?_)
  exact decide_eq_true (allowed member)

theorem probing_within (i : Nat) (e : ASTNode) (s : State Nat) :
    ((probing adds chosen mark).adds i e s).map Prod.fst ⊆ adds e := by
  intro name member
  change name ∈ (((chosen i).filter _).map _).map Prod.fst at member
  rw [List.map_map] at member
  obtain ⟨other, kept, rfl⟩ := List.mem_map.mp member
  exact of_decide_eq_true (mem_filter.mp kept).2

/-- The choice for a place is what its evaluation adds, if it is made. -/
theorem probing_addedFor {p : ASTNode} {i : Nat} (allowed : chosen i ⊆ adds (evaluated p))
    (missing : argv.getD i .undefined = .undefined) (s : State Nat) :
    addedFor (probing adds chosen mark) argv p i s = chosen i := by
  unfold addedFor
  split
  · next target right kind =>
    have evaluates : evaluated p = right := by
      unfold evaluated
      rw [kind]
    rw [evaluates] at allowed
    rw [given, if_pos missing]
    exact @probing_adds _ chosen mark right i allowed s
  · exact probing_adds allowed s

/-- The places with these choices. -/
def placeAt (names : ASTNode → List Name) (chosen : Nat → List Name) (room : Room)
    (param : ASTNode × Nat) : Option Room :=
  place names (chosen param.2) room param.1

theorem probing_run {i : Nat} {t : Table Nat} {last : Room}
    (allowed : ∀ param ∈ params.zipIdx i, chosen param.2 ⊆ adds (evaluated param.1))
    (missing : ∀ param ∈ params.zipIdx i, argv.getD param.2 .undefined = .undefined)
    (run : (params.zipIdx i).foldlM (placeAt names chosen) t.room = some last) :
    ((params.zipIdx i).foldl (bind names (probing adds chosen mark) argv) t).toState =
        (params.zipIdx i).foldl (meant names (probing adds chosen mark) argv) t.toState ∧
      ((params.zipIdx i).foldl (bind names (probing adds chosen mark) argv) t).room = last := by
  induction params generalizing i t with
  | nil =>
    cases run
    exact ⟨rfl, rfl⟩
  | cons p params ih =>
    rw [zipIdx_cons] at allowed missing run ⊢
    obtain ⟨next, first, rest⟩ := bind_eq_some_iff.mp run
    rw [placeAt, ← probing_addedFor (allowed _ mem_cons_self) (missing _ mem_cons_self)
      t.toState] at first
    obtain ⟨state, reaches⟩ := bind_eq first
    rw [foldl_cons, foldl_cons, ← state]
    exact ih (fun param member => allowed param (mem_cons_of_mem _ member))
      (fun param member => missing param (mem_cons_of_mem _ member)) (by rw [reaches]; exact rest)

end Probes

def Unmarked (entries : List Entry) : Prop :=
  ∀ entry ∈ entries, entry.2 ≠ .int32 1

theorem Unmarked.bound (unmarked : Unmarked entries) (other : v ≠ .int32 1) :
    Unmarked (bound name v entries) := by
  intro entry member
  rcases mem_bound member with old | new
  · exact unmarked entry old
  · rw [new]
    exact other

theorem Unmarked.boundAll {added : List Entry} (unmarked : Unmarked entries)
    (others : Unmarked added) : Unmarked (boundAll added entries) := by
  induction added generalizing entries with
  | nil => exact unmarked
  | cons first added ih =>
    exact ih (unmarked.bound (others first mem_cons_self))
      fun entry member => others entry (mem_cons_of_mem _ member)

section Marks

variable {s : State Nat} {chosen : Nat → List Name} {mark : Nat} {p : ASTNode}

theorem unmarked_adds (i : Nat) (e : ASTNode) :
    Unmarked ((probing adds chosen mark).adds i e s) := by
  rintro entry member
  obtain ⟨name, -, rfl⟩ := List.mem_map.mp member
  exact fun same => by cases same

theorem Unmarked.meantTarget {i : Nat} (unmarked : Unmarked s.entries) (other : v ≠ .int32 1) :
    Unmarked (meantTarget names (probing adds chosen mark) i target v s).entries := by
  unfold Parameters.meantTarget
  split
  · exact unmarked.bound other
  · refine Unmarked.boundAll unmarked fun entry member => ?_
    rcases mem_append.mp member with old | new
    · exact unmarked_adds i target entry old
    · obtain ⟨name, -, rfl⟩ := List.mem_map.mp new
      exact fun same => by cases same

theorem Unmarked.meant {j : Nat} {last : LRValue} (unmarked : Unmarked s.entries)
    (less : j < mark) :
    Unmarked (meant names (probing adds chosen mark) (blanks mark last).argv s (p, j)).entries := by
  have missing := getD_blanks less last
  unfold Parameters.meant
  cases form p with
  | plain target =>
    rw [missing]
    exact unmarked.meantTarget (by decide)
  | rest target =>
    refine Unmarked.meantTarget unmarked ?_
    change LRValue.int32 _ ≠ .int32 1
    rw [length_drop_blanks]
    intro same
    injection same with same
    omega
  | default target right =>
    dsimp only
    rw [given, if_pos missing]
    refine Unmarked.meantTarget (Unmarked.boundAll unmarked
      (@unmarked_adds adds s chosen mark j right)) ?_
    change LRValue.int32 (if j = mark then 1 else 0) ≠ .int32 1
    rw [if_neg less.ne]
    decide
  | other => exact unmarked

theorem unmarked_run {j : Nat} {last : LRValue} (unmarked : Unmarked s.entries)
    (fits : j + params.length ≤ mark) :
    Unmarked ((params.zipIdx j).foldl
      (Parameters.meant names (probing adds chosen mark) (blanks mark last).argv) s).entries := by
  induction params generalizing j s with
  | nil => exact unmarked
  | cons p params ih =>
    rw [length_cons] at fits
    exact ih (unmarked.meant (by omega)) (by omega)

theorem unmarked_fixed (callee : Callee) (i : Nat) (last : LRValue) :
    Unmarked (fixed callee (blanks i last)) := by
  intro entry member
  have zero : entry.2 = .int32 0 := by
    unfold fixed at member
    cases callee.derived <;> cases callee.parentFound <;> cases callee.usesArguments <;>
      simp [blanks] at member <;> aesop
  rw [zero]
  decide

/-- A pattern with a default or behind `...` is left out. -/
theorem left_out {t : Table Nat} {i : Nat} (pattern : name? target = none)
    (kind : form p = .rest target ∨ ∃ right, form p = .default target right) :
    (bind names (probing adds chosen mark) (blanks i .undefined).argv t (p, i)).world ≠
      (Parameters.meant names (probing adds chosen mark) (blanks i .undefined).argv t.toState
        (p, i)).world := by
  have counted (v : LRValue) (s : State Nat) :
      (meantTarget names (probing adds chosen mark) i target v s).world = s.world + 1 := by
    unfold meantTarget
    rw [pattern]
    rfl
  rcases kind with rest | ⟨right, default⟩
  · unfold bind Parameters.meant
    rw [rest]
    dsimp only
    rw [pattern, counted]
    change t.world ≠ t.world + 1 + 1
    omega
  · unfold bind Parameters.meant
    rw [default]
    dsimp only
    rw [pattern, counted, given, if_pos (getD_blanks_self i .undefined)]
    change t.world ≠ t.world + 1 + 1
    omega

/-- A name without a place is hidden by the entry before it, or dropped. -/
theorem hidden {t : Table Nat} {others : List Entry} (unmarked : Unmarked t.entries)
    (none : placeDirect t.room name = none) :
    lookup name (t.direct name v).entries ≠
      lookup name (bound name (.int32 1) others) := by
  rw [lookup_bound]
  intro found
  have marked {entries : List Entry} (free : Unmarked entries) :
      lookup name entries ≠ some (.int32 1) := fun found => by
    obtain ⟨entry, member, same⟩ := mem_of_lookup found
    exact free entry member same
  unfold Table.direct at found
  split at found
  · exact marked unmarked found
  · next room =>
    unfold placeDirect Table.room Table.names at none
    split at none
    · next taken =>
      rw [length_map] at taken
      rw [lookup_append (taken.resolve_right room)] at found
      exact marked unmarked found
    · cases none

/-- The argument is 1, or the marked default is evaluated. -/
def lastFor (p : ASTNode) : LRValue :=
  match form p with
  | .default _ _ => .undefined
  | _ => .int32 1

/-- A name without a place does not get its value. -/
theorem marked_meant {t : Table Nat} (unmarked : Unmarked t.entries)
    (named : name? target = some name) (allowed : chosen mark ⊆ adds (evaluated p))
    (none : place names (chosen mark) t.room p = none)
    (kind : form p = .plain target ∨ form p = .rest target ∨
      ∃ right, form p = .default target right) :
    lookup name (bind names (probing adds chosen mark) (blanks mark (lastFor p)).argv t
        (p, mark)).entries ≠
      lookup name (Parameters.meant names (probing adds chosen mark)
        (blanks mark (lastFor p)).argv t.toState (p, mark)).entries := by
  unfold place at none
  unfold lastFor
  rcases kind with plain | rest | ⟨right, default⟩
  · rw [plain] at none ⊢
    dsimp only at none ⊢
    rw [named] at none
    unfold bind Parameters.meant meantTarget
    rw [plain]
    dsimp only
    rw [named, getD_blanks_self]
    exact hidden unmarked none
  · rw [rest] at none ⊢
    dsimp only at none ⊢
    rw [named] at none
    have array : (probing adds chosen mark).newArray ((blanks mark (.int32 1)).argv.drop mark)
        t.world = (.int32 1, t.world + 1) := by
      change (LRValue.int32 _, _) = _
      rw [length_drop_blanks, Nat.add_sub_cancel_left]
      rfl
    unfold bind Parameters.meant meantTarget
    rw [rest]
    dsimp only
    rw [named, array]
    exact @hidden _ _ { t with world := t.world + 1 } _ unmarked none
  · rw [default] at none ⊢
    dsimp only at none ⊢
    rw [named] at none
    have evaluates : evaluated p = right := by
      unfold evaluated
      rw [default]
    rw [evaluates] at allowed
    have added := @probing_adds adds chosen mark right mark allowed t.toState
    unfold bind Parameters.meant meantTarget
    rw [default]
    dsimp only
    rw [named, given, if_pos (getD_blanks_self mark .undefined)]
    obtain ⟨state, room⟩ := declareAll_eq ((probing adds chosen mark).adds mark right t.toState)
      { t with world := t.world + 1 }
    have value : ((probing adds chosen mark).default mark right t.toState).1 = .int32 1 :=
      congrArg LRValue.int32 (if_pos rfl)
    dsimp only
    rw [value]
    refine hidden ?_ ?_
    · change Unmarked ((Table.declareAll { t with world := t.world + 1 } _).toState.entries)
      rw [state]
      exact Unmarked.boundAll unmarked (unmarked_adds mark right)
    · refine (congrArg (placeDirect · name) (room.trans ?_)).trans none
      rw [added]
      rfl

end Marks

theorem placeAt_congr {params : List (ASTNode × Nat)} {chosen other : Nat → List Name}
    (same : ∀ param ∈ params, other param.2 = chosen param.2) :
    params.foldlM (placeAt names other) room = params.foldlM (placeAt names chosen) room := by
  induction params generalizing room with
  | nil => rfl
  | cons param params ih =>
    rw [foldlM_cons, foldlM_cons, placeAt, placeAt, same param mem_cons_self]
    exact congrArg _ (funext fun _ => ih fun other member => same other (mem_cons_of_mem _ member))

/-- If not all parameters have places there is a first one without. -/
theorem first_unplaced {params : List ASTNode} (i : Nat)
    (stuck : ¬ Places names adds params room) :
    ∃ before p after last, ∃ chosen : Nat → List Name, params = before ++ p :: after ∧
      (∀ param ∈ before.zipIdx i, chosen param.2 ⊆ adds (evaluated param.1)) ∧
      (before.zipIdx i).foldlM (placeAt names chosen) room = some last ∧
      chosen (i + before.length) ⊆ adds (evaluated p) ∧
      place names (chosen (i + before.length)) last p = none := by
  induction params generalizing room i with
  | nil => exact absurd trivial stuck
  | cons p params ih =>
    unfold Places at stuck
    push Not at stuck
    obtain ⟨added, allowed, stuck⟩ := stuck
    cases first : place names added room p with
    | none => exact ⟨[], p, params, room, fun _ => added, rfl, nofun, rfl, allowed, first⟩
    | some next =>
      obtain ⟨before, q, after, last, chosen, split, each, run, free, unplaced⟩ :=
        ih (i + 1) (stuck next first)
      have later {j : Nat} (behind : i < j) : Function.update chosen i added j = chosen j :=
        Function.update_of_ne behind.ne' _ _
      have indices : ∀ param ∈ before.zipIdx (i + 1), i < param.2 := fun param member =>
        Nat.lt_of_succ_le (le_snd_of_mem_zipIdx member)
      have place : i + (p :: before).length = i + 1 + before.length := by
        rw [length_cons]
        omega
      refine ⟨p :: before, q, after, last, Function.update chosen i added,
        congrArg (p :: ·) split, ?_, ?_, ?_, ?_⟩
      · rw [zipIdx_cons]
        intro param member
        rcases mem_cons.mp member with rfl | member
        · rw [Function.update_self]
          exact allowed
        · rw [later (indices param member)]
          exact each param member
      · rw [zipIdx_cons, foldlM_cons, placeAt, Function.update_self, first, ← run]
        exact placeAt_congr fun param member => later (indices param member)
      · rw [place, later (by omega)]
        exact free
      · rw [place, later (by omega)]
        exact unplaced

/-- It is a name that is not new or has no room, or a pattern with a default or behind `...`. -/
theorem unplaced_cases (unplaced : place names added room p = none) :
    ∃ target,
      (∃ name, name? target = some name ∧
        (form p = .plain target ∨ form p = .rest target ∨
          ∃ right, form p = .default target right)) ∨
      name? target = none ∧
        (form p = .rest target ∨ ∃ right, form p = .default target right) := by
  unfold place at unplaced
  cases kind : form p with
  | plain target =>
    rw [kind] at unplaced
    dsimp only at unplaced
    cases named : name? target with
    | some name => exact ⟨target, .inl ⟨name, named, .inl rfl⟩⟩
    | none =>
      rw [named] at unplaced
      cases unplaced
  | rest target =>
    cases named : name? target with
    | some name => exact ⟨target, .inl ⟨name, named, .inr (.inl rfl)⟩⟩
    | none => exact ⟨target, .inr ⟨named, .inl rfl⟩⟩
  | default target right =>
    cases named : name? target with
    | some name => exact ⟨target, .inl ⟨name, named, .inr (.inr ⟨right, rfl⟩)⟩⟩
    | none => exact ⟨target, .inr ⟨named, .inr ⟨right, rfl⟩⟩⟩
  | other =>
    rw [kind] at unplaced
    cases unplaced

theorem take_zipIdx_before {p : ASTNode} {before after : List ASTNode} :
    ((before ++ p :: after).take (before.length + 1)).zipIdx =
      before.zipIdx ++ [(p, before.length)] := by
  rw [take_length_add_append, take_succ_cons, take_zero, zipIdx_append,
    Nat.zero_add]
  rfl

/-- Both sides up to a parameter: the states agree before it, if all before it have a place. -/
theorem calls_at {callee : Callee} {capacity : Nat} {p : ASTNode} {before after : List ASTNode}
    {chosen : Nat → List Name} (split : reached callee.params = before ++ p :: after)
    (allowed : ∀ param ∈ before.zipIdx, chosen param.2 ⊆ adds (evaluated param.1))
    (run : before.zipIdx.foldlM (placeAt names chosen) (fixedNames callee, capacity) = some room)
    (last : LRValue) :
    ∃ t : Table Nat, t.room = room ∧ Unmarked t.entries ∧
      interp_call_function names (probing adds chosen before.length) callee capacity
          (blanks before.length last) (before.length + 1) =
        (bind names (probing adds chosen before.length) (blanks before.length last).argv t
          (p, before.length)).toState ∧
      meantCall names (probing adds chosen before.length) callee (blanks before.length last)
          (before.length + 1) =
        meant names (probing adds chosen before.length) (blanks before.length last).argv t.toState
          (p, before.length) := by
  have start : (⟨⟨fixed callee (blanks before.length last), (blanks before.length last).world⟩,
      capacity⟩ : Table Nat).room = (fixedNames callee, capacity) :=
    congrArg (·, capacity) (fixed_names _)
  rw [← start] at run
  obtain ⟨state, reaches⟩ := @probing_run names adds (blanks before.length last).argv before
    chosen before.length 0 _ _ allowed (fun param member => getD_blanks (by
      have := snd_lt_add_of_mem_zipIdx member
      omega) last) run
  refine ⟨_, reaches, ?_, ?_, ?_⟩
  · rw [state]
    exact unmarked_run before (unmarked_fixed callee _ _) (by omega)
  · unfold interp_call_function
    rw [split, take_zipIdx_before, foldl_append]
    rfl
  · unfold meantCall
    rw [split, take_zipIdx_before, foldl_append, state]
    rfl

theorem placed_of_right {callee : Callee} {capacity : Nat}
    (right : Right names adds callee capacity) : Placed names adds callee capacity := by
  by_contra unplaced
  obtain ⟨before, p, after, last, chosen, split, allowed, run, free, stuck⟩ :=
    first_unplaced 0 unplaced
  rw [Nat.zero_add] at free stuck
  obtain ⟨target, ⟨name, named, kind⟩ | ⟨pattern, kind⟩⟩ := unplaced_cases stuck
  · obtain ⟨t, room, unmarked, code, spec⟩ := calls_at split allowed run (lastFor p)
    have agree := (right _ (probing adds chosen before.length)
      (blanks before.length (lastFor p)) (before.length + 1) probing_within).1.2 name
    rw [code, spec] at agree
    exact marked_meant unmarked named free (by rwa [room]) kind agree
  · obtain ⟨t, -, -, code, spec⟩ := calls_at split allowed run .undefined
    have agree := (right _ (probing adds chosen before.length) (blanks before.length .undefined)
      (before.length + 1) probing_within).1.1
    rw [code, spec] at agree
    exact left_out pattern kind agree

/-- `function f({a} = {}) {}` -/
def defaultedPattern : Callee where
  params := [.assign .assign (.object [.property (.identifier "a") (.identifier "a") false true])
    (.object [])]
  derived := false
  parentFound := false
  usesArguments := false

end LRJS.Parameters
