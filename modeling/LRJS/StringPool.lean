import LRJS.Library.Places
import LRJS.Library.Runs
import LRJS.Objects

/-!
# The string pool

`lr_string_alloc` and `lr_string_free` with the pool of a runtime (`lr_engine.c`): `str_ring`, up to
64 freed strings, and `str_pool_bins`, of which bin `k` has freed blocks of sizes in `(2^(k-1),
2^k]`.

`rt` says whether a runtime is passed to `lr_string_free`; `lr_string_alloc` needs one.  The blocks
in use and the sizes asked for are recorded beside the pool.
-/

namespace LRJS

open Function Places List Option

/-- `sizeof(LRString) + len + 1`, a `size_t`. -/
def stringSize (len : Nat) : Nat :=
  (16 + len + 1) % 2 ^ 64

/-- How often `v` can be shifted until it is 0; a `size_t` has 64 bits. -/
def shifts : Nat → Nat → Nat
  | 0, _ => 0
  | bits + 1, v => if 0 < v then shifts bits (v / 2) + 1 else 0

/-- The bin of a size; `size - 1` is a `size_t`. -/
def lr_str_pool_bin (size : Nat) : Nat :=
  shifts 64 (if size = 0 then 2 ^ 64 - 1 else size - 1)

def larger (m size : Nat) : Nat :=
  if m < size then size else m

/-! ## The pool -/

/-- `len` and `is_atom` of an `LRString`. -/
structure LRStringHeader where
  len : Nat
  is_atom : Bool
deriving DecidableEq, Repr

structure LRStrPoolNode where
  addr : Addr
  size : Nat
deriving DecidableEq, Repr

/-- The pool, the headers in memory, the blocks in use, the length asked for at a block, and the
size of its allocation.  The newest entry of the ring is the first. -/
structure StrPool where
  ring : List Addr
  bins : Nat → List LRStrPoolNode
  bin_max : Nat → Nat
  max_size : Nat
  header : Addr → LRStringHeader
  live : List Addr
  asked : Addr → Nat
  original : Addr → Nat

namespace StrPool

def initial : StrPool where
  ring := []
  bins := fun _ => []
  bin_max := fun _ => 0
  max_size := 0
  header := fun _ => ⟨0, false⟩
  live := []
  asked := fun _ => 0
  original := fun _ => 0

def lr_str_pool_bin_max_recompute (nodes : List LRStrPoolNode) : Nat :=
  (nodes.map LRStrPoolNode.size).foldl larger 0

def lr_str_pool_recompute_global (bin_max : Nat → Nat) : Nat :=
  ((List.range 16).map bin_max).foldl larger 0

section Operations

variable (pool : StrPool)

/-- `lr_str_pool_push`; a block too large for the bins goes back to the allocator. -/
def lr_str_pool_push (s : Addr) (alloc_size : Nat) : StrPool :=
  let k := lr_str_pool_bin alloc_size
  if 16 ≤ k then
    pool
  else
    { pool with
      bins := Function.update pool.bins k (⟨s, alloc_size⟩ :: pool.bins k)
      bin_max := Function.update pool.bin_max k (larger (pool.bin_max k) alloc_size)
      max_size := larger pool.max_size alloc_size }

def unlink (need : Nat) : List LRStrPoolNode → Option (LRStrPoolNode × List LRStrPoolNode)
  | [] => none
  | p :: next =>
    if need ≤ p.size then
      some (p, next)
    else
      (unlink need next).map fun (found, rest) => (found, p :: rest)

/-- Leave `rest` in a bin, and bring the maxima up to date. -/
def pop (k : Nat) (node : LRStrPoolNode) (rest : List LRStrPoolNode) : StrPool :=
  let bins := Function.update pool.bins k rest
  if pool.bin_max k ≤ node.size then
    let bin_max := Function.update pool.bin_max k (lr_str_pool_bin_max_recompute rest)
    { pool with bins, bin_max, max_size := lr_str_pool_recompute_global bin_max }
  else
    { pool with bins }

def popExact (need j : Nat) : Option (Addr × StrPool) :=
  if need ≤ pool.bin_max j then
    (unlink need (pool.bins j)).map fun (node, rest) => (node.addr, pool.pop j node rest)
  else
    none

def popLarger : List Nat → Option (Addr × StrPool)
  | [] => none
  | k :: larger =>
    match pool.bins k with
    | node :: next => some (node.addr, pool.pop k node next)
    | [] => popLarger larger

def popBlock (need : Nat) : Option (Addr × StrPool) :=
  let j := lr_str_pool_bin need
  if j < 16 ∧ need ≤ pool.max_size then
    (pool.popExact need j).or (pool.popLarger (List.range' (j + 1) (15 - j)))
  else
    none

def give (s : Addr) (len : Nat) : StrPool :=
  { pool with
    header := Function.update pool.header s ⟨len % 2 ^ 32, false⟩
    live := s :: pool.live
    asked := Function.update pool.asked s len }

/-- The fresh allocation at the end of `lr_string_alloc`. -/
def fresh_alloc (len : Nat) (malloc : Option Addr) : StrPool × Option Addr :=
  match malloc with
  | none => (pool, none)
  | some s =>
    (give { pool with original := Function.update pool.original s (stringSize len) } s len,
      some s)

def fallback (len : Nat) (malloc : Option Addr) : StrPool × Option Addr :=
  match pool.popBlock (stringSize len) with
  | some (s, popped) => (popped.give s len, some s)
  | none => pool.fresh_alloc len malloc

def lr_string_alloc (len : Nat) (malloc : Option Addr) : StrPool × Option Addr :=
  match pool.ring with
  | s :: ring =>
    if len ≤ (pool.header s).len then
      (give { pool with ring } s len, some s)
    else
      (lr_str_pool_push { pool with ring } s (stringSize (pool.header s).len)).fallback
        len malloc
  | [] => pool.fallback len malloc

def lr_string_free (rt : Bool) (s : Addr) : StrPool :=
  let freed := { pool with live := pool.live.erase s }
  if rt && (pool.header s).len ≤ 512 && !(pool.header s).is_atom then
    if pool.ring.length < 64 then
      { freed with ring := s :: pool.ring }
    else
      freed.lr_str_pool_push s (stringSize (pool.header s).len)
  else
    freed

/-- `is_atom = 1`, when a string is interned. -/
def intern (s : Addr) : StrPool :=
  { pool with header := Function.update pool.header s { pool.header s with is_atom := true } }

end Operations

end StrPool

inductive StringCall where
  | alloc (len : Nat) (malloc : Option Addr)
  | intern (s : Addr)
  | free (rt : Bool) (s : Addr)
deriving DecidableEq, Repr

def StrPool.next (pool : StrPool) : StringCall → Option StrPool
  | .alloc len malloc => some (pool.lr_string_alloc len malloc).1
  | .intern s => some (pool.intern s)
  | .free rt s => some (pool.lr_string_free rt s)

/-! ## Maxima and size classes -/

/-- `m` is the maximum of the sizes, 0 if there are none. -/
structure Greatest (m : Nat) (sizes : List Nat) : Prop where
  bound : ∀ size ∈ sizes, size ≤ m
  attained : sizes ≠ [] → m ∈ sizes
  none : sizes = [] → m = 0

theorem larger_eq (m size : Nat) : larger m size = max m size := by
  unfold larger
  split <;> omega

theorem foldl_larger (sizes : List Nat) (m : Nat) :
    (∀ size ∈ sizes, size ≤ sizes.foldl larger m) ∧ m ≤ sizes.foldl larger m ∧
      (sizes.foldl larger m = m ∨ sizes.foldl larger m ∈ sizes) := by
  induction sizes generalizing m with
  | nil =>
    exact ⟨nofun, Nat.le_refl m, .inl rfl⟩
  | cons size rest ih =>
    obtain ⟨bound, above, attained⟩ := ih (larger m size)
    rw [foldl_cons]
    have step := larger_eq m size
    refine ⟨fun other member => ?_, by omega, ?_⟩
    · rcases mem_cons.mp member with rfl | later
      · omega
      · exact bound other later
    · rcases attained with same | later
      · rcases Nat.le_total m size with below | below
        · exact .inr (mem_cons.mpr (.inl (by omega)))
        · exact .inl (by omega)
      · exact .inr (mem_cons_of_mem size later)

theorem greatest_foldl (sizes : List Nat) : Greatest (sizes.foldl larger 0) sizes := by
  obtain ⟨bound, -, attained⟩ := foldl_larger sizes 0
  refine ⟨bound, fun some_ => ?_, ?_⟩
  · rcases attained with zero | member
    · obtain ⟨size, rest, rfl⟩ := exists_cons_of_ne_nil some_
      have least := bound size mem_cons_self
      exact mem_cons.mpr (.inl (by omega))
    · exact member
  · rintro rfl
    rfl

theorem Greatest.cons {m : Nat} {sizes : List Nat} (greatest : Greatest m sizes) (size : Nat) :
    Greatest (larger m size) (size :: sizes) := by
  rw [larger_eq]
  refine ⟨fun other member => ?_, fun _ => ?_, nofun⟩
  · rcases mem_cons.mp member with rfl | later
    · exact Nat.le_max_right m other
    · exact (greatest.bound other later).trans (Nat.le_max_left m size)
  · cases sizes with
    | nil =>
      rw [greatest.none rfl, Nat.zero_max]
      exact mem_cons_self
    | cons head rest =>
      rcases Nat.le_total m size with below | below
      · rw [Nat.max_eq_right below]
        exact mem_cons_self
      · rw [Nat.max_eq_left below]
        exact mem_cons_of_mem size (greatest.attained (cons_ne_nil head rest))

theorem Greatest.take {m size : Nat} {sizes rest : List Nat} (greatest : Greatest m sizes)
    (holds : sizes.Perm (size :: rest)) (below : size < m) : Greatest m rest := by
  have some_ : sizes ≠ [] := by
    rintro rfl
    exact absurd holds.length_eq (by simp)
  have member : m ∈ rest := by
    have attained := holds.mem_iff.mp (greatest.attained some_)
    exact (mem_cons.mp attained).resolve_left (by omega)
  refine ⟨fun other found => ?_, fun _ => member, ?_⟩
  · exact greatest.bound other (holds.mem_iff.mpr (mem_cons_of_mem size found))
  · rintro rfl
    cases member

theorem greatest_bins {m : Nat} {bin_max : Nat → Nat} :
    Greatest m ((List.range 16).map bin_max) ↔
      (∀ k < 16, bin_max k ≤ m) ∧ ∃ k < 16, bin_max k = m := by
  constructor
  · intro greatest
    refine ⟨fun k bound => ?_, ?_⟩
    · exact greatest.bound _ (mem_map_of_mem (mem_range.mpr bound))
    · obtain ⟨k, member, same⟩ := mem_map.mp (greatest.attained (by simp))
      exact ⟨k, mem_range.mp member, same⟩
  · rintro ⟨bound, k, small, same⟩
    refine ⟨fun size member => ?_, fun _ => ?_, fun none_ => ?_⟩
    · obtain ⟨other, found, rfl⟩ := mem_map.mp member
      exact bound other (mem_range.mp found)
    · exact mem_map.mpr ⟨k, mem_range.mpr small, same⟩
    · simp at none_

/-- A block that is pushed raises the maximum of its bin and the global one alike. -/
theorem greatest_push {m : Nat} {bin_max : Nat → Nat}
    (greatest : Greatest m ((List.range 16).map bin_max)) {k : Nat} (small : k < 16) (size : Nat) :
    Greatest (larger m size)
      ((List.range 16).map (Function.update bin_max k (larger (bin_max k) size))) := by
  have all := greatest_bins.mp greatest
  have own := larger_eq (bin_max k) size
  have total := larger_eq m size
  have below := all.1 k small
  refine greatest_bins.mpr ⟨fun other bound => ?_, ?_⟩
  · by_cases here : other = k
    · rw [here, update_self]
      omega
    · rw [update_of_ne here]
      have old := all.1 other bound
      omega
  · rcases Nat.lt_or_ge m size with grows | stays
    · refine ⟨k, small, ?_⟩
      rw [update_self]
      omega
    · obtain ⟨other, bound, same⟩ := all.2
      refine ⟨other, bound, ?_⟩
      by_cases here : other = k
      · subst here
        rw [update_self]
        omega
      · rw [update_of_ne here]
        omega

/-- The size belongs to bin `k`: it is in `(2^(k-1), 2^k]`. -/
def InBin (k size : Nat) : Prop :=
  2 ^ k < 2 * size ∧ size ≤ 2 ^ k

theorem shifts_spec (bits v : Nat) (small : v < 2 ^ bits) :
    v < 2 ^ shifts bits v ∧ 2 ^ shifts bits v ≤ max 1 (2 * v) := by
  induction bits generalizing v with
  | zero =>
    have zero : v = 0 := by
      simpa using small
    subst zero
    exact ⟨by decide, by decide⟩
  | succ bits ih =>
    rw [shifts]
    by_cases positive : 0 < v
    · rw [if_pos positive, Nat.pow_succ]
      have half := ih (v / 2) (by omega)
      omega
    · rw [if_neg positive]
      omega

theorem inBin_bin {size : Nat} (positive : 0 < size) (small : size < 2 ^ 64) :
    InBin (lr_str_pool_bin size) size := by
  have spec := shifts_spec 64 (size - 1) (by omega)
  unfold InBin lr_str_pool_bin
  rw [if_neg positive.ne']
  omega

/-! ## The invariant -/

inductive StrPlace where
  | live
  | ring
  | bin (k : Nat)
deriving DecidableEq, Repr

namespace StrPool

def contents (pool : StrPool) : StrPlace → List Addr
  | .live => pool.live
  | .ring => pool.ring
  | .bin k => (pool.bins k).map LRStrPoolNode.addr

structure Maxima (pool : StrPool) : Prop where
  bin : ∀ k, Greatest (pool.bin_max k) ((pool.bins k).map LRStrPoolNode.size)
  all : Greatest pool.max_size ((List.range 16).map pool.bin_max)

theorem Maxima.push {pool : StrPool} (maxima : pool.Maxima) {k : Nat} (small : k < 16)
    (s : Addr) (size : Nat) :
    Maxima { pool with
      bins := update pool.bins k (⟨s, size⟩ :: pool.bins k)
      bin_max := update pool.bin_max k (larger (pool.bin_max k) size)
      max_size := larger pool.max_size size } := by
  constructor
  · intro other
    dsimp only
    by_cases here : other = k
    · subst here
      rw [update_self, update_self, map_cons]
      exact (maxima.bin other).cons size
    · rw [update_of_ne here, update_of_ne here]
      exact maxima.bin other
  · exact greatest_push maxima.all small size

structure Sound (pool : StrPool) : Prop where
  apart : Apart pool.contents
  asked : ∀ s ∈ pool.live, 16 + pool.asked s + 1 ≤ pool.original s
  header : ∀ s ∈ pool.live, (pool.header s).len ≤ pool.asked s
  ring : ∀ s ∈ pool.ring, 16 + (pool.header s).len + 1 ≤ pool.original s
  short : ∀ s ∈ pool.ring, (pool.header s).len ≤ 512
  bins : ∀ k, ∀ node ∈ pool.bins k, node.size ≤ pool.original node.addr
  range : ∀ k, ∀ node ∈ pool.bins k, InBin k node.size
  maxima : pool.Maxima

theorem stringSize_eq {len : Nat} (fits : 16 + len + 1 < 2 ^ 64) : stringSize len = 16 + len + 1 :=
  Nat.mod_eq_of_lt fits

section Contents

variable {pool : StrPool}

theorem contents_live (live : List Addr) :
    contents { pool with live } = Function.update pool.contents .live live := by
  funext place
  cases place <;> rfl

theorem contents_ring (ring : List Addr) :
    contents { pool with ring } = Function.update pool.contents .ring ring := by
  funext place
  cases place <;> rfl

theorem contents_bins (pool : StrPool) (k : Nat) (nodes : List LRStrPoolNode) :
    contents { pool with bins := update pool.bins k nodes } =
      update pool.contents (.bin k) (nodes.map LRStrPoolNode.addr) := by
  funext place
  cases place with
  | live | ring => rfl
  | bin other =>
    by_cases here : other = k
    · subst here
      rw [update_self]
      change (update pool.bins other nodes other).map _ = _
      rw [update_self]
    · have elsewhere : StrPlace.bin other ≠ .bin k := fun same => here (by cases same; rfl)
      rw [update_of_ne elsewhere]
      change (update pool.bins k nodes other).map _ = _
      rw [update_of_ne here]
      rfl

end Contents

/-! ## Moving blocks -/

section Moves

variable {pool : StrPool}

variable {s : Addr}

/-- A block that is large enough is given out once. -/
theorem Sound.give (sound : pool.Sound) (absent : Absent pool.contents s)
    {len : Nat} (large : 16 + len + 1 ≤ pool.original s) : (pool.give s len).Sound := by
  have elsewhere (other : Addr) (place : StrPlace) (member : other ∈ pool.contents place) :
      other ≠ s := by
    rintro rfl
    exact absent place member
  constructor
  · have placed := sound.apart.put absent .live
    rw [← contents_live] at placed
    exact placed
  · intro other member
    rcases mem_cons.mp member with rfl | old
    · simpa [StrPool.give] using large
    · simpa [StrPool.give, elsewhere other .live old] using sound.asked other old
  · intro other member
    rcases mem_cons.mp member with rfl | old
    · have truncated := Nat.mod_le len (2 ^ 32)
      simpa [StrPool.give] using truncated
    · simpa [StrPool.give, elsewhere other .live old] using sound.header other old
  · intro other member
    simpa [StrPool.give, elsewhere other .ring member] using sound.ring other member
  · intro other member
    simpa [StrPool.give, elsewhere other .ring member] using sound.short other member
  · exact sound.bins
  · exact sound.range
  · exact ⟨sound.maxima.bin, sound.maxima.all⟩

/-- A freed block goes to the bin of its size. -/
theorem Sound.push (sound : pool.Sound) (absent : Absent pool.contents s)
    {size : Nat} (positive : 0 < size) (small : size < 2 ^ 64) (large : size ≤ pool.original s) :
    (pool.lr_str_pool_push s size).Sound := by
  unfold lr_str_pool_push
  generalize bin : lr_str_pool_bin size = k
  by_cases oversized : 16 ≤ k
  · simpa [oversized] using sound
  · have inBin := inBin_bin positive small
    rw [bin] at inBin
    have member (other : Nat) (node : LRStrPoolNode)
        (found : node ∈ update pool.bins k (⟨s, size⟩ :: pool.bins k) other) :
        other = k ∧ node = ⟨s, size⟩ ∨ node ∈ pool.bins other := by
      by_cases here : other = k
      · subst here
        rw [update_self, mem_cons] at found
        exact found.imp (fun same => ⟨rfl, same⟩) id
      · rw [update_of_ne here] at found
        exact .inr found
    simp only [oversized, if_false]
    constructor
    · have placed := sound.apart.put absent (.bin k)
      have same := contents_bins pool k (⟨s, size⟩ :: pool.bins k)
      exact same ▸ placed
    · exact sound.asked
    · exact sound.header
    · exact sound.ring
    · exact sound.short
    · intro other node found
      rcases member other node found with ⟨-, rfl⟩ | old
      · exact large
      · exact sound.bins other node old
    · intro other node found
      rcases member other node found with ⟨rfl, rfl⟩ | old
      · exact inBin
      · exact sound.range other node old
    · exact sound.maxima.push (Nat.lt_of_not_le oversized) s size

theorem absent_push {other : Addr} (different : other ≠ s)
    (absent : Absent pool.contents other) (size : Nat) :
    Absent (pool.lr_str_pool_push s size).contents other := by
  unfold lr_str_pool_push
  generalize lr_str_pool_bin size = k
  by_cases oversized : 16 ≤ k
  · simpa [oversized] using absent
  · have same := contents_bins { pool with
      bin_max := update pool.bin_max k (larger (pool.bin_max k) size)
      max_size := larger pool.max_size size } k (⟨s, size⟩ :: pool.bins k)
    simp only [oversized, if_false]
    intro place member
    rw [same] at member
    by_cases here : place = .bin k
    · rw [here, update_self, map_cons, mem_cons] at member
      exact absent (.bin k) (member.resolve_left different)
    · rw [update_of_ne here] at member
      exact absent place (by cases place <;> exact member)

/-- A block that is taken out of a bin is in use by nobody. -/
theorem Sound.pop (sound : pool.Sound) {k : Nat} {node : LRStrPoolNode}
    {rest : List LRStrPoolNode} (holds : (pool.bins k).Perm (node :: rest)) :
    (pool.pop k node rest).Sound ∧ Absent (pool.pop k node rest).contents node.addr ∧
      (pool.pop k node rest).original = pool.original := by
  have sizes := holds.map LRStrPoolNode.size
  have addrs := holds.map LRStrPoolNode.addr
  have member (other : Nat) (found : LRStrPoolNode)
      (inside : found ∈ update pool.bins k rest other) : found ∈ pool.bins other := by
    by_cases here : other = k
    · subst here
      rw [update_self] at inside
      exact holds.mem_iff.mpr (mem_cons_of_mem node inside)
    · rwa [update_of_ne here] at inside
  have left (bin_max : Nat → Nat) (max_size : Nat) :=
    contents_bins { pool with bin_max, max_size } k rest
  obtain ⟨apart, absent⟩ := sound.apart.take (.bin k) addrs
  have keeps (bin_max : Nat → Nat) (max_size : Nat)
      (maxima : Maxima { pool with bins := update pool.bins k rest, bin_max, max_size }) :
      Sound { pool with bins := update pool.bins k rest, bin_max, max_size } :=
    ⟨left bin_max max_size ▸ apart, sound.asked, sound.header, sound.ring, sound.short,
      fun other found inside => sound.bins other found (member other found inside),
      fun other found inside => sound.range other found (member other found inside), maxima⟩
  unfold StrPool.pop
  by_cases greatest : pool.bin_max k ≤ node.size
  · rw [if_pos greatest]
    refine ⟨keeps _ _ ⟨fun other => ?_, greatest_foldl _⟩, left _ _ ▸ absent, rfl⟩
    dsimp only
    by_cases here : other = k
    · rw [here, update_self, update_self]
      exact greatest_foldl _
    · rw [update_of_ne here, update_of_ne here]
      exact sound.maxima.bin other
  · rw [if_neg greatest]
    refine ⟨keeps _ _ ⟨fun other => ?_, sound.maxima.all⟩, left _ _ ▸ absent, rfl⟩
    dsimp only
    by_cases here : other = k
    · subst here
      rw [update_self]
      exact (sound.maxima.bin other).take sizes (Nat.lt_of_not_le greatest)
    · rw [update_of_ne here]
      exact sound.maxima.bin other

theorem Sound.take_ring (sound : pool.Sound) {rest : List Addr} (entry : pool.ring = s :: rest) :
    Sound { pool with ring := rest } ∧ Absent (contents { pool with ring := rest }) s := by
  obtain ⟨apart, absent⟩ := sound.apart.take .ring (List.Perm.of_eq entry)
  rw [contents_ring]
  have member (other : Addr) (inside : other ∈ rest) : other ∈ pool.ring :=
    entry ▸ mem_cons_of_mem s inside
  refine ⟨⟨contents_ring rest ▸ apart, sound.asked, sound.header, ?_, ?_, sound.bins,
    sound.range, sound.maxima.bin, sound.maxima.all⟩, absent⟩
  · exact fun other inside => sound.ring other (member other inside)
  · exact fun other inside => sound.short other (member other inside)

theorem Sound.take_live (sound : pool.Sound) (used : s ∈ pool.live) :
    Sound { pool with live := pool.live.erase s } ∧
      Absent (contents { pool with live := pool.live.erase s }) s := by
  obtain ⟨apart, absent⟩ := sound.apart.take .live (perm_cons_erase used)
  rw [contents_live]
  refine ⟨⟨contents_live _ ▸ apart, ?_, ?_, sound.ring, sound.short, sound.bins,
    sound.range, sound.maxima.bin, sound.maxima.all⟩, absent⟩
  · exact fun other inside => sound.asked other (mem_of_mem_erase inside)
  · exact fun other inside => sound.header other (mem_of_mem_erase inside)

end Moves

/-! ## Calls -/

section Calls

variable {pool : StrPool}

variable {need : Nat}

theorem unlink_spec {nodes rest : List LRStrPoolNode} {node : LRStrPoolNode}
    (found : unlink need nodes = some (node, rest)) :
    nodes.Perm (node :: rest) ∧ need ≤ node.size := by
  induction nodes generalizing rest with
  | nil =>
    cases found
  | cons p next ih =>
    rw [unlink] at found
    by_cases fits : need ≤ p.size
    · rw [if_pos fits] at found
      cases found
      exact ⟨List.Perm.refl _, fits⟩
    · rw [if_neg fits, map_eq_some_iff] at found
      obtain ⟨⟨later, others⟩, behind, same⟩ := found
      cases same
      obtain ⟨perm, large⟩ := ih behind
      exact ⟨(perm.cons p).trans (List.Perm.swap _ _ _), large⟩

/-- A block for a request of `need` bytes was taken out of the bins. -/
structure Popped (pool : StrPool) (need : Nat) (found : Addr × StrPool) : Prop where
  sound : found.2.Sound
  absent : Absent found.2.contents found.1
  large : need ≤ found.2.original found.1

theorem Sound.popped (sound : pool.Sound) {k : Nat} {node : LRStrPoolNode}
    {rest : List LRStrPoolNode} (holds : (pool.bins k).Perm (node :: rest))
    (large : need ≤ node.size) : pool.Popped need (node.addr, pool.pop k node rest) := by
  obtain ⟨kept, absent, original⟩ := sound.pop holds
  have member : node ∈ pool.bins k := holds.mem_iff.mpr mem_cons_self
  refine ⟨kept, absent, ?_⟩
  rw [original]
  exact large.trans (sound.bins k node member)

variable {found : Addr × StrPool}

theorem Sound.popExact (sound : pool.Sound) {j : Nat}
    (pops : pool.popExact need j = some found) : pool.Popped need found := by
  unfold StrPool.popExact at pops
  split at pops
  · obtain ⟨⟨node, rest⟩, unlinked, rfl⟩ := map_eq_some_iff.mp pops
    obtain ⟨perm, large⟩ := unlink_spec unlinked
    exact sound.popped perm large
  · cases pops

theorem Sound.popLarger (sound : pool.Sound) {j : Nat} (inBin : need ≤ 2 ^ j)
    {larger : List Nat} (above : ∀ k ∈ larger, j < k)
    (pops : pool.popLarger larger = some found) : pool.Popped need found := by
  induction larger with
  | nil =>
    cases pops
  | cons k rest ih =>
    rw [StrPool.popLarger] at pops
    split at pops
    · next node next entry =>
        cases pops
        have bin := sound.range k node (entry ▸ mem_cons_self)
        have power : 2 ^ (j + 1) ≤ 2 ^ k :=
          Nat.pow_le_pow_right (by decide) (above k mem_cons_self)
        have large : need ≤ node.size := by
          have lower := bin.1
          omega
        exact sound.popped (List.Perm.of_eq entry) large
    · exact ih (fun k member => above k (mem_cons_of_mem _ member)) pops

theorem Sound.popBlock (sound : pool.Sound) (positive : 0 < need)
    (small : need < 2 ^ 64) (pops : pool.popBlock need = some found) : pool.Popped need found := by
  unfold StrPool.popBlock at pops
  dsimp only at pops
  split at pops
  · rcases or_eq_some_iff.mp pops with exact_ | ⟨-, behind⟩
    · exact sound.popExact exact_
    · refine sound.popLarger (inBin_bin positive small).2 (fun k member => ?_) behind
      rw [mem_range'_1] at member
      omega
  · cases pops

variable {malloc : Option Addr}

section

variable (sound : pool.Sound) {len : Nat} (fits : 16 + len + 1 < 2 ^ 64)
    (fresh : ∀ s, malloc = some s → Absent pool.contents s)
include sound fits fresh

theorem Sound.fresh_alloc : (pool.fresh_alloc len malloc).1.Sound := by
  cases malloc with
  | none => exact sound
  | some s =>
    have absent := fresh s rfl
    have elsewhere (other : Addr) (place : StrPlace) (member : other ∈ pool.contents place) :
        other ≠ s := by
      rintro rfl
      exact absent place member
    have allocated :
        Sound { pool with original := update pool.original s (stringSize len) } := by
      refine ⟨sound.apart, ?_, sound.header, ?_, sound.short, ?_, sound.range,
        sound.maxima.bin, sound.maxima.all⟩
      · intro other member
        simpa [elsewhere other .live member] using sound.asked other member
      · intro other member
        simpa [elsewhere other .ring member] using sound.ring other member
      · intro k node member
        have different := elsewhere node.addr (.bin k) (mem_map_of_mem member)
        simpa [different] using sound.bins k node member
    refine allocated.give absent ?_
    dsimp only
    rw [update_self, stringSize_eq fits]

theorem Sound.fallback : (pool.fallback len malloc).1.Sound := by
  unfold StrPool.fallback
  rw [stringSize_eq fits]
  cases pops : pool.popBlock (16 + len + 1) with
  | some found =>
    have block := sound.popBlock (Nat.succ_pos _) fits pops
    exact block.sound.give block.absent block.large
  | none => exact sound.fresh_alloc fits fresh

end

/-- A request that fits keeps the pool sound. -/
theorem Sound.alloc (sound : pool.Sound) {len : Nat}
    (fits : 16 + len + 1 < 2 ^ 64)
    (fresh : ∀ s, malloc = some s → Absent pool.contents s) :
    (pool.lr_string_alloc len malloc).1.Sound := by
  unfold lr_string_alloc
  split
  · next s ring entry =>
      obtain ⟨left, absent⟩ := sound.take_ring entry
      have member : s ∈ pool.ring := entry ▸ mem_cons_self
      have large := sound.ring s member
      split
      · next fit =>
          exact left.give absent (le_trans (by omega) large)
      · rw [stringSize_eq (by omega)]
        refine Sound.fallback (left.push absent (by omega) (by omega) large) fits ?_
        intro other answer
        have different : other ≠ s := by
          rintro rfl
          exact fresh other answer .ring member
        refine absent_push different (fun place inside => fresh other answer place ?_) _
        rw [contents_ring] at inside
        by_cases here : place = .ring
        · rw [here, update_self] at inside
          rw [here]
          change other ∈ pool.ring
          rw [entry]
          exact mem_cons_of_mem s inside
        · rwa [update_of_ne here] at inside
  · exact sound.fallback fits fresh

/-- A string in use is freed soundly. -/
theorem Sound.free (sound : pool.Sound) (rt : Bool) {s : Addr} (used : s ∈ pool.live) :
    (pool.lr_string_free rt s).Sound := by
  obtain ⟨left, absent⟩ := sound.take_live used
  have large := sound.asked s used
  have header := sound.header s used
  unfold lr_string_free
  split
  · next pooled =>
      have short : (pool.header s).len ≤ 512 := by
        simp only [Bool.and_eq_true, decide_eq_true_eq] at pooled
        exact pooled.1.2
      split
      · have placed := left.apart.put absent .ring
        rw [← contents_ring] at placed
        refine ⟨placed, left.asked, left.header, ?_, ?_, left.bins, left.range,
          left.maxima.bin, left.maxima.all⟩
        · intro other member
          rcases mem_cons.mp member with rfl | old
          · exact le_trans (by dsimp only; omega) large
          · exact left.ring other old
        · intro other member
          rcases mem_cons.mp member with rfl | old
          · exact short
          · exact left.short other old
      · rw [stringSize_eq (by omega)]
        exact left.push absent (by omega) (by omega) (le_trans (by omega) large)
  · exact left

theorem Sound.intern (sound : pool.Sound) (s : Addr) : (pool.intern s).Sound := by
  have len (other : Addr) : ((pool.intern s).header other).len = (pool.header other).len := by
    by_cases here : other = s
    · subst here
      simp [StrPool.intern]
    · simp [StrPool.intern, here]
  refine ⟨sound.apart, sound.asked, ?_, ?_, ?_, sound.bins, sound.range,
    sound.maxima.bin, sound.maxima.all⟩
  · exact fun other member => (len other).le.trans (sound.header other member)
  · intro other member
    rw [len]
    exact sound.ring other member
  · exact fun other member => (len other).le.trans (sound.short other member)

end Calls

/-! ## Runs -/

/-- `malloc` answers with a block that is not in use, and only a string in use is
freed. -/
def Proper (pool : StrPool) : StringCall → Prop
  | .alloc _ malloc => ∀ s, malloc = some s → Absent pool.contents s
  | .intern _ => True
  | .free _ s => s ∈ pool.live

/-- The size of a request is no more than a `size_t` holds. -/
def Fits : StringCall → Prop
  | .alloc len _ => 16 + len + 1 < 2 ^ 64
  | .intern _ => True
  | .free _ _ => True

theorem initial_sound : initial.Sound where
  apart := by
    constructor
    · intro place
      cases place <;> exact nodup_nil
    · intro place other item member
      cases place <;> cases member
  asked := nofun
  header := nofun
  ring := nofun
  short := nofun
  bins := nofun
  range := nofun
  maxima :=
    ⟨fun _ => greatest_foldl [],
      greatest_bins.mpr ⟨fun _ _ => Nat.le_refl 0, 0, by decide, rfl⟩⟩

variable (pool : StrPool)

theorem next_sound (call : StringCall) (sound : pool.Sound) (valid : pool.Proper call ∧ Fits call) :
    ∃ later, pool.next call = some later ∧ later.Sound := by
  obtain ⟨proper, fits⟩ := valid
  cases call with
  | alloc len malloc => exact ⟨_, rfl, sound.alloc fits proper⟩
  | intern s => exact ⟨_, rfl, sound.intern s⟩
  | free rt s => exact ⟨_, rfl, sound.free rt proper⟩

/-- The recorded sizes, the size classes, the blocks that were returned, the places of
blocks, and the cached maxima are right. -/
structure Invariant (pool : StrPool) : Prop where
  ring : ∀ s ∈ pool.ring, 16 + (pool.header s).len + 1 ≤ pool.original s
  bins : ∀ k, ∀ node ∈ pool.bins k, node.size ≤ pool.original node.addr
  range : ∀ k, ∀ node ∈ pool.bins k, InBin k node.size
  returned : ∀ s ∈ pool.live, 16 + pool.asked s + 1 ≤ pool.original s
  once : Apart pool.contents
  bin_max : ∀ k < 16, Greatest (pool.bin_max k) ((pool.bins k).map LRStrPoolNode.size)
  max_size : Greatest pool.max_size
    ((List.range 16).flatMap fun k => (pool.bins k).map LRStrPoolNode.size)

/-- The global maximum is the one of all pooled blocks. -/
theorem Maxima.max_size {pool : StrPool} (maxima : pool.Maxima) : Greatest pool.max_size
    ((List.range 16).flatMap fun k => (pool.bins k).map LRStrPoolNode.size) := by
  obtain ⟨bound, k, small, same⟩ := greatest_bins.mp maxima.all
  have member (other : Nat) (below : other < 16) (size : Nat)
      (inside : size ∈ (pool.bins other).map LRStrPoolNode.size) :
      size ∈ (range 16).flatMap fun k => (pool.bins k).map LRStrPoolNode.size :=
    mem_flatMap.mpr ⟨other, mem_range.mpr below, inside⟩
  by_cases empty : (pool.bins k).map LRStrPoolNode.size = []
  · -- every bin has the maximum 0
    have zero : pool.max_size = 0 := same.symm.trans ((maxima.bin k).none empty)
    refine ⟨fun size inside => ?_, fun some_ => ?_, fun _ => zero⟩
    · obtain ⟨other, below, found⟩ := mem_flatMap.mp inside
      have small := bound other (mem_range.mp below)
      exact ((maxima.bin other).bound size found).trans small
    · obtain ⟨size, inside⟩ := exists_mem_of_ne_nil _ some_
      obtain ⟨other, below, found⟩ := mem_flatMap.mp inside
      have small := bound other (mem_range.mp below)
      have least := (maxima.bin other).bound size found
      have nothing : size = pool.max_size := by
        omega
      exact nothing ▸ inside
  · have attained := member k small _ ((maxima.bin k).attained empty)
    rw [same] at attained
    refine ⟨fun size inside => ?_, fun _ => attained, fun none_ => ?_⟩
    · obtain ⟨other, below, found⟩ := mem_flatMap.mp inside
      exact ((maxima.bin other).bound size found).trans (bound other (mem_range.mp below))
    · rw [none_] at attained
      cases attained

theorem Sound.invariant {pool : StrPool} (sound : pool.Sound) : pool.Invariant where
  ring := sound.ring
  bins := sound.bins
  range := sound.range
  returned := sound.asked
  once := sound.apart
  bin_max := fun k _ => sound.maxima.bin k
  max_size := sound.maxima.max_size

def Answers (len : Nat) (result : StrPool × Option Addr) : Prop :=
  ∀ s, result.2 = some s → s ∈ result.1.live ∧ result.1.asked s = len

theorem fresh_alloc_answers (len : Nat) (malloc : Option Addr) :
    Answers len (pool.fresh_alloc len malloc) := by
  intro s answer
  cases malloc with
  | none =>
    cases answer
  | some other =>
    cases answer
    exact ⟨mem_cons_self, update_self _ _ _⟩

theorem fallback_answers (len : Nat) (malloc : Option Addr) :
    Answers len (pool.fallback len malloc) := by
  unfold StrPool.fallback
  cases pool.popBlock (stringSize len) with
  | none =>
    exact fresh_alloc_answers pool len malloc
  | some found =>
    intro s answer
    cases answer
    exact ⟨mem_cons_self, update_self _ _ _⟩

theorem lr_string_alloc_answers (len : Nat) (malloc : Option Addr) :
    Answers len (pool.lr_string_alloc len malloc) := by
  unfold lr_string_alloc
  split
  · split
    · intro s answer
      cases answer
      exact ⟨mem_cons_self, update_self _ _ _⟩
    · exact fallback_answers _ len malloc
  · exact fallback_answers pool len malloc

/-- In every run of requests that fit the invariant holds, and the next one gets a block with enough
bytes. -/
theorem string_pool_invariant {calls : List StringCall}
    (valid : Runs.Throughout next (fun pool call => pool.Proper call ∧ Fits call) initial calls) :
    ∃ pool, Runs.after next initial calls = some pool ∧ pool.Invariant ∧
      ∀ len malloc s, pool.Proper (.alloc len malloc) → Fits (.alloc len malloc) →
        (pool.lr_string_alloc len malloc).2 = some s →
          16 + len + 1 ≤ (pool.lr_string_alloc len malloc).1.original s := by
  obtain ⟨pool, arrives, sound⟩ := Runs.Throughout.arrives_with next_sound initial_sound valid
  refine ⟨pool, arrives, sound.invariant, fun len malloc s proper fits answer => ?_⟩
  obtain ⟨used, asked⟩ := lr_string_alloc_answers pool len malloc s answer
  have large := (sound.alloc fits proper).asked s used
  rwa [asked] at large

/-- A string is freed and its block is used again. -/
theorem string_pool_invariant_reuse : ∃ pool, Runs.after next initial
    [.alloc 20 (some 1), .free true 1] = some pool ∧ pool.Invariant ∧
      ∀ len malloc s, pool.Proper (.alloc len malloc) → Fits (.alloc len malloc) →
        (pool.lr_string_alloc len malloc).2 = some s →
          16 + len + 1 ≤ (pool.lr_string_alloc len malloc).1.original s := by
  have fits : Fits (.alloc 20 (some 1)) := by
    change 16 + 20 + 1 < 2 ^ 64
    decide
  refine string_pool_invariant ⟨⟨?_, fits⟩, ?_⟩
  · rintro s ⟨⟩ place member
    cases place <;> cases member
  · rintro next ⟨⟩
    refine ⟨⟨?_, trivial⟩, fun _ _ => trivial⟩
    exact mem_cons_self

/-- A request for `2 ^ 64 - 1` characters gets a block of 16 bytes. -/
theorem oversized_request : ∃ pool, Runs.after next initial
    [.alloc (2 ^ 64 - 1) (some 1)] = some pool ∧ pool.live = [1] ∧
      pool.asked 1 = 2 ^ 64 - 1 ∧ pool.original 1 = 16 ∧ ¬ pool.Invariant := by
  let request : StringCall := .alloc (2 ^ 64 - 1) (some 1)
  have facts : (initial.next request).map (fun pool => (pool.live, pool.asked 1, pool.original 1)) =
      some ([1], 2 ^ 64 - 1, 16) := by
    decide
  obtain ⟨pool, arrives, same⟩ := map_eq_some_iff.mp facts
  obtain ⟨live, rest⟩ := Prod.mk.inj same
  obtain ⟨asked, original⟩ := Prod.mk.inj rest
  refine ⟨pool, ?_, live, asked, original, fun invariant => ?_⟩
  · rw [Runs.after, foldlM_cons, arrives]
    rfl
  · have large := invariant.returned 1 (live ▸ mem_singleton_self 1)
    rw [asked, original] at large
    exact absurd large (by decide)

end StrPool

end LRJS
