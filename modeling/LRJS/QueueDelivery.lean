import LRJS.LockfreeQueue

/-!
# What the queue delivers

The nodes of the queue form a chain behind `head`, and `tail` points to the last of them or to the
one before.  As long as nodes are linked only there, each producer is owed what it has pushed, in
order: the node that a pop is about to return, its nodes in the chain, and the node that it is
pushing.
-/

namespace LRJS.TaskQueue

open Function Chains List State

theorem eraseP_of_nodup {pushes : List (Nat × LR_LFQNode)} (node : LR_LFQNode)
    (apart : (pushes.map Prod.snd).Nodup) :
    pushes.eraseP (·.2 = node) = pushes.filter (·.2 ≠ node) := by
  induction pushes with
  | nil => rfl
  | cons push rest ih =>
    obtain ⟨fresh, apart⟩ := nodup_cons.mp apart
    by_cases same : push.2 = node
    · rw [eraseP_cons_of_pos (by simpa using same),
        filter_cons_of_neg (by simpa using same)]
      refine (filter_eq_self.mpr fun other member => ?_).symm
      refine decide_eq_true_iff.mpr fun here => ?_
      exact fresh (mem_map.mpr ⟨other, member, here.trans same.symm⟩)
    · rw [eraseP_cons_of_neg (by simpa using same),
        filter_cons_of_pos (by simpa using same), ih apart]

def Producer.pending : Producer → Option LR_LFQNode
  | .load node | .link node _ => some node
  | .idle | .swing _ _ | .add _ => none

namespace State

/-- The last node: in front of the consumer's store of `tail`, the one that it has taken out. -/
def last (s : State) (queue : List (Nat × LR_LFQNode)) : LR_LFQNode :=
  match s.consumer with
  | .replaceTail next _ => next
  | .idle | .loadNext _ | .loadNextNext _ | .advance _ | .replaceHead _ _ | .add _ =>
    (queue.map Prod.snd).getLastD s.head

def pending (s : State) (producer : Nat) : List (Nat × LR_LFQNode) :=
  ((s.producers producer).pending.map (producer, ·)).toList

def Unseen (s : State) (node : LR_LFQNode) : Prop :=
  s.next node = none ∧ s.head ≠ node ∧ s.tail ≠ node

def ConsumerKept (s : State) (queue : List (Nat × LR_LFQNode)) : Prop :=
  match s.consumer with
  | .idle | .add _ => True
  | .loadNext head => head = s.head
  | .loadNextNext next | .advance next => ∃ producer rest, queue = (producer, next) :: rest
  | .replaceHead next new_stub =>
    (∃ producer rest, queue = (producer, next) :: rest) ∧
      s.Unseen new_stub ∧ ∃ number < s.stubs, new_stub = .stub number
  | .replaceTail next new_stub => s.head = new_stub ∧ queue = [] ∧ s.next next = none

structure Shape (s : State) (taken queue : List (Nat × LR_LFQNode)) : Prop where
  users : ∀ push ∈ s.account.owed, ∃ number, push.2 = .data number
  apart : (s.account.owed.map Prod.snd).Nodup
  order : ∀ producer, s.account.owedTo producer =
    (taken ++ queue).filter (·.1 = producer) ++ s.pending producer
  pushing : ∀ producer, ∀ push ∈ s.pending producer, push ∈ s.account.pushing
  hand : taken.map Prod.snd = s.hand.toList
  distinct : (s.head :: queue.map Prod.snd).Nodup
  separate : ∀ push ∈ taken, push.2 ∉ queue.map Prod.snd
  linked : Linked s.next s.head (queue.map Prod.snd)
  tail : s.tail = s.last queue ∨ s.next s.tail = some (s.last queue)
  unlinked : ∀ producer, ∀ node ∈ (s.producers producer).pending, s.Unseen node
  fresh : ∀ number, s.stubs ≤ number → s.Unseen (.stub number)
  consumer : s.ConsumerKept queue

variable {s s' : State} {taken queue : List (Nat × LR_LFQNode)}

variable {producer : Nat}

theorem mem_pending {push : Nat × LR_LFQNode} :
    push ∈ s.pending producer ↔
      push.1 = producer ∧ push.2 ∈ (s.producers producer).pending := by
  rw [pending, Option.mem_toList, Option.map_eq_some_iff]
  constructor
  · rintro ⟨node, here, rfl⟩
    exact ⟨rfl, here⟩
  · rintro ⟨rfl, here⟩
    exact ⟨push.2, here, rfl⟩

namespace Shape

theorem mem_owed (shape : s.Shape taken queue) {push : Nat × LR_LFQNode} :
    push ∈ s.account.owed ↔ push ∈ taken ++ queue ∨ push ∈ s.pending push.1 := by
  have here : push ∈ s.account.owed ↔ push ∈ s.account.owedTo push.1 := by
    rw [Account.owedTo, mem_filter]
    exact ⟨fun member => ⟨member, decide_eq_true rfl⟩, And.left⟩
  rw [here, shape.order, mem_append, mem_filter, decide_eq_true_iff]
  simp

theorem owner (shape : s.Shape taken queue) {push other : Nat × LR_LFQNode}
    (member : push ∈ s.account.owed) (also : other ∈ s.account.owed) (same : push.2 = other.2) :
    push = other :=
  inj_on_of_nodup_map shape.apart member also same

variable {node : LR_LFQNode}

section

variable (shape : s.Shape taken queue)
include shape

theorem pending_apart {producer : Nat}
    (here : node ∈ (s.producers producer).pending) {push : Nat × LR_LFQNode}
    (member : push ∈ taken ++ queue) : push.2 ≠ node := by
  intro same
  have pending : (producer, node) ∈ s.pending producer := mem_pending.mpr ⟨rfl, here⟩
  have owed := shape.mem_owed.mpr (.inl member)
  have both : push = (producer, node) :=
    shape.owner owed (shape.mem_owed.mpr (.inr pending)) same
  have nodup : (s.account.owedTo producer).Nodup :=
    (List.Nodup.of_map _ shape.apart).filter _
  rw [shape.order] at nodup
  refine (nodup_append.mp nodup).2.2 push ?_ push (both ▸ pending) rfl
  exact mem_filter.mpr ⟨member, decide_eq_true (congrArg Prod.fst both)⟩

theorem stub_apart {number : Nat} {push : Nat × LR_LFQNode}
    (member : push ∈ s.account.owed) : push.2 ≠ .stub number := by
  obtain ⟨user, here⟩ := shape.users push member
  rw [here]
  nofun

theorem pending_user {producer : Nat}
    (here : node ∈ (s.producers producer).pending) : ∃ number, node = .data number :=
  shape.users (producer, node) (shape.mem_owed.mpr (.inr (mem_pending.mpr ⟨rfl, here⟩)))

theorem last_next : s.next (s.last queue) = none := by
  have known := shape.consumer
  have last := shape.linked.last
  unfold State.last
  unfold ConsumerKept at known
  split at known <;> simp_all

theorem last_member : s.last queue = s.head ∨ ∃ push ∈ taken ++ queue, push.2 = s.last queue := by
  have inChain : (queue.map Prod.snd).getLastD s.head = s.head ∨
      ∃ push ∈ taken ++ queue, push.2 = (queue.map Prod.snd).getLastD s.head := by
    refine (mem_cons.mp getLastD_mem_cons).imp_right fun behind => ?_
    obtain ⟨push, member, same⟩ := mem_map.mp behind
    exact ⟨push, mem_append_right _ member, same⟩
  cases at_work : s.consumer with
  | replaceTail next new_stub =>
    have hand := shape.hand
    simp only [State.hand, at_work, Option.toList_some] at hand
    have member : next ∈ taken.map Prod.snd := hand ▸ mem_singleton.mpr rfl
    obtain ⟨push, member, same⟩ := mem_map.mp member
    refine .inr ⟨push, mem_append_left _ member, ?_⟩
    simp only [State.last, at_work, same]
  | idle | loadNext | loadNextNext | advance | replaceHead | add =>
    simp only [State.last, at_work]
    exact inChain

theorem tail_next (behind : s.next s.tail = some node) : node = s.last queue := by
  cases shape.tail with
  | inl at_last =>
    rw [at_last, shape.last_next] at behind
    cases behind
  | inr before => exact Option.some.inj (behind.symm.trans before)

theorem tail_last (none_next : s.next s.tail = none) : s.tail = s.last queue := by
  cases shape.tail with
  | inl at_last => exact at_last
  | inr before =>
    rw [none_next] at before
    cases before

theorem unseen_ne_last (unseen : s.Unseen node)
    (other : ∀ push ∈ taken ++ queue, push.2 ≠ node) : s.last queue ≠ node := by
  cases shape.last_member with
  | inl first => exact first ▸ unseen.2.1
  | inr member =>
    obtain ⟨push, member, same⟩ := member
    exact same ▸ other push member

end

end Shape

/-! ## Steps of a producer -/

theorem ConsumerKept.keeps {queue' : List (Nat × LR_LFQNode)} (known : s.ConsumerKept queue)
    (at_work : s'.consumer = s.consumer) (head : s'.head = s.head) (stubs : s'.stubs = s.stubs)
    (unseen : ∀ number, s.Unseen (.stub number) → s'.Unseen (.stub number))
    (cleared : s.Replacing → ∀ node, s.next node = none → s'.next node = none)
    (more : List (Nat × LR_LFQNode)) (no_more : s.Replacing → more = [])
    (longer : queue' = queue ++ more) : s'.ConsumerKept queue' := by
  unfold ConsumerKept at known ⊢
  rw [at_work, head, stubs, longer]
  unfold Replacing at no_more cleared
  cases here : s.consumer with
  | idle | add | loadNext =>
    rw [here] at known
    exact known
  | loadNextNext next | advance next =>
    rw [here] at known
    obtain ⟨producer, rest, same⟩ := known
    exact ⟨producer, rest ++ more, by rw [same]; rfl⟩
  | replaceHead next new_stub =>
    rw [here] at known
    obtain ⟨⟨producer, rest, same⟩, not_seen, number, bound, is_stub⟩ := known
    refine ⟨⟨producer, rest ++ more, by rw [same]; rfl⟩, ?_, number, bound, is_stub⟩
    rw [is_stub] at not_seen ⊢
    exact unseen number not_seen
  | replaceTail next new_stub =>
    rw [here] at known no_more cleared
    obtain ⟨first, empty, none_next⟩ := known
    exact ⟨first, by rw [empty, no_more trivial]; rfl, cleared trivial next none_next⟩

section Goes

variable {producer : Nat} {pc : Producer}
variable (goes : s'.producers = Function.update s.producers producer pc)

include goes

theorem pending_self : s'.pending producer = (pc.pending.map (producer, ·)).toList := by
  rw [pending, goes, update_self]

theorem pending_other {other : Nat} (different : other ≠ producer) :
    s'.pending other = s.pending other := by
  rw [pending, goes, update_of_ne different, pending]

theorem unlinked_cases {other : Nat} {node : LR_LFQNode}
    (here : node ∈ (s'.producers other).pending) :
    other = producer ∧ node ∈ pc.pending ∨
      other ≠ producer ∧ node ∈ (s.producers other).pending := by
  by_cases same : other = producer
  · rw [goes, same, update_self] at here
    exact .inl ⟨same, here⟩
  · rw [goes, update_of_ne same] at here
    exact .inr ⟨same, here⟩

end Goes

theorem Shape.producer_goes (shape : s.Shape taken queue) {pc : Producer}
    (same : pc.pending = (s.producers producer).pending) :
    (s.setProducer producer pc).Shape taken queue := by
  have goes : (s.setProducer producer pc).producers = update s.producers producer pc :=
    rfl
  have pending_eq (other : Nat) : (s.setProducer producer pc).pending other = s.pending other := by
    by_cases here : other = producer
    · rw [here, pending_self goes, same, pending]
    · exact pending_other goes here
  refine { shape with
    order := fun other => (pending_eq other).symm ▸ shape.order other
    pushing := fun other => (pending_eq other).symm ▸ shape.pushing other
    unlinked := fun other node here => ?_ }
  cases unlinked_cases goes here with
  | inl self => exact shape.unlinked producer node (same ▸ self.2)
  | inr others => exact shape.unlinked other node others.2

/-- A push of a new node owes it to its producer. -/
theorem Shape.push (shape : s.Shape taken queue) {number : Nat}
    (idle : s.producers producer = .idle)
    (new : ∀ push ∈ s.account.owed, push.2 ≠ .data number) (head : s.head ≠ .data number)
    (tail : s.tail ≠ .data number) : (s.push producer (.data number)).Shape taken queue := by
  let node : LR_LFQNode := .data number
  have goes : (s.push producer node).producers =
      update s.producers producer (.load node) :=
    rfl
  have account : (s.push producer node).account =
      ⟨s.account.owed ++ [(producer, node)], s.account.pushing ++ [(producer, node)]⟩ :=
    law.account_note ..
  have queued (push : Nat × LR_LFQNode) (member : push ∈ taken ++ queue) : push.2 ≠ node :=
    new push (shape.mem_owed.mpr (.inl member))
  have none_pending : s.pending producer = [] := by
    rw [pending, idle]
    rfl
  have cleared {other : LR_LFQNode} (none_next : s.next other = none) :
      (s.push producer node).next other = none := by
    change update s.next node none other = none
    rw [update_apply]
    split
    · rfl
    · exact none_next
  have kept {other : LR_LFQNode} (unseen : s.Unseen other) :
      (s.push producer node).Unseen other :=
    ⟨cleared unseen.1, unseen.2⟩
  refine ⟨?_, ?_, fun other => ?_, fun other push member => ?_, shape.hand, shape.distinct,
    shape.separate, shape.linked.update_other ?_, ?_, fun other unlinked here => ?_,
    fun number bound => kept (shape.fresh number bound), ?_⟩
  · rw [account]
    intro push member
    cases mem_append.mp member with
    | inl old => exact shape.users push old
    | inr last => exact ⟨number, mem_singleton.mp last ▸ rfl⟩
  · rw [account, map_append]
    refine nodup_append.mpr ⟨shape.apart, nodup_singleton _, ?_⟩
    intro old member last is_last same
    obtain ⟨push, owed, rfl⟩ := mem_map.mp member
    exact new push owed (same.trans (mem_singleton.mp is_last))
  · rw [account, Account.owedTo, filter_append]
    have before := shape.order other
    rw [Account.owedTo] at before
    by_cases same : other = producer
    · rw [same, pending_self goes, ← same, before, same, none_pending, append_nil]
      rw [filter_cons_of_pos (by simp)]
      rfl
    · rw [pending_other goes same, before, filter_cons_of_neg (by simpa using Ne.symm same)]
      exact append_nil _
  · rw [account]
    refine mem_append.mpr ?_
    by_cases same : other = producer
    · rw [same, pending_self goes] at member
      exact .inr member
    · rw [pending_other goes same] at member
      exact .inl (shape.pushing other push member)
  · rw [mem_cons, not_or]
    refine ⟨Ne.symm head, fun member => ?_⟩
    obtain ⟨push, member, same⟩ := mem_map.mp member
    exact queued push (mem_append_right _ member) same
  · refine shape.tail.imp_right fun before => ?_
    exact (update_of_ne tail ..).trans before
  · cases unlinked_cases goes here with
    | inl self =>
      cases self.2
      exact ⟨update_self .., head, tail⟩
    | inr others => exact kept (shape.unlinked other unlinked others.2)
  · exact shape.consumer.keeps rfl rfl rfl (fun number unseen => kept unseen)
      (fun _ other none_next => cleared none_next) [] (fun _ => rfl) (append_nil _).symm

variable {node prev : LR_LFQNode}

section

variable (shape : s.Shape taken queue)
include shape

/-- Linking a node makes it the last one of the queue. -/
theorem Shape.link
    (linking : s.producers producer = .link node prev) (none_next : s.next prev = none)
    (at_tail : s.tail = prev) (outside : ¬s.Replacing) :
    Shape { s.setProducer producer (.swing node prev) with
        next := update s.next prev (some node) }
      taken (queue ++ [(producer, node)]) := by
  let t : State :=
    { s.setProducer producer (.swing node prev) with
      next := update s.next prev (some node) }
  have goes : t.producers = update s.producers producer (.swing node prev) := rfl
  have here : node ∈ (s.producers producer).pending := by
    rw [linking]
    rfl
  have pending : s.pending producer = [(producer, node)] := by
    rw [pending, linking]
    rfl
  have unlinked := shape.unlinked producer node here
  have other (push : Nat × LR_LFQNode) (member : push ∈ taken ++ queue) : push.2 ≠ node :=
    shape.pending_apart here member
  have last_eq (queue : List (Nat × LR_LFQNode)) :
      s.last queue = (queue.map Prod.snd).getLastD s.head := by
    unfold Replacing at outside
    unfold last
    split <;> simp_all
  have prev_last : prev = (queue.map Prod.snd).getLastD s.head := by
    rw [← last_eq, ← at_tail]
    exact shape.tail_last (at_tail ▸ none_next)
  have absent : node ∉ s.head :: queue.map Prod.snd := by
    rw [mem_cons, not_or]
    refine ⟨Ne.symm unlinked.2.1, fun member => ?_⟩
    obtain ⟨push, member, same⟩ := mem_map.mp member
    exact other push (mem_append_right _ member) same
  have kept {node : LR_LFQNode} (unseen : s.Unseen node) : t.Unseen node :=
    ⟨(update_of_ne (at_tail ▸ Ne.symm unseen.2.2) ..).trans unseen.1, unseen.2⟩
  have nodes : (queue ++ [(producer, node)]).map Prod.snd = queue.map Prod.snd ++ [node] :=
    map_append
  refine ⟨shape.users, shape.apart, fun another => ?_, fun another push member => ?_, shape.hand,
    ?_, fun push member => ?_, ?_, .inr ?_, fun another node' here => ?_,
    fun number bound => kept (shape.fresh number bound), ?_⟩
  · rw [← append_assoc, filter_append]
    refine (shape.order another).trans ?_
    by_cases same : another = producer
    · rw [same, pending_self goes, pending, filter_cons_of_pos (by simp)]
      exact (append_nil _).symm
    · rw [pending_other goes same, filter_cons_of_neg (by simpa using Ne.symm same)]
      exact congrArg (· ++ _) (append_nil _).symm
  · by_cases same : another = producer
    · rw [same, pending_self goes] at member
      cases member
    · rw [pending_other goes same] at member
      exact shape.pushing another push member
  · rw [nodes, ← cons_append]
    refine nodup_append.mpr ⟨shape.distinct, nodup_singleton _, ?_⟩
    intro old member last is_last same
    exact absent (mem_singleton.mp is_last ▸ same ▸ member)
  · rw [nodes, mem_append, not_or, mem_singleton]
    exact ⟨shape.separate push member, other push (mem_append_left _ member)⟩
  · rw [nodes]
    rw [prev_last]
    exact shape.linked.append shape.distinct absent unlinked.1
  · change update s.next prev (some node) s.tail = some (t.last _)
    have last_node : t.last (queue ++ [(producer, node)]) = node := by
      change s.last _ = node
      rw [last_eq, nodes, getLastD_concat]
    rw [at_tail, update_self, last_node]
  · cases unlinked_cases goes here with
    | inl self => cases self.2
    | inr others => exact kept (shape.unlinked another node' others.2)
  · exact shape.consumer.keeps rfl rfl rfl (fun number unseen => kept unseen)
      (fun replacing => absurd replacing outside) [(producer, node)]
      (fun replacing => absurd replacing outside) rfl

theorem Shape.swing (swinging : s.producers producer = .swing node prev)
    (moves : s.tail = prev → s.next prev = some node) :
    Shape { s.setProducer producer (.add node) with
      tail := if s.tail = prev then node else s.tail } taken queue := by
  have gone : (s.setProducer producer (.add node)).Shape taken queue :=
    shape.producer_goes (by rw [swinging]; rfl)
  split_ifs with at_tail
  · have is_last : node = s.last queue := shape.tail_next (at_tail ▸ moves at_tail)
    have kept {other : LR_LFQNode} (unseen : s.Unseen other)
        (apart : ∀ push ∈ taken ++ queue, push.2 ≠ other) :
        State.Unseen { s.setProducer producer (.add node) with tail := node } other :=
      ⟨unseen.1, unseen.2.1, is_last ▸ shape.unseen_ne_last unseen apart⟩
    have stubs (number : Nat) (unseen : s.Unseen (.stub number)) :=
      kept unseen fun push member => shape.stub_apart (shape.mem_owed.mpr (.inl member))
    exact { gone with
      tail := .inl is_last
      unlinked := fun another node' here =>
        kept (gone.unlinked another node' here) fun push member =>
          gone.pending_apart here member
      fresh := fun number bound => stubs number (shape.fresh number bound)
      consumer := gone.consumer.keeps rfl rfl rfl stubs (fun _ _ none_next => none_next) []
        (fun _ => rfl) (append_nil _).symm }
  · exact gone

/-- A push that has returned is counted. -/
theorem Shape.pushed (adding : s.producers producer = .add node) :
    Shape { s.setProducer producer .idle with
      count := (s.count + 1).bmod (2 ^ 32)
      journal := s.journal ++ [.pushed producer node] } taken queue := by
  have gone : (s.setProducer producer .idle).Shape taken queue :=
    shape.producer_goes (by rw [adding]; rfl)
  have account : law.account (s.journal ++ [.pushed producer node]) =
      ⟨s.account.owed, s.account.pushing.erase (producer, node)⟩ :=
    law.account_note ..
  refine { gone with
    users := ?_, apart := ?_, order := fun other => ?_, pushing := fun other push member => ?_ }
  · rw [State.account, account]
    exact shape.users
  · rw [State.account, account]
    exact shape.apart
  · rw [State.account, account]
    exact gone.order other
  · rw [State.account, account]
    refine (mem_erase_of_ne fun same => ?_).mpr (gone.pushing other push member)
    have self := (mem_pending.mp member)
    rw [same] at self
    obtain ⟨rfl, here⟩ := self
    change node ∈ (update s.producers producer .idle producer).pending at here
    rw [update_self] at here
    cases here

/-! ## Steps of the consumer -/

theorem Shape.consumer_goes {pc : Consumer} (hand : State.hand { s with consumer := pc } = s.hand)
    (last : State.last { s with consumer := pc } queue = s.last queue)
    (known : State.ConsumerKept { s with consumer := pc } queue) :
    Shape { s with consumer := pc } taken queue :=
  { shape with
    hand := hand ▸ shape.hand
    tail := last.symm ▸ shape.tail
    consumer := known }

theorem taken_nil (none_taken : s.hand = none) : taken = [] := by
  have hand := shape.hand
  rw [none_taken, Option.toList_none, map_eq_nil_iff] at hand
  exact hand

end

variable {next : LR_LFQNode}

/-- The consumer that goes on takes the next node of the queue. -/
theorem Shape.advance (shape : s.Shape [] queue) (advancing : s.consumer = .advance next) :
    ∃ push rest, Shape { s with head := next, consumer := .add next } [push] rest := by
  have known := shape.consumer
  rw [ConsumerKept, advancing] at known
  obtain ⟨producer, rest, rfl⟩ := known
  have owed : (producer, next) ∈ s.account.owed :=
    shape.mem_owed.mpr (.inl mem_cons_self)
  have kept {other : LR_LFQNode} (unseen : s.Unseen other) (apart : next ≠ other) :
      State.Unseen { s with head := next, consumer := .add next } other :=
    ⟨unseen.1, apart, unseen.2.2⟩
  have distinct := (nodup_cons.mp shape.distinct).2
  have last : s.last ((producer, next) :: rest) = (rest.map Prod.snd).getLastD next := by
    simp only [last, advancing, map_cons, getLastD_cons]
  refine ⟨(producer, next), rest, { shape with
    hand := rfl
    distinct := distinct
    separate := fun push member => ?_
    linked := shape.linked.tail
    tail := ?_
    unlinked := fun another node here => ?_
    fresh := fun number bound => ?_
    consumer := trivial }⟩
  · rw [mem_singleton.mp member]
    exact (nodup_cons.mp distinct).1
  · have tail := shape.tail
    rw [last] at tail
    exact tail
  · exact kept (shape.unlinked another node here)
      (shape.pending_apart here (mem_cons_self (a := (producer, next))))
  · exact kept (shape.fresh number bound) (shape.stub_apart owed)

/-- The last node is taken behind a new stub. -/
theorem Shape.replaceHead (shape : s.Shape [] queue) {new_stub : LR_LFQNode}
    (replacing : s.consumer = .replaceHead next new_stub) (none_next : s.next next = none) :
    ∃ push,
      Shape { s with head := new_stub, consumer := .replaceTail next new_stub } [push] [] := by
  have known := shape.consumer
  rw [ConsumerKept, replacing] at known
  obtain ⟨⟨producer, rest, rfl⟩, unseen, number, bound, rfl⟩ := known
  have alone : rest = [] := map_eq_nil_iff.mp (shape.linked.tail.eq_nil none_next)
  subst alone
  have kept {other : LR_LFQNode} (unseen : s.Unseen other) (apart : .stub number ≠ other) :
      State.Unseen { s with head := .stub number, consumer := .replaceTail next (.stub number) }
        other :=
    ⟨unseen.1, apart, unseen.2.2⟩
  have last : s.last [(producer, next)] = next := by
    simp only [last, replacing]
    rfl
  refine ⟨(producer, next), { shape with
    hand := rfl
    distinct := nodup_singleton _
    separate := fun push member => nofun
    linked := unseen.1
    tail := ?_
    unlinked := fun another node here => ?_
    fresh := fun other above => ?_
    consumer := ⟨rfl, rfl, none_next⟩ }⟩
  · have tail := shape.tail
    rw [last] at tail
    exact tail
  · refine kept (shape.unlinked another node here) ?_
    obtain ⟨user, same⟩ := shape.pending_user here
    rw [same]
    nofun
  · refine kept (shape.fresh other above) fun same => ?_
    cases same
    exact absurd bound (Nat.not_lt.mpr above)

section

variable (shape : s.Shape taken queue)
include shape

theorem Shape.replaceTail {new_stub : LR_LFQNode}
    (replacing : s.consumer = .replaceTail next new_stub) :
    Shape { s with tail := new_stub, consumer := .add next } taken queue := by
  have known := shape.consumer
  rw [ConsumerKept, replacing] at known
  obtain ⟨is_head, empty, _⟩ := known
  have kept {other : LR_LFQNode} (unseen : s.Unseen other) :
      State.Unseen { s with tail := new_stub, consumer := .add next } other :=
    ⟨unseen.1, unseen.2.1, is_head ▸ unseen.2.1⟩
  have hand := shape.hand
  rw [State.hand, replacing] at hand
  refine { shape with
    hand := hand
    tail := .inl ?_
    unlinked := fun another node here => kept (shape.unlinked another node here)
    fresh := fun number bound => kept (shape.fresh number bound)
    consumer := trivial }
  rw [empty]
  exact is_head.symm

/-- The node that is popped is the next one owed to its producer. -/
theorem Shape.popped (adding : s.consumer = .add next) :
    (∃ producer, (s.account.owedTo producer).head? = some (producer, next)) ∧
      Shape { s with
        count := (s.count - 1).bmod (2 ^ 32)
        consumer := .idle
        journal := s.journal ++ [.popped next] } [] queue := by
  have hand := shape.hand
  rw [State.hand, adding, Option.toList_some] at hand
  obtain ⟨⟨producer, node⟩, rfl, same⟩ := map_eq_singleton_iff.mp hand
  subst same
  constructor
  · refine ⟨producer, ?_⟩
    rw [shape.order producer, filter_append, filter_cons_of_pos (by simp)]
    rfl
  · have account : law.account (s.journal ++ [.popped node]) =
        ⟨s.account.owed.filter (·.2 ≠ node), s.account.pushing⟩ := by
      rw [← eraseP_of_nodup node shape.apart]
      exact law.account_note ..
    have others (another : Nat) (push : Nat × LR_LFQNode)
        (member : push ∈ queue.filter (·.1 = another) ++ s.pending another) : push.2 ≠ node := by
      intro same
      cases mem_append.mp member with
      | inl queued =>
        have behind : push.2 ∈ queue.map Prod.snd :=
          mem_map_of_mem (mem_of_mem_filter queued)
        exact shape.separate (producer, node) mem_cons_self (same ▸ behind)
      | inr pending =>
        exact shape.pending_apart (mem_pending.mp pending).2
          (mem_cons_self (a := (producer, node))) same.symm
    have last : s.last queue = (queue.map Prod.snd).getLastD s.head := by
      rw [State.last, adding]
    refine { shape with
      users := ?_, apart := ?_, order := fun another => ?_, pushing := ?_, hand := rfl,
      separate := nofun, tail := ?_, consumer := trivial }
    · rw [State.account, account]
      exact fun push member => shape.users push (mem_of_mem_filter member)
    · rw [State.account, account]
      exact shape.apart.sublist (filter_sublist.map _)
    · have before := shape.order another
      rw [Account.owedTo, filter_append, append_assoc] at before
      rw [State.account, account, Account.owedTo, filter_comm, before, filter_append,
        filter_eq_self.mpr fun push member => decide_eq_true (others another push member),
        filter_eq_nil_iff.mpr ?_]
      · rfl
      · intro push member
        rw [mem_singleton.mp (mem_of_mem_filter member)]
        simp
    · rw [State.account, account]
      exact shape.pushing
    · have tail := shape.tail
      rw [last] at tail
      exact tail

theorem Shape.allocate (loading : s.consumer = .loadNextNext next) :
    Shape { s with
      next := update s.next (.stub s.stubs) none
      stubs := s.stubs + 1
      consumer := .replaceHead next (.stub s.stubs) } taken queue := by
  have unseen := shape.fresh s.stubs (Nat.le_refl _)
  have same_next : update s.next (.stub s.stubs) none = s.next :=
    update_eq_self_iff.mpr unseen.1.symm
  rw [same_next]
  have known := shape.consumer
  rw [ConsumerKept, loading] at known
  have hand := shape.hand
  have tail := shape.tail
  rw [State.hand, loading] at hand
  rw [State.last, loading] at tail
  exact { shape with
    hand := hand
    tail := tail
    fresh := fun number above => shape.fresh number (Nat.le_of_succ_le above)
    consumer := ⟨known, unseen, s.stubs, Nat.lt_succ_self _, rfl⟩ }

/-- The consumer finds the queue empty only if all owed nodes are still being pushed. -/
theorem Shape.empty {head : LR_LFQNode}
    (loading : s.consumer = .loadNext head) (none_next : s.next head = none) :
    (∀ push ∈ s.account.owed, push ∈ s.account.pushing) ∧
      Shape { s with consumer := .idle, journal := s.journal ++ [.empty] } taken queue := by
  have known := shape.consumer
  rw [ConsumerKept, loading] at known
  have none_taken : taken = [] := taken_nil shape (by rw [State.hand, loading])
  have none_queued : queue = [] :=
    map_eq_nil_iff.mp (shape.linked.eq_nil (known ▸ none_next))
  constructor
  · intro push member
    cases shape.mem_owed.mp member with
    | inl there =>
      rw [none_taken, none_queued] at there
      cases there
    | inr pending => exact shape.pushing push.1 push pending
  · have account : law.account (s.journal ++ [.empty]) = s.account := law.account_note ..
    have hand := shape.hand
    have tail := shape.tail
    rw [State.hand, loading] at hand
    rw [State.last, loading] at tail
    refine { shape with
      users := ?_, apart := ?_, order := fun another => ?_, pushing := ?_, hand := hand,
      tail := tail, consumer := trivial }
    · rw [State.account, account]
      exact shape.users
    · rw [State.account, account]
      exact shape.apart
    · rw [State.account, account]
      exact shape.order another
    · rw [State.account, account]
      exact shape.pushing

end

/-! ## Runs -/

structure Kept (s : State) : Prop where
  lawful : law.Lawful s.journal
  shape : ∃ taken queue, s.Shape taken queue

/-- A step of a producer that meets the condition keeps the queue in order. -/
theorem Kept.produce (kept : s.Kept)
    (meets : s.ProducerMeets (s.producers producer)) : (s.produce producer).Kept := by
  obtain ⟨lawful, taken, queue, shape⟩ := kept
  cases here : s.producers producer with
  | idle =>
    simp only [State.produce, here]
    exact ⟨lawful, taken, queue, shape⟩
  | load node =>
    simp only [State.produce, here]
    exact ⟨lawful, taken, queue, shape.producer_goes (by rw [here]; rfl)⟩
  | link node prev =>
    rw [here] at meets
    cases behind : s.next prev with
    | none =>
      obtain ⟨at_tail, outside⟩ := meets behind
      simp only [State.produce, here, behind]
      exact ⟨lawful, taken, _, shape.link here behind at_tail outside⟩
    | some other =>
      simp only [State.produce, here, behind]
      exact ⟨lawful, taken, queue, shape.producer_goes (by rw [here]; rfl)⟩
  | swing node prev =>
    rw [here] at meets
    simp only [State.produce, here]
    exact ⟨lawful, taken, queue, shape.swing here meets⟩
  | add node =>
    simp only [State.produce, here]
    exact ⟨lawful.note trivial, taken, queue, shape.pushed here⟩

theorem Shape.loaded (shape : s.Shape taken queue) {head : LR_LFQNode}
    (loading : s.consumer = .loadNext head) (behind : s.next head = some next) :
    Shape { s with consumer := .loadNextNext next } taken queue := by
  have known := shape.consumer
  have first := shape.linked.head
  rw [ConsumerKept, loading] at known
  rw [← known, behind] at first
  refine shape.consumer_goes (by simp only [State.hand, loading])
    (by simp only [State.last, loading]) ?_
  cases queue with
  | nil => cases first
  | cons push rest =>
    cases first
    exact ⟨push.1, rest, rfl⟩

/-- A step of the consumer that meets the condition keeps the queue in order. -/
theorem Kept.consume (kept : s.Kept) (meets : s.ConsumerMeets s.consumer) (calloc_fails : Bool) :
    (s.consume calloc_fails).Kept := by
  obtain ⟨lawful, taken, queue, shape⟩ := kept
  cases here : s.consumer with
  | idle =>
    simp only [State.consume, here]
    exact ⟨lawful, taken, queue, shape⟩
  | loadNext head =>
    cases behind : s.next head with
    | none =>
      obtain ⟨allowed, shape⟩ := shape.empty here behind
      have allows : law.Allows (law.account s.journal) .empty := allowed
      simp only [State.consume, here, behind]
      exact ⟨lawful.note allows, taken, queue, shape⟩
    | some next =>
      simp only [State.consume, here, behind]
      exact ⟨lawful, taken, queue, shape.loaded here behind⟩
  | loadNextNext next =>
    have known := shape.consumer
    rw [ConsumerKept, here] at known
    have advances : Kept { s with consumer := .advance next } :=
      ⟨lawful, taken, queue, shape.consumer_goes (by simp only [State.hand, here])
        (by simp only [State.last, here]) known⟩
    cases behind : s.next next with
    | some other =>
      simp only [State.consume, here, behind]
      exact advances
    | none =>
      simp only [State.consume, here, behind]
      split
      · exact advances
      · exact ⟨lawful, taken, queue, shape.allocate here⟩
  | advance next =>
    obtain rfl : taken = [] := taken_nil shape (by rw [State.hand, here])
    obtain ⟨push, rest, shape⟩ := shape.advance here
    simp only [State.consume, here]
    exact ⟨lawful, [push], rest, shape⟩
  | replaceHead next new_stub =>
    rw [here] at meets
    obtain rfl : taken = [] := taken_nil shape (by rw [State.hand, here])
    obtain ⟨push, shape⟩ := shape.replaceHead here meets
    simp only [State.consume, here]
    exact ⟨lawful, [push], [], shape⟩
  | replaceTail next new_stub =>
    simp only [State.consume, here]
    exact ⟨lawful, taken, queue, shape.replaceTail here⟩
  | add next =>
    obtain ⟨allowed, shape⟩ := shape.popped here
    have allows : law.Allows (law.account s.journal) (.popped next) := allowed
    simp only [State.consume, here]
    exact ⟨lawful.note allows, [], queue, shape⟩

theorem Kept.step (kept : s.Kept) {event : Event} (meets : s.Meets event)
    (taken : s.step event = some s') : s'.Kept := by
  cases event with
  | push producer number =>
    obtain ⟨idle, taken⟩ := Option.ite_none_right_eq_some.mp taken
    cases taken
    obtain ⟨lawful, taken, queue, shape⟩ := kept
    obtain ⟨new, head, tail⟩ := meets
    exact ⟨lawful.note trivial, taken, queue, shape.push idle new head tail⟩
  | producer producer =>
    obtain ⟨_, taken⟩ := Option.ite_none_left_eq_some.mp taken
    cases taken
    exact kept.produce meets
  | pop =>
    obtain ⟨idle, taken⟩ := Option.ite_none_right_eq_some.mp taken
    cases taken
    obtain ⟨lawful, taken, queue, shape⟩ := kept
    exact ⟨lawful, taken, queue, shape.consumer_goes (by simp only [hand, idle])
      (by simp only [last, idle]) rfl⟩
  | consumer calloc_fails =>
    obtain ⟨_, taken⟩ := Option.ite_none_left_eq_some.mp taken
    cases taken
    exact kept.consume meets calloc_fails

theorem kept_start : start.Kept where
  lawful := law.lawful_nil
  shape := ⟨[], [], {
    users := nofun
    apart := List.Pairwise.nil
    order := fun _ => rfl
    pushing := nofun
    hand := rfl
    distinct := nodup_singleton _
    separate := nofun
    linked := rfl
    tail := .inl rfl
    unlinked := nofun
    fresh := fun number above => by
      have other : LR_LFQNode.stub 0 ≠ .stub number := by
        intro same
        cases same
        cases above
      exact ⟨rfl, other, other⟩
    consumer := trivial }⟩

theorem Shape.loses_none (shape : s.Shape taken queue) : s.LosesNone := by
  intro push owed returned
  cases shape.mem_owed.mp owed with
  | inl there =>
    cases mem_append.mp there with
    | inl member =>
      have out : push.2 ∈ s.hand.toList := shape.hand ▸ mem_map_of_mem member
      exact .inl (Option.mem_toList.mp out)
    | inr member => exact .inr (shape.linked.reaches (mem_map_of_mem member))
  | inr pending => exact absurd (shape.pushing push.1 push pending) returned

/-! ## A producer alone -/

theorem completes_of_produce (goes : (s.produce producer).Completes producer) :
    s.Completes producer := by
  obtain ⟨steps, ends⟩ := goes
  exact ⟨steps + 1, ends⟩

theorem completes_of_added (added : s.producers producer = .add node) : s.Completes producer := by
  refine completes_of_produce ⟨0, ?_⟩
  simp [produce, added, setProducer]

theorem completes_of_linked
    (linked : s.producers producer = .swing node prev) : s.Completes producer := by
  have added : (s.produce producer).producers producer = .add node := by
    simp [produce, linked, setProducer]
  exact completes_of_produce (completes_of_added added)

theorem completes_of_links
    (linking : s.producers producer = .link node prev) (none_next : s.next prev = none) :
    s.Completes producer := by
  have linked : (s.produce producer).producers producer = .swing node prev := by
    simp [produce, linking, none_next, setProducer]
  exact completes_of_produce (completes_of_linked linked)

theorem completes_of_loads
    (loading : s.producers producer = .load node) (none_next : s.next s.tail = none) :
    s.Completes producer := by
  have links : (s.produce producer).producers producer = .link node s.tail := by
    simp [produce, loading, setProducer]
  refine completes_of_produce (completes_of_links links ?_)
  simp only [produce, loading, setProducer, none_next]

theorem completes_of_free (free : s.Free (s.producers producer)) : s.Completes producer := by
  cases here : s.producers producer with
  | idle => exact ⟨0, here⟩
  | load node =>
    rw [here] at free
    exact completes_of_loads here free
  | link node prev =>
    rw [here] at free
    cases behind : s.next prev with
    | none => exact completes_of_links here behind
    | some other =>
      have at_tail : s.next s.tail = none := by
        cases free with
        | inl none_next =>
          rw [behind] at none_next
          cases none_next
        | inr none_next => exact none_next
      have loads : (s.produce producer).producers producer = .load node := by
        simp [produce, here, behind, setProducer]
      refine completes_of_produce (completes_of_loads loads ?_)
      simp only [produce, here, behind, setProducer, at_tail]
  | swing node prev => exact completes_of_linked here
  | add node => exact completes_of_added here

theorem waits_on (waits : ¬s.Free (s.producers producer)) :
    ¬(s.produce producer).Free ((s.produce producer).producers producer) := by
  cases here : s.producers producer with
  | idle | swing | add =>
    rw [here] at waits
    exact absurd trivial waits
  | load node =>
    rw [here] at waits
    simp only [produce, here, setProducer, update_self, Free, or_self]
    exact waits
  | link node prev =>
    rw [here] at waits
    obtain ⟨linked, lagging⟩ := not_or.mp waits
    obtain ⟨other, behind⟩ := Option.ne_none_iff_exists'.mp linked
    simp only [produce, here, behind, setProducer, update_self, Free]
    exact lagging

/-- A push comes to its end alone exactly if it is past its loop, or no node is linked behind the
one where it goes on. -/
theorem completes_iff : s.Completes producer ↔ s.Free (s.producers producer) := by
  refine ⟨fun completes => ?_, completes_of_free⟩
  obtain ⟨steps, ends⟩ := completes
  by_contra waits
  induction steps generalizing s with
  | zero =>
    change s.producers producer = .idle at ends
    rw [ends] at waits
    exact waits trivial
  | succ steps ih => exact ih ends (waits_on waits)

/-- In every run whose steps meet the condition, pops return what was pushed, each node once and the
nodes of one producer in order; no node whose push has returned is lost; and a push ends alone
exactly if no other producer has linked a node and not yet moved `tail`. -/
theorem queue_delivers {events : List Event} {s : State}
    (met : Runs.Throughout State.step Meets start events)
    (arrives : Runs.after State.step start events = some s) :
    law.Lawful s.journal ∧ s.LosesNone ∧
      ∀ producer, s.Completes producer ↔ s.Free (s.producers producer) := by
  have kept : s.Kept := Runs.Throughout.invariant_after
    (fun _ _ _ kept meets taken => kept.step meets taken) kept_start met arrives
  obtain ⟨lawful, taken, queue, shape⟩ := kept
  exact ⟨lawful, shape.loses_none, fun _ => completes_iff⟩

/-- Two producers push while the consumer takes out the first node. -/
theorem queue_delivers_sample :
    ∃ s, Runs.after State.step start
        [.push 0 0, .producer 0, .producer 0, .push 1 1, .producer 0, .pop, .producer 1,
          .producer 0, .producer 1, .consumer false, .consumer false, .producer 1, .consumer false,
          .consumer false, .producer 1, .pop, .consumer true] = some s ∧
      law.Lawful s.journal ∧ s.LosesNone ∧
        ∀ producer, s.Completes producer ↔ s.Free (s.producers producer) := by
  have met : Runs.Throughout step Meets start
      [.push 0 0, .producer 0, .producer 0, .push 1 1, .producer 0, .pop, .producer 1,
        .producer 0, .producer 1, .consumer false, .consumer false, .producer 1, .consumer false,
        .consumer false, .producer 1, .pop, .consumer true] := by
    decide +kernel
  exact ⟨_, rfl, queue_delivers met rfl⟩

/-- A node is pushed behind the last one after the consumer has seen that it is the last. -/
theorem pushed_node_lost :
    ∃ s, Runs.after State.step start
        [.push 0 0, .producer 0, .producer 0, .producer 0, .producer 0, .pop, .consumer false,
          .consumer false, .push 1 1, .producer 1, .producer 1, .producer 1, .producer 1,
          .consumer false, .consumer false, .consumer false] = some s ∧ ¬s.LosesNone := by
  refine ⟨_, rfl, fun loses => ?_⟩
  cases loses (1, .data 1) (by decide) (by decide) with
  | inl out => cases out
  | inr reached =>
    obtain ⟨node, first, _⟩ := Relation.TransGen.head'_iff.mp reached
    cases first

end State

end LRJS.TaskQueue
