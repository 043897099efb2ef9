/-
**Which side opened the connection.**

The state of a flow is read off five flags, and which of them a packet can set depends on the
direction it runs in.  That direction is the one of `Tuple.normalized`: from the smaller endpoint to
the larger, not from the side that opened the connection.  So a handshake is recognised when the
client has the smaller endpoint, and goes unseen when it has the larger one.

Main definitions:

* `Observation.bareSyn`, `Observation.synAck`, … — what a packet's flags say;
* `Flow.Saw` — the flags of a flow are those of the packets folded into it;
* `Handshake`, `Unanswered` — a handshake opened by `ab`, and one left unanswered.

Main results:

* `FlowTable.saw_run` — the flags after any run of one conversation;
* `FlowTable.state_iff_opener_smaller` — **a handshake is seen exactly when the client has the
  smaller endpoint**.
-/

import PcapRacer.Flow

set_option relaxedAutoImplicit false
set_option autoImplicit false

namespace PcapRacer

open BoundedTable (len Refuses)

namespace Observation

/-- The TCP flags of the packet; none set when it carries none. -/
def flags (o : Observation) : UInt16 := o.pkt.transport.tcpFlags.getD 0

/-- The packet runs in the canonical direction. -/
def forward (o : Observation) : Bool := o.tuple.normalized.2

def syn (o : Observation) : Bool := hasFlag o.flags tcpSyn

def fin (o : Observation) : Bool := hasFlag o.flags tcpFin

def rst (o : Observation) : Bool := hasFlag o.flags tcpRst

/-- SYN without ACK. -/
def bareSyn (o : Observation) : Bool := o.syn && !hasFlag o.flags tcpAck

/-- SYN with ACK. -/
def synAck (o : Observation) : Bool := o.syn && hasFlag o.flags tcpAck

end Observation

/-! ### The flags of a flow -/

/-- The flow has seen exactly the packets `obs`, as far as its connection flags go. -/
structure Flow.Saw (obs : List Observation) (f : Flow) : Prop where
  synC2s : f.synC2s = obs.any fun o => o.forward && o.bareSyn
  synackS2c : f.synackS2c = obs.any fun o => !o.forward && o.synAck
  finC2s : f.finC2s = obs.any fun o => o.forward && o.fin
  finS2c : f.finS2c = obs.any fun o => !o.forward && o.fin
  sawReset : f.sawReset = obs.any fun o => o.rst

theorem hasFlag_zero (mask : UInt16) : hasFlag 0 mask = false := by simp [hasFlag]

/-- The connection flags after a packet.  A packet without TCP flags is one with none set. -/
theorem Flow.fold_flags (f : Flow) (o : Observation) :
    f.fold o.forward o.pkt o.ts o.frame o.len =
      (((f.widen o.ts o.frame).count o.forward o.len).seeFlags o.forward o.flags).identify
        o.pkt := by
  cases hf : o.pkt.transport.tcpFlags with
  | some flags => simp only [Flow.fold, hf, Observation.flags, Option.getD_some]
  | none =>
      simp only [Flow.fold, hf, Observation.flags, Option.getD_none, Flow.seeFlags, hasFlag_zero,
        Bool.false_and, Bool.or_false, Bool.false_eq_true, if_false, UInt16.or_zero, ite_self]

@[simp] theorem Flow.count_flags (f : Flow) (forward : Bool) (len : UInt64) :
    (f.count forward len).synC2s = f.synC2s ∧ (f.count forward len).synackS2c = f.synackS2c ∧
      (f.count forward len).finC2s = f.finC2s ∧ (f.count forward len).finS2c = f.finS2c ∧
      (f.count forward len).sawReset = f.sawReset := by
  cases forward <;> exact ⟨rfl, rfl, rfl, rfl, rfl⟩

/-- Folding a packet in. -/
theorem Flow.Saw.fold {obs : List Observation} {f : Flow} (h : f.Saw obs) (o : Observation) :
    (f.fold o.forward o.pkt o.ts o.frame o.len).Saw (obs ++ [o]) := by
  obtain ⟨hsyn, hsynack, hfin, hfin', hrst⟩ :=
    (f.widen o.ts o.frame).count_flags o.forward o.len
  rw [Flow.fold_flags]
  constructor <;> rw [List.any_append, List.any_cons, List.any_nil, Bool.or_false]
  · rw [← h.synC2s]
    simp only [identify, seeFlags, hsyn, Observation.bareSyn, Observation.syn]
    cases o.forward <;> cases hasFlag o.flags tcpSyn <;> rfl
  · rw [← h.synackS2c]
    simp only [identify, seeFlags, hsynack, Observation.synAck, Observation.syn]
    cases o.forward <;> cases hasFlag o.flags tcpSyn <;> rfl
  · rw [← h.finC2s]
    simp only [identify, seeFlags, hfin, Observation.fin]
    rw [Bool.and_comm]
    rfl
  · rw [← h.finS2c]
    simp only [identify, seeFlags, hfin', Observation.fin]
    rw [Bool.and_comm]
    rfl
  · rw [← h.sawReset]
    simp only [identify, seeFlags, hrst, Observation.rst]
    rfl

namespace FlowTable

variable [Hashes]

/-- **The flags after any run of one conversation** on a table that has room for it. -/
theorem saw_run {t : FlowTable} {key : Tuple} (hnew : key ∉ t.flows)
    (hroom : len t.flows < t.maxFlows) (obs : List Observation)
    (hconv : ∀ o ∈ obs, o.tuple.key = key) (ts : Int) (frame : ℕ) :
    ((t.run obs).entry key ts frame).Saw obs ∧ ((t.run obs).entry key ts frame).key = key ∧
      ¬ Refuses t.maxFlows (t.run obs).flows key ∧ (obs ≠ [] → key ∈ (t.run obs).flows) := by
  induction obs using List.reverseRecOn generalizing ts frame with
  | nil =>
      have hent : t.entry key ts frame = Flow.fresh t.nextId key ts frame := by
        rw [entry, AList.lookup_eq_none.2 hnew]
        rfl
      rw [run_nil, hent]
      exact ⟨⟨rfl, rfl, rfl, rfl, rfl⟩, rfl, BoundedTable.not_refuses_of_lt hroom,
        fun h => absurd rfl h⟩
  | append_singleton obs o ih =>
      have hkey : o.tuple.key = key := hconv o (by simp)
      obtain ⟨hsaw, hk, hadm, -⟩ := ih (fun x hx => hconv x (List.mem_append_left _ hx)) o.ts o.frame
      have hadm' : ¬ Refuses (t.run obs).maxFlows (t.run obs).flows o.tuple.key := by
        rwa [run_maxFlows, hkey]
      have hl : ((t.run obs).step o).1.flows.lookup key = some ((t.run obs).folded o) := by
        rw [lookup_step hadm', if_pos hkey.symm]
      have hmem := BoundedTable.mem_of_lookup hl
      rw [run_concat, entry, hl, Option.getD_some, folded, hkey]
      exact ⟨hsaw.fold o, by rw [Flow.fold_key, hk], BoundedTable.not_refuses_of_mem hmem,
        fun _ => hmem⟩

/-- The direction a packet is labelled with. -/
theorem direction_step {t : FlowTable} {o : Observation}
    (hr : ¬ Refuses t.maxFlows t.flows o.tuple.key) :
    (t.step o).2.flow.direction = some (directionName (decide o.tuple.Forward)) := by
  rw [step_of_admits hr, Tuple.normalized_snd]

end FlowTable

/-! ### Handshakes -/

/-- The conversation of `ab` holds a handshake that the source of `ab` opened: its bare SYN and the
other side's SYN with ACK, not the other way round, and nothing that ends the connection. -/
structure Handshake (ab : Tuple) (obs : List Observation) : Prop where
  opened : ∃ o ∈ obs, o.tuple = ab ∧ o.bareSyn
  answered : ∃ o ∈ obs, o.tuple = ab.reverse ∧ o.synAck
  client : ∀ o ∈ obs, o.tuple = ab → ¬ o.synAck
  server : ∀ o ∈ obs, o.tuple = ab.reverse → ¬ o.bareSyn
  no_end : ∀ o ∈ obs, ¬ o.fin ∧ ¬ o.rst

/-- The source of `ab` sent a bare SYN and got no SYN back, and nothing ended the connection. -/
structure Unanswered (ab : Tuple) (obs : List Observation) : Prop where
  opened : ∃ o ∈ obs, o.tuple = ab ∧ o.bareSyn
  silent : ∀ o ∈ obs, o.tuple = ab.reverse → ¬ o.syn
  no_end : ∀ o ∈ obs, ¬ o.fin ∧ ¬ o.rst

/-- Without FIN and RST the state is decided by the two handshake flags. -/
theorem Flow.state_of_no_end {obs : List Observation} {f : Flow} (h : f.Saw obs)
    (hproto : f.key.proto = 6) (hend : ∀ o ∈ obs, ¬ o.fin ∧ ¬ o.rst) :
    f.state = if f.synC2s && f.synackS2c then .established
      else if f.synC2s then .synSent else .midstream := by
  have hfin : f.finC2s = false := by
    rw [h.finC2s, List.any_eq_false]
    intro o ho
    simp [(hend o ho).1]
  have hfin' : f.finS2c = false := by
    rw [h.finS2c, List.any_eq_false]
    intro o ho
    simp [(hend o ho).1]
  have hrst : f.sawReset = false := by
    rw [h.sawReset, List.any_eq_false]
    exact fun o ho => (hend o ho).2
  simp [Flow.state, hproto, hfin, hfin', hrst]

section Conversation

variable {ab : Tuple} {obs : List Observation}

/-- Of two distinct endpoints one is smaller, so the two directions have opposite senses. -/
theorem Tuple.forward_reverse_iff (hab : ab.reverse ≠ ab) : ab.reverse.Forward ↔ ¬ ab.Forward := by
  constructor
  · exact fun h h' => hab (Tuple.eq_reverse_of_forward h' h)
  · exact fun h => (Tuple.forward_or_forward_reverse ab).resolve_left h

theorem Observation.forward_iff (o : Observation) : o.forward = decide o.tuple.Forward :=
  Tuple.normalized_snd o.tuple

/-- A flow that saw the conversation saw the opening SYN exactly when `ab` is forward. -/
theorem Flow.Saw.synC2s_iff {f : Flow} (h : f.Saw obs)
    (hconv : ∀ o ∈ obs, o.tuple = ab ∨ o.tuple = ab.reverse)
    (hopened : ∃ o ∈ obs, o.tuple = ab ∧ o.bareSyn)
    (hserver : ∀ o ∈ obs, o.tuple = ab.reverse → ¬ o.bareSyn) :
    f.synC2s = decide ab.Forward := by
  rw [h.synC2s]
  by_cases hf : ab.Forward
  · obtain ⟨o, ho, htup, hsyn⟩ := hopened
    rw [decide_eq_true hf, List.any_eq_true]
    exact ⟨o, ho, by simp [o.forward_iff, htup, hf, hsyn]⟩
  · rw [decide_eq_false hf, List.any_eq_false]
    intro o ho
    rcases hconv o ho with htup | htup
    · simp [o.forward_iff, htup, hf]
    · simp [hserver o ho htup]

/-- A flow that saw the conversation saw the answer exactly when `ab` is forward, as long as the
client sends no SYN with ACK. -/
theorem Flow.Saw.synackS2c_of_forward {f : Flow} (h : f.Saw obs) (hab : ab.reverse ≠ ab)
    (hanswered : ∃ o ∈ obs, o.tuple = ab.reverse ∧ o.synAck) (hf : ab.Forward) :
    f.synackS2c = true := by
  obtain ⟨o, ho, htup, hsyn⟩ := hanswered
  have hrev : ¬ ab.reverse.Forward := fun h' => (Tuple.forward_reverse_iff hab).1 h' hf
  rw [h.synackS2c, List.any_eq_true]
  exact ⟨o, ho, by simp [o.forward_iff, htup, hrev, hsyn]⟩

end Conversation

namespace FlowTable

variable [Hashes]

/-- **A handshake is seen exactly when the client has the smaller endpoint.**  The packets of the
conversation of `ab` are fed to a table that does not know it yet and has room.  If they hold a
handshake opened by the source of `ab`, the flow is established and the packets are labelled with
the client's point of view if and only if the source of `ab` is the smaller endpoint; and if they
hold an unanswered attempt, the flow says so under the same condition. -/
theorem state_iff_opener_smaller (t : FlowTable) (ab : Tuple) (obs : List Observation)
    (hab : ab.reverse ≠ ab) (hproto : ab.proto = 6) (hnew : ab.key ∉ t.flows)
    (hroom : len t.flows < t.maxFlows)
    (hconv : ∀ o ∈ obs, o.tuple = ab ∨ o.tuple = ab.reverse) :
    (Handshake ab obs →
      (((∃ f, (t.run obs).flows.lookup ab.key = some f ∧ f.state = .established) ∧
          ∀ pre o post, obs = pre ++ o :: post →
            (o.tuple = ab → ((t.run pre).step o).2.flow.direction = some "c2s".toList) ∧
            (o.tuple = ab.reverse →
              ((t.run pre).step o).2.flow.direction = some "s2c".toList)) ↔
        ab.Forward)) ∧
      (Unanswered ab obs →
        ((∃ f, (t.run obs).flows.lookup ab.key = some f ∧ f.state = .synSent) ↔ ab.Forward)) := by
  have hkey : ∀ o ∈ obs, o.tuple.key = ab.key := by
    intro o ho
    rcases hconv o ho with h | h
    · rw [h]
    · rw [h, Tuple.key_reverse]
  -- the flow in the end, and what it saw
  have hflow : (∃ o ∈ obs, o.tuple = ab ∧ o.bareSyn) →
      ∃ f, (t.run obs).flows.lookup ab.key = some f ∧ f.Saw obs ∧ f.key.proto = 6 := by
    rintro ⟨o, ho, -, -⟩
    obtain ⟨hsaw, hk, -, hmem⟩ := saw_run hnew hroom obs hkey 0 0
    obtain ⟨f, hf⟩ := Option.isSome_iff_exists.1
      (AList.lookup_isSome.2 (hmem (List.ne_nil_of_mem ho)))
    have hent : (t.run obs).entry ab.key 0 0 = f := by rw [entry, hf]; rfl
    rw [hent] at hsaw hk
    exact ⟨f, hf, hsaw, by rw [hk, Tuple.key_proto, hproto]⟩
  have hdir : ∀ pre o post, obs = pre ++ o :: post →
      ((t.run pre).step o).2.flow.direction = some (directionName (decide o.tuple.Forward)) := by
    intro pre o post heq
    have hpre : ∀ x ∈ pre, x.tuple.key = ab.key := fun x hx => hkey x (by simp [heq, hx])
    obtain ⟨-, -, hadm, -⟩ := saw_run hnew hroom pre hpre 0 0
    refine direction_step ?_
    rw [run_maxFlows, hkey o (by simp [heq])]
    exact hadm
  refine ⟨fun hs => ?_, fun hu => ?_⟩
  · obtain ⟨f, hf, hsaw, hp⟩ := hflow hs.opened
    have hstate := Flow.state_of_no_end hsaw hp hs.no_end
    rw [hsaw.synC2s_iff hconv hs.opened hs.server] at hstate
    constructor
    · rintro ⟨⟨g, hg, hest⟩, -⟩
      rw [hf, Option.some_inj] at hg
      subst hg
      by_contra hfwd
      rw [hest] at hstate
      simp [hfwd] at hstate
    · intro hfwd
      have hrev : ¬ ab.reverse.Forward := fun h' => (Tuple.forward_reverse_iff hab).1 h' hfwd
      refine ⟨⟨f, hf, ?_⟩, fun pre o post heq => ⟨fun htup => ?_, fun htup => ?_⟩⟩
      · rw [hstate, hsaw.synackS2c_of_forward hab hs.answered hfwd]
        simp [hfwd]
      · rw [hdir pre o post heq, htup, decide_eq_true hfwd]
        rfl
      · rw [hdir pre o post heq, htup, decide_eq_false hrev]
        rfl
  · obtain ⟨f, hf, hsaw, hp⟩ := hflow hu.opened
    have hstate := Flow.state_of_no_end hsaw hp hu.no_end
    have hserver : ∀ o ∈ obs, o.tuple = ab.reverse → ¬ o.bareSyn := by
      intro o ho htup
      simp [Observation.bareSyn, hu.silent o ho htup]
    rw [hsaw.synC2s_iff hconv hu.opened hserver] at hstate
    constructor
    · rintro ⟨g, hg, hsent⟩
      rw [hf, Option.some_inj] at hg
      subst hg
      by_contra hfwd
      rw [hsent] at hstate
      simp [hfwd] at hstate
    · intro hfwd
      have hno : f.synackS2c = false := by
        rw [hsaw.synackS2c, List.any_eq_false]
        intro o ho
        rcases hconv o ho with htup | htup
        · simp [o.forward_iff, htup, hfwd]
        · simp [Observation.synAck, hu.silent o ho htup]
      exact ⟨f, hf, by rw [hstate, hno]; simp [hfwd]⟩

end FlowTable

namespace FlowTable

/-- A packet of a conversation with the given flags. -/
def tcpPacket (tuple : Tuple) (flags : UInt16) : Observation :=
  { tuple, pkt := { transport := { tcpFlags := some flags } }, ts := 0, frame := 1, len := 60 }

/-- A client on `10.0.0.1` and a server on `10.0.0.2`. -/
def upward : Tuple := ⟨.v4 0x0a000001, .v4 0x0a000002, 50000, 443, 6⟩

/-- A client on `10.0.0.9` and a server on `10.0.0.1`. -/
def downward : Tuple := ⟨.v4 0x0a000009, .v4 0x0a000001, 50000, 443, 6⟩

/-- SYN, then SYN with ACK. -/
def handshakeOf (ab : Tuple) : List Observation :=
  [tcpPacket ab tcpSyn, tcpPacket ab.reverse (tcpSyn ||| tcpAck)]

@[simp] theorem flags_tcpPacket (tuple : Tuple) (flags : UInt16) :
    (tcpPacket tuple flags).flags = flags := rfl

theorem handshake_handshakeOf {ab : Tuple} (hab : ab.reverse ≠ ab) :
    Handshake ab (handshakeOf ab) where
  opened := by
    refine ⟨tcpPacket ab tcpSyn, by simp [handshakeOf], rfl, ?_⟩
    rw [Observation.bareSyn, Observation.syn, flags_tcpPacket]
    decide
  answered := by
    refine ⟨tcpPacket ab.reverse (tcpSyn ||| tcpAck), by simp [handshakeOf], rfl, ?_⟩
    rw [Observation.synAck, Observation.syn, flags_tcpPacket]
    decide
  client o ho htup := by
    rcases List.mem_pair.1 ho with rfl | rfl
    · rw [Observation.synAck, Observation.syn, flags_tcpPacket]
      decide
    · exact absurd htup hab
  server o ho htup := by
    rcases List.mem_pair.1 ho with rfl | rfl
    · exact absurd htup.symm hab
    · rw [Observation.bareSyn, Observation.syn, flags_tcpPacket]
      decide
  no_end o ho := by
    rcases List.mem_pair.1 ho with rfl | rfl <;>
      rw [Observation.fin, Observation.rst, flags_tcpPacket] <;> decide

/-- A client with the smaller address is seen to open its connection. -/
theorem state_of_upward_handshake : upward.Forward ∧ ∀ _ : Hashes,
    ∃ f, ((new 8).run (handshakeOf upward)).flows.lookup upward.key = some f ∧
      f.state = .established := by
  refine ⟨by decide, fun _ => ?_⟩
  have hconv : ∀ o ∈ handshakeOf upward, o.tuple = upward ∨ o.tuple = upward.reverse := by
    intro o ho
    rcases List.mem_pair.1 ho with rfl | rfl
    · exact Or.inl rfl
    · exact Or.inr rfl
  exact (((state_iff_opener_smaller (new 8) upward (handshakeOf upward) (by decide) (by decide)
    (by decide) (by decide) hconv).1 (handshake_handshakeOf (by decide))).2 (by decide)).1

/-- A client with the larger address is not: its handshake leaves the flow without a state, and
its SYN is labelled as the server's. -/
theorem state_of_downward_handshake : Handshake downward (handshakeOf downward) ∧
    ∀ _ : Hashes,
      ((((new 8).run (handshakeOf downward)).flows.lookup downward.key).map Flow.state =
        some .midstream) ∧
      ((new 8).step (tcpPacket downward tcpSyn)).2.flow.direction = some "s2c".toList :=
  ⟨handshake_handshakeOf (by decide), fun _ => ⟨rfl, rfl⟩⟩

end FlowTable

end PcapRacer
