import Integratio.Listener.System
import Integratio.Responder.Client
import Integratio.Responder.Proof.Inv

/-!
# Isolation of the connections

`processPacket` raises events without a look at the sender, so a responder's connection is isolated
only as far as the dispatcher keeps foreign packets out of its queue. The dispatcher looks at ports,
not at addresses, and gives a packet of an unknown port to the first responder without a stream,
also while a SYN of another client waits there. `isolated`: as long as no ACK, PSH|ACK or FIN|ACK
gets into a queue with the SYN of another source, waiting or answered (`Unmixed`), a bound responder
is moved by packets of its client only. `foreign_ack` completes a handshake with another client's
ACK.
-/

namespace Integratio

open Actors Transducer Machine

/-- The same source address and port. -/
def SameSource (q p : Packet) : Prop :=
  p.ip.srcAddr = q.ip.srcAddr ∧ p.tcp.sport = q.tcp.sport

/-- The flags of a packet that can move a bound responder. -/
def Moving (p : Packet) : Prop :=
  p.tcp.flags = TCP.ACK ∨ p.tcp.flags = TCP.PSH ||| TCP.ACK ∨ p.tcp.flags = TCP.FIN ||| TCP.ACK

/-- If the step moves the state machine of a bound responder or sends a packet, its packet is from
the source of the SYN that the responder answered. -/
def Isolated (L : List Step) (u : Step) : Prop :=
  u.src.state ≠ .listen → (u.dst.state ≠ u.src.state ∨ sent u.out ≠ []) →
    ∀ q ∈ opener L, SameSource q u.inp

/-- A packet that can move a bound responder is picked a responder that answered a SYN of the same
source, if it is bound, and has no SYN of another source waiting. -/
def Unmixed (T : List SystemStep) (t : SystemStep) : Prop :=
  ∀ p ∈ arrivals [t.inp], Moving p → ∀ k ∈ route (states t.src) p, ∀ r ∈ t.src[k]?,
    (r.state.state ≠ .listen → ∀ q ∈ opener (served k (outputs T)), SameSource q p) ∧
      ∀ q ∈ r.queue, q.tcp.flags = TCP.SYN → SameSource q p

variable {c : Config} {conf : Nat → Config} {m m' : Machine} {p q : Packet} {out : List Effect}
  {rs : List Responder} {L : List Step} {r : Responder} {l : List Packet}
  {T : List SystemStep}

/-! ## One responder -/

theorem Bound.moving (h : Bound m q) (hm : Moves c m p m' out)
    (hmv : m'.state ≠ m.state ∨ sent out ≠ []) : Moving p := by
  cases hm with
  | dropped => simp at hmv
  | noted => simp at hmv
  | opened _ hst => exact (h.state hst).elim
  | confirmed _ _ hfl => exact .inl hfl
  | answered _ _ hfl => exact .inr (.inl hfl)
  | finished _ _ hfl => exact .inr (.inr hfl)
  | closed _ _ hfl => exact .inl hfl

/-- The queue of a responder with record `L` holds no foreign packets: behind a SYN that waits, and
while it is bound. -/
structure Clean (L : List Step) (r : Responder) : Prop where
  waiting : r.queue.Pairwise fun q p => q.tcp.flags = TCP.SYN → Moving p → SameSource q p
  bound : r.state.state ≠ .listen → ∀ q ∈ opener L, ∀ p ∈ r.queue, Moving p → SameSource q p

theorem Clean.push (h : Clean L r)
    (hp : Moving p → (r.state.state ≠ .listen → ∀ q ∈ opener L, SameSource q p) ∧
      ∀ q ∈ r.queue, q.tcp.flags = TCP.SYN → SameSource q p) :
    Clean L { r with queue := r.queue ++ [p] } := by
  constructor
  · refine List.pairwise_append.2 ⟨h.waiting, List.pairwise_singleton _ _, ?_⟩
    intro q hq p' hp' hs hmv
    rw [List.mem_singleton.1 hp'] at hmv ⊢
    exact (hp hmv).2 q hq hs
  · intro hst q hq p' hp' hmv
    rcases List.mem_append.1 hp' with hp' | hp'
    · exact h.bound hst q hq p' hp' hmv
    · rw [List.mem_singleton.1 hp'] at hmv ⊢
      exact (hp hmv).1 hst q hq

theorem Clean.react (h : Clean L ⟨m, p :: l⟩) (hph : Phase L m) (hm : Moves c m p m' out) :
    Clean (L ++ [⟨m, p, m', out⟩]) ⟨m', l⟩ ∧ Isolated L ⟨m, p, m', out⟩ := by
  obtain ⟨hhead, htail⟩ := List.pairwise_cons.1 h.waiting
  rcases hph with hL | ⟨q, ho, -, hb⟩
  · refine ⟨⟨htail, ?_⟩, fun hst => (hst hL.state).elim⟩
    rcases hL.step hm with ⟨hL', -⟩ | ⟨hfl, rfl, hb, -, rfl⟩
    · exact fun hst => (hst hL'.state).elim
    · intro _ q hq p' hp' hmv
      rw [opener_snoc, if_pos (by simp [answersSyn, Machine.opened])] at hq
      obtain rfl := Option.some.inj hq
      exact hhead p' hp' hfl hmv
  · have hsrc := h.bound hb.state q ho
    refine ⟨⟨htail, ?_⟩, fun _ hmv q' hq' => ?_⟩
    · rcases hb.step hm with hb' | ⟨-, -, rfl, -⟩
      · intro _ q' hq' p' hp' hmv
        rw [opener_snoc, hb.not_answersSyn hm] at hq'
        obtain rfl := Option.some.inj (ho.symm.trans hq')
        exact hsrc p' (.tail _ hp') hmv
      · exact fun hst => absurd rfl hst
    · obtain rfl := Option.some.inj (ho.symm.trans hq')
      exact hsrc p (.head _) (hb.moving hm hmv)

/-! ## Runs -/

theorem run_clean {n : Nat} (h : Run (system conf) (fresh n) T rs) (hu : Always Unmixed T) {k : Nat}
    (hr : rs[k]? = some r) :
    Clean (served k (outputs T)) r ∧ Always Isolated (served k (outputs T)) := by
  induction h generalizing r with
  | nil =>
    obtain rfl := (List.mem_replicate.1 (List.mem_of_getElem? hr)).2
    exact ⟨⟨.nil, fun hst => absurd rfl hst⟩, always_nil⟩
  | @snoc T rs₁ rs₂ act es hT hs ih =>
    obtain ⟨huT, hut⟩ := always_snoc.1 hu
    obtain ⟨r₁, hr₁, hcase⟩ := step_from hs hr
    obtain ⟨hc, hi⟩ := ih huT hr₁
    simp only [outputs_append, outputs_cons, outputs_nil, List.append_nil, served_append]
    rcases hcase with ⟨rfl, -, hv⟩ | ⟨msg, rfl, hrt, rfl, rfl⟩ | ⟨i, l, m', o, -, hq, hre, rfl, rfl⟩
    · rw [hv, List.append_nil]
      exact ⟨hc, hi⟩
    · rw [served_routed, served_nil, List.append_nil]
      exact ⟨hc.push fun hmv => hut msg (by simp) hmv k hrt _ hr₁, hi⟩
    · obtain ⟨m, _⟩ := r₁
      subst hq
      have hph : Phase (served k (outputs T)) m := run_phase (fresh_alone hT hr₁).2
      have hv : served k [Entry.served k ⟨m, i, m', o⟩] = [⟨m, i, m', o⟩] := by simp
      obtain ⟨hc', hi'⟩ := hc.react hph (step_moves (startListen_ok hre))
      rw [hv]
      exact ⟨hc', always_snoc.2 ⟨hi, hi'⟩⟩

/-- **Isolation**: in a run without mixed queues, every responder is moved by its client only. -/
theorem isolated (conf : Nat → Config) (n : Nat) (h : Run (system conf) (fresh n) T rs)
    (hu : Always Unmixed T) : ∀ k < n, Always Isolated (served k (outputs T)) := by
  intro k hk
  have hlt : k < rs.length := by
    rw [length_run h, fresh, List.length_replicate]
    exact hk
  exact (run_clean h hu (List.getElem?_eq_getElem hlt)).2

/-! ## Two clients -/

instance (q p : Packet) : Decidable (SameSource q p) := inferInstanceAs (Decidable (_ ∧ _))
instance : DecidablePred Moving := fun _ => inferInstanceAs (Decidable (_ ∨ _ ∨ _))
instance (t : SystemStep) : Decidable (Unmixed T t) :=
  inferInstanceAs (Decidable (∀ p ∈ arrivals [t.inp], Moving p → ∀ k ∈ route (states t.src) p,
    ∀ r ∈ t.src[k]?, (r.state.state ≠ .listen → ∀ q ∈ opener (served k (outputs T)),
      SameSource q p) ∧ ∀ q ∈ r.queue, q.tcp.flags = TCP.SYN → SameSource q p))

/-- Two handshakes that overlap. -/
def twoClients : List (Act Packet) :=
  [.arrive ((sampleClient 40000).seg TCP.SYN 1000 0 []), .serve 0,
    .arrive ((sampleClient 40001).seg TCP.SYN 5 0 []),
    .arrive ((sampleClient 40000).seg TCP.ACK 1001 31332 []), .serve 1, .serve 0]

def twoClientsRun : List SystemStep :=
  (exec (system fun _ => {}) (fresh 2) twoClients).toOption.getD []

theorem isolated_two : Always Isolated (served 0 (outputs twoClientsRun)) ∧
    Always Isolated (served 1 (outputs twoClientsRun)) := by
  have he : exec (system fun _ => {}) (fresh 2) twoClients = .ok twoClientsRun := rfl
  have hiso := isolated (fun _ => {}) 2 (Run.of_exec he).1 (.of_take (by decide))
  exact ⟨hiso 0 (by decide), hiso 1 (by decide)⟩

/-- Another client's ACK arrives while a SYN waits. -/
def foreignAck : List (Act Packet) :=
  [.arrive ((sampleClient 40000).seg TCP.SYN 1000 0 []),
    .arrive ((sampleClient 40001).seg TCP.ACK 5 7 []), .serve 0, .serve 0]

def foreignAckRun : List SystemStep :=
  (exec (system fun _ => {}) (fresh 1) foreignAck).toOption.getD []

/-- **A handshake can be completed by another client.** -/
theorem foreign_ack :
    ¬ ∀ (conf : Nat → Config) (n : Nat) (T : List SystemStep) (rs : List Responder),
      Run (system conf) (fresh n) T rs →
      ∀ k < n, Always Isolated (served k (outputs T)) := by
  intro h
  have he : exec (system fun _ => {}) (fresh 1) foreignAck = .ok foreignAckRun := rfl
  have hall := h (fun _ => {}) 1 foreignAckRun _ (Run.of_exec he).1 0 (by decide)
  have hiso := hall [(served 0 (outputs foreignAckRun))[0]]
    (served 0 (outputs foreignAckRun))[1] [] rfl
  have hsrc := hiso (by decide) (.inl (by decide)) _ rfl
  exact absurd hsrc (by decide)

end Integratio
