import Integratio.Listener.Sniffer

/-!
# Packets without a TCP layer

* `sniffed_layered`: while the sniffed packets have both layers, the sniffer and the threads are
  `system` over their packets. This is the setting of the other results about the listener.
* `run_tcp`: a run of the sniffer goes on only as long as every sniffed packet has a TCP layer.
* `never_dropped`: a packet without one is dropped safely in no state. `processPacket` skips it
  (`processPacket_skips`), but `forwardPacket` asks for its port first.
-/

namespace Integratio

open Actors Transducer

namespace Sniffed

/-- A packet with an IP and a TCP layer. -/
def Layered (pdu : PDU) : Prop := pdu.findIp.isSome ∧ pdu.findTcp.isSome

/-- The packet of the two layers. -/
def packet (pdu : PDU) : Packet := ⟨pdu.findIp.getD {}, pdu.findTcp.getD {}⟩

/-- The packet is dropped safely: `pktCallback` returns, and either no responder gets the packet or
the one that gets it keeps its machine and sends nothing, in whatever state it takes the packet. -/
def DroppedSafely (conf : Nat → Config) (rs : List Responder) (pdu : PDU) : Prop :=
  ∃ rs', pktCallback rs pdu = .ok (rs', true) ∧
    (rs' = rs ∨ ∃ k, rs' = push rs k pdu ∧
      ∀ m, (conf k).Reachable m → startListen (conf k) m pdu = .ok (m, []))

abbrev SniffedStep := Transition (List Responder) (Act PDU) (Entry Machine PDU Effect)

variable {c : Config} {conf : Nat → Config} {m : Machine} {rs rs' : List Responder} {pdu : PDU}
  {r : Machine × List Effect} {act : Act PDU} {es : List (Entry Machine PDU Effect)} {n : Nat}
  {T : List SniffedStep}

/-! ## Packets with both layers -/

theorem processPacket_layered (h : Layered pdu) :
    m.processPacket c pdu = c.step m (packet pdu) := by
  obtain ⟨hi, ht⟩ := h
  obtain ⟨ip, hip⟩ := Option.isSome_iff_exists.1 hi
  obtain ⟨tcp, htcp⟩ := Option.isSome_iff_exists.1 ht
  unfold Config.step Machine.processPacket packet
  simp only [hip, htcp, Option.getD_some, findTcp_pdu, findIp_pdu]

theorem routed_layered (ms : List Machine) (h : Layered pdu) :
    routed ms pdu = route ms (packet pdu) := by
  obtain ⟨tcp, htcp⟩ := Option.isSome_iff_exists.1 h.2
  simp only [routed, htcp]
  simp only [route, packet, htcp, Option.getD_some]

theorem startListen_layered (h : Layered pdu) (hs : startListen c m pdu = .ok r) :
    c.startListen m (packet pdu) = .ok r := by
  unfold startListen at hs
  rw [logPacket_eq, if_pos (.inr h), processPacket_layered h] at hs
  dsimp only at hs
  have hpp : m.processPacket c (packet pdu).pdu = c.step m (packet pdu) := rfl
  unfold Config.startListen
  rw [if_neg (flags_ne _), hpp]
  split at hs
  · cases hs
  · cases hst : c.step m (packet pdu) with
    | error e =>
      rw [hst] at hs
      cases hs
    | ok r' =>
      rw [hst] at hs
      cases hs
      rfl

theorem system_step (h : system conf rs act = .ok (rs', es)) :
    step routed (fun k => startListen (conf k)) rs act = .ok (rs', es) := by
  cases act with
  | serve k => exact h
  | arrive pdu =>
    cases ht : pdu.findTcp with
    | none =>
      rw [system_null ht] at h
      cases h
    | some tcp =>
      rw [system_tcp ht] at h
      exact h

/-- **While the sniffed packets have both layers, the system is `system` over their packets.** -/
theorem sniffed_layered (h : Run (system conf) (fresh n) T rs)
    (hl : ∀ pdu ∈ arrivals (inputs T), Layered pdu) :
    Run (Integratio.system conf) (Integratio.fresh n) (T.map (translate packet))
      (rs.map (·.map packet)) := by
  have hstart : (fresh n).map (·.map packet) = Integratio.fresh n := by
    simp only [fresh, Integratio.fresh, List.map_replicate]
    rfl
  have hempty : Waiting Layered (fresh n) := by
    intro a ha i hi
    rw [(List.mem_replicate.1 ha).2] at hi
    cases hi
  rw [← hstart]
  refine (run_map packet (fun ms _ hp => routed_layered ms hp) ?_ hempty hl
    (h.of_ok fun _ _ _ hs => system_step hs)).2
  exact fun k m pdu r hp hs => startListen_layered hp hs

/-! ## Packets without a TCP layer -/

theorem run_tcp (h : Run (system conf) rs T rs') :
    ∀ pdu ∈ arrivals (inputs T), pdu.findTcp ≠ none := by
  induction h with
  | nil => simp
  | @snoc T rs₁ rs₂ act es _ hs ih =>
    intro pdu hp ht
    simp only [inputs_append, inputs_cons, inputs_nil, arrivals_append, List.mem_append] at hp
    rcases hp with hp | hp
    · exact ih pdu hp ht
    · cases act with
      | serve k => cases hp
      | arrive pdu' =>
        obtain rfl := List.mem_singleton.1 hp
        rw [system_null ht] at hs
        cases hs

/-- **A packet without a TCP layer is dropped safely in no state.** -/
theorem never_dropped (conf : Nat → Config) (rs : List Responder) (h : pdu.findTcp = none) :
    ¬ DroppedSafely conf rs pdu := by
  intro ⟨rs', hcb, _⟩
  rw [pktCallback_null h] at hcb
  cases hcb

/-- A fragment: a link layer, IP, and the undecoded rest. -/
def fragment : PDU := [.other, .ip { srcAddr := 0xC0A8B225, dstAddr := 0xC0A8B259 }, .other]

theorem never_dropped_fragment : ¬ DroppedSafely (fun _ => {}) (fresh 1) fragment :=
  never_dropped _ _ rfl

/-- **A fragment stops the sniffer.** -/
theorem fragment_not_dropped :
    ¬ ∀ (conf : Nat → Config) (n : Nat) (rs : List Responder) (pdu : PDU),
      Reach (system conf) (fresh n) rs → pdu.findIp.isSome → pdu.findTcp = none →
      DroppedSafely conf rs pdu := by
  intro h
  obtain ⟨rs', hcb, _⟩ := h (fun _ => {}) 1 _ fragment (.refl _) rfl rfl
  cases hcb

end Sniffed

end Integratio
