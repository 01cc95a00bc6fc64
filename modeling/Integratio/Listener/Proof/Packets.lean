import Integratio.Listener.Proof.Layers
import Integratio.Responder.Client

/-!
# Sniffed packets and their layers

`sniffed_runs_iff`: for PDUs with an IP layer, as the sniffer's filter lets them through, the
sniffer and the threads do exactly what `system` does with their packets, step by step and with the
same log, as long as every PDU has a TCP layer; and with one that has none there is no run. What
else a PDU consists of (a link layer, undecoded payloads) does not matter.
-/

namespace Integratio

open Actors Transducer

namespace Sniffed

variable {c : Config} {conf : Nat → Config} {m : Machine} {rs rs' : List Responder} {pdu : PDU}
  {r : Machine × List Effect} {n : Nat} {T : List SniffedStep} {acts : List (Act PDU)}

theorem startListen_iff (h : Layered pdu) :
    startListen c m pdu = .ok r ↔ c.startListen m (packet pdu) = .ok r := by
  refine ⟨startListen_layered h, fun hs => ?_⟩
  have hst : c.step m (packet pdu) = .ok r := startListen_ok hs
  have hlog : logPacket pdu pdu.tail = .ok () := by
    rw [logPacket_eq, if_pos (.inr h)]
  obtain ⟨tcp, htcp⟩ := Option.isSome_iff_exists.1 h.2
  have hfl : flags pdu.findTcp ≠ "ZFA" := by
    rw [htcp]
    exact flags_ne tcp.flags
  unfold startListen
  rw [hlog]
  dsimp only
  rw [if_neg hfl, processPacket_layered h, hst]

theorem system_of_step (h : Run (step routed fun k => startListen (conf k)) rs T rs')
    (ht : ∀ pdu ∈ arrivals (inputs T), pdu.findTcp.isSome) : Run (system conf) rs T rs' := by
  induction h with
  | nil => exact .nil
  | @snoc T rs₁ rs₂ act es _ hs ih =>
    simp only [inputs_append, inputs_cons, inputs_nil, arrivals_append, List.mem_append] at ht
    refine .snoc (ih fun pdu hp => ht pdu (.inl hp)) ?_
    cases act with
    | serve k => exact hs
    | arrive pdu =>
      obtain ⟨tcp, htcp⟩ := Option.isSome_iff_exists.1 (ht pdu (.inr (by simp)))
      rw [system_tcp htcp]
      exact hs

theorem fresh_map (n : Nat) : (fresh n).map (·.map packet) = Integratio.fresh n := by
  simp only [fresh, Integratio.fresh, List.map_replicate]
  rfl

theorem fresh_waiting (P : PDU → Prop) (n : Nat) : Waiting P (fresh n) := by
  intro a ha i hi
  rw [(List.mem_replicate.1 ha).2] at hi
  cases hi

theorem outputs_translate (T : List SniffedStep) :
    outputs (T.map (Actors.translate packet)) = (outputs T).map (Entry.map packet) := by
  induction T with
  | nil => rfl
  | cons t T ih => simp [outputs_cons, ih, Actors.translate]

/-- **What the sniffer does with PDUs is what the system does with their packets** (module doc). -/
theorem sniffed_runs_iff (hip : ∀ pdu ∈ arrivals acts, pdu.findIp.isSome)
    (log : List (Entry Machine Packet Effect)) :
    (∃ T rs, Run (system conf) (fresh n) T rs ∧ inputs T = acts ∧
        (outputs T).map (Entry.map packet) = log) ↔
      (∀ pdu ∈ arrivals acts, pdu.findTcp.isSome) ∧
        ∃ T rs, Run (Integratio.system conf) (Integratio.fresh n) T rs ∧
          inputs T = acts.map (Act.map packet) ∧ outputs T = log := by
  constructor
  · rintro ⟨T, rs, hT, rfl, rfl⟩
    have htcp : ∀ pdu ∈ arrivals (inputs T), pdu.findTcp.isSome := by
      intro pdu hp
      rw [Option.isSome_iff_ne_none]
      exact run_tcp hT pdu hp
    refine ⟨htcp, _, _, sniffed_layered hT fun pdu hp => ⟨hip pdu hp, htcp pdu hp⟩, ?_,
      outputs_translate T⟩
    simp only [inputs, List.map_map]
    rfl
  · rintro ⟨htcp, T', rs', hT', hi, rfl⟩
    rw [← fresh_map] at hT'
    have hreact : ∀ (k : Nat) (m : Machine) (pdu : PDU) (r : Machine × List Effect), Layered pdu →
        ((fun k => startListen (conf k)) k m pdu = .ok r ↔
          (fun k => (conf k).startListen) k m (packet pdu) = .ok r) :=
      fun k m pdu r hp => startListen_iff hp
    obtain ⟨T, rs, hT, rfl, rfl, rfl, -⟩ := run_map_back packet
      (fun ms _ hp => routed_layered ms hp) hreact (fresh_waiting Layered n)
      (fun pdu hp => ⟨hip pdu hp, htcp pdu hp⟩) hT' hi
    exact ⟨T, rs, system_of_step hT htcp, rfl, (outputs_translate T).symm⟩

/-- A handshake, with another layer in each packet. -/
def padded : List (Act PDU) :=
  [.arrive (handshake[0].pdu ++ [.other]), .serve 0, .arrive (handshake[1].pdu ++ [.other]),
    .serve 0]

def handshakeSystemRun : List SystemStep :=
  (exec (Integratio.system fun _ => {}) (Integratio.fresh 1)
    (padded.map (Act.map packet))).toOption.getD []

theorem sniffed_runs_iff_padded : ∃ T rs, Run (system fun _ => {}) (fresh 1) T rs ∧
    inputs T = padded ∧ (outputs T).map (Entry.map packet) = outputs handshakeSystemRun := by
  have he : exec (Integratio.system fun _ => {}) (Integratio.fresh 1)
      (padded.map (Act.map packet)) = .ok handshakeSystemRun := rfl
  obtain ⟨hrun, hi⟩ := Run.of_exec he
  exact (sniffed_runs_iff (by decide) _).2 ⟨by decide, _, _, hrun, hi, rfl⟩

end Sniffed

end Integratio
