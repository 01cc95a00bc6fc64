import Integratio.Responder.Proof.Delay
import Integratio.Responder.Proof.Delivery

/-!
# What of a configuration can be observed

`observed_iff`: two responders do the same on every sequence of packets exactly when they have the
same three delays, both an applicator or none, and the same responses. So of the `time` entries
only those of three pairs of a state and an action ever have an effect, whatever their order among
the others.
-/

namespace Integratio

open Transducer Machine

/-- The effects that a client's packets have on a new responder, or its failure. -/
def Config.observed (c : Config) (ps : List Packet) : Except Err (List Effect) :=
  (exec c.step start ps).map outputs

/-- The same, as far as a responder can tell. -/
structure Config.Alike (c c' : Config) : Prop where
  isSome : c.httz.isSome = c'.httz.isSome
  answer : ∀ request, request ≠ [] → c.answer request = c'.answer request
  synAck : c.delays .listen .sendSynAck = c'.delays .listen .sendSynAck
  data : c.delays .established .sendData = c'.delays .established .sendData
  finAck : c.delays .established .sendFinAck = c'.delays .established .sendFinAck

variable {c c' : Config} {m m' : Machine} {p : Packet} {out : List Effect} {d : Bytes}

theorem Config.Alike.symm (h : c.Alike c') : c'.Alike c :=
  ⟨h.isSome.symm, fun r hr => (h.answer r hr).symm, h.synAck.symm, h.data.symm, h.finAck.symm⟩

/-! ## Alike responders do the same -/

theorem receive_congr (hk : c.keepsInner = c'.keepsInner) : m.receive c p = m.receive c' p := by
  rw [receive_eq, receive_eq, hk]

/-- What is sent for a row's action depends on its delays only. -/
theorem send_congr_delays {r : Row} {a : Action} (hr : r ∈ transitionTable)
    (ha : r.action = some a) (hm : m.state = r.start)
    (hd : c.delays r.start a = c'.delays r.start a) (pkt : Packet) :
    m.send c pkt a.name = m.send c' pkt a.name := by
  rw [send_of_action hr ha hm, send_of_action hr ha hm, hd]

theorem Moves.alike (hm : Moves c m p m' out) (hk : c.keepsInner = c'.keepsInner)
    (h : c.Alike c') : Moves c' m p m' out := by
  cases hm with
  | dropped hre => exact .dropped hre
  | noted hre hrow =>
    rw [receive_congr hk]
    exact .noted hre hrow
  | opened hre hst hfl =>
    have hop : m.opened c p = m.opened c' p := by simp only [Machine.opened, hk]
    have hs := send_congr_delays (r := ⟨.listen, .syn, .synRcvd, some .sendSynAck⟩) (by decide) rfl
      hst h.synAck
    rw [hop]
    exact (hs _) ▸ .opened hre hst hfl
  | confirmed hre hst hfl =>
    rw [receive_congr hk]
    exact .confirmed hre hst hfl
  | answered hre hst hfl hp =>
    have hs := send_congr_delays (r := ⟨.established, .pshAck, .established, some .sendData⟩)
      (by decide) rfl hst h.data
    rw [receive_congr hk, h.isSome, respond_eq, h.answer _ hp, ← respond_eq]
    exact (hs _) ▸ .answered hre hst hfl hp
  | finished hre hst hfl =>
    have hs := send_congr_delays (r := ⟨.established, .finAck, .closeWait, some .sendFinAck⟩)
      (by decide) rfl hst h.finAck
    rw [receive_congr hk]
    exact (hs _) ▸ .finished hre hst hfl
  | closed hre hst hfl => exact .closed hre hst hfl

theorem step_alike (hk : c.keepsInner = c'.keepsInner) (h : c.Alike c') (m : Machine)
    (p : Packet) : c.step m p = c'.step m p := by
  cases hs : c.step m p with
  | ok x =>
    obtain ⟨m', out⟩ := x
    exact ((step_moves hs).alike hk h).step.symm
  | error e =>
    cases hs' : c'.step m p with
    | ok x =>
      obtain ⟨m', out⟩ := x
      have hok := ((step_moves hs').alike hk.symm h.symm).step
      rw [hs] at hok
      cases hok
    | error e' =>
      cases e
      cases e'
      rfl

/-! ## Telling responders apart -/

theorem reads_syn (c : Config) : ∃ o, Reads c.step start [handshake[0]] o
      (start.opened c handshake[0]) ∧ sleeps o = c.delays .listen .sendSynAck ∧
      requests o = [] := by
  have hm := start_listening.opens (c := c) (q := handshake[0]) rfl
  refine ⟨_, .single hm.step, ?_, requests_send ..⟩
  rw [hm.sleeps_sent, sent_send, List.flatMap_singleton]
  rfl

theorem reads_handshake (c : Config) : ∃ o m, Reads c.step start handshake o m ∧
      m.state = .established ∧ m.tcpR.flags = TCP.ACK ∧
      sleeps o = c.delays .listen .sendSynAck ∧ requests o = [] := by
  obtain ⟨o, hr, hsl, hreq⟩ := reads_syn c
  have hre : (start.opened c handshake[0]).retransmitted handshake[1] = false := by
    refine retransmitted_of_flags ?_
    rw [Machine.opened, TCP.assign_flags]
    exact show TCP.SYN ≠ TCP.ACK by decide
  have hm := Moves.confirmed (c := c) hre rfl rfl
  refine ⟨_, _, hr.append (.single hm.step), rfl, ?_, by simpa using hsl, by simpa using hreq⟩
  rw [receive_tcpR, TCP.assign_flags]
  rfl

def aRequest (d : Bytes) : Packet := (sampleClient 40000).seg (TCP.PSH ||| TCP.ACK) 1001 31332 d
def aFin : Packet := (sampleClient 40000).seg (TCP.FIN ||| TCP.ACK) 1001 31332 []

theorem observed_request (c : Config) (hd : d ≠ []) : ∃ o,
    c.observed (handshake ++ [aRequest d]) = .ok o ∧
      sleeps o = c.delays .listen .sendSynAck ++ c.delays .established .sendData ∧
      requests o = (if c.httz.isSome then [d] else []) ∧
      ∃ b, (sent o).getLast? = some b ∧ b.tcp.payload = c.answer d := by
  obtain ⟨o, m, hr, hst, hfl, hsl, hreq⟩ := reads_handshake c
  have hre : m.retransmitted (aRequest d) = false := by
    refine retransmitted_of_flags ?_
    rw [hfl]
    exact show TCP.ACK ≠ TCP.PSH ||| TCP.ACK by decide
  have hm := Moves.answered (c := c) hre hst rfl hd
  have hack : c.delaysFor TCP.ACK = c.delays .established .sendData := by
    rw [Config.delaysFor, if_neg (by decide), if_neg (by decide)]
  have hpay : (aRequest d).tcp.payload = d := rfl
  refine ⟨_, (hr.append (.single hm.step)).exec_outputs, ?_, ?_,
    ⟨(m.fixupAddr (aRequest d)).ipS, { m.dataTcp (aRequest d) with payload := respond c d }⟩, ?_,
    respond_eq c d⟩
  · rw [sleeps_append, hsl, hm.sleeps_sent, sent_append, sent_ask, sent_send, List.nil_append,
      List.flatMap_singleton]
    exact congrArg _ hack
  · rw [requests_append, hreq, requests_append, requests_ask, requests_send, hpay]
    simp
  · rw [sent_append, sent_append, sent_ask, sent_send, List.nil_append, List.getLast?_concat]
    rfl

theorem observed_fin (c : Config) : ∃ o, c.observed (handshake ++ [aFin]) = .ok o ∧
      sleeps o = c.delays .listen .sendSynAck ++ c.delays .established .sendFinAck := by
  obtain ⟨o, m, hr, hst, hfl, hsl, -⟩ := reads_handshake c
  have hre : m.retransmitted aFin = false := by
    refine retransmitted_of_flags ?_
    rw [hfl]
    exact show TCP.ACK ≠ TCP.FIN ||| TCP.ACK by decide
  have hm := Moves.finished (c := c) hre hst rfl
  have hfin : c.delaysFor (TCP.FIN ||| TCP.ACK) = c.delays .established .sendFinAck := by
    rw [Config.delaysFor, if_neg (by decide), if_pos rfl]
  refine ⟨_, (hr.append (.single hm.step)).exec_outputs, ?_⟩
  rw [sleeps_append, hsl, hm.sleeps_sent, sent_send, List.flatMap_singleton]
  exact congrArg _ hfin

/-- **What of a configuration can be observed** (module doc). -/
theorem observed_iff (hk : c.keepsInner = c'.keepsInner) :
    (∀ ps, c.observed ps = c'.observed ps) ↔ c.Alike c' := by
  refine ⟨fun h => ?_, fun h ps => ?_⟩
  · have hreq : ∀ d, d ≠ [] → c.httz.isSome = c'.httz.isSome ∧
        c.answer d = c'.answer d ∧
        c.delays .listen .sendSynAck ++ c.delays .established .sendData =
          c'.delays .listen .sendSynAck ++ c'.delays .established .sendData := by
      intro d hd
      obtain ⟨o, ho, hsl, hq, b, hb, hp⟩ := observed_request c hd
      obtain ⟨o', ho', hsl', hq', b', hb', hp'⟩ := observed_request c' hd
      cases ho.symm.trans ((h _).trans ho')
      cases hb.symm.trans hb'
      refine ⟨?_, hp.symm.trans hp', hsl.symm.trans hsl'⟩
      rw [hq] at hq'
      cases hs : c.httz.isSome <;> cases hs' : c'.httz.isSome <;> simp_all
    obtain ⟨hsome, -, hdata⟩ := hreq [0] (by simp)
    have hsyn : c.delays .listen .sendSynAck = c'.delays .listen .sendSynAck := by
      obtain ⟨o, hr, hsl, -⟩ := reads_syn c
      obtain ⟨o', hr', hsl', -⟩ := reads_syn c'
      cases hr.exec_outputs.symm.trans ((h _).trans hr'.exec_outputs)
      exact hsl.symm.trans hsl'
    have hfin : c.delays .listen .sendSynAck ++ c.delays .established .sendFinAck =
        c'.delays .listen .sendSynAck ++ c'.delays .established .sendFinAck := by
      obtain ⟨o, ho, hsl⟩ := observed_fin c
      obtain ⟨o', ho', hsl'⟩ := observed_fin c'
      cases ho.symm.trans ((h _).trans ho')
      exact hsl.symm.trans hsl'
    rw [hsyn, List.append_cancel_left_eq] at hdata hfin
    exact ⟨hsome, fun d hd => (hreq d hd).2.1, hsyn, hdata, hfin⟩
  · unfold Config.observed
    have hstep : c.step = c'.step := by
      funext m p
      exact step_alike hk h m p
    rw [hstep]

/-- The delays of `delayed` for the SYN|ACK alone. -/
def synAckDelayed : Config :=
  { timeTests := [⟨"LISTEN", "sendSynAck", 1⟩, ⟨"LISTEN", "sendSynAck", 2⟩] }

/-- An entry for data in `SYN_RCVD` has no effect. -/
theorem observed_iff_delayed : delayed.observed = synAckDelayed.observed := by
  have hk : delayed.keepsInner = synAckDelayed.keepsInner := rfl
  have halike : delayed.Alike synAckDelayed :=
    ⟨rfl, fun _ _ => rfl, by decide, by decide, by decide⟩
  exact funext ((observed_iff hk).2 halike)

end Integratio
