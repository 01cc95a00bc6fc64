import Integratio.Lib.Actors
import Integratio.Responder.Process

/-!
# The listener and its responders

`Listener::forwardPacket` puts a sniffed packet into the queue of the responder whose stream has its
source port, else into the queue of the first responder without a stream; each responder's thread
(`startListen`) removes one packet after another and processes it. `system` is the interleaving of
the two: one step is one `forwardPacket` or one turn of one thread, since `add` and `remove` hold
the queue's mutex and a `processPacket` writes `streamId`, all that the other threads read, at most
once. A thread that waits in `remove` has no step. Neither has a turn whose processing fails: it
ends the process (`Program.ended`), so the runs here are those in which no such turn was taken.
-/

namespace Integratio

open Actors Transducer

/-! ## `forwardPacket` -/

/-- A responder's machine and its `incomingQueue`. -/
abbrev Responder := Actor Machine Packet

def Machine.getId (m : Machine) : Int := m.streamId

def forwardPacket (responders : List Responder) (pkt : Packet) : List Responder × Bool :=
  match responders.findIdx? (·.state.getId = (pkt.tcp.sport.toNat : Int)) with
  | some k => (push responders k pkt, true)
  | none =>
    match responders.findIdx? (·.state.getId = -1) with
    | some k => (push responders k pkt, true)
    -- all responders are busy
    | none => (responders, false)

/-- The responder that `forwardPacket` picks. -/
def route (ms : List Machine) (pkt : Packet) : Option Nat :=
  match ms.findIdx? (·.getId = (pkt.tcp.sport.toNat : Int)) with
  | some k => some k
  | none => ms.findIdx? (·.getId = -1)

/-! ## `startListen` -/

def flagNames : List (BitVec 12 × Char) :=
  [(TCP.FIN, 'F'), (TCP.SYN, 'S'), (TCP.RST, 'R'), (TCP.PSH, 'P'), (TCP.ACK, 'A'), (TCP.URG, 'U'),
    (TCP.ECE, 'E'), (TCP.CWR, 'C')]

/-- `flags` of `common.cpp`. -/
def flags (f : BitVec 12) : String :=
  String.ofList ((flagNames.filter fun n => f &&& n.1 ≠ 0).map (·.2))

/-- Why a thread stops: it returns, or its processing fails. -/
inductive Halt
  | returned
  | failed (e : Err)
  deriving DecidableEq, Repr

/-- One turn of the loop of `startListen`, with the packet that `remove` returned. -/
def Config.startListen (c : Config) (m : Machine) (pkt : Packet) :
    Except Halt (Machine × List Effect) :=
  if flags pkt.tcp.flags = "ZFA" then .error .returned
  else
    match m.processPacket c pkt.pdu with
    | .error e => .error (.failed e)
    | .ok r => .ok r

/-! ## The system -/

/-- The steps of the listener and its responders; `conf k` is the configuration of the `k`-th. -/
def system (conf : Nat → Config) :
    List Responder → Act Packet →
      Except (Stuck Halt) (List Responder × List (Entry Machine Packet Effect)) :=
  step route fun k => (conf k).startListen

abbrev SystemStep := Transition (List Responder) (Act Packet) (Entry Machine Packet Effect)

/-- `n` responders that were just started. -/
def fresh (n : Nat) : List Responder := List.replicate n ⟨Machine.start, []⟩

/-! ## Lemmas -/

variable {c : Config} {conf : Nat → Config} {m m' : Machine} {p : Packet} {out : List Effect}
  {rs rs' : List Responder}

theorem forwardPacket_eq (rs : List Responder) (p : Packet) :
    forwardPacket rs p =
      match route (states rs) p with
      | some k => (push rs k p, true)
      | none => (rs, false) := by
  simp only [route, forwardPacket, states, List.findIdx?_map, Function.comp_def]
  cases rs.findIdx? (·.state.getId = (p.tcp.sport.toNat : Int)) with
  | some k => rfl
  | none => cases rs.findIdx? (·.state.getId = -1) <;> rfl

/-- The step of an arriving packet is `forwardPacket`. -/
theorem system_arrive (conf : Nat → Config) (rs : List Responder) (p : Packet) :
    system conf rs (.arrive p) =
      .ok ((forwardPacket rs p).1, [.routed p (route (states rs) p)]) := by
  simp only [system, step, forwardPacket_eq]
  cases route (states rs) p <;> rfl

/-- The responder that is picked has the packet's stream, or no stream. -/
theorem route_some {ms : List Machine} {k : Nat} (h : route ms p = some k) :
    ∃ m, ms[k]? = some m ∧ (m.getId = p.tcp.sport.toNat ∨ m.getId = -1) := by
  unfold route at h
  split at h
  · rename_i j hj
    obtain rfl := Option.some.inj h
    obtain ⟨hlt, hm, -⟩ := List.findIdx?_eq_some_iff_getElem.1 hj
    exact ⟨ms[j], List.getElem?_eq_getElem hlt, .inl (by simpa using hm)⟩
  · obtain ⟨hlt, hm, -⟩ := List.findIdx?_eq_some_iff_getElem.1 h
    exact ⟨ms[k], List.getElem?_eq_getElem hlt, .inr (by simpa using hm)⟩

theorem route_stream {ms : List Machine} {k : Nat} (h : route ms p = some k)
    (hex : ∃ m ∈ ms, m.getId = p.tcp.sport.toNat) :
    ∃ m, ms[k]? = some m ∧ m.getId = p.tcp.sport.toNat := by
  unfold route at h
  split at h
  · rename_i j hj
    obtain rfl := Option.some.inj h
    obtain ⟨hlt, hm, -⟩ := List.findIdx?_eq_some_iff_getElem.1 hj
    exact ⟨ms[j], List.getElem?_eq_getElem hlt, by simpa using hm⟩
  · rename_i hnone
    obtain ⟨m, hm, hid⟩ := hex
    rw [List.findIdx?_eq_none_iff] at hnone
    have hne := hnone m hm
    simp [hid] at hne

/-- A packet goes to the only responder with its stream. -/
theorem route_of_only {ms : List Machine} {k : Nat} {m : Machine} (hk : ms[k]? = some m)
    (hm : m.getId = p.tcp.sport.toNat)
    (hne : ∀ (j : Nat) (m' : Machine), ms[j]? = some m' → m'.getId = p.tcp.sport.toNat → j = k) :
    route ms p = some k := by
  have hfind : ms.findIdx? (·.getId = (p.tcp.sport.toNat : Int)) = some k := by
    obtain ⟨hlt, rfl⟩ := List.getElem?_eq_some_iff.1 hk
    refine List.findIdx?_eq_some_iff_getElem.2 ⟨hlt, by simpa using hm, fun j hj hc => ?_⟩
    have := hne j ms[j] (List.getElem?_eq_getElem (by omega)) (by simpa using hc)
    omega
  rw [route, hfind]

theorem route_of_none {ms : List Machine} (h : ∀ m ∈ ms, m.getId ≠ p.tcp.sport.toNat) :
    route ms p = ms.findIdx? (·.getId = -1) := by
  have hfind : ms.findIdx? (·.getId = (p.tcp.sport.toNat : Int)) = none := by
    rw [List.findIdx?_eq_none_iff]
    intro m hm
    simpa using h m hm
  rw [route, hfind]

/-- The dispatcher looks at the streams only. -/
theorem route_congr {ms ms' : List Machine} (h : ms.map Machine.getId = ms'.map Machine.getId)
    (p : Packet) : route ms p = route ms' p := by
  have hmap : ∀ (ms : List Machine) (x : Int),
      ms.findIdx? (·.getId = x) = (ms.map Machine.getId).findIdx? (· = x) := by
    intro ms x
    rw [List.findIdx?_map]
    rfl
  simp only [route, hmap, h]

/-- No segment makes a thread return. -/
theorem flags_ne (f : BitVec 12) : flags f ≠ "ZFA" := by
  intro h
  have hz : 'Z' ∈ (flags f).toList := by
    rw [h]
    decide
  simp only [flags, String.toList_ofList, List.mem_map, List.mem_filter] at hz
  obtain ⟨n, ⟨hn, -⟩, he⟩ := hz
  have hnone : ∀ n ∈ flagNames, n.2 ≠ 'Z' := by decide
  exact hnone n hn he

theorem startListen_ok (h : c.startListen m p = .ok (m', out)) : c.step m p = .ok (m', out) := by
  unfold Config.startListen at h
  rw [if_neg (flags_ne _)] at h
  split at h
  · cases h
  · rename_i hs
    cases h
    exact hs

theorem startListen_of_step {x : Machine × List Effect} (h : c.step m p = .ok x) :
    c.startListen m p = .ok x := by
  have hpp : m.processPacket c p.pdu = .ok x := h
  rw [Config.startListen, if_neg (flags_ne _), hpp]

/-- **A responder in the system is a responder alone**, fed with what is routed to it. -/
theorem system_alone {T : List SystemStep} {k : Nat} {r : Responder}
    (h : Run (system conf) rs T rs') (hr : rs[k]? = some r) :
    ∃ r', rs'[k]? = some r' ∧
      r.queue ++ inbox k (outputs T) = inputs (served k (outputs T)) ++ r'.queue ∧
      Run (conf k).step r.state (served k (outputs T)) r'.state := by
  obtain ⟨r', hr', hq, hrun⟩ := fifo h hr
  exact ⟨r', hr', hq, hrun.of_ok fun _ _ _ hs => startListen_ok hs⟩

theorem fresh_alone {T : List SystemStep} {n k : Nat} {r : Responder}
    (h : Run (system conf) (fresh n) T rs) (hr : rs[k]? = some r) :
    inbox k (outputs T) = inputs (served k (outputs T)) ++ r.queue ∧
      Run (conf k).step Machine.start (served k (outputs T)) r.state := by
  have hk : k < n := by
    have hlt := (List.getElem?_eq_some_iff.1 hr).1
    rwa [length_run h, fresh, List.length_replicate] at hlt
  obtain ⟨r', hr', hq, hrun⟩ :=
    system_alone (r := ⟨Machine.start, []⟩) (k := k) h (by simp [fresh, hk])
  obtain rfl := Option.some.inj (hr.symm.trans hr')
  exact ⟨hq, hrun⟩

end Integratio
