import Integratio.Listener.Proof.Capacity
import Integratio.Listener.Proof.Streams

/-!
# The i-th client gets the i-th responder

`first_come`: while each packet is processed before the next one arrives and no connection ends, the
responders are given away in their order, to the ports in the order of their first SYN (`clients`).
Between two packets the `i`-th responder has the stream of the `i`-th client and the others have
none (`Streams`), which decides where the next packet goes (`Streams.route_owner`,
`Streams.route_new`). `Turn` carries this over the moment when one packet waits: a packet of a
client does not move the streams, a SYN of a new port takes the first free responder, which answers
it because it listens (`Listening.opens`), and any other packet leaves a free responder free.
-/

namespace Integratio

open Actors Transducer Machine

/-- A run in which each packet finds all queues empty, and no responder returns to `LISTEN`. -/
structure OneByOne (conf : Nat → Config) (n : Nat) (T : List SystemStep) (rs : List Responder) :
    Prop where
  run : Run (system conf) (fresh n) T rs
  settled : ∀ t ∈ T, arrivals [t.inp] ≠ [] → ∀ r ∈ t.src, r.queue = []
  stays : ∀ k, ∀ t ∈ served k (outputs T), ¬ Returns t

variable {c : Config} {conf : Nat → Config} {m m' : Machine} {p q : Packet} {out : List Effect}
  {rs rs' : List Responder} {r : Responder} {a : BitVec 16} {as bs : List (BitVec 16)} {n k : Nat}
  {act : Act Packet} {es : List (Entry Machine Packet Effect)} {T T₁ T₂ : List SystemStep}
  {ps ws : List Packet}

/-! ## The log -/

theorem synAcks_append (n : Nat) (a : BitVec 16) (es fs : List (Entry Machine Packet Effect)) :
    synAcks n a (es ++ fs) = synAcks n a es + synAcks n a fs := by
  simp only [synAcks, served_append, outputs_append, sent_append, List.countP_append,
    Finset.sum_add_distrib]

theorem synAcks_routed (n : Nat) (a : BitVec 16) (p : Packet) (o : Option Nat) :
    synAcks n a [.routed p o] = 0 := by
  simp [synAcks]

theorem synAcks_served (hk : k < n) (a : BitVec 16) (t : Step) :
    synAcks n a [.served k t] = (sent t.out).countP (synAckTo a) := by
  have hone : ∀ j, (sent (outputs (served j [.served k t]))).countP (synAckTo a) =
      if k = j then (sent t.out).countP (synAckTo a) else 0 := by
    intro j
    by_cases hj : k = j <;> simp [hj]
  simp only [synAcks, hone, Finset.sum_ite_eq, Finset.mem_range, hk, if_true]

/-- What the log says when the clients are `as`. -/
structure Log (conf : Nat → Config) (n : Nat) (as : List (BitVec 16))
    (es : List (Entry Machine Packet Effect)) : Prop where
  acks : ∀ a, synAcks n a es = if a ∈ as.take n then 1 else 0
  answers : ∀ k, ∀ t ∈ served k es, ∀ b ∈ sent t.out, as[k]? = some t.inp.tcp.sport ∧
    (b.tcp.flags = TCP.ACK → b.tcp.payload = (conf k).answer t.inp.tcp.payload)

theorem Log.routed (h : Log conf n as es) (p : Packet) (o : Option Nat) :
    Log conf n as (es ++ [.routed p o]) := by
  refine ⟨fun a => ?_, fun k t ht => ?_⟩
  · rw [synAcks_append, synAcks_routed, h.acks]
    rfl
  · simp only [served_append, served_routed, served_nil, List.append_nil] at ht
    exact h.answers k t ht

/-- More clients than responders do not matter. -/
theorem Log.append (h : Log conf n as es) (hle : n ≤ as.length) : Log conf n (as ++ bs) es := by
  refine ⟨fun a => ?_, fun k t ht b hb => ?_⟩
  · rw [List.take_append_of_le_length hle]
    exact h.acks a
  · obtain ⟨hk, hdata⟩ := h.answers k t ht b hb
    rw [List.getElem?_append_left (List.getElem?_eq_some_iff.1 hk).1]
    exact ⟨hk, hdata⟩

theorem Log.served (h : Log conf n (clients ps) es) (hk : k < n) (hm : Moves (conf k) m p m' out)
    (hcase : (clients (ps ++ [p]) = clients ps ∧
        ∀ b ∈ sent out, b.tcp.flags ≠ TCP.SYN ||| TCP.ACK ∧ (clients ps)[k]? = some p.tcp.sport) ∨
      (clients (ps ++ [p]) = clients ps ++ [p.tcp.sport] ∧ k = (clients ps).length ∧
        p.tcp.sport ∉ clients ps ∧
        ∃ b, sent out = [b] ∧ b.tcp.flags = TCP.SYN ||| TCP.ACK ∧ b.tcp.dport = p.tcp.sport)) :
    Log conf n (clients (ps ++ [p])) (es ++ [.served k ⟨m, p, m', out⟩]) := by
  constructor
  · intro a
    rw [synAcks_append, h.acks, synAcks_served hk]
    rcases hcase with ⟨hc, hno⟩ | ⟨hc, hlen, hnew, b, hb, hfl, hd⟩
    · have hz : (sent out).countP (synAckTo a) = 0 := by
        refine List.countP_eq_zero.2 fun b hb => ?_
        simp [synAckTo, (hno b hb).1]
      rw [hc, hz, Nat.add_zero]
    · rw [hc, List.take_of_length_le (by omega), List.take_of_length_le (by simp; omega), hb]
      by_cases ha : p.tcp.sport = a
      · subst ha
        simp [synAckTo, hfl, hd, hnew]
      · simp [synAckTo, hd, ha, Ne.symm ha]
  · intro j t ht b hb
    simp only [served_append, served_served, served_nil, List.mem_append] at ht
    rcases ht with ht | ht
    · obtain ⟨hj, hdata⟩ := h.answers j t ht b hb
      obtain ⟨l, hl⟩ := clients_prefix ps p
      rw [← hl, List.getElem?_append_left (List.getElem?_eq_some_iff.1 hj).1]
      exact ⟨hj, hdata⟩
    · split at ht
      · rename_i hj
        subst hj
        obtain rfl := List.mem_singleton.1 ht
        refine ⟨?_, hm.content b hb⟩
        rcases hcase with ⟨hc, hno⟩ | ⟨hc, hlen, -⟩
        · rw [hc]
          exact (hno b hb).2
        · rw [hc, hlen]
          simp
      · cases ht

/-! ## Runs -/

/-- Between two steps: the packets `ps` have been processed, and `ws` (one packet or none) wait in
the queue they were routed to. -/
structure Turn (conf : Nat → Config) (n : Nat) (T : List SystemStep) (rs : List Responder)
    (ps ws : List Packet) : Prop where
  length : rs.length = n
  arrived : arrivals (inputs T) = ps ++ ws
  streams : Streams (clients ps) rs
  log : Log conf n (clients ps) (outputs T)
  queues : ∀ (k : Nat) (r : Responder), rs[k]? = some r →
    r.queue = ws.filter fun w => route (states rs) w = some k
  placed : ∀ w ∈ ws, route (states rs) w ≠ none
  single : ws.length ≤ 1

theorem Turn.idle (h : Turn conf n T rs ps ws) (hq : ∀ r ∈ rs, r.queue = []) : ws = [] := by
  rw [List.eq_nil_iff_forall_not_mem]
  intro w hw
  obtain ⟨k, hk⟩ := Option.ne_none_iff_exists'.1 (h.placed w hw)
  obtain ⟨m, hm, -⟩ := route_some hk
  simp only [states, List.getElem?_map, Option.map_eq_some_iff] at hm
  obtain ⟨r, hr, rfl⟩ := hm
  have hmem : w ∈ r.queue := by
    rw [h.queues k r hr]
    exact List.mem_filter.2 ⟨hw, by simpa using hk⟩
  rw [hq r (List.mem_of_getElem? hr)] at hmem
  cases hmem

theorem Turn.refused (h : Turn conf n T rs ps []) (hrt : route (states rs) p = none) :
    Turn conf n (T ++ [⟨rs, .arrive p, rs, [.routed p none]⟩]) rs (ps ++ [p]) [] := by
  have hle : n ≤ (clients ps).length := by
    by_contra hlt
    have hnew : p.tcp.sport ∉ (clients ps).take rs.length := by
      intro hmem
      obtain ⟨k, hk⟩ := List.mem_iff_getElem?.1 (List.mem_of_mem_take hmem)
      have hk' := (List.getElem?_eq_some_iff.1 hk).1
      rw [h.streams.route_owner (clients_nodup ps) (by rw [h.length]; omega) hk] at hrt
      cases hrt
    rw [h.streams.route_new hnew, if_pos (by rw [h.length]; omega)] at hrt
    cases hrt
  obtain ⟨bs, hbs⟩ := clients_prefix ps p
  refine ⟨h.length, by simp [h.arrived], ?_, ?_, h.queues, by simp, by simp⟩
  · rw [← hbs]
    exact h.streams.append (h.length ▸ hle)
  · simp only [outputs_append, outputs_cons, outputs_nil, List.append_nil]
    rw [← hbs]
    exact (h.log.routed p none).append hle

theorem Turn.queued (h : Turn conf n T rs ps []) (hrt : route (states rs) p = some k) :
    Turn conf n (T ++ [⟨rs, .arrive p, push rs k p, [.routed p (some k)]⟩]) (push rs k p) ps
      [p] := by
  refine ⟨(length_push k p).trans h.length, by simp [h.arrived], ?_, ?_, ?_, ?_, by simp⟩
  · exact h.streams.congr (states_push rs k p)
  · simp only [outputs_append, outputs_cons, outputs_nil, List.append_nil]
    exact h.log.routed p (some k)
  · intro j r hj
    have hlt : j < rs.length := @length_push _ _ rs k p ▸ (List.getElem?_eq_some_iff.1 hj).1
    have hget := List.getElem?_eq_getElem hlt
    have hnil : rs[j].queue = [] := h.queues j rs[j] hget
    rw [getElem?_push k p hget] at hj
    obtain rfl := Option.some.inj hj
    by_cases hk : k = j <;> simp [hk, hnil, states_push, hrt]
  · simp [states_push, hrt]

theorem Turn.served {i : Packet} {l : List Packet} (h : Turn conf n T rs ps ws)
    (hr : rs[k]? = some ⟨m, i :: l⟩) (hph : Listening m ∨ ∃ q, Bound m q)
    (hm : Moves (conf k) m i m' out) (hno : ¬ Returns ⟨m, i, m', out⟩) :
    Turn conf n (T ++ [⟨rs, .serve k, rs.set k ⟨m', l⟩, [.served k ⟨m, i, m', out⟩]⟩])
      (rs.set k ⟨m', l⟩) (ps ++ [i]) [] := by
  have hk : k < rs.length := (List.getElem?_eq_some_iff.1 hr).1
  have hq : i :: l = ws.filter fun w => route (states rs) w = some k := h.queues k _ hr
  -- the packet that is processed is the one that waits
  obtain ⟨rfl, rfl, hrt⟩ : ws = [i] ∧ l = [] ∧ route (states rs) i = some k := by
    have hmem : i ∈ ws.filter fun w => route (states rs) w = some k := by
      rw [← hq]
      exact .head _
    obtain ⟨w, rfl⟩ : ∃ w, ws = [w] := by
      refine List.length_eq_one_iff.1 ?_
      have := List.length_pos_of_mem (List.mem_filter.1 hmem).1
      have := h.single
      omega
    obtain rfl := List.mem_singleton.1 (List.mem_filter.1 hmem).1
    have hrt : route (states rs) i = some k := by simpa using (List.mem_filter.1 hmem).2
    simp only [List.filter_cons, hrt, decide_true, if_true, List.filter_nil, List.cons.injEq,
      true_and] at hq
    exact ⟨rfl, hq, hrt⟩
  have hserve := h.streams.serve (p := i) hr hrt hph hm hno
  refine ⟨by simp [h.length], by simp [h.arrived], ?_, ?_, ?_, by simp, by simp⟩
  · rcases hserve with ⟨hc, hid, -⟩ | ⟨hc, hlen, -, hid, -⟩
    · rw [hc]
      exact h.streams.set hk (hid.trans (h.streams k _ hr)) fun j _ => rfl
    · rw [hc]
      refine h.streams.set hk ?_ fun j hj => ?_
      · rw [hlen, List.getElem?_concat_length]
        exact hid
      · rw [hlen] at hj
        by_cases hlt : j < (clients ps).length
        · exact List.getElem?_append_left hlt
        · rw [List.getElem?_eq_none (by simp; omega), List.getElem?_eq_none (by omega)]
  · simp only [outputs_append, outputs_cons, outputs_nil, List.append_nil]
    refine h.log.served (h.length ▸ hk) hm ?_
    rcases hserve with ⟨hc, -, hno⟩ | ⟨hc, hlen, hnew, -, hb⟩
    · exact .inl ⟨hc, hno⟩
    · exact .inr ⟨hc, hlen, hnew, hb⟩
  · intro j r hj
    by_cases he : k = j
    · subst he
      rw [List.getElem?_set_self hk] at hj
      obtain rfl := Option.some.inj hj
      rfl
    · rw [List.getElem?_set_ne he] at hj
      rw [h.queues j r hj]
      simp [hrt, he]

theorem OneByOne.turn (h : OneByOne conf n T rs) : ∃ ps ws, Turn conf n T rs ps ws := by
  obtain ⟨hrun, hset, hstay⟩ := h
  induction hrun with
  | nil =>
    refine ⟨[], [], by simp [fresh], rfl, fun k r hk => ?_, ⟨fun a => ?_, fun k t ht => ?_⟩,
      fun k r hk => ?_, by simp, by simp⟩
    · obtain rfl := (List.mem_replicate.1 (List.mem_of_getElem? hk)).2
      rfl
    · simp [synAcks, clients]
    · cases ht
    · obtain rfl := (List.mem_replicate.1 (List.mem_of_getElem? hk)).2
      rfl
  | @snoc T rs₁ rs₂ act es hrun hs ih =>
    simp only [outputs_append, outputs_cons, outputs_nil, List.append_nil, served_append,
      List.mem_append] at hstay
    obtain ⟨ps, ws, hturn⟩ := ih (fun t ht => hset t (by simp [ht])) fun k t ht =>
      hstay k t (.inl ht)
    have hset := hset ⟨rs₁, act, rs₂, es⟩ (by simp)
    cases step_acts hs with
    | refused p hrt =>
      obtain rfl := hturn.idle (hset (by simp))
      exact ⟨_, _, hturn.refused hrt⟩
    | queued p k hrt =>
      obtain rfl := hturn.idle (hset (by simp))
      exact ⟨_, _, hturn.queued hrt⟩
    | served k m i l m' o hr hre =>
      have hph : Listening m ∨ ∃ q, Bound m q :=
        Config.Reachable.phase ⟨_, (fresh_alone hrun hr).2⟩
      exact ⟨_, _, hturn.served hr hph (step_moves (startListen_ok hre))
        (hstay k _ (.inr (by simp)))⟩

theorem OneByOne.between (h : OneByOne conf n T rs) (hdone : ∀ r ∈ rs, r.queue = []) :
    Turn conf n T rs (arrivals (inputs T)) [] := by
  obtain ⟨ps, ws, hturn⟩ := h.turn
  obtain rfl := hturn.idle hdone
  have harr := hturn.arrived
  rw [List.append_nil] at harr
  rw [harr]
  exact hturn

theorem OneByOne.split (h : OneByOne conf n (T₁ ++ T₂) rs)
    (h₁ : Run (system conf) (fresh n) T₁ rs') :
    OneByOne conf n T₁ rs' := by
  refine ⟨h₁, fun t ht => h.settled t (List.mem_append_left _ ht), fun k t ht => h.stays k t ?_⟩
  rw [outputs_append, served_append]
  exact List.mem_append_left _ ht

/-- First come, first served, with the clients in the order of their first SYN: the i-th client has
the i-th responder (`stream`), one SYN|ACK (`synAck`), and its later packets go to that responder
(`later`), which alone answers them, from its own content (`answers`, `answered`). Packets that are
no SYN do not change where the next packet goes (`strays`), and once all responders are taken a
packet of another port is refused (`full`). -/
structure FirstCome (conf : Nat → Config) (n : Nat) (T : List SystemStep) (rs : List Responder) :
    Prop where
  stream : ∀ i a, i < n → (clients (arrivals (inputs T)))[i]? = some a →
    ∃ r, rs[i]? = some r ∧ r.state.getId = a.toNat
  synAck : ∀ a ∈ (clients (arrivals (inputs T))).take n, synAcks n a (outputs T) = 1
  later : ∀ T₁ t T₂ p i, T = T₁ ++ t :: T₂ → t.inp = .arrive p → i < n →
    (clients (arrivals (inputs T₁)))[i]? = some p.tcp.sport → t.out = [.routed p (some i)]
  answers : ∀ i a, i < n → (clients (arrivals (inputs T)))[i]? = some a →
    ∀ k, ∀ t ∈ served k (outputs T), t.inp.tcp.sport = a → ∀ b ∈ sent t.out,
      k = i ∧ (b.tcp.flags = TCP.ACK → b.tcp.payload = (conf i).answer t.inp.tcp.payload)
  answered : ∀ k < n, ∀ t ∈ served k (outputs T), t.src.state = .established →
    t.inp.tcp.flags = TCP.PSH ||| TCP.ACK → t.src.retransmitted t.inp = false →
    ∃ b, sent t.out = [b] ∧ b.tcp.payload = (conf k).answer t.inp.tcp.payload
  strays : ∀ T₁ T₂ rs₁, T = T₁ ++ T₂ → Run (system conf) (fresh n) T₁ rs₁ →
    (∀ r ∈ rs₁, r.queue = []) → (∀ p ∈ arrivals (inputs T₂), p.tcp.flags ≠ TCP.SYN) →
    ∀ q, route (states rs) q = route (states rs₁) q
  full : n ≤ (clients (arrivals (inputs T))).length →
    ∀ q, q.tcp.sport ∉ (clients (arrivals (inputs T))).take n → forwardPacket rs q = (rs, false)

/-- **The i-th client gets the i-th responder.** -/
theorem first_come (h : OneByOne conf n T rs) (hdone : ∀ r ∈ rs, r.queue = []) :
    FirstCome conf n T rs := by
  have hturn := h.between hdone
  have hnd := clients_nodup (arrivals (inputs T))
  constructor
  case stream =>
    intro i a hi ha
    have hr := List.getElem?_eq_getElem (hturn.length.symm ▸ hi)
    exact ⟨_, hr, hturn.streams.of_some hr ha⟩
  case synAck =>
    intro a ha
    rw [hturn.log.acks, if_pos ha]
  case later =>
    rintro T₁ t T₂ p i rfl hp hi ha
    obtain ⟨h₁, hs, -⟩ := h.run.split_cons
    have hidle : ∀ r ∈ t.src, r.queue = [] := h.settled t (by simp) (by simp [hp])
    have hturn₁ := (h.split h₁).between hidle
    have hrt := hturn₁.streams.route_owner (clients_nodup _) (hturn₁.length.symm ▸ hi) ha
    rw [hp, system_arrive, hrt] at hs
    exact (congrArg Prod.snd (Except.ok.inj hs)).symm
  case answers =>
    intro i a hi ha k t ht hta b hb
    obtain ⟨hk, hdata⟩ := hturn.log.answers k t ht b hb
    rw [hta, ← ha] at hk
    obtain rfl := (List.getElem?_inj (List.getElem?_eq_some_iff.1 (hk.trans ha)).1 hnd).1 hk
    exact ⟨rfl, hdata⟩
  case answered =>
    intro k hk t ht hst hfl hre
    obtain ⟨-, hal⟩ := fresh_alone h.run
      (List.getElem?_eq_getElem (hturn.length.symm ▸ hk))
    exact (step_moves (hal.step_mem ht)).request hst hfl hre
  case strays =>
    rintro T₁ T₂ rs₁ rfl h₁ hdone₁ hno q
    have hturn₁ := (h.split h₁).between hdone₁
    have hstr := hturn.streams
    rw [inputs_append, arrivals_append, clients_append_of_not_syn hno] at hstr
    exact hstr.route_congr hturn₁.streams (hturn.length.trans hturn₁.length.symm) q
  case full =>
    intro hle q hq
    have hrt : route (states rs) q = none := by
      rw [hturn.streams.route_new (by rwa [hturn.length]), if_neg (by rw [hturn.length]; omega)]
    rw [forwardPacket_eq, hrt]

/-- Two clients, with the reply to the first one sniffed back and a third client refused. -/
def inTurn : List (Act Packet) :=
  let k := sampleClient 40000
  let l := sampleClient 40001
  [.arrive (k.seg TCP.SYN 1000 0 []), .serve 0,
    .arrive (k.reply (TCP.SYN ||| TCP.ACK) 31331 1001 []), .serve 1,
    .arrive (l.seg TCP.SYN 5 0 []), .serve 1, .arrive (k.seg TCP.ACK 1001 31332 []), .serve 0,
    .arrive ((sampleClient 40002).seg TCP.SYN 9 0 []),
    .arrive (k.seg (TCP.PSH ||| TCP.ACK) 1001 31332 [71]), .serve 0]

def inTurnRun : List SystemStep :=
  (exec (system fun _ => echo) (fresh 2) inTurn).toOption.getD []

theorem first_come_inTurn :
    FirstCome (fun _ => echo) 2 inTurnRun (final (fresh 2) inTurnRun) := by
  have he : exec (system fun _ => echo) (fresh 2) inTurn = .ok inTurnRun := rfl
  have h₀ : ∀ t ∈ served 0 (outputs inTurnRun), t.dst.state ≠ .listen := by decide
  have h₁ : ∀ t ∈ served 1 (outputs inTurnRun), t.src.state = .listen := by decide
  refine first_come ⟨(Run.of_exec he).1, by decide, fun k t ht hret => ?_⟩ (by decide)
  match k with
  | 0 => exact h₀ t ht hret.2
  | 1 => exact hret.1 (h₁ t ht)
  | k + 2 => cases ht

end Integratio
