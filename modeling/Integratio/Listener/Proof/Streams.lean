import Integratio.Listener.Proof.Ownership

/-!
# Clients and their streams

The clients of some packets are the ports that sent a SYN, in the order of the first (`clients`);
`Streams as rs` says that the responders have the streams `as` in their order and that those that
are left have none. It decides where the next packet goes: to the responder of its client
(`Streams.route_owner`), or to the first free one (`Streams.route_new`). A step that ends no
connection keeps it (`Streams.serve`).
-/

namespace Integratio

open Actors Transducer Machine

/-- The ports that sent a SYN, in the order of the first. -/
def clients (ps : List Packet) : List (BitVec 16) :=
  ((ps.filter (·.tcp.flags = TCP.SYN)).map (·.tcp.sport)).eraseDups

/-- The responders have the streams `as`, in their order, and those that are left have none. -/
def Streams (as : List (BitVec 16)) (rs : List Responder) : Prop :=
  ∀ (k : Nat) (r : Responder), rs[k]? = some r →
    r.state.getId = (as[k]?.map fun a => (a.toNat : Int)).getD (-1)

variable {c : Config} {m m' : Machine} {p q : Packet} {out : List Effect}
  {rs rs' : List Responder} {r : Responder} {a : BitVec 16} {as bs : List (BitVec 16)} {n k : Nat}
  {ps ws : List Packet}

/-! ## Clients -/

theorem eraseDups_snoc (l : List (BitVec 16)) (a : BitVec 16) :
    (l ++ [a]).eraseDups = if a ∈ l then l.eraseDups else l.eraseDups ++ [a] := by
  rw [List.eraseDups_append, List.removeAll]
  by_cases h : a ∈ l <;> simp [h, List.eraseDups_cons]

theorem clients_snoc (ps : List Packet) (p : Packet) :
    clients (ps ++ [p]) =
      if p.tcp.flags = TCP.SYN ∧ p.tcp.sport ∉ clients ps then clients ps ++ [p.tcp.sport]
      else clients ps := by
  by_cases hfl : p.tcp.flags = TCP.SYN
  · have hsnoc : clients (ps ++ [p]) =
        (((ps.filter (·.tcp.flags = TCP.SYN)).map (·.tcp.sport)) ++ [p.tcp.sport]).eraseDups := by
      simp [clients, hfl]
    rw [hsnoc, eraseDups_snoc]
    simp only [hfl, clients, List.mem_eraseDups, true_and, ite_not]
  · rw [if_neg fun h => hfl h.1]
    simp [clients, hfl]

theorem clients_of_not_syn (h : p.tcp.flags ≠ TCP.SYN) : clients (ps ++ [p]) = clients ps := by
  rw [clients_snoc, if_neg fun hc => h hc.1]

theorem clients_of_mem (h : p.tcp.sport ∈ clients ps) : clients (ps ++ [p]) = clients ps := by
  rw [clients_snoc, if_neg fun hc => hc.2 h]

theorem clients_prefix (ps : List Packet) (p : Packet) : clients ps <+: clients (ps ++ [p]) := by
  rw [clients_snoc]
  split
  · exact List.prefix_append _ _
  · exact List.prefix_refl _

theorem clients_nodup (ps : List Packet) : (clients ps).Nodup := by
  induction ps using List.reverseRecOn with
  | nil => exact List.nodup_nil
  | append_singleton ps p ih =>
    rw [clients_snoc]
    split
    · rename_i h
      refine List.nodup_append.2 ⟨ih, List.nodup_singleton _, fun a ha b hb => ?_⟩
      rw [List.mem_singleton.1 hb]
      exact fun he => h.2 (he ▸ ha)
    · exact ih

theorem clients_append_of_not_syn (h : ∀ p ∈ ws, p.tcp.flags ≠ TCP.SYN) :
    clients (ps ++ ws) = clients ps := by
  have hnil : ws.filter (·.tcp.flags = TCP.SYN) = [] := by simpa using h
  simp [clients, hnil]

/-! ## Streams -/

theorem Streams.of_some (h : Streams as rs) (hr : rs[k]? = some r) (ha : as[k]? = some a) :
    r.state.getId = a.toNat := by
  rw [h k r hr, ha]
  rfl

theorem Streams.of_none (h : Streams as rs) (hr : rs[k]? = some r) (ha : as[k]? = none) :
    r.state.getId = -1 := by
  rw [h k r hr, ha]
  rfl

theorem Streams.place (h : Streams as rs) (hr : rs[k]? = some r) (hid : r.state.getId = a.toNat) :
    as[k]? = some a := by
  cases ha : as[k]? with
  | none =>
    have := h.of_none hr ha
    omega
  | some b =>
    have hb := h.of_some hr ha
    exact congrArg some (BitVec.eq_of_toNat_eq (by omega))

theorem Streams.free (h : Streams as rs) (hr : rs[k]? = some r) (hid : r.state.getId = -1) :
    as.length ≤ k := by
  by_contra hlt
  have := h.of_some hr (List.getElem?_eq_getElem (Nat.lt_of_not_le hlt))
  omega

theorem Streams.congr (h : Streams as rs) (he : states rs' = states rs) : Streams as rs' := by
  intro k r hk
  have hst : (states rs)[k]? = some r.state := by
    rw [← he]
    simp [states, hk]
  simp only [states, List.getElem?_map, Option.map_eq_some_iff] at hst
  obtain ⟨r₀, hr₀, hs⟩ := hst
  rw [← hs]
  exact h k r₀ hr₀

/-- A client's packets go to its responder. -/
theorem Streams.route_owner (h : Streams as rs) (hnd : as.Nodup) (hk : k < rs.length)
    (ha : as[k]? = some p.tcp.sport) : route (states rs) p = some k := by
  have hr := List.getElem?_eq_getElem hk
  refine route_of_only (m := rs[k].state) (by simp [states, hk]) (h.of_some hr ha) ?_
  intro j m' hj hid
  simp only [states, List.getElem?_map, Option.map_eq_some_iff] at hj
  obtain ⟨r', hj, rfl⟩ := hj
  have hlt := (List.getElem?_eq_some_iff.1 ha).1
  exact ((List.getElem?_inj hlt hnd).1 (ha.trans (h.place hj hid).symm)).symm

/-- Other packets go to the first responder that is left. -/
theorem Streams.route_new (h : Streams as rs) (hp : p.tcp.sport ∉ as.take rs.length) :
    route (states rs) p = if as.length < rs.length then some as.length else none := by
  have hnone : ∀ m ∈ states rs, m.getId ≠ p.tcp.sport.toNat := by
    intro m hm hid
    obtain ⟨r, hr, rfl⟩ := List.mem_map.1 hm
    obtain ⟨k, hk⟩ := List.mem_iff_getElem?.1 hr
    have hlt := (List.getElem?_eq_some_iff.1 hk).1
    refine hp (List.mem_iff_getElem?.2 ⟨k, ?_⟩)
    rw [List.getElem?_take_of_lt hlt]
    exact h.place hk hid
  rw [route_of_none hnone]
  split
  · rename_i hlt
    refine List.findIdx?_eq_some_iff_getElem.2 ⟨by simpa [states] using hlt, ?_, fun j hj => ?_⟩
    · have hr := List.getElem?_eq_getElem hlt
      simpa [states] using h.of_none hr (List.getElem?_eq_none (Nat.le_refl _))
    · have hj' : j < rs.length := Nat.lt_trans hj hlt
      have hid := h.of_some (List.getElem?_eq_getElem hj') (List.getElem?_eq_getElem hj)
      simp only [states, List.getElem_map, decide_eq_true_eq]
      omega
  · rename_i hle
    rw [List.findIdx?_eq_none_iff]
    intro m hm
    obtain ⟨r, hr, rfl⟩ := List.mem_map.1 hm
    obtain ⟨k, hk⟩ := List.mem_iff_getElem?.1 hr
    have hlt := (List.getElem?_eq_some_iff.1 hk).1
    have hid := h.of_some hk (List.getElem?_eq_getElem (by omega))
    simp only [decide_eq_false_iff_not]
    omega

/-- Clients beyond the responders do not matter. -/
theorem Streams.append (h : Streams as rs) (hle : rs.length ≤ as.length) :
    Streams (as ++ bs) rs := by
  intro k r hk
  have hlt := (List.getElem?_eq_some_iff.1 hk).1
  rw [List.getElem?_append_left (by omega)]
  exact h k r hk

theorem Streams.set (h : Streams as rs) (hk : k < rs.length)
    (hid : r.state.getId = (bs[k]?.map fun a => (a.toNat : Int)).getD (-1))
    (hbs : ∀ j, j ≠ k → bs[j]? = as[j]?) : Streams bs (rs.set k r) := by
  intro j r' hj
  by_cases he : j = k
  · subst he
    rw [List.getElem?_set_self hk] at hj
    obtain rfl := Option.some.inj hj
    exact hid
  · rw [List.getElem?_set_ne (Ne.symm he)] at hj
    rw [hbs j he]
    exact h j r' hj

theorem Streams.route_congr (h : Streams as rs) (h' : Streams as rs')
    (hlen : rs.length = rs'.length) (q : Packet) : route (states rs) q = route (states rs') q := by
  refine Integratio.route_congr (List.ext_getElem (by simp [states, hlen]) fun k hk hk' => ?_) q
  simp only [states, List.length_map] at hk hk'
  simp only [states, List.getElem_map]
  rw [h k _ (List.getElem?_eq_getElem hk), h' k _ (List.getElem?_eq_getElem hk')]

/-! ## One packet -/

/-- Data is the response of the responder that sends it. -/
theorem Moves.content (hm : Moves c m p m' out) :
    ∀ b ∈ sent out, b.tcp.flags = TCP.ACK → b.tcp.payload = c.answer p.tcp.payload := by
  have hne : TCP.SYN ||| TCP.ACK ≠ TCP.ACK ∧ TCP.FIN ||| TCP.ACK ≠ TCP.ACK := by decide
  intro b hb hfl
  cases hm with
  | opened =>
    rw [sent_send, List.mem_singleton] at hb
    rw [hb] at hfl
    exact (hne.1 hfl).elim
  | answered =>
    simp only [sent_append, sent_ask, sent_send, List.nil_append, List.mem_singleton] at hb
    rw [hb]
    exact respond_eq c _
  | finished =>
    rw [sent_send, List.mem_singleton] at hb
    rw [hb] at hfl
    exact (hne.2 hfl).elim
  | _ => cases hb

theorem Moves.request (hm : Moves c m p m' out) (hst : m.state = .established)
    (hfl : p.tcp.flags = TCP.PSH ||| TCP.ACK) (hre : m.retransmitted p = false) :
    ∃ b, sent out = [b] ∧ b.tcp.payload = c.answer p.tcp.payload := by
  cases hm with
  | dropped h => rw [hre] at h; cases h
  | noted _ hrow =>
    have hnone := hrow .pshAck hfl
    rw [hst] at hnone
    cases hnone
  | opened _ h => rw [hst] at h; cases h
  | confirmed _ h => rw [hst] at h; cases h
  | answered =>
    refine ⟨⟨(m.fixupAddr p).ipS, { m.dataTcp p with payload := respond c p.tcp.payload }⟩, ?_,
      respond_eq c _⟩
    simp
  | finished _ _ h => exact absurd (hfl.symm.trans h) (by decide)
  | closed _ h => rw [hst] at h; cases h

/-- **What the responder that is picked does with a packet**: it keeps its stream, or it has none,
and takes that of the packet as the next client. -/
theorem Streams.serve (h : Streams (clients ps) rs) (hr : rs[k]? = some r)
    (hrt : route (states rs) p = some k) (hph : Listening r.state ∨ ∃ q, Bound r.state q)
    (hm : Moves c r.state p m' out) (hno : ¬ Returns ⟨r.state, p, m', out⟩) :
    (clients (ps ++ [p]) = clients ps ∧ m'.getId = r.state.getId ∧
      ∀ b ∈ sent out, b.tcp.flags ≠ TCP.SYN ||| TCP.ACK ∧ (clients ps)[k]? = some p.tcp.sport) ∨
    (clients (ps ++ [p]) = clients ps ++ [p.tcp.sport] ∧ k = (clients ps).length ∧
      p.tcp.sport ∉ clients ps ∧ m'.getId = p.tcp.sport.toNat ∧
      ∃ b, sent out = [b] ∧ b.tcp.flags = TCP.SYN ||| TCP.ACK ∧ b.tcp.dport = p.tcp.sport) := by
  have hlt := (List.getElem?_eq_some_iff.1 hr).1
  rcases hph with hL | ⟨q, hb⟩
  · have hfree := h.free hr hL.stream
    -- no responder has the stream, so the one that is picked is the next one
    have hnew : p.tcp.sport ∉ clients ps := by
      intro hmem
      obtain ⟨j, hj⟩ := List.mem_iff_getElem?.1 hmem
      have hjlt := (List.getElem?_eq_some_iff.1 hj).1
      have hj' := h.route_owner (clients_nodup ps) (by omega) hj
      have := Option.some.inj (hrt.symm.trans hj')
      omega
    have hk : k = (clients ps).length := by
      rw [h.route_new fun hmem => hnew (List.mem_of_mem_take hmem)] at hrt
      split at hrt
      · exact (Option.some.inj hrt).symm
      · cases hrt
    rcases hL.step hm with ⟨hL', rfl⟩ | ⟨hfl, rfl, hb, -, rfl⟩
    · have hfl : p.tcp.flags ≠ TCP.SYN := by
        intro hfl
        have he := Except.ok.inj ((hL.opens (c := c) hfl).step.symm.trans hm.step)
        have hst : (r.state.opened c p).state = m'.state := congrArg (·.1.state) he
        rw [hL'.state] at hst
        cases hst
      exact .inl ⟨clients_of_not_syn hfl, hL'.stream.trans hL.stream.symm, by simp⟩
    · refine .inr ⟨by rw [clients_snoc, if_pos ⟨hfl, hnew⟩], hk, hnew, hb.stream, ?_⟩
      exact ⟨_, sent_send .., rfl, rfl⟩
  · have hown : (clients ps)[k]? = some p.tcp.sport := by
      obtain ⟨m, hm, hid⟩ := route_some hrt
      simp only [states, List.getElem?_map, hr, Option.map_some, Option.some.injEq] at hm
      subst hm
      exact h.place hr (hid.resolve_right hb.stream_ne)
    have hid : m'.getId = r.state.getId := by
      rcases hb.step hm with hb' | ⟨hst, -, rfl, -⟩
      · exact hb'.stream.trans hb.stream.symm
      · exact (hno ⟨by simp [hst], rfl⟩).elim
    refine .inl ⟨clients_of_mem (List.mem_of_getElem? hown), hid, fun b hb' => ⟨?_, hown⟩⟩
    have hns := hb.not_answersSyn hm
    simp only [answersSyn, List.any_eq_false, decide_eq_true_eq] at hns
    exact hns b hb'

end Integratio
