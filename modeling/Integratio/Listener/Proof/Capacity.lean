import Integratio.Listener.System
import Integratio.Responder.Client
import Integratio.Responder.Proof.Inv

/-!
# Connection requests while there is capacity

A responder is free for the dispatcher until its thread has processed a SYN, so a second SYN that
arrives before can be put behind the first, where it is processed without a row and lost.
`capacity_iff`: of at most `n` SYNs from different ports to `n` new responders, all are answered
exactly when each of them finds the queue of the first responder without a stream empty.
`lost_request` loses one of two SYNs to two responders.
-/

namespace Integratio

open Actors Transducer Machine

/-- A SYN|ACK to a port. -/
def synAckTo (a : BitVec 16) (b : Packet) : Bool :=
  b.tcp.flags = TCP.SYN ||| TCP.ACK ∧ b.tcp.dport = a

/-- The SYN|ACKs that the first `n` responders sent to a port. -/
def synAcks (n : Nat) (a : BitVec 16) (es : List (Entry Machine Packet Effect)) : Nat :=
  ∑ k ∈ Finset.range n, (sent (outputs (served k es))).countP (synAckTo a)

/-- When a packet arrives, nothing waits for the first responder without a stream. -/
def FirstIdle (t : SystemStep) : Prop :=
  arrivals [t.inp] ≠ [] → ∀ r ∈ t.src.find? (·.state.getId = -1), r.queue = []

/-- The port of `p` has a responder and got one SYN|ACK. -/
def Connected (n : Nat) (es : List (Entry Machine Packet Effect)) (rs : List Responder)
    (p : Packet) : Prop :=
  (∃ r ∈ rs, r.state.getId = p.tcp.sport.toNat) ∧ synAcks n p.tcp.sport es = 1

/-- A run of `n` new responders over SYNs of different ports, at most `n`. -/
structure SynRun (conf : Nat → Config) (n : Nat) (T : List SystemStep) (rs : List Responder) :
    Prop where
  run : Run (system conf) (fresh n) T rs
  syn : ∀ p ∈ arrivals (inputs T), p.tcp.flags = TCP.SYN
  ports : ((arrivals (inputs T)).map (·.tcp.sport)).Nodup
  room : (arrivals (inputs T)).length ≤ n

variable {c : Config} {conf : Nat → Config} {m m' : Machine} {p q : Packet} {out : List Effect}
  {rs : List Responder} {L : List Step} {r : Responder} {n k : Nat}
  {T T₁ T₂ : List SystemStep} {t : SystemStep}

/-! ## One responder -/

/-- What a new responder has done with the SYNs `ps`: nothing if there was none, else it has
answered the first of them. -/
inductive AnsweredFirst : List Packet → Machine → List Packet → Prop
  | none : AnsweredFirst [] start []
  | one {m : Machine} {b q : Packet} (l : List Packet) : Bound m q → m.state = .synRcvd →
      b.tcp.flags = TCP.SYN ||| TCP.ACK → b.tcp.dport = q.tcp.sport →
      AnsweredFirst (q :: l) m [b]

theorem Bound.syn_again (h : Bound m q) (hst : m.state = .synRcvd) (hp : p.tcp.flags = TCP.SYN)
    (hm : Moves c m p m' out) : Bound m' q ∧ m'.state = .synRcvd ∧ sent out = [] := by
  have hb : Bound m' q := by
    rcases h.step hm with hb | ⟨hcl, -⟩
    · exact hb
    · rw [hst] at hcl
      cases hcl
  refine ⟨hb, ?_⟩
  cases hm with
  | dropped => exact ⟨by simp [hst], rfl⟩
  | noted => exact ⟨by simp [hst], rfl⟩
  | opened _ hL => exact (h.state hL).elim
  | confirmed _ _ hfl => exact absurd (hp.symm.trans hfl) (by decide)
  | answered _ he => rw [hst] at he; cases he
  | finished _ he => rw [hst] at he; cases he
  | closed _ he => rw [hst] at he; cases he

theorem run_answeredFirst (h : Run c.step start L m) (hs : ∀ p ∈ inputs L, p.tcp.flags = TCP.SYN) :
    AnsweredFirst (inputs L) m (sent (outputs L)) := by
  induction h with
  | nil => exact .none
  | @snoc L m m' p out _ hst ih =>
    simp only [inputs_append, inputs_cons, inputs_nil, List.mem_append, List.mem_singleton] at hs
    have hp := hs p (.inr rfl)
    have hm := step_moves hst
    simp only [inputs_append, inputs_cons, inputs_nil, outputs_append, outputs_cons, outputs_nil,
      List.append_nil, sent_append]
    have ih := ih fun p hp => hs p (.inl hp)
    generalize inputs L = ps at ih
    generalize sent (outputs L) = bs at ih
    cases ih with
    | none =>
      have he := hst.symm.trans (start_listening.opens (c := c) hp).step
      cases he
      rcases start_listening.step hm with ⟨hL, -⟩ | ⟨-, -, hb, -⟩
      · exact absurd hL.state (by simp [Machine.opened])
      · rw [sent_send]
        exact .one [] hb rfl rfl rfl
    | one l hb hrc hfl hd =>
      obtain ⟨hb', hrc', ho⟩ := hb.syn_again hrc hp hm
      rw [ho]
      exact .one (l ++ [p]) hb' hrc' hfl hd

/-! ## The system -/

theorem SynRun.split (h : SynRun conf n (T₁ ++ T₂) rs) : ∃ rs₁, SynRun conf n T₁ rs₁ := by
  obtain ⟨hrun, hsyn, hports, hroom⟩ := h
  obtain ⟨rs₁, hrun₁, -⟩ := hrun.split
  simp only [inputs_append, arrivals_append, List.map_append, List.length_append]
    at hsyn hports hroom
  exact ⟨rs₁, hrun₁, fun p hp => hsyn p (List.mem_append_left _ hp), (List.nodup_append.1 hports).1,
    by omega⟩

theorem SynRun.length (h : SynRun conf n T rs) : rs.length = n := by
  rw [length_run h.run, fresh, List.length_replicate]

/-- A responder of the system: it has answered the first SYN of its inbox, if it was served. -/
theorem SynRun.responder (h : SynRun conf n T rs) (hr : rs[k]? = some r) :
    ∃ ps, inbox k (outputs T) = ps ++ r.queue ∧
      AnsweredFirst ps r.state (sent (outputs (served k (outputs T)))) := by
  obtain ⟨hq, hal⟩ := fresh_alone h.run hr
  refine ⟨_, hq, run_answeredFirst hal fun p hp => ?_⟩
  refine h.syn p ((inbox_sublist h.run k).subset ?_)
  have hin : p ∈ inputs (served k (outputs T)) ++ r.queue := List.mem_append_left _ hp
  rwa [← hq] at hin

/-- Packets of one port are in one inbox, and at most once. -/
theorem SynRun.count_le (h : SynRun conf n T rs) (a : BitVec 16) :
    ∑ k ∈ Finset.range n, (inbox k (outputs T)).countP (·.tcp.sport = a) ≤ 1 := by
  refine (sum_inbox_le _ n h.run).trans ?_
  have hc := List.nodup_iff_count.1 h.ports a
  rw [List.count_eq_countP, List.countP_map] at hc
  refine le_trans (le_of_eq (List.countP_congr fun p _ => ?_)) hc
  simp

theorem SynRun.count_at (h : SynRun conf n T rs) (hk : k < n) (a : BitVec 16) :
    (inbox k (outputs T)).countP (·.tcp.sport = a) ≤ 1 := by
  refine le_trans ?_ (h.count_le a)
  exact Finset.single_le_sum (f := fun k => (inbox k (outputs T)).countP (·.tcp.sport = a))
    (fun _ _ => Nat.zero_le _) (Finset.mem_range.2 hk)

theorem SynRun.disjoint (h : SynRun conf n T rs) {j : Nat} (hj : j < n) (hk : k < n)
    (hq : q ∈ inbox j (outputs T)) (hp : p ∈ inbox k (outputs T))
    (he : q.tcp.sport = p.tcp.sport) : j = k := by
  by_contra hne
  have hsub : ({j, k} : Finset Nat) ⊆ Finset.range n := by
    intro i hi
    rcases Finset.mem_insert.1 hi with rfl | hi
    · exact Finset.mem_range.2 hj
    · rw [Finset.mem_singleton.1 hi]
      exact Finset.mem_range.2 hk
  have hle := (Finset.sum_le_sum_of_subset (f := fun k => (inbox k (outputs T)).countP
    (·.tcp.sport = p.tcp.sport)) hsub).trans (h.count_le p.tcp.sport)
  rw [Finset.sum_pair hne] at hle
  have h1 : 0 < (inbox j (outputs T)).countP (·.tcp.sport = p.tcp.sport) :=
    List.countP_pos_iff.2 ⟨q, hq, by simpa using he⟩
  have h2 : 0 < (inbox k (outputs T)).countP (·.tcp.sport = p.tcp.sport) :=
    List.countP_pos_iff.2 ⟨p, hp, by simp⟩
  omega

theorem AnsweredFirst.free {ps bs : List Packet} (h : AnsweredFirst ps m bs) (hm : m.getId = -1) :
    ps = [] := by
  cases h with
  | none => rfl
  | one l hb => exact absurd hm hb.stream_ne

theorem AnsweredFirst.stream {l bs : List Packet} (h : AnsweredFirst (q :: l) m bs) :
    m.getId = q.tcp.sport.toNat := by
  cases h with
  | one _ hb => exact hb.stream

theorem AnsweredFirst.bound {ps bs : List Packet} (h : AnsweredFirst ps m bs) (hm : m.getId ≠ -1) :
    ∃ q l, ps = q :: l ∧ m.getId = q.tcp.sport.toNat := by
  cases ps with
  | nil => cases h; exact absurd rfl hm
  | cons q l => exact ⟨q, l, rfl, h.stream⟩

/-- The SYN|ACKs are those for the first SYN. -/
theorem AnsweredFirst.countP {ps bs : List Packet} (h : AnsweredFirst ps m bs) (a : BitVec 16) :
    bs.countP (synAckTo a) = (ps.take 1).countP (·.tcp.sport = a) := by
  cases h with
  | none => rfl
  | one l _ _ hfl hd => simp [List.countP_cons, synAckTo, hfl, hd]

/-- A SYN of a new port is put to the first responder without a stream, while there are more
responders than SYNs so far. -/
theorem SynRun.picks (h : SynRun conf n T rs)
    (hp : p.tcp.sport ∉ (arrivals (inputs T)).map (·.tcp.sport))
    (hlt : (arrivals (inputs T)).length < n) :
    ∃ k r, route (states rs) p = some k ∧ rs[k]? = some r ∧
      rs.find? (·.state.getId = -1) = some r ∧ inbox k (outputs T) = r.queue := by
  have hnone : ∀ m ∈ states rs, m.getId ≠ p.tcp.sport.toNat := by
    intro m hm hid
    obtain ⟨r, hr, rfl⟩ := List.mem_map.1 hm
    obtain ⟨k, hk⟩ := List.mem_iff_getElem?.1 hr
    obtain ⟨ps, hin, hans⟩ := h.responder hk
    obtain ⟨q, l, rfl, hq⟩ := hans.bound (by omega)
    have hmem : q ∈ arrivals (inputs T) := (inbox_sublist h.run k).subset (by rw [hin]; simp)
    refine hp (List.mem_map.2 ⟨q, hmem, BitVec.eq_of_toNat_eq ?_⟩)
    omega
  rw [route_of_none hnone]
  cases hf : (states rs).findIdx? (·.getId = -1) with
  | none =>
    -- all are bound, each to a SYN of its own
    rw [List.findIdx?_eq_none_iff] at hf
    have hsum := sum_inbox_le (fun _ => true) n h.run
    have hge : ∑ k ∈ Finset.range n, 1 ≤
        ∑ k ∈ Finset.range n, (inbox k (outputs T)).countP fun _ => true := by
      refine Finset.sum_le_sum fun k hk => ?_
      have hk' : k < rs.length := h.length ▸ Finset.mem_range.1 hk
      obtain ⟨ps, hin, hans⟩ := h.responder (List.getElem?_eq_getElem hk')
      have hid := hf _ (List.mem_map_of_mem (List.getElem_mem hk'))
      obtain ⟨q, l, rfl, -⟩ := hans.bound (by simpa using hid)
      simp [hin]
    simp at hsum hge
    omega
  | some k =>
    simp only [states, List.findIdx?_map] at hf
    obtain ⟨hk, hid, hbefore⟩ := List.findIdx?_eq_some_iff_getElem.1 hf
    simp only [Function.comp_apply, decide_eq_true_eq] at hid hbefore
    refine ⟨k, rs[k], rfl, List.getElem?_eq_getElem hk, ?_, ?_⟩
    · rw [List.find?_eq_some_iff_getElem]
      exact ⟨by simpa using hid, k, hk, rfl, fun j hj => by simpa using hbefore j hj⟩
    · obtain ⟨ps, hin, hans⟩ := h.responder (List.getElem?_eq_getElem hk)
      rw [hin, hans.free hid, List.nil_append]

theorem SynRun.arrive (h : SynRun conf n (T₁ ++ t :: T₂) rs) (ht : t.inp = .arrive p) :
    SynRun conf n T₁ t.src ∧ ∃ k r, t.src[k]? = some r ∧
      t.src.find? (·.state.getId = -1) = some r ∧ inbox k (outputs T₁) = r.queue ∧
      t.out = [.routed p (some k)] := by
  obtain ⟨hrun, hsyn, hports, hroom⟩ := h
  obtain ⟨hrun₁, hs, -⟩ := hrun.split_cons
  have harr : arrivals (inputs (T₁ ++ t :: T₂)) =
      arrivals (inputs T₁) ++ p :: arrivals (inputs T₂) := by
    simp [ht]
  rw [harr] at hsyn hports hroom
  simp only [List.map_append, List.map_cons, List.length_append, List.length_cons] at hports hroom
  obtain ⟨hnd, -, hdis⟩ := List.nodup_append.1 hports
  have h₁ : SynRun conf n T₁ t.src :=
    ⟨hrun₁, fun p hp => hsyn p (List.mem_append_left _ hp), hnd, by omega⟩
  have hnew : p.tcp.sport ∉ (arrivals (inputs T₁)).map (·.tcp.sport) :=
    fun hmem => hdis _ hmem _ (.head _) rfl
  obtain ⟨k, r, hrt, hr, hfind, hin⟩ := h₁.picks hnew (by omega)
  refine ⟨h₁, k, r, hr, hfind, hin, ?_⟩
  rw [ht, system_arrive, hrt] at hs
  exact (congrArg Prod.snd (Except.ok.inj hs)).symm

theorem SynRun.mem_inbox (h : SynRun conf n T rs) (hp : p ∈ arrivals (inputs T)) :
    ∃ k < n, p ∈ inbox k (outputs T) := by
  simp only [arrivals, inputs, List.mem_filterMap, List.mem_map] at hp
  obtain ⟨act, ⟨t, ht, rfl⟩, hact⟩ := hp
  have hinp : t.inp = .arrive p := by
    cases hi : t.inp with
    | arrive msg => simp only [hi, Option.some.injEq] at hact; rw [hact]
    | serve => simp [hi] at hact
  obtain ⟨T₁, T₂, rfl⟩ := List.append_of_mem ht
  obtain ⟨h₁, k, r, hr, -, -, hout⟩ := h.arrive hinp
  refine ⟨k, h₁.length ▸ (List.getElem?_eq_some_iff.1 hr).1, ?_⟩
  simp [hout]

/-- While every SYN finds the first free responder idle, no inbox gets a second one. -/
theorem SynRun.inbox_le (h : SynRun conf n T rs) (hidle : ∀ t ∈ T, FirstIdle t) (k : Nat) :
    (inbox k (outputs T)).length ≤ 1 := by
  induction T using List.reverseRecOn generalizing rs with
  | nil => simp
  | append_singleton T t ih =>
    obtain ⟨rs₁, h₁⟩ := h.split
    have ih := ih h₁ fun t ht => hidle t (List.mem_append_left _ ht)
    simp only [outputs_append, outputs_cons, outputs_nil, List.append_nil, inbox_append,
      List.length_append]
    cases hi : t.inp with
    | arrive p =>
      obtain ⟨-, j, r, -, hfind, hin, hout⟩ := h.arrive hi
      have hq : r.queue = [] := hidle t (by simp) (by simp [hi]) r hfind
      by_cases hj : j = k
      · subst hj
        rw [hin, hq, hout]
        simp
      · have hnil : inbox k t.out = [] := by simp [hout, hj]
        rw [hnil]
        exact ih
    | serve j =>
      have hs := (h.run.snoc_inv).2.1
      rw [hi] at hs
      rw [inbox_of_serve hs]
      exact ih

theorem SynRun.done (h : SynRun conf n T rs) (hdone : ∀ r ∈ rs, r.queue = [])
    (hr : rs[k]? = some r) :
    AnsweredFirst (inbox k (outputs T)) r.state (sent (outputs (served k (outputs T)))) := by
  obtain ⟨ps, hin, hans⟩ := h.responder hr
  rwa [hin, hdone _ (List.mem_of_getElem? hr), List.append_nil]

/-- A SYN behind another one is lost. -/
theorem SynRun.lost (h : SynRun conf n T rs) (hdone : ∀ r ∈ rs, r.queue = []) {l l' : List Packet}
    (hk : k < n) (hin : inbox k (outputs T) = q :: l ++ p :: l') :
    ∀ r ∈ rs, r.state.getId ≠ p.tcp.sport.toNat := by
  intro r hr hid
  obtain ⟨j, hj⟩ := List.mem_iff_getElem?.1 hr
  have hjn : j < n := h.length ▸ (List.getElem?_eq_some_iff.1 hj).1
  obtain ⟨q', l'', hin', hid'⟩ := (h.done hdone hj).bound (by omega)
  have hport : q'.tcp.sport = p.tcp.sport := BitVec.eq_of_toNat_eq (by omega)
  obtain rfl := h.disjoint hjn hk (by rw [hin']; exact .head _) (by rw [hin]; simp) hport
  obtain ⟨rfl, -⟩ : q' = q ∧ l'' = l ++ p :: l' := List.cons.inj (hin'.symm.trans hin)
  -- the port would be twice in the inbox
  have hcount := h.count_at hk p.tcp.sport
  rw [hin] at hcount
  simp [hport] at hcount

theorem SynRun.connected (h : SynRun conf n T rs) (hdone : ∀ r ∈ rs, r.queue = []) (hk : k < n)
    (hin : inbox k (outputs T) = [p]) : Connected n (outputs T) rs p := by
  have hk' : k < rs.length := h.length ▸ hk
  have hans := h.done hdone (List.getElem?_eq_getElem hk')
  constructor
  · rw [hin] at hans
    exact ⟨rs[k], List.getElem_mem hk', hans.stream⟩
  · have hsum : synAcks n p.tcp.sport (outputs T) = ∑ k ∈ Finset.range n,
        ((inbox k (outputs T)).take 1).countP (·.tcp.sport = p.tcp.sport) := by
      refine Finset.sum_congr rfl fun j hj => ?_
      have hj' : j < rs.length := h.length ▸ Finset.mem_range.1 hj
      exact (h.done hdone (List.getElem?_eq_getElem hj')).countP _
    have hle : synAcks n p.tcp.sport (outputs T) ≤ 1 := by
      rw [hsum]
      exact (Finset.sum_le_sum fun j _ => (List.take_sublist ..).countP_le).trans
        (h.count_le p.tcp.sport)
    have hge : 1 ≤ synAcks n p.tcp.sport (outputs T) := by
      have hone := Finset.single_le_sum
        (f := fun k => ((inbox k (outputs T)).take 1).countP (·.tcp.sport = p.tcp.sport))
        (fun _ _ => Nat.zero_le _) (Finset.mem_range.2 hk)
      rw [hsum]
      simpa [hin] using hone
    omega

/-- **No request is lost exactly when every SYN finds the first free responder idle.** -/
theorem capacity_iff (conf : Nat → Config) (n : Nat) (h : SynRun conf n T rs)
    (hdone : ∀ r ∈ rs, r.queue = []) :
    (∀ p ∈ arrivals (inputs T), Connected n (outputs T) rs p) ↔ ∀ t ∈ T, FirstIdle t := by
  constructor
  · intro hall t ht harr r hfind
    cases hi : t.inp with
    | serve => simp [hi] at harr
    | arrive p =>
      obtain ⟨T₁, T₂, rfl⟩ := List.append_of_mem ht
      obtain ⟨h₁, k, r', hr', hfind', hin, hout⟩ := h.arrive hi
      obtain rfl := Option.some.inj (hfind.symm.trans hfind')
      have hk : k < n := h₁.length ▸ (List.getElem?_eq_some_iff.1 hr').1
      match hq : r.queue with
      | [] => rfl
      | q :: l =>
        obtain ⟨⟨r₂, hr₂, hid⟩, -⟩ := hall p (by simp [hi])
        have hbox : inbox k (outputs (T₁ ++ t :: T₂)) = q :: l ++ p :: inbox k (outputs T₂) := by
          simp [hin, hq, hout]
        exact (h.lost hdone hk hbox r₂ hr₂ hid).elim
  · intro hidle p hp
    obtain ⟨k, hk, hmem⟩ := h.mem_inbox hp
    have hle := h.inbox_le hidle k
    refine h.connected hdone hk ?_
    match hin : inbox k (outputs T), hmem, hle with
    | [q], hmem, _ => rw [List.mem_singleton.1 hmem]
    | _ :: _ :: _, _, hle => simp at hle

/-! ## Two requests to two responders -/

def firstSyn : Packet := (sampleClient 40000).seg TCP.SYN 1000 0 []
def secondSyn : Packet := (sampleClient 40001).seg TCP.SYN 2000 0 []

def oneByOne : List (Act Packet) := [.arrive firstSyn, .serve 0, .arrive secondSyn, .serve 1]

def oneByOneRun : List SystemStep :=
  (exec (system fun _ => {}) (fresh 2) oneByOne).toOption.getD []

theorem capacity_iff_oneByOne :
    (∀ p ∈ arrivals (inputs oneByOneRun),
      Connected 2 (outputs oneByOneRun) (final (fresh 2) oneByOneRun) p) ↔
      ∀ t ∈ oneByOneRun, FirstIdle t := by
  have he : exec (system fun _ => {}) (fresh 2) oneByOne = .ok oneByOneRun := rfl
  exact capacity_iff (fun _ => {}) 2 ⟨(Run.of_exec he).1, by decide, by decide, by decide⟩
    (by decide)

/-- Both requests arrive before a thread runs. -/
def together : List (Act Packet) := [.arrive firstSyn, .arrive secondSyn, .serve 0, .serve 0]

def togetherRun : List SystemStep :=
  (exec (system fun _ => {}) (fresh 2) together).toOption.getD []

/-- **A request can be lost while a responder is idle.** -/
theorem lost_request :
    ¬ ∀ (conf : Nat → Config) (n : Nat) (T : List SystemStep) (rs : List Responder),
      SynRun conf n T rs → (∀ r ∈ rs, r.queue = []) →
      ∀ p ∈ arrivals (inputs T), Connected n (outputs T) rs p := by
  intro h
  have he : exec (system fun _ => {}) (fresh 2) together = .ok togetherRun := rfl
  have hall := h (fun _ => {}) 2 togetherRun _
    ⟨(Run.of_exec he).1, by decide, by decide, by decide⟩ (by decide)
  obtain ⟨r, hr, hid⟩ := (hall secondSyn (by decide)).1
  have hnone : ∀ r ∈ final (fresh 2) togetherRun,
      r.state.getId ≠ secondSyn.tcp.sport.toNat := by decide
  exact hnone r hr hid

end Integratio
