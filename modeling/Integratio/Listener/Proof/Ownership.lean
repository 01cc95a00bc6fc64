import Integratio.Listener.System
import Integratio.Responder.Client
import Integratio.Responder.Proof.Inv

/-!
# A connection belongs to one responder

`owner_stable`: while responder `k` alone has the stream `a` and its queue alone holds packets of
port `a` (`Owns a k`), and until `k` returns to `LISTEN`, every packet of port `a` goes to `k`, and
`k` does with them what it would do alone, whatever else arrives and however the threads interleave.
The invariant is kept by one step (`Owns.step`): the dispatcher looks for a stream before it looks
for a free responder, and a responder only takes a stream from a packet of its own queue
(`Moves.stream`).
-/

namespace Integratio

open Actors Transducer Machine

/-- Responder `k` has the stream `a`. -/
structure Owns (a : BitVec 16) (k : Nat) (rs : List Responder) : Prop where
  bound : ∃ r, rs[k]? = some r ∧ r.state.getId = a.toNat
  others : ∀ j r, j ≠ k → rs[j]? = some r → r.state.getId ≠ a.toNat
  own : ∀ r, rs[k]? = some r → ∀ p ∈ r.queue, p.tcp.sport = a
  foreign : ∀ j r, j ≠ k → rs[j]? = some r → ∀ p ∈ r.queue, p.tcp.sport ≠ a

/-- The step returns the responder to `LISTEN`. -/
def Returns (t : Step) : Prop :=
  t.src.state ≠ .listen ∧ t.dst.state = .listen

variable {c : Config} {conf : Nat → Config} {m m' : Machine} {p : Packet} {out : List Effect}
  {rs rs' : List Responder} {a : BitVec 16} {k : Nat} {act : Act Packet}
  {es : List (Entry Machine Packet Effect)}

/-! ## Streams -/

theorem sport_inj {p : Packet} (h : (p.tcp.sport.toNat : Int) = a.toNat) : p.tcp.sport = a :=
  BitVec.eq_of_toNat_eq (by omega)

/-! ## One step -/

theorem Owns.route_eq (h : Owns a k rs) (hp : p.tcp.sport = a) : route (states rs) p = some k := by
  obtain ⟨r, hr, hid⟩ := h.bound
  refine route_of_only (m := r.state) (by simp [states, hr]) (by rw [hid, hp]) fun j m' hj hm' => ?_
  by_contra hne
  simp only [states, List.getElem?_map, Option.map_eq_some_iff] at hj
  obtain ⟨r', hr', rfl⟩ := hj
  exact h.others j r' hne hr' (by rw [hm', hp])

theorem Owns.route_ne (h : Owns a k rs) (hp : p.tcp.sport ≠ a) : route (states rs) p ≠ some k := by
  intro hk
  obtain ⟨r, hr, hid⟩ := h.bound
  obtain ⟨m, hm, hor⟩ := route_some hk
  simp only [states, List.getElem?_map, hr, Option.map_some, Option.some.injEq] at hm
  subst hm
  rcases hor with he | he
  · exact hp (sport_inj (he.symm.trans hid))
  · omega

theorem Owns.inbox_eq (h : Owns a k rs) (hs : system conf rs act = .ok (rs', es)) :
    inbox k es = (arrivals [act]).filter (·.tcp.sport = a) := by
  cases step_acts hs with
  | refused msg hr =>
    by_cases hp : msg.tcp.sport = a
    · rw [h.route_eq hp] at hr
      cases hr
    · simp [hp]
  | queued msg j hr =>
    by_cases hp : msg.tcp.sport = a
    · obtain rfl := Option.some.inj (hr.symm.trans (h.route_eq hp))
      simp [hp]
    · have hj : j ≠ k := fun hj => h.route_ne hp (hj ▸ hr)
      simp [hp, hj]
  | served => rfl

/-- The owner keeps its stream until it returns to `LISTEN`, and gets packets of its port only. -/
theorem Owns.owner (h : Owns a k rs) (hs : system conf rs act = .ok (rs', es))
    (hno : ∀ t ∈ served k es, ¬ Returns t) {r : Responder} (hr : rs'[k]? = some r) :
    r.state.getId = a.toNat ∧ ∀ p ∈ r.queue, p.tcp.sport = a := by
  obtain ⟨r₀, hr₀, hcase⟩ := step_from hs hr
  have hid : r₀.state.getId = a.toNat := by
    obtain ⟨r₁, hr₁, hid⟩ := h.bound
    obtain rfl := Option.some.inj (hr₀.symm.trans hr₁)
    exact hid
  have hown := h.own r₀ hr₀
  rcases hcase with ⟨rfl, -⟩ | ⟨msg, -, hrt, rfl, -⟩ | ⟨i, q, m', o, -, hq, hre, rfl, rfl⟩
  · exact ⟨hid, hown⟩
  · refine ⟨hid, fun p hp => ?_⟩
    rcases List.mem_append.1 hp with hp | hp
    · exact hown p hp
    · by_contra hne
      rw [List.mem_singleton.1 hp] at hne
      exact h.route_ne hne hrt
  · refine ⟨?_, fun p hp => hown p (hq ▸ .tail _ hp)⟩
    have hm := step_moves (startListen_ok hre)
    rcases hm.stream with he | ⟨he, -⟩ | ⟨hcl, rfl⟩
    · exact he.trans hid
    · have hfree : r₀.state.getId = -1 := he
      omega
    · exact (hno ⟨r₀.state, i, start, o⟩ (by simp) ⟨by simp [hcl], rfl⟩).elim

/-- The others get neither the stream nor its packets. -/
theorem Owns.other (h : Owns a k rs) (hs : system conf rs act = .ok (rs', es)) {j : Nat}
    {r : Responder} (hj : j ≠ k) (hr : rs'[j]? = some r) :
    r.state.getId ≠ a.toNat ∧ ∀ p ∈ r.queue, p.tcp.sport ≠ a := by
  obtain ⟨r₀, hr₀, hcase⟩ := step_from hs hr
  have hid := h.others j r₀ hj hr₀
  have hforeign := h.foreign j r₀ hj hr₀
  rcases hcase with ⟨rfl, -⟩ | ⟨msg, -, hrt, rfl, -⟩ | ⟨i, q, m', o, -, hq, hre, rfl, rfl⟩
  · exact ⟨hid, hforeign⟩
  · refine ⟨hid, fun p hp => ?_⟩
    rcases List.mem_append.1 hp with hp | hp
    · exact hforeign p hp
    · intro he
      rw [List.mem_singleton.1 hp] at he
      exact hj (Option.some.inj (hrt.symm.trans (h.route_eq he)))
  · rw [hq] at hforeign
    refine ⟨fun he => ?_, fun p hp => hforeign p (.tail _ hp)⟩
    have hm := step_moves (startListen_ok hre)
    rcases hm.stream with he' | ⟨-, -, he'⟩ | ⟨-, rfl⟩
    · exact hid (he'.symm.trans he)
    · exact hforeign i (.head _) (sport_inj (he'.symm.trans he))
    · have : (-1 : Int) = a.toNat := he
      omega

/-- The invariant is kept until the owner returns to `LISTEN`. -/
theorem Owns.step (h : Owns a k rs) (hs : system conf rs act = .ok (rs', es))
    (hno : ∀ t ∈ served k es, ¬ Returns t) : Owns a k rs' := by
  obtain ⟨r, hr, -⟩ := h.bound
  have hlen : k < rs'.length := length_step hs ▸ (List.getElem?_eq_some_iff.1 hr).1
  have hget := List.getElem?_eq_getElem hlen
  exact ⟨⟨rs'[k], hget, (h.owner hs hno hget).1⟩, fun j r' hj hr' => (h.other hs hj hr').1,
    fun r' hr' => (h.owner hs hno hr').2, fun j r' hj hr' => (h.other hs hj hr').2⟩

/-! ## Runs -/

variable {T : List SystemStep}

theorem Owns.run (h : Owns a k rs) (hrun : Run (system conf) rs T rs')
    (hno : ∀ t ∈ served k (outputs T), ¬ Returns t) :
    Owns a k rs' ∧ inbox k (outputs T) = (arrivals (inputs T)).filter (·.tcp.sport = a) := by
  induction hrun with
  | nil => exact ⟨h, rfl⟩
  | @snoc T rs₁ rs₂ act es _ hs ih =>
    simp only [outputs_append, outputs_cons, outputs_nil, List.append_nil, served_append,
      List.mem_append] at hno
    obtain ⟨h₁, hin⟩ := ih fun t ht => hno t (.inl ht)
    refine ⟨h₁.step hs fun t ht => hno t (.inr ht), ?_⟩
    simp only [outputs_append, outputs_cons, outputs_nil, List.append_nil, inbox_append,
      inputs_append, inputs_cons, inputs_nil, arrivals_append, List.filter_append, hin,
      h₁.inbox_eq hs]

/-- **Stable ownership**, in every run up to the owner's return to `LISTEN`. -/
theorem owner_stable (conf : Nat → Config) {r : Responder} (h : Owns a k rs) (hr : rs[k]? = some r)
    (hrun : Run (system conf) rs T rs') (hno : ∀ t ∈ served k (outputs T), ¬ Returns t) :
    Owns a k rs' ∧
    (∀ t ∈ T, ∀ p, t.inp = .arrive p → p.tcp.sport = a → t.dst = push t.src k p) ∧
    ∃ r', rs'[k]? = some r' ∧
      r.queue ++ (arrivals (inputs T)).filter (·.tcp.sport = a) =
        inputs (served k (outputs T)) ++ r'.queue ∧
      exec (conf k).step r.state (inputs (served k (outputs T))) = .ok (served k (outputs T)) := by
  obtain ⟨h', hin⟩ := h.run hrun hno
  refine ⟨h', fun t ht p hp hpa => ?_, ?_⟩
  · obtain ⟨T₁, T₂, rfl, hrun₁, hs, -⟩ := hrun.mem ht
    have h₁ := (h.run hrun₁ fun u hu => hno u (by simp [hu])).1
    have harr := system_arrive conf t.src p
    rw [hp, harr] at hs
    have hpush : (forwardPacket t.src p).1 = push t.src k p := by
      rw [forwardPacket_eq, h₁.route_eq hpa]
    rw [← hpush]
    exact (congrArg Prod.fst (Except.ok.inj hs)).symm
  · obtain ⟨r', hr', hq, hal⟩ := system_alone hrun hr
    rw [hin] at hq
    exact ⟨r', hr', hq, hal.exec_eq⟩

/-- A responder bound to port 40000, and a new one. -/
def ownedPair : List Responder :=
  [⟨start.opened {} ((sampleClient 40000).seg TCP.SYN 1000 0 []), []⟩, ⟨start, []⟩]

/-- The owner's client acknowledges while another client opens a connection. -/
def ownedActs : List (Act Packet) :=
  [.arrive ((sampleClient 40001).seg TCP.SYN 5 0 []),
    .arrive ((sampleClient 40000).seg TCP.ACK 1001 31332 []), .serve 0, .serve 1]

def ownedRun : List SystemStep :=
  (exec (system fun _ => {}) ownedPair ownedActs).toOption.getD []

theorem ownedPair_owns : Owns 40000 0 ownedPair := by
  refine ⟨⟨_, rfl, rfl⟩, fun j r hj hr => ?_, fun r hr p hp => ?_, fun j r hj hr p hp => ?_⟩
  · match j with
    | 0 => exact absurd rfl hj
    | 1 => cases hr; decide
    | j + 2 => cases hr
  · cases hr
    cases hp
  · match j with
    | 0 => exact absurd rfl hj
    | 1 => cases hr; cases hp
    | j + 2 => cases hr

theorem owner_stable_pair :
    Owns 40000 0 (final ownedPair ownedRun) ∧
    (∀ t ∈ ownedRun, ∀ p, t.inp = .arrive p → p.tcp.sport = 40000 → t.dst = push t.src 0 p) ∧
    ∃ r', (final ownedPair ownedRun)[0]? = some r' ∧
      [] ++ (arrivals (inputs ownedRun)).filter (·.tcp.sport = 40000) =
        inputs (served 0 (outputs ownedRun)) ++ r'.queue ∧
      exec ({} : Config).step (start.opened {} ((sampleClient 40000).seg TCP.SYN 1000 0 []))
        (inputs (served 0 (outputs ownedRun))) = .ok (served 0 (outputs ownedRun)) := by
  have he : exec (system fun _ => {}) ownedPair ownedActs = .ok ownedRun := rfl
  have hstate : ∀ t ∈ served 0 (outputs ownedRun), t.dst.state ≠ .listen := by decide
  exact owner_stable (fun _ => {}) ownedPair_owns rfl (Run.of_exec he).1
    fun t ht hret => hstate t ht hret.2

end Integratio
