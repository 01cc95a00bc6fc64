import Integratio.Listener.System
import Integratio.Responder.Client
import Integratio.Responder.Proof.Inv

/-!
# No stream has two responders

A port is claimed by the responder whose stream it is and by every responder in whose queue a SYN of
that port waits. `exclusive`: while each arriving SYN finds no other SYN of its port in the queue of
a responder it does not go to, a port is claimed once, so no two responders have the same stream. A
responder only takes a stream from a SYN of its own queue (`Moves.takes`), so processing adds no
claim; an arrival adds one only to the responder that is picked.

`stream_twice` is the run in which a SYN waits behind a whole other connection and comes again.
-/

namespace Integratio

open Actors Transducer Machine

/-- No two responders have the same stream. -/
def Exclusive (rs : List Responder) : Prop :=
  ∀ (j k : Nat) (r r' : Responder), rs[j]? = some r → rs[k]? = some r' → j ≠ k →
    r.state.getId ≠ -1 → r.state.getId ≠ r'.state.getId

/-- No SYN of the arriving SYN's port waits for a responder it does not go to. -/
def NotWaiting (t : SystemStep) : Prop :=
  ∀ p ∈ arrivals [t.inp], p.tcp.flags = TCP.SYN → ∀ k ∈ route (states t.src) p,
    ∀ r ∈ t.src.eraseIdx k, ∀ q ∈ r.queue, q.tcp.flags = TCP.SYN → q.tcp.sport ≠ p.tcp.sport

/-- The responder has the stream `a`, or a SYN of that port to process. -/
def Claims (a : BitVec 16) (r : Responder) : Prop :=
  r.state.getId = a.toNat ∨ ∃ q ∈ r.queue, q.tcp.flags = TCP.SYN ∧ q.tcp.sport = a

/-- Every port is claimed once. -/
def ClaimedOnce (rs : List Responder) : Prop :=
  ∀ (a : BitVec 16) (j k : Nat) (r r' : Responder), rs[j]? = some r → rs[k]? = some r' →
    Claims a r → Claims a r' → j = k

variable {c : Config} {conf : Nat → Config} {m m' : Machine} {p : Packet} {out : List Effect}
  {rs rs' : List Responder} {r : Responder} {a : BitVec 16} {n k : Nat} {act : Act Packet}
  {es : List (Entry Machine Packet Effect)} {T : List SystemStep}

/-! ## Claims -/

theorem Moves.takes (hm : Moves c m p m' out) (ha : m'.getId = a.toNat) :
    m.getId = a.toNat ∨ p.tcp.flags = TCP.SYN ∧ p.tcp.sport = a := by
  rcases hm.stream with he | ⟨-, hfl, he⟩ | ⟨-, rfl⟩
  · exact .inl (he.symm.trans ha)
  · have hid : (p.tcp.sport.toNat : Int) = a.toNat := he.symm.trans ha
    exact .inr ⟨hfl, BitVec.eq_of_toNat_eq (by omega)⟩
  · have hid : (-1 : Int) = a.toNat := ha
    omega

theorem Claims.of_served {i : Packet} {q : List Packet} (hm : Moves c m i m' out)
    (h : Claims a ⟨m', q⟩) : Claims a ⟨m, i :: q⟩ := by
  rcases h with hid | ⟨p, hp, hfl, hport⟩
  · rcases hm.takes hid with hid | ⟨hfl, hport⟩
    · exact .inl hid
    · exact .inr ⟨i, .head _, hfl, hport⟩
  · exact .inr ⟨p, .tail _ hp, hfl, hport⟩

theorem Claims.of_queued (h : Claims a { r with queue := r.queue ++ [p] }) :
    Claims a r ∨ p.tcp.flags = TCP.SYN ∧ p.tcp.sport = a := by
  rcases h with hid | ⟨q, hq, hfl, hport⟩
  · exact .inl (.inl hid)
  · rcases List.mem_append.1 hq with hq | hq
    · exact .inl (.inr ⟨q, hq, hfl, hport⟩)
    · rw [List.mem_singleton.1 hq] at hfl hport
      exact .inr ⟨hfl, hport⟩

/-- A claim after a step was there before, or is that of the arriving SYN. -/
theorem claims_step (hs : system conf rs act = .ok (rs', es)) (hr : rs'[k]? = some r)
    (h : Claims a r) :
    (∃ r₀, rs[k]? = some r₀ ∧ Claims a r₀) ∨
      ∃ p, act = .arrive p ∧ route (states rs) p = some k ∧ p.tcp.flags = TCP.SYN ∧
        p.tcp.sport = a := by
  obtain ⟨r₀, hr₀, hcase⟩ := step_from hs hr
  rcases hcase with ⟨rfl, -⟩ | ⟨p, rfl, hrt, rfl, -⟩ | ⟨i, q, m', o, -, hq, hre, rfl, -⟩
  · exact .inl ⟨r, hr₀, h⟩
  · rcases h.of_queued with h | ⟨hfl, hport⟩
    · exact .inl ⟨r₀, hr₀, h⟩
    · exact .inr ⟨p, rfl, hrt, hfl, hport⟩
  · refine .inl ⟨r₀, hr₀, ?_⟩
    have h' := h.of_served (step_moves (startListen_ok hre))
    rw [← hq] at h'
    exact h'

theorem ClaimedOnce.picked (h : ClaimedOnce rs) {j : Nat} (hrt : route (states rs) p = some k)
    (hno : ∀ q ∈ r.queue, q.tcp.flags = TCP.SYN → q.tcp.sport ≠ p.tcp.sport)
    (hj : rs[j]? = some r) (hc : Claims p.tcp.sport r) : j = k := by
  rcases hc with hid | ⟨q, hq, hfl, hport⟩
  · obtain ⟨m, hm, hid'⟩ := route_stream hrt
      ⟨r.state, List.mem_map_of_mem (List.mem_of_getElem? hj), hid⟩
    simp only [states, List.getElem?_map, Option.map_eq_some_iff] at hm
    obtain ⟨r', hk, rfl⟩ := hm
    exact h p.tcp.sport j k r r' hj hk (.inl hid) (.inl hid')
  · exact (hno q hq hfl hport).elim

theorem ClaimedOnce.step {t : SystemStep} (h : ClaimedOnce t.src)
    (hs : system conf t.src t.inp = .ok (t.dst, t.out)) (hno : NotWaiting t) :
    ClaimedOnce t.dst := by
  intro a j k r r' hj hk hc hc'
  by_contra hne
  -- a claim of the arriving SYN is against no other claim of its port
  have hnew : ∀ (j k : Nat) (r : Responder) (p : Packet), t.dst[j]? = some r → Claims a r →
      t.inp = .arrive p → route (states t.src) p = some k → p.tcp.flags = TCP.SYN →
      p.tcp.sport = a → j = k := by
    intro j k r p hj hc hp hrt hfl hport
    subst hport
    by_contra hjk
    rcases claims_step hs hj hc with ⟨r₀, hr₀, hc₀⟩ | ⟨p', hp', hrt', -⟩
    · refine hjk (h.picked hrt (fun q hq hq' => ?_) hr₀ hc₀)
      have hmem : r₀ ∈ t.src.eraseIdx k := List.mem_eraseIdx_iff_getElem?.2 ⟨j, hjk, hr₀⟩
      exact hno p (by simp [hp]) hfl k hrt r₀ hmem q hq hq'
    · obtain rfl : p = p' := by simpa [hp] using hp'
      exact hjk (Option.some.inj (hrt'.symm.trans hrt))
  rcases claims_step hs hj hc with ⟨r₀, hr₀, hc₀⟩ | ⟨p, hp, hrt, hfl, hport⟩
  · rcases claims_step hs hk hc' with ⟨r₁, hr₁, hc₁⟩ | ⟨p, hp, hrt, hfl, hport⟩
    · exact hne (h a j k r₀ r₁ hr₀ hr₁ hc₀ hc₁)
    · exact hne (hnew j k r p hj hc hp hrt hfl hport)
  · exact hne (hnew k j r' p hk hc' hp hrt hfl hport).symm

/-! ## Runs -/

theorem run_claimedOnce (h : Run (system conf) (fresh n) T rs) (hno : ∀ t ∈ T, NotWaiting t) :
    ClaimedOnce rs := by
  induction h with
  | nil =>
    intro a j k r r' hj _ hc
    obtain rfl := (List.mem_replicate.1 (List.mem_of_getElem? hj)).2
    rcases hc with hid | ⟨q, hq, -⟩
    · have : (-1 : Int) = a.toNat := hid
      omega
    · cases hq
  | snoc _ hs ih =>
    have h := ih fun t ht => hno t (by simp [ht])
    exact ClaimedOnce.step (t := ⟨_, _, _, _⟩) h hs (hno _ (by simp))

/-- **Exclusive ownership**, in every state of every run in which a SYN does not come again while
another responder still has to process it. -/
theorem exclusive (conf : Nat → Config) (n : Nat) (h : Run (system conf) (fresh n) T rs)
    (hno : ∀ t ∈ T, NotWaiting t) : Exclusive rs := by
  intro j k r r' hj hk hne hid he
  have hph : Listening r.state ∨ ∃ q, Bound r.state q :=
    Config.Reachable.phase ⟨_, (fresh_alone h hj).2⟩
  rcases hph with hL | ⟨q, hb⟩
  · exact hid hL.stream
  · exact hne (run_claimedOnce h hno q.tcp.sport j k r r' hj hk (.inl hb.stream)
      (.inl (he.symm.trans hb.stream)))

/-! ## A stream with two responders -/

instance (t : SystemStep) : Decidable (NotWaiting t) :=
  inferInstanceAs (Decidable (∀ p ∈ arrivals [t.inp], p.tcp.flags = TCP.SYN →
    ∀ k ∈ route (states t.src) p, ∀ r ∈ t.src.eraseIdx k, ∀ q ∈ r.queue, q.tcp.flags = TCP.SYN →
      q.tcp.sport ≠ p.tcp.sport))

/-- Two clients, the second of which sends its SYN twice. -/
def synAgain : List (Act Packet) :=
  [.arrive ((sampleClient 40000).seg TCP.SYN 1000 0 []), .serve 0,
    .arrive ((sampleClient 40001).seg TCP.SYN 5 0 []), .serve 1,
    .arrive ((sampleClient 40001).seg TCP.SYN 5 0 []), .serve 1]

def synAgainRun : List SystemStep :=
  (exec (system fun _ => {}) (fresh 2) synAgain).toOption.getD []

theorem exclusive_synAgain : Exclusive (final (fresh 2) synAgainRun) := by
  have he : exec (system fun _ => {}) (fresh 2) synAgain = .ok synAgainRun := rfl
  exact exclusive (fun _ => {}) 2 (Run.of_exec he).1 (by decide)

/-- A whole connection and the SYN of the next one wait for one responder. When it has taken the
first SYN, the last one comes again. -/
def synBehind : List (Act Packet) :=
  let k := sampleClient 40000
  let l := sampleClient 40001
  [.arrive (k.seg TCP.SYN 1000 0 []), .arrive (k.seg TCP.ACK 1001 31332 []),
    .arrive (k.seg (TCP.FIN ||| TCP.ACK) 1001 31332 []), .arrive (k.seg TCP.ACK 1002 31333 []),
    .arrive (l.seg TCP.SYN 5 0 []), .serve 0, .arrive (l.seg TCP.SYN 5 0 []), .serve 1,
    .serve 0, .serve 0, .serve 0, .serve 0]

def synBehindRun : List SystemStep :=
  (exec (system fun _ => {}) (fresh 2) synBehind).toOption.getD []

/-- **Two responders can have the same stream.** -/
theorem stream_twice :
    ¬ ∀ (conf : Nat → Config) (n : Nat) (T : List SystemStep) (rs : List Responder),
      Run (system conf) (fresh n) T rs → Exclusive rs := by
  intro h
  have he : exec (system fun _ => {}) (fresh 2) synBehind = .ok synBehindRun := rfl
  have hex := h (fun _ => {}) 2 synBehindRun _ (Run.of_exec he).1
  exact hex 0 1 _ _ rfl rfl (by decide) (by decide) (by decide)

end Integratio
