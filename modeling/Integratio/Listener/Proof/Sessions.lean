import Integratio.Listener.Proof.Threads
import Integratio.Responder.Proof.AfterSyn

/-!
# A session among others

`threads_session`: once a responder has answered a client's SYN, the client is served as if it were
alone, in every interleaving of the threads and whatever is sniffed from other ports.
-/

namespace Integratio

open Actors Transducer Machine

variable {c : Config} {conf : Nat → Config} {m : Machine} {p : Packet} {out : List Effect}
  {s s' : Threads} {T : List ThreadStep} {k : Nat} {r : Responder} {client : Client} {sc : Script}
  {T₀ : List Step} {port : BitVec 16}

/-- The run `T₀` of a responder over a session returns to `LISTEN` at its end only. -/
def ReturnsLast (T₀ : List Step) : Prop := ∀ T₁ t T₂, T₀ = T₁ ++ t :: T₂ → Returns t → T₂ = []

/-- What precedes the end of the session does not return to `LISTEN`. -/
theorem ReturnsLast.of_prefix {L : List Step} (h : ReturnsLast T₀) (hL : L <+: T₀)
    (hlt : L.length < T₀.length) : ∀ t ∈ L, ¬ Returns t := by
  intro t ht hret
  obtain ⟨A, B, rfl⟩ := List.append_of_mem ht
  obtain ⟨C, rfl⟩ := hL
  have hnil := h A t (B ++ C) (by simp) hret
  simp only [List.append_eq_nil_iff] at hnil
  simp [hnil.1, hnil.2] at hlt

/-- While the packets of a port are the beginning of a session, their responder reads them as the
session's run does, until the session is over. -/
theorem Threads.Owns.session (h : s.Owns port k) (hr : s.system[k]? = some r)
    (hT₀ : Run (conf k).step r.state T₀ start) (hlast : ReturnsLast T₀)
    (hrun : Run (threads conf) s T s')
    (hp : r.queue ++ (dispatched (outputs T)).filter (·.tcp.sport = port) <+: inputs T₀) :
    T₀ <+: served k (outputs T) ∨
      served k (outputs T) <+: T₀ ∧ (served k (outputs T)).length < T₀.length := by
  -- a run that is a beginning of the other is all of it or shorter
  have hor : ∀ L, L <+: T₀ → T₀ <+: L ∨ L <+: T₀ ∧ L.length < T₀.length := by
    intro L hL
    rcases Nat.lt_or_ge L.length T₀.length with hlt | hge
    · exact .inr ⟨hL, hlt⟩
    · exact .inl (hL.eq_of_length_le hge ▸ List.prefix_refl L)
  induction hrun with
  | nil => exact hor _ List.nil_prefix
  | @snoc T s₁ s₂ a es hrun hs ih =>
    simp only [outputs_append, outputs_cons, outputs_nil, List.append_nil, served_append] at hp ⊢
    have hp₁ : r.queue ++ (dispatched (outputs T)).filter (·.tcp.sport = port) <+: inputs T₀ := by
      refine List.IsPrefix.trans ?_ hp
      rw [dispatched, dispatched, List.map_append, arrivals_append, List.filter_append,
        ← List.append_assoc]
      exact List.prefix_append _ _
    rcases ih hp₁ with ih | ⟨ih, hlt⟩
    · exact .inl (ih.trans (List.prefix_append _ _))
    -- the session is not over, so the responder still owns the port
    obtain ⟨-, hin⟩ := h.run hrun (hlast.of_prefix ih hlt)
    obtain hes | ⟨t, rfl⟩ : served k es = [] ∨ ∃ t, es = [.served k t] := by
      rcases turn_system hs with ⟨rfl, -⟩ | ⟨e, rfl, -⟩
      · exact .inl rfl
      · cases e with
        | routed => exact .inl rfl
        | served j t =>
          by_cases hj : j = k
          · exact .inr ⟨t, by rw [hj]⟩
          · exact .inl (by simp [hj])
    · rw [hes, List.append_nil]
      exact .inr ⟨ih, hlt⟩
    · obtain ⟨r₂, -, hq, hal⟩ := threads_alone (.snoc hrun hs) hr
      have hv : served k [Entry.served k t] = [t] := by simp
      simp only [outputs_append, outputs_cons, outputs_nil, List.append_nil, inbox_append,
        inbox_served, inbox_nil, served_append, hin, hv] at hq hal
      rw [hv]
      refine hor _ (hal.prefix_of_inputs hT₀ (List.IsPrefix.trans ?_ hp₁))
      rw [hq]
      exact List.prefix_append _ _

/-- **A session among others** (module doc): of the packets that the responder processes, the first
are those of the session, and it sends their replies; and until the session is over the port stays
its own, and the next packet is read without a failure. -/
theorem threads_session (hm : (conf k).Reachable m) (hl : m.state = .listen)
    (hsyn : (conf k).step m (client.seg TCP.SYN sc.isn sc.ackOfSyn []) = .ok (r.state, out))
    (hrounds : ∀ x ∈ sc.rounds, x.request ≠ [] ∧ x.request.length < 2 ^ 32)
    (hlt : r.state.tcpS.seq.toNat + 2 + responseBytes (conf k) sc.rounds < 2 ^ 32)
    (hown : s.Owns client.port k) (hr : s.system[k]? = some r) (hrun : Run (threads conf) s T s')
    (hp : r.queue ++ (dispatched (outputs T)).filter (·.tcp.sport = client.port) <+:
      client.afterSyn (conf k) sc r.state.tcpS.seq) :
    ∃ L L', served k (outputs T) = L ++ L' ∧
      inputs L <+: client.afterSyn (conf k) sc r.state.tcpS.seq ∧
      sent (outputs L) <+: (client.replies (conf k) sc r.state.tcpS.seq).tail ∧
      (inputs L = client.afterSyn (conf k) sc r.state.tcpS.seq ∧
          sent (outputs L) = (client.replies (conf k) sc r.state.tcpS.seq).tail ∨
        L' = [] ∧ s'.Owns client.port k ∧ ∃ r', s'.system[k]? = some r' ∧
          r.queue ++ (dispatched (outputs T)).filter (·.tcp.sport = client.port) =
            inputs L ++ r'.queue ∧
          ∀ p ∈ r'.queue.head?, ∃ x, (conf k).startListen r'.state p = .ok x) := by
  obtain ⟨T₀, hT₀, hi, ho, hlast⟩ := (hm.listening hl).afterSyn hsyn hrounds hlt
  rw [← hi] at hp ⊢
  rw [← ho]
  have hlast' : ReturnsLast T₀ := fun T₁ t T₂ he hret => hlast T₁ t T₂ he hret.1 hret.2
  rcases hown.session hr hT₀ hlast' hrun hp with ⟨L', hL'⟩ | ⟨hpre, hlen⟩
  · exact ⟨T₀, L', hL'.symm, List.prefix_refl _, List.prefix_refl _, .inl ⟨rfl, rfl⟩⟩
  · obtain ⟨hown', hin⟩ := hown.run hrun (hlast'.of_prefix hpre hlen)
    obtain ⟨r', hr', hq, hal⟩ := threads_alone hrun hr
    rw [hin] at hq
    refine ⟨_, [], (List.append_nil _).symm, hpre.map Transition.inp, ?_,
      .inr ⟨rfl, hown', r', hr', hq, fun p hhead => ?_⟩⟩
    · obtain ⟨rest, hrest⟩ := hpre
      rw [← hrest, outputs_append, sent_append]
      exact List.prefix_append _ _
    · -- the next packet is the next one of the session
      obtain ⟨q, hq'⟩ := List.head?_eq_some_iff.1 hhead
      obtain ⟨rest, rfl⟩ := hpre
      cases rest with
      | nil => simp at hlen
      | cons t rest =>
        obtain ⟨hal', hstep, -⟩ := hT₀.split_cons
        rw [hq, hq', inputs_append, List.prefix_append_right_inj, inputs_cons,
          List.cons_prefix_cons] at hp
        rw [hal.unique hal', hp.1]
        exact ⟨_, startListen_of_step hstep⟩

/-- A session with one request. -/
def oneRound : Script :=
  { isn := 1000, ackOfSyn := 0, synRepeats := 0, ackRepeats := 0, rounds := [⟨[71, 49], 0, 0⟩]
    finRepeats := 0 }

/-- The session, after its SYN, beside a client of responder 1. -/
def sessionActs : List ThreadAct :=
  [.sniff ((sampleClient 40000).seg TCP.ACK 1001 31332 []), .look, .process 1, .look,
    .sniff ((sampleClient 40000).seg (TCP.PSH ||| TCP.ACK) 1001 31332 [71, 49]), .remove 0, .look,
    .look, .process 0, .remove 0,
    .sniff ((sampleClient 40001).seg TCP.ACK 6 31332 []), .look, .look, .look, .process 0,
    .sniff ((sampleClient 40000).seg (TCP.FIN ||| TCP.ACK) 1003 31334 []), .look, .look,
    .remove 1, .remove 0, .process 0, .process 1,
    .sniff ((sampleClient 40000).seg TCP.ACK 1004 31335 []), .look, .look, .remove 0, .process 0]

def sessionRun : List ThreadStep :=
  (exec (threads fun _ => echo) racing sessionActs).toOption.getD []

theorem threads_session_racing :
    ∃ L L', served 0 (outputs sessionRun) = L ++ L' ∧
      inputs L <+: (sampleClient 40000).afterSyn echo oneRound 31331 ∧
      sent (outputs L) <+: ((sampleClient 40000).replies echo oneRound 31331).tail ∧
      (inputs L = (sampleClient 40000).afterSyn echo oneRound 31331 ∧
          sent (outputs L) = ((sampleClient 40000).replies echo oneRound 31331).tail ∨
        L' = [] ∧ (final racing sessionRun).Owns 40000 0 ∧
          ∃ r', (final racing sessionRun).system[0]? = some r' ∧
          [] ++ (dispatched (outputs sessionRun)).filter (·.tcp.sport = 40000) =
            inputs L ++ r'.queue ∧
          ∀ p ∈ r'.queue.head?, ∃ x, echo.startListen r'.state p = .ok x) := by
  have he : exec (threads fun _ => echo) racing sessionActs = .ok sessionRun := rfl
  have hsyn := start_listening.opens (c := echo)
    (q := (sampleClient 40000).seg TCP.SYN 1000 0 []) rfl
  have hseq : (start.opened echo ((sampleClient 40000).seg TCP.SYN 1000 0 [])).tcpS.seq = 31331 :=
    rfl
  have hr : racing.system[0]? =
      some ⟨start.opened echo ((sampleClient 40000).seg TCP.SYN 1000 0 []), []⟩ := rfl
  have hrounds : ∀ x ∈ oneRound.rounds, x.request ≠ [] ∧ x.request.length < 2 ^ 32 := by decide
  have hp : [] ++ (dispatched (outputs sessionRun)).filter (·.tcp.sport = 40000) <+:
      (sampleClient 40000).afterSyn echo oneRound 31331 := by decide
  have hlt : (31331 : BitVec 32).toNat + 2 + responseBytes echo oneRound.rounds < 2 ^ 32 := by
    decide
  rw [← hseq] at hp hlt ⊢
  exact @threads_session (fun _ => echo) start _ racing _ sessionRun 0
    ⟨start.opened echo ((sampleClient 40000).seg TCP.SYN 1000 0 []), []⟩ (sampleClient 40000)
    oneRound (.refl _) rfl hsyn.step hrounds hlt racing_owns hr (Run.of_exec he).1 hp

end Integratio
