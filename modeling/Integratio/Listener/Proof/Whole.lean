import Integratio.Listener.Proof.Sessions
import Integratio.Listener.Proof.Settles

/-!
# A session in the whole program

`program_session`: when the program comes to rest, the session of a client whose SYN was answered
has been served, whatever else was sniffed and however the threads went on, within the queues too,
unless another responder has ended the process.
-/

namespace Integratio

open Actors Transducer Machine

variable {conf : Nat → Config} {m : Machine} {out : List Effect} {s s' : Program}
  {T : List ProgramStep} {k n : Nat} {r : Responder} {client : Client} {sc : Script}

/-- **At rest a session has been served** (module doc). -/
theorem program_session (hreach : Reach (program conf) (freshProgram n) s)
    (hm : (conf k).Reachable m) (hl : m.state = .listen)
    (hsyn : (conf k).step m (client.seg TCP.SYN sc.isn sc.ackOfSyn []) = .ok (r.state, out))
    (hrounds : ∀ x ∈ sc.rounds, x.request ≠ [] ∧ x.request.length < 2 ^ 32)
    (hlt : r.state.tcpS.seq.toNat + 2 + responseBytes (conf k) sc.rounds < 2 ^ 32)
    (hown : s.view.Owns client.port k) (hr : s.view.system[k]? = some r)
    (hrun : Run (program conf) s T s') (hq : s'.Quiet conf)
    (hp : r.queue ++
        (s.view.dispatcher.scanned ++ sniffs (inputs T)).filter (·.tcp.sport = client.port) =
      client.afterSyn (conf k) sc r.state.tcpS.seq) :
    (∃ j, j ≠ k ∧ s'.ended = some j) ∨
    ∃ L L', served k (outputs T) = L ++ L' ∧
      inputs L = client.afterSyn (conf k) sc r.state.tcpS.seq ∧
      sent (outputs L) = (client.replies (conf k) sc r.state.tcpS.seq).tail := by
  obtain ⟨T₁, hT₁⟩ := hreach
  have hwf : s.Wf := (Program.Wf.fresh n).run hT₁
  have hwf' : s'.Wf := hwf.run hrun
  have hblames : s'.Blames conf := Program.Blames.run (fun _ hk => by cases hk) (hT₁.append hrun)
  obtain ⟨T', hT', ho, hi⟩ := program_view hwf hrun
  have hdel := dispatched_run hT'
  rw [ho, hi] at hdel
  obtain ⟨T₀, hT₀, hi₀, ho₀, hlast⟩ := (hm.listening hl).afterSyn hsyn hrounds hlt
  rw [hdel, List.filter_append, ← List.append_assoc, ← ho, ← hi₀] at hp
  rw [← hi₀, ← ho₀, ← ho]
  have hlast' : ReturnsLast T₀ := fun T₁ t T₂ he hret => hlast T₁ t T₂ he hret.1 hret.2
  rcases hown.session hr hT₀ hlast' hT' ⟨_, hp⟩ with ⟨L', hL'⟩ | ⟨hpre, hlen⟩
  · exact .inr ⟨T₀, L', hL'.symm, rfl, rfl⟩
  · -- the responder has processed the beginning of the session, and the rest goes on with its queue
    obtain ⟨-, hin⟩ := hown.run hT' (hlast'.of_prefix hpre hlen)
    obtain ⟨r', hr', hqueue, hal⟩ := threads_alone hT' hr
    rw [hin] at hqueue
    obtain ⟨U, rfl⟩ := hpre
    rw [hqueue, inputs_append, List.append_assoc, List.append_cancel_left_eq] at hp
    cases U with
    | nil => simp at hlen
    | cons t U =>
      obtain ⟨hal', hstep, -⟩ := hT₀.split_cons
      cases hend : s'.ended with
      | none =>
        -- at rest, all that was sniffed was dispatched, and nothing is left in the queue
        rw [hq.responder hwf' hend hr', hq.sniffing hwf' hend] at hp
        cases hp
      | some j =>
        refine .inl ⟨j, ?_, rfl⟩
        rintro rfl
        -- the next packet of the session does not end the process
        obtain ⟨p, q, e, hcons, he⟩ := hblames.responder hend hr'
        rw [hcons, inputs_cons, List.cons_append, List.cons.injEq] at hp
        rw [hal.unique hal', hp.1, startListen_of_step hstep] at he
        cases he

/-- What `forwardPacket` does with a packet of the stream of responder 0 while nothing sleeps. -/
def forwards (pkt : Packet) : List ProgramAct :=
  [.sniff pkt, .look, .queue 0 0 (.call (.add pkt)), .queue 0 0 .go, .queue 0 0 .go,
    .queue 0 0 .go, .queue 0 0 (.signal none), .queue 0 0 .go]

/-- The SYN of a client has been answered. -/
def answeredRun : List ProgramStep :=
  (exec (program fun _ => echo) (freshProgram 1) arrivalActs).toOption.getD []

/-- The rest of its session is sniffed before the responder's thread goes on. -/
def roundRun : List ProgramStep :=
  (exec (program fun _ => echo) (final (freshProgram 1) answeredRun)
    (((sampleClient 40000).afterSyn echo oneRound 31331).flatMap forwards)).toOption.getD []

/-- The responder that has answered it. -/
def answered : Responder := ⟨start.opened echo ((sampleClient 40000).seg TCP.SYN 1000 0 []), []⟩

theorem answered_system : (final (freshProgram 1) answeredRun).view.system = [answered] := rfl

theorem answered_owns : (final (freshProgram 1) answeredRun).view.Owns 40000 0 := by
  have hd : (final (freshProgram 1) answeredRun).view.dispatcher = .sniffing := rfl
  refine ⟨?_, by simp [hd], by simp [hd]⟩
  rw [answered_system]
  refine ⟨⟨answered, rfl, rfl⟩, fun j r hj hr => ?_, fun r hr p hp => ?_, fun j r hj hr p hp => ?_⟩
  · cases j with
    | zero => exact absurd rfl hj
    | succ j => cases hr
  · cases hr
    cases hp
  · cases j with
    | zero => exact absurd rfl hj
    | succ j => cases hr

theorem program_session_round :
    ∃ T s' L L', Run (program fun _ => echo) (final (freshProgram 1) answeredRun) T s' ∧
      served 0 (outputs T) = L ++ L' ∧
      inputs L = (sampleClient 40000).afterSyn echo oneRound 31331 ∧
      sent (outputs L) = ((sampleClient 40000).replies echo oneRound 31331).tail := by
  have hanswered : exec (program fun _ => echo) (freshProgram 1) arrivalActs = .ok answeredRun :=
    rfl
  have hround : exec (program fun _ => echo) (final (freshProgram 1) answeredRun)
      (((sampleClient 40000).afterSyn echo oneRound 31331).flatMap forwards) = .ok roundRun := rfl
  have hrun := (Run.of_exec hanswered).1
  obtain ⟨hrun₁, hin⟩ := Run.of_exec hround
  obtain ⟨T, s', hrun₂, hown, hq⟩ := exists_quiet (((Program.Wf.fresh 1).run hrun).run hrun₁)
  have hp : answered.queue ++ ((final (freshProgram 1) answeredRun).view.dispatcher.scanned ++
      sniffs (inputs (roundRun ++ T))).filter (·.tcp.sport = (sampleClient 40000).port) =
      (sampleClient 40000).afterSyn echo oneRound answered.state.tcpS.seq := by
    rw [inputs_append, sniffs_append, sniffs_own hown, hin]
    decide
  have hsyn := start_listening.opens (c := echo)
    (q := (sampleClient 40000).seg TCP.SYN 1000 0 []) rfl
  have hrounds : ∀ x ∈ oneRound.rounds, x.request ≠ [] ∧ x.request.length < 2 ^ 32 := by decide
  have hlt : answered.state.tcpS.seq.toNat + 2 + responseBytes echo oneRound.rounds < 2 ^ 32 := by
    decide
  have hr : (final (freshProgram 1) answeredRun).view.system[0]? = some answered := by
    rw [answered_system]
    rfl
  rcases @program_session (fun _ => echo) start _ _ s' _ 0 1 answered
    (sampleClient 40000) oneRound ⟨_, hrun⟩ (.refl _) rfl hsyn.step hrounds hlt answered_owns hr
    (hrun₁.append hrun₂) hq hp with ⟨j, hj, hend⟩ | ⟨L, L', h⟩
  · -- there is no other responder
    have hall := (hrun.append hrun₁).append hrun₂
    obtain ⟨_, _, _, _, hk, -⟩ := Program.Blames.run (fun _ hk => by cases hk) hall j hend
    have hlen : s'.responders.length = 1 := length_programs hall
    have hlt := (List.getElem?_eq_some_iff.1 hk).1
    omega
  · exact ⟨_, s', L, L', hrun₁.append hrun₂, h⟩

end Integratio
