import Integratio.Listener.System
import Integratio.Responder.Client

/-!
# The schedule of the responders' threads

`schedule_independent`: what the responders do with the packets that wait in their queues does not
depend on the order in which their threads run. This is not so for packets that still arrive, since
the dispatcher looks at the streams.
-/

namespace Integratio

open Actors Transducer Machine

variable {conf : Nat → Config} {rs : List Responder}

/-- **The schedule of the threads does not matter**: if each responder alone can process its queue,
then every order of turns can be completed, and ends after as many turns in the same state; and each
responder does what it does alone. -/
theorem schedule_independent
    (h : ∀ k r, rs[k]? = some r → ∃ L, exec (conf k).step r.state r.queue = .ok L) :
    ∃ rs', (∀ r ∈ rs', r.queue = []) ∧
      ∀ U rs₁, Run (system conf) rs U rs₁ → ServesOnly U →
        ∃ V, Run (system conf) rs₁ V rs' ∧ ServesOnly V ∧ U.length + V.length = backlog rs ∧
          ∀ k r, rs[k]? = some r →
            exec (conf k).step r.state r.queue = .ok (served k (outputs (U ++ V))) := by
  have hreact : ∀ k r, rs[k]? = some r →
      ∃ L m, Run (conf k).startListen r.state L m ∧ inputs L = r.queue := by
    intro k r hr
    obtain ⟨L, hL⟩ := h k r hr
    obtain ⟨hrun, hi⟩ := Run.of_exec hL
    exact ⟨L, _, hrun.of_ok fun _ _ _ hs => startListen_of_step hs, hi⟩
  obtain ⟨T, rs', hT, hsT, hb⟩ := ServesOnly.complete hreact (T := []) rfl (.nil (s := rs))
  refine ⟨rs', backlog_eq_zero.1 hb, fun U rs₁ hU hsU => ?_⟩
  obtain ⟨V, cs, hV, hsV, hc⟩ := hsU.complete hreact hU
  have hUV := hU.append hV
  have hsUV := servesOnly_append.2 ⟨hsU, hsV⟩
  obtain ⟨rfl, -⟩ := hsT.unique hsUV hT hUV hb hc
  have hlen := hsUV.turns hUV
  rw [List.length_append] at hlen
  refine ⟨V, hV, hsV, by omega, fun k r hr => ?_⟩
  obtain ⟨r', hr', hq, hal⟩ := hsUV.alone hUV hr
  rw [hq, backlog_eq_zero.1 hb r' (List.mem_of_getElem? hr'), List.append_nil]
  exact (hal.of_ok fun _ _ _ hs => startListen_ok hs).exec_eq

/-- A handshake waits at the first of two responders, a SYN at the second. -/
def waitingPair : List Responder :=
  [⟨start, handshake⟩, ⟨start, [(sampleClient 40001).seg TCP.SYN 5 0 []]⟩]

theorem schedule_independent_pair : ∃ rs' : List Responder, (∀ r ∈ rs', r.queue = []) ∧
    ∀ U rs₁, Run (system fun _ => {}) waitingPair U rs₁ → ServesOnly U →
      ∃ V, Run (system fun _ => {}) rs₁ V rs' ∧ ServesOnly V ∧ U.length + V.length = 3 ∧
        ∀ k r, waitingPair[k]? = some r →
          exec ({} : Config).step r.state r.queue = .ok (served k (outputs (U ++ V))) := by
  have halone : ∀ (k : Nat) (r : Responder), waitingPair[k]? = some r →
      ∃ L, exec ({} : Config).step r.state r.queue = .ok L := by
    intro k r hr
    match k with
    | 0 =>
      cases hr
      exact ⟨_, rfl⟩
    | 1 =>
      cases hr
      exact ⟨_, rfl⟩
    | k + 2 => cases hr
  exact schedule_independent halone

end Integratio
