import Integratio.Config.Proof.Configured
import Integratio.Responder.Proof.AfterSyn
import Integratio.Responder.Proof.Delay
import Integratio.Responder.Proof.Delivery

/-!
# From the document to the wire

`configured_session`: a client whose requests are well-formed heads, with anything after them, gets
from the responder that `main` configures the pages of the document in a TCP session, after the
delays of the document, and no request makes the responder fail.
-/

namespace Integratio

open Transducer Machine

/-- The response that some entries configure last for a URI. -/
def pageOf (es : List ConfEntry) (uri : Bytes) : Bytes :=
  ((pageFor (es.flatMap ConfEntry.pages) uri).map ContentConf.response).getD []

/-- The delays that some entries configure for an action that leaves `s`. -/
def delaysOf (es : List ConfEntry) (s : State) (a : Action) : List Int :=
  ((es.flatMap ConfEntry.delays).filter fun t => t.action = a.name ∧ t.state = s.name).map (·.delay)

/-- Entries of which nothing is lost: of the two categories, with one element in a `time` entry, and
no number too large for an `int`. -/
structure Plain (es : List ConfEntry) : Prop where
  supported : .other ∉ es
  time : ∀ ts, .time ts ∈ es → ∃ t, ts = [t] ∧ t.Fits
  content : ∀ c ∈ es.flatMap ConfEntry.pages, c.body.length < 2 ^ 31

/-- The request is a head and what comes after it. -/
def HeadFirst (request : Bytes) : Prop :=
  ∃ (q : RequestHead) (rest : Bytes), request = q.bytes ++ rest

variable {jc : Json} {es : List ConfEntry} {r : TCPResponder Throw} {c : Config} {k : Client}
  {sc : Script} {s : BitVec 32} {m m' : Machine} {T : List Step}

theorem HeadFirst.ne_nil {request : Bytes} (h : HeadFirst request) : request ≠ [] := by
  obtain ⟨q, rest, rfl⟩ := h
  simp [RequestHead.bytes, RequestHead.line, q.method_ne]

/-- What is asked of the applicator in a session are the client's requests. -/
theorem requests_session (h : Run c.step m T m') (hi : inputs T = k.session c sc s) :
    ∀ request ∈ requests (outputs T), ∃ x ∈ sc.rounds, request = x.request := by
  intro request hreq
  rw [requests, List.mem_filterMap] at hreq
  obtain ⟨e, he, hreq⟩ := hreq
  obtain ⟨t, ht, he⟩ := mem_outputs.1 he
  have hmem : request ∈ requests t.out := List.mem_filterMap.2 ⟨e, he, hreq⟩
  rcases (step_moves (h.step_mem ht)).requests_eq with ⟨hr, -, -, hfl, -⟩ | ⟨hr, -⟩
  · rw [hr, List.mem_singleton] at hmem
    subst hmem
    have hp : t.inp ∈ inputs T := List.mem_map_of_mem ht
    rw [hi] at hp
    exact Client.request_of_mem_session hp hfl
  · rw [hr] at hmem
    cases hmem

theorem sleeps_responses (x s : BitVec 32) (rs : List Round) :
    (k.responses c x s rs).flatMap (fun b => c.delaysFor b.tcp.flags) =
      rs.flatMap fun _ => c.delays .established .sendData := by
  induction rs generalizing x s with
  | nil => rfl
  | cons r rs ih =>
    rw [responses_cons, List.flatMap_cons, List.flatMap_cons, ih]
    rfl

theorem sleeps_replies (sc : Script) (s : BitVec 32) :
    (k.replies c sc s).flatMap (fun b => c.delaysFor b.tcp.flags) =
      c.delays .listen .sendSynAck ++
        sc.rounds.flatMap (fun _ => c.delays .established .sendData) ++
        c.delays .established .sendFinAck := by
  rw [Client.replies, List.flatMap_append, List.flatMap_cons, sleeps_responses,
    List.flatMap_singleton]
  rfl

/-- **From the document to the wire** (module doc). -/
theorem configured_session (h : Describes jc es) (hes : Plain es) (memory : Nat)
    (keepsInner : Bool) :
    ∃ r, configure memory keepsInner jc = .ok r ∧
      (∀ (q : RequestHead) (rest : Bytes), r.config.answer (q.bytes ++ rest) = pageOf es q.uri) ∧
      ∀ (k : Client) (sc : Script) (m : Machine), r.Reachable m → m.state = .listen →
        (∀ x ∈ sc.rounds, HeadFirst x.request ∧ x.request.length < 2 ^ 32) →
        ∃ m₁ out, r.step m (k.seg TCP.SYN sc.isn sc.ackOfSyn []) = .ok (m₁, out) ∧
          (m₁.tcpS.seq.toNat + 2 + responseBytes r.config sc.rounds < 2 ^ 32 →
            ∃ T, Run r.step m T start ∧ inputs T = k.session r.config sc m₁.tcpS.seq ∧
              sent (outputs T) = k.replies r.config sc m₁.tcpS.seq ∧
              sleeps (outputs T) = delaysOf es .listen .sendSynAck ++
                sc.rounds.flatMap (fun _ => delaysOf es .established .sendData) ++
                delaysOf es .established .sendFinAck) := by
  obtain ⟨r, hconf, htime, hhttz, hget⟩ := configured h memory keepsInner
  obtain ⟨hpages, htimes⟩ := contribution_installed hes.supported hes.time
  rw [hpages] at hhttz hget
  rw [htimes] at htime
  have hdelays : ∀ s a, r.config.delays s a = delaysOf es s a := by
    intro s a
    rw [Config.delays, delaysOf, ← htime]
    rfl
  -- what the applicator returns
  have hpage : ∀ (q : RequestHead) (rest : Bytes),
      r.config.answer (q.bytes ++ rest) = pageOf es q.uri ∧ r.thrown (q.bytes ++ rest) = none := by
    intro q rest
    unfold Config.answer TCPResponder.thrown TCPResponder.config
    cases hz : r.httz with
    | none =>
      have hnil : es.flatMap ConfEntry.pages = [] := by
        by_contra hne
        rw [hz] at hhttz
        exact absurd (hhttz.2 hne) (by simp)
      refine ⟨?_, rfl⟩
      rw [pageOf, hnil]
      rfl
    | some getResponse =>
      have hcomplete : (pageFor (es.flatMap ConfEntry.pages) q.uri).map ContentConf.complete =
          (pageFor (es.flatMap ConfEntry.pages) q.uri).map ContentConf.response :=
        Option.map_congr fun c hc => ContentConf.complete_eq
          (hes.content c (List.mem_reverse.1 (List.mem_of_find?_eq_some hc)))
      simp [hget getResponse hz q rest, pageOf, hcomplete, Except.toOption]
  refine ⟨r, hconf, fun q rest => (hpage q rest).1, fun k sc m hm hl hreq => ?_⟩
  have hL := hm.config.listening hl
  obtain ⟨m₁, out, s, hm₁, ho, -, -, -, -, rfl⟩ := hL.syn (c := r.config) k sc.isn sc.ackOfSyn
  have hsyn : r.step m (k.seg TCP.SYN sc.isn sc.ackOfSyn []) = .ok (m₁, out) := by
    rcases hm₁.requests_eq with ⟨-, -, hst, -⟩ | ⟨hno, -⟩
    · rw [hl] at hst
      cases hst
    · exact TCPResponder.step_ok.2 ⟨hm₁.step, by simp [hno]⟩
  refine ⟨m₁, out, hsyn, fun hlt => ?_⟩
  have hrounds : ∀ x ∈ sc.rounds, x.request ≠ [] ∧ x.request.length < 2 ^ 32 :=
    fun x hx => ⟨(hreq x hx).1.ne_nil, (hreq x hx).2⟩
  obtain ⟨T, hT, hi, ho', -⟩ := hL.afterSyn hm₁.step hrounds hlt
  have hrun := hT.cons hm₁.step
  have hsess : inputs (⟨m, k.seg TCP.SYN sc.isn sc.ackOfSyn [], m₁, out⟩ :: T) =
      k.session r.config sc m₁.tcpS.seq := by
    rw [inputs_cons, hi, Client.session_eq]
  have hsent : sent (outputs (⟨m, k.seg TCP.SYN sc.isn sc.ackOfSyn [], m₁, out⟩ :: T)) =
      k.replies r.config sc m₁.tcpS.seq := by
    rw [outputs_cons, sent_append, ho, ho']
    rfl
  refine ⟨_, TCPResponder.run_ok hrun fun request hmem => ?_, hsess, hsent, ?_⟩
  · obtain ⟨x, hx, rfl⟩ := requests_session hrun hsess request hmem
    obtain ⟨q, rest, he⟩ := (hreq x hx).1
    rw [he]
    exact (hpage q rest).2
  · rw [run_sleeps hrun, hsent, sleeps_replies, hdelays, hdelays, hdelays]

/-- A delay of the data and a page. -/
def servedEntries : List ConfEntry := [.time [dataDelay], .content [sampleConf]]

def sampleContentElement : Json :=
  .object [("body", .string "page"), ("headers", .string "Connection: close\r\n"),
    ("http-status", .string "HTTP/1.1 200 OK\r\n"), ("resource", .string "/a")]

def servedDocument : Json :=
  document [sampleTimeEntry [dataDelay],
    .object [("category", .string "content"), ("parameters", .array [sampleContentElement])]]

theorem servedDocument_describes : Describes servedDocument servedEntries := by
  refine describes_document (.cons (says_sampleTimeEntry _) (.cons (.content rfl rfl ?_) .nil))
  exact .cons ⟨_, _, _, _, rfl, rfl, rfl, rfl, rfl⟩ .nil

/-- Two requests for the page. -/
def twoPages : Script :=
  { isn := 1000, ackOfSyn := 0, synRepeats := 0, ackRepeats := 0
    rounds := [⟨sampleHead.bytes ++ utf8 "rest", 0, 0⟩, ⟨sampleHead.bytes ++ utf8 "rest", 1, 1⟩]
    finRepeats := 0 }

theorem configured_session_sample : ∃ (r : TCPResponder Throw) (T : List Step),
    configure 4096 false servedDocument = .ok r ∧ Run r.step start T start ∧
      inputs T = (sampleClient 40000).session r.config twoPages 31331 ∧
      sent (outputs T) = (sampleClient 40000).replies r.config twoPages 31331 ∧
      sleeps (outputs T) = [2, 2] := by
  have hplain : Plain servedEntries :=
    ⟨by decide, fun ts hts => ⟨dataDelay, by simpa [servedEntries] using hts, by decide, by decide⟩,
      by decide⟩
  obtain ⟨r, hconf, hpage, hsess⟩ := configured_session servedDocument_describes hplain 4096 false
  have hlen : ∀ x ∈ twoPages.rounds, x.request.length < 2 ^ 32 := by decide
  have hreq : ∀ x ∈ twoPages.rounds, HeadFirst x.request ∧ x.request.length < 2 ^ 32 := by
    intro x hx
    refine ⟨⟨sampleHead, utf8 "rest", ?_⟩, hlen x hx⟩
    simp only [twoPages, List.mem_cons, List.not_mem_nil, or_false] at hx
    rcases hx with rfl | rfl <;> rfl
  obtain ⟨m₁, out, hs, h⟩ := hsess (sampleClient 40000) twoPages start ⟨[], .nil⟩ rfl hreq
  have hm₁ := (start_listening.opens (c := r.config)
    (q := (sampleClient 40000).seg TCP.SYN 1000 0 []) rfl).step
  have hseq : m₁.tcpS.seq = 31331 := by
    cases hm₁.symm.trans (TCPResponder.step_ok.1 hs).1
    rfl
  have hbytes : responseBytes r.config twoPages.rounds =
      (pageOf servedEntries sampleHead.uri).length +
        (pageOf servedEntries sampleHead.uri).length := by
    simp only [twoPages, responseBytes_cons, responseBytes_nil, hpage, Nat.add_zero]
  rw [hseq, hbytes] at h
  obtain ⟨T, hT, hi, ho, hd⟩ := h (by decide)
  refine ⟨r, T, hconf, hT, hi, ho, hd.trans ?_⟩
  decide

end Integratio
