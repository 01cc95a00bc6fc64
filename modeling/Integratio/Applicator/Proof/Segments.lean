import Integratio.Applicator.Proof.Content
import Mathlib.Data.List.TakeWhile

/-!
# Requests in segments

`getResponse` parses each segment's payload anew.

* `getResponse_segment`: a segment that begins a request gets the request's page exactly when it has
  the whole head, and nothing before.
-/

namespace Integratio

open Scanner HttpRequestParser

variable {memory : Nat} {seg rest : Bytes}

/-- No beginning of a head is a complete request. -/
theorem RequestHead.parse_part (q : RequestHead) (h : seg <+: q.bytes)
    (hlt : seg.length < q.bytes.length) :
    ∃ req, parse memory seg = .ok (.parsingIncompleted, req) := by
  have hbytes : q.bytes =
      q.line ++ q.headers.flatMap HeaderLine.bytes ++ [chr '\r'] ++ [chr '\n'] := by
    rw [← q.bytes_append [], List.append_nil]
  rw [hbytes, List.prefix_concat_iff] at h
  rcases h with rfl | h
  · rw [← hbytes] at hlt
    omega
  · obtain ⟨l, hl⟩ := q.eats_head.of_prefix h
    exact ⟨l.2, hl.scan_eq⟩

/-- **When a request is answered**: the page is the response to a segment exactly when the segment
has the whole head. -/
theorem getResponse_segment (a : HTTPApplicator) (q : RequestHead) (h : seg <+: q.bytes ++ rest) :
    a.getResponse memory seg =
      .ok (if q.bytes.length ≤ seg.length then (a.resources q.uri).getD [] else []) := by
  split
  · rename_i hle
    obtain ⟨rest', rfl⟩ := List.prefix_of_prefix_length_le (List.prefix_append _ rest) h hle
    exact getResponse_head a memory q rest'
  · rename_i hlt
    have hseg : seg <+: q.bytes :=
      List.prefix_of_prefix_length_le h (List.prefix_append _ rest) (by omega)
    have hnul : 0 ∉ seg := fun hm => q.nul_not_mem (hseg.subset hm)
    have hc : cStr seg = seg :=
      List.takeWhile_eq_self_iff.2 fun b hb => decide_eq_true fun he => hnul (he ▸ hb)
    obtain ⟨req, hp⟩ := q.parse_part hseg (by omega)
    rw [HTTPApplicator.getResponse, hc, hp]
    rfl

theorem getResponse_segment_sample :
    (HTTPApplicator.addAll {} [sampleConf]).getResponse 4096 (sampleHead.bytes.take 10) = .ok [] ∧
      (HTTPApplicator.addAll {} [sampleConf]).getResponse 4096 sampleHead.bytes =
        .ok sampleConf.response := by
  have hten : sampleHead.bytes.take 10 <+: sampleHead.bytes ++ [] :=
    (List.take_prefix 10 _).trans (List.prefix_append _ _)
  refine ⟨?_, ?_⟩
  · rw [getResponse_segment _ sampleHead hten, if_neg (by decide)]
  · have hpage : pageFor [sampleConf] sampleHead.uri = some sampleConf := rfl
    rw [getResponse_segment _ sampleHead (List.prefix_append _ []), if_pos (Nat.le_refl _),
      HTTPApplicator.addAll_resources, hpage, ← ContentConf.complete_eq (by decide)]
    rfl

end Integratio
