import Integratio.Applicator.Proof.Content

/-!
# Requests with content

`PostHead` is the head of a POST or a PUT. What the parser makes of the bytes after it is decided
by its headers: the last `Content-Length` gives a size, and a `Transfer-Encoding: chunked` anywhere
takes precedence over it (`announced`).

* `parse_post`: with a size, the next bytes are the content, as many as announced; the parser
  completes on the last of them and waits for it until then. The first length that it cannot reserve
  makes it throw.
-/

namespace Integratio

open Scanner HttpRequestParser

/-- The head of a request that may have content. -/
structure PostHead where
  method : Bytes
  uri : Bytes
  major : UInt8
  minor : UInt8
  headers : List HeaderLine
  method_post : method = utf8 "POST" ∨ method = utf8 "PUT"
  uri_ne : uri ≠ []
  uri_ok : ∀ b ∈ uri, b ≠ chr ' ' ∧ isControl b = false
  major_digit : isDigit major
  minor_digit : isDigit minor

namespace PostHead

def line (r : PostHead) : Bytes :=
  r.method ++ utf8 " " ++ r.uri ++ utf8 " HTTP/" ++ [r.major, chr '.', r.minor] ++ CRLF

def bytes (r : PostHead) : Bytes := r.line ++ r.headers.flatMap HeaderLine.bytes ++ CRLF

/-- The request that the head is read as. -/
def request (r : PostHead) : Request :=
  { method := r.method, uri := r.uri, versionMajor := r.major.toNat - 48
    versionMinor := r.minor.toNat - 48, headers := r.headers.map HeaderLine.item }

theorem method_ok (r : PostHead) : r.method ≠ [] ∧ ∀ b ∈ r.method, isToken b := by
  rcases r.method_post with h | h <;> rw [h]
  · exact ⟨by decide, forall_mem_of_all (by decide)⟩
  · exact ⟨by decide, forall_mem_of_all (by decide)⟩

/-- Among the heads of all requests. -/
def toHead (r : PostHead) : Head where
  method := r.method
  uri := r.uri
  major := [r.major]
  minor := [r.minor]
  headers := r.headers.map (⟨·, []⟩)
  method_ne := r.method_ok.1
  method_token := r.method_ok.2
  uri_ne := r.uri_ne
  uri_plain := fun b hb => (r.uri_ok b hb).2
  uri_blank := fun b hb => (r.uri_ok b (List.mem_of_mem_tail hb)).1
  major_ne := List.cons_ne_nil _ _
  major_digits := by simpa using r.major_digit
  minor_ne := List.cons_ne_nil _ _
  minor_digits := by simpa using r.minor_digit

theorem toHead_bytes (r : PostHead) :
    r.toHead.bytes = r.line ++ r.headers.flatMap HeaderLine.bytes := by
  have hdot : utf8 "." = [chr '.'] := by decide
  simp [Head.bytes, toHead, Target.text, line, List.flatMap_map, HeaderField.bytes_nil, hdot]

theorem toHead_request (r : PostHead) : r.toHead.request = r.request := by
  simp [Head.request, toHead, Target.request, request, versionNumber]

theorem toHead_items (r : PostHead) : r.toHead.items = r.request.headers := by
  simp only [Head.items, toHead, request, List.flatMap_map, HeaderField.items_nil]
  exact List.map_eq_flatMap.symm

theorem toHead_announces (r : PostHead) : r.toHead.announces = announced r.request.headers := by
  rw [Head.announces, announcedFor, if_pos (show posts r.toHead.method from r.method_post),
    toHead_items]

end PostHead

namespace HttpRequestParser

variable {memory : Nat}

/-! ## Content of a known size -/

theorem toNat_pred {n : BitVec 64} (h : 0 < n.toNat) : (n - 1).toNat = n.toNat - 1 := by
  have hone : (1 : BitVec 64).toNat = 1 := rfl
  have := n.isLt
  rw [BitVec.toNat_sub]
  omega

/-- Content, while more is to come: `n` bytes before it, `k` after it. -/
theorem eats_post (memory : Nat) (p : HttpRequestParser) (req : Request) {n k : BitVec 64}
    {content : Bytes} (hlen : content.length + k.toNat = n.toNat) (hk : k ≠ 0) :
    Eats (step memory) ({ p with state := .post, contentSize := n }, req) content
      ({ p with state := .post, contentSize := k },
        { req with content := req.content ++ content }) := by
  induction content generalizing n req with
  | nil =>
    obtain rfl : k = n := BitVec.eq_of_toNat_eq (by simpa using hlen)
    rw [List.append_nil]
    exact .nil _
  | cons b content ih =>
    have hpos : k.toNat ≠ 0 := fun h => hk (BitVec.eq_of_toNat_eq h)
    rw [List.length_cons] at hlen
    have hpred : (n - 1).toNat = n.toNat - 1 := toNat_pred (by omega)
    have hmore : n - 1 ≠ 0 := by
      intro h
      rw [h, show (0 : BitVec 64).toNat = 0 from rfl] at hpred
      omega
    have hs : step memory ({ p with state := .post, contentSize := n }, req) b =
        .next ({ p with state := .post, contentSize := n - 1 },
          { req with content := req.content ++ [b] }) := if_neg hmore
    have hrest := ih { req with content := req.content ++ [b] } (n := n - 1) (by omega)
    simp only [List.append_assoc, List.singleton_append] at hrest
    exact .cons hs hrest

theorem step_post (memory : Nat) (p : HttpRequestParser) (req : Request) (b : UInt8) :
    step memory ({ p with state := .post, contentSize := 1 }, req) b =
      ret { req with content := req.content ++ [b] } .parsingCompleted :=
  if_pos (show (1 : BitVec 64) - 1 = 0 by decide)

/-- The loop that takes the content: `n` bytes are still to come. -/
theorem scan_post (memory : Nat) (n : BitVec 64) (hn : n ≠ 0) (p : HttpRequestParser)
    (req : Request) (rest : Bytes) :
    scan (step memory) (fun l => .ok (.parsingIncompleted, l.2))
        ({ p with state := .post, contentSize := n }, req) rest =
      if n.toNat ≤ rest.length then
        .ok (.parsingCompleted, { req with content := req.content ++ rest.take n.toNat })
      else .ok (.parsingIncompleted, { req with content := req.content ++ rest }) := by
  have hpos : n.toNat ≠ 0 := fun h => hn (BitVec.eq_of_toNat_eq h)
  split
  · rename_i hle
    obtain ⟨content, tail, rfl, hlen⟩ : ∃ c t, rest = c ++ t ∧ c.length = n.toNat - 1 :=
      ⟨_, _, (List.take_append_drop (n.toNat - 1) rest).symm, List.length_take_of_le (by omega)⟩
    obtain ⟨b, tail, rfl⟩ : ∃ b t, tail = b :: t := by
      refine List.exists_cons_of_ne_nil fun hnil => ?_
      rw [hnil, List.append_nil] at hle
      omega
    have hone : (1 : BitVec 64).toNat = 1 := rfl
    have htake : (content ++ b :: tail).take n.toNat = content ++ [b] := by
      rw [show n.toNat = content.length + 1 by omega, List.take_length_add_append]
      rfl
    have heats : Eats (step memory) _ content _ :=
      eats_post memory p req (n := n) (k := 1) (by omega) (by decide)
    rw [htake, scan_stop heats (step_post memory p _ b) tail]
    simp
  · rename_i hlt
    have hk : (n - BitVec.ofNat 64 rest.length).toNat = n.toNat - rest.length := by
      have := n.isLt
      rw [BitVec.toNat_sub, BitVec.toNat_ofNat, Nat.mod_eq_of_lt (by omega : rest.length < 2 ^ 64)]
      omega
    have hmore : n - BitVec.ofNat 64 rest.length ≠ 0 := fun h => by
      rw [h, show (0 : BitVec 64).toNat = 0 from rfl] at hk
      omega
    have heats : Eats (step memory) _ rest _ := eats_post memory p req (n := n) (by omega) hmore
    exact heats.scan_eq

end HttpRequestParser

namespace PostHead

variable {memory : Nat} {e : Throw} (r : PostHead)

theorem fits (h : ∀ l ∈ r.headers, l.item.refused memory = none) : r.toHead.Fits memory := by
  intro _ i hi
  rw [toHead_items] at hi
  obtain ⟨l, hl, rfl⟩ := List.mem_map.1 hi
  exact h l hl

theorem bytes_append (rest : Bytes) :
    r.bytes ++ rest = r.toHead.bytes ++ [chr '\r'] ++ chr '\n' :: rest := by
  simp [bytes, toHead_bytes, CRLF]

/-- After the head the parser goes on as it announces. -/
theorem parse_bytes (hfit : ∀ l ∈ r.headers, l.item.refused memory = none) (rest : Bytes) :
    parse memory (r.bytes ++ rest) =
      scan (step memory) (fun l => .ok (.parsingIncompleted, l.2))
        (r.toHead.parser .expectingNewline_3, r.request) (chr '\n' :: rest) := by
  rw [bytes_append, parse, consume, scan_append (r.toHead.eats_blank (r.fits hfit)), toHead_request]

/-- A length that cannot be reserved makes the parser throw, whatever comes after it. -/
theorem parse_refused (h : (r.headers.findSome? fun l => l.item.refused memory) = some e)
    (rest : Bytes) : parse memory (r.bytes ++ rest) = .error e := by
  obtain ⟨before, l, after, hheaders, hl, hbefore⟩ := List.findSome?_eq_some_iff.1 h
  have hfit : Head.Fits memory { r.toHead with headers := before.map (⟨·, []⟩) } := by
    intro _ i hi
    simp only [Head.items, List.flatMap_map, HeaderField.items_nil, List.mem_flatMap,
      List.mem_singleton] at hi
    obtain ⟨x, hx, rfl⟩ := hi
    exact hbefore x hx
  have hstop := Head.stops_length { r.toHead with headers := before.map (⟨·, []⟩) } ⟨l, []⟩ hfit
    r.method_post (by simp) (by simpa using hl)
  have hbytes : r.bytes ++ rest =
      Head.bytes { r.toHead with headers := before.map (⟨·, []⟩) } ++
        HeaderField.text ⟨l, []⟩ ++ [chr '\r'] ++
          (chr '\n' :: (after.flatMap HeaderLine.bytes ++ CRLF ++ rest)) := by
    have hdot : utf8 "." = [chr '.'] := by decide
    have hline : l.bytes = HeaderField.text ⟨l, []⟩ ++ CRLF := by simp [HeaderLine.bytes]
    simp [bytes, line, toHead, Head.bytes, Target.text, hheaders, hline, CRLF, List.flatMap_map,
      HeaderField.bytes_nil, hdot]
  rw [hbytes]
  exact (hstop.stops (List.prefix_refl _)).scan_eq _

/-- **A request with content of an announced size**, whatever comes after its head. -/
theorem parse_post (hch : ∀ l ∈ r.headers, l.item.isChunked = false) (rest : Bytes) :
    parse memory (r.bytes ++ rest) =
      let size := (announced r.request.headers).1.toNat
      match r.headers.findSome? fun l => l.item.refused memory with
      | some e => .error e
      | none =>
        if size ≤ rest.length then
          .ok (.parsingCompleted, { setKeepAlive r.request with content := rest.take size })
        else .ok (.parsingIncompleted, { setKeepAlive r.request with content := rest }) := by
  dsimp only
  cases hfind : r.headers.findSome? fun l => l.item.refused memory with
  | some e => exact r.parse_refused hfind rest
  | none =>
    have hchunked : (announced r.request.headers).2 = false := by
      simpa [announced, request] using hch
    have hcontent : (setKeepAlive r.request).content = [] := setKeepAlive_content r.request
    have hblank := r.toHead.step_blank memory (chr '\n')
    rw [toHead_announces, toHead_request, hchunked, if_neg Bool.false_ne_true, if_pos rfl] at hblank
    rw [r.parse_bytes (List.findSome?_eq_none_iff.1 hfind), scan, hblank]
    by_cases hsize : (announced r.request.headers).1 = 0
    · have h0 : (announced r.request.headers).1.toNat = 0 := by rw [hsize]; rfl
      rw [if_pos hsize]
      simp only [h0, Nat.zero_le, if_true, List.take_zero, ret, ← hcontent]
    · rw [if_neg hsize]
      have hpost := scan_post memory _ hsize (r.toHead.parser .post)
        (setKeepAlive r.request) rest
      simp only [hcontent, List.nil_append] at hpost
      rw [← toHead_announces] at hpost ⊢
      exact hpost

end PostHead

/-- `POST /a HTTP/1.1` with four bytes of content. -/
def samplePost : PostHead where
  method := utf8 "POST"
  uri := sampleHead.uri
  major := sampleHead.major
  minor := sampleHead.minor
  headers := sampleHead.headers ++
    [⟨utf8 "content-length", utf8 "4", by decide, forall_mem_of_all (by decide),
      forall_mem_of_all (by decide)⟩]
  method_post := .inl rfl
  uri_ne := sampleHead.uri_ne
  uri_ok := sampleHead.uri_ok
  major_digit := sampleHead.major_digit
  minor_digit := sampleHead.minor_digit

theorem parse_post_sample :
    parse 4096 (samplePost.bytes ++ utf8 "pagerest") =
        .ok (.parsingCompleted, { setKeepAlive samplePost.request with content := utf8 "page" }) ∧
      parse 3 (samplePost.bytes ++ utf8 "pagerest") = .error .badAlloc := by
  refine ⟨?_, ?_⟩
  · rw [samplePost.parse_post (by decide)]
    decide
  · rw [samplePost.parse_post (by decide)]
    decide

end Integratio
