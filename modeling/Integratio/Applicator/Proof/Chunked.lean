import Integratio.Applicator.Proof.Post
import Integratio.Lib.Numeral
import Mathlib.Data.List.TakeWhile

/-!
# Chunked content

`ChunkedBody` is content in chunks as a client writes it: for each chunk its size in hexadecimal, an
extension if it likes, and the data; then a chunk of size zero, trailers and a blank line.
`parse_chunked` is its decoding: the content is the data of the chunks, one after another.

* `strtol_toDigits`: the numerals that a client writes are read as their numbers.
-/

namespace Integratio

open Scanner HttpRequestParser Numeral

/-! ## Numerals -/

theorem isalnum_of_digitValue {b : UInt8} (h : digitValue b < 16) : isalnum b = true := by
  unfold digitValue at h
  unfold isalnum
  split at h
  · rename_i hd
    simp [hd]
  · split at h
    · rename_i ha
      simp [ha]
    · omega

theorem ne_of_isalnum {b c : UInt8} (hb : isalnum b = true) (hc : isalnum c = false) : b ≠ c := by
  rintro rfl
  rw [hb] at hc
  cases hc

theorem isalnum_bounds {b : UInt8} (h : isalnum b = true) : 48 ≤ b.toNat := by
  simp only [isalnum, isalpha, isDigit, chr, Char.toUInt8, decide_eq_true_eq,
    UInt8.le_iff_toNat_le] at h
  rcases h with (⟨h, -⟩ | ⟨h, -⟩) | ⟨h, -⟩
  · exact Nat.le_trans (by decide) h
  · exact Nat.le_trans (by decide) h
  · exact h

theorem isspace_of_isalnum {b : UInt8} (h : isalnum b = true) : isspace b = false := by
  have hlo := isalnum_bounds h
  have hsp : b ≠ chr ' ' := ne_of_isalnum h (by decide)
  simp only [isspace, hsp, false_or, decide_eq_false_iff_not, UInt8.le_iff_toNat_le]
  intro h
  have h13 : b.toNat ≤ 13 := h.2
  omega

/-- No digit is taken for the mark of a base. -/
theorem tolower_ne_x {b : UInt8} (h : digitValue b < 16) : tolower b ≠ chr 'x' := by
  intro hx
  have hx' : (tolower b).toNat = 120 := by rw [hx]; rfl
  unfold digitValue at h
  split at h
  · rename_i hd
    simp only [isDigit, chr, Char.toUInt8, decide_eq_true_eq, UInt8.le_iff_toNat_le] at hd
    have h9 : b.toNat ≤ 57 := hd.2
    unfold tolower at hx'
    split at hx'
    · rename_i hu
      simp only [chr, Char.toUInt8, UInt8.le_iff_toNat_le] at hu
      have : 65 ≤ b.toNat := hu.1
      omega
    · omega
  · split at h
    · omega
    · omega

theorem strtol_digits {s : Bytes} {base : Nat} (hbase : base ≤ 16)
    (h : ∀ b ∈ s, digitValue b < base) :
    strtol s base = min (value base digitValue s : Int) (2 ^ 63 - 1) := by
  have hall : ∀ b ∈ s, isalnum b = true := fun b hb =>
    isalnum_of_digitValue (Nat.lt_of_lt_of_le (h b hb) hbase)
  have hhead : ∀ c, isalnum c = false → s.head? ≠ some c := by
    intro c hc hs
    exact ne_of_isalnum (hall c (List.mem_of_mem_head? hs)) hc rfl
  have hspace : s.dropWhile isspace = s := by
    cases s with
    | nil => rfl
    | cons b s => simp [isspace_of_isalnum (hall b (.head _))]
  have hx : s.tail.head?.map tolower ≠ some (chr 'x') := by
    intro hs
    obtain ⟨b, hb, he⟩ := Option.map_eq_some_iff.1 hs
    have hm := List.mem_of_mem_tail (List.mem_of_mem_head? hb)
    exact tolower_ne_x (Nat.lt_of_lt_of_le (h b hm) hbase) he
  have hdigits : s.takeWhile (digitValue · < base) = s :=
    List.takeWhile_eq_self_iff.2 fun b hb => decide_eq_true (h b hb)
  have hminus := hhead (chr '-') (by decide)
  have hplus := hhead (chr '+') (by decide)
  simp only [strtol, hspace, hminus, hplus, hx, false_and, and_false, or_self, if_false, digits,
    hdigits]
  rfl

theorem digitValue_digitChar : ∀ d < 16, digitValue (chr d.digitChar) = d := by decide

/-- **A numeral is read as its number.** -/
theorem strtol_toDigits {base : Nat} (hlo : 1 < base) (hhi : base ≤ 16) (n : Nat) :
    strtol ((Nat.toDigits base n).map chr) base = min (n : Int) (2 ^ 63 - 1) := by
  have hval : ∀ d < base, (digitValue ∘ chr) d.digitChar = d := fun d hd =>
    digitValue_digitChar d (Nat.lt_of_lt_of_le hd hhi)
  rw [strtol_digits hhi, value_map, value_toDigits hlo hval]
  intro b hb
  obtain ⟨c, hc, rfl⟩ := List.mem_map.1 hb
  obtain ⟨d, hd, rfl⟩ := mem_toDigits hlo hc
  rw [digitValue_digitChar d (Nat.lt_of_lt_of_le hd hhi)]
  exact hd

/-! ## The body -/

/-- The size in hexadecimal, as a client writes it. -/
def SizeLine.hex (n : Nat) (h : n ≤ maxSize) : SizeLine n where
  size := (Nat.toDigits 16 n).map chr
  ext := none
  size_alnum := by
    intro b hb
    obtain ⟨c, hc, rfl⟩ := List.mem_map.1 hb
    obtain ⟨d, hd, rfl⟩ := mem_toDigits (by decide) hc
    apply isalnum_of_digitValue
    rw [digitValue_digitChar d hd]
    exact hd
  size_eq := by
    rw [strtol_toDigits (by decide) (by decide)]
    unfold maxSize at h
    omega

/-! ## Reading it -/

namespace HttpRequestParser

variable {memory : Nat} {p : HttpRequestParser} {req : Request}

/-- Bytes that a state skips. -/
theorem eats_skipped {st : State} {l : Bytes} {ok : UInt8 → Prop} (h : ∀ b ∈ l, ok b)
    (hs : ∀ b, ok b →
      step memory ({ p with state := st }, req) b = .next ({ p with state := st }, req)) :
    Eats (step memory) ({ p with state := st }, req) l ({ p with state := st }, req) :=
  Eats.collect (f := fun _ : Bytes => ({ p with state := st }, req)) (fun _ b hb => hs b hb) [] h

theorem eats_extension (e : Extension) :
    Eats (step memory) ({ p with state := .chunkSize }, req) (e.bytes ++ [chr '\r'])
      ({ p with state := .chunkSizeNewLine }, req) := by
  have hname : Eats (step memory) ({ p with state := .chunkExtensionName }, req) e.name
      ({ p with state := .chunkExtensionName }, req) := by
    refine eats_skipped e.name_ok fun b hb => ?_
    simp only [isSkipped, decide_eq_true_eq] at hb
    simp [step, goto, hb]
  have hstart : Eats (step memory) ({ p with state := .chunkSize }, req) (utf8 ";" ++ e.name)
      ({ p with state := .chunkExtensionName }, req) := .cons rfl hname
  unfold Extension.bytes
  cases hv : e.value with
  | none =>
    rw [List.append_nil]
    exact hstart.snoc rfl
  | some v =>
    have hvalue : Eats (step memory) ({ p with state := .chunkExtensionValue }, req) v
        ({ p with state := .chunkExtensionValue }, req) := by
      refine eats_skipped (e.value_ok v hv) fun b hb => ?_
      simp only [isSkipped, decide_eq_true_eq] at hb
      simp [step, goto, hb]
    rw [List.append_assoc, List.append_assoc]
    exact hstart.append (.cons rfl (hvalue.snoc rfl))

theorem refusal_eq_none {n : Nat} : refusal memory n = none ↔ n ≤ maxSize ∧ n ≤ memory := by
  unfold refusal
  split
  · rename_i h
    exact iff_of_false nofun fun h' => by omega
  · split
    · rename_i h
      exact iff_of_false nofun fun h' => by omega
    · exact iff_of_true rfl (by omega)

theorem refusal_of_le {n k : Nat} (h : n ≤ k) (hk : refusal memory k = none) :
    refusal memory n = none := by
  rw [refusal_eq_none] at hk ⊢
  omega

theorem strtol_le (s : Bytes) (base : Nat) : strtol s base ≤ 2 ^ 63 - 1 := by
  unfold strtol
  dsimp only
  split
  · omega
  · omega

/-- **The end of a size line**: the parser has no room for the chunk, or goes on. -/
theorem step_sizeEnd (p : HttpRequestParser) (req : Request) {n : Nat} {size : Bytes}
    (hsize : strtol size 16 = n) (hlen : refusal memory req.content.length = none) :
    step memory ({ p with state := .chunkSizeNewLine, chunkSizeStr := size }, req) (chr '\n') =
      match refusal memory (req.content.length + n) with
      | some e => .stop (.error e)
      | none => .next ({ p with
        state := if n = 0 then .chunkSizeNewLine_2 else .chunkData, chunkSizeStr := []
        chunkSize := BitVec.ofNat 64 n }, req) := by
  have hn : n ≤ maxSize := by
    have h := strtol_le size 16
    unfold maxSize
    omega
  have hmax := (refusal_eq_none.1 hlen).1
  have hofInt : BitVec.ofInt 64 (strtol size 16) = BitVec.ofNat 64 n := by rw [hsize]; rfl
  have hroom : (BitVec.ofNat 64 req.content.length + BitVec.ofNat 64 n).toNat =
      req.content.length + n := by
    unfold maxSize at hn hmax
    rw [← BitVec.ofNat_add, BitVec.toNat_ofNat, Nat.mod_eq_of_lt (by omega)]
  have hzero : BitVec.ofNat 64 n = 0 ↔ n = 0 := by
    unfold maxSize at hn
    rw [← BitVec.toNat_inj, BitVec.toNat_ofNat, Nat.mod_eq_of_lt (by omega)]
    rfl
  simp only [step, if_true, reserve, hofInt, hroom, hzero]
  rfl

theorem SizeLine.bytes_eq {n : Nat} (l : SizeLine n) :
    l.bytes = l.size ++ ((l.ext.map Extension.bytes).getD [] ++ [chr '\r']) ++ [chr '\n'] := by
  simp [SizeLine.bytes, CRLF]

theorem eats_size (memory : Nat)
    (p : HttpRequestParser) (req : Request) {n : Nat} (l : SizeLine n) :
    Eats (step memory) ({ p with state := .chunkSize, chunkSizeStr := [] }, req)
      (l.size ++ ((l.ext.map Extension.bytes).getD [] ++ [chr '\r']))
      ({ p with state := .chunkSizeNewLine, chunkSizeStr := l.size }, req) := by
  have hsize : Eats (step memory) ({ p with state := .chunkSize, chunkSizeStr := [] }, req) l.size
      ({ p with state := .chunkSize, chunkSizeStr := l.size }, req) := by
    refine Eats.collect
      (f := fun s => (({ p with state := .chunkSize, chunkSizeStr := s }, req) : Loop))
      (p := (isalnum · = true)) (fun s b hb => ?_) [] l.size_alnum
    simp [step, goto, hb]
  have hext : Eats (step memory) ({ p with state := .chunkSize, chunkSizeStr := l.size }, req)
      ((l.ext.map Extension.bytes).getD [] ++ [chr '\r'])
      ({ p with state := .chunkSizeNewLine, chunkSizeStr := l.size }, req) := by
    cases l.ext with
    | none => exact .single rfl
    | some e => exact eats_extension (p := { p with chunkSizeStr := l.size }) e
  exact hsize.append hext

theorem eats_sizeLine (memory : Nat)
    (p : HttpRequestParser) (req : Request) {n : Nat} (l : SizeLine n)
    (hn : refusal memory (req.content.length + n) = none) :
    Eats (step memory) ({ p with state := .chunkSize, chunkSizeStr := [] }, req) l.bytes
      ({ p with
        state := if n = 0 then .chunkSizeNewLine_2 else .chunkData, chunkSizeStr := []
        chunkSize := BitVec.ofNat 64 n }, req) := by
  have hend := step_sizeEnd p req l.size_eq (refusal_of_le (Nat.le_add_right _ n) hn)
  rw [hn] at hend
  rw [SizeLine.bytes_eq]
  exact (eats_size memory p req l).snoc hend

theorem eats_chunkData (memory : Nat)
    (p : HttpRequestParser) (req : Request) {data : Bytes} (hne : data ≠ [])
    (hlen : data.length ≤ maxSize) :
    Eats (step memory)
      ({ p with state := .chunkData, chunkSize := BitVec.ofNat 64 data.length }, req) data
      ({ p with state := .chunkDataNewLine_1, chunkSize := 0 },
        { req with content := req.content ++ data }) := by
  induction data generalizing req with
  | nil => exact absurd rfl hne
  | cons b data ih =>
    have hpred : BitVec.ofNat 64 (b :: data).length - 1 = BitVec.ofNat 64 data.length := by
      rw [List.length_cons, BitVec.ofNat_add]
      exact BitVec.add_sub_cancel _ _
    have hzero : BitVec.ofNat 64 data.length = 0 ↔ data = [] := by
      unfold maxSize at hlen
      rw [List.length_cons] at hlen
      rw [← BitVec.toNat_inj, BitVec.toNat_ofNat, Nat.mod_eq_of_lt (by omega)]
      exact List.length_eq_zero_iff
    have hstep : step memory
        ({ p with state := .chunkData, chunkSize := BitVec.ofNat 64 (b :: data).length }, req) b =
        .next ({ p with
          state := if data = [] then .chunkDataNewLine_1 else .chunkData
          chunkSize := BitVec.ofNat 64 data.length },
          { req with content := req.content ++ [b] }) := by
      simp only [step, hpred, hzero]
      rfl
    by_cases hd : data = []
    · subst hd
      exact .single hstep
    · rw [if_neg hd] at hstep
      have hrest := ih { req with content := req.content ++ [b] } hd
        (Nat.le_trans (Nat.le_succ _) hlen)
      simp only [List.append_assoc, List.singleton_append] at hrest
      exact .cons hstep hrest

theorem eats_chunk (memory : Nat) (p : HttpRequestParser) (req : Request) (c : Chunk)
    (hlen : refusal memory (req.content.length + c.data.length) = none) :
    Eats (step memory) ({ p with state := .chunkSize, chunkSizeStr := [] }, req) c.bytes
      ({ p with state := .chunkSize, chunkSizeStr := [], chunkSize := 0 },
        { req with content := req.content ++ c.data }) := by
  have hline := eats_sizeLine memory p req c.line hlen
  rw [if_neg fun h => c.data_ne (List.length_eq_zero_iff.1 h)] at hline
  have hdata := eats_chunkData memory { p with chunkSizeStr := [] } req c.data_ne
    (Nat.le_trans (Nat.le_add_left _ _) (refusal_eq_none.1 hlen).1)
  exact (hline.append hdata).append (.cons rfl (.single rfl))

theorem eats_chunks (memory : Nat) (p : HttpRequestParser) (req : Request) (cs : List Chunk)
    (hlen : refusal memory (req.content.length + (cs.flatMap Chunk.data).length) = none)
    (hsize : p.chunkSize = 0) :
    Eats (step memory) ({ p with state := .chunkSize, chunkSizeStr := [] }, req)
      (cs.flatMap Chunk.bytes)
      ({ p with state := .chunkSize, chunkSizeStr := [] },
        { req with content := req.content ++ cs.flatMap Chunk.data }) := by
  induction cs generalizing req with
  | nil =>
    simp only [List.flatMap_nil, List.append_nil]
    exact .nil _
  | cons c cs ih =>
    simp only [List.flatMap_cons, List.length_append, ← Nat.add_assoc] at hlen
    have hc := eats_chunk memory p req c (refusal_of_le (Nat.le_add_right _ _) hlen)
    rw [← hsize] at hc
    have hcs := ih { req with content := req.content ++ c.data }
      (by rw [List.length_append]; exact hlen)
    simp only [List.append_assoc] at hcs
    simp only [List.flatMap_cons]
    exact hc.append hcs

/-- A trailer is read like a size line without a size. -/
theorem eats_trailer (t : Trailer) (hlen : refusal memory req.content.length = none)
    (hsize : p.chunkSize = 0) :
    Eats (step memory) ({ p with state := .chunkSizeNewLine_2, chunkSizeStr := [] }, req) t.bytes
      ({ p with state := .chunkSizeNewLine_2, chunkSizeStr := [] }, req) := by
  have hfirst : step memory ({ p with state := .chunkSizeNewLine_2, chunkSizeStr := [] }, req)
      t.first = .next ({ p with state := .chunkTrailerName, chunkSizeStr := [] }, req) := by
    have hcr : t.first ≠ chr '\r' := by
      intro he
      have := t.first_ok
      rw [he] at this
      exact absurd this (by decide)
    simp [step, goto, hcr, t.first_ok]
  have hname : Eats (step memory) ({ p with state := .chunkTrailerName, chunkSizeStr := [] }, req)
      t.name ({ p with state := .chunkTrailerName, chunkSizeStr := [] }, req) := by
    refine eats_skipped (p := { p with chunkSizeStr := [] }) t.name_ok fun b hb => ?_
    simp [step, goto, hb]
  have hvalue : Eats (step memory) ({ p with state := .chunkTrailerValue, chunkSizeStr := [] }, req)
      t.value ({ p with state := .chunkTrailerValue, chunkSizeStr := [] }, req) := by
    refine eats_skipped (p := { p with chunkSizeStr := [] }) t.value_ok fun b hb => ?_
    simp only [isSkipped, decide_eq_true_eq] at hb
    simp [step, goto, hb]
  have hend : step memory ({ p with state := .chunkSizeNewLine, chunkSizeStr := [] }, req)
      (chr '\n') = .next ({ p with state := .chunkSizeNewLine_2, chunkSizeStr := [] }, req) := by
    rw [step_sizeEnd (n := 0) p req (by decide) hlen, Nat.add_zero, hlen]
    simp [hsize]
  have hbytes : t.bytes =
      t.first :: (t.name ++ (utf8 ":" ++ (t.value ++ [chr '\r', chr '\n']))) := by
    simp [Trailer.bytes, CRLF]
  rw [hbytes]
  exact .cons hfirst (hname.append (.cons rfl (hvalue.append (.cons rfl (.single hend)))))

/-- The body, up to its last byte. -/
theorem eats_body (p : HttpRequestParser) (b : ChunkedBody) (hcontent : req.content = [])
    (hlen : refusal memory b.content.length = none) (hsize : p.chunkSize = 0) :
    Eats (step memory) ({ p with state := .chunkSize, chunkSizeStr := [] }, req)
      (b.chunks.flatMap Chunk.bytes ++ b.last.bytes ++ b.trailers.flatMap Trailer.bytes ++
        [chr '\r'])
      ({ p with state := .chunkSizeNewLine_3, chunkSizeStr := [] },
        { req with content := b.content }) := by
  have hchunks := eats_chunks memory p req b.chunks
    (by rw [hcontent, List.length_nil, Nat.zero_add]; exact hlen) hsize
  rw [hcontent, List.nil_append] at hchunks
  have hlast := eats_sizeLine memory p { req with content := b.content } b.last hlen
  rw [if_pos rfl, show BitVec.ofNat 64 0 = p.chunkSize from hsize.symm] at hlast
  let after (_ : List Trailer) : Loop :=
    ({ p with state := .chunkSizeNewLine_2, chunkSizeStr := [] },
      { req with content := b.content })
  have htrailer : ∀ ts t, Eats (step memory) (after ts) t.bytes (after (ts ++ [t])) := fun _ t =>
    eats_trailer t hlen hsize
  have htrailers := Eats.flatMap htrailer [] b.trailers
  exact ((hchunks.append hlast).append htrailers).snoc rfl

end HttpRequestParser

/-- **Chunks are decoded to their data**, whatever comes after the body. -/
theorem PostHead.parse_chunked {memory : Nat} (r : PostHead)
    (hfit : ∀ l ∈ r.headers, l.item.refused memory = none)
    (hch : ∃ l ∈ r.headers, l.item.isChunked = true) (b : ChunkedBody)
    (hlen : refusal memory b.content.length = none) (rest : Bytes) :
    parse memory (r.bytes ++ (b.bytes ++ rest)) =
      .ok (.parsingCompleted, { setKeepAlive r.request with content := b.content }) := by
  have hchunked : (announced r.request.headers).2 = true := by
    simpa [announced, request] using hch
  have hcontent : (setKeepAlive r.request).content = [] := setKeepAlive_content r.request
  have hblank := r.toHead.step_blank memory (chr '\n')
  rw [toHead_announces, toHead_request, hchunked, if_pos rfl] at hblank
  have hbody := eats_body (r.toHead.parser .chunkSize) b hcontent hlen rfl
  have hbytes : b.bytes ++ rest =
      b.chunks.flatMap Chunk.bytes ++ b.last.bytes ++ b.trailers.flatMap Trailer.bytes ++
        [chr '\r'] ++ chr '\n' :: rest := by
    simp [ChunkedBody.bytes, CRLF]
  rw [r.parse_bytes hfit, scan, hblank]
  dsimp only
  rw [hbytes]
  exact scan_stop hbody rfl rest

/-- A chunk with the canonical size line. -/
def Chunk.ofData (data : Bytes) (h : data ≠ [] ∧ data.length ≤ maxSize) : Chunk :=
  ⟨data, .hex data.length h.2, h.1⟩

/-- Two chunks, a last one with an extension, and a trailer. -/
def sampleBody : ChunkedBody where
  chunks := [.ofData (utf8 "pa") (by decide), .ofData (utf8 "ge and more text") (by decide)]
  last := ⟨utf8 "00", some ⟨utf8 "a b", some (utf8 "1"), forall_mem_of_all (by decide),
    fun v hv => by cases hv; exact forall_mem_of_all (by decide)⟩, forall_mem_of_all (by decide),
    by decide⟩
  trailers := [⟨chr 'd', utf8 "ate", utf8 " today", by decide, forall_mem_of_all (by decide),
    forall_mem_of_all (by decide)⟩]

/-- `PUT /a HTTP/1.1`, chunked. -/
def samplePut : PostHead :=
  { samplePost with
    method := utf8 "PUT"
    method_post := .inr rfl
    headers := [⟨utf8 "transfer-encoding", utf8 "Chunked", by decide, forall_mem_of_all (by decide),
      forall_mem_of_all (by decide)⟩] }

theorem parse_chunked_sample :
    parse 4096 (samplePut.bytes ++ (sampleBody.bytes ++ utf8 "rest")) =
      .ok (.parsingCompleted,
        { setKeepAlive samplePut.request with content := sampleBody.content }) :=
  samplePut.parse_chunked (by decide) ⟨_, .head _, by decide⟩ sampleBody (by decide) (utf8 "rest")

end Integratio
