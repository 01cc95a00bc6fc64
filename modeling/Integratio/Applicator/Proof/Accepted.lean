import Integratio.Applicator.Proof.Chunked

/-!
# What the parser accepts

`parse_accepted`: the parser completes on a text exactly when the text begins with a complete
request (`RequestText`), and it throws exactly when the text begins with a request up to a length
that it cannot reserve (`RefusedText`); both with the last byte (`completes_iff`, `throws_iff`). One
direction is `RequestText.stops` and `RefusedText.stops`. For the other, `ReadText` says for each
state what the parser has read so far, and `ReadText.step` what the next byte makes of it.
-/

namespace Integratio

open Scanner HttpRequestParser

variable {memory : Nat} {pre text s : Bytes} {b : UInt8} {req : Request} {e : Throw} {h : Head}
  {f : HeaderField}

/-! ## Every complete request is accepted -/

namespace HttpRequestParser

/-- A text is read to its end without a result, or stops at a result. -/
theorem parse_cases (memory : Nat) (s : Bytes) :
    (∃ l, Eats (step memory) ({}, {}) s l ∧ parse memory s = .ok (.parsingIncompleted, l.2)) ∨
      Stops (step memory) ({}, {}) s (parse memory s) := by
  rcases eats_or_stops (step memory) ({}, {}) s with ⟨l, h⟩ | ⟨r, h⟩
  · exact .inl ⟨l, h, h.scan_eq⟩
  · have he : parse memory (s ++ []) = r := h.scan_eq []
    rw [List.append_nil] at he
    rw [he]
    exact .inr h

end HttpRequestParser

variable (memory) in
theorem Head.eats_skipped (h : Head) (hfit : h.Fits memory) {l : Loop} {skipped : UInt8}
    (hblank : step memory (h.parser .expectingNewline_3, h.request) skipped = .next l)
    {w : Bytes} {l' : Loop} (hw : Eats (step memory) l w l') :
    Eats (step memory) ({}, {}) (h.bytes ++ chr '\r' :: skipped :: w) l' := by
  have hbytes : h.bytes ++ chr '\r' :: skipped :: w = h.bytes ++ [chr '\r'] ++ [skipped] ++ w := by
    simp
  rw [hbytes]
  exact ((h.eats_blank hfit).snoc hblank).append hw

/-- **The parser completes on a complete request**, with its last byte. -/
theorem RequestText.stops (ht : RequestText memory text req) :
    StopsAt (step memory) ({}, {}) text (.ok (.parsingCompleted, req)) := by
  cases ht with
  | short t => exact ⟨_, _, _, rfl, t.eats_text, rfl⟩
  | bare h hfit hno =>
    have hblank := h.step_blank memory (chr '\n')
    rw [hno] at hblank
    exact ⟨_, chr '\n', _, by simp [CRLF], h.eats_blank hfit, hblank⟩
  | sized h skipped content hfit hch hne hlen =>
    obtain ⟨init, b, rfl⟩ := (List.eq_nil_or_concat content).resolve_left hne
    rw [List.concat_eq_append] at hlen ⊢
    rw [List.length_append, List.length_singleton] at hlen
    have hsize : h.announces.1 ≠ 0 := fun h0 => by
      rw [h0, show (0 : BitVec 64).toNat = 0 from rfl] at hlen
      omega
    have hblank := h.step_blank memory skipped
    rw [hch, if_neg Bool.false_ne_true, if_neg hsize] at hblank
    have hcontent : (setKeepAlive h.request).content = [] := setKeepAlive_content h.request
    have hpost := eats_post memory (h.parser .post) (setKeepAlive h.request)
      (n := h.announces.1) (k := 1) hlen (by decide)
    rw [hcontent, List.nil_append] at hpost
    exact ⟨_, b, _, by simp, h.eats_skipped memory hfit hblank hpost, step_post memory _ _ b⟩
  | chunked h skipped body hfit hch hlen =>
    have hblank := h.step_blank memory skipped
    rw [hch, if_pos rfl] at hblank
    have hcontent : (setKeepAlive h.request).content = [] := setKeepAlive_content h.request
    have hbody := eats_body (h.parser .chunkSize) body hcontent hlen rfl
    exact ⟨_, chr '\n', _, by simp [ChunkedBody.bytes, CRLF],
      h.eats_skipped memory hfit hblank hbody, rfl⟩

/-- **A length that cannot be reserved makes the parser throw.** -/
theorem RefusedText.stops (ht : RefusedText memory text e) :
    StopsAt (step memory) ({}, {}) text (.error e) := by
  cases ht with
  | length h f _ hfit hm hbefore hlast => exact h.stops_length f hfit hm hbefore hlast
  | @chunk h skipped chunks n line _ hfit hch hlen hn =>
    have hblank := h.step_blank memory skipped
    rw [hch, if_pos rfl] at hblank
    have hcontent : (setKeepAlive h.request).content = [] := setKeepAlive_content h.request
    have hchunks := eats_chunks memory (h.parser .chunkSize)
      (setKeepAlive h.request) chunks (by rwa [hcontent, List.length_nil, Nat.zero_add]) rfl
    rw [hcontent, List.nil_append] at hchunks
    have hsize := eats_size memory (h.parser .chunkSize)
      { setKeepAlive h.request with content := chunks.flatMap Chunk.data } line
    have hend := step_sizeEnd (h.parser .chunkSize)
      { setKeepAlive h.request with content := chunks.flatMap Chunk.data } line.size_eq hlen
    simp only [hn] at hend
    refine ⟨_, chr '\n', _, ?_, h.eats_skipped memory hfit hblank (hchunks.append hsize), hend⟩
    rw [SizeLine.bytes_eq]
    simp

/-! ## What the parser has read -/

/-- The text behind the URI, in the states of the word that comes there. -/
def versionWords : List (State × String) :=
  [(.requestUri, ""), (.requestHttpVersion_h, " "), (.requestHttpVersion_ht, " H"),
    (.requestHttpVersion_htt, " HT"), (.requestHttpVersion_http, " HTT"),
    (.requestHttpVersion_slash, " HTTP"), (.requestHttpVersion_majorStart, " HTTP/")]

/-- A head with one more header field. -/
def Head.add (h : Head) (f : HeaderField) : Head := { h with headers := h.headers ++ [f] }

/-- In the content: the text and the data of the chunks so far, and what the parser knows of the
chunk that it is in. -/
inductive ReadChunks (memory : Nat) : Bytes → Bytes → State → Bytes → BitVec 64 → Prop
  | size (cs : List Chunk) (z : Bytes) (k : BitVec 64) :
      refusal memory (cs.flatMap Chunk.data).length = none → (∀ b ∈ z, isalnum b) →
      ReadChunks memory (cs.flatMap Chunk.bytes ++ z) (cs.flatMap Chunk.data) .chunkSize z k
  | extName (cs : List Chunk) (z : Bytes) (n : Bytes) (k : BitVec 64) :
      refusal memory (cs.flatMap Chunk.data).length = none → (∀ b ∈ z, isalnum b) →
      (∀ b ∈ n, isSkipped b) →
      ReadChunks memory (cs.flatMap Chunk.bytes ++ (z ++ utf8 ";" ++ n)) (cs.flatMap Chunk.data)
        .chunkExtensionName z k
  | extValue (cs : List Chunk) (z : Bytes) (n v : Bytes) (k : BitVec 64) :
      refusal memory (cs.flatMap Chunk.data).length = none → (∀ b ∈ z, isalnum b) →
      (∀ b ∈ n, isSkipped b) → (∀ b ∈ v, isSkipped b) →
      ReadChunks memory (cs.flatMap Chunk.bytes ++ (z ++ utf8 ";" ++ n ++ utf8 "=" ++ v))
        (cs.flatMap Chunk.data) .chunkExtensionValue z k
  | sizeEnd (cs : List Chunk) (z : Bytes) (x : Option Extension) (k : BitVec 64) :
      refusal memory (cs.flatMap Chunk.data).length = none → (∀ b ∈ z, isalnum b) →
      ReadChunks memory
        (cs.flatMap Chunk.bytes ++ (z ++ (x.map Extension.bytes).getD [] ++ [chr '\r']))
        (cs.flatMap Chunk.data) .chunkSizeNewLine z k
  | data (cs : List Chunk) {n : Nat} (line : SizeLine n) (d : Bytes) (k : BitVec 64) :
      refusal memory ((cs.flatMap Chunk.data).length + n) = none → d.length + k.toNat = n → k ≠ 0 →
      ReadChunks memory (cs.flatMap Chunk.bytes ++ (line.bytes ++ d)) (cs.flatMap Chunk.data ++ d)
        .chunkData [] k
  | dataEnd (cs : List Chunk) (d : Bytes) (line : SizeLine d.length) (k : BitVec 64) :
      refusal memory (cs.flatMap Chunk.data ++ d).length = none → d ≠ [] →
      ReadChunks memory (cs.flatMap Chunk.bytes ++ (line.bytes ++ d)) (cs.flatMap Chunk.data ++ d)
        .chunkDataNewLine_1 [] k
  | dataLine (cs : List Chunk) (d : Bytes) (line : SizeLine d.length) (k : BitVec 64) :
      refusal memory (cs.flatMap Chunk.data ++ d).length = none → d ≠ [] →
      ReadChunks memory (cs.flatMap Chunk.bytes ++ (line.bytes ++ d ++ [chr '\r']))
        (cs.flatMap Chunk.data ++ d) .chunkDataNewLine_2 [] k
  | trailers (cs : List Chunk) (last : SizeLine 0) (ts : List Trailer) (k : BitVec 64) :
      refusal memory (cs.flatMap Chunk.data).length = none →
      ReadChunks memory (cs.flatMap Chunk.bytes ++ last.bytes ++ ts.flatMap Trailer.bytes)
        (cs.flatMap Chunk.data) .chunkSizeNewLine_2 [] k
  | trailerName (cs : List Chunk) (last : SizeLine 0) (ts : List Trailer) (first : UInt8)
      (n : Bytes) (k : BitVec 64) :
      refusal memory (cs.flatMap Chunk.data).length = none → isalpha first →
      (∀ b ∈ n, isalnum b) →
      ReadChunks memory
        (cs.flatMap Chunk.bytes ++ last.bytes ++ ts.flatMap Trailer.bytes ++ first :: n)
        (cs.flatMap Chunk.data) .chunkTrailerName [] k
  | trailerValue (cs : List Chunk) (last : SizeLine 0) (ts : List Trailer) (first : UInt8)
      (n v : Bytes) (k : BitVec 64) :
      refusal memory (cs.flatMap Chunk.data).length = none → isalpha first →
      (∀ b ∈ n, isalnum b) → (∀ b ∈ v, isSkipped b) →
      ReadChunks memory
        (cs.flatMap Chunk.bytes ++ last.bytes ++ ts.flatMap Trailer.bytes ++
          (first :: n ++ utf8 ":" ++ v))
        (cs.flatMap Chunk.data) .chunkTrailerValue [] k
  | trailerEnd (cs : List Chunk) (last : SizeLine 0) (ts : List Trailer) (t : Trailer)
      (w : Bytes) (k : BitVec 64) :
      refusal memory (cs.flatMap Chunk.data).length = none → t.bytes = w ++ [chr '\n'] →
      ReadChunks memory (cs.flatMap Chunk.bytes ++ last.bytes ++ ts.flatMap Trailer.bytes ++ w)
        (cs.flatMap Chunk.data) .chunkSizeNewLine [] k
  | last (cs : List Chunk) (last : SizeLine 0) (ts : List Trailer) (k : BitVec 64) :
      refusal memory (cs.flatMap Chunk.data).length = none →
      ReadChunks memory
        (cs.flatMap Chunk.bytes ++ last.bytes ++ ts.flatMap Trailer.bytes ++ [chr '\r'])
        (cs.flatMap Chunk.data) .chunkSizeNewLine_3 [] k

/-- The text that was read, for each state of the parser. -/
inductive ReadText (memory : Nat) : Bytes → Loop → Prop
  | start : ReadText memory [] ({}, {})
  | method (m : Bytes) : m ≠ [] → (∀ b ∈ m, isToken b) →
      ReadText memory m (inState .requestMethod { method := m })
  | uriStart (m : Bytes) : m ≠ [] → (∀ b ∈ m, isToken b) →
      ReadText memory (m ++ utf8 " ") (inState .requestUriStart { method := m })
  | word (t : Target) (st : State) (w : String) : (st, w) ∈ versionWords →
      ReadText memory (t.text ++ utf8 w) (inState st t.request)
  | major (t : Target) (ds : Bytes) : ds ≠ [] → (∀ b ∈ ds, isDigit b) →
      ReadText memory (t.text ++ utf8 " HTTP/" ++ ds)
        (inState .requestHttpVersion_major { t.request with versionMajor := versionNumber ds })
  | minorStart (t : Target) (ds : Bytes) : ds ≠ [] → (∀ b ∈ ds, isDigit b) →
      ReadText memory (t.text ++ utf8 " HTTP/" ++ ds ++ utf8 ".")
        (inState .requestHttpVersion_minorStart { t.request with versionMajor := versionNumber ds })
  | minor (h : Head) : h.headers = [] →
      ReadText memory (h.text ++ utf8 " HTTP/" ++ h.major ++ utf8 "." ++ h.minor)
        (inState .requestHttpVersion_minor h.request)
  | lineEnd (h : Head) : h.headers = [] →
      ReadText memory (h.text ++ utf8 " HTTP/" ++ h.major ++ utf8 "." ++ h.minor ++ [chr '\r'])
        (inState .responseHttpVersion_newLine h.request)
  | lineStart (h : Head) : h.Fits memory →
      ReadText memory h.bytes (h.parser .headerLineStart, h.request)
  | blanks (h : Head) (bl : Bytes) : h.Fits memory → h.headers ≠ [] → bl ≠ [] →
      (∀ b ∈ bl, b = chr ' ' ∨ b = chr '\t') →
      ReadText memory (h.bytes ++ bl) (h.parser .headerLws, h.request)
  | name (h : Head) (n : Bytes) : h.Fits memory → n ≠ [] → (∀ b ∈ n, isToken b) →
      ReadText memory (h.bytes ++ n)
        (h.parser .headerName, { h.request with headers := h.request.headers ++ [⟨n, []⟩] })
  | colon (h : Head) (n : Bytes) : h.Fits memory → n ≠ [] → (∀ b ∈ n, isToken b) →
      ReadText memory (h.bytes ++ n ++ utf8 ":")
        (h.parser .spaceBeforeHeaderValue,
          { h.request with headers := h.request.headers ++ [⟨n, []⟩] })
  | value (h : Head) (f : HeaderField) : h.Fits memory →
      (posts h.method → ∀ i ∈ f.items.dropLast, i.refused memory = none) →
      (∀ x ∈ f.folds.getLast?, x.value ≠ []) →
      ReadText memory (h.bytes ++ f.text)
        (afterLines .headerValue h.method (h.items ++ f.items.dropLast), (h.add f).request)
  | valueEnd (h : Head) (w : Bytes) : h.Fits memory → h.bytes = w ++ [chr '\n'] →
      ReadText memory w (h.parser .expectingNewline_2, h.request)
  | blank (h : Head) : h.Fits memory →
      ReadText memory (h.bytes ++ [chr '\r']) (h.parser .expectingNewline_3, h.request)
  | post (h : Head) (skipped : UInt8) (content : Bytes) (n : BitVec 64) : h.Fits memory →
      h.announces.2 = false → n ≠ 0 → content.length + n.toNat = h.announces.1.toNat →
      ReadText memory (h.bytes ++ chr '\r' :: skipped :: content)
        ({ h.parser .post with contentSize := n },
          { setKeepAlive h.request with content := content })
  | chunks (h : Head) (skipped : UInt8) {w content z : Bytes} {st : State} {k : BitVec 64} :
      h.Fits memory → h.announces.2 = true → ReadChunks memory w content st z k →
      ReadText memory (h.bytes ++ chr '\r' :: skipped :: w)
        ({ h.parser st with chunkSizeStr := z, chunkSize := k },
          { setKeepAlive h.request with content := content })

/-- What the next byte makes of the text. -/
def After (memory : Nat) (text : Bytes) : Next Loop Outcome → Prop
  | .next l => ReadText memory text l
  | .stop (.error e) => RefusedText memory text e
  | .stop (.ok (res, req)) => res = .parsingCompleted → RequestText memory text req

variable {p : HttpRequestParser} {st : State} {c : UInt8}

theorem After.error : After memory text (ret req .parsingError) := nofun

theorem After.expect (h : ReadText memory (pre ++ [c]) ({ p with state := st }, req)) :
    After memory (pre ++ [b]) (expect p req b c st) := by
  unfold HttpRequestParser.expect
  split
  · rename_i hb
    subst hb
    exact h
  · exact .error

/-! ## The request line -/

theorem ReadText.step_method {m : Bytes} (hne : m ≠ []) (hm : ∀ b ∈ m, isToken b) (b : UInt8) :
    After memory (m ++ [b]) (step memory (inState .requestMethod { method := m }) b) := by
  dsimp only [step, inState]
  split
  · rename_i hb
    subst hb
    exact .uriStart m hne hm
  · split
    · exact .error
    · rename_i hb
      refine .method (m ++ [b]) (by simp) ?_
      exact List.forall_mem_append.2 ⟨hm, by simpa using hb⟩

theorem ReadText.step_uriStart {m : Bytes} (hne : m ≠ []) (hm : ∀ b ∈ m, isToken b) (b : UInt8) :
    After memory (m ++ utf8 " " ++ [b])
      (step memory (inState .requestUriStart { method := m }) b) := by
  dsimp only [step, inState]
  split
  · exact .error
  · rename_i hb
    have h : ReadText memory _ _ := .word
      ⟨m, [b], hne, hm, by simp, by simpa using hb, by simp⟩ .requestUri "" (by decide)
    rw [show utf8 "" = [] from rfl, List.append_nil] at h
    exact h

theorem ReadText.step_uri (t : Target) (b : UInt8) :
    After memory (t.text ++ [b]) (step memory (inState .requestUri t.request) b) := by
  dsimp only [step, inState]
  split
  · rename_i hb
    subst hb
    exact .word t .requestHttpVersion_h " " (by decide)
  · rename_i hsp
    split
    · rename_i hb
      subst hb
      exact fun _ => .short t
    · split
      · exact .error
      · rename_i hb
        have h : ReadText memory _ _ := .word
          { t with
            uri := t.uri ++ [b]
            uri_ne := by simp
            uri_plain := List.forall_mem_append.2 ⟨t.uri_plain, by simpa using hb⟩
            uri_blank := by
              rw [List.tail_append_of_ne_nil t.uri_ne]
              exact List.forall_mem_append.2 ⟨t.uri_blank, by simpa using hsp⟩ }
          .requestUri "" (by decide)
        have htext : t.text ++ [b] = t.method ++ utf8 " " ++ (t.uri ++ [b]) ++ utf8 "" := by
          simp [Target.text, show utf8 "" = [] from rfl]
        rw [htext]
        exact h

/-- The word behind the URI, and the first digit of the version. -/
theorem ReadText.step_word (t : Target) {st : State} {w : String} (hw : (st, w) ∈ versionWords)
    (b : UInt8) :
    After memory (t.text ++ utf8 w ++ [b]) (step memory (inState st t.request) b) := by
  -- one more character of the word
  have hmore : ∀ {c : Char} {st' : State} (more : String), (st', more) ∈ versionWords →
      utf8 more = utf8 w ++ [chr c] →
      ReadText memory (t.text ++ utf8 w ++ [chr c]) (inState st' t.request) := by
    intro c st' more hmem he
    rw [List.append_assoc, ← he]
    exact .word t st' more hmem
  simp only [versionWords, List.mem_cons, Prod.mk.injEq, List.not_mem_nil, or_false] at hw
  rcases hw with ⟨rfl, rfl⟩ | ⟨rfl, rfl⟩ | ⟨rfl, rfl⟩ | ⟨rfl, rfl⟩ | ⟨rfl, rfl⟩ | ⟨rfl, rfl⟩ |
    ⟨rfl, rfl⟩
  · rw [show utf8 "" = [] from rfl, List.append_nil]
    exact step_uri t b
  · exact .expect (hmore " H" (by decide) (by decide))
  · exact .expect (hmore " HT" (by decide) (by decide))
  · exact .expect (hmore " HTT" (by decide) (by decide))
  · exact .expect (hmore " HTTP" (by decide) (by decide))
  · dsimp only [step, inState]
    split
    · rename_i hb
      subst hb
      exact hmore " HTTP/" (by decide) (by decide)
    · exact .error
  · dsimp only [step, inState]
    split
    · rename_i hb
      exact .major t [b] (List.cons_ne_nil _ _) (by simpa using hb)
    · exact .error

theorem ReadText.of_version (t : Target) {major minor : Bytes} (hmajor : major ≠ [])
    (hmajors : ∀ b ∈ major, isDigit b) (hminor : minor ≠ []) (hminors : ∀ b ∈ minor, isDigit b) :
    ReadText memory (t.text ++ utf8 " HTTP/" ++ major ++ utf8 "." ++ minor)
      (inState .requestHttpVersion_minor
        { t.request with
          versionMajor := versionNumber major, versionMinor := versionNumber minor }) :=
  .minor { t with
    major := major, minor := minor, headers := []
    major_ne := hmajor, major_digits := hmajors, minor_ne := hminor, minor_digits := hminors } rfl

theorem ReadText.step_major (t : Target) {ds : Bytes} (hne : ds ≠ []) (hds : ∀ b ∈ ds, isDigit b)
    (b : UInt8) :
    After memory (t.text ++ utf8 " HTTP/" ++ ds ++ [b])
      (step memory (inState .requestHttpVersion_major
        { t.request with versionMajor := versionNumber ds }) b) := by
  dsimp only [step, inState]
  split
  · rename_i hb
    subst hb
    exact .minorStart t ds hne hds
  · split
    · rename_i hb
      have h : ReadText memory _ _ := .major t (ds ++ [b]) (by simp)
        (List.forall_mem_append.2 ⟨hds, by simpa using hb⟩)
      rw [versionNumber_concat hne, ← List.append_assoc] at h
      exact h
    · exact .error

theorem ReadText.step_minorStart (t : Target) {ds : Bytes} (hne : ds ≠ [])
    (hds : ∀ b ∈ ds, isDigit b) (b : UInt8) :
    After memory (t.text ++ utf8 " HTTP/" ++ ds ++ utf8 "." ++ [b])
      (step memory (inState .requestHttpVersion_minorStart
        { t.request with versionMajor := versionNumber ds }) b) := by
  dsimp only [step, inState]
  split
  · rename_i hb
    exact ReadText.of_version t hne hds (List.cons_ne_nil _ _) (by simpa using hb)
  · exact .error

theorem ReadText.step_minor (h : Head) (hnil : h.headers = []) (b : UInt8) :
    After memory (h.text ++ utf8 " HTTP/" ++ h.major ++ utf8 "." ++ h.minor ++ [b])
      (step memory (inState .requestHttpVersion_minor h.request) b) := by
  have hreq : h.request = { h.toTarget.request with
      versionMajor := versionNumber h.major, versionMinor := versionNumber h.minor } := by
    simp [Head.request, hnil, Target.request]
  dsimp only [step, inState]
  split
  · rename_i hb
    subst hb
    exact .lineEnd h hnil
  · split
    · rename_i hb
      have hmore : h.minor ++ [b] ≠ [] := by simp
      have hr : ReadText memory _ _ := .of_version h.toTarget h.major_ne h.major_digits hmore
        (List.forall_mem_append.2 ⟨h.minor_digits, by simpa using hb⟩)
      rw [versionNumber_concat h.minor_ne, ← List.append_assoc] at hr
      rw [hreq]
      exact hr
    · exact .error

theorem ReadText.step_lineEnd (h : Head) (hnil : h.headers = []) (b : UInt8) :
    After memory (h.text ++ utf8 " HTTP/" ++ h.major ++ utf8 "." ++ h.minor ++ [chr '\r'] ++ [b])
      (step memory (inState .responseHttpVersion_newLine h.request) b) := by
  have hitems : h.items = [] := by rw [Head.items, hnil, List.flatMap_nil]
  have hr : ReadText memory _ _ := .lineStart h fun _ i hi => by
    rw [hitems] at hi
    cases hi
  have hbytes : h.bytes =
      h.text ++ utf8 " HTTP/" ++ h.major ++ utf8 "." ++ h.minor ++ [chr '\r'] ++ [chr '\n'] := by
    simp [Head.bytes, hnil, CRLF]
  have hparser : h.parser .headerLineStart = { state := .headerLineStart } := by
    rw [Head.parser, hitems, afterLines, announcedFor, announced]
    simp
  rw [hbytes, hparser] at hr
  exact .expect hr

/-! ## Header fields -/

theorem Head.add_bytes (h : Head) (f : HeaderField) : (h.add f).bytes = h.bytes ++ f.bytes := by
  simp [bytes, add]

theorem Head.add_items (h : Head) (f : HeaderField) : (h.add f).items = h.items ++ f.items := by
  simp [items, add]

theorem Head.add_request (h : Head) (f : HeaderField) :
    (h.add f).request = { h.request with headers := h.request.headers ++ [f.item] } := by
  simp [request, add]

theorem Head.add_back (h : Head) (f : HeaderField) (g : HeaderItem → HeaderItem) :
    (h.add f).request.back g = { h.request with headers := h.request.headers ++ [g f.item] } := by
  simp [Request.back, add_request]

theorem Head.Fits.add (hfit : h.Fits memory)
    (hf : posts h.method → ∀ i ∈ f.items, i.refused memory = none) : (h.add f).Fits memory := by
  intro hm i hi
  rw [add_items] at hi
  rcases List.mem_append.1 hi with hi | hi
  · exact hfit hm i hi
  · exact hf hm i hi

theorem Head.exists_add (hne : h.headers ≠ []) : ∃ h₀ f, h = Head.add h₀ f := by
  obtain ⟨fs, f, hfs⟩ := (List.eq_nil_or_concat h.headers).resolve_left hne
  refine ⟨{ h with headers := fs }, f, ?_⟩
  simp only [add, ← List.concat_eq_append, ← hfs]

/-- One more line. -/
def HeaderField.fold (f : HeaderField) (x : Fold) : HeaderField :=
  ⟨f.toHeaderLine, f.folds ++ [x]⟩

/-- One more byte of the value. -/
theorem HeaderField.exists_push (f : HeaderField) (hb : isControl b = false)
    (hlast : ∀ x ∈ f.folds.getLast?, x.value ≠ []) :
    ∃ f' : HeaderField, f'.text = f.text ++ [b] ∧
      f'.item = { f.item with value := f.item.value ++ [b] } ∧
      f'.items.dropLast = f.items.dropLast ∧ ∀ x ∈ f'.folds.getLast?, x.value ≠ [] := by
  obtain ⟨l, xs⟩ := f
  rcases List.eq_nil_or_concat xs with rfl | ⟨xs, x, rfl⟩
  · refine ⟨⟨{ l with value := l.value ++ [b], value_ok := ?_ }, []⟩, ?_, ?_, ?_, by simp⟩
    · exact List.forall_mem_append.2 ⟨l.value_ok, by simpa using hb⟩
    · simp
    · simp [HeaderLine.item]
    · simp
  · rw [List.concat_eq_append] at hlast ⊢
    have hx : x.value ≠ [] := hlast x (by simp)
    have hhead : (x.value ++ [b]).head? ≠ some (chr ' ') := by
      rw [List.head?_append_of_ne_nil _ hx]
      exact x.value_head
    refine ⟨⟨l, xs ++ [{ x with
      value := x.value ++ [b]
      value_ok := List.forall_mem_append.2 ⟨x.value_ok, by simpa using hb⟩
      value_head := hhead }]⟩, ?_, ?_, ?_, by simp⟩
    · simp [text_concat]
    · simp [item_concat]
    · simp [items_concat]

theorem ReadText.step_lineStart (hfit : h.Fits memory) (b : UInt8) :
    After memory (h.bytes ++ [b])
      (step memory (h.parser .headerLineStart, h.request) b) := by
  dsimp only [step, Head.parser, afterLines]
  split
  · rename_i hb
    subst hb
    exact .blank h hfit
  · split
    · rename_i hb
      refine .blanks h [b] hfit (fun hnil => hb.1 ?_) (List.cons_ne_nil _ _) (by simpa using hb.2)
      rw [Head.request, hnil, List.map_nil]
    · split
      · exact .error
      · rename_i hb
        exact .name h [b] hfit (List.cons_ne_nil _ _) (by simpa using hb)

theorem ReadText.step_name (hfit : h.Fits memory) {n : Bytes} (hne : n ≠ [])
    (hn : ∀ b ∈ n, isToken b) (b : UInt8) :
    After memory (h.bytes ++ n ++ [b])
      (step memory (h.parser .headerName,
        { h.request with headers := h.request.headers ++ [⟨n, []⟩] }) b) := by
  dsimp only [step, Head.parser, afterLines]
  split
  · rename_i hb
    subst hb
    exact .colon h n hfit hne hn
  · split
    · exact .error
    · rename_i hb
      have hr := ReadText.name h (n ++ [b]) hfit (by simp)
        (List.forall_mem_append.2 ⟨hn, by simpa using hb⟩)
      have hback : Request.back { h.request with headers := h.request.headers ++ [⟨n, []⟩] }
          (fun i => { i with name := i.name ++ [b] }) =
            { h.request with headers := h.request.headers ++ [⟨n ++ [b], []⟩] } := by
        simp [Request.back]
      rw [← List.append_assoc] at hr
      rw [hback]
      exact hr

theorem ReadText.step_colon (hfit : h.Fits memory) {n : Bytes} (hne : n ≠ [])
    (hn : ∀ b ∈ n, isToken b) (b : UInt8) :
    After memory (h.bytes ++ n ++ utf8 ":" ++ [b])
      (step memory (h.parser .spaceBeforeHeaderValue,
        { h.request with headers := h.request.headers ++ [⟨n, []⟩] }) b) := by
  have hr := ReadText.value h ⟨⟨n, [], hne, hn, by simp⟩, []⟩ hfit (by simp) (by simp)
  have hcolon : utf8 ": " = utf8 ":" ++ [chr ' '] := by decide
  rw [HeaderField.text_nil, HeaderField.items_nil, Head.add_request, HeaderField.item_nil, hcolon,
    List.dropLast_singleton, List.append_nil, List.append_nil, ← List.append_assoc,
    ← List.append_assoc] at hr
  exact .expect hr

section
variable {bl : Bytes} (hbl : bl ≠ []) (hok : ∀ b ∈ bl, b = chr ' ' ∨ b = chr '\t')
include hbl hok

/-- A line of blanks announces nothing new. -/
theorem ReadText.blankFold (hfit : (h.add f).Fits memory) :
    ReadText memory ((h.add f).bytes ++ bl ++ [chr '\r'])
      ((h.add f).parser .expectingNewline_2, (h.add f).request) := by
  let f' := f.fold ⟨bl, [], hbl, hok, by simp, by simp⟩
  have hitem : f.item ∈ (h.add f).items := by
    rw [Head.add_items, HeaderField.items_eq]
    simp
  have hsame : f'.item = f.item := by simp [f', HeaderField.fold, HeaderField.item]
  have hitems : f'.items = f.items ++ [f.item] := by
    rw [← hsame]
    exact HeaderField.items_concat ..
  have hfit' : (h.add f').Fits memory := by
    intro hm i hi
    rw [Head.add_items, hitems, ← List.append_assoc, ← Head.add_items] at hi
    rcases List.mem_append.1 hi with hi | hi
    · exact hfit hm i hi
    · rw [List.mem_singleton.1 hi]
      exact hfit hm _ hitem
  have hbytes : (h.add f').bytes = (h.add f).bytes ++ bl ++ [chr '\r'] ++ [chr '\n'] := by
    have htext : f'.text = f.bytes ++ (bl ++ []) := HeaderField.text_concat ..
    rw [Head.add_bytes, Head.add_bytes, HeaderField.bytes, htext]
    simp [CRLF]
  have hparser : (h.add f').parser .expectingNewline_2 =
      (h.add f).parser .expectingNewline_2 := by
    rw [Head.parser, Head.parser, Head.add_items, Head.add_items, hitems, HeaderField.items_eq,
      ← List.append_assoc, ← List.append_assoc]
    exact afterLines_twice ..
  have hr := ReadText.valueEnd (h.add f') _ hfit' hbytes
  rw [hparser, Head.add_request, hsame, ← Head.add_request] at hr
  exact hr

/-- Behind the blanks the value goes on. -/
theorem ReadText.foldValue (hfit : (h.add f).Fits memory) (hb : isControl b = false)
    (hsp : b ≠ chr ' ') :
    ReadText memory ((h.add f).bytes ++ bl ++ [b])
      ((h.add f).parser .headerValue,
        (h.add f).request.back fun i => { i with value := i.value ++ [b] }) := by
  have hr := ReadText.value h
    (f.fold ⟨bl, [b], hbl, hok, by simpa using hb, by simpa using hsp⟩)
    (fun hm i hi => hfit hm i (by
      rw [Head.add_items]
      exact List.mem_append_left _ hi))
    (fun hm i hi => hfit hm i (by
      rw [HeaderField.fold, HeaderField.items_concat, List.dropLast_concat] at hi
      rw [Head.add_items]
      exact List.mem_append_right _ hi))
    (by simp [HeaderField.fold])
  rw [HeaderField.fold, HeaderField.text_concat, HeaderField.items_concat,
    List.dropLast_concat, ← Head.add_items, ← List.append_assoc, ← Head.add_bytes,
    ← List.append_assoc, Head.add_request, HeaderField.item_concat] at hr
  rw [Head.add_back]
  exact hr

theorem ReadText.step_blanks (hfit : h.Fits memory) (hne : h.headers ≠ []) (b : UInt8) :
    After memory (h.bytes ++ bl ++ [b]) (step memory (h.parser .headerLws, h.request) b) := by
  obtain ⟨h, f, rfl⟩ := Head.exists_add hne
  dsimp only [step, Head.parser, afterLines]
  split
  · rename_i hb
    subst hb
    exact .blankFold hbl hok hfit
  · split
    · rename_i hb
      have hr := ReadText.blanks (h.add f) (bl ++ [b]) hfit hne (by simp)
        (List.forall_mem_append.2 ⟨hok, by simpa using hb⟩)
      rw [← List.append_assoc] at hr
      exact hr
    · rename_i hsp
      split
      · exact .error
      · rename_i hb
        exact .foldValue hbl hok hfit (by simpa using hb) fun he => hsp (.inl he)

end

theorem ReadText.step_value (hfit : h.Fits memory)
    (hf : posts h.method → ∀ i ∈ f.items.dropLast, i.refused memory = none)
    (hlast : ∀ x ∈ f.folds.getLast?, x.value ≠ []) (b : UInt8) :
    After memory (h.bytes ++ f.text ++ [b])
      (step memory (afterLines .headerValue h.method (h.items ++ f.items.dropLast),
        (h.add f).request) b) := by
  dsimp only [step, afterLines]
  split
  · rename_i hb
    subst hb
    have hitem : (h.add f).request.headers.getLast? = some f.item := by
      rw [Head.add_request]
      exact List.getLast?_concat ..
    have hend := endValue_eq memory (h.items ++ f.items.dropLast) hitem
    rw [List.append_assoc, ← HeaderField.items_eq, ← Head.add_items] at hend
    have hlines : After memory (h.bytes ++ f.text ++ [chr '\r'])
        (endValue memory (afterLines .headerValue (h.add f).request.method
          (h.items ++ f.items.dropLast)) (h.add f).request) := by
      rw [hend]
      cases hr : if posts (h.add f).request.method then f.item.refused memory else none with
      | some e =>
        obtain ⟨hm, hr⟩ : posts h.method ∧ f.item.refused memory = some e := by
          split at hr
          · rename_i hm
            exact ⟨hm, hr⟩
          · cases hr
        exact .length h f e hfit hm (hf hm) hr
      | none =>
        refine .valueEnd (h.add f) _ (hfit.add fun hm i hi => ?_) ?_
        · rw [HeaderField.items_eq] at hi
          rcases List.mem_append.1 hi with hi | hi
          · exact hf hm i hi
          · rw [List.mem_singleton.1 hi]
            exact (if_pos (show posts (h.add f).request.method from hm)).symm.trans hr
        · rw [Head.add_bytes, HeaderField.bytes]
          simp [CRLF]
    exact hlines
  · split
    · exact .error
    · rename_i hb
      obtain ⟨f', htext, hitem, hitems, hlast'⟩ := f.exists_push (b := b) (by simpa using hb) hlast
      have hr := ReadText.value h f' hfit (by rw [hitems]; exact hf) hlast'
      rw [htext, hitems, ← List.append_assoc, Head.add_request, hitem] at hr
      rw [Head.add_back]
      exact hr

theorem ReadText.step_valueEnd {w : Bytes} (hfit : h.Fits memory) (hw : h.bytes = w ++ [chr '\n'])
    (b : UInt8) :
    After memory (w ++ [b]) (step memory (h.parser .expectingNewline_2, h.request) b) := by
  have hr := ReadText.lineStart h hfit
  rw [hw] at hr
  exact .expect hr

/-! ## Content -/

theorem setKeepAlive_no_content (h : Head) :
    setKeepAlive h.request = { setKeepAlive h.request with content := [] } := by
  obtain ⟨k, hk⟩ := setKeepAlive_eq h.request
  rw [hk]
  rfl

theorem ReadText.step_blank (hfit : h.Fits memory) (b : UInt8) :
    After memory (h.bytes ++ [chr '\r'] ++ [b])
      (step memory (h.parser .expectingNewline_3, h.request) b) := by
  have hbytes : h.bytes ++ [chr '\r'] ++ [b] = h.bytes ++ chr '\r' :: [b] := by simp
  rw [Head.step_blank, hbytes]
  cases hch : h.announces.2 with
  | true =>
    have hr := ReadText.chunks h b hfit hch (.size [] [] 0 (refusal_eq_none.2 ⟨by simp, by simp⟩)
      (by simp))
    rw [if_pos rfl, setKeepAlive_no_content]
    exact hr
  | false =>
    rw [if_neg Bool.false_ne_true]
    by_cases hsize : h.announces.1 = 0
    · rw [if_pos hsize]
      split
      · rename_i hb
        subst hb
        exact fun _ => .bare h hfit (Prod.ext hsize hch)
      · exact .error
    · have hr := ReadText.post h b [] h.announces.1 hfit hch hsize (by simp)
      rw [if_neg hsize, setKeepAlive_no_content]
      exact hr

theorem ReadText.step_post (hfit : h.Fits memory) (hch : h.announces.2 = false) {skipped : UInt8}
    {content : Bytes} {n : BitVec 64} (hn : n ≠ 0)
    (hlen : content.length + n.toNat = h.announces.1.toNat) (b : UInt8) :
    After memory (h.bytes ++ chr '\r' :: skipped :: content ++ [b])
      (step memory ({ h.parser .post with contentSize := n },
        { setKeepAlive h.request with content := content }) b) := by
  have hpos : n.toNat ≠ 0 := fun h0 => hn (BitVec.eq_of_toNat_eq h0)
  have hpred : (n - 1).toNat = n.toNat - 1 := toNat_pred (by omega)
  have htext : h.bytes ++ chr '\r' :: skipped :: content ++ [b] =
      h.bytes ++ chr '\r' :: skipped :: (content ++ [b]) := by simp
  have hlength : (content ++ [b]).length = content.length + 1 := by simp
  rw [htext]
  dsimp only [step, Head.parser, afterLines]
  split
  · rename_i hlast
    rw [hlast, show (0 : BitVec 64).toNat = 0 from rfl] at hpred
    refine fun _ => .sized h skipped (content ++ [b]) hfit hch (by simp) ?_
    omega
  · rename_i hmore
    refine .post h skipped (content ++ [b]) (n - 1) hfit hch hmore ?_
    omega

/-! ## Chunks -/

theorem strtol_nonneg {z : Bytes} (hz : ∀ b ∈ z, isalnum b) (base : Nat) : 0 ≤ strtol z base := by
  have hspace : z.dropWhile isspace = z := by
    cases z with
    | nil => rfl
    | cons b z => simp [isspace_of_isalnum (hz b (.head _))]
  have hminus : z.head? ≠ some (chr '-') := fun h =>
    ne_of_isalnum (hz _ (List.mem_of_mem_head? h)) (by decide) rfl
  simp only [strtol, hspace, hminus, false_or, if_false]
  omega

section
variable {w w' content z : Bytes} {k : BitVec 64} {skipped : UInt8} {cs : List Chunk}

theorem ReadChunks.cast (hr : ReadChunks memory w content st z k) (hw : w = w') :
    ReadChunks memory w' content st z k := hw ▸ hr

theorem After.notLineEnd {p : HttpRequestParser} (hst : p.state = .chunkSizeNewLine)
    (hb : b ≠ chr '\n') : After memory text (HttpRequestParser.step memory (p, req) b) := by
  have hno : HttpRequestParser.step memory (p, req) b = ret req .parsingError := by
    simp only [HttpRequestParser.step, hst]
    exact if_neg hb
  rw [hno]
  exact .error

section
variable (hfit : h.Fits memory) (hch : h.announces.2 = true)
include hfit hch

theorem After.chunks (hr : ReadChunks memory (w ++ [b]) content st z k) :
    After memory (h.bytes ++ chr '\r' :: skipped :: w ++ [b])
      (.next ({ h.parser st with chunkSizeStr := z, chunkSize := k },
        { setKeepAlive h.request with content := content })) := by
  have hnext := ReadText.chunks h skipped hfit hch hr
  have htext : h.bytes ++ chr '\r' :: skipped :: w ++ [b] =
      h.bytes ++ chr '\r' :: skipped :: (w ++ [b]) := by simp
  rw [htext]
  exact hnext

/-! The line in front of a chunk. -/

section
variable (hlen : refusal memory (cs.flatMap Chunk.data).length = none)
include hlen

theorem ReadChunks.step_size (hz : ∀ b ∈ z, isalnum b) (k : BitVec 64) (b : UInt8) :
    After memory (h.bytes ++ chr '\r' :: skipped :: (cs.flatMap Chunk.bytes ++ z) ++ [b])
      (step memory ({ h.parser .chunkSize with chunkSizeStr := z, chunkSize := k },
        { setKeepAlive h.request with content := cs.flatMap Chunk.data }) b) := by
  dsimp only [HttpRequestParser.step, Head.parser, afterLines]
  split
  · rename_i hb
    have hnext := ReadChunks.size cs (z ++ [b]) k hlen
      (List.forall_mem_append.2 ⟨hz, by simpa using hb⟩)
    exact .chunks hfit hch (hnext.cast (by simp))
  · split
    · rename_i hb
      subst hb
      have hnext := ReadChunks.extName cs z [] k hlen hz (by simp)
      exact .chunks hfit hch (hnext.cast (by simp [show utf8 ";" = [chr ';'] by decide]))
    · split
      · rename_i hb
        subst hb
        have hnext := ReadChunks.sizeEnd cs z none k hlen hz
        exact .chunks hfit hch (hnext.cast (by simp))
      · exact .error

theorem ReadChunks.step_extName (hz : ∀ b ∈ z, isalnum b) {n : Bytes} (hn : ∀ b ∈ n, isSkipped b)
    (k : BitVec 64) (b : UInt8) :
    After memory
      (h.bytes ++ chr '\r' :: skipped :: (cs.flatMap Chunk.bytes ++ (z ++ utf8 ";" ++ n)) ++ [b])
      (step memory ({ h.parser .chunkExtensionName with chunkSizeStr := z, chunkSize := k },
        { setKeepAlive h.request with content := cs.flatMap Chunk.data }) b) := by
  dsimp only [HttpRequestParser.step, Head.parser, afterLines]
  split
  · rename_i hb
    have hnext := ReadChunks.extName cs z (n ++ [b]) k hlen hz
      (List.forall_mem_append.2 ⟨hn, by simpa [isSkipped] using hb⟩)
    exact .chunks hfit hch (hnext.cast (by simp))
  · split
    · rename_i hb
      subst hb
      have hnext := ReadChunks.extValue cs z n [] k hlen hz hn (by simp)
      exact .chunks hfit hch (hnext.cast (by simp [show utf8 "=" = [chr '='] by decide]))
    · split
      · rename_i hb
        subst hb
        have hnext := ReadChunks.sizeEnd cs z (some ⟨n, none, hn, by simp⟩) k hlen hz
        exact .chunks hfit hch (hnext.cast (by simp [Extension.bytes]))
      · exact .error

theorem ReadChunks.step_extValue (hz : ∀ b ∈ z, isalnum b) {n v : Bytes}
    (hn : ∀ b ∈ n, isSkipped b) (hv : ∀ b ∈ v, isSkipped b) (k : BitVec 64) (b : UInt8) :
    After memory
      (h.bytes ++ chr '\r' :: skipped ::
        (cs.flatMap Chunk.bytes ++ (z ++ utf8 ";" ++ n ++ utf8 "=" ++ v)) ++ [b])
      (step memory ({ h.parser .chunkExtensionValue with chunkSizeStr := z, chunkSize := k },
        { setKeepAlive h.request with content := cs.flatMap Chunk.data }) b) := by
  dsimp only [HttpRequestParser.step, Head.parser, afterLines]
  split
  · rename_i hb
    have hnext := ReadChunks.extValue cs z n (v ++ [b]) k hlen hz hn
      (List.forall_mem_append.2 ⟨hv, by simpa [isSkipped] using hb⟩)
    exact .chunks hfit hch (hnext.cast (by simp))
  · split
    · rename_i hb
      subst hb
      have hnext := ReadChunks.sizeEnd cs z (some ⟨n, some v, hn, by simpa using hv⟩) k hlen hz
      exact .chunks hfit hch (hnext.cast (by simp [Extension.bytes]))
    · exact .error

theorem ReadChunks.step_sizeEnd (hz : ∀ b ∈ z, isalnum b) (x : Option Extension) (k : BitVec 64)
    (b : UInt8) :
    After memory (h.bytes ++ chr '\r' :: skipped ::
        (cs.flatMap Chunk.bytes ++ (z ++ (x.map Extension.bytes).getD [] ++ [chr '\r'])) ++ [b])
      (step memory ({ h.parser .chunkSizeNewLine with chunkSizeStr := z, chunkSize := k },
        { setKeepAlive h.request with content := cs.flatMap Chunk.data }) b) := by
  by_cases hb : b = chr '\n'
  · subst hb
    obtain ⟨n, hn⟩ := Int.eq_ofNat_of_zero_le (strtol_nonneg hz 16)
    have hend := HttpRequestParser.step_sizeEnd { h.parser .chunkSizeNewLine with chunkSize := k }
      { setKeepAlive h.request with content := cs.flatMap Chunk.data } hn hlen
    refine (congrArg (After memory _) hend).mpr ?_
    dsimp only
    cases hr : refusal memory ((cs.flatMap Chunk.data).length + n) with
    | some e =>
      have hbytes : h.bytes ++ chr '\r' :: skipped :: (cs.flatMap Chunk.bytes ++
          (z ++ (x.map Extension.bytes).getD [] ++ [chr '\r'])) ++ [chr '\n'] =
            h.bytes ++ chr '\r' :: skipped :: (cs.flatMap Chunk.bytes ++
              SizeLine.bytes ⟨z, x, hz, hn⟩) := by
        simp [SizeLine.bytes, CRLF]
      rw [hbytes]
      exact .chunk h skipped cs ⟨z, x, hz, hn⟩ e hfit hch hlen hr
    | none =>
      by_cases h0 : n = 0
      · subst h0
        have hnext := ReadChunks.trailers cs ⟨z, x, hz, hn⟩ [] (BitVec.ofNat 64 0) hlen
        exact .chunks hfit hch (hnext.cast (by simp [SizeLine.bytes, CRLF]))
      · have hmax := strtol_le z 16
        have hnat : (BitVec.ofNat 64 n).toNat = n := by
          rw [BitVec.toNat_ofNat, Nat.mod_eq_of_lt (by omega)]
        have hk : BitVec.ofNat 64 n ≠ 0 := fun he => h0 (by rw [← hnat, he]; rfl)
        have hnext := ReadChunks.data cs ⟨z, x, hz, hn⟩ [] (BitVec.ofNat 64 n) hr
          (by rw [hnat, List.length_nil, Nat.zero_add]) hk
        simp only [List.append_nil] at hnext
        simp only [h0, if_false]
        exact .chunks hfit hch (hnext.cast (by simp [SizeLine.bytes, CRLF]))
  · exact .notLineEnd rfl hb

end

/-! The data of a chunk. -/

theorem ReadChunks.step_data (cs : List Chunk) {n : Nat} (line : SizeLine n) {d : Bytes}
    (hlen : refusal memory ((cs.flatMap Chunk.data).length + n) = none)
    (hd : d.length + k.toNat = n) (hk : k ≠ 0) (b : UInt8) :
    After memory
      (h.bytes ++ chr '\r' :: skipped :: (cs.flatMap Chunk.bytes ++ (line.bytes ++ d)) ++ [b])
      (step memory ({ h.parser .chunkData with chunkSizeStr := [], chunkSize := k },
        { setKeepAlive h.request with content := cs.flatMap Chunk.data ++ d }) b) := by
  have hpos : k.toNat ≠ 0 := fun h0 => hk (BitVec.eq_of_toNat_eq h0)
  have hpred : (k - 1).toNat = k.toNat - 1 := toNat_pred (by omega)
  have hlength : (d ++ [b]).length = d.length + 1 := by simp
  show After memory _ (goto _ _ (if k - 1 = 0 then .chunkDataNewLine_1 else .chunkData))
  by_cases h0 : k - 1 = 0
  · obtain rfl : n = (d ++ [b]).length := by
      rw [h0, show (0 : BitVec 64).toNat = 0 from rfl] at hpred
      omega
    have hnext := ReadChunks.dataEnd cs (d ++ [b]) line (k - 1)
      (by rwa [List.length_append]) (by simp)
    rw [← List.append_assoc (cs.flatMap Chunk.data)] at hnext
    rw [if_pos h0]
    exact .chunks hfit hch (hnext.cast (by simp))
  · have hnext := ReadChunks.data cs line (d ++ [b]) (k - 1) hlen (by omega) h0
    rw [← List.append_assoc (cs.flatMap Chunk.data)] at hnext
    rw [if_neg h0]
    exact .chunks hfit hch (hnext.cast (by simp))

theorem ReadChunks.step_dataLine (cs : List Chunk) {d : Bytes} (line : SizeLine d.length)
    (hlen : refusal memory (cs.flatMap Chunk.data ++ d).length = none) (hd : d ≠ [])
    (k : BitVec 64) (b : UInt8) :
    After memory
      (h.bytes ++ chr '\r' :: skipped ::
        (cs.flatMap Chunk.bytes ++ (line.bytes ++ d ++ [chr '\r'])) ++ [b])
      (step memory ({ h.parser .chunkDataNewLine_2 with chunkSizeStr := [], chunkSize := k },
        { setKeepAlive h.request with content := cs.flatMap Chunk.data ++ d }) b) := by
  have hnext := ReadChunks.size (cs ++ [⟨d, line, hd⟩]) [] k (by simpa using hlen) (by simp)
  have hdata : (cs ++ [(⟨d, line, hd⟩ : Chunk)]).flatMap Chunk.data =
      cs.flatMap Chunk.data ++ d := by simp
  rw [hdata] at hnext
  exact .expect (After.chunks hfit hch (hnext.cast (by simp [Chunk.bytes, CRLF])))

/-! The lines after the last chunk. -/

section
variable (last : SizeLine 0) (ts : List Trailer)
  (hlen : refusal memory (cs.flatMap Chunk.data).length = none)
include hlen

theorem ReadChunks.step_trailers (k : BitVec 64) (b : UInt8) :
    After memory
      (h.bytes ++ chr '\r' :: skipped ::
        (cs.flatMap Chunk.bytes ++ last.bytes ++ ts.flatMap Trailer.bytes) ++ [b])
      (step memory ({ h.parser .chunkSizeNewLine_2 with chunkSizeStr := [], chunkSize := k },
        { setKeepAlive h.request with content := cs.flatMap Chunk.data }) b) := by
  dsimp only [HttpRequestParser.step, Head.parser, afterLines]
  split
  · rename_i hb
    subst hb
    exact .chunks hfit hch (.last cs last ts k hlen)
  · split
    · rename_i hb
      exact .chunks hfit hch (.trailerName cs last ts b [] k hlen hb (by simp))
    · exact .error

theorem ReadChunks.step_trailerName {first : UInt8} (hf : isalpha first) {n : Bytes}
    (hn : ∀ b ∈ n, isalnum b) (k : BitVec 64) (b : UInt8) :
    After memory
      (h.bytes ++ chr '\r' :: skipped ::
        (cs.flatMap Chunk.bytes ++ last.bytes ++ ts.flatMap Trailer.bytes ++ first :: n) ++ [b])
      (step memory ({ h.parser .chunkTrailerName with chunkSizeStr := [], chunkSize := k },
        { setKeepAlive h.request with content := cs.flatMap Chunk.data }) b) := by
  dsimp only [HttpRequestParser.step, Head.parser, afterLines]
  split
  · rename_i hb
    have hnext := ReadChunks.trailerName cs last ts first (n ++ [b]) k hlen hf
      (List.forall_mem_append.2 ⟨hn, by simpa using hb⟩)
    exact .chunks hfit hch (hnext.cast (by simp))
  · split
    · rename_i hb
      subst hb
      have hnext := ReadChunks.trailerValue cs last ts first n [] k hlen hf hn (by simp)
      exact .chunks hfit hch (hnext.cast (by simp [show utf8 ":" = [chr ':'] by decide]))
    · exact .error

theorem ReadChunks.step_trailerValue {first : UInt8} (hf : isalpha first) {n v : Bytes}
    (hn : ∀ b ∈ n, isalnum b) (hv : ∀ b ∈ v, isSkipped b) (k : BitVec 64) (b : UInt8) :
    After memory
      (h.bytes ++ chr '\r' :: skipped ::
        (cs.flatMap Chunk.bytes ++ last.bytes ++ ts.flatMap Trailer.bytes ++
          (first :: n ++ utf8 ":" ++ v)) ++ [b])
      (step memory ({ h.parser .chunkTrailerValue with chunkSizeStr := [], chunkSize := k },
        { setKeepAlive h.request with content := cs.flatMap Chunk.data }) b) := by
  dsimp only [HttpRequestParser.step, Head.parser, afterLines]
  split
  · rename_i hb
    have hnext := ReadChunks.trailerValue cs last ts first n (v ++ [b]) k hlen hf hn
      (List.forall_mem_append.2 ⟨hv, by simpa [isSkipped] using hb⟩)
    exact .chunks hfit hch (hnext.cast (by simp))
  · split
    · rename_i hb
      subst hb
      have hnext := ReadChunks.trailerEnd cs last ts ⟨first, n, v, hf, hn, hv⟩
        (first :: n ++ utf8 ":" ++ v ++ [chr '\r']) k hlen (by simp [Trailer.bytes, CRLF])
      exact .chunks hfit hch (hnext.cast (by simp))
    · exact .error

theorem ReadChunks.step_trailerEnd (t : Trailer) (hw : t.bytes = w ++ [chr '\n']) (k : BitVec 64)
    (b : UInt8) :
    After memory (h.bytes ++ chr '\r' :: skipped ::
        (cs.flatMap Chunk.bytes ++ last.bytes ++ ts.flatMap Trailer.bytes ++ w) ++ [b])
      (step memory ({ h.parser .chunkSizeNewLine with chunkSizeStr := [], chunkSize := k },
        { setKeepAlive h.request with content := cs.flatMap Chunk.data }) b) := by
  by_cases hb : b = chr '\n'
  · subst hb
    have hend := HttpRequestParser.step_sizeEnd (n := 0)
      { h.parser .chunkSizeNewLine with chunkSize := k }
      { setKeepAlive h.request with content := cs.flatMap Chunk.data }
      (show strtol [] 16 = 0 by decide) hlen
    refine (congrArg (After memory _) hend).mpr ?_
    have hnext := ReadChunks.trailers cs last (ts ++ [t]) (BitVec.ofNat 64 0) hlen
    rw [Nat.add_zero, hlen]
    exact .chunks hfit hch (hnext.cast (by simp [hw]))
  · exact .notLineEnd rfl hb

theorem ReadChunks.step_last (k : BitVec 64) (b : UInt8) :
    After memory
      (h.bytes ++ chr '\r' :: skipped ::
        (cs.flatMap Chunk.bytes ++ last.bytes ++ ts.flatMap Trailer.bytes ++ [chr '\r']) ++ [b])
      (step memory ({ h.parser .chunkSizeNewLine_3 with chunkSizeStr := [], chunkSize := k },
        { setKeepAlive h.request with content := cs.flatMap Chunk.data }) b) := by
  dsimp only [HttpRequestParser.step, Head.parser, afterLines]
  split
  · rename_i hb
    subst hb
    have hbytes : h.bytes ++ chr '\r' :: skipped :: (cs.flatMap Chunk.bytes ++ last.bytes ++
        ts.flatMap Trailer.bytes ++ [chr '\r']) ++ [chr '\n'] =
          h.bytes ++ chr '\r' :: skipped :: ChunkedBody.bytes ⟨cs, last, ts⟩ := by
      simp [ChunkedBody.bytes, CRLF]
    rw [hbytes]
    exact fun _ => .chunked h skipped ⟨cs, last, ts⟩ hfit hch hlen
  · exact .error

end

/-- **Every byte of the chunks** is part of one, or ends the reading. -/
theorem ReadChunks.step (hr : ReadChunks memory w content st z k) (b : UInt8) :
    After memory (h.bytes ++ chr '\r' :: skipped :: w ++ [b])
      (step memory ({ h.parser st with chunkSizeStr := z, chunkSize := k },
        { setKeepAlive h.request with content := content }) b) := by
  cases hr with
  | size _ _ k hlen hz => exact step_size hfit hch hlen hz k b
  | extName _ _ _ k hlen hz hn => exact step_extName hfit hch hlen hz hn k b
  | extValue _ _ _ _ k hlen hz hn hv => exact step_extValue hfit hch hlen hz hn hv k b
  | sizeEnd _ _ x k hlen hz => exact step_sizeEnd hfit hch hlen hz x k b
  | data cs line _ k hlen hd hk => exact step_data hfit hch cs line hlen hd hk b
  | dataEnd cs d line k hlen hd =>
    have hnext := ReadChunks.dataLine cs d line k hlen hd
    exact .expect (After.chunks hfit hch (hnext.cast (by simp)))
  | dataLine cs _ line k hlen hd => exact step_dataLine hfit hch cs line hlen hd k b
  | trailers _ last ts k hlen => exact step_trailers hfit hch last ts hlen k b
  | trailerName _ last ts _ _ k hlen hf hn => exact step_trailerName hfit hch last ts hlen hf hn k b
  | trailerValue _ last ts _ _ _ k hlen hf hn hv =>
    exact step_trailerValue hfit hch last ts hlen hf hn hv k b
  | trailerEnd _ last ts t _ k hlen hw => exact step_trailerEnd hfit hch last ts hlen t hw k b
  | last _ last ts k hlen => exact step_last hfit hch last ts hlen k b

end

end

/-! ## The result -/

/-- **Every byte** goes on with what was read, or ends it. -/
theorem ReadText.step {l : Loop} (hr : ReadText memory pre l) (b : UInt8) :
    After memory (pre ++ [b]) (step memory l b) := by
  cases hr with
  | start =>
    show After memory [b] (if !isToken b then ret {} .parsingError
      else goto {} { method := [b] } .requestMethod)
    split
    · exact .error
    · rename_i hb
      exact .method [b] (List.cons_ne_nil _ _) (by simpa using hb)
  | method _ hne hm => exact step_method hne hm b
  | uriStart m hne hm => exact step_uriStart hne hm b
  | word t st w hw => exact step_word t hw b
  | major t ds hne hds => exact step_major t hne hds b
  | minorStart t ds hne hds => exact step_minorStart t hne hds b
  | minor h hnil => exact step_minor h hnil b
  | lineEnd h hnil => exact step_lineEnd h hnil b
  | lineStart h hfit => exact step_lineStart hfit b
  | blanks h bl hfit hne hbl hok => exact step_blanks hbl hok hfit hne b
  | name h n hfit hne hn => exact step_name hfit hne hn b
  | colon h n hfit hne hn => exact step_colon hfit hne hn b
  | value h f hfit hf hlast => exact step_value hfit hf hlast b
  | valueEnd h _ hfit hw => exact step_valueEnd hfit hw b
  | blank h hfit => exact step_blank hfit b
  | post h skipped content n hfit hch hn hlen => exact step_post hfit hch hn hlen b
  | chunks h skipped hfit hch hr => exact hr.step hfit hch b

/-- What a result says of the text. -/
theorem StopsAt.after {r : Outcome} (hs : StopsAt (step memory) ({}, {}) text r) :
    After memory text (.stop r) := by
  obtain ⟨pre, b, l, rfl, hpre, hstop⟩ := hs
  have hr : ReadText memory pre l := hpre.history (ReadText memory)
    (fun text l b l' hr hs => by
      have ha := hr.step b
      rw [hs] at ha
      exact ha) .start
  have ha := hr.step b
  rwa [hstop] at ha

/-- The parser completes with the last byte of a complete request, and nowhere else. -/
theorem completes_iff : StopsAt (step memory) ({}, {}) text (.ok (.parsingCompleted, req)) ↔
    RequestText memory text req :=
  ⟨fun hs => StopsAt.after hs rfl, RequestText.stops⟩

/-- The parser throws with the last byte of a length that it cannot reserve, and nowhere else. -/
theorem throws_iff : StopsAt (step memory) ({}, {}) text (.error e) ↔ RefusedText memory text e :=
  ⟨StopsAt.after, RefusedText.stops⟩

namespace HttpRequestParser

/-- A result of `parse` comes with the last byte of some beginning of the text. -/
theorem parse_eq_iff {r : Outcome} (hr : ∀ req, r ≠ .ok (.parsingIncompleted, req)) :
    parse memory s = r ↔
      ∃ text, text <+: s ∧ StopsAt (HttpRequestParser.step memory) ({}, {}) text r := by
  constructor
  · intro h
    rcases parse_cases memory s with ⟨l, -, hl⟩ | hs
    · exact absurd (h.symm.trans hl) (hr l.2)
    · rw [h] at hs
      exact hs.exists_prefix
  · rintro ⟨text, hp, hs⟩
    have h : parse memory (s ++ []) = r := (hs.stops hp).scan_eq []
    rwa [List.append_nil] at h

/-- **What the parser accepts, and what it throws at** (module doc). -/
theorem parse_accepted (memory : Nat) (s : Bytes) :
    (∀ req, parse memory s = .ok (.parsingCompleted, req) ↔
        ∃ text, text <+: s ∧ RequestText memory text req) ∧
      ∀ e, parse memory s = .error e ↔ ∃ text, text <+: s ∧ RefusedText memory text e := by
  refine ⟨fun req => ?_, fun e => ?_⟩
  · rw [parse_eq_iff (by simp)]
    simp only [completes_iff]
  · rw [parse_eq_iff (by simp)]
    simp only [throws_iff]

end HttpRequestParser

end Integratio
