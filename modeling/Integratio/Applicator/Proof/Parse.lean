import Integratio.Applicator.Grammar

/-!
# Heads that the parser reads

`Head.eats_bytes`: the parser reads a head, if it can reserve the lengths that it announces, and
knows then what it has read and what is announced (`afterLines`), part by part: `eats_method`,
`eats_uri`, `eats_version`, `HeaderField.eats_bytes`. `endValue_eq` is the end of a line: the parser
goes on or throws.

`RequestHead` is the head of a request other than a POST or a PUT, with one digit versions and no
folded headers. The parser completes on it, whatever comes after it (`RequestHead.parse_bytes`).
-/

namespace Integratio

open Scanner HttpRequestParser

namespace HttpRequestParser

/-- The loop in a state, with nothing known of the content. -/
def inState (st : State) (req : Request) : Loop := ({ state := st }, req)

/-- The parser behind some lines of the headers of a request. -/
def afterLines (st : State) (m : Bytes) (hs : List HeaderItem) : HttpRequestParser :=
  { state := st, contentSize := (announcedFor m hs).1, chunked := (announcedFor m hs).2 }

variable {memory : Nat} {b : UInt8} {m : Bytes} {req : Request} {is hs : List HeaderItem}
  {h : HeaderItem}

theorem isControl_cr : isControl (chr '\r') = true := by decide

/-- A byte of a name is not a mark that ends it. -/
theorem ne_of_isToken {c : UInt8} (hb : isToken b) (hc : isToken c = false) : b ≠ c := by
  rintro rfl
  rw [hb] at hc
  cases hc

theorem ne_of_not_isControl {c : UInt8} (hb : isControl b = false) (hc : isControl c) : b ≠ c := by
  rintro rfl
  rw [hb] at hc
  cases hc

theorem ne_of_isDigit {c : UInt8} (hb : isDigit b) (hc : isDigit c = false) : b ≠ c := by
  rintro rfl
  rw [hb] at hc
  cases hc

/-! ## The request line -/

theorem eats_method {method : Bytes} (hne : method ≠ []) (h : ∀ b ∈ method, isToken b) :
    Eats (step memory) (inState .requestMethodStart {}) (method ++ utf8 " ")
      (inState .requestUriStart { method := method }) := by
  obtain ⟨b, l, rfl⟩ := List.exists_cons_of_ne_nil hne
  have hb := h b (.head _)
  have hfirst : step memory (inState .requestMethodStart {}) b =
      .next (inState .requestMethod { method := [b] }) := by
    simp [step, inState, goto, hb]
  have hrest : Eats (step memory) (inState .requestMethod { method := [b] }) l
      (inState .requestMethod { method := [b] ++ l }) := by
    refine Eats.collect (f := fun m => inState .requestMethod { method := m })
      (p := (isToken ·)) (fun m b hb => ?_) _ fun b hm => h b (.tail _ hm)
    have hsp : b ≠ chr ' ' := ne_of_isToken hb (by decide)
    simp [step, inState, goto, hb, hsp]
  exact .cons hfirst (hrest.snoc rfl)

theorem eats_uri {uri : Bytes} (hne : uri ≠ []) (hplain : ∀ b ∈ uri, isControl b = false)
    (hblank : ∀ b ∈ uri.tail, b ≠ chr ' ') :
    Eats (step memory) (inState .requestUriStart req) uri
      (inState .requestUri { req with uri := req.uri ++ uri }) := by
  obtain ⟨b, l, rfl⟩ := List.exists_cons_of_ne_nil hne
  have hfirst : step memory (inState .requestUriStart req) b =
      .next (inState .requestUri { req with uri := req.uri ++ [b] }) := by
    simp [step, inState, goto, hplain b (.head _)]
  have hrest : Eats (step memory) (inState .requestUri { req with uri := req.uri ++ [b] }) l
      (inState .requestUri { req with uri := req.uri ++ [b] ++ l }) := by
    refine Eats.collect (f := fun m => inState .requestUri { req with uri := m })
      (p := fun b => b ≠ chr ' ' ∧ isControl b = false) (fun m b hb => ?_) _
      fun b hm => ⟨hblank b hm, hplain b (.tail _ hm)⟩
    have hcr : b ≠ chr '\r' := ne_of_not_isControl hb.2 isControl_cr
    simp [step, inState, goto, hb.1, hb.2, hcr]
  rw [List.append_assoc] at hrest
  exact .cons hfirst hrest

theorem versionNumber_concat {ds : Bytes} (hne : ds ≠ []) (d : UInt8) :
    versionNumber (ds ++ [d]) = int32 (versionNumber ds * 10 + d.toNat - 48) := by
  obtain ⟨d₀, ds, rfl⟩ := List.exists_cons_of_ne_nil hne
  simp [versionNumber]

/-- The digits of one number of the version, collected by `f`. -/
theorem eats_digits {f : Bytes → Loop} {l : Loop} {ds : Bytes}
    (hstart : ∀ d, isDigit d → step memory l d = .next (f [d]))
    (hmore : ∀ ds d, ds ≠ [] → isDigit d → step memory (f ds) d = .next (f (ds ++ [d])))
    (hne : ds ≠ []) (hds : ∀ b ∈ ds, isDigit b) : Eats (step memory) l ds (f ds) := by
  obtain ⟨d, ds, rfl⟩ := List.exists_cons_of_ne_nil hne
  have hrest : Eats (step memory) (f [d]) ds (f (d :: ds)) :=
    Eats.collect (f := fun l => f (d :: l)) (p := (isDigit ·))
      (fun l i hi => hmore (d :: l) i (List.cons_ne_nil _ _) hi) [] fun i hi => hds i (.tail _ hi)
  exact .cons (hstart d (hds d (.head _))) hrest

theorem eats_version {major minor : Bytes} (hmajor : major ≠ []) (hmajors : ∀ b ∈ major, isDigit b)
    (hminor : minor ≠ []) (hminors : ∀ b ∈ minor, isDigit b) :
    Eats (step memory) (inState .requestUri req)
      (utf8 " HTTP/" ++ major ++ utf8 "." ++ minor ++ CRLF)
      (inState .headerLineStart
        { req with versionMajor := versionNumber major, versionMinor := versionNumber minor }) := by
  have hname : Eats (step memory) (inState .requestUri req) (utf8 " HTTP/")
      (inState .requestHttpVersion_majorStart { req with versionMajor := 0, versionMinor := 0 }) :=
    .cons rfl (.cons rfl (.cons rfl (.cons rfl (.cons rfl (.single rfl)))))
  let atMajor (ds : Bytes) : Loop := inState .requestHttpVersion_major
    { req with versionMajor := versionNumber ds, versionMinor := 0 }
  have hmaj : Eats (step memory) (inState .requestHttpVersion_majorStart
      { req with versionMajor := 0, versionMinor := 0 }) major (atMajor major) := by
    refine eats_digits (fun d hd => if_pos hd) (fun ds d hne hd => ?_) hmajor hmajors
    have hdot : d ≠ chr '.' := ne_of_isDigit hd (by decide)
    simp [atMajor, step, inState, goto, hdot, hd, versionNumber_concat hne]
  let atMinor (ds : Bytes) : Loop := inState .requestHttpVersion_minor
    { req with versionMajor := versionNumber major, versionMinor := versionNumber ds }
  have hmin : Eats (step memory) (inState .requestHttpVersion_minorStart
      { req with versionMajor := versionNumber major, versionMinor := 0 }) minor
      (atMinor minor) := by
    refine eats_digits (fun d hd => if_pos hd) (fun ds d hne hd => ?_) hminor hminors
    have hcr : d ≠ chr '\r' := ne_of_isDigit hd (by decide)
    simp [atMinor, step, inState, goto, hcr, hd, versionNumber_concat hne]
  exact (((hname.append hmaj).append (.single rfl)).append hmin).append (.cons rfl (.single rfl))

/-! ## The end of a line -/

theorem announced_concat (hs : List HeaderItem) (h : HeaderItem) :
    announced (hs ++ [h]) =
      (if h.isContentLength then h.size else (announced hs).1,
        (announced hs).2 || h.isChunked) := by
  cases hc : h.isContentLength <;> simp [announced, hc]

/-- A line that adds nothing to a value announces nothing new. -/
theorem announced_twice (hs : List HeaderItem) (h : HeaderItem) :
    announced (hs ++ [h] ++ [h]) = announced (hs ++ [h]) := by
  rw [announced_concat, announced_concat]
  cases h.isContentLength <;> simp

theorem afterLines_twice (st : State) (m : Bytes) (hs : List HeaderItem) (h : HeaderItem) :
    afterLines st m (hs ++ [h] ++ [h]) = afterLines st m (hs ++ [h]) := by
  unfold afterLines announcedFor
  rw [announced_twice]

/-- **The end of a header's line**: the parser cannot reserve the length, or goes on. -/
theorem endValue_eq (memory : Nat) (is : List HeaderItem)
    (hreq : req.headers.getLast? = some h) :
    endValue memory (afterLines .headerValue req.method is) req =
      match if posts req.method then h.refused memory else none with
      | some e => .stop (.error e)
      | none => .next (afterLines .expectingNewline_2 req.method (is ++ [h]), req) := by
  unfold endValue
  by_cases hm : posts req.method
  · rw [if_pos (show req.method = utf8 "POST" ∨ req.method = utf8 "PUT" from hm), if_pos hm, hreq]
    dsimp only
    cases hcl : h.isContentLength with
    | true =>
      have hname : strcasecmp h.name (utf8 "Content-Length") = true := hcl
      have hch : h.isChunked = false := by simp [HeaderItem.isChunked, hcl]
      rw [if_pos hname, HeaderItem.refused, hcl, if_pos rfl]
      unfold reserve
      rw [show BitVec.ofInt 64 (atoi h.value) = h.size from rfl]
      cases refusal memory h.size.toNat with
      | some e => rfl
      | none => simp [goto, afterLines, announcedFor, hm, announced_concat, hcl, hch]
    | false =>
      have hname : ¬ strcasecmp h.name (utf8 "Content-Length") = true := by
        rw [show strcasecmp h.name (utf8 "Content-Length") = false from hcl]
        exact Bool.false_ne_true
      rw [if_neg hname, HeaderItem.refused, hcl, if_neg Bool.false_ne_true]
      cases hte : strcasecmp h.name (utf8 "Transfer-Encoding") with
      | true =>
        simp [goto, afterLines, announcedFor, hm, announced_concat, hcl, HeaderItem.isChunked, hte]
      | false =>
        simp [goto, afterLines, announcedFor, hm, announced_concat, hcl, HeaderItem.isChunked, hte]
  · rw [if_neg hm, if_neg (show ¬ (req.method = utf8 "POST" ∨ req.method = utf8 "PUT") from hm)]
    simp [goto, afterLines, announcedFor, hm]

theorem eats_lineEnd (is : List HeaderItem) (hreq : req.headers.getLast? = some h)
    (hfit : posts req.method → h.refused memory = none) :
    Eats (step memory) (afterLines .headerValue req.method is, req) CRLF
      (afterLines .headerLineStart req.method (is ++ [h]), req) := by
  have hnone : (if posts req.method then h.refused memory else none) = none := by
    split
    · rename_i hm
      exact hfit hm
    · rfl
  have hend : step memory (afterLines .headerValue req.method is, req) (chr '\r') =
      .next (afterLines .expectingNewline_2 req.method (is ++ [h]), req) := by
    have h := endValue_eq memory is hreq
    rw [hnone] at h
    exact h
  exact .cons hend (.single rfl)

/-! ## Header fields -/

/-- A name, with the colon and the blank after it. -/
theorem eats_name (p : HttpRequestParser) (req : Request) {name : Bytes} (hne : name ≠ [])
    (h : ∀ b ∈ name, isToken b) :
    Eats (step memory) ({ p with state := .headerLineStart }, req) (name ++ utf8 ": ")
      ({ p with state := .headerValue }, { req with headers := req.headers ++ [⟨name, []⟩] }) := by
  obtain ⟨b, l, rfl⟩ := List.exists_cons_of_ne_nil hne
  have hb := h b (.head _)
  have hfirst : step memory ({ p with state := .headerLineStart }, req) b =
      .next ({ p with state := .headerName },
        { req with headers := req.headers ++ [⟨[b], []⟩] }) := by
    have hcr : b ≠ chr '\r' := ne_of_isToken hb (by decide)
    have hsp : b ≠ chr ' ' := ne_of_isToken hb (by decide)
    have htab : b ≠ chr '\t' := ne_of_isToken hb (by decide)
    simp [step, goto, hb, hcr, hsp, htab]
  let read (n : Bytes) : Loop :=
    ({ p with state := .headerName }, { req with headers := req.headers ++ [⟨n, []⟩] })
  have hrest : Eats (step memory) (read [b]) l (read ([b] ++ l)) := by
    refine Eats.collect (p := (isToken ·)) (fun n b hb => ?_) _ fun b hm => h b (.tail _ hm)
    have hcolon : b ≠ chr ':' := ne_of_isToken hb (by decide)
    simp [read, step, goto, Request.back, hb, hcolon]
  exact .cons hfirst (hrest.append (.cons rfl (.single rfl)))

theorem eats_value (p : HttpRequestParser) (req : Request) (hs : List HeaderItem) (h : HeaderItem)
    {value : Bytes} (hv : ∀ b ∈ value, isControl b = false) :
    Eats (step memory) ({ p with state := .headerValue }, { req with headers := hs ++ [h] }) value
      ({ p with state := .headerValue },
        { req with headers := hs ++ [{ h with value := h.value ++ value }] }) := by
  let read (v : Bytes) : Loop :=
    ({ p with state := .headerValue }, { req with headers := hs ++ [{ h with value := v }] })
  refine Eats.collect (f := read) (p := (isControl · = false)) (fun v b hb => ?_) h.value hv
  have hcr : b ≠ chr '\r' := ne_of_not_isControl hb isControl_cr
  simp [read, step, goto, Request.back, hb, hcr]

theorem eats_blanks (p : HttpRequestParser) (req : Request) (x : Fold) (hne : req.headers ≠ []) :
    Eats (step memory) ({ p with state := .headerLineStart }, req) x.blanks
      ({ p with state := .headerLws }, req) := by
  obtain ⟨b, l, hbl⟩ := List.exists_cons_of_ne_nil x.blanks_ne
  have hok := x.blanks_ok
  rw [hbl] at hok ⊢
  have hcr : ∀ {b : UInt8}, b = chr ' ' ∨ b = chr '\t' → b ≠ chr '\r' := by
    rintro b (rfl | rfl) <;> decide
  have hfirst : step memory ({ p with state := .headerLineStart }, req) b =
      .next ({ p with state := .headerLws }, req) := by
    have hb := hok b (.head _)
    simp [step, goto, hcr hb, hb, hne]
  refine .cons hfirst (Eats.collect (f := fun _ : Bytes => ({ p with state := .headerLws }, req))
    (p := fun b => b = chr ' ' ∨ b = chr '\t') (fun _ b hb => ?_) [] fun b hb => hok b (.tail _ hb))
  simp [step, goto, hcr hb, hb]

/-- A line that goes on with a value, up to its end. -/
theorem eats_fold (p : HttpRequestParser) (req : Request) (hs : List HeaderItem) (h : HeaderItem)
    (x : Fold) (hne : x.value ≠ []) :
    Eats (step memory) ({ p with state := .headerLineStart }, { req with headers := hs ++ [h] })
      (x.blanks ++ x.value)
      ({ p with state := .headerValue },
        { req with headers := hs ++ [{ h with value := h.value ++ x.value }] }) := by
  obtain ⟨b, l, hv⟩ := List.exists_cons_of_ne_nil hne
  have hok := x.value_ok
  have hhead := x.value_head
  rw [hv] at hok hhead ⊢
  have hb := hok b (.head _)
  have hfirst : step memory ({ p with state := .headerLws }, { req with headers := hs ++ [h] }) b =
      .next ({ p with state := .headerValue },
        { req with headers := hs ++ [{ h with value := h.value ++ [b] }] }) := by
    have hcr : b ≠ chr '\r' := ne_of_not_isControl hb isControl_cr
    have htab : b ≠ chr '\t' := ne_of_not_isControl hb (by decide)
    have hsp : b ≠ chr ' ' := fun he => hhead (congrArg some he)
    simp [step, goto, Request.back, hb, hcr, htab, hsp]
  have hrest : Eats (step memory) _ l _ :=
    eats_value p req hs { h with value := h.value ++ [b] } fun c hc => hok c (.tail _ hc)
  simp only [List.append_assoc, List.singleton_append] at hrest
  exact (eats_blanks p _ x (by simp)).append (.cons hfirst hrest)

end HttpRequestParser

namespace HeaderField

variable {memory : Nat} {f : HeaderField} {l : HeaderLine} {xs : List Fold} {x : Fold}

@[simp] theorem text_nil : text ⟨l, []⟩ = l.name ++ utf8 ": " ++ l.value := by simp [text]

theorem text_concat : text ⟨l, xs ++ [x]⟩ = bytes ⟨l, xs⟩ ++ (x.blanks ++ x.value) := by
  simp [text, bytes]

theorem bytes_nil : bytes ⟨l, []⟩ = l.bytes := by simp [bytes, HeaderLine.bytes]

@[simp] theorem items_nil : items ⟨l, []⟩ = [l.item] := by simp [items, HeaderLine.item]

@[simp] theorem item_nil : item ⟨l, []⟩ = l.item := by simp [item, HeaderLine.item]

theorem item_concat :
    item ⟨l, xs ++ [x]⟩ = { item ⟨l, xs⟩ with value := (item ⟨l, xs⟩).value ++ x.value } := by
  simp [item]

theorem items_concat : items ⟨l, xs ++ [x]⟩ = items ⟨l, xs⟩ ++ [item ⟨l, xs ++ [x]⟩] := by
  simp [items, item, List.inits_append]

/-- The last of the lines has the whole value. -/
theorem items_eq (f : HeaderField) : f.items = f.items.dropLast ++ [f.item] := by
  obtain ⟨l, xs⟩ := f
  induction xs using List.reverseRecOn with
  | nil => simp
  | append_singleton xs x => simp [items_concat]

variable (req : Request) (is : List HeaderItem)

/-- **A field is read**, line by line. -/
theorem eats_bytes (f : HeaderField)
    (hfit : posts req.method → ∀ i ∈ f.items, i.refused memory = none) :
    Eats (step memory) (afterLines .headerLineStart req.method is, req) f.bytes
      (afterLines .headerLineStart req.method (is ++ f.items),
        { req with headers := req.headers ++ [f.item] }) := by
  obtain ⟨l, xs⟩ := f
  induction xs using List.reverseRecOn with
  | nil =>
    have hname : Eats (step memory) _ (l.name ++ utf8 ": ") _ :=
      eats_name (afterLines .headerLineStart req.method is) req l.name_ne l.name_token
    have hvalue : Eats (step memory) _ l.value _ :=
      eats_value (afterLines .headerValue req.method is) req req.headers ⟨l.name, []⟩ l.value_ok
    have hend : Eats (step memory)
        (_, { req with headers := req.headers ++ [l.item] }) CRLF _ :=
      eats_lineEnd is (List.getLast?_concat ..) (by simpa using hfit)
    rw [bytes, text_nil, items_nil, item_nil]
    exact (hname.append hvalue).append hend
  | append_singleton xs x ih =>
    rw [items_concat] at hfit ⊢
    simp only [List.forall_mem_append, List.forall_mem_singleton] at hfit
    have hxs := ih fun hp => (hfit hp).1
    rw [bytes, text_concat, List.append_assoc]
    by_cases hne : x.value = []
    · -- nothing is announced again
      have hitem : item ⟨l, xs ++ [x]⟩ = item ⟨l, xs⟩ := by simp [item_concat, hne]
      have hsame : afterLines .headerLineStart req.method
          (is ++ (items ⟨l, xs⟩ ++ [item ⟨l, xs⟩])) =
            afterLines .headerLineStart req.method (is ++ items ⟨l, xs⟩) := by
        rw [items_eq, ← List.append_assoc, ← List.append_assoc]
        exact afterLines_twice ..
      have hblanks : Eats (step memory) _ x.blanks _ := eats_blanks
        (afterLines .headerLineStart req.method (is ++ items ⟨l, xs⟩))
        { req with headers := req.headers ++ [item ⟨l, xs⟩] } x (by simp)
      rw [hitem, hsame, hne, List.append_nil]
      exact hxs.append (hblanks.append (.cons rfl (.single rfl)))
    · have hfold : Eats (step memory) _ (x.blanks ++ x.value) _ := eats_fold
        (afterLines .headerLineStart req.method (is ++ items ⟨l, xs⟩)) req req.headers
        (item ⟨l, xs⟩) x hne
      rw [← item_concat] at hfold
      have hend : Eats (step memory)
          (_, { req with headers := req.headers ++ [item ⟨l, xs ++ [x]⟩] }) CRLF _ :=
        eats_lineEnd (is ++ items ⟨l, xs⟩) (List.getLast?_concat ..) fun hp => (hfit hp).2
      rw [← List.append_assoc is]
      exact hxs.append (hfold.append hend)

/-- A field, up to the end of its last line, when that adds to the value. -/
theorem eats_text (f : HeaderField)
    (hfit : posts req.method → ∀ i ∈ f.items.dropLast, i.refused memory = none)
    (hlast : ∀ x ∈ f.folds.getLast?, x.value ≠ []) :
    Eats (step memory) (afterLines .headerLineStart req.method is, req) f.text
      (afterLines .headerValue req.method (is ++ f.items.dropLast),
        { req with headers := req.headers ++ [f.item] }) := by
  obtain ⟨l, xs⟩ := f
  rcases List.eq_nil_or_concat xs with rfl | ⟨xs, x, rfl⟩
  · have hname : Eats (step memory) _ (l.name ++ utf8 ": ") _ :=
      eats_name (afterLines .headerLineStart req.method is) req l.name_ne l.name_token
    have hvalue : Eats (step memory) _ l.value _ :=
      eats_value (afterLines .headerValue req.method is) req req.headers ⟨l.name, []⟩ l.value_ok
    rw [text_nil, items_nil, item_nil, List.dropLast_singleton, List.append_nil]
    exact hname.append hvalue
  · rw [List.concat_eq_append] at hlast hfit ⊢
    rw [items_concat, List.dropLast_concat] at hfit ⊢
    have hfold : Eats (step memory) _ (x.blanks ++ x.value) _ := eats_fold
      (afterLines .headerLineStart req.method (is ++ items ⟨l, xs⟩)) req req.headers
      (item ⟨l, xs⟩) x (hlast x (by simp))
    rw [← item_concat] at hfold
    rw [text_concat]
    exact (eats_bytes req is ⟨l, xs⟩ hfit).append hfold

end HeaderField

/-! ## Heads -/

/-- The parser behind the header fields. -/
def Head.parser (h : Head) (st : State) : HttpRequestParser := afterLines st h.method h.items

theorem Target.eats_text {memory : Nat} (t : Target) :
    Eats (step memory) ({}, {}) t.text (inState .requestUri t.request) :=
  (eats_method t.method_ne t.method_token).append (eats_uri t.uri_ne t.uri_plain t.uri_blank)

/-- **The parser reads a head** whose lengths it can reserve. -/
theorem Head.eats_bytes {memory : Nat} (h : Head) (hfit : h.Fits memory) :
    Eats (step memory) ({}, {}) h.bytes (h.parser .headerLineStart, h.request) := by
  have hline : Eats (step memory) ({}, {})
      (h.text ++ (utf8 " HTTP/" ++ h.major ++ utf8 "." ++ h.minor ++ CRLF)) _ :=
    h.toTarget.eats_text.append
      (eats_version h.major_ne h.major_digits h.minor_ne h.minor_digits)
  let read (fs : List HeaderField) : Loop :=
    (afterLines .headerLineStart h.method (fs.flatMap HeaderField.items),
      { h.request with headers := fs.map HeaderField.item })
  have hfields : ∀ fs, fs <+: h.headers →
      Eats (step memory) (read []) (fs.flatMap HeaderField.bytes) (read fs) := by
    intro fs
    induction fs using List.reverseRecOn with
    | nil => exact fun _ => .nil _
    | append_singleton fs f ih =>
      intro hp
      have hmem : f ∈ h.headers := hp.subset (by simp)
      have hf : Eats (step memory) _ f.bytes _ :=
        f.eats_bytes (read fs).2 (fs.flatMap HeaderField.items)
          fun hm i hi => hfit hm i (List.mem_flatMap.2 ⟨f, hmem, hi⟩)
      have hall := (ih ((List.prefix_append _ _).trans hp)).append hf
      simpa [read, show h.request.method = h.method from rfl] using hall
  have hstart : inState .headerLineStart { h.toTarget.request with
      versionMajor := versionNumber h.major, versionMinor := versionNumber h.minor } = read [] := by
    have hnil : announcedFor h.method [] = (0, false) := by
      unfold announcedFor
      split <;> rfl
    simp only [read, afterLines, List.flatMap_nil, hnil]
    rfl
  rw [hstart] at hline
  have hbytes : h.bytes = h.text ++ (utf8 " HTTP/" ++ h.major ++ utf8 "." ++ h.minor ++ CRLF) ++
      h.headers.flatMap HeaderField.bytes := by
    simp [bytes]
  rw [hbytes]
  exact hline.append (hfields _ (List.prefix_refl _))

theorem Head.eats_blank {memory : Nat} (h : Head) (hfit : h.Fits memory) :
    Eats (step memory) ({}, {}) (h.bytes ++ [chr '\r'])
      (h.parser .expectingNewline_3, h.request) :=
  (h.eats_bytes hfit).snoc rfl

/-- **After the blank line** the parser goes on as the headers say. -/
theorem Head.step_blank (memory : Nat) (h : Head) (b : UInt8) :
    step memory (h.parser .expectingNewline_3, h.request) b =
      if h.announces.2 then .next (h.parser .chunkSize, setKeepAlive h.request)
      else if h.announces.1 = 0 then
        if b = chr '\n' then ret (setKeepAlive h.request) .parsingCompleted
        else ret (setKeepAlive h.request) .parsingError
      else .next (h.parser .post, setKeepAlive h.request) := rfl

/-- **The first length that cannot be reserved** makes the parser throw. -/
theorem Head.stops_length {memory : Nat} {e : Throw} (h : Head) (f : HeaderField)
    (hfit : h.Fits memory) (hm : posts h.method)
    (hbefore : ∀ i ∈ f.items.dropLast, i.refused memory = none)
    (hlast : f.item.refused memory = some e) :
    StopsAt (step memory) ({}, {}) (h.bytes ++ f.text ++ [chr '\r']) (.error e) := by
  have hfold : ∀ x ∈ f.folds.getLast?, x.value ≠ [] := by
    intro x hx hnil
    obtain ⟨l, xs⟩ := f
    obtain ⟨ys, rfl⟩ := List.getLast?_eq_some_iff.1 hx
    -- the last line only repeats the one before
    have hsame : HeaderField.item ⟨l, ys ++ [x]⟩ = HeaderField.item ⟨l, ys⟩ := by
      simp [HeaderField.item_concat, hnil]
    have hmem : HeaderField.item ⟨l, ys⟩ ∈ (HeaderField.items ⟨l, ys ++ [x]⟩).dropLast := by
      rw [HeaderField.items_concat, List.dropLast_concat, HeaderField.items_eq]
      simp
    rw [hsame, hbefore _ hmem] at hlast
    cases hlast
  have htext : Eats (step memory) (h.parser .headerLineStart, h.request) f.text _ :=
    f.eats_text h.request h.items (fun _ => hbefore) hfold
  have hitem : (h.request.headers ++ [f.item]).getLast? = some f.item := List.getLast?_concat ..
  have hend := endValue_eq memory (h.items ++ f.items.dropLast)
    (show ({ h.request with headers := h.request.headers ++ [f.item] } : Request).headers.getLast? =
      some f.item from hitem)
  rw [if_pos (show posts h.request.method from hm), hlast] at hend
  exact ⟨_, _, _, rfl, (h.eats_bytes hfit).append htext, hend⟩

/-! ## Requests without content -/

/-- The head of a request without content. -/
structure RequestHead where
  method : Bytes
  uri : Bytes
  major : UInt8
  minor : UInt8
  headers : List HeaderLine
  method_ne : method ≠ []
  method_token : ∀ b ∈ method, isToken b
  not_post : method ≠ utf8 "POST"
  not_put : method ≠ utf8 "PUT"
  uri_ne : uri ≠ []
  uri_ok : ∀ b ∈ uri, b ≠ chr ' ' ∧ isControl b = false
  major_digit : isDigit major
  minor_digit : isDigit minor

namespace RequestHead

/-- The request line. -/
def line (r : RequestHead) : Bytes :=
  r.method ++ utf8 " " ++ r.uri ++ utf8 " HTTP/" ++ [r.major, chr '.', r.minor] ++ CRLF

def bytes (r : RequestHead) : Bytes :=
  r.line ++ r.headers.flatMap HeaderLine.bytes ++ CRLF

/-- The request that the head is read as. -/
def request (r : RequestHead) : Request :=
  { method := r.method, uri := r.uri, versionMajor := r.major.toNat - 48
    versionMinor := r.minor.toNat - 48, headers := r.headers.map HeaderLine.item }

/-- Among the heads of all requests. -/
def toHead (r : RequestHead) : Head where
  method := r.method
  uri := r.uri
  major := [r.major]
  minor := [r.minor]
  headers := r.headers.map (⟨·, []⟩)
  method_ne := r.method_ne
  method_token := r.method_token
  uri_ne := r.uri_ne
  uri_plain := fun b hb => (r.uri_ok b hb).2
  uri_blank := fun b hb => (r.uri_ok b (List.mem_of_mem_tail hb)).1
  major_ne := List.cons_ne_nil _ _
  major_digits := by simpa using r.major_digit
  minor_ne := List.cons_ne_nil _ _
  minor_digits := by simpa using r.minor_digit

variable {memory : Nat} (r : RequestHead)

theorem toHead_bytes : r.toHead.bytes = r.line ++ r.headers.flatMap HeaderLine.bytes := by
  have hdot : utf8 "." = [chr '.'] := by decide
  simp [Head.bytes, toHead, Target.text, line, List.flatMap_map, HeaderField.bytes_nil, hdot]

theorem toHead_request : r.toHead.request = r.request := by
  simp [Head.request, toHead, Target.request, request, versionNumber]

theorem not_posts : ¬ posts r.toHead.method := not_or.2 ⟨r.not_post, r.not_put⟩

theorem eats_head :
    Eats (step memory) ({}, {}) (r.line ++ r.headers.flatMap HeaderLine.bytes ++ [chr '\r'])
      (r.toHead.parser .expectingNewline_3, r.request) := by
  rw [← toHead_bytes, ← toHead_request]
  exact r.toHead.eats_blank fun hp => absurd hp r.not_posts

theorem bytes_append (rest : Bytes) :
    r.bytes ++ rest =
      r.line ++ r.headers.flatMap HeaderLine.bytes ++ [chr '\r'] ++ chr '\n' :: rest := by
  simp [bytes, CRLF]

/-- **The parser completes on a head**, with its method, URI, version and headers, whatever comes
after it. -/
theorem parse_bytes (rest : Bytes) :
    parse memory (r.bytes ++ rest) = .ok (.parsingCompleted, setKeepAlive r.request) := by
  have hlast := r.toHead.step_blank memory (chr '\n')
  rw [Head.announces, announcedFor, if_neg r.not_posts, toHead_request] at hlast
  rw [parse, r.bytes_append]
  exact scan_stop r.eats_head hlast rest

end RequestHead

namespace HttpRequestParser

theorem setKeepAlive_eq (req : Request) : ∃ k, setKeepAlive req = { req with keepAlive := k } := by
  unfold setKeepAlive
  split
  · exact ⟨_, rfl⟩
  · split
    · exact ⟨true, rfl⟩
    · exact ⟨req.keepAlive, rfl⟩

theorem setKeepAlive_uri (req : Request) : (setKeepAlive req).uri = req.uri := by
  obtain ⟨k, hk⟩ := setKeepAlive_eq req
  rw [hk]

theorem setKeepAlive_content (req : Request) : (setKeepAlive req).content = req.content := by
  obtain ⟨k, hk⟩ := setKeepAlive_eq req
  rw [hk]

end HttpRequestParser

end Integratio
