import Integratio.Applicator.Proof.Parse
import Mathlib.Data.List.DropRight

/-!
# Content served is content configured

* `getResponse_configured`: after any additions, a request gets the response of the last one that
  was added for its URI, and nothing when there is none, whatever its method, version and headers
  are and whatever comes after its head.
-/

namespace Integratio

open HttpRequestParser

/-- A text without the bytes of `blanks` at its ends. -/
def stripped (s blanks : Bytes) : Bytes :=
  (s.dropWhile (· ∈ blanks)).rdropWhile (· ∈ blanks)

/-- The response that a configuration asks for. -/
def ContentConf.response (c : ContentConf) : Bytes :=
  c.httpStatus ++ stripped c.headers CRLF ++ CRLF ++ utf8 "Content-length: " ++
    decimal c.body.length ++ CRLF ++ CRLF ++ c.body

theorem trim_eq (str ws : Bytes) : trim str ws = stripped str ws := by
  have hstr := List.takeWhile_append_dropWhile (p := (· ∈ ws)) (l := str)
  have hpre : ∀ x ∈ str.takeWhile (· ∈ ws), x ∈ ws := fun x hx => by
    simpa using List.mem_takeWhile_imp hx
  unfold stripped
  generalize str.takeWhile (· ∈ ws) = pre at hstr hpre
  by_cases hnil : str.dropWhile (· ∈ ws) = []
  · -- nothing but blanks
    have hnone : findFirstNotOf str ws = none := by
      rw [hnil, List.append_nil] at hstr
      simpa [findFirstNotOf, List.findIdx?_eq_none_iff, ← hstr] using hpre
    rw [trim, hnone, hnil]
    rfl
  · have hfirst := List.head_dropWhile_not (· ∈ ws) hnil
    generalize str.dropWhile (· ∈ ws) = mid at hstr hnil hfirst
    have hmid := List.rdropWhile_append_rtakeWhile (p := (· ∈ ws)) (l := mid)
    have hpost : ∀ x ∈ mid.rtakeWhile (· ∈ ws), x ∈ ws := fun x hx => by
      simpa using List.mem_rtakeWhile_imp hx
    have hne : mid.rdropWhile (· ∈ ws) ≠ [] := by
      intro h
      have hblank := List.rdropWhile_eq_nil_iff.1 h _ (List.head_mem hnil)
      rw [hfirst] at hblank
      cases hblank
    have hlast := List.rdropWhile_last_not (p := (· ∈ ws)) (l := mid) hne
    rw [← hstr]
    generalize mid.rdropWhile (· ∈ ws) = core at hmid hne hlast ⊢
    generalize mid.rtakeWhile (· ∈ ws) = post at hmid hpost
    subst hmid
    rw [List.head_append_of_ne_nil hne] at hfirst
    exact trim_append hpre (List.head?_eq_some_head hne) (by simpa using hfirst)
      (List.getLast?_eq_some_getLast hne) (by simpa using hlast) hpost

theorem ContentConf.complete_eq {c : ContentConf} (h : c.body.length < 2 ^ 31) :
    c.complete = c.response := by
  have hlen : utf8 "\r\nContent-length: " = CRLF ++ utf8 "Content-length: " := by decide
  have hend : utf8 "\r\n\r\n" = CRLF ++ CRLF := by decide
  simp only [complete, response, ← trim_eq, int32_ofNat h, to_string_ofNat, hlen, hend,
    List.append_assoc]

/-! ## No `NUL` in a head -/

theorem cStr_append {s : Bytes} (h : 0 ∉ s) (rest : Bytes) : cStr (s ++ rest) = s ++ cStr rest :=
  List.takeWhile_append_of_pos fun _ hb => decide_eq_true fun he => h (he ▸ hb)

theorem nul_not_mem_token {s : Bytes} (h : ∀ b ∈ s, isToken b) : 0 ∉ s :=
  fun hm => ne_of_isToken (c := 0) (h 0 hm) (by decide) rfl

theorem nul_not_mem_plain {s : Bytes} (h : ∀ b ∈ s, isControl b = false) : 0 ∉ s :=
  fun hm => ne_of_not_isControl (c := 0) (h 0 hm) (by decide) rfl

theorem nul_ne_digit {b : UInt8} (h : isDigit b) : 0 ≠ b := by
  intro he
  rw [← he] at h
  exact absurd h (by decide)

theorem nul_not_mem_CRLF : 0 ∉ CRLF := by decide

theorem HeaderLine.nul_not_mem (h : HeaderLine) : 0 ∉ h.bytes := by
  have hname := nul_not_mem_token h.name_token
  have hvalue := nul_not_mem_plain h.value_ok
  have hcolon : 0 ∉ utf8 ": " := by decide
  simp only [bytes, List.mem_append, hname, hcolon, hvalue, nul_not_mem_CRLF, or_self,
    not_false_eq_true]

theorem RequestHead.nul_not_mem (r : RequestHead) : 0 ∉ r.bytes := by
  have hmethod := nul_not_mem_token r.method_token
  have huri := nul_not_mem_plain fun b hb => (r.uri_ok b hb).2
  have hmajor := nul_ne_digit r.major_digit
  have hminor := nul_ne_digit r.minor_digit
  have hblank : 0 ∉ utf8 " " := by decide
  have hname : 0 ∉ utf8 " HTTP/" := by decide
  have hdot : (0 : UInt8) ≠ chr '.' := by decide
  have hheaders : 0 ∉ r.headers.flatMap HeaderLine.bytes := by
    intro hm
    obtain ⟨h, -, hb⟩ := List.mem_flatMap.1 hm
    exact h.nul_not_mem hb
  simp only [bytes, line, List.mem_append, List.mem_cons, List.not_mem_nil, hmethod, hblank, huri,
    hname, hmajor, hdot, hminor, hheaders, nul_not_mem_CRLF, or_self, not_false_eq_true]

/-! ## The response -/

theorem getResponse_head (a : HTTPApplicator) (memory : Nat) (r : RequestHead) (rest : Bytes) :
    a.getResponse memory (r.bytes ++ rest) = .ok ((a.resources r.uri).getD []) := by
  rw [HTTPApplicator.getResponse, cStr_append r.nul_not_mem, r.parse_bytes]
  simp only [if_pos, setKeepAlive_uri]
  rfl

/-- **Content served is content configured** (module doc). -/
theorem getResponse_configured {cs : List ContentConf} (hcs : ∀ c ∈ cs, c.body.length < 2 ^ 31)
    (memory : Nat) (r : RequestHead) (rest : Bytes) :
    (HTTPApplicator.addAll {} cs).getResponse memory (r.bytes ++ rest) =
      .ok (match pageFor cs r.uri with
        | some c => c.response
        | none => []) := by
  rw [getResponse_head, HTTPApplicator.addAll_resources]
  cases hfind : pageFor cs r.uri with
  | none => rfl
  | some c =>
    have hc : c ∈ cs := List.mem_reverse.1 (List.mem_of_find?_eq_some hfind)
    simp only [Option.map_some, Option.getD_some, ContentConf.complete_eq (hcs c hc)]

theorem forall_mem_of_all {p : UInt8 → Prop} [DecidablePred p] {s : Bytes}
    (h : s.all (p ·) = true) : ∀ b ∈ s, p b := by
  simpa using h

/-- `GET /a HTTP/1.1` with one header. -/
def sampleHead : RequestHead where
  method := utf8 "GET"
  uri := utf8 "/a"
  major := chr '1'
  minor := chr '1'
  headers := [⟨utf8 "Host", utf8 "b", by decide, forall_mem_of_all (by decide),
    forall_mem_of_all (by decide)⟩]
  method_ne := by decide
  method_token := forall_mem_of_all (by decide)
  not_post := by decide
  not_put := by decide
  uri_ne := by decide
  uri_ok := forall_mem_of_all (by decide)
  major_digit := by decide
  minor_digit := by decide

def sampleConf : ContentConf :=
  ⟨utf8 "/a", utf8 "HTTP/1.1 200 OK\r\n", utf8 "Connection: close\r\n", utf8 "page"⟩

theorem getResponse_configured_sample :
    (HTTPApplicator.addAll {} [{ sampleConf with body := [] }, sampleConf]).getResponse 4096
      (sampleHead.bytes ++ utf8 "rest") = .ok sampleConf.response :=
  getResponse_configured (by decide) 4096 sampleHead (utf8 "rest")

end Integratio
