import Integratio.Applicator.Proof.Content
import Integratio.Lib.Lines

/-!
# How a stored response is framed

* `framed_iff`: the first empty line of a stored response ends the header lines, with the length of
  the body as the last of them, exactly when some header line is configured. Without one,
  `addResource` puts the `CRLF` before `Content-length` right after the one of the status line.
-/

namespace Integratio

open Lines

/-- A configuration whose status is a line and whose headers are lines. -/
structure ContentConf.OfLines (c : ContentConf) (status : Bytes) (lines : List Bytes) : Prop where
  status_line : Line (chr '\r') (chr '\n') status
  header_lines : ∀ l ∈ lines, Line (chr '\r') (chr '\n') l
  httpStatus : c.httpStatus = status ++ CRLF
  headers : c.headers = text (chr '\r') (chr '\n') lines

/-- The line that `addResource` adds. -/
def ContentConf.lengthLine (c : ContentConf) : Bytes :=
  utf8 "Content-length: " ++ decimal c.body.length

variable {c : ContentConf} {status : Bytes} {lines : List Bytes}

theorem ContentConf.lengthLine_line (c : ContentConf) :
    Line (chr '\r') (chr '\n') c.lengthLine := by
  have hdigit : ∀ {b : UInt8}, isDigit b = false → b ∉ decimal c.body.length := by
    intro b hb hm
    rw [isDigit_of_mem_decimal hm] at hb
    cases hb
  refine ⟨?_, ?_, ?_⟩
  · simp [lengthLine, decimal_ne_nil]
  · exact List.not_mem_append (by decide) (hdigit (by decide))
  · exact List.not_mem_append (by decide) (hdigit (by decide))

/-- `trim` takes the end of the last header line off. -/
theorem trim_text (hls : lines ≠ []) (h : ∀ l ∈ lines, Line (chr '\r') (chr '\n') l) :
    trim (text (chr '\r') (chr '\n') lines) CRLF ++ CRLF = text (chr '\r') (chr '\n') lines := by
  obtain ⟨a, b, ha, hfirst, hb, hlast⟩ := intercalate_ends hls h
  rw [text_eq_intercalate hls]
  exact congrArg (· ++ CRLF) (trim_append (r := []) (by simp) ha hfirst hb hlast fun _ hx => hx)

namespace ContentConf.OfLines

/-- With a header line, the response is the lines and the body. -/
theorem response_text (h : c.OfLines status lines) (hls : lines ≠ []) :
    c.response = text (chr '\r') (chr '\n') (status :: lines ++ [c.lengthLine]) ++
      chr '\r' :: chr '\n' :: c.body := by
  have htrim := trim_text hls h.header_lines
  rw [response, ← trim_eq, h.httpStatus, h.headers, List.append_assoc _ (trim _ _), htrim]
  simp [text, lengthLine, CRLF]

/-- Without one, the length is behind the first empty line. -/
theorem response_nil (h : c.OfLines status []) :
    c.response = text (chr '\r') (chr '\n') [status] ++
      chr '\r' :: chr '\n' :: (c.lengthLine ++ CRLF ++ CRLF ++ c.body) := by
  have htrim : trim (text (chr '\r') (chr '\n') []) CRLF = [] := rfl
  rw [response, ← trim_eq, h.httpStatus, h.headers, htrim]
  simp [text, lengthLine, CRLF]

theorem headers_eq_nil (h : c.OfLines status lines) : c.headers = [] ↔ lines = [] := by
  rw [h.headers]
  cases lines <;> simp [text]

end ContentConf.OfLines

/-- **How a stored response is framed**: the part before its first empty line is the status line,
the header lines and the length, and the part after it is the body, if and only if there is a
header line. -/
theorem framed_iff (h : c.OfLines status lines) (hb : c.body.length < 2 ^ 31)
    (a : HTTPApplicator) :
    ((a.addResource c).2.resources c.resource).bind (splitBlank (chr '\r') (chr '\n')) =
        some (CRLF.intercalate (status :: lines ++ [c.lengthLine]), c.body) ↔
      c.headers ≠ [] := by
  have hstored : (a.addResource c).2.resources c.resource = some c.response := by
    simp [HTTPApplicator.addResource, ContentConf.complete_eq hb]
  rw [hstored, Option.bind_some, Ne, h.headers_eq_nil]
  by_cases hls : lines = []
  · subst hls
    have hline : ∀ l ∈ [status], Line (chr '\r') (chr '\n') l := by
      simpa using h.status_line
    rw [h.response_nil, splitBlank_text (by decide) (by simp) hline]
    refine iff_of_false (fun heq => ?_) (by simp)
    have hhead := congrArg (fun x => (x.map (·.1.length)).getD 0) heq
    simp [List.intercalate_cons_cons, CRLF] at hhead
  · have hall : ∀ l ∈ status :: lines ++ [c.lengthLine], Line (chr '\r') (chr '\n') l := by
      intro l hl
      rcases List.mem_append.1 hl with hl | hl
      · rcases List.mem_cons.1 hl with rfl | hl
        · exact h.status_line
        · exact h.header_lines l hl
      · obtain rfl := List.mem_singleton.1 hl
        exact c.lengthLine_line
    rw [h.response_text hls, splitBlank_text (by decide) (by simp) hall]
    exact iff_of_true rfl hls

theorem sampleConf_ofLines :
    sampleConf.OfLines (utf8 "HTTP/1.1 200 OK") [utf8 "Connection: close"] :=
  ⟨⟨by decide, by decide, by decide⟩,
    fun _ hl => List.mem_singleton.1 hl ▸ ⟨by decide, by decide, by decide⟩, rfl, rfl⟩

theorem framed_iff_sample :
    ((HTTPApplicator.addResource {} sampleConf).2.resources sampleConf.resource).bind
        (splitBlank (chr '\r') (chr '\n')) =
      some (CRLF.intercalate
        (utf8 "HTTP/1.1 200 OK" :: [utf8 "Connection: close"] ++ [sampleConf.lengthLine]),
        sampleConf.body) :=
  (framed_iff sampleConf_ofLines (by decide) {}).2 (by decide)

/-- **Without header lines the length is not in the head.** -/
theorem no_headers_unframed :
    ¬ ∀ (c : ContentConf) (status : Bytes) (lines : List Bytes) (a : HTTPApplicator),
      c.OfLines status lines → c.body.length < 2 ^ 31 →
        ((a.addResource c).2.resources c.resource).bind (splitBlank (chr '\r') (chr '\n')) =
          some (CRLF.intercalate (status :: lines ++ [c.lengthLine]), c.body) := by
  intro h
  have heq := h { sampleConf with headers := [] } (utf8 "HTTP/1.1 200 OK") [] {}
    ⟨⟨by decide, by decide, by decide⟩, by simp, rfl, rfl⟩ (by decide)
  revert heq
  decide

end Integratio
