import Integratio.Config.JsonConf
import Mathlib.Data.List.TakeWhile

/-!
# What the entries of a configuration contribute

A `ConfEntry` is what an entry of `configs` says when it is complete (`Says`); a document
`Describes` a list of them. `jsonConf` pushes what each of them contributes (`ConfEntry.pushed`)
until the first one of another category ends its loop (`jsonConf_describes`).
-/

namespace Integratio

open Scanner Json

/-- What an entry of `configs` says. -/
inductive ConfEntry
  | time (parameters : List TimeConf)
  | content (parameters : List ContentConf)
  | other
  deriving DecidableEq, Repr

/-- A complete element of a `time` entry. -/
structure SaysTime (element : Json) (t : TimeConf) : Prop where
  state : element.index "state" = .ok (.string t.state)
  action : element.index "action" = .ok (.string t.action)
  delay : element.index "delay" = .ok (.number t.delay)

/-- A complete element of a `content` entry. -/
def SaysContent (element : Json) (c : ContentConf) : Prop :=
  ∃ resource httpStatus headers body : String,
    element.index "resource" = .ok (.string resource) ∧
    element.index "http-status" = .ok (.string httpStatus) ∧
    element.index "headers" = .ok (.string headers) ∧
    element.index "body" = .ok (.string body) ∧
    c = ⟨utf8 resource, utf8 httpStatus, utf8 headers, utf8 body⟩

/-- What a complete entry says. -/
inductive Says (jconfigs : Json) : ConfEntry → Prop
  | time {els : List Json} {ts : List TimeConf} :
      jconfigs.index "category" = .ok (.string "time") →
      jconfigs.index "parameters" = .ok (.array els) → List.Forall₂ SaysTime els ts →
      Says jconfigs (.time ts)
  | content {els : List Json} {cs : List ContentConf} :
      jconfigs.index "category" = .ok (.string "content") →
      jconfigs.index "parameters" = .ok (.array els) → List.Forall₂ SaysContent els cs →
      Says jconfigs (.content cs)
  | other {category : Json} : jconfigs.index "category" = .ok category →
      category.eqText "time" = false → category.eqText "content" = false → Says jconfigs .other

/-- A document with some entries. -/
def document (js : List Json) : Json := .object [("configs", .array js)]

/-- The entries of a document, in order. -/
def Describes (jc : Json) (es : List ConfEntry) : Prop :=
  ∃ js, jc.index "configs" = .ok (.array js) ∧ List.Forall₂ Says js es

/-- What `get<int>` leaves of a delay. -/
def TimeConf.read (t : TimeConf) : TimeConf := { t with delay := int32 t.delay }

/-- What the elements leave of a `TimeConf`. -/
def TimeConf.readAll (t : TimeConf) (ts : List TimeConf) : TimeConf :=
  ts.foldl (fun _ t => t.read) t

/-- What `jsonConf` pushes for an entry. -/
def ConfEntry.pushed : ConfEntry → List Conf
  | .time ts => [.time (TimeConf.new.readAll ts)]
  | .content cs => cs.map .content
  | .other => []

/-- What is pushed before the loop ends. -/
def contribution (es : List ConfEntry) : List Conf :=
  (es.takeWhile (· ≠ .other)).flatMap ConfEntry.pushed

variable {j jc : Json} {e : ConfEntry} {es : List ConfEntry} {confs : List Conf}

theorem contribution_other (es : List ConfEntry) : contribution (.other :: es) = [] := rfl

theorem contribution_cons (he : e ≠ .other) (es : List ConfEntry) :
    contribution (e :: es) = e.pushed ++ contribution es := by
  simp [contribution, he]

/-! ## The loop -/

theorem textOf_ok {key s : String} (h : j.index key = .ok (.string s)) : textOf j key = .ok s := by
  rw [textOf, h]
  rfl

theorem SaysTime.body {t t₀ : TimeConf} (h : SaysTime j t) : timeBody t₀ j = .ok t.read := by
  have hdelay : intOf j "delay" = .ok (int32 t.delay) := by
    rw [intOf, h.delay]
    rfl
  rw [timeBody, textOf_ok h.state, textOf_ok h.action, hdelay]
  rfl

theorem SaysContent.body {c : ContentConf} (h : SaysContent j c) :
    contentBody confs j = .ok (confs ++ [.content c]) := by
  obtain ⟨_, _, _, _, hresource, hstatus, hheaders, hbody, rfl⟩ := h
  rw [contentBody, textOf_ok hresource, textOf_ok hstatus, textOf_ok hheaders, textOf_ok hbody]
  rfl

theorem times_ok {els : List Json} {ts : List TimeConf} (h : List.Forall₂ SaysTime els ts)
    (t : TimeConf) : els.foldlM timeBody t = .ok (t.readAll ts) := by
  induction h generalizing t with
  | nil => rfl
  | cons h _ ih =>
    rw [List.foldlM_cons, h.body]
    exact ih _

theorem contents_ok {els : List Json} {cs : List ContentConf}
    (h : List.Forall₂ SaysContent els cs) (confs : List Conf) :
    els.foldlM contentBody confs = .ok (confs ++ cs.map .content) := by
  induction h generalizing confs with
  | nil => simp [pure, Except.pure]
  | cons h _ ih =>
    rw [List.foldlM_cons, h.body]
    exact (ih _).trans (by simp)

/-- A round on a complete entry pushes what it contributes. -/
theorem Says.goes (h : Says j e) (he : e ≠ .other) (confs : List Conf) :
    entry confs j = .next (confs ++ e.pushed) := by
  cases h with
  | @time els ts hc hp hts =>
    have hround : timeEntry confs j = .ok (confs ++ [.time (TimeConf.new.readAll ts)]) := by
      rw [timeEntry, hp]
      exact congrArg (· >>= fun t => .ok (confs ++ [.time t])) (times_ok hts .new)
    rw [entry, hc]
    exact congrArg goOn hround
  | @content els cs hc hp hcs =>
    have hround : contentEntry confs j = .ok (confs ++ cs.map .content) := by
      rw [contentEntry, hp]
      exact contents_ok hcs confs
    rw [entry, hc]
    exact congrArg goOn hround
  | other => exact absurd rfl he

/-- An entry of another category ends the loop. -/
theorem Says.stops (h : Says j .other) (confs : List Conf) : entry confs j = .stop (.ok confs) := by
  cases h with
  | other hc htime hcontent =>
    simp only [entry, hc, htime, hcontent, Bool.false_eq_true, if_false, ite_self]

theorem scan_entries {js : List Json} (h : List.Forall₂ Says js es) (confs : List Conf) :
    scan entry .ok confs js = .ok (confs ++ contribution es) := by
  induction h generalizing confs with
  | nil => simp [scan, contribution]
  | @cons j e js es hs _ ih =>
    by_cases he : e = .other
    · subst he
      simp [scan, hs.stops, contribution_other]
    · rw [scan, hs.goes he, contribution_cons he, ← List.append_assoc]
      exact ih _

/-- **What `jsonConf` returns** for a document with complete entries. -/
theorem jsonConf_describes (h : Describes jc es) : jsonConf jc = .ok (contribution es) := by
  obtain ⟨js, hjs, hes⟩ := h
  rw [jsonConf, hjs]
  exact scan_entries hes []

/-! ## Documents -/

theorem describes_document {js : List Json} (h : List.Forall₂ Says js es) :
    Describes (document js) es := ⟨js, rfl, h⟩

theorem Describes.take {A B : List ConfEntry} (h : Describes jc (A ++ B)) :
    ∃ jc', Describes jc' A := by
  obtain ⟨js, -, hes⟩ := h
  exact ⟨_, describes_document (List.forall₂_take_append js A B hes)⟩

theorem contribution_of_not_mem (h : .other ∉ es) :
    contribution es = es.flatMap ConfEntry.pushed := by
  have hall : ∀ e ∈ es, decide (e ≠ .other) = true := by
    intro e he
    exact decide_eq_true fun heq => h (heq ▸ he)
  rw [contribution, List.takeWhile_eq_self_iff.2 hall]

theorem contribution_append {A : List ConfEntry} (h : .other ∉ A) (B : List ConfEntry) :
    contribution (A ++ B) = contribution A ++ contribution B := by
  induction A with
  | nil => rfl
  | cons e A ih =>
    obtain ⟨he, hA⟩ := not_or.1 fun hm => h (List.mem_cons.2 hm)
    rw [List.cons_append, contribution_cons (Ne.symm he), contribution_cons (Ne.symm he), ih hA,
      List.append_assoc]

/-- Nothing after an entry of another category is read. -/
theorem contribution_append_of_other {A : List ConfEntry} (h : .other ∈ A) (B : List ConfEntry) :
    contribution (A ++ B) = contribution A := by
  induction A with
  | nil => cases h
  | cons e A ih =>
    by_cases he : e = .other
    · rw [he, List.cons_append, contribution_other, contribution_other]
    · have hA : .other ∈ A := (List.mem_cons.1 h).resolve_left (Ne.symm he)
      rw [List.cons_append, contribution_cons he, contribution_cons he, ih hA]

/-! ## Sample documents -/

def timeElement (t : TimeConf) : Json :=
  .object [("action", .string t.action), ("delay", .number t.delay), ("state", .string t.state)]

def sampleTimeEntry (ts : List TimeConf) : Json :=
  .object [("category", .string "time"), ("parameters", .array (ts.map timeElement))]

def packetEntry : Json := .object [("category", .string "packet"), ("parameters", .array [])]

theorem says_sampleTimeEntry (ts : List TimeConf) : Says (sampleTimeEntry ts) (.time ts) := by
  refine .time rfl rfl ?_
  rw [List.forall₂_map_left_iff, List.forall₂_same]
  exact fun t _ => ⟨rfl, rfl, rfl⟩

theorem says_packetEntry : Says packetEntry .other := .other rfl rfl rfl

def synAckDelay : TimeConf := ⟨"LISTEN", "sendSynAck", 1⟩
def dataDelay : TimeConf := ⟨"ESTABLISHED", "sendData", 2⟩

end Integratio
