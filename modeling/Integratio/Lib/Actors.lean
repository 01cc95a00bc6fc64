import Integratio.Lib.Run
import Mathlib.Algebra.BigOperators.Group.Finset.Piecewise
import Mathlib.Algebra.Order.BigOperators.Group.Finset

/-!
# Actors with mailboxes behind a dispatcher

A list of actors, each with a state and a queue. A message that arrives is routed by the states of
all actors (`route`) to the end of one queue, or refused; an actor that is served takes the first
message of its queue and reacts to it (`react`, which may differ from actor to actor). `step` makes
a system of them a transducer, so that a `Run` is an interleaving of arrivals and reactions; its
outputs are the `Entry`s of a log.

* `step_at`: what one step does to one actor.
* `fifo`: along a run, an actor's first queue followed by what was routed to it is what it was
  served followed by what still waits, and its reactions are a run of that actor alone.
* `ServesOnly.unique`, `ServesOnly.complete`: while no message arrives, the schedule of the actors
  matters neither to what they do nor to the state in which all queues are empty.
* `run_map`, `run_map_back`: a system whose messages are translated, as far as they meet a
  condition, is the system of the translated messages.
-/

namespace Actors

open Transducer

variable {σ ι ω ε : Type*}

structure Actor (σ ι : Type*) where
  state : σ
  queue : List ι
  deriving DecidableEq, Repr

inductive Act (ι : Type*)
  | arrive (msg : ι)
  | serve (k : Nat)
  deriving DecidableEq, Repr

/-- What happened in a step: a message was routed to an actor (or to none), or an actor was
served. -/
inductive Entry (σ ι ω : Type*)
  | routed (msg : ι) (k : Option Nat)
  | served (k : Nat) (t : Transition σ ι ω)
  deriving DecidableEq, Repr

/-- The act that an entry is logged in. -/
def Entry.act : Entry σ ι ω → Act ι
  | .routed msg _ => .arrive msg
  | .served k _ => .serve k

/-- The actor that a message was routed to. -/
def Entry.target : Entry σ ι ω → Option Nat
  | .routed _ k => k
  | .served _ _ => none

/-- Why there is no step: the actor has nothing to do, or its reaction fails. -/
inductive Stuck (ε : Type*)
  | idle
  | failed (e : ε)
  deriving DecidableEq, Repr

def states (as : List (Actor σ ι)) : List σ := as.map (·.state)

/-- The message goes to the end of the `k`-th queue. -/
def push (as : List (Actor σ ι)) (k : Nat) (msg : ι) : List (Actor σ ι) :=
  as.modify k fun a => { a with queue := a.queue ++ [msg] }

/-- One step of the system (module doc). -/
def step (route : List σ → ι → Option Nat) (react : Nat → σ → ι → Except ε (σ × List ω))
    (as : List (Actor σ ι)) :
    Act ι → Except (Stuck ε) (List (Actor σ ι) × List (Entry σ ι ω))
  | .arrive msg =>
    match route (states as) msg with
    | none => .ok (as, [.routed msg none])
    | some k => .ok (push as k msg, [.routed msg (some k)])
  | .serve k =>
    match as[k]? with
    | none => .error .idle
    | some ⟨_, []⟩ => .error .idle
    | some ⟨s, i :: q⟩ =>
      match react k s i with
      | .error e => .error (.failed e)
      | .ok (s', o) => .ok (as.set k ⟨s', q⟩, [.served k ⟨s, i, s', o⟩])

/-- The messages that arrive. -/
def arrivals (acts : List (Act ι)) : List ι :=
  acts.filterMap fun | .arrive msg => some msg | .serve _ => none

/-- The messages routed to the `k`-th actor. -/
def inbox (k : Nat) (es : List (Entry σ ι ω)) : List ι :=
  es.filterMap fun
    | .routed msg (some j) => if j = k then some msg else none
    | _ => none

/-- The reactions of the `k`-th actor. -/
def served (k : Nat) (es : List (Entry σ ι ω)) : List (Transition σ ι ω) :=
  es.filterMap fun
    | .served j t => if j = k then some t else none
    | .routed _ _ => none

@[simp] theorem arrivals_nil : arrivals ([] : List (Act ι)) = [] := rfl
@[simp] theorem arrivals_append (l l' : List (Act ι)) :
    arrivals (l ++ l') = arrivals l ++ arrivals l' := List.filterMap_append
@[simp] theorem inbox_nil (k : Nat) : inbox k ([] : List (Entry σ ι ω)) = [] := rfl
@[simp] theorem inbox_append (k : Nat) (es fs : List (Entry σ ι ω)) :
    inbox k (es ++ fs) = inbox k es ++ inbox k fs := List.filterMap_append
@[simp] theorem served_nil (k : Nat) : served k ([] : List (Entry σ ι ω)) = [] := rfl
@[simp] theorem served_append (k : Nat) (es fs : List (Entry σ ι ω)) :
    served k (es ++ fs) = served k es ++ served k fs := List.filterMap_append

section
variable (k j : Nat) (msg : ι) (t : Transition σ ι ω) (acts : List (Act ι))
  (es : List (Entry σ ι ω))

@[simp] theorem arrivals_arrive : arrivals (.arrive msg :: acts) = msg :: arrivals acts := rfl
@[simp] theorem arrivals_serve : arrivals (.serve k :: acts) = arrivals acts := rfl
@[simp] theorem inbox_refused : inbox k (.routed msg none :: es) = inbox k es := rfl
@[simp] theorem inbox_routed :
    inbox k (.routed msg (some j) :: es) = if j = k then msg :: inbox k es else inbox k es := by
  by_cases h : j = k <;> simp [inbox, h]
@[simp] theorem inbox_served : inbox k (.served j t :: es) = inbox k es := rfl
@[simp] theorem served_routed (o : Option Nat) : served k (.routed msg o :: es) = served k es := rfl
@[simp] theorem served_served :
    served k (.served j t :: es) = if j = k then t :: served k es else served k es := by
  by_cases h : j = k <;> simp [served, h]

end

/-! ## One step -/

section
variable {route : List σ → ι → Option Nat} {react : Nat → σ → ι → Except ε (σ × List ω)}
  {as as' : List (Actor σ ι)} {act : Act ι} {es : List (Entry σ ι ω)} {k : Nat} {a : Actor σ ι}

/-- The steps of the system. -/
inductive Acts (route : List σ → ι → Option Nat) (react : Nat → σ → ι → Except ε (σ × List ω))
    (as : List (Actor σ ι)) : Act ι → List (Actor σ ι) → List (Entry σ ι ω) → Prop
  | refused (msg : ι) : route (states as) msg = none →
      Acts route react as (.arrive msg) as [.routed msg none]
  | queued (msg : ι) (k : Nat) : route (states as) msg = some k →
      Acts route react as (.arrive msg) (push as k msg) [.routed msg (some k)]
  | served (k : Nat) (s : σ) (i : ι) (q : List ι) (s' : σ) (o : List ω) :
      as[k]? = some ⟨s, i :: q⟩ → react k s i = .ok (s', o) →
      Acts route react as (.serve k) (as.set k ⟨s', q⟩) [.served k ⟨s, i, s', o⟩]

theorem step_acts (h : step route react as act = .ok (as', es)) :
    Acts route react as act as' es := by
  cases act with
  | arrive msg =>
    simp only [step] at h
    split at h
    · rename_i hr
      cases h
      exact .refused msg hr
    · rename_i k hr
      cases h
      exact .queued msg k hr
  | serve k =>
    simp only [step] at h
    split at h
    · cases h
    · cases h
    · rename_i s i q ha
      split at h
      · cases h
      · rename_i s' o hs
        cases h
        exact .served k s i q s' o ha hs

theorem inbox_of_serve {j : Nat} (h : step route react as (.serve j) = .ok (as', es)) :
    inbox k es = [] := by
  cases step_acts h
  rfl

theorem length_push (k : Nat) (msg : ι) : (push as k msg).length = as.length := by simp [push]

theorem states_push (as : List (Actor σ ι)) (k : Nat) (msg : ι) :
    states (push as k msg) = states as := by
  refine List.ext_getElem? fun i => ?_
  simp only [states, push, List.getElem?_map, List.getElem?_modify]
  split
  · cases as[i]? <;> rfl
  · cases as[i]? <;> rfl

theorem getElem?_push (j : Nat) (msg : ι) (ha : as[k]? = some a) :
    (push as j msg)[k]? = some (if j = k then { a with queue := a.queue ++ [msg] } else a) := by
  rw [push, List.getElem?_modify, ha]
  split <;> rfl

theorem length_step (h : step route react as act = .ok (as', es)) : as'.length = as.length := by
  cases step_acts h with
  | refused => rfl
  | queued => exact length_push ..
  | served => exact List.length_set ..

/-- **What a step does to one actor**: nothing, a message more, or one reaction. -/
theorem step_at (h : step route react as act = .ok (as', es)) (ha : as[k]? = some a) :
    (as'[k]? = some a ∧ inbox k es = [] ∧ served k es = []) ∨
    (∃ msg, act = .arrive msg ∧ route (states as) msg = some k ∧
      as'[k]? = some { a with queue := a.queue ++ [msg] } ∧ es = [.routed msg (some k)]) ∨
    (∃ i q s' o, act = .serve k ∧ a.queue = i :: q ∧ react k a.state i = .ok (s', o) ∧
      as'[k]? = some ⟨s', q⟩ ∧ es = [.served k ⟨a.state, i, s', o⟩]) := by
  cases step_acts h with
  | refused => exact .inl ⟨ha, rfl, rfl⟩
  | queued msg j hr =>
    by_cases hj : j = k
    · subst hj
      refine .inr (.inl ⟨msg, rfl, hr, ?_, rfl⟩)
      rw [getElem?_push _ _ ha, if_pos rfl]
    · refine .inl ⟨?_, by simp [hj], rfl⟩
      rw [getElem?_push _ _ ha, if_neg hj]
  | served j s i q s' o hj hs =>
    by_cases hjk : j = k
    · subst hjk
      obtain rfl := Option.some.inj (ha.symm.trans hj)
      refine .inr (.inr ⟨i, q, s', o, rfl, rfl, hs, ?_, rfl⟩)
      exact List.getElem?_set_self (List.getElem?_eq_some_iff.1 hj).1
    · refine .inl ⟨?_, rfl, by simp [hjk]⟩
      rw [List.getElem?_set_ne hjk, ha]

theorem step_from {a' : Actor σ ι} (h : step route react as act = .ok (as', es))
    (ha' : as'[k]? = some a') :
    ∃ a, as[k]? = some a ∧
      ((a' = a ∧ inbox k es = [] ∧ served k es = []) ∨
      (∃ msg, act = .arrive msg ∧ route (states as) msg = some k ∧
        a' = { a with queue := a.queue ++ [msg] } ∧ es = [.routed msg (some k)]) ∨
      (∃ i q s' o, act = .serve k ∧ a.queue = i :: q ∧ react k a.state i = .ok (s', o) ∧
        a' = ⟨s', q⟩ ∧ es = [.served k ⟨a.state, i, s', o⟩])) := by
  have hk : k < as.length := length_step h ▸ (List.getElem?_eq_some_iff.1 ha').1
  refine ⟨as[k], List.getElem?_eq_getElem hk, ?_⟩
  have ha := step_at h (List.getElem?_eq_getElem hk)
  rw [ha'] at ha
  simpa only [Option.some.injEq] using ha

/-! ## Runs -/

variable {T : List (Transition (List (Actor σ ι)) (Act ι) (Entry σ ι ω))}

theorem length_run (h : Run (step route react) as T as') : as'.length = as.length :=
  h.inv (fun s => s.length = as.length) (fun _ _ _ _ hl hs => (length_step hs).trans hl) rfl

/-- What was routed to an actor and what it was served (`fs`), after one more step. -/
theorem fifo_step {s : σ} {q : List ι} {fs : List (Entry σ ι ω)}
    (hq : q ++ inbox k fs = inputs (served k fs) ++ a.queue)
    (hr : Run (react k) s (served k fs) a.state) (ha : as[k]? = some a)
    (h : step route react as act = .ok (as', es)) :
    ∃ a', as'[k]? = some a' ∧
      q ++ inbox k (fs ++ es) = inputs (served k (fs ++ es)) ++ a'.queue ∧
      Run (react k) s (served k (fs ++ es)) a'.state := by
  simp only [inbox_append, served_append, inputs_append, ← List.append_assoc, hq]
  rcases step_at h ha with ⟨ha', hi, hv⟩ | ⟨msg, -, -, ha', rfl⟩ |
    ⟨i, q, s', o, -, hq₁, hr₁, ha', rfl⟩
  · refine ⟨a, ha', by simp [hi, hv], ?_⟩
    rw [hv, List.append_nil]
    exact hr
  · refine ⟨_, ha', by simp, ?_⟩
    simpa using hr
  · refine ⟨_, ha', by simp [hq₁], ?_⟩
    simpa using hr.snoc hr₁

/-- **Queues are first in, first out, and an actor does not notice the others.** -/
theorem fifo (h : Run (step route react) as T as') (ha : as[k]? = some a) :
    ∃ a', as'[k]? = some a' ∧
      a.queue ++ inbox k (outputs T) = inputs (served k (outputs T)) ++ a'.queue ∧
      Run (react k) a.state (served k (outputs T)) a'.state := by
  induction h with
  | nil => exact ⟨a, ha, by simp, .nil⟩
  | snoc _ hs ih =>
    obtain ⟨a₁, ha₁, hq, hr⟩ := ih
    simp only [outputs_append, outputs_cons, outputs_nil, List.append_nil]
    exact fifo_step hq hr ha₁ hs

/-- What is routed to an actor arrived, in this order. -/
theorem inbox_sublist (h : Run (step route react) as T as') (k : Nat) :
    (inbox k (outputs T)).Sublist (arrivals (inputs T)) := by
  induction h with
  | nil => exact .slnil
  | snoc _ hs ih =>
    simp only [outputs_append, outputs_cons, outputs_nil, List.append_nil, inbox_append,
      inputs_append, inputs_cons, inputs_nil, arrivals_append]
    refine ih.append ?_
    cases step_acts hs with
    | refused => exact List.nil_sublist _
    | queued msg j =>
      by_cases hj : j = k <;> simp [hj]
    | served => exact List.nil_sublist _

/-- **A message is routed to one actor at most**: together the actors get no more messages of a kind
than arrived. -/
theorem sum_inbox_le (f : ι → Bool) (n : Nat) (h : Run (step route react) as T as') :
    ∑ k ∈ Finset.range n, (inbox k (outputs T)).countP f ≤ (arrivals (inputs T)).countP f := by
  induction h with
  | nil => simp
  | snoc _ hs ih =>
    simp only [outputs_append, outputs_cons, outputs_nil, List.append_nil, inbox_append,
      inputs_append, inputs_cons, inputs_nil, arrivals_append, List.countP_append,
      Finset.sum_add_distrib]
    refine Nat.add_le_add ih ?_
    cases step_acts hs with
    | refused => simp
    | queued msg j =>
      have hk : ∀ k, (inbox k ([.routed msg (some j)] : List (Entry σ ι ω))).countP f =
          if j = k then [msg].countP f else 0 := by
        intro k
        by_cases hj : j = k <;> simp [hj]
      simp only [hk, Finset.sum_ite_eq]
      split
      · exact Nat.le_refl _
      · exact Nat.zero_le _
    | served => simp

end

/-! ## Draining the queues -/

section
variable {route : List σ → ι → Option Nat} {react : Nat → σ → ι → Except ε (σ × List ω)}
  {as bs cs : List (Actor σ ι)} {act : Act ι} {es : List (Entry σ ι ω)} {k : Nat} {a : Actor σ ι}
  {T U : List (Transition (List (Actor σ ι)) (Act ι) (Entry σ ι ω))}

/-- How many messages wait. -/
def backlog : List (Actor σ ι) → Nat
  | [] => 0
  | a :: as => a.queue.length + backlog as

theorem backlog_set {s : σ} {i : ι} {q : List ι} (s' : σ) (h : as[k]? = some ⟨s, i :: q⟩) :
    backlog (as.set k ⟨s', q⟩) + 1 = backlog as := by
  induction as generalizing k with
  | nil => cases h
  | cons a as ih =>
    cases k with
    | zero =>
      obtain rfl : a = ⟨s, i :: q⟩ := by simpa using h
      simp only [List.set_cons_zero, backlog, List.length_cons]
      omega
    | succ k =>
      have := ih (k := k) (by simpa using h)
      simp only [List.set_cons_succ, backlog]
      omega

theorem backlog_eq_zero : backlog as = 0 ↔ ∀ a ∈ as, a.queue = [] := by
  induction as with
  | nil => simp [backlog]
  | cons a as ih => simp [backlog, ih, List.length_eq_zero_iff]

/-- No message arrives. -/
def ServesOnly (T : List (Transition (List (Actor σ ι)) (Act ι) (Entry σ ι ω))) : Prop :=
  arrivals (inputs T) = []

theorem servesOnly_append : ServesOnly (T ++ U) ↔ ServesOnly T ∧ ServesOnly U := by
  simp only [ServesOnly, inputs_append, arrivals_append, List.append_eq_nil_iff]

theorem servesOnly_serve (k : Nat) : ServesOnly [⟨as, .serve k, bs, es⟩] := rfl

theorem ServesOnly.turns (hT : ServesOnly T) (h : Run (step route react) as T bs) :
    backlog bs + T.length = backlog as := by
  induction h with
  | nil => rfl
  | snoc _ hs ih =>
    obtain ⟨hT, hact⟩ := servesOnly_append.1 hT
    have := ih hT
    rw [List.length_append, List.length_singleton]
    cases step_acts hs with
    | refused msg | queued msg => cases hact
    | served k s i q s' o hk =>
      have := backlog_set s' hk
      omega

/-- What an actor is served is the beginning of its queue. -/
theorem ServesOnly.alone (hT : ServesOnly T) (h : Run (step route react) as T bs)
    (ha : as[k]? = some a) : ∃ b, bs[k]? = some b ∧
      a.queue = inputs (served k (outputs T)) ++ b.queue ∧
      Run (react k) a.state (served k (outputs T)) b.state := by
  obtain ⟨b, hb, hq, hr⟩ := fifo h ha
  have hin : inbox k (outputs T) = [] := by
    have hsub := inbox_sublist h k
    rw [hT] at hsub
    exact List.sublist_nil.1 hsub
  rw [hin, List.append_nil] at hq
  exact ⟨b, hb, hq, hr⟩

/-- **The schedule does not matter**: two schedules that drain the queues end in the same state, and
each actor reacts to the same messages in the same way. -/
theorem ServesOnly.unique (hT : ServesOnly T) (hU : ServesOnly U)
    (h : Run (step route react) as T bs) (h' : Run (step route react) as U cs)
    (hb : backlog bs = 0) (hc : backlog cs = 0) :
    bs = cs ∧ ∀ k a, as[k]? = some a → served k (outputs T) = served k (outputs U) := by
  have hone : ∀ k a, as[k]? = some a →
      bs[k]? = cs[k]? ∧ served k (outputs T) = served k (outputs U) := by
    intro k a ha
    obtain ⟨b, hbk, hq, hr⟩ := hT.alone h ha
    obtain ⟨c, hck, hq', hr'⟩ := hU.alone h' ha
    have hbq := backlog_eq_zero.1 hb b (List.mem_of_getElem? hbk)
    have hcq := backlog_eq_zero.1 hc c (List.mem_of_getElem? hck)
    rw [hbq, List.append_nil] at hq
    rw [hcq, List.append_nil] at hq'
    have hi : inputs (served k (outputs T)) = inputs (served k (outputs U)) := hq.symm.trans hq'
    have hlen := congrArg List.length hi
    simp only [inputs, List.length_map] at hlen
    have he := (hr.prefix_of_inputs hr' (hi ▸ List.prefix_refl _)).eq_of_length hlen
    refine ⟨?_, he⟩
    obtain ⟨s, q⟩ := b
    obtain ⟨s', q'⟩ := c
    dsimp only at hr hr' hbq hcq
    rw [he] at hr
    rw [hbk, hck, hbq, hcq, hr.unique hr']
  refine ⟨List.ext_getElem? fun k => ?_, fun k a ha => (hone k a ha).2⟩
  cases ha : as[k]? with
  | some a => exact (hone k a ha).1
  | none =>
    have hk := List.getElem?_eq_none_iff.1 ha
    rw [List.getElem?_eq_none (by rw [length_run h]; exact hk),
      List.getElem?_eq_none (by rw [length_run h']; exact hk)]

/-- If every actor alone reads its queue without a failure, every schedule can be completed. -/
theorem ServesOnly.complete (hreact : ∀ k a, as[k]? = some a →
      ∃ L s, Run (react k) a.state L s ∧ inputs L = a.queue)
    (hT : ServesOnly T) (h : Run (step route react) as T bs) :
    ∃ U cs, Run (step route react) bs U cs ∧ ServesOnly U ∧ backlog cs = 0 := by
  generalize hn : backlog bs = n
  induction n generalizing T bs with
  | zero => exact ⟨[], bs, .nil, rfl, hn⟩
  | succ n ih =>
    -- a queue that is not empty
    obtain ⟨b, hb, hne⟩ : ∃ b ∈ bs, b.queue ≠ [] := by
      by_contra hno
      have hzero := backlog_eq_zero.2 fun b hb => by
        by_contra hne
        exact hno ⟨b, hb, hne⟩
      omega
    obtain ⟨k, hk⟩ := List.mem_iff_getElem?.1 hb
    obtain ⟨s, q⟩ := b
    obtain ⟨i, q, rfl⟩ := List.exists_cons_of_ne_nil hne
    have hlt : k < as.length := length_run h ▸ (List.getElem?_eq_some_iff.1 hk).1
    obtain ⟨b, hb', hq, hr⟩ := hT.alone h (List.getElem?_eq_getElem hlt)
    obtain rfl := Option.some.inj (hk.symm.trans hb')
    -- the actor alone goes on with this message
    obtain ⟨L, s', hL, hi⟩ := hreact k _ (List.getElem?_eq_getElem hlt)
    obtain ⟨L', rfl⟩ := hr.prefix_of_inputs hL (by rw [hi, hq]; exact List.prefix_append _ _)
    rw [hq, inputs_append, List.append_cancel_left_eq] at hi
    obtain ⟨t, L', rfl, rfl, -⟩ := List.map_eq_cons_iff.1 hi
    obtain ⟨hal, hst, -⟩ := hL.split_cons
    obtain rfl : s = t.src := hr.unique hal
    have hs : step route react bs (.serve k) =
        .ok (bs.set k ⟨t.dst, q⟩, [.served k ⟨t.src, t.inp, t.dst, t.out⟩]) := by
      simp only [step, hk, hst]
    have hlen := backlog_set t.dst hk
    obtain ⟨U, cs, hU, hs', hc⟩ :=
      ih (servesOnly_append.2 ⟨hT, servesOnly_serve k⟩) (h.snoc hs) (by omega)
    exact ⟨_, cs, hU.cons hs, servesOnly_append.2 ⟨servesOnly_serve k, hs'⟩, hc⟩

end

/-! ## Translated messages -/

section
variable {ι' : Type*} (f : ι → ι')

def Actor.map (a : Actor σ ι) : Actor σ ι' := ⟨a.state, a.queue.map f⟩

def Act.map : Act ι → Act ι'
  | .arrive msg => .arrive (f msg)
  | .serve k => .serve k

def Entry.map : Entry σ ι ω → Entry σ ι' ω
  | .routed msg k => .routed (f msg) k
  | .served k t => .served k ⟨t.src, f t.inp, t.dst, t.out⟩

/-- The step of the translated system. -/
def translate (t : Transition (List (Actor σ ι)) (Act ι) (Entry σ ι ω)) :
    Transition (List (Actor σ ι')) (Act ι') (Entry σ ι' ω) :=
  { src := t.src.map (·.map f)
    inp := t.inp.map f
    dst := t.dst.map (·.map f)
    out := t.out.map (·.map f) }

/-- Every message that waits meets `P`. -/
def Waiting (P : ι → Prop) (as : List (Actor σ ι)) : Prop := ∀ a ∈ as, ∀ i ∈ a.queue, P i

variable {ε' : Type*} {P : ι → Prop}
  {route : List σ → ι → Option Nat} {react : Nat → σ → ι → Except ε (σ × List ω)}
  {route' : List σ → ι' → Option Nat} {react' : Nat → σ → ι' → Except ε' (σ × List ω)}
  {as as' : List (Actor σ ι)} {act : Act ι} {es : List (Entry σ ι ω)}

theorem states_map (as : List (Actor σ ι)) : states (as.map (·.map f)) = states as := by
  simp only [states, List.map_map]
  rfl

theorem push_map (as : List (Actor σ ι)) (k : Nat) (msg : ι) :
    push (as.map (·.map f)) k (f msg) = (push as k msg).map (·.map f) := by
  refine List.ext_getElem? fun i => ?_
  simp only [push, List.getElem?_modify, List.getElem?_map]
  split
  · cases as[i]? with
    | none => rfl
    | some a => simp [Actor.map]
  · cases as[i]? <;> rfl

theorem Waiting.push {k : Nat} {msg : ι} (h : Waiting P as) (hm : P msg) :
    Waiting P (push as k msg) := by
  intro a ha i hi
  obtain ⟨j, hj⟩ := List.mem_iff_getElem?.1 ha
  rw [Actors.push, List.getElem?_modify] at hj
  cases has : as[j]? with
  | none => simp [has] at hj
  | some b =>
    rw [has] at hj
    have hb := h b (List.mem_of_getElem? has)
    split at hj
    · obtain rfl := Option.some.inj hj
      rcases List.mem_append.1 hi with hi | hi
      · exact hb i hi
      · rw [List.mem_singleton.1 hi]
        exact hm
    · obtain rfl := Option.some.inj hj
      exact hb i hi

theorem Waiting.set {k : Nat} {s s' : σ} {i : ι} {q : List ι} (h : Waiting P as)
    (ha : as[k]? = some ⟨s, i :: q⟩) : Waiting P (as.set k ⟨s', q⟩) := by
  intro b hb j hj
  rcases List.mem_or_eq_of_mem_set hb with hb | rfl
  · exact h b hb j hj
  · exact h _ (List.mem_of_getElem? ha) j (List.mem_cons_of_mem i hj)

theorem step_map (hroute : ∀ ss i, P i → route ss i = route' ss (f i))
    (hreact : ∀ k s i r, P i → react k s i = .ok r → react' k s (f i) = .ok r)
    (hw : Waiting P as) (hp : ∀ msg ∈ arrivals [act], P msg)
    (h : step route react as act = .ok (as', es)) :
    Waiting P as' ∧
      step route' react' (as.map (·.map f)) (act.map f) =
        .ok (as'.map (·.map f), es.map (·.map f)) := by
  cases step_acts h with
  | refused msg hr =>
    rw [hroute _ _ (hp msg (by simp))] at hr
    exact ⟨hw, by simp [step, Act.map, states_map, hr, Entry.map]⟩
  | queued msg k hr =>
    have hm := hp msg (by simp)
    rw [hroute _ _ hm] at hr
    exact ⟨hw.push hm, by simp [step, Act.map, states_map, hr, Entry.map, push_map]⟩
  | served k s i q s' o ha hs =>
    have hi : P i := hw _ (List.mem_of_getElem? ha) i List.mem_cons_self
    have ha' : (as.map (·.map f))[k]? = some ⟨s, f i :: q.map f⟩ := by simp [ha, Actor.map]
    refine ⟨hw.set ha, ?_⟩
    simp only [step, Act.map, ha', hreact _ _ _ _ hi hs, List.map_set, List.map_cons, List.map_nil,
      Entry.map]
    rfl

/-- **A run of the translated system.** -/
theorem run_map {T : List (Transition (List (Actor σ ι)) (Act ι) (Entry σ ι ω))}
    (hroute : ∀ ss i, P i → route ss i = route' ss (f i))
    (hreact : ∀ k s i r, P i → react k s i = .ok r → react' k s (f i) = .ok r)
    (hw : Waiting P as) (hp : ∀ msg ∈ arrivals (inputs T), P msg)
    (h : Run (step route react) as T as') :
    Waiting P as' ∧
      Run (step route' react') (as.map (·.map f)) (T.map (translate f)) (as'.map (·.map f)) := by
  induction h with
  | nil => exact ⟨hw, .nil⟩
  | @snoc T as₁ as₂ act es _ hs ih =>
    simp only [inputs_append, inputs_cons, inputs_nil, arrivals_append, List.mem_append] at hp
    obtain ⟨hw₁, hr₁⟩ := ih fun msg hm => hp msg (.inl hm)
    obtain ⟨hw₂, hs₂⟩ := step_map f hroute hreact hw₁ (fun msg hm => hp msg (.inr hm)) hs
    refine ⟨hw₂, ?_⟩
    rw [List.map_append]
    exact .snoc hr₁ hs₂

/-- A step of the translated system is the translation of a step. -/
theorem step_map_back {bs : List (Actor σ ι')} {fs : List (Entry σ ι' ω)}
    (hroute : ∀ ss i, P i → route ss i = route' ss (f i))
    (hreact : ∀ k s i r, P i → react' k s (f i) = .ok r → react k s i = .ok r)
    (hw : Waiting P as) (hp : ∀ msg ∈ arrivals [act], P msg)
    (h : step route' react' (as.map (·.map f)) (act.map f) = .ok (bs, fs)) :
    ∃ as' es, step route react as act = .ok (as', es) := by
  cases act with
  | arrive msg =>
    have hr := hroute (states as) msg (hp msg (by simp))
    simp only [step, hr]
    cases route' (states as) (f msg) with
    | none => exact ⟨_, _, rfl⟩
    | some k => exact ⟨_, _, rfl⟩
  | serve k =>
    simp only [step, Act.map, List.getElem?_map] at h ⊢
    cases ha : as[k]? with
    | none =>
      rw [ha] at h
      cases h
    | some a =>
      obtain ⟨s, q⟩ := a
      rw [ha] at h
      cases q with
      | nil => cases h
      | cons i q =>
        have hi : P i := hw _ (List.mem_of_getElem? ha) i List.mem_cons_self
        simp only [Option.map_some, Actor.map, List.map_cons] at h
        cases hs : react' k s (f i) with
        | error e =>
          rw [hs] at h
          cases h
        | ok r =>
          simp only [hreact k s i r hi hs]
          exact ⟨_, _, rfl⟩

/-- **A run of the translated system is the translation of a run.** -/
theorem run_map_back {T' : List (Transition (List (Actor σ ι')) (Act ι') (Entry σ ι' ω))}
    {bs : List (Actor σ ι')} {acts : List (Act ι)}
    (hroute : ∀ ss i, P i → route ss i = route' ss (f i))
    (hreact : ∀ k s i r, P i → (react k s i = .ok r ↔ react' k s (f i) = .ok r))
    (hw : Waiting P as) (hp : ∀ msg ∈ arrivals acts, P msg)
    (h : Run (step route' react') (as.map (·.map f)) T' bs)
    (hi : inputs T' = acts.map (Act.map f)) :
    ∃ T as', Run (step route react) as T as' ∧ inputs T = acts ∧ T.map (translate f) = T' ∧
      as'.map (·.map f) = bs ∧ Waiting P as' := by
  induction h generalizing acts with
  | nil =>
    obtain rfl := List.map_eq_nil_iff.1 hi.symm
    exact ⟨[], as, .nil, rfl, rfl, rfl, hw⟩
  | @snoc T' bs₁ bs₂ act' fs _ hs ih =>
    rw [inputs_append, inputs_cons, inputs_nil] at hi
    obtain ⟨acts, l, rfl, hi₁, hl⟩ := List.map_eq_append_iff.1 hi.symm
    obtain ⟨act, rfl, rfl⟩ := List.map_eq_singleton_iff.1 hl
    simp only [arrivals_append, List.mem_append] at hp
    obtain ⟨T, as₁, hT, hi₁, hT', rfl, hw₁⟩ := ih (fun msg hm => hp msg (.inl hm)) hi₁.symm
    have hpa : ∀ msg ∈ arrivals [act], P msg := fun msg hm => hp msg (.inr hm)
    obtain ⟨as₂, es, hs₂⟩ :=
      step_map_back f hroute (fun k s i r hi => (hreact k s i r hi).2) hw₁ hpa hs
    obtain ⟨hw₂, hst⟩ :=
      step_map f hroute (fun k s i r hi => (hreact k s i r hi).1) hw₁ hpa hs₂
    cases hs.symm.trans hst
    exact ⟨_, as₂, hT.snoc hs₂, by simp [hi₁], by simp [hT', translate], rfl, hw₂⟩

end

end Actors
