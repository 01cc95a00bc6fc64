import Integratio.Lib.Monitor

/-!
# `wqueue`

The queue between the listener and a responder: a `std::list` behind a mutex and a condition
variable. `wqueue` is its three operations as an object of the monitor library, `add` and `size`
without a loop around the wait (always ready) and `add` alone with a signal.

* `wqueue_linearizable`: however the calls of any number of threads interleave, each takes effect
  once, between its call and its return, and the effects are those of a first in, first out queue
  (`fifoResult`).
* `wqueue_wakes`: a thread that waits in `remove` is woken for what is added. After finitely many
  steps all calls have returned, but for `remove`s that sleep over an empty queue.
-/

namespace Integratio

open Monitor Transducer

inductive WqueueCall (α : Type*)
  | add (item : α)
  | remove
  | size
  deriving DecidableEq, Repr

inductive WqueueResult (α : Type*)
  | void
  | item (x : Option α)
  | size (n : BitVec 32)
  deriving DecidableEq, Repr

variable {α : Type*}

/-- The operations of `wqueue`. `front` of an empty list is `none`. -/
def wqueue : Object (List α) (WqueueCall α) (WqueueResult α) where
  ready
    | .remove, m_queue => m_queue.length != 0
    | _, _ => true
  body
    | .add item, m_queue => (m_queue ++ [item], .void)
    | .remove, m_queue => (m_queue.tail, .item m_queue.head?)
    | .size, m_queue => (m_queue, .size (.ofNat 32 m_queue.length))
  signals
    | .add _ => true
    | _ => false

/-! ## First in, first out -/

/-- The items of the `add`s. -/
def added (l : List (WqueueCall α × WqueueResult α)) : List α :=
  l.filterMap fun
    | (.add item, _) => some item
    | _ => none

/-- What the `remove`s returned. -/
def removed (l : List (WqueueCall α × WqueueResult α)) : List α :=
  l.filterMap fun
    | (.remove, .item x) => x
    | _ => none

/-- The result of a call after the calls `l`. -/
def fifoResult (l : List (WqueueCall α × WqueueResult α)) : WqueueCall α → WqueueResult α
  | .add _ => .void
  | .remove => .item (added l)[(removed l).length]?
  | .size => .size (.ofNat 32 ((added l).length - (removed l).length))

/-- A call returned what a first in, first out queue returns, and a `remove` an item. -/
def AsFifo (l : List (WqueueCall α × WqueueResult α)) (x : WqueueCall α × WqueueResult α) : Prop :=
  x.2 = fifoResult l x.1 ∧ (x.1 = .remove → (removed l).length < (added l).length)

theorem added_append (l l' : List (WqueueCall α × WqueueResult α)) :
    added (l ++ l') = added l ++ added l' := List.filterMap_append

theorem removed_append (l l' : List (WqueueCall α × WqueueResult α)) :
    removed (l ++ l') = removed l ++ removed l' := List.filterMap_append

/-- One operation on a queue that holds what was added and not removed. -/
theorem atomic_fifo {q q' : List α} {c : WqueueCall α} {l o : List (WqueueCall α × WqueueResult α)}
    (hl : added l = removed l ++ q) (h : atomic wqueue q c = .ok (q', o)) :
    ∃ x, o = [x] ∧ AsFifo l x ∧ added (l ++ o) = removed (l ++ o) ++ q' := by
  unfold atomic at h
  split at h
  · rename_i hr
    cases h
    refine ⟨_, rfl, ?_⟩
    have hlen := congrArg List.length hl
    rw [List.length_append] at hlen
    rw [added_append, removed_append]
    cases c with
    | add item =>
      refine ⟨⟨rfl, by simp⟩, ?_⟩
      show added l ++ [item] = removed l ++ [] ++ (q ++ [item])
      simp [hl]
    | remove =>
      cases q with
      | nil => simp [wqueue] at hr
      | cons a q =>
        have hlt : (removed l).length < (added l).length := by
          rw [List.length_cons] at hlen
          omega
        refine ⟨⟨?_, fun _ => hlt⟩, ?_⟩
        · simp [fifoResult, hl, wqueue]
        · show added l ++ [] = removed l ++ [a] ++ q
          simp [hl]
    | size =>
      refine ⟨⟨?_, by simp⟩, ?_⟩
      · simp only [fifoResult, hlen, wqueue]
        congr 2
        omega
      · show added l ++ [] = removed l ++ [] ++ q
        simp [hl]
  · cases h

theorem reads_fifo {q : List α} {cs : List (WqueueCall α)}
    {l : List (WqueueCall α × WqueueResult α)} (h : Reads (atomic wqueue) [] cs l q) :
    added l = removed l ++ q ∧ Always AsFifo l := by
  obtain ⟨T, hT, -, rfl⟩ := h
  induction hT with
  | nil => exact ⟨rfl, always_nil⟩
  | snoc _ hs ih =>
    obtain ⟨x, rfl, hx, hl⟩ := atomic_fifo ih.1 hs
    simp only [outputs_append, outputs_cons, outputs_nil, List.append_nil]
    exact ⟨hl, always_snoc.2 ⟨ih.2, hx⟩⟩

/-- **A queue for any number of threads.** -/
theorem wqueue_linearizable {n : Nat}
    {T : List (MonitorStep (List α) (WqueueCall α) (WqueueResult α))}
    {s : State (List α) (WqueueCall α) (WqueueResult α)}
    (hr : Run (step wqueue) (idle n []) T s) :
    (∀ t < n, ∃ (p : Pc (WqueueCall α) (WqueueResult α)) (cs : List _), s.pcs[t]? = some p ∧
      mine t (outputs T) = cs.flatMap (whole t) ++ p.begun t) ∧
    Always AsFifo (effects (outputs T)) ∧
    added (effects (outputs T)) = removed (effects (outputs T)) ++ s.data ∧
    ∀ (t u : Nat) (p q : Pc (WqueueCall α) (WqueueResult α)), s.pcs[t]? = some p →
      s.pcs[u]? = some q → p.inside = true → q.inside = true → t = u := by
  have hsound := Sound.idle (κ := WqueueCall α) (ρ := WqueueResult α) wqueue n []
  obtain ⟨hfifo, halways⟩ := reads_fifo (linear hsound hr)
  refine ⟨fun t ht => whole_calls hr ?_, halways, hfifo, fun t u p q hp hq hpi hqi => ?_⟩
  · simp [idle, ht]
  · exact (hsound.run hr).alone hp hq hpi hqi

/-- Thread 0 waits in `remove` for the item that thread 1 adds, up to the signal. -/
def handover : List (Nat × Move (WqueueCall Nat)) :=
  [(0, .call .remove), (0, .go), (0, .go), (1, .call (.add 7)), (1, .go), (1, .go), (1, .go)]

def handoverRun (acts : List (Nat × Move (WqueueCall Nat))) :
    List (MonitorStep (List Nat) (WqueueCall Nat) (WqueueResult Nat)) :=
  (exec (step wqueue) (idle 2 []) acts).toOption.getD []

/-- The handover, and how the two calls return. -/
def handoverDone : List (Nat × Move (WqueueCall Nat)) :=
  handover ++ [(1, .signal (some 0)), (1, .go), (0, .go), (0, .go), (0, .go), (0, .go)]

theorem wqueue_linearizable_handover :
    (∀ t < 2, ∃ (p : Pc (WqueueCall Nat) (WqueueResult Nat)) (cs : List _),
      (final (idle 2 []) (handoverRun handoverDone)).pcs[t]? = some p ∧
      mine t (outputs (handoverRun handoverDone)) = cs.flatMap (whole t) ++ p.begun t) ∧
    Always AsFifo (effects (outputs (handoverRun handoverDone))) ∧
    added (effects (outputs (handoverRun handoverDone))) =
      removed (effects (outputs (handoverRun handoverDone))) ++
        (final (idle 2 []) (handoverRun handoverDone)).data ∧
    ∀ (t u : Nat) (p q : Pc (WqueueCall Nat) (WqueueResult Nat)),
      (final (idle 2 []) (handoverRun handoverDone)).pcs[t]? = some p →
      (final (idle 2 []) (handoverRun handoverDone)).pcs[u]? = some q →
      p.inside = true → q.inside = true → t = u := by
  have he : exec (step wqueue) (idle 2 []) handoverDone = .ok (handoverRun handoverDone) := rfl
  exact wqueue_linearizable (Run.of_exec he).1

/-! ## Wakeups -/

def WqueueCall.waits : WqueueCall α → Bool
  | .remove => true
  | _ => false

theorem wqueue_counts : Counts (wqueue (α := α)) List.length WqueueCall.waits := by
  refine ⟨fun c d h => ?_, fun c h => ?_, fun c d h hr => ?_, fun c d h => ?_, fun c d h => ?_⟩
  · cases c <;> simp_all [wqueue, WqueueCall.waits]
  · cases c <;> simp_all [wqueue, WqueueCall.waits]
  · cases c with
    | remove =>
      cases d with
      | nil => simp [wqueue] at hr
      | cons a d => simp [wqueue]
    | _ => cases h
  · cases c <;> simp_all [wqueue]
  · cases c <;> simp_all [wqueue]

/-- **No call hangs while there is something to return.** -/
theorem wqueue_wakes {n : Nat}
    {T : List (MonitorStep (List α) (WqueueCall α) (WqueueResult α))}
    {s : State (List α) (WqueueCall α) (WqueueResult α)}
    (hr : Run (step wqueue) (idle n []) T s) :
    (∀ T' s', Run (step wqueue) s T' s' → (∀ x ∈ inputs T', x.2.own = true) →
      T'.length ≤ 9 * n ∧
      (Quiet wqueue s' → ∀ p ∈ s'.pcs, p = .idle ∨ p = .asleep .remove ∧ s'.data = [])) ∧
    ∃ T' s', Run (step wqueue) s T' s' ∧ (∀ x ∈ inputs T', x.2.own = true) ∧ Quiet wqueue s' := by
  have hidle := Sound.idle (κ := WqueueCall α) (ρ := WqueueResult α) wqueue n []
  have hsound := hidle.run hr
  have hheard := (Heard.idle n []).run wqueue_counts hidle hr
  have hn : s.pcs.length = n := by
    rw [length_run hr]
    simp [idle]
  refine ⟨fun T' s' hr' hown => ⟨?_, fun hq p hp => ?_⟩, exists_quiet wqueue_counts hsound⟩
  · have h1 := fuel_run wqueue_counts hsound hr' hown
    have h2 := fuel_le (o := wqueue) s
    omega
  · have hsound' := hsound.run hr'
    obtain ⟨-, hrest⟩ := hq.rests hsound' (hheard.run wqueue_counts hsound hr')
    refine (hrest p hp).imp_right ?_
    rintro ⟨c, rfl, hlen⟩
    obtain ⟨t, ht⟩ := List.mem_iff_getElem?.1 hp
    obtain ⟨d, hd⟩ := hsound'.asleep t c ht
    cases c with
    | remove => exact ⟨rfl, List.eq_nil_of_length_eq_zero hlen⟩
    | _ => cases hd

theorem wqueue_wakes_handover :
    (∀ T' s', Run (step wqueue) (final (idle 2 []) (handoverRun handover)) T' s' →
      (∀ x ∈ inputs T', x.2.own = true) → T'.length ≤ 9 * 2 ∧
      (Quiet wqueue s' → ∀ p ∈ s'.pcs, p = .idle ∨ p = .asleep .remove ∧ s'.data = [])) ∧
    ∃ T' s', Run (step wqueue) (final (idle 2 []) (handoverRun handover)) T' s' ∧
      (∀ x ∈ inputs T', x.2.own = true) ∧ Quiet wqueue s' := by
  have he : exec (step wqueue) (idle 2 []) handover = .ok (handoverRun handover) := rfl
  exact wqueue_wakes (Run.of_exec he).1

end Integratio
