import Integratio.Lib.Run
import Mathlib.Data.List.Induction
import Mathlib.Logic.Function.Basic

/-!
# Monitors

Data behind a mutex and a condition variable. Every operation of a monitor has the form

    lock; while (not ready) wait; body; signal; unlock

where the `signal` is optional, and any number of threads call operations one after another. `step`
interleaves them: a `go` is the next step of one thread; to `wait` releases the mutex and sleeps in
one step, and a thread that was woken has to lock again before it tests again; a `signal` wakes one
of the sleeping threads, if there is one, and a thread may also wake by itself.

* `Sound` is the invariant of the mutex, kept by every step (`Sound.step`).
* `linear`: the bodies that ran are a run of the sequential object (`atomic`), and `whole_calls`:
  each ran once, between its call and its return, with the result that was returned.
* `Counts` describes an object whose operations wait for a resource and signal what they add of it;
  then no wakeup is lost (`Quiet.rests`) and the threads are done after `fuel` steps
  (`fuel_run`).
-/

namespace Monitor

open Transducer

variable {δ κ ρ : Type*}

/-- What the operations do with the data. -/
structure Object (δ κ ρ : Type*) where
  ready : κ → δ → Bool
  body : κ → δ → δ × ρ
  signals : κ → Bool

/-- Where a thread is. -/
inductive Pc (κ ρ : Type*)
  | idle
  /-- Before the lock. -/
  | enter (c : κ)
  /-- Before a test of the loop. -/
  | test (c : κ)
  | asleep (c : κ)
  /-- Woken, before the lock. -/
  | awake (c : κ)
  /-- Behind the loop. -/
  | act (c : κ)
  | signal (c : κ) (r : ρ)
  /-- Before the unlock. -/
  | leave (c : κ) (r : ρ)
  deriving DecidableEq, Repr

structure State (δ κ ρ : Type*) where
  data : δ
  owner : Option Nat
  pcs : List (Pc κ ρ)
  deriving DecidableEq, Repr

/-- The step of a thread; what is chosen in it is its argument. -/
inductive Move (κ : Type*)
  | call (c : κ)
  | go
  /-- Signal, which wakes the given thread. -/
  | signal (u : Option Nat)
  /-- Wake without a signal. -/
  | wake
  deriving DecidableEq, Repr

inductive Event (κ ρ : Type*)
  | called (t : Nat) (c : κ)
  | ran (t : Nat) (c : κ) (r : ρ)
  | returned (t : Nat) (c : κ) (r : ρ)
  deriving DecidableEq, Repr

/-- The thread cannot do this. -/
inductive Blocked
  | blocked
  deriving DecidableEq, Repr

def State.to (s : State δ κ ρ) (t : Nat) (p : Pc κ ρ) : State δ κ ρ :=
  { s with pcs := s.pcs.set t p }

@[simp] theorem State.to_data (s : State δ κ ρ) (t : Nat) (p : Pc κ ρ) :
    (s.to t p).data = s.data := rfl
@[simp] theorem State.to_owner (s : State δ κ ρ) (t : Nat) (p : Pc κ ρ) :
    (s.to t p).owner = s.owner := rfl
@[simp] theorem State.to_pcs (s : State δ κ ρ) (t : Nat) (p : Pc κ ρ) :
    (s.to t p).pcs = s.pcs.set t p := rfl

def Pc.isAsleep : Pc κ ρ → Bool
  | .asleep _ => true
  | _ => false

/-- Inside the mutex. -/
def Pc.inside : Pc κ ρ → Bool
  | .test _ | .act _ | .signal .. | .leave .. => true
  | _ => false

/-- One step of one thread (module doc). -/
def step (o : Object δ κ ρ) (s : State δ κ ρ) (x : Nat × Move κ) :
    Except Blocked (State δ κ ρ × List (Event κ ρ)) :=
  match s.pcs[x.1]?, x.2 with
  | some .idle, .call c => .ok (s.to x.1 (.enter c), [.called x.1 c])
  | some (.enter c), .go | some (.awake c), .go =>
    match s.owner with
    | some _ => .error .blocked
    | none => .ok ({ s.to x.1 (.test c) with owner := some x.1 }, [])
  | some (.test c), .go =>
    if o.ready c s.data then .ok (s.to x.1 (.act c), [])
    else .ok ({ s.to x.1 (.asleep c) with owner := none }, [])
  | some (.asleep c), .wake => .ok (s.to x.1 (.awake c), [])
  | some (.act c), .go =>
    let r := (o.body c s.data).2
    let p := if o.signals c then .signal c r else .leave c r
    .ok ({ s.to x.1 p with data := (o.body c s.data).1 }, [.ran x.1 c r])
  | some (.signal c r), .signal none =>
    if s.pcs.any Pc.isAsleep then .error .blocked else .ok (s.to x.1 (.leave c r), [])
  | some (.signal c r), .signal (some u) =>
    match s.pcs[u]? with
    | some (.asleep c') => .ok ((s.to x.1 (.leave c r)).to u (.awake c'), [])
    | _ => .error .blocked
  | some (.leave c r), .go =>
    .ok ({ s.to x.1 .idle with owner := none }, [.returned x.1 c r])
  | _, _ => .error .blocked

abbrev MonitorStep (δ κ ρ : Type*) := Transition (State δ κ ρ) (Nat × Move κ) (Event κ ρ)

/-- `n` threads that have called nothing. -/
def idle (n : Nat) (d : δ) : State δ κ ρ := ⟨d, none, List.replicate n .idle⟩

/-! ## The steps -/

variable {o : Object δ κ ρ} {s s' : State δ κ ρ} {x : Nat × Move κ} {es : List (Event κ ρ)}

inductive Goes (o : Object δ κ ρ) (s : State δ κ ρ) :
    Nat × Move κ → State δ κ ρ → List (Event κ ρ) → Prop
  | call (t : Nat) (c : κ) : s.pcs[t]? = some .idle →
      Goes o s (t, .call c) (s.to t (.enter c)) [.called t c]
  | lock (t : Nat) (c : κ) (p : Pc κ ρ) : s.pcs[t]? = some p → p = .enter c ∨ p = .awake c →
      s.owner = none → Goes o s (t, .go) { s.to t (.test c) with owner := some t } []
  | pass (t : Nat) (c : κ) : s.pcs[t]? = some (.test c) → o.ready c s.data = true →
      Goes o s (t, .go) (s.to t (.act c)) []
  | wait (t : Nat) (c : κ) : s.pcs[t]? = some (.test c) → o.ready c s.data = false →
      Goes o s (t, .go) { s.to t (.asleep c) with owner := none } []
  | wake (t : Nat) (c : κ) : s.pcs[t]? = some (.asleep c) →
      Goes o s (t, .wake) (s.to t (.awake c)) []
  | run (t : Nat) (c : κ) (p : Pc κ ρ) : s.pcs[t]? = some (.act c) →
      (o.signals c = true ∧ p = .signal c (o.body c s.data).2 ∨
        o.signals c = false ∧ p = .leave c (o.body c s.data).2) →
      Goes o s (t, .go) { s.to t p with data := (o.body c s.data).1 }
        [.ran t c (o.body c s.data).2]
  | unheard (t : Nat) (c : κ) (r : ρ) : s.pcs[t]? = some (.signal c r) →
      s.pcs.any Pc.isAsleep = false → Goes o s (t, .signal none) (s.to t (.leave c r)) []
  | signal (t u : Nat) (c : κ) (r : ρ) (c' : κ) : s.pcs[t]? = some (.signal c r) →
      s.pcs[u]? = some (.asleep c') →
      Goes o s (t, .signal (some u)) ((s.to t (.leave c r)).to u (.awake c')) []
  | unlock (t : Nat) (c : κ) (r : ρ) : s.pcs[t]? = some (.leave c r) →
      Goes o s (t, .go) { s.to t .idle with owner := none } [.returned t c r]

theorem step_goes (h : step o s x = .ok (s', es)) : Goes o s x s' es := by
  obtain ⟨t, mv⟩ := x
  unfold step at h
  split at h
  · rename_i c hp hm
    cases hm
    cases h
    exact .call t c hp
  · rename_i c hp hm
    cases hm
    split at h
    · cases h
    · rename_i ho
      cases h
      exact .lock t c _ hp (.inl rfl) ho
  · rename_i c hp hm
    cases hm
    split at h
    · cases h
    · rename_i ho
      cases h
      exact .lock t c _ hp (.inr rfl) ho
  · rename_i c hp hm
    cases hm
    split at h
    · rename_i hr
      cases h
      exact .pass t c hp hr
    · rename_i hr
      cases h
      exact .wait t c hp (by simpa using hr)
  · rename_i c hp hm
    cases hm
    cases h
    exact .wake t c hp
  · rename_i c hp hm
    cases hm
    cases h
    refine .run t c _ hp ?_
    cases o.signals c
    · exact .inr ⟨rfl, rfl⟩
    · exact .inl ⟨rfl, rfl⟩
  · rename_i c r hp hm
    cases hm
    split at h
    · cases h
    · rename_i ha
      cases h
      exact .unheard t c r hp (by simpa using ha)
  · rename_i c r u hp hm
    cases hm
    split at h
    · rename_i c' hu
      cases h
      exact .signal t u c r c' hp hu
    · cases h
  · rename_i c r hp hm
    cases hm
    cases h
    exact .unlock t c r hp
  · cases h

theorem length_step (h : step o s x = .ok (s', es)) : s'.pcs.length = s.pcs.length := by
  cases step_goes h <;> simp

theorem length_run {T : List (MonitorStep δ κ ρ)} (h : Run (step o) s T s') :
    s'.pcs.length = s.pcs.length :=
  h.inv (·.pcs.length = s.pcs.length) (fun _ _ _ _ hl hs => (length_step hs).trans hl) rfl

/-! ## The mutex -/

/-- The invariant of the mutex: who is inside holds it, and what a thread found in its test stays
so until its body runs. -/
structure Sound (o : Object δ κ ρ) (s : State δ κ ρ) : Prop where
  inside : ∀ (t : Nat) (p : Pc κ ρ), s.pcs[t]? = some p → (p.inside = true ↔ s.owner = some t)
  owner : ∀ t : Nat, s.owner = some t → ∃ p, s.pcs[t]? = some p
  act : ∀ (t : Nat) (c : κ), s.pcs[t]? = some (Pc.act c) → o.ready c s.data = true
  asleep : ∀ (t : Nat) (c : κ), s.pcs[t]? = some (Pc.asleep c) → ∃ d, o.ready c d = false

theorem set_cases {l : List (Pc κ ρ)} {t u : Nat} {p q : Pc κ ρ} (h : (l.set t q)[u]? = some p) :
    u = t ∧ p = q ∨ u ≠ t ∧ l[u]? = some p := by
  by_cases hu : u = t
  · subst hu
    rw [List.getElem?_set] at h
    by_cases hl : u < l.length
    · exact .inl ⟨rfl, by simpa [hl, eq_comm] using h⟩
    · simp [hl] at h
  · rw [List.getElem?_set_ne (Ne.symm hu)] at h
    exact .inr ⟨hu, h⟩

/-- One thread moves; the mutex, if it changes, was free or this thread's, and so was the data. -/
theorem Sound.set {t : Nat} {p q : Pc κ ρ} {own : Option Nat} {d : δ} (h : Sound o s)
    (hp : s.pcs[t]? = some p) (hin : q.inside = true ↔ own = some t)
    (hown : own = s.owner ∨ (s.owner = none ∨ s.owner = some t) ∧ (own = none ∨ own = some t))
    (hact : ∀ c, q = .act c → o.ready c d = true)
    (hasleep : ∀ c, q = .asleep c → ∃ d, o.ready c d = false)
    (hd : d = s.data ∨ s.owner = some t) : Sound o ⟨d, own, s.pcs.set t q⟩ := by
  have ht : t < s.pcs.length := (List.getElem?_eq_some_iff.1 hp).1
  -- the other threads see no change of the owner
  have hother : ∀ u, u ≠ t → (s.owner = some u ↔ own = some u) := by
    intro u hu
    rcases hown with rfl | ⟨h1, h2⟩
    · rfl
    · rcases h1 with h1 | h1 <;> rcases h2 with h2 | h2 <;> simp [h1, h2, Ne.symm hu]
  refine ⟨fun u q' hq => ?_, fun u hu => ?_, fun u c hq => ?_, fun u c hq => ?_⟩
  · rcases set_cases hq with ⟨rfl, rfl⟩ | ⟨hu, hq⟩
    · exact hin
    · exact (h.inside u q' hq).trans (hother u hu)
  · by_cases hut : u = t
    · subst hut
      exact ⟨q, List.getElem?_set_self ht⟩
    · obtain ⟨p', hp'⟩ := h.owner u ((hother u hut).2 hu)
      exact ⟨p', by rwa [List.getElem?_set_ne (Ne.symm hut)]⟩
  · rcases set_cases hq with ⟨rfl, he⟩ | ⟨hu, hq'⟩
    · exact hact c he.symm
    · rcases hd with rfl | hd
      · exact h.act u c hq'
      · have := (h.inside u _ hq').1 rfl
        rw [hd] at this
        exact absurd (Option.some.inj this).symm hu
  · rcases set_cases hq with ⟨-, he⟩ | ⟨-, hq⟩
    · exact hasleep c he.symm
    · exact h.asleep u c hq

theorem Sound.to {t : Nat} {p q : Pc κ ρ} (h : Sound o s) (hp : s.pcs[t]? = some p)
    (hin : q.inside = p.inside) (hact : ∀ c, q = .act c → o.ready c s.data = true)
    (hasleep : ∀ c, q = .asleep c → ∃ d, o.ready c d = false) : Sound o (s.to t q) :=
  h.set hp (by rw [hin]; exact h.inside t p hp) (.inl rfl) hact hasleep (.inl rfl)

theorem Sound.step (h : Sound o s) (hs : step o s x = .ok (s', es)) : Sound o s' := by
  cases step_goes hs with
  | call t c hp => exact h.to hp rfl (by simp) (by simp)
  | lock t c p hp hc ho =>
    refine h.set hp (by simp [Pc.inside]) (.inr ⟨.inl ho, .inr rfl⟩) (by simp) (by simp) (.inl rfl)
  | pass t c hp hr => exact h.to hp rfl (fun c' he => by cases he; exact hr) (by simp)
  | wait t c hp hr =>
    have ho := (h.inside t _ hp).1 rfl
    exact h.set hp (by simp [Pc.inside]) (.inr ⟨.inr ho, .inl rfl⟩) (by simp)
      (fun c' he => by cases he; exact ⟨_, hr⟩) (.inl rfl)
  | wake t c hp => exact h.to hp rfl (by simp) (by simp)
  | run t c p hp hq =>
    have ho := (h.inside t _ hp).1 rfl
    have hin : p.inside = true := by
      rcases hq with ⟨-, rfl⟩ | ⟨-, rfl⟩ <;> rfl
    have hne : ∀ c', p ≠ .act c' ∧ p ≠ .asleep c' := by
      intro c'
      rcases hq with ⟨-, rfl⟩ | ⟨-, rfl⟩ <;> simp
    exact h.set hp (by simp [hin, ho]) (.inl rfl) (fun c' he => ((hne c').1 he).elim)
      (fun c' he => ((hne c').2 he).elim) (.inr ho)
  | unheard t c r hp ha => exact h.to hp rfl (by simp) (by simp)
  | signal t u c r c' hp hu =>
    have hut : u ≠ t := by
      rintro rfl
      rw [hp] at hu
      cases hu
    have h1 : Sound o (s.to t (.leave c r)) := h.to hp rfl (by simp) (by simp)
    refine h1.to (p := .asleep c') ?_ rfl (by simp) (by simp)
    rw [State.to_pcs, List.getElem?_set_ne (Ne.symm hut), hu]
  | unlock t c r hp =>
    have ho := (h.inside t _ hp).1 rfl
    exact h.set hp (by simp [Pc.inside]) (.inr ⟨.inr ho, .inl rfl⟩) (by simp) (by simp) (.inl rfl)

theorem Sound.idle (o : Object δ κ ρ) (n : Nat) (d : δ) : Sound o (idle n d) := by
  have hpc : ∀ (t : Nat) (p : Pc κ ρ), (Monitor.idle n d : State δ κ ρ).pcs[t]? = some p →
      p = .idle := by
    intro t p hp
    exact List.eq_of_mem_replicate (List.mem_of_getElem? hp)
  refine ⟨fun t p hp => ?_, fun t ht => ?_, fun t c hp => ?_, fun t c hp => ?_⟩
  · simp [hpc t p hp, Pc.inside, Monitor.idle]
  · cases ht
  · cases hpc t _ hp
  · cases hpc t _ hp

variable {T : List (MonitorStep δ κ ρ)}

theorem Sound.run (h : Sound o s) (hr : Run (Monitor.step o) s T s') : Sound o s' :=
  hr.inv (Sound o) (fun _ _ _ _ h hs => h.step hs) h

/-- **Mutual exclusion.** -/
theorem Sound.alone (h : Sound o s) {t u : Nat} {p q : Pc κ ρ} (hp : s.pcs[t]? = some p)
    (hq : s.pcs[u]? = some q) (hpi : p.inside = true) (hqi : q.inside = true) : t = u :=
  Option.some.inj (((h.inside t p hp).1 hpi).symm.trans ((h.inside u q hq).1 hqi))

/-! ## The order of the bodies -/

/-- The object without threads: one operation after another. -/
def atomic (o : Object δ κ ρ) (d : δ) (c : κ) : Except Blocked (δ × List (κ × ρ)) :=
  if o.ready c d then .ok ((o.body c d).1, [(c, (o.body c d).2)]) else .error .blocked

/-- The bodies that ran, with their results. -/
def effects (es : List (Event κ ρ)) : List (κ × ρ) :=
  es.filterMap fun
    | .ran _ c r => some (c, r)
    | _ => none

@[simp] theorem effects_append (es fs : List (Event κ ρ)) :
    effects (es ++ fs) = effects es ++ effects fs := List.filterMap_append

theorem step_linear (h : Sound o s) (hs : step o s x = .ok (s', es)) :
    Reads (atomic o) s.data ((effects es).map (·.1)) (effects es) s'.data := by
  cases step_goes hs with
  | run t c p hp hq =>
    refine .single ?_
    simp only [atomic, h.act t c hp, if_true]
    rfl
  | _ => exact .nil s.data

/-- **The bodies run one after another**, each on the data that the one before left, in the order
of their events. -/
theorem linear (h : Sound o s) (hr : Run (step o) s T s') :
    Reads (atomic o) s.data ((effects (outputs T)).map (·.1)) (effects (outputs T)) s'.data := by
  induction hr with
  | nil => exact .nil s.data
  | @snoc T s₁ s₂ x es hr hs ih =>
    have := ih.append (step_linear (h.run hr) hs)
    simpa using this

def Event.thread : Event κ ρ → Nat
  | .called t _ | .ran t _ _ | .returned t _ _ => t

/-- What a thread saw. -/
def mine (t : Nat) (es : List (Event κ ρ)) : List (Event κ ρ) := es.filter (·.thread = t)

/-- A call: its body ran once, before it returned, and it returned that result. -/
def whole (t : Nat) (x : κ × ρ) : List (Event κ ρ) :=
  [.called t x.1, .ran t x.1 x.2, .returned t x.1 x.2]

/-- The call that a thread is in. -/
def Pc.begun (t : Nat) : Pc κ ρ → List (Event κ ρ)
  | .idle => []
  | .enter c | .test c | .asleep c | .awake c | .act c => [.called t c]
  | .signal c r | .leave c r => [.called t c, .ran t c r]

/-- What a step does to a thread: nothing that it sees, or one more event of its call. -/
theorem step_mine {t : Nat} {p : Pc κ ρ} (hs : step o s x = .ok (s', es))
    (hp : s.pcs[t]? = some p) :
    ∃ (p' : Pc κ ρ) (cs : List (κ × ρ)), s'.pcs[t]? = some p' ∧
      p.begun t ++ mine t es = cs.flatMap (whole t) ++ p'.begun t := by
  have hlt : t < s.pcs.length := (List.getElem?_eq_some_iff.1 hp).1
  have hother : ∀ {u : Nat} (q : Pc κ ρ), t ≠ u → (s.pcs.set u q)[t]? = some p := by
    intro u q hu
    rw [List.getElem?_set_ne (Ne.symm hu), hp]
  have hself : ∀ q : Pc κ ρ, (s.pcs.set t q)[t]? = some q := fun q => List.getElem?_set_self hlt
  -- a silent move of some thread from `q` to `q'`
  have hsilent : ∀ {u : Nat} {q : Pc κ ρ} (q' : Pc κ ρ), s.pcs[u]? = some q →
      q'.begun u = q.begun u → ∃ (p' : Pc κ ρ) (cs : List (κ × ρ)),
        (s.pcs.set u q')[t]? = some p' ∧ p.begun t = cs.flatMap (whole t) ++ p'.begun t := by
    intro u q q' hq he
    by_cases hu : t = u
    · subst hu
      obtain rfl := Option.some.inj (hp.symm.trans hq)
      exact ⟨q', [], hself q', he.symm⟩
    · exact ⟨p, [], hother q' hu, rfl⟩
  cases step_goes hs with
  | call u c hu =>
    by_cases htu : t = u
    · subst htu
      obtain rfl := Option.some.inj (hp.symm.trans hu)
      exact ⟨.enter c, [], hself _, by simp [Pc.begun, mine, Event.thread]⟩
    · exact ⟨p, [], hother _ htu, by simp [mine, Event.thread, Ne.symm htu]⟩
  | lock u c q hu hc ho =>
    obtain ⟨p', cs, h1, h2⟩ := hsilent (.test c) hu (by rcases hc with rfl | rfl <;> rfl)
    exact ⟨p', cs, h1, by simpa [mine] using h2⟩
  | pass u c hu hr =>
    obtain ⟨p', cs, h1, h2⟩ := hsilent (.act c) hu rfl
    exact ⟨p', cs, h1, by simpa [mine] using h2⟩
  | wait u c hu hr =>
    obtain ⟨p', cs, h1, h2⟩ := hsilent (.asleep c) hu rfl
    exact ⟨p', cs, h1, by simpa [mine] using h2⟩
  | wake u c hu =>
    obtain ⟨p', cs, h1, h2⟩ := hsilent (.awake c) hu rfl
    exact ⟨p', cs, h1, by simpa [mine] using h2⟩
  | run u c q hu hq =>
    by_cases htu : t = u
    · subst htu
      obtain rfl := Option.some.inj (hp.symm.trans hu)
      refine ⟨q, [], hself _, ?_⟩
      rcases hq with ⟨-, rfl⟩ | ⟨-, rfl⟩ <;> simp [Pc.begun, mine, Event.thread]
    · exact ⟨p, [], hother _ htu, by simp [mine, Event.thread, Ne.symm htu]⟩
  | unheard u c r hu ha =>
    obtain ⟨p', cs, h1, h2⟩ := hsilent (.leave c r) hu rfl
    exact ⟨p', cs, h1, by simpa [mine] using h2⟩
  | signal u v c r c' hu hv =>
    have hne : v ≠ u := by
      rintro rfl
      rw [hu] at hv
      cases hv
    by_cases htv : t = v
    · subst htv
      obtain rfl := Option.some.inj (hp.symm.trans hv)
      refine ⟨.awake c', [], ?_, by simp [Pc.begun, mine]⟩
      rw [State.to_pcs, List.getElem?_set_self (by simpa using hlt)]
    · obtain ⟨p', cs, h1, h2⟩ := hsilent (.leave c r) hu rfl
      refine ⟨p', cs, ?_, by simpa [mine] using h2⟩
      rw [State.to_pcs, List.getElem?_set_ne (Ne.symm htv)]
      exact h1
  | unlock u c r hu =>
    by_cases htu : t = u
    · subst htu
      obtain rfl := Option.some.inj (hp.symm.trans hu)
      exact ⟨.idle, [(c, r)], hself _, by simp [Pc.begun, mine, Event.thread, whole]⟩
    · exact ⟨p, [], hother _ htu, by simp [mine, Event.thread, Ne.symm htu]⟩

/-- **Calls are whole**: what a thread saw are calls, one after another, of which the last may not
have returned yet. -/
theorem whole_calls {t : Nat} (hr : Run (step o) s T s') (ht : s.pcs[t]? = some .idle) :
    ∃ (p : Pc κ ρ) (cs : List (κ × ρ)), s'.pcs[t]? = some p ∧
      mine t (outputs T) = cs.flatMap (whole t) ++ p.begun t := by
  induction hr with
  | nil => exact ⟨.idle, [], ht, rfl⟩
  | snoc hr hs ih =>
    obtain ⟨p, cs, hp, he⟩ := ih
    obtain ⟨p', cs', hp', he'⟩ := step_mine hs hp
    refine ⟨p', cs ++ cs', hp', ?_⟩
    simp only [mine] at he he' ⊢
    simp only [outputs_append, outputs_cons, outputs_nil, List.append_nil, List.filter_append, he,
      List.append_assoc, he', List.flatMap_append]

/-! ## Where the calls are -/

/-- The call that a thread is in. -/
def Pc.call : Pc κ ρ → Option κ
  | .idle => none
  | .enter c | .test c | .asleep c | .awake c | .act c | .signal c _ | .leave c _ => some c

/-- What the body of the call returned. -/
def Pc.result : Pc κ ρ → Option ρ
  | .signal _ r | .leave _ r => some r
  | _ => none

def State.call (s : State δ κ ρ) (t : Nat) : Option κ := s.pcs[t]?.bind Pc.call

def State.result (s : State δ κ ρ) (t : Nat) : Option ρ := s.pcs[t]?.bind Pc.result

theorem State.call_of_result {t : Nat} {r : ρ} (h : s.result t = some r) :
    ∃ c, s.call t = some c := by
  obtain ⟨p, hp, hr⟩ := Option.bind_eq_some_iff.1 h
  rw [State.call, hp]
  cases p with
  | signal c r | leave c r => exact ⟨c, rfl⟩
  | _ => cases hr

theorem State.result_of_call {t : Nat} (h : s.call t = none) : s.result t = none := by
  cases hr : s.result t with
  | none => rfl
  | some r =>
    obtain ⟨c, hc⟩ := State.call_of_result hr
    rw [h] at hc
    cases hc

theorem State.call_of_pcs {t : Nat} {p : Pc κ ρ} (h : s.pcs[t]? = some p) : s.call t = p.call := by
  rw [State.call, h, Option.bind_some]

theorem State.result_of_pcs {t : Nat} {p : Pc κ ρ} (h : s.pcs[t]? = some p) :
    s.result t = p.result := by rw [State.result, h, Option.bind_some]

theorem bind_set {α : Type*} {l : List (Pc κ ρ)} {t : Nat} {p : Pc κ ρ} (f : Pc κ ρ → Option α)
    (q : Pc κ ρ) (h : l[t]? = some p) :
    (fun u => (l.set t q)[u]?.bind f) = Function.update (fun u => l[u]?.bind f) t (f q) := by
  funext u
  by_cases hu : u = t
  · subst hu
    rw [List.getElem?_set_self (List.getElem?_eq_some_iff.1 h).1, Function.update_self,
      Option.bind_some]
  · rw [List.getElem?_set_ne (Ne.symm hu), Function.update_of_ne hu]

theorem bind_set_same {α : Type*} {l : List (Pc κ ρ)} {t : Nat} {p q : Pc κ ρ}
    (f : Pc κ ρ → Option α) (h : l[t]? = some p) (hf : f q = f p) :
    (fun u => (l.set t q)[u]?.bind f) = fun u : Nat => l[u]?.bind f := by
  rw [bind_set f q h, hf, Function.update_eq_iff]
  exact ⟨by rw [h, Option.bind_some], fun _ _ => rfl⟩

/-- What a step of thread `t` does to the data, the calls and their results. -/
inductive Changes (o : Object δ κ ρ) (s : State δ κ ρ) (t : Nat) (s' : State δ κ ρ) :
    Move κ → List (Event κ ρ) → Prop
  | called (c : κ) : s.call t = none → s'.data = s.data →
      s'.call = Function.update s.call t (some c) → s'.result = s.result →
      Changes o s t s' (.call c) [.called t c]
  | ran (c : κ) : s.pcs[t]? = some (.act c) → s'.data = (o.body c s.data).1 → s'.call = s.call →
      s'.result = Function.update s.result t (some (o.body c s.data).2) →
      Changes o s t s' .go [.ran t c (o.body c s.data).2]
  | returned (c : κ) (r : ρ) : s.pcs[t]? = some (.leave c r) → s'.data = s.data →
      s'.call = Function.update s.call t none → s'.result = Function.update s.result t none →
      Changes o s t s' .go [.returned t c r]
  | silent (mv : Move κ) : (∀ c, mv ≠ .call c) → s'.data = s.data → s'.call = s.call →
      s'.result = s.result → Changes o s t s' mv []

theorem step_changes {t : Nat} {mv : Move κ} (h : step o s (t, mv) = .ok (s', es)) :
    Changes o s t s' mv es := by
  -- a thread that stays in its call, before or behind the body
  have hstay {l : List (Pc κ ρ)} {u : Nat} {p : Pc κ ρ} (q : Pc κ ρ) (hp : l[u]? = some p) :=
    bind_set_same Pc.call (q := q) hp
  have hkeep {l : List (Pc κ ρ)} {u : Nat} {p : Pc κ ρ} (q : Pc κ ρ) (hp : l[u]? = some p) :=
    bind_set_same Pc.result (q := q) hp
  cases step_goes h with
  | call t c hp =>
    exact .called c (State.call_of_pcs hp) rfl (bind_set Pc.call _ hp) (hkeep _ hp rfl)
  | lock t c p hp hq ho =>
    rcases hq with rfl | rfl
    · exact .silent _ (by simp) rfl (hstay _ hp rfl) (hkeep _ hp rfl)
    · exact .silent _ (by simp) rfl (hstay _ hp rfl) (hkeep _ hp rfl)
  | pass t c hp hr => exact .silent _ (by simp) rfl (hstay _ hp rfl) (hkeep _ hp rfl)
  | wait t c hp hr => exact .silent _ (by simp) rfl (hstay _ hp rfl) (hkeep _ hp rfl)
  | wake t c hp => exact .silent _ (by simp) rfl (hstay _ hp rfl) (hkeep _ hp rfl)
  | run t c p hp hq =>
    rcases hq with ⟨-, rfl⟩ | ⟨-, rfl⟩
    · exact .ran c hp rfl (hstay _ hp rfl) (bind_set Pc.result _ hp)
    · exact .ran c hp rfl (hstay _ hp rfl) (bind_set Pc.result _ hp)
  | unheard t c r hp ha => exact .silent _ (by simp) rfl (hstay _ hp rfl) (hkeep _ hp rfl)
  | signal t u c r c' hp hu =>
    have hne : u ≠ t := by
      rintro rfl
      rw [hp] at hu
      cases hu
    have hu' : (s.pcs.set t (.leave c r))[u]? = some (.asleep c') := by
      rw [List.getElem?_set_ne (Ne.symm hne), hu]
    exact .silent _ (by simp) rfl ((hstay (.awake c') hu' rfl).trans (hstay _ hp rfl))
      ((hkeep (.awake c') hu' rfl).trans (hkeep _ hp rfl))
  | unlock t c r hp =>
    exact .returned c r hp rfl (bind_set Pc.call _ hp) (bind_set Pc.result _ hp)

/-- A thread that is not disturbed gets through a call. -/
theorem run_alone {n t : Nat} {c : κ} {d : δ} (ht : t < n) (hr : o.ready c d = true) :
    ∃ M s', Run (step o) (idle n d) M s' ∧
      (∀ x ∈ inputs M, x = (t, .call c) ∨ x = (t, .go) ∨ x = (t, .signal none)) ∧
      outputs M = [.called t c, .ran t c (o.body c d).2] ∧
      step o s' (t, .go) =
        .ok (idle n (o.body c d).1, [.returned t c (o.body c d).2]) := by
  have hself : ∀ p : Pc κ ρ, ((List.replicate n Pc.idle).set t p)[t]? = some p := by
    intro p
    rw [List.getElem?_set_self (by simpa using ht)]
  have hidle : (List.replicate n (Pc.idle : Pc κ ρ)).set t .idle = List.replicate n .idle := by
    simp
  have hnone : ((List.replicate n (Pc.idle : Pc κ ρ)).set t (.signal c (o.body c d).2)).any
      Pc.isAsleep = false := by
    rw [List.any_eq_false]
    intro p hp
    rcases List.mem_or_eq_of_mem_set hp with hp | rfl
    · rw [List.eq_of_mem_replicate hp]
      simp [Pc.isAsleep]
    · simp [Pc.isAsleep]
  have h1 : step o (idle n d) (t, .call c) =
      .ok (⟨d, none, (List.replicate n .idle).set t (.enter c)⟩, [.called t c]) := by
    simp [step, idle, ht, State.to]
  have h2 : step o ⟨d, none, (List.replicate n .idle).set t (.enter c)⟩ (t, .go) =
      .ok (⟨d, some t, (List.replicate n .idle).set t (.test c)⟩, []) := by
    simp [step, hself, State.to]
  have h3 : step o ⟨d, some t, (List.replicate n .idle).set t (.test c)⟩ (t, .go) =
      .ok (⟨d, some t, (List.replicate n .idle).set t (.act c)⟩, []) := by
    simp [step, hself, State.to, hr]
  have h6 : step o ⟨(o.body c d).1, some t,
        (List.replicate n .idle).set t (.leave c (o.body c d).2)⟩ (t, .go) =
      .ok (idle n (o.body c d).1, [.returned t c (o.body c d).2]) := by
    simp [step, hself, State.to, hidle, idle]
  cases hsig : o.signals c with
  | true =>
    have h4 : step o ⟨d, some t, (List.replicate n .idle).set t (.act c)⟩ (t, .go) =
        .ok (⟨(o.body c d).1, some t,
          (List.replicate n .idle).set t (.signal c (o.body c d).2)⟩,
          [.ran t c (o.body c d).2]) := by
      simp [step, hself, State.to, hsig]
    have h5 : step o ⟨(o.body c d).1, some t,
          (List.replicate n .idle).set t (.signal c (o.body c d).2)⟩ (t, .signal none) =
        .ok (⟨(o.body c d).1, some t,
          (List.replicate n .idle).set t (.leave c (o.body c d).2)⟩, []) := by
      simp [step, hself, State.to, hnone]
    exact ⟨_, _, ((((Run.single h1).snoc h2).snoc h3).snoc h4).snoc h5, by simp, by simp, h6⟩
  | false =>
    have h4 : step o ⟨d, some t, (List.replicate n .idle).set t (.act c)⟩ (t, .go) =
        .ok (⟨(o.body c d).1, some t,
          (List.replicate n .idle).set t (.leave c (o.body c d).2)⟩,
          [.ran t c (o.body c d).2]) := by
      simp [step, hself, State.to, hsig]
    exact ⟨_, _, (((Run.single h1).snoc h2).snoc h3).snoc h4, by simp, by simp, h6⟩

/-! ## Waiting for a resource -/

/-- The operations that wait do so for a resource, of which they take some and which the operations
that signal add to, one at a time. -/
structure Counts (o : Object δ κ ρ) (avail : δ → Nat) (waits : κ → Bool) : Prop where
  starved : ∀ c d, o.ready c d = false → waits c = true ∧ avail d = 0
  silent : ∀ c, waits c = true → o.signals c = false
  takes : ∀ c d, waits c = true → o.ready c d = true → avail (o.body c d).1 + 1 ≤ avail d
  gives : ∀ c d, o.signals c = true → avail (o.body c d).1 ≤ avail d + 1
  keeps : ∀ c d, o.signals c = false → avail (o.body c d).1 ≤ avail d

def total (f : Pc κ ρ → Nat) : List (Pc κ ρ) → Nat
  | [] => 0
  | p :: l => f p + total f l

theorem total_set {l : List (Pc κ ρ)} {t : Nat} {p : Pc κ ρ} (f : Pc κ ρ → Nat) (q : Pc κ ρ)
    (h : l[t]? = some p) : total f (l.set t q) + f p = total f l + f q := by
  induction l generalizing t with
  | nil => cases h
  | cons a l ih =>
    cases t with
    | zero =>
      obtain rfl := Option.some.inj h
      simp only [List.set_cons_zero, total]
      omega
    | succ t =>
      have := ih h
      simp only [List.set_cons_succ, total] at this ⊢
      omega

theorem total_eq_zero {l : List (Pc κ ρ)} {f : Pc κ ρ → Nat} :
    total f l = 0 ↔ ∀ p ∈ l, f p = 0 := by
  induction l with
  | nil => simp [total]
  | cons a l ih => simp [total, ih]

def Pc.sleeper : Pc κ ρ → Nat
  | .asleep _ => 1
  | _ => 0

/-- The thread will look at the data again, or wake another that will. -/
def Pc.looks (waits : κ → Bool) : Pc κ ρ → Nat
  | .test c | .awake c | .act c => if waits c then 1 else 0
  | .signal _ _ => 1
  | _ => 0

/-- If a thread sleeps, there is for each piece of the resource a thread that will look. -/
def Heard (avail : δ → Nat) (waits : κ → Bool) (s : State δ κ ρ) : Prop :=
  0 < total Pc.sleeper s.pcs → avail s.data ≤ total (Pc.looks waits) s.pcs

section
variable {avail : δ → Nat} {waits : κ → Bool}

theorem Heard.step (hc : Counts o avail waits) (hsound : Sound o s) (h : Heard avail waits s)
    (hs : step o s x = .ok (s', es)) : Heard avail waits s' := by
  unfold Heard at h ⊢
  cases step_goes hs with
  | call t c hp =>
    have h1 := total_set Pc.sleeper (.enter c) hp
    have h2 := total_set (Pc.looks waits) (.enter c) hp
    simp only [Pc.sleeper, Pc.looks, State.to_pcs, State.to_data] at *
    omega
  | lock t c p hp hq ho =>
    have h1 := total_set Pc.sleeper (.test c) hp
    have h2 := total_set (Pc.looks waits) (.test c) hp
    rcases hq with rfl | rfl <;> simp only [Pc.sleeper, Pc.looks, State.to_pcs, State.to_data] at *
    · omega
    · omega
  | pass t c hp hr =>
    have h1 := total_set Pc.sleeper (.act c) hp
    have h2 := total_set (Pc.looks waits) (.act c) hp
    simp only [Pc.sleeper, Pc.looks, State.to_pcs, State.to_data] at *
    omega
  | wait t c hp hr =>
    -- nothing is there to wake for
    have h0 := (hc.starved c s.data hr).2
    simp only [State.to_data] at *
    omega
  | wake t c hp =>
    have hw : waits c = true := by
      obtain ⟨d, hd⟩ := hsound.asleep t c hp
      exact (hc.starved c d hd).1
    have h1 := total_set Pc.sleeper (.awake c) hp
    have h2 := total_set (Pc.looks waits) (.awake c) hp
    simp only [Pc.sleeper, Pc.looks, hw, if_true, State.to_pcs, State.to_data] at *
    omega
  | run t c p hp hq =>
    have h1 := total_set Pc.sleeper p hp
    have h2 := total_set (Pc.looks waits) p hp
    rcases hq with ⟨hsig, rfl⟩ | ⟨hsig, rfl⟩
    · have h3 := hc.gives c s.data hsig
      have hw : waits c = false := by
        by_contra hw
        have := hc.silent c (by simpa using hw)
        simp [hsig] at this
      simp only [Pc.sleeper, Pc.looks, hw, State.to_pcs] at *
      simp only [Bool.false_eq_true, if_false] at h2
      omega
    · have h3 := hc.keeps c s.data hsig
      cases hw : waits c with
      | false =>
        simp only [Pc.sleeper, Pc.looks, hw, State.to_pcs] at *
        simp only [Bool.false_eq_true, if_false] at h2
        omega
      | true =>
        have h4 := hc.takes c s.data hw (hsound.act t c hp)
        simp only [Pc.sleeper, Pc.looks, hw, if_true, State.to_pcs] at *
        omega
  | unheard t c r hp ha =>
    have h1 := total_set Pc.sleeper (.leave c r) hp
    have h0 : total Pc.sleeper s.pcs = 0 := by
      rw [total_eq_zero]
      intro p hpm
      have := List.any_eq_false.1 ha p hpm
      cases p <;> simp_all [Pc.sleeper, Pc.isAsleep]
    simp only [Pc.sleeper, State.to_pcs] at *
    omega
  | signal t u c r c' hp hu =>
    have hne : u ≠ t := by
      rintro rfl
      rw [hp] at hu
      cases hu
    have hw : waits c' = true := by
      obtain ⟨d, hd⟩ := hsound.asleep u c' hu
      exact (hc.starved c' d hd).1
    have hu' : (s.pcs.set t (.leave c r))[u]? = some (.asleep c') := by
      rw [List.getElem?_set_ne (Ne.symm hne), hu]
    have h1 := total_set Pc.sleeper (.leave c r) hp
    have h2 := total_set (Pc.looks waits) (.leave c r) hp
    have h3 := total_set Pc.sleeper (.awake c') hu'
    have h4 := total_set (Pc.looks waits) (.awake c') hu'
    simp only [Pc.sleeper, Pc.looks, hw, if_true, State.to_pcs, State.to_data] at *
    omega
  | unlock t c r hp =>
    have h1 := total_set Pc.sleeper .idle hp
    have h2 := total_set (Pc.looks waits) .idle hp
    simp only [Pc.sleeper, Pc.looks, State.to_pcs, State.to_data] at *
    omega

theorem Heard.idle (n : Nat) (d : δ) : Heard avail waits (idle n d : State δ κ ρ) := by
  intro h
  have h0 : total Pc.sleeper (Monitor.idle n d : State δ κ ρ).pcs = 0 := by
    rw [total_eq_zero]
    intro p hp
    rw [List.eq_of_mem_replicate hp]
    rfl
  omega

theorem Heard.run (hc : Counts o avail waits) (hsound : Sound o s) (h : Heard avail waits s)
    (hr : Run (Monitor.step o) s T s') : Heard avail waits s' := by
  induction hr with
  | nil => exact h
  | snoc hr hs ih => exact ih.step hc (hsound.run hr) hs

/-- No thread can go on by itself. -/
def Quiet (o : Object δ κ ρ) (s : State δ κ ρ) : Prop :=
  ∀ t s' es, step o s (t, .go) ≠ .ok (s', es) ∧ ∀ u, step o s (t, .signal u) ≠ .ok (s', es)

/-- **No wakeup is lost.** When no thread can go on, every thread is outside or sleeps, and if one
sleeps, there is nothing to wake it for. -/
theorem Quiet.rests (hq : Quiet o s) (hsound : Sound o s) (h : Heard avail waits s) :
    s.owner = none ∧ ∀ p ∈ s.pcs, p = .idle ∨ ∃ c, p = .asleep c ∧ avail s.data = 0 := by
  -- who is inside can go on
  have hin : ∀ p ∈ s.pcs, p.inside = false := by
    intro p hp
    obtain ⟨t, ht⟩ := List.mem_iff_getElem?.1 hp
    cases p with
    | test c =>
      cases hr : o.ready c s.data with
      | true => exact ((hq t _ _).1 (by simp only [step, ht, hr, if_true]; rfl)).elim
      | false =>
        exact ((hq t _ _).1 (by
          simp only [step, ht, hr, Bool.false_eq_true, if_false]; rfl)).elim
    | act c => exact ((hq t _ _).1 (by simp only [step, ht]; rfl)).elim
    | leave c r => exact ((hq t _ _).1 (by simp only [step, ht]; rfl)).elim
    | signal c r =>
      cases ha : s.pcs.any Pc.isAsleep with
      | false =>
        exact ((hq t _ _).2 none (by
          simp only [step, ht, ha, Bool.false_eq_true, if_false]; rfl)).elim
      | true =>
        obtain ⟨q, hqm, hqa⟩ := List.any_eq_true.1 ha
        obtain ⟨u, hu⟩ := List.mem_iff_getElem?.1 hqm
        cases q with
        | asleep c' => exact ((hq t _ _).2 (some u) (by simp only [step, ht, hu]; rfl)).elim
        | _ => simp [Pc.isAsleep] at hqa
    | _ => rfl
  have hown : s.owner = none := by
    cases ho : s.owner with
    | none => rfl
    | some t =>
      obtain ⟨p, hp⟩ := hsound.owner t ho
      have := (hsound.inside t p hp).2 ho
      simp [hin p (List.mem_of_getElem? hp)] at this
  -- so the mutex is free for those before it
  have hrest : ∀ p ∈ s.pcs, p = .idle ∨ ∃ c, p = .asleep c := by
    intro p hp
    obtain ⟨t, ht⟩ := List.mem_iff_getElem?.1 hp
    have hpi := hin p hp
    cases p with
    | idle => exact .inl rfl
    | asleep c => exact .inr ⟨c, rfl⟩
    | enter c => exact ((hq t _ _).1 (by simp only [step, ht, hown]; rfl)).elim
    | awake c => exact ((hq t _ _).1 (by simp only [step, ht, hown]; rfl)).elim
    | _ => simp [Pc.inside] at hpi
  refine ⟨hown, fun p hp => (hrest p hp).imp_right fun ⟨c, he⟩ => ⟨c, he, ?_⟩⟩
  have hlook : total (Pc.looks waits) s.pcs = 0 := by
    rw [total_eq_zero]
    intro q hqm
    rcases hrest q hqm with rfl | ⟨c, rfl⟩ <;> rfl
  have hsleep : 0 < total Pc.sleeper s.pcs := by
    refine Nat.pos_of_ne_zero fun h0 => ?_
    have := total_eq_zero.1 h0 p hp
    simp [he, Pc.sleeper] at this
  have := h hsleep
  omega

/-! ## How long it takes -/

/-- The steps that a thread takes at most before it is outside or sleeps. -/
def Pc.fuel (o : Object δ κ ρ) : Pc κ ρ → Nat
  | .idle | .asleep _ => 0
  | .leave _ _ => 1
  | .signal _ _ => 6
  | .act c => if o.signals c then 7 else 2
  | .test c => if o.signals c then 8 else 3
  | .enter c | .awake c => if o.signals c then 9 else 4

def State.fuel (o : Object δ κ ρ) (s : State δ κ ρ) : Nat := total (Pc.fuel o) s.pcs

/-- The moves of threads that go on by themselves. -/
def Move.own : Move κ → Bool
  | .go | .signal _ => true
  | .call _ | .wake => false

theorem fuel_step (hc : Counts o avail waits) (hsound : Sound o s)
    (hs : step o s x = .ok (s', es)) (hx : x.2.own = true) : s'.fuel o < s.fuel o := by
  unfold State.fuel
  cases step_goes hs with
  | call | wake => cases hx
  | lock t c p hp hq ho =>
    have h1 := total_set (Pc.fuel o) (.test c) hp
    rcases hq with rfl | rfl <;> cases hsig : o.signals c <;>
      simp only [Pc.fuel, hsig, State.to_pcs, if_true, Bool.false_eq_true, if_false] at * <;> omega
  | pass t c hp hr =>
    have h1 := total_set (Pc.fuel o) (.act c) hp
    cases hsig : o.signals c <;>
      simp only [Pc.fuel, hsig, State.to_pcs, if_true, Bool.false_eq_true, if_false] at * <;> omega
  | wait t c hp hr =>
    have h1 := total_set (Pc.fuel o) (.asleep c) hp
    cases hsig : o.signals c <;>
      simp only [Pc.fuel, hsig, State.to_pcs, if_true, Bool.false_eq_true, if_false] at * <;> omega
  | run t c p hp hq =>
    have h1 := total_set (Pc.fuel o) p hp
    rcases hq with ⟨hsig, rfl⟩ | ⟨hsig, rfl⟩ <;>
      simp only [Pc.fuel, hsig, State.to_pcs, if_true, Bool.false_eq_true, if_false] at * <;> omega
  | unheard t c r hp ha =>
    have h1 := total_set (Pc.fuel o) (.leave c r) hp
    simp only [Pc.fuel, State.to_pcs] at *
    omega
  | signal t u c r c' hp hu =>
    have hne : u ≠ t := by
      rintro rfl
      rw [hp] at hu
      cases hu
    -- the woken thread will not signal
    have hsig : o.signals c' = false := by
      obtain ⟨d, hd⟩ := hsound.asleep u c' hu
      exact hc.silent c' (hc.starved c' d hd).1
    have hu' : (s.pcs.set t (.leave c r))[u]? = some (.asleep c') := by
      rw [List.getElem?_set_ne (Ne.symm hne), hu]
    have h1 := total_set (Pc.fuel o) (.leave c r) hp
    have h2 := total_set (Pc.fuel o) (.awake c') hu'
    simp only [Pc.fuel, hsig, State.to_pcs, Bool.false_eq_true, if_false] at *
    omega
  | unlock t c r hp =>
    have h1 := total_set (Pc.fuel o) .idle hp
    simp only [Pc.fuel, State.to_pcs] at *
    omega

theorem fuel_call {t : Nat} {c : κ} (hs : step o s (t, .call c) = .ok (s', es)) :
    s'.fuel o = s.fuel o + if o.signals c then 9 else 4 := by
  cases step_goes hs with
  | call t c hp =>
    have h1 := total_set (Pc.fuel o) (.enter c) hp
    simp only [State.fuel, State.to_pcs, Pc.fuel] at *
    omega

theorem fuel_wake (hc : Counts o avail waits) (hsound : Sound o s) {t : Nat}
    (hs : step o s (t, .wake) = .ok (s', es)) : s'.fuel o = s.fuel o + 4 := by
  cases step_goes hs with
  | wake t c hp =>
    have hsig : o.signals c = false := by
      obtain ⟨d, hd⟩ := hsound.asleep t c hp
      exact hc.silent c (hc.starved c d hd).1
    have h1 := total_set (Pc.fuel o) (.awake c) hp
    simp only [State.fuel, State.to_pcs, Pc.fuel, hsig, Bool.false_eq_true, if_false] at *
    omega

theorem fuel_run (hc : Counts o avail waits) (hsound : Sound o s)
    (hr : Run (step o) s T s') (hT : ∀ x ∈ inputs T, x.2.own = true) :
    T.length + s'.fuel o ≤ s.fuel o := by
  induction hr with
  | nil => simp
  | @snoc T s₁ s₂ x es hr hs ih =>
    simp only [inputs_append, inputs_cons, inputs_nil, List.mem_append, List.mem_singleton] at hT
    have h1 := ih fun y hy => hT y (.inl hy)
    have h2 := fuel_step hc (hsound.run hr) hs (hT x (.inr rfl))
    rw [List.length_append, List.length_singleton]
    omega

theorem fuel_le (s : State δ κ ρ) : s.fuel o ≤ 9 * s.pcs.length := by
  have : ∀ l : List (Pc κ ρ), total (Pc.fuel o) l ≤ 9 * l.length := by
    intro l
    induction l with
    | nil => simp [total]
    | cons p l ih =>
      have hp : p.fuel o ≤ 9 := by
        unfold Pc.fuel
        grind
      simp only [total, List.length_cons]
      omega
  exact this s.pcs

theorem exists_quiet (hc : Counts o avail waits) (hsound : Sound o s) :
    ∃ T s', Run (step o) s T s' ∧ (∀ x ∈ inputs T, x.2.own = true) ∧ Quiet o s' := by
  induction hn : s.fuel o using Nat.strongRecOn generalizing s with
  | ind n ih =>
    by_cases hq : Quiet o s
    · exact ⟨[], s, .nil, by simp, hq⟩
    · obtain ⟨x, s₁, es, hs, hx⟩ : ∃ x s₁ es, step o s x = .ok (s₁, es) ∧ x.2.own = true := by
        by_contra hno
        refine hq fun t s₁ es => ⟨fun hs => hno ⟨_, _, _, hs, rfl⟩, fun u hs => ?_⟩
        exact hno ⟨_, _, _, hs, rfl⟩
      have hlt := fuel_step hc hsound hs hx
      obtain ⟨T, s', hr, hT, hq'⟩ := ih _ (hn ▸ hlt) (hsound.step hs) rfl
      refine ⟨_, s', .cons hs hr, fun y hy => ?_, hq'⟩
      rcases List.mem_cons.1 hy with rfl | hy
      · exact hx
      · exact hT y hy

end

end Monitor
