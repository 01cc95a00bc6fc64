import Mathlib.Data.List.Induction
import Mathlib.Tactic.TypeStar

/-!
# Runs of a partial transducer

A transducer reads an input in a state and either fails or moves to a state with some outputs
(`step : σ → ι → Except ε (σ × List ω)`). `Run step s T s'` is a run from `s` to `s'` that does
not fail; `T` is its record, one `Transition` for each step. The record is grown at its end, so
induction on a run adds a step to a history (`Run.inv`, `Run.history`); `Run.split` and
`Run.mem` go back to any moment of the run. `exec` computes the record of a list of inputs
(`Run.of_exec`, `Run.exec_eq`), and `Reads` is a run of which only the inputs and the outputs are
kept.
-/

namespace Transducer

variable {σ ι ω ε : Type*}

/-- One step of a run: the state before, the input, the state after and the outputs. -/
structure Transition (σ ι ω : Type*) where
  src : σ
  inp : ι
  dst : σ
  out : List ω
  deriving DecidableEq, Repr

/-- The same step with other outputs. -/
def Transition.mapOut {ω' : Type*} (f : List ω → List ω') (t : Transition σ ι ω) :
    Transition σ ι ω' :=
  { src := t.src, inp := t.inp, dst := t.dst, out := f t.out }

/-- The inputs read in a record. -/
def inputs (T : List (Transition σ ι ω)) : List ι := T.map (·.inp)

/-- The outputs of a record. -/
def outputs (T : List (Transition σ ι ω)) : List ω := T.flatMap (·.out)

@[simp] theorem inputs_nil : inputs ([] : List (Transition σ ι ω)) = [] := rfl
@[simp] theorem inputs_cons (t : Transition σ ι ω) (T) : inputs (t :: T) = t.inp :: inputs T := rfl
@[simp] theorem inputs_append (T₁ T₂ : List (Transition σ ι ω)) :
    inputs (T₁ ++ T₂) = inputs T₁ ++ inputs T₂ := List.map_append
@[simp] theorem outputs_nil : outputs ([] : List (Transition σ ι ω)) = [] := rfl
@[simp] theorem outputs_cons (t : Transition σ ι ω) (T) :
    outputs (t :: T) = t.out ++ outputs T := rfl
@[simp] theorem outputs_append (T₁ T₂ : List (Transition σ ι ω)) :
    outputs (T₁ ++ T₂) = outputs T₁ ++ outputs T₂ := List.flatMap_append

theorem mem_outputs {T : List (Transition σ ι ω)} {o : ω} : o ∈ outputs T ↔ ∃ t ∈ T, o ∈ t.out :=
  List.mem_flatMap

/-- A run from `s` and its record (module doc). -/
inductive Run (step : σ → ι → Except ε (σ × List ω)) (s : σ) : List (Transition σ ι ω) → σ → Prop
  | nil : Run step s [] s
  | snoc {T : List (Transition σ ι ω)} {s' s'' : σ} {i : ι} {o : List ω} :
      Run step s T s' → step s' i = .ok (s'', o) → Run step s (T ++ [⟨s', i, s'', o⟩]) s''

/-- `s'` is reached from `s` by some run. -/
def Reach (step : σ → ι → Except ε (σ × List ω)) (s s' : σ) : Prop := ∃ T, Run step s T s'

/-- The record of the run over a list of inputs. -/
def exec (step : σ → ι → Except ε (σ × List ω)) : σ → List ι → Except ε (List (Transition σ ι ω))
  | _, [] => .ok []
  | s, i :: is =>
    match step s i with
    | .error e => .error e
    | .ok (s', o) =>
      match exec step s' is with
      | .error e => .error e
      | .ok T => .ok (⟨s, i, s', o⟩ :: T)

/-- The state a record ends in. -/
def final (s : σ) (T : List (Transition σ ι ω)) : σ := (T.getLast?.map (·.dst)).getD s

@[simp] theorem final_nil (s : σ) : final s ([] : List (Transition σ ι ω)) = s := rfl

theorem final_cons (s : σ) (t : Transition σ ι ω) (T : List (Transition σ ι ω)) :
    final s (t :: T) = final t.dst T := by
  unfold final
  cases hT : T.getLast? <;> simp [List.getLast?_cons, hT]

variable {step : σ → ι → Except ε (σ × List ω)}

namespace Run

variable {s s' s'' : σ} {T T₁ T₂ : List (Transition σ ι ω)}

/-! ## Taking runs apart -/

theorem nil_eq (h : Run step s [] s') : s' = s := by
  generalize hT : ([] : List (Transition σ ι ω)) = T at h
  cases h with
  | nil => rfl
  | snoc => simp at hT

theorem snoc_inv {t : Transition σ ι ω} (h : Run step s (T ++ [t]) s') :
    Run step s T t.src ∧ step t.src t.inp = .ok (t.dst, t.out) ∧ t.dst = s' := by
  generalize hT : T ++ [t] = T' at h
  cases h with
  | nil => simp at hT
  | snoc h hs =>
    obtain ⟨rfl, rfl⟩ := List.append_singleton_inj.1 hT
    exact ⟨h, hs, rfl⟩

theorem unique (h : Run step s T s') (h' : Run step s T s'') : s' = s'' := by
  rcases List.eq_nil_or_concat T with rfl | ⟨T, t, rfl⟩
  · rw [h.nil_eq, h'.nil_eq]
  · rw [List.concat_eq_append] at h h'
    obtain ⟨-, -, rfl⟩ := h.snoc_inv
    obtain ⟨-, -, rfl⟩ := h'.snoc_inv
    rfl

theorem single {i : ι} {o : List ω} (h : step s i = .ok (s', o)) :
    Run step s [⟨s, i, s', o⟩] s' := .snoc .nil h

theorem append (h₁ : Run step s T₁ s') (h₂ : Run step s' T₂ s'') :
    Run step s (T₁ ++ T₂) s'' := by
  induction h₂ with
  | nil => simpa using h₁
  | snoc _ hs ih => rw [← List.append_assoc]; exact .snoc ih hs

theorem cons {i : ι} {o : List ω} (hs : step s i = .ok (s', o)) (h : Run step s' T s'') :
    Run step s (⟨s, i, s', o⟩ :: T) s'' := (single hs).append h

/-- A run is cut at any point of its record. -/
theorem split (h : Run step s (T₁ ++ T₂) s'') : ∃ s', Run step s T₁ s' ∧ Run step s' T₂ s'' := by
  induction T₂ using List.reverseRecOn generalizing s'' with
  | nil => exact ⟨s'', by simpa using h, .nil⟩
  | append_singleton T₂ t ih =>
    rw [← List.append_assoc] at h
    obtain ⟨h1, hs, rfl⟩ := h.snoc_inv
    obtain ⟨m, hm1, hm2⟩ := ih h1
    exact ⟨m, hm1, .snoc hm2 hs⟩

theorem cons_inv {t : Transition σ ι ω} (h : Run step s (t :: T) s') :
    t.src = s ∧ step s t.inp = .ok (t.dst, t.out) ∧ Run step t.dst T s' := by
  have h' : Run step s ([t] ++ T) s' := h
  obtain ⟨m, h1, h2⟩ := h'.split
  have h1' : Run step s ([] ++ [t]) m := h1
  obtain ⟨h0, hs, rfl⟩ := h1'.snoc_inv
  obtain rfl := h0.nil_eq.symm
  exact ⟨rfl, hs, h2⟩

/-- The moment of one step of the run. -/
theorem split_cons {t : Transition σ ι ω} (h : Run step s (T₁ ++ t :: T₂) s') :
    Run step s T₁ t.src ∧ step t.src t.inp = .ok (t.dst, t.out) ∧ Run step t.dst T₂ s' := by
  obtain ⟨m, h1, h2⟩ := h.split
  obtain ⟨rfl, hs, h3⟩ := h2.cons_inv
  exact ⟨h1, hs, h3⟩

theorem mem {t : Transition σ ι ω} (h : Run step s T s') (ht : t ∈ T) :
    ∃ T₁ T₂, T = T₁ ++ t :: T₂ ∧ Run step s T₁ t.src ∧
      step t.src t.inp = .ok (t.dst, t.out) ∧ Run step t.dst T₂ s' := by
  obtain ⟨T₁, T₂, rfl⟩ := List.append_of_mem ht
  exact ⟨T₁, T₂, rfl, h.split_cons⟩

theorem step_mem {t : Transition σ ι ω} (h : Run step s T s') (ht : t ∈ T) :
    step t.src t.inp = .ok (t.dst, t.out) := by
  obtain ⟨_, _, -, -, hs, -⟩ := h.mem ht
  exact hs

/-! ## Invariants -/

/-- **Invariants.** What every step keeps, a run keeps. -/
theorem inv (P : σ → Prop) (hstep : ∀ s i s' o, P s → step s i = .ok (s', o) → P s')
    (h : Run step s T s') (h0 : P s) : P s' := by
  induction h with
  | nil => exact h0
  | snoc _ hs ih => exact hstep _ _ _ _ ih hs

/-- **History invariants.** A property of the record so far and the state that holds at the
start and that every step keeps. -/
theorem history (P : List (Transition σ ι ω) → σ → Prop)
    (hstep : ∀ T s' i s'' o, Run step s T s' → P T s' → step s' i = .ok (s'', o) →
      P (T ++ [⟨s', i, s'', o⟩]) s'')
    (h : Run step s T s') (h0 : P [] s) : P T s' := by
  induction h with
  | nil => exact h0
  | snoc h hs ih => exact hstep _ _ _ _ _ h ih hs

/-- **The first bad step shows.** `I` is kept by the steps that meet `C`, and a step from `I` has
only good outputs exactly when it meets `C`. -/
theorem outputs_iff (I : σ → Prop) (C : Transition σ ι ω → Prop) (E : ω → Prop)
    (hgood : ∀ t, I t.src → step t.src t.inp = .ok (t.dst, t.out) → C t →
      I t.dst ∧ ∀ o ∈ t.out, E o)
    (hbad : ∀ t, I t.src → step t.src t.inp = .ok (t.dst, t.out) → ¬ C t → ∃ o ∈ t.out, ¬ E o)
    (h : Run step s T s') (h0 : I s) : (∀ o ∈ outputs T, E o) ↔ ∀ t ∈ T, C t := by
  suffices hs : ((∀ o ∈ outputs T, E o) ↔ ∀ t ∈ T, C t) ∧ ((∀ t ∈ T, C t) → I s') from hs.1
  induction h with
  | nil => exact ⟨by simp, fun _ => h0⟩
  | @snoc T s₁ s₂ i o hT hs ih =>
    obtain ⟨ihE, ihI⟩ := ih
    have hout : outputs (T ++ [⟨s₁, i, s₂, o⟩]) = outputs T ++ o := by simp
    simp only [hout, List.forall_mem_append, List.forall_mem_singleton, ihE]
    refine ⟨and_congr_right fun hC => ?_, fun hC => (hgood _ (ihI hC.1) hs hC.2).1⟩
    by_cases hc : C ⟨s₁, i, s₂, o⟩
    · exact iff_of_true (hgood _ (ihI hC) hs hc).2 hc
    · obtain ⟨w, hw, hne⟩ := hbad _ (ihI hC) hs hc
      exact iff_of_false (fun h => hne (h w hw)) hc

/-- **Simulation.** If every step that meets `C` keeps `I` and, through `f`, is a step of another
transducer with the same outputs, or without outputs and no change at all, then the runs whose steps
all meet `C` are runs of the other. -/
theorem simulates {σ' ι' ε' : Type*} {step' : σ' → ι' → Except ε' (σ' × List ω)} (f : σ → σ')
    (I : σ → Prop) (C : Transition σ ι ω → Prop)
    (hsim : ∀ t : Transition σ ι ω, I t.src → step t.src t.inp = .ok (t.dst, t.out) → C t →
      I t.dst ∧ (t.out = [] ∧ f t.dst = f t.src ∨ ∃ i, step' (f t.src) i = .ok (f t.dst, t.out)))
    (h : Run step s T s') (h0 : I s) (hC : ∀ t ∈ T, C t) :
    I s' ∧ ∃ T', Run step' (f s) T' (f s') ∧ outputs T' = outputs T := by
  induction h with
  | nil => exact ⟨h0, [], .nil, rfl⟩
  | @snoc T s₁ s₂ i o _ hs ih =>
    simp only [List.mem_append, List.mem_singleton] at hC
    obtain ⟨h1, T', hT', ho⟩ := ih fun t ht => hC t (.inl ht)
    obtain ⟨h2, ⟨rfl, he⟩ | ⟨i', hs'⟩⟩ := hsim ⟨s₁, i, s₂, o⟩ h1 hs (hC _ (.inr rfl))
    · refine ⟨h2, T', ?_, by simp [ho]⟩
      rw [show f s₂ = f s₁ from he]
      exact hT'
    · exact ⟨h2, _, .snoc hT' hs', by simp [ho]⟩

/-- **Simulation by runs.** If every step keeps `I` and is, through `f`, a run of another transducer
with the same outputs and the same marked inputs, then so is every run. -/
theorem follows {σ' ι' ε' α : Type*} {step' : σ' → ι' → Except ε' (σ' × List ω)} (f : σ → σ')
    (I : σ → Prop) (mark : ι → Option α) (mark' : ι' → Option α)
    (hsim : ∀ s i s' o, I s → step s i = .ok (s', o) → I s' ∧ ∃ T', Run step' (f s) T' (f s') ∧
      outputs T' = o ∧ (inputs T').filterMap mark' = [i].filterMap mark)
    (h : Run step s T s') (h0 : I s) :
    I s' ∧ ∃ T', Run step' (f s) T' (f s') ∧ outputs T' = outputs T ∧
      (inputs T').filterMap mark' = (inputs T).filterMap mark := by
  induction h with
  | nil => exact ⟨h0, [], .nil, rfl, rfl⟩
  | @snoc T s₁ s₂ i o _ hs ih =>
    obtain ⟨h1, T', hT', ho, hi⟩ := ih
    obtain ⟨h2, U, hU, hoU, hiU⟩ := hsim _ _ _ _ h1 hs
    refine ⟨h2, T' ++ U, hT'.append hU, by simp [ho, hoU], ?_⟩
    simp only [inputs_append, List.filterMap_append, hi, hiU, inputs_cons, inputs_nil]

/-- A run only depends on the steps that succeed. -/
theorem of_ok {ε' : Type*} {step' : σ → ι → Except ε' (σ × List ω)}
    (hstep : ∀ s i r, step s i = .ok r → step' s i = .ok r) (h : Run step s T s') :
    Run step' s T s' := by
  induction h with
  | nil => exact .nil
  | snoc _ hs ih => exact .snoc ih (hstep _ _ _ hs)

theorem map_out {ε' ω' : Type*} {step' : σ → ι → Except ε' (σ × List ω')} (f : List ω → List ω')
    (hstep : ∀ s i s' o, step s i = .ok (s', o) → step' s i = .ok (s', f o))
    (h : Run step s T s') : Run step' s (T.map (·.mapOut f)) s' := by
  induction h with
  | nil => exact .nil
  | snoc _ hs ih =>
    rw [List.map_append]
    exact .snoc ih (hstep _ _ _ _ hs)

/-! ## Computed runs -/

theorem exec_eq (h : Run step s T s') : exec step s (inputs T) = .ok T := by
  induction T generalizing s with
  | nil => rfl
  | cons t T ih =>
    obtain ⟨rfl, hs, h'⟩ := h.cons_inv
    simp only [inputs_cons, exec, hs, ih h']

theorem of_exec {is : List ι} (h : exec step s is = .ok T) :
    Run step s T (final s T) ∧ inputs T = is := by
  induction is generalizing s T with
  | nil => cases h; exact ⟨.nil, rfl⟩
  | cons i is ih =>
    simp only [exec] at h
    split at h
    · cases h
    · rename_i s1 o hs
      split at h
      · cases h
      · rename_i T1 hT
        cases h
        obtain ⟨hr, rfl⟩ := ih hT
        rw [final_cons]
        exact ⟨cons hs hr, rfl⟩

/-- **The inputs determine the run**: of two runs from one state, the one that reads less is the
beginning of the other. -/
theorem prefix_of_inputs {s₁ s₂ : σ} (h₁ : Run step s T₁ s₁) (h₂ : Run step s T₂ s₂)
    (hi : inputs T₁ <+: inputs T₂) : T₁ <+: T₂ := by
  induction T₁ generalizing s T₂ with
  | nil => exact List.nil_prefix
  | cons t T₁ ih =>
    cases T₂ with
    | nil => simp at hi
    | cons u T₂ =>
      obtain ⟨hinp, hrest⟩ := List.cons_prefix_cons.1 hi
      obtain ⟨hsrc, hs, htail⟩ := h₁.cons_inv
      obtain ⟨hsrc', hs', htail'⟩ := h₂.cons_inv
      obtain ⟨a, i, b, o⟩ := t
      obtain ⟨a', i', b', o'⟩ := u
      dsimp only at hsrc hsrc' hinp hs hs'
      subst hsrc hsrc' hinp
      cases hs.symm.trans hs'
      exact List.cons_prefix_cons.2 ⟨rfl, ih htail htail' hrest⟩

end Run

/-! ## Given inputs and outputs -/

/-- Reading `l` from `s` ends in `s'` with the outputs `o`. -/
def Reads (step : σ → ι → Except ε (σ × List ω)) (s : σ) (l : List ι) (o : List ω) (s' : σ) :
    Prop :=
  ∃ T, Run step s T s' ∧ inputs T = l ∧ outputs T = o

namespace Reads

variable {s s' s'' : σ} {l l' : List ι} {o o' : List ω}

theorem nil (s : σ) : Reads step s [] [] s := ⟨[], .nil, rfl, rfl⟩

theorem single {i : ι} (h : step s i = .ok (s', o)) : Reads step s [i] o s' :=
  ⟨_, .single h, rfl, by simp⟩

theorem append (h : Reads step s l o s') (h' : Reads step s' l' o' s'') :
    Reads step s (l ++ l') (o ++ o') s'' := by
  obtain ⟨T, hT, rfl, rfl⟩ := h
  obtain ⟨T', hT', rfl, rfl⟩ := h'
  exact ⟨_, hT.append hT', inputs_append .., outputs_append ..⟩

theorem nil_inv (h : Reads step s [] o s') : s' = s := by
  obtain ⟨T, hT, hi, -⟩ := h
  obtain rfl := List.map_eq_nil_iff.1 hi
  exact hT.nil_eq

theorem cons_inv {i : ι} (h : Reads step s (i :: l) o s') :
    ∃ s₁ o₁ o₂, step s i = .ok (s₁, o₁) ∧ Reads step s₁ l o₂ s' ∧ o = o₁ ++ o₂ := by
  obtain ⟨T, hT, hi, rfl⟩ := h
  obtain ⟨t, T, rfl, rfl, rfl⟩ := List.map_eq_cons_iff.1 hi
  obtain ⟨rfl, hs, hT'⟩ := hT.cons_inv
  exact ⟨t.dst, t.out, outputs T, hs, ⟨T, hT', rfl, rfl⟩, rfl⟩

theorem exec_outputs (h : Reads step s l o s') : (exec step s l).map outputs = .ok o := by
  obtain ⟨T, hT, rfl, rfl⟩ := h
  rw [hT.exec_eq]
  rfl

/-- An input that the state after it ignores can be read any number of times. -/
theorem replicate {i : ι} (h : step s i = .ok (s', o)) (h' : step s' i = .ok (s', [])) (n : Nat) :
    Reads step s (List.replicate (n + 1) i) o s' := by
  induction n with
  | zero => exact single h
  | succ n ih =>
    have := ih.append (single h')
    rwa [← List.replicate_succ', List.append_nil] at this

end Reads

/-! ## Reachable states -/

theorem Reach.refl (s : σ) : Reach step s s := ⟨[], .nil⟩

/-! ## Every moment of a record -/

/-- `P` holds of every element of the list and what precedes it. -/
def Always {α : Type*} (P : List α → α → Prop) (l : List α) : Prop :=
  ∀ l₁ a l₂, l = l₁ ++ a :: l₂ → P l₁ a

section
variable {α : Type*} {P : List α → α → Prop} {l : List α} {x : α}

theorem always_nil : Always P [] := fun l₁ a l₂ h => by simp at h

theorem always_snoc : Always P (l ++ [x]) ↔ Always P l ∧ P l x := by
  refine ⟨fun h => ⟨fun l₁ a l₂ he => ?_, h l x [] rfl⟩, fun ⟨h, hx⟩ l₁ a l₂ he => ?_⟩
  · exact h l₁ a (l₂ ++ [x]) (by simp [he])
  · rcases List.eq_nil_or_concat l₂ with rfl | ⟨l₂, y, rfl⟩
    · obtain ⟨rfl, rfl⟩ := List.append_singleton_inj.1 he
      exact hx
    · rw [List.concat_eq_append, ← List.cons_append, ← List.append_assoc] at he
      exact h l₁ a l₂ (List.append_singleton_inj.1 he).1

theorem Always.of_take (h : ∀ i : Fin l.length, P (l.take i) l[i]) : Always P l := by
  rintro l₁ a l₂ rfl
  have := h ⟨l₁.length, by simp⟩
  simpa using this

end

end Transducer
