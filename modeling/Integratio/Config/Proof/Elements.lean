import Integratio.Config.Proof.Entries

/-!
# One `Conf` for each element

`jsonConf` allocates the `ContentConf` of each element of a `content` entry, and one `TimeConf` for
a whole `time` entry: an entry without elements leaves a `TimeConf` that nobody configured, and of
several elements the last one stays.

* `one_each_iff`: `jsonConf` returns one `Conf` for each element, after every entry, exactly when
  every `time` entry has one element.
-/

namespace Integratio

variable {jc : Json} {e : ConfEntry} {es : List ConfEntry}

/-- One `Conf` for each element. -/
def ConfEntry.confs : ConfEntry → List Conf
  | .time ts => ts.map .time
  | .content cs => cs.map .content
  | .other => []

/-- The delay fits an `int`. -/
def TimeConf.Fits (t : TimeConf) : Prop := -2 ^ 31 ≤ t.delay ∧ t.delay < 2 ^ 31

theorem TimeConf.read_eq_iff {t : TimeConf} : t.read = t ↔ t.Fits := by
  constructor
  · intro h
    have hd : int32 t.delay = t.delay := congrArg TimeConf.delay h
    have hlo := Int.le_bmod (x := t.delay) (m := 2 ^ 32) (by decide)
    have hhi := Int.bmod_lt (x := t.delay) (m := 2 ^ 32) (by decide)
    unfold int32 at hd
    rw [hd] at hlo hhi
    exact ⟨hlo, hhi⟩
  · rintro ⟨hlo, hhi⟩
    have hd : int32 t.delay = t.delay := Int.bmod_eq_of_le (by omega) (by omega)
    rw [read, hd]

theorem pushed_eq_confs_iff (he : e ≠ .other) :
    e.pushed = e.confs ↔ ∀ ts, e = .time ts → ∃ t, ts = [t] ∧ t.Fits := by
  cases e with
  | content cs => simp [ConfEntry.pushed, ConfEntry.confs]
  | other => exact absurd rfl he
  | time ts =>
    simp only [ConfEntry.pushed, ConfEntry.confs, ConfEntry.time.injEq, forall_eq']
    constructor
    · intro h
      obtain ⟨t, rfl⟩ : ∃ t, ts = [t] := by
        rw [← List.length_eq_one_iff]
        simpa using (congrArg List.length h).symm
      refine ⟨t, rfl, TimeConf.read_eq_iff.1 ?_⟩
      simpa [TimeConf.readAll] using h
    · rintro ⟨t, rfl, ht⟩
      simp [TimeConf.readAll, TimeConf.read_eq_iff.2 ht]

/-- **Every element takes effect**, entry by entry, exactly when every `time` entry has one element,
with a delay that an `int` holds. -/
theorem one_each_iff (h : Describes jc es) (hes : ∀ e ∈ es, e ≠ .other) :
    (∀ A B, es = A ++ B → ∀ jc', Describes jc' A → jsonConf jc' = .ok (A.flatMap ConfEntry.confs)) ↔
      ∀ ts, .time ts ∈ es → ∃ t, ts = [t] ∧ t.Fits := by
  have hpush : ∀ A B, es = A ++ B → ∀ jc', Describes jc' A →
      (jsonConf jc' = .ok (A.flatMap ConfEntry.confs) ↔
        A.flatMap ConfEntry.pushed = A.flatMap ConfEntry.confs) := by
    intro A B he jc' hjc'
    subst he
    have hA : .other ∉ A := fun hm => hes _ (List.mem_append_left B hm) rfl
    rw [jsonConf_describes hjc', contribution_of_not_mem hA, Except.ok.injEq]
  constructor
  · intro hall ts hts
    obtain ⟨A, B, rfl⟩ := List.append_of_mem hts
    have hbegin : ∀ A' B', A ++ .time ts :: B = A' ++ B' →
        A'.flatMap ConfEntry.pushed = A'.flatMap ConfEntry.confs := by
      intro A' B' he
      obtain ⟨jc', hjc'⟩ := (he ▸ h).take
      exact (hpush A' B' he jc' hjc').1 (hall A' B' he jc' hjc')
    -- what the entry adds to those before it
    have hA := hbegin A _ rfl
    have hAt := hbegin (A ++ [.time ts]) B (by simp)
    rw [List.flatMap_append, List.flatMap_append, hA, List.append_cancel_left_eq,
      List.flatMap_singleton, List.flatMap_singleton] at hAt
    exact (pushed_eq_confs_iff (by simp)).1 hAt ts rfl
  · intro hone A B he jc' hjc'
    rw [hpush A B he jc' hjc']
    subst he
    refine List.flatMap_congr fun e he => ?_
    have he := List.mem_append_left B he
    exact (pushed_eq_confs_iff (hes e he)).2 fun ts hts => hone ts (hts ▸ he)

theorem one_each_iff_sample :
    jsonConf (document [sampleTimeEntry [synAckDelay]]) = .ok [.time synAckDelay] := by
  have hdoc := describes_document (.cons (says_sampleTimeEntry [synAckDelay]) .nil)
  have hone : ∀ ts, .time ts ∈ [ConfEntry.time [synAckDelay]] → ∃ t, ts = [t] ∧ t.Fits := by
    intro ts hts
    obtain rfl : ts = [synAckDelay] := by simpa using hts
    exact ⟨synAckDelay, rfl, by decide, by decide⟩
  exact (one_each_iff hdoc (by decide)).2 hone _ [] rfl _ hdoc

/-- **Of two elements of a `time` entry the first one is lost.** -/
theorem element_lost :
    ¬ ∀ (jc : Json) (es : List ConfEntry), Describes jc es → (∀ e ∈ es, e ≠ .other) →
      jsonConf jc = .ok (es.flatMap ConfEntry.confs) := by
  intro h
  have hdoc := describes_document (.cons (says_sampleTimeEntry [synAckDelay, dataDelay]) .nil)
  have hok := h _ _ hdoc (by decide)
  rw [jsonConf_describes hdoc] at hok
  exact absurd (Except.ok.inj hok) (by decide)

end Integratio
