import Mathlib.Data.List.Basic
import Mathlib.Data.Option.Basic

/-!
# Runs of a label-driven partial step function

A system is given by `step : σ → α → Option σ`.  All its nondeterminism sits in
the label: `step s a = none` means that the label `a` is not enabled at `s`.
Because a run is an arbitrary list of labels, a statement about the last state
of every run is a statement about every reachable state.

The module supplies the rules which the later developments use:

* `exec_invariant` carries a step invariant along a run;
* `exec_invariant_of_obeys` does the same when only the steps that meet a
  guard preserve the invariant, and `obeys_iff_of_invariant` exchanges guards;
* `along_iff_obeys` gives the exact condition for a property of all states;
* `exec_restrict_iff` does it when the guard looks at the labels only;
* `exists_exec_of_progress` builds a run of unbounded length from a
  one-step progress argument, and `exec_range_of_progress` one with given labels.
-/

namespace SfcCapio
namespace Foundation

variable {σ α : Type*}

/-- Execute a list of labels from `s`; `none` as soon as a label is refused. -/
def exec (step : σ → α → Option σ) : σ → List α → Option σ
  | s, [] => some s
  | s, a :: as =>
    match step s a with
    | none => none
    | some s' => exec step s' as

@[simp] theorem exec_nil (step : σ → α → Option σ) (s : σ) :
    exec step s [] = some s := rfl

variable {step : σ → α → Option σ} {s s' t : σ} {a b : α} {as bs : List α} {Inv P : σ → Prop}
  {Guard Guard' : σ → α → Prop}

theorem exec_cons_of_some (hstep : step s a = some s') (as : List α) :
    exec step s (a :: as) = exec step s' as := by
  simp [exec, hstep]

/-- Inversion of a nonempty run: its first label is enabled. -/
theorem exec_cons_eq_some (hrun : exec step s (a :: as) = some t) :
    ∃ s', step s a = some s' ∧ exec step s' as = some t := by
  cases hstep : step s a with
  | none => simp [exec, hstep] at hrun
  | some s' => exact ⟨s', rfl, by simpa [exec, hstep] using hrun⟩

theorem exec_append {s t u : σ} (hfirst : exec step s as = some t)
    (hsecond : exec step t bs = some u) :
    exec step s (as ++ bs) = some u := by
  induction as generalizing s with
  | nil =>
    simp only [exec_nil, Option.some.injEq] at hfirst
    subst hfirst
    exact hsecond
  | cons a as ih =>
    obtain ⟨s', hstep, hrest⟩ := exec_cons_eq_some hfirst
    rw [List.cons_append, exec_cons_of_some hstep]
    exact ih hrest

/-- When no label is ever refused every list of labels is a run. -/
theorem exists_exec_of_total (htotal : ∀ s a, ∃ s', step s a = some s') (s : σ) (as : List α) :
    ∃ t, exec step s as = some t := by
  induction as generalizing s with
  | nil => exact ⟨s, rfl⟩
  | cons a as ih =>
    obtain ⟨s', hstep⟩ := htotal s a
    rw [exec_cons_of_some hstep]
    exact ih s'

/-- The invariant rule: what every enabled step preserves holds at the end of
every run. -/
theorem exec_invariant (hpres : ∀ s a s', Inv s → step s a = some s' → Inv s') {s t : σ}
    {as : List α} (hinit : Inv s) (hrun : exec step s as = some t) :
    Inv t := by
  induction as generalizing s with
  | nil =>
    simp only [exec_nil, Option.some.injEq] at hrun
    exact hrun ▸ hinit
  | cons a as ih =>
    obtain ⟨s', hstep, hrest⟩ := exec_cons_eq_some hrun
    exact ih (hpres s a s' hinit hstep) hrest

/-- Every step taken along the run meets the guard at the state in which it is
taken. -/
def Obeys (step : σ → α → Option σ) (Guard : σ → α → Prop) : σ → List α → Prop
  | _, [] => True
  | s, a :: as =>
    Guard s a ∧
      match step s a with
      | none => True
      | some s' => Obeys step Guard s' as

instance Obeys.decidable {step : σ → α → Option σ} {Guard : σ → α → Prop}
    [∀ s a, Decidable (Guard s a)] : ∀ (s : σ) (as : List α), Decidable (Obeys step Guard s as)
  | _, [] => .isTrue trivial
  | s, a :: as =>
    match h : step s a with
    | none => decidable_of_iff (Guard s a) (by simp [Obeys, h])
    | some s' =>
      have : Decidable (Obeys step Guard s' as) := Obeys.decidable s' as
      decidable_of_iff (Guard s a ∧ Obeys step Guard s' as) (by simp [Obeys, h])

theorem Obeys.head (hobeys : Obeys step Guard s (a :: as)) :
    Guard s a := hobeys.1

theorem Obeys.tail (hobeys : Obeys step Guard s (a :: as))
    (hstep : step s a = some s') : Obeys step Guard s' as := by
  have htail := hobeys.2
  rw [hstep] at htail
  exact htail

theorem Obeys.append (hfirst : Obeys step Guard s as) (hrun : exec step s as = some t)
    (hsecond : Obeys step Guard t bs) : Obeys step Guard s (as ++ bs) := by
  induction as generalizing s with
  | nil =>
    simp only [exec_nil, Option.some.injEq] at hrun
    subst hrun
    exact hsecond
  | cons a as ih =>
    obtain ⟨s', hstep, hrest⟩ := exec_cons_eq_some hrun
    have htail := ih (hfirst.tail hstep) hrest
    rw [List.cons_append]
    refine ⟨hfirst.head, ?_⟩
    rw [hstep]
    exact htail

/-- The second of two consecutive runs obeys what both obey. -/
theorem Obeys.of_append (hobeys : Obeys step Guard s (as ++ bs))
    (hrun : exec step s as = some t) : Obeys step Guard t bs := by
  induction as generalizing s with
  | nil =>
    simp only [exec_nil, Option.some.injEq] at hrun
    exact hrun ▸ hobeys
  | cons a as ih =>
    obtain ⟨s', hstep, hrest⟩ := exec_cons_eq_some hrun
    exact ih (hobeys.tail hstep) hrest

/-- Labels that meet the guard wherever they are taken. -/
theorem obeys_of_labels (hlabels : ∀ a ∈ as, ∀ s, Guard s a) (s : σ) : Obeys step Guard s as := by
  induction as generalizing s with
  | nil => trivial
  | cons a as ih =>
    refine ⟨hlabels a List.mem_cons_self s, ?_⟩
    cases step s a with
    | none => trivial
    | some s' => exact ih (fun b hb => hlabels b (List.mem_cons_of_mem a hb)) s'

theorem Obeys.and (hguard : Obeys step Guard s as) (hguard' : Obeys step Guard' s as) :
    Obeys step (fun s a => Guard s a ∧ Guard' s a) s as := by
  induction as generalizing s with
  | nil => trivial
  | cons a as ih =>
    refine ⟨⟨hguard.head, hguard'.head⟩, ?_⟩
    cases hstep : step s a with
    | none => trivial
    | some s' => exact ih (hguard.tail hstep) (hguard'.tail hstep)

/-- If a step against the guard leaves a trace that no later step removes, a run that
ends without the trace has obeyed the guard. -/
theorem obeys_of_no_trace {Trace : σ → Prop}
    (hkeeps : ∀ s a s', Trace s → step s a = some s' → Trace s')
    (hleaves : ∀ s a s', ¬ Guard s a → step s a = some s' → Trace s')
    (hrun : exec step s as = some t) (hclean : ¬ Trace t) :
    Obeys step Guard s as := by
  induction as generalizing s with
  | nil => trivial
  | cons a as ih =>
    obtain ⟨s', hstep, hrest⟩ := exec_cons_eq_some hrun
    refine ⟨?_, ?_⟩
    · by_contra hbad
      exact hclean (exec_invariant hkeeps (hleaves s a s' hbad hstep) hrest)
    · rw [hstep]
      exact ih hrest

/-- The invariant rule for guarded runs. -/
theorem exec_invariant_of_obeys (hpres : ∀ s a s', Inv s → Guard s a → step s a = some s' → Inv s')
    (hinit : Inv s) (hobeys : Obeys step Guard s as) (hrun : exec step s as = some t) : Inv t := by
  induction as generalizing s with
  | nil =>
    simp only [exec_nil, Option.some.injEq] at hrun
    exact hrun ▸ hinit
  | cons a as ih =>
    obtain ⟨s', hstep, hrest⟩ := exec_cons_eq_some hrun
    exact ih (hpres s a s' hinit hobeys.head hstep) (hobeys.tail hstep) hrest

/-- What a guard implies wherever the invariant holds is obeyed too; the invariant need
only survive steps that meet the guard. -/
theorem Obeys.imp (hpres : ∀ s a s', Inv s → Guard s a → step s a = some s' → Inv s')
    (himp : ∀ s a, Inv s → Guard s a → Guard' s a) (hinit : Inv s)
    (hobeys : Obeys step Guard s as) : Obeys step Guard' s as := by
  induction as generalizing s with
  | nil => trivial
  | cons a as ih =>
    refine ⟨himp s a hinit hobeys.head, ?_⟩
    cases hstep : step s a with
    | none => trivial
    | some s' => exact ih (hpres s a s' hinit hobeys.head hstep) (hobeys.tail hstep)

/-- Two guards that agree wherever the invariant holds are obeyed by the same
runs; the invariant need only survive steps that meet the guard. -/
theorem obeys_iff_of_guarded (hpres : ∀ s a s', Inv s → Guard' s a → step s a = some s' → Inv s')
    (hagree : ∀ s a, Inv s → (Guard s a ↔ Guard' s a)) (hinit : Inv s)
    (as : List α) : Obeys step Guard s as ↔ Obeys step Guard' s as := by
  have hpres' : ∀ s a s', Inv s → Guard s a → step s a = some s' → Inv s' := by
    intro s a s' hinv hguard
    exact hpres s a s' hinv ((hagree s a hinv).mp hguard)
  constructor
  · exact Obeys.imp hpres' (fun s a hinv => (hagree s a hinv).mp) hinit
  · exact Obeys.imp hpres (fun s a hinv => (hagree s a hinv).mpr) hinit

/-- The same for an invariant that every step keeps. -/
theorem obeys_iff_of_invariant (hpres : ∀ s a s', Inv s → step s a = some s' → Inv s')
    (hagree : ∀ s a, Inv s → (Guard s a ↔ Guard' s a)) (hinit : Inv s)
    (as : List α) : Obeys step Guard s as ↔ Obeys step Guard' s as :=
  obeys_iff_of_guarded (fun s a s' hinv _ => hpres s a s' hinv) hagree hinit as

/-- The property holds at every state that the run passes, first and last included. -/
def Along (step : σ → α → Option σ) (P : σ → Prop) : σ → List α → Prop
  | s, [] => P s
  | s, a :: as =>
    P s ∧
      match step s a with
      | none => True
      | some s' => Along step P s' as

/-- A guard that keeps an invariant gives what the invariant implies at every state. -/
theorem along_of_obeys (hpres : ∀ s a s', Inv s → Guard s a → step s a = some s' → Inv s')
    (hgood : ∀ s, Inv s → P s) (hinit : Inv s)
    (hobeys : Obeys step Guard s as) : Along step P s as := by
  induction as generalizing s with
  | nil => exact hgood s hinit
  | cons a as ih =>
    refine ⟨hgood s hinit, ?_⟩
    cases hstep : step s a with
    | none => trivial
    | some s' => exact ih (hpres s a s' hinit hobeys.head hstep) (hobeys.tail hstep)

/-- An invariant of all steps gives what it implies at every state. -/
theorem along_of_invariant (hpres : ∀ s a s', Inv s → step s a = some s' → Inv s')
    (hgood : ∀ s, Inv s → P s) (hinit : Inv s) (as : List α) : Along step P s as := by
  have hobeys : Obeys step (fun _ _ => True) s as := obeys_of_labels (fun _ _ _ => trivial) s
  exact along_of_obeys (fun s a s' hinv _ => hpres s a s' hinv) hgood hinit hobeys

theorem Along.head (halong : Along step P s as) : P s := by
  cases as with
  | nil => exact halong
  | cons a as => exact halong.1

/-- The exact condition for a property of all states: the guard keeps an invariant that
implies it, and a step against the guard breaks the property at once. -/
theorem along_iff_obeys (hpres : ∀ s a s', Inv s → Guard s a → step s a = some s' → Inv s')
    (hgood : ∀ s, Inv s → P s) (hbad : ∀ s a s', Inv s → ¬ Guard s a → step s a = some s' → ¬ P s')
    (hinit : Inv s) (hrun : exec step s as = some t) :
    Along step P s as ↔ Obeys step Guard s as := by
  constructor
  · intro halong
    induction as generalizing s with
    | nil => trivial
    | cons a as ih =>
      obtain ⟨s', hstep, hrest⟩ := exec_cons_eq_some hrun
      have htail := halong.2
      rw [hstep] at htail
      have hguard : Guard s a := by
        by_contra hviolated
        exact hbad s a s' hinit hviolated hstep htail.head
      refine ⟨hguard, ?_⟩
      rw [hstep]
      exact ih (hpres s a s' hinit hguard hstep) hrest htail
  · exact along_of_obeys hpres hgood hinit

/-- The step function on good labels only. -/
def restrict (step : σ → α → Option σ) (Good : α → Prop) [DecidablePred Good] :
    σ → α → Option σ :=
  fun s a => if Good a then step s a else none

theorem restrict_of_good {Good : α → Prop} [DecidablePred Good]
    (hgood : Good a) : restrict step Good s a = step s a :=
  if_pos hgood

/-- The runs of the restricted system are the runs with good labels. -/
theorem exec_restrict_iff {Good : α → Prop} [DecidablePred Good] :
    exec (restrict step Good) s as = some t ↔
      (∀ a ∈ as, Good a) ∧ exec step s as = some t := by
  induction as generalizing s with
  | nil => simp
  | cons a as ih =>
    by_cases ha : Good a
    · cases hstep : step s a with
      | none => simp [exec, restrict, ha, hstep]
      | some s' =>
        have hgood : restrict step Good s a = some s' := by
          rw [restrict_of_good ha, hstep]
        rw [exec_cons_of_some hgood, exec_cons_of_some hstep, ih]
        simp [ha]
    · simp [exec, restrict, ha]

/-- A stage predicate that can always be advanced by some run can be advanced
through any number of stages. -/
theorem exists_exec_of_progress {Stage : Nat → σ → Prop} {bound : Nat}
    (hprogress : ∀ k s, k < bound → Stage k s →
      ∃ as s', exec step s as = some s' ∧ Stage (k + 1) s') (hstart : Stage 0 s) :
    ∃ as t, exec step s as = some t ∧ Stage bound t := by
  have hupto : ∀ n, n ≤ bound → ∃ as t, exec step s as = some t ∧ Stage n t := by
    intro n
    induction n with
    | zero =>
      intro _
      exact ⟨[], s, rfl, hstart⟩
    | succ n ih =>
      intro hn
      obtain ⟨as, t, hrun, hstage⟩ := ih (by omega)
      obtain ⟨bs, u, hmore, hnext⟩ := hprogress n t (by omega) hstage
      exact ⟨as ++ bs, u, exec_append hrun hmore, hnext⟩
  exact hupto bound (Nat.le_refl bound)

/-- The same when the labels are given, one for each stage. -/
theorem exec_range_of_progress {Stage : Nat → σ → Prop} (label : Nat → α) {bound : Nat}
    (hprogress : ∀ k s, k < bound → Stage k s → ∃ s', step s (label k) = some s' ∧ Stage (k + 1) s')
    (hstart : Stage 0 s) :
    ∃ t, exec step s ((List.range bound).map label) = some t ∧ Stage bound t := by
  induction bound with
  | zero => exact ⟨s, rfl, hstart⟩
  | succ n ih =>
    obtain ⟨t, hrun, hstage⟩ := ih (fun k s hk => hprogress k s (by omega))
    obtain ⟨u, hstep, hnext⟩ := hprogress n t (Nat.lt_succ_self n) hstage
    refine ⟨u, ?_, hnext⟩
    rw [List.range_succ, List.map_append]
    exact exec_append hrun (exec_cons_of_some hstep [])

/-! ## Histories

Ghost histories grow at their end. -/

/-- An entry of a grown history is an old entry or the new one. -/
theorem getElem?_concat_cases {k : Nat} (hget : (as ++ [a])[k]? = some b) :
    as[k]? = some b ∨ k = as.length ∧ b = a := by
  rw [List.getElem?_append] at hget
  split at hget
  · exact Or.inl hget
  · obtain ⟨hzero, hval⟩ := List.getElem?_eq_some_iff.mp hget
    simp only [List.length_singleton] at hzero
    refine Or.inr ⟨by omega, ?_⟩
    simpa using hval.symm

theorem getElem?_concat_of_some {k : Nat} (hget : as[k]? = some b) :
    (as ++ [a])[k]? = some b := by
  obtain ⟨hlt, -⟩ := List.getElem?_eq_some_iff.mp hget
  rw [List.getElem?_append_left hlt]
  exact hget

/-- A symmetric relation between all entries of a grown history. -/
theorem forall_pairs_concat {R : α → α → Prop} (hsymm : ∀ x y, R x y → R y x)
    (hold : ∀ x ∈ as, ∀ y ∈ as, R x y) (hnew : ∀ x ∈ as, R x a) (hself : R a a) :
    ∀ x ∈ as ++ [a], ∀ y ∈ as ++ [a], R x y := by
  intro x hx y hy
  rcases List.mem_append.mp hx with hx | hx
  · rcases List.mem_append.mp hy with hy | hy
    · exact hold x hx y hy
    · rw [List.mem_singleton.mp hy]
      exact hnew x hx
  · rw [List.mem_singleton.mp hx]
    rcases List.mem_append.mp hy with hy | hy
    · exact hsymm y a (hnew y hy)
    · rw [List.mem_singleton.mp hy]
      exact hself

end Foundation
end SfcCapio
