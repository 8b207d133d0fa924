import Mathlib.Data.List.Basic
import Mathlib.Data.List.Infix
import Mathlib.Tactic

/-!
# Runs of a labelled step relation

A program that is driven by outside events is presented as a relation
`step s a t`: in state `s` the event `a` may lead to state `t`.  A run keeps,
for every step it takes, the state before the step and the event.

The module gives the induction rules that the developments above it use:

* `Run.invariant`: an invariant that every step keeps holds at the end;
* `Run.invariant_of_guard`: the same for steps that meet a guard;
* `Run.invariant_iff_guard`: when a guard says exactly which steps keep the
  invariant, the whole run keeps it iff all its steps meet the guard;
* `Run.append` and `Run.split`: composing and cutting runs;
* `Run.exists_foldl` and `Run.run_trail`: runs of a system whose events decide
  its steps;
* `Run.conserves`: what enters along a run has left in order or is pending;
* `Run.balances`: the cost of a run by a credit that the states hold;
* `Run.simulates`: runs of one relation seen as runs of another, with the same
  observations;
* `Run.refines`: a relation between states that every step keeps, with the same
  events on both sides.
-/

namespace OpenKernel

universe u v w

section LabelledRuns

variable {σ : Type u} {α : Type v}

/-- Runs of a step relation; the trace lists the states left and the events. -/
inductive Run (step : σ → α → σ → Prop) :
    σ → List (σ × α) → σ → Prop
  | nil (s : σ) : Run step s [] s
  | snoc {s t u : σ} {a : α} {tr : List (σ × α)}
      (before : Run step s tr t)
      (last : step t a u) :
      Run step s (tr ++ [(t, a)]) u

namespace Run

variable {step : σ → α → σ → Prop}

/-- A single step is a run. -/
theorem single
    {s t : σ} {a : α}
    (h : step s a t) :
    Run step s [(s, a)] t := by
  simpa using Run.snoc (Run.nil s) h

/-- The only run with an empty trace stays where it is. -/
theorem eq_of_nil
    {s t : σ}
    (h : Run step s [] t) :
    s = t := by
  generalize htr : ([] : List (σ × α)) = tr at h
  cases h with
  | nil => rfl
  | snoc before last => simp at htr

/-- Peel the last step off a run. -/
theorem of_snoc
    {s u t : σ} {a : α} {tr : List (σ × α)}
    (h : Run step s (tr ++ [(t, a)]) u) :
    Run step s tr t ∧ step t a u := by
  generalize htr : tr ++ [(t, a)] = tr' at h
  cases h with
  | nil => simp at htr
  | snoc before last =>
      obtain ⟨rfl, hlast⟩ := List.append_inj' htr rfl
      obtain ⟨rfl, rfl⟩ : t = _ ∧ a = _ := by simpa using hlast
      exact ⟨before, last⟩

/-- Runs compose. -/
theorem append
    {s t u : σ} {tr₁ tr₂ : List (σ × α)}
    (h₁ : Run step s tr₁ t)
    (h₂ : Run step t tr₂ u) :
    Run step s (tr₁ ++ tr₂) u := by
  induction h₂ with
  | nil => simpa using h₁
  | snoc before last ih =>
      rw [← List.append_assoc]
      exact Run.snoc ih last

/-- A run whose trace is a concatenation passes through a middle state. -/
theorem split
    {s u : σ} {tr₁ tr₂ : List (σ × α)}
    (h : Run step s (tr₁ ++ tr₂) u) :
    ∃ t, Run step s tr₁ t ∧ Run step t tr₂ u := by
  induction tr₂ using List.reverseRecOn generalizing u with
  | nil =>
      exact ⟨u, by simpa using h, Run.nil u⟩
  | append_singleton tr₂ x ih =>
      obtain ⟨v, a⟩ := x
      rw [← List.append_assoc] at h
      obtain ⟨hbefore, hlast⟩ := of_snoc h
      obtain ⟨t, h₁, h₂⟩ := ih hbefore
      exact ⟨t, h₁, Run.snoc h₂ hlast⟩

/-- Peel the first step off a run. -/
theorem of_cons
    {s u : σ} {x : σ × α} {tr : List (σ × α)}
    (h : Run step s (x :: tr) u) :
    x.1 = s ∧ ∃ t, step s x.2 t ∧ Run step t tr u := by
  have hcut : Run step s ([x] ++ tr) u := h
  obtain ⟨t, h₁, h₂⟩ := split hcut
  have hone : Run step s ([] ++ [(x.1, x.2)]) t := h₁
  obtain ⟨hnil, hstep⟩ := of_snoc hone
  cases eq_of_nil hnil
  exact ⟨rfl, t, hstep, h₂⟩

/-- Put a step in front of a run. -/
theorem cons
    {s t u : σ} {a : α} {tr : List (σ × α)}
    (hstep : step s a t)
    (h : Run step t tr u) :
    Run step s ((s, a) :: tr) u :=
  append (single hstep) h

/-- An invariant kept by every step whose guard holds is kept by the run. -/
theorem invariant_of_guard
    {Inv : σ → Prop} {guard : σ → α → Prop}
    (hkeep : ∀ s a t, Inv s → guard s a → step s a t → Inv t)
    {s t : σ} {tr : List (σ × α)}
    (h : Run step s tr t)
    (hs : Inv s)
    (hguard : ∀ x ∈ tr, guard x.1 x.2) :
    Inv t := by
  induction h with
  | nil => exact hs
  | snoc before last ih =>
      have hbefore := ih (fun x hx => hguard x (List.mem_append_left _ hx))
      exact hkeep _ _ _ hbefore (hguard (_, _) (by simp)) last

/-- An invariant kept by every step is kept by the run. -/
theorem invariant
    {Inv : σ → Prop}
    (hkeep : ∀ s a t, Inv s → step s a t → Inv t)
    {s t : σ} {tr : List (σ × α)}
    (h : Run step s tr t)
    (hs : Inv s) :
    Inv t := by
  have hkeep' : ∀ s a t, Inv s → True → step s a t → Inv t :=
    fun s a t hinv _ hst => hkeep s a t hinv hst
  exact invariant_of_guard hkeep' h hs (fun _ _ => trivial)

/-- Every state a run leaves is itself reached by a shorter run. -/
theorem exists_before
    {s t : σ} {tr : List (σ × α)}
    (h : Run step s tr t)
    {x : σ × α} (hx : x ∈ tr) :
    ∃ tr₁ tr₂ u, tr = tr₁ ++ x :: tr₂ ∧
      Run step s tr₁ x.1 ∧ step x.1 x.2 u ∧ Run step u tr₂ t := by
  obtain ⟨tr₁, tr₂, rfl⟩ := List.append_of_mem hx
  obtain ⟨v, h₁, h₂⟩ := split h
  obtain ⟨rfl, u, hstep, hrest⟩ := of_cons h₂
  exact ⟨tr₁, tr₂, u, rfl, h₁, hstep, hrest⟩

/-- An invariant of all steps holds in every state that the run leaves. -/
theorem invariant_mem
    {Inv : σ → Prop}
    (hkeep : ∀ s a t, Inv s → step s a t → Inv t)
    {s t : σ} {tr : List (σ × α)}
    (h : Run step s tr t)
    (hs : Inv s)
    {x : σ × α} (hx : x ∈ tr) :
    Inv x.1 := by
  obtain ⟨_, _, _, _, hbefore, _, _⟩ := exists_before h hx
  exact invariant hkeep hbefore hs

/--
When, from states satisfying the invariant, the guard says exactly which steps
keep it, a run keeps the invariant throughout iff all its steps meet the guard.
-/
theorem invariant_iff_guard
    {Inv : σ → Prop} {guard : σ → α → Prop}
    (hexact : ∀ s a t, Inv s → step s a t → (Inv t ↔ guard s a))
    {s t : σ} {tr : List (σ × α)}
    (h : Run step s tr t)
    (hs : Inv s) :
    ((∀ x ∈ tr, Inv x.1) ∧ Inv t) ↔ ∀ x ∈ tr, guard x.1 x.2 := by
  induction h with
  | nil => simpa using hs
  | @snoc t u a tr before last ih =>
      constructor
      · rintro ⟨hall, hu⟩ x hx
        have ht : Inv t := hall (t, a) (by simp)
        have hbefore : ∀ x ∈ tr, guard x.1 x.2 :=
          ih.1 ⟨fun y hy => hall y (List.mem_append_left _ hy), ht⟩
        rcases List.mem_append.1 hx with hx | hx
        · exact hbefore x hx
        · obtain rfl : x = (t, a) := by simpa using hx
          exact (hexact t a u ht last).1 hu
      · intro hguard
        obtain ⟨hall, ht⟩ :=
          ih.2 (fun x hx => hguard x (List.mem_append_left _ hx))
        refine ⟨?_, (hexact t a u ht last).2 (hguard (t, a) (by simp))⟩
        intro x hx
        rcases List.mem_append.1 hx with hx | hx
        · exact hall x hx
        · obtain rfl : x = (t, a) := by simpa using hx
          exact ht

/-- Where the events decide the steps, every sequence of events is a run. -/
theorem exists_foldl
    (f : σ → α → σ) (s : σ) (as : List α) :
    ∃ tr, Run (fun s a t => t = f s a) s tr (as.foldl f s) ∧ tr.map Prod.snd = as := by
  induction as generalizing s with
  | nil => exact ⟨[], Run.nil s, rfl⟩
  | cons a as ih =>
      obtain ⟨tr, hrun, hevents⟩ := ih (f s a)
      exact ⟨(s, a) :: tr, Run.cons rfl hrun, by rw [List.map_cons, hevents]⟩

/-- The trace of a system whose events decide its steps. -/
def trail (f : σ → α → σ) : σ → List α → List (σ × α)
  | _, [] => []
  | s, a :: as => (s, a) :: trail f (f s a) as

theorem run_trail
    (f : σ → α → σ) (s : σ) (as : List α) :
    Run (fun s a t => t = f s a) s (trail f s as) (as.foldl f s) := by
  induction as generalizing s with
  | nil => exact Run.nil s
  | cons a as ih => exact Run.cons rfl (ih (f s a))

/--
When every step puts what enters behind what is pending and takes what leaves
off its front, all that entered along a run is what left, then what is pending.
-/
theorem conserves
    {β : Type w} (pending : σ → List β) (entering leaving : σ × α → List β)
    (hstep : ∀ s a t, step s a t →
      pending s ++ entering (s, a) = leaving (s, a) ++ pending t)
    {s t : σ} {tr : List (σ × α)}
    (h : Run step s tr t) :
    pending s ++ tr.flatMap entering = tr.flatMap leaving ++ pending t := by
  induction h with
  | nil => simp
  | snoc before last ih =>
      rw [List.flatMap_append, List.flatMap_append, ← List.append_assoc, ih,
        List.append_assoc, List.append_assoc]
      simpa using hstep _ _ _ last

/--
When every step costs what it earns and what the credit of the state loses, so
does every run.
-/
theorem balances
    {Inv : σ → Prop} (credit : σ → Nat) (cost income : σ × α → Nat)
    (hkeep : ∀ s a t, Inv s → step s a t → Inv t)
    (hstep : ∀ s a t, Inv s → step s a t → cost (s, a) + credit t = income (s, a) + credit s)
    {s t : σ} {tr : List (σ × α)}
    (h : Run step s tr t)
    (hs : Inv s) :
    (tr.map cost).sum + credit t = (tr.map income).sum + credit s := by
  induction h with
  | nil => rfl
  | snoc before last ih =>
      have hlast := hstep _ _ _ (invariant hkeep before hs) last
      rw [List.map_append, List.map_append, List.sum_append, List.sum_append]
      simp only [List.map_cons, List.map_nil, List.sum_cons, List.sum_nil]
      omega

/--
When every step, from states satisfying an invariant, is matched by a run of
another relation whose visible steps are the observations of the step, so is
every run.
-/
theorem simulates
    {τ : Type u} {β : Type v} {step' : τ → β → τ → Prop}
    {Inv : σ → Prop} (view : σ → τ)
    (Good : τ × β → Prop) (visible : τ × β → Bool) (seen : σ × α → List (τ × β))
    (hkeep : ∀ s a t, Inv s → step s a t → Inv t)
    (hmatch : ∀ s a t, Inv s → step s a t →
      ∃ tr', Run step' (view s) tr' (view t) ∧ (∀ y ∈ tr', Good y) ∧
        tr'.filter visible = seen (s, a))
    {s t : σ} {tr : List (σ × α)}
    (h : Run step s tr t)
    (hs : Inv s) :
    ∃ tr', Run step' (view s) tr' (view t) ∧ (∀ y ∈ tr', Good y) ∧
      tr'.filter visible = tr.flatMap seen := by
  induction h with
  | nil => exact ⟨[], Run.nil _, by simp, rfl⟩
  | snoc before last ih =>
      obtain ⟨tr₁, hrun₁, hgood₁, hseen₁⟩ := ih
      obtain ⟨tr₂, hrun₂, hgood₂, hseen₂⟩ := hmatch _ _ _ (invariant hkeep before hs) last
      refine ⟨tr₁ ++ tr₂, hrun₁.append hrun₂, ?_, ?_⟩
      · intro y hy
        rcases List.mem_append.1 hy with hy | hy
        · exact hgood₁ y hy
        · exact hgood₂ y hy
      · rw [List.filter_append, hseen₁, hseen₂, List.flatMap_append, List.flatMap_singleton]

/-- When related states can take the same steps to related states, every run of the
one is a run of the other, with the same events. -/
theorem refines
    {τ : Type w} {step' : τ → α → τ → Prop} {R : σ → τ → Prop}
    (hsim : ∀ s a t s', R s s' → step s a t → ∃ t', step' s' a t' ∧ R t t')
    {s t : σ} {tr : List (σ × α)}
    (h : Run step s tr t)
    {s' : τ} (hs : R s s') :
    ∃ tr' t', Run step' s' tr' t' ∧ R t t' ∧ tr'.map Prod.snd = tr.map Prod.snd := by
  induction h with
  | nil => exact ⟨[], s', Run.nil s', hs, rfl⟩
  | @snoc t u a tr before last ih =>
      obtain ⟨tr', t', hrun, hrelated, hevents⟩ := ih
      obtain ⟨u', hstep, hend⟩ := hsim _ _ _ _ hrelated last
      refine ⟨tr' ++ [(t', a)], u', Run.snoc hrun hstep, hend, ?_⟩
      rw [List.map_append, List.map_append, hevents]
      rfl

end Run

/-- An item of a concatenation stands in one of its parts. -/
theorem exists_of_getElem?_flatMap
    {β : Type w} {f : α → List β} {xs : List α} {k : Nat} {y : β}
    (h : (xs.flatMap f)[k]? = some y) :
    ∃ before x after j, xs = before ++ x :: after ∧
      k = (before.flatMap f).length + j ∧ (f x)[j]? = some y := by
  induction xs generalizing k with
  | nil => simp at h
  | cons x xs ih =>
      rw [List.flatMap_cons] at h
      by_cases hk : k < (f x).length
      · rw [List.getElem?_append_left hk] at h
        exact ⟨[], x, xs, k, rfl, by simp, h⟩
      · rw [List.getElem?_append_right (Nat.le_of_not_lt hk)] at h
        obtain ⟨before, x', after, j, rfl, hj, hy⟩ := ih h
        refine ⟨x :: before, x', after, j, rfl, ?_, hy⟩
        rw [List.flatMap_cons, List.length_append]
        omega

end LabelledRuns

end OpenKernel
