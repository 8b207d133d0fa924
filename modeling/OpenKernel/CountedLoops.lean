import Mathlib.Tactic

/-!
# Counted loops that may fail

`forRange lo hi body` runs `body` for each index from `lo` to `hi - 1` in
ascending order and stops with `none` as soon as one turn fails.  The rule of
the module is `forRange_total`: with an invariant that each turn reestablishes,
the loop does not fail and ends with the invariant at `hi`.  In the other
direction, a loop that does not fail has run every turn.
-/

namespace OpenKernel

universe u

section CountedLoops

variable {σ : Type u}

/-- `count` turns of the loop from index `i` on. -/
def forTurns (body : Nat → σ → Option σ) : Nat → Nat → σ → Option σ
  | 0, _, s => some s
  | count + 1, i, s => (body i s).bind (forTurns body count (i + 1))

/-- `for i in lo..hi`. -/
def forRange (lo hi : Nat) (body : Nat → σ → Option σ) (s : σ) : Option σ :=
  forTurns body (hi - lo) lo s

theorem forTurns_total
    {body : Nat → σ → Option σ} {inv : Nat → σ → Prop}
    (count i : Nat)
    (hturn : ∀ j s, i ≤ j → j < i + count → inv j s →
      ∃ s', body j s = some s' ∧ inv (j + 1) s')
    {s : σ}
    (hs : inv i s) :
    ∃ s', forTurns body count i s = some s' ∧ inv (i + count) s' := by
  induction count generalizing i s with
  | zero =>
      exact ⟨s, rfl, hs⟩
  | succ count ih =>
      obtain ⟨t, hbody, ht⟩ := hturn i s (Nat.le_refl i) (by omega) hs
      have hrest : ∀ j s, i + 1 ≤ j → j < i + 1 + count → inv j s →
          ∃ s', body j s = some s' ∧ inv (j + 1) s' := by
        intro j s hij hj hinv
        exact hturn j s (by omega) (by omega) hinv
      obtain ⟨s', hloop, hs'⟩ := ih (i + 1) hrest ht
      refine ⟨s', ?_, ?_⟩
      · rw [forTurns, hbody, Option.bind_some, hloop]
      · have hindex : i + 1 + count = i + (count + 1) := by omega
        rw [← hindex]
        exact hs'

/-- A loop whose turns reestablish an invariant ends, with the invariant at its end. -/
theorem forRange_total
    {body : Nat → σ → Option σ} (inv : Nat → σ → Prop)
    {lo hi : Nat}
    (hle : lo ≤ hi)
    (hturn : ∀ i s, lo ≤ i → i < hi → inv i s →
      ∃ s', body i s = some s' ∧ inv (i + 1) s')
    {s : σ}
    (hs : inv lo s) :
    ∃ s', forRange lo hi body s = some s' ∧ inv hi s' := by
  have hend : lo + (hi - lo) = hi := by omega
  have hturn' : ∀ i s, lo ≤ i → i < lo + (hi - lo) → inv i s →
      ∃ s', body i s = some s' ∧ inv (i + 1) s' := by
    intro i s hlo hhi hinv
    exact hturn i s hlo (by omega) hinv
  obtain ⟨s', hloop, hs'⟩ := forTurns_total (hi - lo) lo hturn' hs
  rw [hend] at hs'
  exact ⟨s', hloop, hs'⟩

/-- A loop none of whose turns can fail ends. -/
theorem exists_forRange_eq_some
    {body : Nat → σ → Option σ}
    (hturn : ∀ i s, ∃ s', body i s = some s')
    (lo hi : Nat) (s : σ) :
    ∃ s', forRange lo hi body s = some s' := by
  obtain ⟨s', hloop, -⟩ := forTurns_total (hi - lo) lo
    (fun i s _ _ (_ : True) => by
      obtain ⟨s', hbody⟩ := hturn i s
      exact ⟨s', hbody, trivial⟩) (s := s) trivial
  exact ⟨s', hloop⟩

theorem forTurns_congr
    {body body' : Nat → σ → Option σ} {count i : Nat}
    (h : ∀ j, i ≤ j → j < i + count → body j = body' j)
    (s : σ) :
    forTurns body count i s = forTurns body' count i s := by
  induction count generalizing i s with
  | zero => rfl
  | succ count ih =>
      have hrest : forTurns body count (i + 1) = forTurns body' count (i + 1) :=
        funext (ih fun j hij hj => h j (by omega) (by omega))
      rw [forTurns, forTurns, h i (Nat.le_refl i) (by omega), hrest]

/-- Loops whose turns agree on every index of the range agree. -/
theorem forRange_congr
    {body body' : Nat → σ → Option σ} {lo hi : Nat}
    (h : ∀ i, lo ≤ i → i < hi → body i = body' i)
    (s : σ) :
    forRange lo hi body s = forRange lo hi body' s :=
  forTurns_congr (fun j hlo hhi => h j hlo (by omega)) s

theorem exists_turn_of_forTurns_eq_some
    {body : Nat → σ → Option σ} {count i j : Nat} {s s' : σ}
    (h : forTurns body count i s = some s')
    (hij : i ≤ j) (hj : j < i + count) :
    ∃ t t', body j t = some t' := by
  induction count generalizing i s with
  | zero => omega
  | succ count ih =>
      rw [forTurns] at h
      obtain ⟨t, hbody, hrest⟩ := Option.bind_eq_some_iff.1 h
      rcases Nat.eq_or_lt_of_le hij with rfl | hlt
      · exact ⟨s, t, hbody⟩
      · exact ih hrest hlt (by omega)

/-- A loop that ends has run each of its turns. -/
theorem exists_turn_of_forRange_eq_some
    {body : Nat → σ → Option σ} {lo hi i : Nat} {s s' : σ}
    (h : forRange lo hi body s = some s')
    (hlo : lo ≤ i) (hhi : i < hi) :
    ∃ t t', body i t = some t' :=
  exists_turn_of_forTurns_eq_some h hlo (by omega)

end CountedLoops

end OpenKernel
