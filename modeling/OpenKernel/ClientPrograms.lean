import Mathlib.Tactic.Common

/-!
# Programs that ask a server

Code that is generic in a service can be written without the service: it either
is done, or it asks and goes on with the answer.  `Client` is the type of such
programs, `Client.Returns` says which answers lead to which result, and
`Client.Bounded` limits the number of questions over all answers.

A server is a step function on a state.  `Client.run` puts a program and a
server together; `run_eq_ok_iff` takes them apart again, into the answers that
the server gives in a row and what the program makes of them.  A program with a
bound therefore returns as soon as the server can answer so many times.
-/

namespace OpenKernel

universe u v w x

/-- A program over answers of type `κ` that returns an `α`. -/
inductive Client (κ : Type u) (α : Type v) where
  | done (result : α)
  | ask (next : κ → Client κ α)

namespace Client

section Programs

variable {κ : Type u} {α β : Type v}

def bind : Client κ α → (α → Client κ β) → Client κ β
  | done result, rest => rest result
  | ask next, rest => ask fun answer => (next answer).bind rest

/-- `Returns client answers result`: given these answers, all of them, it returns `result`. -/
inductive Returns : Client κ α → List κ → α → Prop
  | done
      (result : α) :
      Returns (done result) [] result
  | ask
      {next : κ → Client κ α} {answer : κ} {answers : List κ} {result : α}
      (rest : Returns (next answer) answers result) :
      Returns (ask next) (answer :: answers) result

/-- It asks at most so many times, whatever it is answered. -/
inductive Bounded : Client κ α → Nat → Prop
  | done
      (result : α) (bound : Nat) :
      Bounded (done result) bound
  | ask
      {next : κ → Client κ α} {bound : Nat}
      (rest : ∀ answer, Bounded (next answer) bound) :
      Bounded (ask next) (bound + 1)

theorem returns_done_iff
    {result result' : α} {answers : List κ} :
    Returns (done result) answers result' ↔ answers = [] ∧ result' = result := by
  constructor
  · intro h
    cases h
    exact ⟨rfl, rfl⟩
  · rintro ⟨rfl, rfl⟩
    exact .done _

theorem returns_ask_iff
    {next : κ → Client κ α} {answers : List κ} {result : α} :
    Returns (ask next) answers result ↔
      ∃ answer answers', answers = answer :: answers' ∧ Returns (next answer) answers' result := by
  constructor
  · intro h
    cases h with
    | ask rest => exact ⟨_, _, rfl, rest⟩
  · rintro ⟨answer, answers', rfl, rest⟩
    exact .ask rest

/-- The answers to a composed program split where the first part returns. -/
theorem returns_bind_iff
    {client : Client κ α} {rest : α → Client κ β} {answers : List κ} {result : β} :
    Returns (client.bind rest) answers result ↔
      ∃ first second between, answers = first ++ second ∧
        Returns client first between ∧ Returns (rest between) second result := by
  induction client generalizing answers with
  | done between =>
      constructor
      · intro h
        exact ⟨[], answers, between, rfl, .done between, h⟩
      · rintro ⟨first, second, between', rfl, hfirst, hsecond⟩
        obtain ⟨rfl, rfl⟩ := returns_done_iff.1 hfirst
        exact hsecond
  | ask next ih =>
      constructor
      · intro h
        obtain ⟨answer, answers', rfl, hrest⟩ := returns_ask_iff.1 h
        obtain ⟨first, second, between, rfl, hfirst, hsecond⟩ := (ih answer).1 hrest
        exact ⟨answer :: first, second, between, rfl, .ask hfirst, hsecond⟩
      · rintro ⟨first, second, between, rfl, hfirst, hsecond⟩
        obtain ⟨answer, first', rfl, hfirst'⟩ := returns_ask_iff.1 hfirst
        exact .ask ((ih answer).2 ⟨first', second, between, rfl, hfirst', hsecond⟩)

theorem Bounded.mono
    {client : Client κ α} {bound bound' : Nat}
    (h : Bounded client bound)
    (hle : bound ≤ bound') :
    Bounded client bound' := by
  induction h generalizing bound' with
  | done result => exact .done result bound'
  | @ask next bound rest ih =>
      obtain ⟨larger, rfl⟩ : ∃ larger, bound' = larger + 1 := ⟨bound' - 1, by omega⟩
      exact .ask fun answer => ih answer (by omega)

theorem Bounded.bind
    {client : Client κ α} {rest : α → Client κ β} {bound bound' : Nat}
    (h : Bounded client bound)
    (hrest : ∀ result, Bounded (rest result) bound') :
    Bounded (client.bind rest) (bound + bound') := by
  induction h with
  | done result bound => exact (hrest result).mono (Nat.le_add_left bound' bound)
  | @ask next bound _ ih =>
      have hnext : Bounded ((Client.ask next).bind rest) (bound + bound' + 1) := .ask ih
      exact hnext.mono (by omega)

theorem Bounded.length_le
    {client : Client κ α} {bound : Nat} {answers : List κ} {result : α}
    (h : Bounded client bound)
    (hreturns : Returns client answers result) :
    answers.length ≤ bound := by
  induction hreturns generalizing bound with
  | done result => exact Nat.zero_le bound
  | ask _ ih =>
      cases h with
      | ask hrest => exact Nat.succ_le_succ (ih (hrest _))

/-- `client?; rest`, over a state that a failure keeps. -/
def andThen {E S : Type v}
    (client : Client κ (Except E Unit × S)) (rest : S → Client κ (Except E Unit × S)) :
    Client κ (Except E Unit × S) :=
  client.bind fun (result, s) =>
    match result with
    | .ok () => rest s
    | .error e => done (.error e, s)

/-- Either the first part fails with all the answers, or it succeeds on some and the rest
gets the others. -/
theorem returns_andThen_iff
    {E S : Type v}
    {client : Client κ (Except E Unit × S)} {rest : S → Client κ (Except E Unit × S)}
    {answers : List κ} {result : Except E Unit} {s : S} :
    Returns (client.andThen rest) answers (result, s) ↔
      (∃ e, result = .error e ∧ Returns client answers (.error e, s)) ∨
      ∃ first second between, answers = first ++ second ∧
        Returns client first (.ok (), between) ∧ Returns (rest between) second (result, s) := by
  rw [andThen, returns_bind_iff]
  constructor
  · rintro ⟨first, second, ⟨e | value, between⟩, rfl, hfirst, hsecond⟩
    · obtain ⟨rfl, hresult⟩ := returns_done_iff.1 hsecond
      cases hresult
      exact .inl ⟨e, rfl, by simpa using hfirst⟩
    · exact .inr ⟨first, second, between, rfl, hfirst, hsecond⟩
  · rintro (⟨e, rfl, hfail⟩ | ⟨first, second, between, rfl, hfirst, hsecond⟩)
    · exact ⟨answers, [], (.error e, s), by simp, hfail, .done _⟩
    · exact ⟨first, second, (.ok (), between), rfl, hfirst, hsecond⟩

theorem Bounded.andThen
    {E S : Type v}
    {client : Client κ (Except E Unit × S)} {rest : S → Client κ (Except E Unit × S)}
    {bound bound' : Nat}
    (h : Bounded client bound)
    (hrest : ∀ s, Bounded (rest s) bound') :
    Bounded (client.andThen rest) (bound + bound') := by
  refine h.bind ?_
  rintro ⟨e | value, s⟩
  · exact .done _ bound'
  · exact hrest s

end Programs

section Servers

variable {κ : Type u} {α : Type v} {σ : Type w} {ε : Type x}

/-- `serve` answers one question, or fails. -/
def run (serve : σ → Except ε (κ × σ)) : Client κ α → σ → Except ε (α × σ)
  | done result, s => .ok (result, s)
  | ask next, s =>
      match serve s with
      | .ok (answer, s') => run serve (next answer) s'
      | .error e => .error e

/-- The answers that the server gives in a row. -/
inductive Serves (serve : σ → Except ε (κ × σ)) : σ → List κ → σ → Prop
  | nil
      (s : σ) :
      Serves serve s [] s
  | cons
      {s s' s'' : σ} {answer : κ} {answers : List κ}
      (first : serve s = .ok (answer, s'))
      (rest : Serves serve s' answers s'') :
      Serves serve s (answer :: answers) s''

variable {serve : σ → Except ε (κ × σ)}

/-- A run is an exchange in which each side does its part. -/
theorem run_eq_ok_iff
    {client : Client κ α} {s s' : σ} {result : α} :
    client.run serve s = .ok (result, s') ↔
      ∃ answers, Serves serve s answers s' ∧ Returns client answers result := by
  induction client generalizing s with
  | done value =>
      constructor
      · intro h
        cases h
        exact ⟨[], .nil _, .done _⟩
      · rintro ⟨answers, hserves, hreturns⟩
        obtain ⟨rfl, rfl⟩ := returns_done_iff.1 hreturns
        cases hserves
        rfl
  | ask next ih =>
      constructor
      · intro h
        rcases hserve : serve s with e | ⟨answer, between⟩
        · simp [run, hserve] at h
        · simp only [run, hserve] at h
          obtain ⟨answers, hserves, hreturns⟩ := (ih answer).1 h
          exact ⟨answer :: answers, .cons hserve hserves, .ask hreturns⟩
      · rintro ⟨answers, hserves, hreturns⟩
        obtain ⟨answer, answers', rfl, hrest⟩ := returns_ask_iff.1 hreturns
        cases hserves with
        | cons hfirst hserves' =>
            simp only [run, hfirst]
            exact (ih answer).2 ⟨answers', hserves', hrest⟩

/-- A program with a bound returns from a server that can answer so many times. -/
theorem exists_run_eq_ok
    {client : Client κ α} {bound : Nat} {s : σ}
    (h : Bounded client bound)
    (hserver : ∀ answers s', Serves serve s answers s' → answers.length < bound →
      ∃ answer s'', serve s' = .ok (answer, s'')) :
    ∃ result s', client.run serve s = .ok (result, s') := by
  induction h generalizing s with
  | done result bound => exact ⟨result, s, rfl⟩
  | @ask next bound _ ih =>
      obtain ⟨answer, s', hserve⟩ := hserver [] s (.nil s) (Nat.succ_pos bound)
      have hrest : ∀ answers s'', Serves serve s' answers s'' → answers.length < bound →
          ∃ answer s''', serve s'' = .ok (answer, s''') := by
        intro answers s'' hserves hlt
        exact hserver (answer :: answers) s'' (.cons hserve hserves) (by simpa using hlt)
      obtain ⟨result, s'', hrun⟩ := ih answer hrest
      exact ⟨result, s'', by simpa only [run, hserve] using hrun⟩

end Servers

end Client

end OpenKernel
