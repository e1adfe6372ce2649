/-
# `Rsurl.Base.Dialogue` — one side of a dialogue

A program over a state, some part of which only grows, what it has put out, and
some part of which is used up, what is to come in.  A script says what is put
out and what has to come in before the rest is.  `Abides` is as far as the
script was got through; a program follows a script if every run of it keeps
it, from whatever state and however it ends.
-/
import Mathlib.Data.List.Infix
import Rsurl.Base.Program

namespace Rsurl.Base

/-- A step of a script: put something out, or have something come in. -/
inductive Move (γ δ : Type)
  | put (bs : List γ)
  | take (P : List δ → Prop)

section

variable {γ δ : Type}

/-- From that input, that output is no further than the script allows. -/
inductive Abides : List (Move γ δ) → List δ → List γ → Prop
  | stop {script : List (Move γ δ)} {input : List δ} : Abides script input []
  | part {bs sent : List γ} {script : List (Move γ δ)} {input : List δ} (h : sent <+: bs) :
      Abides (.put bs :: script) input sent
  | put {bs more : List γ} {script : List (Move γ δ)} {input : List δ}
      (h : Abides script input more) : Abides (.put bs :: script) input (bs ++ more)
  | take {P : List δ → Prop} {reply rest : List δ} {script : List (Move γ δ)} {more : List γ}
      (hP : P reply) (h : Abides script rest more) : Abides (.take P :: script) (reply ++ rest) more

/-- The whole script, on that input and with that output. -/
inductive Completes : List (Move γ δ) → List δ → List γ → Prop
  | nil : Completes [] [] []
  | put {bs more : List γ} {script : List (Move γ δ)} {input : List δ}
      (h : Completes script input more) : Completes (.put bs :: script) input (bs ++ more)
  | take {P : List δ → Prop} {reply rest : List δ} {script : List (Move γ δ)} {more : List γ}
      (hP : P reply) (h : Completes script rest more) :
      Completes (.take P :: script) (reply ++ rest) more

variable {script script' : List (Move γ δ)} {input rest : List δ} {sent more : List γ}

theorem Abides.append (h : Abides script input sent) : Abides (script ++ script') input sent := by
  induction h with
  | stop => exact .stop
  | part h => exact .part h
  | put _ ih => exact .put ih
  | take hP _ ih => exact .take hP ih

/-- Behind a script that is done comes the next. -/
theorem Completes.abides (h : Completes script input sent) (h' : Abides script' rest more) :
    Abides (script ++ script') (input ++ rest) (sent ++ more) := by
  induction h with
  | nil => exact h'
  | put _ ih =>
      rw [List.append_assoc]
      exact .put ih
  | take hP _ ih =>
      rw [List.append_assoc]
      exact .take hP ih

theorem Completes.append (h : Completes script input sent) (h' : Completes script' rest more) :
    Completes (script ++ script') (input ++ rest) (sent ++ more) := by
  induction h with
  | nil => exact h'
  | put _ ih =>
      rw [List.append_assoc]
      exact .put ih
  | take hP _ ih =>
      rw [List.append_assoc]
      exact .take hP ih

theorem Completes.one_put (bs : List γ) : Completes [Move.put (δ := δ) bs] [] bs := by
  have h : Completes [Move.put (δ := δ) bs] [] (bs ++ []) := .put .nil
  rwa [List.append_nil] at h

theorem Completes.one_take {P : List δ → Prop} (h : P input) :
    Completes [Move.take (γ := γ) P] input [] := by
  have hone := Completes.take h (Completes.nil (γ := γ) (δ := δ))
  rwa [List.append_nil] at hone

end

namespace Program

variable {σ ε α β γ δ τ : Type} {m : Program σ ε α} {f : α → Program σ ε β}

/-! ## Runs that end with a value -/

theorem exec_bind_iff {s t : σ} {y : β} :
    (m >>= f).exec s = (.ok y, t) ↔
      ∃ x s', m.exec s = (.ok x, s') ∧ (f x).exec s' = (.ok y, t) := by
  rw [exec_bind]
  rcases m.exec s with ⟨e | x, s'⟩
  · constructor
    · intro h
      cases (Prod.mk.inj h).1
    · rintro ⟨x, s₁, h, -⟩
      cases (Prod.mk.inj h).1
  · constructor
    · intro h
      exact ⟨x, s', rfl, h⟩
    · rintro ⟨x₁, s₁, h, hf⟩
      obtain ⟨hx, rfl⟩ := Prod.mk.inj h
      obtain rfl := Except.ok.inj hx
      exact hf

theorem exec_ofExcept_iff {x : Except ε α} {y : α} {s t : σ} :
    (ofExcept x : Program σ ε α).exec s = (.ok y, t) ↔ x = .ok y ∧ s = t := by
  cases x with
  | error e => simp [ofExcept]
  | ok a => simp [ofExcept]

/-! ## Silence -/

/-- What is looked at stays as it is. -/
def Silent (obs : σ → τ) (m : Program σ ε α) : Prop := ∀ s, obs (m.exec s).2 = obs s

variable {obs : σ → τ}

theorem Silent.pure (a : α) : Silent obs (pure a : Program σ ε α) := fun _ => rfl

theorem Silent.throw (e : ε) : Silent obs (throw e : Program σ ε α) := fun _ => rfl

theorem Silent.ofExcept (x : Except ε α) : Silent obs (ofExcept x : Program σ ε α) := by
  cases x with
  | error e => exact Silent.throw e
  | ok a => exact Silent.pure a

theorem Silent.get : Silent obs (get : Program σ ε σ) := fun _ => rfl

theorem Silent.bind (hm : Silent obs m) (hf : ∀ a, Silent obs (f a)) : Silent obs (m >>= f) := by
  intro s
  have hsame := hm s
  rw [exec_bind]
  revert hsame
  rcases m.exec s with ⟨e | a, s'⟩
  · intro hsame
    exact hsame
  · intro hsame
    exact (hf a s').trans hsame

theorem Silent.ite {c : Prop} [Decidable c] {m m' : Program σ ε α} (h : Silent obs m)
    (h' : Silent obs m') : Silent obs (if c then m else m') := by
  split
  · exact h
  · exact h'

theorem Silent.attempt (h : Silent obs m) : Silent obs m.attempt := fun s => h s

/-! ## Following a script -/

variable {out : σ → List γ} {inp : σ → List δ} {script script' : List (Move γ δ)}

/-- Every run keeps the script. -/
def Follows (out : σ → List γ) (inp : σ → List δ) (m : Program σ ε α)
    (script : List (Move γ δ)) : Prop :=
  ∀ s, ∃ sent, out (m.exec s).2 = out s ++ sent ∧ Abides script (inp s) sent

/-- Every run keeps the script, and one that goes well has gone through it. -/
def Performs (out : σ → List γ) (inp : σ → List δ) (m : Program σ ε α)
    (script : List (Move γ δ)) : Prop :=
  ∀ s, match m.exec s with
    | (.error _, s') => ∃ sent, out s' = out s ++ sent ∧ Abides script (inp s) sent
    | (.ok _, s') => ∃ taken sent, out s' = out s ++ sent ∧ inp s = taken ++ inp s' ∧
        Completes script taken sent

theorem Performs.pure (a : α) : Performs out inp (pure a : Program σ ε α) [] := by
  intro s
  exact ⟨[], [], (List.append_nil _).symm, rfl, .nil⟩

theorem Performs.throw (e : ε) : Performs out inp (throw e : Program σ ε α) script := by
  intro s
  exact ⟨[], (List.append_nil _).symm, .stop⟩

theorem Performs.ofExcept (x : Except ε α) : Performs out inp (ofExcept x : Program σ ε α) [] := by
  cases x with
  | error e => exact .throw e
  | ok a => exact .pure a

theorem Performs.bind (hm : Performs out inp m script)
    (hf : ∀ a, Performs out inp (f a) script') : Performs out inp (m >>= f) (script ++ script') := by
  intro s
  have hfirst := hm s
  rw [exec_bind]
  revert hfirst
  rcases m.exec s with ⟨e | a, s₁⟩
  · rintro ⟨sent, hout, hkeeps⟩
    exact ⟨sent, hout, hkeeps.append⟩
  · rintro ⟨taken, sent, hout, hinp, hdone⟩
    have hsecond := hf a s₁
    dsimp only at hout hinp ⊢
    revert hsecond
    rcases (f a).exec s₁ with ⟨e | b, s₂⟩
    · rintro ⟨more, hout', hkeeps⟩
      refine ⟨sent ++ more, ?_, ?_⟩
      · rw [hout', hout, List.append_assoc]
      · rw [hinp]
        exact hdone.abides hkeeps
    · rintro ⟨taken', more, hout', hinp', hdone'⟩
      refine ⟨taken ++ taken', sent ++ more, ?_, ?_, hdone.append hdone'⟩
      · rw [hout', hout, List.append_assoc]
      · rw [hinp, hinp', List.append_assoc]

/-- A run that puts nothing out and goes well only on what is asked for. -/
theorem Performs.take {P : List δ → Prop} (hm : Silent out m)
    (hok : ∀ s a s', m.exec s = (.ok a, s') → ∃ reply, P reply ∧ inp s = reply ++ inp s') :
    Performs out inp m [.take P] := by
  intro s
  have hsame := hm s
  have hread := hok s
  revert hsame hread
  rcases m.exec s with ⟨e | a, s'⟩
  · intro hsame _
    exact ⟨[], by rw [List.append_nil]; exact hsame, .stop⟩
  · intro hsame hread
    obtain ⟨reply, hP, hinp⟩ := hread a s' rfl
    exact ⟨reply, [], by rw [List.append_nil]; exact hsame, hinp, .one_take hP⟩

theorem Performs.follows (h : Performs out inp m script) : Follows out inp m script := by
  intro s
  have hs := h s
  revert hs
  rcases m.exec s with ⟨e | a, s'⟩
  · exact id
  · rintro ⟨taken, sent, hout, hinp, hdone⟩
    have hstop : Abides [] (inp s') ([] : List γ) := .stop
    have hkeeps := hdone.abides hstop
    rw [List.append_nil, List.append_nil, ← hinp] at hkeeps
    exact ⟨sent, hout, hkeeps⟩

theorem Silent.follows (h : Silent out m) : Follows out inp m script := by
  intro s
  exact ⟨[], by rw [List.append_nil]; exact h s, .stop⟩

/-- What comes behind need not get to its end. -/
theorem Performs.then (hm : Performs out inp m script)
    (hf : ∀ a, Follows out inp (f a) script') : Follows out inp (m >>= f) (script ++ script') := by
  intro s
  have hfirst := hm s
  rw [exec_bind]
  revert hfirst
  rcases m.exec s with ⟨e | a, s₁⟩
  · rintro ⟨sent, hout, hkeeps⟩
    exact ⟨sent, hout, hkeeps.append⟩
  · rintro ⟨taken, sent, hout, hinp, hdone⟩
    obtain ⟨more, hout', hkeeps⟩ := hf a s₁
    dsimp only at hout hinp ⊢
    refine ⟨sent ++ more, ?_, ?_⟩
    · rw [hout', hout, List.append_assoc]
    · rw [hinp]
      exact hdone.abides hkeeps

/-- Nothing is put out behind it. -/
theorem Follows.last (hm : Follows out inp m script) (hf : ∀ a, Silent out (f a)) :
    Follows out inp (m >>= f) script := by
  intro s
  obtain ⟨sent, hout, hkeeps⟩ := hm s
  refine ⟨sent, ?_, hkeeps⟩
  rw [exec_bind]
  revert hout
  rcases m.exec s with ⟨e | a, s'⟩
  · exact id
  · intro hout
    exact (hf a s').trans hout

/-- A failure may be overlooked. -/
theorem Follows.attempt (h : Follows out inp m script) : Follows out inp m.attempt script :=
  fun s => h s

/-! ## What comes of a run -/

variable {A B : Except ε α → List γ → Prop}

/-- Every run puts something out, and what it puts out goes with how it ends. -/
def Puts (out : σ → List γ) (m : Program σ ε α) (A : Except ε α → List γ → Prop) : Prop :=
  ∀ s, ∃ more, out (m.exec s).2 = out s ++ more ∧ A (m.exec s).1 more

theorem Puts.weaken (h : Puts out m A) (hle : ∀ res more, A res more → B res more) :
    Puts out m B := by
  intro s
  obtain ⟨more, hout, hA⟩ := h s
  exact ⟨more, hout, hle _ more hA⟩

theorem Puts.ofExcept (x : Except ε α) :
    Puts out (ofExcept x : Program σ ε α) fun res more => res = x ∧ more = [] := by
  intro s
  cases x with
  | error e => exact ⟨[], (List.append_nil _).symm, rfl, rfl⟩
  | ok a => exact ⟨[], (List.append_nil _).symm, rfl, rfl⟩

theorem Puts.pure (a : α) :
    Puts out (pure a : Program σ ε α) fun res more => res = .ok a ∧ more = [] := Puts.ofExcept (.ok a)

theorem Puts.throw (e : ε) :
    Puts out (throw e : Program σ ε α) fun res more => res = .error e ∧ more = [] :=
  Puts.ofExcept (.error e)

theorem Puts.bind {C : Except ε β → List γ → Prop} {D : α → Except ε β → List γ → Prop}
    (hm : Puts out m A) (hf : ∀ a, Puts out (f a) (D a))
    (herr : ∀ e more, A (.error e) more → C (.error e) more)
    (hok : ∀ a more res more', A (.ok a) more → D a res more' → C res (more ++ more')) :
    Puts out (m >>= f) C := by
  intro s
  obtain ⟨more, hout, hA⟩ := hm s
  rw [exec_bind]
  revert hout hA
  rcases m.exec s with ⟨e | a, s'⟩
  · intro hout hA
    exact ⟨more, hout, herr e more hA⟩
  · intro hout hA
    obtain ⟨more', hout', hD⟩ := hf a s'
    refine ⟨more ++ more', ?_, hok a more _ more' hA hD⟩
    rw [hout', hout, List.append_assoc]

theorem Puts.attempt (h : Puts out m A) :
    Puts out m.attempt fun res more => ∃ inner, res = .ok inner ∧ A inner more := by
  intro s
  obtain ⟨more, hout, hA⟩ := h s
  exact ⟨more, hout, _, rfl, hA⟩

end Program
end Rsurl.Base
