import Mathlib.Algebra.GroupWithZero.Nat

/-!
# Outcomes of imperative code

A call returns, is stopped by the runtime, or does not return. Errors as values are in `ret`;
`hang` is also what a bounded loop yields when its bound is used up.
-/

namespace Strawberry

inductive Fault where
  | indexOutOfRange
  | sliceOutOfRange
  | makeLenOutOfRange
  | nilDereference
  | nilMapAssignment
  | explicitPanic
  deriving DecidableEq

inductive Outcome (α : Type u) where
  | ret (a : α)
  | crash (f : Fault)
  | hang
  deriving DecidableEq

namespace Outcome

variable {α : Type u} {β : Type v} {γ : Type w}

def bind (x : Outcome α) (k : α → Outcome β) : Outcome β :=
  match x with
  | .ret a => k a
  | .crash f => .crash f
  | .hang => .hang

instance : Monad Outcome where
  pure := .ret
  bind := Outcome.bind

@[simp] theorem pure_eq (a : α) : (pure a : Outcome α) = .ret a := rfl

@[simp] theorem ret_bind {α β : Type u} (a : α) (k : α → Outcome β) :
    (Outcome.ret a >>= k) = k a := rfl

@[simp] theorem crash_bind {α β : Type u} (f : Fault) (k : α → Outcome β) :
    (Outcome.crash f >>= k) = .crash f := rfl

@[simp] theorem hang_bind {α β : Type u} (k : α → Outcome β) : (Outcome.hang >>= k) = .hang := rfl

@[simp] theorem map_ret {α β : Type u} (f : α → β) (a : α) : f <$> Outcome.ret a = .ret (f a) := rfl

instance : LawfulMonad Outcome :=
  LawfulMonad.mk' Outcome (fun x => by cases x <;> rfl) (fun _ _ => rfl)
    (fun x _ _ => by cases x <;> rfl)

section

variable {α β : Type u} {x : Outcome α} {k : α → Outcome β}

theorem bind_eq_ret {b : β} : (x >>= k) = .ret b ↔ ∃ a, x = .ret a ∧ k a = .ret b := by
  cases x <;> simp

theorem map_eq_ret {g : α → β} {b : β} : g <$> x = .ret b ↔ ∃ a, x = .ret a ∧ g a = b := by
  cases x with
  | ret a => simp
  | crash | hang => simp [Functor.map, bind]

end

def Returns (x : Outcome α) : Prop := ∃ a, x = .ret a

@[simp] theorem returns_ret (a : α) : (ret a).Returns := ⟨a, rfl⟩

@[simp] theorem not_returns_crash (f : Fault) : ¬ (crash f : Outcome α).Returns := by
  rintro ⟨a, ha⟩
  cases ha

@[simp] theorem not_returns_hang : ¬ (hang : Outcome α).Returns := by
  rintro ⟨a, ha⟩
  cases ha

theorem returns_bind {α β : Type u} {x : Outcome α} {k : α → Outcome β} :
    (x >>= k).Returns ↔ ∃ a, x = .ret a ∧ (k a).Returns := by
  cases x <;> simp

instance (x : Outcome α) : Decidable x.Returns :=
  match x with
  | .ret _ => .isTrue (by simp)
  | .crash _ => .isFalse (by simp)
  | .hang => .isFalse (by simp)

theorem mapM_returns {α β : Type u} {f : α → Outcome β} {P : β → Prop} {l : List α}
    (h : ∀ a ∈ l, ∃ b, f a = .ret b ∧ P b) :
    ∃ bs, l.mapM f = .ret bs ∧ bs.length = l.length ∧ ∀ b ∈ bs, P b := by
  induction l with
  | nil => exact ⟨[], rfl, rfl, nofun⟩
  | cons a l ih =>
    rw [List.forall_mem_cons] at h
    obtain ⟨b, hb, hP⟩ := h.1
    obtain ⟨bs, hbs, hlen, hall⟩ := ih h.2
    refine ⟨b :: bs, ?_, ?_, List.forall_mem_cons.mpr ⟨hP, hall⟩⟩
    · rw [List.mapM_cons, hb, hbs]
      rfl
    · rw [List.length_cons, List.length_cons, hlen]

def Post (x : Outcome α) (P : α → Prop) : Prop := ∀ a, x = .ret a → P a

variable {P : α → Prop}

@[simp] theorem post_ret {a : α} : (ret a).Post P ↔ P a := by
  constructor
  · intro h
    exact h a rfl
  · intro h a' ha
    cases ha
    exact h

@[simp] theorem post_crash {f : Fault} : (crash f).Post P := by
  intro a ha
  cases ha

@[simp] theorem post_hang : (hang : Outcome α).Post P := by
  intro a ha
  cases ha

theorem post_bind {α β : Type u} {x : Outcome α} {k : α → Outcome β} {P : β → Prop} :
    (x >>= k).Post P ↔ x.Post fun a => (k a).Post P := by
  cases x <;> simp

theorem Post.mono {x : Outcome α} {Q : α → Prop} (h : x.Post P) (hPQ : ∀ a, P a → Q a) :
    x.Post Q := fun a ha => hPQ a (h a ha)

def Total (x : Outcome α) (P : α → Prop) : Prop := x ≠ .hang ∧ x.Post P

@[simp] theorem total_ret {a : α} : (ret a).Total P ↔ P a := by
  simp [Total]

@[simp] theorem total_crash {f : Fault} : (crash f).Total P := by
  simp [Total]

theorem total_bind {α β : Type u} {x : Outcome α} {k : α → Outcome β} {P : β → Prop} :
    (x >>= k).Total P ↔ x.Total fun a => (k a).Total P := by
  cases x <;> simp [Total]

theorem Total.mono {x : Outcome α} {Q : α → Prop} (h : x.Total P) (hPQ : ∀ a, P a → Q a) :
    x.Total Q := ⟨h.1, h.2.mono hPQ⟩

theorem foldlM_returns {α β : Type u} {f : β → α → Outcome β} {l : List α} {b : β}
    (h : ∀ a ∈ l, ∀ b, (f b a).Returns) : (l.foldlM f b).Returns := by
  induction l generalizing b with
  | nil => exact ⟨b, rfl⟩
  | cons a l ih =>
    obtain ⟨b', hb'⟩ := h a (by simp) b
    rw [List.foldlM_cons, hb', ret_bind]
    exact ih fun a' ha' => h a' (by simp [ha'])

end Outcome

export Outcome (pure_eq ret_bind crash_bind hang_bind map_ret bind_eq_ret map_eq_ret returns_ret
  returns_bind mapM_returns foldlM_returns post_ret post_crash post_bind total_ret total_bind)

def indexAt (xs : List α) (i : Nat) : Outcome α :=
  match xs[i]? with
  | some x => .ret x
  | none => .crash .indexOutOfRange

def sliceOf (xs : List α) (lo hi : Nat) : Outcome (List α) :=
  if lo ≤ hi ∧ hi ≤ xs.length then .ret ((xs.drop lo).take (hi - lo))
  else .crash .sliceOutOfRange

def maxAlloc : Nat := 2 ^ 48

def makeCheck (size n : Nat) : Outcome Unit :=
  if size * n ≤ maxAlloc then .ret () else .crash .makeLenOutOfRange

variable {xs : List α} {i hi lo n size : Nat}

theorem indexAt_returns : (indexAt xs i).Returns ↔ i < xs.length := by
  unfold indexAt
  cases h : xs[i]? with
  | none => simpa using List.getElem?_eq_none_iff.mp h
  | some x => simpa using (List.getElem?_eq_some_iff.mp h).1

theorem indexAt_of_lt (h : i < xs.length) : indexAt xs i = .ret xs[i] := by
  simp [indexAt, List.getElem?_eq_getElem h]

theorem sliceOf_returns :
    (sliceOf xs lo hi).Returns ↔ lo ≤ hi ∧ hi ≤ xs.length := by
  unfold sliceOf
  split
  · next h => simpa using h
  · next h => simpa using h

theorem indexAt_total : (indexAt xs i).Total fun _ => True := by
  unfold indexAt
  cases xs[i]? <;> simp

theorem sliceOf_total :
    (sliceOf xs lo hi).Total fun _ => lo ≤ hi ∧ hi ≤ xs.length := by
  unfold sliceOf
  split
  · next h => simpa using h
  · exact Outcome.total_crash

theorem sliceOf_of_le (h : lo ≤ hi) (h' : hi ≤ xs.length) :
    sliceOf xs lo hi = .ret ((xs.drop lo).take (hi - lo)) := by
  simp [sliceOf, h, h']

theorem sliceOf_eq_ret {ys : List α} :
    sliceOf xs lo hi = .ret ys ↔ lo ≤ hi ∧ hi ≤ xs.length ∧ (xs.drop lo).take (hi - lo) = ys := by
  unfold sliceOf
  split
  · next h => simp [h]
  · next h => simp [← and_assoc, h]

theorem sliceOf_crash (h : hi < lo ∨ xs.length < hi) :
    sliceOf xs lo hi = .crash .sliceOutOfRange := by
  have : ¬ (lo ≤ hi ∧ hi ≤ xs.length) := by omega
  simp [sliceOf, this]

theorem makeCheck_total : (makeCheck size n).Total fun _ => True := by
  unfold makeCheck
  split <;> simp

theorem makeCheck_bind_returns {β : Type} {k : Unit → Outcome β} :
    (makeCheck size n >>= k).Returns ↔ size * n ≤ maxAlloc ∧ (k ()).Returns := by
  unfold makeCheck
  split
  · next h => simp [h]
  · next h => simp [h]

theorem makeCheck_eq_ret {u : Unit} :
    makeCheck size n = .ret u ↔ size * n ≤ maxAlloc := by
  unfold makeCheck
  split
  · next h => simp [h]
  · next h => simp [h]

theorem makeCheck_of_le (h : size * n ≤ maxAlloc) : makeCheck size n = .ret () :=
  makeCheck_eq_ret.mpr h

inductive Flow (σ ρ : Type u) where
  | next (s : σ)
  | done (r : ρ)
  deriving DecidableEq

def loop {σ ρ : Type u} (body : σ → Outcome (Flow σ ρ)) : Nat → σ → Outcome ρ
  | 0, _ => .hang
  | fuel + 1, s => do
    match ← body s with
    | .next s' => loop body fuel s'
    | .done r => .ret r

inductive Steps {σ ρ : Type u} (body : σ → Outcome (Flow σ ρ)) : Nat → σ → σ → Prop where
  | refl (s : σ) : Steps body 0 s s
  | head {s s₁ s₂ : σ} {k : Nat} (h : body s = .ret (.next s₁)) (hs : Steps body k s₁ s₂) :
    Steps body (k + 1) s s₂

section

variable {σ ρ : Type u} {body : σ → Outcome (Flow σ ρ)} {s s₁ s₂ : σ} {k n m : Nat}

@[simp] theorem loop_zero : loop body 0 s = .hang := rfl

theorem loop_next (h : body s = .ret (.next s₁)) : loop body (n + 1) s = loop body n s₁ := by
  simp [loop, h]

theorem loop_done {r : ρ} (h : body s = .ret (.done r)) : loop body (n + 1) s = .ret r := by
  simp [loop, h]

theorem loop_crash {f : Fault} (h : body s = .crash f) : loop body (n + 1) s = .crash f := by
  simp [loop, h]

theorem loop_hang (h : body s = .hang) : loop body (n + 1) s = .hang := by
  simp [loop, h]

theorem loop_steps (hs : Steps body k s s₁) : loop body (k + n) s = loop body n s₁ := by
  induction hs with
  | refl s => simp
  | @head s s₁ s₂ k h _ ih =>
    rw [show k + 1 + n = (k + n) + 1 by omega, loop_next h, ih]

theorem loop_eq_ret {r : ρ} :
    loop body n s = .ret r ↔ ∃ k s', k < n ∧ Steps body k s s' ∧ body s' = .ret (.done r) := by
  constructor
  · intro h
    induction n generalizing s with
    | zero => simp at h
    | succ n ih =>
      cases hb : body s with
      | crash f => simp [loop_crash hb] at h
      | hang => simp [loop_hang hb] at h
      | ret flow =>
        cases flow with
        | done r' =>
          rw [loop_done hb] at h
          cases h
          exact ⟨0, s, by omega, .refl s, hb⟩
        | next s₁ =>
          rw [loop_next hb] at h
          obtain ⟨k, s', hk, hs, hd⟩ := ih h
          exact ⟨k + 1, s', by omega, .head hb hs, hd⟩
  · rintro ⟨k, s', hk, hs, hd⟩
    obtain ⟨j, rfl⟩ : ∃ j, n = k + (j + 1) := ⟨n - k - 1, by omega⟩
    rw [loop_steps hs, loop_done hd]

theorem Steps.invariant {I : σ → Prop} (hs : Steps body k s s₁) (h₀ : I s)
    (step : ∀ a b, I a → body a = .ret (.next b) → I b) : I s₁ := by
  induction hs with
  | refl s => exact h₀
  | head h _ ih => exact ih (step _ _ h₀ h)

theorem loop_ne_hang {I : σ → Prop} {μ : σ → Nat} (h₀ : I s)
    (step : ∀ a b, I a → body a = .ret (.next b) → I b ∧ μ b < μ a)
    (total : ∀ a, I a → body a ≠ .hang) (hn : μ s < n) : loop body n s ≠ .hang := by
  induction n generalizing s with
  | zero => omega
  | succ n ih =>
    cases hb : body s with
    | hang => exact absurd hb (total s h₀)
    | crash f => simp [loop_crash hb]
    | ret flow =>
      cases flow with
      | done r => simp [loop_done hb]
      | next s₁ =>
        rw [loop_next hb]
        obtain ⟨hi, hμ⟩ := step _ _ h₀ hb
        exact ih hi (by omega)

end

end Strawberry
